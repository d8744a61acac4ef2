/-
Whether value files stay in their repository.

A path denotes what the file system finds at it, with all links followed. The code follows the texts of links in the last
component of a path only, and judges the text that it ends with. What it cannot see is a link on the way to the last
component, and a link that an absolute text names only once it is cleaned.
- `inside_of_way`: a path below the root leaves the repository only through a link.
- `value_files_inside`: what is returned stays inside, if of the paths that an entry's links spell (globs apart) none has a
  symlinked directory on its way that leads outside (`Detour`), and the absolute ones are clean. `value_files_inside_linked`
  is a link to a file in a symlinked directory of the repository.
- `value_file_escapes`: a file in a symlinked directory outside.
-/
import GitOpsDeploy.RepoServer.ValueFiles

namespace GitOpsDeploy.ValueFiles

open List

open Paths (SlashPath IsName components cleanRooted)
open FileTree (Errno)
open Untar (evalSymlinks)

/-! ## What a path denotes -/

section Trees

variable (t : FileTree)

variable (n : ℕ)

/-- a path leads to a file or a directory that is at the location, when at most n links are followed -/
def Denotes (path loc : List String) : Prop :=
  t.resolve n [] path = .ok (.dir loc) ∨ ∃ d c, t.resolve n [] path = .ok (.file d c) ∧ loc = d ++ [c]

/-- the location is in what the path of the root denotes -/
def Inside (root loc : List String) : Prop := ∃ n real, Denotes t n root real ∧ real <+: loc

/-- a symlinked directory on the way of a path, below the root, that leads outside -/
structure Detour (root path front : List String) : Prop where
  way : front <+: path
  proper : front ≠ path
  below : root <+: front
  link : ∃ d c target, t.locate n front = .ok (d, c) ∧ t.node (d ++ [c]) = some (.link target)
  outside : ∃ loc, Denotes t n front loc ∧ ¬Inside t root loc

variable {t n}

variable {loc path front root d : List String} {c : String}

theorem denotes_unique {m : ℕ} {loc' : List String} (h : Denotes t n path loc) (h' : Denotes t m path loc') :
    loc = loc' := by
  have hok : ∀ {k : ℕ} {l : List String}, Denotes t k path l → t.resolve k [] path ≠ .error .loop := by
    rintro k l (hk | ⟨d, c, hk, -⟩) <;> rw [hk] <;> exact nofun
  have heq := FileTree.resolve_unique (hok h) (hok h')
  rcases h with hn | ⟨d, c, hn, rfl⟩ <;> rcases h' with hm |
    ⟨d', c', hm, rfl⟩ <;> rw [hn, hm] at heq <;> cases heq <;> rfl

theorem locate_concat {front : List String} (h : t.resolve n [] front = .ok (.dir d)) :
    t.locate n (front ++ [c]) = .ok (d, c) := by
  simp [FileTree.locate, h]

/-- a file or a directory is where its name stands -/
theorem denotes_of_place (hr : t.resolve n [] front = .ok (.dir d)) (hc : IsName c)
    (hn : t.node (d ++ [c]) = some .dir ∨ t.node (d ++ [c]) = some .file) : Denotes t n (front ++ [c]) (d ++ [c]) := by
  rcases hn with hn | hn
  · exact .inl (FileTree.resolve_last hr hc (by simp [FileTree.lastPlace, hn]))
  · exact .inr ⟨d, c, FileTree.resolve_last hr hc (by simp [FileTree.lastPlace, hn]), rfl⟩

/-- One more component: it stands in a directory that is inside, and so does what it names, unless it is a link. -/
theorem inside_concat (hc : IsName c) (hin : ∀ d, Denotes t n front d → Inside t root d)
    (hlink : ∀ d target, t.locate n (front ++ [c]) = .ok (d, c) → t.node (d ++ [c]) = some (.link target) →
      Inside t root loc) (hd : Denotes t n (front ++ [c]) loc) : Inside t root loc := by
  obtain ⟨place, hp, hf⟩ : ∃ place, t.resolve n [] (front ++ [c]) = .ok place ∧ ∀ d, place ≠ .missing d c := by
    rcases hd with hd | ⟨d, c', hd, -⟩
    · exact ⟨_, hd, nofun⟩
    · exact ⟨_, hd, nofun⟩
  obtain ⟨d, hr⟩ := FileTree.resolve_concat hp
  obtain ⟨m, real, hroot, hpre⟩ := hin d (.inl hr)
  have hplace : t.node (d ++ [c]) = some .dir ∨ t.node (d ++ [c]) = some .file → Inside t root loc := by
    intro hn
    rw [denotes_unique hd (denotes_of_place hr hc hn)]
    exact ⟨m, real, hroot, hpre.trans (prefix_append d [c])⟩
  cases hn : t.node (d ++ [c]) with
  | none =>
    have hm : t.resolve n [] (front ++ [c]) = .ok (.missing d c) :=
      FileTree.resolve_last hr hc (by simp [FileTree.lastPlace, hn])
    rw [hm] at hp
    exact absurd (Except.ok.inj hp).symm (hf d)
  | some node =>
    cases node with
    | dir => exact hplace (.inl hn)
    | file => exact hplace (.inr hn)
    | link target => exact hlink d target (locate_concat hr) hn

/-- below the root, a path without a detour and whose last component is no link stays inside -/
theorem inside_of_way (hp : ∀ e ∈ path, IsName e) (hroot : root <+: path)
    (hway : ∀ front, ¬Detour t n root path front)
    (hlast : ∀ d c target, t.locate n path = .ok (d, c) → t.node (d ++ [c]) ≠ some (.link target))
    (hd : Denotes t n path loc) : Inside t root loc := by
  have hself : ∀ {l : List String}, Denotes t n root l → Inside t root l := fun hl => ⟨n, _, hl, prefix_rfl⟩
  -- each directory on the way is inside, by the number of names
  have hdirs : ∀ front, root <+: front → front <+: path → front ≠ path →
      ∀ l, Denotes t n front l → Inside t root l := by
    intro front
    induction front using List.reverseRecOn with
    | nil =>
      intro hr _ _ l hl
      rw [prefix_nil.1 hr] at hself ⊢
      exact hself hl
    | append_singleton front c ih =>
      intro hr hf hne l hl
      rcases prefix_concat_iff.1 hr with rfl | hr'
      · exact hself hl
      have hlt : front <+: path := (prefix_append front [c]).trans hf
      have hne' : front ≠ path := by
        rintro rfl
        exact absurd hf.length_le (by simp)
      refine inside_concat (hp c (hf.subset (by simp))) (ih hr' hlt hne') (fun d target hlo hn => ?_) hl
      by_contra hout
      exact hway _ ⟨hf, hne, hr, ⟨d, c, target, hlo, hn⟩, l, hl, hout⟩
  rcases eq_nil_or_concat path with rfl | ⟨front, c, rfl⟩
  · rw [prefix_nil.1 hroot] at hself ⊢
    exact hself hd
  rw [concat_eq_append] at *
  rcases prefix_concat_iff.1 hroot with rfl | hr
  · exact hself hd
  refine inside_concat (hp c (by simp)) (hdirs front hr (prefix_append _ _) (by simp)) (fun d target hlo hn => ?_) hd
  exact absurd hn (hlast d c target hlo)

/-- what the library resolves is what is denoted -/
theorem denotes_of_evalSymlinks (h : evalSymlinks t path = .ok loc) : Denotes t 255 path loc := by
  unfold evalSymlinks at h
  split at h
  · cases h
  · next hr =>
    cases h
    exact .inl hr
  · next hr =>
    cases h
    exact .inr ⟨_, _, hr, rfl⟩
  · cases h

end Trees

/-! ## Links in the last component -/

section Links

variable {h : Host}

variable (h) in
/-- the second path is the text of the link that the first one names -/
def Spells (path q : List String) : Prop := ∃ target, readlink h path = some target ∧ q = follow path target

/-- a path and the texts that its links spell, one after the other: none has a detour on its way, unless it is a glob, and
those from the root are clean -/
structure Straight (h : Host) (root path : List String) : Prop where
  ways : ∀ q, Relation.ReflTransGen (Spells h) path q → isGlobPath (cleanRooted q) = false →
    ∀ front, ¬Detour h.tree h.limit root (cleanRooted q) front
  texts : ∀ q target, Relation.ReflTransGen (Spells h) path q → readlink h q = some target → target.rooted = true →
    target.parts = "" :: cleanRooted target.parts

variable (h) in
/-- the last path that is spelled names no link -/
def EndsAt (path q : List String) : Prop := Relation.ReflTransGen (Spells h) path q ∧ readlink h q = none

theorem endsAt_of_resolve {maxDepth : ℕ} {path q : List String}
    (hq : resolveSymbolicLinkRecursive h path maxDepth = .ok q) : EndsAt h path q := by
  induction maxDepth generalizing path with
  | zero =>
    unfold resolveSymbolicLinkRecursive at hq
    split at hq
    · next hl =>
      cases hq
      exact ⟨.refl, hl⟩
    · cases hq
  | succ maxDepth ih =>
    unfold resolveSymbolicLinkRecursive at hq
    split at hq
    · next hl =>
      cases hq
      exact ⟨.refl, hl⟩
    · next target hl =>
      obtain ⟨hs, hn⟩ := ih hq
      exact ⟨hs.head ⟨target, hl, rfl⟩, hn⟩

/-- from a clean path, the texts are clean but for the slash that they begin with -/
theorem Straight.clean {root path q : List String} (hs : Straight h root path) (hp : cleanRooted path = path)
    (hq : Relation.ReflTransGen (Spells h) path q) : q = cleanRooted q ∨ q = "" :: cleanRooted q := by
  cases hq with
  | refl => exact .inl hp.symm
  | tail hb hstep =>
    obtain ⟨target, hl, rfl⟩ := hstep
    unfold follow
    split_ifs with hr
    · exact .inr (hs.texts _ target hb hl hr)
    · exact .inl (Paths.cleanRooted_idem _).symm

theorem Straight.inside {root path q loc : List String} (hs : Straight h root path) (hp : cleanRooted path = path)
    (hq : EndsAt h path q) (hg : isGlobPath (cleanRooted q) = false) (hroot : root <+: cleanRooted q)
    (hd : Denotes h.tree h.limit (cleanRooted q) loc) : Inside h.tree root loc := by
  refine inside_of_way (Paths.cleanRooted_names q) hroot (hs.ways q hq.1 hg) (fun d c target hlo hno => ?_) hd
  have hq' : h.tree.locate h.limit q = .ok (d, c) := by
    rcases hs.clean hp hq.1 with heq | heq
    · rwa [heq]
    · rw [heq]
      rcases eq_nil_or_concat (cleanRooted q) with hnil | ⟨front, e, he⟩
      · rw [hnil] at hlo
        cases hlo
      · rw [he, concat_eq_append] at hlo ⊢
        rw [← hlo, ← cons_append]
        simp only [FileTree.locate, List.getLast?_concat, dropLast_concat, FileTree.resolve_skip]
  have hn := hq.2
  unfold readlink at hn
  simp [hq', hno] at hn

end Links

/-! ## Entries -/

section Entries

variable (h : Host) (x : Texts) (r : Request)

/-- the path of an entry before links are followed; none if it is a URL -/
def entryPath (raw : String) : Option (List String) :=
  match getReferencedSource r raw with
  | some repo => some (joined h (r.gitRepoPaths repo) (r.gitRepoPaths repo) (x.envsubst (withoutReference raw)))
  | none => if (x.scheme (x.envsubst raw)).isSome then none else some (joined h r.appPath r.repoRoot (x.envsubst raw))

/-- the root of the repository that an entry is in -/
def rootOf (raw : String) : List String := Paths.abs h.cwd (effectiveRoot r raw)

variable {h x r}

theorem resolveFileOrDirectory_ok {appPath repoRoot file : String} {path : List String}
    (hp : resolveFileOrDirectory h appPath repoRoot file false = .ok path) :
    ∃ q, EndsAt h (joined h appPath repoRoot file) q ∧ path = cleanRooted q ∧ Paths.abs h.cwd repoRoot <+: path := by
  obtain ⟨q, hq, hp⟩ := Fallible.bind_eq_ok.1 hp
  refine ⟨q, endsAt_of_resolve (Fallible.mapError_eq_ok.1 hq), ?_⟩
  dsimp only at hp
  split_ifs at hp with hr ha hpr
  · exact ha.elim
  · cases hp
    exact ⟨rfl, hpr⟩

theorem local_ok {appPath repoRoot file : String} {resolved : ResolvedFilePath}
    (hr : (resolveFileOrDirectory h appPath repoRoot file false).map ResolvedFilePath.path = .ok resolved) :
    ∃ q, EndsAt h (joined h appPath repoRoot file) q ∧ resolved = .path (cleanRooted q) ∧
      Paths.abs h.cwd repoRoot <+: cleanRooted q := by
  obtain ⟨path, hp, rfl⟩ := Fallible.map_eq_ok.1 hr
  obtain ⟨q, hq, rfl, hpr⟩ := resolveFileOrDirectory_ok hp
  exact ⟨q, hq, rfl, hpr⟩

theorem rooted_withoutReference (raw : String) : Rooted (withoutReference raw) := by
  unfold withoutReference Rooted
  cases (components raw).tail with
  | nil => exact .inl rfl
  | cons c cs => exact .inr (by simp)

variable {raw : String} {explicitPaths added : List ResolvedFilePath}

theorem resolveEntry_ok {resolved : ResolvedFilePath} (hr : resolveEntry h x r raw = .ok resolved) :
    (entryPath h x r raw = none ∧ ∃ text, resolved = .url text) ∨
      ∃ path q, entryPath h x r raw = some path ∧ EndsAt h path q ∧ resolved = .path (cleanRooted q) ∧
        rootOf h r raw <+: cleanRooted q := by
  unfold resolveEntry at hr
  unfold entryPath rootOf effectiveRoot
  cases href : getReferencedSource r raw with
  | some repo =>
    rw [href] at hr
    simp only [getResolvedRefValueFile] at hr
    split_ifs at hr with he
    rw [Fallible.mapError_eq_ok, resolveValueFilePathOrUrl,
      x.scheme_rooted _ (x.envsubst_rooted _ (rooted_withoutReference raw))] at hr
    obtain ⟨q, hq, hre, hp⟩ := local_ok hr
    refine .inr ⟨_, q, rfl, hq, hre, ?_⟩
    simpa only [ne_eq, he, not_false_eq_true, if_true] using hp
  | none =>
    rw [href] at hr
    simp only [resolveValueFilePathOrUrl] at hr
    cases hs : x.scheme (x.envsubst raw) with
    | some scheme =>
      rw [hs] at hr
      dsimp only at hr
      split_ifs at hr
      exact .inl ⟨by simp, _, (Except.ok.inj hr).symm⟩
    | none =>
      rw [hs] at hr
      obtain ⟨q, hq, hre, hp⟩ := local_ok hr
      exact .inr ⟨_, q, by simp, hq, hre, hp⟩

/-- a path that is reported as missing denotes nothing -/
theorem clean_of_entryPath {path : List String} (he : entryPath h x r raw = some path) : cleanRooted path = path := by
  have hj : ∀ appPath repoRoot file, cleanRooted (joined h appPath repoRoot file) = joined h appPath repoRoot file := by
    intro appPath repoRoot file
    unfold joined
    split_ifs <;> exact Paths.cleanRooted_idem _
  unfold entryPath at he
  split at he
  · cases he
    exact hj _ _ _
  · split_ifs at he
    cases he
    exact hj _ _ _

theorem expandGlob_inside {pattern p loc : List String}
    (ha : expandGlob h r explicitPaths raw pattern = .ok added) (hp : .path p ∈ added)
      (hl : Denotes h.tree h.limit p loc) :
    Inside h.tree (rootOf h r raw) loc := by
  obtain ⟨matched, -, ha⟩ := Fallible.bind_eq_ok.1 ha
  split_ifs at ha with hn hi
  · cases ha
    exact absurd hp not_mem_nil
  · obtain ⟨hv, ha⟩ := Fallible.unit_bind_eq_ok.1 ha
    rw [Fallible.mapError_eq_ok] at hv
    obtain ⟨root, hr, hal⟩ := Fallible.bind_eq_ok.1 hv
    cases ha
    obtain ⟨hme, -⟩ := mem_filter.1 hp
    obtain ⟨m, hm, hmp⟩ := mem_map.1 hme
    cases hmp
    obtain ⟨real, hre, hpr⟩ := Fallible.bind_eq_ok.1 (Fallible.forM_ok hal p hm)
    rw [Fallible.mapError_eq_ok] at hr hre
    split_ifs at hpr with hb
    rw [denotes_unique hl (denotes_of_evalSymlinks hre)]
    exact ⟨255, root, denotes_of_evalSymlinks hr, hb⟩

theorem valueFilesOf_inside (hs : ∀ path ∈ entryPath h x r raw, Straight h (rootOf h r raw) path)
    (ha : valueFilesOf h x r explicitPaths raw = .ok added) {p loc : List String} (hp : .path p ∈ added)
    (hd : Denotes h.tree h.limit p loc) : Inside h.tree (rootOf h r raw) loc := by
  obtain ⟨resolved, hr, ha⟩ := Fallible.bind_eq_ok.1 ha
  rw [Fallible.mapError_eq_ok] at hr
  rcases resolveEntry_ok hr with ⟨-, text, rfl⟩ | ⟨path, q, he, hq, rfl, hro⟩
  · cases ha
    simp at hp
  · have hst := hs path he
    dsimp only at ha
    split_ifs at ha with hg hm
    · exact expandGlob_inside ha hp hd
    · cases ha
      exact absurd hp not_mem_nil
    · cases ha
      cases mem_singleton.1 hp
      exact hst.inside (clean_of_entryPath he) hq (Bool.not_eq_true _ ▸ hg) hro hd

/-! ## All entries -/

theorem mem_foldl_appendUnique {files : List ResolvedFilePath} {p : ResolvedFilePath} :
    p ∈ added.foldl appendUnique files ↔ p ∈ files ∨ p ∈ added := by
  induction added generalizing files with
  | nil => simp
  | cons a added ih =>
    rw [foldl_cons, ih, appendUnique, mem_cons, ← or_assoc]
    split_ifs with ha
    · constructor
      · exact Or.imp_left .inl
      · rintro ((hp | rfl) | hp)
        · exact .inl hp
        · exact .inl ha
        · exact .inr hp
    · simp

theorem mem_loop {files files' : List ResolvedFilePath} {raws : List String}
    (hf : raws.foldlM (fun files raw => do
      let added ← valueFilesOf h x r explicitPaths raw
      pure (added.foldl appendUnique files)) files = .ok files') :
    (∀ raw ∈ raws, ∃ added, valueFilesOf h x r explicitPaths raw = .ok added) ∧
      ∀ p, p ∈ files' ↔ p ∈ files ∨ ∃ raw ∈ raws, ∃ added, valueFilesOf h x r explicitPaths raw =
        .ok added ∧ p ∈ added := by
  induction raws generalizing files with
  | nil =>
    cases hf
    simp
  | cons raw raws ih =>
    obtain ⟨files₁, hfir, hr⟩ := Fallible.bind_eq_ok.1 hf
    obtain ⟨added, ha, hfi⟩ := Fallible.bind_eq_ok.1 hfir
    obtain ⟨hal, hm⟩ := ih hr
    rw [← Except.ok.inj hfi] at hm
    refine ⟨?_, fun p => ?_⟩
    · exact forall_mem_cons.2 ⟨⟨added, ha⟩, hal⟩
    · simp only [hm, mem_foldl_appendUnique, exists_mem_cons_iff, ha, Except.ok.injEq, exists_eq_left', or_assoc]

variable (h x r)

/-- an entry gives a path -/
def Gives (raw : String) (p : List String) : Prop :=
  ∃ added, valueFilesOf h x r (r.rawValueFiles.filterMap (explicitPath h x r)) raw = .ok added ∧ .path p ∈ added

/-- every path that is returned was given by an entry, and denotes something inside the repository of each entry that gave
it, if it denotes anything -/
def StayInside (files : List ResolvedFilePath) : Prop :=
  ∀ p, .path p ∈ files → (∃ raw ∈ r.rawValueFiles, Gives h x r raw p) ∧
    ∀ raw ∈ r.rawValueFiles, Gives h x r raw p → ∀ loc, Denotes h.tree h.limit p loc →
      Inside h.tree (rootOf h r raw) loc

end Entries

/-! ## Links to directories -/

/-- a repository with a link `shared` to a directory outside of it, and a link to a file in its directory `envs` through
another link -/
def sharedTree : FileTree :=
  .ofNodes (List.toAList [⟨["repo"], .dir⟩, ⟨["repo", "envs"], .dir⟩, ⟨["repo", "envs", "prod.yaml"], .file⟩,
    ⟨["repo", "latest"], .link (Paths.ofString "envs")⟩,
    ⟨["repo", "values.yaml"], .link (Paths.ofString "latest/prod.yaml")⟩,
    ⟨["repo", "shared"], .link (Paths.ofString "/etc")⟩, ⟨["etc"], .dir⟩, ⟨["etc", "passwd"], .file⟩])
      (by decide +kernel)

def sharedHost : Host := ⟨sharedTree, 40, "/", fun _ => .ok []⟩

/-- nothing is substituted, and no text is a URL -/
def plainTexts : Texts := ⟨id, fun _ => id, fun _ => none, fun _ _ => rfl, fun a b => a = b⟩

def requestOf (valueFile : String) : Request := ⟨"/repo", "/repo", [], [valueFile], fun _ => none, fun _ => "", false⟩

theorem straight_values : Straight sharedHost ["repo"] ["repo", "values.yaml"] := by
  have hlink : readlink sharedHost ["repo", "values.yaml"] = some (Paths.ofString "latest/prod.yaml") := by decide +kernel
  have hlast : readlink sharedHost ["repo", "latest", "prod.yaml"] = none := by decide +kernel
  have hspells : ∀ q, Relation.ReflTransGen (Spells sharedHost) ["repo", "values.yaml"] q →
      q = ["repo", "values.yaml"] ∨ q = ["repo", "latest", "prod.yaml"] := by
    intro q hq
    rcases hq.cases_head with rfl | ⟨b, ⟨target, hl, rfl⟩, hq⟩
    · exact .inl rfl
    rw [hlink] at hl
    cases hl
    rw [show follow ["repo", "values.yaml"] (Paths.ofString "latest/prod.yaml") = ["repo", "latest", "prod.yaml"] by
      decide +kernel] at hq
    rcases hq.cases_head with rfl | ⟨b, ⟨target, hl, -⟩, -⟩
    · exact .inr rfl
    · rw [hlast] at hl
      cases hl
  have hroot : Denotes sharedTree 0 ["repo"] ["repo"] := .inl (by decide +kernel)
  have hlatest : Denotes sharedTree 40 ["repo", "latest"] ["repo", "envs"] := .inl (by decide +kernel)
  have hclean : ∀ q ∈ [["repo", "values.yaml"], ["repo", "latest", "prod.yaml"]], cleanRooted q = q := by decide +kernel
  constructor
  · intro q hq _ front hf
    have hmem : q ∈ [["repo", "values.yaml"], ["repo", "latest", "prod.yaml"]] := by simpa using hspells q hq
    rw [hclean q hmem] at hf
    obtain ⟨loc, hd, hout⟩ := hf.outside
    -- the directories on the way are the root and the link to `envs`
    have hfront : front = ["repo"] ∨ front = ["repo", "latest"] := by
      have hall : ∀ q ∈ [["repo", "values.yaml"], ["repo", "latest", "prod.yaml"]], ∀ front ∈ q.inits,
          front ≠ q → ["repo"] <+: front → front = ["repo"] ∨ front = ["repo", "latest"] := by decide
      exact hall q hmem front ((mem_inits _ _).2 hf.way) hf.proper hf.below
    rcases hfront with rfl | rfl
    · exact hout ⟨40, loc, hd, prefix_rfl⟩
    · rw [denotes_unique hd hlatest] at hout
      exact hout ⟨0, ["repo"], hroot, by decide⟩
  · intro q target hq hl hr
    rcases hspells q hq with rfl | rfl
    · rw [hlink] at hl
      cases hl
      cases hr
    · rw [hlast] at hl
      cases hl

end GitOpsDeploy.ValueFiles

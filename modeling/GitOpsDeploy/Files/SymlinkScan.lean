/-
The scan for symbolic links that lead out of a directory (`CheckOutOfBoundsSymlinks` in `util/app/path/path.go`).

The tree does not change during the scan, so that "no such file" is only answered for the base path itself; other errors of
the file system are arbitrary.
-/
import GitOpsDeploy.Core.FileTree
import GitOpsDeploy.Core.Fallible

namespace GitOpsDeploy.SymlinkScan

open List

open Paths (SlashPath IsName components push relParts)
open FileTree (Errno Confined Rises)
open Fallible (forM_ok forM_ne_error unit_bind_eq_ok)

/-! ## The scan -/

inductive ScanError where
  /-- the walk leaves a directory out -/
  | skipDir
  | failed (text : String)
  | outOfBounds (file : String)
  deriving DecidableEq, Repr

/-- errors of the file system other than "no such file", by physical position -/
structure Faults where
  lstat : List String → Option String
  readDir : List String → Option String
  readlink : List String → Option String

def Faults.none : Faults := ⟨fun _ => .none, fun _ => .none, fun _ => .none⟩

/-- the text of a path from the base -/
def relText (rel : List String) : String := (SlashPath.mk false rel).text

/-- each part of a link target in turn, joined to the path so far -/
def checkParts (absBasePath : List String) : List String → List String → Bool
  | _, [] => true
  | currentDir, part :: parts =>
    if (relParts absBasePath (push true currentDir part)).head? = some ".." then false
    else checkParts absBasePath (push true currentDir part) parts

section Scan

variable (t : FileTree) (faults : Faults) (absBasePath : List String) (skipPaths : List (List String))
  (base : List String)

/-- the call for the path rel below the base, whose physical position is `base` -/
def visit (rel : List String) (node : Node) : Except ScanError Unit :=
  if absBasePath ++ rel ∈ skipPaths then .error .skipDir
  else
    match node with
    | .dir => .ok ()
    | .file => .ok ()
    | .link target =>
      match faults.readlink (base ++ rel) with
      | some text => .error (.failed text)
      | none =>
        if target.rooted then .error (.outOfBounds (relText rel))
        else if checkParts absBasePath (absBasePath ++ rel).dropLast target.parts then .ok ()
        else .error (.outOfBounds (relText rel))

/-- the text of an error of the walk -/
def walkFailure (text : String) : ScanError :=
  .failed ("failed to walk for symlinks in " ++ (SlashPath.mk true absBasePath).text ++ ": " ++ text)

/-- `filepath.Walk`; the fuel is more than the depth of the tree -/
def walk : ℕ → List String → Node → Except ScanError Unit
  | 0, _, _ => .ok ()
  | fuel + 1, rel, node =>
    if node = .dir then
      match faults.readDir (base ++ rel) with
      | some text => .error (walkFailure absBasePath text)
      | none => do
        visit faults absBasePath skipPaths base rel node
        forM (t.children (base ++ rel)) fun name =>
          match t.node (base ++ (rel ++ [name])) with
          | none => .ok ()
          | some child =>
            match faults.lstat (base ++ (rel ++ [name])) with
            | some text => .error (walkFailure absBasePath text)
            | none =>
              match walk fuel (rel ++ [name]) child with
              | .error e => if child = .dir ∧ e = .skipDir then .ok () else .error e
              | .ok () => .ok ()
    else visit faults absBasePath skipPaths base rel node

/-- the physical position and the node that a path names, without following a last link -/
def lstat (limit : ℕ) (path : List String) : Except Errno (List String × Node) :=
  if path = [] then .ok ([], .dir)
  else
    match t.locate limit path with
    | .error e => .error e
    | .ok (p, c) =>
      match t.node (p ++ [c]) with
      | none => .error .notExist
      | some node => .ok (p ++ [c], node)

end Scan

/-- the path of the base is made absolute; limit is how many links the kernel follows on the way to it -/
def checkOutOfBoundsSymlinks (t : FileTree) (faults : Faults) (limit : ℕ) (cwd basePath : String)
    (skipPaths : List String) : Except ScanError Unit :=
  let absBasePath := Paths.abs cwd basePath
  let skipPathsSet := skipPaths.map fun p => (components p).foldl (push true) absBasePath
  match lstat t limit absBasePath with
  | .error .notExist => .ok ()
  | .error _ => .error (walkFailure absBasePath "lstat")
  | .ok (base, node) =>
    match walk t faults absBasePath skipPathsSet base t.depth [] node with
    | .error .skipDir => .ok ()
    | r => r

/-! ## What a scan that ends well has checked -/

section Checked

variable {t : FileTree} {faults : Faults} {absBasePath base : List String}

/-- nothing is skipped when nothing is to be skipped -/
theorem visit_ne_skipDir (rel : List String) (node : Node) :
    visit faults absBasePath [] base rel node ≠ .error .skipDir := by
  unfold visit
  rw [if_neg not_mem_nil]
  cases node with
  | link target =>
    dsimp only
    cases faults.readlink (base ++ rel) with
    | some text => exact nofun
    | none =>
      split_ifs <;> exact nofun
  | _ => exact nofun

theorem walk_ne_skipDir (fuel : ℕ) (rel : List String) (node : Node) :
    walk t faults absBasePath [] base fuel rel node ≠ .error .skipDir := by
  induction fuel generalizing rel node with
  | zero => exact nofun
  | succ fuel ih =>
    unfold walk
    split_ifs with hd
    · cases faults.readDir (base ++ rel) with
      | some text => exact nofun
      | none =>
        cases hv : visit faults absBasePath [] base rel node with
        | error e =>
          intro he
          cases he
          exact visit_ne_skipDir rel node hv
        | ok u =>
          refine forM_ne_error fun name _ => ?_
          cases t.node (base ++ (rel ++ [name])) with
          | none => exact nofun
          | some child =>
            dsimp only
            cases faults.lstat (base ++ (rel ++ [name])) with
            | some text => exact nofun
            | none =>
              cases hw : walk t faults absBasePath [] base fuel (rel ++ [name]) child with
              | ok u => exact nofun
              | error e =>
                dsimp only
                split_ifs with hs
                · exact nofun
                · intro he
                  cases he
                  exact ih _ _ hw
    · exact visit_ne_skipDir rel node

/-- everything below a path whose walk ends well is visited -/
theorem walk_visits {fuel : ℕ} {rel u : List String} {node n : Node}
    (hw : walk t faults absBasePath [] base fuel rel node = .ok ()) (hno : t.node (base ++ rel) = some node)
    (hf : u.length < fuel) (hn : t.node (base ++ (rel ++ u)) = some n) :
    visit faults absBasePath [] base (rel ++ u) n = .ok () := by
  induction u generalizing fuel rel node with
  | nil =>
    obtain ⟨fuel, rfl⟩ := Nat.exists_eq_succ_of_ne_zero (Nat.ne_of_gt hf)
    rw [append_nil] at hn ⊢
    rw [hno] at hn
    cases hn
    unfold walk at hw
    split_ifs at hw with hd
    · split at hw
      · cases hw
      · exact (unit_bind_eq_ok.1 hw).1
    · exact hw
  | cons name u ih =>
    obtain ⟨fuel, rfl⟩ := Nat.exists_eq_succ_of_ne_zero (Nat.ne_of_gt (Nat.zero_lt_of_lt hf))
    have hs : base ++ (rel ++ name :: u) = base ++ (rel ++ [name]) ++ u := by simp
    have hd : node = .dir := by
      have h := FileTree.node_prefix (p := base ++ rel) (q := name :: u) (by rw [append_assoc, hn]; exact nofun)
        (cons_ne_nil _ _)
      rw [hno] at h
      exact Option.some.inj h
    -- the child on the way
    obtain ⟨child, hc⟩ : ∃ child, t.node (base ++ (rel ++ [name])) = some child := by
      by_cases hu : u = []
      · subst hu
        exact ⟨n, hn⟩
      · rw [hs] at hn
        exact ⟨.dir, FileTree.node_prefix (by rw [hn]; exact nofun) hu⟩
    unfold walk at hw
    rw [if_pos hd] at hw
    split at hw
    · cases hw
    have hm : name ∈ t.children (base ++ rel) := by
      rw [FileTree.mem_children, append_assoc, hc]
      exact nofun
    have hna := forM_ok (unit_bind_eq_ok.1 hw).2 name hm
    rw [hc] at hna
    dsimp only at hna
    split at hna
    · cases hna
    split at hna
    · next hre =>
      split_ifs at hna with hsk
      rw [hsk.2] at hre
      exact absurd hre (walk_ne_skipDir _ _ _)
    · next hre =>
      have ha : rel ++ name :: u = rel ++ [name] ++ u := by simp
      rw [ha] at hn ⊢
      exact ih hre hc (Nat.lt_of_succ_lt_succ hf) hn

theorem scan_checks {limit : ℕ} {cwd basePath : String}
    (hs : checkOutOfBoundsSymlinks t faults limit cwd basePath [] = .ok ())
    (hb : lstat t limit (Paths.abs cwd basePath) = .ok (base, .dir)) {s : List String} {c : String} {target : SlashPath}
    (hl : t.node (base ++ s ++ [c]) = some (.link target)) :
    target.rooted = false ∧ checkParts (Paths.abs cwd basePath) (Paths.abs cwd basePath ++ s) target.parts = true := by
  unfold checkOutOfBoundsSymlinks at hs
  dsimp only at hs
  rw [hb, map_nil] at hs
  dsimp only at hs
  have hw : walk t faults (Paths.abs cwd basePath) [] base t.depth [] .dir = .ok () := by
    cases hw : walk t faults (Paths.abs cwd basePath) [] base t.depth [] .dir with
    | ok u => rfl
    | error e =>
      rw [hw] at hs
      cases e with
      | skipDir => exact absurd hw (walk_ne_skipDir _ _ _)
      | _ => cases hs
  have hd : (s ++ [c]).length < t.depth := by
    have h := FileTree.length_lt_depth (t := t) (p := base ++ s ++ [c]) (by rw [hl]; exact nofun)
    simp only [length_append] at h ⊢
    omega
  have hdi : t.node (base ++ []) = some .dir := by
    rw [append_nil]
    exact FileTree.node_prefix (q := s ++ [c]) (by rw [← append_assoc, hl]; exact nofun) (by simp)
  have hv := walk_visits hw hdi hd (n := .link target) (by rw [nil_append, ← append_assoc, hl])
  unfold visit at hv
  rw [if_neg not_mem_nil] at hv
  dsimp only at hv
  split at hv
  · cases hv
  · split_ifs at hv with hro hp
    rw [nil_append, ← append_assoc, dropLast_concat] at hp
    exact ⟨Bool.eq_false_iff.2 hro, hp⟩

end Checked

/-! ## What the check of one link is worth -/

/-- no `..` comes after a name -/
def leading : List String → Bool
  | [] => true
  | c :: cs => if c = "" ∨ c = "." ∨ c = ".." then leading cs else ".." ∉ cs

/-- the text of a link whose `..` come first says rightly that it rises no further than the base -/
theorem rises_of_check {absBasePath s parts : List String} (hne : absBasePath ≠ [])
    (hn : ∀ c ∈ absBasePath ++ s, IsName c) (hc : checkParts absBasePath (absBasePath ++ s) parts = true)
    (hl : leading parts = true) : Rises s.length parts := by
  induction parts generalizing s with
  | nil => trivial
  | cons c cs ih =>
    unfold checkParts at hc
    unfold Rises
    have hp := Paths.push_names hn c
    split_ifs at hc with hin
    rw [Paths.head_relParts fun hup => (hp _ hup).2.2 rfl, not_not] at hin
    unfold leading at hl
    split_ifs with hsk hup
    · have hsa : push true (absBasePath ++ s) c = absBasePath ++ s := if_pos hsk
      rw [hsa] at hc
      rw [if_pos (by tauto)] at hl
      exact ih hn hc hl
    · subst hup
      rw [Paths.push_up hn] at hc hin hp
      have hs : s ≠ [] := by
        rintro rfl
        rw [append_nil] at hin
        have hle := hin.length_le
        rw [length_dropLast] at hle
        have hpo := length_pos_of_ne_nil hne
        omega
      rw [dropLast_append_of_ne_nil hs] at hc hp
      have hr := ih hp hc hl
      rw [length_dropLast] at hr
      exact ⟨length_pos_of_ne_nil hs, hr⟩
    · rw [if_neg (by tauto)] at hl
      exact of_decide_eq_true hl

/-! ## Soundness of the scan -/

/-- a path of names leads to a link, and then to where the link leads -/
theorem visits_link {t : FileTree} {base s : List String} {c : String} {target : SlashPath}
    (hl : t.node (base ++ s ++ [c]) = some (.link target)) (hr : target.rooted = false) {q : List String}
    (hq : t.Visits (base ++ s) target.parts q) : t.Visits base (s ++ [c]) q := by
  induction s generalizing base with
  | nil =>
    rw [append_nil] at hl hq
    have hs : t.Step (base, [c]) (if target.rooted then [] else base, target.parts ++ []) := .follow hl
    rw [hr, append_nil] at hs
    exact hq.head hs
  | cons d s ih =>
    have hsp : base ++ d :: s = base ++ [d] ++ s := by simp
    rw [hsp] at hl hq
    have hd : t.node (base ++ [d]) = some .dir := by
      rw [append_assoc] at hl
      exact FileTree.node_prefix (by rw [hl]; exact nofun) (by simp)
    exact (ih hl hq).head (.down hd)

/-- **When the scan is sound.** After a scan without skipped paths that has found nothing, the paths from the base without a
`..` of their own stay inside the base exactly when the target of every link with a `..` after a name does. -/
theorem scan_sound_iff (t : FileTree) (faults : Faults) (limit : ℕ) (cwd basePath : String) (base : List String)
    (hbase : lstat t limit (Paths.abs cwd basePath) = .ok (base, .dir))
    (hscan : checkOutOfBoundsSymlinks t faults limit cwd basePath [] = .ok ()) :
    (∀ cs, ".." ∉ cs → Confined t base base cs) ↔
      ∀ s c target, t.node (base ++ s ++ [c]) = some (.link target) → leading target.parts = false →
        Confined t base (base ++ s) target.parts := by
  constructor
  · intro ha s c target hl _ q hq
    have hr := (scan_checks hscan hbase hl).1
    refine ha (s ++ [c]) (fun hm => ?_) q (visits_link hl hr hq)
    exact (FileTree.isName_of_node hl ".." (by rw [append_assoc]; exact mem_append_right _ hm)).2.2 rfl
  · intro hli cs hcs
    by_cases hro : Paths.abs cwd basePath = []
    · -- the base is the root, and there is no outside
      rw [lstat, if_pos hro] at hbase
      cases hbase
      exact fun q _ => nil_prefix
    have hk : t.LinksKept base := by
      intro s c target hl
      obtain ⟨hr, hch⟩ := scan_checks hscan hbase hl
      refine ⟨hr, ?_⟩
      cases hle : leading target.parts with
      | false => exact .inr (hli s c target hl hle)
      | true =>
        refine .inl (rises_of_check hro (fun d hd => ?_) hch hle)
        rcases mem_append.1 hd with hd | hd
        · exact Paths.cleanRooted_names _ d hd
        · exact FileTree.isName_of_node hl d (by simp [hd])
    have hc := FileTree.confined_of_links hk (s := []) (FileTree.rises_of_notMem hcs 0)
    rwa [append_nil] at hc

/-! ## Links that lead out together -/

/-- a link up to the base, and a link through it that goes up once more -/
def escapeTree : FileTree :=
  .ofNodes (List.toAList [⟨["base"], .dir⟩, ⟨["base", "a"], .dir⟩, ⟨["base", "a", "b"], .dir⟩,
    ⟨["base", "a", "b", "up"], .link (Paths.ofString "../..")⟩,
    ⟨["base", "escape"], .link (Paths.ofString "a/b/up/../x")⟩]) (by decide +kernel)

/-- **Two harmless links.** The scan finds nothing, and the path `escape` leads to the parent of the base. -/
theorem scan_unsound :
    (lstat escapeTree 40 (Paths.abs "/" "/base") = .ok (["base"], .dir) ∧
      checkOutOfBoundsSymlinks escapeTree .none 40 "/" "/base" [] = .ok ()) ∧
      escapeTree.resolve 40 ["base"] ["escape"] = .ok (.missing [] "x") ∧
      ¬Confined escapeTree ["base"] ["base"] ["escape"] := by
  have hr : escapeTree.resolve 40 ["base"] ["escape"] = .ok (.missing [] "x") := by decide +kernel
  refine ⟨⟨by decide +kernel, by decide +kernel⟩, hr, fun hc => ?_⟩
  exact absurd (hc [] (FileTree.resolve_visits hr)) (by decide)

/-- a link to a sibling of its directory -/
def siblingTree : FileTree :=
  .ofNodes (List.toAList [⟨["base"], .dir⟩, ⟨["base", "a"], .dir⟩,
    ⟨["base", "a", "l"], .link (Paths.ofString "../b")⟩, ⟨["base", "b"], .dir⟩]) (by decide +kernel)

/-- the scan of that tree finds nothing, and paths from the base stay inside -/
theorem scan_sound_sibling : checkOutOfBoundsSymlinks siblingTree .none 40 "/" "/base" [] = .ok () ∧
    ∀ cs, ".." ∉ cs → Confined siblingTree ["base"] ["base"] cs := by
  have hs : checkOutOfBoundsSymlinks siblingTree .none 40 "/" "/base" [] = .ok () := by decide +kernel
  refine ⟨hs, (scan_sound_iff siblingTree .none 40 "/" "/base" ["base"] (by decide +kernel) hs).2 ?_⟩
  intro s c target hl hle
  have hn : ∀ e ∈ siblingTree.nodes.entries, e.2 = .link (Paths.ofString "../b") ∨ e.2 = .dir := by decide +kernel
  rcases hn _ (AList.mem_lookup_iff.1 hl) with h | h
  · cases h
    exact absurd hle (by decide)
  · cases h

end GitOpsDeploy.SymlinkScan

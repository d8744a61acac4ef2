/-
Extraction of an archive stays below its directory.

- `Guarded`: everything touched lies below the directory, and the links below it rise no further than it.
-/
import GitOpsDeploy.Files.Untar

namespace GitOpsDeploy.Untar

open List

open Paths (SlashPath IsName components push relParts common)
open FileTree (Errno Confined Rises)

/-! ## Relative links -/

/-- how many `..` lead from a directory to a path -/
def upCount (base targ : List String) : ℕ := base.length - common base targ

theorem rises_replicate {n d : ℕ} {names : List String} (hn : n ≤ d) (hna : ".." ∉ names) :
    Rises d (List.replicate n ".." ++ names) := by
  induction n generalizing d with
  | zero => exact FileTree.rises_of_notMem hna d
  | succ n ih =>
    exact ⟨by omega, ih (by omega)⟩

theorem rises_relParts {base targ : List String} {d : ℕ} (hd : upCount base targ ≤ d) (ht : ∀ c ∈ targ, IsName c) :
    Rises d (relParts base targ) := by
  unfold relParts
  split_ifs
  · exact FileTree.rises_of_notMem (by decide) d
  · exact rises_replicate hd fun hm => (ht _ (mem_of_mem_drop hm)).2.2 rfl

/-! ## Guarded disks -/

theorem below_concat {dst p : List String} (h : dst <+: p) (c : String) : dst <+: p ++ [c] ∧ p ++ [c] ≠ dst := by
  refine ⟨h.trans (prefix_append p [c]), fun he => ?_⟩
  have hle := h.length_le
  have hl := congrArg List.length he
  rw [length_append, length_singleton] at hl
  omega

structure Guarded (dst : List String) (d : Disk) : Prop where
  dir : d.tree.node dst = some .dir
  links : ∀ s c target, d.tree.node (dst ++ s ++ [c]) = some (.link target) → target.rooted = false ∧
    Rises s.length target.parts
  touched : ∀ p ∈ d.touched, dst <+: p ∧ p ≠ dst

section Calls

variable {k : Kernel} {dst : List String} {d : Disk}

theorem Guarded.confined (h : Guarded dst d) {s cs : List String} (hcs : Rises s.length cs) :
    Confined d.tree dst (dst ++ s) cs := by
  refine FileTree.confined_of_links (fun s c target hl => ?_) hcs
  obtain ⟨hr, hri⟩ := h.links s c target hl
  exact ⟨hr, .inl hri⟩

variable {rel : List String}

variable (h : Guarded dst d)

include h

/-- a path of names below the directory leads to a place below the directory -/
theorem Guarded.resolve_inside {n : ℕ} (hr : ∀ c ∈ rel, IsName c)
    {place : FileTree.Place} (hp : d.tree.resolve n [] (dst ++ rel) = .ok place) : dst <+: place.home := by
  rw [FileTree.resolve_dirs n (by rw [nil_append]; exact h.dir), nil_append] at hp
  have hc := h.confined (s := []) (FileTree.rises_of_notMem (fun hup => (hr _ hup).2.2 rfl) 0)
  rw [append_nil] at hc
  exact hc _ (FileTree.resolve_visits hp)

theorem Guarded.locate_inside {n : ℕ} (hre : ∀ c ∈ rel, IsName c) (hne : rel ≠ [])
    {p : List String} {c : String} (hl : d.tree.locate n (dst ++ rel) = .ok (p, c)) : dst <+: p := by
  unfold FileTree.locate at hl
  rw [dropLast_append_of_ne_nil hne] at hl
  split at hl
  · cases hl
  split at hl
  · cases hl
  · next hr =>
    cases hl
    exact h.resolve_inside (fun c hc => hre c (mem_of_mem_dropLast hc)) hr
  all_goals cases hl

theorem Guarded.put {p : List String} {c : String} {n : Node} (hp : dst <+: p)
    (hn : ∀ target, n = .link target → target.rooted = false ∧ Rises (p.length - dst.length) target.parts) :
    Guarded dst (put k d p c n).1 := by
  unfold Untar.put
  split_ifs with hok hd
  · exact h
  · obtain ⟨s, rfl⟩ := hp
    refine ⟨?_, fun s' c' target hl => ?_, fun q hq => ?_⟩
    · rw [FileTree.node_create, if_neg (fun he => ?_)]
      · exact h.dir
      · exact (below_concat (prefix_append dst s) c).2 he.symm
    · rw [FileTree.node_create] at hl
      split_ifs at hl with he
      · obtain ⟨he, _⟩ := append_inj' he rfl
        rw [append_cancel_left he]
        have hr := hn target (Option.some.inj hl)
        rwa [length_append, Nat.add_sub_cancel_left] at hr
      · exact h.links s' c' target hl
    · rcases mem_append.1 hq with hq | hq
      · exact h.touched q hq
      · rw [mem_singleton.1 hq]
        exact below_concat (prefix_append dst s) c
  · exact h

theorem Guarded.mkdir (hr : ∀ c ∈ rel, IsName c) (hne : rel ≠ []) : Guarded dst (mkdir k d (dst ++ rel)).1 := by
  unfold Untar.mkdir
  cases hl : d.tree.locate k.limit (dst ++ rel) with
  | error e => exact h
  | ok pc =>
    dsimp only
    split
    · exact h
    · exact h
    · exact h.put (h.locate_inside hr hne hl) nofun

theorem Guarded.mkdirAll (hrel : ∀ c ∈ rel, IsName c) : Guarded dst (mkdirAll k (dst ++ rel).reverse d).1 := by
  induction rel using List.reverseRecOn with
  | nil =>
    rw [append_nil]
    cases hr : dst.reverse with
    | nil => exact h
    | cons c up =>
      -- the directory itself exists
      have hd : (c :: up).reverse = dst ++ [] := by rw [← hr, reverse_reverse, append_nil]
      have hdi : d.tree.resolve k.limit [] (c :: up).reverse = .ok (.dir dst) := by
        rw [hd, FileTree.resolve_dirs k.limit (by rw [nil_append]; exact h.dir), nil_append]
        cases k.limit <;> rfl
      unfold Untar.mkdirAll
      rw [hdi]
      exact h
  | append_singleton rel c ih =>
    have hr : (dst ++ (rel ++ [c])).reverse = c :: (dst ++ rel).reverse := by simp
    have hp : (c :: (dst ++ rel).reverse).reverse = dst ++ (rel ++ [c]) := by simp
    rw [hr]
    unfold Untar.mkdirAll
    have hup := ih fun c hc => hrel c (mem_append_left _ hc)
    split
    · exact h
    · exact h
    · split
      · rename_i d' e hre
        rw [hre] at hup
        exact hup
      · rename_i d' hre
        rw [hre] at hup
        rw [hp]
        exact hup.mkdir hrel (by simp)

theorem Guarded.openFile (hre : ∀ c ∈ rel, IsName c) : Guarded dst (openFile k d (dst ++ rel)).1 := by
  unfold Untar.openFile
  cases hr : d.tree.resolve k.limit [] (dst ++ rel) with
  | error e => exact h
  | ok place =>
    have hi := h.resolve_inside hre hr
    cases place with
    | dir p => exact h
    | file p c =>
      dsimp only
      split_ifs
      · exact h
      · refine ⟨h.dir, h.links, fun q hq => ?_⟩
        rcases mem_append.1 hq with hq | hq
        · exact h.touched q hq
        · rw [mem_singleton.1 hq]
          exact below_concat hi c
    | missing p c => exact h.put hi nofun

end Calls

/-! ## One entry -/

/-- an entry whose link is put where fewer directories lead down from dst than its `..` go up -/
def ShallowLink (k : Kernel) (dst : List String) (d : Disk) (header : Header) : Prop :=
  let target := joinTo dst header.name
  (header.name ≠ "." ∧ header.name ≠ "./" ∧ inbound target dst = true ∧ header.typeflag = .symlink) ∧
    ∃ p c real, realLinkTarget d.tree target header.linkname = .ok real ∧ inbound real dst = true ∧
      d.tree.locate k.limit target = .ok (p, c) ∧ p.length - dst.length < upCount target.dropLast real

section Entry

variable {k : Kernel} {dst : List String} {d : Disk} {header : Header}

theorem inbound_split {p : List String} (h : inbound p dst = true) :
    dst ≠ [] ∧ ∃ rel, rel ≠ [] ∧ p = dst ++ rel := by
  simp only [inbound, Bool.and_eq_true, decide_eq_true_eq, isPrefixOf_iff_prefix] at h
  obtain ⟨⟨hne, rel, rfl⟩, hp⟩ := h
  exact ⟨hne, rel, fun hr => hp (by rw [hr, append_nil]), rfl⟩

theorem Guarded.names (h : Guarded dst d) : ∀ c ∈ dst, IsName c := FileTree.isName_of_node h.dir

theorem joinTo_names {p : List String} (hp : ∀ c ∈ p, IsName c) (name : String) : ∀ c ∈ joinTo p name, IsName c :=
  Paths.foldl_push_names hp _

theorem realLinkTarget_names {t : FileTree} {target real : List String} (ht : ∀ c ∈ target, IsName c) {linkname : String}
    (h : realLinkTarget t target linkname = .ok real) : ∀ c ∈ real, IsName c := by
  have hl := joinTo_names (fun c hc => ht c (mem_of_mem_dropLast hc)) linkname
  unfold realLinkTarget at h
  cases he : evalSymlinks t (joinTo target.dropLast linkname) with
  | error e =>
    rw [he] at h
    cases e <;> cases h
    exact hl
  | ok p =>
    rw [he] at h
    cases h
    unfold evalSymlinks at he
    split at he
    · cases he
    · next hr =>
      cases he
      exact FileTree.isName_of_node (FileTree.resolve_sound t.node_nil hr)
    · next hr =>
      cases he
      exact FileTree.isName_of_node (FileTree.resolve_sound t.node_nil hr)
    · cases he

theorem raise_fst (f : Errno → UntarError) (x : Disk × Option Errno) : (raise f x).1 = x.1 := by
  obtain ⟨d, e⟩ := x
  cases e <;> rfl

theorem extract_guarded (h : Guarded dst d) (hde : ¬ShallowLink k dst d header) :
    Guarded dst (extract k dst d header).1 := by
  unfold extract
  split_ifs with hs
  · exact h
  dsimp only
  split_ifs with hout
  · exact h
  have hin : inbound (joinTo dst header.name) dst = true := by simpa using hout
  have hn := joinTo_names h.names header.name
  obtain ⟨_, rel, hrel, hta⟩ := inbound_split hin
  have hr : ∀ c ∈ rel, IsName c := fun c hc => hn c (hta ▸ mem_append_right _ hc)
  split
  · rw [raise_fst, hta]
    exact h.mkdirAll hr
  · next hty =>
    cases hre : realLinkTarget d.tree (joinTo dst header.name) header.linkname with
    | error e => exact h
    | ok real =>
      dsimp only
      split_ifs with hrea
      · exact h
      · rw [raise_fst]
        unfold symlink
        cases hl : d.tree.locate k.limit (joinTo dst header.name) with
        | error e => exact h
        | ok pc =>
          obtain ⟨p, c⟩ := pc
          have hp : dst <+: p := h.locate_inside hr hrel (hta ▸ hl)
          refine h.put hp fun target ht => ?_
          cases ht
          refine ⟨rfl, rises_relParts (Nat.le_of_not_lt fun hlt => hde ?_) (realLinkTarget_names hn hre)⟩
          rw [not_or] at hs
          exact ⟨⟨hs.1, hs.2, hin, hty⟩, p, c, real, hre, by simpa using hrea, hl, hlt⟩
  · have hd : Guarded dst (mkdirAll k (dst ++ rel.dropLast).reverse d).1 :=
      h.mkdirAll fun c hc => hr c (mem_of_mem_dropLast hc)
    rw [hta, dropLast_append_of_ne_nil hrel]
    cases hm : mkdirAll k (dst ++ rel.dropLast).reverse d with
    | mk d' e =>
      rw [hm] at hd
      cases e with
      | some e => exact hd
      | none =>
        rw [raise_fst]
        exact hd.openFile hr
  · exact h

/-- rising further than dst leads out of it -/
theorem visits_above (t : FileTree) (dst s rest : List String) {n : ℕ} (hn : s.length < n) :
    t.Visits (dst ++ s) (List.replicate n ".." ++ rest) dst.dropLast := by
  obtain ⟨n, rfl⟩ := Nat.exists_eq_succ_of_ne_zero (Nat.ne_of_gt (Nat.zero_lt_of_lt hn))
  induction s using List.reverseRecOn generalizing n with
  | nil =>
    rw [append_nil]
    exact (FileTree.Visits.refl t _ _).head .up
  | append_singleton s c ih =>
    rw [length_append, length_singleton] at hn
    obtain ⟨n, rfl⟩ := Nat.exists_eq_succ_of_ne_zero (show n ≠ 0 by omega)
    have hs : t.Step (dst ++ (s ++ [c]), ".." :: (List.replicate (n + 1) ".." ++ rest))
        ((dst ++ (s ++ [c])).dropLast, List.replicate (n + 1) ".." ++ rest) := .up
    rw [← append_assoc, dropLast_concat] at hs
    rw [← append_assoc]
    exact (ih n (by omega)).head hs

theorem visits_of_link {t : FileTree} {s rest : List String} {c : String} {target : SlashPath} {n : ℕ}
    (hno : t.node (dst ++ s ++ [c]) = some (.link target)) (hr : target.rooted = false)
    (hp : target.parts = List.replicate n ".." ++ rest) (hn : s.length < n) : t.Visits (dst ++ s) [c] dst.dropLast := by
  have hs : t.Step (dst ++ s, [c]) (if target.rooted then [] else dst ++ s, target.parts ++ []) := .follow hno
  rw [hr, append_nil, hp] at hs
  exact (visits_above t dst s rest hn).head hs

/-- **The condition is needed.** Such an entry, when it is extracted, leaves a link that leads out. -/
theorem link_escapes (h : Guarded dst d) (hs : ShallowLink k dst d header) (hok : (extract k dst d header).2 = none) :
    ∃ s c target, (extract k dst d header).1.tree.node (dst ++ s ++ [c]) = some (.link target) ∧
      ¬Confined (extract k dst d header).1.tree dst (dst ++ s) [c] := by
  obtain ⟨⟨hn, hn', hin, hty⟩, p, c, real, hrea, hre, hl, hlt⟩ := hs
  obtain ⟨hne, rel, hrel, ht⟩ := inbound_split hin
  have hna := joinTo_names h.names header.name
  have hr : ∀ c ∈ rel, IsName c := fun c hc => hna c (ht ▸ mem_append_right _ hc)
  obtain ⟨s, rfl⟩ : dst <+: p := h.locate_inside hr hrel (ht ▸ hl)
  have hex : extract k dst d header = raise .creatingSymlink (put k d (dst ++ s) c
      (.link ⟨false, relParts (joinTo dst header.name).dropLast real⟩)) := by
    unfold extract
    rw [if_neg (not_or.2 ⟨hn, hn'⟩)]
    rw [if_neg (by simp [hin]), hty]
    rw [hrea]
    dsimp only
    rw [if_neg (by simp [hre]), symlink, hl]
  rw [hex] at hok ⊢
  unfold put at hok ⊢
  split_ifs at hok ⊢ with hp hd
  · cases hok
  · have hpa : relParts (joinTo dst header.name).dropLast real =
        List.replicate (upCount (joinTo dst header.name).dropLast real) ".." ++
          real.drop (common (joinTo dst header.name).dropLast real) := by
      refine if_neg fun he => ?_
      rw [upCount, he, Paths.common_eq_length_iff.2 prefix_rfl] at hlt
      omega
    rw [length_append, Nat.add_sub_cancel_left] at hlt
    have hno : (d.tree.create (dst ++ s) c (.link ⟨false, relParts (joinTo dst header.name).dropLast real⟩) hp.2.1 hp.1
        hp.2.2).node (dst ++ s ++ [c]) = some (.link ⟨false, relParts (joinTo dst header.name).dropLast real⟩) := by
      rw [FileTree.node_create, if_pos rfl]
    refine ⟨s, c, _, hno, fun hco => ?_⟩
    have hle := (hco _ (visits_of_link hno rfl hpa hlt)).length_le
    rw [length_dropLast] at hle
    have hpo := length_pos_of_ne_nil hne
    omega
  · cases hok

end Entry

/-! ## Whole streams -/

/-- no entry of the stream is a shallow link when its turn comes -/
def NoShallowLink (k : Kernel) (dst : List String) : List Header → Disk → Prop
  | [], _ => True
  | header :: headers, d =>
    ¬ShallowLink k dst d header ∧ ((extract k dst d header).2 = none →
      NoShallowLink k dst headers (extract k dst d header).1)

theorem untar_guarded {k : Kernel} {dst : List String} (he : List Header) {d : Disk} (h : Guarded dst d)
    (hd : NoShallowLink k dst he d) : Guarded dst (untar k dst he d).1 := by
  induction he generalizing d with
  | nil => exact h
  | cons header he ih =>
    obtain ⟨hf, hr⟩ := hd
    have hs := extract_guarded h hf
    unfold untar
    cases hex : extract k dst d header with
    | mk d' e =>
      rw [hex] at hs hr
      cases e with
      | some e => exact hs
      | none => exact ih hs (hr rfl)

theorem NoShallowLink.take {k : Kernel} {dst : List String} {he : List Header} {d : Disk}
    (h : NoShallowLink k dst he d) (n : ℕ) : NoShallowLink k dst (he.take n) d := by
  induction he generalizing d n with
  | nil => rwa [take_nil]
  | cons header he ih =>
    cases n with
    | zero => trivial
    | succ n => exact ⟨h.1, fun hok => ih (h.2 hok) n⟩

/-- **Extraction is confined.** A stream without shallow links, extracted into an empty directory, only creates and writes
below it, and after every prefix of the entries each link below it stays inside. -/
theorem untar_confined (k : Kernel) (dst : List String) (t : FileTree) (hdst : t.node dst = some .dir)
    (hempty : ∀ s, s ≠ [] → t.node (dst ++ s) = none) (headers : List Header)
    (hdeep : NoShallowLink k dst headers ⟨t, []⟩) (n : ℕ) :
    (∀ p ∈ (untar k dst (headers.take n) ⟨t, []⟩).1.touched, dst <+: p ∧ p ≠ dst) ∧
      ∀ s c target, (untar k dst (headers.take n) ⟨t, []⟩).1.tree.node (dst ++ s ++ [c]) = some (.link target) →
        Confined (untar k dst (headers.take n) ⟨t, []⟩).1.tree dst (dst ++ s) [c] := by
  have hs : Guarded dst ⟨t, []⟩ := by
    refine ⟨hdst, fun s c target hl => ?_, nofun⟩
    have hn := hempty (s ++ [c]) (by simp)
    rw [← append_assoc, hl] at hn
    cases hn
  have he := untar_guarded (headers.take n) hs (hdeep.take n)
  refine ⟨he.touched, fun s c target hl => he.confined (FileTree.rises_of_notMem ?_ _)⟩
  intro hup
  exact (FileTree.isName_of_node hl c (by simp)).2.2 (mem_singleton.1 hup).symm

/-! ## A link through a link -/

def dstTree : FileTree := .ofNodes (List.toAList [⟨["dst"], .dir⟩]) (by decide +kernel)

/-- a kernel that denies nothing -/
def openKernel : Kernel := ⟨40, fun _ _ => false⟩

/-- a link from depth two to a directory at depth one, and a link that is put there through it -/
def slipStream : List Header :=
  [⟨"t", .dir, ""⟩, ⟨"a/b", .dir, ""⟩, ⟨"a/b/up", .symlink, "../../t"⟩, ⟨"a/b/up/slip", .symlink, "../.."⟩,
    ⟨"t/slip/out", .reg, ""⟩]

/-- **A file outside.** The stream is extracted without an error and writes a file next to the directory. -/
theorem untar_slips :
    (dstTree.node ["dst"] = some .dir ∧ dstTree.nodes.keys = [["dst"]]) ∧
      (untar openKernel ["dst"] slipStream ⟨dstTree, []⟩).2 = none ∧
      ["out"] ∈ (untar openKernel ["dst"] slipStream ⟨dstTree, []⟩).1.touched ∧
      (untar openKernel ["dst"] slipStream ⟨dstTree, []⟩).1.tree.node ["dst", "t", "slip"] =
        some (.link ⟨false, ["..", ".."]⟩) ∧
      ¬Confined (untar openKernel ["dst"] slipStream ⟨dstTree, []⟩).1.tree ["dst"] ["dst", "t"] ["slip"] := by
  have hl : (untar openKernel ["dst"] slipStream ⟨dstTree, []⟩).1.tree.node (["dst"] ++ ["t"] ++ ["slip"]) =
      some (.link ⟨false, ["..", ".."]⟩) := by decide +kernel
  refine ⟨by decide +kernel, by decide +kernel, by decide +kernel, hl, fun hc => ?_⟩
  have hp : ["..", ".."] = List.replicate 2 ".." ++ [] := rfl
  exact absurd (hc _ (visits_of_link hl rfl hp (by decide))) (by decide)

/-- a link to a sibling of its directory -/
def siblingStream : List Header := [⟨"a", .dir, ""⟩, ⟨"a/l", .symlink, "../b"⟩]

/-- a stream with a link to a sibling of its directory is confined -/
theorem untar_confined_sibling :
    (∀ p ∈ (untar openKernel ["dst"] (siblingStream.take 2) ⟨dstTree, []⟩).1.touched, ["dst"] <+: p ∧
      p ≠ ["dst"]) ∧ ∀ s c target,
        (untar openKernel ["dst"] (siblingStream.take 2) ⟨dstTree, []⟩).1.tree.node (["dst"] ++ s ++ [c]) =
          some (.link target) →
        Confined (untar openKernel ["dst"] (siblingStream.take 2) ⟨dstTree, []⟩).1.tree ["dst"] (["dst"] ++ s) [c] := by
  have hk : dstTree.nodes.keys = [["dst"]] := by decide +kernel
  refine untar_confined openKernel ["dst"] dstTree (by decide +kernel) (fun s hs => ?_) siblingStream
    ⟨fun hdi => (nomatch hdi.1.2.2.2), fun _ => ⟨?_, fun _ => trivial⟩⟩ 2
  · rw [FileTree.node_of_ne _ (by simp)]
    refine AList.lookup_eq_none.2 fun hm => hs ?_
    have hm' : ["dst"] ++ s ∈ dstTree.nodes.keys := hm
    rw [hk, mem_singleton] at hm'
    exact append_cancel_left (hm'.trans (append_nil _).symm)
  · intro ⟨_, p, c, real, hr, _, hl, hlt⟩
    generalize hd : (extract openKernel ["dst"] ⟨dstTree, []⟩ ⟨"a", .dir, ""⟩).1 = d at *
    have hr' : realLinkTarget d.tree (joinTo ["dst"] "a/l") "../b" = .ok ["dst", "b"] := by
      rw [← hd]
      decide +kernel
    have hl' : d.tree.locate openKernel.limit (joinTo ["dst"] "a/l") = .ok (["dst", "a"], "l") := by
      rw [← hd]
      decide +kernel
    rw [hr'] at hr
    rw [hl'] at hl
    cases hr
    cases hl
    exact absurd hlt (by decide +kernel)

end GitOpsDeploy.Untar

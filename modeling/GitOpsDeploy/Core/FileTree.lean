/-
Directory trees with symbolic links, and POSIX path resolution in them.

A node is found at its physical position, the names of the real directories that lead to it from the root.
- `Rises d cs`: all `..` of cs come before its first name, and there are at most d of them.
-/
import Mathlib.Data.List.AList
import GitOpsDeploy.Core.Paths

namespace GitOpsDeploy

open List

open Paths (SlashPath IsName)

inductive Node where
  | dir
  | file
  | link (target : SlashPath)
  deriving DecidableEq, Repr

/-- the root is a directory without an entry of its own -/
structure FileTree where
  nodes : AList fun _ : List String => Node
  names : ∀ p ∈ nodes, p ≠ [] ∧ ∀ c ∈ p, IsName c
  parent : ∀ p c, p ++ [c] ∈ nodes → p = [] ∨ nodes.lookup p = some .dir

namespace FileTree

/-- a tree from its nodes, when these can be checked -/
def ofNodes (nodes : AList fun _ : List String => Node)
    (h : ∀ k ∈ nodes.keys, (k ≠ [] ∧ ∀ c ∈ k, IsName c) ∧
      (k.dropLast = [] ∨ nodes.lookup k.dropLast = some .dir)) :
    FileTree where
  nodes := nodes
  names p hp := (h p hp).1
  parent p c hp := by
    have hdir := (h (p ++ [c]) hp).2
    rwa [dropLast_concat] at hdir

def node (t : FileTree) (p : List String) : Option Node := if p = [] then some .dir else t.nodes.lookup p

@[simp]
theorem node_nil (t : FileTree) : t.node [] = some .dir := if_pos rfl

variable {p cs : List String} {n : Node} {t : FileTree}

theorem node_of_ne (t : FileTree) (h : p ≠ []) : t.node p = t.nodes.lookup p := if_neg h

theorem mem_of_node (hp : p ≠ []) (h : t.node p = some n) : p ∈ t.nodes := by
  rw [node_of_ne t hp] at h
  exact AList.lookup_isSome.1 (Option.isSome_of_eq_some h)

theorem isName_of_node (h : t.node p = some n) : ∀ c ∈ p, IsName c := by
  by_cases hp : p = []
  · subst hp
    exact nofun
  · exact (t.names p (mem_of_node hp h)).2

theorem node_parent {c : String} (h : t.node (p ++ [c]) = some n) : t.node p = some .dir := by
  rcases t.parent p c (mem_of_node (by simp) h) with rfl | hp
  · exact t.node_nil
  · unfold node
    split_ifs
    · rfl
    · exact hp

theorem node_dropLast (h : t.node p = some n) : t.node p.dropLast = some .dir := by
  rcases eq_nil_or_concat p with rfl | ⟨q, c, rfl⟩
  · exact t.node_nil
  · rw [concat_eq_append, dropLast_concat]
    rw [concat_eq_append] at h
    exact node_parent h

theorem node_prefix {q : List String} (h : t.node (p ++ q) ≠ none) (hq : q ≠ []) : t.node p = some .dir := by
  induction q using List.reverseRecOn with
  | nil => exact absurd rfl hq
  | append_singleton q c ih =>
    obtain ⟨n, hn⟩ := Option.ne_none_iff_exists'.1 h
    rw [← append_assoc] at hn
    have hd := node_parent hn
    cases q with
    | nil => rwa [append_nil] at hd
    | cons d q => exact ih (by rw [hd]; exact nofun) (cons_ne_nil d q)

/-- a new node in a directory -/
def create (t : FileTree) (p : List String) (c : String) (n : Node) (hname : IsName c) (hdir : t.node p = some .dir)
    (hnew : t.node (p ++ [c]) = none) : FileTree where
  nodes := t.nodes.insert (p ++ [c]) n
  names q hq := by
    rcases (AList.mem_insert _).1 hq with rfl | hq
    · refine ⟨by simp, fun d hd => ?_⟩
      rcases mem_append.1 hd with hd | hd
      · exact isName_of_node hdir d hd
      · rwa [mem_singleton.1 hd]
    · exact t.names q hq
  parent q d hq := by
    have hkeep : ∀ r, t.nodes.lookup r = some .dir → (t.nodes.insert (p ++ [c]) n).lookup r = some .dir := by
      intro r hr
      rw [AList.lookup_insert_ne, hr]
      rintro rfl
      rw [node_of_ne t (by simp), hr] at hnew
      cases hnew
    rcases (AList.mem_insert _).1 hq with he | hq
    · obtain ⟨rfl, _⟩ := append_inj' he rfl
      by_cases hq : q = []
      · exact .inl hq
      · exact .inr (hkeep q (node_of_ne t hq ▸ hdir))
    · rcases t.parent q d hq with h | h
      · exact .inl h
      · exact .inr (hkeep q h)

theorem node_create {c : String} {hn : IsName c} {hd : t.node p = some .dir}
    {hne : t.node (p ++ [c]) = none} (q : List String) :
    (t.create p c n hn hd hne).node q = if q = p ++ [c] then some n else t.node q := by
  split_ifs with hq
  · subst hq
    rw [node_of_ne _ (by simp)]
    exact AList.lookup_insert _
  · unfold node
    split_ifs
    · rfl
    · exact AList.lookup_insert_ne hq

/-! ## Resolution -/

/-- one component of a path, from a directory -/
inductive Step (t : FileTree) : List String × List String → List String × List String → Prop
  | skip {p : List String} {c : String} {cs : List String} (h : c = "" ∨ c = ".") : Step t (p, c :: cs) (p, cs)
  | up {p cs : List String} : Step t (p, ".." :: cs) (p.dropLast, cs)
  | down {p : List String} {c : String} {cs : List String} (h : t.node (p ++ [c]) = some .dir) :
      Step t (p, c :: cs) (p ++ [c], cs)
  | follow {p : List String} {c : String} {cs : List String} {target : SlashPath}
      (h : t.node (p ++ [c]) = some (.link target)) :
      Step t (p, c :: cs) (if target.rooted then [] else p, target.parts ++ cs)

/-- resolving cs from p visits the directory q -/
def Visits (t : FileTree) (p cs q : List String) : Prop := ∃ rest, Relation.ReflTransGen (Step t) (p, cs) (q, rest)

/-- resolving cs from p never leaves the directory b -/
def Confined (t : FileTree) (b p cs : List String) : Prop := ∀ q, Visits t p cs q → b <+: q

theorem Visits.refl (t : FileTree) (p cs : List String) : Visits t p cs p := ⟨cs, .refl⟩

theorem Visits.head {p' cs' q : List String} (h : Step t (p, cs) (p', cs')) (hv : Visits t p' cs' q) :
    Visits t p cs q := by
  obtain ⟨rest, hs⟩ := hv
  exact ⟨rest, hs.head h⟩

theorem Confined.step {b p' cs' : List String} (h : Confined t b p cs) (hs : Step t (p, cs) (p', cs')) :
    Confined t b p' cs' := fun q hq => h q (hq.head hs)

/-! ## Paths that rise first -/

/-- every `..` comes before the first name, and there are at most d of them -/
def Rises : ℕ → List String → Prop
  | _, [] => True
  | d, c :: cs =>
    if c = "" ∨ c = "." then Rises d cs
    else if c = ".." then 0 < d ∧ Rises (d - 1) cs
    else ".." ∉ cs

theorem rises_of_notMem (h : ".." ∉ cs) (d : ℕ) : Rises d cs := by
  induction cs with
  | nil => trivial
  | cons c cs ih =>
    obtain ⟨hc, hcs⟩ := not_or.1 (mt mem_cons.2 h)
    unfold Rises
    split_ifs with hs hup
    · exact ih hcs
    · exact absurd hup.symm hc
    · exact hcs

theorem Rises.append {d : ℕ} {rest : List String} (h : Rises d cs) (hr : ".." ∉ rest) : Rises d (cs ++ rest) := by
  induction cs generalizing d with
  | nil => exact rises_of_notMem hr d
  | cons c cs ih =>
    rw [cons_append]
    unfold Rises at h ⊢
    split_ifs at h ⊢ with hs hup
    · exact ih h
    · exact ⟨h.1, ih h.2⟩
    · exact fun hm => (mem_append.1 hm).elim h hr

/-- the links below b rise no further than b, or are known to stay inside -/
def LinksKept (t : FileTree) (b : List String) : Prop :=
  ∀ s c target, t.node (b ++ s ++ [c]) = some (.link target) → target.rooted = false ∧
    (Rises s.length target.parts ∨ Confined t b (b ++ s) target.parts)

section Confinement

variable {t : FileTree} {b : List String}

/-- where resolution stands: inside b, with a rest that rises no further, or with a part that is known to stay inside before
a rest without `..` -/
def Kept (t : FileTree) (b : List String) : List String × List String → Prop := fun (p, cs) =>
  ∃ s, p = b ++ s ∧ (Rises s.length cs ∨ ∃ known rest, cs = known ++ rest ∧ Confined t b p known ∧ ".." ∉ rest)

variable {x : List String × List String}

theorem kept_of_rises (hli : LinksKept t b) {s cs : List String} (h : Rises s.length cs)
    (hst : Step t (b ++ s, cs) x) : Kept t b x := by
  cases hst with
  | @skip _ c cs hc =>
    unfold Rises at h
    rw [if_pos hc] at h
    exact ⟨s, rfl, .inl h⟩
  | up =>
    unfold Rises at h
    rw [if_neg (by decide), if_pos rfl] at h
    have hs : s ≠ [] := ne_nil_of_length_pos h.1
    refine ⟨s.dropLast, dropLast_append_of_ne_nil hs, .inl ?_⟩
    rw [length_dropLast]
    exact h.2
  | @down _ c cs hd =>
    have hc := isName_of_node hd c (by simp)
    unfold Rises at h
    rw [if_neg (not_or.2 ⟨hc.1, hc.2.1⟩), if_neg hc.2.2] at h
    exact ⟨s ++ [c], append_assoc _ _ _, .inl (rises_of_notMem h _)⟩
  | @follow _ c cs target hl =>
    have hc := isName_of_node hl c (by simp)
    unfold Rises at h
    rw [if_neg (not_or.2 ⟨hc.1, hc.2.1⟩), if_neg hc.2.2] at h
    obtain ⟨hr, ht⟩ := hli s c target hl
    rw [hr]
    refine ⟨s, rfl, ?_⟩
    rcases ht with hri | hco
    · exact .inl (hri.append h)
    · exact .inr ⟨target.parts, cs, rfl, hco, h⟩

/-- a step in the part that is known stays known -/
theorem Step.of_append {p c rest : List String} (hc : c ≠ [])
    (h : Step t (p, c ++ rest) x) : ∃ p' c', x = (p', c' ++ rest) ∧ Step t (p, c) (p', c') := by
  cases c with
  | nil => exact absurd rfl hc
  | cons c cs =>
    cases h with
    | skip h => exact ⟨p, cs, rfl, .skip h⟩
    | up => exact ⟨p.dropLast, cs, rfl, .up⟩
    | down h => exact ⟨p ++ [c], cs, rfl, .down h⟩
    | @follow _ _ _ target h =>
      refine ⟨if target.rooted then [] else p, target.parts ++ cs, ?_, .follow h⟩
      rw [append_assoc]
      rfl

theorem Kept.step (hl : LinksKept t b) {y : List String × List String} (h : Kept t b x) (hst : Step t x y) :
    Kept t b y := by
  obtain ⟨p, cs⟩ := x
  obtain ⟨s, rfl, h⟩ := h
  rcases h with hri | ⟨known, rest, rfl, hc, hr⟩
  · exact kept_of_rises hl hri hst
  · by_cases hk : known = []
    · subst hk
      exact kept_of_rises hl (rises_of_notMem hr _) hst
    · obtain ⟨p', known', rfl, hk⟩ := hst.of_append hk
      obtain ⟨s', hs'⟩ := hc p' ((Visits.refl t p' known').head hk)
      exact ⟨s', hs'.symm, .inr ⟨known', rest, rfl, hc.step hk, hr⟩⟩

theorem confined_of_links (hl : LinksKept t b) {s cs : List String} (h : Rises s.length cs) :
    Confined t b (b ++ s) cs := by
  intro q ⟨rest, hs⟩
  have hk : Kept t b (q, rest) := by
    generalize hy : (q, rest) = y at hs
    clear hy
    induction hs with
    | refl => exact ⟨s, rfl, .inl h⟩
    | tail _ hst ih => exact ih.step hl hst
  obtain ⟨s', rfl, _⟩ := hk
  exact prefix_append b s'

end Confinement

/-! ## Directory listings -/

/-- the names in a directory, in order -/
def children (t : FileTree) (p : List String) : List String :=
  (t.nodes.keys.filterMap fun k => if k.dropLast = p then k.getLast? else none).insertionSort (· ≤ ·)

variable {p cs : List String} {c : String} {t : FileTree} {place : Place}
  {follow : List String → List String → Except Errno Place} {n : ℕ}

theorem mem_children : c ∈ t.children p ↔ t.node (p ++ [c]) ≠ none := by
  have hm : t.node (p ++ [c]) ≠ none ↔ p ++ [c] ∈ t.nodes.keys := by
    rw [node_of_ne t (by simp), ← AList.mem_keys, ← AList.lookup_isSome, Option.isSome_iff_ne_none]
  rw [children, mem_insertionSort, mem_filterMap, hm]
  constructor
  · intro ⟨k, hk, hc⟩
    split_ifs at hc with hp
    rcases eq_nil_or_concat k with rfl | ⟨q, d, rfl⟩
    · cases hc
    · rw [concat_eq_append] at hk hp hc
      rw [dropLast_concat] at hp
      rw [List.getLast?_concat] at hc
      cases hc
      rwa [← hp]
  · intro hk
    exact ⟨p ++ [c], hk, by simp⟩

/-- more than the number of names on the way to any node -/
def depth (t : FileTree) : ℕ := (t.nodes.keys.map List.length).foldr max 0 + 1

theorem length_lt_depth (h : t.node p ≠ none) : p.length < t.depth := by
  by_cases hp : p = []
  · subst hp
    exact Nat.succ_pos _
  · obtain ⟨n, hn⟩ := Option.ne_none_iff_exists'.1 h
    have hm : p.length ∈ t.nodes.keys.map List.length := mem_map_of_mem (mem_of_node hp hn)
    exact Nat.lt_succ_of_le (le_max_of_le' 0 hm le_rfl)

/-! ## Resolution with a limit -/

inductive Errno where
  | notExist
  | notDir
  | loop
  | exist
  | isDir
  | denied
  deriving DecidableEq, Repr

/-- where a path leads: to a directory, to a file in a directory, or to a name that a directory does not have -/
inductive Place where
  | dir (p : List String)
  | file (p : List String) (c : String)
  | missing (p : List String) (c : String)
  deriving DecidableEq, Repr

def resolveWith (t : FileTree) (follow : List String → List String → Except Errno Place) :
    List String → List String → Except Errno Place
  | p, [] => .ok (.dir p)
  | p, c :: cs =>
    if c = "" ∨ c = "." then resolveWith t follow p cs
    else if c = ".." then resolveWith t follow p.dropLast cs
    else
      match t.node (p ++ [c]) with
      | none => if cs = [] then .ok (.missing p c) else .error .notExist
      | some .dir => resolveWith t follow (p ++ [c]) cs
      | some .file => if cs = [] then .ok (.file p c) else .error .notDir
      | some (.link target) => follow (if target.rooted then [] else p) (target.parts ++ cs)

/-- resolution that follows at most the given number of links -/
def resolve (t : FileTree) : ℕ → List String → List String → Except Errno Place
  | 0 => resolveWith t fun _ _ => .error .loop
  | n + 1 => resolveWith t (resolve t n)

theorem resolve_skip (t : FileTree) (n : ℕ) (p cs : List String) : resolve t n p ("" :: cs) = resolve t n p cs := by
  cases n <;> simp [resolve, resolveWith]

/-- the physical directory of a path from the root, and the last name of the path in it; links are followed up to there -/
def locate (t : FileTree) (limit : ℕ) (path : List String) : Except Errno (List String × String) :=
  match path.getLast? with
  | none => .error .exist
  | some c =>
    match resolve t limit [] path.dropLast with
    | .error e => .error e
    | .ok (.dir p) => .ok (p, c)
    | .ok (.file ..) => .error .notDir
    | .ok (.missing ..) => .error .notExist

/-- the directory a place is in; a directory is in itself -/
def Place.home : Place → List String
  | .dir p => p
  | .file p _ => p
  | .missing p _ => p

/-- a place is in the tree as it says -/
def Place.Sound (t : FileTree) : Place → Prop
  | .dir p => t.node p = some .dir
  | .file p c => t.node (p ++ [c]) = some .file
  | .missing p c => t.node p = some .dir ∧ t.node (p ++ [c]) = none

/-- the ways of a component: on in a directory, along a link, or nowhere but to a place -/
theorem resolveWith_cons (t : FileTree) (p : List String) (c : String) :
    (∃ q, (∀ cs, Step t (p, c :: cs) (q, cs)) ∧ (t.node p = some .dir → t.node q = some .dir) ∧
      ∀ follow cs, resolveWith t follow p (c :: cs) = resolveWith t follow q cs) ∨
    (∃ target, t.node (p ++ [c]) = some (.link target) ∧
      ∀ follow cs, resolveWith t follow p (c :: cs) = follow (if target.rooted then [] else p) (target.parts ++ cs)) ∨
    ∃ place e, place.home = p ∧ (t.node p = some .dir → place.Sound t) ∧ (∀ d, place ≠ .dir d) ∧
      ∀ follow cs, resolveWith t follow p (c :: cs) = if cs = [] then .ok place else .error e := by
  by_cases hs : c = "" ∨ c = "."
  · exact .inl ⟨p, fun _ => .skip hs, id, fun _ _ => if_pos hs⟩
  by_cases hup : c = ".."
  · subst hup
    exact .inl ⟨p.dropLast, fun _ => .up, node_dropLast, fun _ _ => rfl⟩
  have hr : ∀ follow cs, resolveWith t follow p (c :: cs) = _ := fun _ _ => (if_neg hs).trans (if_neg hup)
  cases hn : t.node (p ++ [c]) with
  | none => exact .inr (.inr ⟨.missing p c, .notExist, rfl, fun hp => ⟨hp, hn⟩, nofun, fun _ _ => by rw [hr, hn]⟩)
  | some n =>
    cases n with
    | dir => exact .inl ⟨p ++ [c], fun _ => .down hn, fun _ => hn, fun _ _ => by rw [hr, hn]⟩
    | file => exact .inr (.inr ⟨.file p c, .notDir, rfl, fun _ => hn, nofun, fun _ _ => by rw [hr, hn]⟩)
    | link target => exact .inr (.inl ⟨target, rfl, fun _ _ => by rw [hr, hn]⟩)

theorem resolveWith_visits (hf : ∀ p cs place, follow p cs = .ok place → Visits t p cs place.home)
    (h : resolveWith t follow p cs = .ok place) : Visits t p cs place.home := by
  induction cs generalizing p with
  | nil =>
    cases h
    exact Visits.refl t p []
  | cons c cs ih =>
    rcases resolveWith_cons t p c with ⟨q, hs, _, hr⟩ | ⟨target, hl, hr⟩ |
      ⟨place', e, rfl, _, _, hr⟩ <;> rw [hr] at h
    · exact (ih h).head (hs cs)
    · exact (hf _ _ _ h).head (.follow hl)
    · split_ifs at h
      cases h
      exact Visits.refl t _ _

theorem resolveWith_sound
    (hf : ∀ p cs place, t.node p = some .dir → follow p cs = .ok place → place.Sound t) (hp : t.node p = some .dir)
    (h : resolveWith t follow p cs = .ok place) : place.Sound t := by
  induction cs generalizing p with
  | nil =>
    cases h
    exact hp
  | cons c cs ih =>
    rcases resolveWith_cons t p c with ⟨q, _, hd, hr⟩ | ⟨target, _, hr⟩ |
      ⟨place', e, _, hs, _, hr⟩ <;> rw [hr] at h
    · exact ih (hd hp) h
    · refine hf _ _ _ ?_ h
      split_ifs
      · exact t.node_nil
      · exact hp
    · split_ifs at h
      cases h
      exact hs hp

theorem resolve_sound (hp : t.node p = some .dir) (h : resolve t n p cs = .ok place) : place.Sound t := by
  induction n generalizing p cs place with
  | zero => exact resolveWith_sound (fun _ _ _ _ h => by cases h) hp h
  | succ n ih => exact resolveWith_sound (fun _ _ _ hp h => ih hp h) hp h

/-- real directories are walked through without following a link -/
theorem resolveWith_dirs {q : List String} (h : t.node (p ++ q) = some .dir) (cs : List String) :
    resolveWith t follow p (q ++ cs) = resolveWith t follow (p ++ q) cs := by
  induction q generalizing p with
  | nil => rw [append_nil, nil_append]
  | cons c q ih =>
    have hs : p ++ c :: q = p ++ [c] ++ q := by simp
    rw [hs] at h ⊢
    have hd : t.node (p ++ [c]) = some .dir := by
      by_cases hq : q = []
      · rwa [hq, append_nil] at h
      · exact node_prefix (by rw [h]; exact nofun) hq
    have hc := isName_of_node hd c (by simp)
    rw [cons_append, resolveWith, if_neg (not_or.2 ⟨hc.1, hc.2.1⟩), if_neg hc.2.2, hd]
    exact ih h

theorem resolve_dirs (n : ℕ) {q : List String} (h : t.node (p ++ q) = some .dir) (cs : List String) :
    resolve t n p (q ++ cs) = resolve t n (p ++ q) cs := by
  cases n with
  | zero => exact resolveWith_dirs h cs
  | succ n => exact resolveWith_dirs h cs

theorem resolve_visits (h : resolve t n p cs = .ok place) : Visits t p cs place.home := by
  induction n generalizing p cs place with
  | zero => exact resolveWith_visits (fun _ _ _ h => by cases h) h
  | succ n ih => exact resolveWith_visits (fun _ _ _ h => ih h) h

/-! ## Resolution without a limit -/

/-- more links do not matter where the limit was not reached -/
theorem resolveWith_mono {f g : List String → List String → Except Errno Place}
    (hfg : ∀ p cs, f p cs ≠ .error .loop → g p cs = f p cs)
    (h : resolveWith t f p cs ≠ .error .loop) : resolveWith t g p cs = resolveWith t f p cs := by
  induction cs generalizing p with
  | nil => rfl
  | cons c cs ih =>
    rcases resolveWith_cons t p c with ⟨q, _, _, hr⟩ | ⟨target, _, hr⟩ |
      ⟨place', e, _, _, _, hr⟩ <;> rw [hr] at h ⊢
    · rw [hr, ih h]
    · rw [hr, hfg _ _ h]
    · rw [hr]

theorem resolve_mono {m : ℕ} (hnm : n ≤ m) (h : resolve t n p cs ≠ .error .loop) :
    resolve t m p cs = resolve t n p cs := by
  induction n generalizing m p cs with
  | zero =>
    cases m with
    | zero => rfl
    | succ m => exact resolveWith_mono (fun _ _ hl => absurd rfl hl) h
  | succ n ih =>
    cases m with
    | zero => exact absurd hnm (Nat.not_succ_le_zero n)
    | succ m => exact resolveWith_mono (fun _ _ hl => ih (Nat.le_of_succ_le_succ hnm) hl) h

theorem resolve_unique {m : ℕ} (hn : resolve t n p cs ≠ .error .loop)
    (hm : resolve t m p cs ≠ .error .loop) : resolve t n p cs = resolve t m p cs := by
  rcases Nat.le_total n m with hnm | hmn
  · exact (resolve_mono hnm hn).symm
  · exact resolve_mono hmn hm

theorem resolveWith_concat (h : resolveWith t follow p (cs ++ [c]) = .ok place)
    (hf : ∀ p cs place, follow p (cs ++ [c]) = .ok place → ∃ d, follow p cs = .ok (.dir d)) :
    ∃ d, resolveWith t follow p cs = .ok (.dir d) := by
  induction cs generalizing p with
  | nil => exact ⟨p, rfl⟩
  | cons d cs ih =>
    rw [cons_append] at h
    rcases resolveWith_cons t p d with ⟨q, _, _, hr⟩ | ⟨target, _, hr⟩ |
      ⟨place', e, _, _, _, hr⟩ <;> rw [hr] at h ⊢
    · exact ih h
    · rw [← append_assoc] at h
      exact hf _ _ _ h
    · simp at h

/-- on the way to its last component a path leads to a directory -/
theorem resolve_concat (h : resolve t n p (cs ++ [c]) = .ok place) : ∃ d, resolve t n p cs = .ok (.dir d) := by
  induction n generalizing p cs place with
  | zero => exact resolveWith_concat h nofun
  | succ n ih => exact resolveWith_concat h fun _ _ _ => ih

/-- where a name in a directory leads, unless it is a link -/
def lastPlace (t : FileTree) (d : List String) (c : String) : Option Place :=
  match t.node (d ++ [c]) with
  | none => some (.missing d c)
  | some .dir => some (.dir (d ++ [c]))
  | some .file => some (.file d c)
  | some (.link _) => none

theorem resolveWith_last {d : List String} (h : resolveWith t follow p cs = .ok (.dir d)) (hc : IsName c)
    (hp : t.lastPlace d c = some place) (hf : ∀ p cs, follow p cs = .ok (.dir d) → follow p (cs ++ [c]) = .ok place) :
    resolveWith t follow p (cs ++ [c]) = .ok place := by
  induction cs generalizing p with
  | nil =>
    cases h
    rw [nil_append, resolveWith, if_neg (not_or.2 ⟨hc.1, hc.2.1⟩), if_neg hc.2.2]
    unfold lastPlace at hp
    cases hn : t.node (d ++ [c]) with
    | none =>
      rw [hn] at hp
      cases hp
      rfl
    | some n =>
      rw [hn] at hp
      cases n with
      | dir =>
        cases hp
        rfl
      | file =>
        cases hp
        rfl
      | link target => cases hp
  | cons e cs ih =>
    rw [cons_append]
    rcases resolveWith_cons t p e with ⟨q, _, _, hr⟩ | ⟨target, _, hr⟩ |
      ⟨place', err, _, _, hd, hr⟩ <;> rw [hr] at h ⊢
    · exact ih h
    · rw [← append_assoc]
      exact hf _ _ h
    · split_ifs at h
      exact absurd (Except.ok.inj h) (hd d)

/-- a path leads to its last component, if that is not a link -/
theorem resolve_last {d : List String}
    (h : resolve t n p cs = .ok (.dir d)) (hc : IsName c) (hp : t.lastPlace d c = some place) :
    resolve t n p (cs ++ [c]) = .ok place := by
  induction n generalizing p cs with
  | zero => exact resolveWith_last h hc hp nofun
  | succ n ih => exact resolveWith_last h hc hp fun _ _ => ih

end FileTree

end GitOpsDeploy

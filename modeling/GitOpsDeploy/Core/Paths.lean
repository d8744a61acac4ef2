/-
Slash-separated paths, as the Go package `path/filepath` handles them on Unix.

A path is split into its components once; cleaning, joining, taking the directory and making a path relative are functions
on components. None of them looks at a file system.
-/
import Mathlib.Tactic

namespace GitOpsDeploy.Paths

open List

structure SlashPath where
  rooted : Bool
  parts : List String
  deriving DecidableEq, Repr

/-- the text between the slashes, with the empty pieces -/
def components (s : String) : List String := (s.toList.splitOn '/').map String.ofList

def ofString (s : String) : SlashPath := ⟨s.toList.head? = some '/', components s⟩

/-- one more component after a clean path -/
def push (rooted : Bool) (p : List String) (c : String) : List String :=
  if c = "" ∨ c = "." then p
  else if c = ".." then
    match p.getLast? with
    | none => if rooted then [] else [".."]
    | some d => if d = ".." then p ++ [".."] else p.dropLast
  else p ++ [c]

def SlashPath.clean (p : SlashPath) : SlashPath := { p with parts := p.parts.foldl (push p.rooted) [] }

/-- the text of a clean path -/
def SlashPath.text (p : SlashPath) : String :=
  if p.rooted then "/" ++ "/".intercalate p.parts
  else if p.parts = [] then "." else "/".intercalate p.parts

/-- `filepath.Join`: leading empty elements are dropped -/
def join (elems : List String) : String :=
  match elems.dropWhile (· = "") with
  | [] => ""
  | elems => (ofString ("/".intercalate elems)).clean.text

/-! ## Clean rooted paths -/

/-- the name of a directory entry -/
def IsName (c : String) : Prop := c ≠ "" ∧ c ≠ "." ∧ c ≠ ".."

instance (c : String) : Decidable (IsName c) := inferInstanceAs (Decidable (_ ∧ _))

def cleanRooted (cs : List String) : List String := cs.foldl (push true) []

/-- `filepath.Abs` -/
def abs (cwd path : String) : List String :=
  cleanRooted (if (ofString path).rooted then components path else components cwd ++ components path)

variable {p : List String}

theorem push_name {c : String} (hc : IsName c) : push true p c = p ++ [c] := by
  unfold push
  rw [if_neg (not_or.2 ⟨hc.1, hc.2.1⟩), if_neg hc.2.2]

theorem push_up (hp : ∀ c ∈ p, IsName c) : push true p ".." = p.dropLast := by
  unfold push
  rcases eq_nil_or_concat p with rfl | ⟨q, d, rfl⟩
  · rfl
  · rw [concat_eq_append, List.getLast?_concat] at *
    exact if_neg (hp d (by simp)).2.2

theorem push_names (hp : ∀ c ∈ p, IsName c) (c : String) : ∀ d ∈ push true p c, IsName d := by
  by_cases hc : IsName c
  · rw [push_name hc]
    intro d hd
    rcases mem_append.1 hd with hd | hd
    · exact hp d hd
    · rwa [mem_singleton.1 hd]
  · by_cases hup : c = ".."
    · rw [hup, push_up hp]
      exact fun d hd => hp d (mem_of_mem_dropLast hd)
    have hs : c = "" ∨ c = "." := by
      by_contra hne
      exact hc ⟨fun h => hne (.inl h), fun h => hne (.inr h), hup⟩
    unfold push
    rwa [if_pos hs]

theorem foldl_push_names (hp : ∀ c ∈ p, IsName c) (cs : List String) : ∀ d ∈ cs.foldl (push true) p, IsName d := by
  induction cs generalizing p with
  | nil => exact hp
  | cons c cs ih => exact ih (push_names hp c)

theorem cleanRooted_names (cs : List String) : ∀ d ∈ cleanRooted cs, IsName d :=
  foldl_push_names (fun _ h => absurd h not_mem_nil) cs

theorem cleanRooted_of_names {cs : List String} (h : ∀ c ∈ cs, IsName c) : cleanRooted cs = cs := by
  induction cs using List.reverseRecOn with
  | nil => rfl
  | append_singleton cs c ih =>
    unfold cleanRooted at ih ⊢
    rw [foldl_append, ih fun d hd => h d (mem_append_left _ hd)]
    exact push_name (h c (by simp))

theorem cleanRooted_idem (cs : List String) : cleanRooted (cleanRooted cs) = cleanRooted cs :=
  cleanRooted_of_names (cleanRooted_names cs)

/-! ## Spellings -/

/-- one component is left out that says nothing, or a name with the way back up, or the way up from the root -/
inductive Shortens (rooted : Bool) : List String → List String → Prop where
  | empty (p q : List String) : Shortens rooted (p ++ "" :: q) (p ++ q)
  | dot (p q : List String) : Shortens rooted (p ++ "." :: q) (p ++ q)
  | back (p q : List String) {c : String} (hc : IsName c) : Shortens rooted (p ++ c :: ".." :: q) (p ++ q)
  | root (q : List String) (h : rooted = true) : Shortens rooted (".." :: q) q

/-- two spellings of one path: they can be shortened to the same -/
def SlashPath.Respells (p q : SlashPath) : Prop :=
  p.rooted = q.rooted ∧ Relation.Join (Relation.ReflTransGen (Shortens p.rooted)) p.parts q.parts

variable {rooted : Bool} {q : List String}

theorem Shortens.clean_eq (h : Shortens rooted p q) : p.foldl (push rooted) [] = q.foldl (push rooted) [] := by
  cases h with
  | empty p q => simp [push]
  | dot p q => simp [push]
  | back p q hc => simp [push, hc.1, hc.2.1, hc.2.2]
  | root q h => simp [push, h]

theorem Shortens.append (h : Shortens rooted p q) (l : List String) : Shortens rooted (p ++ l) (q ++ l) := by
  cases h with
  | empty p q => simpa using Shortens.empty p (q ++ l)
  | dot p q => simpa using Shortens.dot p (q ++ l)
  | back p q hc => simpa using Shortens.back p (q ++ l) hc
  | root q h => exact .root (q ++ l) h

/-- one more component: a clean path is kept, or it is shortened to one -/
theorem shortens_push (hp : ∀ d ∈ p, d ≠ ".." → IsName d) (c : String) :
    Relation.ReflTransGen (Shortens rooted) (p ++ [c]) (push rooted p c) ∧
      ∀ d ∈ push rooted p c, d ≠ ".." → IsName d := by
  unfold push
  by_cases hs : c = "" ∨ c = "."
  · rw [if_pos hs]
    refine ⟨.single ?_, hp⟩
    rcases hs with rfl | rfl
    · simpa using @Shortens.empty rooted p []
    · simpa using @Shortens.dot rooted p []
  rw [if_neg hs]
  by_cases hu : c = ".."
  · rw [if_pos hu]
    subst hu
    rcases eq_nil_or_concat p with rfl | ⟨p, d, rfl⟩
    · cases rooted with
      | true => exact ⟨.single (.root [] rfl), by simp⟩
      | false => exact ⟨.refl, by simp⟩
    · rw [concat_eq_append] at *
      simp only [getLast?_concat, dropLast_concat]
      split_ifs with hd
      · exact ⟨.refl, by simpa [or_imp, forall_and] using hp⟩
      · refine ⟨.single ?_, fun e he => hp e (mem_append_left _ he)⟩
        simpa using @Shortens.back rooted p [] d (hp d (by simp) hd)
  · rw [if_neg hu]
    refine ⟨.refl, fun d hd hne => ?_⟩
    rcases mem_append.1 hd with hd | hd
    · exact hp d hd hne
    · rw [mem_singleton.1 hd] at hne ⊢
      exact ⟨fun h => hs (.inl h), fun h => hs (.inr h), hne⟩

theorem shortens_clean (p : List String) : Relation.ReflTransGen (Shortens rooted) p (p.foldl (push rooted) []) ∧
    ∀ d ∈ p.foldl (push rooted) [], d ≠ ".." → IsName d := by
  induction p using List.reverseRecOn with
  | nil => exact ⟨.refl, nofun⟩
  | append_singleton p c ih =>
    obtain ⟨hs, hn⟩ := @shortens_push _ rooted ih.2 c
    rw [foldl_append]
    exact ⟨(ih.1.lift (· ++ [c]) fun _ _ h => h.append [c]).trans hs, hn⟩

/-- **Cleaning** identifies exactly the spellings of one path. -/
theorem SlashPath.clean_eq_iff {p q : SlashPath} : p.clean = q.clean ↔ p.Respells q := by
  have hk {l l' : List String} (h : Relation.ReflTransGen (Shortens p.rooted) l l') :
      l.foldl (push p.rooted) [] = l'.foldl (push p.rooted) [] := by
    induction h with
    | refl => rfl
    | tail _ h ih => exact ih.trans h.clean_eq
  obtain ⟨r, l⟩ := p
  obtain ⟨r', l'⟩ := q
  simp only [clean, SlashPath.mk.injEq, Respells]
  refine and_congr_right fun hr => ?_
  subst hr
  refine ⟨fun h => ⟨_, (shortens_clean l).1, h ▸ (shortens_clean l').1⟩,
    fun ⟨m, hl, hl'⟩ => (hk hl).trans (hk hl').symm⟩

/-- how many leading components two paths share -/
def common : List String → List String → ℕ
  | c :: cs, d :: ds => if c = d then common cs ds + 1 else 0
  | _, _ => 0

/-- `filepath.Rel` of two clean rooted paths, in components -/
def relParts (base targ : List String) : List String :=
  if base = targ then ["."] else List.replicate (base.length - common base targ) ".." ++ targ.drop (common base targ)

theorem common_le_left (p q : List String) : common p q ≤ p.length := by
  induction p generalizing q with
  | nil => exact Nat.zero_le _
  | cons c cs ih =>
    cases q with
    | nil => exact Nat.zero_le _
    | cons d ds =>
      unfold common
      split_ifs
      · exact Nat.succ_le_succ (ih ds)
      · exact Nat.zero_le _

theorem common_eq_length_iff {q : List String} : common p q = p.length ↔ p <+: q := by
  induction p generalizing q with
  | nil => simp [common]
  | cons c cs ih =>
    cases q with
    | nil => simp [common]
    | cons d ds =>
      rw [cons_prefix_cons, ← ih, common]
      split_ifs with hcd
      · simp [hcd]
      · simp [hcd]

/-- a relative path leads up first exactly when it leads out of the base -/
theorem head_relParts {base targ : List String} (ht : ".." ∉ targ) :
    (relParts base targ).head? = some ".." ↔ ¬base <+: targ := by
  unfold relParts
  split_ifs with he
  · subst he
    simp
  · rw [← common_eq_length_iff]
    cases hn : base.length - common base targ with
    | zero =>
      have hle := common_le_left base targ
      rw [replicate_zero, nil_append]
      refine iff_of_false (fun hh => ht ?_) (not_not.2 (by omega))
      exact mem_of_mem_drop (List.mem_of_mem_head? hh)
    | succ n => simp [replicate_succ]; omega

end GitOpsDeploy.Paths

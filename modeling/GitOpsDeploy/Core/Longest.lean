/-
The longest element of a list that passes a test, by one pass that keeps the length and the element found so far.

An element of length 0 is never found, and of several longest ones the first is.
-/
import Mathlib.Tactic

namespace GitOpsDeploy.Longest

open List

variable {α : Type} (length : α → ℕ) (p : α → Bool)

/-- one more element: it replaces what was found if it passes and is longer -/
def longer (best : ℕ × Option α) (a : α) : ℕ × Option α :=
  if p a && length a > best.1 then (length a, some a) else best

def longest (l : List α) : Option α := (l.foldl (longer length p) (0, none)).2

variable {length p} {l : List α} {a : α}

/-- what the pass has after the list, from what it had before -/
structure Best (length : α → ℕ) (p : α → Bool) (l : List α) (before after : ℕ × Option α) : Prop where
  grows : before.1 ≤ after.1
  found : after = before ∨ ∃ a ∈ l, after = (length a, some a) ∧ before.1 < length a ∧ p a = true
  longest : ∀ a ∈ l, p a = true → length a ≤ after.1

theorem best_foldl (l : List α) (before : ℕ × Option α) :
    Best length p l before (l.foldl (longer length p) before) := by
  induction l generalizing before with
  | nil => exact ⟨le_rfl, .inl rfl, nofun⟩
  | cons a l ih =>
    rw [foldl_cons]
    have hr := ih (longer length p before a)
    unfold longer at hr ⊢
    split_ifs at hr ⊢ with h
    · obtain ⟨hp, hlt⟩ : p a = true ∧ before.1 < length a := by simpa using h
      refine ⟨hlt.le.trans hr.grows, .inr ?_, forall_mem_cons.2 ⟨fun _ => hr.grows, hr.longest⟩⟩
      rcases hr.found with hs | ⟨b, hb, ha, hlt', hpb⟩
      · exact ⟨a, mem_cons_self, hs, hlt, hp⟩
      · exact ⟨b, mem_cons_of_mem _ hb, ha, hlt.trans hlt', hpb⟩
    · refine ⟨hr.grows, ?_, forall_mem_cons.2 ⟨fun hp => ?_, hr.longest⟩⟩
      · rcases hr.found with hs | ⟨b, hb, ha, hlt, hpb⟩
        · exact .inl hs
        · exact .inr ⟨b, mem_cons_of_mem _ hb, ha, hlt, hpb⟩
      · have hle : length a ≤ before.1 := by simpa [hp] using h
        exact hle.trans hr.grows

theorem longest_eq_none : longest length p l = none ↔ ∀ a ∈ l, p a = true → length a = 0 := by
  have hbe : Best length p l (0, none) (l.foldl (longer length p) (0, none)) := best_foldl l (0, none)
  unfold longest
  constructor
  · intro hn a ha hp
    rcases hbe.found with haf | ⟨b, -, haf, -, -⟩
    · have hle := hbe.longest a ha hp
      rw [haf] at hle
      exact Nat.le_zero.1 hle
    · rw [haf] at hn
      cases hn
  · intro hno
    rcases hbe.found with haf | ⟨b, hb, -, hlt, hp⟩
    · rw [haf]
    · exact absurd (hno b hb hp) (Nat.pos_iff_ne_zero.1 hlt)

theorem longest_eq_some (h : longest length p l = some a) :
    a ∈ l ∧ p a = true ∧ 0 < length a ∧ ∀ b ∈ l, p b = true → length b ≤ length a := by
  have hbe : Best length p l (0, none) (l.foldl (longer length p) (0, none)) := best_foldl l (0, none)
  unfold longest at h
  rcases hbe.found with ha | ⟨b, hb, ha, hlt, hp⟩
  · rw [ha] at h
    cases h
  · have hl := hbe.longest
    rw [ha] at h hl
    cases h
    exact ⟨hb, hp, hlt, hl⟩

end GitOpsDeploy.Longest

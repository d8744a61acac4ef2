/-
Computations that may fail (`Except`): when a sequence, a loop or a list of them succeeds.
-/
import Mathlib.Tactic

namespace GitOpsDeploy

open List

namespace Fallible

variable {X A B : Type}

variable {r : Except X A}

theorem exists_ok_iff : (∃ a, r = .ok a) ↔ ¬∃ x, r = .error x := by
  cases r <;> simp

theorem mapError_eq_ok {Y : Type} {f : X → Y} {a : A} : r.mapError f = .ok a ↔ r = .ok a := by
  cases r <;> simp [Except.mapError]

variable {b : B}

theorem map_eq_ok {f : A → B} : r.map f = .ok b ↔ ∃ a, r = .ok a ∧ f a = b := by
  cases r <;> simp [Except.map]

theorem toOption_eq_some {a : A} : r.toOption = some a ↔ r = .ok a := by
  cases r <;> simp [Except.toOption]

/-! ## Sequences -/

variable {f : A → Except X B} {l : List A}

theorem bind_eq_ok {x : Except X A} : x >>= f = .ok b ↔ ∃ a, x = .ok a ∧ f a = .ok b := by
  cases x <;> simp [bind, Except.bind]

theorem unit_bind_eq_ok {x : Except X Unit} {f : Unit → Except X B} : x >>= f = .ok b ↔ x = .ok () ∧ f () = .ok b := by
  cases x <;> simp [bind, Except.bind]

theorem bind_eq_error {x : Except X A} {e : X} :
    x >>= f = .error e ↔ x = .error e ∨ ∃ a, x = .ok a ∧ f a = .error e := by
  cases x <;> simp [bind, Except.bind]

/-! ## Lists -/

theorem forM_ok {f : A → Except X Unit} (h : forM l f = .ok ()) : ∀ a ∈ l, f a = .ok () := by
  induction l with
  | nil => exact nofun
  | cons a l ih =>
    rw [forM_cons, unit_bind_eq_ok] at h
    intro b hb
    rcases mem_cons.1 hb with rfl | hb
    · exact h.1
    · exact ih h.2 b hb

theorem forM_ne_error {f : A → Except X Unit} {e : X} (h : ∀ a ∈ l, f a ≠ .error e) : forM l f ≠ .error e := by
  induction l with
  | nil => exact nofun
  | cons a l ih =>
    rw [forM_cons, ne_eq, bind_eq_error]
    rintro (ha | ⟨_, _, hl⟩)
    · exact h a mem_cons_self ha
    · exact ih (fun b hb => h b (mem_cons_of_mem _ hb)) hl

theorem exists_mapM_eq_ok : (∃ bs, l.mapM f = .ok bs) ↔ ∀ a ∈ l, ∃ b, f a = .ok b := by
  induction l with
  | nil => simp [pure, Except.pure]
  | cons a l ih =>
    rw [forall_mem_cons, ← ih, mapM_cons]
    simp only [bind_eq_ok]
    constructor
    · rintro ⟨_, b, hb, bs, hbs, _⟩
      exact ⟨⟨b, hb⟩, bs, hbs⟩
    · rintro ⟨⟨b, hb⟩, bs, hbs⟩
      exact ⟨b :: bs, b, hb, bs, hbs, rfl⟩

end Fallible

end GitOpsDeploy

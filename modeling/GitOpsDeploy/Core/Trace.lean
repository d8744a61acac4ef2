/-
Programs as sequences of primitive actions.

A program that only changes its state through actions is described by which actions it may take, in which states:
`Reach apply allowed s s'` says that s' is reached from s by allowed actions.
-/
import Mathlib.Tactic

namespace GitOpsDeploy.Trace

open List

variable {S A : Type*}

inductive Reach (apply : A → S → S) (allowed : S → A → Prop) (s : S) : S → Prop
  | refl : Reach apply allowed s s
  | tail {s' : S} (a : A) : Reach apply allowed s s' → allowed s' a → Reach apply allowed s (apply a s')

variable {apply : A → S → S} {allowed allowed' : S → A → Prop}

variable {s s' : S} {ι : Type*}

theorem Reach.trans {s'' : S} (h : Reach apply allowed s s') (h' : Reach apply allowed s' s'') :
    Reach apply allowed s s'' := by
  induction h' with
  | refl => exact h
  | tail a _ ha ih => exact ih.tail a ha

theorem Reach.act (a : A) (h : allowed s a) : Reach apply allowed s (apply a s) := Reach.refl.tail a h

theorem Reach.mono (h : Reach apply allowed s s') (hs : ∀ t a, allowed t a → allowed' t a) :
    Reach apply allowed' s s' := by
  induction h with
  | refl => exact .refl
  | tail a _ ha ih => exact ih.tail a (hs _ a ha)

theorem Reach.foldl {R : Type*} (f : R × S → ι → R × S) (is : List ι) (r : R) (s : S)
    (hf : ∀ r s, ∀ i ∈ is, Reach apply allowed s (f (r, s) i).2) : Reach apply allowed s (is.foldl f (r, s)).2 := by
  induction is generalizing r s with
  | nil => exact .refl
  | cons i is ih =>
    refine (hf r s i mem_cons_self).trans ?_
    exact ih (f (r, s) i).1 (f (r, s) i).2 fun r s j hj => hf r s j (mem_cons_of_mem _ hj)

theorem Reach.foldl_state (f : S → ι → S) (is : List ι) (s : S)
    (hf : ∀ s, ∀ i ∈ is, Reach apply allowed s (f s i)) : Reach apply allowed s (is.foldl f s) := by
  induction is generalizing s with
  | nil => exact .refl
  | cons i is ih =>
    exact (hf s i mem_cons_self).trans (ih (f s i) fun s j hj => hf s j (mem_cons_of_mem _ hj))

theorem Reach.inv (h : Reach apply allowed s s') (I : S → Prop) (h0 : I s)
    (hI : ∀ t a, I t → allowed t a → I (apply a t)) : I s' := by
  induction h with
  | refl => exact h0
  | tail a _ ha ih => exact hI _ a ih ha

/-- each action of the list is allowed when its turn comes -/
def Legal (apply : A → S → S) (allowed : S → A → Prop) : S → List A → Prop
  | _, [] => True
  | s, a :: as => allowed s a ∧ Legal apply allowed (apply a s) as

instance Legal.decidable (apply : A → S → S) (allowed : S → A → Prop) [∀ s a, Decidable (allowed s a)] :
    (s : S) → (as : List A) → Decidable (Legal apply allowed s as)
  | _, [] => isTrue trivial
  | s, a :: as => @instDecidableAnd _ _ _ (Legal.decidable apply allowed (apply a s) as)

theorem Reach.of_legal {as : List A} (h : Legal apply allowed s as) :
    Reach apply allowed s (as.foldl (fun s a => apply a s) s) := by
  induction as generalizing s with
  | nil => exact .refl
  | cons a as ih => exact (Reach.act a h.1).trans (ih h.2)

/-- `clean` is lost for good by a turn that fails; `good` is what a turn that does not fail leaves, and later turns keep -/
theorem foldl_clean {f : S → ι → S} (clean : S → Prop) (good : ι → S → Prop)
    (hst : ∀ s i, clean (f s i) → clean s ∧ good i (f s i)) (hk : ∀ s i j, good j s → good j (f s i))
    (is : List ι) (s : S) (h : clean (is.foldl f s)) : clean s ∧ ∀ i ∈ is, good i (is.foldl f s) := by
  induction is generalizing s with
  | nil => exact ⟨h, nofun⟩
  | cons i is ih =>
    obtain ⟨hc, hg⟩ := ih (f s i) h
    obtain ⟨hs, hi⟩ := hst s i hc
    refine ⟨hs, fun j hj => ?_⟩
    rcases mem_cons.1 hj with rfl | hj
    · exact List.foldlRecOn is f hi fun s hs i _ => hk s i j hs
    · exact hg j hj

end GitOpsDeploy.Trace

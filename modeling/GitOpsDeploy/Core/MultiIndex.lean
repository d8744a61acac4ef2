/-
A set-valued index (Go's `map[U]map[K]struct{}`) that never stores an empty set.
-/
import Mathlib.Tactic

namespace GitOpsDeploy

open Function

structure MultiIndex (U K : Type*) where
  sets : U → Option (Finset K)
  nonempty : ∀ u S, sets u = some S → S.Nonempty

namespace MultiIndex

variable {U K : Type*} [DecidableEq U] [DecidableEq K]

def empty : MultiIndex U K := ⟨fun _ => none, nofun⟩

variable (m : MultiIndex U K) (u : U)

/-- the set stored for u; nothing is stored for an empty one -/
def get : Finset K := (m.sets u).getD ∅

def add (k : K) : MultiIndex U K where
  sets := Function.update m.sets u (some (insert k (m.get u)))
  nonempty v S h := by
    by_cases hv : v = u
    · subst hv
      rw [update_self] at h
      cases h
      exact Finset.insert_nonempty _ _
    · rw [update_of_ne hv] at h
      exact m.nonempty v S h

def remove (k : K) : MultiIndex U K where
  sets := Function.update m.sets u (if (m.get u).erase k = ∅ then none else some ((m.get u).erase k))
  nonempty v S h := by
    by_cases hv : v = u
    · subst hv
      rw [update_self] at h
      split_ifs at h with he
      cases h
      exact Finset.nonempty_iff_ne_empty.2 he
    · rw [update_of_ne hv] at h
      exact m.nonempty v S h

def Has (k : K) : Prop := k ∈ m.get u

omit [DecidableEq U] [DecidableEq K] in
@[simp]
theorem not_has_empty (k : K) : ¬ (empty : MultiIndex U K).Has u k := Finset.notMem_empty k

omit [DecidableEq U] [DecidableEq K] in
/-- since no empty set is stored, the pairs determine the sets -/
theorem sets_eq_of_has {m m' : MultiIndex U K} (h : ∀ u k, m.Has u k ↔ m'.Has u k) : m.sets = m'.sets := by
  funext u
  have hg : m.get u = m'.get u := Finset.ext (h u)
  unfold get at hg
  cases hm : m.sets u with
  | none =>
    cases hm' : m'.sets u with
    | none => rfl
    | some S =>
      rw [hm, hm'] at hg
      exact absurd hg.symm (Finset.nonempty_iff_ne_empty.1 (m'.nonempty u S hm'))
  | some S =>
    cases hm' : m'.sets u with
    | none =>
      rw [hm, hm'] at hg
      exact absurd hg (Finset.nonempty_iff_ne_empty.1 (m.nonempty u S hm))
    | some S' =>
      rw [hm, hm'] at hg
      exact congrArg some hg

theorem has_add (u v : U) (k l : K) : (m.add u k).Has v l ↔ (v = u ∧ l = k) ∨ m.Has v l := by
  by_cases hv : v = u
  · subst hv
    simp [Has, get, add]
  · simp [Has, get, add, hv]

theorem has_remove (u v : U) (k l : K) : (m.remove u k).Has v l ↔ m.Has v l ∧ ¬ (v = u ∧ l = k) := by
  by_cases hv : v = u
  · subst hv
    have hg : (m.remove v k).get v = (m.get v).erase k := by
      change (Function.update m.sets v (if (m.get v).erase k = ∅ then none else some ((m.get v).erase k)) v).getD ∅ = _
      rw [update_self]
      by_cases he : (m.get v).erase k = ∅
      · rw [if_pos he, he]
        rfl
      · rw [if_neg he]
        rfl
    rw [Has, hg, Finset.mem_erase]
    tauto
  · simp [Has, get, remove, hv]

theorem has_addAll (us : List U) (m : MultiIndex U K) (k : K) (v : U) (l : K) :
    (us.foldl (fun m u => m.add u k) m).Has v l ↔ (v ∈ us ∧ l = k) ∨ m.Has v l := by
  induction us generalizing m with
  | nil => simp
  | cons u us ih =>
    rw [List.foldl_cons, ih, has_add, List.mem_cons]
    tauto

theorem has_removeAll (us : List U) (m : MultiIndex U K) (k : K) (v : U) (l : K) :
    (us.foldl (fun m u => m.remove u k) m).Has v l ↔ m.Has v l ∧ ¬ (v ∈ us ∧ l = k) := by
  induction us generalizing m with
  | nil => simp
  | cons u us ih =>
    rw [List.foldl_cons, ih, has_remove, List.mem_cons]
    tauto

end MultiIndex

end GitOpsDeploy

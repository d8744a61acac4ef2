/-
The latest version of each thing: lists with at most one element for a key, where a new version replaces the one before it.
-/
import Mathlib.Tactic

namespace GitOpsDeploy.Latest

open List

variable {A B K : Type*} [DecidableEq K] (key : A → K)

/-- the elements without the one under k -/
def drop (k : K) (l : List A) : List A := l.filter fun y => key y ≠ k

/-- x in place of the element with its key -/
def put (x : A) (l : List A) : List A := x :: drop key (key x) l

variable {key}

variable {y x : A} {l : List A} {f : A → B} {key' : B → K}

theorem mem_drop {k : K} : y ∈ drop key k l ↔ y ∈ l ∧ key y ≠ k := by
  simp [drop]

theorem mem_put : y ∈ put key x l ↔ y = x ∨ y ∈ l ∧ key y ≠ key x := by
  simp [put, mem_drop]

theorem put_of_new (h : key x ∉ l.map key) : put key x l = x :: l := by
  refine congrArg _ (filter_eq_self.2 fun y hy => ?_)
  have hne : key y ≠ key x := fun he => h (he ▸ mem_map_of_mem hy)
  exact decide_eq_true hne

omit [DecidableEq K] in
theorem nodup_filter (h : (l.map key).Nodup) (P : A → Bool) : ((l.filter P).map key).Nodup :=
  h.sublist (filter_sublist.map key)

theorem nodup_put (h : (l.map key).Nodup) (x : A) : ((put key x l).map key).Nodup := by
  refine nodup_cons.2 ⟨fun hm => ?_, nodup_filter h _⟩
  obtain ⟨y, hy, he⟩ := mem_map.1 hm
  exact (mem_drop.1 hy).2 he

omit [DecidableEq K] in
theorem map_filter_key (h : ∀ x, key' (f x) = key x) (P : K → Bool) (l : List A) :
    (l.filter fun x => P (key x)).map f = (l.map f).filter fun y => P (key' y) := by
  simp [filter_map, Function.comp_def, h]

theorem map_drop (h : ∀ x, key' (f x) = key x) (k : K) (l : List A) : (drop key k l).map f = drop key' k (l.map f) :=
  map_filter_key h (fun k' => decide (k' ≠ k)) l

theorem map_put (h : ∀ x, key' (f x) = key x) (x : A) (l : List A) :
    (put key x l).map f = put key' (f x) (l.map f) := by
  rw [put, put, map_cons, map_drop h, h]

omit [DecidableEq K] in
theorem eq_of_key_eq (h : (l.map key).Nodup) (hx : x ∈ l) (hy : y ∈ l) (he : key x = key y) : x = y :=
  inj_on_of_nodup_map h hx hy he

end GitOpsDeploy.Latest

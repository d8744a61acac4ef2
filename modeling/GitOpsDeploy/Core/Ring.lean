/-
A ring of points: a finite set of a linear order, walked upwards and around.

`next S h` is the point after h; `search` walks from h until a point satisfies a predicate, with fuel.
As many steps as there are points reach every point: `dist` is the number of points left before the satisfying one.
-/
import Mathlib.Tactic
import Mathlib.Data.Finset.Max

namespace GitOpsDeploy.Ring

open Finset

variable {α : Type*} [LinearOrder α]

variable (S : Finset α)

/-- the smallest point above h, or the smallest point of all -/
def next (hS : S.Nonempty) (h : α) : α :=
  if hx : (S.filter (h < ·)).Nonempty then (S.filter (h < ·)).min' hx else S.min' hS

/-- walk from h to the first point that satisfies `ok`; `none` is fuel exhausted -/
def search (S : Finset α) (hS : S.Nonempty) (ok : α → Bool) : ℕ → α → Option α
  | 0, _ => none
  | fuel + 1, h => if ok (next S hS h) then some (next S hS h) else search S hS ok fuel (next S hS h)

theorem next_mem (hS : S.Nonempty) (h : α) : next S hS h ∈ S := by
  unfold next
  split_ifs with hx
  · exact (mem_filter.1 (Finset.min'_mem _ hx)).1
  · exact Finset.min'_mem _ hS

theorem search_some (hS : S.Nonempty) (ok : α → Bool) (fuel : ℕ) (h x : α)
    (hx : search S hS ok fuel h = some x) : x ∈ S ∧ ok x = true := by
  induction fuel generalizing h with
  | zero => cases hx
  | succ fuel ih =>
    simp only [search] at hx
    split_ifs at hx with hok
    · cases hx
      exact ⟨next_mem S hS h, hok⟩
    · exact ih _ hx

/-- the points a walk from h passes before it reaches p -/
def dist (p h : α) : ℕ :=
  if h < p then (S.filter fun x => h < x ∧ x < p).card
  else (S.filter (h < ·)).card + (S.filter (· < p)).card

omit [LinearOrder α] in
theorem card_filter_lt {S : Finset α} {q r : α → Prop} [DecidablePred q] [DecidablePred r]
    (h : ∀ x, q x → r x) {y : α} (hy : y ∈ S) (hr : r y) (hq : ¬q y) : (S.filter q).card < (S.filter r).card := by
  refine card_lt_card ⟨monotone_filter_right S fun x _ => h x, fun hs => hq ?_⟩
  exact (mem_filter.1 (hs (mem_filter.2 ⟨hy, hr⟩))).2

/-- one step either reaches p or leaves fewer points before it -/
theorem dist_next (hS : S.Nonempty) (p h : α) (hp : p ∈ S) : next S hS h = p ∨ dist S p (next S hS h) < dist S p h := by
  by_cases heq : next S hS h = p
  · exact .inl heq
  right
  have hm := next_mem S hS h
  unfold next at heq hm ⊢
  split_ifs at heq hm ⊢ with hx
  · set y := (S.filter (h < ·)).min' hx
    have hy : h < y := (mem_filter.1 (Finset.min'_mem _ hx)).2
    unfold dist
    by_cases hhp : h < p
    · have hyp : y < p := lt_of_le_of_ne (Finset.min'_le _ _ (mem_filter.2 ⟨hp, hhp⟩)) heq
      rw [if_pos hyp, if_pos hhp]
      exact card_filter_lt (fun x hx => ⟨hy.trans hx.1, hx.2⟩) hm ⟨hy, hyp⟩ fun hn => lt_irrefl y hn.1
    · have hyp : ¬ y < p := fun hlt => hhp (hy.trans hlt)
      rw [if_neg hyp, if_neg hhp]
      apply Nat.add_lt_add_right
      exact card_filter_lt (fun x => hy.trans) hm hy (lt_irrefl y)
  · set y := S.min' hS
    have hyp : y < p := lt_of_le_of_ne (Finset.min'_le _ _ hp) heq
    have hhp : ¬ h < p := fun hlt => hx ⟨p, mem_filter.2 ⟨hp, hlt⟩⟩
    unfold dist
    rw [if_pos hyp, if_neg hhp]
    exact Nat.lt_add_left _ (card_filter_lt (fun x hx => hx.2) hm hyp fun hn => lt_irrefl y hn.1)

theorem dist_lt_card (p h : α) (hp : p ∈ S) : dist S p h < S.card := by
  unfold dist
  split_ifs with hhp
  · apply card_lt_card
    exact filter_ssubset.2 ⟨p, hp, fun hn => lt_irrefl p hn.2⟩
  · rw [← card_union_of_disjoint]
    · apply card_lt_card
      refine Finset.ssubset_iff_subset_ne.2 ⟨?_, fun he => ?_⟩
      · exact union_subset (filter_subset _ _) (filter_subset _ _)
      · rw [← he] at hp
        simp only [mem_union, mem_filter, lt_irrefl, and_false, or_false] at hp
        exact hhp hp.2
    · rw [disjoint_filter]
      intro x _ h1 h2
      exact hhp (h1.trans h2)

theorem search_isSome_of_dist (hS : S.Nonempty) (ok : α → Bool) (p : α) (hp : p ∈ S)
    (hok : ok p = true) (fuel : ℕ) (h : α) (hd : dist S p h < fuel) : (search S hS ok fuel h).isSome := by
  induction fuel generalizing h with
  | zero => omega
  | succ fuel ih =>
    simp only [search]
    split_ifs with hn
    · rfl
    · rcases dist_next S hS p h hp with heq | hlt
      · rw [heq] at hn
        exact absurd hok hn
      · exact ih _ (by omega)

theorem search_isSome (hS : S.Nonempty) (ok : α → Bool) (p : α) (hp : p ∈ S) (hok : ok p = true)
    (h : α) : (search S hS ok S.card h).isSome :=
  search_isSome_of_dist S hS ok p hp hok S.card h (dist_lt_card S p h hp)

end GitOpsDeploy.Ring

/-
Slice idioms that Go code writes by hand.

- `swapRemove` drops one element by moving the last one into its place.
- `moveUp` takes an element out and inserts another one further up.
-/
import Mathlib.Tactic
import Mathlib.Data.List.Sort

namespace GitOpsDeploy.Slices

open List

variable {α : Type*}

variable (l : List α)

/-- `s[i] = s[len-1]; s = s[:len-1]`; the caller guarantees `i < len` -/
def swapRemove (i : ℕ) : List α :=
  match l.getLast? with
  | none => []
  | some x => (l.set i x).dropLast

theorem swapRemove_perm (i : ℕ) (h : i < l.length) : (l[i] :: swapRemove l i).Perm l := by
  induction l using List.reverseRecOn with
  | nil => simp at h
  | append_singleton l x _ =>
    simp only [swapRemove, List.getLast?_append, List.getLast?_singleton, Option.some_or]
    by_cases hi : i < l.length
    · rw [set_append_left _ _ hi, dropLast_concat, getElem_append_left hi]
      -- the element at i trades places with x
      have h1 : (l[i] :: l.set i x).Perm (x :: l) := by
        have hs : (l.set i x).Perm (x :: l.eraseIdx i) := set_perm_cons_eraseIdx hi x
        have hg : (l[i] :: l.eraseIdx i).Perm l := getElem_cons_eraseIdx_perm hi
        exact (hs.cons l[i]).trans ((List.Perm.swap x l[i] _).trans (hg.cons x))
      exact h1.trans (perm_append_singleton x l).symm
    · have hi' : i = l.length := by simp at h; omega
      subst hi'
      simpa using (perm_append_singleton x l).symm

/-- `for j := i; j > index; j-- { s[j] = s[j-1] }; s[index] = x`; the caller guarantees `index ≤ i < len` -/
def moveUp (i index : ℕ) (x : α) : List α := (l.eraseIdx i).take index ++ x :: (l.eraseIdx i).drop index

theorem moveUp_perm (i index : ℕ) (x : α) : (moveUp l i index x).Perm (x :: l.eraseIdx i) := by
  have h : ((l.eraseIdx i).take index ++ x :: (l.eraseIdx i).drop index).Perm
      (x :: ((l.eraseIdx i).take index ++ (l.eraseIdx i).drop index)) := perm_middle
  rwa [take_append_drop] at h

theorem length_moveUp (i index : ℕ) (x : α) (hi : i < l.length) : (moveUp l i index x).length = l.length := by
  rw [(moveUp_perm l i index x).length_eq, length_cons, length_eraseIdx_of_lt hi]
  omega

theorem pairwise_moveUp {β : Type*} [Preorder β] (f : α → β) (l : List α) (i index : ℕ) (x y : α) (hlt : index < i)
    (hy : l[index]? = some y) (hxy : f x = f y) (hl : l.Pairwise fun a b => f a ≤ f b) :
    (moveUp l i index x).Pairwise fun a b => f a ≤ f b := by
  have he : (l.eraseIdx i).Pairwise fun a b => f a ≤ f b := hl.sublist (eraseIdx_sublist _ _)
  have hat : (l.eraseIdx i)[index]? = some y := by rw [List.getElem?_eraseIdx_of_lt hlt, hy]
  obtain ⟨hi, rfl⟩ := List.getElem?_eq_some_iff.1 hat
  have hs : (l.eraseIdx i).drop index = (l.eraseIdx i)[index] :: (l.eraseIdx i).drop (index + 1) :=
    drop_eq_getElem_cons hi
  rw [← take_append_drop index (l.eraseIdx i), pairwise_append] at he
  obtain ⟨hbe, haf, hac⟩ := he
  refine pairwise_append.2 ⟨hbe, pairwise_cons.2 ⟨fun b hb => ?_, haf⟩, fun a ha b hb => ?_⟩
  · rw [hxy]
    rw [hs] at hb haf
    rcases mem_cons.1 hb with rfl | hb
    · exact le_rfl
    · exact (pairwise_cons.1 haf).1 b hb
  · rcases mem_cons.1 hb with rfl | hb
    · rw [hxy]
      exact hac a ha _ (by rw [hs]; exact mem_cons_self)
    · exact hac a ha b hb

theorem orderedInsert_congr (r r' : α → α → Prop) [DecidableRel r] [DecidableRel r'] (a : α) (l : List α)
    (h : ∀ b ∈ l, r a b ↔ r' a b) : l.orderedInsert r a = l.orderedInsert r' a := by
  induction l with
  | nil => rfl
  | cons b l ih =>
    have hb := h b mem_cons_self
    by_cases hr : r a b
    · rw [orderedInsert_cons_of_le r l hr, orderedInsert_cons_of_le r' l (hb.1 hr)]
    · rw [orderedInsert_of_not_le r l hr, orderedInsert_of_not_le r' l fun h' => hr (hb.2 h'),
        ih fun c hc => h c (mem_cons_of_mem _ hc)]

theorem insertionSort_congr (r r' : α → α → Prop) [DecidableRel r] [DecidableRel r'] (l : List α)
    (h : ∀ a ∈ l, ∀ b ∈ l, r a b ↔ r' a b) : l.insertionSort r = l.insertionSort r' := by
  induction l with
  | nil => rfl
  | cons a l ih =>
    rw [insertionSort_cons, insertionSort_cons,
      ih fun b hb c hc => h b (mem_cons_of_mem _ hb) c (mem_cons_of_mem _ hc)]
    refine orderedInsert_congr r r' a _ fun b hb => h a mem_cons_self b (mem_cons_of_mem _ ?_)
    exact (perm_insertionSort r' l).mem_iff.1 hb

/-! ## Removing while ranging -/

variable [DecidableEq α]

/-- an array of which the first elements are still in the slice; x is dropped from them by moving the last one -/
def dropFrom (s : List α × ℕ) (x : α) : List α × ℕ :=
  if x ∈ s.1.take s.2 then (s.1.set ((s.1.take s.2).idxOf x) (s.1.getD (s.2 - 1) x), s.2 - 1) else s

/-- the body of `for _, x := range s { if p(x) { remove(x) } }` at index i -/
def rangeRemoveStep (p : α → Bool) (s : List α × ℕ) (i : ℕ) : List α × ℕ :=
  match s.1[i]? with
  | none => s
  | some x => if p x then dropFrom s x else s

/-- the loop reads every index of the original slice -/
def rangeRemove (p : α → Bool) (l : List α) : List α :=
  let s := (List.range l.length).foldl (rangeRemoveStep p) (l, l.length)
  s.1.take s.2

variable {s : List α × ℕ} {x : α} {i : ℕ} {p : α → Bool}

theorem take_dropFrom (hl : s.2 ≤ s.1.length) (h : x ∈ s.1.take s.2) :
    (dropFrom s x).1.take (dropFrom s x).2 = swapRemove (s.1.take s.2) ((s.1.take s.2).idxOf x) := by
  have hp : 0 < s.2 := by
    by_contra hz
    rw [Nat.eq_zero_of_not_pos hz] at h
    simp at h
  have hla : (s.1.take s.2).getLast? = some (s.1.getD (s.2 - 1) x) := by
    rw [List.getLast?_eq_getElem?, length_take, Nat.min_eq_left hl, List.getElem?_take_of_lt (by omega),
      List.getD_eq_getElem?_getD, List.getElem?_eq_getElem (by omega)]
    rfl
  rw [swapRemove, hla, dropFrom, if_pos h]
  dsimp only
  rw [dropLast_eq_take, length_set, length_take,
    Nat.min_eq_left hl, ← take_set, take_take, Nat.min_eq_left (Nat.sub_le _ _)]

theorem dropFrom_perm (hl : s.2 ≤ s.1.length) :
    ((dropFrom s x).1.take (dropFrom s x).2).Perm ((s.1.take s.2).erase x) := by
  by_cases h : x ∈ s.1.take s.2
  · have hk : (s.1.take s.2).idxOf x < (s.1.take s.2).length := idxOf_lt_length_iff.mpr h
    have hp := swapRemove_perm (s.1.take s.2) _ hk
    rw [getElem_idxOf hk, ← take_dropFrom hl h] at hp
    exact (cons_perm_iff_perm_erase.1 hp).2
  · rw [dropFrom, if_neg h, erase_of_not_mem h]

theorem length_dropFrom (hl : s.2 ≤ s.1.length) :
    (dropFrom s x).1.length = s.1.length ∧ (dropFrom s x).2 ≤ s.1.length := by
  unfold dropFrom
  split_ifs
  · exact ⟨length_set, (Nat.sub_le _ _).trans hl⟩
  · exact ⟨rfl, hl⟩

/-- what the loop has not read yet stays: x is dropped at its first index -/
theorem drop_dropFrom (hi : s.1[i]? = some x) : (dropFrom s x).1.drop (i + 1) = s.1.drop (i + 1) := by
  unfold dropFrom
  split_ifs with h
  · apply drop_set_of_lt
    by_cases hlt : i < s.2
    · have hg : (s.1.take s.2)[i]? = some x := by rw [List.getElem?_take_of_lt hlt, hi]
      have hle : (s.1.take s.2).idxOf x ≤ i := by
        obtain ⟨hlt', hx⟩ := List.getElem?_eq_some_iff.mp hg
        by_contra hb
        have hne := not_of_lt_findIdx (Nat.lt_of_not_le hb)
        rw [hx, beq_self_eq_true] at hne
        cases hne
      omega
    · have hk : (s.1.take s.2).idxOf x < (s.1.take s.2).length := idxOf_lt_length_iff.mpr h
      rw [length_take] at hk
      omega
  · rfl

/-- every element of the slice that is to go is still ahead, as often as the slice has it -/
structure Ahead (p : α → Bool) (s : List α × ℕ) (i : ℕ) : Prop where
  len_le : s.2 ≤ s.1.length
  count_le : ∀ x, p x = true → (s.1.take s.2).count x ≤ (s.1.drop i).count x

theorem Ahead.step (h : Ahead p s i) :
    Ahead p (rangeRemoveStep p s i) (i + 1) ∧ (rangeRemoveStep p s i).1.length = s.1.length := by
  unfold rangeRemoveStep
  cases hi : s.1[i]? with
  | none =>
    have hn : ∀ j, i ≤ j → s.1.drop j = [] := fun j hj =>
      drop_eq_nil_of_le ((List.getElem?_eq_none_iff.mp hi).trans hj)
    refine ⟨⟨h.len_le, fun x hx => ?_⟩, rfl⟩
    have hle := h.count_le x hx
    rwa [hn i le_rfl, ← hn (i + 1) (Nat.le_succ i)] at hle
  | some x =>
    obtain ⟨hlt, hx⟩ := List.getElem?_eq_some_iff.mp hi
    have hd : s.1.drop i = x :: s.1.drop (i + 1) := by rw [drop_eq_getElem_cons hlt, hx]
    have hc : ∀ y, p y = true → (s.1.take s.2).count y ≤ (s.1.drop (i + 1)).count y + if x == y then 1 else 0 := by
      intro y hy
      rw [← count_cons, ← hd]
      exact h.count_le y hy
    dsimp only
    split_ifs with hp
    · obtain ⟨hl, hle⟩ := length_dropFrom (x := x) h.len_le
      refine ⟨⟨hl ▸ hle, fun y hy => ?_⟩, hl⟩
      rw [drop_dropFrom hi, (dropFrom_perm h.len_le).count_eq, count_erase]
      exact Nat.sub_le_of_le_add (hc y hy)
    · refine ⟨⟨h.len_le, fun y hy => ?_⟩, rfl⟩
      have hne : (x == y) = false := beq_false_of_ne fun he => hp (he ▸ hy)
      simpa [hne] using hc y hy

theorem Ahead.steps (h : Ahead p s 0) (n : ℕ) : Ahead p ((List.range n).foldl (rangeRemoveStep p) s) n ∧
      ((List.range n).foldl (rangeRemoveStep p) s).1.length = s.1.length := by
  induction n with
  | zero => exact ⟨h, rfl⟩
  | succ n ih =>
    rw [range_succ, foldl_append]
    exact ⟨ih.1.step.1, ih.1.step.2.trans ih.2⟩

/-- nothing is missed -/
theorem not_of_mem_rangeRemove {l : List α} (hx : x ∈ rangeRemove p l) : p x = false := by
  have hs : Ahead p (l, l.length) 0 := ⟨le_rfl, fun y _ => by simp⟩
  obtain ⟨he, hl⟩ := hs.steps l.length
  by_contra hp
  have hle := he.count_le x (Bool.of_not_eq_false hp)
  rw [drop_eq_nil_of_le (le_of_eq hl)] at hle
  exact absurd hx (count_eq_zero.mp (Nat.le_zero.mp hle))

/-- what is not to go stays, as often as it was there -/
theorem rangeRemoveStep_keeps (hl : s.2 ≤ s.1.length) :
    (((rangeRemoveStep p s i).1.take (rangeRemoveStep p s i).2).filter (!p ·)).Perm ((s.1.take s.2).filter (!p ·)) := by
  unfold rangeRemoveStep
  split
  · exact Perm.refl _
  · split_ifs with hp
    · refine ((dropFrom_perm hl).filter _).trans ?_
      by_cases hm : ‹α› ∈ s.1.take s.2
      · have hf := (perm_cons_erase hm).filter (!p ·)
        rw [filter_cons_of_neg (by simp [hp])] at hf
        exact hf.symm
      · rw [erase_of_not_mem hm]
    · exact Perm.refl _

theorem rangeRemove_perm (p : α → Bool) (l : List α) : (rangeRemove p l).Perm (l.filter (!p ·)) := by
  have hs : Ahead p (l, l.length) 0 := ⟨le_rfl, fun y _ => by simp⟩
  have hk : ∀ n, let s := (List.range n).foldl (rangeRemoveStep p) (l, l.length)
      ((s.1.take s.2).filter (!p ·)).Perm (l.filter (!p ·)) := by
    intro n
    induction n with
    | zero => simp
    | succ n ih =>
      rw [range_succ, foldl_append]
      exact (rangeRemoveStep_keeps (hs.steps n).1.len_le).trans ih
  have hr : (rangeRemove p l).filter (!p ·) = rangeRemove p l :=
    filter_eq_self.2 fun x hx => by rw [not_of_mem_rangeRemove hx, Bool.not_false]
  rw [← hr]
  exact hk l.length

theorem rangeRemove_subset (p : α → Bool) (l : List α) : rangeRemove p l ⊆ l := fun _ hx =>
  (mem_filter.1 ((rangeRemove_perm p l).mem_iff.1 hx)).1

theorem lookup_eq_none_iff_not_mem {κ V : Type*} [BEq κ] [LawfulBEq κ] {k : κ} {l : List (κ × V)} :
    l.lookup k = none ↔ k ∉ l.map Prod.fst := by
  rw [lookup_eq_none_iff]
  grind

end GitOpsDeploy.Slices

/-
A pass over a list that takes items under a quota per group.

`taken` goes through the items in order. An eligible item is taken while the count of its group is below the group's
limit, and every item taken counts. Groups do not influence one another.
-/
import Mathlib.Tactic

namespace GitOpsDeploy.Quota

open List Function

variable {α K : Type*} [DecidableEq K]

/-- no limit is never reached -/
def below (limit : Option ℤ) (n : ℕ) : Bool :=
  match limit with
  | none => true
  | some m => decide ((n : ℤ) < m)

/-- room for this many more items, out of e -/
def room (limit : Option ℤ) (n e : ℕ) : ℕ :=
  match limit with
  | none => e
  | some m => min e (m - n).toNat

variable (group : α → K) (eligible : α → Bool) (limit : K → Option ℤ)

def taken (count : K → ℕ) : List α → List Bool
  | [] => []
  | a :: later =>
    if eligible a = true ∧ below (limit (group a)) (count (group a)) = true then
      true :: taken (Function.update count (group a) (count (group a) + 1)) later
    else false :: taken count later

/-- the eligible items of a group -/
def eligibleIn (k : K) (l : List α) : ℕ := l.countP fun a => group a = k && eligible a

/-- the items of a group that are taken -/
def takenIn (k : K) (count : K → ℕ) (l : List α) : ℕ :=
  (l.zip (taken group eligible limit count l)).countP fun x => group x.1 = k && x.2

variable {group eligible limit}

@[simp] theorem length_taken (count : K → ℕ) (l : List α) : (taken group eligible limit count l).length = l.length := by
  induction l generalizing count with
  | nil => rfl
  | cons a later ih =>
    unfold taken
    split_ifs <;> simp [ih]

theorem eligibleIn_cons (k : K) (a : α) (l : List α) :
    eligibleIn group eligible k (a :: l) = eligibleIn group eligible k l + if group a = k ∧ eligible a then 1 else 0 := by
  simp [eligibleIn, countP_cons]

theorem room_succ {limit : Option ℤ} {n e : ℕ} (h : below limit n = true) :
    room limit n (e + 1) = room limit (n + 1) e + 1 := by
  cases limit with
  | none => rfl
  | some m =>
    have hlt : (n : ℤ) < m := of_decide_eq_true h
    simp only [room]
    omega

theorem room_full {limit : Option ℤ} {n : ℕ} (h : below limit n = false) (e : ℕ) : room limit n e = 0 := by
  cases limit with
  | none => cases h
  | some m =>
    have hge : ¬(n : ℤ) < m := of_decide_eq_false h
    simp only [room]
    omega

theorem takenIn_eq (k : K) (count : K → ℕ) (l : List α) :
    takenIn group eligible limit k count l = room (limit k) (count k) (eligibleIn group eligible k l) := by
  induction l generalizing count with
  | nil => cases hk : limit k <;> simp [takenIn, taken, eligibleIn, room]
  | cons a later ih =>
    unfold takenIn at ih ⊢
    unfold taken
    rw [eligibleIn_cons]
    split_ifs with h hk hk
    · rw [zip_cons_cons, countP_cons, ih]
      obtain ⟨rfl, _⟩ := hk
      rw [update_self, room_succ h.2]
      simp
    · have hne : group a ≠ k := fun heq => hk ⟨heq, h.1⟩
      rw [zip_cons_cons, countP_cons, ih, update_of_ne (Ne.symm hne)]
      simp [hne]
    · have hf : below (limit k) (count k) = false := by
        rw [← hk.1]
        exact Bool.eq_false_iff.mpr fun hb => h ⟨hk.2, hb⟩
      rw [zip_cons_cons, countP_cons, ih, room_full hf, room_full hf]
      simp
    · rw [zip_cons_cons, countP_cons, ih]
      simp

theorem eligible_of_taken (count : K → ℕ) (l : List α) :
    ∀ x ∈ l.zip (taken group eligible limit count l), x.2 = true → eligible x.1 = true := by
  induction l generalizing count with
  | nil => simp
  | cons a later ih =>
    intro x hx ht
    unfold taken at hx
    split_ifs at hx with h
    · rcases mem_cons.mp hx with rfl | hx
      · exact h.1
      · exact ih _ x hx ht
    · rcases mem_cons.mp hx with rfl | hx
      · cases ht
      · exact ih _ x hx ht

theorem filter_fst_of_pos {keep : α → Bool} {a : α} (ha : keep a = true) (b : Bool) (l : List (α × Bool)) :
    ((a, b) :: l).filter (fun x => keep x.1) = (a, b) :: l.filter fun x => keep x.1 :=
  filter_cons_of_pos ha

/-- two passes decide alike as long as their counts stand alike to the limits, for every item that will ask -/
theorem zip_taken_filter {keep : α → Bool} (hke : ∀ a, eligible a = true → keep a = true) {limit' : K → Option ℤ}
    (l : List α) (count count' : K → ℕ)
    (h : ∀ k, ∀ r < eligibleIn group eligible k l, below (limit k) (count k + r) = below (limit' k) (count' k + r)) :
    (l.zip (taken group eligible limit count l)).filter (fun x => keep x.1) =
      (l.filter keep).zip (taken group eligible limit' count' (l.filter keep)) := by
  induction l generalizing count count' with
  | nil => rfl
  | cons a later ih =>
    have hl : ∀ k, ∀ r < eligibleIn group eligible k later, r < eligibleIn group eligible k (a :: later) := by
      intro k r hr
      rw [eligibleIn_cons]
      omega
    by_cases ha : eligible a = true
    · have has : 0 < eligibleIn group eligible (group a) (a :: later) := by
        rw [eligibleIn_cons, if_pos ⟨rfl, ha⟩]
        omega
      have hs := h (group a) 0 has
      rw [Nat.add_zero, Nat.add_zero] at hs
      rw [filter_cons_of_pos (hke a ha)]
      unfold taken
      rw [hs]
      split_ifs with ht
      · rw [zip_cons_cons, zip_cons_cons, filter_fst_of_pos (hke a ha)]
        refine congrArg _ (ih _ _ fun k r hr => ?_)
        by_cases hk : group a = k
        · subst hk
          have hne := h (group a) (r + 1) (by rw [eligibleIn_cons, if_pos ⟨rfl, ha⟩]; omega)
          rw [update_self, update_self]
          rwa [Nat.add_assoc, Nat.add_assoc, Nat.add_comm 1 r]
        · rw [update_of_ne (Ne.symm hk), update_of_ne (Ne.symm hk)]
          exact h k r (hl k r hr)
      · rw [zip_cons_cons, zip_cons_cons, filter_fst_of_pos (hke a ha)]
        exact congrArg _ (ih _ _ fun k r hr => h k r (hl k r hr))
    · have hre := ih count count' fun k r hr => h k r (hl k r hr)
      have hno : taken group eligible limit count (a :: later) = false :: taken group eligible limit count later := by
        rw [taken, if_neg fun hn => ha hn.1]
      rw [hno, zip_cons_cons]
      by_cases hka : keep a = true
      · rw [filter_fst_of_pos hka, filter_cons_of_pos hka, taken, if_neg (fun hn => ha hn.1),
          zip_cons_cons, hre]
      · rw [filter_cons_of_neg (l := later) hka, ← hre]
        exact filter_cons_of_neg hka

end GitOpsDeploy.Quota

/-
Depth-first search that calls an action on each node, with marks shared by several searches.

A search marks a node as in progress, goes on to those of its successors on which the action has not been called, and marks
the node as completed. Marks left by earlier searches are respected, so what one search does depends on them.

- `Grows next R w w'`: from w to w' some nodes have been called, each once, all of them in R, and they are completed with
  all their successors called; marks that were there have stayed.
-/
import Mathlib.Tactic

namespace GitOpsDeploy.DepthFirst

open List

inductive CallState where
  | notCalled
  | inProgress
  | completed
  deriving DecidableEq, Repr

structure Walk (K : Type*) where
  state : K → CallState
  /-- the nodes the action has been called on, in order -/
  called : List K

variable {K : Type*} [DecidableEq K]

def Walk.start : Walk K := ⟨fun _ => .notCalled, []⟩

def Walk.set (w : Walk K) (k : K) (s : CallState) : Walk K := { w with state := Function.update w.state k s }

/-- the action is called on k -/
def Walk.log (w : Walk K) (k : K) : Walk K := { w with called := w.called ++ [k] }

@[simp]
theorem Walk.state_set_self (w : Walk K) (k : K) (s : CallState) : (w.set k s).state k = s := Function.update_self _ _ _

theorem Walk.state_set_of_ne (w : Walk K) {j k : K} (h : j ≠ k) (s : CallState) : (w.set k s).state j = w.state j :=
  Function.update_of_ne h _ _

@[simp]
theorem Walk.called_set (w : Walk K) (k : K) (s : CallState) : (w.set k s).called = w.called := rfl

/-- a visit of k unless the action has been called on it -/
def visitNew (visit : K → Walk K → Walk K) (w : Walk K) (k : K) : Walk K :=
  if w.state k = .notCalled then visit k (w.log k) else w

/-- `visit` searches U from a node on which the action has just been called, one unit of fuel for each node in progress -/
structure Visits (U : Finset K) (next : K → List K) (visit : ℕ → K → Walk K → Walk K) : Prop where
  inside : ∀ k ∈ U, ∀ j ∈ next k, j ∈ U
  step : ∀ fuel, ∀ k ∈ U, ∀ w, w.state k = .notCalled →
    visit (fuel + 1) k w = ((next k).foldl (visitNew (visit fuel)) (w.set k .inProgress)).set k .completed

/-! ## Growing walks -/

structure Grows (next : K → List K) (R : K → Prop) (w w' : Walk K) : Prop where
  old : ∀ k, w.state k ≠ .notCalled → w'.state k = w.state k
  new : ∀ k, w.state k = .notCalled → w'.state k ≠ .notCalled →
    R k ∧ w'.state k = .completed ∧ ∀ j ∈ next k, w'.state j ≠ .notCalled
  calls : ∃ l, w'.called = w.called ++ l ∧ l.Nodup ∧
    ∀ k, k ∈ l ↔ w.state k = .notCalled ∧ w'.state k ≠ .notCalled

variable {next : K → List K} {R : K → Prop} {w w' w'' : Walk K} {k : K}

omit [DecidableEq K] in
theorem Grows.refl (w : Walk K) : Grows next R w w where
  old _ _ := rfl
  new _ h h' := absurd h h'
  calls := ⟨[], (append_nil _).symm, nodup_nil, fun k => by simp⟩

omit [DecidableEq K] in
theorem Grows.stays (h : Grows next R w w') (hk : w.state k ≠ .notCalled) : w'.state k ≠ .notCalled := by
  rw [h.old k hk]
  exact hk

omit [DecidableEq K] in
theorem Grows.trans (h : Grows next R w w') (h' : Grows next R w' w'') : Grows next R w w'' where
  old k hk := (h'.old k (h.stays hk)).trans (h.old k hk)
  new k hk hk'' := by
    by_cases hk' : w'.state k = .notCalled
    · exact h'.new k hk' hk''
    · obtain ⟨hR, hd, hne⟩ := h.new k hk hk'
      exact ⟨hR, (h'.old k hk').trans hd, fun j hj => h'.stays (hne j hj)⟩
  calls := by
    obtain ⟨l, hl, hn, hm⟩ := h.calls
    obtain ⟨l', hl', hn', hm'⟩ := h'.calls
    refine ⟨l ++ l', by rw [hl', hl, append_assoc], hn.append hn' fun k hk hk' => ?_, fun k => ?_⟩
    · exact ((hm k).1 hk).2 ((hm' k).1 hk').1
    · rw [mem_append, hm, hm']
      constructor
      · rintro (⟨h1, h2⟩ | ⟨h1, h2⟩)
        · exact ⟨h1, h'.stays h2⟩
        · exact ⟨by_contra fun h3 => h.stays h3 h1, h2⟩
      · intro ⟨h1, h2⟩
        by_cases h3 : w'.state k = .notCalled
        · exact .inr ⟨h3, h2⟩
        · exact .inl ⟨h1, h3⟩

omit [DecidableEq K] in
theorem Grows.mem_called (h : Grows next R w w') (hw : ∀ k, k ∈ w.called ↔ w.state k ≠ .notCalled) (k : K) :
    k ∈ w'.called ↔ w'.state k ≠ .notCalled := by
  obtain ⟨l, hl, _, hm⟩ := h.calls
  rw [hl, mem_append, hw, hm]
  constructor
  · rintro (hk | hk)
    · exact h.stays hk
    · exact hk.2
  · intro hk
    by_cases ho : w.state k = .notCalled
    · exact .inr ⟨ho, hk⟩
    · exact .inl ho

omit [DecidableEq K] in
theorem Grows.settled (h : Grows next R w w') (hw : ∀ k, w.state k ≠ .inProgress) (k : K) :
    w'.state k ≠ .inProgress := by
  by_cases hk : w.state k = .notCalled
  · intro hp
    have hd := (h.new k hk (by rw [hp]; exact CallState.noConfusion)).2.1
    rw [hp] at hd
    exact CallState.noConfusion hd
  · rw [h.old k hk]
    exact hw k

theorem Grows.enter (hk : w.state k = .notCalled) (hR : R k)
    (h : Grows next R ((w.log k).set k .inProgress) w') (hne : ∀ j ∈ next k, w'.state j ≠ .notCalled) :
    Grows next R w (w'.set k .completed) := by
  have hs : ((w.log k).set k .inProgress).state k = .inProgress := (w.log k).state_set_self k _
  have ho : ∀ j, j ≠ k → ((w.log k).set k .inProgress).state j = w.state j :=
    fun j hj => (w.log k).state_set_of_ne hj _
  have hs' : (w'.set k .completed).state k = .completed := w'.state_set_self k _
  have ho' : ∀ j, j ≠ k → (w'.set k .completed).state j = w'.state j := fun j hj => w'.state_set_of_ne hj _
  -- completing k leaves no node less called
  have hc : ∀ j, w'.state j ≠ .notCalled → (w'.set k .completed).state j ≠ .notCalled := by
    intro j hj
    by_cases hjk : j = k
    · rw [hjk, hs']
      exact CallState.noConfusion
    · rwa [ho' j hjk]
  refine ⟨fun j hj => ?_, fun j hj hj' => ?_, ?_⟩
  · have hjk : j ≠ k := fun he => hj (he ▸ hk)
    rw [ho' j hjk, h.old j (by rwa [ho j hjk]), ho j hjk]
  · by_cases hjk : j = k
    · subst hjk
      exact ⟨hR, hs', fun i hi => hc i (hne i hi)⟩
    · rw [ho' j hjk] at hj' ⊢
      obtain ⟨hRj, hd, hn⟩ := h.new j (by rwa [ho j hjk]) hj'
      exact ⟨hRj, hd, fun i hi => hc i (hn i hi)⟩
  · obtain ⟨l, hl, hno, hm⟩ := h.calls
    have hnot : k ∉ l := fun hkl => by
      have := ((hm k).1 hkl).1
      rw [hs] at this
      exact CallState.noConfusion this
    refine ⟨k :: l, ?_, nodup_cons.2 ⟨hnot, hno⟩, fun j => ?_⟩
    · rw [Walk.called_set, hl]
      simp [Walk.log]
    · rw [mem_cons]
      by_cases hjk : j = k
      · subst hjk
        exact iff_of_true (.inl rfl) ⟨hk, hc j (by rw [h.old j (by rw [hs]; decide), hs]; decide)⟩
      · rw [hm, ho j hjk, ho' j hjk]
        simp [hjk]

/-! ## Searches with enough fuel -/

/-- the nodes of U on which the action has not been called -/
def left (U : Finset K) (w : Walk K) : Finset K := U.filter fun k => w.state k = .notCalled

omit [DecidableEq K] in
theorem card_left_le (U : Finset K) (w : Walk K) : (left U w).card ≤ U.card := Finset.card_filter_le _ _

omit [DecidableEq K] in
theorem Grows.left_subset (h : Grows next R w w') (U : Finset K) : left U w' ⊆ left U w := by
  intro k hk
  obtain ⟨hU, hk⟩ := Finset.mem_filter.1 hk
  refine Finset.mem_filter.2 ⟨hU, ?_⟩
  by_contra hne
  exact h.stays hne hk

theorem left_enter {U : Finset K} {fuel : ℕ} (hk : k ∈ U) (hn : w.state k = .notCalled)
    (hl : (left U w).card ≤ fuel + 1) : (left U ((w.log k).set k .inProgress)).card ≤ fuel := by
  have hss : left U ((w.log k).set k .inProgress) ⊂ left U w := by
    refine (Finset.ssubset_iff_of_subset fun j hj => ?_).2 ⟨k, Finset.mem_filter.2 ⟨hk, hn⟩, fun hm => ?_⟩
    · obtain ⟨hjU, hj⟩ := Finset.mem_filter.1 hj
      refine Finset.mem_filter.2 ⟨hjU, ?_⟩
      by_cases hjk : j = k
      · rwa [hjk]
      · rwa [Walk.state_set_of_ne _ hjk] at hj
    · have hs := (Finset.mem_filter.1 hm).2
      rw [Walk.state_set_self] at hs
      exact CallState.noConfusion hs
  have hlt := Finset.card_lt_card hss
  omega

section Search

variable {visit : ℕ → K → Walk K → Walk K} {U : Finset K}

omit [DecidableEq K] in
theorem foldl_visitNew_grows {fuel : ℕ}
    (hvi : ∀ k ∈ U, R k → ∀ w : Walk K, w.state k = .notCalled → (left U w).card ≤ fuel →
      Grows next R w (visit fuel k (w.log k)) ∧ (visit fuel k (w.log k)).state k ≠ .notCalled)
    {ks : List K} (hks : ∀ k ∈ ks, k ∈ U ∧ R k) {w : Walk K} (hw : (left U w).card ≤ fuel) :
    Grows next R w (ks.foldl (visitNew (visit fuel)) w) ∧
      ∀ k ∈ ks, (ks.foldl (visitNew (visit fuel)) w).state k ≠ .notCalled := by
  induction ks generalizing w with
  | nil => exact ⟨Grows.refl w, fun k hk => absurd hk not_mem_nil⟩
  | cons k ks ih =>
    have hs : Grows next R w (visitNew (visit fuel) w k) ∧ (visitNew (visit fuel) w k).state k ≠ .notCalled := by
      unfold visitNew
      split_ifs with hk
      · exact hvi k (hks k mem_cons_self).1 (hks k mem_cons_self).2 w hk hw
      · exact ⟨Grows.refl w, hk⟩
    obtain ⟨hg, hc⟩ := ih (fun j hj => hks j (mem_cons_of_mem _ hj))
      ((Finset.card_le_card (hs.1.left_subset U)).trans hw)
    refine ⟨hs.1.trans hg, fun j hj => ?_⟩
    rcases mem_cons.1 hj with rfl | hj
    · exact hg.stays hs.2
    · exact hc j hj

variable (hv : Visits U next visit) (hR : ∀ k ∈ U, R k → ∀ j ∈ next k, R j)
include hv hR

theorem visit_grows {fuel : ℕ} : ∀ k ∈ U, R k → ∀ w : Walk K, w.state k = .notCalled →
    (left U w).card ≤ fuel →
    Grows next R w (visit fuel k (w.log k)) ∧ (visit fuel k (w.log k)).state k ≠ .notCalled := by
  induction fuel with
  | zero =>
    intro k hk _ w hn hl
    -- k itself is left
    have hm : k ∈ left U w := Finset.mem_filter.2 ⟨hk, hn⟩
    rw [Finset.card_eq_zero.1 (Nat.le_zero.1 hl)] at hm
    exact absurd hm (Finset.notMem_empty k)
  | succ fuel ih =>
    intro k hk hRk w hn hl
    rw [hv.step fuel k hk (w.log k) hn]
    have hl' := left_enter hk hn hl
    obtain ⟨hg, hc⟩ := foldl_visitNew_grows ih (fun j hj => ⟨hv.inside k hk j hj, hR k hk hRk j hj⟩) hl'
    refine ⟨Grows.enter hn hRk hg hc, ?_⟩
    rw [Walk.state_set_self]
    exact CallState.noConfusion

theorem visitAll_grows {fuel : ℕ} {ks : List K} (hks : ∀ k ∈ ks, k ∈ U ∧ R k) {w : Walk K}
    (hw : (left U w).card ≤ fuel) : Grows next R w (ks.foldl (visitNew (visit fuel)) w) ∧
      ∀ k ∈ ks, (ks.foldl (visitNew (visit fuel)) w).state k ≠ .notCalled :=
  foldl_visitNew_grows (visit_grows hv hR) hks hw

end Search

/-! ## Loops that may fail -/

end GitOpsDeploy.DepthFirst

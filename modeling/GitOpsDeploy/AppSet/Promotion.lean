/-
The promotion pass of a rolling sync as a pass under a quota per step.
-/
import GitOpsDeploy.Core.Quota
import GitOpsDeploy.AppSet.Rollout

namespace GitOpsDeploy.AppSet

open List Option

variable {scaling : Scaling} {now : Time} {steps : List RolloutStep} {sm : AppStepMap}
  {sync : Finset String}

def mayMove (appsToSync : Finset String) (s : ApplicationStatus) : Bool :=
  s.status = .waiting && decide (s.application ∈ appsToSync)

/-! ## What an entry can become -/

/-- the entry stays, or an application that may sync goes from Waiting to Pending -/
def Promotes (now : Time) (appsToSync : Finset String) (s s' : ApplicationStatus) : Prop :=
  s' = s ∨ (mayMove appsToSync s = true ∧ s' = toPending now s)

theorem promote_promotes {total : List ℕ} {p p' : Progress} {s : ApplicationStatus}
    (h : promote scaling now steps total sm sync p s = some p') :
    ∃ s', p'.statuses = p.statuses ++ [s'] ∧ Promotes now sync s s' := by
  unfold promote at h
  simp only [bind_eq_bind, bind_eq_some_iff] at h
  obtain ⟨step, _, count, _, updating, _, h⟩ := h
  split_ifs at h with hm
  · cases h
    exact ⟨toPending now s, rfl, .inr ⟨by simp [mayMove, hm.1, hm.2.1], rfl⟩⟩
  · cases h
    exact ⟨s, rfl, .inl rfl⟩

variable {l : List ApplicationStatus} {n i : ℕ}

theorem promotes_foldlM {total : List ℕ} {p p' : Progress}
    (h : l.foldlM (promote scaling now steps total sm sync) p = some p') :
    ∃ l', p'.statuses = p.statuses ++ l' ∧ List.Forall₂ (Promotes now sync) l l' := by
  induction l generalizing p with
  | nil =>
    cases h
    exact ⟨[], (append_nil _).symm, .nil⟩
  | cons s later ih =>
    rw [foldlM_cons, bind_eq_bind, bind_eq_some_iff] at h
    obtain ⟨q, hq, h⟩ := h
    obtain ⟨s', hs', hp⟩ := promote_promotes hq
    obtain ⟨l', hl', ha⟩ := ih h
    refine ⟨s' :: l', ?_, .cons hp ha⟩
    rw [hl', hs', append_assoc, singleton_append]

theorem progressStatuses_promotes {appset : ApplicationSet} {issues issues' : Option ValidationIssues}
    {statuses : List ApplicationStatus}
    (h : progressStatuses scaling now appset sync sm issues = some (statuses, issues')) :
    statuses = [] ∨ List.Forall₂ (Promotes now sync) appset.applicationStatus statuses := by
  unfold progressStatuses at h
  split_ifs at h with he
  · simp only [bind_eq_bind, bind_eq_some_iff] at h
    obtain ⟨counts, _, p, hp, h⟩ := h
    obtain ⟨l', hl', ha⟩ := promotes_foldlM hp
    cases h
    exact .inr (by rwa [hl', nil_append])
  · cases h
    exact .inl rfl

/-! ## Counters as functions -/

/-- a slice of n counters -/
def tally (n : ℕ) (f : ℕ → ℕ) : List ℕ := (List.range n).map f

variable (f : ℕ → ℕ)

theorem getElem?_tally (h : i < n) : (tally n f)[i]? = some (f i) := by
  simp [tally, h]

theorem set_tally (v : ℕ) : (tally n f).set i v = tally n (Function.update f i v) := by
  apply List.ext_getElem?
  intro k
  simp only [tally, List.getElem?_map]
  by_cases hik : i = k
  · subst hik
    by_cases hlt : i < n <;> simp [hlt]
  · by_cases hlt : k < n <;> simp [hik, hlt, Function.update_of_ne (Ne.symm hik)]

theorem increment_tally (h : i < n) : increment (tally n f) i = some (tally n (Function.update f i (f i + 1))) := by
  rw [increment, getElem?_tally f h, map_some, set_tally]

/-- the entries of step k, counted as the code does -/
def stepCount (appStepMap : AppStepMap) (p : ApplicationStatus → Bool) (l : List ApplicationStatus) (k : ℕ) : ℕ :=
  l.countP fun s => stepIndex appStepMap s.application = k && p s

theorem stepCount_cons (p : ApplicationStatus → Bool) (f : ℕ → ℕ) (s : ApplicationStatus) :
    (fun k => (if p s then Function.update f (stepIndex sm s.application)
      (f (stepIndex sm s.application) + 1) else f) k + stepCount sm p l k) =
    fun k => f k + stepCount sm p (s :: l) k := by
  funext k
  rw [stepCount, stepCount, countP_cons]
  split_ifs with hp hs hs
  · obtain ⟨rfl, -⟩ : stepIndex sm s.application = k ∧ _ := by simpa using hs
    rw [Function.update_self]
    omega
  · have hk : k ≠ stepIndex sm s.application := fun he => hs (by simp [he, hp])
    rw [Function.update_of_ne hk]
    rfl
  · exact absurd (Bool.and_eq_true_iff.1 hs).2 hp
  · rfl

theorem foldlM_countStatus (h : ∀ s ∈ l, stepIndex sm s.application < n) (f g : ℕ → ℕ) :
    l.foldlM (countStatus sm) ⟨tally n f, tally n g⟩ = some ⟨tally n fun k => f k + stepCount sm (fun _ => true) l k,
        tally n fun k => g k + stepCount sm isUpdating l k⟩ := by
  induction l generalizing f g with
  | nil => simp [stepCount]
  | cons s later ih =>
    have hs := h s mem_cons_self
    have hl : ∀ t ∈ later, stepIndex sm t.application < n := fun t ht => h t (mem_cons_of_mem _ ht)
    rw [foldlM_cons, countStatus, increment_tally f hs, ← stepCount_cons, ← stepCount_cons]
    cases hup : isUpdating s with
    | true => simp only [bind_eq_bind, bind_some, if_true, increment_tally g hs, ih hl]
    | false => simp only [bind_eq_bind, bind_some, Bool.false_eq_true, if_false, if_true, ih hl]

theorem countStatuses_eq (h : ∀ s ∈ l, stepIndex sm s.application < n) : countStatuses sm n l =
      some ⟨tally n (stepCount sm (fun _ => true) l), tally n (stepCount sm isUpdating l)⟩ := by
  have hz : List.replicate n 0 = tally n fun _ => 0 := by simp [tally, map_const']
  rw [countStatuses, hz, foldlM_countStatus h]
  simp

/-! ## The pass under a quota -/

/-- the scaled maxUpdate of step k over this number of entries, where it has one -/
def stepLimit (scaling : Scaling) (steps : List RolloutStep) (total : ℕ → ℕ) (k : ℕ) : Option ℤ :=
  (steps[k]?.bind RolloutStep.maxUpdate).map fun m => (maxUpdateVal scaling m (total k)).1

def step (appStepMap : AppStepMap) (s : ApplicationStatus) : ℕ := stepIndex appStepMap s.application

/-- which entries are promoted -/
def promoted (scaling : Scaling) (steps : List RolloutStep) (appStepMap : AppStepMap) (appsToSync : Finset String)
    (l : List ApplicationStatus) : List Bool :=
  Quota.taken (step appStepMap) (mayMove appsToSync)
    (stepLimit scaling steps (stepCount appStepMap (fun _ => true) l)) (stepCount appStepMap isUpdating l) l

def apply (now : Time) (s : ApplicationStatus) (b : Bool) : ApplicationStatus := if b then toPending now s else s

theorem checkMaxUpdate_fst {k : ℕ} {s : RolloutStep} (hk : steps[k]? = some s) (total : ℕ → ℕ) (updating : ℕ)
    (issues : Option ValidationIssues) : (checkMaxUpdate scaling k s.maxUpdate (total k) updating issues).1 =
      Quota.below (stepLimit scaling steps total k) updating := by
  unfold checkMaxUpdate stepLimit
  rw [hk, bind_some]
  cases s.maxUpdate <;> rfl

theorem promote_eq {total count : ℕ → ℕ} {issues : Option ValidationIssues} {acc : List ApplicationStatus}
    {s : ApplicationStatus} (hs : step sm s < steps.length) :
    ∃ issues', promote scaling now steps (tally steps.length total) sm sync
        ⟨tally steps.length count, issues, acc⟩ s =
      some (if mayMove sync s = true ∧
          Quota.below (stepLimit scaling steps total (step sm s)) (count (step sm s)) = true then
        ⟨tally steps.length (Function.update count (step sm s) (count (step sm s) + 1)), issues',
          acc ++ [toPending now s]⟩
      else ⟨tally steps.length count, issues', acc ++ [s]⟩) := by
  obtain ⟨r, hr⟩ : ∃ r, steps[step sm s]? = some r := ⟨_, List.getElem?_eq_getElem hs⟩
  refine ⟨(checkMaxUpdate scaling (step sm s) r.maxUpdate (total (step sm s))
    (count (step sm s)) issues).2, ?_⟩
  rw [← checkMaxUpdate_fst hr total (count (step sm s)) issues]
  change (steps[step sm s]?.bind fun _ => _) = _
  rw [hr]
  change ((tally steps.length total)[step sm s]?.bind fun _ => _) = _
  rw [getElem?_tally total hs]
  change ((tally steps.length count)[step sm s]?.bind fun _ => _) = _
  rw [getElem?_tally count hs, bind_some]
  have hi : stepIndex sm s.application = step sm s := rfl
  simp only [mayMove, Bool.and_eq_true, decide_eq_true_eq, and_assoc, ← set_tally, hi]
  split_ifs <;> rfl

theorem foldlM_promote {total : ℕ → ℕ} {l : List ApplicationStatus} (h : ∀ s ∈ l, step sm s < steps.length)
    (count : ℕ → ℕ) (issues : Option ValidationIssues) (acc : List ApplicationStatus) :
    ∃ p, l.foldlM (promote scaling now steps (tally steps.length total) sm sync)
        ⟨tally steps.length count, issues, acc⟩ = some p ∧ p.statuses = acc ++ List.zipWith (apply now) l
        (Quota.taken (step sm) (mayMove sync) (stepLimit scaling steps total) count l) := by
  induction l generalizing count issues acc with
  | nil => exact ⟨_, rfl, (append_nil acc).symm⟩
  | cons s later ih =>
    have hl : ∀ t ∈ later, step sm t < steps.length := fun t ht => h t (mem_cons_of_mem _ ht)
    obtain ⟨issues', heq⟩ :=
      @promote_eq scaling now steps sm sync total count issues acc s (h s mem_cons_self)
    rw [foldlM_cons, heq]
    unfold Quota.taken
    split_ifs with hm
    · obtain ⟨p, hp, hs⟩ := ih hl _ issues' (acc ++ [toPending now s])
      exact ⟨p, hp, by rw [hs, append_assoc]; rfl⟩
    · obtain ⟨p, hp, hs⟩ := ih hl count issues' (acc ++ [s])
      exact ⟨p, hp, by rw [hs, append_assoc]; rfl⟩

theorem progressStatuses_eq {appset : ApplicationSet} (he : rollingSyncStrategyEnabled appset = true)
    (h : ∀ s ∈ appset.applicationStatus, step sm s < appset.steps.length) (issues : Option ValidationIssues) :
    ∃ issues', progressStatuses scaling now appset sync sm issues =
      some (List.zipWith (apply now) appset.applicationStatus
        (promoted scaling appset.steps sm sync appset.applicationStatus), issues') := by
  obtain ⟨p, hp, hs⟩ := @foldlM_promote scaling now appset.steps sm sync
    (stepCount sm (fun _ => true) appset.applicationStatus) appset.applicationStatus h
    (stepCount sm isUpdating appset.applicationStatus) issues []
  refine ⟨p.issues, ?_⟩
  rw [progressStatuses, if_pos he, countStatuses_eq h]
  simp only [bind_eq_bind, bind_some, hp, hs, nil_append, promoted]

end GitOpsDeploy.AppSet

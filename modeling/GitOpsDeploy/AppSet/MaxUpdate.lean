/-
maxUpdate in a rolling sync.

The counters of the steps are indexed through a map whose missing keys read as the first step, so the entries of
applications outside every step count there: in the number of entries that a percentage is taken of, and in the number
of applications that are already updating. A zero percentage that is not spelled "0%" allows one application.
-/
import GitOpsDeploy.AppSet.Gate

namespace GitOpsDeploy.AppSet

variable {scaling : Scaling} {store : Store} {now : Time} {steps : List RolloutStep} {sm : AppStepMap}
  {sync : Finset String} {issues : Option ValidationIssues} {l : List ApplicationStatus}

/-! ## Limits -/

/-- maxUpdate scaled over a number of entries, rounded down, at least one for a non-zero percentage; none where it is
unset or no percentage -/
def limit (maxUpdate : Option IntOrString) (total : ℕ) : Option ℤ :=
  match maxUpdate with
  | none => none
  | some (.int value) => some value
  | some (.string text) => (percentage text).map fun percent => if percent = 0 then 0 else max 1 (percent * total / 100)

/-- a zero percentage spelled otherwise than "0%" -/
def isOddZero (maxUpdate : Option IntOrString) : Bool :=
  match maxUpdate with
  | some (.string text) => percentage text = some 0 && decide (text ≠ "0%")
  | _ => false

/-- the limit with one application for an odd zero, and for a text that is no percentage -/
def appliedLimit (maxUpdate : Option IntOrString) (total : ℕ) : Option ℤ :=
  match limit maxUpdate total with
  | some m => if isOddZero maxUpdate then some 1 else some m
  | none => if maxUpdate.isSome then some 1 else none

theorem maxUpdateVal_eq (m : IntOrString) (total : ℕ) :
    some (maxUpdateVal scaling m total).1 = appliedLimit (some m) total := by
  cases m with
  | int value => simp [maxUpdateVal, scaling.int_value, appliedLimit, limit, isOddZero]
  | string text =>
    cases hp : percentage text with
    | none =>
      obtain ⟨err, he⟩ := scaling.invalid_value text total false hp
      have hne : text ≠ "0%" := by
        intro h
        subst h
        exact absurd hp (by decide)
      simp [maxUpdateVal, he, appliedLimit, limit, hp, hne]
    | some percent =>
      simp only [maxUpdateVal, scaling.percent_value text total percent hp, appliedLimit, limit, hp, Option.map_some,
        isOddZero]
      by_cases hz : text = "0%"
      · have hpe : percent = 0 := by
          rw [hz] at hp
          exact (Option.some.inj hp).symm
        simp [hz, hpe]
      · by_cases hpe : percent = 0
        · simp [hz, hpe]
        · simp only [hz, hpe, ne_eq, not_false_eq_true, true_and, Option.some.injEq, decide_false,
            Bool.false_and, Bool.false_eq_true, if_false]
          split_ifs <;> omega

variable {k total : ℕ} {maxUpdate : Option IntOrString}

variable {s : RolloutStep}

theorem stepLimit_eq (hk : steps[k]? = some s) (total : ℕ → ℕ) :
    stepLimit scaling steps total k = appliedLimit s.maxUpdate (total k) := by
  unfold stepLimit
  rw [hk, Option.bind_some]
  cases s.maxUpdate with
  | none => rfl
  | some m => exact maxUpdateVal_eq m (total k)

/-- the applied limits over two totals agree where the limits do -/
theorem appliedLimit_congr {total' : ℕ}
    (h : limit maxUpdate total = limit maxUpdate total') : appliedLimit maxUpdate total = appliedLimit maxUpdate total' := by
  unfold appliedLimit
  rw [h]

theorem limit_of_appliedLimit {total' : ℕ} (h : appliedLimit maxUpdate total = appliedLimit maxUpdate total') :
    limit maxUpdate total = limit maxUpdate total' := by
  cases maxUpdate with
  | none => rfl
  | some m =>
    cases m with
    | int value => rfl
    | string text =>
      cases hp : percentage text with
      | none => simp [limit, hp]
      | some percent =>
        by_cases hpe : percent = 0
        · simp [limit, hp, hpe]
        · simpa [appliedLimit, limit, hp, hpe, isOddZero] using h

/-! ## Entries of a step -/

/-- the application is mapped to step k -/
def inStep (appStepMap : AppStepMap) (k : ℕ) (s : ApplicationStatus) : Bool :=
  appStepMap.lookup s.application = some k

def isMapped (appStepMap : AppStepMap) (s : ApplicationStatus) : Bool := (appStepMap.lookup s.application).isSome

def entriesIn (appStepMap : AppStepMap) (k : ℕ) (l : List ApplicationStatus) : ℕ := l.countP (inStep appStepMap k)

/-- the applications mapped to step k that are Pending or Progressing -/
def updatingIn (appStepMap : AppStepMap) (k : ℕ) (l : List ApplicationStatus) : ℕ :=
  l.countP fun s => inStep appStepMap k s && isUpdating s

/-- the applications mapped to step k that wait and may sync -/
def waitingIn (appStepMap : AppStepMap) (appsToSync : Finset String) (k : ℕ) (l : List ApplicationStatus) : ℕ :=
  l.countP fun s => inStep appStepMap k s && mayMove appsToSync s

def unmapped (appStepMap : AppStepMap) (l : List ApplicationStatus) : ℕ := l.countP fun s => !isMapped appStepMap s

def unmappedUpdating (appStepMap : AppStepMap) (l : List ApplicationStatus) : ℕ :=
  l.countP fun s => !isMapped appStepMap s && isUpdating s

theorem step_eq_iff {s : ApplicationStatus} :
    step sm s = k ↔ inStep sm k s = true ∨ (isMapped sm s = false ∧ k = 0) := by
  unfold step stepIndex inStep isMapped
  cases sm.lookup s.application with
  | none => simp [eq_comm]
  | some i => simp

theorem isMapped_of_inStep {s : ApplicationStatus} (h : inStep sm k s = true) : isMapped sm s = true := by
  unfold isMapped
  rw [of_decide_eq_true h]
  rfl

theorem decide_step {s : ApplicationStatus} (hm : isMapped sm s = true) : decide (step sm s = k) = inStep sm k s := by
  rw [Bool.eq_iff_iff, decide_eq_true_iff, step_eq_iff, hm]
  simp

/-- the entries outside every step count in the first one -/
theorem stepCount_eq (p : ApplicationStatus → Bool) (k : ℕ) :
    stepCount sm p l k = l.countP (fun s => inStep sm k s && p s) +
      if k = 0 then l.countP (fun s => !isMapped sm s && p s) else 0 := by
  induction l with
  | nil => simp [stepCount]
  | cons s later ih =>
    unfold stepCount at ih ⊢
    simp only [List.countP_cons, ih]
    change _ + (if (decide (step sm s = k) && p s) = true then 1 else 0) = _
    cases hm : isMapped sm s with
    | true =>
      rw [decide_step hm]
      simp only [Bool.not_true, Bool.false_and, Bool.false_eq_true, if_false, Nat.add_zero]
      omega
    | false =>
      have hin : inStep sm k s = false := by
        refine Bool.eq_false_iff.mpr fun h => ?_
        rw [isMapped_of_inStep h] at hm
        cases hm
      have hs : decide (step sm s = k) = decide (k = 0) := by
        rw [decide_eq_decide, step_eq_iff, hm, hin]
        simp
      rw [hs, hin]
      by_cases hk : k = 0
      · simp [hk]
        omega
      · simp [hk]

/-! ## After the pass -/

/-- the entries that may move are in their own step -/
theorem waitingIn_eq (hs : ∀ n ∈ sync, (sm.lookup n).isSome) (k : ℕ) :
    Quota.eligibleIn (step sm) (mayMove sync) k l = waitingIn sm sync k l := by
  refine List.countP_congr fun s _ => ?_
  simp only [Bool.and_eq_true, decide_eq_true_eq]
  refine and_congr_left fun hma => ?_
  have hm : isMapped sm s = true := hs _ (of_decide_eq_true (Bool.and_eq_true_iff.mp hma).2)
  rw [step_eq_iff, hm]
  simp

theorem inStep_apply (k : ℕ) (s : ApplicationStatus) (b : Bool) : inStep sm k (apply now s b) = inStep sm k s := by
  cases b <;> rfl

/-- an entry that is taken starts to update -/
theorem updatingIn_zipWith (hsy : ∀ n ∈ sync, (sm.lookup n).isSome) (k : ℕ) (bs : List Bool)
    (hl : bs.length = l.length) (hma : ∀ x ∈ l.zip bs, x.2 = true → mayMove sync x.1 = true) :
    updatingIn sm k (List.zipWith (apply now) l bs) =
      updatingIn sm k l + (l.zip bs).countP fun x => step sm x.1 = k && x.2 := by
  induction l generalizing bs with
  | nil => simp [updatingIn]
  | cons s later ih =>
    cases bs with
    | nil => cases hl
    | cons b bs =>
      have hr := ih bs (Nat.succ.inj hl) fun x hx => hma x (List.mem_cons_of_mem _ hx)
      unfold updatingIn at hr ⊢
      rw [List.zipWith_cons_cons, List.countP_cons, hr, List.countP_cons, List.zip_cons_cons, List.countP_cons,
        inStep_apply]
      cases b with
      | false =>
        simp only [apply, Bool.and_false, Bool.false_eq_true, if_false]
        omega
      | true =>
        have hs := hma (s, true) List.mem_cons_self rfl
        have hm : isMapped sm s = true := hsy _ (of_decide_eq_true (Bool.and_eq_true_iff.mp hs).2)
        have hn : isUpdating s = false := by
          have : s.status = .waiting := of_decide_eq_true (Bool.and_eq_true_iff.mp hs).1
          simp [isUpdating, this]
        rw [decide_step hm, hn]
        simp only [apply, if_true, toPending, moveTo, isUpdating, decide_true, Bool.true_or, Bool.and_true,
          Bool.and_false, Bool.false_eq_true, if_false]
        omega

/-- the statuses after a pass with these limits and counts -/
def passed (scaling : Scaling) (now : Time) (steps : List RolloutStep) (appStepMap : AppStepMap)
    (appsToSync : Finset String) (l : List ApplicationStatus) : List ApplicationStatus :=
  List.zipWith (apply now) l (promoted scaling steps appStepMap appsToSync l)

theorem updatingIn_passed (hs : ∀ n ∈ sync, (sm.lookup n).isSome) (k : ℕ) :
    updatingIn sm k (passed scaling now steps sm sync l) =
      updatingIn sm k l + Quota.room (stepLimit scaling steps (stepCount sm (fun _ => true) l) k)
        (stepCount sm isUpdating l k) (waitingIn sm sync k l) := by
  rw [← waitingIn_eq hs, ← Quota.takenIn_eq]
  exact updatingIn_zipWith hs k _ (Quota.length_taken _ l) (Quota.eligible_of_taken _ l)

/-! ## The statement and its condition -/

/-- the same ApplicationSet with only the statuses of applications that have a step -/
def withoutUnmapped (appStepMap : AppStepMap) (appset : ApplicationSet) : ApplicationSet :=
  { appset with applicationStatus := appset.applicationStatus.filter (isMapped appStepMap) }

/-- no step has more updating applications than before, or than its limit allows -/
def WithinLimits (steps : List RolloutStep) (appStepMap : AppStepMap) (before after : List ApplicationStatus) : Prop :=
  ∀ k s, steps[k]? = some s → ∀ m ∈ limit s.maxUpdate (entriesIn appStepMap k before),
    (updatingIn appStepMap k after : ℤ) ≤ max (updatingIn appStepMap k before : ℤ) m

/-- the call keeps every step within its limit, and the statuses of applications outside every step influence neither
the limit of a step nor what becomes of the others -/
def RespectsMaxUpdate (scaling : Scaling) (store : Store) (now : Time) (appset : ApplicationSet)
    (appsToSync : Finset String) (appStepMap : AppStepMap) (issues : Option ValidationIssues) : Prop :=
  ∃ r r', updateApplicationSetApplicationStatusProgress scaling store now appset appsToSync appStepMap issues = some r ∧
    updateApplicationSetApplicationStatusProgress scaling store now (withoutUnmapped appStepMap appset) appsToSync
      appStepMap issues = some r' ∧
    WithinLimits appset.steps appStepMap appset.applicationStatus r.statuses ∧
    (∀ k < appset.steps.length,
      stepLimit scaling appset.steps (stepCount appStepMap (fun _ => true) appset.applicationStatus) k =
        stepLimit scaling appset.steps
          (stepCount appStepMap (fun _ => true) (withoutUnmapped appStepMap appset).applicationStatus) k) ∧
    r.statuses.filter (isMapped appStepMap) = r'.statuses

/-- the exact condition: no odd zero lets an application through, and the entries outside every step change neither the
limit of the first step nor the number of its applications that still fit -/
structure UnmappedFit (steps : List RolloutStep) (appStepMap : AppStepMap) (appsToSync : Finset String)
    (l : List ApplicationStatus) : Prop where
  oddZero : ∀ k s, steps[k]? = some s → isOddZero s.maxUpdate = true →
    waitingIn appStepMap appsToSync k l = 0 ∨ 0 < updatingIn appStepMap k l
  total : ∀ s, steps[0]? = some s →
    limit s.maxUpdate (entriesIn appStepMap 0 l + unmapped appStepMap l) = limit s.maxUpdate (entriesIn appStepMap 0 l)
  updating : ∀ s, steps[0]? = some s → ∀ m ∈ appliedLimit s.maxUpdate (entriesIn appStepMap 0 l),
    unmappedUpdating appStepMap l = 0 ∨ waitingIn appStepMap appsToSync 0 l = 0 ∨ m ≤ updatingIn appStepMap 0 l ∨
      (updatingIn appStepMap 0 l + unmappedUpdating appStepMap l + waitingIn appStepMap appsToSync 0 l : ℤ) ≤ m

theorem stepCount_isUpdating (k : ℕ) :
    stepCount sm isUpdating l k =
      updatingIn sm k l + if k = 0 then unmappedUpdating sm l else 0 := stepCount_eq isUpdating k

theorem countP_filter_isMapped (p : ApplicationStatus → Bool) (k : ℕ) :
    (l.filter (isMapped sm)).countP (fun s => inStep sm k s && p s) = l.countP fun s => inStep sm k s && p s := by
  rw [List.countP_filter]
  refine List.countP_congr fun s _ => ?_
  simp only [Bool.and_eq_true]
  exact ⟨fun h => h.1, fun h => ⟨h, isMapped_of_inStep h.1⟩⟩

theorem unmapped_filter (p : ApplicationStatus → Bool) :
    (l.filter (isMapped sm)).countP (fun s => !isMapped sm s && p s) = 0 := by
  rw [List.countP_eq_zero]
  intro s hs
  simp [(List.mem_filter.mp hs).2]

/-- without the entries outside every step, the counts of the code are those of the steps -/
theorem stepCount_filter (p : ApplicationStatus → Bool) (k : ℕ) :
    stepCount sm p (l.filter (isMapped sm)) k = l.countP fun s => inStep sm k s && p s := by
  rw [stepCount_eq, countP_filter_isMapped, unmapped_filter]
  simp

theorem stepLimit_all (hk : steps[k]? = some s) : stepLimit scaling steps (stepCount sm (fun _ => true) l) k =
      appliedLimit s.maxUpdate (entriesIn sm k l + if k = 0 then unmapped sm l else 0) := by
  rw [stepLimit_eq hk, stepCount_eq]
  simp only [Bool.and_true]
  rfl

theorem stepLimit_mapped (hk : steps[k]? = some s) :
    stepLimit scaling steps (stepCount sm (fun _ => true) (l.filter (isMapped sm))) k =
      appliedLimit s.maxUpdate (entriesIn sm k l) := by
  rw [stepLimit_eq hk, stepCount_filter]
  simp only [Bool.and_true]
  rfl

theorem updatingIn_all (hs : ∀ n ∈ sync, (sm.lookup n).isSome) (hk : steps[k]? = some s) :
    updatingIn sm k (passed scaling now steps sm sync l) =
      updatingIn sm k l + Quota.room
        (appliedLimit s.maxUpdate (entriesIn sm k l + if k = 0 then unmapped sm l else 0))
        (updatingIn sm k l + if k = 0 then unmappedUpdating sm l else 0)
        (waitingIn sm sync k l) := by
  rw [updatingIn_passed hs, stepLimit_all hk, stepCount_isUpdating]

theorem updatingIn_mapped (hs : ∀ n ∈ sync, (sm.lookup n).isSome) (hk : steps[k]? = some s) :
    updatingIn sm k (passed scaling now steps sm sync (l.filter (isMapped sm))) =
      updatingIn sm k l + Quota.room (appliedLimit s.maxUpdate (entriesIn sm k l))
        (updatingIn sm k l) (waitingIn sm sync k l) := by
  rw [updatingIn_passed hs, stepLimit_mapped hk, stepCount_filter]
  unfold updatingIn waitingIn
  rw [countP_filter_isMapped, countP_filter_isMapped]

theorem filter_zipWith_apply (bs : List Bool) : (List.zipWith (apply now) l bs).filter (isMapped sm) =
      ((l.zip bs).filter fun x => isMapped sm x.1).map fun x => apply now x.1 x.2 := by
  rw [← List.map_uncurry_zip_eq_zipWith, List.filter_map]
  congr 1
  refine List.filter_congr fun x _ => ?_
  rcases x with ⟨s, _ | _⟩ <;> rfl

theorem progress_statuses {appset : ApplicationSet} (he : rollingSyncStrategyEnabled appset = true)
    (hm : ∀ n i, sm.lookup n = some i → i < appset.steps.length) :
    ∃ r, updateApplicationSetApplicationStatusProgress scaling store now appset sync sm issues = some r ∧
      r.statuses = passed scaling now appset.steps sm sync appset.applicationStatus := by
  have hlt : ∀ s ∈ appset.applicationStatus, step sm s < appset.steps.length := by
    intro s _
    unfold step stepIndex
    cases hs : sm.lookup s.application with
    | some i => exact hm _ i hs
    | none => exact of_decide_eq_true (Bool.and_eq_true_iff.mp he).2
  obtain ⟨issues', h⟩ := @progressStatuses_eq scaling now sm sync appset he hlt issues
  unfold updateApplicationSetApplicationStatusProgress
  rw [h]
  exact ⟨_, rfl, rfl⟩

theorem limit_of_isOddZero (h : isOddZero maxUpdate = true) (total : ℕ) :
    limit maxUpdate total = some 0 ∧ appliedLimit maxUpdate total = some 1 := by
  unfold appliedLimit
  rw [h]
  match maxUpdate with
  | none => cases h
  | some (.int value) => cases h
  | some (.string text) =>
    have hz : percentage text = some 0 := of_decide_eq_true (Bool.and_eq_true_iff.mp h).1
    simp [limit, hz]

theorem appliedLimit_of_limit (h : isOddZero maxUpdate = false) {m : ℤ}
    (hm : limit maxUpdate total = some m) : appliedLimit maxUpdate total = some m := by
  simp [appliedLimit, hm, h]

/-- what `RespectsMaxUpdate` says of a pass -/
structure PassRespects (scaling : Scaling) (now : Time) (steps : List RolloutStep) (appStepMap : AppStepMap)
    (appsToSync : Finset String) (l : List ApplicationStatus) : Prop where
  within : WithinLimits steps appStepMap l (passed scaling now steps appStepMap appsToSync l)
  limits : ∀ k < steps.length, stepLimit scaling steps (stepCount appStepMap (fun _ => true) l) k =
    stepLimit scaling steps (stepCount appStepMap (fun _ => true) (l.filter (isMapped appStepMap))) k
  others : (passed scaling now steps appStepMap appsToSync l).filter (isMapped appStepMap) =
    passed scaling now steps appStepMap appsToSync (l.filter (isMapped appStepMap))

theorem PassRespects.unmappedFit (h : PassRespects scaling now steps sm sync l)
    (hsy : ∀ n ∈ sync, (sm.lookup n).isSome) : UnmappedFit steps sm sync l := by
  have ht : ∀ s, steps[0]? = some s →
      limit s.maxUpdate (entriesIn sm 0 l + unmapped sm l) =
        limit s.maxUpdate (entriesIn sm 0 l) := by
    intro s hs
    have hl := h.limits 0 (List.getElem?_eq_some_iff.mp hs).1
    rw [stepLimit_all hs, stepLimit_mapped hs] at hl
    exact limit_of_appliedLimit hl
  -- both passes leave equally many applications of the first step updating
  have hr : ∀ s, steps[0]? = some s →
      Quota.room (appliedLimit s.maxUpdate (entriesIn sm 0 l))
        (updatingIn sm 0 l + unmappedUpdating sm l) (waitingIn sm sync 0 l) =
      Quota.room (appliedLimit s.maxUpdate (entriesIn sm 0 l)) (updatingIn sm 0 l)
        (waitingIn sm sync 0 l) := by
    intro s hs
    have hc := congrArg (updatingIn sm 0) h.others
    have hke : ∀ l' : List ApplicationStatus,
        updatingIn sm 0 (l'.filter (isMapped sm)) = updatingIn sm 0 l' :=
      fun l' => countP_filter_isMapped isUpdating 0
    rw [hke, updatingIn_all hsy hs, updatingIn_mapped hsy hs, if_pos rfl, if_pos rfl,
      appliedLimit_congr (ht s hs)] at hc
    exact Nat.add_left_cancel hc
  refine ⟨fun k s hk ho => ?_, ht, fun s hs m hm => ?_⟩
  · obtain ⟨hli, ha⟩ := limit_of_isOddZero ho (entriesIn sm k l)
    have hle := h.within k s hk 0 hli
    rw [updatingIn_all hsy hk] at hle
    by_cases hz : k = 0
    · subst hz
      rw [if_pos rfl, if_pos rfl, appliedLimit_congr (ht s hk), hr s hk, ha] at hle
      simp only [Quota.room] at hle
      omega
    · rw [if_neg hz, if_neg hz, Nat.add_zero, Nat.add_zero, ha] at hle
      simp only [Quota.room] at hle
      omega
  · have h := hr s hs
    rw [Option.mem_def.mp hm] at h
    simp only [Quota.room] at h
    omega

theorem UnmappedFit.respects (h : UnmappedFit steps sm sync l) (scaling : Scaling) (now : Time)
    (hsy : ∀ n ∈ sync, (sm.lookup n).isSome) : PassRespects scaling now steps sm sync l := by
  have ha : ∀ k s, steps[k]? = some s →
      appliedLimit s.maxUpdate (entriesIn sm k l + if k = 0 then unmapped sm l else 0) =
        appliedLimit s.maxUpdate (entriesIn sm k l) := by
    intro k s hk
    split_ifs with hz
    · subst hz
      exact appliedLimit_congr (h.total s hk)
    · rfl
  refine ⟨fun k s hk m hm => ?_, fun k hk => ?_, ?_⟩
  · rw [updatingIn_all hsy hk, ha k s hk]
    cases ho : isOddZero s.maxUpdate with
    | true =>
      rw [(limit_of_isOddZero ho _).2]
      have hz := h.oddZero k s hk ho
      simp only [Quota.room]
      omega
    | false =>
      rw [appliedLimit_of_limit ho hm]
      simp only [Quota.room]
      omega
  · obtain ⟨s, hs⟩ : ∃ s, steps[k]? = some s := ⟨_, List.getElem?_eq_getElem hk⟩
    rw [stepLimit_all hs, stepLimit_mapped hs, ha k s hs]
  · have hke : ∀ s, mayMove sync s = true → isMapped sm s = true := fun s hs =>
      hsy _ (of_decide_eq_true (Bool.and_eq_true_iff.mp hs).2)
    rw [passed, passed, filter_zipWith_apply, ← List.map_uncurry_zip_eq_zipWith]
    refine congrArg _ (Quota.zip_taken_filter hke l _ _ fun k r hr => ?_)
    rw [waitingIn_eq hsy] at hr
    rw [stepCount_isUpdating, stepCount_filter]
    cases hs : steps[k]? with
    | none => simp [stepLimit, hs, Quota.below]
    | some s =>
      rw [stepLimit_all hs, stepLimit_mapped hs, ha k s hs]
      by_cases hz : k = 0
      · subst hz
        rw [if_pos rfl]
        cases hm : appliedLimit s.maxUpdate (entriesIn sm 0 l) with
        | none => rfl
        | some m =>
          have hf := h.updating s hs m hm
          change _ = Quota.below (some m) (updatingIn sm 0 l + r)
          simp only [Quota.below, decide_eq_decide]
          omega
      · rw [if_neg hz, Nat.add_zero]
        rfl

/-- **maxUpdate.** The limits are respected, whatever stands outside the steps, exactly when the entries outside fit. -/
theorem max_update_respected_iff {appset : ApplicationSet} (hroll : isRollingSyncStrategy appset = true)
    (hmap : ∀ n i, appStepMap.lookup n = some i → i < appset.steps.length)
    (hsync : ∀ n ∈ appsToSync, (appStepMap.lookup n).isSome) :
    RespectsMaxUpdate scaling store now appset appsToSync appStepMap issues ↔
      UnmappedFit appset.steps appStepMap appsToSync appset.applicationStatus := by
  by_cases hste : 0 < appset.steps.length
  · have he : rollingSyncStrategyEnabled appset = true := Bool.and_eq_true_iff.mpr ⟨hroll, decide_eq_true hste⟩
    obtain ⟨r, hr, hst⟩ := @progress_statuses scaling store now appStepMap appsToSync issues appset he hmap
    obtain ⟨r', hr', hst'⟩ := @progress_statuses scaling store now appStepMap appsToSync issues
      (withoutUnmapped appStepMap appset) he hmap
    constructor
    · intro ⟨r₁, r₁', h, h', hw, hl, hf⟩
      obtain rfl : r = r₁ := Option.some.inj (hr.symm.trans h)
      obtain rfl : r' = r₁' := Option.some.inj (hr'.symm.trans h')
      rw [hst] at hw hf
      rw [hst'] at hf
      exact PassRespects.unmappedFit ⟨hw, hl, hf⟩ hsync
    · intro hfi
      obtain ⟨hw, hl, hf⟩ := hfi.respects scaling now hsync
      rw [← hst] at hw hf
      exact ⟨r, r', hr, hr', hw, hl, hf.trans hst'.symm⟩
  · -- without steps the statuses are cleared
    have hni : appset.steps = [] := List.eq_nil_of_length_eq_zero (Nat.eq_zero_of_not_pos hste)
    have hc : ∀ a : ApplicationSet, a.steps = [] → ∃ r, updateApplicationSetApplicationStatusProgress scaling store
        now a appsToSync appStepMap issues = some r ∧ r.statuses = [] := by
      intro a ha
      have hno : rollingSyncStrategyEnabled a = false := by simp [rollingSyncStrategyEnabled, ha]
      have h : progressStatuses scaling now a appsToSync appStepMap issues = some ([], issues) := by
        simp [progressStatuses, hno]
      unfold updateApplicationSetApplicationStatusProgress
      rw [h]
      exact ⟨_, rfl, rfl⟩
    obtain ⟨r, hr, hst⟩ := hc appset hni
    obtain ⟨r', hr', hst'⟩ := hc (withoutUnmapped appStepMap appset) hni
    have hn : ∀ (k : ℕ) s, appset.steps[k]? ≠ some s := by simp [hni]
    refine iff_of_true ⟨r, r', hr, hr', fun k s hk => absurd hk (hn k s), fun k hk => ?_, ?_⟩
      ⟨fun k s hk => absurd hk (hn k s), fun s hs => absurd hs (hn 0 s), fun s hs => absurd hs (hn 0 s)⟩
    · rw [hni] at hk
      exact absurd hk (Nat.not_lt_zero k)
    · rw [hst, hst']
      rfl

/-! ## Half of a stage -/

def waitingStatus (name : String) : ApplicationStatus := ⟨name, some 0, "", .waiting, "1", some ["r2"]⟩

def healthyStatus (name : String) : ApplicationStatus := ⟨name, some 0, "", .healthy, "-1", some ["r2"]⟩

def devApps : List (Application Unit) := [stageApp "a" "dev" .outOfSync, stageApp "b" "dev" .outOfSync]

/-- half of the applications of stage dev, with these statuses of other applications -/
def halfOfDev (others : List ApplicationStatus) : ApplicationSet :=
  rollout [stageStep "dev" (some (.string "50%"))] ([waitingStatus "a", waitingStatus "b"] ++ others)

def devSteps : AppStepMap := (buildAppDependencyList (halfOfDev []) devApps).appStepMap

/-- two applications outside every step double the limit of the first step: both applications move where one may -/
theorem max_update_exceeded :
    ∃ r, updateApplicationSetApplicationStatusProgress .documented (honestStore (halfOfDev [])) 1
        (halfOfDev [healthyStatus "x", healthyStatus "y"])
        (getAppsToSync (halfOfDev [healthyStatus "x", healthyStatus "y"])
          (buildAppDependencyList (halfOfDev []) devApps).appDependencyList devApps) devSteps none = some r ∧
      updatingIn devSteps 0 (halfOfDev [healthyStatus "x", healthyStatus "y"]).applicationStatus = 0 ∧
      limit (some (.string "50%"))
        (entriesIn devSteps 0 (halfOfDev [healthyStatus "x", healthyStatus "y"]).applicationStatus) = some 1 ∧
      updatingIn devSteps 0 r.statuses = 2 :=
  ⟨_, rfl, by decide +kernel, by decide +kernel, by decide +kernel⟩

/-- without other applications one of the two moves -/
theorem max_update_respected_half :
    RespectsMaxUpdate .documented (honestStore (halfOfDev [])) 1 (halfOfDev [])
      (getAppsToSync (halfOfDev []) (buildAppDependencyList (halfOfDev []) devApps).appDependencyList devApps) devSteps
      none := by
  refine (max_update_respected_iff (by decide) (fun n i hi => lookup_lt_steps hi)
    (fun n hn => lookup_isSome_of_mem_getAppsToSync hn)).mpr ⟨?_, ?_, ?_⟩
  · intro k s hk ho
    match k with
    | 0 =>
      cases hk
      exact absurd ho (by decide)
    | k + 1 => cases hk
  · intro s hs
    cases hs
    decide +kernel
  · intro s hs m _
    exact .inl (by decide +kernel)

end GitOpsDeploy.AppSet

/-
The tasks of a call and the recorded results.

Several tasks can have one result key, so the record of a task may be another task's. Two invariants say what a record
means all the same:
- `Booked`: a record is the state of some task with its key, and a task with a state has a record. Every result keeps it.
- `Settled`: tasks with one key are pending together, and a record is the task's own state, or a completed one, or that of a
  running hook. It holds from the generation of the tasks until a wave is run.

`succeeded_recorded`: where no task failed and no hook is running, a task that has succeeded is recorded so.
-/
import GitOpsDeploy.Sync.Planned
import GitOpsDeploy.Sync.Progress

namespace GitOpsDeploy.Sync

variable {s s' : St} {tasks : List SyncTask} {t u : SyncTask} {C : CallSet} {R : ResultSet} {L : SyncTask → Prop}
  {status : Option ResultCode} {state : Option OperationPhase} {message : String}

/-! ## Sane results -/

/-- no record is terminating, and one that is running was synced -/
def SaneResults (s : St) : Prop :=
  ∀ r ∈ s.syncRes, r.hookPhase ≠ some .terminating ∧ (r.hookPhase = some .running → r.status = some .synced)

/-- results that may be recorded -/
def MaySet (status : Option ResultCode) (state : Option OperationPhase) : Prop :=
  state ≠ some .terminating ∧ (state = some .running → status = some .synced)

theorem IsSane.maySet (h : IsSane status state) : MaySet status state := by
  obtain ⟨phase, rfl, hne, hr⟩ := h
  exact ⟨fun h => hne (Option.some.inj h), fun h => hr (Option.some.inj h)⟩

theorem maySet_none : MaySet status none := ⟨by simp, by simp⟩

theorem isSane_error (status : Option ResultCode) : IsSane status (some .error) :=
  ⟨.error, rfl, by decide, nofun⟩

theorem isSane_completed {phase : OperationPhase} (h : phase.completed = true) : IsSane status (some phase) := by
  cases phase with
  | running => cases h
  | terminating => cases h
  | _ => exact ⟨_, rfl, by decide, nofun⟩

theorem Does.saneResults (h : Does C R L s s') (hs : SaneResults s)
    (hR : ∀ s t status state, R s t status state → MaySet status state) : SaneResults s' :=
  h.results_inv MaySet hs hR

theorem SaneResults.setResult (h : SaneResults s) (hs : MaySet status state) :
    SaneResults (setResourceResult s t status state message) :=
  Does.saneResults (C := fun _ => False) (R := fun _ _ status state => MaySet status state) (L := fun _ => False)
    (Does.setResult .refl hs) h fun _ _ _ _ hr => hr

/-! ## Records are states of tasks -/

structure Booked (tasks : List SyncTask) (s : St) : Prop where
  sane : SaneResults s
  cell : ∀ t ∈ tasks, MaySet (s.task t).syncStatus (s.task t).operationState
  /-- some task with this key has the recorded state -/
  writer : ∀ t ∈ tasks, ∀ r, s.syncRes.get? t.resultKey = some r →
    ∃ u ∈ tasks, u.resultKey = t.resultKey ∧ (s.task u).operationState = r.hookPhase
  /-- a task with a state has a record with a state -/
  recorded : ∀ t ∈ tasks, (s.task t).operationState ≠ none → (s.task t).operationState ≠ some .error →
    ∃ r, s.syncRes.get? t.resultKey = some r ∧ r.hookPhase ≠ none

theorem ptr_ne (hn : (tasks.map SyncTask.ptr).Nodup) (ht : t ∈ tasks) (hu : u ∈ tasks) (h : t ≠ u) : t.ptr ≠ u.ptr :=
  fun hp => h (List.inj_on_of_nodup_map hn ht hu hp)

theorem Booked.setResult (h : Booked tasks s) (hn : (tasks.map SyncTask.ptr).Nodup) (hu : u ∈ tasks)
    (hs : IsSane status state) : Booked tasks (setResourceResult s u status state message) := by
  have hse : (setResourceResult s u status state message).task u = (s.task u).withResult status state message :=
    task_setResourceResult_self
  have ho : ∀ t ∈ tasks, t ≠ u → (setResourceResult s u status state message).task t = s.task t :=
    fun t ht hne => task_setResourceResult_of_ne (ptr_ne hn ht hu hne)
  refine ⟨h.sane.setResult hs.maySet, fun t ht => ?_, fun t ht r hr => ?_, fun t ht hst he => ?_⟩
  · by_cases hne : t = u
    · rw [hne, hse]
      exact hs.maySet
    · rw [ho t ht hne]
      exact h.cell t ht
  · rw [get?_setResourceResult] at hr
    split_ifs at hr with hk
    · cases hr
      refine ⟨u, hu, hk.symm, ?_⟩
      rw [hse, hookPhase_recordResult]
    · obtain ⟨v, hv, hvk, hvs⟩ := h.writer t ht r hr
      have hne : v ≠ u := fun hvu => hk (hvu ▸ hvk).symm
      exact ⟨v, hv, hvk, ho v hv hne ▸ hvs⟩
  · rw [get?_setResourceResult]
    split_ifs with hk
    · refine ⟨_, rfl, ?_⟩
      obtain ⟨phase, rfl, -⟩ := hs
      rw [hookPhase_recordResult]
      exact Option.some_ne_none _
    · have hne : t ≠ u := fun htu => hk (congrArg SyncTask.resultKey htu)
      rw [ho t ht hne] at hst he
      exact h.recorded t ht hst he

theorem setLiveObj_task_eq {l : Option LiveObj} : ((s.setLiveObj u l).task t).syncStatus = (s.task t).syncStatus ∧
      ((s.setLiveObj u l).task t).operationState = (s.task t).operationState := by
  by_cases hp : t.ptr = u.ptr
  · rw [task_congr hp, task_congr (s := s) hp]
    unfold St.setLiveObj
    rw [task_setTask_self]
    exact ⟨rfl, rfl⟩
  · unfold St.setLiveObj
    rw [task_setTask_of_ne _ hp]
    exact ⟨rfl, rfl⟩

/-- `Booked` reads the results and the tasks' states only -/
theorem Booked.congr (h : Booked tasks s) (hre : s'.syncRes = s.syncRes)
    (hta : ∀ t, (s'.task t).syncStatus = (s.task t).syncStatus ∧
      (s'.task t).operationState = (s.task t).operationState) : Booked tasks s' := by
  refine ⟨fun r hr => h.sane r (hre ▸ hr), fun t ht => ?_, fun t ht r hr => ?_, fun t ht hs he => ?_⟩
  · rw [(hta t).1, (hta t).2]
    exact h.cell t ht
  · obtain ⟨v, hv, hvk, hvs⟩ := h.writer t ht r (hre ▸ hr)
    exact ⟨v, hv, hvk, (hta v).2.trans hvs⟩
  · rw [(hta t).2] at hs he
    rw [hre]
    exact h.recorded t ht hs he

theorem Booked.emit {c : Call} (h : Booked tasks s) : Booked tasks (s.emit c) := h.congr rfl fun _ => ⟨rfl, rfl⟩

theorem Booked.setPhase {phase : OperationPhase} (h : Booked tasks s) :
    Booked tasks (s.setOperationPhase phase message) := h.congr rfl fun _ => ⟨rfl, rfl⟩

/-- every part that sets sane results of the tasks keeps the books -/
theorem Does.booked (h : Does C R L s s') (hn : (tasks.map SyncTask.ptr).Nodup) (hs : Booked tasks s)
    (hR : ∀ s t status state, Booked tasks s → R s t status state → t ∈ tasks ∧ IsSane status state) :
    Booked tasks s' := by
  refine h.inv (Booked tasks) hs fun s a hs ha => ?_
  cases ha with
  | call h => exact hs.emit
  | result message h => exact hs.setResult hn (hR _ _ _ _ hs h).1 (hR _ _ _ _ hs h).2
  | live l h => exact hs.congr rfl fun _ => setLiveObj_task_eq
  | _ => exact hs.congr rfl fun _ => ⟨rfl, rfl⟩

/-! ## Before a wave is run -/

structure Settled (tasks : List SyncTask) (s : St) : Prop where
  /-- tasks with one key are pending together -/
  pendingAlike : ∀ t ∈ tasks, ∀ u ∈ tasks, t.resultKey = u.resultKey → (s.task t).operationState = none →
    (s.task u).operationState = none ∨ (s.task u).operationState = some .error
  /-- the record is the task's state, a completed one, or that of a running hook -/
  latest : ∀ t ∈ tasks, ∀ r, s.syncRes.get? t.resultKey = some r →
    r.hookPhase = (s.task t).operationState ∨ (∃ phase, r.hookPhase = some phase ∧ phase.completed = true) ∨
      ∃ u ∈ tasks, u.resultKey = t.resultKey ∧ u.isHook = true ∧ (s.task u).operationState = some .running

/-- a result that keeps the tasks settled -/
structure Settles (tasks : List SyncTask) (s : St) (t : SyncTask) (state : Option OperationPhase) : Prop where
  mem : t ∈ tasks
  notPending : (s.task t).operationState ≠ none
  keepsError : (s.task t).operationState = some .error → state = some .error
  next : ∃ phase, state = some phase ∧ (phase.completed = true ∨ (phase = .running ∧ t.isHook = true))

theorem Settled.setResult (h : Settled tasks s) (hn : (tasks.map SyncTask.ptr).Nodup) (hset : Settles tasks s u state) :
    Settled tasks (setResourceResult s u status state message) := by
  obtain ⟨hu, hp, he, phase, rfl, hnex⟩ := hset
  have hse : ((setResourceResult s u status (some phase) message).task u).operationState = some phase :=
    congrArg TaskState.operationState task_setResourceResult_self
  have ho : ∀ t ∈ tasks, t ≠ u → (setResourceResult s u status (some phase) message).task t = s.task t :=
    fun t ht hne => task_setResourceResult_of_ne (ptr_ne hn ht hu hne)
  refine ⟨fun t ht v hv hk hs => ?_, fun t ht r hr => ?_⟩
  · have htu : t ≠ u := by
      intro htu
      rw [htu, hse] at hs
      cases hs
    rw [ho t ht htu] at hs
    by_cases hvu : v = u
    · subst hvu
      -- the pending task shares its key with the one written, which then had an error already
      rcases h.pendingAlike t ht v hv hk hs with hv' | hv'
      · exact absurd hv' hp
      · exact .inr (hse.trans (he hv'))
    · rw [ho v hv hvu]
      exact h.pendingAlike t ht v hv hk hs
  · rw [get?_setResourceResult] at hr
    split_ifs at hr with hk
    · cases hr
      rw [hookPhase_recordResult]
      rcases hnex with hc | ⟨hru, hh⟩
      · exact .inr (.inl ⟨phase, rfl, hc⟩)
      · exact .inr (.inr ⟨u, hu, hk.symm, hh, hse.trans (congrArg some hru)⟩)
    · have hne : ∀ v ∈ tasks, v.resultKey = t.resultKey → v ≠ u := fun v _ hvk hvu => hk (hvu ▸ hvk).symm
      rw [ho t ht (hne t ht rfl)]
      rcases h.latest t ht r hr with h | h | ⟨v, hv, hvk, hvh, hvr⟩
      · exact .inl h
      · exact .inr (.inl h)
      · exact .inr (.inr ⟨v, hv, hvk, hvh, ho v hv (hne v hv hvk) ▸ hvr⟩)

theorem Settled.congr (h : Settled tasks s) (hre : s'.syncRes = s.syncRes)
    (hta : ∀ t, (s'.task t).operationState = (s.task t).operationState) : Settled tasks s' := by
  refine ⟨fun t ht u hu hk hs => ?_, fun t ht r hr => ?_⟩
  · rw [hta] at hs ⊢
    exact h.pendingAlike t ht u hu hk hs
  · rw [hre] at hr
    simp only [hta]
    exact h.latest t ht r hr

theorem Does.settled (h : Does C R L s s') (hn : (tasks.map SyncTask.ptr).Nodup) (hs : Settled tasks s)
    (hR : ∀ s t status state, R s t status state → Settles tasks s t state) : Settled tasks s' := by
  refine h.inv (Settled tasks) hs fun s a hs ha => ?_
  cases ha with
  | result message h => exact hs.setResult hn (hR _ _ _ _ h)
  | live l h => exact hs.congr rfl fun _ => setLiveObj_task_eq.2
  | _ => exact hs.congr rfl fun _ => rfl

/-- the task is recorded as succeeded -/
def RecordedSucceeded (results : Results) (t : SyncTask) : Prop :=
  ∃ r, results.get? t.resultKey = some r ∧ r.hookPhase = some .succeeded

/-- **Success is on record.** The tasks with the key of a task that has succeeded are not pending either. -/
theorem succeeded_recorded (hb : Booked tasks s) (hs : Settled tasks s)
    (hh : ∀ t ∈ tasks, t.isHook = true → (s.task t).operationState ≠ some .running)
    (hok : ∀ t ∈ regularTasks tasks, isUnsuccessful s t = false) (hu : u ∈ regularTasks tasks)
    (hsu : (s.task u).operationState = some .succeeded) :
    RecordedSucceeded s.syncRes u ∧ ∀ t ∈ tasks, t.resultKey = u.resultKey → (s.task t).operationState ≠ none := by
  have hum : u ∈ tasks := (List.mem_filter.1 hu).1
  refine ⟨?_, fun t ht hk hn => ?_⟩
  · obtain ⟨r, hr, -⟩ := hb.recorded u hum (by simp [hsu]) (by simp [hsu])
    refine ⟨r, hr, ?_⟩
    rcases hs.latest u hum r hr with h | ⟨phase, hp, hc⟩ | ⟨v, hv, -, hvh, hvr⟩
    · exact h.trans hsu
    · -- the record is the state of a task with this key, hence in the same phase
      obtain ⟨v, hv, hvk, hvs⟩ := hb.writer u hum r hr
      have hvre : v ∈ regularTasks tasks := by
        refine List.mem_filter.2 ⟨hv, ?_⟩
        rw [resourceResultKey_phase hvk]
        exact (List.mem_filter.1 hu).2
      have hvo := hok v hvre
      rw [hp] at hvs ⊢
      simpa [isUnsuccessful, TaskState.completed, TaskState.successful, hvs, hc] using hvo
    · exact absurd hvr (hh v hv hvh)
  · rcases hs.pendingAlike t ht u hum hk hn with h | h
    · cases hsu.symm.trans h
    · cases hsu.symm.trans h

/-! ## The tasks as they are generated -/

section Generated

variable {ctx : Ctx} {w : World}

theorem Plans.saneResults {ok : Bool} (h : Plans ok s s') (hs : SaneResults s) : SaneResults s' := by
  refine Does.saneResults h hs fun s t status state hR => ?_
  rcases hR.2 with h | h
  · rw [h]
    exact (isSane_error status).maySet
  · rw [h.2]
    exact maySet_none

theorem getSyncTasks_sane (hs : SaneResults s) : SaneResults (getSyncTasks ctx w s).s := by
  unfold SaneResults
  rw [getSyncTasks_copied.syncRes]
  exact Plans.saneResults planTasks_does hs

theorem booked_of_agrees (hsa : SaneResults s) (h : ∀ t ∈ tasks, Agrees s t) : Booked tasks s := by
  have hg : ∀ t ∈ tasks, ∀ r, s.syncRes.get? t.resultKey = some r → r ∈ s.syncRes :=
    fun t _ r hr => (KeyedMap.get?_eq_some.1 hr).1
  refine ⟨hsa, fun t ht => ?_, fun t ht r hr => ⟨t, ht, rfl, (h t ht).state r hr⟩, fun t ht hs he => ?_⟩
  · cases hr : s.syncRes.get? t.resultKey with
    | some r =>
      rw [(h t ht).status r hr, (h t ht).state r hr]
      exact hsa r (hg t ht r hr)
    | none =>
      rcases (h t ht).unrecorded hr with h | h
      · rw [h]
        exact maySet_none
      · rw [h.1]
        exact (isSane_error _).maySet
  · cases hr : s.syncRes.get? t.resultKey with
    | some r => exact ⟨r, rfl, (h t ht).state r hr ▸ hs⟩
    | none =>
      rcases (h t ht).unrecorded hr with h | h
      · exact absurd h hs
      · exact absurd h.1 he

theorem settled_of_agrees (h : ∀ t ∈ tasks, Agrees s t) : Settled tasks s := by
  refine ⟨fun t ht u hu hk hs => ?_, fun t ht r hr => .inl ((h t ht).state r hr).symm⟩
  cases hr : s.syncRes.get? u.resultKey with
  | some r =>
    refine .inl (((h u hu).state r hr).trans ?_)
    exact ((h t ht).state r (hk ▸ hr)).symm.trans hs
  | none => exact ((h u hu).unrecorded hr).imp_right fun h => h.1

end Generated

end GitOpsDeploy.Sync

/-
Success is honest: when a call leaves the operation succeeded, its tasks have succeeded, or were applied and accepted.

Success is decided before the hooks that are done are deleted; a deletion that fails is recorded as an error of the hook
although the operation has succeeded. Records with other keys are those of the decision.

- `advance_decided`: every call that succeeds was decided so, and ends with the deletion of hooks.
- `success_honest`: what success means for each task, but for those with the key of a hook whose deletion was refused; and
  that there is no success once a task is recorded as failed.
- Witness: `success_honest_hook_deleted`, a hook that is deleted when it has succeeded.
- `dishonest_success`: a refused deletion, a dry run of an unknown kind, and a hook of failure.
-/
import GitOpsDeploy.Sync.Operation

namespace GitOpsDeploy.Sync

open List

variable {ctx : Ctx} {w : World} {s s' s0 : St} {tasks : List SyncTask} {t : SyncTask}

/-! ## Deletions -/

/-- the error of the deletion of the task, or of the discovery of its kind before it -/
def Call.deleteError (t : SyncTask) : Call → Option ApiError
  | .delete u _ err => if u = t then err else none
  | .discover gvk verb err => if gvk = t.obj.gvk ∧ verb = "delete" then err else none
  | _ => none

/-- the deletion of a hook with the key failed, other than that there was nothing to delete -/
def DeleteRefused (tasks : List SyncTask) (log : List Event) (key : String) : Prop :=
  ∃ u ∈ tasks, u.isHook = true ∧ u.resultKey = key ∧ ∃ e ∈ log, isFailure (e.call.deleteError u) = true

instance (tasks : List SyncTask) (log : List Event) (key : String) : Decidable (DeleteRefused tasks log key) := by
  unfold DeleteRefused
  infer_instance

theorem deleteResource_error {err : ApiError} (h : (deleteResource ctx w s t).1 = some err) :
    ∃ e ∈ (deleteResource ctx w s t).2.log, ∃ err', e.call.deleteError t = some err' ∧ err'.reason = err.reason := by
  unfold deleteResource at h ⊢
  dsimp only at h ⊢
  split at h
  · rename_i err' he
    cases h
    refine ⟨_, mem_cons_self, err', ?_, rfl⟩
    exact (if_pos ⟨rfl, rfl⟩).trans he
  · obtain ⟨err', he, rfl⟩ := Option.map_eq_some_iff.1 h
    exact ⟨_, mem_cons_self, err', (if_pos rfl).trans he, rfl⟩

theorem deleteHook_accepted (h : ∀ e ∈ (deleteHook ctx w s t).log, ¬isFailure (e.call.deleteError t) = true) :
    deleteHook ctx w s t = (deleteResource ctx w s t).2 := by
  unfold deleteHook at h ⊢
  dsimp only at h ⊢
  split
  · rename_i err her
    split_ifs with hr
    · rfl
    · exfalso
      obtain ⟨e, he, err', hc, hs⟩ := deleteResource_error her
      simp only [her, if_neg hr] at h
      have hf := h e he
      simp [isFailure, hc, hs, hr] at hf
  · rfl

/-- a record is kept where the deletions of the hooks with its key are accepted -/
theorem deleteHooks_result {hooks : List SyncTask} {key : String} (h : ∀ u ∈ hooks, u.resultKey = key →
      ∀ e ∈ (deleteHooks ctx w hooks s).log, ¬isFailure (e.call.deleteError u) = true) :
    (deleteHooks ctx w hooks s).syncRes.get? key = s.syncRes.get? key := by
  induction hooks generalizing s with
  | nil => rfl
  | cons t ts ih =>
    have hl : (deleteHook ctx w s t).log <:+ (deleteHooks ctx w (t :: ts) s).log :=
      Does.log_suffix (deleteHooks_does (T := fun _ => True) (L := fun _ => False) fun _ _ => trivial)
    have ht : (deleteHook ctx w s t).syncRes.get? key = s.syncRes.get? key := by
      by_cases hk : t.resultKey = key
      · have hd : Does (callsOf [.discover, .delete] fun _ => True) noResult (fun _ => False) s (deleteHook ctx w s t) := by
          rw [deleteHook_accepted fun e he => h t mem_cons_self hk e (hl.subset he)]
          exact deleteResource_does (callsOf_le (List.Subset.refl _) fun _ _ => trivial)
        rw [hd.syncRes_eq]
      · have hd : Does _ _ (fun _ => False) s (deleteHooks ctx w [t] s) := deleteHooks_does fun _ hu => mem_singleton.1 hu
        exact hd.result_eq key fun _ u _ _ hr => hr.1 ▸ hk
    exact (ih fun u hu => h u (mem_cons_of_mem t hu)).trans ht

/-! ## The decision -/

/-- the task is recorded as running, since one with its key was applied: by this call, or in the only wave -/
def RecordedApplied (tasks : List SyncTask) (s : St) (t : SyncTask) : Prop :=
  ∃ r, s.syncRes.get? t.resultKey = some r ∧ r.hookPhase = some .running ∧ r.status = some .synced ∧
    (multiStep tasks = false ∨ ∃ u ∈ tasks, u.resultKey = t.resultKey ∧ Applied .none u s)

/-- the task was left out: as unmodified, or of a dry run -/
def LeftOut (ctx : Ctx) (s0 : St) (t : SyncTask) : Prop :=
  (ctx.applyOutOfSyncOnly = true ∧ isUnmodified ctx s0 t = true) ∨ (ctx.dryRun = true ∧ t.skipDryRun = true)

/-- what success means for a task of a call -/
structure Honest (ctx : Ctx) (tasks : List SyncTask) (s0 s : St) (t : SyncTask) : Prop where
  unfailed : ∀ r, s.syncRes.get? t.resultKey = some r → r.hookPhase ≠ some .failed ∧ r.hookPhase ≠ some .error
  hook : t.isHook = true → RecordedSucceeded s.syncRes t
  other : t.isHook = false → RecordedSucceeded s.syncRes t ∨ RecordedApplied tasks s t ∨ LeftOut ctx s0 t

theorem Honest.congr (h : Honest ctx tasks s0 s t) (hre : s'.syncRes.get? t.resultKey = s.syncRes.get? t.resultKey)
    (hl : s.log <:+ s'.log) : Honest ctx tasks s0 s' t := by
  have hsu : RecordedSucceeded s.syncRes t → RecordedSucceeded s'.syncRes t := fun ⟨r, hr, hs⟩ =>
    ⟨r, hre ▸ hr, hs⟩
  refine ⟨fun r hr => h.unfailed r (hre ▸ hr), fun hh => hsu (h.hook hh), fun hh => ?_⟩
  rcases h.other hh with hs | ⟨r, hr, hru, hs, ha⟩ | ho
  · exact .inl (hsu hs)
  · refine .inr (.inl ⟨r, hre ▸ hr, hru, hs, ha.imp_right ?_⟩)
    exact fun ⟨u, hu, hk, hap⟩ => ⟨u, hu, hk, hap.mono hl⟩
  · exact .inr (.inr ho)

/-- what is known of the tasks when success is decided -/
structure Decided (ctx : Ctx) (tasks : List SyncTask) (s0 s : St) : Prop where
  booked : Booked tasks s
  unfailed : ∀ t ∈ regularTasks tasks, isUnsuccessful s t = false
  /-- what runs was applied -/
  applied : ∀ t ∈ tasks, (s.task t).operationState = some .running → multiStep tasks = false ∨ Applied .none t s
  hooks : ∀ t ∈ regularTasks tasks, t.isHook = true → RecordedSucceeded s.syncRes t
  others : ∀ t ∈ regularTasks tasks, t.isHook = false →
    RecordedSucceeded s.syncRes t ∨ Fine (s.task t) ∨ LeftOut ctx s0 t

theorem mem_regularTasks : t ∈ regularTasks tasks ↔ t ∈ tasks ∧ t.phase ≠ .syncFail := by
  simp [regularTasks]

theorem Booked.regular_writer (hb : Booked tasks s) (ht : t ∈ regularTasks tasks) {r : ResourceSyncResult}
    (hr : s.syncRes.get? t.resultKey = some r) :
    ∃ u ∈ regularTasks tasks, u.resultKey = t.resultKey ∧ (s.task u).operationState = r.hookPhase := by
  obtain ⟨htm, hp⟩ := mem_regularTasks.1 ht
  obtain ⟨u, hu, hk, hs⟩ := hb.writer t htm r hr
  exact ⟨u, mem_regularTasks.2 ⟨hu, resourceResultKey_phase hk ▸ hp⟩, hk, hs⟩

theorem not_failed_of_successful (h : isUnsuccessful s t = false) :
    (s.task t).operationState ≠ some .failed ∧ (s.task t).operationState ≠ some .error := by
  refine ⟨fun hs => ?_, fun hs => ?_⟩
  · simp [isUnsuccessful, TaskState.completed, TaskState.successful, hs, OperationPhase.completed] at h
  · simp [isUnsuccessful, TaskState.completed, TaskState.successful, hs, OperationPhase.completed] at h

theorem successful_of_not_failed (hf : (s.task t).operationState ≠ some .failed)
    (he : (s.task t).operationState ≠ some .error) : isUnsuccessful s t = false := by
  unfold isUnsuccessful TaskState.completed TaskState.successful
  cases hs : (s.task t).operationState with
  | none => rfl
  | some phase =>
    cases phase with
    | failed => exact absurd hs hf
    | error => exact absurd hs he
    | _ => rfl

/-- the record of a fine task is one of success, or of a task that runs -/
theorem fine_recorded (hb : Booked tasks s) (hok : ∀ t ∈ regularTasks tasks, isUnsuccessful s t = false)
    (ht : t ∈ regularTasks tasks) (hfi : Fine (s.task t)) :
    RecordedSucceeded s.syncRes t ∨ ∃ r, s.syncRes.get? t.resultKey = some r ∧ r.hookPhase = some .running ∧
      ∃ u ∈ tasks, u.resultKey = t.resultKey ∧ (s.task u).operationState = some .running := by
  have htm := (mem_regularTasks.1 ht).1
  have hs : (s.task t).operationState ≠ none ∧ (s.task t).operationState ≠ some .error := by
    rcases hfi with h | h <;> simp [h]
  obtain ⟨r, hr, hso⟩ := hb.recorded t htm hs.1 hs.2
  obtain ⟨u, hu, hk, hw⟩ := hb.regular_writer ht hr
  have hum := (mem_regularTasks.1 hu).1
  obtain ⟨hf, he⟩ := not_failed_of_successful (hok u hu)
  cases hp : r.hookPhase with
  | none => exact absurd hp hso
  | some phase =>
    cases phase with
    | running => exact .inr ⟨r, hr, hp, u, hum, hk, hw.trans hp⟩
    | terminating => exact absurd (hw.trans hp) (hb.cell u hum).1
    | failed => exact absurd (hw.trans hp) hf
    | error => exact absurd (hw.trans hp) he
    | succeeded => exact .inl ⟨r, hr, hp⟩

theorem Decided.honest (h : Decided ctx tasks s0 s) (ht : t ∈ regularTasks tasks) : Honest ctx tasks s0 s t := by
  refine ⟨fun r hr => ?_, h.hooks t ht, fun hh => ?_⟩
  · obtain ⟨u, hu, -, hw⟩ := h.booked.regular_writer ht hr
    rw [← hw]
    exact not_failed_of_successful (h.unfailed u hu)
  · rcases h.others t ht hh with hs | hf | ho
    · exact .inl hs
    · refine (fine_recorded h.booked h.unfailed ht hf).imp_right fun ⟨r, hr, hru, u, hu, hk, hus⟩ => .inl ?_
      refine ⟨r, hr, hru, (h.booked.sane r (KeyedMap.get?_eq_some.1 hr).1).2 hru, ?_⟩
      exact (h.applied u hu hus).imp_right fun ha => ⟨u, hu, hk, ha⟩
    · exact .inr (.inr ho)

/-! ## The two places where success is decided -/

/-- a run of pending tasks -/
structure RanPending (ctx : Ctx) (s s' : St) (T : SyncTask → Prop) (tasks : List SyncTask) : Prop where
  pending : ∀ t, T t → t ∈ tasks ∧ (s.task t).operationState = none
  does : Does (fun _ => True) (runResult ctx ctx.dryRun T) T s s'
  unfailed : ∀ t ∈ regularTasks tasks, isUnsuccessful s' t = false

section Exits

variable (hn : (tasks.map SyncTask.ptr).Nodup) (hready : Ready ctx tasks s0 s)
  (hok : (regularTasks tasks).any (isUnsuccessful s) = false)

include hok in
theorem ready_successful (ht : t ∈ regularTasks tasks) : isUnsuccessful s t = false := by
  simpa using any_eq_false.1 hok t ht

include hready hok

theorem ready_state (ht : t ∈ regularTasks tasks) : (s.task t).operationState = none ∨
      ((s.task t).operationState = some .running ∧ multiStep tasks = false ∧ t.isHook = false) ∨
      (s.task t).operationState = some .succeeded := by
  have htm := (mem_regularTasks.1 ht).1
  obtain ⟨hf, he⟩ := not_failed_of_successful (ready_successful hok ht)
  cases hs : (s.task t).operationState with
  | none => exact .inl rfl
  | some phase =>
    cases phase with
    | running =>
      refine .inr (.inl ⟨rfl, ?_, ?_⟩)
      · exact Bool.eq_false_iff.2 fun hm => hready.waited t htm (.inl hm) hs
      · exact Bool.eq_false_iff.2 fun hh => hready.waited t htm (.inr hh) hs
    | terminating => exact absurd hs (hready.booked.cell t htm).1
    | failed => exact absurd hs hf
    | error => exact absurd hs he
    | succeeded => exact .inr (.inr rfl)

variable {T : SyncTask → Prop} (hran : RanPending ctx s s' T tasks)

include hran

omit hready hok in
theorem RanPending.task_eq (hn : (tasks.map SyncTask.ptr).Nodup) (ht : t ∈ tasks)
    (hs : (s.task t).operationState ≠ none) : s'.task t = s.task t := by
  have hne : ∀ u, T u → t.ptr ≠ u.ptr := fun u hu =>
    ptr_ne hn ht (hran.pending u hu).1 fun htu => hs (htu ▸ (hran.pending u hu).2)
  exact hran.does.task_eq t (fun _ u _ _ hr => hne u hr.1) hne

include hn

omit hok in
theorem RanPending.booked : Booked tasks s' :=
  hran.does.booked hn hready.booked (setsSane_run fun t ht => (hran.pending t ht).1)

/-- success stays on record while pending tasks run -/
theorem RanPending.succeeded (ht : t ∈ regularTasks tasks) (hsu : (s.task t).operationState = some .succeeded) :
    RecordedSucceeded s'.syncRes t := by
  have htm := (mem_regularTasks.1 ht).1
  cases hready.standing with
  | settled hs =>
    have hh : ∀ t ∈ tasks, t.isHook = true → (s.task t).operationState ≠ some .running :=
      fun t ht hho => hready.waited t ht (.inr hho)
    obtain ⟨hre, hk⟩ := succeeded_recorded hready.booked hs hh (fun t ht => ready_successful hok ht) ht hsu
    unfold RecordedSucceeded
    rw [hran.does.result_eq t.resultKey fun _ u _ _ hr hke => ?_]
    · exact hre
    · exact hk u (hran.pending u hr.1).1 hke (hran.pending u hr.1).2
  | created _ _ h _ =>
    rcases h t htm with h | h
    · cases h.symm.trans hsu
    · cases h.1.symm.trans hsu
  | dry _ hc h =>
    have hf : Fine (s'.task t) := by
      rw [hran.task_eq hn htm (by simp [hsu])]
      exact .inr hsu
    refine (fine_recorded (hran.booked hn hready) hran.unfailed ht hf).resolve_right fun ⟨_, _, _, u, hu, _, hru⟩ => ?_
    exact hran.does.not_running hc h u hu hru

/-- **Decided.** The pending tasks are fine after the run or were left out, and no hook is among them. -/
theorem RanPending.decided (ha : ∀ t, T t → (s'.task t).operationState = some .running → Applied .none t s')
    (hp : ∀ t ∈ regularTasks tasks, (s.task t).operationState = none →
      t.isHook = false ∧ (Fine (s'.task t) ∨ LeftOut ctx s0 t)) : Decided ctx tasks s0 s' where
  booked := hran.booked hn hready
  unfailed := hran.unfailed
  applied t ht hrun := by
    by_cases hT : T t
    · exact .inr (ha t hT hrun)
    · left
      have hne : ∀ u, T u → t.ptr ≠ u.ptr := fun u hu => ptr_ne hn ht (hran.pending u hu).1 fun htu => hT (htu ▸ hu)
      rw [hran.does.task_eq t (fun _ u _ _ hr => hne u hr.1) hne] at hrun
      exact Bool.eq_false_iff.2 fun hm => hready.waited t ht (.inl hm) hrun
  hooks t ht hhook := by
    rcases ready_state hready hok ht with h | h | h
    · cases hhook.symm.trans (hp t ht h).1
    · cases hhook.symm.trans h.2.2
    · exact hran.succeeded hn hready hok ht h
  others t ht _ := by
    rcases ready_state hready hok ht with h | h | h
    · exact .inr (hp t ht h).2
    · refine .inr (.inl (.inl ?_))
      rw [hran.task_eq hn (mem_regularTasks.1 ht).1 (by simp [h.1])]
      exact h.1
    · exact .inl (hran.succeeded hn hready hok ht h)

omit hran

theorem decided_noMoreTasks (hno : pendingTasks ctx tasks s = []) : Decided ctx tasks s0 s := by
  have hran : RanPending ctx s s (fun _ => False) tasks :=
    ⟨fun _ h => h.elim, .refl, fun t ht => ready_successful hok ht⟩
  refine hran.decided hn hready hok (fun _ h => h.elim) fun t ht hs => ?_
  have ho := (pending_or_unmodified hready ht hs).resolve_left fun hin => by simp [hno] at hin
  exact ⟨isHook_of_unmodified ho.2, .inr (.inl ho)⟩

theorem decided_allTasksRun {first : SyncTask} {s1 s2 : St} {message : String}
    (hs1 : s1 = s.setOperationPhase .running message)
    (hrun : runTasks ctx w (nextWave tasks (pendingTasks ctx tasks s) s first).tasks false s1 = (.successful, s2))
    (hre : (nextWave tasks (pendingTasks ctx tasks s) s first).remainingTasks = [])
    (hh : (nextWave tasks (pendingTasks ctx tasks s) s first).tasks.any SyncTask.isHook = false) :
    Decided ctx tasks s0 s2 := by
  set wave := (nextWave tasks (pendingTasks ctx tasks s) s first).tasks with hw
  have hs2 : s2 = (runTasks ctx w wave false s1).2 := by rw [hrun]
  have hsu : (runTasks ctx w wave false s1).1 = .successful := by rw [hrun]
  have hruns : Runs ctx ctx.dryRun (· ∈ wave) s1 s2 := hs2 ▸ runTasks_does (Bool.false_or _) fun _ h => h
  have hta : ∀ t, s1.task t = s.task t := fun t => by rw [hs1]; rfl
  have hran : RanPending ctx s s2 (· ∈ wave) tasks := by
    refine ⟨fun t ht => ?_, ?_, fun t ht => ?_⟩
    · obtain ⟨hreg, hs⟩ := mem_pendingTasks (mem_filter.1 ht).1
      exact ⟨(mem_regularTasks.1 hreg).1, hs⟩
    · refine Trace.Reach.trans (hs1 ▸ Does.setPhase .refl) (hruns.weaken (fun _ _ => trivial) (fun _ _ _ _ h => h) ?_)
      exact fun _ h => h.1
    · have hP : HoldsWhenFine fun state => state ≠ some .failed ∧ state ≠ some .error := ⟨by simp, by simp⟩
      obtain ⟨hf, he⟩ := hs2 ▸ runTasks_keeps hP (.inl rfl) hsu
        (hta t ▸ not_failed_of_successful (ready_successful hok ht))
      exact successful_of_not_failed hf he
  refine hran.decided hn hready hok (fun t ht hru => ?_) fun t ht hs => ?_
  · -- only targets that are not applied as a dry run start to run
    have hne : ctx.dryRun = true ∨ t.isPrune = true → (s2.task t).operationState ≠ some .running := by
      intro h
      refine hruns.operationState_inv (· ≠ some .running) (by simp [hta t, (hran.pending t ht).2]) ?_
      intro _ u _ _ hp _ hr
      refine hr.2.2.2 (h.imp_right fun hpr => ?_)
      rwa [← inj_on_of_nodup_map hn (hran.pending t ht).1 (hran.pending u hr.1).1 hp]
    have hct : ctx.dryRun = false := Bool.eq_false_iff.2 fun h => hne (.inl h) hru
    have hc : t.isPrune = false := Bool.eq_false_iff.2 fun h => hne (.inr h) hru
    have hap : Applied (dryRunStrategy false) t (runTasks ctx w wave false s1).2 :=
      runTasks_applied (by simp [hct]) hsu ht ⟨hc, nofun⟩
    exact hs2 ▸ hap
  · rcases pending_or_unmodified hready ht hs with hin | ho
    · have htw : t ∈ wave := by
        refine mem_filter.2 ⟨hin, ?_⟩
        simpa using filter_eq_nil_iff.1 hre t hin
      refine ⟨by simpa using any_eq_false.1 hh t htw, ?_⟩
      by_cases ha : t.isPrune = true ∨ IsApplied ctx.dryRun t
      · exact .inl (hs2 ▸ runTasks_fine (Bool.false_or _) (Bool.eq_false_or_eq_true _).symm hsu htw ha)
      · simp only [IsApplied, not_or, not_and, Bool.not_eq_true, Classical.not_imp, Bool.not_eq_false] at ha
        exact .inr (.inr (ha.2 ha.1))
    · exact ⟨isHook_of_unmodified ho.2, .inr (.inl ho)⟩

end Exits

/-! ## Calls that succeed -/

theorem waveFailed_phase {wave : Wave} : (waveFailed ctx w wave s).phase ≠ some .succeeded := by
  have hr : ∀ {ts s}, (setRunningPhase ctx ts false s).phase ≠ some .succeeded := fun h =>
    nomatch setRunningPhase_phase.symm.trans h
  unfold waveFailed
  dsimp only
  split_ifs
  · exact hr
  · exact hr
  · exact hr
  · rw [deleteHooks_phase]
    exact executeSyncFailPhase_phase
  · exact executeSyncFailPhase_phase

theorem finishWave_succeeded {wave : Wave} {state : RunState}
    (h : (finishWave ctx w wave (state, s)).phase = some .succeeded) :
    state = .successful ∧ wave.remainingTasks = [] ∧ wave.tasks.any SyncTask.isHook = false ∧
      finishWave ctx w wave (state, s) = (deleteHooks ctx w wave.hooksPendingDeletionSuccessful s).setOperationPhase
        .succeeded "successfully synced (all tasks run)" := by
  cases state with
  | failed => exact absurd h waveFailed_phase
  | pending => cases setRunningPhase_phase.symm.trans h
  | successful =>
    unfold finishWave waveSuccessful at h ⊢
    split_ifs at h ⊢ with hl
    · simp only [Bool.and_eq_true, decide_eq_true_eq, Bool.not_eq_true'] at hl
      exact ⟨rfl, hl.1, hl.2, rfl⟩
    · cases setRunningPhase_phase.symm.trans h

/-- the call ends with success, and the deletion of hooks that are done -/
def EndsHonest (ctx : Ctx) (w : World) (tasks : List SyncTask) (s0 s' : St) : Prop :=
  ∃ s hooks message, (∀ t ∈ regularTasks tasks, Honest ctx tasks s0 s t) ∧
    (∀ u ∈ hooks, u ∈ tasks ∧ u.isHook = true) ∧
    s' = (deleteHooks ctx w hooks s).setOperationPhase .succeeded message

theorem hooksPendingDeletion_subset (ht : t ∈ hooksPendingDeletionSuccessful tasks s) :
    t ∈ tasks ∧ t.isHook = true := by
  obtain ⟨ht, hh⟩ := mem_filter.1 ht
  simp only [Bool.and_eq_true] at hh
  exact ⟨ht, hh.1.1⟩

section

variable (hn : (tasks.map SyncTask.ptr).Nodup)

include hn

theorem runWave_decided (hready : Ready ctx tasks s0 s)
    (hok : (regularTasks tasks).any (isUnsuccessful s) = false) {first : SyncTask} {final : Bool}
    (h : (runWave ctx w (nextWave tasks (pendingTasks ctx tasks s) s first) first final s).phase = some .succeeded) :
    EndsHonest ctx w tasks s0 (runWave ctx w (nextWave tasks (pendingTasks ctx tasks s) s first) first final s) := by
  unfold runWave at h ⊢
  dsimp only at h ⊢
  generalize hr : runTasks ctx w (nextWave tasks (pendingTasks ctx tasks s) s first).tasks false
    (s.setOperationPhase .running "one or more tasks are running") = r at h ⊢
  obtain ⟨state, s2⟩ := r
  have hd : ∀ s3, s3.syncRes = s2.syncRes → s2.log <:+ s3.log →
      (finishWave ctx w (nextWave tasks (pendingTasks ctx tasks s) s first) (state, s3)).phase = some .succeeded →
      EndsHonest ctx w tasks s0 (finishWave ctx w (nextWave tasks (pendingTasks ctx tasks s) s first) (state, s3)) := by
    intro s3 hres hl hp
    obtain ⟨rfl, hre, hho, heq⟩ := finishWave_succeeded hp
    have hd := decided_allTasksRun hn hready hok rfl hr hre hho
    exact ⟨s3, _, _, fun t ht => (hd.honest ht).congr (by rw [hres]) hl, fun _ => hooksPendingDeletion_subset, heq⟩
  split_ifs at h ⊢
  · split at h
    · exact hd _ rfl (suffix_cons _ _) h
    · cases h
  · exact hd _ rfl (suffix_refl _) h

theorem proceed_decided (hready : Ready ctx tasks s0 s)
    (h : (proceed ctx w tasks s).phase = some .succeeded) : EndsHonest ctx w tasks s0 (proceed ctx w tasks s) := by
  unfold proceed at h ⊢
  split_ifs at h ⊢ with hf
  · exact absurd h executeSyncFailPhase_phase
  simp only [Bool.not_eq_true] at hf
  dsimp only at h ⊢
  split at h
  · rename_i hno
    have hd := decided_noMoreTasks hn hready hf hno
    exact ⟨_, _, _, fun _ => hd.honest, fun _ => hooksPendingDeletion_subset, rfl⟩
  · exact runWave_decided hn hready hf h

theorem advance_decided (hv : Validated ctx tasks s0 s)
    (h : (advance ctx w tasks s).phase = some .succeeded) : EndsHonest ctx w tasks s0 (advance ctx w tasks s) := by
  unfold advance at h ⊢
  dsimp only at h ⊢
  split_ifs at h ⊢ with ha hp
  · cases setRunningPhase_phase.symm.trans h
  · cases setRunningPhase_phase.symm.trans h
  · simp only [ne_eq, not_not] at ha
    exact proceed_decided hn (ready hn hv ha) h

omit hn in
theorem EndsHonest.honest (h : EndsHonest ctx w tasks s0 s) (ht : t ∈ regularTasks tasks)
    (hde : ¬DeleteRefused tasks s.log t.resultKey) : Honest ctx tasks s0 s t := by
  obtain ⟨s1, hooks, message, hh, hho, rfl⟩ := h
  have hd : Does _ _ (fun _ => False) s1 (deleteHooks ctx w hooks s1) := deleteHooks_does hho
  refine (hh t ht).congr (deleteHooks_result fun u hu hk e he hf => ?_) hd.log_suffix
  exact hde ⟨u, (hho u hu).1, (hho u hu).2, hk, e, he, hf⟩

/-! ## Failures stay -/

/-- a task that has failed stays so, and the operation does not succeed -/
theorem advance_unsuccessful (ht : t ∈ regularTasks tasks)
    (hf : (s.task t).operationState = some .failed ∨ (s.task t).operationState = some .error) :
    (advance ctx w tasks s).phase ≠ some .succeeded := by
  set P : Option OperationPhase → Prop := fun state => state = some .failed ∨ state = some .error with hP
  have hu : P ((updateRunningTasks w tasks s).task t).operationState := by
    refine (updateRunningTasks_does (L := fun _ => False) hn).operationState_inv P hf ?_
    intro s u status state hp hs hr
    have hru := hr.2.1
    rw [← task_congr hp] at hru
    rcases hs with hs | hs <;> simp [TaskState.running, hs] at hru
  have hfi : P ((removeCompletedFinalizers w tasks (updateRunningTasks w tasks s)).task t).operationState :=
    (removeCompletedFinalizers_does hn).operationState_inv P hu fun _ _ _ _ _ _ hr => .inr hr.2.2
  have ha : (regularTasks tasks).any
      (isUnsuccessful (removeCompletedFinalizers w tasks (updateRunningTasks w tasks s))) = true := by
    refine any_eq_true.2 ⟨t, ht, ?_⟩
    rcases hfi with h | h <;>
      simp [isUnsuccessful, TaskState.completed, TaskState.successful, h, OperationPhase.completed]
  unfold advance
  dsimp only
  split_ifs
  · rw [setRunningPhase_phase]
    decide
  · rw [setRunningPhase_phase]
    decide
  · unfold proceed
    rw [if_pos ha]
    exact executeSyncFailPhase_phase

end

/-- the task is recorded as failed -/
def RecordedFailed (results : Results) (t : SyncTask) : Prop :=
  ∃ r ∈ results.get? t.resultKey, r.hookPhase = some .failed ∨ r.hookPhase = some .error

instance (results : Results) (t : SyncTask) : Decidable (RecordedFailed results t) := by
  unfold RecordedFailed
  infer_instance

/-- a plan whose checks pass keeps failures on record -/
theorem getSyncTasks_failed (hok : (getSyncTasks ctx w s).successful = true) (h : RecordedFailed s.syncRes t) :
    RecordedFailed (getSyncTasks ctx w s).s.syncRes t := by
  rw [getSyncTasks_copied.syncRes]
  exact (planTasks_failures hok).record_inv (fun state => state = some .failed ∨ state = some .error) t.resultKey h
    fun _ _ _ _ _ hr => .inr hr.2

/-- **Success is honest.** In every call of every operation, whatever the cluster answers: success means that each
regular task is not recorded as failed, that a hook is recorded as succeeded, and another task too, or it was applied without
failure or left out; only a task with the key of a hook whose deletion was refused is excepted. And there is no success once
a regular task is recorded as failed. -/
theorem success_honest {o : OperationState} (ho : Reached o) (ctx : Ctx) (w : World) :
    ((sync ctx w (restore o)).phase = some .succeeded → ∀ t ∈ regularTasks (getSyncTasks ctx w (restore o)).tasks,
      ¬DeleteRefused (getSyncTasks ctx w (restore o)).tasks (sync ctx w (restore o)).log t.resultKey →
      Honest ctx (getSyncTasks ctx w (restore o)).tasks (getSyncTasks ctx w (restore o)).s (sync ctx w (restore o)) t) ∧
    ((getSyncTasks ctx w (restore o)).successful = true →
      (∃ t ∈ regularTasks (getSyncTasks ctx w (restore o)).tasks, RecordedFailed (restore o).syncRes t) →
      (sync ctx w (restore o)).phase ≠ some .succeeded) := by
  set p := getSyncTasks ctx w (restore o) with hp
  have hn : (p.tasks.map SyncTask.ptr).Nodup := getSyncTasks_nodup
  have ha : ∀ t ∈ p.tasks, Agrees p.s t := getSyncTasks_agrees (restore_fresh o)
  have hsa : SaneResults p.s := getSyncTasks_sane (reached_sane ho)
  refine ⟨fun hph t ht hd => ?_, fun hok ⟨t, ht, hf⟩ => ?_⟩
  · cases hok : p.successful with
    | false =>
      rw [sync_of_invalid hok] at hph
      cases hph
    | true =>
      cases hv : validate ctx w p.tasks p.s with
      | stop s' =>
        rw [sync_of_stop hok hv] at hph
        cases (validate_stop_phase hv).symm.trans hph
      | go s' =>
        rw [sync_of_go hok hv] at hph hd ⊢
        exact (advance_decided hn (validate_go hn ha hsa hv) hph).honest ht hd
  · obtain ⟨r, hr, hs⟩ := getSyncTasks_failed hok hf
    rw [← (ha t (mem_regularTasks.1 ht).1).state r hr] at hs
    have hgo : validate ctx w p.tasks p.s = .go p.s := if_pos (started_of_get? hr)
    rw [sync_of_go hok hgo]
    exact advance_unsuccessful hn ht hs

/-! ## Three successes -/

/-- a hook that is deleted when it has succeeded: the first call creates it, the second one finds it -/
def deletedHook (live : List Reconciled) : Ctx := plainCtx live [migrateHook "HookSucceeded" []]

def hookCreated (w : World) : OperationState := getState (sync (deletedHook []) w (restore newOperation))

def hookDone (w : World) : St :=
  sync (deletedHook [.extra (migrateHook "HookSucceeded" [])]) w (restore (hookCreated w))

/-- the plan of the second call -/
def donePlan : Planned :=
  getSyncTasks (deletedHook [.extra (migrateHook "HookSucceeded" [])]) calmWorld (restore (hookCreated calmWorld))

/-- deletions are refused -/
def refusingWorld : World := { calmWorld with delete := fun _ _ => some ⟨.other, "refused"⟩ }

/-- a dry run of a target whose kind is not known yet -/
def missingKind : Ctx :=
  { plainCtx [.missing (configMap "map" [])] [] with dryRun := true, skipDryRunOnMissingResource := true }

def unknownWorld : World := { calmWorld with discover := fun _ _ _ => some ⟨.notFound, "unknown kind"⟩ }

/-- a hook of failure, and nothing else -/
def failureHook : Ctx := plainCtx [] [configMap "report" [(annotationKeyHook, "SyncFail")]]

/-- the operation has succeeded, but the hook that could not be deleted is recorded with an error; and the target of the dry
run and the hook of failure are tasks without record -/
theorem dishonest_success :
    ((hookDone refusingWorld).phase = some .succeeded ∧
      (hookDone refusingWorld).syncRes.values.map (fun r => (r.hookType, r.hookPhase)) = [(some .preSync, some .error)]) ∧
    ((sync missingKind unknownWorld (restore newOperation)).phase = some .succeeded ∧
      (sync missingKind unknownWorld (restore newOperation)).syncRes.values = [] ∧
      (getSyncTasks missingKind unknownWorld (restore newOperation)).tasks.map SyncTask.phase = [.sync]) ∧
    ((sync failureHook calmWorld (restore newOperation)).phase = some .succeeded ∧
      (sync failureHook calmWorld (restore newOperation)).syncRes.values = [] ∧
      (getSyncTasks failureHook calmWorld (restore newOperation)).tasks.map SyncTask.isHook = [true]) := by
  decide +kernel

/-- the deletion of the hook is accepted; and no success once a target was refused -/
theorem success_honest_hook_deleted :
    (hookDone calmWorld).phase = some .succeeded ∧
    (∀ t ∈ regularTasks donePlan.tasks,
      Honest (deletedHook [.extra (migrateHook "HookSucceeded" [])]) donePlan.tasks donePlan.s (hookDone calmWorld) t) ∧
    (sync (plainCtx [.missing (configMap "map" [])] []) calmWorld
      (restore (getState (sync (plainCtx [.missing (configMap "map" [])] [])
        { calmWorld with apply := fun _ _ _ => .error ⟨.other, "refused"⟩ } (restore newOperation))))).phase ≠
          some .succeeded := by
  have hc : Reached (hookCreated calmWorld) := .sync .start _ _
  have hp : (hookDone calmWorld).phase = some .succeeded := by decide +kernel
  have hd : ∀ t ∈ donePlan.tasks, ¬DeleteRefused donePlan.tasks (hookDone calmWorld).log t.resultKey := by
    decide +kernel
  refine ⟨hp, fun t ht => (success_honest hc _ _).1 hp t ht (hd t (mem_regularTasks.1 ht).1), ?_⟩
  exact (success_honest (.sync .start _ _) _ _).2 (by decide +kernel) (by decide +kernel)

end GitOpsDeploy.Sync

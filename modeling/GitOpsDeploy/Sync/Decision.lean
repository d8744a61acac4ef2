/-
The state in which `Sync` decides between failure, success and the next wave.

`Ready` says what holds there. The results are booked, hooks are not running, and of the three ways to get there each leaves
its mark: either the tasks are settled, or this is the first call and it has just created the namespace, or it is the first
call of a dry-run operation.

- `sync_sane`: results stay sane in every call.
-/
import GitOpsDeploy.Sync.Bookkeeping

namespace GitOpsDeploy.Sync

open List

variable {ctx : Ctx} {w : World} {s s' s0 : St} {tasks : List SyncTask} {t u : SyncTask} {C : CallSet} {R : ResultSet}
  {L : SyncTask → Prop}

/-! ## After validation -/

/-- how a call stands with respect to its results -/
inductive Standing (ctx : Ctx) (tasks : List SyncTask) (s0 s : St) : Prop
  | settled (h : Settled tasks s)
  /-- the first call has created the namespace, nothing else -/
  | created (hstart : s0.started = false) (hctx : ctx.dryRun = false)
      (h : ∀ t ∈ tasks, (s.task t).operationState = none ∨
        ((s.task t).operationState = some .running ∧ s.liveObj t = none))
      (hns : ∃ t ∈ tasks, (s.task t).operationState = some .running)
  /-- the first call of a dry-run operation -/
  | dry (hstart : s0.started = false) (hctx : ctx.dryRun = true)
      (h : ∀ t ∈ tasks, (s.task t).operationState ≠ some .running)

structure Validated (ctx : Ctx) (tasks : List SyncTask) (s0 s : St) : Prop where
  booked : Booked tasks s
  live : ∀ t ∈ tasks, s.liveObj t = s0.liveObj t
  standing : Standing ctx tasks s0 s

theorem unstarted_state (hs : s.started = false) (h : Agrees s t) : (s.task t).operationState = none := by
  have hn : s.syncRes.get? t.resultKey = none := by
    cases hr : s.syncRes.get? t.resultKey with
    | none => rfl
    | some r => cases hs.symm.trans (started_of_get? hr)
  rcases h.unrecorded hn with h | h
  · exact h
  · cases hs.symm.trans h.2

variable {T : SyncTask → Prop} {state : Option OperationPhase} {status : Option ResultCode}

theorem runResult_sane {dryRun : Bool}
    (hT : ∀ t, T t → t ∈ tasks) (h : runResult ctx dryRun T s t status state) : t ∈ tasks ∧ IsSane status state :=
  ⟨hT t h.1, h.2.1⟩

/-- in a dry-run operation nothing starts to run -/
theorem Does.not_running {dryRun : Bool} (h : Does C (runResult ctx dryRun T) L s s')
    (hc : ctx.dryRun = true) (hs : ∀ t ∈ tasks, (s.task t).operationState ≠ some .running) :
    ∀ t ∈ tasks, (s'.task t).operationState ≠ some .running :=
  fun t ht => h.operationState_inv (· ≠ some .running) (hs t ht) fun _ _ _ _ _ _ hr => hr.2.2.2 (.inl hc)

/-- the namespace's task: nothing is there to be pruned, deleted or taken a finalizer off -/
theorem namespace_missing {ns : SyncTask} (h : getNamespaceCreationTask ctx s tasks = some ns) :
    ns ∈ tasks ∧ ns.isPrune = false ∧ s.liveObj ns = none := by
  have hp := List.find?_some h
  simp only [Bool.and_eq_true, Option.isNone_iff_eq_none] at hp
  refine ⟨List.mem_of_find?_eq_some h, ?_, hp.1⟩
  cases ht : ns.targetObj with
  | none => simp [ht] at hp
  | some target => simp [SyncTask.isPrune, ht]

theorem mem_filterOutOfSyncTasks (h : t ∈ filterOutOfSyncTasks ctx s tasks) : t ∈ tasks := by
  unfold filterOutOfSyncTasks at h
  split_ifs at h
  · exact (mem_filter.1 h).1
  · exact h

theorem validateTasks_go {ts : List SyncTask} (hn : (tasks.map SyncTask.ptr).Nodup) (hts : ∀ t ∈ ts, t ∈ tasks)
    (hb : Booked tasks s) (h : validateTasks ctx w ts s = .go s') :
    Booked tasks s' ∧ (∀ t, s'.liveObj t = s.liveObj t) ∧
      (ctx.dryRun = false → s'.syncRes = s.syncRes ∧ ∀ t, s'.task t = s.task t) ∧
      (ctx.dryRun = true → (∀ t ∈ tasks, (s.task t).operationState ≠ some .running) →
        ∀ t ∈ tasks, (s'.task t).operationState ≠ some .running) := by
  unfold validateTasks at h
  dsimp only at h
  split_ifs at h with hf
  cases h
  have hd : Does (callsOf (runKinds true) (· ∈ tasks)) (runResult ctx true (· ∈ tasks)) (fun _ => False) s
      (runTasks ctx w (filterOutOfSyncTasks ctx s ts) true s).2 := by
    refine (runTasks_does (Bool.true_or _) fun t ht => hts t (mem_filterOutOfSyncTasks ht)).weaken (fun _ h => h)
      (fun _ _ _ _ h => h) fun _ h => ?_
    cases h.2
  refine ⟨hd.booked hn hb fun _ _ _ _ _ => runResult_sane fun _ h => h, hd.liveObj_eq, fun hc => ?_,
    fun hc => hd.not_running hc⟩
  have hq := runTasks_validating_does hc hf
  refine ⟨?_, fun t => does_task_eq hq⟩
  exact hq.syncRes_eq

theorem Settled.of_unstarted (hs : s.started = false) (h : ∀ t ∈ tasks, (s.task t).operationState = none) :
    Settled tasks s := by
  refine ⟨fun t _ u hu _ _ => .inl (h u hu), fun t _ r hr => ?_⟩
  cases hs.symm.trans (started_of_get? hr)

/-- **What validation leaves behind** when the call goes on. -/
theorem validate_go (hn : (tasks.map SyncTask.ptr).Nodup) (ha : ∀ t ∈ tasks, Agrees s t) (hsa : SaneResults s)
    (h : validate ctx w tasks s = .go s') : Validated ctx tasks s s' := by
  have hb : Booked tasks s := booked_of_agrees hsa ha
  unfold validate at h
  split_ifs at h with hs
  · cases h
    exact ⟨hb, fun _ _ => rfl, .settled (settled_of_agrees ha)⟩
  simp only [Bool.not_eq_true] at hs
  have hp : ∀ t ∈ tasks, (s.task t).operationState = none := fun t ht => unstarted_state hs (ha t ht)
  have hi : ∀ t ∈ tasks, (s.task t).operationState ≠ some .running := fun t ht hrun =>
    nomatch (hp t ht).symm.trans hrun
  split at h
  · obtain ⟨hb', hl, hw, hd⟩ := validateTasks_go hn (fun _ h => h) hb h
    refine ⟨hb', fun t _ => hl t, ?_⟩
    cases hc : ctx.dryRun with
    | true => exact .dry hs hc (hd hc hi)
    | false =>
      obtain ⟨hre, hta⟩ := hw hc
      refine .settled (Settled.of_unstarted ?_ fun t ht => ?_)
      · unfold St.started at hs ⊢
        rw [hre]
        exact hs
      · rw [hta]
        exact hp t ht
  · next ns hns =>
    dsimp only at h
    split_ifs at h with hf
    obtain ⟨hme, hpr, hm⟩ := namespace_missing hns
    have hcr : runTasks ctx w [ns] false s = createTasks ctx w ctx.dryRun [ns] s := by
      refine (runTasks_missing fun t ht => ?_).trans (by rw [Bool.false_or])
      rw [mem_singleton.1 ht]
      exact ⟨hpr, hm⟩
    rw [hcr] at h hf
    have hru : Does (callsOf (createKinds ctx.dryRun) (· = ns)) (runResult ctx ctx.dryRun (· = ns)) (fun _ => False) s
        (createTasks ctx w ctx.dryRun [ns] s).2 := createTasks_does fun t ht => mem_singleton.1 ht
    have hb1 : Booked tasks (createTasks ctx w ctx.dryRun [ns] s).2 :=
      hru.booked hn hb fun _ _ _ _ _ => runResult_sane fun _ h => h ▸ hme
    obtain ⟨hb', hl, hw, hd⟩ := validateTasks_go hn (fun t ht => (mem_filter.1 ht).1) hb1 h
    refine ⟨hb', fun t _ => (hl t).trans (hru.liveObj_eq t), ?_⟩
    cases hc : ctx.dryRun with
    | true => exact .dry hs hc (hd hc (hru.not_running hc hi))
    | false =>
      obtain ⟨hre, hta⟩ := hw hc
      have hsu := RunState.successful_of_ne createTasks_ne_pending hf
      have hrun : (s'.task ns).operationState = some .running := by
        rw [hta, createTasks_phase (.inl hc) hsu mem_cons_self ⟨hpr, fun h => nomatch hc.symm.trans h⟩]
        simp [appliedPhase, hc, ResultCode.operationPhase]
      refine .created hs hc (fun t ht => ?_) ⟨ns, hme, hrun⟩
      by_cases hne : t = ns
      · rw [hne]
        exact .inr ⟨hrun, ((hl ns).trans (hru.liveObj_eq ns)).trans hm⟩
      · rw [hta, hru.task_eq t (fun _ _ _ _ hr => hr.1 ▸ ptr_ne hn ht hme hne) fun _ h => h.elim]
        exact .inl (hp t ht)

/-! ## Ready to decide -/

structure Ready (ctx : Ctx) (tasks : List SyncTask) (s0 s : St) : Prop where
  booked : Booked tasks s
  standing : Standing ctx tasks s0 s
  /-- live objects of resources are as they were read -/
  live : ∀ t ∈ tasks, t.isHook = false → s.liveObj t = s0.liveObj t
  /-- no hook is running, and no task at all when there are several steps -/
  waited : ∀ t ∈ tasks, multiStep tasks = true ∨ t.isHook = true → (s.task t).operationState ≠ some .running

theorem updateResult_sane (hb : Booked tasks s)
    (h : updateResult (· ∈ tasks) s t status state) : t ∈ tasks ∧ IsSane status state := by
  obtain ⟨ht, hr, rfl, phase, rfl, hne, -⟩ := h
  exact ⟨ht, phase, rfl, hne, fun _ => (hb.cell t ht).2 (by simpa [TaskState.running] using hr)⟩

theorem updateResult_settles (h : updateResult (· ∈ tasks) s t status state) : Settles tasks s t state := by
  obtain ⟨ht, hr, -, phase, rfl, hne, hh⟩ := h
  have hs : (s.task t).operationState = some .running := by simpa [TaskState.running] using hr
  refine ⟨ht, by simp [hs], fun he => (nomatch hs.symm.trans he), phase, rfl, ?_⟩
  cases phase with
  | running => exact .inr ⟨rfl, hh rfl⟩
  | terminating => exact absurd rfl hne
  | _ => exact .inl rfl

theorem finalizerResult_sane
    (h : finalizerResult (HookIn tasks) s t status state) : t ∈ tasks ∧ IsSane status state := by
  obtain ⟨ht, -, rfl⟩ := h
  exact ⟨ht.1, isSane_error status⟩

theorem finalizerResult_settles (h : finalizerResult (HookIn tasks) s t status state) : Settles tasks s t state := by
  obtain ⟨ht, hc, rfl⟩ := h
  refine ⟨ht.1, fun hn => ?_, fun _ => rfl, .error, rfl, .inl rfl⟩
  simp [TaskState.completed, hn] at hc

/-- taking finalizers off lets nothing run -/
theorem Does.running_back (h : Does C (finalizerResult T) L s s')
    (hru : (s'.task t).operationState = some .running) : (s.task t).operationState = some .running := by
  refine h.operationState_inv (fun state => state = some .running → (s.task t).operationState = some .running)
    (fun h => h) (fun _ _ _ _ _ _ hr hru => ?_) hru
  cases hr.2.2.symm.trans hru

theorem updateRunningTasks_idle (h : ∀ t ∈ tasks, (s.task t).operationState = some .running → s.liveObj t = none) :
    updateRunningTasks w tasks s = s := by
  have hn : (tasks.filter fun t => (s.task t).running && (s.liveObj t).isSome) = [] := by
    refine filter_eq_nil_iff.2 fun t ht hp => ?_
    simp only [Bool.and_eq_true, TaskState.running, decide_eq_true_eq] at hp
    rw [h t ht hp.1] at hp
    cases hp.2
  unfold updateRunningTasks
  rw [hn]
  rfl

theorem awaitedTasks_idle (h : ∀ t ∈ tasks, (s.task t).operationState ≠ some .running) :
    awaitedTasks tasks s = [] := by
  refine filter_eq_nil_iff.2 fun t ht hp => ?_
  simp only [TaskState.running, Bool.and_eq_true, decide_eq_true_eq] at hp
  exact h t ht hp.2

theorem removeCompletedFinalizers_idle (h : ∀ t ∈ tasks, (s.task t).completed = false) :
    removeCompletedFinalizers w tasks s = s := by
  have hn : (tasks.filter fun t => t.isHook && (s.task t).completed) = [] := by
    refine filter_eq_nil_iff.2 fun t ht hp => ?_
    rw [h t ht, Bool.and_false] at hp
    cases hp
  unfold removeCompletedFinalizers
  rw [hn]
  rfl

theorem terminateHooksPreemptively_idle {ts : List SyncTask}
    (h : ∀ t ∈ ts, (s.task t).operationState ≠ some .running) : terminateHooksPreemptively ctx w ts s = (true, s) := by
  refine foldlRecOn (motive := (· = (true, s))) _ _ rfl fun p hp t ht => ?_
  rw [hp]
  simp [terminateHook, TaskState.running, h t ht]

theorem ready (hn : (tasks.map SyncTask.ptr).Nodup) (hv : Validated ctx tasks s0 s)
    (ha : awaitedTasks tasks (updateRunningTasks w tasks s) = []) :
    Ready ctx tasks s0 (removeCompletedFinalizers w tasks (updateRunningTasks w tasks s)) := by
  have hup : Does (callsOf [.health] fun _ => False) (updateResult (· ∈ tasks)) (fun _ => False) s
      (updateRunningTasks w tasks s) := updateRunningTasks_does hn
  have hf := removeCompletedFinalizers_does (w := w) (s := updateRunningTasks w tasks s) hn
  refine ⟨?_, ?_, fun t ht hh => ?_, fun t ht hk hru => ?_⟩
  · have hb := hup.booked hn hv.booked fun _ _ _ _ hb h => updateResult_sane hb h
    exact hf.booked hn hb fun _ _ _ _ _ h => finalizerResult_sane h
  · cases hv.standing with
    | settled hs =>
      have hs2 := hup.settled hn hs fun _ _ _ _ h => updateResult_settles h
      exact .settled (hf.settled hn hs2 fun _ _ _ _ h => finalizerResult_settles h)
    | created hst hc h hns =>
      rw [updateRunningTasks_idle fun t ht hru => ?_, removeCompletedFinalizers_idle fun t ht => ?_]
      · exact .created hst hc h hns
      · rcases h t ht with h | h
        · simp [TaskState.completed, h]
        · simp [TaskState.completed, h.1, OperationPhase.completed]
      · rcases h t ht with h | h
        · cases h.symm.trans hru
        · exact h.2
    | dry hst hc h =>
      have hi : updateRunningTasks w tasks s = s := updateRunningTasks_idle fun t ht hru => absurd hru (h t ht)
      rw [hi] at hf ⊢
      exact .dry hst hc fun t ht hru => h t ht (hf.running_back hru)
  · have hne : ∀ u, HookIn tasks u → t.ptr ≠ u.ptr := fun u hu =>
      ptr_ne hn ht hu.1 fun htu => by simp [htu, hu.2] at hh
    have hta := hf.task_eq t (fun _ u _ _ hr => hne u hr.1) hne
    exact ((congrArg TaskState.liveObj hta).trans (hup.liveObj_eq t)).trans (hv.live t ht)
  · have hrun2 := hf.running_back hru
    have hm : t ∈ awaitedTasks tasks (updateRunningTasks w tasks s) := by
      refine mem_filter.2 ⟨ht, ?_⟩
      rcases hk with h | h <;> simp [h, TaskState.running, hrun2]
    rw [ha] at hm
    cases hm

end GitOpsDeploy.Sync

/-
Validation before the first change: nothing is applied or pruned before every target was applied as a dry run.

A call without results validates all tasks first. Two things make it go on without: the dry run stops before any apply when
pruning waits for a confirmation, and a namespace that could not be created counts as a result. What a call must meet so
that neither leads to an unvalidated change is `Meets`.
-/
import GitOpsDeploy.Sync.DryRun

namespace GitOpsDeploy.Sync

open List

variable {ctx : Ctx} {w : World} {s s' : St} {tasks : List SyncTask} {t : SyncTask} {C : CallSet} {R : ResultSet}
  {L : SyncTask → Prop}

/-! ## Calls of an operation -/

structure SyncCall where
  ctx : Ctx
  w : World
  before : OperationState

namespace SyncCall

def planned (c : SyncCall) : Planned := getSyncTasks c.ctx c.w (restore c.before)

def after (c : SyncCall) : St := sync c.ctx c.w (restore c.before)

/-- a task that validation passes over: marked so, left out as unmodified, or the namespace that is created first -/
def Passes (c : SyncCall) (t : SyncTask) : Prop :=
  t.skipDryRun = true ∨ (c.ctx.applyOutOfSyncOnly = true ∧ isUnmodified c.ctx c.planned.s t = true) ∨
    EarlyNamespace c.ctx c.planned t

/-- every other task that creates was applied as a dry run, and the cluster accepted it -/
def ValidatedBy (c : SyncCall) (events : List Event) : Prop :=
  ∀ t ∈ c.planned.tasks, t.isPrune = false → ¬ c.Passes t →
    ∃ e ∈ events, ∃ request message, e.call = .apply t request .client (.ok message)

end SyncCall

theorem SyncCall.ValidatedBy.mono {c : SyncCall} {events events' : List Event} (h : c.ValidatedBy events)
    (hs : events ⊆ events') : c.ValidatedBy events' := by
  intro t ht hc hp
  obtain ⟨e, he, ha⟩ := h t ht hc hp
  exact ⟨e, hs he, ha⟩

/-- the targets that the context's resources and hooks are to be applied with -/
def Ctx.Creates (ctx : Ctx) (target : Obj) : Prop :=
  (∃ r ∈ ctx.resources, ctx.containsResource r = true ∧ isHook r.obj = false ∧ skipHook r.obj = false ∧
    r.target.map ctx.inNamespace = some target) ∨
  (ctx.skipHooks = false ∧ ∃ obj ∈ ctx.hooks, ∃ phase ∈ syncPhases obj,
    target = ctx.inNamespace (ctx.hookTarget obj phase))

theorem Ctx.Creates.covered {target : Obj} (h : ctx.Creates target) :
    ∃ t ∈ (getSyncTasks ctx w s).tasks, t.targetObj = some target := by
  have hdr : ∃ d ∈ ctx.drafts w s, d.subject = .create target := by
    rcases h with ⟨r, hr, hc, hh, hs, hta⟩ | ⟨hs, obj, ho, phase, hp, rfl⟩
    · refine ⟨ctx.withNamespace ⟨.sync, r.subject, r.liveObj⟩, mem_map_of_mem (mem_append_left _ ?_), ?_⟩
      · refine mem_flatMap.2 ⟨r, mem_filter.2 ⟨(w.resourceOrder_perm _ _ _).mem_iff.2 hr, ?_⟩, ?_⟩
        · simp [hc, hh]
        · simp [syncPhases, hs, hh]
      · cases r with
        | extra x => cases hta
        | _ => exact congrArg Subject.create (Option.some.inj hta)
    · refine ⟨ctx.withNamespace ⟨phase, .create (ctx.hookTarget obj phase), none⟩,
        mem_map_of_mem (mem_append_right _ ?_), rfl⟩
      unfold Ctx.hookTasks
      rw [hs]
      exact mem_flatMap.2 ⟨obj, ho, mem_map_of_mem hp⟩
  obtain ⟨d, hd, hcr⟩ := hdr
  obtain ⟨t, ht, hsu⟩ := getSyncTasks_covers (w := w) (s := s) hd
  refine ⟨t, ht, ?_⟩
  unfold SyncTask.targetObj
  rw [hsu, hcr]

/-! ## Waiting for a confirmation -/

/-- pruning waits for a confirmation -/
def awaitsConfirmation (ctx : Ctx) (tasks : List SyncTask) : Bool :=
  !ctx.pruneConfirmed && tasks.any (requiresPruneConfirmation ctx)

theorem awaitsConfirmation_of {tasks' : List SyncTask}
    (hs : ∀ u ∈ tasks, requiresPruneConfirmation ctx u = true → u ∈ tasks')
      (h : awaitsConfirmation ctx tasks = true) :
    awaitsConfirmation ctx tasks' = true := by
  simp only [awaitsConfirmation, Bool.and_eq_true, any_eq_true] at h ⊢
  obtain ⟨hm, u, hu, hr⟩ := h
  exact ⟨hm, u, hs u hu hr, hr⟩

theorem awaitsConfirmation_subset {tasks' : List SyncTask} (hs : ∀ u ∈ tasks, u ∈ tasks')
    (h : awaitsConfirmation ctx tasks' = false) : awaitsConfirmation ctx tasks = false := by
  rw [Bool.eq_false_iff] at h ⊢
  exact fun ht => h (awaitsConfirmation_of (fun u hu _ => hs u hu) ht)

/-- the first wave waits for the confirmation, and nothing that may fail comes before -/
structure OnlyWaits (ctx : Ctx) (p : Planned) (first : SyncTask) : Prop where
  noNamespace : getNamespaceCreationTask ctx p.s p.tasks = none
  head : (pendingTasks ctx p.tasks p.s).head? = some first
  waits : awaitsConfirmation ctx ((pendingTasks ctx p.tasks p.s).filter (inWaveOf first)) = true
  quiet : syncFailTasks p.tasks = [] ∨
    ∀ t ∈ pendingTasks ctx p.tasks p.s, inWaveOf first t = true → isExistingHook p.s t = false

/-- an event that deploys nothing -/
def Event.Quiet (e : Event) : Prop := ∀ t, ¬ e.call.Deploys t

theorem Does.logs_quiet {kinds : List CallKind} {T : SyncTask → Prop} (h : Does (callsOf kinds T) R L s s')
    (hk : .apply .none ∉ kinds ∧ .prune ∉ kinds) : Logs Event.Quiet s s' :=
  h.logs fun _ hc _ => not_deploys hc hk

/-- nothing is deployed, and nothing is recorded unless the operation is over -/
structure Undeployed (s s' : St) : Prop where
  logs : Logs Event.Quiet s s'
  results : s'.syncRes = s.syncRes ∨ s'.phase.any OperationPhase.completed = true

/-- errors of the hooks whose finalizer stays -/
def errorResult (T : SyncTask → Prop) : ResultSet := fun _ t _ state => T t ∧ state = some .error

variable {dryRun : Bool}

theorem removeOldFinalizer_errors {state : RunState} {T : SyncTask → Prop} (ht : T t) :
    Does (callsOf finalizerKinds T) (errorResult T) T s (removeOldFinalizer w dryRun state t s).2 := by
  unfold removeOldFinalizer
  split_ifs
  · exact .refl
  · have hr : Does (callsOf finalizerKinds T) (errorResult T) T s (removeHookFinalizer w s t).2 :=
      removeHookFinalizer_does (callsOf_le (List.Subset.refl _) fun u hu => hu ▸ ht) ht
    dsimp only
    split
    · exact hr
    · exact hr.setResult ⟨ht, rfl⟩

theorem removeOldFinalizers_errors : Does (callsOf finalizerKinds (· ∈ tasks)) (errorResult (· ∈ tasks))
    (· ∈ tasks) s (removeOldFinalizers w dryRun tasks s).2 :=
  goAll_does fun _ _ ht _ => removeOldFinalizer_errors (mem_of_taskOrder_filter ht).1

/-- successful removals record nothing -/
theorem removeOldFinalizers_successful (h : (removeOldFinalizers w dryRun tasks s).1 = .successful) :
    (removeOldFinalizers w dryRun tasks s).2.syncRes = s.syncRes := by
  refine (goAll_keeps (K := fun s' => s'.syncRes = s.syncRes) (fun s' t _ hsu hs' => ?_) h).2 rfl
  have hr : (removeHookFinalizer w s' t).2.syncRes = s'.syncRes :=
    Does.syncRes_eq (removeHookFinalizer_does (C := fun _ => True) (L := fun _ => True) (fun _ _ => trivial) trivial)
  unfold removeOldFinalizer at hsu ⊢
  split_ifs at hsu ⊢
  · exact hs'
  · dsimp only at hsu ⊢
    split at hsu
    · exact hr.trans hs'
    · cases hsu

theorem removeOldFinalizers_none (h : ∀ t ∈ tasks, isExistingHook s t = false) :
    removeOldFinalizers w dryRun tasks s = (.successful, s) := by
  refine goAll_trivial fun s' t ht => ?_
  obtain ⟨ht, he⟩ := mem_of_taskOrder_filter ht
  cases (h t ht).symm.trans he

theorem runTasks_unconfirmed {dry : Bool} (h : awaitsConfirmation ctx tasks = true) : runTasks ctx w tasks dry s =
      RunState.andThen (removeOldFinalizers w (dry || ctx.dryRun) tasks s) fun s => (.pending, s) := by
  unfold awaitsConfirmation at h
  unfold runTasks
  simp only [h, if_true]

theorem setRunningPhase_syncRes {deletion : Bool} : (setRunningPhase ctx tasks deletion s).syncRes = s.syncRes := by
  unfold setRunningPhase
  split <;> rfl

theorem setRunningPhase_quiet {deletion : Bool} : Logs Event.Quiet s (setRunningPhase ctx tasks deletion s) :=
  Does.logs (C := fun _ => False) (R := noResult) (L := fun _ => False) setRunningPhase_does fun _ h => h.elim

theorem setPhase_quiet {p : OperationPhase} {message : String} : Logs Event.Quiet s (s.setOperationPhase p message) :=
  Logs.refl

/-- without hooks of failure the operation fails at once -/
theorem executeSyncFailPhase_nil {syncFailed : List SyncTask} {message : String} :
    executeSyncFailPhase ctx w [] syncFailed message s =
      (true, s.setOperationPhase .failed (errorMessage s syncFailed message)) := rfl

theorem waveFailed_over {wave : Wave} (hn : wave.syncFailTasks = [])
    (hi : ∀ t ∈ wave.tasks, (s.task t).operationState ≠ some .running) :
    Logs Event.Quiet s (waveFailed ctx w wave s) ∧ (waveFailed ctx w wave s).phase = some .failed := by
  have hh : (wave.tasks.filter fun t => (s.task t).running) = [] := by
    refine filter_eq_nil_iff.2 fun t ht hr => ?_
    simp only [TaskState.running, decide_eq_true_eq] at hr
    exact hi t ht hr
  unfold waveFailed
  simp only [hh, hn, executeSyncFailPhase_nil, ne_eq, not_true_eq_false, if_false, if_true]
  refine ⟨?_, deleteHooks_phase⟩
  exact Logs.trans (setPhase_quiet (p := .failed)) (Does.logs_quiet
    (deleteHooks_does (T := fun _ => True) (L := fun _ => False) fun _ _ => trivial) (by simp))

theorem runWave_waits {wave : Wave} {first : SyncTask} {final : Bool} (hc : awaitsConfirmation ctx wave.tasks = true)
    (hq : wave.syncFailTasks = [] ∨ ∀ t ∈ wave.tasks, isExistingHook s t = false)
    (hidl : ∀ t ∈ wave.tasks, (s.task t).operationState ≠ some .running) :
    Undeployed s (runWave ctx w wave first final s) := by
  set s1 := s.setOperationPhase .running "one or more tasks are running" with hs1
  set old := removeOldFinalizers w (false || ctx.dryRun) wave.tasks s1 with hol
  have her : Does (callsOf finalizerKinds (· ∈ wave.tasks)) (errorResult (· ∈ wave.tasks))
    (· ∈ wave.tasks) s1 old.2 :=
    removeOldFinalizers_errors
  have hl : Logs Event.Quiet s old.2 := setPhase_quiet.trans (her.logs_quiet (by simp [finalizerKinds]))
  have hi : ∀ t ∈ wave.tasks, (old.2.task t).operationState ≠ some .running := by
    refine fun t ht => her.operationState_inv (· ≠ some .running) (hidl t ht) fun _ _ _ _ _ _ hr hru => ?_
    cases hr.2.symm.trans hru
  unfold runWave
  dsimp only
  rw [runTasks_unconfirmed hc]
  cases hst : old.1 with
  | successful =>
    have hru : RunState.andThen old (fun s => (.pending, s)) = (.pending, old.2) := if_pos hst
    have hre : old.2.syncRes = s.syncRes := removeOldFinalizers_successful hst
    have hem : ∀ err, Logs Event.Quiet s (old.2.emit (.waveHook first.phase first.wave final err)) := by
      intro err e he
      rcases mem_cons.1 he with rfl | he
      · refine .inr fun t hd => ?_
        rcases hd.1 with h | h <;> cases h
      · exact hl e he
    rw [hru]
    split_ifs
    · dsimp only
      split
      · exact ⟨(hem _).trans setRunningPhase_quiet, .inl (setRunningPhase_syncRes.trans hre)⟩
      · have hid : ∀ err, ∀ t ∈ wave.tasks.filter SyncTask.isHook,
            ((old.2.emit (.waveHook first.phase first.wave final err)).task t).operationState ≠ some .running :=
          fun err t ht => hi t (mem_filter.1 ht).1
        rw [terminateHooksPreemptively_idle (hid _)]
        exact ⟨(hem _).trans setPhase_quiet, .inr rfl⟩
    · exact ⟨hl.trans setRunningPhase_quiet, .inl (setRunningPhase_syncRes.trans hre)⟩
  | failed =>
    have hru : RunState.andThen old (fun s => (.pending, s)) = (.failed, old.2) := by
      rw [RunState.andThen, if_neg (by simp [hst]), ← hst]
    have hn : wave.syncFailTasks = [] := by
      refine hq.resolve_right fun hex => ?_
      cases hst.symm.trans (congrArg Prod.fst (removeOldFinalizers_none (s := s1) hex))
    obtain ⟨hq', ho⟩ := @waveFailed_over ctx w old.2 wave hn hi
    rw [hru, if_neg (by simp)]
    exact ⟨hl.trans hq', .inr (by rw [finishWave, ho]; rfl)⟩
  | pending =>
    refine absurd hst (goAll_ne_pending (fun state t s hs => ?_) (by simp))
    unfold removeOldFinalizer
    split_ifs
    · exact hs
    · dsimp only
      split
      · exact hs
      · simp

/-- **A call whose first wave waits** for the confirmation deploys nothing. -/
theorem advance_waits {p : Planned} {first : SyncTask} (hs : ∀ t ∈ p.tasks, (p.s.task t).operationState = none)
    (h : OnlyWaits ctx p first) : Undeployed p.s (advance ctx w p.tasks p.s) := by
  have hi : ∀ t ∈ p.tasks, (p.s.task t).operationState ≠ some .running := fun t ht hr =>
    nomatch (hs t ht).symm.trans hr
  have hu : updateRunningTasks w p.tasks p.s = p.s := updateRunningTasks_idle fun t ht hr => absurd hr (hi t ht)
  have hf : removeCompletedFinalizers w p.tasks p.s = p.s :=
    removeCompletedFinalizers_idle fun t ht => by simp [TaskState.completed, hs t ht]
  have hok : (regularTasks p.tasks).any (isUnsuccessful p.s) = false := by
    refine any_eq_false.2 fun t ht => ?_
    simp [isUnsuccessful, TaskState.completed, hs t (mem_filter.1 ht).1]
  obtain ⟨rest, hp⟩ := head?_eq_some_iff.1 h.head
  unfold advance
  simp only [hu, awaitedTasks_idle hi, hf, ne_eq, not_true_eq_false, if_false]
  split_ifs
  · unfold proceed
    simp only [hok, Bool.false_eq_true, if_false]
    split
    · rename_i hn
      cases hp.symm.trans hn
    · rename_i first' rest' hp'
      obtain ⟨rfl, -⟩ := cons.inj (hp.symm.trans hp')
      refine runWave_waits h.waits ?_ fun t ht => hi t (mem_of_mem_nextWave ht)
      refine h.quiet.imp_right fun hq t ht => ?_
      obtain ⟨ht, hin⟩ := mem_filter.1 ht
      exact hq t ht hin
  · exact ⟨setRunningPhase_quiet, .inl setRunningPhase_syncRes⟩

/-! ## A namespace that could not be created -/

/-- **An error without hooks of failure** ends the operation, and deploys nothing. -/
theorem advance_fails (hn : (tasks.map SyncTask.ptr).Nodup) (hno : syncFailTasks tasks = [])
    (hi : ∀ t ∈ tasks, (s.task t).operationState ≠ some .running) (hp : prunedTasksPendingDelete tasks s = [])
    (hf : ∃ t ∈ tasks, (s.task t).operationState = some .error) :
    Logs Event.Quiet s (advance ctx w tasks s) ∧ (advance ctx w tasks s).phase = some .failed := by
  have hup : updateRunningTasks w tasks s = s := updateRunningTasks_idle fun t ht hru => absurd hru (hi t ht)
  have hfi := removeCompletedFinalizers_does (w := w) (s := s) hn
  have hu : (regularTasks tasks).any (isUnsuccessful (removeCompletedFinalizers w tasks s)) = true := by
    obtain ⟨t, ht, he⟩ := hf
    have he' : ((removeCompletedFinalizers w tasks s).task t).operationState = some .error :=
      hfi.operationState_inv (· = some .error) he fun _ _ _ _ _ _ hr => hr.2.2
    refine any_eq_true.2 ⟨t, mem_filter.2 ⟨ht, ?_⟩, ?_⟩
    · simpa using filter_eq_nil_iff.1 hno t ht
    · simp [isUnsuccessful, TaskState.completed, TaskState.successful, he', OperationPhase.completed]
  have hd : ∀ hooks s', Logs Event.Quiet s' (deleteHooks ctx w hooks s') := fun hooks s' =>
    Does.logs_quiet (deleteHooks_does (T := fun _ => True) (L := fun _ => False) fun _ _ => trivial) (by simp)
  unfold advance proceed
  simp only [hup, awaitedTasks_idle hi, hp, hu, hno, executeSyncFailPhase_nil, ne_eq,
    not_true_eq_false, if_false, if_true]
  refine ⟨?_, rfl⟩
  exact ((hfi.logs_quiet (by simp [finalizerKinds])).trans (hd _ _)).trans setPhase_quiet

/-! ## Validation -/

theorem isUnmodified_congr (h : s'.liveObj t = s.liveObj t) : isUnmodified ctx s' t = isUnmodified ctx s t := by
  unfold isUnmodified
  rw [h]

theorem validateTasks_applied (hc : awaitsConfirmation ctx tasks = false) (h : validateTasks ctx w tasks s = .go s')
    (ht : t ∈ tasks) (hcr : t.isPrune = false) (hsk : t.skipDryRun = false)
    (hm : ¬ (ctx.applyOutOfSyncOnly = true ∧ isUnmodified ctx s t = true)) : Applied .client t s' := by
  have hme : t ∈ filterOutOfSyncTasks ctx s tasks := by
    unfold filterOutOfSyncTasks
    split_ifs with hct
    · exact mem_filter.2 ⟨ht, by simpa [hct] using hm⟩
    · exact ht
  have hc' : awaitsConfirmation ctx (filterOutOfSyncTasks ctx s tasks) = false :=
    awaitsConfirmation_subset (fun _ => mem_filterOutOfSyncTasks) hc
  unfold validateTasks at h
  dsimp only at h
  split_ifs at h with hf
  cases h
  have hd := runTasks_dry (w := w) (s := s) (Bool.true_or ctx.dryRun) hc'
  exact runTasks_applied (Bool.true_or _) (RunState.successful_of_ne hd hf) hme ⟨hcr, fun _ => hsk⟩

/-- while the confirmation is missing, validation does nothing -/
theorem validate_waits (hct : ctx.dryRun = false) (hs : s.started = false)
    (hns : getNamespaceCreationTask ctx s tasks = none) (hc : awaitsConfirmation ctx tasks = true) :
    validate ctx w tasks s = .go s := by
  have hc' : awaitsConfirmation ctx (filterOutOfSyncTasks ctx s tasks) = true := by
    refine awaitsConfirmation_of (fun u hu hr => ?_) hc
    unfold filterOutOfSyncTasks
    split_ifs
    · have hp : u.targetObj = none := by
        simp only [requiresPruneConfirmation, SyncTask.isPrune, Bool.and_eq_true] at hr
        simpa using hr.1
      exact mem_filter.2 ⟨hu, by simp [isUnmodified, hp]⟩
    · exact hu
  unfold validate
  rw [if_neg (by simp [hs]), hns]
  unfold awaitsConfirmation at hc'
  unfold validateTasks
  simp only [runTasks_validating hct, hc', if_true]
  rfl

/-- **What goes on is validated.** -/
theorem validate_applied (hn : (tasks.map SyncTask.ptr).Nodup) (hst : s.started = false)
    (hc : awaitsConfirmation ctx tasks = false) (h : validate ctx w tasks s = .go s') (ht : t ∈ tasks)
    (hcre : t.isPrune = false) (hs : t.skipDryRun = false)
    (hm : ¬ (ctx.applyOutOfSyncOnly = true ∧ isUnmodified ctx s t = true))
    (hns : getNamespaceCreationTask ctx s tasks ≠ some t) : Applied .client t s' := by
  unfold validate at h
  rw [if_neg (by simp [hst])] at h
  split at h
  · exact validateTasks_applied hc h ht hcre hs hm
  · next ns hcr =>
    rw [hcr] at hns
    dsimp only at h
    split_ifs at h
    have hne : t.ptr ≠ ns.ptr := ptr_ne hn ht (namespace_missing hcr).1 fun hns' => hns (congrArg some hns'.symm)
    have hru : Runs ctx ctx.dryRun (· = ns) s (runTasks ctx w [ns] false s).2 :=
      runTasks_does (Bool.false_or _) fun u hu => mem_singleton.1 hu
    have hli : (runTasks ctx w [ns] false s).2.liveObj t = s.liveObj t :=
      congrArg TaskState.liveObj (hru.task_eq t (fun _ _ _ _ hr => hr.1 ▸ hne) fun _ hl => hl.1 ▸ hne)
    have hc' : awaitsConfirmation ctx (tasks.filter fun t => t.ptr ≠ ns.ptr) = false :=
      awaitsConfirmation_subset (fun _ hu => (mem_filter.1 hu).1) hc
    refine validateTasks_applied hc' h (mem_filter.2 ⟨ht, by simpa using hne⟩) hcre hs ?_
    rwa [isUnmodified_congr hli]

/-! ## Calls -/

theorem suffix_of_not_mem {α : Type*} {l later earlier : List α} {e : α} (h : l <:+ later ++ e :: earlier)
    (he : e ∉ l) : l <:+ earlier := by
  rcases suffix_or_suffix_of_suffix h (suffix_append later (e :: earlier)) with h | h
  · rcases suffix_cons_iff.1 h with rfl | h
    · exact absurd mem_cons_self he
    · exact h
  · exact absurd (h.subset mem_cons_self) he

namespace SyncCall

variable {c : SyncCall}

/-- what a call must meet that starts without results: there is nothing to validate; or the namespace could not be created
but there are no hooks of failure; or it could, and no confirmation is missing or the first wave waits for it -/
def Meets (c : SyncCall) : Prop :=
  c.planned.successful = true → (restore c.before).started = false →
    (∀ t ∈ c.planned.tasks, t.isPrune = false → c.Passes t) ∨
    (c.planned.s.started = true ∧ syncFailTasks c.planned.tasks = []) ∨
    (c.planned.s.started = false ∧
      (awaitsConfirmation c.ctx c.planned.tasks = false ∨ ∃ first, OnlyWaits c.ctx c.planned first))

/-- what the call deploys is deployed after validation -/
def Guarded (c : SyncCall) : Prop :=
  ∀ later e earlier t, c.after.log = later ++ e :: earlier → e.call.Deploys t → ¬ EarlyNamespace c.ctx c.planned t →
    c.ValidatedBy earlier

/-- unless the operation is over, there are results only after validation -/
def Recorded (c : SyncCall) : Prop :=
  c.after.started = true → c.after.phase.any OperationPhase.completed = true ∨ c.ValidatedBy c.after.log

theorem guarded_of_quiet (h : ∀ e ∈ c.after.log, ∀ t, e.call.Deploys t → EarlyNamespace c.ctx c.planned t) :
    c.Guarded := by
  intro later e earlier t hl hd hns
  refine absurd (h e ?_ t hd) hns
  rw [hl]
  exact mem_append_right _ mem_cons_self

theorem planned_quiet : ∀ e ∈ c.planned.s.log, e.Quiet :=
  fun _ he _ => not_deploys (getSyncTasks_calls he) (by simp [planKinds])

theorem guarded_of_logs (h : Logs Event.Quiet c.planned.s c.after) : c.Guarded := by
  refine guarded_of_quiet fun e he t hd => ?_
  rcases h e he with ho | hn
  · exact absurd hd (c.planned_quiet e ho t)
  · exact absurd hd (hn t)

theorem planned_nodup : (c.planned.tasks.map SyncTask.ptr).Nodup := getSyncTasks_nodup

theorem after_of_go {s' : St} (hok : c.planned.successful = true)
    (h : validate c.ctx c.w c.planned.tasks c.planned.s = .go s') : c.after = advance c.ctx c.w c.planned.tasks s' :=
  sync_of_go hok h

theorem after_of_stop {s' : St} (hok : c.planned.successful = true)
    (h : validate c.ctx c.w c.planned.tasks c.planned.s = .stop s') : c.after = s' := sync_of_stop hok h

theorem after_of_invalid (hok : c.planned.successful = false) :
    c.after = c.planned.s.setOperationPhase .failed (invalidMessage c.planned.s.syncRes.values) := sync_of_invalid hok

section First

variable (hok : c.planned.successful = true)

include hok

/-- the namespace could not be created -/
theorem fails (hs : (restore c.before).started = false) (hns : c.planned.s.started = true)
    (hn : syncFailTasks c.planned.tasks = []) :
    c.Guarded ∧ c.Recorded := by
  have hf : ∀ t ∈ c.planned.tasks, FirstState (c.planned.s.task t) := getSyncTasks_first hs hok fun _ => rfl
  have hgo : validate c.ctx c.w c.planned.tasks c.planned.s = .go c.planned.s := if_pos hns
  have hpr : prunedTasksPendingDelete c.planned.tasks c.planned.s = [] := by
    refine filter_eq_nil_iff.2 fun t ht hp => ?_
    simp only [TaskState.pruned, Bool.and_eq_true, decide_eq_true_eq] at hp
    rcases hf t ht with h | h
    · cases h.1.symm.trans hp.1
    · cases h.1.symm.trans hp.1
  have hi : ∀ t ∈ c.planned.tasks, (c.planned.s.task t).operationState ≠ some .running := by
    intro t ht hr
    rcases hf t ht with h | h
    · cases h.2.symm.trans hr
    · cases h.2.symm.trans hr
  obtain ⟨hl, ho⟩ := @advance_fails c.ctx c.w c.planned.s c.planned.tasks c.planned_nodup hn hi hpr
    (getSyncTasks_error hs hok hns)
  rw [← after_of_go hok hgo] at hl ho
  refine ⟨guarded_of_logs hl, fun _ => .inl ?_⟩
  rw [ho]
  rfl

/-- the first wave waits for the confirmation -/
theorem waits (hct : c.ctx.dryRun = false) (hns : c.planned.s.started = false) {first : SyncTask}
    (hw : OnlyWaits c.ctx c.planned first) : c.Guarded ∧ c.Recorded := by
  have hs : ∀ t ∈ c.planned.tasks, (c.planned.s.task t).operationState = none := fun t ht =>
    unstarted_state hns (getSyncTasks_agrees (restore_fresh c.before) t ht)
  have hc : awaitsConfirmation c.ctx c.planned.tasks = true :=
    awaitsConfirmation_of (fun u hu _ => (mem_filter.1 (mem_pendingTasks (mem_filter.1 hu).1).1).1) hw.waits
  have hgo : validate c.ctx c.w c.planned.tasks c.planned.s = .go c.planned.s :=
    validate_waits hct hns hw.noNamespace hc
  have hun := @advance_waits c.ctx c.w c.planned first hs hw
  rw [← after_of_go hok hgo] at hun
  refine ⟨guarded_of_logs hun.logs, fun ha => .inl (hun.results.resolve_left fun hre => ?_)⟩
  cases hns.symm.trans ((started_congr hre).symm.trans ha)

/-- nothing stands in the way of validation -/
theorem validates (hns : c.planned.s.started = false)
    (hco : awaitsConfirmation c.ctx c.planned.tasks = false) : c.Guarded ∧ c.Recorded := by
  cases hv : validate c.ctx c.w c.planned.tasks c.planned.s with
  | stop s' =>
    have ha := after_of_stop hok hv
    refine ⟨guarded_of_quiet fun e he t hd => ?_, fun _ => .inl ?_⟩
    · rw [ha] at he
      rcases validate_logs (.inl hv) e he with ho | hn
      · exact absurd hd (c.planned_quiet e ho t)
      · exact hn t hd
    · rw [ha, validate_stop_phase hv]
      rfl
  | go s' =>
    have ha := after_of_go hok hv
    have hs : s'.log <:+ c.after.log := ha ▸ Does.log_suffix (advance_proceeds c.planned_nodup)
    have hva : c.ValidatedBy s'.log := by
      intro t ht hcr hp
      simp only [Passes, not_or, Bool.not_eq_true] at hp
      exact validate_applied c.planned_nodup hns hco hv ht hcr hp.1 hp.2.1
        fun hc => hp.2.2 ⟨hns, hc⟩
    refine ⟨fun later e earlier t hl hd hea => ?_, fun _ => .inr (hva.mono hs.subset)⟩
    refine hva.mono (suffix_of_not_mem (hl ▸ hs) fun he => ?_).subset
    rcases validate_logs (.inr hv) e he with ho | hn
    · exact c.planned_quiet e ho t hd
    · exact hea (hn t hd)

end First

/-- **The first calls of an operation** are guarded. -/
theorem first (hct : c.ctx.dryRun = false) (hs : (restore c.before).started = false)
    (hm : c.Meets) : c.Guarded ∧ c.Recorded := by
  cases hok : c.planned.successful with
  | false =>
    have ha := after_of_invalid hok
    refine ⟨guarded_of_logs (ha ▸ setPhase_quiet), fun _ => .inl ?_⟩
    rw [ha]
    rfl
  | true =>
    rcases hm hok hs with hn | ⟨hns, hno⟩ | ⟨hns, hc | ⟨first, hw⟩⟩
    · have hv : ∀ events, c.ValidatedBy events := fun events t ht hcr hp =>
        absurd (hn t ht hcr) hp
      exact ⟨fun _ _ _ _ _ _ _ => hv _, fun _ => .inr (hv _)⟩
    · exact fails hok hs hns hno
    · exact validates hok hns hc
    · exact waits hok hct hns hw

end SyncCall

/-! ## Operations -/

/-- the calls of an operation, newest first, and the state they lead to. The targets and whether it is a dry run stay the
same, no call is made once it is over, and every call meets the condition. -/
inductive Operation (targets : Obj → Prop) (dryRun : Bool) : List SyncCall → OperationState → Prop
  | start : Operation targets dryRun [] newOperation
  | sync {calls : List SyncCall} {c : SyncCall} (h : Operation targets dryRun calls c.before)
      (hgoing : c.before.phase.any OperationPhase.completed = false) (hdry : c.ctx.dryRun = dryRun)
      (htargets : ∀ target, c.ctx.Creates target ↔ targets target) (hmeets : c.Meets) :
      Operation targets dryRun (c :: calls) (getState c.after)

/-- the events of the calls, newest first -/
def events (calls : List SyncCall) : List Event := calls.flatMap fun c => c.after.log

theorem started_restore_getState : (restore (getState s)).started = s.started := by
  rw [Bool.eq_iff_iff, started_iff, started_iff]
  exact exists_congr fun r => mem_restore_getState r

/-- **An operation that goes on with results has been validated.** -/
theorem operation_validated {targets : Obj → Prop} {calls : List SyncCall} {o : OperationState}
    (h : Operation targets false calls o) (hs : (restore o).started = true)
    (hg : o.phase.any OperationPhase.completed = false) : ∃ v ∈ calls, v.ValidatedBy (events calls) := by
  induction h with
  | start => cases hs
  | @sync calls c h hg' hd ht hm ih =>
    cases hb : (restore c.before).started with
    | true =>
      obtain ⟨v, hv, hva⟩ := ih hb hg'
      exact ⟨v, mem_cons_of_mem _ hv, hva.mono (subset_append_right _ _)⟩
    | false =>
      refine ⟨c, mem_cons_self, ?_⟩
      rcases (SyncCall.first hd hb hm).2 (started_restore_getState.symm.trans hs) with ho | hva
      · cases ho.symm.trans hg
      · exact hva.mono (subset_append_left _ _)

theorem operation_covers {targets : Obj → Prop} {dryRun : Bool} {calls : List SyncCall} {o : OperationState}
    (h : Operation targets dryRun calls o) {v : SyncCall} (hv : v ∈ calls) {target : Obj} (hta : targets target) :
    ∃ t ∈ v.planned.tasks, t.targetObj = some target := by
  induction h with
  | start => cases hv
  | sync h hg hd ht hm ih =>
    rcases mem_cons.1 hv with rfl | hv
    · exact ((ht target).2 hta).covered
    · exact ih hv

theorem dry_run_quiet {c : SyncCall} (hc : c.ctx.dryRun = true) : ∀ e ∈ c.after.log, e.Quiet := by
  have hr : ∀ e : Event, callsOf readKinds (fun _ => True) e.call → e.Quiet := fun e he t => not_deploys he (by simp)
  cases hok : c.planned.successful with
  | false =>
    rw [SyncCall.after_of_invalid hok]
    exact c.planned_quiet
  | true =>
    cases hv : validate c.ctx c.w c.planned.tasks c.planned.s with
    | stop s' =>
      rw [SyncCall.after_of_stop hok hv]
      intro e he
      rcases (validate_reads hc (.inl hv)).new_call e he with ho | hn
      · exact c.planned_quiet e ho
      · exact hr e hn
    | go s' =>
      rw [SyncCall.after_of_go hok hv]
      intro e he
      rcases Does.new_call (advance_proceeds c.planned_nodup) e he with ho | hn
      · rcases (validate_reads hc (.inr hv)).new_call e ho with ho | hn
        · exact c.planned_quiet e ho
        · exact hr e hn
      · exact fun t => not_deploys hn (by simp [callKinds, runKinds, hc])

/-- **Validation comes first.** In every operation whose calls meet the condition, whatever the cluster answers: before
anything is applied or pruned, other than the application's namespace created first, some call of the operation has applied
each of its tasks that create as a dry run, and the cluster accepted it; and these are the tasks of all targets. -/
theorem validated_before_deploy {targets : Obj → Prop} {dryRun : Bool} {calls : List SyncCall} {c : SyncCall}
    {o : OperationState} (h : Operation targets dryRun (c :: calls) o) {later earlier : List Event} {e : Event}
    {t : SyncTask} (hlog : c.after.log = later ++ e :: earlier) (hd : e.call.Deploys t)
    (hns : ¬ EarlyNamespace c.ctx c.planned t) :
    ∃ v ∈ c :: calls, v.ValidatedBy (earlier ++ events calls) ∧
      ∀ target, targets target → ∃ u ∈ v.planned.tasks, u.targetObj = some target := by
  have hva : ∃ v ∈ c :: calls, v.ValidatedBy (earlier ++ events calls) := by
    cases h with
    | sync h hgo hdr hta hm =>
      cases dryRun with
      | true =>
        refine absurd hd (dry_run_quiet hdr e ?_ t)
        rw [hlog]
        exact mem_append_right _ mem_cons_self
      | false =>
        cases hb : (restore c.before).started with
        | true =>
          obtain ⟨v, hv, hva⟩ := operation_validated h hb hgo
          exact ⟨v, mem_cons_of_mem _ hv, hva.mono (subset_append_right _ _)⟩
        | false =>
          have hg := (SyncCall.first hdr hb hm).1 later e earlier t hlog hd hns
          exact ⟨c, mem_cons_self, hg.mono (subset_append_left _ _)⟩
  obtain ⟨v, hv, hva⟩ := hva
  exact ⟨v, hv, hva, fun target ht => operation_covers h hv ht⟩

/-! ## A prune in a later wave -/

/-- a map to create, and one to prune that must be confirmed -/
def unconfirmed (confirmed : Bool) : Ctx :=
  { plainCtx [.missing (configMap "map" []),
      .extra (configMap "old" [(annotationSyncOptions, "Prune=confirm"), (annotationSyncWave, "1")])] [] with
    pruneConfirmed := confirmed }

/-- the first call of an operation -/
def firstCall (confirmed : Bool) : SyncCall := ⟨unconfirmed confirmed, calmWorld, newOperation⟩

/-- the prune comes a wave later, so the map is applied, but nothing was applied as a dry run -/
theorem unvalidated_deploy :
    (firstCall false).planned.tasks.map (fun t => (t.targetObj.isSome, t.skipDryRun)) = [(true, false), (false, false)] ∧
      .apply .none ∈ (firstCall false).after.log.map (fun e => e.call.kind) ∧
      .apply .client ∉ (firstCall false).after.log.map fun e => e.call.kind := by
  decide +kernel

/-- with the confirmation the map is applied as a dry run first -/
theorem validated_before_deploy_confirmed :
    ∃ e earlier t, (firstCall true).after.log = e :: earlier ∧ e.call.Deploys t ∧
      ∃ v ∈ [firstCall true], v.ValidatedBy (earlier ++ events []) ∧
        ∀ target, (unconfirmed true).Creates target → ∃ u ∈ v.planned.tasks, u.targetObj = some target := by
  have hl : ((firstCall true).after.log.map fun e => (e.call.kind, e.call.task?)).head? =
      some (.apply .none, some ⟨1, .sync, .create (configMap "map" []), false, none⟩) := by decide +kernel
  rw [head?_map, Option.map_eq_some_iff] at hl
  obtain ⟨e, he, hc⟩ := hl
  obtain ⟨earlier, hco⟩ := head?_eq_some_iff.1 he
  have hd : e.call.Deploys ⟨1, .sync, .create (configMap "map" []), false, none⟩ :=
    ⟨.inl (congrArg Prod.fst hc), congrArg Prod.snd hc⟩
  have hm : (firstCall true).Meets := fun _ _ =>
    .inr (.inr ⟨by decide +kernel, .inl (by decide +kernel)⟩)
  have hop : Operation (unconfirmed true).Creates false [firstCall true] (getState (firstCall true).after) :=
    .sync .start rfl rfl (fun _ => Iff.rfl) hm
  have hns : ¬ EarlyNamespace (firstCall true).ctx (firstCall true).planned
      ⟨1, .sync, .create (configMap "map" []), false, none⟩ := fun h => absurd h.2 (by decide +kernel)
  exact ⟨e, earlier, _, hco, hd, @validated_before_deploy _ _ _ _ _ hop [] _ _ _ hco hd hns⟩

end GitOpsDeploy.Sync

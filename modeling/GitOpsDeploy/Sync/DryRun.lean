/-
Operations that are dry runs.

A dry run marks its hooks as succeeded, although they were not created. So hooks that an earlier sync left in the cluster
are taken for completed ones: they lose their finalizer, and are deleted when their policy says so. Without such hooks a
dry run only reads.

- `Quiet`: nothing is running, and no hook has a finalizer or a policy that would have it deleted.
-/
import GitOpsDeploy.Sync.Operation

namespace GitOpsDeploy.Sync

open List

variable {ctx : Ctx} {w : World} {s s' : St} {tasks : List SyncTask} {t : SyncTask}

/-! ## Calls that touch the cluster -/

/-- updates, deletions, patches, and applies that are no dry run -/
def CallKind.touches : CallKind → Bool
  | .update | .delete | .prune | .patch | .apply .none => true
  | _ => false

/-- the calls of a dry run that leaves the hooks alone -/
abbrev readKinds : List CallKind := [.discover, .validatePermission, .getNamespace, .syncNamespace, .apply .client,
    .waveHook]

/-- nothing starts to run -/
def notRunning : ResultSet := fun _ _ _ state => state ≠ some .running

abbrev Reads : St → St → Prop := Does (callsOf readKinds fun _ => True) notRunning fun _ => False

theorem not_touches_of_read {c : Call} {T : SyncTask → Prop} (h : callsOf readKinds T c) : c.kind.touches = false := by
  have hk := h.1
  revert hk
  cases c.kind with
  | apply strategy => cases strategy <;> simp [CallKind.touches]
  | _ => simp [CallKind.touches]

theorem Runs.reads {T : SyncTask → Prop} (hctx : ctx.dryRun = true) (h : Runs ctx true T s s') : Reads s s' := by
  refine h.weaken (fun c hc => ⟨?_, fun _ _ => trivial⟩) (fun _ _ _ _ hr => hr.2.2.2 (.inl hctx)) nofun
  have hk := hc.1
  simp only [runKinds, if_true, mem_singleton] at hk
  simp [hk]

/-! ## Quiet states -/

/-- the hook is deleted once it is done -/
def deletedWhenDone (o : Obj) : Bool :=
  (deletePolicies o).contains .hookSucceeded || (deletePolicies o).contains .hookFailed

structure Quiet (tasks : List SyncTask) (s : St) : Prop where
  idle : ∀ t ∈ tasks, (s.task t).operationState ≠ some .running
  recorded : ∀ r ∈ s.syncRes, r.hookPhase ≠ some .running
  hooks : ∀ t ∈ tasks, t.isHook = true → ∀ l, s.liveObj t = some l →
    hookFinalizer ∉ (s.read l).finalizers ∧ deletedWhenDone t.obj = false

theorem Does.recorded_not_running {C : CallSet} {L : SyncTask → Prop} (h : Does C notRunning L s s')
    (hs : ∀ r ∈ s.syncRes, r.hookPhase ≠ some .running) : ∀ r ∈ s'.syncRes, r.hookPhase ≠ some .running :=
  h.results_inv (fun _ state => state ≠ some .running) hs fun _ _ _ _ hr => hr

theorem Reads.quiet (h : Reads s s') (hs : Quiet tasks s) : Quiet tasks s' := by
  refine ⟨fun t ht => ?_, h.recorded_not_running hs.recorded, fun t ht hh l hl => ?_⟩
  · exact h.operationState_inv (· ≠ some .running) (hs.idle t ht) fun _ _ _ _ _ _ hr => hr
  · rw [h.liveObj_eq] at hl
    have hhe : s'.heap = s.heap := h.heap_eq fun c hc hk => by
      have hm := hc.1
      rw [hk] at hm
      simp at hm
    unfold St.read
    rw [hhe]
    exact hs.hooks t ht hh l hl

theorem removeHookFinalizer_clean (h : ∀ l, s.liveObj t = some l → hookFinalizer ∉ (s.read l).finalizers) :
    removeHookFinalizer w s t = (none, s) := by
  have ht : tryRemoveHookFinalizer w s t = (none, s) := by
    unfold tryRemoveHookFinalizer
    cases hl : s.liveObj t with
    | none => rfl
    | some l => simp only [removeFinalizerMutation, if_neg (h l hl)]
  simp [removeHookFinalizer, defaultRetries, retryOn, ht]

theorem removeCompletedFinalizers_quiet (hs : Quiet tasks s) : removeCompletedFinalizers w tasks s = s := by
  refine foldlRecOn (motive := (· = s)) _ _ rfl fun s' hs' t ht => ?_
  obtain ⟨ht, hp⟩ := mem_filter.1 ht
  rw [Bool.and_eq_true] at hp
  unfold removeCompletedFinalizer
  rw [hs', removeHookFinalizer_clean fun l hl => (hs.hooks t ht hp.1 l hl).1]

theorem hasHookDeletePolicy_quiet (hs : Quiet tasks s) (ht : t ∈ tasks) (hh : t.isHook = true) {l : LiveObj}
    (hl : s.liveObj t = some l) :
    t.hasHookDeletePolicy .hookSucceeded = false ∧ t.hasHookDeletePolicy .hookFailed = false := by
  have hd := (hs.hooks t ht hh l hl).2
  simp only [deletedWhenDone, Bool.or_eq_false_iff] at hd
  unfold SyncTask.hasHookDeletePolicy
  rw [hd.1, hd.2, Bool.and_false]
  exact ⟨rfl, rfl⟩

theorem no_hooks_to_delete (hs : Quiet tasks s) :
    hooksPendingDeletionSuccessful tasks s = [] ∧ hooksPendingDeletionFailed tasks s = [] := by
  refine ⟨filter_eq_nil_iff.2 fun t ht hp => ?_, filter_eq_nil_iff.2 fun t ht hp => ?_⟩
  · simp only [deleteOnPhaseSuccessful, Bool.and_eq_true, Option.isSome_iff_exists] at hp
    obtain ⟨⟨hh, -⟩, ⟨l, hl⟩, hpo⟩ := hp
    cases hpo.symm.trans (hasHookDeletePolicy_quiet hs ht hh hl).1
  · simp only [deleteOnPhaseFailed, Bool.and_eq_true, Option.isSome_iff_exists] at hp
    obtain ⟨⟨hh, -⟩, ⟨l, hl⟩, hpo⟩ := hp
    cases hpo.symm.trans (hasHookDeletePolicy_quiet hs ht hh hl).2

/-! ## The parts of a call -/

section Parts

variable (hctx : ctx.dryRun = true)

include hctx

theorem runTasks_reads {dry : Bool} : Reads s (runTasks ctx w tasks dry s).2 :=
  Runs.reads hctx (runTasks_does (T := fun _ => True) (by rw [hctx, Bool.or_true]) fun _ _ => trivial)

theorem executeSyncFailPhase_reads {syncFailed : List SyncTask} {message : String} :
    Reads s (executeSyncFailPhase ctx w tasks syncFailed message s).2 := by
  have h : Runs ctx ctx.dryRun (fun _ => True) s (executeSyncFailPhase ctx w tasks syncFailed message s).2 :=
    executeSyncFailPhase_does fun _ _ => trivial
  rw [hctx] at h
  exact Runs.reads hctx h

theorem validate_reads (h : validate ctx w tasks s = .stop s' ∨ validate ctx w tasks s = .go s') : Reads s s' :=
  validate_composed composes_does (fun _ _ _ => runTasks_reads hctx) (fun _ _ _ => runTasks_reads hctx) h

theorem proceed_reads (hs : Quiet tasks s) : Reads s (proceed ctx w tasks s) := by
  refine proceed_composed composes_does (fun _ _ _ => executeSyncFailPhase_reads hctx) (fun hooks hh s => ?_)
    (fun _ _ _ => (Does.setPhase .refl).trans (runTasks_reads hctx)) (fun s _ _ _ _ => ?_) (fun ts hts s' hr => ?_)
  · rw [show hooks = [] from hh.elim (·.trans (no_hooks_to_delete hs).1) (·.trans (no_hooks_to_delete hs).2)]
    exact .refl
  · exact Does.emit .refl ⟨by simp [Call.kind], nofun⟩
  · rw [terminateHooksPreemptively_idle fun t ht => (Reads.quiet hr hs).idle t (hts t ht).1]
    exact .refl

theorem advance_reads (hs : Quiet tasks s) : Reads s (advance ctx w tasks s) := by
  have hu : updateRunningTasks w tasks s = s := updateRunningTasks_idle fun t ht hr => absurd hr (hs.idle t ht)
  unfold advance
  simp only [hu, awaitedTasks_idle hs.idle, removeCompletedFinalizers_quiet hs, ne_eq, not_true_eq_false, if_false]
  split_ifs
  · exact proceed_reads hctx hs
  · exact setRunningPhase_does

/-- **A call of a dry run** whose tasks are quiet reads only. -/
theorem sync_reads (hs : Quiet (getSyncTasks ctx w s).tasks (getSyncTasks ctx w s).s) :
    Reads (getSyncTasks ctx w s).s (sync ctx w s) := by
  unfold sync
  dsimp only
  split_ifs
  · cases hv : validate ctx w (getSyncTasks ctx w s).tasks (getSyncTasks ctx w s).s with
    | stop s' => exact validate_reads hctx (.inl hv)
    | go s' =>
      have hr := validate_reads hctx (.inr hv)
      exact hr.trans (advance_reads hctx (hr.quiet hs))
  · exact Does.setPhase .refl

end Parts

/-! ## Operations -/

/-- a live object that the hook would leave alone when it is done -/
def Harmless (hook live : Obj) : Prop := hookFinalizer ∉ live.finalizers ∧ deletedWhenDone hook = false

/-- all live objects that would be taken for the hook's -/
def HarmlessResources (ctx : Ctx) (hook : Obj) : Prop :=
  ∀ r ∈ ctx.resources.values, ∀ live ∈ r.live, matchesKey r.key hook = true → Harmless hook live

def HarmlessHooks (ctx : Ctx) : Prop :=
  ctx.skipHooks = false → ∀ obj ∈ ctx.hooks, ∀ phase ∈ syncPhases obj,
    HarmlessResources ctx (ctx.inNamespace (ctx.hookTarget obj phase))

instance (hook live : Obj) : Decidable (Harmless hook live) := by
  unfold Harmless
  infer_instance

instance : Decidable (HarmlessHooks ctx) := by
  unfold HarmlessHooks HarmlessResources
  infer_instance

/-- the namespace that the callback may have turned into a hook -/
def HarmlessNamespace (ctx : Ctx) (w : World) : Prop :=
  ctx.hasSyncNamespace = true → ∀ log liveNs ns,
    ns = { managedNs ctx.ns with annotations := (w.syncNamespace log (managedNs ctx.ns) liveNs).2 } → isHook ns = true →
      HarmlessResources ctx ns ∧ ∀ log live, w.getNamespace log ctx.ns = .ok live → Harmless ns live

theorem isHook_congr {o o' : Obj} (h : o.annotations = o'.annotations) : isHook o = isHook o' := by
  unfold isHook skipHook hookTypes helmIsHook getAnnotationCSVs Obj.annotationValue
  rw [h]

/-- the managed object found for a target is the live object of a resource with a matching key -/
theorem liveObj_managed {log : List Event} {target : Obj} {l : LiveObj} (h : ctx.liveObj w log target = some l) :
    ∃ r ∈ ctx.resources, matchesKey r.key target = true ∧ r.live = some l.obj := by
  obtain ⟨r, hr, hl⟩ := Option.bind_eq_some_iff.1 h
  have hm := List.find?_some hr
  refine ⟨r, (w.resourceOrder_perm _ _ _).mem_iff.1 (List.mem_of_find?_eq_some hr), hm, ?_⟩
  obtain ⟨live, hli, rfl⟩ := Option.map_eq_some_iff.1 hl
  exact hli

theorem isHook_inNamespace {o : Obj} : isHook (ctx.inNamespace o) = isHook o := isHook_congr rfl

theorem isHook_resource {r : Reconciled} {phase : SyncPhase} (hh : isHook r.obj = false)
    (h : t.subject = (ctx.withNamespace ⟨phase, r.subject, r.liveObj⟩).subject) : t.isHook = false := by
  unfold SyncTask.isHook SyncTask.obj
  rw [h]
  cases r with
  | extra live => exact hh
  | _ => exact isHook_inNamespace.trans hh

theorem getSyncTasks_harmless (hho : HarmlessHooks ctx) (hns : HarmlessNamespace ctx w)
    (ht : t ∈ (getSyncTasks ctx w s).tasks) (hh : t.isHook = true) {l : LiveObj}
    (hl : (getSyncTasks ctx w s).s.liveObj t = some l) : Harmless t.obj l.obj := by
  obtain ⟨d, hd, hs, hli⟩ := getSyncTasks_origin ht
  have hf : ∀ {hook : Obj}, t.subject = .create hook → HarmlessResources ctx hook → ∀ log target,
      t.targetObj = some target → (getSyncTasks ctx w s).s.liveObj t = ctx.liveObj w log target →
      Harmless t.obj l.obj := by
    intro hook hc hre log target hta hf
    obtain ⟨r, hr, hm, hrl⟩ := liveObj_managed (hf.symm.trans hl)
    have ho : t.obj = hook ∧ target = hook := by
      simp only [SyncTask.targetObj, hc, Option.some.injEq] at hta
      simp [SyncTask.obj, hc, hta]
    rw [ho.1]
    exact hre r hr _ hrl (ho.2 ▸ hm)
  cases hd with
  | resource hr hn hp => cases hh.symm.trans (isHook_resource hn hs)
  | hook hsk ho hp =>
    rcases hli with hli | ⟨-, log, target, hta, hli⟩
    · cases hl.symm.trans hli
    · exact hf hs (hho hsk _ ho _ hp) log target hta hli
  | @managedNs annotations live hsy han hg =>
    have ho : t.obj = { managedNs ctx.ns with annotations := annotations } := by
      unfold SyncTask.obj
      rw [hs]
    have hi : isHook t.obj = true := hh
    rcases han with rfl | ⟨log, liveNs, rfl⟩
    · rw [ho] at hi
      simp [isHook, helmIsHook, Obj.annotationValue] at hi
    · obtain ⟨hre, hrea⟩ := hns hsy log liveNs _ rfl (ho ▸ hi)
      rcases hli with hli | ⟨-, log, target, hta, hli⟩
      · obtain ⟨log, ha⟩ := hg l (Option.mem_def.2 (hli.symm.trans hl))
        rw [ho]
        exact hrea log _ ha
      · exact hf hs hre log target hta hli

/-- **A call of a dry run starts quiet.** -/
theorem getSyncTasks_quiet {o : OperationState} (hh : HarmlessHooks ctx) (hns : HarmlessNamespace ctx w)
    (ho : ∀ r ∈ (restore o).syncRes, r.hookPhase ≠ some .running) :
    Quiet (getSyncTasks ctx w (restore o)).tasks (getSyncTasks ctx w (restore o)).s := by
  have hp : ∀ r ∈ (getSyncTasks ctx w (restore o)).s.syncRes, r.hookPhase ≠ some .running := by
    rw [getSyncTasks_copied.syncRes]
    refine Does.recorded_not_running (planTasks_does.weaken (fun _ h => h) (fun _ _ _ _ hr => ?_) fun _ h => h) ho
    rcases hr.2 with h | h
    · exact fun hru => nomatch h.symm.trans hru
    · exact fun hru => nomatch h.2.symm.trans hru
  refine ⟨fun t ht => ?_, hp, fun t ht hho l hl => ?_⟩
  · have ha := getSyncTasks_agrees (restore_fresh o) t ht
    cases hr : (getSyncTasks ctx w (restore o)).s.syncRes.get? t.resultKey with
    | some r =>
      rw [ha.state r hr]
      exact hp r (KeyedMap.get?_eq_some.1 hr).1
    | none =>
      rcases ha.unrecorded hr with h | h
      · exact fun hru => nomatch h.symm.trans hru
      · exact fun hru => nomatch h.1.symm.trans hru
  · have hre : ((getSyncTasks ctx w (restore o)).s.read l).finalizers = l.obj.finalizers := by
      unfold St.read
      rw [getSyncTasks_heap]
      rfl
    rw [hre]
    exact getSyncTasks_harmless hh hns ht hho hl

/-- the states a dry-run operation reaches when every call finds harmless live objects for its hooks -/
inductive DryRunReached : OperationState → Prop
  | start : DryRunReached newOperation
  | sync {o : OperationState} (h : DryRunReached o) {ctx : Ctx} {w : World} (hctx : ctx.dryRun = true)
      (hhooks : HarmlessHooks ctx) (hns : HarmlessNamespace ctx w) : DryRunReached (getState (sync ctx w (restore o)))

/-- nothing is ever recorded as running -/
theorem dryRunReached_idle {o : OperationState} (h : DryRunReached o) :
    ∀ r ∈ (restore o).syncRes, r.hookPhase ≠ some .running := by
  induction h with
  | start => exact nofun
  | @sync o _ ctx w hctx hh hns ih =>
    intro r hr
    have hq := @getSyncTasks_quiet ctx w o hh hns ih
    exact ((sync_reads hctx hq).quiet hq).recorded r ((mem_restore_getState r).1 hr)

/-- **A dry run only reads** as long as its hooks find harmless live objects: no call updates, deletes, prunes or patches,
and everything is applied with the client strategy. -/
theorem dry_run_reads_only {o : OperationState} (ho : DryRunReached o) (ctx : Ctx) (w : World) (hctx : ctx.dryRun = true)
    (hhooks : HarmlessHooks ctx) (hns : HarmlessNamespace ctx w) :
    ∀ e ∈ (sync ctx w (restore o)).log, e.call.kind.touches = false := by
  have hq := @getSyncTasks_quiet ctx w o hhooks hns (dryRunReached_idle ho)
  intro e he
  rcases (sync_reads hctx hq).new_call e he with hp | hr
  · exact not_touches_of_read (callsOf_le (by simp [planKinds]) (fun _ h => h) _ (getSyncTasks_calls hp))
  · exact not_touches_of_read hr

/-! ## A hook of an earlier sync -/

/-- the hook is still there from an earlier sync -/
def leftHook (policy : String) (finalizers : List String) : Ctx :=
  { plainCtx [.missing (configMap "map" []), .extra (migrateHook policy finalizers)] [migrateHook policy []] with
    dryRun := true }

/-- a dry run takes the finalizer off the hook, and deletes it -/
theorem dry_run_deletes_hook :
    let call := sync (leftHook "HookSucceeded" [hookFinalizer]) calmWorld (restore newOperation)
    (leftHook "HookSucceeded" [hookFinalizer]).dryRun = true ∧
      .update ∈ call.log.map (fun e => e.call.kind) ∧ .delete ∈ call.log.map fun e => e.call.kind := by
  decide +kernel

/-- a hook that has no finalizer and is only deleted before it is created: two calls -/
theorem dry_run_reads_only_kept_hook :
    (sync (leftHook "BeforeHookCreation" []) calmWorld
      (restore (getState (sync (leftHook "BeforeHookCreation" []) calmWorld (restore newOperation))))).log.all
      (fun e => e.call.kind.touches = false) = true := by
  have hh : HarmlessHooks (leftHook "BeforeHookCreation" []) := by decide +kernel
  have hns : HarmlessNamespace (leftHook "BeforeHookCreation" []) calmWorld := nofun
  rw [all_eq_true]
  intro e he
  exact decide_eq_true (dry_run_reads_only (.sync .start rfl hh hns) _ _ rfl hh hns e he)

end GitOpsDeploy.Sync

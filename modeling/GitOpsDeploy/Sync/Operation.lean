/-
Whole calls and operations.

An operation starts without results; every call of `Sync` runs on a context restored from the state the one before left.
-/
import GitOpsDeploy.Sync.Decision

namespace GitOpsDeploy.Sync

open List

variable {ctx : Ctx} {w : World} {s s' : St} {tasks : List SyncTask} {t : SyncTask} {C : CallSet} {R : ResultSet}
  {L : SyncTask → Prop} {P : Event → Prop}

/-! ## Restored contexts -/

theorem mem_restore_getState (r : ResourceSyncResult) : r ∈ (restore (getState s)).syncRes ↔ r ∈ s.syncRes := by
  have hp : ((getState s).results).Perm s.syncRes.values := perm_insertionSort _ _
  have hno : ((getState s).results.map ResourceSyncResult.resultKey).Nodup :=
    (hp.map _).nodup_iff.2 s.syncRes.nodup
  exact (KeyedMap.mem_ofList hno r).trans hp.mem_iff

theorem restore_fresh (o : OperationState) : Fresh (restore o) := fun _ => .inl rfl

theorem getSyncTasks_calls {o : OperationState} {e : Event} (he : e ∈ (getSyncTasks ctx w (restore o)).s.log) :
    planCalls e.call := by
  rw [getSyncTasks_copied.log] at he
  rcases Does.new_call planTasks_does e he with ho | hne
  · cases ho
  · exact hne

/-! ## How a call is composed -/

/-- relations between states that hold over a call once they hold over its parts -/
structure Composes (Q : St → St → Prop) : Prop where
  refl : ∀ s, Q s s
  trans : ∀ {s s' s''}, Q s s' → Q s' s'' → Q s s''
  setPhase : ∀ s phase message, Q s (s.setOperationPhase phase message)

theorem composes_does : Composes (Does C R L) := ⟨fun _ => .refl, .trans, fun _ _ _ => Does.setPhase .refl⟩

/-- the hooks that are deleted when all tasks are done -/
def PendingDeletion (tasks : List SyncTask) (s : St) (hooks : List SyncTask) : Prop :=
  hooks = hooksPendingDeletionSuccessful tasks s ∨ hooks = hooksPendingDeletionFailed tasks s

theorem PendingDeletion.mem {hooks : List SyncTask} (h : PendingDeletion tasks s hooks) (ht : t ∈ hooks) :
    t ∈ tasks ∧ t.isHook = true := by
  rcases h with rfl | rfl
  · simp only [hooksPendingDeletionSuccessful, mem_filter, Bool.and_eq_true] at ht
    exact ⟨ht.1, ht.2.1.1⟩
  · simp only [hooksPendingDeletionFailed, mem_filter, Bool.and_eq_true] at ht
    exact ⟨ht.1, ht.2.1.1⟩

theorem mem_pendingTasks (h : t ∈ pendingTasks ctx tasks s) :
    t ∈ regularTasks tasks ∧ (s.task t).operationState = none := by
  obtain ⟨ht, hp⟩ := mem_filter.1 (mem_filterOutOfSyncTasks h)
  exact ⟨ht, by simpa [TaskState.pending] using hp⟩

theorem mem_of_mem_nextWave {first : SyncTask} (h : t ∈ (nextWave tasks (pendingTasks ctx tasks s) s first).tasks) :
    t ∈ tasks := (mem_filter.1 (mem_pendingTasks (mem_filter.1 h).1).1).1

section Compose

variable {Q : St → St → Prop} (hQ : Composes Q)

include hQ

theorem setRunningPhase_composed {ts : List SyncTask} {deletion : Bool} : Q s (setRunningPhase ctx ts deletion s) := by
  unfold setRunningPhase
  split <;> exact hQ.setPhase _ _ _

theorem foldl_composed {f : St → SyncTask → St} {ts : List SyncTask} (hf : ∀ t ∈ ts, ∀ s, Q s (f s t)) :
    Q s (ts.foldl f s) := by
  induction ts generalizing s with
  | nil => exact hQ.refl s
  | cons t ts ih =>
    exact hQ.trans (hf t mem_cons_self s) (ih fun u hu => hf u (mem_cons_of_mem _ hu))

variable {s0 : St}
  (hfail : ∀ failed message s, Q s (executeSyncFailPhase ctx w (syncFailTasks tasks) failed message s).2)
  (hdelete : ∀ hooks, PendingDeletion tasks s0 hooks → ∀ s, Q s (deleteHooks ctx w hooks s))

include hfail hdelete

theorem finishWave_composed {pending : List SyncTask} {first : SyncTask} {state : RunState} :
    Q s (finishWave ctx w (nextWave tasks pending s0 first) (state, s)) := by
  cases state with
  | pending => exact setRunningPhase_composed hQ
  | successful =>
    simp only [finishWave, waveSuccessful]
    split_ifs
    · exact hQ.trans (hdelete _ (.inl rfl) _) (hQ.setPhase _ _ _)
    · exact setRunningPhase_composed hQ
  | failed =>
    simp only [finishWave, waveFailed]
    split_ifs
    · exact hQ.trans (hfail _ _ _) (setRunningPhase_composed hQ)
    · exact hQ.trans (hfail _ _ _) (setRunningPhase_composed hQ)
    · exact setRunningPhase_composed hQ
    · exact hQ.trans (hfail _ _ _) (hdelete _ (.inr rfl) _)
    · exact hfail _ _ _

/-- **The decision**, from its parts. -/
theorem proceed_composed
    (hwave : (regularTasks tasks).any (isUnsuccessful s0) = false →
      ∀ first, (pendingTasks ctx tasks s0).head? = some first →
      Q s0 (runTasks ctx w (nextWave tasks (pendingTasks ctx tasks s0) s0 first).tasks false
        (s0.setOperationPhase .running "one or more tasks are running")).2)
    (hhook : ∀ s phase wave final err, Q s (s.emit (.waveHook phase wave final err)))
    (hterminate : ∀ ts, (∀ t ∈ ts, t ∈ tasks ∧ t.isHook = true) → ∀ s, Q s0 s →
      Q s (terminateHooksPreemptively ctx w ts s).2) : Q s0 (proceed ctx w tasks s0) := by
  unfold proceed
  split_ifs with hf
  · exact hQ.trans (hdelete _ (.inr rfl) _) (hfail _ _ _)
  simp only [Bool.not_eq_true] at hf
  dsimp only
  split
  · exact hQ.trans (hdelete _ (.inl rfl) _) (hQ.setPhase _ _ _)
  · rename_i first rest hp
    have hw := hwave hf first (by rw [hp, List.head?_cons])
    have he (final err) := hQ.trans hw (hhook _ first.phase first.wave final err)
    unfold runWave
    dsimp only
    split_ifs
    · split
      · exact hQ.trans (he _ _) (finishWave_composed hQ hfail hdelete)
      · refine hQ.trans (hQ.trans (he _ _) (hterminate _ (fun t ht => ?_) _ (he _ _))) (hQ.setPhase _ _ _)
        exact ⟨mem_of_mem_nextWave (mem_filter.1 ht).1, (mem_filter.1 ht).2⟩
    · exact hQ.trans hw (finishWave_composed hQ hfail hdelete)

omit hfail hdelete

theorem advance_composed (hupdate : Q s (updateRunningTasks w tasks s))
    (hmissing : ∀ t ∈ awaitedTasks tasks (updateRunningTasks w tasks s), ∀ s, Q s (checkMissing w s t))
    (hfinalizers : ∀ s, Q s (removeCompletedFinalizers w tasks s))
    (hproceed : awaitedTasks tasks (updateRunningTasks w tasks s) = [] →
      Q (removeCompletedFinalizers w tasks (updateRunningTasks w tasks s))
        (proceed ctx w tasks (removeCompletedFinalizers w tasks (updateRunningTasks w tasks s)))) :
    Q s (advance ctx w tasks s) := by
  unfold advance
  dsimp only
  split_ifs with ha
  · exact hQ.trans hupdate (hQ.trans (foldl_composed hQ hmissing) (setRunningPhase_composed hQ))
  · exact hQ.trans hupdate (setRunningPhase_composed hQ)
  · exact hQ.trans hupdate (hQ.trans (hfinalizers _) (hproceed (not_not.1 ha)))

theorem validate_composed
    (hns : ∀ ns, s.started = false → getNamespaceCreationTask ctx s tasks = some ns →
      Q s (runTasks ctx w [ns] false s).2)
    (hdry : ∀ ts, (∀ t ∈ ts, t ∈ tasks) → ∀ s, Q s (runTasks ctx w ts true s).2)
    (h : validate ctx w tasks s = .stop s' ∨ validate ctx w tasks s = .go s') : Q s s' := by
  have hva {ts : List SyncTask} {s1 : St} (hts : ∀ t ∈ ts, t ∈ tasks)
      (h : validateTasks ctx w ts s1 = .stop s' ∨ validateTasks ctx w ts s1 = .go s') : Q s1 s' := by
    have hr := hdry (filterOutOfSyncTasks ctx s1 ts) (fun t ht => hts t (mem_filterOutOfSyncTasks ht)) s1
    unfold validateTasks at h
    dsimp only at h
    split_ifs at h
    · rcases h with h | h <;> cases h
      exact hQ.trans hr (hQ.setPhase _ _ _)
    · rcases h with h | h <;> cases h
      exact hr
  unfold validate at h
  split_ifs at h with hs
  · rcases h with h | h <;> cases h
    exact hQ.refl s
  cases hn : getNamespaceCreationTask ctx s tasks with
  | none =>
    simp only [hn] at h
    exact hva (fun _ h => h) h
  | some ns =>
    have hr := hns ns (Bool.not_eq_true _ ▸ hs) hn
    simp only [hn] at h
    split_ifs at h
    · rcases h with h | h <;> cases h
      exact hQ.trans hr (hQ.setPhase _ _ _)
    · exact hQ.trans hr (hva (fun t ht => (mem_filter.1 ht).1) h)

end Compose

/-! ## A call keeps the results sane -/

/-- results that parts of a call may set: sane ones of its tasks -/
def SetsSane (tasks : List SyncTask) (R : ResultSet) : Prop :=
  ∀ s t status state, Booked tasks s → R s t status state → t ∈ tasks ∧ IsSane status state

variable {T : SyncTask → Prop}

theorem setsSane_run {dryRun : Bool} (hT : ∀ t, T t → t ∈ tasks) :
    SetsSane tasks (runResult ctx dryRun T) := fun _ _ _ _ _ h => runResult_sane hT h

theorem setsSane_error (hT : ∀ t, T t → t ∈ tasks) :
    SetsSane tasks fun _ t _ state => T t ∧ state = some .error := by
  intro s t status state _ h
  rw [h.2]
  exact ⟨hT t h.1, isSane_error status⟩

theorem setsSane_completed (hT : ∀ t, T t → t ∈ tasks) : SetsSane tasks (completedResult T) := by
  intro s t status state _ ⟨ht, phase, hp, hc⟩
  rw [hp]
  exact ⟨hT t ht, isSane_completed hc⟩

theorem isHook_of_unmodified (h : isUnmodified ctx s t = true) : t.isHook = false := by
  simp only [isUnmodified, Bool.and_eq_true, Bool.not_eq_true'] at h
  exact h.1.1.1

theorem pending_or_unmodified {s0 : St} (hr : Ready ctx tasks s0 s) (ht : t ∈ regularTasks tasks)
    (hs : (s.task t).operationState = none) :
    t ∈ pendingTasks ctx tasks s ∨ (ctx.applyOutOfSyncOnly = true ∧ isUnmodified ctx s0 t = true) := by
  have hp : t ∈ (regularTasks tasks).filter fun t => (s.task t).pending :=
    mem_filter.2 ⟨ht, by simp [TaskState.pending, hs]⟩
  by_cases hun : ctx.applyOutOfSyncOnly = true ∧ isUnmodified ctx s t = true
  · have hl := hr.live t (mem_filter.1 ht).1 (isHook_of_unmodified hun.2)
    exact .inr ⟨hun.1, by simpa only [isUnmodified, hl] using hun.2⟩
  left
  unfold pendingTasks filterOutOfSyncTasks
  split_ifs with hc
  · exact mem_filter.2 ⟨hp, by simpa [hc] using hun⟩
  · exact hp

theorem advance_booked (hn : (tasks.map SyncTask.ptr).Nodup) (hb : Booked tasks s) :
    Booked tasks (advance ctx w tasks s) := by
  have hQ : Composes fun s s' => Booked tasks s → Booked tasks s' :=
    ⟨fun _ hb => hb, fun h h' hb => h' (h hb), fun _ _ _ hb => hb.setPhase⟩
  refine advance_composed hQ ?_ (fun t ht s hb => ?_) (fun s hb => ?_) (fun _ => ?_) hb
  · exact fun hb => (updateRunningTasks_does (L := fun _ => False) hn).booked hn hb fun _ _ _ _ hb h =>
      updateResult_sane hb h
  · exact (checkMissing_does (L := fun _ => False) (mem_filter.1 ht).1).booked hn hb (setsSane_error fun _ h => h)
  · exact (removeCompletedFinalizers_does hn).booked hn hb fun _ _ _ _ _ h => finalizerResult_sane h
  · refine proceed_composed hQ (fun _ _ s hb => ?_) (fun hooks hh s hb => ?_) (fun _ first _ hb => ?_) ?_
      (fun ts hts s _ hb => ?_)
    · exact (executeSyncFailPhase_does fun t ht => (mem_filter.1 ht).1).booked hn hb (setsSane_run fun _ h => h)
    · exact (deleteHooks_does (L := fun _ => False) fun t ht => (hh.mem ht).1).booked hn hb (setsSane_error fun _ h => h)
    · exact (runTasks_does (Bool.false_or _) fun t => mem_of_mem_nextWave).booked hn hb.setPhase (setsSane_run fun _ h => h)
    · exact fun _ _ _ _ _ hb => hb.emit
    · exact (terminateHooksPreemptively_does fun t ht => (hts t ht).1).booked hn hb (setsSane_completed fun _ h => h)

theorem validate_booked (hn : (tasks.map SyncTask.ptr).Nodup) (hb : Booked tasks s)
    (h : validate ctx w tasks s = .stop s' ∨ validate ctx w tasks s = .go s') : Booked tasks s' := by
  have hrun (ts : List SyncTask) (hts : ∀ t ∈ ts, t ∈ tasks) (dry : Bool) (s : St) (hb : Booked tasks s) :
      Booked tasks (runTasks ctx w ts dry s).2 := (runTasks_does rfl hts).booked hn hb (setsSane_run fun _ h => h)
  refine validate_composed (Q := fun s s' => Booked tasks s → Booked tasks s') ?_ (fun ns _ hns => ?_)
    (fun ts hts => hrun ts hts true) h hb
  · exact ⟨fun _ hb => hb, fun h h' hb => h' (h hb), fun _ _ _ hb => hb.setPhase⟩
  · refine hrun [ns] (fun t ht => ?_) false s
    rw [mem_singleton.1 ht]
    exact (namespace_missing hns).1

/-- a stop of validation ends the operation -/
theorem validate_stop_phase (h : validate ctx w tasks s = .stop s') : s'.phase = some .failed := by
  have ht : ∀ ts s, validateTasks ctx w ts s = .stop s' → s'.phase = some .failed := by
    intro ts s h
    unfold validateTasks at h
    dsimp only at h
    split_ifs at h
    cases h
    rfl
  unfold validate at h
  split_ifs at h
  split at h
  · exact ht _ _ h
  · dsimp only at h
    split_ifs at h
    · cases h
      rfl
    · exact ht _ _ h

section Sync

variable (ctx w s)

theorem sync_eq : sync ctx w s =
    if (getSyncTasks ctx w s).successful then
      match validate ctx w (getSyncTasks ctx w s).tasks (getSyncTasks ctx w s).s with
      | .stop s => s
      | .go s' => advance ctx w (getSyncTasks ctx w s).tasks s'
    else (getSyncTasks ctx w s).s.setOperationPhase .failed
      (invalidMessage (getSyncTasks ctx w s).s.syncRes.values) := rfl

variable {ctx w s}

theorem sync_of_invalid (hok : (getSyncTasks ctx w s).successful = false) :
    sync ctx w s = (getSyncTasks ctx w s).s.setOperationPhase .failed
      (invalidMessage (getSyncTasks ctx w s).s.syncRes.values) := by
  rw [sync_eq, hok]
  rfl

theorem sync_of_stop (hok : (getSyncTasks ctx w s).successful = true)
    (h : validate ctx w (getSyncTasks ctx w s).tasks (getSyncTasks ctx w s).s = .stop s') : sync ctx w s = s' := by
  rw [sync_eq, hok, h]
  rfl

theorem sync_of_go (hok : (getSyncTasks ctx w s).successful = true)
    (h : validate ctx w (getSyncTasks ctx w s).tasks (getSyncTasks ctx w s).s = .go s') :
    sync ctx w s = advance ctx w (getSyncTasks ctx w s).tasks s' := by
  rw [sync_eq, hok, h]
  rfl

end Sync

theorem sync_sane (hs : SaneResults s) (hf : Fresh s) : SaneResults (sync ctx w s) := by
  have hsa : SaneResults (getSyncTasks ctx w s).s := getSyncTasks_sane hs
  have hn := @getSyncTasks_nodup ctx w s
  have ha := @getSyncTasks_agrees ctx w s hf
  unfold sync
  dsimp only
  split_ifs
  · split
    · rename_i s' hst
      exact (validate_booked hn (booked_of_agrees hsa ha) (.inl hst)).sane
    · rename_i s' hgo
      exact (advance_booked hn (validate_go hn ha hsa hgo).booked).sane
  · exact hsa

/-! ## Operations -/

/-- the state of a new operation -/
def newOperation : OperationState := ⟨none, "", []⟩

/-- the states an operation reaches by calls of `Sync`, whatever the contexts and the cluster -/
inductive Reached : OperationState → Prop
  | start : Reached newOperation
  | sync {o : OperationState} (h : Reached o) (ctx : Ctx) (w : World) : Reached (getState (sync ctx w (restore o)))

theorem reached_sane {o : OperationState} (h : Reached o) : SaneResults (restore o) := by
  induction h with
  | start => exact nofun
  | sync _ ctx w ih => exact fun r hr => sync_sane ih (restore_fresh _) r ((mem_restore_getState r).1 hr)

/-! ## The calls after validation -/

def callKinds (dryRun : Bool) : List CallKind := runKinds dryRun ++ [.discover, .get, .update, .delete, .health, .waveHook]

/-- whatever is recorded -/
abbrev Makes (C : CallSet) : St → St → Prop := Does C (fun _ _ _ _ => True) fun _ => True

/-- the calls outside of `runTasks`: only hooks are deleted -/
def otherCalls : CallSet := fun c =>
  c.kind ∈ [.discover, .get, .update, .delete, .health, .waveHook] ∧
    (c.kind = .delete → ∀ t ∈ c.task?, t.isHook = true)

variable {kinds : List CallKind} {T : SyncTask → Prop}

theorem Does.makes (h : Does C R L s s') {C' : CallSet} (hC : C ≤ C') : Makes C' s s' :=
  h.weaken hC (fun _ _ _ _ _ => trivial) fun _ _ => trivial

theorem callsOf_other (hk : kinds ⊆ [.discover, .get, .update, .delete, .health, .waveHook])
    (hd : .delete ∈ kinds → ∀ t, T t → t.isHook = true) : callsOf kinds T ≤ otherCalls :=
  fun _ hc => ⟨hk hc.1, fun he t ht => hd (he ▸ hc.1) t (hc.2 t ht)⟩

/-- **The calls after validation**, with those of `runTasks`. -/
theorem advance_makes (hother : otherCalls ≤ C) (hrun : ∀ ts s, Makes C s (runTasks ctx w ts false s).2)
    (hn : (tasks.map SyncTask.ptr).Nodup) : Makes C s (advance ctx w tasks s) := by
  refine advance_composed composes_does ?_ (fun t _ s => ?_) (fun s => ?_) fun _ => ?_
  · exact (updateRunningTasks_does (L := fun _ => False) hn).makes ((callsOf_other (by simp) (by simp)).trans hother)
  · exact (checkMissing_does (T := fun _ => True) (L := fun _ => False) trivial).makes
      ((callsOf_other (by simp) (by simp)).trans hother)
  · exact (removeCompletedFinalizers_does hn).makes
      ((callsOf_other (by simp [finalizerKinds]) (by simp [finalizerKinds])).trans hother)
  · refine proceed_composed composes_does (fun _ _ s => ?_) (fun hooks hh s => ?_) (fun _ _ _ => ?_) (fun s _ _ _ _ => ?_)
      (fun ts hts s _ => ?_)
    · unfold executeSyncFailPhase
      split_ifs
      · exact Does.setPhase .refl
      · exact Does.setPhase .refl
      · exact (hrun _ _).trans setRunningPhase_does
    · exact (deleteHooks_does (L := fun _ => False) fun t ht => (hh.mem ht).2).makes
        ((callsOf_other (by simp) fun _ _ h => h).trans hother)
    · exact (Does.setPhase .refl).trans (hrun _ _)
    · exact Does.emit .refl (hother _ ⟨by simp [Call.kind], nofun⟩)
    · exact (terminateHooksPreemptively_does fun t ht => (hts t ht).2).makes
        ((callsOf_other (by simp [terminateKinds]) fun _ _ h => h).trans hother)

theorem advance_proceeds (hn : (tasks.map SyncTask.ptr).Nodup) :
    Makes (callsOf (callKinds ctx.dryRun) fun _ => True) s (advance ctx w tasks s) := by
  refine advance_makes (fun c hc => ⟨?_, fun _ _ => trivial⟩) (fun tasks s => ?_) hn
  · exact mem_append_right _ hc.1
  · refine (runTasks_does (T := fun _ => True) (Bool.false_or _) fun _ _ => trivial).makes (callsOf_le ?_ fun _ h => h)
    exact subset_append_left _ _

/-! ## Deploying calls -/

/-- the task is applied, not as a dry run, or pruned -/
def Call.Deploys (c : Call) (t : SyncTask) : Prop := (c.kind = .apply .none ∨ c.kind = .prune) ∧ c.task? = some t

theorem not_deploys {c : Call} (h : callsOf kinds T c)
    (hk : .apply .none ∉ kinds ∧ .prune ∉ kinds) : ¬ c.Deploys t := by
  intro hd
  rcases hd.1 with he | he
  · exact hk.1 (he ▸ h.1)
  · exact hk.2 (he ▸ h.1)

theorem deploys_of {c : Call} (h : callsOf kinds T c)
    (hd : c.Deploys t) : T t := h.2 t hd.2

/-- the new events of a part -/
def Logs (P : Event → Prop) (s s' : St) : Prop := ∀ e ∈ s'.log, e ∈ s.log ∨ P e

theorem Logs.refl : Logs P s s := fun _ he => .inl he

theorem Logs.trans {s'' : St} (h : Logs P s s') (h' : Logs P s' s'') : Logs P s s'' := by
  intro e he
  rcases h' e he with he | he
  · exact h e he
  · exact .inr he

theorem Does.logs (h : Does C R L s s') (hP : ∀ e : Event, C e.call → P e) : Logs P s s' :=
  fun e he => (h.new_call e he).imp_right (hP e)

/-- the task is the application's namespace, which a first call creates before validation -/
def EarlyNamespace (ctx : Ctx) (p : Planned) (t : SyncTask) : Prop :=
  p.s.started = false ∧ getNamespaceCreationTask ctx p.s p.tasks = some t

/-- an event of validation: nothing is deployed but the namespace -/
def OnlyNamespace (ctx : Ctx) (tasks : List SyncTask) (s : St) (e : Event) : Prop :=
  ∀ t, e.call.Deploys t → s.started = false ∧ getNamespaceCreationTask ctx s tasks = some t

theorem composes_logs : Composes (Logs P) := ⟨fun _ => .refl, .trans, fun _ _ _ => .refl⟩

theorem validate_logs (h : validate ctx w tasks s = .stop s' ∨ validate ctx w tasks s = .go s') :
    Logs (OnlyNamespace ctx tasks s) s s' := by
  refine validate_composed composes_logs (fun ns hs hns => ?_) (fun ts _ s1 => ?_) h
  · have hdo : Runs ctx ctx.dryRun (· = ns) s (runTasks ctx w [ns] false s).2 :=
      runTasks_does (Bool.false_or _) fun t ht => mem_singleton.1 ht
    exact hdo.logs fun e hc t hd => ⟨hs, (deploys_of hc hd) ▸ hns⟩
  · have hdo : Runs ctx true (fun _ => True) s1 (runTasks ctx w ts true s1).2 :=
      runTasks_does (Bool.true_or _) fun _ _ => trivial
    exact hdo.logs fun e hc t hd => absurd hd (not_deploys hc (by simp [runKinds]))

/-- what is deployed is a hook of failure -/
def Event.OnlySyncFail (e : Event) : Prop := ∀ t, e.call.Deploys t → t.phase = .syncFail

section Advance

variable (hP : ∀ e : Event, e.OnlySyncFail → P e)

include hP

theorem Does.logs_other (h : Does (callsOf kinds T) R L s s') (hk : .apply .none ∉ kinds ∧ .prune ∉ kinds) :
    Logs P s s' :=
  h.logs fun e hc => hP e fun _ hd => absurd hd (not_deploys hc hk)

/-- **The decision.** Its events are those of the wave, other than what hooks of failure deploy. -/
theorem proceed_logs
    (hwave : (regularTasks tasks).any (isUnsuccessful s) = false →
      ∀ first, (pendingTasks ctx tasks s).head? = some first →
      Logs P s (runTasks ctx w (nextWave tasks (pendingTasks ctx tasks s) s first).tasks false
        (s.setOperationPhase .running "one or more tasks are running")).2) : Logs P s (proceed ctx w tasks s) := by
  refine proceed_composed composes_logs (fun _ _ s => ?_) (fun hooks _ s => ?_) hwave (fun s _ _ _ _ e he => ?_)
    (fun ts _ s _ => ?_)
  · refine Does.logs (executeSyncFailPhase_does (T := fun t => t.phase = .syncFail) fun t ht => ?_)
      fun e hc => hP e fun _ hd => deploys_of hc hd
    simpa using (mem_filter.1 ht).2
  · exact Does.logs_other hP (deleteHooks_does (T := fun _ => True) (L := fun _ => False) fun _ _ => trivial) (by simp)
  · rcases mem_cons.1 he with rfl | he
    · refine .inr (hP _ fun t hd => ?_)
      rcases hd.1 with h | h <;> cases h
    · exact .inl he
  · exact Does.logs_other hP (terminateHooksPreemptively_does (T := fun _ => True) fun _ _ => trivial)
      (by simp [terminateKinds])

/-- **From validation on.** -/
theorem advance_logs (hn : (tasks.map SyncTask.ptr).Nodup)
    (hproceed : awaitedTasks tasks (updateRunningTasks w tasks s) = [] →
      Logs P (removeCompletedFinalizers w tasks (updateRunningTasks w tasks s))
        (proceed ctx w tasks (removeCompletedFinalizers w tasks (updateRunningTasks w tasks s)))) :
    Logs P s (advance ctx w tasks s) := by
  refine advance_composed composes_logs ?_ (fun t _ s => ?_) (fun s => ?_) hproceed
  · exact Does.logs_other hP (updateRunningTasks_does (L := fun _ => False) hn) (by simp)
  · exact Does.logs_other hP (checkMissing_does (T := fun _ => True) (L := fun _ => False) trivial) (by simp)
  · exact Does.logs_other hP (removeCompletedFinalizers_does hn) (by simp [finalizerKinds])

end Advance

/-- **What a call deploys** is the namespace created first, or comes after validation. -/
theorem deployed_after_validation {o : OperationState} {e : Event} (he : e ∈ (sync ctx w (restore o)).log)
    (hd : e.call.Deploys t) (hns : ¬ EarlyNamespace ctx (getSyncTasks ctx w (restore o)) t) :
    ∃ s', validate ctx w (getSyncTasks ctx w (restore o)).tasks (getSyncTasks ctx w (restore o)).s = .go s' ∧
      e ∉ s'.log ∧ e ∈ (advance ctx w (getSyncTasks ctx w (restore o)).tasks s').log := by
  set p := getSyncTasks ctx w (restore o) with hp
  have hpl : e ∉ p.s.log := fun he => not_deploys (getSyncTasks_calls he) (by simp [planKinds]) hd
  have hva {s'} (hv : validate ctx w p.tasks p.s = .stop s' ∨ validate ctx w p.tasks p.s = .go s') : e ∉ s'.log := by
    intro he
    rcases validate_logs hv e he with he | he
    · exact hpl he
    · exact hns (he t hd)
  cases hok : p.successful with
  | false =>
    rw [sync_of_invalid hok] at he
    exact absurd he hpl
  | true =>
    cases hv : validate ctx w p.tasks p.s with
    | stop s' =>
      rw [sync_of_stop hok hv] at he
      exact absurd he (hva (.inl hv))
    | go s' =>
      rw [sync_of_go hok hv] at he
      exact ⟨s', rfl, hva (.inr hv), he⟩

/-! ## Terminating -/

theorem recordTerminated_stops (status : Except String (OperationPhase × String)) :
    ((recordTerminated s t status).task t).operationState ≠ some .running := by
  unfold recordTerminated
  split
  · rename_i phase message hp
    rw [operationState_setResourceResult, if_pos rfl]
    rintro ⟨⟩
    cases (Option.filter_eq_some_iff.1 hp).2
  · split_ifs with he
    · simp [operationState_setResourceResult]
    · simp [not_not.1 he]

theorem terminateHook_stops (hh : t.isHook = true) :
    ((terminateHook ctx w s t).2.task t).operationState ≠ some .running := by
  unfold terminateHook terminateLive deleteTerminated
  split_ifs with hr
  · simpa [hh, TaskState.running] using hr
  dsimp only
  repeat' split
  case h_2 => exact recordTerminated_stops _
  all_goals simp [operationState_setResourceResult]

/-- every hook is stopped in its turn, and none is started again -/
theorem terminateHooksPreemptively_stops {hooks : List SyncTask} (hh : ∀ t ∈ hooks, t.isHook = true) :
    ∀ t ∈ hooks, ((terminateHooksPreemptively ctx w hooks s).2.task t).operationState ≠ some .running := by
  induction hooks using List.reverseRecOn with
  | nil => exact nofun
  | append_singleton hooks u ih =>
    rw [forall_mem_append, forall_mem_singleton] at hh ⊢
    unfold terminateHooksPreemptively
    rw [foldl_append]
    refine ⟨fun t ht => ?_, terminateHook_stops hh.2⟩
    refine (terminateHook_does (T := fun _ => True) trivial).operationState_inv (· ≠ some .running) (ih hh.1 t ht) ?_
    rintro _ _ _ _ _ _ ⟨-, phase, rfl, hc⟩ ⟨⟩
    cases hc

/-- once the task does not run, it is not recorded as running -/
def RecordStops (t : SyncTask) (s : St) : Prop :=
  (s.task t).operationState ≠ some .running →
    ∀ r, s.syncRes.get? t.resultKey = some r → r.hookPhase ≠ some .running

/-- a result that is not Running, written for the task itself or under its key, keeps that -/
theorem Does.recordStops (h : Does C R L s s') (hs : RecordStops t s)
    (hR : ∀ s u status state, R s u status state → state ≠ some .running ∧ (t.ptr = u.ptr → t = u)) :
    RecordStops t s' := by
  refine h.inv (RecordStops t) hs fun s a hs ha => ?_
  cases ha with
  | @result u status state message h =>
    obtain ⟨hne, hu⟩ := hR _ _ _ _ h
    intro ht r hr
    change (setResourceResult s u status state message).syncRes.get? t.resultKey = some r at hr
    rw [get?_setResourceResult] at hr
    split_ifs at hr with hk
    · cases hr
      rwa [hookPhase_recordResult]
    · -- the record is that of another task
      have hp : t.ptr ≠ u.ptr := fun hp => hk (congrArg SyncTask.resultKey (hu hp))
      exact hs (fun hru => ht ((congrArg TaskState.operationState (task_setResourceResult_of_ne hp)).trans hru)) r hr
  | @live u l h => exact fun ht => hs fun hru => ht (setLiveObj_task_eq.2.trans hru)
  | _ => exact hs

theorem terminate_recordStops (o : OperationState) (ht : t ∈ (getSyncTasks ctx w (restore o)).tasks) :
    let p := getSyncTasks ctx w (restore o)
    RecordStops t (terminateHooksPreemptively ctx w (p.tasks.filter SyncTask.isHook)
      (removeCompletedFinalizers w p.tasks p.s)).2 := by
  intro p
  have hn := @getSyncTasks_nodup ctx w (restore o)
  have hp : ∀ u ∈ p.tasks, t.ptr = u.ptr → t = u := fun u hu h => inj_on_of_nodup_map hn ht hu h
  have hs : RecordStops t p.s := fun hru r hr =>
    (getSyncTasks_agrees (restore_fresh o) t ht).state r hr ▸ hru
  refine Does.recordStops (terminateHooksPreemptively_does (T := (· ∈ p.tasks)) fun _ h => (mem_filter.1 h).1)
    (Does.recordStops (removeCompletedFinalizers_does hn) hs fun _ u _ _ h => ⟨?_, hp u h.1.1⟩)
    fun _ u _ _ h => ⟨?_, hp u h.1⟩
  · rw [h.2.2]
    nofun
  · obtain ⟨-, phase, rfl, hc⟩ := h
    rintro ⟨⟩
    cases hc

theorem terminate_makes (hn : (tasks.map SyncTask.ptr).Nodup) : Makes otherCalls s
    (terminateHooksPreemptively ctx w (tasks.filter SyncTask.isHook) (removeCompletedFinalizers w tasks s)).2 :=
  ((removeCompletedFinalizers_does hn).makes (callsOf_other (by simp) (by simp))).trans
    ((terminateHooksPreemptively_does fun _ ht => (mem_filter.1 ht).2).makes (callsOf_other (by simp) fun _ _ h => h))

/-- **Terminating.** Whatever the cluster answers: nothing is applied or pruned, only hooks are deleted, and no hook is left
running or recorded as running. -/
theorem terminate_stops (ctx : Ctx) (w : World) (o : OperationState) :
    (∀ e ∈ (terminate ctx w (restore o)).log, (∀ t, ¬ e.call.Deploys t) ∧
      (e.call.kind = .delete → ∀ t ∈ e.call.task?, t.isHook = true)) ∧
    ∀ t ∈ (getSyncTasks ctx w (restore o)).tasks, t.isHook = true →
      ((terminate ctx w (restore o)).task t).operationState ≠ some .running ∧
        ∀ r, (terminate ctx w (restore o)).syncRes.get? t.resultKey = some r → r.hookPhase ≠ some .running := by
  set p := getSyncTasks ctx w (restore o)
  have ht : ∃ phase message, terminate ctx w (restore o) = (terminateHooksPreemptively ctx w
      (p.tasks.filter SyncTask.isHook) (removeCompletedFinalizers w p.tasks p.s)).2.setOperationPhase phase message := by
    unfold terminate
    dsimp only
    split_ifs <;> exact ⟨_, _, rfl⟩
  obtain ⟨phase, message, ht⟩ := ht
  rw [ht]
  refine ⟨fun e he => ?_, fun t ht hho => ?_⟩
  · rcases (terminate_makes getSyncTasks_nodup).new_call e he with hc | hc
    · have hc := getSyncTasks_calls hc
      exact ⟨fun t => not_deploys hc (by simp [planKinds]), fun hk => absurd (hk ▸ hc.1) (by simp [planKinds])⟩
    · exact ⟨fun t hd => by rcases hd.1 with h | h <;> simp [otherCalls, h] at hc, hc.2⟩
  · refine and_iff_left_of_imp (terminate_recordStops o ht) |>.mpr ?_
    exact terminateHooksPreemptively_stops (fun t ht => (mem_filter.1 ht).2) t (mem_filter.2 ⟨ht, hho⟩)

/-! ## A calm cluster -/

/-- a cluster that accepts everything, finds nothing and has nothing to say about health -/
def calmWorld : World where
  discover _ _ _ := none
  permissionValidator _ _ := none
  getNamespace _ _ := .error ⟨.notFound, "not found"⟩
  syncNamespace _ ns _ := (.ok false, ns.annotations)
  get _ _ := .error ⟨.notFound, "not found"⟩
  update _ _ := none
  delete _ _ := none
  deleteLive _ _ := none
  apply _ _ _ := .ok "applied"
  getFresh _ _ := .error ⟨.notFound, "not found"⟩
  upgradeManagedFieldsPatch _ _ _ := .ok none
  patch _ _ _ := none
  health _ _ := .ok none
  syncWaveHook _ _ _ _ := none
  resourceOrder _ _ l := l
  taskOrder _ _ l := l
  resourceOrder_perm _ _ _ := .refl _
  taskOrder_perm _ _ _ := .refl _

def configMap (name : String) (annotations : List (String × String)) : Obj :=
  { (default : Obj) with version := "v1", kind := "ConfigMap", ns := "app", name := name, annotations := annotations }

def taskOf (ptr : ℕ) (target : Obj) : SyncTask := ⟨ptr, .sync, .create target, false, none⟩

/-- a hook -/
def migrateHook (policy : String) (finalizers : List String) : Obj :=
  { configMap "migrate" [(annotationKeyHook, "PreSync"), (annotationKeyHookDeletePolicy, policy)] with
    kind := "Job", group := "batch", finalizers := finalizers }

/-- a context with the defaults of `NewSyncContext`, and pruning -/
def plainCtx (resources : List Reconciled) (hooks : List Obj) : Ctx where
  resources := KeyedMap.ofList resources
  hooks := hooks
  ns := "app"
  revision := "abc"
  startedAt := 0
  dryRun := false
  skipDryRunOnMissingResource := false
  force := false
  validate := true
  skipHooks := false
  resourcesFilter := none
  prune := true
  replace := false
  serverSideApply := false
  serverSideApplyManager := ""
  pruneLast := false
  prunePropagationPolicy := none
  pruneConfirmed := false
  defaultPruneOption := none
  clientSideApplyMigrationManager := "kubectl-client-side-apply"
  enableClientSideApplyMigration := true
  hasSyncNamespace := false
  hasSyncWaveHook := false
  applyOutOfSyncOnly := false
  modificationResult := []

end GitOpsDeploy.Sync

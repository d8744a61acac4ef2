/-
What the other parts of `Sync` and `Terminate` may do: updating running tasks, waiting, removing finalizers, deleting and
terminating hooks, and the phase they end in.
-/
import GitOpsDeploy.Sync.Outcome

namespace GitOpsDeploy.Sync

open Trace List

variable {ctx : Ctx} {w : World} {s : St} {t : SyncTask} {tasks : List SyncTask} {C : CallSet} {R : ResultSet}
  {L : SyncTask → Prop} {T : SyncTask → Prop}

/-! ## Loops over tasks -/

/-- each turn touches its own task only, so what held of a task before the loop holds at its turn -/
theorem Does.loop_guarded {f : St → SyncTask → St} (hn : (tasks.map SyncTask.ptr).Nodup) {G : TaskState → Prop}
    (hG : ∀ t ∈ tasks, G (s.task t)) (hf : ∀ s, ∀ t ∈ tasks, G (s.task t) → Does C R L s (f s t))
    (hfr : ∀ s t u, u.ptr ≠ t.ptr → (f s t).task u = s.task u) : Does C R L s (tasks.foldl f s) := by
  induction tasks generalizing s with
  | nil => exact .refl
  | cons u us ih =>
    obtain ⟨hu, hn⟩ := nodup_cons.1 hn
    refine (hf s u mem_cons_self (hG u mem_cons_self)).trans ?_
    refine ih hn (fun t ht => ?_) fun s t ht => hf s t (mem_cons_of_mem _ ht)
    have hne : t.ptr ≠ u.ptr := fun h => hu (h ▸ mem_map_of_mem ht)
    rw [hfr s u t hne]
    exact hG t (mem_cons_of_mem _ ht)

theorem nodup_filter {p : SyncTask → Bool} (hn : (tasks.map SyncTask.ptr).Nodup) :
    ((tasks.filter p).map SyncTask.ptr).Nodup := hn.sublist (filter_sublist.map _)

/-! ## Health -/

variable {obj : Obj} {message : String} {live : LiveObj} {u : SyncTask}

theorem getResourceHealth_does (hC : callsOf [.health] T ≤ C) : Does C R L s (getResourceHealth w s obj).2 := by
  unfold getResourceHealth
  split_ifs
  · exact .refl
  · exact Does.emit .refl (hC _ ⟨by simp [Call.kind], nofun⟩)

theorem getOperationPhase_does (hC : callsOf [.health] T ≤ C) : Does C R L s (getOperationPhase w s obj).2 := by
  unfold getOperationPhase
  dsimp only
  split <;> exact getResourceHealth_does hC

theorem getOperationPhase_ne_terminating {phase : OperationPhase}
    (h : (getOperationPhase w s obj).1 = .ok (phase, message)) : phase ≠ .terminating := by
  unfold getOperationPhase at h
  dsimp only at h
  split at h
  · cases h
  · rename_i health _
    have hp : phase = (HealthStatus.operationPhase obj health).1 := by
      rw [Except.ok.inj h]
    rw [hp]
    rcases health with _ | ⟨_ | _ | _ | _ | _ | _, _⟩ <;> exact nofun

theorem does_task_eq {s' : St} (h : Does C noResult (fun _ => False) s s') : s'.task t = s.task t :=
  h.task_eq t (fun _ _ _ _ h => h.elim) fun _ h => h.elim

theorem getOperationPhase_task : (getOperationPhase w s obj).2.task t = s.task t :=
  does_task_eq (C := fun _ => True) (getOperationPhase_does (T := fun _ => True) fun _ _ => trivial)

theorem getResourceHealth_task : (getResourceHealth w s obj).2.task t = s.task t :=
  does_task_eq (C := fun _ => True) (getResourceHealth_does (T := fun _ => True) fun _ _ => trivial)

/-! ## Running tasks -/

/-- a running task's new state: only a hook may be found running again -/
def updateResult (T : SyncTask → Prop) : ResultSet := fun s t status state =>
  T t ∧ (s.task t).running = true ∧ status = (s.task t).syncStatus ∧
    ∃ phase, state = some phase ∧ phase ≠ .terminating ∧ (phase = .running → t.isHook = true)

theorem updateRunningHook_does (ht : T t) (hho : t.isHook = true) (hr : (s.task t).running = true) :
    Does (callsOf [.health] fun _ => False) (updateResult T) L s (updateRunningHook w s t live) := by
  have hh : Does (callsOf [.health] fun _ => False) (updateResult T) L s (getOperationPhase w s (s.read live)).2 :=
    getOperationPhase_does le_rfl
  have hr' : ((getOperationPhase w s (s.read live)).2.task t).running = true := by rwa [getOperationPhase_task]
  unfold updateRunningHook
  dsimp only
  split
  · exact hh.setResult ⟨ht, hr', rfl, .error, rfl, by decide, fun _ => hho⟩
  · rename_i phase message hp
    exact hh.setResult ⟨ht, hr', rfl, phase, rfl, getOperationPhase_ne_terminating hp, fun _ => hho⟩

theorem updateRunningResource_does (ht : T t) (hr : (s.task t).running = true) :
    Does (callsOf [.health] fun _ => False) (updateResult T) L s (updateRunningResource w s t live) := by
  have hh : Does (callsOf [.health] fun _ => False) (updateResult T) L s (getResourceHealth w s (s.read live)).2 :=
    getResourceHealth_does le_rfl
  have hr' : ((getResourceHealth w s (s.read live)).2.task t).running = true := by rwa [getResourceHealth_task]
  unfold updateRunningResource
  dsimp only
  split
  · exact hh.setResult ⟨ht, hr', rfl, .succeeded, rfl, by decide, nofun⟩
  · exact hh.setResult ⟨ht, hr', rfl, .succeeded, rfl, by decide, nofun⟩
  · exact hh.setResult ⟨ht, hr', rfl, .failed, rfl, by decide, nofun⟩
  · exact hh

theorem updateRunningTask_does (ht : T t) (hr : (s.task t).running = true) :
    Does (callsOf [.health] fun _ => False) (updateResult T) L s (updateRunningTask w s t) := by
  unfold updateRunningTask
  split
  · exact .refl
  · split_ifs with hh
    · exact updateRunningHook_does ht hh hr
    · exact updateRunningResource_does ht hr

theorem updateRunningTask_other (h : t.ptr ≠ u.ptr) : (updateRunningTask w s u).task t = s.task t := by
  have hs : ∀ {s : St} {status state message}, (setResourceResult s u status state message).task t = s.task t :=
    task_setResourceResult_of_ne h
  unfold updateRunningTask
  split
  · rfl
  · split_ifs
    · unfold updateRunningHook
      dsimp only
      split <;> rw [hs, getOperationPhase_task]
    · unfold updateRunningResource
      dsimp only
      split <;> simp only [hs, getResourceHealth_task]

theorem updateRunningTasks_does (hn : (tasks.map SyncTask.ptr).Nodup) :
    Does (callsOf [.health] fun _ => False) (updateResult (· ∈ tasks)) L s (updateRunningTasks w tasks s) := by
  refine Does.loop_guarded (nodup_filter hn) (G := fun state => state.running = true) (fun t ht => ?_)
    (fun s t ht hr => ?_) fun s t u h => updateRunningTask_other h
  · exact (Bool.and_eq_true_iff.1 (mem_filter.1 ht).2).1
  · exact updateRunningTask_does (mem_filter.1 ht).1 hr

theorem checkMissing_does (ht : T t) :
    Does (callsOf [.discover, .get] T) (fun _ u _ state => T u ∧ state = some .error) L s (checkMissing w s t) := by
  have hg : Does (callsOf [.discover, .get] T) (fun _ u _ state => T u ∧ state = some .error) L s
      (getResource w s t).2 := getResource_does (callsOf_le (by simp) fun u hu => hu ▸ ht)
  unfold checkMissing
  split
  · exact .refl
  · dsimp only
    split
    · exact hg
    · split_ifs
      · exact hg.setResult ⟨ht, rfl⟩
      · exact hg.setResult ⟨ht, rfl⟩

/-! ## Hooks -/

theorem removeHookFinalizer_other (h : t.ptr ≠ u.ptr) : (removeHookFinalizer w s u).2.task t = s.task t :=
  Does.task_eq (removeHookFinalizer_does (C := fun _ => True) (R := noResult) (L := fun v => v = u) (fun _ _ => trivial)
    rfl) t (fun _ _ _ _ h => h.elim) fun _ hl => hl ▸ h

theorem does_operationState {s' : St} (h : Does C noResult L s s') :
    (s'.task t).operationState = (s.task t).operationState :=
  h.operationState_inv (· = (s.task t).operationState) rfl fun _ _ _ _ _ _ hr => hr.elim

theorem removeHookFinalizer_operationState :
    ((removeHookFinalizer w s u).2.task t).operationState = (s.task t).operationState :=
  does_operationState (removeHookFinalizer_does (C := fun _ => True) (L := fun _ => True) (fun _ _ => trivial) trivial)

/-- a completed hook whose finalizer stays -/
def finalizerResult (T : SyncTask → Prop) : ResultSet := fun s t _ state =>
  T t ∧ (s.task t).completed = true ∧ state = some .error

theorem removeCompletedFinalizer_does (ht : T t) (hc : (s.task t).completed = true) :
    Does (callsOf finalizerKinds T) (finalizerResult T) T s (removeCompletedFinalizer w s t) := by
  have hr : Does (callsOf finalizerKinds T) (finalizerResult T) T s (removeHookFinalizer w s t).2 :=
    removeHookFinalizer_does (callsOf_le (List.Subset.refl _) fun u hu => hu ▸ ht) ht
  unfold removeCompletedFinalizer
  dsimp only
  split
  · refine hr.setResult ⟨ht, ?_, rfl⟩
    unfold TaskState.completed at hc ⊢
    rwa [removeHookFinalizer_operationState]
  · exact hr

theorem removeCompletedFinalizer_other (h : t.ptr ≠ u.ptr) : (removeCompletedFinalizer w s u).task t = s.task t := by
  unfold removeCompletedFinalizer
  dsimp only
  split
  · rw [task_setResourceResult_of_ne h, removeHookFinalizer_other h]
  · exact removeHookFinalizer_other h

/-- a hook among the tasks -/
def HookIn (tasks : List SyncTask) (t : SyncTask) : Prop := t ∈ tasks ∧ t.isHook = true

theorem removeCompletedFinalizers_does (hn : (tasks.map SyncTask.ptr).Nodup) :
    Does (callsOf finalizerKinds (HookIn tasks)) (finalizerResult (HookIn tasks)) (HookIn tasks) s
      (removeCompletedFinalizers w tasks s) := by
  refine Does.loop_guarded (nodup_filter hn) (G := fun state => state.completed = true) (fun t ht => ?_)
    (fun s t ht hc => ?_) fun s t u h => removeCompletedFinalizer_other h
  · exact (Bool.and_eq_true_iff.1 (mem_filter.1 ht).2).2
  · obtain ⟨ht, hp⟩ := mem_filter.1 ht
    exact removeCompletedFinalizer_does ⟨ht, (Bool.and_eq_true_iff.1 hp).1⟩ hc

theorem deleteHooks_does {hooks : List SyncTask} (hT : ∀ t ∈ hooks, T t) :
    Does (callsOf [.discover, .delete] T) (fun _ t _ state => T t ∧ state = some .error) L s
      (deleteHooks ctx w hooks s) := by
  refine Does.loop fun s t ht => ?_
  have hd : Does (callsOf [.discover, .delete] T) (fun _ t _ state => T t ∧ state = some .error) L s
      (deleteResource ctx w s t).2 := deleteResource_does (callsOf_le (List.Subset.refl _) fun u hu => hu ▸ hT t ht)
  unfold deleteHook
  dsimp only
  split
  · split_ifs
    · exact hd
    · exact hd.setResult ⟨hT t ht, rfl⟩
  · exact hd

/-- calls for a running hook that is terminated -/
abbrev terminateKinds : List CallKind := [.discover, .get, .update, .delete, .health]

/-- a completed state -/
def completedResult (T : SyncTask → Prop) : ResultSet := fun _ t _ state =>
  T t ∧ ∃ phase, state = some phase ∧ phase.completed = true

/-- the effects of terminating tasks in T -/
abbrev Terminates (T : SyncTask → Prop) : St → St → Prop := Does (callsOf terminateKinds T) (completedResult T) T

theorem fetchLiveObj_does (ht : T t) : Terminates T s (fetchLiveObj w s t).2 := by
  have hg : Terminates T s (getResource w s t).2 :=
    getResource_does (callsOf_le (by simp [terminateKinds]) fun u hu => hu ▸ ht)
  unfold fetchLiveObj
  split
  · exact .refl
  · dsimp only
    split
    · exact hg.setLive ht
    · split_ifs
      · exact hg.setLive ht
      · exact hg

theorem hookStatus_does (ht : T t) : Terminates T s (hookStatus w s t live).2 := by
  have hh : Terminates T s (getOperationPhase w s (s.read live)).2 :=
    getOperationPhase_does (callsOf_le (by simp [terminateKinds]) fun u hu => hu)
  unfold hookStatus
  dsimp only
  split
  · exact hh.setResult ⟨ht, .error, rfl, rfl⟩
  · exact hh

theorem recordTerminated_does {status : Except String (OperationPhase × String)} (ht : T t) :
    Terminates T s (recordTerminated s t status) := by
  unfold recordTerminated
  split
  · rename_i phase message hp
    exact Does.setResult .refl ⟨ht, phase, rfl, (Option.filter_eq_some_iff.1 hp).2⟩
  · split_ifs
    · exact Does.setResult .refl ⟨ht, .failed, rfl, rfl⟩
    · exact .refl

theorem deleteTerminated_does {status : Except String (OperationPhase × String)} (ht : T t) :
    Terminates T s (deleteTerminated ctx w s t status).2 := by
  have hd : Terminates T s (deleteUnfinished ctx w s t status).2 := by
    unfold deleteUnfinished
    split_ifs
    · exact deleteResource_does (callsOf_le (by simp [terminateKinds]) fun u hu => hu ▸ ht)
    · exact .refl
  unfold deleteTerminated
  dsimp only
  split
  · exact hd.setResult ⟨ht, .failed, rfl, rfl⟩
  · exact hd.trans (recordTerminated_does ht)

theorem terminateLive_does (ht : T t) : Terminates T s (terminateLive ctx w s t live).2 := by
  have hr : Terminates T s (removeHookFinalizer w (hookStatus w s t live).2 t).2 := by
    refine (hookStatus_does ht).trans (removeHookFinalizer_does (callsOf_le ?_ fun u hu => hu ▸ ht) ht)
    simp [finalizerKinds, terminateKinds]
  unfold terminateLive
  dsimp only
  split
  · exact hr.setResult ⟨ht, .error, rfl, rfl⟩
  · exact hr.trans (deleteTerminated_does ht)

theorem terminateHook_does (ht : T t) : Terminates T s (terminateHook ctx w s t).2 := by
  unfold terminateHook
  split_ifs
  · exact .refl
  · dsimp only
    split
    · exact (fetchLiveObj_does ht).setResult ⟨ht, .error, rfl, rfl⟩
    · split
      · exact (fetchLiveObj_does ht).setResult ⟨ht, .succeeded, rfl, rfl⟩
      · exact (fetchLiveObj_does ht).trans (terminateLive_does ht)

theorem terminateHooksPreemptively_does (hT : ∀ t ∈ tasks, T t) :
    Terminates T s (terminateHooksPreemptively ctx w tasks s).2 :=
  Reach.foldl (fun p t => (p.1 && (terminateHook ctx w p.2 t).1, (terminateHook ctx w p.2 t).2)) tasks true s
    fun _ _ t ht => terminateHook_does (hT t ht)

/-! ## The phase of the operation -/

theorem setRunningPhase_does {deletion : Bool} : Does C R L s (setRunningPhase ctx tasks deletion s) := by
  unfold setRunningPhase
  split <;> exact Does.setPhase .refl

theorem setRunningPhase_phase {deletion : Bool} : (setRunningPhase ctx tasks deletion s).phase = some .running := by
  unfold setRunningPhase
  split <;> rfl

theorem executeSyncFailPhase_does {syncFailedTasks : List SyncTask} (hT : ∀ t ∈ tasks, T t) :
    Runs ctx ctx.dryRun T s (executeSyncFailPhase ctx w tasks syncFailedTasks message s).2 := by
  unfold executeSyncFailPhase
  split_ifs
  · exact Does.setPhase .refl
  · exact Does.setPhase .refl
  · exact (runTasks_does (Bool.false_or _) fun t ht => hT t (mem_filter.1 ht).1).trans setRunningPhase_does

theorem executeSyncFailPhase_phase {syncFailedTasks : List SyncTask} :
    (executeSyncFailPhase ctx w tasks syncFailedTasks message s).2.phase ≠ some .succeeded := by
  unfold executeSyncFailPhase
  split_ifs
  · exact nofun
  · exact nofun
  · exact fun h => nomatch setRunningPhase_phase.symm.trans h

theorem deleteResource_phase : (deleteResource ctx w s t).2.phase = s.phase := by
  unfold deleteResource
  dsimp only
  split <;> rfl

theorem deleteHooks_phase {hooks : List SyncTask} : (deleteHooks ctx w hooks s).phase = s.phase := by
  unfold deleteHooks
  induction hooks generalizing s with
  | nil => rfl
  | cons t ts ih =>
    rw [foldl_cons, ih]
    unfold deleteHook
    dsimp only
    split
    · split_ifs
      · exact deleteResource_phase
      · exact deleteResource_phase
    · exact deleteResource_phase

end GitOpsDeploy.Sync

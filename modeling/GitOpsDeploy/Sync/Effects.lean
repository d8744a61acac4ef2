/-
What the parts of the sync engine may do to the state.

Every part is a sequence of primitive actions: calls, results, new live objects, changed finalizers, phases of the
operation. `Does C R L s s'` says that s' is reached from s by calls in C, results in R and new live objects of tasks in L,
and anything else. One lemma a part says which these are, so that invariants need only be shown for single actions.
-/
import Mathlib.Data.List.SplitBy
import GitOpsDeploy.Core.Trace
import GitOpsDeploy.Sync.Engine

namespace GitOpsDeploy.Sync

open Trace List Function

/-! ## Actions -/

inductive Action where
  | call (c : Call)
  | result (t : SyncTask) (syncStatus : Option ResultCode) (operationState : Option OperationPhase) (message : String)
  | live (t : SyncTask) (l : Option LiveObj)
  | finalizers (l : LiveObj) (fs : List String)
  | phase (p : OperationPhase) (message : String)

def Action.apply : Action → St → St
  | .call c, s => s.emit c
  | .result t syncStatus operationState message, s => setResourceResult s t syncStatus operationState message
  | .live t l, s => s.setLiveObj t l
  | .finalizers l fs, s => s.setFinalizers l fs
  | .phase p message, s => s.setOperationPhase p message

inductive CallKind where
  | discover
  | validatePermission
  | getNamespace
  | syncNamespace
  | get
  | update
  | delete
  | prune
  | apply (strategy : DryRunStrategy)
  | getFresh
  | patch
  | crdReady
  | health
  | waveHook
  deriving DecidableEq, Repr

def Call.kind : Call → CallKind
  | .discover .. => .discover
  | .validatePermission .. => .validatePermission
  | .getNamespace .. => .getNamespace
  | .syncNamespace .. => .syncNamespace
  | .get .. => .get
  | .update .. => .update
  | .delete .. => .delete
  | .prune .. => .prune
  | .apply _ _ strategy _ => .apply strategy
  | .getFresh .. => .getFresh
  | .patch .. => .patch
  | .crdReady .. => .crdReady
  | .health .. => .health
  | .waveHook .. => .waveHook

/-- the task a call is made for -/
def Call.task? : Call → Option SyncTask
  | .get t _ | .update t _ _ | .delete t _ _ | .prune t _ _ _ | .apply t _ _ _ => some t
  | _ => none

abbrev CallSet := Call → Prop

abbrev ResultSet := St → SyncTask → Option ResultCode → Option OperationPhase → Prop

inductive Allowed (C : CallSet) (R : ResultSet) (L : SyncTask → Prop) (s : St) : Action → Prop
  | call {c : Call} (h : C c) : Allowed C R L s (.call c)
  | result {t : SyncTask} {syncStatus : Option ResultCode} {operationState : Option OperationPhase} (message : String)
      (h : R s t syncStatus operationState) : Allowed C R L s (.result t syncStatus operationState message)
  | live {t : SyncTask} (l : Option LiveObj) (h : L t) : Allowed C R L s (.live t l)
  /-- finalizers are taken off an object that is updated next -/
  | finalizers (l : LiveObj) (fs : List String) (h : ∃ c, C c ∧ c.kind = .update) : Allowed C R L s (.finalizers l fs)
  | phase (p : OperationPhase) (message : String) : Allowed C R L s (.phase p message)

abbrev Does (C : CallSet) (R : ResultSet) (L : SyncTask → Prop) : St → St → Prop :=
  Reach Action.apply (Allowed C R L)

/-- no results -/
def noResult : ResultSet := fun _ _ _ _ => False

/-- calls of these kinds, and those for a task only for these tasks -/
def callsOf (kinds : List CallKind) (T : SyncTask → Prop) : CallSet := fun c => c.kind ∈ kinds ∧ ∀ t ∈ c.task?, T t

variable {C C' : CallSet} {R R' : ResultSet} {L L' : SyncTask → Prop} {s s' s'' : St}

/-! ## Rules -/

theorem Does.weaken (h : Does C R L s s') (hC : ∀ c, C c → C' c)
    (hR : ∀ s t status state, R s t status state → R' s t status state) (hL : ∀ t, L t → L' t) :
      Does C' R' L' s s' := by
  refine h.mono fun s a ha => ?_
  cases ha with
  | call h => exact .call (hC _ h)
  | result message h => exact .result message (hR _ _ _ _ h)
  | live l h => exact .live l (hL _ h)
  | finalizers l fs h => exact .finalizers l fs (h.imp fun c hc => ⟨hC c hc.1, hc.2⟩)
  | phase phase message => exact .phase phase message

theorem Does.emit (h : Does C R L s s') {c : Call} (hc : C c) : Does C R L s (s'.emit c) :=
  Reach.tail (Action.call c) h (.call hc)

variable {t u : SyncTask} {message : String} {status : Option ResultCode} {T : SyncTask → Prop} {result : ResultCode}

section

variable (h : Does C R L s s')

include h

theorem Does.setResult {state : Option OperationPhase} (hr : R s' t status state) :
    Does C R L s (setResourceResult s' t status state message) :=
  Reach.tail (Action.result t status state message) h (.result message hr)

theorem Does.setLive {l : Option LiveObj} (ht : L t) : Does C R L s (s'.setLiveObj t l) :=
  Reach.tail (Action.live t l) h (.live l ht)

theorem Does.setPhase {phase : OperationPhase} : Does C R L s (s'.setOperationPhase phase message) :=
  Reach.tail (Action.phase phase message) h (.phase phase message)

theorem Does.log_suffix : s.log <:+ s'.log := by
  refine h.inv (fun t => s.log <:+ t.log) (suffix_refl _) fun t a ht ha => ?_
  cases ha with
  | call h => exact ht.trans (suffix_cons _ _)
  | _ => exact ht

theorem Does.new_call : ∀ e ∈ s'.log, e ∈ s.log ∨ C e.call := by
  refine h.inv (fun t => ∀ e ∈ t.log, e ∈ s.log ∨ C e.call) (fun e he => .inl he) fun t a ht ha => ?_
  cases ha with
  | call h =>
    intro e he
    rcases mem_cons.1 he with rfl | he
    · exact .inr h
    · exact ht e he
  | _ => exact ht

/-- without updates no finalizer is taken off -/
theorem Does.heap_eq (hC : ∀ c, C c → c.kind ≠ .update) : s'.heap = s.heap := by
  refine h.inv (fun t => t.heap = s.heap) rfl fun t a ht ha => ?_
  cases ha with
  | finalizers l fs h =>
    obtain ⟨c, hc, hk⟩ := h
    exact absurd hk (hC c hc)
  | _ => exact ht

end

theorem task_setTask_of_ne (state : TaskState) (h : u.ptr ≠ t.ptr) :
    (s.setTask t state).task u = s.task u := update_of_ne h _ _

theorem task_setTask_self (state : TaskState) : (s.setTask t state).task t = state :=
  update_self _ _ _

variable {state : Option OperationPhase}

theorem task_setResourceResult : (setResourceResult s t status state message).task u =
    if u.ptr = t.ptr then (s.task u).withResult status state message else s.task u := by
  split_ifs with h
  · rw [St.task, h]
    exact (update_self _ _ _).trans (congrArg (TaskState.withResult · _ _ _) (congrArg s.cell h).symm)
  · exact update_of_ne h _ _

theorem task_setResourceResult_of_ne (h : u.ptr ≠ t.ptr) :
    (setResourceResult s t status state message).task u = s.task u := by
  rw [task_setResourceResult, if_neg h]

theorem task_setResourceResult_self :
    (setResourceResult s t status state message).task t = (s.task t).withResult status state message := by
  rw [task_setResourceResult, if_pos rfl]

theorem task_setLiveObj {l : Option LiveObj} :
    (s.setLiveObj t l).task u = if u.ptr = t.ptr then { s.task u with liveObj := l } else s.task u := by
  split_ifs with h
  · rw [St.task, h]
    exact (update_self _ _ _).trans (congrArg (fun state : TaskState => { state with liveObj := l })
      (congrArg s.cell h).symm)
  · exact update_of_ne h _ _

/-- a task that gets no result and no live object keeps its fields -/
theorem Does.task_eq (h : Does C R L s s') (u : SyncTask) (hR : ∀ s t status state, R s t status state → u.ptr ≠ t.ptr)
    (hL : ∀ t, L t → u.ptr ≠ t.ptr) : s'.task u = s.task u := by
  refine h.inv (fun t => t.task u = s.task u) rfl fun t a ht ha => ?_
  cases ha with
  | result message h => exact (task_setResourceResult_of_ne (hR _ _ _ _ h)).trans ht
  | live l h => exact (task_setTask_of_ne _ (hL _ h)).trans ht
  | _ => exact ht

variable (results : Results)

theorem resultKey_recordResult (t : SyncTask) (state : TaskState) :
    (recordResult results t state).resultKey = t.resultKey := by
  unfold recordResult
  split
  · rename_i existing h
    exact (KeyedMap.get?_eq_some.1 h).2
  · rfl

theorem get?_setResourceResult (key : String) : (setResourceResult s t status state message).syncRes.get? key =
      if key = t.resultKey then some (recordResult s.syncRes t ((s.task t).withResult status state message))
      else s.syncRes.get? key := by
  have hk := resultKey_recordResult s.syncRes t ((s.task t).withResult status state message)
  unfold setResourceResult
  split_ifs with h
  · rw [KeyedMap.get?_eq_some, KeyedMap.mem_put]
    exact ⟨.inl rfl, hk.trans h.symm⟩
  · apply Option.ext
    intro r
    rw [KeyedMap.get?_eq_some, KeyedMap.get?_eq_some, KeyedMap.mem_put, hk]
    refine ⟨fun ⟨hr, hrk⟩ => ?_, fun ⟨hr, hrk⟩ => ⟨.inr ⟨hr, hrk.trans_ne h⟩, hrk⟩⟩
    rcases hr with rfl | hr
    · exact absurd (hrk.symm.trans hk) h
    · exact ⟨hr.1, hrk⟩

theorem status_recordResult (t : SyncTask) (state : TaskState) :
    (recordResult results t state).status = state.syncStatus := by
  unfold recordResult
  split <;> rfl

theorem hookPhase_recordResult (t : SyncTask) (state : TaskState) :
    (recordResult results t state).hookPhase = state.operationState := by
  unfold recordResult
  split <;> rfl

theorem Does.results_inv (h : Does C R L s s') (P : Option ResultCode → Option OperationPhase → Prop)
    (hs : ∀ r ∈ s.syncRes, P r.status r.hookPhase) (hR : ∀ s t status state, R s t status state → P status state) :
    ∀ r ∈ s'.syncRes, P r.status r.hookPhase := by
  refine h.inv (fun s => ∀ r ∈ s.syncRes, P r.status r.hookPhase) hs fun s a hs ha => ?_
  cases ha with
  | result message h =>
    intro r hr
    rcases (KeyedMap.mem_put _ _ _).1 hr with rfl | hr
    · rw [hookPhase_recordResult, status_recordResult]
      exact hR _ _ _ _ h
    · exact hs r hr.1
  | _ => exact hs

theorem Does.record_inv (h : Does C R L s s') (P : Option OperationPhase → Prop) (key : String)
    (hs : ∃ r, s.syncRes.get? key = some r ∧ P r.hookPhase)
    (hR : ∀ s t status state, t.resultKey = key → R s t status state → P state) :
    ∃ r, s'.syncRes.get? key = some r ∧ P r.hookPhase := by
  refine h.inv (fun s => ∃ r, s.syncRes.get? key = some r ∧ P r.hookPhase) hs fun s a hs ha => ?_
  cases ha with
  | @result u status state message h =>
    change ∃ r, (setResourceResult s u status state message).syncRes.get? key = some r ∧ P r.hookPhase
    rw [get?_setResourceResult]
    split_ifs with hk
    · refine ⟨_, rfl, ?_⟩
      rw [hookPhase_recordResult]
      exact hR _ _ _ _ hk.symm h
    · exact hs
  | _ => exact hs

/-- a key that gets no result keeps its record -/
theorem Does.result_eq (h : Does C R L s s') (key : String)
    (hR : ∀ s t status state, R s t status state → t.resultKey ≠ key) : s'.syncRes.get? key = s.syncRes.get? key := by
  refine h.inv (fun t => t.syncRes.get? key = s.syncRes.get? key) rfl fun t a ht ha => ?_
  cases ha with
  | result message h =>
    refine Eq.trans ?_ ht
    exact (get?_setResourceResult key).trans (if_neg (hR _ _ _ _ h).symm)
  | _ => exact ht

theorem Does.syncRes_eq (h : Does C noResult L s s') : s'.syncRes = s.syncRes := by
  refine h.inv (fun t => t.syncRes = s.syncRes) rfl fun t a ht ha => ?_
  cases ha with
  | result message h => exact h.elim
  | _ => exact ht

/-- the record a new event saw, where no result is set -/
theorem Does.new_event (h : Does C R L s s') (key : String)
    (hR : ∀ s t status state, R s t status state → t.resultKey ≠ key) :
    ∀ e ∈ s'.log, e ∈ s.log ∨ (C e.call ∧ e.results.get? key = s.syncRes.get? key) := by
  have hb := h.inv (fun t => t.syncRes.get? key = s.syncRes.get? key ∧
      ∀ e ∈ t.log, e ∈ s.log ∨ (C e.call ∧ e.results.get? key = s.syncRes.get? key))
    ⟨rfl, fun e he => .inl he⟩ ?_
  · exact hb.2
  intro t a ht ha
  cases ha with
  | call h =>
    refine ⟨ht.1, fun e he => ?_⟩
    rcases mem_cons.1 he with rfl | he
    · exact .inr ⟨h, ht.1⟩
    · exact ht.2 e he
  | result message h =>
    refine ⟨Eq.trans ?_ ht.1, ht.2⟩
    exact (get?_setResourceResult key).trans (if_neg (hR _ _ _ _ h).symm)
  | _ => exact ht

/-! ## Calls for one task -/

theorem callsOf_le {kinds kinds' : List CallKind} {T' : SyncTask → Prop} (hk : kinds ⊆ kinds')
    (hT : ∀ t, T t → T' t) : callsOf kinds T ≤ callsOf kinds' T' :=
  fun _ hc => ⟨hk hc.1, fun t ht => hT t (hc.2 t ht)⟩

theorem Does.loop {ι : Type*} {f : St → ι → St} {is : List ι} (hf : ∀ s, ∀ i ∈ is, Does C R L s (f s i)) :
    Does C R L s (is.foldl f s) :=
  Reach.foldl_state f is s hf

theorem discover_does {w : World} {gvk : GroupVersionKind} {verb : String}
    (hC : callsOf [.discover] T ≤ C) : Does C R L s (discover w s gvk verb).2 :=
  Does.emit .refl (hC _ ⟨mem_singleton_self _, nofun⟩)

theorem retryOn_does {reason : ErrorReason} {fn : St → Option ApiError × St} {n : ℕ}
    (hfn : ∀ s, Does C R L s (fn s).2) : Does C R L s (retryOn reason fn n s).2 := by
  induction n generalizing s with
  | zero => exact hfn s
  | succ n ih =>
    unfold retryOn
    split_ifs
    · exact (hfn s).trans ih
    · exact hfn s

variable {w : World} {ctx : Ctx} {t : SyncTask}

theorem getResource_does (hC : callsOf [.discover, .get] (· = t) ≤ C) : Does C R L s (getResource w s t).2 := by
  have hd : Does C R L s (discover w s t.obj.gvk "get").2 := discover_does ((callsOf_le (by simp) fun _ h => h).trans hC)
  unfold getResource
  dsimp only
  split
  · exact hd
  · have hg : ∀ answer, Does C R L s ((discover w s t.obj.gvk "get").2.emit (.get t answer)) := fun answer =>
      hd.emit (hC _ ⟨by simp [Call.kind], by simp [Call.task?]⟩)
    split <;> exact hg _

theorem updateResource_does {obj : Obj} (hC : callsOf [.discover, .update] (· = t) ≤ C) :
    Does C R L s (updateResource w s t obj).2 := by
  have hd : Does C R L s (discover w s t.obj.gvk "update").2 :=
    discover_does ((callsOf_le (by simp) fun _ h => h).trans hC)
  unfold updateResource
  dsimp only
  split
  · exact hd
  · exact hd.emit (hC _ ⟨by simp [Call.kind], by simp [Call.task?]⟩)

theorem deleteResource_does (hC : callsOf [.discover, .delete] (· = t) ≤ C) :
    Does C R L s (deleteResource ctx w s t).2 := by
  have hd : Does C R L s (discover w s t.obj.gvk "delete").2 :=
    discover_does ((callsOf_le (by simp) fun _ h => h).trans hC)
  unfold deleteResource
  dsimp only
  split
  · exact hd
  · exact hd.emit (hC _ ⟨by simp [Call.kind], by simp [Call.task?]⟩)

/-! ## Hook finalizers -/

/-- calls that take the finalizer off a hook -/
abbrev finalizerKinds : List CallKind := [.discover, .get, .update]

theorem refreshLiveObj_does {err : ApiError} (hC : callsOf [.discover, .get] (· = t) ≤ C) (hL : L t) :
    Does C R L s (refreshLiveObj w s t err).2 := by
  unfold refreshLiveObj
  dsimp only
  split
  · exact (getResource_does hC).setLive hL
  · split_ifs <;> exact getResource_does hC

theorem tryRemoveHookFinalizer_does (hC : callsOf finalizerKinds (· = t) ≤ C) (hL : L t) :
    Does C R L s (tryRemoveHookFinalizer w s t).2 := by
  unfold tryRemoveHookFinalizer
  split
  · exact .refl
  · rename_i l _
    split
    · exact .refl
    · rename_i s1 hs1
      have hm : Does C R L s s1 := by
        unfold removeFinalizerMutation at hs1
        split_ifs at hs1 with hme
        cases hs1
        refine Reach.act (Action.finalizers l _) (.finalizers l _ ⟨.update t l.obj none, hC _ ⟨?_, ?_⟩, rfl⟩)
        · simp [finalizerKinds, Call.kind]
        · simp [Call.task?]
      have hu : Does C R L s (updateResource w s1 t (s1.read l)).2 :=
        hm.trans (updateResource_does ((callsOf_le (by simp [finalizerKinds]) fun _ h => h).trans hC))
      dsimp only
      split
      · exact hu
      · split_ifs
        · exact hu.trans (refreshLiveObj_does ((callsOf_le (by simp [finalizerKinds]) fun _ h => h).trans hC) hL)
        · exact hu
        · exact hu

theorem removeHookFinalizer_does (hC : callsOf finalizerKinds (· = t) ≤ C) (hL : L t) :
    Does C R L s (removeHookFinalizer w s t).2 :=
  retryOn_does fun _ => tryRemoveHookFinalizer_does hC hL

/-! ## Applying and pruning -/

/-- calls of the migration to server-side apply -/
abbrev migrationKinds : List CallKind := [.discover, .getFresh, .patch]

theorem tryMigrate_does {live : Obj} {manager : String} (hC : callsOf migrationKinds T ≤ C) :
    Does C R L s (tryMigrate ctx w s live manager).2 := by
  have hg : ∀ answer, Does C R L s (s.emit (.getFresh live answer)) := fun answer =>
    Does.emit .refl (hC _ ⟨by simp [migrationKinds, Call.kind], nofun⟩)
  unfold tryMigrate
  dsimp only
  split
  · exact hg _
  · split_ifs
    · split
      · exact hg _
      · exact hg _
      · exact (hg _).emit (hC _ ⟨by simp [migrationKinds, Call.kind], nofun⟩)
    · exact hg _

theorem performCSAUpgradeMigration_does {live : Obj} {manager : String}
    (hC : callsOf migrationKinds T ≤ C) : Does C R L s (performCSAUpgradeMigration ctx w s live manager).2 := by
  have hd : Does C R L s (discover w s live.gvk "patch").2 :=
    discover_does ((callsOf_le (by simp [migrationKinds]) fun _ h => h).trans hC)
  unfold performCSAUpgradeMigration
  dsimp only
  split
  · exact hd
  · exact hd.trans (retryOn_does fun _ => tryMigrate_does hC)

/-- the calls of `runTasks` -/
def runKinds (dryRun : Bool) : List CallKind :=
  if dryRun then [.apply .client]
  else [.discover, .get, .update, .delete, .prune, .apply .none, .getFresh, .patch, .crdReady]

/-- the calls of `createTasks` -/
def createKinds (dryRun : Bool) : List CallKind :=
  if dryRun then [.apply .client] else [.discover, .apply .none, .getFresh, .patch, .crdReady]

theorem createKinds_subset {dryRun : Bool} : createKinds dryRun ⊆ runKinds dryRun := by
  cases dryRun <;> simp [createKinds, runKinds]

/-- a result with a phase: never terminating, and running only when it was synced -/
def IsSane (status : Option ResultCode) (state : Option OperationPhase) : Prop :=
  ∃ phase, state = some phase ∧ phase ≠ .terminating ∧ (phase = .running → status = some .synced)

/-- the results of `runTasks` -/
def runResult (ctx : Ctx) (dryRun : Bool) (T : SyncTask → Prop) : ResultSet := fun _ t status state =>
  T t ∧ IsSane status state ∧ (dryRun = true → ctx.dryRun = true ∨ status = some .syncFailed) ∧
    (ctx.dryRun = true ∨ t.isPrune = true → state ≠ some .running)

/-- `runTasks` on tasks in T: in a dry run it makes no other calls than applies with the client strategy -/
abbrev Runs (ctx : Ctx) (dryRun : Bool) (T : SyncTask → Prop) : St → St → Prop :=
  Does (callsOf (runKinds dryRun) T) (runResult ctx dryRun T) (fun t => T t ∧ dryRun = false)

variable {dryRun : Bool} {T : SyncTask → Prop}

theorem migrate_does {target : Obj} (hC : dryRun = false → callsOf migrationKinds T ≤ C) :
    Does C R L s (migrate ctx w s t target dryRun).2 := by
  unfold migrate
  split
  · exact .refl
  · split_ifs with h
    · simp only [Bool.and_eq_true, Bool.not_eq_true'] at h
      exact performCSAUpgradeMigration_does (hC h.1.1.2)
    · exact .refl

theorem applyObject_does {target : Obj} {validate : Bool} (ht : T t) :
    Does (callsOf (createKinds dryRun) T) R L s (applyObject ctx w s t target dryRun validate).2 := by
  have hm : Does (callsOf (createKinds dryRun) T) R L s (migrate ctx w s t target dryRun).2 :=
    migrate_does fun h => callsOf_le (by simp [createKinds, h, migrationKinds]) fun _ h => h
  unfold applyObject
  dsimp only
  split
  · exact hm
  · have ha : ∀ request answer, Does (callsOf (createKinds dryRun) T) R L s
        ((migrate ctx w s t target dryRun).2.emit (.apply t request (dryRunStrategy dryRun) answer)) := by
      refine fun request answer => hm.emit ⟨?_, ?_⟩
      · cases dryRun <;> simp [createKinds, dryRunStrategy, Call.kind]
      · simpa [Call.task?] using ht
    split
    · exact ha _ _
    · dsimp only
      split_ifs with hc
      · simp only [Bool.and_eq_true, Bool.not_eq_true'] at hc
        exact (ha _ _).emit ⟨by simp [createKinds, hc.2, Call.kind], nofun⟩
      · exact ha _ _

theorem pruneObject_does (hC : dryRun = false → ctx.prune = true →
      isPruningDisabled (some t.obj) ctx.defaultPruneOption = false →
        ∀ err, C (.prune t t.obj (getDeleteOptions ctx) err)) :
    Does C R L s (pruneObject ctx w s t dryRun).2 := by
  unfold pruneObject
  split_ifs with h1 h2 h3 h4
  · exact .refl
  · exact .refl
  · exact .refl
  · exact .refl
  · have hp (err) : Does C R L s (s.emit (.prune t t.obj (getDeleteOptions ctx) err)) :=
      Does.emit .refl (hC (by simpa using h3) (by simpa using h1) (by simpa using h2) err)
    dsimp only
    split <;> exact hp _

/-! ## runTasks -/

theorem goAll_does {f : RunState → SyncTask → St → RunState × St} {current : RunState} {tasks : List SyncTask}
    (hf : ∀ state, ∀ t ∈ tasks, ∀ s, Does C R L s (f state t s).2) : Does C R L s (goAll f current tasks s).2 := by
  refine Reach.foldl (fun p t => (p.1.add (f current t p.2).1, (f current t p.2).2)) tasks current s ?_
  exact fun r s t ht => hf current t ht s

theorem removeOldFinalizer_does {state : RunState} (ht : T t) :
    Runs ctx dryRun T s (removeOldFinalizer w dryRun state t s).2 := by
  unfold removeOldFinalizer
  split_ifs with hd
  · exact .refl
  · have hr : Runs ctx dryRun T s (removeHookFinalizer w s t).2 := by
      refine removeHookFinalizer_does (callsOf_le ?_ fun u hu => hu ▸ ht) ⟨ht, by simpa using hd⟩
      simp [runKinds, hd, finalizerKinds]
    dsimp only
    split
    · exact hr
    · refine hr.setResult ⟨ht, ⟨.error, rfl, by decide, nofun⟩, fun h => absurd h hd, fun _ => by decide⟩

theorem isSane_operationPhase (result : ResultCode) : IsSane (some result) (some result.operationPhase) := by
  cases result <;> exact ⟨_, rfl, by decide, by decide⟩

theorem recordsResult_eq_true (h : recordsResult ctx dryRun result = true) (hd : dryRun = true) :
    ctx.dryRun = true ∨ some result = some .syncFailed := by
  simpa [recordsResult, hd] using h

theorem pruneObject_ne_synced : (pruneObject ctx w s t dryRun).1.1 ≠ .synced := by
  unfold pruneObject
  split_ifs
  · exact nofun
  · exact nofun
  · exact nofun
  · exact nofun
  · dsimp only
    split <;> exact nofun

theorem operationPhase_eq_running (h : result.operationPhase = .running) : result = .synced := by
  cases result <;> first | rfl | cases h

theorem pruneTask_does {state : RunState} (ht : T t) : Runs ctx dryRun T s (pruneTask ctx w dryRun state t s).2 := by
  have hp : Runs ctx dryRun T s (pruneObject ctx w s t dryRun).2 := by
    refine pruneObject_does fun hd _ _ err => ⟨?_, by simpa [Call.task?] using ht⟩
    simp [runKinds, hd, Call.kind]
  unfold pruneTask
  dsimp only
  split_ifs with hr
  · refine hp.setResult ⟨ht, isSane_operationPhase _, recordsResult_eq_true hr, fun _ h => ?_⟩
    exact pruneObject_ne_synced (operationPhase_eq_running (Option.some.inj h))
  · exact hp

theorem deleteTask_does {state : RunState} (hC : dryRun = false → callsOf [.discover, .delete] (· = t) ≤ C) (ht : T t) :
    Does C (runResult ctx dryRun T) (fun t => T t ∧ dryRun = false) s (deleteTask ctx w dryRun state t s).2 := by
  unfold deleteTask
  split_ifs with hd
  · exact .refl
  · have hde : Does C (runResult ctx dryRun T) (fun t => T t ∧ dryRun = false) s (deleteResource ctx w s t).2 :=
      deleteResource_does (hC (by simpa using hd))
    dsimp only
    split
    · exact hde
    · split_ifs
      · exact hde.setLive ⟨ht, by simpa using hd⟩
      · exact hde.setResult
          ⟨ht, ⟨.error, rfl, by decide, nofun⟩, fun h => absurd h hd, fun _ => by decide⟩

theorem isSane_appliedPhase (result : ResultCode) : IsSane (some result) (some (appliedPhase ctx result)) := by
  unfold appliedPhase
  split_ifs
  · exact ⟨.succeeded, rfl, by decide, nofun⟩
  · exact isSane_operationPhase result

theorem appliedPhase_ne_running (h : ctx.dryRun = true) : appliedPhase ctx result ≠ .running := by
  cases result <;> simp [appliedPhase, h, ResultCode.operationPhase]

theorem applyTask_does {state : RunState} (ht : T t) :
    Does (callsOf (createKinds dryRun) T) (runResult ctx dryRun T) L s (applyTask ctx w dryRun state t s).2 := by
  unfold applyTask
  split
  · exact .refl
  · rename_i target hta
    dsimp only
    split_ifs with hr
    · refine (applyObject_does ht).setResult ⟨ht, isSane_appliedPhase _, recordsResult_eq_true hr, fun h h' => ?_⟩
      rcases h with hc | hp
      · exact appliedPhase_ne_running hc (Option.some.inj h')
      · simp [SyncTask.isPrune, hta] at hp
    · exact applyObject_does ht

variable {tasks : List SyncTask}

/-- what the runtime's order and a filter leave of the tasks -/
theorem mem_of_taskOrder_filter {stage : Stage} {log : List Event} {p : SyncTask → Bool}
    (h : u ∈ w.taskOrder stage log (tasks.filter p)) : u ∈ tasks ∧ p u = true :=
  mem_filter.1 ((w.taskOrder_perm stage log _).mem_iff.1 h)

theorem processCreateTasks_does {state : RunState} (hT : ∀ t ∈ tasks, T t) :
    Does (callsOf (createKinds dryRun) T) (runResult ctx dryRun T) L s
      (processCreateTasks ctx w dryRun state tasks s).2 :=
  goAll_does fun _ t ht _ => applyTask_does (hT t (mem_of_taskOrder_filter ht).1)

theorem mem_of_mem_splitBy {p : SyncTask → SyncTask → Bool} {group : List SyncTask} (hg : group ∈ tasks.splitBy p)
    (hu : u ∈ group) : u ∈ tasks := by
  rw [← flatten_splitBy p tasks]
  exact mem_flatten.2 ⟨group, hg, hu⟩

theorem createTasks_does (hT : ∀ t ∈ tasks, T t) :
    Does (callsOf (createKinds dryRun) T) (runResult ctx dryRun T) L s (createTasks ctx w dryRun tasks s).2 := by
  refine Reach.foldl (fun p group => processCreateTasks ctx w dryRun p.1 group p.2) _ .successful s ?_
  intro state s group hg
  refine processCreateTasks_does fun t ht => hT t ?_
  exact (mem_filter.1 (mem_of_mem_splitBy hg ht)).1

theorem andThen_does {r : RunState × St} {next : St → RunState × St} (hr : Does C R L s r.2)
    (hn : ∀ s, Does C R L s (next s).2) : Does C R L s (RunState.andThen r next).2 := by
  unfold RunState.andThen
  split_ifs
  · exact hr.trans (hn _)
  · exact hr

theorem runTasks_stages {dry : Bool} (hd : (dry || ctx.dryRun) = dryRun)
    (hfinalizers : ∀ t ∈ tasks, ∀ state s, Does C R L s (removeOldFinalizer w dryRun state t s).2)
    (hprune : ∀ t ∈ tasks, (!ctx.pruneConfirmed && tasks.any (requiresPruneConfirmation ctx)) = false →
      t.isPrune = true → ∀ state s, Does C R L s (pruneTask ctx w dryRun state t s).2)
    (hdelete : ∀ t ∈ tasks, t.isHook = true → ∀ state s, Does C R L s (deleteTask ctx w dryRun state t s).2)
    (hcreate : ∀ s, Does C R L s (createTasks ctx w dryRun tasks s).2) : Does C R L s (runTasks ctx w tasks dry s).2 := by
  subst hd
  refine andThen_does (goAll_does fun _ t ht => hfinalizers t (mem_of_taskOrder_filter ht).1 _) ?_
  intro s
  split_ifs with hc
  · exact .refl
  · refine andThen_does (goAll_does fun _ t ht => ?_) fun s => andThen_does (goAll_does fun _ t ht => ?_) hcreate
    · obtain ⟨ht, hp⟩ := mem_of_taskOrder_filter ht
      exact hprune t ht (Bool.not_eq_true _ ▸ hc) hp _
    · obtain ⟨ht, hp⟩ := mem_of_taskOrder_filter ht
      simp only [deleteBeforeCreation, SyncTask.hasHookDeletePolicy, Bool.and_eq_true] at hp
      exact hdelete t ht hp.2.2.1 _

/-- **Running tasks.** Only these tasks get results and new live objects, and a dry run makes no calls but applies with
the client strategy. -/
theorem runTasks_does {dry : Bool} (hd : (dry || ctx.dryRun) = dryRun) (hT : ∀ t ∈ tasks, T t) :
    Runs ctx dryRun T s (runTasks ctx w tasks dry s).2 := by
  refine runTasks_stages hd (fun t ht _ _ => removeOldFinalizer_does (hT t ht))
    (fun t ht _ _ _ _ => pruneTask_does (hT t ht))
    (fun t ht _ _ _ => deleteTask_does (fun hd => callsOf_le ?_ fun u hu => hu ▸ hT t ht) (hT t ht)) fun s => ?_
  · simp [runKinds, hd]
  · exact (createTasks_does hT).weaken (callsOf_le createKinds_subset fun _ h => h) (fun _ _ _ _ h => h) fun _ h => h

end GitOpsDeploy.Sync

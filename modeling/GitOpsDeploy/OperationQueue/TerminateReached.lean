/-
When a terminating operation gets to the sync engine's Terminate.

Terminate is the last step. Most of the steps before it complete the operation when they fail, and a sync window that
blocks the application returns before any of them.
-/
import GitOpsDeploy.Compare.Unknown
import GitOpsDeploy.OperationQueue.SyncAppState
import GitOpsDeploy.OperationQueue.Termination

namespace GitOpsDeploy.OperationQueue

open Compare (ComparisonResult)
open Fallible (bind_eq_ok unit_bind_eq_ok bind_eq_error)

variable {env : SyncEnv} {app : SyncApp} {st : OperationState} {op : SyncOperation} {result : SyncOperationResult}
  {r : ComparisonResult}

/-! ## Steps that succeed -/

variable {A : Type} {enabled : Bool}

variable {x : Except String A}

theorem orError_ok {text : String} {a : A} : orError text x = .ok a ↔ x = .ok a := by
  cases x <;> simp [orError, Except.mapError]

theorem orLogged_ok {a : A} : orLogged x = .ok a ↔ x = .ok a := by
  cases x <;> simp [orLogged, Except.mapError]

/-- the comparison and the steps after it succeed, up to the settings -/
structure ClusterReady (env : SyncEnv) (app : SyncApp) (op : SyncOperation) (r : ComparisonResult) : Prop where
  shared : op.hasOption "FailOnSharedResource=true" = true →
    ∀ c ∈ conditionsAfter app r, c.type ≠ .sharedResourceWarning
  conditions : ∀ c ∈ conditionsAfter app r, isErrorCondition c = false
  cluster : env.destCluster = .ok ()
  raw : env.rawRestConfig = .ok ()
  rest : env.restConfig = .ok ()
  overrides : env.resourceOverrides = .ok ()
  respect : op.hasOption "RespectIgnoreDifferences=true" = true →
    env.openAPISchema = .ok () ∧ env.normalizeTargetResources = .ok ()

theorem sharedStep_ok : sharedStep app op r = .ok () ↔ (op.hasOption "FailOnSharedResource=true" = true →
    ∀ c ∈ conditionsAfter app r, c.type ≠ .sharedResourceWarning) := by
  unfold sharedStep
  split
  · next c h =>
    have hm := List.mem_of_find?_eq_some h
    have ht : c.type = .sharedResourceWarning := by simpa using List.find?_some h
    by_cases ho : op.hasOption "FailOnSharedResource=true" = true
    · simp only [ho, if_true, reduceCtorEq, forall_const, false_iff]
      exact fun ha => ha c hm ht
    · simp [ho]
  · next h =>
    have hn := List.find?_eq_none.mp h
    simp only [decide_eq_true_eq] at hn
    exact iff_of_true rfl fun _ => hn

theorem conditionStep_ok : conditionStep app r = .ok () ↔ ∀ c ∈ conditionsAfter app r, isErrorCondition c = false := by
  unfold conditionStep
  dsimp only
  split_ifs with h
  · simp only [false_iff]
    intro ha
    exact h (List.filter_eq_nil_iff.mpr fun c hc => by simp [ha c hc])
  · have hn := List.filter_eq_nil_iff.mp (not_not.mp h)
    simp only [true_iff]
    exact fun c hc => by simpa using hn c hc

theorem respectStep_ok : respectStep env op = .ok () ↔ (op.hasOption "RespectIgnoreDifferences=true" = true →
    env.openAPISchema = .ok () ∧ env.normalizeTargetResources = .ok ()) := by
  unfold respectStep
  split_ifs with h
  · simp [unit_bind_eq_ok, orError_ok, h]
  · simp [h]

theorem clusterSteps_ok : clusterSteps env app op r = .ok () ↔ ClusterReady env app op r := by
  unfold clusterSteps
  simp only [unit_bind_eq_ok, orError_ok, sharedStep_ok, conditionStep_ok, respectStep_ok]
  constructor
  · intro ⟨h1, h2, h3, h4, h5, h6, h7⟩
    exact ⟨h1, h2, h3, h4, h5, h6, h7⟩
  · intro h
    exact ⟨h.1, h.2, h.3, h.4, h.5, h.6, h.7⟩

/-- the settings can be read -/
def SettingsReady (env : SyncEnv) (enabled : Bool) : Prop :=
  env.installationID = .ok () ∧ env.trackingMethod = .ok () ∧ env.isImpersonationEnabled = .ok enabled

theorem settingsSteps_ok : settingsSteps env = .ok enabled ↔ SettingsReady env enabled := by
  simp only [settingsSteps, unit_bind_eq_ok, orLogged_ok, SettingsReady]

/-- a service account is found where one is needed -/
def AccountReady (env : SyncEnv) : Prop :=
  ∃ account, env.serviceAccountToImpersonate = .ok account ∧
    (account = "" → env.isImpersonationEnforced = .ok false)

theorem impersonationStep_ok : impersonationStep env app enabled = .ok () ↔ (enabled = true → AccountReady env) := by
  unfold impersonationStep AccountReady
  cases enabled with
  | false => simp
  | true =>
    simp only [if_true, bind_eq_ok, orError_ok, forall_const]
    refine exists_congr fun account => and_congr_right fun _ => ?_
    split_ifs with ha
    · simp only [bind_eq_ok, orError_ok, ha, forall_const]
      constructor
      · intro ⟨enforced, he, h⟩
        cases enforced with
        | true => cases h
        | false => exact he
      · exact fun h => ⟨false, h, rfl⟩
    · simp [ha]

/-- every step from the comparison to a new sync context succeeds -/
def Reaches (env : SyncEnv) (app : SyncApp) (op : SyncOperation) (result : SyncOperationResult) : Prop :=
  ∃ r, Compare.compareAppState env.compareEnv env.compareApp (compareRequest op result) = .result r ∧
    ClusterReady env app op r ∧
    ∃ enabled, SettingsReady env enabled ∧ (enabled = true → AccountReady env) ∧ env.newSyncContext = .ok ()

/-- the steps up to the settings succeed, and a setting cannot be read -/
def StopsAtSettings (env : SyncEnv) (app : SyncApp) (op : SyncOperation) (result : SyncOperationResult) : Prop :=
  ∃ r, Compare.compareAppState env.compareEnv env.compareApp (compareRequest op result) = .result r ∧
    ClusterReady env app op r ∧ ∀ enabled, ¬SettingsReady env enabled

theorem contextSteps_ok : contextSteps env app op r = .ok () ↔ ClusterReady env app op r ∧
    ∃ enabled, SettingsReady env enabled ∧ (enabled = true → AccountReady env) ∧ env.newSyncContext = .ok () := by
  unfold contextSteps
  rw [unit_bind_eq_ok, bind_eq_ok]
  simp only [unit_bind_eq_ok, clusterSteps_ok, settingsSteps_ok, impersonationStep_ok, orError_ok]

/-! ## Steps that fail -/

theorem Failure.completed_apply {failure : Failure} (h : st.phase = some .terminating) :
    (failure.apply st).completed = true ↔ failure ≠ .logged := by
  cases failure <;> simp [Failure.apply, OperationState.completed, Sync.OperationPhase.completed, h]

theorem compareStep_ok : compareStep env op result = .ok r ↔
    Compare.compareAppState env.compareEnv env.compareApp (compareRequest op result) = .result r := by
  unfold compareStep
  cases Compare.compareAppState env.compareEnv env.compareApp (compareRequest op result) <;> simp

theorem compareStep_ne_logged : compareStep env op result ≠ .error .logged := by
  unfold compareStep
  split <;> simp

theorem orError_ne_logged {text : String} : orError text x ≠ .error .logged := by
  cases x <;> simp [orError, Except.mapError]

theorem clusterSteps_ne_logged : clusterSteps env app op r ≠ .error .logged := by
  intro h
  unfold clusterSteps at h
  simp only [bind_eq_error, orError_ne_logged, false_or] at h
  obtain h | ⟨_, _, h | ⟨_, _, _, _, _, _, _, _, _, _, h⟩⟩ := h
  · unfold sharedStep at h
    split at h
    · split_ifs at h
      simp at h
    · cases h
  · unfold conditionStep at h
    dsimp only at h
    split_ifs at h
    simp at h
  · unfold respectStep at h
    split_ifs at h
    simp only [bind_eq_error, orError_ne_logged, false_or, and_false, exists_false] at h

theorem orLogged_error {failure : Failure} (h : orLogged x = .error failure) : failure = .logged := by
  cases x with
  | error err =>
    cases h
    rfl
  | ok a => cases h

theorem settingsSteps_logged : settingsSteps env = .error .logged ↔ ∀ enabled, ¬SettingsReady env enabled := by
  have hl : ∀ failure, settingsSteps env = .error failure → failure = .logged := by
    intro failure h
    unfold settingsSteps at h
    simp only [bind_eq_error] at h
    obtain h | ⟨_, _, h | ⟨_, _, h⟩⟩ := h
    · exact orLogged_error h
    · exact orLogged_error h
    · exact orLogged_error h
  cases h : settingsSteps env with
  | error failure =>
    have hn : ∀ enabled, ¬SettingsReady env enabled := fun enabled hr => by
      rw [settingsSteps_ok.mpr hr] at h
      cases h
    exact iff_of_true (by rw [hl failure h]) hn
  | ok enabled => exact iff_of_false nofun fun hn => hn enabled (settingsSteps_ok.mp h)

theorem impersonationStep_ne_logged : impersonationStep env app enabled ≠ .error .logged := by
  intro h
  unfold impersonationStep at h
  split_ifs at h
  simp only [bind_eq_error, orError_ne_logged, false_or] at h
  obtain ⟨account, _, h⟩ := h
  split_ifs at h
  simp only [bind_eq_error, orError_ne_logged, false_or] at h
  obtain ⟨enforced, _, h⟩ := h
  split_ifs at h
  simp at h

theorem contextSteps_logged : contextSteps env app op r = .error .logged ↔
    ClusterReady env app op r ∧ ∀ enabled, ¬SettingsReady env enabled := by
  unfold contextSteps
  simp only [bind_eq_error, orError_ne_logged, impersonationStep_ne_logged, clusterSteps_ne_logged, false_or, and_false,
    exists_false, or_false, settingsSteps_logged]
  constructor
  · exact fun ⟨_, hc, hs⟩ => ⟨clusterSteps_ok.mp hc, hs⟩
  · exact fun ⟨hc, hs⟩ => ⟨(), clusterSteps_ok.mpr hc, hs⟩

/-! ## The whole function -/

theorem runEngine_calls (h : st.phase = some .terminating) : .terminate ∈ (runEngine env app op result st).calls := by
  unfold runEngine
  simp only [h, if_true]
  split_ifs
  · split <;> simp
  · simp

theorem syncFrom_calls (h : st.phase = some .terminating) :
    .terminate ∈ (syncFrom env app op result st).calls ↔ Reaches env app op result := by
  unfold syncFrom Reaches
  split
  · next hc =>
    refine iff_of_false (by simp) ?_
    intro ⟨r, hr, _⟩
    rw [compareStep_ok.mpr hr] at hc
    cases hc
  · next r hc =>
    have hr := compareStep_ok.mp hc
    simp only [hr, Compare.Outcome.result.injEq, exists_eq_left', ← contextSteps_ok]
    cases contextSteps env app op r with
    | error failure => simp
    | ok u => exact iff_of_true (runEngine_calls h) rfl

theorem syncFrom_completed (h : st.phase = some .terminating) (hn : ¬Reaches env app op result) :
    (syncFrom env app op result st).state.completed = true ↔ ¬StopsAtSettings env app op result := by
  unfold syncFrom StopsAtSettings
  split
  · next failure hc =>
    have hl : failure ≠ .logged := fun hf => compareStep_ne_logged (hf ▸ hc)
    refine iff_of_true ((Failure.completed_apply h).mpr hl) ?_
    intro ⟨r, hr, _⟩
    rw [compareStep_ok.mpr hr] at hc
    cases hc
  · next r hc =>
    have hr := compareStep_ok.mp hc
    simp only [hr, Compare.Outcome.result.injEq, exists_eq_left', ← contextSteps_logged]
    cases hco : contextSteps env app op r with
    | error failure =>
      refine Iff.trans ?_ (not_congr (⟨congrArg _, Except.error.inj⟩ : failure = .logged ↔ _))
      exact Failure.completed_apply h
    | ok u => exact absurd ⟨r, hr, contextSteps_ok.mp hco⟩ hn

/-- the result the sync goes on with -/
def startResult (app : SyncApp) (st : OperationState) (op : SyncOperation) : SyncOperationResult :=
  st.syncResult.getD (newSyncOperationResult app op)

def noWindows (env : SyncEnv) : SyncEnv := { env with canSync := fun _ _ => .ok true }

theorem reaches_noWindows : Reaches (noWindows env) app op result ↔ Reaches env app op result := by
  have hc : ∀ r, ClusterReady (noWindows env) app op r ↔ ClusterReady env app op r :=
    fun r => ⟨fun h => ⟨h.1, h.2, h.3, h.4, h.5, h.6, h.7⟩, fun h => ⟨h.1, h.2, h.3, h.4, h.5, h.6, h.7⟩⟩
  unfold Reaches
  simp only [hc]
  rfl

/-- the operation is completed only after Terminate, which runs where it would run without sync windows -/
def TerminatesFirst (env : SyncEnv) (app : SyncApp) (st : OperationState) : Prop :=
  ((syncAppState env app st).state.completed = true → .terminate ∈ (syncAppState env app st).calls) ∧
    (.terminate ∈ (syncAppState (noWindows env) app st).calls → .terminate ∈ (syncAppState env app st).calls)

theorem syncAppState_requested (hid : env.syncId = .ok ()) (hop : st.operation.sync = some op) :
    syncAppState env app st = if (syncWindowPreventsSync env app).1 = true then
        ⟨[], blockedState { st with syncResult := some (startResult app st op) } (syncWindowPreventsSync env app).2⟩
      else syncFrom env app op (startResult app st op) { st with syncResult := some (startResult app st op) } := by
  simp only [syncAppState, hid, hop]
  rfl

/-- **Termination reaches the sync engine** exactly when the request is well formed, no window blocks a termination that
would reach it, and no step before it completes the operation. -/
theorem terminate_reached_iff (env : SyncEnv) (app : SyncApp) (st : OperationState) (h : st.phase = some .terminating) :
    TerminatesFirst env app st ↔ env.syncId = .ok () ∧ ∃ op, st.operation.sync = some op ∧
      ((syncWindowPreventsSync env app).1 = true → ¬Reaches env app op (startResult app st op)) ∧
      ((syncWindowPreventsSync env app).1 = false →
        Reaches env app op (startResult app st op) ∨ StopsAtSettings env app op (startResult app st op)) := by
  unfold TerminatesFirst
  cases hid : env.syncId with
  | error err =>
    refine iff_of_false (fun hf => ?_) nofun
    have := hf.1 (by simp [syncAppState, hid, Failure.apply, OperationState.completed, Sync.OperationPhase.completed])
    simp [syncAppState, hid] at this
  | ok u =>
    cases hop : st.operation.sync with
    | none =>
      refine iff_of_false (fun hf => ?_) (by simp)
      have := hf.1 (by
        simp [syncAppState, hid, hop, Failure.apply, OperationState.completed, Sync.OperationPhase.completed])
      simp [syncAppState, hid, hop] at this
    | some op =>
      have hfr : syncAppState (noWindows env) app st = syncFrom (noWindows env) app op (startResult app st op)
          { st with syncResult := some (startResult app st op) } := by
        rw [@syncAppState_requested (noWindows env) app st op hid hop]
        rfl
      have hp : ({ st with syncResult := some (startResult app st op) } : OperationState).phase =
          some .terminating := h
      rw [hfr, syncAppState_requested hid hop, syncFrom_calls hp]
      cases (syncWindowPreventsSync env app).1 with
      | true => simp [blockedState, h, OperationState.completed, Sync.OperationPhase.completed, reaches_noWindows]
      | false =>
        simp only [Bool.false_eq_true, if_false, syncFrom_calls hp, reaches_noWindows, false_implies, true_and, forall_const,
          imp_self, and_true]
        by_cases hr : Reaches env app op (startResult app st op)
        · simp [hr]
        · rw [syncFrom_completed hp hr]
          simp [hr]

/-! ## A terminating operation -/

def terminatingState : OperationState := { runningState with phase := some .terminating, message := "terminating" }

def terminatingApp : SyncApp := ⟨some terminatingState, ⟨"repo", ".", "HEAD", ""⟩, [], "default", none, []⟩

/-- everything goes well but for the answer about sync windows and the comparison -/
def terminatingEnv (canSync : Except String Bool) (compareEnv : Compare.Env) : SyncEnv where
  syncId := .ok ()
  canSync _ _ := canSync
  compareEnv := compareEnv
  compareApp := Compare.plainApp
  destCluster := .ok ()
  server := "https://kubernetes.default.svc"
  rawRestConfig := .ok ()
  restConfig := .ok ()
  resourceOverrides := .ok ()
  openAPISchema := .ok ()
  normalizeTargetResources := .ok ()
  installationID := .ok ()
  trackingMethod := .ok ()
  isImpersonationEnabled := .ok false
  serviceAccountToImpersonate := .ok ""
  isImpersonationEnforced := .ok false
  newSyncContext := .ok ()
  terminate := ⟨some .failed, "Operation terminated", []⟩
  sync := ⟨some .running, "", []⟩
  augmentSyncMsg res := .ok res.message
  persistRevisionHistory := .ok ()

def calmCompare : Compare.Env := Compare.compareEnv (Compare.configMap "default") [] .ok

/-- **Terminate is not reached.** A manifest that cannot be generated completes the operation, and a sync window keeps it
from being terminated. -/
theorem terminate_not_reached :
    let failing := { calmCompare with getRepoObjs := fun _ => .error "rendering failed" }
    (syncAppState (terminatingEnv (.ok true) failing) terminatingApp terminatingState).calls = [] ∧
      (syncAppState (terminatingEnv (.ok true) failing) terminatingApp terminatingState).state.phase = some .error ∧
      ¬TerminatesFirst (terminatingEnv (.ok true) failing) terminatingApp terminatingState ∧
      (syncAppState (terminatingEnv (.ok false) calmCompare) terminatingApp terminatingState).calls = [] ∧
      ¬TerminatesFirst (terminatingEnv (.ok false) calmCompare) terminatingApp terminatingState := by
  refine ⟨by decide +kernel, by decide +kernel, fun h => ?_, by decide +kernel, fun h => ?_⟩
  · exact absurd (h.1 (by decide +kernel)) (by decide +kernel)
  · exact absurd (h.2 (by decide +kernel)) (by decide +kernel)

theorem terminate_reached_calm :
    TerminatesFirst (terminatingEnv (.ok true) calmCompare) terminatingApp terminatingState ∧
      (syncAppState (terminatingEnv (.ok true) calmCompare) terminatingApp terminatingState).calls = [.terminate] := by
  refine ⟨(terminate_reached_iff _ _ terminatingState rfl).mpr
    ⟨rfl, syncOperation, rfl, fun h => ?_, fun _ => .inl ?_⟩, by decide +kernel⟩
  · exact absurd h (by decide)
  · exact ⟨_, rfl, ⟨fun h => absurd h (by decide), by decide +kernel, rfl, rfl, rfl, rfl,
      fun h => absurd h (by decide)⟩, false, ⟨rfl, rfl, rfl⟩, fun h => (nomatch h), rfl⟩

end GitOpsDeploy.OperationQueue

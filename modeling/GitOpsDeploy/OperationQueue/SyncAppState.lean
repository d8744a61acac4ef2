/-
`SyncAppState`: the steps before the sync engine runs, and what is made of its result.

The same path serves syncing and terminating. It has three parts: steps that fail the operation, settings whose errors are
only logged, and again steps that fail it; then a sync context is terminated or synced. Before all of them stands the
check of sync windows, which returns and leaves the phase. Everything read from outside is an input.
-/
import GitOpsDeploy.Compare.State

namespace GitOpsDeploy.OperationQueue

open Compare (Condition ConditionType ComparisonResult)
open Sync (OperationPhase ResourceSyncResult)

variable (env : SyncEnv) (app : SyncApp) (op : SyncOperation) (r : ComparisonResult) (result : SyncOperationResult)
  (st : OperationState)

/-! ## Conditions of the application -/

def conditionText : ConditionType → String
  | .comparisonError => "ComparisonError"
  | .invalidSpecError => "InvalidSpecError"
  | .unknownError => "UnknownError"
  | .repeatedResourceWarning => "RepeatedResourceWarning"
  | .excludedResourceWarning => "ExcludedResourceWarning"
  | .sharedResourceWarning => "SharedResourceWarning"

def conditionKey (c : Condition) : String := conditionText c.type ++ "/" ++ c.message

/-- the types a comparison evaluates -/
def evaluatedTypes : List ConditionType :=
  [.comparisonError, .sharedResourceWarning, .repeatedResourceWarning, .excludedResourceWarning]

/-- `SetConditions`: conditions of types that are not evaluated stay -/
def setConditions (old new : List Condition) : List Condition :=
  (old.filter (fun c => !evaluatedTypes.contains c.type) ++ new).insertionSort fun a b => conditionKey a ≤ conditionKey b

def isErrorCondition (c : Condition) : Bool := c.type = .comparisonError || c.type = .invalidSpecError

def formatAppConditions (conditions : List Condition) : String :=
  ";".intercalate (conditions.map fun c => conditionText c.type ++ ": " ++ c.message)

/-! ## Inputs -/

structure SyncApp where
  /-- as it was read, with the state of the operation then -/
  operationState : Option OperationState
  source : Source
  sources : List Source
  destinationNamespace : String
  /-- the sync policy, of which the metadata of the managed namespace are read -/
  syncPolicy : Option (Option ManagedNamespaceMetadata)
  conditions : List Condition

structure EngineResult where
  phase : Option OperationPhase
  message : String
  results : List ResourceSyncResult

structure SyncEnv where
  syncId : Except String Unit
  /-- `CanSync` of the windows that match the application -/
  canSync : Bool → Option Time → Except String Bool
  compareEnv : Compare.Env
  compareApp : Compare.App
  destCluster : Except String Unit
  server : String
  rawRestConfig : Except String Unit
  restConfig : Except String Unit
  resourceOverrides : Except String Unit
  openAPISchema : Except String Unit
  normalizeTargetResources : Except String Unit
  installationID : Except String Unit
  trackingMethod : Except String Unit
  isImpersonationEnabled : Except String Bool
  serviceAccountToImpersonate : Except String String
  isImpersonationEnforced : Except String Bool
  newSyncContext : Except String Unit
  terminate : EngineResult
  sync : EngineResult
  /-- the message of a result with hints about the versions of the cluster, if they are known -/
  augmentSyncMsg : ResourceSyncResult → Except String String
  persistRevisionHistory : Except String Unit

inductive SyncCall where
  | terminate
  | sync
  | persistRevisionHistory
  deriving DecidableEq, Repr

/-! ## Steps -/

/-- how a step ends the function -/
inductive Failure where
  | error (message : String)
  | failed (message : String)
  /-- the error is logged only -/
  | logged
  | panic

/-- the state a failure leaves; a panic is recovered by the caller -/
def Failure.apply : Failure → OperationState
  | .error message => { st with phase := some .error, message := message }
  | .failed message => { st with phase := some .failed, message := message }
  | .logged => st
  | .panic => { st with phase := some .error, message := nilPointer }

def orError {A : Type} (text : String) (r : Except String A) : Except Failure A :=
  r.mapError fun err => .error (text ++ err)

def orLogged {A : Type} (r : Except String A) : Except Failure A := r.mapError fun _ => .logged

def newSyncOperationResult : SyncOperationResult :=
  if op.sources ≠ [] ∨ op.source.isSome then
    ⟨[], op.revision, op.revisions, op.source.getD ⟨"", "", "", ""⟩, op.sources, none⟩
  else ⟨[], op.revision, op.revisions, app.source, app.sources, none⟩

def SyncOperation.hasOption (option : String) : Bool := op.syncOptions.contains option

def syncWindowPreventsSync : Bool × Option String :=
  let isManual := app.operationState.any fun st => !st.operation.automated
  let operationStartTime := (app.operationState.map OperationState.startedAt).filter (· ≠ 0)
  match env.canSync isManual operationStartTime with
  | .error err => (true, some err)
  | .ok canSync => (!canSync, none)

def compareRequest : Compare.Request :=
  let multi := result.sources ≠ []
  { revisions := if multi then result.revisions else [result.revision]
    sources := if multi then result.sources else [result.source]
    noRevisionCache := true
    localManifests := op.manifests
    hasMultipleSources := multi }

/-- a missing result is read all the same -/
def compareStep : Except Failure ComparisonResult :=
  match Compare.compareAppState env.compareEnv env.compareApp (compareRequest op result) with
  | .result r => .ok r
  | .err text => .error (.error text)
  | .repoErr => .error .panic

/-- the conditions after the comparison -/
def conditionsAfter : List Condition :=
  match r.conditions with
  | some conditions => setConditions app.conditions conditions
  | none => app.conditions

def sharedStep : Except Failure Unit :=
  match (conditionsAfter app r).find? fun c => c.type = .sharedResourceWarning with
  | some c =>
    if op.hasOption "FailOnSharedResource=true" then .error (.failed ("Shared resource found: " ++ c.message)) else .ok ()
  | none => .ok ()

def conditionStep : Except Failure Unit :=
  let errConditions := (conditionsAfter app r).filter isErrorCondition
  if errConditions ≠ [] then .error (.error (formatAppConditions errConditions)) else .ok ()

/-- with RespectIgnoreDifferences the targets take over ignored fields -/
def respectStep : Except Failure Unit :=
  if op.hasOption "RespectIgnoreDifferences=true" then do
    orError "failed to load openAPISchema: " env.openAPISchema
    orError "Failed to normalize target resources: " env.normalizeTargetResources
  else .ok ()

/-- the steps after the comparison that fail the operation -/
def clusterSteps : Except Failure Unit := do
  sharedStep app op r
  conditionStep app r
  orError "Failed to get destination cluster: " env.destCluster
  orError "" env.rawRestConfig
  orError "" env.restConfig
  orError "Failed to load resource overrides: " env.resourceOverrides
  respectStep env op

/-- the settings; whether impersonation is enabled -/
def settingsSteps : Except Failure Bool := do
  orLogged env.installationID
  orLogged env.trackingMethod
  orLogged env.isImpersonationEnabled

def impersonationStep (enabled : Bool) : Except Failure Unit :=
  if enabled then do
    let account ← orError "failed to derive service account to impersonate: " env.serviceAccountToImpersonate
    if account = "" then do
      let enforced ← orError "failed to check impersonation enforcement setting: " env.isImpersonationEnforced
      if enforced then
        .error (.error ("no matching service account found for destination server " ++ env.server ++ " and namespace " ++
          app.destinationNamespace))
      else .ok ()
    else .ok ()
  else .ok ()

/-- the steps from the comparison to a new sync context -/
def contextSteps : Except Failure Unit := do
  clusterSteps env app op r
  let enabled ← settingsSteps env
  impersonationStep env app enabled
  orError "failed to initialize sync context: " env.newSyncContext

/-! ## The function -/

structure SyncRun where
  calls : List SyncCall
  state : OperationState

/-- the engine runs, and its result is taken over -/
def runEngine : SyncRun :=
  let terminating := st.phase = some .terminating
  let engine := if terminating then env.terminate else env.sync
  let call := if terminating then SyncCall.terminate else SyncCall.sync
  let resources := engine.results.map fun res =>
    match env.augmentSyncMsg res with
    | .ok message => { res with message := message }
    | .error _ => res
  let st := { st with
    phase := engine.phase
    message := engine.message
    syncResult := some { result with
      resources := resources
      managedNamespaceMetadata := app.syncPolicy.getD result.managedNamespaceMetadata } }
  if !op.dryRun && op.resources.isEmpty && st.phase = some .succeeded then
    match env.persistRevisionHistory with
    | .ok () => ⟨[call, .persistRevisionHistory], st⟩
    | .error err => ⟨[call, .persistRevisionHistory],
        { st with phase := some .error, message := "failed to record sync to history: " ++ err }⟩
  else ⟨[call], st⟩

/-- the part from the comparison on -/
def syncFrom :
    SyncRun :=
  match compareStep env op result with
  | .error failure => ⟨[], failure.apply st⟩
  | .ok r =>
    let result := { result with revision := r.revision, revisions := r.revisions }
    let st := { st with syncResult := some result }
    match contextSteps env app op r with
    | .error failure => ⟨[], failure.apply st⟩
    | .ok () => runEngine env app op result st

/-- a running operation is told that a window blocks it -/
def blockedState (err : Option String) : OperationState :=
  if st.phase = some .running then
    let message := "Sync operation blocked by sync window"
    { st with message := match err with
      | some err => message ++ ": " ++ err
      | none => message }
  else st

def syncAppState : SyncRun :=
  match env.syncId with
  | .error err => ⟨[], Failure.apply st (.error ("Failed to generate sync ID: " ++ err))⟩
  | .ok () =>
    match st.operation.sync with
    | none => ⟨[], Failure.apply st (.error "Invalid operation request: no operation specified")⟩
    | some op =>
      let result := st.syncResult.getD (newSyncOperationResult app op)
      let st := { st with syncResult := some result }
      let blocked := syncWindowPreventsSync env app
      if blocked.1 then ⟨[], blockedState st blocked.2⟩ else syncFrom env app op result st

end GitOpsDeploy.OperationQueue

/-
The sync context (`syncContext` of `gitops-engine/pkg/sync/sync_context.go`), the cluster it talks to, and the state of one
call of `Sync` or `Terminate`.

The cluster, the resource health and the callbacks are a `World`: its answers are functions of the calls made so far, so
it may answer each call as it likes. It also picks the order in which Go ranges over a map, sorts ties and schedules the
goroutines of one group; these run one after another.

All changes of the state go through the primitives of this file:
- `emit`: a call is answered and logged, with the results recorded at that time;
- `setResourceResult`, `setLiveObj`, `setFinalizers`, `setOperationPhase`.
-/
import GitOpsDeploy.Core.KeyedMap
import GitOpsDeploy.Sync.Order

namespace GitOpsDeploy.Sync

/-! ## Results -/

structure ResourceSyncResult where
  resourceKey : ResourceKey
  images : List String
  version : String
  order : ℕ
  status : Option ResultCode
  message : String
  /-- empty for resources that are not hooks -/
  hookType : Option SyncPhase
  hookPhase : Option OperationPhase
  syncPhase : SyncPhase
  deriving DecidableEq, Repr

def ResourceSyncResult.resultKey (r : ResourceSyncResult) : String := resourceResultKey r.resourceKey r.syncPhase

/-- `syncRes` -/
abbrev Results := KeyedMap ResourceSyncResult.resultKey

/-! ## Calls to the cluster -/

inductive ErrorReason where
  | notFound
  | conflict
  | unauthorized
  | other
  deriving DecidableEq, Repr

structure ApiError where
  reason : ErrorReason
  message : String
  deriving DecidableEq, Repr

/-- `fmt.Errorf("text: %w", err)`: the reason is still found -/
def ApiError.wrap (text : String) (err : ApiError) : ApiError := ⟨err.reason, text ++ ": " ++ err.message⟩

/-- `err != nil && !apierrors.IsNotFound(err)` -/
def isFailure (err : Option ApiError) : Bool := decide (∃ e ∈ err, e.reason ≠ .notFound)

inductive DryRunStrategy where
  | none
  | client
  deriving DecidableEq, Repr

/-- the four ways in which `applyObject` brings a target to the cluster -/
inductive Apply where
  | update (obj : Obj)
  | replace (obj : Obj) (force : Bool)
  | create (obj : Obj) (validate : Bool)
  | apply (obj : Obj) (force validate serverSideApply : Bool) (manager : String)
  deriving DecidableEq, Repr

inductive HealthStatusCode where
  | unknown
  | progressing
  | healthy
  | suspended
  | degraded
  | missing
  deriving DecidableEq, Repr

structure HealthStatus where
  status : HealthStatusCode
  message : String
  deriving DecidableEq, Repr

/-- a call with its answer; those on behalf of a task carry the task -/
inductive Call where
  | discover (gvk : GroupVersionKind) (verb : String) (err : Option ApiError)
  | validatePermission (obj : Obj) (err : Option String)
  | getNamespace (name : String) (answer : Except ApiError Obj)
  /-- the answer: whether the namespace is to be synced, and the annotations it was given -/
  | syncNamespace (managedNs : Obj) (liveNs : Option Obj) (answer : Except String Bool × List (String × String))
  | get (task : SyncTask) (answer : Except ApiError Obj)
  | update (task : SyncTask) (obj : Obj) (err : Option ApiError)
  | delete (task : SyncTask) (propagation : String) (err : Option ApiError)
  | prune (task : SyncTask) (live : Obj) (propagation : String) (err : Option ApiError)
  | apply (task : SyncTask) (request : Apply) (strategy : DryRunStrategy) (answer : Except ApiError String)
  | getFresh (obj : Obj) (answer : Except ApiError Obj)
  | patch (obj : Obj) (patch : String) (err : Option ApiError)
  | crdReady (name : String)
  | health (obj : Obj) (answer : Except String (Option HealthStatus))
  | waveHook (phase : SyncPhase) (wave : ℤ) (final : Bool) (err : Option String)
  deriving Repr

/-- a call and the results recorded when it was made -/
structure Event where
  call : Call
  results : Results

/-! ## The context of a call -/

/-- `reconciledResource`: at least one of target and live object is there -/
inductive Reconciled where
  | missing (target : Obj)
  | extra (live : Obj)
  | both (target live : Obj)

namespace Reconciled

def target : Reconciled → Option Obj
  | missing target | both target _ => some target
  | extra _ => none

def live : Reconciled → Option Obj
  | missing _ => none
  | extra live | both _ live => some live

/-- `obj(resource.Target, resource.Live)` -/
def obj : Reconciled → Obj
  | missing target | both target _ => target
  | extra live => live

/-- the key in `groupResources`: of the live object, if any -/
def key : Reconciled → ResourceKey
  | missing target => target.key
  | extra live | both _ live => live.key

def liveObj (r : Reconciled) : Option LiveObj := r.live.map fun live => ⟨live, .managed r.key⟩

def subject : Reconciled → Subject
  | missing target | both target _ => .create target
  | extra live => .prune live

end Reconciled

structure Ctx where
  resources : KeyedMap Reconciled.key
  hooks : List Obj
  ns : String
  revision : String
  /-- in seconds -/
  startedAt : ℤ
  dryRun : Bool
  skipDryRunOnMissingResource : Bool
  force : Bool
  validate : Bool
  skipHooks : Bool
  resourcesFilter : Option (ResourceKey → Option Obj → Option Obj → Bool)
  prune : Bool
  replace : Bool
  serverSideApply : Bool
  serverSideApplyManager : String
  pruneLast : Bool
  prunePropagationPolicy : Option String
  pruneConfirmed : Bool
  defaultPruneOption : Option String
  clientSideApplyMigrationManager : String
  enableClientSideApplyMigration : Bool
  /-- `syncNamespace != nil` -/
  hasSyncNamespace : Bool
  /-- `syncWaveHook != nil` -/
  hasSyncWaveHook : Bool
  applyOutOfSyncOnly : Bool
  modificationResult : List (ResourceKey × Bool)

/-- where tasks are taken in an order of the runtime's choice -/
inductive Stage where
  | sort
  | finalizers
  | prune
  | delete
  | create
  deriving DecidableEq, Repr

structure World where
  discover : List Event → GroupVersionKind → String → Option ApiError
  permissionValidator : List Event → Obj → Option String
  getNamespace : List Event → String → Except ApiError Obj
  syncNamespace : List Event → Obj → Option Obj → Except String Bool × List (String × String)
  get : List Event → SyncTask → Except ApiError Obj
  update : List Event → Obj → Option ApiError
  delete : List Event → SyncTask → Option ApiError
  deleteLive : List Event → Obj → Option ApiError
  apply : List Event → Apply → DryRunStrategy → Except ApiError String
  getFresh : List Event → Obj → Except ApiError Obj
  /-- `csaupgrade.UpgradeManagedFieldsPatch` -/
  upgradeManagedFieldsPatch : Obj → String → String → Except String (Option String)
  patch : List Event → Obj → String → Option ApiError
  /-- the health override and the built-in checks -/
  health : List Event → Obj → Except String (Option HealthStatus)
  syncWaveHook : List Event → SyncPhase → ℤ → Bool → Option String
  resourceOrder : Option Obj → List Event → List Reconciled → List Reconciled
  taskOrder : Stage → List Event → List SyncTask → List SyncTask
  resourceOrder_perm : ∀ target log l, (resourceOrder target log l).Perm l
  taskOrder_perm : ∀ stage log l, (taskOrder stage log l).Perm l

/-! ## The state of a call -/

structure St where
  syncRes : Results
  phase : Option OperationPhase
  message : String
  /-- the changing fields of the tasks -/
  cell : ℕ → TaskState
  /-- the finalizers of live objects that were changed in place -/
  heap : Pointer → Option (List String)
  /-- newest first -/
  log : List Event

def TaskState.new : TaskState := ⟨none, none, none, ""⟩

variable (s : St) (t : SyncTask) (state : TaskState)

namespace St

/-- `sc.started()` -/
def started : Bool := s.syncRes.values ≠ []

/-- the task's fields -/
def task : TaskState := s.cell t.ptr

def liveObj : Option LiveObj := (s.task t).liveObj

/-- a live object as it stands -/
def read (l : LiveObj) : Obj := { l.obj with finalizers := (s.heap l.ptr).getD l.obj.finalizers }

def emit (c : Call) : St := { s with log := ⟨c, s.syncRes⟩ :: s.log }

def setOperationPhase (phase : OperationPhase) (message : String) : St :=
  { s with phase := some phase, message := message }

def setTask : St := { s with cell := Function.update s.cell t.ptr state }

def setLiveObj (live : Option LiveObj) : St := s.setTask t { s.task t with liveObj := live }

def setFinalizers (l : LiveObj) (finalizers : List String) : St :=
  { s with heap := Function.update s.heap l.ptr (some finalizers) }

end St

/-- the record of a task's result -/
def newResult (order : ℕ) : ResourceSyncResult where
  resourceKey := t.obj.key
  images := t.obj.images
  version := t.obj.version
  order := order
  status := state.syncStatus
  message := state.message
  hookType := t.hookType
  hookPhase := state.operationState
  syncPhase := t.phase

/-- the record after a result: an existing one keeps the other fields -/
def recordResult (results : Results) (t : SyncTask) (state : TaskState) : ResourceSyncResult :=
  match results.get? t.resultKey with
  | some existing =>
    { existing with status := state.syncStatus, hookPhase := state.operationState, message := state.message }
  | none => newResult t state (results.values.length + 1)

/-- "we always want to keep the latest message" -/
def TaskState.withResult (syncStatus : Option ResultCode) (operationState : Option OperationPhase)
    (message : String) : TaskState :=
  { state with
    syncStatus := syncStatus
    operationState := operationState
    message := if message ≠ "" then message else state.message }

def setResourceResult (syncStatus : Option ResultCode)
    (operationState : Option OperationPhase) (message : String) : St :=
  let state := (s.task t).withResult syncStatus operationState message
  { s.setTask t state with syncRes := s.syncRes.put (recordResult s.syncRes t state) }

end GitOpsDeploy.Sync

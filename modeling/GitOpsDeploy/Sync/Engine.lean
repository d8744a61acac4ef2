/-
The sync engine (`Sync`, `Terminate` and `GetState` of `gitops-engine/pkg/sync/sync_context.go`).

`Sync` is cut at its returns: `validate` is the part a call that has no results yet runs first, `advance` updates the running
tasks and waits for them, `proceed` decides between failure, success and the next wave, `runWave` runs it.

An operation is a sequence of calls, each on a new context restored with `WithInitialState` from what `GetState` returned.
-/
import GitOpsDeploy.Sync.Run

namespace GitOpsDeploy.Sync

open Decimal

variable (ctx : Ctx) (w : World) (wave : Wave) (tasks : List SyncTask) (s : St) (obj : Obj) (t : SyncTask)
  (live : LiveObj) (status : Except String (OperationPhase × String))

/-! ## Health -/

def getResourceHealth : Except String (Option HealthStatus) × St :=
  if obj.deletionTimestamp && hookFinalizer ∉ obj.finalizers then
    (.ok (some ⟨.progressing, "Pending deletion"⟩), s)
  else
    let answer := w.health s.log obj
    (answer, s.emit (.health obj answer))

/-- the phase a health stands for, with its message -/
def HealthStatus.operationPhase : Option HealthStatus → OperationPhase × String
  | none => (.succeeded, obj.name ++ " created")
  | some ⟨.unknown, message⟩ | some ⟨.degraded, message⟩ => (.failed, message)
  | some ⟨.progressing, message⟩ | some ⟨.suspended, message⟩ => (.running, message)
  | some ⟨.healthy, message⟩ => (.succeeded, message)
  | some ⟨.missing, _⟩ => (.succeeded, obj.name ++ " created")

def getOperationPhase : Except String (OperationPhase × String) × St :=
  let r := getResourceHealth w s obj
  match r.1 with
  | .error err => (.error ("failed to get resource health: " ++ err), r.2)
  | .ok health => (.ok (HealthStatus.operationPhase obj health), r.2)

/-! ## Messages -/

/-- what `setRunningPhase` waits for: the reason, the first task and how many more -/
def runningReason (first : SyncTask) (isPendingDeletion : Bool) :
    String × SyncTask × ℕ :=
  let hooks := tasks.filter SyncTask.isHook
  let toPrune := if ctx.pruneConfirmed then [] else tasks.filter (requiresPruneConfirmation ctx)
  match toPrune with
  | prune :: more => ("pruning confirmation of", prune, more.length)
  | [] =>
    let reason :=
      if isPendingDeletion then if hooks ≠ [] then "deletion of hook" else "deletion of"
      else if hooks = [] then "healthy state of" else "completion of hook"
    (reason, hooks.head?.getD first, tasks.length - 1)

def setRunningPhase (isPendingDeletion : Bool) (s : St) : St :=
  match tasks with
  | [] => s.setOperationPhase .running ""
  | first :: _ =>
    let r := runningReason ctx tasks first isPendingDeletion
    let taskType := if tasks.all SyncTask.isHook then "hooks" else "resources"
    let obj := r.2.1.obj
    let message := "waiting for " ++ r.1 ++ " " ++ obj.group ++ "/" ++ obj.kind ++ "/" ++ obj.name
    let more := if 0 < r.2.2 then " and " ++ itoa r.2.2 ++ " more " ++ taskType else ""
    s.setOperationPhase .running (message ++ more)

/-- `errorMessageFactory` -/
def errorMessage (tasks : List SyncTask) (message : String) : String :=
  if tasks = [] then message
  else message ++ ", reason: " ++ String.intercalate "," (tasks.map fun t => (s.task t).message)

/-- the distinct messages of the failed results, sorted -/
def invalidMessage (results : List ResourceSyncResult) : String :=
  let failed := results.filter fun r => r.status = some .syncFailed && r.message ≠ ""
  let messages := ((failed.map ResourceSyncResult.message).dedup).insertionSort (· ≤ ·)
  let text := "one or more synchronization tasks are not valid"
  if messages = [] then text else text ++ ": " ++ String.intercalate "; " messages

/-! ## Hooks -/

def isSyncFailed : Bool := (s.task t).syncStatus = some .syncFailed

def deleteOnPhaseFailed : Bool := (s.liveObj t).isSome && t.hasHookDeletePolicy .hookFailed

def deleteOnPhaseSuccessful : Bool :=
  (s.liveObj t).isSome && t.hasHookDeletePolicy .hookSucceeded

def deleteHook : St :=
  let r := deleteResource ctx w s t
  match r.1 with
  | some err =>
    if err.reason = .notFound then r.2
    else setResourceResult r.2 t (r.2.task t).syncStatus (some .error) ("failed to delete resource: " ++ err.message)
  | none => r.2

def deleteHooks (hooks : List SyncTask) (s : St) : St := hooks.foldl (deleteHook ctx w) s

def removeCompletedFinalizer : St :=
  let r := removeHookFinalizer w s t
  match r.1 with
  | some err =>
    setResourceResult r.2 t (r.2.task t).syncStatus (some .error) ("Failed to remove hook finalizer: " ++ err.message)
  | none => r.2

def removeCompletedFinalizers : St :=
  (tasks.filter fun t => t.isHook && (s.task t).completed).foldl (removeCompletedFinalizer w) s

/-- the live object of a running hook is read when there is none yet; the error other than not found -/
def fetchLiveObj : Option ApiError × St :=
  match s.liveObj t with
  | some _ => (none, s)
  | none =>
    let r := getResource w s t
    match r.1 with
    | .ok live => (none, r.2.setLiveObj t (some live))
    | .error err => if err.reason = .notFound then (none, r.2.setLiveObj t none) else (some err, r.2)

/-- the latest status of a running hook; an error is recorded -/
def hookStatus : Except String (OperationPhase × String) × St :=
  let p := getOperationPhase w s (s.read live)
  match p.1 with
  | .error err =>
    (p.1, setResourceResult p.2 t (p.2.task t).syncStatus (some .error) ("Failed to get hook health: " ++ err))
  | .ok _ => p

/-- "if it is running, if we dont know that it is running, or if it has just completed and is meant to be deleted on sync
failed" -/
def mustDelete : Bool :=
  match status with
  | .error _ => true
  | .ok (phase, _) => phase = .running || deleteOnPhaseFailed s t

def deleteUnfinished :
    Option ApiError × St :=
  if mustDelete s t status then deleteResource ctx w s t else (none, s)

/-- a completed hook gets its real status -/
def recordTerminated : St :=
  match status.toOption.filter fun p => p.1.completed with
  | some (phase, message) => setResourceResult s t (s.task t).syncStatus (some phase) message
  | none =>
    -- "update the status if the resource is not in error to preserve the error message"
    if (s.task t).operationState ≠ some .error then
      setResourceResult s t (s.task t).syncStatus (some .failed) "Terminated"
    else s

/-- the hook's finalizer is gone -/
def deleteTerminated :
    Bool × St :=
  let r := deleteUnfinished ctx w s t status
  match r.1.filter fun err => err.reason ≠ .notFound with
  | some err =>
    (false, setResourceResult r.2 t (r.2.task t).syncStatus (some .failed) ("Failed to delete: " ++ err.message))
  | none => (true, recordTerminated r.2 t status)

/-- a running hook with its live object -/
def terminateLive : Bool × St :=
  let p := hookStatus w s t live
  let r := removeHookFinalizer w p.2 t
  match r.1 with
  | some err =>
    (false, setResourceResult r.2 t (r.2.task t).syncStatus (some .error)
      ("Failed to remove hook finalizer: " ++ err.message))
  | none => deleteTerminated ctx w r.2 t p.1

def terminateHook : Bool × St :=
  if !t.isHook || !(s.task t).running then (true, s)
  else
    let f := fetchLiveObj w s t
    match f.1 with
    | some err =>
      (false, setResourceResult f.2 t (f.2.task t).syncStatus (some .error)
        ("Failed to get live resource: " ++ err.message))
    | none =>
      match f.2.liveObj t with
      | none => (true, setResourceResult f.2 t (f.2.task t).syncStatus (some .succeeded) "Terminated")
      | some live => terminateLive ctx w f.2 t live

def terminateHooksPreemptively : Bool × St :=
  tasks.foldl (fun p t => let r := terminateHook ctx w p.2 t; (p.1 && r.1, r.2)) (true, s)

/-! ## Failure -/

def withSyncFailMessage (failed : List SyncTask) (text : String) : String :=
  if failed = [] then text else text ++ "\n" ++ errorMessage s failed "one or more SyncFail hooks failed"

/-- whether the operation is over, and the state -/
def executeSyncFailPhase (syncFailTasks syncFailedTasks : List SyncTask) (message : String)
    (s : St) : Bool × St :=
  let text := errorMessage s syncFailedTasks message
  if syncFailTasks = [] then (true, s.setOperationPhase .failed text)
  else if syncFailTasks.all fun t => (s.task t).completed then
    (true, s.setOperationPhase .failed (withSyncFailMessage s (syncFailTasks.filter (isSyncFailed s)) text))
  else
    let pending := syncFailTasks.filter fun t => !(s.task t).completed && !(s.task t).running
    (false, setRunningPhase ctx pending false (runTasks ctx w pending false s).2)

/-! ## The first call -/

/-- where a part of `Sync` ends: it returns, or the next part goes on -/
inductive Flow where
  | stop (s : St)
  | go (s : St)

def isUnmodified : Bool :=
  let key : ResourceKey :=
    match s.liveObj t with
    | some live => { t.obj.key with ns := live.obj.ns }
    | none => t.obj.key
  !t.isHook && ctx.modificationResult.lookup key = some false && t.targetObj.isSome && (s.liveObj t).isSome

/-- `filterOutOfSyncTasks`, when the context asks for it -/
def filterOutOfSyncTasks (tasks : List SyncTask) : List SyncTask :=
  if ctx.applyOutOfSyncOnly then tasks.filter fun t => !isUnmodified ctx s t else tasks

def getNamespaceCreationTask (tasks : List SyncTask) : Option SyncTask :=
  tasks.find? fun t => (s.liveObj t).isNone && t.targetObj.any fun target => isNamespaceWithName target ctx.ns

def validateTasks : Flow :=
  let r := runTasks ctx w (filterOutOfSyncTasks ctx s tasks) true s
  if r.1 = .failed then .stop (r.2.setOperationPhase .failed "one or more objects failed to apply (dry run)")
  else .go r.2

/-- "Before doing any validation, we have to create the application namespace if it does not exist" -/
def validate : Flow :=
  if s.started then .go s
  else
    match getNamespaceCreationTask ctx s tasks with
    | none => validateTasks ctx w tasks s
    | some nsTask =>
      let r := runTasks ctx w [nsTask] false s
      if r.1 = .failed then .stop (executeSyncFailPhase ctx w [] [nsTask] "the namespace failed to apply" r.2).2
      else validateTasks ctx w (tasks.filter fun t => t.ptr ≠ nsTask.ptr) r.2

/-! ## Running tasks -/

def updateRunningHook : St :=
  let r := getOperationPhase w s (s.read live)
  let status := (r.2.task t).syncStatus
  match r.1 with
  | .error err => setResourceResult r.2 t status (some .error) ("failed to get resource health: " ++ err)
  | .ok (phase, message) => setResourceResult r.2 t status (some phase) message

def updateRunningResource : St :=
  let r := getResourceHealth w s (s.read live)
  let status := (r.2.task t).syncStatus
  match r.1 with
  | .ok none => setResourceResult r.2 t status (some .succeeded) (r.2.task t).message
  | .ok (some ⟨.healthy, message⟩) => setResourceResult r.2 t status (some .succeeded) message
  | .ok (some ⟨.degraded, message⟩) => setResourceResult r.2 t status (some .failed) message
  | _ => r.2

def updateRunningTask : St :=
  match s.liveObj t with
  | none => s
  | some live => if t.isHook then updateRunningHook w s t live else updateRunningResource w s t live

def updateRunningTasks : St :=
  (tasks.filter fun t => (s.task t).running && (s.liveObj t).isSome).foldl (updateRunningTask w) s

/-- "check if any of the running task's resources are missing to prevent infinite loop of waiting for healthy" -/
def checkMissing : St :=
  match s.liveObj t with
  | some _ => s
  | none =>
    let r := getResource w s t
    match r.1 with
    | .ok _ => r.2
    | .error err =>
      if err.reason = .notFound then
        setResourceResult r.2 t (some .syncFailed) (some .error)
          ("Resource " ++ t.obj.group ++ "/" ++ t.obj.kind ++ "/" ++ t.obj.name ++
            " is missing, it might have been deleted")
      else
        setResourceResult r.2 t (r.2.task t).syncStatus (some .error) ("Failed to get live resource " ++ err.message)

/-- "(a) we are multi-step and we have any running tasks, or (b) there are any running hooks" -/
def awaitedTasks : List SyncTask :=
  tasks.filter fun t => (multiStep tasks || t.isHook) && (s.task t).running

def prunedTasksPendingDelete : List SyncTask :=
  tasks.filter fun t => (s.task t).pruned && (s.liveObj t).any fun live => live.obj.deletionTimestamp

/-! ## The next wave -/

/-- the variables of `Sync` when it runs a wave -/
structure Wave where
  tasks : List SyncTask
  remainingTasks : List SyncTask
  syncFailTasks : List SyncTask
  hooksPendingDeletionSuccessful : List SyncTask
  hooksPendingDeletionFailed : List SyncTask

def waveFailed : St :=
  let syncFailedTasks := wave.tasks.filter (isSyncFailed s)
  let runningHooks := wave.tasks.filter fun t => (s.task t).running
  let message := "one or more objects failed to apply"
  if runningHooks ≠ [] then
    if wave.syncFailTasks ≠ [] then
      let r := executeSyncFailPhase ctx w wave.syncFailTasks syncFailedTasks message s
      setRunningPhase ctx (if r.1 then runningHooks else runningHooks ++ wave.syncFailTasks) false r.2
    else setRunningPhase ctx runningHooks false s
  else
    let r := executeSyncFailPhase ctx w wave.syncFailTasks syncFailedTasks message s
    if r.1 then deleteHooks ctx w wave.hooksPendingDeletionFailed r.2 else r.2

def waveSuccessful : St :=
  if wave.remainingTasks = [] && !wave.tasks.any SyncTask.isHook then
    (deleteHooks ctx w wave.hooksPendingDeletionSuccessful s).setOperationPhase .succeeded
      "successfully synced (all tasks run)"
  else setRunningPhase ctx wave.tasks false s

def finishWave (r : RunState × St) : St :=
  match r.1 with
  | .failed => waveFailed ctx w wave r.2
  | .successful => waveSuccessful ctx w wave r.2
  | .pending =>
    let waiting := wave.tasks.filter fun t => deleteBeforeCreation r.2 t || (t.isPrune && (r.2.task t).pending)
    setRunningPhase ctx waiting true r.2

def runWave (first : SyncTask) (finalWave : Bool) (s : St) : St :=
  let r := runTasks ctx w wave.tasks false (s.setOperationPhase .running "one or more tasks are running")
  if ctx.hasSyncWaveHook && r.1 ≠ .failed then
    let err := w.syncWaveHook r.2.log first.phase first.wave finalWave
    let s := r.2.emit (.waveHook first.phase first.wave finalWave err)
    match err with
    | none => finishWave ctx w wave (r.1, s)
    | some err =>
      let s := (terminateHooksPreemptively ctx w (wave.tasks.filter SyncTask.isHook) s).2
      s.setOperationPhase .error ("SyncWaveHook failed: " ++ err)
  else finishWave ctx w wave r

def inWaveOf (first t : SyncTask) : Bool := t.phase = first.phase && t.wave = first.wave

/-- the tasks that fail the operation -/
def isUnsuccessful : Bool := (s.task t).completed && !(s.task t).successful

def regularTasks : List SyncTask := tasks.filter fun t => t.phase ≠ .syncFail

def pendingTasks : List SyncTask :=
  filterOutOfSyncTasks ctx s ((regularTasks tasks).filter fun t => (s.task t).pending)

/-- "syncFailTasks only run during failure, so separate them from regular tasks" -/
def syncFailTasks : List SyncTask := tasks.filter fun t => t.phase = .syncFail

def hooksPendingDeletionSuccessful : List SyncTask :=
  tasks.filter fun t => t.isHook && !(s.task t).running && deleteOnPhaseSuccessful s t

def hooksPendingDeletionFailed : List SyncTask :=
  tasks.filter fun t => t.isHook && !(s.task t).running && deleteOnPhaseFailed s t

/-- the wave of the first pending task -/
def nextWave (tasks pending : List SyncTask) (s : St) (first : SyncTask) : Wave where
  tasks := pending.filter (inWaveOf first)
  remainingTasks := pending.filter fun t => !inWaveOf first t
  syncFailTasks := syncFailTasks tasks
  hooksPendingDeletionSuccessful := hooksPendingDeletionSuccessful tasks s
  hooksPendingDeletionFailed := hooksPendingDeletionFailed tasks s

def proceed : St :=
  if (regularTasks tasks).any (isUnsuccessful s) then
    (executeSyncFailPhase ctx w (syncFailTasks tasks) ((regularTasks tasks).filter (isSyncFailed s))
      "one or more synchronization tasks completed unsuccessfully"
      (deleteHooks ctx w (hooksPendingDeletionFailed tasks s) s)).2
  else
    let pending := pendingTasks ctx tasks s
    match pending with
    | [] =>
      (deleteHooks ctx w (hooksPendingDeletionSuccessful tasks s) s).setOperationPhase .succeeded
        "successfully synced (no more tasks)"
    | first :: _ =>
      runWave ctx w (nextWave tasks pending s first) first (pending.getLast?.all (inWaveOf first)) s

def advance : St :=
  let s := updateRunningTasks w tasks s
  let awaited := awaitedTasks tasks s
  if awaited ≠ [] then setRunningPhase ctx awaited false (awaited.foldl (checkMissing w) s)
  else
    let deleting := prunedTasksPendingDelete tasks s
    if deleting ≠ [] then setRunningPhase ctx deleting true s
    else proceed ctx w tasks (removeCompletedFinalizers w tasks s)

/-! ## Sync and Terminate -/

def sync : St :=
  let p := getSyncTasks ctx w s
  if p.successful then
    match validate ctx w p.tasks p.s with
    | .stop s => s
    | .go s => advance ctx w p.tasks s
  else p.s.setOperationPhase .failed (invalidMessage p.s.syncRes.values)

def terminate : St :=
  let p := getSyncTasks ctx w s
  let r := terminateHooksPreemptively ctx w (p.tasks.filter SyncTask.isHook) (removeCompletedFinalizers w p.tasks p.s)
  if r.1 then r.2.setOperationPhase .failed "Operation terminated"
  else r.2.setOperationPhase .error "Operation termination had errors"

/-- what `GetState` returns and `WithInitialState` takes -/
structure OperationState where
  phase : Option OperationPhase
  message : String
  results : List ResourceSyncResult

def getState : OperationState :=
  ⟨s.phase, s.message, s.syncRes.values.insertionSort fun r r' => r.order ≤ r'.order⟩

/-- a new context with `WithInitialState` -/
def restore (o : OperationState) : St :=
  ⟨KeyedMap.ofList o.results, o.phase, o.message, fun _ => TaskState.new, fun _ => none, []⟩

end GitOpsDeploy.Sync

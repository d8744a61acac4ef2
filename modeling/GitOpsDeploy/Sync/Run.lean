/-
Running tasks (`runTasks` and what it calls in `gitops-engine/pkg/sync/sync_context.go`): removal of hook finalizers,
pruning, deletion of hooks before they are created again, and creation, group by group of one kind.
-/
import GitOpsDeploy.Sync.Plan

namespace GitOpsDeploy.Sync

variable (ctx : Ctx) (w : World) (s : St) (t : SyncTask) (target : Obj) (dryRun : Bool) (state : RunState)
    (tasks : List SyncTask)

/-! ## Calls for one task -/

/-- `getResourceIf` asks discovery first -/
def getResource : Except ApiError LiveObj × St :=
  let r := discover w s t.obj.gvk "get"
  match r.1 with
  | some err => (.error (err.wrap "failed to get api resource"), r.2)
  | none =>
    let answer := w.get r.2.log t
    let s := r.2.emit (.get t answer)
    match answer with
    | .error err => (.error (err.wrap "failed to get resource"), s)
    | .ok obj => (.ok ⟨obj, .read r.2.log.length⟩, s)

def updateResource (obj : Obj) : Option ApiError × St :=
  let r := discover w s t.obj.gvk "update"
  match r.1 with
  | some err => (some (err.wrap "failed to get api resource"), r.2)
  | none =>
    let err := w.update r.2.log obj
    (err.map (ApiError.wrap "failed to update resource"), r.2.emit (.update t obj err))

def getDeleteOptions : String := ctx.prunePropagationPolicy.getD "Foreground"

def deleteResource : Option ApiError × St :=
  let r := discover w s t.obj.gvk "delete"
  match r.1 with
  | some err => (some (err.wrap "failed to get api resource"), r.2)
  | none =>
    let err := w.delete r.2.log t
    (err.map (ApiError.wrap "failed to delete resource"), r.2.emit (.delete t (getDeleteOptions ctx) err))

/-! ## Hook finalizers -/

/-- the first entry is taken off the object in place; `none` when there is none -/
def removeFinalizerMutation (l : LiveObj) : Option St :=
  if hookFinalizer ∈ (s.read l).finalizers then
    some (s.setFinalizers l ((s.read l).finalizers.erase hookFinalizer))
  else none

/-- the update was refused for a conflict: read the object again -/
def refreshLiveObj (updateErr : ApiError) : Option ApiError × St :=
  let r := getResource w s t
  match r.1 with
  | .ok live => (some (updateErr.wrap "failed to update resource"), r.2.setLiveObj t (some live))
  | .error err => if err.reason = .notFound then (none, r.2) else (some (err.wrap "failed to get resource"), r.2)

/-- one turn of the retried function -/
def tryRemoveHookFinalizer : Option ApiError × St :=
  match s.liveObj t with
  | none => (none, s)
  | some l =>
    match removeFinalizerMutation s l with
    | none => (none, s)
    | some s =>
      let r := updateResource w s t (s.read l)
      match r.1 with
      | none => (none, r.2)
      | some err =>
        if err.reason = .conflict then refreshLiveObj w r.2 t err
        else if err.reason = .notFound then (none, r.2)
        else (some (err.wrap "failed to update resource"), r.2)

def removeHookFinalizer : Option ApiError × St :=
  retryOn .conflict (fun s => tryRemoveHookFinalizer w s t) defaultRetries s

/-! ## Applying and pruning -/

def shouldUseServerSideApply : Bool :=
  if ctx.dryRun || dryRun then false
  else if hasSyncOption target "ServerSideApply=false" then false
  else ctx.serverSideApply || hasSyncOption target "ServerSideApply=true"

def needsClientSideApplyMigration (live : Option Obj) (fieldManager : String) : Bool :=
  match live with
  | none => false
  | some live => fieldManager ≠ "" && live.managedFields.any fun field => field.1 = fieldManager && field.2 = "Update"

/-- one turn of the retried function -/
def tryMigrate (live : Obj) (manager : String) : Option ApiError × St :=
  let answer := w.getFresh s.log live
  let s := s.emit (.getFresh live answer)
  match answer with
  | .error err => (some (err.wrap "failed to get fresh object for CSA migration"), s)
  | .ok fresh =>
    if needsClientSideApplyMigration (some fresh) manager then
      match w.upgradeManagedFieldsPatch fresh manager ctx.serverSideApplyManager with
      | .error err => (some ⟨.other, "failed to generate csaupgrade migration patch: " ++ err⟩, s)
      | .ok none => (none, s)
      | .ok (some patch) =>
        let err := w.patch s.log live patch
        (err, s.emit (.patch live patch err))
    else (none, s)

def GroupVersionKind.text (gvk : GroupVersionKind) : String :=
  gvk.group ++ "/" ++ gvk.version ++ ", Kind=" ++ gvk.kind

def performCSAUpgradeMigration (live : Obj) (manager : String) :
    Option ApiError × St :=
  let r := discover w s live.gvk "patch"
  match r.1 with
  | some err => (some (err.wrap ("failed to get api resource for " ++ GroupVersionKind.text live.gvk)), r.2)
  | none => retryOn .conflict (fun s => tryMigrate ctx w s live manager) defaultRetries r.2

/-- `sc.resourceOps`: the request that brings the target to the cluster -/
def applyRequest (dryRun validate : Bool) : Apply :=
  let live := (s.liveObj t).map LiveObj.obj
  let hasOption (val : String) : Bool := hasSyncOption target val || live.any fun live => hasSyncOption live val
  let force := ctx.force || hasOption "Force=true"
  if ctx.replace || hasOption "Replace=true" then
    match live with
    | some live =>
      -- "replace" might recreate a CRD or a namespace and so delete what is within
      if isCRD target || target.kind = "Namespace" then .update { target with resourceVersion := live.resourceVersion }
      else .replace target force
    | none => .create target validate
  else .apply target force validate (shouldUseServerSideApply ctx target dryRun) ctx.serverSideApplyManager

def Apply.message (request : Apply) (message : String) : String :=
  match request with
  | .update obj => obj.kind ++ "/" ++ obj.name ++ " updated"
  | _ => message

def dryRunStrategy : DryRunStrategy := if dryRun then .client else .none

/-- the migration before a server-side apply; the text of its failure -/
def migrate : Option String × St :=
  match (s.liveObj t).map s.read with
  | none => (none, s)
  | some live =>
    if shouldUseServerSideApply ctx target dryRun && !dryRun && ctx.enableClientSideApplyMigration &&
        needsClientSideApplyMigration (some live) ctx.clientSideApplyMigrationManager then
      let r := performCSAUpgradeMigration ctx w s live ctx.clientSideApplyMigrationManager
      (r.1.map fun err =>
        "Failed to perform client-side apply migration for " ++ live.key.text ++ ": " ++ err.message, r.2)
    else (none, s)

def applyObject (dryRun validate : Bool) :
    (ResultCode × String) × St :=
  let r := migrate ctx w s t target dryRun
  match r.1 with
  | some message => ((.syncFailed, message), r.2)
  | none =>
    let request := applyRequest ctx r.2 t target dryRun validate
    let answer := w.apply r.2.log request (dryRunStrategy dryRun)
    let s := r.2.emit (.apply t request (dryRunStrategy dryRun) answer)
    match answer with
    | .error err => ((.syncFailed, err.message), s)
    | .ok message =>
      ((.synced, request.message message), if isCRD target && !dryRun then s.emit (.crdReady target.name) else s)

def pruneObject : (ResultCode × String) × St :=
  if !ctx.prune then ((.pruneSkipped, "ignored (requires pruning)"), s)
  else if isPruningDisabled (some t.obj) ctx.defaultPruneOption then ((.pruneSkipped, "ignored (no prune)"), s)
  else if dryRun then ((.pruned, "pruned (dry run)"), s)
  -- an object already marked for deletion is not deleted again
  else if t.obj.deletionTimestamp then ((.pruned, "pruned"), s)
  else
    let err := w.deleteLive s.log t.obj
    let s := s.emit (.prune t t.obj (getDeleteOptions ctx) err)
    match err with
    | some err => ((.syncFailed, err.message), s)
    | none => ((.pruned, "pruned"), s)

/-! ## Groups of goroutines -/

/-- `runState` -/
inductive RunState where
  | successful
  | pending
  | failed
  deriving DecidableEq, Repr

/-- how `stateSync.Wait` takes in one result -/
def RunState.add : RunState → RunState → RunState
  | .failed, _ => .failed
  | .pending, .failed => .failed
  | .pending, _ => .pending
  | .successful, result => result

/-- a `stateSync` over the tasks: every goroutine starts from the current state -/
def goAll (f : RunState → SyncTask → St → RunState × St) (current : RunState) (tasks : List SyncTask) (s : St) :
    RunState × St :=
  tasks.foldl (fun p t => let r := f current t p.2; (p.1.add r.1, r.2)) (current, s)

/-- whether a result is recorded: in a dry run before the sync only failures are -/
def recordsResult (result : ResultCode) : Bool :=
  !dryRun || ctx.dryRun || result = .syncFailed

/-- "remove finalizers from previous sync on existing hooks" -/
def removeOldFinalizer (t : SyncTask) (s : St) : RunState × St :=
  if dryRun then (state, s)
  else
    let r := removeHookFinalizer w s t
    match r.1 with
    | none => (state, r.2)
    | some err =>
      (.failed, setResourceResult r.2 t (r.2.task t).syncStatus (some .error)
        ("failed to remove hook finalizer: " ++ err.message))

def pruneTask (t : SyncTask) (s : St) : RunState × St :=
  let r := pruneObject ctx w s t dryRun
  let result := r.1.1
  (if result = .syncFailed then .failed else state,
    if recordsResult ctx dryRun result then setResourceResult r.2 t (some result) (some result.operationPhase) r.1.2
    else r.2)

/-- "we are at best now in pending and want to return and wait for sync to be invoked again" -/
def deleteTask (t : SyncTask) (s : St) : RunState × St :=
  if dryRun then (state, s)
  else
    let r := deleteResource ctx w s t
    match r.1 with
    | none => (.pending, r.2)
    | some err =>
      if err.reason = .notFound then (state, r.2.setLiveObj t none)
      else (.failed, setResourceResult r.2 t (r.2.task t).syncStatus (some .error)
        ("failed to delete resource: " ++ err.message))

/-- "no resources are created in dry-run, so running phase means validation was successful" -/
def appliedPhase (result : ResultCode) : OperationPhase :=
  if ctx.dryRun && result.operationPhase = .running then .succeeded else result.operationPhase

def applyTask (t : SyncTask) (s : St) : RunState × St :=
  match t.targetObj with
  | none => (state, s)
  | some target =>
    let validate := ctx.validate && !hasSyncOption target "Validate=false"
    let r := applyObject ctx w s t target dryRun validate
    let result := r.1.1
    (if result = .syncFailed then .failed else state,
      if recordsResult ctx dryRun result then
        setResourceResult r.2 t (some result) (some (appliedPhase ctx result)) r.1.2
      else r.2)

def processCreateTasks (s : St) :
    RunState × St :=
  let tasks := tasks.filter fun t => !(dryRun && t.skipDryRun)
  goAll (applyTask ctx w dryRun) state (w.taskOrder .create s.log tasks) s

/-! ## runTasks -/

def isExistingHook : Bool := t.isHook && (s.task t).pending && (s.liveObj t).isSome

def deleteBeforeCreation : Bool :=
  (s.liveObj t).isSome && (s.task t).pending && t.hasHookDeletePolicy .beforeHookCreation

def requiresPruneConfirmation : Bool :=
  t.isPrune && objRequiresPruneConfirmation (some t.obj) ctx.defaultPruneOption

def removeOldFinalizers (s : St) : RunState × St :=
  goAll (removeOldFinalizer w dryRun) .successful (w.taskOrder .finalizers s.log (tasks.filter (isExistingHook s))) s

def pruneTasks (s : St) : RunState × St :=
  goAll (pruneTask ctx w dryRun) .successful (w.taskOrder .prune s.log (tasks.filter SyncTask.isPrune)) s

def deleteTasks (s : St) : RunState × St :=
  let pending := tasks.filter fun t => !t.isPrune && deleteBeforeCreation s t
  goAll (deleteTask ctx w dryRun) .successful (w.taskOrder .delete s.log pending) s

/-- the next group waits for the one before -/
def createTasks (s : St) : RunState × St :=
  let groups := (tasks.filter fun t => !t.isPrune).splitBy fun t u => t.obj.kind = u.obj.kind
  groups.foldl (fun p group => processCreateTasks ctx w dryRun p.1 group p.2) (.successful, s)

/-- a stage starts only after a successful one -/
def RunState.andThen (r : RunState × St) (next : St → RunState × St) : RunState × St :=
  if r.1 = .successful then next r.2 else r

def runTasks (dryRun : Bool) (s : St) : RunState × St :=
  let dryRun := dryRun || ctx.dryRun
  RunState.andThen (removeOldFinalizers w dryRun tasks s) fun s =>
    if !ctx.pruneConfirmed && tasks.any (requiresPruneConfirmation ctx) then (.pending, s)
    else
      RunState.andThen (pruneTasks ctx w dryRun tasks s) fun s =>
        RunState.andThen (deleteTasks ctx w dryRun tasks s) fun s => createTasks ctx w dryRun tasks s

end GitOpsDeploy.Sync

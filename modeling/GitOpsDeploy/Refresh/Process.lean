/-
One refresh of an application, `processAppRefreshQueueItem`.

After a comparison the finalizers of delete hooks are set or removed by what the comparison found, and then the status is
persisted. The two are separate requests: a failed update of the finalizers is only logged. Everything the function reads
is an input; the log has its writes to the application in order.
-/
import GitOpsDeploy.Compare.State
import GitOpsDeploy.Deletion.Hooks

namespace GitOpsDeploy.Refresh

open Compare (ComparisonResult SyncStatusCode)
open Deletion (HookType PatchAnswer)

/-! ## Inputs and calls -/

/-- what a persisted status comes from -/
inductive StatusSource where
  /-- the status as it was, with a new summary -/
  | previous
  /-- the conditions of the application have errors -/
  | conditionErrors
  | comparison (code : SyncStatusCode) (hasPreDeleteHooks hasPostDeleteHooks : Bool)
  deriving DecidableEq, Repr

inductive StatusAnswer where
  | stored
  /-- the status is too large; a condition is persisted instead, if it can be -/
  | tooLarge (fallbackStored : Bool)
  | failed
  deriving DecidableEq, Repr

inductive Call where
  | patchSpec (stored : Bool)
  | patchFinalizers (finalizers : List String) (answer : PatchAnswer)
  | persistStatus (source : StatusSource) (answer : StatusAnswer)
  deriving DecidableEq, Repr

/-- how the function ends early -/
inductive Exit where
  | returned
  | panicked
  deriving DecidableEq, Repr

inductive Level where
  | withNothing
  | withRecent
  | withLatest
  | withLatestForceResolve
  deriving DecidableEq, Repr

structure Env where
  /-- the application from the informer, which may lag behind -/
  app : Deletion.App
  needRefresh : Bool
  level : Level
  destCluster : Except String Unit
  /-- for a refresh of the tree only: the cached resources, the tree, and whether it is cached -/
  managedResources : Except String Unit
  resourceTree : Except String Unit
  setResourcesTree : Except String Unit
  hasErrors : Bool
  compareEnv : Compare.Env
  compareApp : Compare.App
  compareRequest : Compare.Request
  /-- whether a normalized specification is patched, and the answer -/
  specPatch : Option Bool
  projectForPatch : List String → Except String Unit
  patch : List String → PatchAnswer
  /-- nothing is written where the status has not changed -/
  statusChanged : StatusSource → Bool
  persist : StatusSource → StatusAnswer

variable (env : Env) (app : Deletion.App) (t : HookType)

/-! ## The refresh -/

abbrev Step := Script Call Exit

def persistReconciliationStatus (source : StatusSource) : Step Unit :=
  if env.statusChanged source then Script.emit (.persistStatus source (env.persist source)) else pure ()

/-- an error is logged, and the function goes on -/
def updateFinalizers (finalizers : List String) : Step Unit :=
  match env.projectForPatch finalizers with
  | .error _ => pure ()
  | .ok () => Script.emit (.patchFinalizers finalizers (env.patch finalizers))

/-- the two finalizers of a kind of hooks -/
def stages : List (List String) := [[], ["cleanup"]]

/-- set or remove the finalizers of the kind -/
def setHookFinalizers (found : Bool) : Deletion.App :=
  (app.setHookFinalizer t [] found).setHookFinalizer t ["cleanup"] found

def needsUpdate (found : Bool) : Bool :=
  (found != app.hasHookFinalizer t [] || found != app.hasHookFinalizer t ["cleanup"]) && app.deletionTimestamp.isNone

/-- the application to go on with, changed also when the update fails -/
def syncHookFinalizers (found : Bool) : Step Deletion.App :=
  if needsUpdate app t found then do
    let app := setHookFinalizers app t found
    updateFinalizers env app.finalizers
    pure app
  else pure app

def normalizeApplication : Step Unit :=
  match env.specPatch with
  | none => pure ()
  | some stored => Script.emit (.patchSpec stored)

/-- the part after a comparison with a result -/
def applyComparison (r : ComparisonResult) : Step Unit := do
  normalizeApplication env
  let app ← syncHookFinalizers env env.app .preDelete r.hasPreDeleteHooks
  let _ ← syncHookFinalizers env app .postDelete r.hasPostDeleteHooks
  persistReconciliationStatus env (.comparison r.status r.hasPreDeleteHooks r.hasPostDeleteHooks)

def compareAndApply : Step Unit :=
  match Compare.compareAppState env.compareEnv env.compareApp env.compareRequest with
  | .repoErr => Script.stop .returned
  -- the missing result is read all the same
  | .err _ => Script.stop .panicked
  | .result r => applyComparison env r

/-- a refresh of the tree only; false to go on with a full one -/
def refreshTree : Step Bool :=
  if env.level = .withNothing ∧ env.destCluster = .ok () ∧ env.managedResources = .ok () then
    if env.resourceTree = .ok () ∧ env.setResourcesTree ≠ .ok () then pure true
    else do
      persistReconciliationStatus env .previous
      pure true
  else pure false

def processAppRefreshQueueItem : Step Unit := do
  if env.needRefresh then do
    let done ← refreshTree env
    if done then pure ()
    else if env.hasErrors then persistReconciliationStatus env .conditionErrors
    else
      match env.destCluster with
      | .error _ => pure ()
      | .ok () => compareAndApply env
  else pure ()

end GitOpsDeploy.Refresh

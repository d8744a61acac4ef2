/-
Finalizing the deletion of an application (`finalizeApplicationDeletion` of `controller/appcontroller.go`).

One call reads the application and goes through five stages, each held by a finalizer: pre-delete hooks, the cascade,
post-delete hooks and the cleanup of both kinds of hooks. All answers of the cluster and of the API server are inputs of
the call; each listing of live objects is an answer of its own.
-/
import GitOpsDeploy.Deletion.Hooks

namespace GitOpsDeploy.Deletion

/-- a listing of the live objects, with what the project says about them -/
structure Listing where
  objs : Except String (List Managed)
  permitted : Managed → Except String Bool

/-- how the call returns early -/
inductive Exit where
  | nil
  | err (text : String)
  | panic
  deriving DecidableEq, Repr

/-- what one call gets from outside -/
structure CallEnv where
  getApp : Except String App
  getAppProj : Except String Unit
  destCluster : Except String Unit
  restConfig : Except String Unit
  impersonation : Except String Unit
  preListing : Listing
  cascadeListing : Listing
  lastListing : Listing
  postListing : Listing
  preCleanupListing : Listing
  postCleanupListing : Listing
  preHooks : HookEnv
  postHooks : HookEnv
  preCleanup : CleanupEnv
  postCleanup : CleanupEnv
  waveSort : WaveSort
  /-- the answers to the deletes of the cascade, and after how many of them no more are started once one has failed -/
  deleteErr : Managed → Option String
  started : ℕ
  /-- the project is read again for every patch of the finalizers -/
  projectForPatch : List String → Except String Unit
  patch : List String → PatchAnswer
  setAppManagedResources : Except String Unit
  setAppResourcesTree : Except String Unit

/-- the loop over the live objects of `getPermittedAppLiveObjects` -/
def keepPermitted (permitted : Managed → Except String Bool) : List Managed → Except String (List Managed)
  | [] => .ok []
  | m :: later =>
    match permitted m with
    | .error err => .error err
    | .ok keep => (keepPermitted permitted later).map fun kept => if keep then m :: kept else kept

def getPermittedAppLiveObjects (l : Listing) : Except String (List Managed) := l.objs.bind (keepPermitted l.permitted)

abbrev Step := Script Call Exit

/-- go on, or return the error -/
def orErr {A : Type} (wrap : String → String) (r : Except String A) : Step A :=
  Script.lift (r.mapError fun err => .err (wrap err))

def orErrs {A : Type} (wrap : String → String) (s : Script Call String A) : Step A := s.mapStop fun err => .err (wrap err)

variable (env : CallEnv) (app : App) (wrap : String → String)

def updateFinalizers : Step Unit := do
  orErr (fun err => wrap ("error getting project: " ++ err)) (env.projectForPatch app.finalizers)
  Script.emit (.patchFinalizers app.finalizers (env.patch app.finalizers))
  match env.patch app.finalizers with
  | .stored => pure ()
  | .failed err _ => Script.stop (.err (wrap err))

/-- without a destination cluster there is nothing to clean up -/
def leaveUndefinedCluster : Step Unit :=
  updateFinalizers env
    ((app.unsetCascadedDeletion.unsetHookFinalizerAll .postDelete).unsetHookFinalizerAll .preDelete) id

/-- the application to go on with after the pre-delete hooks -/
def preDeleteStage : Step App :=
  if app.hasHookFinalizer .preDelete [] then do
    let objs ← orErr ("error getting permitted app live objects: " ++ ·) (getPermittedAppLiveObjects env.preListing)
    let done ← orErrs ("error executing pre-delete hooks: " ++ ·) (executeHooks env.preHooks .preDelete app objs)
    if done then do
      let app := app.setHookFinalizer .preDelete [] false
      updateFinalizers env app ("error updating pre-delete finalizers: " ++ ·)
      pure app
    else Script.stop .nil
  else pure app

/-- the objects to delete, unless the deletion has to wait for one of the live objects -/
def chooseDeletions (app : App) (approved : Bool) : List Managed → Except Exit (List Managed)
  | [] => .ok []
  | m :: later =>
    if m.deletionTimestamp then .error .nil
    else if shouldBeDeleted app m then
      if decide (∃ r ∈ app.findResource m.key, r.requiresDeletionConfirmation) && !approved then .error .nil
      else (chooseDeletions app approved later).map (m :: ·)
    else chooseDeletions app approved later

/-- the deletes that are started: all of them, unless one fails before -/
def startedDeletions (objs : List Managed) : List Managed :=
  if (objs.take env.started).any (fun m => (env.deleteErr m).isSome) then objs.take env.started else objs

/-- `kube.RunAllAsync` over the deletes -/
def deleteAll (objs : List Managed) : Step Unit :=
  let background := app.getPropagationPolicy = backgroundPropagationPolicyFinalizer
  ⟨(startedDeletions env objs).map (.deleteResource · background),
    match (startedDeletions env objs).findSome? env.deleteErr with
    | some err => .error (.err err)
    | none => .ok ()⟩

def cascadeStage : Step Unit := do
  match app.deletionTimestamp with
  | none => Script.stop .panic
  | some since => do
    let live ← orErr id (getPermittedAppLiveObjects env.cascadeListing)
    let objs ← Script.lift (chooseDeletions app (app.isDeletionConfirmed since) live)
    deleteAll env app (filterObjectsForDeletion env.waveSort objs)
    let left ← orErr id (getPermittedAppLiveObjects env.lastListing)
    if left.any (shouldBeDeleted app) then Script.stop .nil
    else updateFinalizers env app.unsetCascadedDeletion id

def postDeleteStage : Step Unit := do
  let objs ← orErr id (getPermittedAppLiveObjects env.postListing)
  let done ← orErrs id (executeHooks env.postHooks .postDelete app objs)
  if done then updateFinalizers env (app.setHookFinalizer .postDelete [] false) id else Script.stop .nil

def preCleanupStage : Step Unit := do
  let objs ← orErr ("error getting permitted app live objects for pre-delete cleanup: " ++ ·)
    (getPermittedAppLiveObjects env.preCleanupListing)
  let done ← orErrs ("error cleaning up pre-delete hooks: " ++ ·) (cleanupHooks env.preCleanup .preDelete objs)
  if done then updateFinalizers env (app.setHookFinalizer .preDelete ["cleanup"] false) id else Script.stop .nil

def postCleanupStage : Step Unit := do
  let objs ← orErr id (getPermittedAppLiveObjects env.postCleanupListing)
  let done ← orErrs id (cleanupHooks env.postCleanup .postDelete objs)
  if done then updateFinalizers env (app.setHookFinalizer .postDelete ["cleanup"] false) id else Script.stop .nil

/-- what is forgotten about the application; it cannot have one of the finalizers here -/
def forgetApp : Step Unit := do
  orErr id env.setAppManagedResources
  orErr id env.setAppResourcesTree

/-- the stages after the pre-delete hooks; each but the last returns -/
def laterStages : Step Unit :=
  if app.cascadedDeletion then cascadeStage env app
  else if app.hasHookFinalizer .postDelete [] then postDeleteStage env app
  else if app.hasHookFinalizer .preDelete ["cleanup"] then preCleanupStage env app
  else if app.hasHookFinalizer .postDelete ["cleanup"] then postCleanupStage env app
  else if app.hasHookFinalizer .preDelete [] then pure ()
  else forgetApp env

def finalizeApplicationDeletion : Step Unit := do
  match env.getApp with
  | .error _ => Script.stop .nil
  | .ok app => do
    orErr id env.getAppProj
    match env.destCluster with
    | .error _ => leaveUndefinedCluster env app
    | .ok () => do
      orErr id env.restConfig
      orErr ("cannot apply impersonation: " ++ ·) env.impersonation
      let app ← preDeleteStage env app
      laterStages env app

end GitOpsDeploy.Deletion

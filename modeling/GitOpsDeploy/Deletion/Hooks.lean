/-
Delete hooks (`executeHooks` and `cleanupHooks` of `controller/hook.go`).

`executeHooks` creates the hooks of the target manifests that the live listing does not show, and reports done when it
created none and no listed hook is Progressing or Degraded. The listing, the manifests, the answers of the cluster and
the health of objects are inputs. The order in which Go ranges over a map is left open by `order`.
-/
import GitOpsDeploy.Core.Script
import GitOpsDeploy.Deletion.Objects

namespace GitOpsDeploy.Deletion

open Sync (Obj HealthStatusCode HealthStatus)

inductive CreateAnswer where
  | created
  | alreadyExists
  | failed (err : String)
  deriving DecidableEq, Repr

inductive DeleteAnswer where
  | deleted
  | notFound
  | failed (err : String)
  deriving DecidableEq, Repr

/-- the outcome of a finalizer patch; one that fails may have been stored all the same -/
inductive PatchAnswer where
  | stored
  | failed (err : String) (applied : Bool)
  deriving DecidableEq, Repr

/-- the calls of the deletion of an application -/
inductive Call where
  | createHook (type : HookType) (obj : Obj) (answer : CreateAnswer)
  | deleteHook (type : HookType) (obj : Managed) (answer : DeleteAnswer)
  /-- a delete that the cascade issues -/
  | deleteResource (obj : Managed) (background : Bool)
  | patchFinalizers (finalizers : List String) (answer : PatchAnswer)
  deriving DecidableEq, Repr

/-- everything `executeHooks` gets from outside -/
structure HookEnv where
  settings : Except String Unit
  targets : Except String (List Obj)
  order : List Obj → List Obj
  order_perm : ∀ l, (order l).Perm l
  setAppInstance : Obj → Except String Obj
  create : Obj → CreateAnswer
  overrides : Except String Unit
  health : Managed → Except String (Option HealthStatus)
  delete : Managed → DeleteAnswer

variable (t : HookType)

/-- the live objects that are hooks of the type -/
def runningHooks (live : List Managed) : List Managed := live.filter fun m => isHookOfType m.toObj t

/-- a target without a namespace belongs to the namespace of the destination -/
def inDestination (app : App) (o : Obj) : Obj := if o.ns = "" then { o with ns := app.destinationNamespace } else o

/-- the target hooks of the type -/
def targetHooks (app : App) (targets : List Obj) : List Obj :=
  (targets.map (inDestination app)).filter fun o => isHookOfType o t

/-- the target hooks that no live hook has the key of; of several with one key the last is kept -/
def expectedHooks (app : App) (targets : List Obj) (live : List Managed) : List Obj :=
  let missing := (targetHooks t app targets).filter fun o => !(runningHooks t live).any fun m => m.key = o.key
  keepLast missing
where
  keepLast : List Obj → List Obj
    | [] => []
    | o :: later => if later.any (fun p => p.key = o.key) then keepLast later else o :: keepLast later

/-- the loop that creates hooks, with the number of hooks created so far -/
def createHooks (env : HookEnv) (t : HookType) : List Obj → ℕ → Script Call String ℕ
  | [], createdCnt => pure createdCnt
  | hook :: later, createdCnt => do
    let obj ← Script.lift ((env.setAppInstance hook).mapError fun err =>
      "failed to set app instance tracking on " ++ t.text ++ " hook " ++ hook.key.text ++ ": " ++ err)
    Script.emit (.createHook t obj (env.create obj))
    match env.create obj with
    | .created => createHooks env t later (createdCnt + 1)
    | .alreadyExists => createHooks env t later createdCnt
    | .failed err => Script.stop err

/-- the health of a hook; without a health check it counts as Healthy -/
def hookHealth (health : Managed → Except String (Option HealthStatus)) (m : Managed) : Except String HealthStatusCode :=
  (health m).map fun status => (status.map HealthStatus.status).getD .healthy

structure HookCounts where
  progressing : ℕ
  failed : List Managed

/-- the loop over the health of the running hooks -/
def countHooks (health : Managed → Except String (Option HealthStatus)) : List Managed → HookCounts →
    Except String HookCounts
  | [], counts => .ok counts
  | m :: later, counts =>
    match hookHealth health m with
    | .error err => .error err
    | .ok .progressing => countHooks health later { counts with progressing := counts.progressing + 1 }
    | .ok .degraded => countHooks health later { counts with failed := counts.failed ++ [m] }
    | .ok _ => countHooks health later counts

/-- failed hooks are deleted, so that they can be created again; the answers do not matter -/
def deleteFailedHooks (env : HookEnv) (t : HookType) (failed : List Managed) : Script Call String Unit :=
  ⟨failed.map fun m => .deleteHook t m (env.delete m), .ok ()⟩

def failedHooksText (failed : List Managed) : String :=
  t.text ++ " hook(s) failed: " ++ ", ".intercalate (failed.map fun m => m.ns ++ "/" ++ m.name)

def executeHooks (env : HookEnv) (t : HookType) (app : App) (live : List Managed) : Script Call String Bool := do
  Script.lift env.settings
  let targets ← Script.lift env.targets
  let createdCnt ← createHooks env t (env.order (expectedHooks t app targets live)) 0
  if createdCnt > 0 then pure false
  else do
    Script.lift env.overrides
    let counts ← Script.lift (countHooks env.health (runningHooks t live) ⟨0, []⟩)
    if counts.failed ≠ [] then do
      deleteFailedHooks env t counts.failed
      Script.stop (failedHooksText t counts.failed)
    else pure (counts.progressing = 0)

/-! ## Cleanup -/

structure CleanupEnv where
  overrides : Except String Unit
  health : Managed → Except String (Option HealthStatus)
  delete : Managed → DeleteAnswer

/-- position in `healthOrder` -/
def healthRank : HealthStatusCode → ℕ
  | .healthy => 0
  | .suspended => 1
  | .progressing => 2
  | .missing => 3
  | .degraded => 4
  | .unknown => 5

def isWorse (current new : HealthStatusCode) : Bool := healthRank current < healthRank new

/-- the worst health of the hooks -/
def aggregateHealth (health : Managed → Except String (Option HealthStatus)) : List Managed → HealthStatusCode →
    Except String HealthStatusCode
  | [], aggregated => .ok aggregated
  | m :: later, aggregated =>
    match hookHealth health m with
    | .error err => .error err
    | .ok code => aggregateHealth health later (if isWorse aggregated code then code else aggregated)

/-- without a delete policy a hook is always deleted -/
def shouldDeleteHook (aggregated : HealthStatusCode) (m : Managed) : Bool :=
  match Sync.deletePolicies m.toObj with
  | [] => true
  | policies => policies.any fun policy =>
      (policy = .hookFailed && aggregated = .degraded) || (policy = .hookSucceeded && aggregated = .healthy)

/-- the loop that deletes hooks, with the number of hooks that are still to go -/
def deleteHooks (env : CleanupEnv) (t : HookType) (aggregated : HealthStatusCode) :
    List Managed → ℕ → Script Call String ℕ
  | [], pending => pure pending
  | m :: later, pending =>
    if shouldDeleteHook aggregated m then
      if m.deletionTimestamp then deleteHooks env t aggregated later (pending + 1)
      else do
        Script.emit (.deleteHook t m (env.delete m))
        match env.delete m with
        | .failed err => Script.stop err
        | _ => deleteHooks env t aggregated later (pending + 1)
    else deleteHooks env t aggregated later pending

def cleanupHooks (env : CleanupEnv) (t : HookType) (live : List Managed) : Script Call String Bool := do
  Script.lift env.overrides
  let aggregated ← Script.lift (aggregateHealth env.health (runningHooks t live) .healthy)
  if runningHooks t live = [] then pure true
  else do
    let pending ← deleteHooks env t aggregated (runningHooks t live) 0
    pure (pending = 0)

end GitOpsDeploy.Deletion

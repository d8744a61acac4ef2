/-
The tasks of a call (`getSyncTasks` and what it calls in `gitops-engine/pkg/sync/sync_context.go`).

The stages are those of the source: tasks of the managed resources, tasks of the hooks, the target's namespace, the task
that creates the application's namespace, live objects, permissions, waves of prune tasks, sort, results of earlier calls.
-/
import GitOpsDeploy.Sync.State

namespace GitOpsDeploy.Sync

open Decimal

/-! ## Tasks of resources and hooks -/

/-- a task when it is built -/
structure Draft where
  phase : SyncPhase
  subject : Subject
  liveObj : Option LiveObj

variable (w : World)

namespace Ctx

variable (ctx : Ctx)

def containsResource (r : Reconciled) : Bool :=
  match ctx.resourcesFilter with
  | none => true
  | some filter => filter r.key r.target r.live

def resourceTasks (s : St) : List Draft :=
  let resources := (w.resourceOrder none s.log ctx.resources.values).filter fun r =>
    ctx.containsResource r && !isHook r.obj
  resources.flatMap fun r => (syncPhases r.obj).map fun phase => ⟨phase, r.subject, r.liveObj⟩

/-- the first seven characters of a longer revision -/
def syncRevision : String :=
  if 8 ≤ ctx.revision.toList.length then String.ofList (ctx.revision.toList.take 7) else ctx.revision

/-- what a hook without name gets after its generateName -/
def hookPostfix (phase : SyncPhase) : String :=
  let text := ctx.syncRevision ++ "-" ++ phase.text ++ "-" ++ formatInt ctx.startedAt
  String.ofList (text.toList.map Char.toLower)

def hookTarget (obj : Obj) (phase : SyncPhase) : Obj :=
  { obj with
    name := if obj.name = "" then obj.generateName ++ ctx.hookPostfix phase else obj.name
    finalizers := if hookFinalizer ∈ obj.finalizers then obj.finalizers else obj.finalizers ++ [hookFinalizer] }

def hookTasks : List Draft :=
  if ctx.skipHooks then []
  else ctx.hooks.flatMap fun obj => (syncPhases obj).map fun phase => ⟨phase, .create (ctx.hookTarget obj phase), none⟩

/-- "we set namespace in the object. We do this even though it might be a cluster-scoped resource" -/
def inNamespace (target : Obj) : Obj := { target with ns := if target.ns = "" then ctx.ns else target.ns }

def withNamespace (d : Draft) : Draft :=
  match d.subject with
  | .create target => { d with subject := .create (ctx.inNamespace target) }
  | .prune _ => d

def drafts (s : St) : List Draft := (ctx.resourceTasks w s ++ ctx.hookTasks).map ctx.withNamespace

end Ctx

/-- the tasks built so far, and the state with their fields -/
abbrev Building := List SyncTask × St

variable (b : Building)

def newTask (d : Draft) : SyncTask := ⟨b.1.length, d.phase, d.subject, false, none⟩

def addTask (d : Draft) : Building :=
  (b.1 ++ [newTask b d], b.2.setLiveObj (newTask b d) d.liveObj)

/-! ## The application's namespace -/

def managedNs (name : String) : Obj := { (default : Obj) with version := "v1", kind := "Namespace", name := name }

/-- only targets are looked at: the hooks are copied into a nil slice, which takes none -/
def Ctx.isNamespaceCreationNeeded (ctx : Ctx) : Bool :=
  ctx.resources.values.all fun r =>
    match r.target with
    | none => true
    | some target => !isNamespaceWithName target ctx.ns

def appendFailedNsTask (ns : Obj) (err : String) : Building :=
  let d : Draft := ⟨.preSync, .create ns, none⟩
  let b' := addTask b d
  (b'.1, setResourceResult b'.2 (newTask b d) (some .syncFailed) (some .error) err)

/-- `syncNamespace` may change the annotations of the namespace it is given -/
def appendNsTask (ns : Obj) (liveNs : Option LiveObj) : Building :=
  let answer := w.syncNamespace b.2.log ns (liveNs.map LiveObj.obj)
  let s := b.2.emit (.syncNamespace ns (liveNs.map LiveObj.obj) answer)
  let ns' : Obj := { ns with annotations := answer.2 }
  match answer.1 with
  | .error err => appendFailedNsTask (b.1, s) ns' ("namespaceModifier error: " ++ err)
  | .ok true => addTask (b.1, s) ⟨.preSync, .create ns', liveNs⟩
  | .ok false => (b.1, s)

def autoCreateNamespace (ctx : Ctx) (w : World) (b : Building) : Building :=
  if ctx.isNamespaceCreationNeeded then
    let answer := w.getNamespace b.2.log ctx.ns
    let s := b.2.emit (.getNamespace ctx.ns answer)
    match answer with
    | .ok live => appendNsTask w (b.1, s) (managedNs ctx.ns) (some ⟨live, .read b.2.log.length⟩)
    | .error err =>
      if err.reason = .notFound then appendNsTask w (b.1, s) (managedNs ctx.ns) none
      else appendFailedNsTask (b.1, s) (managedNs ctx.ns) ("namespace auto creation failed: " ++ err.message)
  else b

/-! ## Live objects -/

/-- "cluster scoped objects will not have a namespace, even if the user has defined it" -/
def matchesKey (k : ResourceKey) (o : Obj) : Bool :=
  k.group = o.group && k.kind = o.kind && (k.ns = "" || k.ns = o.ns) && k.name = o.name

/-- `sc.liveObj` -/
def Ctx.liveObj (ctx : Ctx) (w : World) (log : List Event) (target : Obj) : Option LiveObj :=
  ((w.resourceOrder (some target) log ctx.resources.values).find? fun r => matchesKey r.key target).bind
    Reconciled.liveObj

def enrichLiveObj (ctx : Ctx) (w : World) (s : St) (t : SyncTask) : St :=
  match t.targetObj, s.liveObj t with
  | some target, none => s.setLiveObj t (ctx.liveObj w s.log target)
  | _, _ => s

/-! ## Permissions -/

/-- `kubeutil.ServerResourceForGroupVersionKind` -/
def discover (s : St) (gvk : GroupVersionKind) (verb : String) : Option ApiError × St :=
  let err := w.discover s.log gvk verb
  (err, s.emit (.discover gvk verb err))

/-- `retry.OnError` and `retry.RetryOnConflict`: errors of this reason are tried again, with so many retries left -/
def retryOn (reason : ErrorReason) (fn : St → Option ApiError × St) : ℕ → St → Option ApiError × St
  | 0, s => fn s
  | n + 1, s =>
    if (fn s).1.map ApiError.reason = some reason then retryOn reason fn n (fn s).2 else fn s

/-- how often `retry.DefaultRetry` tries again -/
def defaultRetries : ℕ := 4

def isCRDOfGroupKind (group kind : String) (o : Obj) : Bool :=
  isCRD o && o.crdGroup = some group && o.crdKind = some kind

def Ctx.hasCRDOfGroupKind (ctx : Ctx) (group kind : String) : Bool :=
  (ctx.hooks ++ ctx.resources.values.filterMap Reconciled.target).any (isCRDOfGroupKind group kind)

def Ctx.shouldSkipDryRunOnMissingResource (ctx : Ctx) (t : SyncTask) : Bool :=
  ctx.skipDryRunOnMissingResource ||
    (t.targetObj.any fun target => hasSyncOption target "SkipDryRunOnMissingResource=true") ||
    ctx.hasCRDOfGroupKind t.obj.group t.obj.kind

/-- the variables of the loop that checks permissions -/
structure Checking where
  /-- `serverResCache` and `serverResErrCache`: what discovery answered -/
  cache : List (GroupVersionKind × Option ApiError)
  tasks : List SyncTask
  successful : Bool
  s : St

/-- the answer for the task's kind, asked for once -/
def serverRes (c : Checking) (gvk : GroupVersionKind) : Option ApiError × Checking :=
  match c.cache.lookup gvk with
  | some err => (err, c)
  | none =>
    let r := retryOn .unauthorized (fun s => discover w s gvk "get") defaultRetries c.s
    (r.1, { c with cache := (gvk, r.1) :: c.cache, s := r.2 })

def checkPermission (ctx : Ctx) (w : World) (c : Checking) (t : SyncTask) : Checking :=
  let r := serverRes w c t.obj.gvk
  let c := r.2
  match r.1 with
  | some err =>
    if err.reason = .notFound && ctx.shouldSkipDryRunOnMissingResource t then
      { c with tasks := c.tasks ++ [{ t with skipDryRun := true }] }
    else
      { c with
        tasks := c.tasks ++ [t]
        successful := false
        s := setResourceResult c.s t (some .syncFailed) none err.message }
  | none =>
    let answer := w.permissionValidator c.s.log t.obj
    let s := c.s.emit (.validatePermission t.obj answer)
    match answer with
    | some err =>
      { c with tasks := c.tasks ++ [t], successful := false, s := setResourceResult s t (some .syncFailed) none err }
    | none => { c with tasks := c.tasks ++ [t], s := s }

/-! ## Waves of prune tasks -/

def uniquePruneWaves (tasks : List SyncTask) : List ℤ :=
  ((tasks.filter SyncTask.isPrune).map SyncTask.wave).dedup.insertionSort (· ≤ ·)

/-- symmetric swap; the wave in the middle stays -/
def swapPruneWave (waves : List ℤ) (t : SyncTask) : SyncTask :=
  let n := waves.length
  let i := waves.idxOf t.wave
  if t.isPrune && (i < n / 2 || n - 1 - i < n / 2) then { t with waveOverride := waves[n - 1 - i]? } else t

def syncPhaseLastWave (tasks : List SyncTask) : ℤ :=
  (tasks.filter fun t => t.phase = .sync).foldl (fun last t => if last < t.wave then t.wave else last) 0

def Ctx.pruneLastWave (ctx : Ctx) (last : ℤ) (t : SyncTask) : SyncTask :=
  if t.isPrune && (ctx.pruneLast || hasSyncOption t.obj "PruneLast=true") then { t with waveOverride := some last } else t

def Ctx.adjustPruneWaves (ctx : Ctx) (tasks : List SyncTask) : List SyncTask :=
  let tasks := tasks.map (swapPruneWave (uniquePruneWaves tasks))
  tasks.map (ctx.pruneLastWave (wrap64 (syncPhaseLastWave tasks + 1)))

/-! ## All tasks -/

/-- the result recorded by an earlier call -/
def enrichResult (s : St) (t : SyncTask) : St :=
  match s.syncRes.get? t.resultKey with
  | none => s
  | some r =>
    s.setTask t { s.task t with syncStatus := r.status, operationState := r.hookPhase, message := r.message }

/-- the tasks of the resources, the hooks and the application's namespace -/
def buildTasks (ctx : Ctx) (w : World) (s : St) : Building :=
  let b := (ctx.drafts w s).foldl addTask ([], s)
  if ctx.hasSyncNamespace && ctx.ns ≠ "" then autoCreateNamespace ctx w b else b

def enrichLiveObjs (ctx : Ctx) (w : World) (b : Building) : St := b.1.foldl (enrichLiveObj ctx w) b.2

def checkPermissions (ctx : Ctx) (w : World) (tasks : List SyncTask) (s : St) : Checking :=
  tasks.foldl (checkPermission ctx w) ⟨[], [], true, s⟩

/-- the tasks before they are sorted -/
def planTasks (ctx : Ctx) (w : World) (s : St) : Checking :=
  let b := buildTasks ctx w s
  let c := checkPermissions ctx w b.1 (enrichLiveObjs ctx w b)
  { c with tasks := ctx.adjustPruneWaves c.tasks }

structure Planned where
  tasks : List SyncTask
  successful : Bool
  s : St

def getSyncTasks (ctx : Ctx) (w : World) (s : St) : Planned :=
  let c := planTasks ctx w s
  let tasks := sortTasks (w.taskOrder .sort c.s.log c.tasks)
  ⟨tasks, c.successful, tasks.foldl enrichResult c.s⟩

end GitOpsDeploy.Sync

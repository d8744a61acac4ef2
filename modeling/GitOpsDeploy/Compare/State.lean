/-
`CompareAppState`: target manifests against live objects.

The comparison is best effort. A step that fails leaves a condition, goes on with an empty or partial list and is to set
`failedToLoadObjs`, from which the sync status is computed at the end. `Notes` holds the conditions and the flag; each
stage takes and returns them. Loading manifests, the live cache, diffing and health are inputs.
-/
import GitOpsDeploy.Compare.Normalize
import GitOpsDeploy.OperationQueue.Pass

namespace GitOpsDeploy.Compare

open Sync (Obj)
open Decimal
open OperationQueue (Time Duration Source)

/-! ## Applications and inputs -/

structure NamespaceMetadata where
  labels : List (String × String)
  annotations : List (String × String)
  deriving DecidableEq, Repr

structure App where
  instanceName : String
  qualifiedName : String
  project : String
  destinationNamespace : String
  /-- of the sync policy -/
  managedNamespaceMetadata : Option NamespaceMetadata
  syncOptions : List String
  /-- of the last sync result, if there is one -/
  syncedNamespaceMetadata : Option (Option NamespaceMetadata)

def App.hasChangedManagedNamespaceMetadata (app : App) : Bool :=
  match app.managedNamespaceMetadata, app.syncedNamespaceMetadata with
  | some metadata, some synced => synced ≠ some metadata
  | _, _ => false

inductive SyncStatusCode where
  | unknown
  | synced
  | outOfSync
  deriving DecidableEq, Repr

structure ManifestInfo where
  revision : String
  /-- `SourceIntegrityResult`, and its problems as an error -/
  hasIntegrityResult : Bool
  integrityError : Option String
  verifyResult : String

structure RepoObjs where
  targetObjs : List (Option Obj)
  manifestInfos : List ManifestInfo
  revisionsMayHaveChanges : Bool

/-- targets and live objects side by side -/
structure Reconciliation where
  pairs : List (Option Obj × Option Obj)
  hooks : List Obj

structure Health where
  status : Sync.HealthStatusCode
  message : String
  error : Option String

structure Request where
  revisions : List String
  sources : List Source
  noRevisionCache : Bool
  localManifests : List String
  hasMultipleSources : Bool

structure Env where
  settings : Except String Unit
  destCluster : Except String Unit
  now : Time
  repoErrorGracePeriod : Duration
  /-- when a repository error was first seen for the application -/
  firstSeen : Option Time
  getRepoObjs : List String → Except String RepoObjs
  /-- whether source integrity is enforced for the sources -/
  hasCriteria : Bool
  unmarshal : String → Except String Obj
  target : TargetEnv
  isExcludedResource : String → String → Bool
  getManagedLiveObjs : List Obj → Except String (List (ResourceKey × Obj))
  isLiveResourcePermitted : Obj → Except String Bool
  getAppName : Obj → String
  /-- a namespace with the name -/
  newNamespace : String → Except String Obj
  syncNamespace : Obj → Obj → Except String Obj
  reconcile : List Obj → List (ResourceKey × Obj) → Reconciliation
  gvkParser : Except String Unit
  serverSideDiff : Bool
  dryRunApplier : Except String Unit
  /-- whether each pair differs -/
  stateDiffs : Reconciliation → Except String (List Bool)
  isSelfReferencedObj : Option Obj → Option Obj → Bool
  isNamespaced : Obj → Bool × Option String
  isGroupKindNamePermitted : Obj → Bool → Bool
  health : Reconciliation → Health
  /-- the check of old signatures, where the project asks for it -/
  verifySignature : ManifestInfo → Option Condition

/-! ## Notes -/

structure Notes where
  conditions : List Condition
  failedToLoadObjs : Bool

def Notes.add (n : Notes) (conditions : List Condition) : Notes := { n with conditions := n.conditions ++ conditions }

/-- a condition with the flag set -/
def Notes.fail (n : Notes) (message : String) : Notes := ⟨n.conditions ++ [⟨.comparisonError, message⟩], true⟩

/-! ## Loading -/

inductive Loaded where
  /-- `ErrCompareStateRepo`: the error is ignored for a while -/
  | shortCircuit
  | failed (message : String)
  | ok (objs : RepoObjs)

def unmarshalManifests (unmarshal : String → Except String Obj) : List String → Except String (List (Option Obj))
  | [] => .ok []
  | manifest :: later =>
    match unmarshal manifest with
    | .error err => .error err
    | .ok obj => (unmarshalManifests unmarshal later).map (some obj :: ·)

/-- the revisions to load; those of the sources if the numbers differ -/
def loadRevisions (req : Request) : List String :=
  if req.revisions.length ≠ req.sources.length then req.sources.map Source.targetRevision else req.revisions

variable (env : Env)

/-- a repository error is ignored when it is new, or not older than the grace period -/
def ignoresRepoError (req : Request) : Bool :=
  !req.noRevisionCache &&
    match env.firstSeen with
    | some t => env.now - t ≤ env.repoErrorGracePeriod
    | none => true

def loadTargets (req : Request) : Loaded :=
  if req.localManifests = [] then
    match env.getRepoObjs (loadRevisions req) with
    | .ok objs => .ok objs
    | .error err => if ignoresRepoError env req then .shortCircuit else .failed ("Failed to load target state: " ++ err)
  else if env.hasCriteria then .failed "Cannot use local manifests when source integrity is enforced"
  else
    match unmarshalManifests env.unmarshal req.localManifests with
    | .ok objs => .ok ⟨objs, [], false⟩
    | .error err => .failed ("Failed to load local manifests: " ++ err)

/-- the repository error remembered after the call -/
def firstSeenAfter (req : Request) : Option Time :=
  if env.settings = .ok () ∧ env.destCluster = .ok () ∧ req.localManifests = [] then
    match env.getRepoObjs (loadRevisions req) with
    | .ok _ => none
    | .error _ => if env.firstSeen.isNone && !req.noRevisionCache then some env.now else env.firstSeen
  else env.firstSeen

/-- a failed load leaves nothing to compare -/
def loadStage : Loaded → RepoObjs × Notes
  | .ok objs => (objs, ⟨[], false⟩)
  | .failed message => (⟨[], [], false⟩, Notes.fail ⟨[], false⟩ message)
  | .shortCircuit => (⟨[], [], false⟩, ⟨[], false⟩)

variable (app : App)

/-- a failure is noted, but the flag is not set -/
def normalizeStage (objs : List (Option Obj)) (n : Notes) : List Obj × Notes :=
  match normalizeTargetObjects env.target app.destinationNamespace objs with
  | .error err => ([], n.add [⟨.comparisonError, "Failed to normalize target state: " ++ err⟩])
  | .ok (objs, conditions) => (objs, n.add conditions)

variable (obj : Obj)

def isExcluded : Bool := env.isExcludedResource obj.group obj.kind

/-- the loop goes backwards -/
def excludeStage (objs : List Obj) (n : Notes) : List Obj × Notes :=
  (objs.filter fun obj => !isExcluded env obj,
    n.add ((objs.reverse.filter (isExcluded env)).map fun obj => ⟨.excludedResourceWarning,
      "Resource " ++ obj.group ++ "/" ++ obj.kind ++ " " ++ obj.name ++ " is excluded in the settings"⟩))

/-! ## Live objects -/

abbrev LiveObjs := List (ResourceKey × Obj)

def isManagedNamespace : Bool :=
  obj.kind = "Namespace" && obj.name = app.destinationNamespace && app.managedNamespaceMetadata.isSome

def liveStage (targetObjs : List Obj) (n : Notes) : LiveObjs × Notes :=
  match env.getManagedLiveObjs targetObjs with
  | .error err => ([], n.fail ("Failed to load live state: " ++ err))
  | .ok liveObjs => (liveObjs, n)

/-- an object stays when its permission cannot be checked -/
def permittedStage (env : Env) (app : App) : LiveObjs → Notes → LiveObjs × Notes
  | [], n => ([], n)
  | (k, obj) :: later, n =>
    match env.isLiveResourcePermitted obj with
    | .error err =>
      let r := permittedStage env app later (n.fail ("Failed to check if live resource \"" ++ k.text ++
        "\" is permitted in project \"" ++ app.project ++ "\": " ++ err))
      ((k, obj) :: r.1, r.2)
    | .ok permitted =>
      let r := permittedStage env app later n
      (if permitted then (k, obj) :: r.1 else r.1, r.2)

/-- `strings.ReplaceAll(s, "_", "/")` -/
def underscoresToSlashes (s : String) : String := String.ofList (s.toList.map fun c => if c = '_' then '/' else c)

def sharedCondition : List Condition :=
  let appInstanceName := env.getAppName obj
  if appInstanceName ≠ "" ∧ appInstanceName ≠ app.instanceName then
    [⟨.sharedResourceWarning, obj.kind ++ "/" ++ obj.name ++ " is part of applications " ++ app.qualifiedName ++ " and " ++
      underscoresToSlashes appInstanceName⟩]
  else []

/-- the namespace to compare a live namespace with that has no manifest -/
def managedNamespace (liveObj : Obj) : Except String Obj :=
  match env.newNamespace liveObj.name with
  | .error err => .error err
  | .ok managedNs => env.syncNamespace managedNs liveObj

/-- the loop over the live objects that adds managed namespaces to the targets -/
def namespaceStage (env : Env) (app : App) (targetNsExists : Bool) : LiveObjs → List Obj → Notes → List Obj × Notes
  | [], targetObjs, n => (targetObjs, n)
  | (_, obj) :: later, targetObjs, n =>
    let n := n.add (sharedCondition env app obj)
    if isManagedNamespace app obj && !targetNsExists then
      match managedNamespace env obj with
      | .error err => namespaceStage env app targetNsExists later targetObjs (n.fail err)
      | .ok managedNs => namespaceStage env app targetNsExists later (targetObjs ++ [managedNs]) n
    else namespaceStage env app targetNsExists later targetObjs n

/-! ## Diffing -/

def noteUnknown (r : Except String Unit) : List Condition :=
  match r with
  | .ok () => []
  | .error err => [⟨.unknownError, err⟩]

def diffStage (reconciliation : Reconciliation) (n : Notes) : List Bool × Notes :=
  let n := n.add (noteUnknown env.gvkParser)
  let n := if env.serverSideDiff then n.add (noteUnknown env.dryRunApplier) else n
  match env.stateDiffs reconciliation with
  | .error err => ([], n.fail ("Failed to compare desired state to live state: " ++ err))
  | .ok diffs => (diffs, n)

structure ResourceStatus where
  key : ResourceKey
  version : String
  hook : Bool
  requiresPruning : Bool
  requiresDeletionConfirmation : Bool
  syncWave : ℤ
  status : Option SyncStatusCode
  deriving DecidableEq, Repr, Inhabited

def isHook : Bool :=
  Sync.isHook obj || Deletion.isHookOfType obj .preDelete || Deletion.isHookOfType obj .postDelete

/-- `ignore.Ignore` -/
def isIgnored : Bool := Sync.isHook obj && (Sync.hookTypes obj).isEmpty

def isObjRequiresDeletionConfirmation (obj : Option Obj) : Bool :=
  match obj with
  | none => false
  | some obj =>
    let deleteOption := (Sync.getAnnotationOptionValue obj Sync.annotationSyncOptions "Delete").or
      (app.syncOptions.findSome? (Sync.cutStart "Delete="))
    deleteOption = some "confirm"

def annotationCompareOptions : String := "cd.hanzo.ai/compare-options"

/-- the wave of a live hook is that of the hook with its kind, namespace and name -/
def resourceWave (reconciliation : Reconciliation) (hook : Bool) (target live : Option Obj) : ℤ :=
  match target, live with
  | some target, _ => Sync.objWave target
  | none, some live =>
    if hook then
      match reconciliation.hooks.find? fun h => h.name = live.name && h.kind = live.kind && h.ns = live.ns with
      | some h => Sync.objWave h
      | none => 0
    else 0
  | none, none => 0

/-- the status of one resource, and whether it makes the application OutOfSync -/
def resourceCode (target live : Option Obj) (modified : Bool) : Option SyncStatusCode × Bool :=
  let isManagedNs := target.any (isManagedNamespace app) && live.isNone
  if isHook obj || isIgnored obj || target.any Sync.skipHook || !env.isSelfReferencedObj live target then (none, false)
  else if !isManagedNs && (modified || target.isNone || live.isNone) then
    let needsPruning := target.isNone && live.isSome
    (some .outOfSync, !needsPruning || !Sync.hasAnnotationOption obj annotationCompareOptions "IgnoreExtraneous")
  else (some .synced, false)

/-- one turn of the loop over the resources -/
def compareResource (failed : Bool) (reconciliation : Reconciliation)
    (target live : Option Obj) (modified : Bool) : ResourceStatus × Bool × List Condition :=
  match live.or target with
  | none => (default, false, [])
  | some obj =>
    let code := resourceCode env app obj target live modified
    let namespaced := env.isNamespaced obj
    let permitted := env.isGroupKindNamePermitted obj (namespaced.1 && namespaced.2.isNone)
    let conditions := if namespaced.1 && obj.ns = "" then
        [⟨.invalidSpecError, "Namespace for " ++ obj.name ++ " " ++ obj.group ++ "/" ++ obj.version ++ ", Kind=" ++
          obj.kind ++ " is missing."⟩]
      else []
    ({ key := obj.key
       version := obj.version
       hook := isHook obj
       requiresPruning := target.isNone && live.isSome && env.isSelfReferencedObj live target
       requiresDeletionConfirmation :=
        isObjRequiresDeletionConfirmation app target || isObjRequiresDeletionConfirmation app live
       syncWave := resourceWave reconciliation (isHook obj) target live
       status := if failed || !permitted then some .unknown else code.1 }, code.2, conditions)

/-- the loop over the resources; a missing diff counts as unmodified -/
def compareResources (env : Env) (app : App) (failed : Bool) (reconciliation : Reconciliation) :
    List (Option Obj × Option Obj) → List Bool → List (ResourceStatus × Bool × List Condition)
  | [], _ => []
  | (target, live) :: later, diffs =>
    compareResource env app failed reconciliation target live (diffs.headD false) ::
      compareResources env app failed reconciliation later diffs.tail

/-! ## The comparison -/

/-- the lists the stages leave, and the notes at the end -/
structure Stages where
  repoObjs : RepoObjs
  /-- normalized, and without the excluded ones -/
  normalized : List Obj
  targets : List Obj
  live : LiveObjs
  permitted : LiveObjs
  partition : Partition
  reconciliation : Reconciliation
  diffs : List Bool
  notes : Notes

variable (req : Request)

def runStages : Stages :=
  let loaded := loadStage (loadTargets env req)
  let normalized := normalizeStage env app loaded.1.targetObjs loaded.2
  let targets := excludeStage env normalized.1 normalized.2
  let targetNsExists := normalized.1.any (isManagedNamespace app)
  let live := liveStage env targets.1 targets.2
  let permitted := permittedStage env app live.1 live.2
  let all := namespaceStage env app targetNsExists permitted.1 targets.1 permitted.2
  let partition := partitionTargetObjsForSync all.1
  let reconciliation := env.reconcile partition.syncObjs permitted.1
  let diffs := diffStage env reconciliation all.2
  ⟨loaded.1, normalized.1, targets.1, live.1, permitted.1, partition, reconciliation, diffs.1, diffs.2⟩

structure ComparisonResult where
  status : SyncStatusCode
  revision : String
  revisions : List String
  health : Health
  resources : List ResourceStatus
  reconciliation : Reconciliation
  hasPreDeleteHooks : Bool
  hasPostDeleteHooks : Bool
  revisionsMayHaveChanges : Bool
  /-- the conditions set on the application, unless the settings cannot be read -/
  conditions : Option (List Condition)

inductive Outcome where
  | result (r : ComparisonResult)
  | err (text : String)
  /-- `ErrCompareStateRepo` -/
  | repoErr

/-- the revision or revisions to start with -/
def initialRevisions : String × List String :=
  if req.hasMultipleSources then ("", req.revisions) else (req.revisions.headD "", [])

/-- those of the manifests, where there are any -/
def finalRevisions (infos : List ManifestInfo) : String × List String :=
  let initial := initialRevisions req
  let manifestRevisions := infos.map ManifestInfo.revision
  if req.hasMultipleSources then (initial.1, manifestRevisions) else (manifestRevisions.headD initial.1, initial.2)

def syncCode (failed : Bool) (resources : List (ResourceStatus × Bool × List Condition)) : SyncStatusCode :=
  if failed then .unknown
  else if app.hasChangedManagedNamespaceMetadata then .outOfSync
  else if resources.any fun r => r.2.1 then .outOfSync
  else .synced

def integrityConditions (info : ManifestInfo) : List Condition :=
  let problems := match info.integrityError with
    | some err => [⟨.comparisonError, err⟩]
    | none => []
  let legacy := if !info.hasIntegrityResult && info.verifyResult ≠ "" then (env.verifySignature info).toList else []
  problems ++ legacy

def healthConditions (health : Health) : List Condition :=
  match health.error with
  | some err => [⟨.comparisonError, "error setting app health: " ++ err⟩]
  | none => []

def finishComparison (s : Stages) : ComparisonResult :=
  let resources := compareResources env app s.notes.failedToLoadObjs s.reconciliation s.reconciliation.pairs s.diffs
  let revisions := finalRevisions req s.repoObjs.manifestInfos
  let health := env.health s.reconciliation
  { status := syncCode app s.notes.failedToLoadObjs resources
    revision := revisions.1
    revisions := revisions.2
    health := health
    resources := resources.map Prod.fst
    reconciliation := s.reconciliation
    hasPreDeleteHooks := s.partition.hasPreDeleteHooks
    hasPostDeleteHooks := s.partition.hasPostDeleteHooks
    revisionsMayHaveChanges := s.repoObjs.revisionsMayHaveChanges
    conditions := some (s.notes.conditions ++ resources.flatMap (fun r => r.2.2) ++ healthConditions health ++
      s.repoObjs.manifestInfos.flatMap (integrityConditions env)) }

/-- nothing is known without the settings -/
def unknownResult : ComparisonResult where
  status := .unknown
  revision := (initialRevisions req).1
  revisions := (initialRevisions req).2
  health := ⟨.unknown, "", none⟩
  resources := []
  reconciliation := ⟨[], []⟩
  hasPreDeleteHooks := false
  hasPostDeleteHooks := false
  revisionsMayHaveChanges := false
  conditions := none

def compareAppState : Outcome :=
  match env.settings with
  | .error _ => .result (unknownResult req)
  | .ok () =>
    match env.destCluster with
    | .error err => .err err
    | .ok () =>
      match loadTargets env req with
      | .shortCircuit => .repoErr
      | _ => .result (finishComparison env app req (runStages env app req))

end GitOpsDeploy.Compare

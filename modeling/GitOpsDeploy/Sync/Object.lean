/-
Kubernetes objects as the sync engine reads them (`gitops-engine/pkg/sync/hook`, `hook/helm`, `syncwaves`, `resource`,
`common` and `sync_phase.go`): annotations, hook types and deletion policies, waves and phases.

Annotations are texts with comma separated values; the functions here are those the engine decides with.
-/
import GitOpsDeploy.Kube
import GitOpsDeploy.Core.Decimal

namespace GitOpsDeploy.Sync

/-- the parts of an unstructured object that the engine reads -/
structure Obj where
  group : String
  version : String
  kind : String
  ns : String
  name : String
  generateName : String
  annotations : List (String × String)
  finalizers : List String
  /-- whether a deletion timestamp is set -/
  deletionTimestamp : Bool
  resourceVersion : String
  /-- manager and operation of each entry -/
  managedFields : List (String × String)
  /-- `spec.group`, when it is a text -/
  crdGroup : Option String
  /-- `spec.names.kind`, when it is a text -/
  crdKind : Option String
  images : List String
  deriving DecidableEq, Repr, Inhabited

variable (o : Obj)

def Obj.annotationValue (key : String) : Option String := o.annotations.lookup key

def Obj.key : ResourceKey := ⟨o.group, o.kind, o.ns, o.name⟩

def Obj.gvk : GroupVersionKind := ⟨o.group, o.version, o.kind⟩

def isCRD : Bool := decide (o.kind = "CustomResourceDefinition" ∧ o.group = "apiextensions.k8s.io")

def isNamespaceKind : Bool := decide (o.group = "" ∧ o.kind = "Namespace")

def isNamespaceWithName (ns : String) : Bool := isNamespaceKind o && decide (o.name = ns)

/-! ## Annotations -/

/-- `strings.Split(s, ",")` -/
def splitComma : List Char → List (List Char)
  | [] => [[]]
  | c :: cs =>
    match splitComma cs with
    | [] => [[c]]
    | part :: parts => if c = ',' then [] :: part :: parts else (c :: part) :: parts

def getAnnotationCSVs (key : String) : List String :=
  let items := (splitComma ((o.annotationValue key).getD "").toList).map fun item => String.ofList (Decimal.trimSpace item)
  (items.filter (· ≠ "")).eraseDups

def hasAnnotationOption (key val : String) : Bool := (getAnnotationCSVs o key).contains val

/-- the text after the given start -/
def cutStart (start text : String) : Option String :=
  if start.toList.isPrefixOf text.toList then some (String.ofList (text.toList.drop start.toList.length)) else none

def getAnnotationOptionValue (key optionKey : String) : Option String :=
  (getAnnotationCSVs o key).findSome? (cutStart (optionKey ++ "="))

def annotationSyncOptions : String := "cd.hanzo.ai/sync-options"
def annotationSyncWave : String := "cd.hanzo.ai/sync-wave"
def annotationKeyHook : String := "cd.hanzo.ai/hook"
def annotationKeyHookDeletePolicy : String := "cd.hanzo.ai/hook-delete-policy"

def hasSyncOption (val : String) : Bool := hasAnnotationOption o annotationSyncOptions val

/-- the value of the option Prune of the object, or the default one -/
def pruneOptionValue (o : Option Obj) (defaultPruneOption : Option String) : Option String :=
  (o.bind fun o => getAnnotationOptionValue o annotationSyncOptions "Prune").or defaultPruneOption

def objRequiresPruneConfirmation (o : Option Obj) (defaultPruneOption : Option String) : Bool :=
  pruneOptionValue o defaultPruneOption = some "confirm"

def isPruningDisabled (o : Option Obj) (defaultPruneOption : Option String) : Bool :=
  pruneOptionValue o defaultPruneOption = some "false"

/-! ## Hooks -/

def hookFinalizer : String := "cd.hanzo.ai/hook-finalizer"

inductive HookType where
  | preSync
  | sync
  | postSync
  | skip
  | syncFail
  deriving DecidableEq, Repr

def newHookType (text : String) : Option HookType :=
  if text = "PreSync" then some .preSync
  else if text = "Sync" then some .sync
  else if text = "PostSync" then some .postSync
  else if text = "SyncFail" then some .syncFail
  else if text = "Skip" then some .skip
  else none

/-- `helm.Type.HookType()` of the helm hooks that are known -/
def helmHookType (text : String) : Option HookType :=
  if text = "pre-install" ∨ text = "pre-upgrade" then some .preSync
  else if text = "post-upgrade" ∨ text = "post-install" then some .postSync
  else none

/-- helm hooks are ignored when there is a hook annotation with known types -/
def hookTypes : List HookType :=
  let types := (getAnnotationCSVs o annotationKeyHook).filterMap newHookType
  if types = [] then (getAnnotationCSVs o "helm.sh/hook").filterMap helmHookType else types

/-- `hook.Skip` -/
def skipHook : Bool := (hookTypes o).contains .skip && (hookTypes o).length == 1

/-- helm uses the same annotation to mark CRDs -/
def helmIsHook : Bool := decide (∃ value ∈ o.annotationValue "helm.sh/hook", value ≠ "crd-install")

def isHook : Bool := if (o.annotationValue annotationKeyHook).isSome then !skipHook o else helmIsHook o

inductive HookDeletePolicy where
  | hookSucceeded
  | hookFailed
  | beforeHookCreation
  deriving DecidableEq, Repr

def newHookDeletePolicy (text : String) : Option HookDeletePolicy :=
  if text = "HookSucceeded" then some .hookSucceeded
  else if text = "HookFailed" then some .hookFailed
  else if text = "BeforeHookCreation" then some .beforeHookCreation
  else none

def helmDeletePolicy (text : String) : Option HookDeletePolicy :=
  if text = "before-hook-creation" then some .beforeHookCreation
  else if text = "hook-succeeded" then some .hookSucceeded
  else if text = "hook-failed" then some .hookFailed
  else none

def deletePolicies : List HookDeletePolicy :=
  let policies := (getAnnotationCSVs o annotationKeyHookDeletePolicy).filterMap newHookDeletePolicy ++
    (getAnnotationCSVs o "helm.sh/hook-delete-policy").filterMap helmDeletePolicy
  if policies = [] then [.beforeHookCreation] else policies

/-! ## Phases and waves -/

inductive SyncPhase where
  | preSync
  | sync
  | postSync
  | syncFail
  deriving DecidableEq, Repr, Inhabited

def SyncPhase.text : SyncPhase → String
  | .preSync => "PreSync"
  | .sync => "Sync"
  | .postSync => "PostSync"
  | .syncFail => "SyncFail"

/-- `syncPhaseOrder` -/
def SyncPhase.order : SyncPhase → ℤ
  | .preSync => -1
  | .sync => 0
  | .postSync => 1
  | .syncFail => 2

def HookType.phase? : HookType → Option SyncPhase
  | .preSync => some .preSync
  | .sync => some .sync
  | .postSync => some .postSync
  | .syncFail => some .syncFail
  | .skip => none

/-- the phases of an object; the code collects those of a hook in a map, so in no particular order -/
def syncPhases : List SyncPhase :=
  if skipHook o then []
  else if isHook o then ((hookTypes o).filterMap HookType.phase?).eraseDups
  else [.sync]

/-- `helm.Weight` -/
def helmWeight : ℤ := ((o.annotationValue "helm.sh/hook-weight").bind Decimal.atoi).getD 0

/-- `syncwaves.Wave` -/
def objWave : ℤ := ((o.annotationValue annotationSyncWave).bind Decimal.atoi).getD (helmWeight o)

theorem SyncPhase.order_injective : Function.Injective SyncPhase.order := by
  intro p q h
  cases p <;> cases q <;> first | rfl | cases h

end GitOpsDeploy.Sync

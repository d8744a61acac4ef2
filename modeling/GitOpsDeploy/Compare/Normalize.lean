/-
The target objects of an application before they are compared: `NormalizeTargetObjects` and
`partitionTargetObjsForSync`.

Namespaces are set or cleared, repeated objects are dropped but for the last one, and delete hooks are set apart.
-/
import GitOpsDeploy.Deletion.Objects

namespace GitOpsDeploy.Compare

open Sync (Obj)
open Decimal

/-! ## Conditions -/

inductive ConditionType where
  | comparisonError
  | invalidSpecError
  | unknownError
  | repeatedResourceWarning
  | excludedResourceWarning
  | sharedResourceWarning
  deriving DecidableEq, Repr

structure Condition where
  type : ConditionType
  message : String
  deriving DecidableEq, Repr

/-! ## Normalization -/

abbrev Groups := List (ResourceKey × List Obj)

/-- what the function gets from the cluster cache and the tracking method; maps are ranged over in any order -/
structure TargetEnv where
  /-- by group and kind -/
  isNamespacedOrUnknown : String → String → Bool
  setAppInstance : Obj → Except String Obj
  order : Groups → Groups
  order_perm : ∀ groups, (order groups).Perm groups

/-- the object with the namespace it belongs to, if that is another one -/
def moved (env : TargetEnv) (ns : String) (obj : Obj) : Option Obj :=
  let isNamespaced := env.isNamespacedOrUnknown obj.group obj.kind
  if !isNamespaced && obj.ns ≠ "" then some { obj with ns := "" }
  else if isNamespaced && obj.ns = "" then some { obj with ns := ns }
  else none

/-- set the namespace, and the tracking metadata again where it has changed -/
def setNamespace (env : TargetEnv) (ns : String) (obj : Obj) : Except String Obj :=
  match moved env ns obj with
  | none => .ok obj
  | some obj =>
    (env.setAppInstance obj).mapError fun err =>
      "failed to set app instance label on resource " ++ obj.kind ++ "/" ++ obj.name ++ ": " ++ err

/-- objects with a generated name are told apart by their position -/
def targetKey (i : ℕ) (obj : Obj) : ResourceKey :=
  if obj.name = "" ∧ obj.generateName ≠ "" then { obj.key with name := obj.generateName ++ itoa i } else obj.key

/-- `targetByKey[key] = append(targetByKey[key], obj)` -/
def addTarget (key : ResourceKey) (obj : Obj) : Groups → Groups
  | [] => [(key, [obj])]
  | (k, objs) :: later => if k = key then (k, objs ++ [obj]) :: later else (k, objs) :: addTarget key obj later

/-- the loop over the objects, from the given index on -/
def normalizeLoop (env : TargetEnv) (ns : String) : ℕ → List (Option Obj) → Groups → Except String Groups
  | _, [], targetByKey => .ok targetByKey
  | i, none :: later, targetByKey => normalizeLoop env ns (i + 1) later targetByKey
  | i, some obj :: later, targetByKey =>
    match setNamespace env ns obj with
    | .error err => .error err
    | .ok obj => normalizeLoop env ns (i + 1) later (addTarget (targetKey i obj) obj targetByKey)

def repeatedCondition (group : ResourceKey × List Obj) : Option Condition :=
  if group.2.length > 1 then
    some ⟨.repeatedResourceWarning, "Resource " ++ group.1.text ++ " appeared " ++ itoa group.2.length ++
      " times among application resources."⟩
  else none

def normalizeTargetObjects (env : TargetEnv) (ns : String) (objs : List (Option Obj)) :
    Except String (List Obj × List Condition) :=
  (normalizeLoop env ns 0 objs []).map fun targetByKey =>
    let groups := env.order targetByKey
    (groups.filterMap fun group => group.2.getLast?, groups.filterMap repeatedCondition)

/-- tracking metadata cannot be set on an object whose namespace has changed -/
def CannotTrack (env : TargetEnv) (ns : String) (objs : List (Option Obj)) : Prop :=
  ∃ obj, some obj ∈ objs ∧ ∃ obj' ∈ moved env ns obj, ∃ err, env.setAppInstance obj' = .error err

variable {env : TargetEnv} {ns : String}

theorem setNamespace_error_iff {obj : Obj} : (∃ err, setNamespace env ns obj = .error err) ↔
      ∃ obj' ∈ moved env ns obj, ∃ err, env.setAppInstance obj' = .error err := by
  unfold setNamespace
  cases moved env ns obj with
  | none => simp
  | some obj' => cases h : env.setAppInstance obj' <;> simp [h, Except.mapError]

theorem normalizeLoop_error_iff {i : ℕ} {objs : List (Option Obj)} {groups : Groups} :
    (∃ err, normalizeLoop env ns i objs groups = .error err) ↔ CannotTrack env ns objs := by
  induction objs generalizing i groups with
  | nil => simp [normalizeLoop, CannotTrack]
  | cons head later ih =>
    have hc : CannotTrack env ns (head :: later) ↔
        (∃ obj, some obj = head ∧ ∃ err, setNamespace env ns obj = .error err) ∨ CannotTrack env ns later := by
      simp only [CannotTrack, setNamespace_error_iff, List.mem_cons, or_and_right, exists_or]
    rw [hc]
    cases head with
    | none => simpa [normalizeLoop] using ih
    | some obj =>
      unfold normalizeLoop
      cases h : setNamespace env ns obj with
      | error err => simp [h]
      | ok obj' => simpa [h] using ih

theorem normalizeTargetObjects_error_iff {objs : List (Option Obj)} :
    (∃ err, normalizeTargetObjects env ns objs = .error err) ↔ CannotTrack env ns objs := by
  rw [← @normalizeLoop_error_iff env ns 0 objs []]
  unfold normalizeTargetObjects
  cases normalizeLoop env ns 0 objs [] <;> simp [Except.map]

/-! ## Delete hooks -/

def hasGitOpsEngineSyncPhaseHook (obj : Obj) : Bool := (Sync.hookTypes obj).any fun t => t.phase?.isSome

structure Partition where
  syncObjs : List Obj
  hasPreDeleteHooks : Bool
  hasPostDeleteHooks : Bool

/-- a hook of both kinds without a sync phase counts as a pre-delete hook only -/
def partitionStep (p : Partition) (obj : Obj) : Partition :=
  let isPre := Deletion.isHookOfType obj .preDelete
  let isPost := Deletion.isHookOfType obj .postDelete
  let inSync := hasGitOpsEngineSyncPhaseHook obj
  let p := { p with hasPreDeleteHooks := p.hasPreDeleteHooks || isPre }
  if isPre && !inSync then p
  else
    let p := { p with hasPostDeleteHooks := p.hasPostDeleteHooks || isPost }
    if isPost && !inSync then p else { p with syncObjs := p.syncObjs ++ [obj] }

def partitionTargetObjsForSync (targetObjs : List Obj) : Partition := targetObjs.foldl partitionStep ⟨[], false, false⟩

end GitOpsDeploy.Compare

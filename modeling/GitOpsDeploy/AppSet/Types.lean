/-
ApplicationSets with a rollout strategy (`pkg/apis/application/v1alpha1/applicationset_types.go`,
`applicationset/progressivesync/validation_issues.go`).

The fields the rolling sync reads: the strategy with its steps, the stored status of every application, and of an
application its labels, its spec and the parts of its status that decide about its progress. A nil slice and an empty
slice of revisions are told apart (`reflect.DeepEqual` does).
-/
import Mathlib.Data.List.AList
import GitOpsDeploy.Sync.State

namespace GitOpsDeploy.AppSet

open Sync (OperationPhase HealthStatusCode)

/-- instants, in nanoseconds -/
abbrev Time := ℤ

inductive ProgressiveSyncStatusCode where
  | waiting
  | pending
  | progressing
  | healthy
  | other (code : String)
  deriving DecidableEq, Repr

inductive SyncStatusCode where
  | unknown
  | synced
  | outOfSync
  | other (code : String)
  deriving DecidableEq, Repr

/-- `ApplicationSetApplicationStatus` -/
structure ApplicationStatus where
  application : String
  lastTransitionTime : Option Time
  message : String
  status : ProgressiveSyncStatusCode
  step : String
  targetRevisions : Option (List String)
  deriving DecidableEq, Repr

structure ApplicationMatchExpression where
  key : String
  operator : String
  values : List String
  deriving DecidableEq, Repr

inductive IntOrString where
  | int (value : ℤ)
  | string (value : String)
  deriving DecidableEq, Repr

/-- `IntOrString.String()` -/
def IntOrString.text : IntOrString → String
  | .int value => Decimal.formatInt value
  | .string value => value

structure RolloutStep where
  matchExpressions : List ApplicationMatchExpression
  maxUpdate : Option IntOrString
  deriving DecidableEq, Repr

structure Strategy where
  type : String
  /-- the steps of `rollingSync`, none where the field is nil -/
  rollingSync : Option (List RolloutStep)

structure ApplicationSet where
  strategy : Option Strategy
  applicationStatus : List ApplicationStatus

inductive ConditionType where
  | invalidSpecError
  | unknownError
  | other (type : String)
  deriving DecidableEq, Repr

structure OperationState where
  phase : OperationPhase
  startedAt : Time
  deriving DecidableEq, Repr

/-- an application, current or desired; `Spec` is its spec, read only through a comparison -/
structure Application (Spec : Type) where
  name : String
  labels : List (String × String)
  spec : Spec
  health : HealthStatusCode
  sync : SyncStatusCode
  syncRevision : String
  syncRevisions : List String
  reconciledAt : Option Time
  operationState : Option OperationState
  conditions : List ConditionType
  deriving DecidableEq, Repr

/-- `ApplicationStatus.GetRevisions`, never nil -/
def Application.getRevisions {Spec : Type} (app : Application Spec) : List String :=
  if app.syncRevisions ≠ [] then app.syncRevisions
  else if app.syncRevision ≠ "" then [app.syncRevision] else []

def isRollingSyncStrategy (appset : ApplicationSet) : Bool :=
  decide (∃ s ∈ appset.strategy, s.type = "RollingSync" ∧ s.rollingSync.isSome)

/-- the steps of a strategy, empty where it has none -/
def ApplicationSet.steps (appset : ApplicationSet) : List RolloutStep :=
  (appset.strategy.bind Strategy.rollingSync).getD []

def rollingSyncStrategyEnabled (appset : ApplicationSet) : Bool :=
  isRollingSyncStrategy appset && decide (0 < appset.steps.length)

/-- `FindApplicationStatusIndex`, with the status at the index -/
def findApplicationStatus (statuses : List ApplicationStatus) (application : String) : Option ApplicationStatus :=
  statuses.find? fun s => s.application = application

/-! ## Validation issues -/

structure InvalidMatchExpression where
  stepIndex : ℕ
  operator : String

structure InvalidMaxUpdate where
  stepIndex : ℕ
  maxUpdate : IntOrString
  error : String

structure ValidationIssues where
  invalidMatchExpressions : List InvalidMatchExpression
  duplicateAppSelections : AList fun _ : String => List ℕ
  emptySteps : List ℕ
  invalidMaxUpdates : List InvalidMaxUpdate

namespace ValidationIssues

variable (v : ValidationIssues)

def empty : ValidationIssues := ⟨[], ∅, [], []⟩

def hasIssues : Bool :=
  decide (0 < v.invalidMatchExpressions.length) || decide (0 < v.duplicateAppSelections.keys.length) ||
    decide (0 < v.emptySteps.length) || decide (0 < v.invalidMaxUpdates.length)

def alreadyExists (stepIndex : ℕ) (operator : String) : Bool :=
  v.invalidMatchExpressions.any fun i => i.stepIndex = stepIndex && i.operator = operator

/-- step numbers as they are shown, counted from one -/
def stepNums (steps : List ℕ) : List String := steps.map fun i => Decimal.itoa (i + 1)

def formatInvalidMatchExpressionMessage : String :=
  let nums := stepNums (v.invalidMatchExpressions.map InvalidMatchExpression.stepIndex)
  let operators := ", ".intercalate (v.invalidMatchExpressions.map InvalidMatchExpression.operator)
  let supported := ". Supported Operators are 'In' and 'NotIn'"
  if nums.length = 1 then
    "Step " ++ nums.headD "" ++ " has invalid matchExpression operators: " ++ operators ++ supported
  else "Steps " ++ ", ".intercalate nums ++ " have invalid matchExpression operators: " ++ operators ++ supported

def formatDuplicateAppSelectionMessage : String :=
  let appNames := v.duplicateAppSelections.keys.mergeSort fun a b => decide (a ≤ b)
  let nums := appNames.map fun a => "-".intercalate (stepNums ((v.duplicateAppSelections.lookup a).getD []))
  if appNames.length = 1 then
    "Application '" ++ appNames.headD "" ++ "' is selected by multiple steps: (" ++ ", ".intercalate nums ++ ")"
  else
    "Applications '" ++ "', '".intercalate appNames ++ "' are selected by multiple steps: [(" ++
      "), (".intercalate nums ++ ")]"

def formatInvalidMaxUpdateMessage : String :=
  let nums := ", ".intercalate (stepNums (v.invalidMaxUpdates.map InvalidMaxUpdate.stepIndex))
  let values := ", ".intercalate (v.invalidMaxUpdates.map fun i => i.maxUpdate.text)
  if v.invalidMaxUpdates.length = 1 then "Step " ++ nums ++ " has an invalid maxUpdate value: " ++ values
  else "Steps " ++ nums ++ " have invalid maxUpdate values: [" ++ values ++ "]"

def formatEmptyStepsMessage : String :=
  "Steps [" ++ " ".intercalate (stepNums v.emptySteps) ++ "] have no applications matching their criteria"

/-- only the issue of the highest priority is reported -/
def getConditionMessage : String :=
  if 0 < v.invalidMatchExpressions.length then v.formatInvalidMatchExpressionMessage
  else if 0 < v.duplicateAppSelections.keys.length then v.formatDuplicateAppSelectionMessage
  else if 0 < v.invalidMaxUpdates.length then v.formatInvalidMaxUpdateMessage
  else if 0 < v.emptySteps.length then v.formatEmptyStepsMessage
  else ""

end ValidationIssues

end GitOpsDeploy.AppSet

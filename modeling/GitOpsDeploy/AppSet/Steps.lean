/-
The steps of a rolling sync (`buildAppDependencyList` and `getAppsToSync` of
`applicationset/progressivesync/progressive_sync.go`).

`buildAppDependencyList` puts every desired application into the steps whose match expressions select it, and maps it to
the first of them; `getAppsToSync` opens the steps one after the other, as long as every application of the step exists
and is Healthy.
-/
import GitOpsDeploy.AppSet.Types

namespace GitOpsDeploy.AppSet

variable {Spec : Type}

abbrev AppStepMap := AList fun _ : String => ℕ

/-- whether the label value matches, and whether the operator is invalid -/
def labelMatchedExpression (val : String) (m : ApplicationMatchExpression) : Bool × Bool :=
  if m.operator ≠ "In" ∧ m.operator ≠ "NotIn" then (false, true)
  else if m.values.contains val then (m.operator = "In", false)
  else (m.operator = "NotIn", false)

/-- the loop over the match expressions of step i for an application with these labels -/
def selects (labels : List (String × String)) (i : ℕ) :
    List ApplicationMatchExpression → ValidationIssues → Bool × ValidationIssues
  | [], issues => (true, issues)
  | m :: later, issues =>
    match labels.lookup m.key with
    | some val =>
      if (labelMatchedExpression val m).2 && !issues.alreadyExists i m.operator then
        (false, { issues with invalidMatchExpressions := issues.invalidMatchExpressions ++ [⟨i, m.operator⟩] })
      else if !(labelMatchedExpression val m).1 then (false, issues)
      else selects labels i later issues
    | none => if m.operator = "In" then (false, issues) else selects labels i later issues

structure Build where
  appDependencyList : List (List String)
  appStepMap : AppStepMap
  issues : ValidationIssues

/-- the application is selected by step i: it joins the step, and only its first step is kept in the map -/
def Build.select (b : Build) (name : String) (i : ℕ) : Build :=
  match b.appStepMap.lookup name with
  | some first =>
    let duplicates := b.issues.duplicateAppSelections
    { b with
      appDependencyList := b.appDependencyList.modify i (· ++ [name])
      issues := { b.issues with
        duplicateAppSelections := duplicates.insert name ((duplicates.lookup name).getD [first] ++ [i]) } }
  | none =>
    { b with
      appDependencyList := b.appDependencyList.modify i (· ++ [name])
      appStepMap := b.appStepMap.insert name i }

/-- the body of the loop over the steps -/
def buildStep (app : Application Spec) (b : Build) (step : RolloutStep × ℕ) : Build :=
  let (selected, issues) := selects app.labels step.2 step.1.matchExpressions b.issues
  if selected then { b with issues := issues }.select app.name step.2 else { b with issues := issues }

/-- the body of the loop over the applications -/
def buildApp (steps : List RolloutStep) (b : Build) (app : Application Spec) : Build :=
  steps.zipIdx.foldl (buildStep app) b

def emptySteps (appDependencyList : List (List String)) : List ℕ :=
  appDependencyList.zipIdx.filterMap fun apps => if apps.1.length = 0 then some apps.2 else none

/-- the steps that are rolled out -/
def rolloutSteps (appset : ApplicationSet) : List RolloutStep :=
  if rollingSyncStrategyEnabled appset then appset.steps else []

def buildAppDependencyList (appset : ApplicationSet) (applications : List (Application Spec)) : Build :=
  if ∀ s ∈ appset.strategy, s.type = "" ∨ s.type = "AllAtOnce" then ⟨[], ∅, .empty⟩
  else
    let b := applications.foldl (buildApp (rolloutSteps appset)) ⟨(rolloutSteps appset).map fun _ => [], ∅, .empty⟩
    { b with issues := { b.issues with emptySteps := b.issues.emptySteps ++ emptySteps b.appDependencyList } }

/-- the step that is shown, counted from one; -1 for an application outside every step -/
def getAppStep (appName : String) (appStepMap : AppStepMap) : ℤ :=
  match appStepMap.lookup appName with
  | some appStep => appStep + 1
  | none => -1

/-- every application of the step exists and is Healthy -/
def isStepComplete (statuses : List ApplicationStatus) (current : List (Application Spec)) (step : List String) : Bool :=
  step.all fun appName =>
    current.any (fun app => app.name = appName) &&
      match findApplicationStatus statuses appName with
      | none => false
      | some appStatus => appStatus.status = .healthy

/-- the loop of `getAppsToSync`: a step that is not complete is the last one opened -/
def openSteps (statuses : List ApplicationStatus) (current : List (Application Spec)) : List (List String) → Finset String
  | [] => ∅
  | step :: later =>
    step.toFinset ∪ if isStepComplete statuses current step then openSteps statuses current later else ∅

def getAppsToSync (appset : ApplicationSet) (appDependencyList : List (List String))
    (currentApplications : List (Application Spec)) : Finset String :=
  openSteps appset.applicationStatus currentApplications appDependencyList

end GitOpsDeploy.AppSet

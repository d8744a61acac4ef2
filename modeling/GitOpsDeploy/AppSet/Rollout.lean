/-
One reconciliation of a rolling sync (`applicationset/progressivesync/progressive_sync.go`).

`performProgressiveSyncs` rewrites the status of every current application, opens the steps that may sync and moves
waiting applications of open steps to Pending, as far as the step's `maxUpdate` allows. A Go panic is `none`; an error
of a dependency is the error of the call. `Scaling` is `intstr.GetScaledValueFromIntOrPercent` with its documentation.
-/
import GitOpsDeploy.AppSet.Status
import GitOpsDeploy.AppSet.Steps

namespace GitOpsDeploy.AppSet

variable {Spec : Type}

/-- the number of a text "<number>%" -/
def percentage (text : String) : Option ℤ :=
  match text.toList.reverse with
  | '%' :: digits => Decimal.atoi (String.ofList digits.reverse)
  | _ => none

/-- `intstr.GetScaledValueFromIntOrPercent`: the value, zero with an error for a text that is no percentage -/
structure Scaling where
  scaledValue : IntOrString → ℤ → Bool → ℤ × Option String
  int_value : ∀ value total roundUp, scaledValue (.int value) total roundUp = (value, none)
  percent_value : ∀ text total percent, percentage text = some percent →
    scaledValue (.string text) total false = (percent * total / 100, none)
  invalid_value : ∀ text total roundUp, percentage text = none →
    ∃ err, scaledValue (.string text) total roundUp = (0, some err)

/-- the documented behaviour, with the result rounded up on demand -/
def Scaling.documented : Scaling where
  scaledValue
    | .int value, _, _ => (value, none)
    | .string text, total, roundUp =>
      match percentage text with
      | some percent => (if roundUp then -(-(percent * total) / 100) else percent * total / 100, none)
      | none => (0, some "invalid value for IntOrString: invalid type: string is not a percentage")
  int_value _ _ _ := rfl
  percent_value text total percent h := by simp [h]
  invalid_value text total roundUp h := by simp [h]

/-- what the rolling sync gets from outside: the comparison of specs and the scaling of maxUpdate -/
structure Env (Spec : Type) where
  specEqual : Spec → Spec → Bool
  scaling : Scaling

variable (env : Env Spec) (scaling : Scaling) (now : Time) (s : ApplicationStatus)
  (statuses : List ApplicationStatus) (appStepMap : AppStepMap) (appset : ApplicationSet)
  (app : Application Spec)

/-! ## Status of the applications -/

def isApplicationWithError : Bool :=
  app.conditions.any fun c => c = .invalidSpecError || c = .unknownError

/-- the stored status of an application, or Waiting -/
def currentAppStatus : ApplicationStatus :=
  (findApplicationStatus statuses app.name).getD
    { application := app.name
      targetRevisions := some app.getRevisions
      lastTransitionTime := some now
      message := "No Application status found, defaulting status to Waiting"
      status := .waiting
      step := Decimal.formatInt (getAppStep app.name appStepMap) }

/-- the last desired application of a name is the one the map keeps -/
def specChanged (desired : List (Application Spec)) (app : Application Spec) : Bool :=
  match desired.reverse.find? fun d => d.name = app.name with
  | some desiredApp => !env.specEqual desiredApp.spec app.spec
  | none => false

def revisionsChanged (current : ApplicationStatus) (app : Application Spec) : Bool :=
  decide (current.targetRevisions ≠ some app.getRevisions)

def changedMessage : Bool → Bool → String
  | true, true => "Application has pending changes (revision and spec differ), setting status to Waiting"
  | true, false => "Application has pending changes, setting status to Waiting"
  | false, _ => "Application has pending changes (spec differs), setting status to Waiting"

def noteChanges (revisions spec : Bool) (new : ApplicationStatus) :
    ApplicationStatus :=
  if revisions || spec then
    { new with
      targetRevisions := some app.getRevisions
      message := changedMessage revisions spec
      status := .waiting
      lastTransitionTime := some now }
  else new

def moveTo (status : ProgressiveSyncStatusCode) (message : String) (new : ApplicationStatus) :
    ApplicationStatus :=
  { new with lastTransitionTime := some now, status := status, message := message }

variable (new : ApplicationStatus)

/-- a waiting application that is already synced does not need to sync -/
def leaveWaiting : ApplicationStatus :=
  if app.sync = .synced then
    if app.health = .healthy then
      moveTo now .healthy "Application resource has synced, updating status to Healthy" new
    else moveTo now .progressing "Application resource has synced, updating status to Progressing" new
  else new

def operationMessage (phase : Sync.OperationPhase) : String :=
  if phase = .succeeded then
    "Application resource completed a sync successfully, updating status from Pending to Progressing"
  else if phase.completed then "Application resource completed a sync, updating status from Pending to Progressing"
  else "Application resource became Progressing, updating status from Pending to Progressing"

/-- the application was reconciled since the last transition -/
def reconciledSince : Bool :=
  match app.reconciledAt with
  | none => true
  | some t => decide (∃ last ∈ new.lastTransitionTime, last < t)

/-- a pending application becomes Progressing once a sync has started; reading a nil transition time panics -/
def leavePending (current new : ApplicationStatus) : Option ApplicationStatus :=
  if reconciledSince app new then
    match app.operationState with
    | none => some (noSync new)
    | some op =>
      match current.lastTransitionTime with
      | none => none
      | some last =>
        if last < op.startedAt then some (moveTo now .progressing (operationMessage op.phase) new) else some (noSync new)
  else some new
where
  noSync (new : ApplicationStatus) : ApplicationStatus :=
    if isApplicationWithError app then
      moveTo now .progressing "Application resource has error and cannot sync, updating status to Progressing" new
    else new

def leaveProgressing : ApplicationStatus :=
  if app.health = .healthy ∧ app.sync = .synced then
    moveTo now .healthy "Application resource became Healthy, updating status from Progressing to Healthy" new
  else new

/-- the body of the loop of `UpdateApplicationSetApplicationStatus` -/
def newAppStatus
    (desired : List (Application Spec)) (app : Application Spec) : Option ApplicationStatus :=
  let current := currentAppStatus now statuses appStepMap app
  let new := noteChanges now app (revisionsChanged current app) (specChanged env desired app)
    { current with step := Decimal.formatInt (getAppStep current.application appStepMap) }
  if new.status = .waiting then some (leaveWaiting now app new)
  else if current.status = .pending then leavePending now app current new
  else if current.status = .progressing then some (leaveProgressing now app new)
  else some new

def appStatuses (applications desired : List (Application Spec))
    (appStepMap : AppStepMap) : Option (List ApplicationStatus) :=
  applications.mapM (newAppStatus env now appset.applicationStatus appStepMap desired)

def updateApplicationSetApplicationStatus (store : Store) (now : Time) (appset : ApplicationSet)
    (applications desired : List (Application Spec)) (appStepMap : AppStepMap) :
    Option (Except String ApplicationSet) :=
  (appStatuses env now appset applications desired appStepMap).map fun statuses =>
    (setAppSetApplicationStatus store appset statuses).mapError ("failed to set AppSet application statuses: " ++ ·)

/-! ## Promotion -/

/-- the zero value of a missing key is the first step -/
def stepIndex (appName : String) : ℕ := (appStepMap.lookup appName).getD 0

def isUpdating : Bool := s.status = .pending || s.status = .progressing

/-- `counts[i]++`, which panics outside the slice -/
def increment (counts : List ℕ) (i : ℕ) : Option (List ℕ) := counts[i]?.map fun n => counts.set i (n + 1)

structure Counts where
  total : List ℕ
  update : List ℕ

def countStatus (c : Counts) (s : ApplicationStatus) : Option Counts := do
  let total ← increment c.total (stepIndex appStepMap s.application)
  if isUpdating s then
    let update ← increment c.update (stepIndex appStepMap s.application)
    some ⟨total, update⟩
  else some { c with total := total }

def countStatuses (length : ℕ) (statuses : List ApplicationStatus) : Option Counts :=
  statuses.foldlM (countStatus appStepMap) ⟨List.replicate length 0, List.replicate length 0⟩

/-- the scaled maxUpdate with the error of scaling it; a text other than "0%" allows at least one application -/
def maxUpdateVal (maxUpdate : IntOrString) (total : ℕ) : ℤ × Option String :=
  let (value, err) := scaling.scaledValue maxUpdate total false
  match maxUpdate with
  | .string text => (if text ≠ "0%" ∧ value < 1 then 1 else value, err)
  | .int _ => (value, err)

/-- an invalid maxUpdate is noted once for a step -/
def noteMaxUpdate (issues : Option ValidationIssues) (i : ℕ) (maxUpdate : IntOrString) (err : String) :
    Option ValidationIssues :=
  issues.map fun v =>
    if v.invalidMaxUpdates.any (fun issue => issue.stepIndex = i) then v
    else { v with invalidMaxUpdates := v.invalidMaxUpdates ++ [⟨i, maxUpdate, err⟩] }

structure Progress where
  updateCount : List ℕ
  issues : Option ValidationIssues
  statuses : List ApplicationStatus

def checkMaxUpdate (i : ℕ) (maxUpdate : Option IntOrString) (total updating : ℕ)
    (issues : Option ValidationIssues) : Bool × Option ValidationIssues :=
  match maxUpdate with
  | none => (true, issues)
  | some m =>
    (decide ((updating : ℤ) < (maxUpdateVal scaling m total).1),
      match (maxUpdateVal scaling m total).2 with
      | some err => noteMaxUpdate issues i m err
      | none => issues)

def toPending : ApplicationStatus :=
  moveTo now .pending
    "Application moved to Pending status, watching for the Application resource to start Progressing" s

/-- the body of the loop of `UpdateApplicationSetApplicationStatusProgress` -/
def promote (steps : List RolloutStep) (total : List ℕ) (appStepMap : AppStepMap)
    (appsToSync : Finset String) (p : Progress) (s : ApplicationStatus) : Option Progress := do
  let i := stepIndex appStepMap s.application
  let step ← steps[i]?
  let count ← total[i]?
  let updating ← p.updateCount[i]?
  let (maxUpdateAllowed, issues) := checkMaxUpdate scaling i step.maxUpdate count updating p.issues
  if s.status = .waiting ∧ s.application ∈ appsToSync ∧ maxUpdateAllowed = true then
    some ⟨p.updateCount.set i (updating + 1), issues, p.statuses ++ [toPending now s]⟩
  else some ⟨p.updateCount, issues, p.statuses ++ [s]⟩

/-- the new statuses, and the validation issues with the invalid maxUpdates -/
def progressStatuses (appsToSync : Finset String)
    (appStepMap : AppStepMap) (issues : Option ValidationIssues) :
    Option (List ApplicationStatus × Option ValidationIssues) :=
  if rollingSyncStrategyEnabled appset then do
    let counts ← countStatuses appStepMap appset.steps.length appset.applicationStatus
    let p ← appset.applicationStatus.foldlM (promote scaling now appset.steps counts.total appStepMap appsToSync)
      ⟨counts.update, issues, []⟩
    some (p.statuses, p.issues)
  else some ([], issues)

/-- the statuses that are computed, and what comes of storing them -/
structure Progressed where
  statuses : List ApplicationStatus
  issues : Option ValidationIssues
  stored : Except String ApplicationSet

def updateApplicationSetApplicationStatusProgress (store : Store) (now : Time)
    (appset : ApplicationSet) (appsToSync : Finset String) (appStepMap : AppStepMap)
    (issues : Option ValidationIssues) : Option Progressed := do
  let (statuses, issues) ← progressStatuses scaling now appset appsToSync appStepMap issues
  let stored := (setAppSetApplicationStatus store appset statuses).mapError ("failed to set AppSet app status: " ++ ·)
  some ⟨statuses, issues, stored⟩

/-! ## Conditions -/

inductive ApplicationSetConditionType where
  | rolloutProgressing
  | invalidRolloutConfig
  deriving DecidableEq, Repr

structure ApplicationSetCondition where
  type : ApplicationSetConditionType
  message : String
  reason : String
  status : Bool

/-- the shown step has entries, and not all of them are Healthy -/
def isProgressingStep (step : String) : Bool :=
  statuses.any fun s => s.step = step && s.status ≠ .healthy

def getProgressingCondition : Option ApplicationSetCondition :=
  if isRollingSyncStrategy appset then
    let shown := (List.range appset.steps.length).map fun i => Decimal.itoa (i + 1)
    match shown.find? (isProgressingStep appset.applicationStatus) with
    | some step => some ⟨.rolloutProgressing, "ApplicationSet is performing rollout of step " ++ step,
        "ApplicationSetModified", true⟩
    | none => some ⟨.rolloutProgressing, "ApplicationSet Rollout has completed",
        "ApplicationSetRolloutComplete", false⟩
  else none

def getInvalidRolloutConfig (issues : ValidationIssues) : Option ApplicationSetCondition :=
  if isRollingSyncStrategy appset then
    if issues.hasIssues then
      some ⟨.invalidRolloutConfig, issues.getConditionMessage, "ApplicationSetInvalidRolloutConfig", true⟩
    else some ⟨.invalidRolloutConfig, "Rolling Sync Configured correctly", "ApplicationSetValidRolloutConfig", false⟩
  else none

/-! ## One reconciliation -/

/-- what the call passes through once the statuses are updated -/
structure Performed where
  updated : ApplicationSet
  appsToSync : Finset String
  /-- the statuses given to the second write -/
  promoted : List ApplicationStatus
  /-- what is stored and the conditions that are set, or the error of the second write -/
  result : Except String (ApplicationSet × List ApplicationSetCondition)

/-- the two writes of the statuses -/
structure Stores where
  update : Store
  progress : Store

def rolloutConditions (issues : ValidationIssues) : List ApplicationSetCondition :=
  [getInvalidRolloutConfig appset issues, getProgressingCondition appset].filterMap id

def performProgressiveSyncs (stores : Stores) (now later : Time) (appset : ApplicationSet)
    (applications desired : List (Application Spec)) : Option (Except String Performed) := do
  let build := buildAppDependencyList appset desired
  let issues := if build.issues.hasIssues then build.issues else .empty
  match ← updateApplicationSetApplicationStatus env stores.update now appset applications desired build.appStepMap with
  | .error err => some (.error ("failed to update applicationset app status: " ++ err))
  | .ok updated =>
    let appsToSync := getAppsToSync updated build.appDependencyList applications
    let progressed ← updateApplicationSetApplicationStatusProgress env.scaling stores.progress later updated appsToSync
      build.appStepMap (some issues)
    let result := match progressed.stored with
      | .error err => .error ("failed to update applicationset application status progress: " ++ err)
      | .ok stored => .ok (stored, rolloutConditions stored (progressed.issues.getD .empty))
    some (.ok ⟨updated, appsToSync, progressed.statuses, result⟩)

end GitOpsDeploy.AppSet

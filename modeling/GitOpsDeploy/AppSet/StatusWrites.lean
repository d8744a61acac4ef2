/-
The writes of an ApplicationSet's status (`setAppSetApplicationStatus`, `updateResourcesStatus`,
`setApplicationSetStatusCondition` in `applicationset/controllers/applicationset_controller.go`).

Each of them changes the copy in memory, may decide that there is nothing to write, and then fetches the stored object,
puts the values into it and sends it back, up to five times as long as the API server answers with a conflict. The API
server answers each attempt in any way. A status that was sent is stored as it was sent, since an object that changed
after it was fetched is a conflict.
-/
import GitOpsDeploy.AppSet.Status

namespace GitOpsDeploy.AppSet.StatusWrites

open Sync (HealthStatusCode HealthStatus)

/-! ## The status -/

inductive ConditionType where
  | errorOccurred
  | parametersGenerated
  | resourcesUpToDate
  | rolloutProgressing
  | invalidRolloutConfig
  | other (type : String)
  deriving DecidableEq, Repr

inductive ConditionStatus where
  | isTrue
  | isFalse
  | unknown
  | other (status : String)
  deriving DecidableEq, Repr

structure Condition where
  type : ConditionType
  message : String
  lastTransitionTime : Option Time
  status : ConditionStatus
  reason : String
  deriving DecidableEq, Repr

/-- the status of an application, as it is copied into the status of its ApplicationSet -/
structure ResourceStatus where
  group : String
  version : String
  kind : String
  name : String
  ns : String
  status : SyncStatusCode
  health : HealthStatusCode

structure ApplicationSet where
  strategy : Option Strategy
  conditions : List Condition
  applicationStatus : List ApplicationStatus
  resources : List ResourceStatus
  resourcesCount : ℕ
  health : HealthStatus

/-- what the rolling sync reads -/
def ApplicationSet.rollout (appset : ApplicationSet) : AppSet.ApplicationSet :=
  ⟨appset.strategy, appset.applicationStatus⟩

/-- how `sort.Slice` orders a list; it leaves the order of equal elements open -/
structure Sorting (A : Type) where
  sort : List A → List A
  perm : ∀ l, (sort l).Perm l

/-! ## The API server -/

inductive GetAnswer (A : Type) where
  | found (a : A)
  | notFound (err : String)
  | failed (err : String)

inductive UpdateAnswer where
  | stored
  | conflict (err : String)
  | notFound (err : String)
  | failed (err : String)

/-- the answers to one call, attempt by attempt -/
structure Server (A : Type) where
  get : ℕ → GetAnswer A
  update : ℕ → UpdateAnswer
  /-- what is stored when the call returns, if the call itself wrote nothing -/
  stored : Option A
  /-- an object that was not found does not exist -/
  gone : ∀ i err, get i = .notFound err ∨ update i = .notFound err → stored = none

inductive WriteError where
  | conflict (text : String)
  | notFound (text : String)
  | other (text : String)
  deriving DecidableEq, Repr

def WriteError.text : WriteError → String
  | .conflict text => text
  | .notFound text => text
  | .other text => text

/-- a wrapped error keeps its kind -/
def WriteError.wrap (message : String) : WriteError → WriteError
  | .conflict text => .conflict (message ++ text)
  | .notFound text => .notFound (message ++ text)
  | .other text => .other (message ++ text)

/-- the copy in memory, what was written, and the error that is returned -/
structure Outcome (A : Type) where
  memory : A
  written : Option A
  err : Option WriteError

section Loop

variable {A : Type}

/-- what is stored afterwards -/
def Server.final (server : Server A) (o : Outcome A) : Option A := o.written.or server.stored

/-- one attempt; a Get that fails other than with "not found" ends it without an error -/
def attempt (server : Server A) (modify : A → A) (memory : A) (i : ℕ) : Outcome A :=
  match server.get i with
  | .notFound err => ⟨memory, none, some (.notFound ("error fetching updated application set: " ++ err))⟩
  | .failed _ => ⟨memory, none, none⟩
  | .found fetched =>
    match server.update i with
    | .stored => ⟨modify fetched, some (modify fetched), none⟩
    | .conflict err => ⟨memory, none, some (.conflict err)⟩
    | .notFound err => ⟨memory, none, some (.notFound err)⟩
    | .failed err => ⟨memory, none, some (.other err)⟩

/-- `retry.RetryOnConflict`, with the number of attempts left after this one -/
def retryOnConflict (server : Server A) (modify : ℕ → A → A) (memory : A) : ℕ → ℕ → Outcome A
  | 0, i => attempt server (modify i) memory i
  | left + 1, i =>
    match (attempt server (modify i) memory i).err with
    | some (.conflict _) => retryOnConflict server modify memory left (i + 1)
    | _ => attempt server (modify i) memory i

/-- `retry.DefaultRetry` makes five attempts -/
def persist (server : Server A) (modify : ℕ → A → A) (memory : A) : Outcome A :=
  retryOnConflict server modify memory 4 0

/-- an error that is returned gets a text in front -/
def Outcome.wrapped (message : String) (o : Outcome A) : Outcome A := { o with err := o.err.map (WriteError.wrap message) }

end Loop

/-! ## Application statuses -/

variable (sorting : Sorting ApplicationStatus) (server : Server ApplicationSet) (appset : ApplicationSet)

def setAppSetApplicationStatus (statuses : List ApplicationStatus) : Outcome ApplicationSet :=
  if needToUpdateStatus appset.applicationStatus statuses then
    let sorted := sorting.sort statuses
    (persist server (fun _ updated => { updated with applicationStatus := sorted })
      { appset with applicationStatus := sorted }).wrapped "unable to set application set status: "
  else ⟨appset, none, none⟩

/-! ### As the rolling sync sees it -/

/-- the answers, as far as the rolling sync reads them -/
def Server.toStore : Store where
  attempt i := {
    get := match server.get i with
      | .found appset => .found appset.rollout
      | .notFound err => .notFound err
      | .failed err => .failed err
    update := fun sent => match server.update i with
      | .stored => .stored sent
      | .conflict err => .conflict err
      | .notFound err => .failed err
      | .failed err => .failed err }
  sortByApplication := sorting.sort

/-- the copy in memory, or the error -/
def Outcome.rollout (o : Outcome ApplicationSet) : Except String AppSet.ApplicationSet :=
  match o.err with
  | none => .ok o.memory.rollout
  | some err => .error err.text

theorem rollout_wrapped (message : String) (o : Outcome ApplicationSet) :
    (o.wrapped message).rollout = match o.rollout with
      | .ok stored => .ok stored
      | .error err => .error (message ++ err) := by
  obtain ⟨memory, written, err⟩ := o
  cases err with
  | none => rfl
  | some err => cases err <;> rfl

/-- one attempt, as the rolling sync sees it -/
def Outcome.attempted (o : Outcome ApplicationSet) : AttemptResult :=
  match o.err with
  | none => .done o.memory.rollout
  | some (.conflict err) => .retry err
  | some err => .failed err.text

theorem rollout_attempt (memory : ApplicationSet) (i : ℕ) :
    tryUpdate ((server.toStore sorting).attempt i) memory.rollout =
      (attempt server (fun updated => { updated with applicationStatus := memory.applicationStatus }) memory
        i).attempted := by
  unfold tryUpdate attempt Server.toStore
  dsimp only
  cases server.get i with
  | found fetched => cases server.update i <;> rfl
  | _ => rfl

theorem rollout_retryOnConflict (memory : ApplicationSet) (left i : ℕ) :
    AppSet.retryOnConflict (server.toStore sorting) memory.rollout left i =
      (retryOnConflict server (fun _ updated => { updated with applicationStatus := memory.applicationStatus })
        memory left i).rollout := by
  induction left generalizing i with
  | zero =>
    unfold AppSet.retryOnConflict retryOnConflict
    rw [rollout_attempt]
    generalize attempt server _ memory i = o
    obtain ⟨memory', written, err⟩ := o
    cases err with
    | none => rfl
    | some err => cases err <;> rfl
  | succ left ih =>
    unfold AppSet.retryOnConflict retryOnConflict
    rw [rollout_attempt]
    generalize attempt server _ memory i = o
    obtain ⟨memory', written, err⟩ := o
    cases err with
    | none => rfl
    | some err =>
      cases err with
      | conflict err => exact ih (i + 1)
      | _ => rfl

/-- **The two models agree**: the write that the rolling sync relies on is this one, seen through what it reads. -/
theorem rollout_setAppSetApplicationStatus (statuses : List ApplicationStatus) :
    AppSet.setAppSetApplicationStatus (server.toStore sorting) appset.rollout statuses =
      (setAppSetApplicationStatus sorting server appset statuses).rollout := by
  have hr : appset.rollout.applicationStatus = appset.applicationStatus := rfl
  unfold AppSet.setAppSetApplicationStatus setAppSetApplicationStatus
  rw [hr]
  split_ifs with hn
  · rw [rollout_wrapped]
    have hl := rollout_retryOnConflict sorting server { appset with applicationStatus := sorting.sort statuses } 4 0
    unfold persist
    rw [← hl]
    rfl
  · rfl

/-! ## Resources -/

abbrev ResourceStatusMap := KeyedMap ResourceStatus.name

def getResourceStatusMap : ResourceStatusMap := KeyedMap.ofList appset.resources

/-- the entries of applications that are not there are deleted -/
def cleanupDeletedApplicationStatuses (statusMap : ResourceStatusMap) (apps : List ResourceStatus) : ResourceStatusMap :=
  (statusMap.values.map ResourceStatus.name).foldl
    (fun m name => if name ∈ apps.map ResourceStatus.name then m else m.delete name) statusMap

def buildResourceStatus (statusMap : ResourceStatusMap) (apps : List ResourceStatus) : ResourceStatusMap :=
  cleanupDeletedApplicationStatuses (apps.foldl KeyedMap.put statusMap) apps

/-- the statuses of the applications, by name -/
def resourceStatuses (apps : List ResourceStatus) : List ResourceStatus :=
  (buildResourceStatus (getResourceStatusMap appset) apps).values.insertionSort fun a b => a.name ≤ b.name

/-- not more than `MaxResourcesStatusCount` are stored, if that is positive -/
def truncateResources (max : ℤ) (statuses : List ResourceStatus) : List ResourceStatus :=
  if max > 0 ∧ (statuses.length : ℤ) > max then statuses.take max.toNat else statuses

def updateResourcesStatus (max : ℤ) (server : Server ApplicationSet) (appset : ApplicationSet)
    (apps : List ResourceStatus) : Outcome ApplicationSet :=
  let statuses := resourceStatuses appset apps
  let resources := truncateResources max statuses
  let resourcesCount := statuses.length
  (persist server (fun _ updated => { updated with resources, resourcesCount })
    { appset with resources, resourcesCount }).wrapped "unable to set application set status: "

/-! ## Conditions -/

def getParametersGeneratedCondition (parametersGenerated : Bool) (message : String) : Condition :=
  if parametersGenerated then
    ⟨.parametersGenerated, "Successfully generated parameters for all Applications", none, .isTrue,
      "ParametersGenerated"⟩
  else ⟨.parametersGenerated, message, none, .isFalse, "ErrorOccurred"⟩

/-- the conditions that a call writes, and the types it evaluates -/
structure Evaluation where
  newConditions : List Condition
  evaluated : ConditionType → Bool

def Evaluation.evaluate (e : Evaluation) (type : ConditionType) (isEvaluated : Bool) : Evaluation :=
  { e with evaluated := Function.update e.evaluated type isEvaluated }

def Evaluation.add (e : Evaluation) (condition : Condition) : Evaluation :=
  { e with newConditions := e.newConditions ++ [condition] }

/-- one condition, and those that depend on it -/
def evaluateCondition (isRolling : Bool) (e : Evaluation) (condition : Condition) : Evaluation :=
  let e := (e.evaluate condition.type true).add condition
  match condition.type with
  | .resourcesUpToDate =>
    if condition.status = .isTrue then
      (e.evaluate .errorOccurred true).add ⟨.errorOccurred, condition.message, none, .isFalse, condition.reason⟩
    else e
  | .errorOccurred =>
    if condition.status = .isTrue then
      (e.evaluate .resourcesUpToDate true).add ⟨.resourcesUpToDate, condition.message, none, .isFalse, "ErrorOccurred"⟩
    else e
  | .rolloutProgressing => if isRolling then e else e.evaluate .rolloutProgressing false
  | .invalidRolloutConfig => if isRolling then e else e.evaluate .invalidRolloutConfig false
  | _ => e

/-- the message of the last error that is reported -/
def paramsMsg (conditions : List Condition) : String :=
  conditions.foldl (fun msg c => if c.type = .errorOccurred then c.message else msg) "progressive sync"

def evaluateConditions (isRolling : Bool) (conditions : List Condition) (parametersGenerated : Bool) : Evaluation :=
  let evaluated : ConditionType → Bool
    | .parametersGenerated => true
    | .rolloutProgressing => !isRolling
    | .invalidRolloutConfig => !isRolling
    | _ => false
  let newConditions :=
    if conditions.any fun c => c.type = .parametersGenerated then []
    else [getParametersGeneratedCondition parametersGenerated (paramsMsg conditions)]
  conditions.foldl (evaluateCondition isRolling) ⟨newConditions, evaluated⟩

def calculateHealth (conditions : List Condition) : HealthStatus :=
  if conditions = [] then ⟨.unknown, "No status conditions found for ApplicationSet"⟩
  else
    let active := conditions.filter fun c => c.status = .isTrue
    match active.find? fun c => c.type = .errorOccurred with
    | some c => ⟨.degraded, c.message⟩
    | none =>
      match (active.filter fun c => c.type = .rolloutProgressing).getLast? with
      | some c => ⟨.progressing, c.message⟩
      | none =>
        match (active.filter fun c => c.type = .resourcesUpToDate).getLast? with
        | some c => ⟨.healthy, c.message⟩
        | none => ⟨.unknown, "Waiting for health status to be determined"⟩

/-- the same but for the time -/
def Condition.same (a b : Condition) : Bool := a.message = b.message && a.reason = b.reason && a.status = b.status

def Condition.stamp (now : Time) (c : Condition) : Condition :=
  { c with lastTransitionTime := some (c.lastTransitionTime.getD now) }

/-- a condition that has not changed is kept with its time -/
def updateCondition (now : Time) (current : List Condition) (condition : Condition) : Condition :=
  match current.find? fun c => c.type = condition.type with
  | none => condition.stamp now
  | some existing => if existing.same condition then existing else condition.stamp now

/-- `SetConditions` -/
def setConditions (sorting : Sorting Condition) (now : Time) (e : Evaluation) (appset : ApplicationSet) : ApplicationSet :=
  let kept := (appset.conditions.filter fun c => !e.evaluated c.type).map (Condition.stamp now)
  let updated := (e.newConditions.filter fun c => e.evaluated c.type).map (updateCondition now appset.conditions)
  let conditions := sorting.sort (kept ++ updated)
  { appset with conditions, health := calculateHealth conditions }

/-- the conditions differ in more than their times -/
def needToUpdateConditions (previous conditions : List Condition) : Bool :=
  decide (conditions.length ≠ previous.length) ||
    (conditions.zip previous).any fun (c, p) => c.type ≠ p.type || !c.same p

/-- an ApplicationSet with the conditions put in; the copy in memory has the strategy -/
def withConditions (sorting : Sorting Condition) (now : Time) (memory : ApplicationSet) (conditions : List Condition)
    (parametersGenerated : Bool) (appset : ApplicationSet) : ApplicationSet :=
  setConditions sorting now (evaluateConditions (isRollingSyncStrategy memory.rollout) conditions parametersGenerated) appset

/-- the clock is read once for the copy in memory, and once for each attempt; a NotFound is no error here -/
def setApplicationSetStatusCondition (sorting : Sorting Condition) (now : ℕ → Time) (server : Server ApplicationSet)
    (appset : ApplicationSet) (conditions : List Condition) (parametersGenerated : Bool) : Outcome ApplicationSet :=
  let memory := withConditions sorting (now 0) appset conditions parametersGenerated appset
  if needToUpdateConditions appset.conditions memory.conditions then
    let o := persist server (fun i => withConditions sorting (now (i + 1)) appset conditions parametersGenerated) memory
    match o.err with
    | some (.notFound _) => { o with err := none }
    | _ => o.wrapped "unable to set application set condition: "
  else ⟨memory, none, none⟩

end GitOpsDeploy.AppSet.StatusWrites

/-
Storing the application statuses of an ApplicationSet (`setAppSetApplicationStatus` of
`applicationset/controllers/applicationset_controller.go`).

The API server is an oracle: for every attempt it answers the Get and the status Update in any way, and an Update that
succeeds returns the stored object, whose spec may have changed meanwhile. Sorting by name is a parameter, since
`sort.Slice` leaves the order of entries with one name open.
-/
import GitOpsDeploy.AppSet.Types

namespace GitOpsDeploy.AppSet

inductive GetAnswer where
  | found (appset : ApplicationSet)
  | notFound (err : String)
  | failed (err : String)

inductive UpdateAnswer where
  | stored (appset : ApplicationSet)
  | conflict (err : String)
  | failed (err : String)

/-- the answers to one attempt of storing a status -/
structure Attempt where
  get : GetAnswer
  update : ApplicationSet → UpdateAnswer

/-- what the API server answers in one call, attempt by attempt, and how the statuses are sorted by application -/
structure Store where
  attempt : ℕ → Attempt
  sortByApplication : List ApplicationStatus → List ApplicationStatus

/-- an entry of the new statuses that is already stored, as far as it is compared -/
def isUnchanged (stored : List ApplicationStatus) (appStatus : ApplicationStatus) : Bool :=
  match findApplicationStatus stored appStatus.application with
  | none => false
  | some current =>
    current.status = appStatus.status && current.step = appStatus.step && current.message = appStatus.message

def needToUpdateStatus (stored statuses : List ApplicationStatus) : Bool :=
  decide (statuses.length ≠ stored.length) || !statuses.all (isUnchanged stored)

inductive AttemptResult where
  | done (appset : ApplicationSet)
  | retry (err : String)
  | failed (err : String)

/-- one attempt; a Get that fails other than with "not found" ends it without an error -/
def tryUpdate (a : Attempt) (appset : ApplicationSet) : AttemptResult :=
  match a.get with
  | .notFound err => .failed ("error fetching updated application set: " ++ err)
  | .failed _ => .done appset
  | .found updated =>
    match a.update { updated with applicationStatus := appset.applicationStatus } with
    | .stored stored => .done stored
    | .conflict err => .retry err
    | .failed err => .failed err

/-- `retry.RetryOnConflict` with the given number of attempts left, of which at least one is made -/
def retryOnConflict (s : Store) (appset : ApplicationSet) : ℕ → ℕ → Except String ApplicationSet
  | left, i =>
    match tryUpdate (s.attempt i) appset with
    | .done stored => .ok stored
    | .failed err => .error err
    | .retry err =>
      match left with
      | 0 => .error err
      | left + 1 => retryOnConflict s appset left (i + 1)

/-- `setAppSetApplicationStatus`: the copy in memory afterwards, or the error -/
def setAppSetApplicationStatus (s : Store) (appset : ApplicationSet) (statuses : List ApplicationStatus) :
    Except String ApplicationSet :=
  if needToUpdateStatus appset.applicationStatus statuses then
    match retryOnConflict s { appset with applicationStatus := s.sortByApplication statuses } 4 0 with
    | .ok stored => .ok stored
    | .error err => .error ("unable to set application set status: " ++ err)
  else .ok appset

end GitOpsDeploy.AppSet

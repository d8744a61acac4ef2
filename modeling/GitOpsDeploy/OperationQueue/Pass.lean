/-
One pass of the controller over a requested operation, `processRequestedAppOperation`.

The controller reads the application once and writes the operation state back with merge patches of its own copy. Other
clients may ask for the operation to be terminated at any time in between; where they do is part of the input, and the
log has their requests and the controller's patches in order. The stored phase is passed along, since the controller
reads it again before it stores Running after a sync. How `SyncAppState` ends is an input.
-/
import GitOpsDeploy.Sync.State

namespace GitOpsDeploy.OperationQueue

open Decimal
open Sync (OperationPhase ResourceSyncResult)

variable (lib : TimeLib) (env : Env) (app : App) (st : OperationState) (p : Progress)

/-! ## Operations -/

/-- nanoseconds -/
abbrev Duration := ℤ
abbrev Time := ℤ

def second : Duration := 1000000000

structure Backoff where
  duration : String
  factor : Option ℤ
  maxDuration : String
  deriving DecidableEq, Repr

structure RetryStrategy where
  limit : ℤ
  backoff : Option Backoff
  refresh : Bool
  deriving DecidableEq, Repr

structure Source where
  repoURL : String
  path : String
  targetRevision : String
  chart : String
  deriving DecidableEq, Repr

structure SyncOperation where
  revision : String
  revisions : List String
  source : Option Source
  sources : List Source
  dryRun : Bool
  syncOptions : List String
  manifests : List String
  resources : List ResourceKey
  deriving DecidableEq, Repr

structure Operation where
  sync : Option SyncOperation
  automated : Bool
  retry : RetryStrategy
  deriving DecidableEq, Repr

/-- the entries of each map in the order of their keys; `none` is a nil map -/
structure ManagedNamespaceMetadata where
  labels : Option (List (String × String))
  annotations : Option (List (String × String))
  deriving DecidableEq, Repr

structure SyncOperationResult where
  resources : List ResourceSyncResult
  revision : String
  revisions : List String
  source : Source
  sources : List Source
  managedNamespaceMetadata : Option ManagedNamespaceMetadata
  deriving DecidableEq, Repr

structure OperationState where
  operation : Operation
  /-- empty only by mistake -/
  phase : Option OperationPhase
  message : String
  syncResult : Option SyncOperationResult
  startedAt : Time
  finishedAt : Option Time
  retryCount : ℤ
  deriving DecidableEq, Repr

def OperationState.completed : Bool := st.phase.any OperationPhase.completed

def newOperationState (operation : Operation) (now : Time) : OperationState :=
  ⟨operation, some .running, "", none, now, none, 0⟩

structure App where
  /-- the requested operation; the caller has checked that there is one -/
  operation : Operation
  operationState : Option OperationState

def isOperationInProgress : Bool := app.operationState.any fun st => !st.completed

/-! ## Retries -/

/-- parts of the time library -/
structure TimeLib where
  parseDuration : String → Option Duration
  /-- `float64(duration) * math.Pow(float64(factor), float64(retryCounts))` as a duration -/
  scaled : Duration → ℤ → ℤ → Duration
  kitchen : Time → String

/-- a number of seconds is multiplied in int64, where it may wrap around -/
def parseStringToDuration (durationString : String) : Except String Duration :=
  match atoi durationString with
  | some val => .ok (Sync.wrap64 (val * second))
  | none =>
    match lib.parseDuration durationString with
    | some duration => .ok duration
    | none => .error ("unable to parse " ++ durationString ++ " as a duration")

def defaultSyncRetryMaxDuration : Duration := 180000000000
def defaultSyncRetryDuration : Duration := 5000000000
def defaultSyncRetryFactor : ℤ := 2

/-- a duration of the backoff, or its default if the text is empty -/
def durationOr (default : Duration) (text : String) : Except String Duration :=
  if text = "" then .ok default else parseStringToDuration lib text

def RetryStrategy.nextRetryAt (r : RetryStrategy) (lastAttempt : Time) (retryCounts : ℤ) :
    Except String Time := do
  let duration ← durationOr lib defaultSyncRetryDuration ((r.backoff.map Backoff.duration).getD "")
  let maxDuration ← durationOr lib defaultSyncRetryMaxDuration ((r.backoff.map Backoff.maxDuration).getD "")
  let factor := (r.backoff.bind Backoff.factor).getD defaultSyncRetryFactor
  let timeToWait := lib.scaled duration factor retryCounts
  .ok (lastAttempt + if maxDuration > 0 then min maxDuration timeToWait else timeToWait)

/-! ## Calls -/

/-- where other clients may write during the pass -/
inductive Point where
  | afterRead
  | duringSync
  | beforeGet
  | beforePatch
  deriving DecidableEq, Repr

inductive CompareWith where
  | latest
  | latestForceResolve
  deriving DecidableEq, Repr

inductive Event where
  /-- another client sets the stored phase to Terminating -/
  | terminationRequested (p : Point)
  /-- a merge patch of the operation state, and whether it was stored before the retries ran out -/
  | patched (st : OperationState) (clearFinishedAt clearOperation stored : Bool)
  | requestRefresh (compareWith : CompareWith)
  | requeue (after : Duration)
  deriving DecidableEq, Repr

/-- how `SyncAppState` leaves the operation; it changes nothing else of the state -/
inductive SyncOutcome where
  | returned (phase : Option OperationPhase) (message : String) (syncResult : Option SyncOperationResult)
  | panicked (text : String)

structure Env where
  lib : TimeLib
  syncTimeout : Duration
  /-- the clock at the start, after the sync and at the end -/
  now : Time
  later : Time
  last : Time
  requests : Point → Bool
  getAppProj : Except String Unit
  outcome : SyncOutcome
  getFresh : Except String Unit
  firstStored : Bool
  finalStored : Bool

/-! ## The pass -/

/-- what has happened so far, and the phase of the operation state in the cluster, if there is one -/
structure Progress where
  events : List Event
  stored : Option (Option OperationPhase)

def Progress.add (e : Event) : Progress := { p with events := p.events ++ [e] }

/-- other clients write; without an operation state there is nothing to terminate -/
def interfere (point : Point) (p : Progress) : Progress :=
  if env.requests point && p.stored.isSome then ⟨p.events ++ [.terminationRequested point], some (some .terminating)⟩
  else p

/-- the patch of `setOperationState` for a state with a phase; an unchanged state is not patched -/
def patchState (now : Time) (stored : Bool) (st : OperationState) (p : Progress) : Progress :=
  let st := if st.completed then { st with finishedAt := some now } else st
  if app.operationState = some st then p
  else
    let clearFinishedAt := (app.operationState.bind OperationState.finishedAt).isSome && st.finishedAt.isNone
    ⟨p.events ++ [.patched st clearFinishedAt st.completed stored], if stored then some st.phase else p.stored⟩

inductive Start where
  /-- go on with the state -/
  | resume (st : OperationState) (terminatingCause : String)
  /-- return, with the state and the requeue interval -/
  | leave (st : OperationState) (requeueAfter : Duration)
  | panic (st : OperationState) (text : String)

def appOperationMaxRequeueInterval : Duration := 30 * second

def timedOut : Bool :=
  env.syncTimeout ≠ 0 && st.startedAt + env.syncTimeout < env.now

def nilPointer : String := "runtime error: invalid memory address or nil pointer dereference"

/-- the state a due retry starts with -/
def retryState : OperationState :=
  let refresh := st.operation.retry.refresh
  let sync := if refresh then st.operation.sync.map fun op => { op with revision := "", revisions := [] }
    else st.operation.sync
  let extraMsg := if refresh then " with latest revisions" else ""
  { st with
    operation := { st.operation with sync := sync }
    message := "Retrying operation" ++ extraMsg ++ ". Attempt #" ++ formatInt st.retryCount
    finishedAt := none
    syncResult := none }

/-- the revisions to forget are written without a check that the operation is a sync -/
def retryPanics : Bool := st.operation.retry.refresh && st.operation.sync.isNone

/-- an operation in progress is resumed, terminated, or retried -/
def resumeOperation : Start × Progress :=
  if st.phase = some .terminating then (.resume st "", p)
  else if timedOut env st then
    let st := { st with phase := some .terminating, message := "operation is terminating due to timeout" }
    (.resume st "controller sync timeout", patchState app env.now env.firstStored st p)
  else
    match st.phase, st.finishedAt with
    | some .running, some finishedAt =>
      match st.operation.retry.nextRetryAt env.lib finishedAt st.retryCount with
      | .error err =>
        let st := { st with phase := some .error, message := err }
        (.leave st appOperationMaxRequeueInterval, patchState app env.now env.firstStored st p)
      | .ok retryAt =>
        if env.now < retryAt then (.leave st (retryAt - env.now), p)
        else if retryPanics st then (.panic st nilPointer, p)
        else (.resume (retryState st) "", patchState app env.now env.firstStored (retryState st) p)
    | _, _ => (.resume st "", p)

def startOperation : Start × Progress :=
  match app.operationState with
  | some st =>
    if st.completed then
      let st := newOperationState app.operation env.now
      (.resume st "", patchState app env.now env.firstStored st p)
    else resumeOperation env app st p
  | none =>
    let st := newOperationState app.operation env.now
    (.resume st "", patchState app env.now env.firstStored st p)

/-- the state after `SyncAppState`, or the text of a panic -/
def syncState : Except String OperationState :=
  match env.getAppProj with
  | .error err => .ok { st with phase := some .error, message := "Failed to load application project: " ++ err }
  | .ok () =>
    match env.outcome with
    | .returned phase message syncResult => .ok { st with phase := phase, message := message, syncResult := syncResult }
    | .panicked text => .error text

def canRetry : Bool :=
  st.retryCount < st.operation.retry.limit || st.operation.retry.limit < 0

/-- a failed operation is retried, unless it was terminating -/
def retryOrFail (terminating : Bool) (terminatingCause : String) (st : OperationState) : OperationState :=
  if !terminating && canRetry st then
    match st.operation.retry.nextRetryAt env.lib env.later st.retryCount with
    | .error err =>
      { st with phase := some .error, message := st.message ++ " (failed to retry: " ++ err ++ ")" }
    | .ok retryAt =>
      { st with
        phase := some .running
        finishedAt := some env.later
        retryCount := st.retryCount + 1
        message := st.message ++ ". Retrying attempt #" ++ formatInt (st.retryCount + 1) ++ " at " ++
          env.lib.kitchen retryAt ++ "." }
  else
    let message := if terminating && terminatingCause ≠ "" then st.message ++ ", triggered by " ++ terminatingCause
      else st.message
    let retried := " (retried " ++ formatInt st.retryCount ++ " times)."
    { st with message := if st.retryCount > 0 then message ++ retried else message }

/-- the switch over the phase after the sync; a running operation may have been terminated in the meantime -/
def settleState (terminating : Bool) (cause : String) (st : OperationState) (p : Progress) :
    OperationState × Progress :=
  match st.phase with
  | some .running =>
    let p := interfere env .beforeGet p
    if env.getFresh = .ok () ∧ p.stored = some (some .terminating) then
      ({ st with phase := some .terminating, message := "operation is terminating" }, p)
    else (st, p)
  | some .failed => (retryOrFail env terminating cause st, p)
  | some .error => (retryOrFail env terminating cause st, p)
  | _ => (st, p)

/-- the deferred call that puts the application back into the queue -/
def requeue (requeueAfter : Duration) (p : Progress) : Progress :=
  let remaining := st.startedAt + env.syncTimeout - env.last
  p.add (.requeue (if env.syncTimeout > 0 ∧ st.phase ≠ some .terminating ∧ remaining < requeueAfter then remaining
    else requeueAfter))

/-- a panic fails the operation -/
def recoverPanic (text : String) (p : Progress) : Progress :=
  patchState app env.last env.finalStored { st with phase := some .error, message := text }
    (requeue env st appOperationMaxRequeueInterval p)

def requestRefresh : Progress :=
  if st.completed ∧ ∃ op ∈ app.operation.sync, op.dryRun = false then
    p.add (.requestRefresh (if st.operation.automated then .latest else .latestForceResolve))
  else p

def finishOperation : Progress :=
  if st.phase = none then recoverPanic env app st "no phase was set" p
  else
    let p := patchState app env.last env.finalStored st p
    requeue env st appOperationMaxRequeueInterval (requestRefresh app st p)

/-- the part of the pass after `SyncAppState` -/
def syncAndFinish (cause : String) (p : Progress) : Progress :=
  let terminating := st.phase = some .terminating
  match syncState env st with
  | .error text => recoverPanic env app st text p
  | .ok st =>
    let r := settleState env terminating cause st p
    finishOperation env app r.1 (interfere env .beforePatch r.2)

def processRequestedAppOperation : Progress :=
  let p := interfere env .afterRead ⟨[], app.operationState.map OperationState.phase⟩
  match startOperation env app p with
  | (.leave st requeueAfter, p) => requeue env st requeueAfter p
  | (.panic st text, p) => recoverPanic env app st text p
  | (.resume st cause, p) => syncAndFinish env app st cause (interfere env .duringSync p)

end GitOpsDeploy.OperationQueue

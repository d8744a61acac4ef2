/-
The repository lock of the repo server (`repositoryLock` in `reposerver/repository/lock.go`).

A state for each path is guarded by the mutex of its condition variable. The free state is written as the empty revision, all
holders share one counter and one closer, and `Lock` tries again when it is woken up.

The steps are the critical sections. `init` runs inside one of them for as long as it likes, so it has a first and a
last step, with the mutex taken in between (`busy`); other threads run meanwhile, but not in a critical section of the
path.
- `holding`, `initializing`, `waiting`: where a call of `Lock` is. A thread that calls `Lock` while it holds a lock has
  two calls.
- Closers that an `init` returned are numbered; `closed` counts how often each was closed.
-/
import GitOpsDeploy.Core.Trace

namespace GitOpsDeploy.RepoServer

/-- the arguments of `Lock` -/
structure LockCall where
  path : String
  revision : String
  allowConcurrent : Bool
  deriving DecidableEq

/-- what `init` returns; it may return a closer with its error -/
inductive InitResult where
  | ok
  | failed (closer : Bool)

/-- where a call is -/
inductive CallState where
  /-- not made, or closed, or refused -/
  | idle
  /-- at the head of the loop -/
  | locking (c : LockCall)
  /-- in `init`, with its argument -/
  | initializing (c : LockCall) (clean : Bool)
  /-- in `cond.Wait` -/
  | waiting (c : LockCall)
  /-- returned, with the closer of the `init` it holds by -/
  | holding (c : LockCall) (closer : ℕ)
  /-- in the closer, between the unlock and the broadcast -/
  | notifying (path : String)
  deriving DecidableEq

structure RepositoryState (T : Type) where
  revision : String
  initCloser : Option ℕ
  processCount : ℤ
  allowConcurrent : Bool
  /-- the call that has the mutex, when `init` runs -/
  busy : Option T

/-- the state that `Lock` makes for a new path -/
def RepositoryState.new (T : Type) : RepositoryState T := ⟨"", none, 0, false, none⟩

structure LockState (T : Type) where
  stateByKey : String → RepositoryState T
  call : T → CallState
  /-- the closers that were returned by `init` so far -/
  returned : ℕ
  closed : ℕ → ℕ
  /-- for whom the last successful `init` of a path was: for a concurrent holder or not -/
  lastInit : String → Option Bool

def LockState.initial (T : Type) : LockState T := ⟨fun _ => .new T, fun _ => .idle, 0, fun _ => 0, fun _ => none⟩

variable {T : Type} [DecidableEq T]

inductive LockStep (T : Type) where
  | call (t : T) (c : LockCall)
  /-- the loop takes the mutex -/
  | enter (t : T)
  | initReturns (t : T) (result : InitResult)
  /-- the critical section of the closer -/
  | close (t : T)
  | broadcast (t : T)

namespace LockState

def setCall (s : LockState T) (t : T) (x : CallState) : LockState T := { s with call := Function.update s.call t x }

def setState (s : LockState T) (path : String) (r : RepositoryState T) : LockState T :=
  { s with stateByKey := Function.update s.stateByKey path r }

theorem call_setCall (s : LockState T) (t t' : T) (x : CallState) :
    (s.setCall t x).call t' = if t' = t then x else s.call t' := Function.update_apply ..

/-- one turn of the loop of `Lock`, up to `init` -/
def enter (s : LockState T) (t : T) (c : LockCall) : LockState T :=
  let state := s.stateByKey c.path
  if state.busy.isSome then s
  else if state.revision = "" then
    (s.setState c.path { state with busy := some t }).setCall t (.initializing c (!state.allowConcurrent))
  else if state.revision = c.revision ∧ state.allowConcurrent ∧ c.allowConcurrent then
    (s.setState c.path { state with processCount := state.processCount + 1 }).setCall t
      (.holding c (state.initCloser.getD 0))
  else s.setCall t (.waiting c)

/-- the rest of the turn, after `init` -/
def initReturns (s : LockState T) (t : T) (c : LockCall) : InitResult → LockState T
  | .ok =>
    { (s.setState c.path ⟨c.revision, some s.returned, 1, c.allowConcurrent, none⟩).setCall t
      (.holding c s.returned) with
      returned := s.returned + 1
      lastInit := Function.update s.lastInit c.path (some c.allowConcurrent) }
  | .failed closer =>
    { (s.setState c.path { s.stateByKey c.path with busy := none }).setCall t .idle with
      returned := if closer then s.returned + 1 else s.returned }

def closeInit (s : LockState T) : Option ℕ → LockState T
  | some n => { s with closed := Function.update s.closed n (s.closed n + 1) }
  | none => s

/-- the closer that `Lock` returns -/
def close (s : LockState T) (t : T) (c : LockCall) : LockState T :=
  let state := s.stateByKey c.path
  if state.busy.isSome then s
  else if state.processCount - 1 = 0 then
    ((s.setState c.path { state with processCount := 0, revision := "" }).closeInit state.initCloser).setCall t
      (.notifying c.path)
  else (s.setState c.path { state with processCount := state.processCount - 1 }).setCall t .idle

def wake (path : String) : CallState → CallState
  | .waiting c => if c.path = path then .locking c else .waiting c
  | x => x

def broadcast (s : LockState T) (t : T) (path : String) : LockState T :=
  ({ s with call := fun t' => wake path (s.call t') }).setCall t .idle

/-- a step that is not enabled changes nothing -/
def step (a : LockStep T) (s : LockState T) : LockState T :=
  match a with
  | .call t c => match s.call t with
    | .idle => s.setCall t (.locking c)
    | _ => s
  | .enter t => match s.call t with
    | .locking c => s.enter t c
    | _ => s
  | .initReturns t result => match s.call t with
    | .initializing c _ => s.initReturns t c result
    | _ => s
  | .close t => match s.call t with
    | .holding c _ => s.close t c
    | _ => s
  | .broadcast t => match s.call t with
    | .notifying path => s.broadcast t path
    | _ => s

/-! ## What a step does -/

/-- the critical sections; a step that is not enabled is none of them -/
inductive Section (s : LockState T) : LockStep T → LockState T → Prop
  | skip {a} : Section s a s
  | call {t c} (ht : s.call t = .idle) : Section s (.call t c) (s.setCall t (.locking c))
  | start {t c} (ht : s.call t = .locking c) (hb : (s.stateByKey c.path).busy = none)
      (hf : (s.stateByKey c.path).revision = "") : Section s (.enter t)
        ((s.setState c.path { s.stateByKey c.path with busy := some t }).setCall t
          (.initializing c (!(s.stateByKey c.path).allowConcurrent)))
  | join {t c} (ht : s.call t = .locking c) (hf : (s.stateByKey c.path).revision ≠ "")
      (hs : (s.stateByKey c.path).revision = c.revision ∧ (s.stateByKey c.path).allowConcurrent ∧ c.allowConcurrent) :
      Section s (.enter t) ((s.setState c.path
        { s.stateByKey c.path with processCount := (s.stateByKey c.path).processCount + 1 }).setCall t
          (.holding c ((s.stateByKey c.path).initCloser.getD 0)))
  | wait {t c} (ht : s.call t = .locking c) (hf : (s.stateByKey c.path).revision ≠ "")
      (hs : ¬ ((s.stateByKey c.path).revision = c.revision ∧ (s.stateByKey c.path).allowConcurrent ∧
        c.allowConcurrent)) :
      Section s (.enter t) (s.setCall t (.waiting c))
  | initOk {t c clean} (ht : s.call t = .initializing c clean) :
      Section s (.initReturns t .ok) (s.initReturns t c .ok)
  | initFailed {t c clean closer} (ht : s.call t = .initializing c clean) :
      Section s (.initReturns t (.failed closer)) (s.initReturns t c (.failed closer))
  | closeLast {t c n} (ht : s.call t = .holding c n) (hl : (s.stateByKey c.path).processCount - 1 = 0) :
      Section s (.close t) (((s.setState c.path { s.stateByKey c.path with processCount := 0, revision := "" }).closeInit
        (s.stateByKey c.path).initCloser).setCall t (.notifying c.path))
  | closeMore {t c n} (ht : s.call t = .holding c n) (hl : (s.stateByKey c.path).processCount - 1 ≠ 0) :
      Section s (.close t) ((s.setState c.path
        { s.stateByKey c.path with processCount := (s.stateByKey c.path).processCount - 1 }).setCall t .idle)
  | broadcast {t path} (ht : s.call t = .notifying path) : Section s (.broadcast t) (s.broadcast t path)

theorem step_section (a : LockStep T) (s : LockState T) : s.Section a (step a s) := by
  cases a with
  | call t c =>
    dsimp only [step]
    split
    · next ht => exact .call ht
    · exact .skip
  | enter t =>
    dsimp only [step]
    split
    · next c ht =>
      dsimp only [enter]
      split_ifs with hb hf hs
      · exact .skip
      · exact .start ht (by simpa using hb) hf
      · exact .join ht hf hs
      · exact .wait ht hf hs
    · exact .skip
  | initReturns t result =>
    dsimp only [step]
    split
    · next c clean ht =>
      cases result with
      | ok => exact .initOk ht
      | failed closer => exact .initFailed ht
    · exact .skip
  | close t =>
    dsimp only [step]
    split
    · next c n ht =>
      dsimp only [close]
      split_ifs with hb hl
      · exact .skip
      · exact .closeLast ht hl
      · exact .closeMore ht hl
    · exact .skip
  | broadcast t =>
    dsimp only [step]
    split
    · next path ht => exact .broadcast ht
    · exact .skip

variable {s s' : LockState T} {t : T} {x : CallState} {path : String} {r : RepositoryState T}

/-- one call moves, and one path changes -/
structure Moves (s s' : LockState T) (t : T) (x : CallState) (path : String) (r : RepositoryState T) : Prop where
  call : s'.call = Function.update s.call t x
  state : s'.stateByKey = Function.update s.stateByKey path r

theorem Moves.call_apply (h : s.Moves s' t x path r) (t' : T) : s'.call t' = if t' = t then x else s.call t' := by
  rw [h.call, Function.update_apply]

theorem Moves.here (h : s.Moves s' t x path r) : s'.stateByKey path = r := by
  rw [h.state, Function.update_self]

theorem moves_closeInit (n : Option ℕ) : s.Moves (((s.setState path r).closeInit n).setCall t x) t x path r := by
  cases n <;> exact ⟨rfl, rfl⟩

end LockState

end GitOpsDeploy.RepoServer

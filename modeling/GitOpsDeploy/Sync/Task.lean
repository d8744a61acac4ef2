/-
Sync tasks (`gitops-engine/pkg/sync/sync_task.go`).

A task is a pointer: its fields are read and written through every list that holds it. The fields that stay as they are once
the tasks of a call have been generated are the record `SyncTask`; the others (the live object, which may be read again,
and the result) are its `TaskState`, found in the state of the call under the task's `ptr`.

"At least one of targetObj and liveObj should be non-nil": a task either creates its target or prunes a live object, its
`Subject`. So `obj()` never reads a live object that may be replaced later.
-/
import GitOpsDeploy.Sync.Object

namespace GitOpsDeploy.Sync

inductive OperationPhase where
  | running
  | terminating
  | failed
  | error
  | succeeded
  deriving DecidableEq, Repr

def OperationPhase.completed : OperationPhase → Bool
  | .failed | .error | .succeeded => true
  | .running | .terminating => false

inductive ResultCode where
  | synced
  | syncFailed
  | pruned
  | pruneSkipped
  deriving DecidableEq, Repr

/-- `operationPhases` -/
def ResultCode.operationPhase : ResultCode → OperationPhase
  | .synced => .running
  | .syncFailed => .failed
  | .pruned => .succeeded
  | .pruneSkipped => .succeeded

/-- where a live object came from: tasks with equal pointers share it -/
inductive Pointer where
  /-- the live object of the managed resource with this key -/
  | managed (key : ResourceKey)
  /-- the n-th call of this sync read it -/
  | read (n : ℕ)
  deriving DecidableEq, Repr

/-- a live object; its finalizers are changed in place and kept in the state under `ptr` -/
structure LiveObj where
  obj : Obj
  ptr : Pointer
  deriving DecidableEq, Repr

inductive Subject where
  /-- a target to be applied -/
  | create (target : Obj)
  /-- a live object without target -/
  | prune (live : Obj)
  deriving DecidableEq, Repr

structure SyncTask where
  ptr : ℕ
  phase : SyncPhase
  subject : Subject
  skipDryRun : Bool
  waveOverride : Option ℤ
  deriving DecidableEq, Repr

/-- the fields that change after the tasks are generated; an empty text is `none` -/
structure TaskState where
  liveObj : Option LiveObj
  syncStatus : Option ResultCode
  operationState : Option OperationPhase
  message : String
  deriving DecidableEq, Repr

variable (t : SyncTask)

namespace SyncTask

def obj : Obj :=
  match t.subject with
  | .create target => target
  | .prune live => live

def targetObj : Option Obj :=
  match t.subject with
  | .create target => some target
  | .prune _ => none

def isPrune : Bool := t.targetObj.isNone

def isHook : Bool := Sync.isHook t.obj

def wave : ℤ := t.waveOverride.getD (objWave t.obj)

def hookType : Option SyncPhase := if t.isHook then some t.phase else none

def hasHookDeletePolicy (policy : HookDeletePolicy) : Bool :=
  t.isHook && (deletePolicies t.obj).contains policy

end SyncTask

/-- `resourceResultKey` -/
def resourceResultKey (key : ResourceKey) (phase : SyncPhase) : String := key.text ++ ":" ++ phase.text

def SyncTask.resultKey : String := resourceResultKey t.obj.key t.phase

namespace TaskState

variable (s : TaskState)

def pending : Bool := s.operationState = none

def running : Bool := s.operationState = some .running

def completed : Bool := (s.operationState.map OperationPhase.completed).getD false

def successful : Bool := s.operationState = some .succeeded

def pruned : Bool := s.syncStatus = some .pruned

end TaskState

/-- the texts of the phases end differently, so equal result keys have equal phases -/
theorem resourceResultKey_phase {k k' : ResourceKey} {p p' : SyncPhase}
    (h : resourceResultKey k p = resourceResultKey k' p') : p = p' := by
  have hr : (p.text.toList.reverse ++ ':' :: k.text.toList.reverse) =
      (p'.text.toList.reverse ++ ':' :: k'.text.toList.reverse) := by
    have := congrArg (fun s => s.toList.reverse) h
    simpa [resourceResultKey] using this
  cases p <;> cases p' <;> first | rfl | (simp [SyncPhase.text] at hr)

end GitOpsDeploy.Sync

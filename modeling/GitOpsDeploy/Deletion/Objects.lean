/-
Applications that are being deleted, and their live objects (`pkg/apis/application/v1alpha1/types.go`,
`controller/appcontroller.go`, `controller/sort_delete.go`, `controller/hook.go`).

- finalizers: the propagation policy finalizers make a deletion cascade, the pre-delete and post-delete finalizers hold
  it back for hooks and for their cleanup.
- `shouldBeDeleted` and `filterObjectsForDeletion` choose what a cascading deletion deletes next.
-/
import Mathlib.Data.List.TakeWhile
import GitOpsDeploy.Sync.State

namespace GitOpsDeploy.Deletion

open List

open Sync (Obj objWave isCRD)

variable (finalizers : List String) (name : String) (app : App) (t : HookType) (stage : List String) (m : Managed)

/-- a live object of the application -/
structure Managed extends Obj where
  uid : String
  deriving DecidableEq, Repr

def Managed.wave : ℤ := objWave m.toObj

structure ResourceStatus where
  key : ResourceKey
  requiresDeletionConfirmation : Bool

/-- the fields of an application that its deletion reads -/
structure App where
  uid : String
  name : String
  ns : String
  finalizers : List String
  deletionTimestamp : Option ℤ
  /-- the instant in the annotation that approves the deletion, none where it is missing or no instant -/
  deletionApprovedAt : Option ℤ
  destinationNamespace : String
  /-- the options of the sync policy, empty without a policy -/
  syncOptions : List String
  resources : List ResourceStatus

/-! ## Finalizers -/

def resourcesFinalizerName : String := "resources-finalizer.apps.hanzo.ai"
def foregroundPropagationPolicyFinalizer : String := "resources-finalizer.apps.hanzo.ai/foreground"
def backgroundPropagationPolicyFinalizer : String := "resources-finalizer.apps.hanzo.ai/background"

inductive HookType where
  | preDelete
  | postDelete
  deriving DecidableEq, Repr

def HookType.text : HookType → String
  | .preDelete => "PreDelete"
  | .postDelete => "PostDelete"

/-- the finalizer of the hooks, or of the given stage of them -/
def HookType.finalizerName : String :=
  "/".intercalate ((match t with
    | .preDelete => "pre-delete-finalizer.apps.hanzo.ai"
    | .postDelete => "post-delete-finalizer.apps.hanzo.ai") :: stage)

def isPropagationPolicyFinalizer (finalizer : String) : Bool :=
  finalizer = resourcesFinalizerName || finalizer = foregroundPropagationPolicyFinalizer ||
    finalizer = backgroundPropagationPolicyFinalizer

/-- `setFinalizer`: a removed one is overwritten with the last -/
def setFinalizer (exist : Bool) : List String :=
  if exist ≠ decide (name ∈ finalizers) then
    if name ∈ finalizers then Slices.swapRemove finalizers (finalizers.idxOf name) else finalizers ++ [name]
  else finalizers

namespace App

def hasHookFinalizer : Bool := t.finalizerName stage ∈ app.finalizers

def setHookFinalizer (exist : Bool) : App :=
  { app with finalizers := setFinalizer app.finalizers (t.finalizerName stage) exist }

/-- `UnSetPreDeleteFinalizerAll`, `UnSetPostDeleteFinalizerAll` -/
def unsetHookFinalizerAll : App :=
  let isOfType := fun f : String => (t.finalizerName []).toList.isPrefixOf f.toList
  { app with finalizers := Slices.rangeRemove isOfType app.finalizers }

def cascadedDeletion : Bool := app.finalizers.any isPropagationPolicyFinalizer

def unsetCascadedDeletion : App :=
  { app with finalizers := Slices.rangeRemove isPropagationPolicyFinalizer app.finalizers }

def getPropagationPolicy : String := (app.finalizers.find? isPropagationPolicyFinalizer).getD ""

def isDeletionConfirmed (since : ℤ) : Bool := decide (∃ t ∈ app.deletionApprovedAt, since ≤ t)

/-- what goes is gone, and everything else is there as often as before -/
structure Drops (target : String → Bool) (before after : List String) : Prop where
  complete : ∀ f ∈ after, target f = false
  keeps : ∀ f, target f = false → after.count f = before.count f

theorem drops_rangeRemove (target : String → Bool) :
    Drops target finalizers (Slices.rangeRemove target finalizers) where
  complete _ hf := Slices.not_of_mem_rangeRemove hf
  keeps f hf := by rw [(Slices.rangeRemove_perm target finalizers).count_eq, count_filter (by simp [hf])]

/-- **Removing finalizers while ranging over them is complete.** -/
theorem unset_finalizers_complete :
    Drops (fun f => (t.finalizerName []).toList.isPrefixOf f.toList) app.finalizers
      (app.unsetHookFinalizerAll t).finalizers ∧
    Drops isPropagationPolicyFinalizer app.finalizers app.unsetCascadedDeletion.finalizers :=
  ⟨drops_rangeRemove _ _, drops_rangeRemove _ _⟩

def findResource (key : ResourceKey) : Option ResourceStatus := app.resources.find? fun r => r.key = key

/-- `SyncOptions.GetOptionValue` -/
def optionValue (optionKey : String) : Option String := app.syncOptions.findSome? (Sync.cutStart (optionKey ++ "="))

end App

/-! ## What is deleted -/

def isSelfReferencedApp : Bool :=
  decide (m.uid = app.uid ∧ m.name = app.name ∧ m.ns = app.ns ∧ m.group = "apps.hanzo.ai" ∧ m.kind = "Application")

/-- the option Delete of the object, or of the application -/
def deleteOption : Option String :=
  (Sync.getAnnotationOptionValue m.toObj Sync.annotationSyncOptions "Delete").or (app.optionValue "Delete")

/-- kept by the policy of Helm -/
def isKept : Bool := Sync.hasAnnotationOption m.toObj "helm.sh/resource-policy" "keep"

def shouldBeDeleted : Bool :=
  !isCRD m.toObj && !isSelfReferencedApp app m && decide (deleteOption app m ≠ some "false") && !isKept m

/-- `sort.Sort(sort.Reverse(syncWaveSorter(objs)))`, which leaves the order within a wave open -/
structure WaveSort where
  sort : List Managed → List Managed
  perm : ∀ l, (sort l).Perm l
  sorted : ∀ l, (sort l).Pairwise fun a b => b.wave ≤ a.wave

/-- the objects of the greatest wave -/
def filterObjectsForDeletion (s : WaveSort) (objs : List Managed) : List Managed :=
  if objs.length ≤ 1 then objs
  else
    match s.sort objs with
    | [] => []
    | first :: later => (first :: later).takeWhile fun m => m.wave = first.wave

/-! ## Delete hooks -/

/-- the annotations that mark a hook of a type, with their value -/
def hookTypeAnnotations : HookType → List (String × String)
  | .preDelete => [(Sync.annotationKeyHook, "PreDelete"), ("helm.sh/hook", "pre-delete")]
  | .postDelete => [(Sync.annotationKeyHook, "PostDelete"), ("helm.sh/hook", "post-delete")]

def isHookOfType (o : Obj) (t : HookType) : Bool :=
  (hookTypeAnnotations t).any fun annotation =>
    match o.annotationValue annotation.1 with
    | none => false
    | some value => (Sync.splitComma value.toList).any fun item => String.ofList (Decimal.trimSpace item) = annotation.2

/-! ## Lemmas -/

theorem mem_filterObjectsForDeletion {s : WaveSort} {objs : List Managed} {m : Managed}
    (h : m ∈ filterObjectsForDeletion s objs) : m ∈ objs ∧ ∀ o ∈ objs, o.wave ≤ m.wave := by
  unfold filterObjectsForDeletion at h
  split_ifs at h with hl
  · match objs, hl with
    | [], _ => cases h
    | [o], _ =>
      obtain rfl := mem_singleton.mp h
      exact ⟨h, fun o ho => by rw [mem_singleton.mp ho]⟩
  · have hp := s.perm objs
    have hso := s.sorted objs
    cases hs : s.sort objs with
    | nil =>
      rw [hs] at h
      cases h
    | cons first later =>
      rw [hs] at h hp hso
      have ht : m ∈ (first :: later).takeWhile fun o => decide (o.wave = first.wave) := h
      have hw : m.wave = first.wave := by simpa using mem_takeWhile_imp ht
      refine ⟨hp.mem_iff.mp (takeWhile_subset _ ht), fun o ho => ?_⟩
      rw [hw]
      rcases mem_cons.mp (hp.mem_iff.mpr ho) with rfl | ho
      · exact le_rfl
      · exact (pairwise_cons.mp hso).1 o ho

theorem setFinalizer_false : setFinalizer finalizers name false = finalizers ∧ name ∉ finalizers ∨
      (name :: setFinalizer finalizers name false).Perm finalizers := by
  by_cases h : name ∈ finalizers
  · have hk : finalizers.idxOf name < finalizers.length := idxOf_lt_length_iff.mpr h
    have hp := Slices.swapRemove_perm finalizers _ hk
    rw [getElem_idxOf hk] at hp
    simp only [setFinalizer, h, decide_true, ne_eq, Bool.false_eq_true, not_false_eq_true, if_true]
    exact .inr hp
  · exact .inl ⟨by simp [setFinalizer, h], h⟩

theorem setHookFinalizer_subset : (app.setHookFinalizer t stage false).finalizers ⊆ app.finalizers := by
  intro f hf
  rcases setFinalizer_false app.finalizers (t.finalizerName stage) with ⟨h, _⟩ | h
  · change f ∈ setFinalizer app.finalizers (t.finalizerName stage) false at hf
    rwa [h] at hf
  · exact h.subset (mem_cons_of_mem _ hf)

theorem mem_setFinalizer_ne {finalizers : List String} {name other : String} (hne : other ≠ name) (exist : Bool) :
    other ∈ setFinalizer finalizers name exist ↔ other ∈ finalizers := by
  cases exist with
  | true =>
    unfold setFinalizer
    split_ifs with h hm
    · exact absurd hm (by simpa using h)
    · simp [hne]
    · rfl
  | false =>
    rcases setFinalizer_false finalizers name with ⟨h, _⟩ | h
    · rw [h]
    · rw [← h.mem_iff, mem_cons]
      simp [hne]

theorem mem_setFinalizer_true : name ∈ setFinalizer finalizers name true := by
  unfold setFinalizer
  by_cases h : name ∈ finalizers
  · simp [h]
  · simp [h]

end GitOpsDeploy.Deletion

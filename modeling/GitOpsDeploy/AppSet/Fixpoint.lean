/-
What the generated metadata of an application settles to (the mutation of `createOrUpdateInCluster` in
`applicationset/controllers/applicationset_controller.go`).

- `lookup_preserve`: the map after the preserved keys were copied.
- `setControllerReference_again`: a reference that could be set can be set again.
- `mutate_fixpoint_iff`: mutating once more changes nothing iff the generated application lists no finalizer that is
  preserved; `finalizer_grows`: one that is listed comes once more with each mutation.
-/
import GitOpsDeploy.AppSet.FailSafe

namespace GitOpsDeploy.AppSet.Reconciler

open List

variable {Spec Operation : Type}

/-! ## Preserved fields -/

theorem lookup_preserve (keys : List String) (live desired : StringMap) (k : String) :
    (preserve keys live desired).lookup k =
      if k ∈ keys then (live.lookup k).or (desired.lookup k) else desired.lookup k := by
  unfold preserve
  induction keys generalizing desired with
  | nil => rfl
  | cons key keys ih =>
    rw [foldl_cons, ih]
    by_cases hk : k = key
    · subst hk
      cases live.lookup k <;> simp
    · cases live.lookup key <;> simp [hk]

def isPreservedFinalizer (f : String) : Bool :=
  defaultPreservedFinalizers.any fun finalizer => finalizer.toList.isPrefixOf f.toList

/-- the finalizers that are copied, those before a deletion first -/
def preservedFinalizers (finalizers : List String) : List String :=
  defaultPreservedFinalizers.flatMap fun finalizer => finalizers.filter fun f => finalizer.toList.isPrefixOf f.toList

/-- no finalizer is of both kinds -/
theorem preservedFinalizers_idem (l : List String) :
    preservedFinalizers (preservedFinalizers l) = preservedFinalizers l := by
  have hne : ∀ f : String, ("pre-delete-finalizer.apps.hanzo.ai".toList.isPrefixOf f.toList &&
      "post-delete-finalizer.apps.hanzo.ai".toList.isPrefixOf f.toList) = false := by
    intro f
    rw [← Bool.not_eq_true, Bool.and_eq_true, isPrefixOf_iff_prefix, isPrefixOf_iff_prefix]
    rintro ⟨h, h'⟩
    have hp := prefix_or_prefix_of_prefix h h'
    exact absurd hp (by decide)
  have hne' := fun f => (Bool.and_comm _ _).trans (hne f)
  simp only [preservedFinalizers, defaultPreservedFinalizers, flatMap_cons, flatMap_nil, append_nil, filter_append,
    filter_filter, hne, hne', Bool.and_self, filter_false, nil_append]

theorem mem_preservedFinalizers {f : String} {l : List String} :
    f ∈ preservedFinalizers l ↔ f ∈ l ∧ isPreservedFinalizer f = true := by
  simp [preservedFinalizers, isPreservedFinalizer, defaultPreservedFinalizers]
  tauto

theorem preservedFinalizers_eq_nil_iff {l : List String} :
    preservedFinalizers l = [] ↔ ∀ f ∈ l, isPreservedFinalizer f = false := by
  simp [eq_nil_iff_forall_not_mem, mem_preservedFinalizers]

theorem preservedFinalizers_append (l l' : List String) : preservedFinalizers (l ++ preservedFinalizers l') =
    preservedFinalizers l' ↔ ∀ f ∈ l, isPreservedFinalizer f = false := by
  rw [← preservedFinalizers_eq_nil_iff]
  have hi := preservedFinalizers_idem l'
  generalize preservedFinalizers l' = m at hi ⊢
  simp only [preservedFinalizers, defaultPreservedFinalizers, flatMap_cons, flatMap_nil, append_nil, filter_append] at hi ⊢
  constructor
  · intro h
    have hl := congrArg length h
    have hl' := congrArg length hi
    simp only [length_append] at hl hl'
    exact append_eq_nil_iff.2 ⟨eq_nil_of_length_eq_zero (by omega), eq_nil_of_length_eq_zero (by omega)⟩
  · intro h
    obtain ⟨hp, hq⟩ := append_eq_nil_iff.1 h
    rw [hp, hq, nil_append, nil_append, hi]

/-! ## The controller reference -/

theorem upsertOwnerRef_cons (ref r : OwnerReference) (refs : List OwnerReference) : upsertOwnerRef ref (r :: refs) =
    if referSameObject ref r then ref :: refs else r :: upsertOwnerRef ref refs := by
  unfold upsertOwnerRef
  rw [findIdx?_cons]
  split_ifs
  · rfl
  · cases findIdx? (referSameObject ref) refs <;> simp

theorem getControllerOf_upsert {ref : OwnerReference} (hc : ref.controller = true) {refs : List OwnerReference}
    (h : ∀ c, getControllerOf refs = some c → referSameObject c ref = true) :
    ∀ c, getControllerOf (upsertOwnerRef ref refs) = some c → referSameObject c ref = true := by
  have hself : referSameObject ref ref = true := by simp [referSameObject]
  induction refs with
  | nil => simp [upsertOwnerRef, getControllerOf, hc, hself]
  | cons r refs ih =>
    rw [upsertOwnerRef_cons]
    split_ifs
    · simp [getControllerOf, hc, hself]
    · unfold getControllerOf at h ih ⊢
      by_cases hr : r.controller = true
      · simpa [hr] using h
      · simp only [find?_cons, hr] at h ⊢
        exact ih h

theorem setControllerReference_again {appset : ApplicationSet} {refs refs' : List OwnerReference}
    (h : setControllerReference appset refs = .ok refs') : ∃ refs'', setControllerReference appset refs' = .ok refs'' := by
  have hr : refs' = upsertOwnerRef (controllerReference appset) refs ∧
      ∀ c, getControllerOf refs = some c → referSameObject c (controllerReference appset) = true := by
    unfold setControllerReference at h
    grind
  have hs := getControllerOf_upsert rfl hr.2
  rw [← hr.1] at hs
  unfold setControllerReference
  grind

/-! ## The mutation -/

section Fixpoint

variable (config : Config Spec Operation) (appset : ApplicationSet)

def preservedAnnotationKeys : List String :=
  appset.preservedAnnotations ++ config.globalPreservedAnnotations ++ defaultPreservedAnnotations

def preservedLabelKeys : List String := appset.preservedLabels ++ config.globalPreservedLabels

/-- what the mutation makes of the metadata -/
structure Mutated (generated found obj : Application Spec Operation) : Prop where
  annotations : obj.annotations = preserve (preservedAnnotationKeys config appset) found.annotations generated.annotations
  labels : obj.labels = preserve (preservedLabelKeys config appset) found.labels generated.labels
  finalizers : obj.finalizers = generated.finalizers ++ preservedFinalizers found.finalizers
  ownerReferences : setControllerReference appset found.ownerReferences = .ok obj.ownerReferences

theorem mutate_ok {generated found obj : Application Spec Operation} (h : mutate config appset generated found = .ok obj) :
    Mutated config appset generated found obj ∧ obj.ns = generated.ns ∧ obj.name = generated.name := by
  unfold mutate mutateFn at h
  cases hs : setControllerReference appset found.ownerReferences with
  | error e => simp [hs] at h
  | ok refs =>
    simp only [hs] at h
    by_cases hk : found.ns = generated.ns ∧ found.name = generated.name
    · rw [if_pos hk] at h
      cases h
      exact ⟨⟨rfl, rfl, rfl, hs⟩, hk⟩
    · simp [hk] at h

theorem exists_mutate {generated found : Application Spec Operation} {refs : List OwnerReference}
    (hs : setControllerReference appset found.ownerReferences = .ok refs)
    (hk : found.ns = generated.ns ∧ found.name = generated.name) :
    ∃ obj, mutate config appset generated found = .ok obj := by
  unfold mutate mutateFn
  simp only [hs, hk, and_self, ↓reduceIte, Except.ok.injEq, exists_eq']

/-- **Fixpoint.** What is preserved of the application in the cluster survives. Mutating the result again succeeds and leaves
annotations and labels as they are, and leaves the finalizers iff none of the generated ones is preserved. -/
theorem mutate_fixpoint_iff {generated found obj : Application Spec Operation}
    (h : mutate config appset generated found = .ok obj) :
    ((∀ k ∈ preservedAnnotationKeys config appset, ∀ v, found.annotations.lookup k = some v →
        obj.annotations.lookup k = some v) ∧
      (∀ k ∈ preservedLabelKeys config appset, ∀ v, found.labels.lookup k = some v →
        obj.labels.lookup k = some v) ∧
      ∀ f ∈ found.finalizers, isPreservedFinalizer f = true → f ∈ obj.finalizers) ∧
    ∃ again, mutate config appset generated obj = .ok again ∧
      ((∀ k, again.annotations.lookup k = obj.annotations.lookup k) ∧
        (∀ k, again.labels.lookup k = obj.labels.lookup k) ∧ again.finalizers = obj.finalizers ↔
      ∀ f ∈ generated.finalizers, isPreservedFinalizer f = false) := by
  obtain ⟨hm, hk⟩ := mutate_ok config appset h
  obtain ⟨refs, hr⟩ := setControllerReference_again hm.ownerReferences
  obtain ⟨again, ha⟩ := exists_mutate config appset hr hk
  obtain ⟨hm', -⟩ := mutate_ok config appset ha
  refine ⟨⟨fun k hk v hv => ?_, fun k hk v hv => ?_, fun f hf hp => ?_⟩, again, ha, ?_⟩
  · rw [hm.annotations, lookup_preserve, if_pos hk, hv, Option.some_or]
  · rw [hm.labels, lookup_preserve, if_pos hk, hv, Option.some_or]
  · rw [hm.finalizers]
    exact mem_append_right _ (mem_preservedFinalizers.2 ⟨hf, hp⟩)
  · have hl : ∀ (keys : List String) (live desired : StringMap) k,
        (preserve keys (preserve keys live desired) desired).lookup k = (preserve keys live desired).lookup k := by
      intro keys live desired k
      simp only [lookup_preserve]
      split_ifs
      · cases live.lookup k <;> simp
      · rfl
    rw [hm'.annotations, hm'.labels, hm'.finalizers, hm.annotations, hm.labels, hm.finalizers, append_right_inj,
      preservedFinalizers_append]
    exact ⟨fun h => h.2.2, fun h => ⟨hl _ _ _, hl _ _ _, h⟩⟩

/-- a finalizer of the template, and one that is preserved -/
theorem mutate_fixpoint_hooked :
    let generated := guestbook "a" ["resources-finalizer.apps.hanzo.ai"] []
    ∃ obj again, mutate (plainConfig .sync) guestbooks generated
        (guestbook "a" ["post-delete-finalizer.apps.hanzo.ai"] []) = .ok obj ∧
      mutate (plainConfig .sync) guestbooks generated obj = .ok again ∧
      again.finalizers = ["resources-finalizer.apps.hanzo.ai", "post-delete-finalizer.apps.hanzo.ai"] := by
  obtain ⟨-, again, ha, hi⟩ := mutate_fixpoint_iff (plainConfig .sync) guestbooks
    (show mutate _ _ (guestbook "a" ["resources-finalizer.apps.hanzo.ai"] [])
      (guestbook "a" ["post-delete-finalizer.apps.hanzo.ai"] []) = .ok _ from rfl)
  exact ⟨_, again, rfl, ha, (hi.2 (by decide)).2.2.trans (by decide +kernel)⟩

/-- a finalizer of the template is listed once more each time -/
theorem finalizer_grows :
    let generated := guestbook "a" ["pre-delete-finalizer.apps.hanzo.ai"] []
    ∃ obj again, mutate (plainConfig .sync) guestbooks generated (guestbook "a" [] []) = .ok obj ∧
      mutate (plainConfig .sync) guestbooks generated obj = .ok again ∧
      obj.finalizers = ["pre-delete-finalizer.apps.hanzo.ai"] ∧
      again.finalizers = ["pre-delete-finalizer.apps.hanzo.ai", "pre-delete-finalizer.apps.hanzo.ai"] := by
  refine ⟨_, _, rfl, rfl, rfl, ?_⟩
  decide +kernel

end Fixpoint

end GitOpsDeploy.AppSet.Reconciler

/-
Deletions of an ApplicationSet are fail-safe.

What a reconcile of an ApplicationSet that is not being deleted may do to applications, whatever the generators, the
renderer and the API server answer:
- an application is created or updated only if it is the only generated one of its name, and passed the validation;
- an application is deleted only if the policy allows it, nothing failed in the generation, and no generated application,
  valid or not, has its name. Under the same conditions the resources finalizer is removed before the deletion when the
  destination is not a known cluster, which is the one update of an application that was not generated.
-/
import GitOpsDeploy.AppSet.Reconcile

namespace GitOpsDeploy.AppSet.Reconciler

section Statement

variable {Spec Operation Template Param : Type}
variable (config : Config Spec Operation) (appset : ApplicationSet) (api : Api Spec Operation Template Param)

/-- all applications that were generated, valid or not -/
def generatedApplications : List (Application Spec Operation) :=
  (generateApplications api.renderer appset.ns api.generators).1

/-- exactly one generated application has this name, and it passed the validation -/
def SoleValid (app : Application Spec Operation) : Prop :=
  app.ns = appset.ns ∧ ∃ i generated, (generatedApplications appset api)[i]? = some generated ∧
    generated.name = app.name ∧
    (∀ j other, (generatedApplications appset api)[j]? = some other → other.name = app.name → j = i) ∧
    api.checks.project i = .found ∧ api.checks.destination i = none

/-- the conditions of a deletion -/
structure MayDelete (app : Application Spec Operation) : Prop where
  allowed : (defaultPolicy config appset).allowDelete = true
  clean : ∀ requested ∈ api.generators, requested.Clean api.renderer
  owned : ∃ current, api.list .delete = .ok current ∧ ∃ a ∈ current, a.name = app.name
  unmatched : ∀ other ∈ generatedApplications appset api, other.name ≠ app.name

/-- the calls that a reconcile may issue -/
def Justified : Call Spec Operation → Prop
  | .create app => SoleValid appset api app
  | .patch _ _ app => SoleValid appset api app
  | .removeFinalizer app => MayDelete config appset api app ∧ api.validDestination app.name = false ∧
      resourcesFinalizerName ∈ app.finalizers
  | .delete app => MayDelete config appset api app
  | .updateOwnerReferences _ => False
  | .errorCondition _ _ => True

end Statement

section Proof

variable {Spec Operation Template Param : Type}
variable {config : Config Spec Operation} {appset : ApplicationSet} {api : Api Spec Operation Template Param}
variable {generated : List (Application Spec Operation)} {errors : ErrorsByApp} {call : Call Spec Operation}

theorem justified_delete (hg : generateApplications api.renderer appset.ns api.generators = (generated, none))
    (ha : (defaultPolicy config appset).allowDelete = true) (h : call ∈ (deleteInCluster api generated).1) :
    Justified config appset api call := by
  obtain ⟨current, hl, app, hap, hu, hc⟩ := mem_deleteInCluster h
  have hal : generatedApplications appset api = generated := congrArg Prod.fst hg
  have hm : ∀ app' : Application Spec Operation, app'.name = app.name → MayDelete config appset api app' := by
    intro app' hn
    exact {
      allowed := ha
      clean := generateApplications_clean (congrArg Prod.snd hg)
      owned := ⟨current, hl, app, hap, hn.symm⟩
      unmatched := fun other ho => hn ▸ hu other (hal ▸ ho) }
  rcases mem_deleteOne hc with ⟨finalizers, rfl⟩ | ⟨rfl, hi, hf⟩
  · exact hm _ rfl
  · exact ⟨hm app rfl, hi, hf⟩

variable [DecidableEq Spec] [DecidableEq Operation]

theorem justified_createOrUpdate (hge : generateApplications api.renderer appset.ns api.generators = (generated, none))
    (hv : validateGeneratedApplications api.checks appset.name config.project generated = .ok errors)
    {desired : List (Application Spec Operation)}
    (hde : ∀ app ∈ desired, app ∈ validApplications config appset errors generated)
    (h : call ∈ (createOrUpdateInCluster config appset api desired).1) : Justified config appset api call := by
  have hns : ∀ app ∈ generated, app.ns = appset.ns := by
    have := ns_of_generated api.renderer appset.ns api.generators
    rwa [hge] at this
  have hal : generatedApplications appset api = generated := congrArg Prod.fst hge
  have hs : ∀ app ∈ desired, ∀ app' : Application Spec Operation, app'.ns = app.ns → app'.name = app.name →
      SoleValid appset api app' := by
    intro app hm app' hap ha
    obtain ⟨g, hg, hgo, hgns, hgn⟩ := mem_validApplications (hde app hm)
    obtain ⟨i, hi, hu, hp, hd⟩ := validate_unique hns hv hg hgo
    refine ⟨by rw [hap, hgns, hns g hg], i, g, hal ▸ hi, by rw [ha, hgn], ?_, hp, hd⟩
    intro j other hj hn
    exact hu j other (hal ▸ hj) (by rw [hn, ha, hgn])
  obtain ⟨app, hm, diffConfig, hc⟩ := mem_createOrUpdateInCluster h
  rcases mem_createOrUpdate hc with ⟨app', rfl, hns', hn', _⟩ | ⟨live, base, app', rfl, hns', hn', _⟩
  · exact hs app hm app' hns' hn'
  · exact hs app hm app' hns' hn'

/-- **Deletion is fail-safe.** -/
theorem reconcile_fail_safe (hlive : appset.deletionTimestamp = false) (h : call ∈ (reconcile config appset api).calls) :
    Justified config appset api call := by
  unfold reconcile at h
  rw [hlive] at h
  rcases mem_reconcileLive h with ⟨reason, e, rfl⟩ | ⟨generated, errors, hg, hv, h | h⟩
  · exact trivial
  · rcases mem_applyValid h with ⟨reason, e, rfl⟩ | ⟨_, h⟩ | ⟨_, h⟩
    · exact trivial
    · exact justified_createOrUpdate hg hv (fun _ ha => ha) h
    · obtain ⟨current, _, h⟩ := mem_createInCluster h
      exact justified_createOrUpdate hg hv (fun _ ha => (List.mem_filter.1 ha).1) h
  · rcases mem_deleteOthers h with ⟨reason, e, rfl⟩ | ⟨hal, h⟩
    · exact trivial
    · exact justified_delete hg hal h

end Proof

/-! ## A deletion -/

section Example

/-- one policy for all, without progressive syncs -/
def plainConfig (policy : ApplicationsSyncPolicy) : Config String Unit where
  policy
  enablePolicyOverride := false
  enableProgressiveSyncs := false
  globalPreservedAnnotations := []
  globalPreservedLabels := []
  project := fun _ => "default"
  normalizeSpec := id
  syncDesired := fun app => (app.spec, app.operation)

def guestbooks : ApplicationSet where
  ns := "cd"
  name := "guestbooks"
  uid := "uid"
  deletionTimestamp := false
  applicationsSync := none
  preservedAnnotations := []
  preservedLabels := []
  isRollingSync := false
  stepsEmpty := true
  hasApplicationStatus := false
  deletionOrderReversed := false
  hasFinalizer := false
  refreshRequired := false

/-- an application of the cluster, with the spec that was generated for it -/
def guestbook (name : String) (finalizers : List String) (ownerReferences : List OwnerReference) : Application String Unit :=
  ⟨"cd", name, "v1", ∅, ∅, finalizers, ownerReferences, none⟩

/-- nothing fails: the generators give one application for each name, `stored` are the applications in the cluster, of
which `owned` are the ApplicationSet's, and the destinations of these are no known clusters -/
def calmApi (names : List String) (stored owned : List (Application String Unit)) : Api String Unit Unit String where
  migrateStatus := none
  updateFinalizer := none
  generators := [⟨none, [⟨.ok (), .ok (names.map fun name => ⟨name, .ok true⟩)⟩]⟩]
  renderer := ⟨fun _ name => .ok ⟨"", name, "v2", ∅, ∅, [], [], none⟩, none⟩
  checks := ⟨fun _ => .found, fun _ => none⟩
  list := fun _ => .ok owned
  clearStatus := none
  performProgressiveSyncs := none
  buildIgnoreDiffConfig := .ok none
  get := fun name => .ok (stored.find? fun app => app.name = name)
  create := fun _ => none
  patch := fun _ => none
  listClusters := none
  validDestination := fun _ => false
  removeFinalizer := fun _ => none
  delete := fun _ => none
  updateResourcesStatus := none
  refresh := none
  upToDateCondition := none
  updateOwnerReferences := fun _ => none
  performReverseDeletion := ([], .ok false)

/-- an application that is owned and no longer generated -/
def stale : Application String Unit := guestbook "stale" [resourcesFinalizerName] [controllerReference guestbooks]

/-- it is deleted -/
theorem reconcile_fail_safe_stale :
    .delete (guestbook "stale" [] [controllerReference guestbooks]) ∈
        (reconcile (plainConfig .sync) guestbooks (calmApi ["kept"] [stale] [stale])).calls ∧
      Justified (plainConfig .sync) guestbooks (calmApi ["kept"] [stale] [stale])
        (.delete (guestbook "stale" [] [controllerReference guestbooks])) := by
  have hm : .delete (guestbook "stale" [] [controllerReference guestbooks]) ∈
      (reconcile (plainConfig .sync) guestbooks (calmApi ["kept"] [stale] [stale])).calls := by
    have hc : (reconcile (plainConfig .sync) guestbooks (calmApi ["kept"] [stale] [stale])).calls =
        [.create { guestbook "kept" [] [controllerReference guestbooks] with spec := "v2" }, .removeFinalizer stale,
          .delete (guestbook "stale" [] [controllerReference guestbooks])] := rfl
    rw [hc]
    simp
  exact ⟨hm, reconcile_fail_safe rfl hm⟩

/-- **An update without a generated application.** The finalizer of an application that is about to be deleted is removed,
though no generated application has its name. -/
theorem reconcile_updates_ungenerated :
    .removeFinalizer stale ∈ (reconcile (plainConfig .sync) guestbooks (calmApi [] [stale] [stale])).calls ∧
      ¬SoleValid guestbooks (calmApi [] [stale] [stale]) stale := by
  constructor
  · have hc : (reconcile (plainConfig .sync) guestbooks (calmApi [] [stale] [stale])).calls =
        [.removeFinalizer stale, .delete (guestbook "stale" [] [controllerReference guestbooks])] := rfl
    exact List.mem_cons_self
  · rintro ⟨_, i, generated, hi, _⟩
    cases hi

end Example

end GitOpsDeploy.AppSet.Reconciler

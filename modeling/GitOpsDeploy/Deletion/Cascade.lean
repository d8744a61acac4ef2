/-
What a cascading deletion deletes, and when it lets the application go (`finalizeApplicationDeletion`).

- `CascadeSound`: one call deletes only what may be deleted, in the order of the waves and after the pre-delete finalizer
  is gone, and takes a propagation policy finalizer away only when nothing is left to delete.
- `cascade_sound`: every call of a run is so, if it finds the destination cluster and reads an application that has the
  pre-delete finalizer at most once.
- Witness: `cascade_sound_two_calls`, where the config map goes in the first call and the application in the second.
- `cascade_before_finalizer`: with the finalizer twice, the deletion starts while one of them is still there.
-/
import GitOpsDeploy.Deletion.Finalize

namespace GitOpsDeploy.Deletion

open List
open Script (calls_lift bind_of_ok)

open Script (mem_calls_bind result_bind)
open Fallible (map_eq_ok mapError_eq_ok)

/-! ## Listings and choices -/

variable {live : List Managed} {m : Managed} {app : App} {t : HookType} {env : CallEnv} {e : Call}
  {stage : List String} {b : Bool}

theorem keepPermitted_ok {permitted : Managed → Except String Bool} {objs : List Managed}
    (h : keepPermitted permitted objs = .ok live) : live = objs.filter fun m => (permitted m).toOption = some true := by
  induction objs generalizing live with
  | nil =>
    cases h
    rfl
  | cons o later ih =>
    unfold keepPermitted at h
    split at h
    · cases h
    · next keep hp =>
      obtain ⟨kept, hk, rfl⟩ := map_eq_ok.1 h
      rw [ih hk, filter_cons, hp]
      cases keep <;> rfl

theorem mem_getPermittedAppLiveObjects {l : Listing} (h : getPermittedAppLiveObjects l = .ok live) (hm : m ∈ live) :
    l.permitted m = .ok true ∧ ∃ objs, l.objs = .ok objs ∧ m ∈ objs := by
  unfold getPermittedAppLiveObjects at h
  obtain ⟨objs, ho, h⟩ := Fallible.bind_eq_ok.1 h
  obtain ⟨hme, hp⟩ := mem_filter.1 (keepPermitted_ok h ▸ hm)
  exact ⟨Fallible.toOption_eq_some.1 (of_decide_eq_true hp), objs, ho, hme⟩

/-- the object waits for a confirmation of the deletion -/
def awaitsConfirmation (app : App) (approved : Bool) (m : Managed) : Prop :=
  (∃ r ∈ app.findResource m.key, r.requiresDeletionConfirmation = true) ∧ approved = false

theorem chooseDeletions_ok {approved : Bool} {objs : List Managed} (h : chooseDeletions app approved live = .ok objs) :
    objs = live.filter (shouldBeDeleted app) ∧
      ∀ m ∈ live, m.deletionTimestamp = false ∧ (shouldBeDeleted app m = true →
        ¬awaitsConfirmation app approved m) := by
  induction live generalizing objs with
  | nil =>
    cases h
    simp
  | cons o later ih =>
    unfold chooseDeletions at h
    split_ifs at h with hts hde hc
    · -- the object is deleted along with those chosen later
      obtain ⟨chosen, hl, rfl⟩ := map_eq_ok.1 h
      obtain ⟨rfl, ha⟩ := ih hl
      refine ⟨(filter_cons_of_pos hde).symm, forall_mem_cons.2
        ⟨⟨Bool.eq_false_iff.mpr hts, fun _ hw => hc ?_⟩, ha⟩⟩
      simp only [Bool.and_eq_true, decide_eq_true_eq, Bool.not_eq_true']
      exact hw
    · obtain ⟨rfl, ha⟩ := ih h
      refine ⟨(filter_cons_of_neg hde).symm, forall_mem_cons.2 ⟨⟨Bool.eq_false_iff.mpr hts, fun hd => ?_⟩, ha⟩⟩
      exact absurd hd hde

theorem startedDeletions_subset (env : CallEnv) (objs : List Managed) : startedDeletions env objs ⊆ objs := by
  unfold startedDeletions
  split_ifs
  · exact take_subset _ _
  · exact List.Subset.refl _

/-! ## Calls of the stages -/

/-- a call about hooks; only hooks of the type are created -/
def Call.isHookCall (t : HookType) : Call → Bool
  | .createHook t' .. => t' = t
  | .deleteHook .. => true
  | _ => false

theorem createHooks_calls {env : HookEnv} {hooks : List Sync.Obj} {n : ℕ} :
    ∀ e ∈ (createHooks env t hooks n).calls, e.isHookCall t = true := by
  induction hooks generalizing n with
  | nil => simp [createHooks]
  | cons hook later ih =>
    intro e he
    unfold createHooks at he
    simp only [mem_calls_bind, calls_lift, Script.calls_emit, not_mem_nil, false_or, mem_singleton] at he
    obtain ⟨obj, _, rfl | ⟨_, _, he⟩⟩ := he
    · simp [Call.isHookCall]
    · split at he
      · exact ih e he
      · exact ih e he
      · cases he

theorem executeHooks_calls {env : HookEnv} : ∀ e ∈ (executeHooks env t app live).calls, e.isHookCall t = true := by
  intro e he
  unfold executeHooks at he
  simp only [mem_calls_bind, calls_lift, not_mem_nil, false_or] at he
  obtain ⟨_, _, targets, _, he | ⟨n, _, he⟩⟩ := he
  · exact createHooks_calls e he
  · split_ifs at he
    · cases he
    · simp only [mem_calls_bind, calls_lift, not_mem_nil, false_or] at he
      obtain ⟨_, _, counts, _, he⟩ := he
      split_ifs at he
      · simp only [mem_calls_bind, Script.calls_stop, not_mem_nil, and_false, exists_false, or_false] at he
        obtain ⟨m, _, rfl⟩ := mem_map.mp he
        rfl
      · cases he

theorem deleteHooks_calls {env : CleanupEnv} {aggregated : Sync.HealthStatusCode} {hooks : List Managed}
    {n : ℕ} (t' : HookType) : ∀ e ∈ (deleteHooks env t aggregated hooks n).calls, e.isHookCall t' = true := by
  induction hooks generalizing n with
  | nil => simp [deleteHooks]
  | cons m later ih =>
    intro e he
    unfold deleteHooks at he
    split_ifs at he
    · exact ih e he
    · simp only [mem_calls_bind, Script.calls_emit, mem_singleton] at he
      rcases he with rfl | ⟨_, _, he⟩
      · rfl
      · split at he
        · cases he
        · exact ih e he
    · exact ih e he

theorem cleanupHooks_calls {env : CleanupEnv} (t' : HookType) :
    ∀ e ∈ (cleanupHooks env t live).calls, e.isHookCall t' = true := by
  intro e he
  unfold cleanupHooks at he
  simp only [mem_calls_bind, calls_lift, not_mem_nil, false_or] at he
  obtain ⟨_, _, aggregated, _, he⟩ := he
  split_ifs at he
  · cases he
  · simp only [mem_calls_bind, Script.calls_pure, not_mem_nil, and_false, exists_false, or_false] at he
    exact deleteHooks_calls t' e he

theorem updateFinalizers_calls {wrap : String → String} :
    ∀ e ∈ (updateFinalizers env app wrap).calls, e = .patchFinalizers app.finalizers (env.patch app.finalizers) := by
  intro e he
  unfold updateFinalizers at he
  simp only [orErr, mem_calls_bind, calls_lift, Script.calls_emit, not_mem_nil, false_or,
    mem_singleton] at he
  obtain ⟨_, _, rfl | ⟨_, _, he⟩⟩ := he
  · rfl
  · split at he
    · cases he
    · cases he

theorem updateFinalizers_ok {wrap : String → String} (h : (updateFinalizers env app wrap).result = .ok ()) :
    .patchFinalizers app.finalizers .stored ∈ (updateFinalizers env app wrap).calls := by
  unfold updateFinalizers at h ⊢
  simp only [result_bind, Script.result_emit] at h
  obtain ⟨u, hu, _, _, h⟩ := h
  cases hp : env.patch app.finalizers with
  | stored =>
    rw [mem_calls_bind]
    refine .inr ⟨u, hu, ?_⟩
    rw [mem_calls_bind]
    exact .inl (mem_singleton.mpr rfl)
  | failed err applied =>
    rw [hp] at h
    cases h

/-! ## The statement -/

/-- the finalizer that holds the deletion back for the pre-delete hooks -/
def preDeleteFinalizer : String := HookType.preDelete.finalizerName []

/-- the deletion of an object is neither excluded nor opted out of -/
structure Deletable (app : App) (m : Managed) : Prop where
  notCRD : Sync.isCRD m.toObj = false
  notSelf : isSelfReferencedApp app m = false
  notOptedOut : deleteOption app m ≠ some "false"
  notKept : isKept m = false

theorem shouldBeDeleted_iff : shouldBeDeleted app m = true ↔ Deletable app m := by
  simp only [shouldBeDeleted, Bool.and_eq_true, Bool.not_eq_true', decide_eq_true_eq]
  exact ⟨fun ⟨⟨⟨h1, h2⟩, h3⟩, h4⟩ => ⟨h1, h2, h3, h4⟩, fun h => ⟨⟨⟨h.1, h.2⟩, h.3⟩, h.4⟩⟩

/-- the deletion of the application is confirmed -/
def isApproved (app : App) : Bool := decide (∃ since ∈ app.deletionTimestamp, app.isDeletionConfirmed since = true)

/-- when the call e is issued, the application as read has no pre-delete finalizer, or finalizers without it were stored -/
def PreDeleteGone (app : App) (calls : List Call) (e : Call) : Prop :=
  preDeleteFinalizer ∉ app.finalizers ∨ ∃ before after fs, calls = before ++ after ∧ e ∈ after ∧
    .patchFinalizers fs .stored ∈ before ∧ preDeleteFinalizer ∉ fs

/-- the delete is for a permitted live object of the greatest wave, and no live object has to be waited for -/
def DeletesNext (env : CallEnv) (app : App) (m : Managed) : Prop :=
  ∃ live, getPermittedAppLiveObjects env.cascadeListing = .ok live ∧ m ∈ live ∧
    env.cascadeListing.permitted m = .ok true ∧ Deletable app m ∧ (∀ o ∈ live, o.deletionTimestamp = false) ∧
    ∀ o ∈ live, Deletable app o → ¬awaitsConfirmation app (isApproved app) o ∧ o.wave ≤ m.wave

/-- a propagation policy finalizer is taken away -/
def DropsCascade (app : App) (fs : List String) : Prop :=
  ∃ f, isPropagationPolicyFinalizer f = true ∧ fs.count f < app.finalizers.count f

def NothingLeft (env : CallEnv) (app : App) : Prop :=
  ∃ left, getPermittedAppLiveObjects env.lastListing = .ok left ∧ ∀ o ∈ left, ¬Deletable app o

/-- one call deletes selectively and in order, and lets the application go only when nothing is left -/
def CascadeSound (env : CallEnv) : Prop :=
  ∀ app, env.getApp = .ok app →
    (∀ m background, .deleteResource m background ∈ (finalizeApplicationDeletion env).calls →
      PreDeleteGone app (finalizeApplicationDeletion env).calls (.deleteResource m background) ∧ DeletesNext env app m) ∧
    ∀ fs answer, .patchFinalizers fs answer ∈ (finalizeApplicationDeletion env).calls → DropsCascade app fs →
      NothingLeft env app

/-! ## One call -/

/-- no propagation policy finalizer, so no cascade -/
def NoCascade (finalizers : List String) : Prop := ∀ f ∈ finalizers, isPropagationPolicyFinalizer f = false

/-- the calls after the pre-delete hooks -/
inductive IssuedLater (env : CallEnv) (app : App) : Call → Prop
  | delete {m : Managed} {background : Bool} (hc : app.cascadedDeletion = true) (h : DeletesNext env app m) :
      IssuedLater env app (.deleteResource m background)
  | emptied {answer : PatchAnswer} (h : NothingLeft env app) :
      IssuedLater env app (.patchFinalizers app.unsetCascadedDeletion.finalizers answer)
  | hook {e : Call} (h : e.isHookCall .postDelete = true) : IssuedLater env app e
  | released {t : HookType} {stage : List String} {answer : PatchAnswer}
      (h : isPropagationPolicyFinalizer (t.finalizerName stage) = false) :
      IssuedLater env app (.patchFinalizers (app.setHookFinalizer t stage false).finalizers answer)

/-- the calls for an application: one patch without a destination, else pre-delete hooks and what comes after them -/
inductive Issued (env : CallEnv) (app : App) : Call → Prop
  | undefined {fs : List String} {answer : PatchAnswer} (hd : env.destCluster ≠ .ok ()) (hs : fs ⊆ app.finalizers)
      (hn : NoCascade fs) : Issued env app (.patchFinalizers fs answer)
  | preHook {e : Call} {objs : List Managed} (hp : preDeleteFinalizer ∈ app.finalizers)
      (hl : getPermittedAppLiveObjects env.preListing = .ok objs)
      (h : e ∈ (executeHooks env.preHooks .preDelete app objs).calls) : Issued env app e
  | preDone {objs : List Managed} {answer : PatchAnswer} (hl : getPermittedAppLiveObjects env.preListing = .ok objs)
      (h : (executeHooks env.preHooks .preDelete app objs).result = .ok true) :
      Issued env app (.patchFinalizers (app.setHookFinalizer .preDelete [] false).finalizers answer)
  | later {e : Call} {app' : App} (ha : (preDeleteStage env app).result = .ok app')
      (hc : (finalizeApplicationDeletion env).calls = (preDeleteStage env app).calls ++ (laterStages env app').calls)
      (hl : e ∈ (laterStages env app').calls) (h : IssuedLater env app' e) : Issued env app e

/-- how the application goes on after the pre-delete hooks -/
theorem preDeleteStage_ok {app' : App} (h : (preDeleteStage env app).result = .ok app') :
    (app' = app ∧ preDeleteFinalizer ∉ app.finalizers) ∨
      (preDeleteFinalizer ∈ app.finalizers ∧ app' = app.setHookFinalizer .preDelete [] false ∧
        .patchFinalizers app'.finalizers .stored ∈ (preDeleteStage env app).calls ∧
        ∃ objs, getPermittedAppLiveObjects env.preListing = .ok objs ∧
          (executeHooks env.preHooks .preDelete app objs).result = .ok true) := by
  unfold preDeleteStage at h ⊢
  by_cases hp : app.hasHookFinalizer .preDelete [] = true
  · rw [if_pos hp] at h ⊢
    simp only [orErr, orErrs, result_bind, Script.result_lift, Script.result_mapStop_ok] at h
    obtain ⟨objs, ho, done, hd, h⟩ := h
    cases done with
    | false => cases h
    | true =>
      simp only [if_true, result_bind, Script.result_pure, Except.ok.injEq] at h
      obtain ⟨u, hu, rfl⟩ := h
      have hli := mapError_eq_ok.1 ho
      refine .inr ⟨of_decide_eq_true hp, rfl, ?_, objs, hli, hd⟩
      rw [mem_calls_bind]
      refine .inr ⟨objs, by simp [orErr, hli, Except.mapError], ?_⟩
      rw [mem_calls_bind]
      refine .inr ⟨true, by simpa [orErrs] using hd, ?_⟩
      rw [if_pos rfl, mem_calls_bind]
      exact .inl (updateFinalizers_ok hu)
  · rw [if_neg hp] at h
    cases h
    exact .inl ⟨rfl, fun hm => hp (decide_eq_true hm)⟩

theorem preDeleteStage_issued (he : e ∈ (preDeleteStage env app).calls) : Issued env app e := by
  unfold preDeleteStage at he
  split_ifs at he with hp
  · simp only [orErr, orErrs, mem_calls_bind, calls_lift, Script.result_lift, Script.calls_mapStop,
      Script.result_mapStop_ok, not_mem_nil, false_or] at he
    obtain ⟨objs, ho, he⟩ := he
    have hl := mapError_eq_ok.1 ho
    rcases he with he | ⟨done, hd, he⟩
    · exact .preHook (by simpa [App.hasHookFinalizer, preDeleteFinalizer] using hp) hl he
    · split_ifs at he with ht
      · simp only [mem_calls_bind, Script.calls_pure, not_mem_nil, and_false, exists_false, or_false] at he
        rw [updateFinalizers_calls e he]
        exact .preDone hl (by rw [hd, ht])
      · cases he
  · cases he

/-- the calls of the cascade: deletes of the chosen objects, and a patch once nothing is left -/
theorem cascadeStage_issued (hc : app.cascadedDeletion = true) (he : e ∈ (cascadeStage env app).calls) :
    IssuedLater env app e := by
  unfold cascadeStage at he
  split at he
  · cases he
  · next since hts =>
    simp only [orErr, mem_calls_bind, calls_lift, Script.result_lift, not_mem_nil, false_or] at he
    obtain ⟨live, hl, objs, hob, he | ⟨_, _, left, hle, he⟩⟩ := he
    · obtain ⟨m, hm, rfl⟩ := mem_map.mp he
      obtain ⟨hmo, hw⟩ := mem_filterObjectsForDeletion (startedDeletions_subset env _ hm)
      obtain ⟨rfl, hal⟩ := chooseDeletions_ok hob
      obtain ⟨hml, hmd⟩ := mem_filter.1 hmo
      have hl' := mapError_eq_ok.1 hl
      have ha : isApproved app = app.isDeletionConfirmed since := by simp [isApproved, hts]
      refine .delete hc ⟨live, hl', hml, (mem_getPermittedAppLiveObjects hl' hml).1,
        shouldBeDeleted_iff.mp hmd, fun o ho => (hal o ho).1, fun o ho hd => ?_⟩
      have hod := shouldBeDeleted_iff.mpr hd
      rw [ha]
      exact ⟨(hal o ho).2 hod, hw o (mem_filter.2 ⟨ho, hod⟩)⟩
    · split_ifs at he with han
      · cases he
      · rw [updateFinalizers_calls e he]
        refine .emptied ⟨left, mapError_eq_ok.1 hle, fun o ho hd => han ?_⟩
        exact any_eq_true.mpr ⟨o, ho, shouldBeDeleted_iff.mpr hd⟩

/-- a stage after the cascade lists live objects, runs or cleans up hooks, and patches the finalizer that holds it -/
theorem hookStage_calls {wrap wrap' : String → String} {live : Except String (List Managed)}
    {hooks : List Managed → Script Call String Bool} (hh : ∀ objs, ∀ e ∈ (hooks objs).calls,
      e.isHookCall .postDelete = true)
    (he : e ∈ (do
      let objs ← orErr wrap live
      let done ← orErrs wrap' (hooks objs)
      if done then updateFinalizers env app id else Script.stop .nil : Step Unit).calls) :
    e.isHookCall .postDelete = true ∨ ∃ answer, e = .patchFinalizers app.finalizers answer := by
  simp only [orErr, orErrs, mem_calls_bind, calls_lift, Script.calls_mapStop, not_mem_nil, false_or] at he
  obtain ⟨objs, _, he | ⟨done, _, he⟩⟩ := he
  · exact .inl (hh objs e he)
  · split_ifs at he
    · exact .inr ⟨_, updateFinalizers_calls e he⟩
    · cases he

theorem forgetApp_calls (env : CallEnv) : (forgetApp env).calls = [] := by
  refine eq_nil_iff_forall_not_mem.mpr fun e he => ?_
  unfold forgetApp at he
  simp only [orErr, mem_calls_bind, calls_lift, not_mem_nil, and_false, exists_false, or_false] at he

theorem laterStages_issued (he : e ∈ (laterStages env app).calls) : IssuedLater env app e := by
  have hh : ∀ {t : HookType} {stage : List String}, isPropagationPolicyFinalizer (t.finalizerName stage) = false →
      (e.isHookCall .postDelete = true ∨
        ∃ answer, e = .patchFinalizers (app.setHookFinalizer t stage false).finalizers answer) →
      IssuedLater env app e := by
    rintro t stage hp (h | ⟨answer, rfl⟩)
    · exact .hook h
    · exact .released hp
  unfold laterStages at he
  split_ifs at he with hc
  · exact cascadeStage_issued hc he
  · exact hh (by decide) (hookStage_calls (fun _ => executeHooks_calls) he)
  · exact hh (by decide) (hookStage_calls (fun _ => cleanupHooks_calls _) he)
  · exact hh (by decide) (hookStage_calls (fun _ => cleanupHooks_calls _) he)
  · cases he
  · rw [forgetApp_calls] at he
    cases he

theorem issued (he : e ∈ (finalizeApplicationDeletion env).calls) :
    ∃ app, env.getApp = .ok app ∧ Issued env app e := by
  unfold finalizeApplicationDeletion at he
  cases hg : env.getApp with
  | error err =>
    simp only [hg, Script.calls_stop] at he
    cases he
  | ok app =>
    refine ⟨app, rfl, ?_⟩
    cases hd : env.destCluster with
    | error err =>
      simp only [hg, hd, orErr, mem_calls_bind, calls_lift, not_mem_nil, false_or] at he
      obtain ⟨_, _, he⟩ := he
      rw [updateFinalizers_calls e he]
      refine .undefined (by simp [hd]) (fun f hf => ?_) fun f hf => ?_
      · exact Slices.rangeRemove_subset _ _ (Slices.rangeRemove_subset _ _ (Slices.rangeRemove_subset _ _ hf))
      · exact Slices.not_of_mem_rangeRemove (Slices.rangeRemove_subset _ _ (Slices.rangeRemove_subset _ _ hf))
    | ok u =>
      simp only [hg, hd, orErr, mem_calls_bind, calls_lift, not_mem_nil, false_or] at he
      obtain ⟨_, hp, _, hr, _, hi, he | ⟨app', ha', he⟩⟩ := he
      · exact preDeleteStage_issued he
      · refine .later ha' ?_ he (laterStages_issued he)
        unfold finalizeApplicationDeletion
        simp only [hg, hd]
        rw [bind_of_ok (show (orErr id env.getAppProj : Step Unit).result = .ok _ from hp),
          bind_of_ok (show (orErr id env.restConfig : Step Unit).result = .ok _ from hr),
          bind_of_ok (show (orErr _ env.impersonation : Step Unit).result = .ok _ from hi),
          bind_of_ok ha']
        rfl

/-- a delete is made by the cascade, with the application as the pre-delete hooks left it -/
theorem delete_issued {background : Bool} (he : .deleteResource m background ∈ (finalizeApplicationDeletion env).calls) :
    ∃ app app', env.getApp = .ok app ∧ (preDeleteStage env app).result = .ok app' ∧
      (finalizeApplicationDeletion env).calls = (preDeleteStage env app).calls ++ (laterStages env app').calls ∧
      .deleteResource m background ∈ (laterStages env app').calls ∧ app'.cascadedDeletion = true ∧
        DeletesNext env app' m := by
  obtain ⟨app, hg, h⟩ := issued he
  cases h with
  | preHook _ _ h => cases executeHooks_calls _ h
  | later ha' hca hl h =>
    cases h with
    | delete hc h => exact ⟨app, _, hg, ha', hca, hl, hc, h⟩
    | hook h => cases h

/-! ## Runs -/

/-- removing another finalizer leaves the propagation policy finalizers alone -/
theorem count_setHookFinalizer {f : String}
    (ht : isPropagationPolicyFinalizer (t.finalizerName stage) = false) (hf : isPropagationPolicyFinalizer f = true) :
    (app.setHookFinalizer t stage false).finalizers.count f = app.finalizers.count f := by
  have hne : t.finalizerName stage ≠ f := by
    intro h
    rw [h, hf] at ht
    cases ht
  rcases setFinalizer_false app.finalizers (t.finalizerName stage) with ⟨h, _⟩ | h
  · exact congrArg (List.count f) h
  · have hc := h.count_eq f
    rwa [count_cons_of_ne hne] at hc

theorem notMem_setHookFinalizer (ho : app.finalizers.count preDeleteFinalizer ≤ 1) :
    preDeleteFinalizer ∉ (app.setHookFinalizer .preDelete [] false).finalizers := by
  rcases setFinalizer_false app.finalizers preDeleteFinalizer with ⟨h, hn⟩ | h
  · change preDeleteFinalizer ∉ setFinalizer app.finalizers preDeleteFinalizer false
    rwa [h]
  · have hc := h.count_eq preDeleteFinalizer
    rw [count_cons_self] at hc
    have hz : (setFinalizer app.finalizers preDeleteFinalizer false).count preDeleteFinalizer = 0 := by omega
    exact count_eq_zero.mp hz

theorem deletable_setHookFinalizer : Deletable (app.setHookFinalizer t stage b) m ↔ Deletable app m := by
  rw [← shouldBeDeleted_iff, ← shouldBeDeleted_iff]
  rfl

theorem DeletesNext.of_setHookFinalizer (h : DeletesNext env (app.setHookFinalizer t stage b) m) :
    DeletesNext env app m := by
  obtain ⟨live, hl, hm, hp, hd, hts, ha⟩ := h
  refine ⟨live, hl, hm, hp, deletable_setHookFinalizer.mp hd, hts, fun o ho hod => ?_⟩
  exact ha o ho (deletable_setHookFinalizer.mpr hod)

theorem NothingLeft.of_setHookFinalizer
    (h : NothingLeft env (app.setHookFinalizer t stage b)) : NothingLeft env app := by
  obtain ⟨left, hl, hn⟩ := h
  exact ⟨left, hl, fun o ho hd => hn o ho (deletable_setHookFinalizer.mpr hd)⟩

theorem cascadeSound_of_once (hd : env.destCluster = .ok ())
    (ho : ∀ app, env.getApp = .ok app → app.finalizers.count preDeleteFinalizer ≤ 1) : CascadeSound env := by
  intro app hg
  refine ⟨fun m background hm => ?_, fun fs answer hfs hdr => ?_⟩
  · obtain ⟨_, app', hg', ha', hca, hl, -, hn⟩ := delete_issued hm
    cases hg.symm.trans hg'
    -- only the finalizers have changed since the application was read
    rcases preDeleteStage_ok ha' with ⟨rfl, hno⟩ | ⟨_, rfl, hpa, _⟩
    · exact ⟨.inl hno, hn⟩
    · exact ⟨.inr ⟨_, _, _, hca, hl, hpa, notMem_setHookFinalizer (ho app hg)⟩, hn.of_setHookFinalizer⟩
  · obtain ⟨f, hf, hlt⟩ := hdr
    obtain ⟨_, hg', h⟩ := issued hfs
    cases hg.symm.trans hg'
    cases h with
    | undefined hd' => exact absurd hd hd'
    | preHook _ _ h => cases executeHooks_calls _ h
    | preDone =>
      rw [count_setHookFinalizer (by decide) hf] at hlt
      exact absurd hlt (lt_irrefl _)
    | later ha' _ _ h =>
      rcases preDeleteStage_ok ha' with ⟨rfl, _⟩ | ⟨_, rfl, _⟩
      · cases h with
        | emptied h => exact h
        | hook h => cases h
        | released ht =>
          rw [count_setHookFinalizer ht hf] at hlt
          exact absurd hlt (lt_irrefl _)
      · cases h with
        | emptied h => exact h.of_setHookFinalizer
        | hook h => cases h
        | released ht =>
          rw [count_setHookFinalizer ht hf, count_setHookFinalizer (by decide) hf] at hlt
          exact absurd hlt (lt_irrefl _)

/-- **Cascading deletion.** In a run of calls, each of which finds the destination cluster and reads an application that
has the pre-delete finalizer at most once, every call deletes selectively and in order, and lets the application go only
when nothing is left. -/
theorem cascade_sound (run : List CallEnv) (hdest : ∀ env ∈ run, env.destCluster = .ok ())
    (honce : ∀ env ∈ run, ∀ app, env.getApp = .ok app → app.finalizers.count preDeleteFinalizer ≤ 1) :
    ∀ env ∈ run, CascadeSound env := by
  intro env he
  exact cascadeSound_of_once (hdest env he) (honce env he)

/-! ## A config map and its application -/

def WaveSort.insertion : WaveSort where
  sort := List.insertionSort fun a b => b.wave ≤ a.wave
  perm := perm_insertionSort _
  sorted l := by
    have : Std.Total fun a b : Managed => b.wave ≤ a.wave := ⟨fun a b => le_total b.wave a.wave⟩
    have : IsTrans Managed fun a b => b.wave ≤ a.wave := ⟨fun a b c hab hbc => hbc.trans hab⟩
    exact pairwise_insertionSort _ l

def plainObj (kind name : String) (annotations : List (String × String)) : Sync.Obj :=
  ⟨"", "v1", kind, "default", name, "", annotations, [], false, "1", [], none, none, []⟩

def configMap (annotations : List (String × String)) : Managed := ⟨plainObj "ConfigMap" "config" annotations, "u1"⟩

def deletedApp (finalizers : List String) : App :=
  ⟨"u0", "app", "cd", finalizers, some 10, none, "default", [], []⟩

def listed (objs : List Managed) : Listing := ⟨.ok objs, fun _ => .ok true⟩

/-- hooks without errors, all of them with the same answer to their creation -/
def hookEnv (targets : List Sync.Obj) (create : CreateAnswer) : HookEnv where
  settings := .ok ()
  targets := .ok targets
  order := id
  order_perm l := .refl l
  setAppInstance := .ok
  create _ := create
  overrides := .ok ()
  health _ := .ok none
  delete _ := .deleted

/-- a call in which the cluster answers without errors -/
def calmCall (app : App) (hooks : HookEnv) (before after : List Managed) : CallEnv where
  getApp := .ok app
  getAppProj := .ok ()
  destCluster := .ok ()
  restConfig := .ok ()
  impersonation := .ok ()
  preListing := listed before
  cascadeListing := listed before
  lastListing := listed after
  postListing := listed after
  preCleanupListing := listed after
  postCleanupListing := listed after
  preHooks := hooks
  postHooks := hooks
  preCleanup := ⟨.ok (), fun _ => .ok none, fun _ => .deleted⟩
  postCleanup := ⟨.ok (), fun _ => .ok none, fun _ => .deleted⟩
  waveSort := .insertion
  deleteErr _ := none
  started := 0
  projectForPatch _ := .ok ()
  patch _ := .stored
  setAppManagedResources := .ok ()
  setAppResourcesTree := .ok ()

/-- the pre-delete finalizer twice: one of the two is removed, and the cascade starts with the other one in place -/
def twicePreDelete : CallEnv :=
  calmCall (deletedApp [preDeleteFinalizer, preDeleteFinalizer, resourcesFinalizerName]) (hookEnv [] .created)
    [configMap []] []

theorem cascade_before_finalizer : ¬CascadeSound twicePreDelete := by
  intro h
  have hc : (finalizeApplicationDeletion twicePreDelete).calls =
      [.patchFinalizers [resourcesFinalizerName, preDeleteFinalizer] .stored, .deleteResource (configMap []) false,
        .patchFinalizers [preDeleteFinalizer] .stored] := by decide +kernel
  obtain ⟨hd, _⟩ := h _ rfl
  obtain ⟨hg, _⟩ := hd (configMap []) false (by rw [hc]; decide)
  rcases hg with hn | ⟨before, after, fs, heq, _, hp, hn⟩
  · exact hn (by decide)
  · have hm : .patchFinalizers fs .stored ∈ (finalizeApplicationDeletion twicePreDelete).calls := by
      rw [heq]
      exact mem_append_left _ hp
    rw [hc] at hm
    simp only [mem_cons, Call.patchFinalizers.injEq, reduceCtorEq, and_true, not_mem_nil, or_false,
      false_or] at hm
    rcases hm with rfl | rfl
    · exact hn (by decide)
    · exact hn (by decide)

/-- the finalizers of an application with pre-delete hooks, over two calls: the config map goes, then the application -/
theorem cascade_sound_two_calls :
    CascadeSound (calmCall (deletedApp [preDeleteFinalizer, resourcesFinalizerName]) (hookEnv [] .created)
      [configMap []] [configMap []]) ∧
    CascadeSound (calmCall (deletedApp [resourcesFinalizerName]) (hookEnv [] .created) [] []) := by
  have h := cascade_sound [calmCall (deletedApp [preDeleteFinalizer, resourcesFinalizerName]) (hookEnv [] .created)
      [configMap []] [configMap []], calmCall (deletedApp [resourcesFinalizerName]) (hookEnv [] .created) [] []]
    (by simp [calmCall]) (by
      intro env he app ha
      simp only [mem_cons, not_mem_nil, or_false] at he
      rcases he with rfl | rfl <;> cases ha <;> decide)
  exact ⟨h _ mem_cons_self, h _ (mem_cons_of_mem _ mem_cons_self)⟩

end GitOpsDeploy.Deletion

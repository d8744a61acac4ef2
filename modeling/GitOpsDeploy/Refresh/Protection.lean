/-
When refreshes keep the finalizers that protect delete hooks.

A refresh sets or removes the finalizers of a kind of hooks by one flag of the comparison, which is false also when the
manifests could not be loaded or normalized, when the hook is excluded in the settings, and for a post-delete hook that is
a pre-delete hook as well. A failed update does not keep the status from being persisted.
-/
import GitOpsDeploy.Compare.Unknown
import GitOpsDeploy.Refresh.Process

namespace GitOpsDeploy.Refresh

open List
open Deletion (App)

open Compare (ComparisonResult Partition partitionStep partitionTargetObjsForSync)
open Deletion (HookType PatchAnswer isHookOfType setFinalizer)
open Script (mem_calls_bind)
open Sync (Obj)

/-! ## What the flags of a comparison say -/

def found (r : ComparisonResult) : HookType → Bool
  | .preDelete => r.hasPreDeleteHooks
  | .postDelete => r.hasPostDeleteHooks

def Partition.found (p : Partition) : HookType → Bool
  | .preDelete => p.hasPreDeleteHooks
  | .postDelete => p.hasPostDeleteHooks

/-- an object that sets the flag of the kind; pre-delete hooks without a sync phase are not looked at again -/
def counts (t : HookType) (obj : Obj) : Bool :=
  isHookOfType obj t && (t = .preDelete || !isHookOfType obj .preDelete || Compare.hasGitOpsEngineSyncPhaseHook obj)

theorem found_partitionStep (p : Partition) (obj : Obj) (t : HookType) :
    Partition.found (partitionStep p obj) t = (Partition.found p t || counts t obj) := by
  unfold partitionStep counts
  cases t <;> cases hpr : isHookOfType obj .preDelete <;> cases hp : isHookOfType obj .postDelete <;>
    cases hs : Compare.hasGitOpsEngineSyncPhaseHook obj <;> simp [Partition.found]

theorem found_partition (objs : List Obj) (t : HookType) :
    Partition.found (partitionTargetObjsForSync objs) t = objs.any (counts t) := by
  have hf : ∀ p, Partition.found (objs.foldl partitionStep p) t = (Partition.found p t || objs.any (counts t)) := by
    intro p
    induction objs generalizing p with
    | nil => simp
    | cons obj later ih => rw [foldl_cons, ih, found_partitionStep, any_cons, Bool.or_assoc]
  rw [partitionTargetObjsForSync, hf]
  cases t <;> simp [Partition.found]

theorem subset_namespaceStage (env : Compare.Env) (app : Compare.App) (targetNsExists : Bool) (live : Compare.LiveObjs)
    (targets : List Obj) (n : Compare.Notes) :
    targets ⊆ (Compare.namespaceStage env app targetNsExists live targets n).1 := by
  induction live generalizing targets n with
  | nil => exact List.Subset.refl _
  | cons o later ih =>
    unfold Compare.namespaceStage
    split_ifs
    · split
      · exact ih _ _
      · exact List.Subset.trans (subset_append_left _ _) (ih _ _)
    · exact ih _ _

/-- the manifests that a comparison loads and normalizes without an error -/
structure Targets (env : Env) (objs : List Obj) : Prop where
  settings : env.compareEnv.settings = .ok ()
  normalized : ∃ repoObjs conditions,
    Compare.loadTargets env.compareEnv env.compareRequest = .ok repoObjs ∧
      Compare.normalizeTargetObjects env.compareEnv.target env.compareApp.destinationNamespace repoObjs.targetObjs =
        .ok (objs, conditions)

/-- the manifests contain no hook of the kind -/
def Clean (env : Env) (t : HookType) : Prop := ∃ objs, Targets env objs ∧ ∀ obj ∈ objs, isHookOfType obj t = false

/-- the manifests contain no hook of the kind, or one that is not excluded and sets the flag -/
def HooksSeen (env : Env) (t : HookType) : Prop :=
  ∃ objs, Targets env objs ∧ ((∀ obj ∈ objs, isHookOfType obj t = false) ∨
    ∃ obj ∈ objs, Compare.isExcluded env.compareEnv obj = false ∧ counts t obj = true)

/-- the result of the comparison of a refresh -/
def Compares (env : Env) (r : ComparisonResult) : Prop :=
  Compare.compareAppState env.compareEnv env.compareApp env.compareRequest = .result r

theorem found_finish (env : Compare.Env) (app : Compare.App) (req : Compare.Request) (s : Compare.Stages) (t : HookType) :
    found (Compare.finishComparison env app req s) t = Partition.found s.partition t := by
  cases t <;> rfl

variable {env : Env} {t t' : HookType} {app : App} {stage stored : List String} {b : Bool}

/-- a kind of hooks that is seen but not found is not in the manifests -/
theorem found_of_seen {r : ComparisonResult} (hr : Compares env r) (hs : HooksSeen env t)
    (hf : found r t = false) : Clean env t := by
  obtain ⟨objs, ht, hno | ⟨obj, ho, he, hc⟩⟩ := hs
  · exact ⟨objs, ht, hno⟩
  · exfalso
    obtain ⟨repoObjs, conditions, hl, hn⟩ := ht.normalized
    unfold Compares Compare.compareAppState at hr
    rw [ht.settings, hl] at hr
    dsimp only at hr
    split at hr
    · cases hr
    · cases hr
      rw [found_finish] at hf
      unfold Compare.runStages at hf
      simp only [found_partition, hl, Compare.loadStage, Compare.normalizeStage, hn] at hf
      have hm : obj ∈ (Compare.excludeStage env.compareEnv objs (Compare.Notes.add ⟨[], false⟩ conditions)).1 :=
        mem_filter.mpr ⟨ho, by simp [he]⟩
      have ha := any_eq_false.mp hf obj (subset_namespaceStage _ _ _ _ _ _ hm)
      exact ha hc

/-! ## What a refresh does to the finalizers -/

variable (finalizers : List String)

/-- both finalizers of the kind are there -/
def Carries (t : HookType) : Prop := ∀ stage ∈ stages, t.finalizerName stage ∈ finalizers

theorem finalizerName_ne : ∀ t t' : HookType, ∀ stage ∈ stages, ∀ stage' ∈ stages, t ≠ t' →
    t.finalizerName stage ≠ t'.finalizerName stage' := by
  intro t t'
  cases t <;> cases t' <;> decide

theorem mem_setHookFinalizers_ne (hne : t' ≠ t) (b : Bool) (hs : stage ∈ stages) :
    t'.finalizerName stage ∈ (setHookFinalizers app t b).finalizers ↔ t'.finalizerName stage ∈ app.finalizers := by
  have h1 := finalizerName_ne t' t stage hs [] (by decide) hne
  have h2 := finalizerName_ne t' t stage hs ["cleanup"] (by decide) hne
  exact (Deletion.mem_setFinalizer_ne h2 b).trans (Deletion.mem_setFinalizer_ne h1 b)

theorem carries_setHookFinalizers (app : App) (t : HookType) : Carries (setHookFinalizers app t true).finalizers t := by
  have hne : t.finalizerName [] ≠ t.finalizerName ["cleanup"] := by cases t <;> decide
  intro stage hs
  rcases mem_cons.mp hs with rfl | hs
  · exact (Deletion.mem_setFinalizer_ne hne true).mpr (Deletion.mem_setFinalizer_true _ _)
  · obtain rfl := mem_singleton.mp hs
    exact Deletion.mem_setFinalizer_true _ _

theorem setHookFinalizers_subset (app : App) (t : HookType) :
    (setHookFinalizers app t false).finalizers ⊆ app.finalizers :=
  fun _ hf => Deletion.setHookFinalizer_subset app t [] (Deletion.setHookFinalizer_subset _ t _ hf)

/-- the application in memory after the finalizers of the kind are set or removed -/
def hookApp (app : App) (t : HookType) (found : Bool) : App :=
  if needsUpdate app t found then setHookFinalizers app t found else app

@[simp] theorem hookApp_deletionTimestamp (app : App) (t : HookType) (found : Bool) :
    (hookApp app t found).deletionTimestamp = app.deletionTimestamp := by
  unfold hookApp
  split_ifs <;> rfl

theorem mem_hookApp_ne (hne : t' ≠ t) (b : Bool) (hs : stage ∈ stages) :
    t'.finalizerName stage ∈ (hookApp app t b).finalizers ↔ t'.finalizerName stage ∈ app.finalizers := by
  unfold hookApp
  split_ifs
  · exact mem_setHookFinalizers_ne hne b hs
  · rfl

theorem carries_hookApp_ne (hne : t' ≠ t) (b : Bool) :
    Carries (hookApp app t b).finalizers t' ↔ Carries app.finalizers t' := by
  constructor
  · exact fun h stage hs => (mem_hookApp_ne hne b hs).mp (h stage hs)
  · exact fun h stage hs => (mem_hookApp_ne hne b hs).mpr (h stage hs)

/-- finalizers of a kind that was found are not lost -/
theorem mem_hookApp_found (hs : stage ∈ stages)
    (hm : t.finalizerName stage ∈ app.finalizers) : t.finalizerName stage ∈ (hookApp app t true).finalizers := by
  unfold hookApp
  split_ifs
  · exact carries_setHookFinalizers app t stage hs
  · exact hm

/-- a live application gets the finalizers of a kind that was found -/
theorem carries_hookApp (hl : app.deletionTimestamp = none) : Carries (hookApp app t true).finalizers t := by
  unfold hookApp
  split_ifs with hn
  · exact carries_setHookFinalizers app t
  · have hb : t.finalizerName [] ∈ app.finalizers ∧ t.finalizerName ["cleanup"] ∈ app.finalizers := by
      simpa [needsUpdate, hl, Deletion.App.hasHookFinalizer] using hn
    intro stage hs
    rcases mem_cons.mp hs with rfl | hs
    · exact hb.1
    · obtain rfl := mem_singleton.mp hs
      exact hb.2

theorem hookApp_subset (app : App) (t : HookType) : (hookApp app t false).finalizers ⊆ app.finalizers := by
  unfold hookApp
  split_ifs
  · exact setHookFinalizers_subset app t
  · exact List.Subset.refl _

/-! ## Sound calls -/

/-- the finalizers in the cluster after a call; a patch that is answered with an error may have been applied -/
def afterCall (stored : List String) : Call → List String
  | .patchFinalizers fs .stored => fs
  | .patchFinalizers fs (.failed _ true) => fs
  | _ => stored

def replay (stored : List String) (calls : List Call) : List String := calls.foldl afterCall stored

/-- finalizers of a kind go only where the manifests have no hook of it, and a status that comes from a comparison which
found hooks is stored only where their finalizers are -/
structure Sound (env : Env) (stored : List String) (e : Call) : Prop where
  removes : ∀ t, ∀ stage ∈ stages, t.finalizerName stage ∈ stored →
    t.finalizerName stage ∉ afterCall stored e → Clean env t
  persists : ∀ code pre post, e = .persistStatus (.comparison code pre post) .stored →
    (pre = true → Carries stored .preDelete) ∧ (post = true → Carries stored .postDelete)

/-- every call is sound in the state it is made in -/
def SoundFrom (env : Env) : List String → List Call → Prop
  | _, [] => True
  | stored, e :: later => Sound env stored e ∧ SoundFrom env (afterCall stored e) later

theorem soundFrom_append {first second : List Call} : SoundFrom env stored (first ++ second) ↔
      SoundFrom env stored first ∧ SoundFrom env (replay stored first) second := by
  induction first generalizing stored with
  | nil => simp [SoundFrom, replay]
  | cons e later ih =>
    rw [cons_append]
    simp only [SoundFrom, ih, and_assoc]
    rfl

/-- a call that leaves the finalizers and is not about a comparison -/
theorem sound_other {e : Call} (hs : afterCall stored e = stored)
    (hn : ∀ code pre post, e ≠ .persistStatus (.comparison code pre post) .stored) : Sound env stored e where
  removes t stage _ hm hgone := by
    rw [hs] at hgone
    exact absurd hm hgone
  persists code pre post h := absurd h (hn code pre post)

theorem sound_patch {fs : List String} {answer : PatchAnswer}
    (h : ∀ t, ∀ stage ∈ stages, t.finalizerName stage ∈ stored → t.finalizerName stage ∉ fs → Clean env t) :
    Sound env stored (.patchFinalizers fs answer) where
  removes t stage hs hm hgone := by
    rcases answer with _ | ⟨err, applied⟩
    · exact h t stage hs hm hgone
    · cases applied with
      | true => exact h t stage hs hm hgone
      | false => exact absurd hm hgone
  persists _ _ _ h := nomatch h

theorem syncHookFinalizers_result (env : Env) (app : App) (t : HookType) (b : Bool) :
    (syncHookFinalizers env app t b).result = .ok (hookApp app t b) := by
  unfold syncHookFinalizers hookApp
  split_ifs
  · dsimp only
    unfold updateFinalizers
    cases env.projectForPatch (setHookFinalizers app t b).finalizers <;> rfl
  · rfl

/-- the calls of an update: none, or one patch for a live application -/
theorem syncHookFinalizers_calls (env : Env) (app : App) (t : HookType) (b : Bool) :
    (syncHookFinalizers env app t b).calls = [] ∧
        (needsUpdate app t b = false ∨ ∃ err, env.projectForPatch (hookApp app t b).finalizers = .error err) ∨
      needsUpdate app t b = true ∧ (syncHookFinalizers env app t b).calls =
        [.patchFinalizers (hookApp app t b).finalizers (env.patch (hookApp app t b).finalizers)] := by
  unfold syncHookFinalizers hookApp
  cases hn : needsUpdate app t b with
  | false => exact .inl ⟨rfl, .inl rfl⟩
  | true =>
    simp only [if_true]
    unfold updateFinalizers
    cases hp : env.projectForPatch (setHookFinalizers app t b).finalizers with
    | error err => exact .inl ⟨by simp [bind], .inr ⟨err, rfl⟩⟩
    | ok u => exact .inr ⟨trivial, by simp [bind]⟩

theorem replay_update (env : Env) (app : App) (t : HookType) (b : Bool) (stored : List String) :
    replay stored (syncHookFinalizers env app t b).calls = stored ∨
      needsUpdate app t b = true ∧ replay stored (syncHookFinalizers env app t b).calls =
        (hookApp app t b).finalizers := by
  rcases syncHookFinalizers_calls env app t b with ⟨h, _⟩ | ⟨hn, h⟩
  · exact .inl (by rw [h]; rfl)
  · rw [h]
    rcases env.patch (hookApp app t b).finalizers with _ | ⟨err, applied⟩
    · exact .inr ⟨hn, rfl⟩
    · cases applied with
      | true => exact .inr ⟨hn, rfl⟩
      | false => exact .inl rfl

/-- where all patches are stored, the stored finalizers follow those in memory -/
theorem replay_update_stored (stored : List String) (hn : needsUpdate app t b = true)
    (hp : ∀ fs, env.projectForPatch fs = .ok () ∧ env.patch fs = .stored) :
    replay stored (syncHookFinalizers env app t b).calls = (hookApp app t b).finalizers := by
  rcases syncHookFinalizers_calls env app t b with ⟨_, h | ⟨err, he⟩⟩ | ⟨_, h⟩
  · cases hn.symm.trans h
  · cases (hp _).1.symm.trans he
  · rw [h, (hp _).2]
    rfl

theorem live_of_needsUpdate (h : needsUpdate app t b = true) : app.deletionTimestamp = none := by
  simp only [needsUpdate, Bool.and_eq_true, Option.isNone_iff_eq_none] at h
  exact h.2

theorem soundFrom_update (h : app.deletionTimestamp = none →
      ∀ t', ∀ stage ∈ stages, t'.finalizerName stage ∈ stored →
      t'.finalizerName stage ∉ (hookApp app t b).finalizers → Clean env t') :
    SoundFrom env stored (syncHookFinalizers env app t b).calls := by
  rcases syncHookFinalizers_calls env app t b with ⟨hc, _⟩ | ⟨hn, hc⟩
  · rw [hc]
    trivial
  · rw [hc]
    exact ⟨sound_patch (h (live_of_needsUpdate hn)), trivial⟩

/-! ## One refresh -/

/-- the refresh reads the delete-hook finalizers that are stored; a comparison sees the hooks of a kind whose finalizers
are there; and the finalizers of hooks it finds are there or are stored before the status -/
structure Meets (env : Env) (stored : List String) : Prop where
  fresh : ∀ t : HookType, ∀ stage ∈ stages, t.finalizerName stage ∈ stored ↔
    t.finalizerName stage ∈ env.app.finalizers
  visible : env.app.deletionTimestamp = none → ∀ r, Compares env r → ∀ t,
    (∃ stage ∈ stages, t.finalizerName stage ∈ env.app.finalizers) → HooksSeen env t
  updates : ∀ r, Compares env r → ∀ t, found r t = true → Carries env.app.finalizers t ∨
    env.app.deletionTimestamp = none ∧ ∀ fs, env.projectForPatch fs = .ok () ∧ env.patch fs = .stored

section
variable {env : Env} {r : ComparisonResult} {stored : List String}

theorem applyComparison_calls (env : Env) (r : ComparisonResult) :
    (applyComparison env r).calls = (normalizeApplication env).calls ++
      ((syncHookFinalizers env env.app .preDelete r.hasPreDeleteHooks).calls ++
        ((syncHookFinalizers env (hookApp env.app .preDelete r.hasPreDeleteHooks) .postDelete r.hasPostDeleteHooks).calls ++
          (persistReconciliationStatus env
            (.comparison r.status r.hasPreDeleteHooks r.hasPostDeleteHooks)).calls)) := by
  have hn : (normalizeApplication env).result = .ok () := by
    unfold normalizeApplication
    cases env.specPatch <;> rfl
  unfold applyComparison
  rw [Script.bind_of_ok hn, Script.bind_of_ok (syncHookFinalizers_result ..),
    Script.bind_of_ok (syncHookFinalizers_result ..)]

theorem replay_normalize (env : Env) (stored : List String) : replay stored (normalizeApplication env).calls = stored := by
  unfold normalizeApplication
  cases env.specPatch <;> rfl

theorem soundFrom_normalize (env : Env) (stored : List String) : SoundFrom env stored (normalizeApplication env).calls := by
  unfold normalizeApplication
  cases env.specPatch with
  | none => trivial
  | some b => exact ⟨sound_other rfl fun _ _ _ h => (nomatch h), trivial⟩

theorem soundFrom_persist {source : StatusSource} (h : ∀ code pre post, source = .comparison code pre post →
    (pre = true → Carries stored .preDelete) ∧ (post = true → Carries stored .postDelete)) :
    SoundFrom env stored (persistReconciliationStatus env source).calls := by
  unfold persistReconciliationStatus
  split_ifs
  · refine ⟨⟨fun _ _ _ hm hg => absurd hm hg, ?_⟩, trivial⟩
    intro code pre post he
    injection he with hs _
    exact h code pre post hs
  · trivial

variable {t : HookType} {stage : List String}

/-- a kind of hooks that was not found, with a finalizer of its own, is not in the manifests -/
theorem Meets.clean (h : Meets env stored) (hr : Compares env r) (hl : env.app.deletionTimestamp = none)
    (hs : stage ∈ stages) (hm : t.finalizerName stage ∈ env.app.finalizers)
    (hf : found r t = false) : Clean env t :=
  found_of_seen hr (h.visible hl r hr t ⟨stage, hs, hm⟩) hf

/-- the finalizers in memory after each of the two updates -/
def firstApp (env : Env) (r : ComparisonResult) : App := hookApp env.app .preDelete r.hasPreDeleteHooks
def secondApp (env : Env) (r : ComparisonResult) : App :=
  hookApp (firstApp env r) .postDelete r.hasPostDeleteHooks

theorem mem_firstApp (hs : stage ∈ stages) (hm : t.finalizerName stage ∈ env.app.finalizers) (hf : found r t = true) :
    t.finalizerName stage ∈ (firstApp env r).finalizers := by
  unfold firstApp
  cases t with
  | preDelete =>
    rw [show r.hasPreDeleteHooks = true from hf]
    exact mem_hookApp_found hs hm
  | postDelete => exact (mem_hookApp_ne (by decide) _ hs).mpr hm

theorem mem_of_mem_firstApp (hs : stage ∈ stages)
    (hm : t.finalizerName stage ∈ (firstApp env r).finalizers) (hf : found r t = false) :
    t.finalizerName stage ∈ env.app.finalizers := by
  unfold firstApp at hm
  cases t with
  | preDelete =>
    rw [show r.hasPreDeleteHooks = false from hf] at hm
    exact hookApp_subset _ _ hm
  | postDelete => exact (mem_hookApp_ne (by decide) _ hs).mp hm

theorem mem_secondApp (hs : stage ∈ stages)
    (hm : t.finalizerName stage ∈ (firstApp env r).finalizers) (hf : found r t = true) :
    t.finalizerName stage ∈ (secondApp env r).finalizers := by
  unfold secondApp
  cases t with
  | preDelete => exact (mem_hookApp_ne (by decide) _ hs).mpr hm
  | postDelete =>
    rw [show r.hasPostDeleteHooks = true from hf]
    exact mem_hookApp_found hs hm

theorem carries_secondApp (hl : env.app.deletionTimestamp = none) (hf : found r t = true) :
    Carries (secondApp env r).finalizers t := by
  unfold secondApp firstApp
  cases t with
  | preDelete =>
    rw [carries_hookApp_ne (by decide), show r.hasPreDeleteHooks = true from hf]
    exact carries_hookApp hl
  | postDelete =>
    rw [show r.hasPostDeleteHooks = true from hf]
    exact carries_hookApp (by rwa [hookApp_deletionTimestamp])

/-- the stored finalizers after both updates are those of one of three stages -/
theorem Meets.carries (h : Meets env stored) (hr : Compares env r) (hf : found r t = true) :
    Carries (replay (replay stored (syncHookFinalizers env env.app .preDelete r.hasPreDeleteHooks).calls)
      (syncHookFinalizers env (firstApp env r) .postDelete r.hasPostDeleteHooks).calls) t := by
  rcases h.updates r hr t hf with hre | ⟨hl, hp⟩
  · -- the finalizers are in all three lists
    have hst : Carries stored t := fun stage hs => (h.fresh t stage hs).mpr (hre stage hs)
    have hfi : Carries (firstApp env r).finalizers t :=
      fun stage hs => mem_firstApp hs (hre stage hs) hf
    have hse : Carries (secondApp env r).finalizers t :=
      fun stage hs => mem_secondApp hs (hfi stage hs) hf
    rcases replay_update env (firstApp env r) .postDelete r.hasPostDeleteHooks
        (replay stored (syncHookFinalizers env env.app .preDelete r.hasPreDeleteHooks).calls) with h2 | ⟨_, h2⟩
    · rw [h2]
      rcases replay_update env env.app .preDelete r.hasPreDeleteHooks stored with h1 | ⟨_, h1⟩
      · rwa [h1]
      · rwa [h1]
    · rwa [h2]
  · -- what is stored follows what is in memory
    have hse := carries_secondApp (r := r) hl hf
    by_cases hpo : needsUpdate (firstApp env r) .postDelete r.hasPostDeleteHooks = true
    · rwa [replay_update_stored _ hpo hp]
    have hsa : secondApp env r = firstApp env r := by simp [secondApp, hookApp, hpo]
    rw [hsa] at hse
    have h2 := (replay_update env (firstApp env r) .postDelete r.hasPostDeleteHooks
      (replay stored (syncHookFinalizers env env.app .preDelete r.hasPreDeleteHooks).calls)).resolve_right
        fun hn => hpo hn.1
    rw [h2]
    by_cases hpr : needsUpdate env.app .preDelete r.hasPreDeleteHooks = true
    · rwa [replay_update_stored _ hpr hp]
    · have hre : firstApp env r = env.app := by simp [firstApp, hookApp, hpr]
      rw [hre] at hse
      rw [(replay_update env env.app .preDelete r.hasPreDeleteHooks stored).resolve_right fun hn => hpr hn.1]
      exact fun stage hs => (h.fresh t stage hs).mpr (hse stage hs)

theorem Meets.soundFrom_apply (h : Meets env stored) (hr : Compares env r) :
    SoundFrom env stored (applyComparison env r).calls := by
  rw [applyComparison_calls, soundFrom_append, soundFrom_append, soundFrom_append, replay_normalize]
  refine ⟨soundFrom_normalize env stored, soundFrom_update ?_, soundFrom_update ?_, soundFrom_persist ?_⟩
  · intro hl t stage hs hm hg
    have hre := (h.fresh t stage hs).mp hm
    refine h.clean hr hl hs hre (Bool.eq_false_iff.mpr fun hf => ?_)
    exact hg (mem_firstApp hs hre hf)
  · intro hl t stage hs hm hg
    rw [hookApp_deletionTimestamp] at hl
    have hf : found r t = false := by
      refine Bool.eq_false_iff.mpr fun hf => hg ?_
      exact carries_secondApp hl hf stage hs
    have hre : t.finalizerName stage ∈ env.app.finalizers := by
      rcases replay_update env env.app .preDelete r.hasPreDeleteHooks stored with h1 | ⟨_, h1⟩
      · rw [h1] at hm
        exact (h.fresh t stage hs).mp hm
      · rw [h1] at hm
        exact mem_of_mem_firstApp hs hm hf
    exact h.clean hr hl hs hre hf
  · intro code pre post hso
    cases hso
    exact ⟨fun hpr => h.carries (t := .preDelete) hr hpr, fun hp => h.carries (t := .postDelete) hr hp⟩

theorem protected_of_meets (h : Meets env stored) : SoundFrom env stored (processAppRefreshQueueItem env).calls := by
  have hp : ∀ source, (∀ code pre post, source ≠ .comparison code pre post) →
      SoundFrom env stored (persistReconciliationStatus env source).calls :=
    fun source hne => soundFrom_persist fun code pre post hs => absurd hs (hne code pre post)
  have ht : ∃ done, (refreshTree env).result = .ok done ∧ SoundFrom env stored (refreshTree env).calls ∧
      (done = false → (refreshTree env).calls = []) := by
    have hre : ∀ source, (persistReconciliationStatus env source).result = .ok () := by
      intro source
      unfold persistReconciliationStatus
      split_ifs <;> rfl
    unfold refreshTree
    split_ifs
    · exact ⟨true, rfl, trivial, nofun⟩
    · rw [Script.bind_of_ok (hre _)]
      refine ⟨true, rfl, ?_, nofun⟩
      simpa using hp .previous nofun
    · exact ⟨false, rfl, trivial, fun _ => rfl⟩
  obtain ⟨done, hd, hso, hn⟩ := ht
  unfold processAppRefreshQueueItem
  cases env.needRefresh with
  | false => trivial
  | true =>
    simp only [if_true]
    rw [Script.bind_of_ok hd]
    cases done with
    | true => simpa using hso
    | false =>
      simp only [hn rfl, nil_append, Bool.false_eq_true, if_false]
      split_ifs
      · exact hp .conditionErrors nofun
      · split
        · trivial
        · unfold compareAndApply
          split
          · trivial
          · trivial
          · next r hr => exact h.soundFrom_apply hr

end

/-! ## Runs -/

/-- a refresh, and what other clients do to the stored finalizers before it -/
structure RunStep where
  env : Env
  others : List String → List String

/-- every refresh of the run is sound, from the finalizers stored at its start -/
def RunProtected : List String → List RunStep → Prop
  | _, [] => True
  | stored, step :: later =>
    SoundFrom step.env (step.others stored) (processAppRefreshQueueItem step.env).calls ∧
      RunProtected (replay (step.others stored) (processAppRefreshQueueItem step.env).calls) later

/-- every refresh of the run meets the condition in the state it starts in -/
def RunMeets : List String → List RunStep → Prop
  | _, [] => True
  | stored, step :: later =>
    Meets step.env (step.others stored) ∧
      RunMeets (replay (step.others stored) (processAppRefreshQueueItem step.env).calls) later

/-- **Delete hooks stay protected.** In every run whose refreshes meet the condition, finalizers of delete hooks go only
after a comparison of manifests without such hooks, and the status of a comparison that found hooks is stored only with
their finalizers in place. -/
theorem delete_hooks_protected (stored : List String) (run : List RunStep) (hmeets : RunMeets stored run) :
    RunProtected stored run := by
  induction run generalizing stored with
  | nil => trivial
  | cons step later ih => exact ⟨protected_of_meets hmeets.1, ih _ hmeets.2⟩

/-! ## A pre-delete hook -/

def liveApp : App := ⟨"u0", "app", "cd", finalizers, none, none, "default", [], []⟩

def hookNames : List String := stages.map HookType.preDelete.finalizerName

def preDeleteJob : Obj :=
  ⟨"batch", "v1", "Job", "default", "cleanup", "", [(Sync.annotationKeyHook, "PreDelete")], [], false, "1", [], none, none,
    []⟩

/-- a full refresh with the comparison, in which every finalizer patch gets the answer -/
def refreshEnv (compareEnv : Compare.Env) (answer : PatchAnswer) : Env where
  app := liveApp finalizers
  needRefresh := true
  level := .withLatestForceResolve
  destCluster := .ok ()
  managedResources := .ok ()
  resourceTree := .ok ()
  setResourcesTree := .ok ()
  hasErrors := false
  compareEnv := compareEnv
  compareApp := Compare.plainApp
  compareRequest := { Compare.plainRequest with noRevisionCache := true }
  specPatch := none
  projectForPatch _ := .ok ()
  patch _ := answer
  statusChanged _ := true
  persist _ := .stored

/-- the repository cannot be reached -/
def unreachable : Env :=
  refreshEnv hookNames
    { Compare.compareEnv preDeleteJob [] .ok with getRepoObjs := fun _ => .error "connection refused" } .stored

/-- the hook is found, but its finalizers cannot be stored -/
def unstored : Env := refreshEnv [] (Compare.compareEnv preDeleteJob [] .ok) (.failed "conflict" false)

/-- **Protection is dropped.** When the manifests cannot be loaded, the finalizers of the hooks go; and when the
finalizers cannot be stored, the status is stored without them. -/
theorem delete_hooks_dropped :
    (processAppRefreshQueueItem unreachable).calls =
        [.patchFinalizers [] .stored, .persistStatus (.comparison .unknown false false) .stored] ∧
      ¬RunProtected hookNames [⟨unreachable, id⟩] ∧
      (processAppRefreshQueueItem unstored).calls =
        [.patchFinalizers hookNames (.failed "conflict" false), .persistStatus (.comparison .synced true false) .stored] ∧
      ¬RunProtected [] [⟨unstored, id⟩] := by
  have hu : (processAppRefreshQueueItem unreachable).calls =
      [.patchFinalizers [] .stored, .persistStatus (.comparison .unknown false false) .stored] := by decide +kernel
  have hun : (processAppRefreshQueueItem unstored).calls =
      [.patchFinalizers hookNames (.failed "conflict" false), .persistStatus (.comparison .synced true false) .stored] := by
    decide +kernel
  refine ⟨hu, fun h => ?_, hun, fun h => ?_⟩
  · have hs := h.1
    obtain ⟨objs, ht, _⟩ := hs.1.removes .preDelete [] (by decide) (by decide) (by decide)
    obtain ⟨repoObjs, _, hl, _⟩ := ht.normalized
    cases hl
  · have hs := h.1
    have hc := (hs.2.1.persists _ _ _ rfl).1 rfl [] (by decide)
    cases hc

/-- the hook comes with one refresh and goes with the next -/
def comesAndGoes : List RunStep :=
  [⟨refreshEnv [] (Compare.compareEnv preDeleteJob [] .ok) .stored, id⟩,
    ⟨refreshEnv hookNames (Compare.compareEnv (Compare.configMap "default") [] .ok) .stored, id⟩]

theorem delete_hooks_protected_comes_and_goes :
    RunProtected [] comesAndGoes ∧
      comesAndGoes.map (fun step => (processAppRefreshQueueItem step.env).calls) =
        [[.patchFinalizers hookNames .stored, .persistStatus (.comparison .synced true false) .stored],
          [.patchFinalizers [] .stored, .persistStatus (.comparison .outOfSync false false) .stored]] := by
  refine ⟨delete_hooks_protected [] comesAndGoes ⟨?_, ?_, trivial⟩, by decide +kernel⟩
  · refine ⟨fun _ _ _ => Iff.rfl, fun _ _ _ _ ⟨_, _, hm⟩ => (nomatch hm), fun _ _ _ _ => ?_⟩
    exact .inr ⟨rfl, fun _ => ⟨rfl, rfl⟩⟩
  · have hs : replay [] (processAppRefreshQueueItem
        (refreshEnv [] (Compare.compareEnv preDeleteJob [] .ok) .stored)).calls = hookNames := by decide +kernel
    refine ⟨fun _ _ _ => Iff.rfl, fun _ _ _ t _ => ?_, fun _ _ _ _ => .inr ⟨rfl, fun _ => ⟨rfl, rfl⟩⟩⟩
    refine ⟨[Compare.configMap "default"], ⟨rfl, _, _, rfl, rfl⟩, .inl ?_⟩
    cases t <;> decide +kernel

end GitOpsDeploy.Refresh

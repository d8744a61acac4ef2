/-
When a comparison with a failed step ends with sync status Unknown.
-/
import GitOpsDeploy.Core.Fallible
import GitOpsDeploy.Compare.State

namespace GitOpsDeploy.Compare

open List

open Sync (Obj)
open Fallible (exists_ok_iff)

variable {env : Env} {app : App} {req : Request} {n : Notes}

/-! ## What sets the flag -/

@[simp] theorem failed_add (conditions : List Condition) : (n.add conditions).failedToLoadObjs = n.failedToLoadObjs := rfl
@[simp] theorem failed_fail (message : String) : (n.fail message).failedToLoadObjs = true := rfl

theorem failed_loadStage (l : Loaded) : (loadStage l).2.failedToLoadObjs = true ↔ ∃ message, l = .failed message := by
  cases l <;> simp [loadStage]

theorem failed_normalizeStage (objs : List (Option Obj)) :
    (normalizeStage env app objs n).2.failedToLoadObjs = n.failedToLoadObjs := by
  unfold normalizeStage
  split <;> rfl

theorem failed_excludeStage (objs : List Obj) : (excludeStage env objs n).2.failedToLoadObjs = n.failedToLoadObjs := rfl

theorem failed_liveStage (objs : List Obj) : (liveStage env objs n).2.failedToLoadObjs = true ↔
    n.failedToLoadObjs = true ∨ ∃ err, env.getManagedLiveObjs objs = .error err := by
  unfold liveStage
  cases env.getManagedLiveObjs objs <;> simp

theorem failed_permittedStage (live : LiveObjs) : (permittedStage env app live n).2.failedToLoadObjs = true ↔
    n.failedToLoadObjs = true ∨ ∃ o ∈ live, ∃ err, env.isLiveResourcePermitted o.2 = .error err := by
  induction live generalizing n with
  | nil => simp [permittedStage]
  | cons o later ih =>
    unfold permittedStage
    cases h : env.isLiveResourcePermitted o.2 with
    | error err => simp [ih, h]
    | ok permitted => simp [ih, h]

theorem failed_namespaceStage (targetNsExists : Bool) (live : LiveObjs) (targets : List Obj) :
    (namespaceStage env app targetNsExists live targets n).2.failedToLoadObjs = true ↔ n.failedToLoadObjs = true ∨
      ∃ o ∈ live, isManagedNamespace app o.2 = true ∧ targetNsExists = false ∧
        ∃ err, managedNamespace env o.2 = .error err := by
  induction live generalizing targets n with
  | nil => simp [namespaceStage]
  | cons o later ih =>
    unfold namespaceStage
    simp only [exists_mem_cons_iff]
    by_cases hm : (isManagedNamespace app o.2 && !targetNsExists) = true
    · have hb : isManagedNamespace app o.2 = true ∧ targetNsExists = false := by simpa using hm
      rw [if_pos hm]
      cases h : managedNamespace env o.2 with
      | error err => exact iff_of_true ((ih _).mpr (.inl rfl)) (.inr (.inl ⟨hb.1, hb.2, err, rfl⟩))
      | ok managedNs => simp [ih]
    · have hn : ¬(isManagedNamespace app o.2 = true ∧ targetNsExists = false) := by simpa using hm
      rw [if_neg hm, ih]
      refine or_congr_right ⟨.inr, ?_⟩
      intro h
      exact h.resolve_left fun ⟨h1, h2, _⟩ => hn ⟨h1, h2⟩

theorem failed_diffStage (r : Reconciliation) : (diffStage env r n).2.failedToLoadObjs = true ↔
    n.failedToLoadObjs = true ∨ ∃ err, env.stateDiffs r = .error err := by
  unfold diffStage
  cases env.stateDiffs r <;> cases env.serverSideDiff <;> simp

/-! ## Steps that fail -/

/-- the objects that normalization gets -/
def loadedObjs (env : Env) (req : Request) : List (Option Obj) := (loadStage (loadTargets env req)).1.targetObjs

/-- tracking metadata cannot be set on a loaded object -/
def NormalizationFails (env : Env) (app : App) (req : Request) : Prop :=
  CannotTrack env.target app.destinationNamespace (loadedObjs env req)

/-- a step fails that is not normalization -/
inductive OtherStepFails (env : Env) (app : App) (req : Request) : Prop
  | load {message : String} (h : loadTargets env req = .failed message)
  | live {err : String} (h : env.getManagedLiveObjs (runStages env app req).targets = .error err)
  | permission {o : ResourceKey × Obj} {err : String} (ho : o ∈ (runStages env app req).live)
      (h : env.isLiveResourcePermitted o.2 = .error err)
  | managedNamespace {o : ResourceKey × Obj} {err : String} (ho : o ∈ (runStages env app req).permitted)
      (hmanaged : isManagedNamespace app o.2 = true)
      (hexists : (runStages env app req).normalized.any (isManagedNamespace app) = false)
      (h : managedNamespace env o.2 = .error err)
  | diff {err : String} (h : env.stateDiffs (runStages env app req).reconciliation = .error err)

def StepFails (env : Env) (app : App) (req : Request) : Prop :=
  NormalizationFails env app req ∨ OtherStepFails env app req

theorem failed_iff : (runStages env app req).notes.failedToLoadObjs = true ↔ OtherStepFails env app req := by
  unfold runStages
  simp only [failed_diffStage, failed_namespaceStage, failed_permittedStage, failed_liveStage, failed_excludeStage,
    failed_normalizeStage, failed_loadStage]
  constructor
  · intro h
    rcases h with (((⟨_, h⟩ | ⟨_, h⟩) | ⟨o, ho, _, h⟩) | ⟨o, ho, hm, he, _, h⟩) | ⟨_, h⟩
    · exact .load h
    · exact .live h
    · exact .permission ho h
    · exact .managedNamespace ho hm he h
    · exact .diff h
  · intro h
    cases h with
    | load h => exact .inl (.inl (.inl (.inl ⟨_, h⟩)))
    | live h => exact .inl (.inl (.inl (.inr ⟨_, h⟩)))
    | permission ho h => exact .inl (.inl (.inr ⟨_, ho, _, h⟩))
    | managedNamespace ho hm he h => exact .inl (.inr ⟨_, ho, hm, he, _, h⟩)
    | diff h => exact .inr ⟨_, h⟩

theorem syncCode_unknown_iff {failed : Bool} {resources : List (ResourceStatus × Bool × List Condition)} :
    syncCode app failed resources = .unknown ↔ failed = true := by
  unfold syncCode
  split_ifs with hf <;> simp [hf]

/-! ## After a failed normalization -/

/-- the namespaces that are compared with live ones -/
def managedNamespaces (env : Env) (app : App) (live : LiveObjs) : List Obj :=
  live.filterMap fun o => if isManagedNamespace app o.2 then (managedNamespace env o.2).toOption else none

def isPermitted (env : Env) (o : ResourceKey × Obj) : Bool := env.isLiveResourcePermitted o.2 = .ok true

/-- the steps other than normalization succeed on an empty list of targets -/
def NothingElseFails (env : Env) (app : App) (req : Request) : Prop :=
  (∀ message, loadTargets env req ≠ .failed message) ∧ ∃ live, env.getManagedLiveObjs [] = .ok live ∧
    (∀ o ∈ live, ∃ permitted, env.isLiveResourcePermitted o.2 = .ok permitted) ∧
    (∀ o ∈ live.filter (isPermitted env), isManagedNamespace app o.2 = true →
      ∃ ns, managedNamespace env o.2 = .ok ns) ∧
    ∃ diffs, env.stateDiffs (env.reconcile
      (partitionTargetObjsForSync (managedNamespaces env app (live.filter (isPermitted env)))).syncObjs
      (live.filter (isPermitted env))) = .ok diffs

theorem permittedStage_fst {live : LiveObjs}
    (h : ∀ o ∈ live, ∃ permitted, env.isLiveResourcePermitted o.2 = .ok permitted) :
    (permittedStage env app live n).1 = live.filter (isPermitted env) := by
  induction live generalizing n with
  | nil => rfl
  | cons o later ih =>
    obtain ⟨⟨permitted, ho⟩, hl⟩ := forall_mem_cons.mp h
    unfold permittedStage
    cases permitted with
    | true => simp [ho, ih hl, isPermitted]
    | false => simp [ho, ih hl, isPermitted]

theorem namespaceStage_fst {live : LiveObjs} {targets : List Obj}
    (h : ∀ o ∈ live, isManagedNamespace app o.2 = true → ∃ ns, managedNamespace env o.2 = .ok ns) :
    (namespaceStage env app false live targets n).1 = targets ++ managedNamespaces env app live := by
  induction live generalizing targets n with
  | nil => simp [namespaceStage, managedNamespaces]
  | cons o later ih =>
    obtain ⟨ho, hl⟩ := forall_mem_cons.mp h
    unfold namespaceStage
    by_cases hm : isManagedNamespace app o.2 = true
    · obtain ⟨ns, hns⟩ := ho hm
      simp [hm, hns, ih hl, managedNamespaces, Except.toOption]
    · simp [hm, ih hl, managedNamespaces]

/-- without targets, the other steps fail unless they all succeed -/
theorem otherStepFails_iff (hn : NormalizationFails env app req) :
    ¬OtherStepFails env app req ↔ NothingElseFails env app req := by
  obtain ⟨err, he⟩ := normalizeTargetObjects_error_iff.mpr hn
  have hno : ∀ n, (normalizeStage env app (loadedObjs env req) n).1 = [] := by
    intro n
    simp [normalizeStage, he]
  rw [← failed_iff]
  unfold runStages
  simp only [failed_diffStage, failed_namespaceStage, failed_permittedStage, failed_liveStage, failed_excludeStage,
    failed_normalizeStage, failed_loadStage, not_or]
  simp only [show (loadStage (loadTargets env req)).1.targetObjs = loadedObjs env req from rfl, hno, excludeStage,
    filter_nil, any_nil]
  unfold NothingElseFails liveStage
  cases hli : env.getManagedLiveObjs [] with
  | error err => simp
  | ok live =>
    simp only [Except.ok.injEq, exists_eq_left', reduceCtorEq, exists_false, not_false_eq_true, and_true, and_assoc,
      exists_ok_iff, not_exists, not_and]
    refine and_congr_right fun _ => and_congr_right fun hp => ?_
    rw [permittedStage_fst (by simpa only [exists_ok_iff, not_exists] using hp)]
    simp only [true_implies]
    refine and_congr_right fun hns => ?_
    rw [namespaceStage_fst (by simpa only [exists_ok_iff, not_exists] using hns), nil_append]

/-- **No verdict on an unknown target**, exactly when normalization is not the only step that fails. -/
theorem unknown_target_iff (env : Env) (app : App) (req : Request) (r : ComparisonResult)
    (h : compareAppState env app req = .result r) :
    (StepFails env app req → r.status = .unknown) ↔
      ¬(env.settings = .ok () ∧ NormalizationFails env app req ∧ NothingElseFails env app req) := by
  have hc : NormalizationFails env app req ∧ NothingElseFails env app req ↔
      NormalizationFails env app req ∧ ¬OtherStepFails env app req :=
    and_congr_right fun hn => (otherStepFails_iff hn).symm
  unfold compareAppState at h
  split at h
  · next err hs =>
    cases h
    simp [unknownResult, hs]
  · next hs =>
    have hst : r.status = .unknown ↔ OtherStepFails env app req := by
      split at h
      · cases h
      · split at h
        · cases h
        · cases h
          rw [← failed_iff]
          exact syncCode_unknown_iff
    rw [StepFails]
    tauto

/-! ## A target that cannot be tracked -/

def plainApp : App := ⟨"app", "cd/app", "default", "default", none, [], none⟩

def configMap (ns : String) : Obj :=
  ⟨"", "v1", "ConfigMap", ns, "config", "", [], [], false, "1", [], none, none, []⟩

/-- a comparison of one target with the live objects, everything else going well -/
def compareEnv (target : Obj) (live : LiveObjs) (setAppInstance : Obj → Except String Obj) : Env where
  settings := .ok ()
  destCluster := .ok ()
  now := 0
  repoErrorGracePeriod := 0
  firstSeen := none
  getRepoObjs _ := .ok ⟨[some target], [], false⟩
  hasCriteria := false
  unmarshal _ := .error "not a manifest"
  target := ⟨fun _ _ => true, setAppInstance, id, fun _ => .refl _⟩
  isExcludedResource _ _ := false
  getManagedLiveObjs _ := .ok live
  isLiveResourcePermitted _ := .ok true
  getAppName _ := "app"
  newNamespace _ := .error "no namespace"
  syncNamespace ns _ := .ok ns
  reconcile targets live := ⟨targets.map (fun o => (some o, none)) ++ live.map (fun o => (none, some o.2)), []⟩
  gvkParser := .ok ()
  serverSideDiff := false
  dryRunApplier := .ok ()
  stateDiffs r := .ok (r.pairs.map fun _ => false)
  isSelfReferencedObj _ _ := true
  isNamespaced _ := (true, none)
  isGroupKindNamePermitted _ _ := true
  health _ := ⟨.healthy, "", none⟩
  verifySignature _ := none

def plainRequest : Request := ⟨["HEAD"], [⟨"repo", ".", "HEAD", ""⟩], false, [], false⟩

def Outcome.statusOf : Outcome → Option SyncStatusCode
  | .result r => some r.status
  | _ => none

/-- **A verdict on an unknown target.** Tracking metadata cannot be set on the only target. Without live objects the
application is Synced, and with one it is OutOfSync, as if the object were to be pruned. -/
theorem verdict_on_unknown_target :
    let failing := fun _ : Obj => (.error "failed to set annotations" : Except String Obj)
    let empty := compareEnv (configMap "") [] failing
    let one := compareEnv (configMap "") [((configMap "default").key, configMap "default")] failing
    StepFails empty plainApp plainRequest ∧
      (compareAppState empty plainApp plainRequest).statusOf = some .synced ∧
      StepFails one plainApp plainRequest ∧
      (compareAppState one plainApp plainRequest).statusOf = some .outOfSync := by
  refine ⟨.inl ⟨configMap "", by decide +kernel, configMap "default", by decide +kernel, _, rfl⟩, by decide +kernel,
    .inl ⟨configMap "", by decide +kernel, configMap "default", by decide +kernel, _, rfl⟩, by decide +kernel⟩

/-- a comparison whose live objects cannot be listed -/
def listingFails : Env :=
  { compareEnv (configMap "default") [] .ok with getManagedLiveObjs := fun _ => .error "timeout" }

theorem unknown_target_listing_fails :
    StepFails listingFails plainApp plainRequest ∧
      ∃ r, compareAppState listingFails plainApp plainRequest = .result r ∧ r.status = .unknown := by
  have hf : StepFails listingFails plainApp plainRequest := .inr (.live rfl)
  refine ⟨hf, _, rfl, ?_⟩
  refine (unknown_target_iff listingFails plainApp plainRequest _ rfl).mpr ?_ hf
  intro ⟨_, _, _, live, hl, _⟩
  cases hl

end GitOpsDeploy.Compare

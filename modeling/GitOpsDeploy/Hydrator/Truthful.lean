/-
What the status of a hydrated group says.
-/
import GitOpsDeploy.Core.Trace
import GitOpsDeploy.Hydrator.Group

namespace GitOpsDeploy.Hydrator

open List

/-! ## Manifests -/

variable {env : Env}

variable {rev drySHA : String} {others apps : List Application} {first : Application}

theorem getManifests_ok {app : Application} {details : String × PathDetails}
    (h : getManifests env app rev = .ok details) :
    ∃ resp, env.getRepoObjs app (if rev = "" then app.sourceHydrator.drySource.targetRevision else rev) =
        .ok resp ∧
      details = (resp.revision, ⟨app.sourceHydrator.syncSource.path, resp.manifests, resp.commands⟩) := by
  unfold getManifests at h
  dsimp only at h
  split at h
  · cases h
  · next resp ho =>
    refine ⟨resp, ho, ?_⟩
    split_ifs at h with hc
    · split at h
      · cases h
      · cases h
      · exact (Except.ok.inj h).symm
    · exact (Except.ok.inj h).symm

/-- the manifests of an application, generated at the dry revision, or at a target revision that resolves to it -/
def ManifestsAt (env : Env) (app : Application) (drySHA : String) (resp : ManifestResponse) : Prop :=
  env.getRepoObjs app (if drySHA = "" then app.sourceHydrator.drySource.targetRevision else drySHA) = .ok resp ∨
  env.getRepoObjs app app.sourceHydrator.drySource.targetRevision = .ok resp ∧ resp.revision = drySHA

/-- the paths hold the manifests of the application, at its sync path -/
def Contains (env : Env) (drySHA : String) (paths : List PathDetails) (app : Application) : Prop :=
  ∃ resp, ManifestsAt env app drySHA resp ∧
    ⟨app.sourceHydrator.syncSource.path, resp.manifests, resp.commands⟩ ∈ paths

theorem collect_clean {first : PathDetails} (h : (others.foldl (collect env rev) ([first], ∅)).2.keys = []) :
    ∀ app ∈ others, Contains env rev (others.foldl (collect env rev) ([first], ∅)).1 app := by
  refine (Trace.foldl_clean (fun s : List PathDetails × ErrorsByApp => s.2.keys = [])
    (fun app s => Contains env rev s.1 app) ?_ ?_ others ([first], ∅) h).2
  · intro s app hc
    unfold collect at hc ⊢
    cases hm : getManifests env app rev with
    | error err =>
      rw [hm] at hc
      cases hc
    | ok details =>
      rw [hm] at hc
      obtain ⟨resp, ho, rfl⟩ := getManifests_ok hm
      exact ⟨hc, resp, .inl ho, mem_append_right _ (mem_singleton_self _)⟩
  · rintro s app other ⟨resp, hat, hme⟩
    refine ⟨resp, hat, ?_⟩
    unfold collect
    cases getManifests env app rev with
    | error err => exact hme
    | ok details => exact mem_append_left _ hme

theorem first_mem_collect (others : List Application) (first : PathDetails) :
    first ∈ (others.foldl (collect env rev) ([first], ∅)).1 := by
  refine List.foldlRecOn (motive := fun s : List PathDetails × ErrorsByApp => first ∈ s.1) others _
    (mem_singleton_self _) fun s hs app _ => ?_
  unfold collect
  cases getManifests env app rev with
  | error err => exact hs
  | ok details => exact mem_append_left _ hs

/-! ## Hydration -/

def HydrateResult.Failed (r : HydrateResult) : Prop := r.err ≠ none ∨ r.errors.keys ≠ []

/-- a commit for the dry revision contains the manifests of all applications, and gave the hydrated revision -/
def Committed (env : Env) (apps : List Application) (commits : List CommitHydratedManifestsRequest)
    (drySHA hydratedSHA : String) : Prop :=
  ∃ request ∈ commits, env.commitHydratedManifests request = .ok hydratedSHA ∧ request.drySha = drySHA ∧
    ∀ app ∈ apps, Contains env drySHA request.paths app

/-- the revisions are those of the last successful operation of the first application -/
def Skipped (apps : List Application) (drySHA hydratedSHA : String) : Prop :=
  ∃ first ∈ apps.head?, ∃ op ∈ first.status.lastSuccessfulOperation, op.drySHA = drySHA ∧
    op.hydratedSHA = hydratedSHA

/-- the three ends of a hydration -/
def Ends (env : Env) (apps : List Application) (commits : List CommitHydratedManifestsRequest) (r : HydrateResult) : Prop :=
  r.Failed ∨ Committed env apps commits r.drySHA r.hydratedSHA ∨ Skipped apps r.drySHA r.hydratedSHA

/-- what the steps of a hydration return, and the commits they make -/
def Concludes (env : Env) (apps : List Application) (o : Hydrating HydrateResult) : Prop :=
  Ends env apps o.calls (returned o)

theorem ends_of_error (commits : List CommitHydratedManifestsRequest) (drySHA err : String) :
    Ends env apps commits ⟨drySHA, "", ∅, some err⟩ := .inl (.inl (Option.some_ne_none err))

/-- a step that may fail for all -/
theorem attempt_ends {A : Type} {f : A → Hydrating HydrateResult} {message : String} {x : Except String A}
    (hok : ∀ a, Concludes env apps (f a)) : Concludes env apps (attempt drySHA message x >>= f) := by
  cases x with
  | error err => exact ends_of_error _ _ _
  | ok a => exact hok a

theorem firstManifests_ends {f : String × PathDetails → Hydrating HydrateResult}
    (hok : ∀ resp, env.getRepoObjs first first.sourceHydrator.drySource.targetRevision = .ok resp → Concludes env apps
      (f (resp.revision, ⟨first.sourceHydrator.syncSource.path, resp.manifests, resp.commands⟩))) :
    Concludes env apps (firstManifests env first >>= f) := by
  unfold firstManifests
  cases hf : getManifests env first "" with
  | error err => exact .inl (.inr (by simp [returned, Script.stop, bind]))
  | ok details =>
    obtain ⟨resp, ho, rfl⟩ := getManifests_ok hf
    exact hok resp ho

theorem skipHydrated_ends {f : Unit → Hydrating HydrateResult} (hok : Concludes env (first :: others) (f ())) :
    Concludes env (first :: others) (skipHydrated first drySHA >>= f) := by
  unfold skipHydrated
  cases hop : first.status.lastSuccessfulOperation with
  | none => exact hok
  | some op =>
    dsimp only
    split_ifs with hd
    · exact .inr (.inr ⟨first, rfl, op, hop, hd.symm, rfl⟩)
    · exact hok

theorem otherManifests_ends {details : PathDetails} {f : List PathDetails → Hydrating HydrateResult}
    (hf : Contains env drySHA [details] first)
    (hok : ∀ paths, (∀ app ∈ first :: others, Contains env drySHA paths app) →
      Concludes env (first :: others) (f paths)) :
    Concludes env (first :: others) (otherManifests env drySHA details others >>= f) := by
  unfold otherManifests
  dsimp only
  split_ifs with hc
  · refine hok _ fun app ha => ?_
    rcases mem_cons.mp ha with rfl | ha
    · obtain ⟨resp, hat, hm⟩ := hf
      rw [mem_singleton] at hm
      refine ⟨resp, hat, ?_⟩
      rw [hm]
      exact first_mem_collect others details
    · exact collect_clean hc app ha
  · exact .inl (.inr hc)

theorem commit_ends {request : CommitHydratedManifestsRequest}
    (hd : request.drySha = drySHA) (hc : ∀ app ∈ apps, Contains env drySHA request.paths app) :
    Concludes env apps (commit env drySHA request >>= fun hydratedSHA => pure ⟨drySHA, hydratedSHA, ∅, none⟩) := by
  unfold commit
  cases hcl : env.newCommitServerClient with
  | error err => exact ends_of_error _ _ _
  | ok _ =>
    cases hco : env.commitHydratedManifests request with
    | error err => exact ends_of_error _ _ _
    | ok hydratedSHA =>
      exact .inr (.inl ⟨request, mem_singleton_self _, hco, hd, hc⟩)

theorem hydrate_ends (projects : List String) (hne : apps ≠ []) : Concludes env apps (hydrate env projects apps) := by
  cases apps with
  | nil => exact absurd rfl hne
  | cons first others =>
    refine firstManifests_ends fun resp ho => ?_
    refine skipHydrated_ends ?_
    refine otherManifests_ends ⟨resp, .inr ⟨ho, rfl⟩, mem_singleton_self _⟩ fun paths hp => ?_
    refine attempt_ends fun metadata => ?_
    refine attempt_ends fun repo => ?_
    refine attempt_ends fun template => ?_
    refine attempt_ends fun commitMessage => ?_
    refine attempt_ends fun readmeMessage => ?_
    refine attempt_ends fun authorName => ?_
    refine attempt_ends fun authorEmail => ?_
    exact commit_ends rfl hp

/-! ## The status of the group -/

/-- what an application is and how it is hydrated; a queue item changes nothing of it -/
def Application.identity (app : Application) : String × String × String × SourceHydrator :=
  (app.ns, app.name, app.project, app.sourceHydrator)

def Application.IsFailed (app : Application) : Prop := ∃ op ∈ app.status.currentOperation, op.phase = .failed

def Application.IsHydrated (app : Application) (drySHA hydratedSHA : String) : Prop :=
  ∃ op ∈ app.status.currentOperation, op.phase = .hydrated ∧ op.drySHA = drySHA ∧ op.hydratedSHA = hydratedSHA

section Status

variable (now finishedAt : Time) (app : Application)

theorem markAppHydrating_operation : ∃ op, (markAppHydrating now app).status.currentOperation = some op := by
  unfold markAppHydrating
  split_ifs with hr
  · obtain ⟨op, hop, -⟩ := of_decide_eq_true hr
    exact ⟨op, hop⟩
  · exact ⟨_, rfl⟩

theorem markAppHydrating_lastSuccessful :
    (markAppHydrating now app).status.lastSuccessfulOperation = app.status.lastSuccessfulOperation := by
  unfold markAppHydrating
  split_ifs <;> rfl

theorem recordDrySHA_operation {drySHA : String} (h : ∃ op, app.status.currentOperation = some op) :
    ∃ op, (recordDrySHA drySHA app).status.currentOperation = some op := by
  obtain ⟨op, hop⟩ := h
  unfold recordDrySHA
  split_ifs
  · exact ⟨op, hop⟩
  · exact ⟨{ op with drySHA }, by simp [hop]⟩

variable {app}

theorem failWith_isFailed {errors : ErrorsByApp} (h : ∃ op, app.status.currentOperation = some op) :
    (failWith finishedAt errors app).IsFailed := by
  obtain ⟨op, hop⟩ := h
  simp [failWith, setAppHydratorError, Application.IsFailed, hop]

theorem setAppHydrated_isHydrated {drySHA hydratedSHA : String} (h : ∃ op, app.status.currentOperation = some op) :
    (setAppHydrated finishedAt drySHA hydratedSHA app).IsHydrated drySHA hydratedSHA := by
  obtain ⟨op, hop⟩ := h
  simp [setAppHydrated, Application.IsHydrated, hop]

variable (app)

@[simp] theorem identity_mark : (markAppHydrating now app).identity = app.identity := by
  unfold markAppHydrating
  split_ifs <;> rfl

@[simp] theorem identity_failWith (errors : ErrorsByApp) : (failWith finishedAt errors app).identity = app.identity := rfl

@[simp] theorem identity_recordDrySHA (drySHA : String) : (recordDrySHA drySHA app).identity = app.identity := by
  unfold recordDrySHA
  split_ifs <;> rfl

@[simp] theorem identity_setAppHydrated (drySHA hydratedSHA : String) :
    (setAppHydrated finishedAt drySHA hydratedSHA app).identity = app.identity := by
  unfold setAppHydrated
  cases app.status.currentOperation <;> rfl

end Status

/-- an error for all is the error of each application, so it does not go unnoticed -/
theorem appErrors_of_failed {apps : List Application} {r : HydrateResult} (hne : apps ≠ []) (h : r.Failed) :
    (appErrors apps r).keys ≠ [] := by
  unfold appErrors
  cases he : r.err with
  | none => exact h.resolve_left (fun hs => hs he)
  | some err =>
    obtain ⟨others, app, rfl⟩ := eq_nil_or_concat apps |>.resolve_left hne
    simp [AList.keys_insert]

theorem skipped_of_marked {now : Time} {listed : List Application} {drySHA hydratedSHA : String}
    (h : Skipped (listed.map (markAppHydrating now)) drySHA hydratedSHA) : Skipped listed drySHA hydratedSHA := by
  obtain ⟨first, hf, op, hop, hr⟩ := h
  cases listed with
  | nil => cases hf
  | cons app others =>
    obtain rfl : markAppHydrating now app = first := Option.some.inj hf
    rw [markAppHydrating_lastSuccessful] at hop
    exact ⟨app, rfl, op, hop, hr⟩

theorem processHydrationQueueItem_identity (env : Env) (now finishedAt : Time) (listed : List Application) :
    (processHydrationQueueItem env now finishedAt listed).apps.map (·.identity) = listed.map (·.identity) := by
  unfold processHydrationQueueItem
  dsimp only
  split_ifs <;> simp [Function.comp_def]

/-- **A group of applications is Failed as a whole or Hydrated as a whole, with one dry and one hydrated revision.** It is
Hydrated only after a commit for the dry revision with the manifests of every application at its sync path, or if the
first application was hydrated for that revision before. -/
theorem hydration_truthful (env : Env) (now finishedAt : Time) (listed : List Application) :
    let item := processHydrationQueueItem env now finishedAt listed
    item.apps.map (·.identity) = listed.map (·.identity) ∧
    ((∀ app ∈ item.apps, app.IsFailed) ∨
      ∃ drySHA hydratedSHA, (∀ app ∈ item.apps, app.IsHydrated drySHA hydratedSHA) ∧
        (Committed env (listed.map (markAppHydrating now)) item.commits drySHA hydratedSHA ∨
          Skipped listed drySHA hydratedSHA)) := by
  refine ⟨processHydrationQueueItem_identity env now finishedAt listed, ?_⟩
  have hm : ∀ app ∈ listed.map (markAppHydrating now), ∃ op, app.status.currentOperation = some op := by
    intro app ha
    obtain ⟨before, -, rfl⟩ := mem_map.mp ha
    exact markAppHydrating_operation now before
  by_cases he : listed = []
  · subst he
    exact .inl fun app ha => absurd ha (by simp [processHydrationQueueItem, validateApplications])
  have hne : listed.map (markAppHydrating now) ≠ [] := by simpa using he
  unfold processHydrationQueueItem
  set apps := listed.map (markAppHydrating now)
  set o := hydrate env (validateApplications env apps).projects apps
  have hen : Ends env apps o.calls (returned o) := hydrate_ends _ hne
  dsimp only
  split_ifs with hv her
  · refine .inl fun app ha => ?_
    obtain ⟨before, hb, rfl⟩ := mem_map.mp ha
    exact failWith_isFailed finishedAt (hm before hb)
  · refine .inl fun app ha => ?_
    obtain ⟨before, hb, rfl⟩ := mem_map.mp ha
    exact failWith_isFailed finishedAt (recordDrySHA_operation before (hm before hb))
  · refine .inr ⟨(returned o).drySHA, (returned o).hydratedSHA, ?_, ?_⟩
    · intro app ha
      obtain ⟨before, hb, rfl⟩ := mem_map.mp ha
      exact setAppHydrated_isHydrated finishedAt (hm before hb)
    · rcases hen with hf | hc | hs
      · exact absurd (appErrors_of_failed hne hf) her
      · exact .inl hc
      · exact .inr (skipped_of_marked hs)

/-! ## Hydrated without a commit -/

/-- manifests are generated at d1, and each commit succeeds -/
def steadyEnv : Env where
  getProcessableAppProj _ := .ok ⟨"default", fun _ => true⟩
  hasCriteria _ := false
  getRepoObjs _ _ := .ok ⟨["manifest"], "d1", [], .absent⟩
  getRevisionMetadata _ _ _ := .ok "metadata"
  getWriteCredentials _ _ := .ok none
  getHydratorCommitMessageTemplate := .ok "template"
  getTemplatedCommitMessage _ _ _ _ := .ok "message"
  getHydratorReadmeMessageTemplate := .ok "readme"
  getCommitAuthorName := .ok "name"
  getCommitAuthorEmail := .ok "email"
  newCommitServerClient := .ok ()
  commitHydratedManifests _ := .ok "h2"
  sanitizeRepoURL url := url

def hydrateInto (path : String) : SourceHydrator := ⟨⟨"repo", "HEAD", "app", ""⟩, ⟨"env/dev", path, ""⟩, none⟩

/-- hydrated for d1 -/
def settled : Application :=
  ⟨"argocd", "settled", "default", hydrateInto "settled", ⟨some ⟨"d1", "h1", hydrateInto "settled"⟩, none, "d1"⟩⟩

/-- never hydrated -/
def added : Application := ⟨"argocd", "added", "default", hydrateInto "added", ⟨none, none, ""⟩⟩

/-- hydrated for d1 into the path old, and then configured for the path new -/
def moved : Application :=
  ⟨"argocd", "moved", "default", hydrateInto "new", ⟨some ⟨"d1", "h1", hydrateInto "old"⟩, none, "d1"⟩⟩

/-- An application that joins a group whose first application was hydrated for the revision, and one that was hydrated into
another path, are Hydrated without a commit, and nothing recorded of either says that its manifests are at its path. -/
theorem hydrated_without_commit :
    added.status.lastSuccessfulOperation = none ∧
    moved.status.lastSuccessfulOperation.map (·.sourceHydrator) ≠ some moved.sourceHydrator ∧
    (processHydrationQueueItem steadyEnv 1 2 [settled, added, moved]).commits = [] ∧
    (processHydrationQueueItem steadyEnv 1 2 [settled, added, moved]).apps.map
        (fun app => (app.name, app.status.currentOperation)) =
      [("settled", some ⟨1, some 2, .hydrated, "", "d1", "h1", hydrateInto "settled"⟩),
        ("added", some ⟨1, some 2, .hydrated, "", "d1", "h1", hydrateInto "added"⟩),
        ("moved", some ⟨1, some 2, .hydrated, "", "d1", "h1", hydrateInto "new"⟩)] := by
  decide +kernel

end GitOpsDeploy.Hydrator

/-
The gate of a rolling sync: an application moves to Pending only when the steps before its own are done.
-/
import GitOpsDeploy.AppSet.Promotion
import GitOpsDeploy.AppSet.Selection

namespace GitOpsDeploy.AppSet

open List

variable {Spec : Type}

/-- the application exists and has status Healthy -/
def IsDone (statuses : List ApplicationStatus) (current : List (Application Spec)) (name : String) : Prop :=
  (∃ app ∈ current, app.name = name) ∧ ∃ s, findApplicationStatus statuses name = some s ∧ s.status = .healthy

variable {name : String} {statuses : List ApplicationStatus} {desired : List (Application Spec)}

theorem isDone_of_isStepComplete {current : List (Application Spec)}
    {names : List String} (h : isStepComplete statuses current names = true) (hn : name ∈ names) :
    IsDone statuses current name := by
  have ha := all_eq_true.mp h name hn
  obtain ⟨he, hh⟩ := Bool.and_eq_true_iff.mp ha
  obtain ⟨app, hap, heq⟩ := any_eq_true.mp he
  refine ⟨⟨app, hap, of_decide_eq_true heq⟩, ?_⟩
  cases hf : findApplicationStatus statuses name with
  | none =>
    rw [hf] at hh
    cases hh
  | some s =>
    rw [hf] at hh
    exact ⟨s, rfl, of_decide_eq_true hh⟩

theorem openSteps_opened {current : List (Application Spec)}
    {deps : List (List String)} (h : name ∈ openSteps statuses current deps) :
    ∃ m, Listed deps m name ∧ ∀ j < m, ∀ other, Listed deps j other → IsDone statuses current other := by
  induction deps with
  | nil => simp [openSteps] at h
  | cons names later ih =>
    rw [openSteps, Finset.mem_union] at h
    rcases h with h | h
    · exact ⟨0, ⟨names, rfl, mem_toFinset.mp h⟩, fun j hj => absurd hj (Nat.not_lt_zero j)⟩
    · split_ifs at h with hc
      · obtain ⟨m, ⟨l, hl, hn⟩, hd⟩ := ih h
        refine ⟨m + 1, ⟨l, hl, hn⟩, fun j hj other ⟨l', hl', ho⟩ => ?_⟩
        cases j with
        | zero =>
          cases hl'
          exact isDone_of_isStepComplete hc ho
        | succ j => exact hd j (Nat.lt_of_succ_lt_succ hj) other ⟨l', hl', ho⟩
      · exact absurd h (Finset.notMem_empty name)

theorem lookup_isSome_of_mem_getAppsToSync {appset updated : ApplicationSet} {applications : List (Application Spec)}
    (h : name ∈ getAppsToSync updated (buildAppDependencyList appset desired).appDependencyList applications) :
    ((buildAppDependencyList appset desired).appStepMap.lookup name).isSome := by
  obtain ⟨m, hl, _⟩ := openSteps_opened h
  exact (buildAppDependencyList_mapped appset desired).lookup_isSome m name hl

/-- the statuses of the second write come from the promotion pass over the updated ones -/
theorem performProgressiveSyncs_promoted {env : Env Spec} {stores : Stores} {now later : Time} {appset : ApplicationSet}
    {applications : List (Application Spec)} {p : Performed}
    (h : performProgressiveSyncs env stores now later appset applications desired = some (.ok p)) :
    ∃ issues issues', progressStatuses env.scaling later p.updated
      (getAppsToSync p.updated (buildAppDependencyList appset desired).appDependencyList applications)
      (buildAppDependencyList appset desired).appStepMap issues = some (p.promoted, issues') := by
  unfold performProgressiveSyncs updateApplicationSetApplicationStatusProgress at h
  simp only [Option.bind_eq_bind, Option.bind_eq_some_iff] at h
  obtain ⟨r, _, h⟩ := h
  cases r with
  | error err => cases h
  | ok updated =>
    simp only [Option.bind_eq_some_iff] at h
    obtain ⟨progressed, ⟨x, hx, hp⟩, h⟩ := h
    cases hp
    cases h
    exact ⟨_, x.2, hx⟩

/-- **Rolling sync gate.** -/
theorem rolling_sync_gate {env : Env Spec} {stores : Stores} {now later : Time} {appset : ApplicationSet}
    {applications desired : List (Application Spec)} {p : Performed}
    (h : performProgressiveSyncs env stores now later appset applications desired = some (.ok p))
    {n : ℕ} {s s' : ApplicationStatus} (hs : p.updated.applicationStatus[n]? = some s) (hs' : p.promoted[n]? = some s')
    (hbefore : s.status ≠ .pending) (hafter : s'.status = .pending)
    {i : ℕ} (hfirst : IsFirstStep appset desired i s.application) :
    ∀ j < i, ∀ name, SelectedBy appset desired j name → IsDone p.updated.applicationStatus applications name := by
  obtain ⟨issues, issues', hp⟩ := performProgressiveSyncs_promoted h
  have hpr : Promotes later (getAppsToSync p.updated (buildAppDependencyList appset desired).appDependencyList
      applications) s s' := by
    rcases progressStatuses_promotes hp with hni | ha
    · rw [hni] at hs'
      cases hs'
    · obtain ⟨hn, rfl⟩ := List.getElem?_eq_some_iff.mp hs
      obtain ⟨hn', rfl⟩ := List.getElem?_eq_some_iff.mp hs'
      exact ha.get hn hn'
  have ho : s.application ∈ getAppsToSync p.updated (buildAppDependencyList appset desired).appDependencyList
      applications := by
    rcases hpr with rfl | ⟨hm, _⟩
    · exact absurd hafter hbefore
    · exact of_decide_eq_true (Bool.and_eq_true_iff.mp hm).2
  obtain ⟨m, hl, hd⟩ := openSteps_opened ho
  have him : i ≤ m := by
    by_contra hlt
    exact hfirst.2 m (Nat.lt_of_not_le hlt) ((listed_buildAppDependencyList appset desired m _).mp hl)
  intro j hj name hse
  exact hd j (Nat.lt_of_lt_of_le hj him) name ((listed_buildAppDependencyList appset desired j name).mpr hse)

/-! ## A rollout in two steps -/

/-- an application of the given stage that has no other status -/
def stageApp (name stage : String) (sync : SyncStatusCode) : Application Unit where
  name := name
  labels := [("stage", stage)]
  spec := ()
  health := .healthy
  sync := sync
  syncRevision := "r2"
  syncRevisions := []
  reconciledAt := none
  operationState := none
  conditions := []

def stageStep (stage : String) (maxUpdate : Option IntOrString) : RolloutStep :=
  ⟨[⟨"stage", "In", [stage]⟩], maxUpdate⟩

def rollout (steps : List RolloutStep) (statuses : List ApplicationStatus) : ApplicationSet :=
  ⟨some ⟨"RollingSync", some steps⟩, statuses⟩

/-- the server stores what it is sent -/
def honestStore (appset : ApplicationSet) : Store := ⟨fun _ => ⟨.found appset, .stored⟩, id⟩

def documentedEnv : Env Unit := ⟨fun _ _ => true, .documented⟩

def twoStages : ApplicationSet := rollout [stageStep "dev" none, stageStep "prod" none] []

def stagedApps : List (Application Unit) := [stageApp "a" "dev" .synced, stageApp "b" "prod" .outOfSync]

/-- the first step is done at once, so the application of the second step moves -/
theorem rolling_sync_gate_second_step :
    ∃ p, performProgressiveSyncs documentedEnv ⟨honestStore twoStages, honestStore twoStages⟩ 1 2 twoStages stagedApps
      stagedApps = some (.ok p) ∧ IsDone p.updated.applicationStatus stagedApps "a" := by
  have ha : SelectedBy twoStages stagedApps 0 "a" :=
    ⟨stageStep "dev" none, rfl, stageApp "a" "dev" .synced, mem_cons_self, rfl, by decide⟩
  have hb : IsFirstStep twoStages stagedApps 1 "b" := by
    refine ⟨⟨stageStep "prod" none, rfl, stageApp "b" "prod" .outOfSync, by decide, rfl, by decide⟩, ?_⟩
    intro j hj ⟨step, hst, app, hap, hn, hse⟩
    obtain rfl : j = 0 := by omega
    cases hst
    rcases mem_pair.mp hap with rfl | rfl
    · exact absurd hn (by decide)
    · exact absurd hse (by decide)
  obtain ⟨p, hp, s, hs, hap, hbe, s', hs', haf⟩ : ∃ p, performProgressiveSyncs documentedEnv
      ⟨honestStore twoStages, honestStore twoStages⟩ 1 2 twoStages stagedApps stagedApps = some (.ok p) ∧
      ∃ s, p.updated.applicationStatus[1]? = some s ∧ s.application = "b" ∧ s.status ≠ .pending ∧
      ∃ s', p.promoted[1]? = some s' ∧ s'.status = .pending :=
    ⟨_, rfl, _, rfl, rfl, by decide +kernel, _, rfl, by decide +kernel⟩
  exact ⟨p, hp, rolling_sync_gate hp hs hs' hbe haf (hap ▸ hb) 0 Nat.one_pos "a" ha⟩

end GitOpsDeploy.AppSet

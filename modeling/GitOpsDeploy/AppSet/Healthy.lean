/-
When an application becomes Healthy (`UpdateApplicationSetApplicationStatus` in
`applicationset/progressivesync/progressive_sync.go`).

Three blocks rewrite the status in one pass. The first sets Waiting when the revisions or the spec changed; the second
takes a Waiting application that is synced and healthy to Healthy at once, also one that the first block has just set to
Waiting for a spec that is still to be rolled out.
-/
import GitOpsDeploy.AppSet.Rollout

namespace GitOpsDeploy.AppSet

open List

variable {Spec : Type} {env : Env Spec} {now : Time} {statuses : List ApplicationStatus} {appStepMap : AppStepMap}
  {desired : List (Application Spec)} {app : Application Spec} {current new s : ApplicationStatus}

theorem leavePending_not_healthy (h : leavePending now app current new = some s) (hn : new.status ≠ .healthy) :
    s.status ≠ .healthy := by
  have hno : (leavePending.noSync now app new).status ≠ .healthy := by
    unfold leavePending.noSync
    split_ifs
    · nofun
    · exact hn
  unfold leavePending at h
  split_ifs at h
  · split at h
    · cases h
      exact hno
    · split at h
      · cases h
      · split_ifs at h
        · cases h
          nofun
        · cases h
          exact hno
  · cases h
    exact hn

/-- without a change the status is the stored one, and its revisions are those of the application -/
theorem noteChanges_unchanged {revisions spec : Bool} (h : (noteChanges now app revisions spec new).status ≠ .waiting) :
    revisions = false ∧ spec = false ∧ noteChanges now app revisions spec new = new := by
  unfold noteChanges at h ⊢
  split_ifs at h ⊢ with hc
  · exact absurd rfl h
  · rw [Bool.or_eq_true, not_or, Bool.not_eq_true, Bool.not_eq_true] at hc
    exact ⟨hc.1, hc.2, rfl⟩

/-- the revisions are recorded whether they changed or not -/
theorem targetRevisions_noteChanges {spec : Bool} (h : new.targetRevisions = current.targetRevisions) :
    (noteChanges now app (revisionsChanged current app) spec new).targetRevisions = some app.getRevisions := by
  unfold noteChanges
  split_ifs with hc
  · rfl
  · rw [Bool.or_eq_true, not_or] at hc
    rw [h]
    exact not_not.1 fun hn => hc.1 (decide_eq_true hn)

/-- the pass makes the application Healthy: it is so in the end, and it was not so before or its status has been Waiting on
    the way, for new revisions or a changed spec -/
def BecomesHealthy (env : Env Spec) (now : Time) (statuses : List ApplicationStatus) (appStepMap : AppStepMap)
    (desired : List (Application Spec)) (app : Application Spec) (s : ApplicationStatus) : Prop :=
  let current := currentAppStatus now statuses appStepMap app
  s.status = .healthy ∧
    (current.status = .healthy → revisionsChanged current app = true ∨ specChanged env desired app = true)

theorem newAppStatus_healthy (h : newAppStatus env now statuses appStepMap desired app = some s)
    (hs : BecomesHealthy env now statuses appStepMap desired app s) :
    app.sync = .synced ∧ app.health = .healthy ∧ s.targetRevisions = some app.getRevisions := by
  obtain ⟨hs, hc⟩ := hs
  unfold newAppStatus at h
  dsimp only at h
  split_ifs at h with hw hp hpr
  · cases h
    unfold leaveWaiting moveTo at hs ⊢
    split_ifs at hs ⊢ with hsync hhealth
    · exact ⟨hsync, hhealth, targetRevisions_noteChanges rfl⟩
    · rw [hw] at hs
      cases hs
  · obtain ⟨-, -, he⟩ := noteChanges_unchanged hw
    rw [he] at h
    exact absurd hs (leavePending_not_healthy h (by simp [hp]))
  · obtain ⟨-, -, he⟩ := noteChanges_unchanged hw
    cases h
    unfold leaveProgressing moveTo at hs ⊢
    split_ifs at hs ⊢ with hboth
    · exact ⟨hboth.2, hboth.1, targetRevisions_noteChanges rfl⟩
    · rw [he] at hs
      exact absurd (hpr.symm.trans hs) nofun
  · -- nothing has changed and the status is the stored one
    obtain ⟨hrev, hspec, he⟩ := noteChanges_unchanged hw
    cases h
    rw [he] at hs
    simpa [hrev, hspec] using hc hs

/-- a changed spec does not keep a synced and healthy application from becoming Healthy -/
theorem newAppStatus_of_specChanged (h : newAppStatus env now statuses appStepMap desired app = some s)
    (hspec : specChanged env desired app = true) (hsync : app.sync = .synced) (hhealth : app.health = .healthy) :
    s.status = .healthy := by
  unfold newAppStatus at h
  dsimp only at h
  rw [hspec, noteChanges, Bool.or_true, if_pos rfl, if_pos rfl] at h
  cases h
  rw [leaveWaiting, if_pos hsync, if_pos hhealth]
  rfl

/-- if the application becomes Healthy, it is synced and healthy, its revisions are recorded, and no change of its spec is
    still to come -/
def HealthyInTime (env : Env Spec) (now : Time) (appset : ApplicationSet) (desired : List (Application Spec))
    (appStepMap : AppStepMap) (app : Application Spec) (s : ApplicationStatus) : Prop :=
  BecomesHealthy env now appset.applicationStatus appStepMap desired app s →
    app.sync = .synced ∧ app.health = .healthy ∧ s.targetRevisions = some app.getRevisions ∧
      specChanged env desired app = false

/-- **No premature Healthy, exactly when** no application is synced and healthy while its spec is to change. -/
theorem healthy_in_time_iff (env : Env Spec) (now : Time) (appset : ApplicationSet)
    (applications desired : List (Application Spec)) (appStepMap : AppStepMap) (statuses : List ApplicationStatus)
    (h : appStatuses env now appset applications desired appStepMap = some statuses) :
    Forall₂ (HealthyInTime env now appset desired appStepMap) applications statuses ↔
      ∀ app ∈ applications, app.sync = .synced → app.health = .healthy → specChanged env desired app = false := by
  induction applications generalizing statuses with
  | nil =>
    cases h
    simp
  | cons app applications ih =>
    rw [appStatuses, mapM_cons] at h
    simp only [Option.bind_eq_bind, Option.bind_eq_some_iff] at h
    obtain ⟨s, hs, rest, hrest, he⟩ := h
    cases he
    rw [forall₂_cons, forall_mem_cons, ih rest hrest]
    refine and_congr_left fun _ => ⟨fun ht hsync hhealth => ?_, fun ht hb => ?_⟩
    · rw [Bool.eq_false_iff]
      intro hspec
      have hb := newAppStatus_of_specChanged hs hspec hsync hhealth
      exact absurd hspec (Bool.eq_false_iff.mp (ht ⟨hb, fun _ => .inr hspec⟩).2.2.2)
    · obtain ⟨hsync, hhealth, hrev⟩ := newAppStatus_healthy hs hb
      exact ⟨hsync, hhealth, hrev, ht hsync hhealth⟩

/-- an application that is synced and healthy -/
def calmApp (spec : ℕ) : Application ℕ where
  name := "a"
  labels := []
  spec := spec
  health := .healthy
  sync := .synced
  syncRevision := "r1"
  syncRevisions := []
  reconciledAt := none
  operationState := none
  conditions := []

def exactEnv : Env ℕ := ⟨fun a b => a = b, .documented⟩

/-- an application set that has stored a status of the application -/
def setWith (status : ProgressiveSyncStatusCode) : ApplicationSet :=
  ⟨none, [⟨"a", some 1, "", status, "1", some ["r1"]⟩]⟩

theorem healthy_in_time_same_spec :
    ∃ statuses, appStatuses exactEnv 5 (setWith .progressing) [calmApp 1] [calmApp 1] ∅ = some statuses ∧
      Forall₂ (HealthyInTime exactEnv 5 (setWith .progressing) [calmApp 1] ∅) [calmApp 1] statuses :=
  ⟨_, rfl, (healthy_in_time_iff exactEnv 5 _ [calmApp 1] [calmApp 1] ∅ _ rfl).2 (by decide +kernel)⟩

/-- the application still has spec 1 while spec 2 is desired, and becomes Healthy, from Progressing or once more -/
theorem healthy_before_change :
    specChanged exactEnv [calmApp 2] (calmApp 1) = true ∧
    (∃ s, newAppStatus exactEnv 5 (setWith .progressing).applicationStatus ∅ [calmApp 2] (calmApp 1) = some s ∧
      s.status = .healthy ∧ s.lastTransitionTime = some 5) ∧
    ∃ s, newAppStatus exactEnv 5 (setWith .healthy).applicationStatus ∅ [calmApp 2] (calmApp 1) = some s ∧
      s.status = .healthy ∧ s.lastTransitionTime = some 5 :=
  ⟨by decide +kernel, ⟨_, rfl, by decide +kernel⟩, ⟨_, rfl, by decide +kernel⟩⟩

end GitOpsDeploy.AppSet

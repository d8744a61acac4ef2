/-
Pre-delete hooks finish before anything is deleted, where the cluster does not answer that a hook exists already.

A hook that the listing does not show is created; when the cluster answers that it exists already, nothing is counted
and its health is not looked at, so a listing that lags behind makes `executeHooks` report done.

- `pre_delete_hooks_finish`: hooks reported done have finished exactly when those that exist already are visible; and where
  this is so in every call of a run, nothing is deleted while a pre-delete hook of an earlier call is running.
- Witness: `pre_delete_hooks_finish_prompt`, two calls whose second listing shows the hook.
- `pre_delete_hook_overtaken`: the second listing lags behind.
-/
import GitOpsDeploy.Deletion.Cascade

namespace GitOpsDeploy.Deletion

open List

open Script (mem_calls_bind result_bind)
open Fallible (mapError_eq_ok)

/-! ## Hooks reported done -/

/-- the health of the object is neither Progressing nor Degraded -/
def IsSettled (env : HookEnv) (m : Managed) : Prop :=
  ∃ code, hookHealth env.health m = .ok code ∧ code ≠ .progressing ∧ code ≠ .degraded

/-- every hook that has to be created exists already, and every running hook is settled -/
structure HooksDone (env : HookEnv) (t : HookType) (app : App) (live : List Managed) (targets : List Sync.Obj) : Prop where
  settings : env.settings = .ok ()
  loaded : env.targets = .ok targets
  exist : ∀ o ∈ expectedHooks t app targets live, ∃ obj, env.setAppInstance o = .ok obj ∧
    env.create obj = .alreadyExists
  overrides : env.overrides = .ok ()
  settled : ∀ m ∈ runningHooks t live, IsSettled env m

variable {n i : ℕ} {t : HookType} {app : App} {live : List Managed} {o : Sync.Obj} {key : ResourceKey}

variable (finalizers : List String) {env : HookEnv}

theorem createHooks_zero {hooks : List Sync.Obj} : (createHooks env t hooks n).result = .ok 0 ↔
      n = 0 ∧ ∀ o ∈ hooks, ∃ obj, env.setAppInstance o = .ok obj ∧ env.create obj = .alreadyExists := by
  induction hooks generalizing n with
  | nil => simp [createHooks]
  | cons hook later ih =>
    simp only [createHooks, result_bind, Script.result_lift, Script.result_emit, mapError_eq_ok, forall_mem_cons,
      ← exists_and_right, ← exists_and_left]
    refine exists_congr fun obj => ?_
    cases env.create obj with
    | created => simp [ih]
    | alreadyExists => simp [ih, and_left_comm]
    | failed err => simp

theorem countHooks_ok {hooks : List Managed} {start counts : HookCounts}
    (h : countHooks env.health hooks start = .ok counts) :
    start.progressing ≤ counts.progressing ∧ start.failed.length ≤ counts.failed.length := by
  induction hooks generalizing start with
  | nil =>
    cases h
    exact ⟨le_rfl, le_rfl⟩
  | cons m later ih =>
    unfold countHooks at h
    split at h
    · cases h
    · exact ⟨(Nat.le_succ _).trans (ih h).1, (ih h).2⟩
    · refine ⟨(ih h).1, le_trans ?_ (ih h).2⟩
      simp
    · exact ih h

theorem countHooks_zero {hooks : List Managed} {start : HookCounts} :
    countHooks env.health hooks start = .ok ⟨0, []⟩ ↔ start = ⟨0, []⟩ ∧ ∀ m ∈ hooks, IsSettled env m := by
  induction hooks generalizing start with
  | nil => simp [countHooks]
  | cons m later ih =>
    unfold countHooks
    cases hm : hookHealth env.health m with
    | error err => simp [IsSettled, hm]
    | ok code =>
      cases code with
      | progressing =>
        refine iff_of_false (fun h => ?_) (by simp [IsSettled, hm])
        exact absurd (countHooks_ok h).1 (by simp)
      | degraded =>
        refine iff_of_false (fun h => ?_) (by simp [IsSettled, hm])
        exact absurd (countHooks_ok h).2 (by simp)
      | _ =>
        have hs : IsSettled env m := ⟨_, hm, by simp, by simp⟩
        simpa [hs] using ih

theorem executeHooks_done_iff :
    (executeHooks env t app live).result = .ok true ↔ ∃ targets, HooksDone env t app live targets := by
  have hor : ∀ targets o, o ∈ env.order (expectedHooks t app targets live) ↔ o ∈ expectedHooks t app targets live :=
    fun targets o => (env.order_perm _).mem_iff
  unfold executeHooks
  simp only [result_bind, Script.result_lift]
  constructor
  · intro ⟨_, hs, targets, ht, created, hcr, h⟩
    split at h
    · cases h
    · rename_i hz
      obtain rfl : created = 0 := by omega
      simp only [result_bind, Script.result_lift] at h
      obtain ⟨_, hov, counts, hc, h⟩ := h
      split at h
      · simp [result_bind] at h
      · rename_i hf
        obtain rfl : counts = ⟨0, []⟩ := by
          cases counts
          simp_all
        refine ⟨targets, hs, ht, ?_, hov, (countHooks_zero.mp hc).2⟩
        intro o ho
        exact (createHooks_zero.mp hcr).2 o ((hor targets o).mpr ho)
  · intro ⟨targets, h⟩
    refine ⟨(), h.settings, targets, h.loaded, 0, createHooks_zero.mpr ⟨rfl, ?_⟩, ?_⟩
    · intro o ho
      exact h.exist o ((hor targets o).mp ho)
    · have hc : countHooks env.health (runningHooks t live) ⟨0, []⟩ = .ok ⟨0, []⟩ :=
        countHooks_zero.mpr ⟨rfl, h.settled⟩
      simp [result_bind, h.overrides, hc]

/-- every target hook is listed and settled -/
def HooksFinished (env : HookEnv) (t : HookType) (app : App) (live : List Managed) : Prop :=
  ∀ targets, env.targets = .ok targets → ∀ o ∈ targetHooks t app targets, ∃ m ∈ live, m.key = o.key ∧
    IsSettled env m

/-- hooks that exist already, although no live hook has their key, are listed and settled where nothing else is open -/
def HooksVisible (env : HookEnv) (t : HookType) (app : App) (live : List Managed) : Prop :=
  ∀ targets, HooksDone env t app live targets →
    ∀ o ∈ expectedHooks t app targets live, ∃ m ∈ live, m.key = o.key ∧ IsSettled env m

theorem keepLast_subset (l : List Sync.Obj) : expectedHooks.keepLast l ⊆ l := by
  induction l with
  | nil => simp [expectedHooks.keepLast]
  | cons o later ih =>
    unfold expectedHooks.keepLast
    split_ifs
    · exact subset_cons_of_subset o ih
    · exact cons_subset_cons o ih

theorem exists_mem_keepLast {l : List Sync.Obj} (ho : o ∈ l) : ∃ p ∈ expectedHooks.keepLast l, p.key = o.key := by
  induction l generalizing o with
  | nil => exact absurd ho (by simp)
  | cons q later ih =>
    unfold expectedHooks.keepLast
    rcases mem_cons.mp ho with rfl | hl
    · split_ifs with ha
      · obtain ⟨p, hp, hk⟩ := any_eq_true.mp ha
        obtain ⟨r, hr, hrk⟩ := ih hp
        exact ⟨r, hr, hrk.trans (by simpa using hk)⟩
      · exact ⟨o, mem_cons_self, rfl⟩
    · obtain ⟨r, hr, hrk⟩ := ih hl
      split_ifs
      · exact ⟨r, hr, hrk⟩
      · exact ⟨r, mem_cons_of_mem q hr, hrk⟩

theorem expectedHooks_subset (t : HookType) (app : App) (targets : List Sync.Obj) (live : List Managed) :
    expectedHooks t app targets live ⊆ targetHooks t app targets :=
  fun _ ho => (mem_filter.mp (keepLast_subset _ ho)).1

/-- a target hook runs already, or a hook with its key is to be created -/
theorem running_or_expected {targets : List Sync.Obj} (live : List Managed) (ho : o ∈ targetHooks t app targets) :
    (∃ m ∈ runningHooks t live, m.key = o.key) ∨ ∃ p ∈ expectedHooks t app targets live, p.key = o.key := by
  by_cases hr : ∃ m ∈ runningHooks t live, m.key = o.key
  · exact .inl hr
  · refine .inr (exists_mem_keepLast (mem_filter.mpr ⟨ho, ?_⟩))
    simpa using hr

theorem HooksDone.listed {targets : List Sync.Obj}
    (h : HooksDone env t app live targets) (hv : HooksVisible env t app live)
    (ho : o ∈ targetHooks t app targets) : ∃ m ∈ live, m.key = o.key ∧ IsSettled env m := by
  rcases running_or_expected live ho with ⟨m, hm, hk⟩ | ⟨p, hp, hk⟩
  · exact ⟨m, mem_of_mem_filter hm, hk, h.settled m hm⟩
  · obtain ⟨m, hm, hmk, hs⟩ := hv targets h p hp
    exact ⟨m, hm, hmk.trans hk, hs⟩

theorem hooksFinished_iff (env : HookEnv) (t : HookType) (app : App) (live : List Managed) :
    ((executeHooks env t app live).result = .ok true → HooksFinished env t app live) ↔ HooksVisible env t app live := by
  rw [executeHooks_done_iff]
  constructor
  · intro hf targets h o ho
    exact hf ⟨targets, h⟩ targets h.loaded o (expectedHooks_subset t app targets live ho)
  · intro hv ⟨targets, h⟩ targets' ht o ho
    obtain rfl : targets = targets' := Except.ok.inj (h.loaded.symm.trans ht)
    exact h.listed hv ho

/-! ## What one call does to the finalizers -/

/-- the finalizers in the cluster after a call; a patch that is answered with an error may have been applied -/
def afterCall : Call → List String
  | .patchFinalizers fs .stored => fs
  | .patchFinalizers fs (.failed _ true) => fs
  | _ => finalizers

def storedAfter (calls : List Call) : List String := calls.foldl afterCall finalizers

theorem storedAfter_of_patches {P : List String → Prop} {finalizers : List String} {calls : List Call}
    (hs : P finalizers) (hp : ∀ fs answer, .patchFinalizers fs answer ∈ calls → P fs) :
    P (storedAfter finalizers calls) := by
  refine List.foldlRecOn calls afterCall hs ?_
  intro fs hfs e he
  unfold afterCall
  split
  · exact hp _ _ he
  · exact hp _ _ he
  · exact hfs

theorem preDeleteStage_subset {env : CallEnv} {app' : App} (h : (preDeleteStage env app).result = .ok app') :
    app'.finalizers ⊆ app.finalizers := by
  rcases preDeleteStage_ok h with ⟨rfl, _⟩ | ⟨_, rfl, _⟩
  · exact List.Subset.refl _
  · exact setHookFinalizer_subset app _ _

theorem patch_subset {env : CallEnv} {fs : List String} {answer : PatchAnswer}
    (hfs : .patchFinalizers fs answer ∈ (finalizeApplicationDeletion env).calls) :
    ∃ app, env.getApp = .ok app ∧ fs ⊆ app.finalizers := by
  obtain ⟨app, hg, h⟩ := issued hfs
  refine ⟨app, hg, ?_⟩
  cases h with
  | undefined _ hs _ => exact hs
  | preHook _ _ h => cases executeHooks_calls _ h
  | preDone => exact setHookFinalizer_subset app _ _
  | later ha' _ _ h =>
    refine List.Subset.trans ?_ (preDeleteStage_subset ha')
    cases h with
    | emptied => exact Slices.rangeRemove_subset _ _
    | hook h => cases h
    | released => exact setHookFinalizer_subset _ _ _

/-- the pre-delete hooks are reported done in the call -/
def ReportsDone (env : CallEnv) : Prop :=
  ∃ app live, env.getApp = .ok app ∧ getPermittedAppLiveObjects env.preListing = .ok live ∧
    (executeHooks env.preHooks .preDelete app live).result = .ok true

/-- the pre-delete finalizer goes when the hooks are done, or together with the cascade -/
theorem preDelete_kept {env : CallEnv} {finalizers : List String} (hp : preDeleteFinalizer ∈ finalizers)
    (hr : ∀ app, env.getApp = .ok app → app.finalizers = finalizers) (hd : ¬ReportsDone env) :
    preDeleteFinalizer ∈ storedAfter finalizers (finalizeApplicationDeletion env).calls ∨
      NoCascade (storedAfter finalizers (finalizeApplicationDeletion env).calls) := by
  refine storedAfter_of_patches (P := fun fs => preDeleteFinalizer ∈ fs ∨ NoCascade fs) (.inl hp) ?_
  intro fs answer hfs
  obtain ⟨app, hg, h⟩ := issued hfs
  cases h with
  | undefined _ _ hno => exact .inr hno
  | preHook _ _ h => cases executeHooks_calls _ h
  | preDone hl h => exact absurd ⟨app, _, hg, hl, h⟩ hd
  | later ha' =>
    rcases preDeleteStage_ok ha' with ⟨_, hn⟩ | ⟨_, _, _, objs, ho, h⟩
    · exact absurd (hr app hg ▸ hp) hn
    · exact absurd ⟨app, objs, hg, ho, h⟩ hd

theorem createHooks_created {hooks : List Sync.Obj} {total : ℕ} {obj : Sync.Obj}
    (hr : (createHooks env t hooks n).result = .ok total)
    (hcr : .createHook t obj .created ∈ (createHooks env t hooks n).calls) : total ≠ 0 := by
  intro ht
  subst ht
  have he := (createHooks_zero.mp hr).2
  clear hr
  induction hooks generalizing n with
  | nil => cases hcr
  | cons hook later ih =>
    obtain ⟨⟨obj', hs, hc⟩, hl⟩ := forall_mem_cons.mp he
    unfold createHooks at hcr
    rw [hs, Script.mem_calls_bind] at hcr
    obtain h | ⟨o, ho, h⟩ := hcr
    · cases h
    · obtain rfl : obj' = o := Except.ok.inj ho
      rw [Script.mem_calls_bind, hc] at h
      obtain h | ⟨_, _, h⟩ := h
      · cases mem_singleton.mp h
      · exact ih h hl

theorem executeHooks_created {obj : Sync.Obj} (hc : .createHook t obj .created ∈ (executeHooks env t app live).calls) :
    (executeHooks env t app live).result ≠ .ok true := by
  intro hd
  unfold executeHooks at hc hd
  simp only [mem_calls_bind, Script.calls_lift, Script.result_lift, not_mem_nil, false_or] at hc
  simp only [result_bind, Script.result_lift] at hd
  obtain ⟨_, _, targets, ht, n, hn, hd⟩ := hd
  obtain ⟨_, _, targets', ht', hc⟩ := hc
  obtain rfl : targets = targets' := Except.ok.inj (ht.symm.trans ht')
  rcases hc with h | ⟨n', hn', h⟩
  · have hp : n > 0 := Nat.pos_of_ne_zero (createHooks_created hn h)
    rw [if_pos hp] at hd
    cases hd
  · -- after the loop over the hooks nothing is created
    split_ifs at h
    · cases h
    · simp only [mem_calls_bind, Script.calls_lift, not_mem_nil, false_or] at h
      obtain ⟨_, _, counts, _, h⟩ := h
      split_ifs at h
      · simp [mem_calls_bind, deleteFailedHooks] at h
      · cases h

/-! ## Runs -/

/-- the call creates a pre-delete hook with the key -/
def Creates (env : CallEnv) (key : ResourceKey) : Prop :=
  ∃ obj, .createHook .preDelete obj .created ∈ (finalizeApplicationDeletion env).calls ∧ obj.key = key

/-- the call's listing shows an object with the key, neither Progressing nor Degraded -/
def ShowsSettled (env : CallEnv) (key : ResourceKey) : Prop :=
  ∃ live, getPermittedAppLiveObjects env.preListing = .ok live ∧ ∃ m ∈ live, m.key = key ∧ IsSettled env.preHooks m

/-- calls one after another, with the finalizers each finds and the pre-delete hooks that run while it deletes -/
structure DeletionRun where
  call : ℕ → CallEnv
  finalizers : ℕ → List String
  running : ℕ → ResourceKey → Prop
  reads : ∀ j app, (call j).getApp = .ok app → app.finalizers = finalizers j
  /-- only the controller takes the pre-delete finalizer away -/
  kept : ∀ j, preDeleteFinalizer ∈ storedAfter (finalizers j) (finalizeApplicationDeletion (call j)).calls →
    preDeleteFinalizer ∈ finalizers (j + 1)
  /-- nobody can add a finalizer to an object that is being deleted -/
  shrinks : ∀ j, finalizers (j + 1) ⊆ storedAfter (finalizers j) (finalizeApplicationDeletion (call j)).calls
  /-- a listing may lag behind, but a hook it shows settled stays so until it is created again -/
  lag : ∀ i n key, i ≤ n → ShowsSettled (call i) key → (∀ j, i ≤ j → j < n → ¬Creates (call j) key) →
    ¬running n key

/-- a call finds a hook settled before it counts it as done, and still knows the hooks created before -/
structure DeletionRun.Meets (r : DeletionRun) (j : ℕ) : Prop where
  visible : ∀ app live, (r.call j).getApp = .ok app → getPermittedAppLiveObjects (r.call j).preListing = .ok live →
    HooksVisible (r.call j).preHooks .preDelete app live
  known : ∀ i < j, ∀ key, Creates (r.call i) key → ∀ app live targets, (r.call j).getApp = .ok app →
    getPermittedAppLiveObjects (r.call j).preListing = .ok live → (r.call j).preHooks.targets = .ok targets →
    (∃ o ∈ targetHooks .preDelete app targets, o.key = key) ∨ ∃ m ∈ runningHooks .preDelete live, m.key = key

theorem Creates.stays {env : CallEnv} (h : Creates env key) :
    ∃ app, env.getApp = .ok app ∧ preDeleteFinalizer ∈ app.finalizers ∧ ¬ReportsDone env := by
  obtain ⟨obj, ho, _⟩ := h
  obtain ⟨app, hg, h⟩ := issued ho
  cases h with
  | preHook hp hl h =>
    refine ⟨app, hg, hp, ?_⟩
    intro ⟨app', live', hg', hl', hdo⟩
    cases hg.symm.trans hg'
    cases hl.symm.trans hl'
    exact executeHooks_created h hdo
  | later _ _ _ h =>
    cases h with
    | hook h => cases h

/-- a call with a cascade finds its finalizer, and the pre-delete finalizer gone or its hooks done -/
theorem delete_allowed {env : CallEnv} {m : Managed} {background : Bool}
    (hd : .deleteResource m background ∈ (finalizeApplicationDeletion env).calls) :
    ∃ app, env.getApp = .ok app ∧ ¬NoCascade app.finalizers ∧
      (preDeleteFinalizer ∈ app.finalizers → ReportsDone env) := by
  obtain ⟨app, app', hg, ha', -, -, hc, -⟩ := delete_issued hd
  obtain ⟨f, hf, hp⟩ := any_eq_true.mp hc
  refine ⟨app, hg, fun hno => ?_, fun hpr => ?_⟩
  · rw [hno f (preDeleteStage_subset ha' hf)] at hp
    cases hp
  · rcases preDeleteStage_ok ha' with ⟨_, hn⟩ | ⟨_, _, _, live, hli, h⟩
    · exact absurd hpr hn
    · exact ⟨app, live, hg, hli, h⟩

variable (r : DeletionRun)

/-- what holds after a hook was created in call `i`: the finalizer is there, or the cascade is off, or the hooks are done -/
def DeletionRun.Guarded (i n : ℕ) : Prop :=
  preDeleteFinalizer ∈ r.finalizers n ∨ NoCascade (r.finalizers n) ∨ ∃ j, i < j ∧ j < n ∧ ReportsDone (r.call j)

theorem DeletionRun.kept_or_off (hp : preDeleteFinalizer ∈ r.finalizers n) (hd : ¬ReportsDone (r.call n)) :
    preDeleteFinalizer ∈ r.finalizers (n + 1) ∨ NoCascade (r.finalizers (n + 1)) := by
  rcases preDelete_kept hp (r.reads n) hd with h | h
  · exact .inl (r.kept n h)
  · exact .inr fun f hf => h f (r.shrinks n hf)

theorem DeletionRun.stays_off (hno : NoCascade (r.finalizers n)) : NoCascade (r.finalizers (n + 1)) := by
  have hs : NoCascade (storedAfter (r.finalizers n) (finalizeApplicationDeletion (r.call n)).calls) := by
    refine storedAfter_of_patches hno ?_
    intro fs answer hfs
    obtain ⟨app, hg, hs⟩ := patch_subset hfs
    rw [r.reads n app hg] at hs
    exact fun f hf => hno f (hs hf)
  exact fun f hf => hs f (r.shrinks n hf)

theorem DeletionRun.guarded (hi : Creates (r.call i) key) (hin : i < n) : r.Guarded i n := by
  induction n, hin using Nat.le_induction with
  | base =>
    obtain ⟨app, hg, hp, hd⟩ := hi.stays
    rw [r.reads i app hg] at hp
    exact (r.kept_or_off hp hd).imp id .inl
  | succ n hn ih =>
    rcases ih with hp | hno | ⟨j, hij, hjn, hd⟩
    · by_cases hd : ReportsDone (r.call n)
      · exact .inr (.inr ⟨n, hn, Nat.lt_succ_self n, hd⟩)
      · exact (r.kept_or_off hp hd).imp id .inl
    · exact .inr (.inl (r.stays_off hno))
    · exact .inr (.inr ⟨j, hij, hjn.trans (Nat.lt_succ_self n), hd⟩)

/-- hooks reported done where the call meets the condition: each hook created before is shown settled -/
theorem DeletionRun.Meets.showsSettled {r : DeletionRun} {j : ℕ} (h : r.Meets j)
    (hd : ReportsDone (r.call j)) (hi : Creates (r.call i) key) (hij : i < j) : ShowsSettled (r.call j) key := by
  obtain ⟨app, live, hg, hl, hr⟩ := hd
  obtain ⟨targets, hooks⟩ := executeHooks_done_iff.mp hr
  refine ⟨live, hl, ?_⟩
  rcases h.known i hij key hi app live targets hg hl hooks.loaded with ⟨o, ho, rfl⟩ | ⟨m, hm, hk⟩
  · exact hooks.listed (h.visible app live hg hl) ho
  · exact ⟨m, mem_of_mem_filter hm, hk, hooks.settled m hm⟩

theorem DeletionRun.not_running (hm : ∀ j, r.Meets j) {m : Managed} {background : Bool}
    (hde : .deleteResource m background ∈ (finalizeApplicationDeletion (r.call n)).calls) (hin : i < n)
    (hi : Creates (r.call i) key) : ¬r.running n key := by
  classical
  -- the last call before n that creates the hook
  let last := Nat.findGreatest (fun j => Creates (r.call j) key) (n - 1)
  have hle : i ≤ n - 1 := by omega
  have hl : Creates (r.call last) key := Nat.findGreatest_spec (P := fun j => Creates (r.call j) key) hle hi
  have hlt : last < n := by
    have := Nat.findGreatest_le (P := fun j => Creates (r.call j) key) (n - 1)
    omega
  have hd : ∃ j, last < j ∧ j ≤ n ∧ ReportsDone (r.call j) := by
    obtain ⟨app, hg, hc, hr⟩ := delete_allowed hde
    rw [r.reads n app hg] at hc hr
    rcases r.guarded hl hlt with hp | hno | ⟨j, hj, hjn, hd⟩
    · exact ⟨n, hlt, le_rfl, hr hp⟩
    · exact absurd hno hc
    · exact ⟨j, hj, hjn.le, hd⟩
  obtain ⟨j, hj, hjn, hd⟩ := hd
  refine r.lag j n key hjn ((hm j).showsSettled hd hl hj) ?_
  intro k hjk hkn
  exact Nat.findGreatest_is_greatest (hj.trans_le hjk) (by omega)

/-- **Pre-delete hooks finish first.** Hooks reported done have finished exactly when those that exist already are
visible; and where this is so in every call of a run, and no hook is forgotten, nothing is deleted while a pre-delete
hook created in an earlier call is running. -/
theorem pre_delete_hooks_finish (env : HookEnv) (t : HookType) (app : App) (live : List Managed) :
    (((executeHooks env t app live).result = .ok true → HooksFinished env t app live) ↔ HooksVisible env t app live) ∧
    ∀ r : DeletionRun, (∀ j, r.Meets j) →
      ∀ n m background, .deleteResource m background ∈ (finalizeApplicationDeletion (r.call n)).calls →
        ∀ i < n, ∀ key, Creates (r.call i) key → ¬r.running n key := by
  refine ⟨hooksFinished_iff env t app live, ?_⟩
  intro r hmeets n m background hd i hin key hi
  exact r.not_running hmeets hd hin hi

/-! ## A hook and a config map -/

def preDeleteHook : Sync.Obj := plainObj "Job" "cleanup" [(Sync.annotationKeyHook, "PreDelete")]

def hookedApp : App := deletedApp [preDeleteFinalizer, resourcesFinalizerName]

/-- the hook is created -/
def firstCall : CallEnv := calmCall hookedApp (hookEnv [preDeleteHook] .created) [configMap []] [configMap []]

/-- the next call, with what its listing shows -/
def secondCall (live : List Managed) : CallEnv := calmCall hookedApp (hookEnv [preDeleteHook] .alreadyExists) live live

def callsOf (live : List Managed) : ℕ → CallEnv
  | 0 => firstCall
  | 1 => secondCall live
  | _ => { secondCall live with getApp := .error "not found" }

def finalizersOf : ℕ → List String
  | 0 => [preDeleteFinalizer, resourcesFinalizerName]
  | 1 => [preDeleteFinalizer, resourcesFinalizerName]
  | _ => [resourcesFinalizerName]

theorem firstCall_calls : (finalizeApplicationDeletion firstCall).calls =
    [.createHook .preDelete preDeleteHook .created] := by
  decide +kernel

theorem firstCall_creates : Creates firstCall preDeleteHook.key := by
  refine ⟨preDeleteHook, ?_, rfl⟩
  rw [firstCall_calls]
  exact mem_cons_self

/-- the second call deletes the config map, whether its listing shows the hook or not -/
theorem secondCall_calls : (finalizeApplicationDeletion (secondCall [configMap []])).calls =
      [.createHook .preDelete preDeleteHook .alreadyExists, .patchFinalizers [resourcesFinalizerName] .stored,
        .deleteResource (configMap []) false] ∧
    (finalizeApplicationDeletion (secondCall [configMap [], ⟨preDeleteHook, "u2"⟩])).calls =
      [.patchFinalizers [resourcesFinalizerName] .stored, .deleteResource (configMap []) false,
        .deleteResource ⟨preDeleteHook, "u2"⟩ false] := by
  decide +kernel

theorem creates_callsOf (hi : i = 0) (h : Creates (callsOf live i) key) : key = preDeleteHook.key := by
  obtain ⟨obj, ho, rfl⟩ := h
  subst hi
  change _ ∈ (finalizeApplicationDeletion firstCall).calls at ho
  rw [firstCall_calls] at ho
  cases mem_singleton.mp ho
  rfl

/-- the two calls as a run, if the finalizers are those the second call leaves -/
def runOf (live : List Managed) (running : ℕ → ResourceKey → Prop)
    (hstored : storedAfter [preDeleteFinalizer, resourcesFinalizerName]
      (finalizeApplicationDeletion (secondCall live)).calls = [resourcesFinalizerName])
    (hlag : ∀ i n key, i ≤ n → ShowsSettled (callsOf live i) key →
      (∀ j, i ≤ j → j < n → ¬Creates (callsOf live j) key) → ¬running n key) : DeletionRun where
  call := callsOf live
  finalizers := finalizersOf
  running := running
  reads j app hget := by
    match j with
    | 0 =>
      cases hget
      rfl
    | 1 =>
      cases hget
      rfl
    | j + 2 => cases hget
  kept j := by
    match j with
    | 0 => exact fun _ => mem_cons_self
    | 1 =>
      intro h
      change _ ∈ storedAfter _ (finalizeApplicationDeletion (secondCall live)).calls at h
      rwa [show finalizersOf 1 = [preDeleteFinalizer, resourcesFinalizerName] from rfl, hstored] at h
    | j + 2 => exact id
  shrinks j := by
    match j with
    | 0 =>
      change _ ⊆ storedAfter _ (finalizeApplicationDeletion firstCall).calls
      rw [firstCall_calls]
      exact List.Subset.refl _
    | 1 =>
      change _ ⊆ storedAfter [preDeleteFinalizer, resourcesFinalizerName]
        (finalizeApplicationDeletion (secondCall live)).calls
      rw [hstored]
      exact List.Subset.refl _
    | j + 2 => exact List.Subset.refl _
  lag := hlag

theorem not_showsSettled {live : List Managed} {n : ℕ} (hli : ∀ m ∈ live, m.key ≠ preDeleteHook.key) :
    ¬ShowsSettled (callsOf live n) preDeleteHook.key := by
  have hc : ∀ m ∈ [configMap []], m.key ≠ preDeleteHook.key := by decide
  have hk : ∀ l objs, getPermittedAppLiveObjects (listed l) = .ok objs → ∀ m ∈ objs, m ∈ l := by
    intro l objs h m hm
    obtain ⟨_, l', hl', hme⟩ := mem_getPermittedAppLiveObjects h hm
    cases hl'
    exact hme
  intro ⟨objs, ho, m, hm, hke, _⟩
  match n with
  | 0 => exact hc m (hk _ objs ho m hm) hke
  | n + 1 =>
    have hl : getPermittedAppLiveObjects (listed live) = .ok objs := by
      cases n <;> exact ho
    exact hli m (hk _ objs hl m hm) hke

/-- the listing of the second call lags behind, and the hook never stops running -/
def lateRun : DeletionRun :=
  runOf [configMap []] (fun _ key => key = preDeleteHook.key) (by rw [secondCall_calls.1]; decide) (by
    intro i n key _ hshows _ hkey
    rw [hkey] at hshows
    exact not_showsSettled (by decide) hshows)

/-- **The hook is overtaken.** The second call does not see the hook, which exists already; it reports done and deletes
the config map while the hook is running. -/
theorem pre_delete_hook_overtaken :
    (executeHooks (lateRun.call 1).preHooks .preDelete hookedApp [configMap []]).result = .ok true ∧
      ¬HooksFinished (lateRun.call 1).preHooks .preDelete hookedApp [configMap []] ∧
      Creates (lateRun.call 0) preDeleteHook.key ∧ lateRun.running 1 preDeleteHook.key ∧
      .deleteResource (configMap []) false ∈ (finalizeApplicationDeletion (lateRun.call 1)).calls := by
  refine ⟨by decide +kernel, ?_, firstCall_creates, rfl, ?_⟩
  · intro h
    obtain ⟨m, hm, hk, _⟩ := h _ rfl preDeleteHook (by decide +kernel)
    cases mem_singleton.mp hm
    exact absurd hk (by decide)
  · change _ ∈ (finalizeApplicationDeletion (secondCall [configMap []])).calls
    rw [secondCall_calls.1]
    decide

/-- the listing of the second call shows the hook, which ran in the first call -/
def promptRun : DeletionRun :=
  runOf [configMap [], ⟨preDeleteHook, "u2"⟩] (fun n key => n = 0 ∧ key = preDeleteHook.key)
    (by rw [secondCall_calls.2]; decide) (by
    intro i n key hin hshows _ ⟨hn, hkey⟩
    obtain rfl : i = 0 := by omega
    rw [hkey] at hshows
    exact @not_showsSettled [configMap []] 0 (by decide) hshows)

theorem promptRun_meets (j : ℕ) : promptRun.Meets j := by
  match j with
  | 0 =>
    refine ⟨?_, fun i hi => absurd hi (Nat.not_lt_zero i)⟩
    intro app live ha hl targets hd
    cases ha
    cases hd.loaded
    have hob : getPermittedAppLiveObjects (listed [configMap []]) = .ok live := hl
    obtain rfl : live = [configMap []] := by
      exact (Except.ok.inj hob).symm
    obtain ⟨_, _, hcr⟩ := hd.exist preDeleteHook (by decide +kernel)
    cases hcr
  | 1 =>
    have hli : ∀ live, getPermittedAppLiveObjects (promptRun.call 1).preListing = .ok live →
        live = [configMap [], ⟨preDeleteHook, "u2"⟩] := by
      intro live hl
      exact (Except.ok.inj hl).symm
    refine ⟨?_, ?_⟩
    · intro app live ha hl targets hd o ho
      cases ha
      cases hd.loaded
      rw [hli live hl, show expectedHooks .preDelete hookedApp [preDeleteHook]
        [configMap [], ⟨preDeleteHook, "u2"⟩] = [] from by decide +kernel] at ho
      cases ho
    · intro i hi key hc app live targets ha _ ht
      cases ha
      cases ht
      refine .inl ⟨preDeleteHook, by decide +kernel, ?_⟩
      exact (creates_callsOf (Nat.lt_one_iff.mp hi) hc).symm
  | j + 2 => exact ⟨fun _ _ h => (nomatch h), fun _ _ _ _ _ _ _ h => (nomatch h)⟩

theorem pre_delete_hooks_finish_prompt :
    Creates (promptRun.call 0) preDeleteHook.key ∧
      .deleteResource (configMap []) false ∈ (finalizeApplicationDeletion (promptRun.call 1)).calls ∧
      ¬promptRun.running 1 preDeleteHook.key := by
  have hc : Creates (promptRun.call 0) preDeleteHook.key := firstCall_creates
  have hd : .deleteResource (configMap []) false ∈ (finalizeApplicationDeletion (promptRun.call 1)).calls := by
    change _ ∈ (finalizeApplicationDeletion (secondCall [configMap [], ⟨preDeleteHook, "u2"⟩])).calls
    rw [secondCall_calls.2]
    decide
  refine ⟨hc, hd, ?_⟩
  exact (pre_delete_hooks_finish (hookEnv [] .created) .preDelete hookedApp []).2 promptRun promptRun_meets 1 _ _ hd 0
    Nat.one_pos _ hc

end GitOpsDeploy.Deletion

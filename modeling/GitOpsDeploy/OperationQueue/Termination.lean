/-
When a request to terminate an operation survives the pass that is under way (`processRequestedAppOperation`).

Other clients may store the request at four points of a pass. `Kept` says that no request before the end of the sync is
followed by a patch that stores Running.

- `termination_kept_iff`: for an operation in progress, this is so exactly when the pass does not overwrite the request:
  it does not start a due retry, does not retry a failed sync, and stores a sync that goes on only after it has read the
  stored state again.
- Witness: `termination_kept_running`, a request during a sync that goes on.
- `termination_overwritten`: the sync fails, and the retry is stored over the request.
-/
import GitOpsDeploy.OperationQueue.Pass

namespace GitOpsDeploy.OperationQueue

open Sync (OperationPhase)

/-! ## Requests and patches in order -/

/-- a termination request that comes before `SyncAppState` returns -/
def Event.isRequest : Event → Bool
  | .terminationRequested .afterRead => true
  | .terminationRequested .duringSync => true
  | _ => false

def Event.storesRunning : Event → Bool
  | .patched st _ _ stored => stored && st.phase = some .running
  | _ => false

/-- no request is followed by a patch that stores Running -/
def Kept (events : List Event) : Prop :=
  events.Pairwise fun e later => e.isRequest = true → later.storesRunning = false

def Requested (events : List Event) : Prop := ∃ e ∈ events, e.isRequest = true

theorem kept_concat {events : List Event} {e : Event} :
    Kept (events ++ [e]) ↔ Kept events ∧ (Requested events → e.storesRunning = false) := by
  simp only [Kept, Requested, List.pairwise_append, List.pairwise_singleton, List.mem_singleton, forall_eq, true_and]
  refine and_congr_right fun _ => ⟨?_, ?_⟩
  · intro h ⟨a, ha, hr⟩
    exact h a ha hr
  · intro h a ha hr
    exact h ⟨a, ha, hr⟩

theorem requested_concat {events : List Event} {e : Event} :
    Requested (events ++ [e]) ↔ Requested events ∨ e.isRequest = true := by
  simp [Requested, or_and_right, exists_or]

variable {env : Env} {app : App} {p : Progress} {st : OperationState}

@[simp] theorem kept_interfere (point : Point) : Kept (interfere env point p).events ↔ Kept p.events := by
  unfold interfere
  split_ifs
  · simp [kept_concat, Event.storesRunning]
  · rfl

theorem requested_interfere (point : Point) (hs : p.stored.isSome = true) : Requested (interfere env point p).events ↔
      Requested p.events ∨ (env.requests point = true ∧ (point = .afterRead ∨ point = .duringSync)) := by
  unfold interfere
  cases env.requests point with
  | false => simp
  | true =>
    rw [hs]
    simp only [Bool.and_self, if_true, requested_concat]
    cases point <;> simp [Event.isRequest]

variable {point : Point} {now : Time} {stored terminating : Bool} {text cause : String} {st'' st' : OperationState}

theorem stored_interfere (hs : p.stored = some (some .terminating)) :
    (interfere env point p).stored = some (some .terminating) := by
  unfold interfere
  split_ifs
  · rfl
  · exact hs

theorem isSome_stored_interfere (hs : p.stored.isSome = true) : (interfere env point p).stored.isSome = true := by
  unfold interfere
  split_ifs
  · rfl
  · exact hs

theorem kept_patchState : Kept (patchState app now stored st p).events ↔ Kept p.events ∧
      (Requested p.events → ¬(st.phase = some .running ∧ stored = true ∧ app.operationState ≠ some st)) := by
  unfold patchState
  by_cases hc : st.completed = true
  · -- a completed operation is not running
    have hp : st.phase ≠ some .running := by
      intro h
      simp [OperationState.completed, h, OperationPhase.completed] at hc
    simp only [hc, if_true]
    split
    · simp [hp]
    · simp [kept_concat, Event.storesRunning, hp]
  · simp only [hc, if_false, Bool.false_eq_true]
    split
    · next heq => simp [heq]
    · next heq =>
      simp only [kept_concat, Event.storesRunning]
      cases stored <;> simp [heq]

@[simp] theorem requested_patchState : Requested (patchState app now stored st p).events ↔ Requested p.events := by
  unfold patchState
  simp only
  split_ifs <;> simp [requested_concat, Event.isRequest]

theorem stored_patchState
    (h : app.operationState ≠ some st) (hc : st.completed = false) :
    (patchState app now stored st p).stored = if stored = true then some st.phase else p.stored := by
  unfold patchState
  simp [hc, h]

theorem isSome_stored_patchState (hs : p.stored.isSome = true) :
    (patchState app now stored st p).stored.isSome = true := by
  unfold patchState
  simp only
  split_ifs <;> simp [hs]

@[simp] theorem kept_requeue {after : Duration} : Kept (requeue env st after p).events ↔ Kept p.events := by
  simp [requeue, Progress.add, kept_concat, Event.storesRunning]

@[simp] theorem kept_requestRefresh : Kept (requestRefresh app st p).events ↔ Kept p.events := by
  unfold requestRefresh
  split_ifs <;> simp [Progress.add, kept_concat, Event.storesRunning]

@[simp] theorem kept_recoverPanic : Kept (recoverPanic env app st text p).events ↔ Kept p.events := by
  simp [recoverPanic, kept_patchState]

theorem kept_finishOperation : Kept (finishOperation env app st p).events ↔ Kept p.events ∧
      (Requested p.events → ¬(st.phase = some .running ∧ env.finalStored = true ∧
        app.operationState ≠ some st)) := by
  unfold finishOperation
  split_ifs with h
  · simp [h]
  · simp only [kept_requeue, kept_requestRefresh, kept_patchState]

/-! ## The first part of a pass -/

/-- a failed operation whose next attempt is due -/
def RetryDue (env : Env) (st : OperationState) : Prop :=
  st.phase = some .running ∧ timedOut env st = false ∧ retryPanics st = false ∧
    ∃ finishedAt, st.finishedAt = some finishedAt ∧
      ∃ retryAt, st.operation.retry.nextRetryAt env.lib finishedAt st.retryCount = .ok retryAt ∧ retryAt ≤ env.now

/-- the pass gets to `SyncAppState`: no retry is waiting, or it is due -/
def Resumes (env : Env) (st : OperationState) : Prop :=
  st.phase ≠ some .running ∨ timedOut env st = true ∨ st.finishedAt = none ∨ RetryDue env st

/-- what the first part leaves for the second -/
structure Started (env : Env) (app : App) (st : OperationState) (p : Progress) (st' : OperationState) (p' : Progress) :
    Prop where
  resumes : Resumes env st
  requested : Requested p'.events ↔ Requested p.events
  kept : Kept p'.events ↔ Kept p.events ∧ (Requested p.events → ¬(RetryDue env st ∧ env.firstStored = true))
  isSome : p'.stored.isSome = true
  stored : p.stored = some (some .terminating) → ¬(RetryDue env st ∧ env.firstStored = true) →
    p'.stored = some (some .terminating)
  retry : st'.operation.retry = st.operation.retry
  retryCount : st'.retryCount = st.retryCount
  terminating : st'.phase = some .terminating ↔ st.phase = some .terminating ∨ timedOut env st = true
  /-- the state as it was read, after a sync that is running -/
  unchanged : ∀ message syncResult,
    st = { st' with phase := some .running, message := message, syncResult := syncResult } ↔
      ¬RetryDue env st ∧ st.phase = some .running ∧ message = st.message ∧ syncResult = st.syncResult

theorem Started.same (hs : p.stored.isSome = true) (hr : Resumes env st) (hd : ¬RetryDue env st)
    (ht : st.phase = some .terminating ∨ timedOut env st = false) : Started env app st p st p where
  resumes := hr
  requested := Iff.rfl
  kept := by simp [hd]
  isSome := hs
  stored := fun h _ => h
  retry := rfl
  retryCount := rfl
  terminating := by
    rcases ht with h | h
    · simp [h]
    · simp [h]
  unchanged message syncResult := by
    cases st
    simp only [OperationState.mk.injEq, hd, not_false_eq_true, true_and, and_true, eq_comm]

theorem Started.timeout (ha : app.operationState = some st) (hs : p.stored.isSome = true)
    (hp : st.phase ≠ some .terminating) (ht : timedOut env st = true) :
    Started env app st p { st with phase := some .terminating, message := text }
      (patchState app env.now env.firstStored { st with phase := some .terminating, message := text } p) := by
  have hd : ¬RetryDue env st := fun h => by simp [h.2.1] at ht
  have hne : app.operationState ≠ some { st with phase := some .terminating, message := text } := by
    rw [ha]
    intro h
    exact hp (congrArg OperationState.phase (Option.some.inj h))
  exact {
    resumes := .inr (.inl ht)
    requested := requested_patchState
    kept := by simp [kept_patchState, hd]
    isSome := isSome_stored_patchState hs
    stored := by
      intro h _
      rw [stored_patchState hne (by rfl), h]
      simp
    retry := rfl
    retryCount := rfl
    terminating := by simp [ht]
    unchanged := by
      intro message syncResult
      cases st
      simp only [OperationState.mk.injEq, hd, not_false_eq_true, true_and, and_true, eq_comm] }

theorem Started.retried (ha : app.operationState = some st) (hs : p.stored.isSome = true) (hd : RetryDue env st) :
    Started env app st p (retryState st) (patchState app env.now env.firstStored (retryState st) p) := by
  obtain ⟨hp, ht, _, finishedAt, hf, _⟩ := id hd
  have hne : app.operationState ≠ some (retryState st) := by
    rw [ha]
    intro h
    have := congrArg OperationState.finishedAt (Option.some.inj h)
    cases hf.symm.trans this
  have hr : (retryState st).phase = some .running := hp
  exact {
    resumes := .inr (.inr (.inr hd))
    requested := requested_patchState
    kept := by simp [kept_patchState, hd, hr, hne]
    isSome := isSome_stored_patchState hs
    stored := by
      intro h hn
      have hfi : env.firstStored = false := by simpa [hd] using hn
      rw [stored_patchState hne (by simp [OperationState.completed, hr, OperationPhase.completed]), h, hfi]
      rfl
    retry := rfl
    retryCount := rfl
    terminating := by simp [hr, hp, ht]
    unchanged := by
      intro message syncResult
      refine iff_of_false (fun h => ?_) (fun h => h.1 hd)
      have := congrArg OperationState.finishedAt h
      cases hf.symm.trans this }

/-- what the first part of a pass does, by how it goes on -/
def StartSpec (env : Env) (app : App) (st : OperationState) (p : Progress) : Start × Progress → Prop
  | (.resume st' _, p') => Started env app st p st' p'
  | (_, p') => ¬Resumes env st ∧ (Kept p'.events ↔ Kept p.events)

theorem resume_spec (ha : app.operationState = some st) (hs : p.stored.isSome = true) :
    StartSpec env app st p (resumeOperation env app st p) := by
  unfold resumeOperation
  by_cases hte : st.phase = some .terminating
  · rw [if_pos hte]
    exact .same hs (.inl (by simp [hte])) (fun h => by simp [h.1] at hte) (.inl hte)
  rw [if_neg hte]
  by_cases ht : timedOut env st = true
  · rw [if_pos ht]
    exact .timeout ha hs hte ht
  rw [if_neg ht]
  have ht' : timedOut env st = false := by simpa using ht
  split
  · next finishedAt hp hfi =>
    have hre : Resumes env st ↔ RetryDue env st := by simp [Resumes, hp, ht', hfi]
    split
    · next err he =>
      refine ⟨?_, by simp [kept_patchState]⟩
      rw [hre]
      intro ⟨_, _, _, f, hf, retryAt, hr, _⟩
      cases hfi.symm.trans hf
      cases he.symm.trans hr
    · next retryAt hr =>
      split_ifs with hw hpa
      · refine ⟨?_, Iff.rfl⟩
        rw [hre]
        intro ⟨_, _, _, f, hf, retryAt', hr', hd⟩
        cases hfi.symm.trans hf
        cases hr.symm.trans hr'
        exact absurd hd (not_le.mpr hw)
      · refine ⟨?_, Iff.rfl⟩
        rw [hre]
        intro ⟨_, _, hno, _⟩
        cases hpa.symm.trans hno
      · refine .retried ha hs ⟨hp, ht', by simpa using hpa, finishedAt, hfi, retryAt, hr, ?_⟩
        exact not_lt.mp hw
  · next ho =>
    have hn : st.phase ≠ some .running ∨ st.finishedAt = none := by
      by_cases hp : st.phase = some .running
      · refine .inr (Option.eq_none_iff_forall_ne_some.mpr fun f hf => ?_)
        exact ho f hp hf
      · exact .inl hp
    refine .same hs (hn.imp id fun h => .inr (.inl h)) ?_ (.inr ht')
    intro ⟨hp, _, _, f, hf, _⟩
    exact ho f hp hf

/-! ## The second part of a pass -/

/-- the sync goes on, and the stored state cannot be read again before a changed state is stored -/
def StoresStale (env : Env) (st : OperationState) : Prop :=
  env.getAppProj = .ok () ∧ env.getFresh ≠ .ok () ∧
    ∃ message syncResult, env.outcome = .returned (some .running) message syncResult ∧
      ¬(¬RetryDue env st ∧ st.phase = some .running ∧ message = st.message ∧ syncResult = st.syncResult)

/-- the project cannot be read, or the sync fails -/
def SyncFails (env : Env) : Prop :=
  env.getAppProj ≠ .ok () ∨ ∃ phase message syncResult,
    env.outcome = .returned (some phase) message syncResult ∧ (phase = .failed ∨ phase = .error)

/-- the operation fails and is to be retried -/
def StoresRetry (env : Env) (st : OperationState) : Prop :=
  SyncFails env ∧ st.phase ≠ some .terminating ∧ timedOut env st = false ∧ canRetry st = true ∧
    ∃ retryAt, st.operation.retry.nextRetryAt env.lib env.later st.retryCount = .ok retryAt

/-- when a pass stores Running over a termination request -/
inductive Overwrites (env : Env) (st : OperationState) : Prop
  | retryStart (requested : env.requests .afterRead = true) (due : RetryDue env st) (stored : env.firstStored = true)
  | afterSync (requested : env.requests .afterRead = true ∨ env.requests .duringSync = true) (resumes : Resumes env st)
      (stored : env.finalStored = true) (running : StoresStale env st ∨ StoresRetry env st)

/-- the retry of a failed operation is the only way to go on with it -/
theorem retryOrFail_running (hp : st.phase = some .failed ∨ st.phase = some .error) :
    (retryOrFail env terminating cause st).phase = some .running ↔ terminating = false ∧ canRetry st = true ∧
      ∃ retryAt, st.operation.retry.nextRetryAt env.lib env.later st.retryCount = .ok retryAt := by
  have hr : st.phase ≠ some .running := by
    rcases hp with h | h
    · simp [h]
    · simp [h]
  unfold retryOrFail
  cases terminating with
  | true => simp [hr]
  | false =>
    cases canRetry st with
    | false => simp [hr]
    | true =>
      cases st.operation.retry.nextRetryAt env.lib env.later st.retryCount with
      | error err => simp
      | ok retryAt => simp

theorem retryOrFail_count (hp : st.phase = some .failed ∨ st.phase = some .error)
    (hru : (retryOrFail env terminating cause st).phase = some .running) :
    (retryOrFail env terminating cause st).retryCount = st.retryCount + 1 := by
  obtain ⟨ht, hc, retryAt, hr⟩ := (retryOrFail_running hp).mp hru
  simp [retryOrFail, ht, hc, hr]

theorem syncState_failed (h : syncState env st' = .ok st'')
    (hph : st''.phase = some .failed ∨ st''.phase = some .error) : SyncFails env := by
  unfold syncState at h
  split at h
  · next err he => exact .inl (by simp [he])
  · split at h
    · next phase message syncResult ho =>
      cases h
      rcases hph with hp | hp
      · exact .inr ⟨.failed, message, syncResult, by rw [ho]; simp_all, .inl rfl⟩
      · exact .inr ⟨.error, message, syncResult, by rw [ho]; simp_all, .inr rfl⟩
    · cases h

theorem SyncFails.phase (hf : SyncFails env) (h : syncState env st' = .ok st'') :
    st''.phase = some .failed ∨ st''.phase = some .error := by
  unfold syncState at h
  split at h
  · cases h
    exact .inr rfl
  · next hpr =>
    rcases hf with hne | ⟨phase, message, syncResult, ho, hp⟩
    · exact absurd hpr hne
    · rw [ho] at h
      cases h
      exact hp.imp (congrArg some) (congrArg some)

theorem syncState_keeps (h : syncState env st' = .ok st'') :
    st''.operation = st'.operation ∧ st''.retryCount = st'.retryCount := by
  unfold syncState at h
  split at h
  · cases h
    exact ⟨rfl, rfl⟩
  · split at h
    · cases h
      exact ⟨rfl, rfl⟩
    · cases h

theorem syncState_running (h : syncState env st' = .ok st'') (hp : st''.phase = some .running) :
    env.getAppProj = .ok () ∧ ∃ message syncResult, env.outcome = .returned (some .running) message syncResult ∧
      st'' = { st' with phase := some .running, message := message, syncResult := syncResult } := by
  unfold syncState at h
  split at h
  · cases h
    cases hp
  · next hpr =>
    split at h
    · next phase message syncResult ho =>
      cases h
      obtain rfl : phase = some .running := hp
      exact ⟨hpr, message, syncResult, ho, rfl⟩
    · cases h

theorem requested_beforeLast (hp : point = .beforeGet ∨ point = .beforePatch) :
    Requested (interfere env point p).events ↔ Requested p.events := by
  unfold interfere
  split_ifs
  · rcases hp with rfl | rfl
    · simp [requested_concat, Event.isRequest]
    · simp [requested_concat, Event.isRequest]
  · rfl

theorem kept_finish : Kept (finishOperation env app (settleState env terminating cause st p).1
      (interfere env .beforePatch (settleState env terminating cause st p).2)).events ↔ Kept p.events ∧
        (Requested p.events → ¬((settleState env terminating cause st p).1.phase = some .running ∧
          env.finalStored = true ∧ app.operationState ≠ some (settleState env terminating cause st p).1)) := by
  have hp : (Kept (settleState env terminating cause st p).2.events ↔ Kept p.events) ∧
      (Requested (settleState env terminating cause st p).2.events ↔ Requested p.events) := by
    unfold settleState
    split
    · dsimp only
      split_ifs
      · exact ⟨kept_interfere _, requested_beforeLast (.inl rfl)⟩
      · exact ⟨kept_interfere _, requested_beforeLast (.inl rfl)⟩
    · exact ⟨Iff.rfl, Iff.rfl⟩
    · exact ⟨Iff.rfl, Iff.rfl⟩
    · exact ⟨Iff.rfl, Iff.rfl⟩
  rw [kept_finishOperation, kept_interfere, requested_beforeLast (.inr rfl), hp.1, hp.2]

/-- when exactly a state with Running is ready to be stored after the sync -/
theorem settle_running {p' q : Progress}
    (hs : Started env app st p st' p') (ha : app.operationState = some st) (hsy : syncState env st' = .ok st'')
    (hq : q.stored = some (some .terminating)) :
    ((settleState env (st'.phase = some .terminating) cause st'' q).1.phase = some .running ∧
      app.operationState ≠ some (settleState env (st'.phase = some .terminating) cause st'' q).1) ↔
        StoresStale env st ∨ StoresRetry env st := by
  by_cases hru : st''.phase = some .running
  · obtain ⟨hpr, message, syncResult, ho, heq⟩ := syncState_running hsy hru
    have hr : ¬StoresRetry env st := by
      intro h
      rcases h.1.phase hsy with hp | hp
      · cases hru.symm.trans hp
      · cases hru.symm.trans hp
    have hse : settleState env (st'.phase = some .terminating) cause st'' q =
        if env.getFresh = .ok () then
          ({ st'' with phase := some .terminating, message := "operation is terminating" }, interfere env .beforeGet q)
        else (st'', interfere env .beforeGet q) := by
      simp [settleState, hru, stored_interfere hq]
    have hu := hs.unchanged message syncResult
    by_cases hfr : env.getFresh = .ok ()
    · simp [hse, hfr, hr, StoresStale]
    · rw [hse, if_neg hfr, ha, heq]
      simp [hr, StoresStale, hfr, hpr, ho, hu]
  · have hst : ¬StoresStale env st := by
      intro ⟨hpr, _, message, syncResult, ho, _⟩
      apply hru
      simp only [syncState, hpr, ho, Except.ok.injEq] at hsy
      rw [← hsy]
    simp only [hst, false_or]
    by_cases hf : st''.phase = some .failed ∨ st''.phase = some .error
    · have hse : (settleState env (st'.phase = some .terminating) cause st'' q).1 =
          retryOrFail env (st'.phase = some .terminating) cause st'' := by
        rcases hf with h | h
        · simp [settleState, h]
        · simp [settleState, h]
      have hop : st''.operation.retry = st.operation.retry := by rw [(syncState_keeps hsy).1, hs.retry]
      have hco : st''.retryCount = st.retryCount := (syncState_keeps hsy).2.trans hs.retryCount
      have hca : canRetry st'' = canRetry st := by simp only [canRetry, hop, hco]
      -- a state with a count that has gone up is not the one that was read
      rw [hse, and_iff_left_of_imp, retryOrFail_running hf, hca, hop, hco]
      · simp [StoresRetry, syncState_failed hsy hf, hs.terminating, and_assoc]
      · intro h
        rw [ha]
        intro heq
        have hcou := congrArg OperationState.retryCount (Option.some.inj heq)
        rw [retryOrFail_count hf h, hco] at hcou
        omega
    · refine iff_of_false ?_ (fun h => hf (h.1.phase hsy))
      have hse : (settleState env (st'.phase = some .terminating) cause st'' q).1 = st'' := by
        unfold settleState
        split
        · next h => exact absurd h hru
        · next h => exact absurd (.inl h) hf
        · next h => exact absurd (.inr h) hf
        · rfl
      rw [hse]
      exact fun h => hru h.1

/-- after a panic nothing but the error is stored -/
theorem not_stores_of_panic (h : syncState env st' = .error text) : ¬(StoresStale env st ∨ StoresRetry env st) := by
  unfold syncState at h
  split at h
  · cases h
  · next hp =>
    split at h
    · cases h
    · next text' ho => simp [StoresStale, StoresRetry, SyncFails, hp, ho]

theorem kept_syncAndFinish {p' q : Progress} (hs : Started env app st p st' p') (ha : app.operationState = some st)
    (hq : Kept q.events → Requested q.events → q.stored = some (some .terminating)) :
    Kept (syncAndFinish env app st' cause q).events ↔ Kept q.events ∧
      (Requested q.events → ¬(env.finalStored = true ∧ (StoresStale env st ∨ StoresRetry env st))) := by
  unfold syncAndFinish
  cases hsy : syncState env st' with
  | error text => simp [not_stores_of_panic hsy]
  | ok st'' =>
    rw [kept_finish]
    refine and_congr_right fun hk => forall_congr' fun hr => not_congr ?_
    rw [← settle_running hs ha hsy (hq hk hr)]
    tauto

theorem stored_of_request (hr : env.requests point = true) (hs : p.stored.isSome = true) :
    (interfere env point p).stored = some (some .terminating) := by
  simp [interfere, hr, hs]

/-- **A termination request is kept** by a pass over an operation in progress exactly when the pass does not start a due
retry after it, does not retry a failed sync, and reads the stored state before it stores that the sync goes on. -/
theorem termination_kept_iff (env : Env) (app : App) (hprogress : isOperationInProgress app = true) :
    Kept (processRequestedAppOperation env app).events ↔ ∀ st, app.operationState = some st → ¬Overwrites env st := by
  obtain ⟨st, ha, hc⟩ : ∃ st, app.operationState = some st ∧ st.completed = false := by
    unfold isOperationInProgress at hprogress
    cases ha : app.operationState with
    | none => simp [ha] at hprogress
    | some st => exact ⟨st, rfl, by simpa [ha] using hprogress⟩
  have hsta : ∀ p, startOperation env app p = resumeOperation env app st p := by
    intro p
    simp [startOperation, ha, hc]
  simp only [ha, Option.some.injEq, forall_eq']
  unfold processRequestedAppOperation
  simp only [ha, Option.map_some, hsta]
  generalize hp : interfere env .afterRead ⟨[], some st.phase⟩ = p
  have hke : Kept p.events := by
    rw [← hp, kept_interfere]
    exact List.Pairwise.nil
  have hre : Requested p.events ↔ env.requests .afterRead = true := by
    rw [← hp, requested_interfere _ rfl]
    simp [Requested]
  have hso : p.stored.isSome = true := by
    rw [← hp]
    exact isSome_stored_interfere rfl
  have hsp : StartSpec env app st p (resumeOperation env app st p) := resume_spec ha hso
  generalize resumeOperation env app st p = r at hsp
  have hl : ¬Resumes env st → ¬Overwrites env st := by
    intro hn ho
    cases ho with
    | retryStart _ hdu _ => exact hn (.inr (.inr (.inr hdu)))
    | afterSync _ hres _ _ => exact hn hres
  match r, hsp with
  | (.leave st' after, p'), ⟨hn, hsa⟩ => simp [hsa, hke, hl hn]
  | (.panic st' text, p'), ⟨hn, hsa⟩ => simp [hsa, hke, hl hn]
  | (.resume st' cause, p'), hs =>
    have hke' : Kept (interfere env .duringSync p').events ↔
        (env.requests .afterRead = true → ¬(RetryDue env st ∧ env.firstStored = true)) := by
      rw [kept_interfere, hs.kept, hre]
      simp [hke]
    have hre' : Requested (interfere env .duringSync p').events ↔
        env.requests .afterRead = true ∨ env.requests .duringSync = true := by
      rw [requested_interfere _ hs.isSome, hs.requested, hre]
      simp
    rw [kept_syncAndFinish hs ha, hke', hre']
    · constructor
      · intro ⟨hf, hla⟩ ho
        cases ho with
        | retryStart hreq hdu hst => exact hf hreq ⟨hdu, hst⟩
        | afterSync hreq _ hst hru => exact hla hreq ⟨hst, hru⟩
      · intro hn
        refine ⟨fun hreq h => hn (.retryStart hreq h.1 h.2), fun hreq h => hn (.afterSync hreq hs.resumes h.1 h.2)⟩
    · -- nothing but a due retry has been stored since the request
      intro hk hr
      by_cases hd : env.requests .duringSync = true
      · exact stored_of_request hd hs.isSome
      · have haf : env.requests .afterRead = true := (hre'.mp hr).resolve_right hd
        refine stored_interfere (hs.stored ?_ (hke'.mp hk haf))
        rw [← hp]
        exact stored_of_request haf rfl

/-! ## An operation with retries -/

def syncOperation : SyncOperation := ⟨"HEAD", [], none, [], false, [], [], []⟩

/-- a sync that is running, with up to five retries -/
def runningState : OperationState :=
  ⟨⟨some syncOperation, false, ⟨5, none, false⟩⟩, some .running, "", none, 100, none, 0⟩

def runningApp : App := ⟨runningState.operation, some runningState⟩

/-- a termination request comes while the operation is being synced -/
def requestedDuring (phase : OperationPhase) (message : String) : Env where
  lib := ⟨fun _ => none, fun duration _ _ => duration, fun _ => "3:04PM"⟩
  syncTimeout := 0
  now := 200
  later := 300
  last := 400
  requests p := p = .duringSync
  getAppProj := .ok ()
  outcome := .returned (some phase) message none
  getFresh := .ok ()
  firstStored := true
  finalStored := true

/-- **A retry overwrites the request.** The sync fails, and its next attempt is stored as Running. -/
theorem termination_overwritten :
    isOperationInProgress runningApp = true ∧
      ¬Kept (processRequestedAppOperation (requestedDuring .failed "one or more objects failed") runningApp).events ∧
      (processRequestedAppOperation (requestedDuring .failed "one or more objects failed") runningApp).stored =
        some (some .running) := by
  refine ⟨by decide, ?_, by decide +kernel⟩
  rw [Kept]
  decide +kernel

theorem termination_kept_running :
    isOperationInProgress runningApp = true ∧
      Kept (processRequestedAppOperation (requestedDuring .running "waiting for a hook") runningApp).events ∧
      (processRequestedAppOperation (requestedDuring .running "waiting for a hook") runningApp).stored =
        some (some .terminating) := by
  refine ⟨by decide, (termination_kept_iff _ runningApp (by decide)).mpr ?_, by decide +kernel⟩
  intro st hst ho
  cases hst
  cases ho with
  | retryStart hre => cases hre
  | afterSync _ _ _ hr =>
    rcases hr with ⟨_, hf, _⟩ | ⟨hne | ⟨_, _, _, hou, hp⟩, _⟩
    · exact hf rfl
    · exact hne rfl
    · cases hou
      rcases hp with h | h
      · cases h
      · cases h

end GitOpsDeploy.OperationQueue

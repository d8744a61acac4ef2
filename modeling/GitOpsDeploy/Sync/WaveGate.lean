/-
The wave gate: a task is applied or pruned only after every task of an earlier phase or wave has succeeded.

The property is about each event of a call: when the call deploys a task, the tasks of smaller rank are recorded as succeeded
at that moment, or were left out as unmodified. Hooks of failure are outside of the gate, and so is the namespace that a
first call creates before anything else.
-/
import GitOpsDeploy.Sync.Operation

namespace GitOpsDeploy.Sync

open List

variable {ctx : Ctx} {w : World} {s s' s0 : St} {tasks : List SyncTask} {t u : SyncTask} {C : CallSet} {R : ResultSet}
  {L : SyncTask → Prop}

/-! ## The gate -/

/-- every regular task of smaller rank has succeeded or is unmodified -/
def Gate (ctx : Ctx) (tasks : List SyncTask) (s0 : St) (results : Results) (t : SyncTask) : Prop :=
  ∀ u ∈ tasks, u.phase ≠ .syncFail → u.rank < t.rank →
    RecordedSucceeded results u ∨ (ctx.applyOutOfSyncOnly = true ∧ isUnmodified ctx s0 u = true)

/-- an event that deploys a regular task passes the gate -/
def Gated (ctx : Ctx) (tasks : List SyncTask) (s0 : St) (e : Event) : Prop :=
  ∀ t, e.call.Deploys t → t.phase ≠ .syncFail → Gate ctx tasks s0 e.results t

theorem gated_of_onlySyncFail (e : Event) (h : e.OnlySyncFail) : Gated ctx tasks s0 e :=
  fun t hd hreg => absurd (h t hd) hreg

/-! ## The wave -/

/-- which regular tasks of smaller rank are left when a wave is picked -/
theorem smaller_succeeded {first : SyncTask} (hranked : tasks.Pairwise fun a b => a.rank ≤ b.rank)
    (hready : Ready ctx tasks s0 s) (hok : (regularTasks tasks).any (isUnsuccessful s) = false)
    (hfirst : (pendingTasks ctx tasks s).head? = some first) (hu : u ∈ tasks) (hur : u.phase ≠ .syncFail)
    (hlt : u.rank < first.rank) : (s.task u).operationState = some .succeeded ∨
      (ctx.applyOutOfSyncOnly = true ∧ isUnmodified ctx s0 u = true) := by
  have hum : u ∈ regularTasks tasks := mem_filter.2 ⟨hu, by simpa using hur⟩
  have hp : first ∈ pendingTasks ctx tasks s := List.mem_of_head? hfirst
  have hmu : multiStep tasks = true := by
    cases hm : multiStep tasks with
    | true => rfl
    | false =>
      have hf := (mem_filter.1 (mem_pendingTasks hp).1).1
      exact absurd (multiStep_eq_false hranked hm u first hu hf) hlt.ne
  have hun := any_eq_false.1 hok u hum
  cases hs : (s.task u).operationState with
  | some phase =>
    cases phase with
    | running => exact absurd hs (hready.waited u hu (.inl hmu))
    | terminating => exact absurd hs (hready.booked.cell u hu).1
    | succeeded => exact .inl rfl
    | _ => simp [isUnsuccessful, TaskState.completed, TaskState.successful, hs, OperationPhase.completed] at hun
  | none =>
    refine .inr ((pending_or_unmodified hready hum hs).resolve_left fun hin => ?_)
    have hsu : (pendingTasks ctx tasks s).Sublist tasks := by
      unfold pendingTasks filterOutOfSyncTasks
      split_ifs
      · exact filter_sublist.trans (filter_sublist.trans filter_sublist)
      · exact filter_sublist.trans filter_sublist
    have hle : first.rank ≤ u.rank := by
      obtain ⟨rest, hr⟩ := List.head?_eq_some_iff.1 hfirst
      rw [hr] at hin hsu
      rcases mem_cons.1 hin with rfl | hin
      · exact le_rfl
      · exact (pairwise_cons.1 (hranked.sublist hsu)).1 u hin
    exact absurd hlt (not_lt.2 hle)

theorem inWaveOf_rank {first : SyncTask} (h : inWaveOf first t = true) : t.rank = first.rank := by
  simp only [inWaveOf, Bool.and_eq_true, decide_eq_true_eq] at h
  exact rank_eq_iff.2 h

section Wave

variable {first : SyncTask} (hranked : tasks.Pairwise fun a b => a.rank ≤ b.rank) (hready : Ready ctx tasks s0 s)
  (hok : (regularTasks tasks).any (isUnsuccessful s) = false) (hfirst : (pendingTasks ctx tasks s).head? = some first)

include hranked hready hok hfirst

/-- no result of the wave is recorded under the key of a task that has succeeded -/
theorem smaller_recorded (hu : u ∈ tasks) (hur : u.phase ≠ .syncFail) (hlt : u.rank < first.rank)
    (hc : ctx.dryRun = false) :
    (RecordedSucceeded s.syncRes u ∧ ∀ t ∈ tasks, (s.task t).operationState = none → t.resultKey ≠ u.resultKey) ∨
      (ctx.applyOutOfSyncOnly = true ∧ isUnmodified ctx s0 u = true) := by
  refine (smaller_succeeded hranked hready hok hfirst hu hur hlt).imp_left fun hsu => ?_
  have hum : u ∈ regularTasks tasks := mem_filter.2 ⟨hu, by simpa using hur⟩
  cases hready.standing with
  | dry _ h _ => cases hc.symm.trans h
  | created _ _ h _ =>
    rcases h u hu with h | h
    · cases h.symm.trans hsu
    · cases h.1.symm.trans hsu
  | settled hs =>
    have hh : ∀ t ∈ tasks, t.isHook = true → (s.task t).operationState ≠ some .running :=
      fun t ht hho => hready.waited t ht (.inr hho)
    have hr : ∀ t ∈ regularTasks tasks, isUnsuccessful s t = false := by
      intro t ht
      simpa using any_eq_false.1 hok t ht
    obtain ⟨hre, hk⟩ := succeeded_recorded hready.booked hs hh hr hum hsu
    exact ⟨hre, fun t ht hn hke => hk t ht hke hn⟩

theorem wave_gated {s1 : St} (hl : s1.log = s.log) (hre : s1.syncRes = s.syncRes) : Logs (Gated ctx tasks s0) s
      (runTasks ctx w (nextWave tasks (pendingTasks ctx tasks s) s first).tasks false s1).2 := by
  set wave := (nextWave tasks (pendingTasks ctx tasks s) s first).tasks with hw
  have hdo : Runs ctx ctx.dryRun (· ∈ wave) s1 (runTasks ctx w wave false s1).2 :=
    runTasks_does (Bool.false_or _) fun _ h => h
  cases hc : ctx.dryRun with
  | true =>
    rw [hc] at hdo
    exact fun e he => hl ▸ Does.logs_other gated_of_onlySyncFail hdo (by simp [runKinds]) e he
  | false =>
    intro e he
    by_cases ho : e ∈ s.log
    · exact .inl ho
    right
    intro t hd hreg u hu hur hlt
    have hn : ∀ key, (∀ t ∈ wave, t.resultKey ≠ key) →
        callsOf (runKinds ctx.dryRun) (· ∈ wave) e.call ∧ e.results.get? key = s.syncRes.get? key := by
      intro key hke
      have h := (hdo.new_event key fun _ t _ _ hr => hke t hr.1) e he
      rw [hl, hre] at h
      exact h.resolve_left ho
    have hca : callsOf (runKinds ctx.dryRun) (· ∈ wave) e.call := by
      have h := hdo.new_call e he
      rw [hl] at h
      exact h.resolve_left ho
    have ht : t ∈ wave := deploys_of hca hd
    have hra : t.rank = first.rank := inWaveOf_rank (mem_filter.1 ht).2
    refine (smaller_recorded hranked hready hok hfirst hu hur (hra ▸ hlt) hc).imp_left fun h => ?_
    obtain ⟨⟨r, hr, hp⟩, hk⟩ := h
    refine ⟨r, ?_, hp⟩
    rw [(hn u.resultKey fun v hv => ?_).2]
    · exact hr
    · obtain ⟨hvr, hvn⟩ := mem_pendingTasks (mem_filter.1 hv).1
      exact hk v (mem_filter.1 hvr).1 hvn

end Wave

/-- **The wave gate.** In every call of every operation, whatever the cluster answers: when a regular task is applied or
pruned, other than the namespace created first, every regular task of smaller phase and wave is recorded as succeeded or
was left out as unmodified. -/
theorem wave_gate {o : OperationState} (ho : Reached o) (ctx : Ctx) (w : World)
    (hfit : WavesFit (planTasks ctx w (restore o)).tasks) (e : Event) (he : e ∈ (sync ctx w (restore o)).log)
    (t : SyncTask) (hd : e.call.Deploys t) (hreg : t.phase ≠ .syncFail)
    (hns : ¬ EarlyNamespace ctx (getSyncTasks ctx w (restore o)) t) :
    ∀ u ∈ (getSyncTasks ctx w (restore o)).tasks, u.phase ≠ .syncFail → u.rank < t.rank →
      RecordedSucceeded e.results u ∨
        (ctx.applyOutOfSyncOnly = true ∧ isUnmodified ctx (getSyncTasks ctx w (restore o)).s u = true) := by
  obtain ⟨s', hv, hnew, he⟩ := deployed_after_validation he hd hns
  have hn : ((getSyncTasks ctx w (restore o)).tasks.map SyncTask.ptr).Nodup := getSyncTasks_nodup
  have hva := validate_go hn (getSyncTasks_agrees (restore_fresh o)) (getSyncTasks_sane (reached_sane ho)) hv
  have hg := advance_logs gated_of_onlySyncFail hn fun ha => proceed_logs gated_of_onlySyncFail fun hok first hfirst =>
    wave_gated (w := w) (getSyncTasks_ranked hfit) (ready hn hva ha) hok hfirst rfl rfl
  exact (hg e he).resolve_left hnew t hd hreg

/-! ## One wave a call -/

/-- what an event deploys, other than hooks of failure, is of the rank and was pending in s -/
def FromWave (ctx : Ctx) (tasks : List SyncTask) (s : St) (rank : ℤ ×ₗ ℤ) (e : Event) : Prop :=
  ∀ t, e.call.Deploys t → t.phase ≠ .syncFail → t.rank = rank ∧ t ∈ pendingTasks ctx tasks s

theorem wave_deploys {first : SyncTask} {s1 : St} (hl : s1.log = s.log) : Logs (FromWave ctx tasks s first.rank) s
    (runTasks ctx w (nextWave tasks (pendingTasks ctx tasks s) s first).tasks false s1).2 := by
  intro e he
  have hdo : Runs ctx ctx.dryRun (· ∈ (nextWave tasks (pendingTasks ctx tasks s) s first).tasks) s1
    (runTasks ctx w _ false s1).2 := runTasks_does (Bool.false_or _) fun _ h => h
  refine hl ▸ (hdo.new_call e he).imp_right fun hc t hd _ => ?_
  obtain ⟨hp, hw⟩ := mem_filter.1 (deploys_of hc hd)
  exact ⟨inWaveOf_rank hw, hp⟩

/-- a task with a phase on record is not pending -/
theorem recorded_not_pending (hn : (tasks.map SyncTask.ptr).Nodup) (ha : ∀ t ∈ tasks, Agrees s t)
    (hv : validate ctx w tasks s = .go s')
    (ht : t ∈ pendingTasks ctx tasks (removeCompletedFinalizers w tasks (updateRunningTasks w tasks s')))
    {r : ResourceSyncResult} (hr : s.syncRes.get? t.resultKey = some r) : r.hookPhase = none := by
  obtain ⟨hm, hno⟩ := mem_pendingTasks ht
  rw [validate, if_pos (started_of_get? hr)] at hv
  cases hv
  by_contra hne
  rw [← (ha t (mem_filter.1 hm).1).state r hr] at hne
  have hu : Does (callsOf [.health] fun _ => False) (updateResult (· ∈ tasks)) (fun _ => False) s
    (updateRunningTasks w tasks s) := updateRunningTasks_does hn
  refine (removeCompletedFinalizers_does hn).operationState_inv (· ≠ none)
    (hu.operationState_inv (· ≠ none) hne ?_) ?_ hno
  · rintro _ _ _ _ - - ⟨-, -, -, phase, rfl, -⟩
    exact Option.some_ne_none _
  · rintro _ _ _ _ - - ⟨-, -, rfl⟩
    exact Option.some_ne_none _

/-- **One wave a call.** In every call, whatever the cluster answers: what is deployed, other than the namespace created
first and by hooks of failure, is of one phase and wave, and no phase of it is on record. -/
theorem one_wave_a_call (ctx : Ctx) (w : World) (o : OperationState) : ∃ rank,
    ∀ e ∈ (sync ctx w (restore o)).log, ∀ t, e.call.Deploys t → t.phase ≠ .syncFail →
      ¬ EarlyNamespace ctx (getSyncTasks ctx w (restore o)) t → t.rank = rank ∧
        ∀ r, (getSyncTasks ctx w (restore o)).s.syncRes.get? t.resultKey = some r → r.hookPhase = none := by
  set p := getSyncTasks ctx w (restore o) with hp
  have hn : (p.tasks.map SyncTask.ptr).Nodup := getSyncTasks_nodup
  cases hv : validate ctx w p.tasks p.s with
  | stop s' =>
    refine ⟨default, fun e he t hd _ hns => ?_⟩
    obtain ⟨s'', hv', -⟩ := deployed_after_validation he hd hns
    cases hv.symm.trans hv'
  | go s' =>
    set s := removeCompletedFinalizers w p.tasks (updateRunningTasks w p.tasks s')
    obtain ⟨rank, hrank⟩ : ∃ rank, ∀ first ∈ (pendingTasks ctx p.tasks s).head?, first.rank = rank := by
      cases (pendingTasks ctx p.tasks s).head? with
      | none => exact ⟨default, nofun⟩
      | some first => exact ⟨first.rank, by rintro _ ⟨⟩; rfl⟩
    have hP : ∀ e : Event, e.OnlySyncFail → FromWave ctx p.tasks s rank e := fun e h t hd hreg => absurd (h t hd) hreg
    have hg : Logs (FromWave ctx p.tasks s rank) s' (advance ctx w p.tasks s') := advance_logs hP hn fun _ =>
      proceed_logs hP fun _ first hfirst => hrank first hfirst ▸ wave_deploys rfl
    refine ⟨rank, fun e he t hd hreg hns => ?_⟩
    obtain ⟨s'', hv', hnew, he⟩ := deployed_after_validation he hd hns
    cases hv.symm.trans hv'
    obtain ⟨hra, hpe⟩ := (hg e he).resolve_left hnew t hd hreg
    exact ⟨hra, fun r => recorded_not_pending hn (getSyncTasks_agrees (restore_fresh o)) hv hpe⟩

/-! ## Two waves -/

def earlyMap : Obj := configMap "early" []

def lateMap : Obj := configMap "late" [(annotationSyncWave, "1")]

/-- what the first call left behind: the early map is applied -/
def afterFirstWave : OperationState :=
  getState (sync (plainCtx [.missing earlyMap, .missing lateMap] []) calmWorld (restore newOperation))

/-- the early map is live now -/
def secondCall : Ctx := plainCtx [.both earlyMap earlyMap, .missing lateMap] []

/-- the second call applies the late map, and the early one is recorded as succeeded by then -/
theorem wave_gate_two_waves :
    ∃ e ∈ (sync secondCall calmWorld (restore afterFirstWave)).log, e.call.Deploys (taskOf 0 lateMap) ∧
      (taskOf 1 earlyMap).rank < (taskOf 0 lateMap).rank ∧ RecordedSucceeded e.results (taskOf 1 earlyMap) := by
  have hl : ((sync secondCall calmWorld (restore afterFirstWave)).log.map fun e => (e.call.kind, e.call.task?)).head? =
      some (.apply .none, some (taskOf 0 lateMap)) := by decide +kernel
  rw [List.head?_map, Option.map_eq_some_iff] at hl
  obtain ⟨e, he, hc⟩ := hl
  have hd : e.call.Deploys (taskOf 0 lateMap) := ⟨.inl (congrArg Prod.fst hc), congrArg Prod.snd hc⟩
  have hlt : (taskOf 1 earlyMap).rank < (taskOf 0 lateMap).rank := by decide +kernel
  refine ⟨e, List.mem_of_head? he, hd, hlt, ?_⟩
  have hr : Reached afterFirstWave := .sync .start _ _
  have hg := wave_gate hr secondCall calmWorld (by decide +kernel) e (List.mem_of_head? he) _ hd
    (by decide) (fun h => absurd h.1 (by decide +kernel)) (taskOf 1 earlyMap)
  exact (hg mem_cons_self (by decide) hlt).resolve_right fun h => absurd h.1 (by decide)

end GitOpsDeploy.Sync

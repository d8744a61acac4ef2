/-
What `getSyncTasks` guarantees about the tasks it returns.
-/
import GitOpsDeploy.Sync.Outcome

namespace GitOpsDeploy.Sync

open List

variable {ctx : Ctx} {w : World} {s : St} {b : Building} {C : CallSet} {R : ResultSet} {L : SyncTask → Prop}

/-! ## Effects -/

/-- the calls of `getSyncTasks` -/
abbrev planKinds : List CallKind := [.discover, .validatePermission, .getNamespace, .syncNamespace]

/-- no task is called for yet -/
abbrev planCalls : CallSet := callsOf planKinds fun _ => False

variable (successful : Bool)

/-- the failures that `getSyncTasks` records; only those of the application's namespace leave it successful -/
def planResult : ResultSet := fun _ _ status state =>
  status = some .syncFailed ∧ (state = some .error ∨ (successful = false ∧ state = none))

abbrev Plans : St → St → Prop := Does planCalls (planResult successful) fun _ => True

variable {ds : List Draft} {ns : Obj} {t u : SyncTask} {ok : Bool} {s' s : St} {c : Checking} {d : Draft}

theorem addTasks_does : Does planCalls R (fun _ => True) b.2 (ds.foldl addTask b).2 := by
  induction ds generalizing b with
  | nil => exact .refl
  | cons d ds ih => exact (Does.setLive .refl trivial).trans (ih (b := addTask b d))

theorem planCalls_of {c : Call} (hk : c.kind ∈ planKinds) (ht : c.task? = none) : planCalls c :=
  ⟨hk, fun _ h => by rw [ht] at h; cases h⟩

/-- what tasks are built from: managed resources, hooks and the application's namespace -/
inductive Origin (ctx : Ctx) (w : World) : Draft → Prop
  | resource {r : Reconciled} {phase : SyncPhase} (hr : r ∈ ctx.resources) (hhook : isHook r.obj = false)
      (hphase : phase ∈ syncPhases r.obj) : Origin ctx w (ctx.withNamespace ⟨phase, r.subject, r.liveObj⟩)
  | hook {obj : Obj} {phase : SyncPhase} (hskip : ctx.skipHooks = false) (hobj : obj ∈ ctx.hooks)
      (hphase : phase ∈ syncPhases obj) :
      Origin ctx w (ctx.withNamespace ⟨phase, .create (ctx.hookTarget obj phase), none⟩)
  | managedNs {annotations : List (String × String)} {live : Option LiveObj} (hsync : ctx.hasSyncNamespace = true)
      (h : annotations = [] ∨ ∃ log liveNs, annotations = (w.syncNamespace log (managedNs ctx.ns) liveNs).2)
      (hlive : ∀ l ∈ live, ∃ log, w.getNamespace log ctx.ns = .ok l.obj) :
      Origin ctx w ⟨.preSync, .create { managedNs ctx.ns with annotations := annotations }, live⟩

/-- the application's namespace gets no task, or one that may have failed already -/
inductive NsTask (ctx : Ctx) (w : World) (b : Building) : Building → Prop
  | none : NsTask ctx w b b
  | added {d : Draft} (hd : Origin ctx w d) : NsTask ctx w b (addTask b d)
  | failed {ns : Obj} (err : String) (hns : Origin ctx w ⟨.preSync, .create ns, none⟩) :
      NsTask ctx w b (appendFailedNsTask b ns err)

/-- calls that come before any task -/
abbrev Asks : St → St → Prop := Does planCalls noResult fun _ => False

theorem appendNsTask_cases {liveNs : Option LiveObj} (hs : ctx.hasSyncNamespace = true)
    (hl : ∀ l ∈ liveNs, ∃ log, w.getNamespace log ctx.ns = .ok l.obj) :
    ∃ s', Asks b.2 s' ∧ NsTask ctx w (b.1, s') (appendNsTask w b (managedNs ctx.ns) liveNs) := by
  have he : ∀ answer, Asks b.2 (b.2.emit (.syncNamespace (managedNs ctx.ns) (liveNs.map LiveObj.obj) answer)) :=
    fun answer => Does.emit .refl (planCalls_of (by simp [Call.kind]) rfl)
  unfold appendNsTask
  dsimp only
  split
  · exact ⟨_, he _, .failed _ (.managedNs hs (.inr ⟨_, _, rfl⟩) (by simp))⟩
  · exact ⟨_, he _, .added (.managedNs hs (.inr ⟨_, _, rfl⟩) hl)⟩
  · exact ⟨_, he _, .none⟩

theorem autoCreateNamespace_cases (hs : ctx.hasSyncNamespace = true) :
    ∃ s', Asks b.2 s' ∧ NsTask ctx w (b.1, s') (autoCreateNamespace ctx w b) := by
  have he : ∀ answer, Asks b.2 (b.2.emit (.getNamespace ctx.ns answer)) :=
    fun answer => Does.emit .refl (planCalls_of (by simp [Call.kind]) rfl)
  have ha : ∀ answer liveNs, (∀ l ∈ liveNs, ∃ log, w.getNamespace log ctx.ns = .ok l.obj) → ∃ s', Asks b.2 s' ∧
      NsTask ctx w (b.1, s') (appendNsTask w (b.1, b.2.emit (.getNamespace ctx.ns answer)) (managedNs ctx.ns) liveNs) := by
    intro answer liveNs hl
    obtain ⟨s', hs', hn⟩ := appendNsTask_cases (b := (b.1, b.2.emit (.getNamespace ctx.ns answer))) hs hl
    exact ⟨s', (he answer).trans hs', hn⟩
  unfold autoCreateNamespace
  split_ifs
  · dsimp only
    split
    · rename_i live hli
      refine ha _ _ fun l hl => ⟨b.2.log, ?_⟩
      rw [← Option.mem_some_iff.1 hl]
      exact hli
    · split_ifs
      · exact ha _ _ (by simp)
      · exact ⟨_, he _, .failed _ (@Origin.managedNs ctx w [] none hs (.inl rfl) (by simp))⟩
  · exact ⟨b.2, .refl, .none⟩

theorem buildTasks_cases : ∃ s', Asks ((ctx.drafts w s).foldl addTask ([], s)).2 s' ∧
    NsTask ctx w (((ctx.drafts w s).foldl addTask ([], s)).1, s') (buildTasks ctx w s) := by
  unfold buildTasks
  split_ifs with hs
  · exact autoCreateNamespace_cases (Bool.and_eq_true_iff.1 hs).1
  · exact ⟨_, .refl, .none⟩

theorem buildTasks_does : Plans true s (buildTasks ctx w s).2 := by
  obtain ⟨s', hs', hn⟩ := @buildTasks_cases ctx w s
  have h : Plans true s s' := (addTasks_does (b := ([], s))).trans
    (hs'.weaken (fun _ h => h) (fun _ _ _ _ h => h.elim) fun _ h => h.elim)
  generalize buildTasks ctx w s = b at hn
  cases hn with
  | none => exact h
  | added hd => exact h.setLive trivial
  | failed err hns => exact (h.setLive trivial).setResult ⟨rfl, .inl rfl⟩

theorem enrichLiveObj_does : Does planCalls R (fun _ => True) s (enrichLiveObj ctx w s t) := by
  unfold enrichLiveObj
  split
  · exact Does.setLive .refl trivial
  · exact .refl

theorem enrichLiveObjs_does : Does planCalls R (fun _ => True) b.2 (enrichLiveObjs ctx w b) :=
  Does.loop fun _ _ _ => enrichLiveObj_does

/-- failed checks leave the state of their task empty -/
def checkResult : ResultSet := fun _ _ status state =>
  successful = false ∧ status = some .syncFailed ∧ state = none

/-- checking permissions leaves the live objects alone, and records nothing when every check passes -/
abbrev Checks : St → St → Prop := Does planCalls (checkResult successful) fun _ => False

theorem Checks.to_any (h : Checks true s s') : Checks ok s s' :=
  h.weaken (fun _ h => h) (fun _ _ _ _ h => nomatch h.1) fun _ h => h

theorem Checks.to_false (h : Checks ok s s') : Checks false s s' :=
  h.weaken (fun _ h => h) (fun _ _ _ _ h => ⟨rfl, h.2⟩) fun _ h => h

theorem serverRes_does {gvk : GroupVersionKind} : Checks true c.s (serverRes w c gvk).2.s := by
  unfold serverRes
  split
  · exact .refl
  · exact retryOn_does fun s => discover_does (callsOf_le (by simp [planKinds]) fun _ h => h)

theorem serverRes_successful {gvk : GroupVersionKind} : (serverRes w c gvk).2.successful = c.successful := by
  unfold serverRes
  split <;> rfl

theorem checkPermission_does {c : Checking} {t : SyncTask} :
    (Checks true c.s (checkPermission ctx w c t).s ∧ (checkPermission ctx w c t).successful = c.successful) ∨
      (Checks false c.s (checkPermission ctx w c t).s ∧ (checkPermission ctx w c t).successful = false) := by
  have hs : Checks true c.s (serverRes w c t.obj.gvk).2.s := serverRes_does
  have hv : ∀ answer, Checks true c.s ((serverRes w c t.obj.gvk).2.s.emit (.validatePermission t.obj answer)) :=
    fun answer => hs.emit (planCalls_of (by simp [Call.kind]) rfl)
  have hok : (serverRes w c t.obj.gvk).2.successful = c.successful := serverRes_successful
  unfold checkPermission
  dsimp only
  split
  · split_ifs
    · exact .inl ⟨hs, hok⟩
    · exact .inr ⟨(Checks.to_any hs).setResult ⟨rfl, rfl, rfl⟩, rfl⟩
  · split
    · exact .inr ⟨(Checks.to_any (hv _)).setResult ⟨rfl, rfl, rfl⟩, rfl⟩
    · exact .inl ⟨hv _, hok⟩

variable {tasks : List SyncTask}

theorem checkPermissions_does :
    Checks (checkPermissions ctx w tasks s).successful s (checkPermissions ctx w tasks s).s := by
  have hl : ∀ c : Checking, Checks c.successful s c.s →
      Checks (tasks.foldl (checkPermission ctx w) c).successful s (tasks.foldl (checkPermission ctx w) c).s := by
    induction tasks with
    | nil => exact fun c hc => hc
    | cons t ts ih =>
      intro c hc
      apply ih
      rcases @checkPermission_does ctx w c t with ⟨h, hs⟩ | ⟨h, hs⟩
      · rw [hs]
        exact hc.trans h.to_any
      · rw [hs]
        exact (Checks.to_false hc).trans h
  exact hl ⟨[], [], true, s⟩ .refl

/-- **Before the sort** only failures are recorded, and when every check passes only those of the namespace. -/
theorem planTasks_does : Plans (planTasks ctx w s).successful s (planTasks ctx w s).s := by
  have hb : Plans (planTasks ctx w s).successful s (buildTasks ctx w s).2 := by
    refine buildTasks_does.weaken (fun _ h => h) (fun _ _ _ _ h => ⟨h.1, .inl ?_⟩) fun _ h => h
    exact h.2.resolve_right nofun
  have hc := @checkPermissions_does ctx w (enrichLiveObjs ctx w (buildTasks ctx w s)) (buildTasks ctx w s).1
  refine (hb.trans enrichLiveObjs_does).trans (hc.weaken (fun _ h => h) ?_ fun _ h => h.elim)
  exact fun _ _ _ _ h => ⟨h.2.1, .inr ⟨h.1, h.2.2⟩⟩

/-! ## Where the tasks come from -/

/-- the tasks built so far are numbered, and each has its origin -/
structure Built (ctx : Ctx) (w : World) (b : Building) : Prop where
  numbered : b.1.map SyncTask.ptr = List.range b.1.length
  origin : ∀ t ∈ b.1, ∃ d, Origin ctx w d ∧ t.subject = d.subject ∧ t.phase = d.phase ∧ b.2.liveObj t = d.liveObj

theorem liveObj_setLiveObj_self {l : Option LiveObj} : (s.setLiveObj t l).liveObj t = l := by
  unfold St.liveObj St.setLiveObj
  rw [task_setTask_self]

theorem liveObj_setLiveObj_of_ne {l : Option LiveObj} (h : t.ptr ≠ u.ptr) :
    (s.setLiveObj u l).liveObj t = s.liveObj t := congrArg TaskState.liveObj (task_setTask_of_ne _ h)

theorem Built.nil : Built ctx w ([], s) := ⟨rfl, nofun⟩

theorem Built.congr (h : Built ctx w b) (hl : ∀ t, s'.liveObj t = b.2.liveObj t) : Built ctx w (b.1, s') := by
  refine ⟨h.numbered, fun t ht => ?_⟩
  obtain ⟨d, hd, hs, hp, hl'⟩ := h.origin t ht
  exact ⟨d, hd, hs, hp, (hl t).trans hl'⟩

theorem Built.addTask (h : Built ctx w b) (hd : Origin ctx w d) : Built ctx w (addTask b d) := by
  refine ⟨?_, fun t ht => ?_⟩
  · simp [Sync.addTask, newTask, h.numbered, range_succ]
  · rcases mem_append.1 ht with ht | ht
    · obtain ⟨d', hd', hs, hp, hl⟩ := h.origin t ht
      have hlt : t.ptr < b.1.length := by
        rw [← mem_range, ← h.numbered]
        exact mem_map_of_mem ht
      exact ⟨d', hd', hs, hp, (liveObj_setLiveObj_of_ne hlt.ne).trans hl⟩
    · rw [mem_singleton.1 ht]
      exact ⟨d, hd, rfl, rfl, liveObj_setLiveObj_self⟩

theorem addTasks_built (h : Built ctx w b) (hds : ∀ d ∈ ds, Origin ctx w d) : Built ctx w (ds.foldl addTask b) := by
  induction ds generalizing b with
  | nil => exact h
  | cons d ds ih =>
    exact ih (h.addTask (hds d mem_cons_self)) fun d hd => hds d (mem_cons_of_mem _ hd)

theorem drafts_origin (h : d ∈ ctx.drafts w s) : Origin ctx w d := by
  obtain ⟨d, hd, rfl⟩ := mem_map.1 h
  rcases mem_append.1 hd with hd | hd
  · obtain ⟨r, hr, hd⟩ := mem_flatMap.1 hd
    obtain ⟨phase, hp, rfl⟩ := mem_map.1 hd
    obtain ⟨hr, hf⟩ := mem_filter.1 hr
    simp only [Bool.and_eq_true, Bool.not_eq_true'] at hf
    exact .resource ((w.resourceOrder_perm _ _ _).mem_iff.1 hr) hf.2 hp
  · unfold Ctx.hookTasks at hd
    split_ifs at hd with hs
    · cases hd
    · obtain ⟨obj, ho, hd⟩ := mem_flatMap.1 hd
      obtain ⟨phase, hp, rfl⟩ := mem_map.1 hd
      exact .hook (by simpa using hs) ho hp

theorem buildTasks_built : Built ctx w (buildTasks ctx w s) := by
  obtain ⟨s', hs', hn⟩ := @buildTasks_cases ctx w s
  have h := (addTasks_built .nil fun _ hd => drafts_origin hd).congr hs'.liveObj_eq
  generalize buildTasks ctx w s = b at hn
  cases hn with
  | none => exact h
  | added hd => exact h.addTask hd
  | failed err hns =>
    refine (h.addTask hns).congr fun t => ?_
    exact Does.liveObj_eq (C := planCalls) (R := planResult true) (Does.setResult .refl ⟨rfl, .inl rfl⟩) t

theorem Built.eq_of_ptr (h : Built ctx w b) (ht : t ∈ b.1) (hu : u ∈ b.1) (hp : t.ptr = u.ptr) : t = u := by
  have hn : (b.1.map SyncTask.ptr).Nodup := h.numbered ▸ nodup_range
  exact inj_on_of_nodup_map hn ht hu hp

/-- the live object of a task after a managed one was looked for -/
def Enriched (ctx : Ctx) (w : World) (s s' : St) (t : SyncTask) : Prop :=
  s'.liveObj t = s.liveObj t ∨
    (s.liveObj t = none ∧ ∃ log target, t.targetObj = some target ∧ s'.liveObj t = ctx.liveObj w log target)

theorem enrichLiveObjs_enriched (h : Built ctx w b) : ∀ t ∈ b.1, Enriched ctx w b.2 (enrichLiveObjs ctx w b) t := by
  have hl : ∀ us ⊆ b.1, ∀ s', (∀ t ∈ b.1, Enriched ctx w b.2 s' t) →
      ∀ t ∈ b.1, Enriched ctx w b.2 (us.foldl (enrichLiveObj ctx w) s') t := by
    intro us
    induction us with
    | nil => exact fun _ s' hs => hs
    | cons u us ih =>
      intro hsu s' hs
      refine ih (fun t ht => hsu (mem_cons_of_mem _ ht)) _ fun t ht => ?_
      unfold enrichLiveObj
      split
      · rename_i target hta hn
        by_cases hp : t.ptr = u.ptr
        · obtain rfl := h.eq_of_ptr ht (hsu mem_cons_self) hp
          refine .inr ⟨?_, s'.log, target, hta, liveObj_setLiveObj_self⟩
          rcases hs t ht with hsa | hf
          · exact hsa.symm.trans hn
          · exact hf.1
        · unfold Enriched
          rw [liveObj_setLiveObj_of_ne hp]
          exact hs t ht
      · exact hs t ht
  exact hl b.1 (fun _ h => h) b.2 fun _ _ => .inl rfl

/-- what the waves and the sort read of a task -/
def SyncTask.plan (t : SyncTask) : Subject × SyncPhase × Option ℤ := (t.subject, t.phase, t.waveOverride)

theorem addTasks_plan :
    (ds.foldl addTask b).1.map SyncTask.plan = b.1.map SyncTask.plan ++ ds.map fun d => (d.subject, d.phase, none) := by
  induction ds generalizing b with
  | nil => simp
  | cons d ds ih =>
    rw [foldl_cons, ih]
    simp [addTask, newTask, SyncTask.plan]

theorem buildTasks_covers (hd : d ∈ ctx.drafts w s) : ∃ t ∈ (buildTasks ctx w s).1, t.subject = d.subject := by
  have hm : (d.subject, d.phase, none) ∈ ((ctx.drafts w s).foldl addTask ([], s)).1.map SyncTask.plan := by
    rw [addTasks_plan]
    exact mem_append_right _ (mem_map_of_mem hd)
  obtain ⟨t, ht, hs⟩ := mem_map.1 hm
  refine ⟨t, ?_, congrArg Prod.fst hs⟩
  obtain ⟨s', -, hn⟩ := @buildTasks_cases ctx w s
  generalize buildTasks ctx w s = b at hn
  cases hn with
  | none => exact ht
  | _ => exact mem_append_left _ ht

/-! ## The tasks -/

/-- what the checks and the waves keep of a task -/
def SyncTask.ident (t : SyncTask) : ℕ × Subject × SyncPhase := (t.ptr, t.subject, t.phase)

theorem checkPermission_tasks {β : Type} {f : SyncTask → β} (hf : ∀ t, f { t with skipDryRun := true } = f t) :
    (checkPermission ctx w c t).tasks.map f = c.tasks.map f ++ [f t] := by
  have hs : (serverRes w c t.obj.gvk).2.tasks = c.tasks := by
    unfold serverRes
    split <;> rfl
  unfold checkPermission
  dsimp only
  split
  · split_ifs <;> simp [hs, hf]
  · split <;> simp [hs]

theorem checkPermissions_tasks {β : Type} {f : SyncTask → β} (hf : ∀ t, f { t with skipDryRun := true } = f t) :
    (checkPermissions ctx w tasks s).tasks.map f = tasks.map f := by
  have hl : ∀ c : Checking, (tasks.foldl (checkPermission ctx w) c).tasks.map f = c.tasks.map f ++ tasks.map f := by
    induction tasks with
    | nil => simp
    | cons t ts ih =>
      intro c
      rw [foldl_cons, ih, checkPermission_tasks hf]
      simp
  exact hl ⟨[], [], true, s⟩

theorem adjustPruneWaves_ident (tasks : List SyncTask) :
    (ctx.adjustPruneWaves tasks).map SyncTask.ident = tasks.map SyncTask.ident := by
  unfold Ctx.adjustPruneWaves
  simp only [map_map]
  refine map_congr_left fun t _ => ?_
  simp only [Function.comp_apply, Ctx.pruneLastWave, swapPruneWave]
  split_ifs <;> rfl

theorem planTasks_ident : (planTasks ctx w s).tasks.map SyncTask.ident = (buildTasks ctx w s).1.map SyncTask.ident := by
  exact (adjustPruneWaves_ident _).trans (checkPermissions_tasks fun _ => rfl)

/-- the sorted tasks are the planned ones, with other phases and waves -/
theorem getSyncTasks_core :
    ((getSyncTasks ctx w s).tasks.map SyncTask.core).Perm ((planTasks ctx w s).tasks.map SyncTask.core) :=
  (sortTasks_core _).trans ((w.taskOrder_perm _ _ _).map _)

/-- **No two tasks share their fields.** -/
theorem getSyncTasks_nodup : ((getSyncTasks ctx w s).tasks.map SyncTask.ptr).Nodup := by
  have hp : (planTasks ctx w s).tasks.map SyncTask.ptr = (buildTasks ctx w s).1.map SyncTask.ptr := by
    have h := congrArg (List.map Prod.fst) (@planTasks_ident ctx w s)
    rwa [map_map, map_map] at h
  have hpe : ((getSyncTasks ctx w s).tasks.map SyncTask.ptr).Perm ((planTasks ctx w s).tasks.map SyncTask.ptr) := by
    have h := (@getSyncTasks_core ctx w s).map Prod.fst
    rwa [map_map, map_map] at h
  rw [hpe.nodup_iff, hp, buildTasks_built.numbered]
  exact nodup_range

theorem getSyncTasks_ranked (h : WavesFit (planTasks ctx w s).tasks) :
    (getSyncTasks ctx w s).tasks.Pairwise fun a b => a.rank ≤ b.rank := by
  refine sortTasks_ranked fun a ha b hb => h a ?_ b ?_
  · exact (w.taskOrder_perm _ _ _).mem_iff.1 ha
  · exact (w.taskOrder_perm _ _ _).mem_iff.1 hb

/-! ## Recorded results -/

theorem started_iff : s.started = true ↔ ∃ r, r ∈ s.syncRes := by
  unfold St.started
  rw [decide_eq_true_iff, ne_nil_iff_exists_cons]
  refine ⟨fun ⟨r, rs, h⟩ => ⟨r, ?_⟩, fun ⟨r, h⟩ => ?_⟩
  · rw [KeyedMap.mem_iff, h]
    exact mem_cons_self
  · exact exists_cons_of_ne_nil (ne_nil_of_mem h)

theorem started_of_get? {key : String} {r : ResourceSyncResult} (h : s.syncRes.get? key = some r) : s.started = true :=
  started_iff.2 ⟨r, (KeyedMap.get?_eq_some.1 h).1⟩

theorem started_setResourceResult {status : Option ResultCode} {state : Option OperationPhase}
    {message : String} : (setResourceResult s t status state message).started = true :=
  started_of_get? ((get?_setResourceResult t.resultKey).trans (if_pos rfl))

/-- no task has a state yet, except that creating the namespace may have failed -/
def Fresh (s : St) : Prop :=
  ∀ t, (s.task t).operationState = none ∨ ((s.task t).operationState = some .error ∧ s.started = true)

theorem Plans.fresh (h : Plans ok s s') (hs : Fresh s) : Fresh s' := by
  refine h.inv Fresh hs fun s a hs ha => ?_
  cases ha with
  | @result u status state message h =>
    intro t
    change ((setResourceResult s u status state message).task t).operationState = none ∨
      (((setResourceResult s u status state message).task t).operationState = some .error ∧ _)
    rw [operationState_setResourceResult]
    split_ifs
    · exact h.2.symm.imp (fun h => h.2) fun h => ⟨h, started_setResourceResult⟩
    · exact (hs t).imp_right fun h => ⟨h.1, started_setResourceResult⟩
  | @live u l h =>
    intro t
    have hst : ((s.setLiveObj u l).task t).operationState = (s.task t).operationState := operationState_setLiveObj
    change ((s.setLiveObj u l).task t).operationState = none ∨ _
    rw [hst]
    exact (hs t).imp_right fun h => ⟨hst.trans h.1, h.2⟩
  | _ => exact hs

/-- the fields of a task after the results were copied -/
def enriched (s : St) (t : SyncTask) : TaskState :=
  match s.syncRes.get? t.resultKey with
  | none => s.task t
  | some r => { s.task t with syncStatus := r.status, operationState := r.hookPhase, message := r.message }

theorem enrichResult_eq (t : SyncTask) : enrichResult s t = s.setTask t (enriched s t) := by
  unfold enrichResult enriched
  cases s.syncRes.get? t.resultKey with
  | none =>
    unfold St.setTask St.task
    rw [Function.update_eq_self]
  | some r => rfl

/-- copying results changes the tasks' fields only -/
structure Copied (tasks : List SyncTask) (s s' : St) : Prop where
  syncRes : s'.syncRes = s.syncRes
  log : s'.log = s.log
  phase : s'.phase = s.phase
  heap : s'.heap = s.heap
  task : ∀ t ∈ tasks, s'.task t = enriched s t
  other : ∀ t, t.ptr ∉ tasks.map SyncTask.ptr → s'.task t = s.task t

theorem enrichResults_copied (hn : (tasks.map SyncTask.ptr).Nodup) : Copied tasks s (tasks.foldl enrichResult s) := by
  induction tasks generalizing s with
  | nil => exact ⟨rfl, rfl, rfl, rfl, fun _ h => absurd h not_mem_nil, fun _ _ => rfl⟩
  | cons u us ih =>
    obtain ⟨hu, hn⟩ := nodup_cons.1 hn
    have hr := ih (s := enrichResult s u) hn
    rw [enrichResult_eq] at hr
    rw [foldl_cons, enrichResult_eq]
    refine ⟨hr.syncRes, hr.log, hr.phase, hr.heap, fun t ht => ?_, fun t ht => ?_⟩
    · rcases mem_cons.1 ht with rfl | ht
      · rw [hr.other t hu, task_setTask_self]
      · have hne : t.ptr ≠ u.ptr := fun h => hu (h ▸ mem_map_of_mem ht)
        rw [hr.task t ht]
        unfold enriched
        rw [task_setTask_of_ne _ hne]
        rfl
    · obtain ⟨hne, ht⟩ := not_or.1 fun h => ht (mem_cons.2 h)
      rw [hr.other t ht, task_setTask_of_ne _ hne]

theorem getSyncTasks_copied : Copied (getSyncTasks ctx w s).tasks (planTasks ctx w s).s (getSyncTasks ctx w s).s :=
  enrichResults_copied getSyncTasks_nodup

/-- the task's fields are those recorded under its key -/
structure Agrees (s : St) (t : SyncTask) : Prop where
  status : ∀ r, s.syncRes.get? t.resultKey = some r → (s.task t).syncStatus = r.status
  state : ∀ r, s.syncRes.get? t.resultKey = some r → (s.task t).operationState = r.hookPhase
  unrecorded : s.syncRes.get? t.resultKey = none →
    (s.task t).operationState = none ∨ ((s.task t).operationState = some .error ∧ s.started = true)

theorem getSyncTasks_agrees (hs : Fresh s) : ∀ t ∈ (getSyncTasks ctx w s).tasks, Agrees (getSyncTasks ctx w s).s t := by
  intro t ht
  have hc := @getSyncTasks_copied ctx w s
  have hta := hc.task t ht
  unfold enriched at hta
  refine ⟨fun r hr => ?_, fun r hr => ?_, fun hr => ?_⟩
  · rw [hc.syncRes] at hr
    rw [hta, hr]
  · rw [hc.syncRes] at hr
    rw [hta, hr]
  · rw [hc.syncRes] at hr
    have hst : (getSyncTasks ctx w s).s.started = (planTasks ctx w s).s.started := by
      unfold St.started
      rw [hc.syncRes]
    rw [hta, hr, hst]
    exact Plans.fresh planTasks_does hs t

/-! ## Origins of the sorted tasks -/

/-- pointer and subject of the tasks stay what they were when the tasks were built -/
theorem getSyncTasks_built : ((getSyncTasks ctx w s).tasks.map fun t => (t.ptr, t.subject)).Perm
      ((buildTasks ctx w s).1.map fun t => (t.ptr, t.subject)) := by
  have hs := (@getSyncTasks_core ctx w s).map fun c => (c.1, c.2.1)
  have hp := congrArg (List.map fun c => (c.1, c.2.1)) (@planTasks_ident ctx w s)
  rw [map_map, map_map] at hs hp
  exact hs.trans (.of_eq hp)

theorem exists_built (ht : t ∈ (getSyncTasks ctx w s).tasks) :
    ∃ u ∈ (buildTasks ctx w s).1, u.ptr = t.ptr ∧ u.subject = t.subject := by
  obtain ⟨u, hu, heq⟩ := mem_map.1 (getSyncTasks_built.mem_iff.1 (mem_map_of_mem ht))
  exact ⟨u, hu, congrArg Prod.fst heq, congrArg Prod.snd heq⟩

theorem getSyncTasks_covers (hd : d ∈ ctx.drafts w s) : ∃ t ∈ (getSyncTasks ctx w s).tasks, t.subject = d.subject := by
  obtain ⟨u, hu, hs⟩ := buildTasks_covers hd
  obtain ⟨t, ht, heq⟩ := mem_map.1 (getSyncTasks_built.mem_iff.2 (mem_map_of_mem hu))
  exact ⟨t, ht, (congrArg Prod.snd heq).trans hs⟩

theorem targetObj_congr (h : t.subject = u.subject) : t.targetObj = u.targetObj := by
  unfold SyncTask.targetObj
  rw [h]

theorem planTasks_heap : (planTasks ctx w s).s.heap = s.heap :=
  Does.heap_eq planTasks_does fun c hc hk => by
    have hm := hc.1
    rw [hk] at hm
    simp [planKinds] at hm

theorem getSyncTasks_heap : (getSyncTasks ctx w s).s.heap = s.heap := getSyncTasks_copied.heap.trans planTasks_heap

theorem liveObj_enriched : (enriched s t).liveObj = s.liveObj t := by
  unfold enriched
  split <;> rfl

/-- **Every task has an origin**; its live object is that of the origin, or the managed one found for its target. -/
theorem getSyncTasks_origin (ht : t ∈ (getSyncTasks ctx w s).tasks) : ∃ d, Origin ctx w d ∧ t.subject = d.subject ∧
      ((getSyncTasks ctx w s).s.liveObj t = d.liveObj ∨ (d.liveObj = none ∧ ∃ log target, t.targetObj = some target ∧
          (getSyncTasks ctx w s).s.liveObj t = ctx.liveObj w log target)) := by
  obtain ⟨u, hu, hp, hs⟩ := exists_built ht
  obtain ⟨d, hd, hds, -, hdl⟩ := buildTasks_built.origin u hu
  have hc : (planTasks ctx w s).s.liveObj u = (enrichLiveObjs ctx w (buildTasks ctx w s)).liveObj u :=
    Does.liveObj_eq checkPermissions_does u
  have hl : (getSyncTasks ctx w s).s.liveObj t = (enrichLiveObjs ctx w (buildTasks ctx w s)).liveObj u := by
    refine Eq.trans ?_ hc
    refine (congrArg TaskState.liveObj (getSyncTasks_copied.task t ht)).trans (liveObj_enriched.trans ?_)
    exact congrArg TaskState.liveObj (task_congr hp.symm)
  refine ⟨d, hd, hs.symm.trans hds, ?_⟩
  rw [hl, ← hdl]
  refine (enrichLiveObjs_enriched buildTasks_built u hu).imp_right fun ⟨hn, log, target, hta, hf⟩ => ?_
  exact ⟨hn, log, target, (targetObj_congr hs.symm).trans hta, hf⟩

/-! ## First calls -/

/-- the state of a task that a first call plans: pending, or a namespace that could not be created -/
def FirstState (state : TaskState) : Prop :=
  (state.syncStatus = none ∧ state.operationState = none) ∨
    (state.syncStatus = some .syncFailed ∧ state.operationState = some .error)

theorem not_started_iff : s.started = false ↔ ∀ r, r ∉ s.syncRes := by
  rw [← Bool.not_eq_true, started_iff, not_exists]

theorem started_congr (h : s'.syncRes = s.syncRes) : s'.started = s.started := by
  unfold St.started
  rw [h]

section First

variable (hstart : s.started = false) (hok : (getSyncTasks ctx w s).successful = true)

include hok in
theorem planTasks_failures :
    Does planCalls (fun _ _ status state => status = some .syncFailed ∧ state = some .error) (fun _ => True) s
      (planTasks ctx w s).s := by
  refine planTasks_does.weaken (fun _ h => h) (fun _ _ _ _ h => ⟨h.1, h.2.resolve_right fun h => ?_⟩) fun _ h => h
  cases h.1.symm.trans hok

include hstart hok

theorem planTasks_recorded : ∀ r ∈ (planTasks ctx w s).s.syncRes, r.status = some .syncFailed ∧
    r.hookPhase = some .error :=
  (planTasks_failures hok).results_inv (fun status state => status = some .syncFailed ∧ state = some .error)
    (fun r hr => absurd hr (not_started_iff.1 hstart r)) fun _ _ _ _ h => h

theorem getSyncTasks_first (hn : ∀ t, s.task t = TaskState.new) :
    ∀ t ∈ (getSyncTasks ctx w s).tasks, FirstState ((getSyncTasks ctx w s).s.task t) := by
  intro t ht
  rw [getSyncTasks_copied.task t ht]
  unfold enriched
  split
  · refine (planTasks_failures hok).task_inv FirstState (fun _ _ _ _ h => h) (.inl ?_) fun _ _ _ _ _ _ _ h => .inr h
    rw [hn]
    exact ⟨rfl, rfl⟩
  · rename_i r hr
    exact .inr (planTasks_recorded hstart hok r (KeyedMap.get?_eq_some.1 hr).1)

end First

theorem buildTasks_error (hstart : s.started = false) (h : (buildTasks ctx w s).2.started = true) :
    ∃ t ∈ (buildTasks ctx w s).1, ((buildTasks ctx w s).2.task t).operationState = some .error := by
  obtain ⟨s', hs', hn⟩ := @buildTasks_cases ctx w s
  have hd : s'.started = false := (started_congr hs'.syncRes_eq).trans
    ((started_congr (Does.syncRes_eq (addTasks_does (b := ([], s))))).trans hstart)
  generalize buildTasks ctx w s = b at h hn
  cases hn with
  | none => cases hd.symm.trans h
  | added _ => cases hd.symm.trans h
  | @failed ns err _ =>
    refine ⟨newTask _ ⟨.preSync, .create ns, none⟩, mem_append_right _ (mem_singleton_self _), ?_⟩
    unfold appendFailedNsTask
    rw [operationState_setResourceResult, if_pos rfl]

/-- **A namespace that could not be created** is a task in error. -/
theorem getSyncTasks_error (hstart : s.started = false) (hok : (getSyncTasks ctx w s).successful = true)
    (h : (getSyncTasks ctx w s).s.started = true) :
    ∃ t ∈ (getSyncTasks ctx w s).tasks, ((getSyncTasks ctx w s).s.task t).operationState = some .error := by
  have hc : Does planCalls noResult (fun _ => False) (enrichLiveObjs ctx w (buildTasks ctx w s)) (planTasks ctx w s).s := by
    refine checkPermissions_does.weaken (fun _ h => h) (fun _ _ _ _ hr => ?_) fun _ h => h
    cases hr.1.symm.trans hok
  have he : Does planCalls noResult (fun _ => True) (buildTasks ctx w s).2 (planTasks ctx w s).s :=
    enrichLiveObjs_does.trans (hc.weaken (fun _ h => h) (fun _ _ _ _ h => h) fun _ h => h.elim)
  have hre : (getSyncTasks ctx w s).s.syncRes = (buildTasks ctx w s).2.syncRes :=
    getSyncTasks_copied.syncRes.trans he.syncRes_eq
  obtain ⟨u, hu, her⟩ := buildTasks_error hstart ((started_congr hre).symm.trans h)
  obtain ⟨t, ht, heq⟩ := mem_map.1 (getSyncTasks_built.mem_iff.2 (mem_map_of_mem hu))
  refine ⟨t, ht, ?_⟩
  rw [getSyncTasks_copied.task t ht]
  unfold enriched
  split
  · rw [task_congr (congrArg Prod.fst heq)]
    exact he.operationState_inv (· = some .error) her fun _ _ _ _ _ _ hr => hr.elim
  · rename_i r hr
    exact (planTasks_recorded hstart hok r (KeyedMap.get?_eq_some.1 hr).1).2

end GitOpsDeploy.Sync

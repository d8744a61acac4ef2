/-
What a run of tasks has done when it reports success.
-/
import GitOpsDeploy.Sync.Effects

namespace GitOpsDeploy.Sync

open List

variable {ctx : Ctx} {w : World} {s s' : St} {t u : SyncTask} {tasks : List SyncTask} {dryRun : Bool}

/-! ## Success of a group -/

theorem add_eq_successful {a b : RunState} : a.add b = .successful ↔ a = .successful ∧ b = .successful := by
  cases a <;> cases b <;> simp [RunState.add]

theorem andThen_eq_successful {r : RunState × St} {next : St → RunState × St}
    (h : (RunState.andThen r next).1 = .successful) :
    r.1 = .successful ∧ (next r.2).1 = .successful ∧ RunState.andThen r next = next r.2 := by
  unfold RunState.andThen at h ⊢
  split_ifs at h ⊢ with hr
  · exact ⟨hr, h, rfl⟩
  · exact absurd h hr

section Loops

variable {ι : Type*} {f : RunState × St → ι → RunState × St} {is : List ι} {p : RunState × St}

/-- a loop that ends in success keeps what its successful turns keep -/
theorem foldl_keeps (hb : ∀ p i, (f p i).1 = .successful → p.1 = .successful) {K : St → Prop}
    (hke : ∀ p, ∀ j ∈ is, (f p j).1 = .successful → K p.2 → K (f p j).2) (h : (is.foldl f p).1 = .successful) :
    p.1 = .successful ∧ (K p.2 → K (is.foldl f p).2) := by
  induction is generalizing p with
  | nil => exact ⟨h, fun hp => hp⟩
  | cons j js ih =>
    obtain ⟨hj, hr⟩ := ih (fun p k hk => hke p k (mem_cons_of_mem _ hk)) h
    exact ⟨hb p j hj, fun hp => hr (hke p j mem_cons_self hj hp)⟩

/-- a loop that ends in success achieves what each of its turns achieves -/
theorem foldl_achieves (hb : ∀ p i, (f p i).1 = .successful → p.1 = .successful) {G : ι → St → Prop}
    (hg : ∀ p, ∀ i ∈ is, p.1 = .successful → (f p i).1 = .successful → G i (f p i).2)
    (hke : ∀ p i, ∀ j ∈ is, (f p j).1 = .successful → G i p.2 → G i (f p j).2)
    (h : (is.foldl f p).1 = .successful) : ∀ i ∈ is, G i (is.foldl f p).2 := by
  induction is generalizing p with
  | nil => exact nofun
  | cons j js ih =>
    have hke' : ∀ p i, ∀ k ∈ js, (f p k).1 = .successful → G i p.2 → G i (f p k).2 :=
      fun p i k hk => hke p i k (mem_cons_of_mem _ hk)
    intro i hi
    rcases mem_cons.1 hi with rfl | hi
    · obtain ⟨hj, hr⟩ := foldl_keeps hb (K := G i) (fun p => hke' p i) h
      exact hr (hg p i mem_cons_self (hb p i hj) hj)
    · exact ih (fun p i hi => hg p i (mem_cons_of_mem _ hi)) hke' h i hi

end Loops

section Groups

variable {f : RunState → SyncTask → St → RunState × St} {state : RunState}

theorem goAll_keeps {K : St → Prop}
    (hk : ∀ s, ∀ u ∈ tasks, (f .successful u s).1 = .successful → K s → K (f .successful u s).2)
    (h : (goAll f state tasks s).1 = .successful) : state = .successful ∧ (K s → K (goAll f state tasks s).2) := by
  have hb : ∀ (p : RunState × St) (t : SyncTask),
      (p.1.add (f state t p.2).1, (f state t p.2).2).1 = .successful → p.1 = .successful :=
    fun p t hp => (add_eq_successful.1 hp).1
  have hs : state = .successful := (foldl_keeps hb (K := fun _ => True) (fun _ _ _ _ _ => trivial) h).1
  subst hs
  exact foldl_keeps hb (fun p j hj hp => hk p.2 j hj (add_eq_successful.1 hp).2) h

theorem goAll_achieves {G : SyncTask → St → Prop}
    (hg : ∀ s, ∀ t ∈ tasks, (f .successful t s).1 = .successful → G t (f .successful t s).2)
    (hk : ∀ s t, ∀ u ∈ tasks, (f .successful u s).1 = .successful → G t s → G t (f .successful u s).2)
    (h : (goAll f state tasks s).1 = .successful) : ∀ t ∈ tasks, G t (goAll f state tasks s).2 := by
  have hs : state = .successful := (goAll_keeps (K := fun _ => True) (fun _ _ _ _ _ => trivial) h).1
  subst hs
  exact foldl_achieves (fun p t hp => (add_eq_successful.1 hp).1)
    (fun p i hi _ hp => hg p.2 i hi (add_eq_successful.1 hp).2)
    (fun p i j hj hp => hk p.2 i j hj (add_eq_successful.1 hp).2) h

end Groups

/-! ## Creation -/

/-- a task that `createTasks` applies -/
def IsApplied (dryRun : Bool) (t : SyncTask) : Prop := t.isPrune = false ∧ (dryRun = true → t.skipDryRun = false)

section Creation

variable {G : SyncTask → St → Prop}

theorem processCreateTasks_keeps {state : RunState} {K : St → Prop}
    (hk : ∀ s u, (applyTask ctx w dryRun .successful u s).1 = .successful → K s →
      K (applyTask ctx w dryRun .successful u s).2)
    (h : (processCreateTasks ctx w dryRun state tasks s).1 = .successful) :
    state = .successful ∧ (K s → K (processCreateTasks ctx w dryRun state tasks s).2) :=
  goAll_keeps (fun s u _ => hk s u) h

theorem createTasks_keeps {K : St → Prop} (hk : ∀ s u, (applyTask ctx w dryRun .successful u s).1 =
      .successful → K s → K (applyTask ctx w dryRun .successful u s).2)
    (h : (createTasks ctx w dryRun tasks s).1 = .successful) (hs : K s) : K (createTasks ctx w dryRun tasks s).2 := by
  refine (foldl_keeps ?_ ?_ h).2 hs
  · exact fun p group hp => (processCreateTasks_keeps hk hp).1
  · exact fun p group _ hp => (processCreateTasks_keeps hk hp).2

theorem createTasks_achieves
    (hgo : ∀ s t, IsApplied dryRun t → (applyTask ctx w dryRun .successful t s).1 = .successful →
      G t (applyTask ctx w dryRun .successful t s).2)
    (hk : ∀ s t u, (applyTask ctx w dryRun .successful u s).1 = .successful → G t s →
      G t (applyTask ctx w dryRun .successful u s).2)
    (h : (createTasks ctx w dryRun tasks s).1 = .successful) (ht : t ∈ tasks) (ha : IsApplied dryRun t) :
    G t (createTasks ctx w dryRun tasks s).2 := by
  have hm : t ∈ tasks.filter fun t => !t.isPrune := mem_filter.2 ⟨ht, by simp [ha.1]⟩
  rw [← flatten_splitBy (fun t u => t.obj.kind = u.obj.kind) (tasks.filter fun t => !t.isPrune)] at hm
  obtain ⟨group, hg, htg⟩ := mem_flatten.1 hm
  have hb : ∀ (p : RunState × St) (group : List SyncTask),
      (processCreateTasks ctx w dryRun p.1 group p.2).1 = .successful → p.1 = .successful :=
    fun p group hp => (processCreateTasks_keeps (K := fun _ => True) (fun _ _ _ _ => trivial) hp).1
  refine foldl_achieves (G := fun group s => ∀ t ∈ group, IsApplied dryRun t → G t s) hb ?_ ?_ h group hg t
    htg ha
  · intro p group _ _ hp t ht ha
    have ho : t ∈ w.taskOrder .create p.2.log (group.filter fun t => !(dryRun && t.skipDryRun)) := by
      rw [(w.taskOrder_perm _ _ _).mem_iff, mem_filter]
      refine ⟨ht, ?_⟩
      cases hd : dryRun
      · rfl
      · simp [ha.2 hd]
    refine goAll_achieves (G := fun t s => IsApplied dryRun t → G t s) ?_ ?_ hp t ho ha
    · exact fun s t _ hs ha => hgo s t ha hs
    · exact fun s t u _ hs ht ha => hk s t u hs (ht ha)
  · intro p group group' _ hp hg t ht ha
    exact (processCreateTasks_keeps (fun s u hs => hk s t u hs) hp).2 (hg t ht ha)

end Creation

/-! ## Targets are applied -/

/-- the target of the task was applied and accepted -/
def Applied (strategy : DryRunStrategy) (t : SyncTask) (s : St) : Prop :=
  ∃ e ∈ s.log, ∃ request message, e.call = .apply t request strategy (.ok message)

theorem Applied.mono {strategy : DryRunStrategy} (h : Applied strategy t s) (hl : s.log <:+ s'.log) :
    Applied strategy t s' := by
  obtain ⟨e, he, hc⟩ := h
  exact ⟨e, hl.subset he, hc⟩

variable {target : Obj} {state : RunState} {dry : Bool} {P : Option OperationPhase → Prop} {C : CallSet}
  {R : ResultSet}

theorem applyObject_applied {validate : Bool} (h : (applyObject ctx w s t target dryRun validate).1.1 ≠ .syncFailed) :
    Applied (dryRunStrategy dryRun) t (applyObject ctx w s t target dryRun validate).2 := by
  unfold applyObject at h ⊢
  dsimp only at h ⊢
  split at h
  · exact absurd rfl h
  · split at h
    · exact absurd rfl h
    · rename_i message ha
      rw [ha]
      split_ifs
      · exact ⟨_, mem_cons_of_mem _ mem_cons_self, _, _, rfl⟩
      · exact ⟨_, mem_cons_self, _, _, rfl⟩

theorem applyTask_applied (ht : t.targetObj = some target)
    (h : (applyTask ctx w dryRun .successful t s).1 = .successful) :
    Applied (dryRunStrategy dryRun) t (applyTask ctx w dryRun .successful t s).2 := by
  unfold applyTask at h ⊢
  simp only [ht] at h ⊢
  split_ifs at h with hf
  have ha := applyObject_applied hf
  split_ifs
  · exact ha.mono (suffix_refl _)
  · exact ha

theorem applyTask_log : s.log <:+ (applyTask ctx w dryRun state t s).2.log :=
  Does.log_suffix (applyTask_does (T := fun _ => True) (L := fun _ => True) trivial)

theorem isPrune_eq_false (h : t.isPrune = false) : ∃ target, t.targetObj = some target := by
  unfold SyncTask.isPrune at h
  exact Option.isSome_iff_exists.1 (by simpa using h)

theorem runTasks_applied (hd : (dry || ctx.dryRun) = dryRun)
    (h : (runTasks ctx w tasks dry s).1 = .successful) (ht : t ∈ tasks) (ha : IsApplied dryRun t) :
    Applied (dryRunStrategy dryRun) t (runTasks ctx w tasks dry s).2 := by
  subst hd
  unfold runTasks at h ⊢
  obtain ⟨_, h, heq⟩ := andThen_eq_successful h
  rw [heq]
  split_ifs at h ⊢
  obtain ⟨_, h, heq⟩ := andThen_eq_successful h
  rw [heq]
  obtain ⟨_, h, heq⟩ := andThen_eq_successful h
  rw [heq]
  refine createTasks_achieves ?_ ?_ h ht ha
  · intro s t ha hs
    obtain ⟨target, hta⟩ := isPrune_eq_false ha.1
    exact applyTask_applied hta hs
  · exact fun s t u _ hs => hs.mono applyTask_log

/-! ## Tasks are fine -/

/-- running or succeeded -/
def Fine (state : TaskState) : Prop := state.operationState = some .running ∨ state.operationState = some .succeeded

theorem applyObject_result {validate : Bool} (h : (applyObject ctx w s t target dryRun validate).1.1 ≠ .syncFailed) :
    (applyObject ctx w s t target dryRun validate).1.1 = .synced := by
  unfold applyObject at h ⊢
  dsimp only at h ⊢
  split at h
  · exact absurd rfl h
  · split at h
    · exact absurd rfl h
    · rfl

/-- results are recorded unless the run only validates -/
theorem recordsResult_of {result : ResultCode} (h : dryRun = false ∨ ctx.dryRun = true) :
    recordsResult ctx dryRun result = true := by
  rcases h with h | h <;> simp [recordsResult, h]

theorem applyTask_phase (hr : dryRun = false ∨ ctx.dryRun = true) (ht : t.isPrune = false)
    (h : (applyTask ctx w dryRun .successful t s).1 = .successful) :
    ((applyTask ctx w dryRun .successful t s).2.task t).operationState = some (appliedPhase ctx .synced) := by
  obtain ⟨target, hta⟩ := isPrune_eq_false ht
  unfold applyTask at h ⊢
  simp only [hta, recordsResult_of hr, if_true] at h ⊢
  split_ifs at h with hf
  rw [task_setResourceResult_self, applyObject_result hf]
  rfl

theorem applyTask_other (h : t.ptr ≠ u.ptr) : (applyTask ctx w dryRun state u s).2.task t = s.task t :=
  Does.task_eq (applyTask_does (T := fun v => v = u) (L := fun _ => False) rfl) t (fun _ _ _ _ hr => hr.1 ▸ h)
    fun _ hl => hl.elim

theorem task_congr {s : St} (h : t.ptr = u.ptr) : s.task t = s.task u := congrArg s.cell h

/-- what holds of running and of succeeded tasks -/
structure HoldsWhenFine (P : Option OperationPhase → Prop) : Prop where
  running : P (some .running)
  succeeded : P (some .succeeded)

theorem HoldsWhenFine.of_fine (hP : HoldsWhenFine P) {state : TaskState} (h : Fine state) : P state.operationState := by
  rcases h with h | h
  · exact h ▸ hP.running
  · exact h ▸ hP.succeeded

theorem HoldsWhenFine.of_applied (hP : HoldsWhenFine P) : P (some (appliedPhase ctx .synced)) := by
  unfold appliedPhase
  split_ifs
  · exact hP.succeeded
  · exact hP.running

theorem holdsWhenFine_fine :
    HoldsWhenFine fun state => state = some .running ∨ state = some .succeeded := ⟨.inl rfl, .inr rfl⟩

theorem applyTask_keeps (hP : P (some (appliedPhase ctx .synced)))
    (hr : dryRun = false ∨ ctx.dryRun = true) (h : (applyTask ctx w dryRun .successful u s).1 = .successful)
    (ht : P (s.task t).operationState) : P ((applyTask ctx w dryRun .successful u s).2.task t).operationState := by
  by_cases hp : t.ptr = u.ptr
  · cases hu : u.isPrune with
    | false =>
      rw [task_congr hp, applyTask_phase hr hu h]
      exact hP
    | true =>
      have hn : u.targetObj = none := by simpa [SyncTask.isPrune] using hu
      simpa only [applyTask, hn] using ht
  · rw [applyTask_other hp]
    exact ht

theorem pruneTask_fine (hre : dryRun = false ∨ ctx.dryRun = true)
    (h : (pruneTask ctx w dryRun .successful t s).1 = .successful) :
    Fine ((pruneTask ctx w dryRun .successful t s).2.task t) := by
  unfold pruneTask at h ⊢
  simp only [recordsResult_of hre, if_true] at h ⊢
  split_ifs at h with hf
  rw [task_setResourceResult_self]
  have hne : (pruneObject ctx w s t dryRun).1.1 ≠ .synced := pruneObject_ne_synced
  refine .inr (congrArg some ?_)
  cases hr : (pruneObject ctx w s t dryRun).1.1 with
  | synced => exact absurd hr hne
  | syncFailed => exact absurd hr hf
  | _ => rfl

theorem pruneTask_keeps (hP : HoldsWhenFine P)
    (hre : dryRun = false ∨ ctx.dryRun = true) (h : (pruneTask ctx w dryRun .successful u s).1 = .successful)
    (ht : P (s.task t).operationState) : P ((pruneTask ctx w dryRun .successful u s).2.task t).operationState := by
  by_cases hp : t.ptr = u.ptr
  · rw [task_congr hp]
    exact hP.of_fine (pruneTask_fine hre h)
  · have ho : (pruneTask ctx w dryRun .successful u s).2.task t = s.task t :=
      Does.task_eq (pruneTask_does (T := fun v => v = u) rfl) t (fun _ _ _ _ hr => hr.1 ▸ hp) fun _ hl => hl.1 ▸ hp
    rw [ho]
    exact ht

theorem operationState_setLiveObj {l : Option LiveObj} :
    ((s.setLiveObj u l).task t).operationState = (s.task t).operationState := by
  rw [task_setLiveObj]
  split_ifs <;> rfl

theorem operationState_setResourceResult {status : Option ResultCode} {state : Option OperationPhase} {message : String} :
    ((setResourceResult s u status state message).task t).operationState =
      if t.ptr = u.ptr then state else (s.task t).operationState := by
  rw [task_setResourceResult]
  split_ifs <;> rfl

/-- what every result and every live object set for a task leaves of its fields -/
theorem Does.task_inv {L : SyncTask → Prop} (h : Does C R L s s') (P : TaskState → Prop)
    (hl : ∀ u state l, L u → P state → P { state with liveObj := l }) (hs : P (s.task t))
    (hR : ∀ s u status state message, t.ptr = u.ptr → P (s.task t) → R s u status state →
      P ((s.task t).withResult status state message)) : P (s'.task t) := by
  refine h.inv (fun s => P (s.task t)) hs fun s a hs ha => ?_
  cases ha with
  | @result u status state message h =>
    change P ((setResourceResult s u status state message).task t)
    rw [task_setResourceResult]
    split_ifs with hp
    · exact hR s u status state message hp hs h
    · exact hs
  | @live u l h =>
    change P ((s.setLiveObj u l).task t)
    rw [task_setLiveObj]
    split_ifs
    · exact hl u _ l h hs
    · exact hs
  | _ => exact hs

theorem Does.operationState_inv {L : SyncTask → Prop} (h : Does C R L s s')
    (P : Option OperationPhase → Prop) (hs : P (s.task t).operationState)
    (hR : ∀ s u status state, t.ptr = u.ptr → P (s.task t).operationState → R s u status state → P state) :
    P (s'.task t).operationState :=
  h.task_inv (fun state => P state.operationState) (fun _ _ _ _ h => h) hs fun s u status state _ => hR s u status state

/-- what sets no live object leaves them as they are -/
theorem Does.liveObj_eq (h : Does C R (fun _ => False) s s') (t : SyncTask) : s'.liveObj t = s.liveObj t :=
  h.task_inv (fun state => state.liveObj = s.liveObj t) (fun _ _ _ h => h.elim) rfl fun _ _ _ _ _ _ h _ => h

theorem deleteResource_task : (deleteResource ctx w s u).2.task t = s.task t :=
  Does.task_eq (deleteResource_does (C := fun _ => True) (R := noResult) (L := fun _ => False) fun _ _ => trivial) t
    (fun _ _ _ _ h => h.elim) fun _ h => h.elim

theorem deleteTask_keeps
    (h : (deleteTask ctx w dryRun .successful u s).1 = .successful) (ht : P (s.task t).operationState) :
    P ((deleteTask ctx w dryRun .successful u s).2.task t).operationState := by
  unfold deleteTask at h ⊢
  split_ifs at h ⊢
  · exact ht
  · dsimp only at h ⊢
    split at h
    · cases h
    · split_ifs at h ⊢
      rw [operationState_setLiveObj, deleteResource_task]
      exact ht

theorem removeOldFinalizer_keeps
    (h : (removeOldFinalizer w dryRun .successful u s).1 = .successful) (ht : P (s.task t).operationState) :
    P ((removeOldFinalizer w dryRun .successful u s).2.task t).operationState := by
  have hre : Does (fun _ => True) noResult (fun _ => True) s (removeHookFinalizer w s u).2 :=
    removeHookFinalizer_does (fun _ _ => trivial) trivial
  unfold removeOldFinalizer at h ⊢
  split_ifs at h ⊢
  · exact ht
  · dsimp only at h ⊢
    split at h
    · exact hre.operationState_inv P ht fun _ _ _ _ _ _ hr => hr.elim
    · cases h

/-- **Success keeps what holds of fine tasks.** -/
theorem runTasks_keeps (hP : HoldsWhenFine P)
    (hr : dry = false ∨ ctx.dryRun = true) (h : (runTasks ctx w tasks dry s).1 = .successful)
    (ht : P (s.task t).operationState) : P ((runTasks ctx w tasks dry s).2.task t).operationState := by
  have hr' : (dry || ctx.dryRun) = false ∨ ctx.dryRun = true := by
    rcases hr with rfl | hc
    · cases hc : ctx.dryRun with
      | true => exact .inr rfl
      | false => exact .inl rfl
    · exact .inr hc
  unfold runTasks at h ⊢
  obtain ⟨hf, h, heq⟩ := andThen_eq_successful h
  rw [heq]
  split_ifs at h ⊢
  obtain ⟨hp, h, heq⟩ := andThen_eq_successful h
  rw [heq]
  obtain ⟨hd, h, heq⟩ := andThen_eq_successful h
  rw [heq]
  refine createTasks_keeps (K := fun s => P (s.task t).operationState)
    (fun s u hs => applyTask_keeps hP.of_applied hr' hs) h ?_
  refine (goAll_keeps (K := fun s => P (s.task t).operationState) (fun s u _ hs => deleteTask_keeps hs) hd).2 ?_
  refine (goAll_keeps (K := fun s => P (s.task t).operationState) (fun s u _ hs => pruneTask_keeps hP hr' hs) hp).2 ?_
  exact (goAll_keeps (K := fun s => P (s.task t).operationState) (fun s u _ hs => removeOldFinalizer_keeps hs)
    hf).2 ht

theorem createTasks_phase (hr : dryRun = false ∨ ctx.dryRun = true)
    (h : (createTasks ctx w dryRun tasks s).1 = .successful) (ht : t ∈ tasks) (hap : IsApplied dryRun t) :
    ((createTasks ctx w dryRun tasks s).2.task t).operationState = some (appliedPhase ctx .synced) := by
  exact createTasks_achieves (G := fun t s => (s.task t).operationState = some (appliedPhase ctx .synced))
    (fun s t hap hs => applyTask_phase hr hap.1 hs)
    (fun s t u hs => applyTask_keeps (P := fun state => state = some (appliedPhase ctx .synced)) rfl hr hs) h ht hap

theorem runTasks_fine (hdr : (dry || ctx.dryRun) = dryRun) (hr : dryRun = false ∨ ctx.dryRun = true)
    (h : (runTasks ctx w tasks dry s).1 = .successful) (ht : t ∈ tasks)
    (ha : t.isPrune = true ∨ IsApplied dryRun t) : Fine ((runTasks ctx w tasks dry s).2.task t) := by
  subst hdr
  unfold runTasks at h ⊢
  obtain ⟨_, h, heq⟩ := andThen_eq_successful h
  rw [heq]
  split_ifs at h ⊢
  obtain ⟨hpru, h, heq⟩ := andThen_eq_successful h
  rw [heq]
  obtain ⟨hde, h, heq⟩ := andThen_eq_successful h
  rw [heq]
  rcases ha with hp | ha
  · have hpr := goAll_achieves (G := fun t s => Fine (s.task t)) (fun s t _ hs => pruneTask_fine hr hs)
      (fun s t u _ hs => pruneTask_keeps holdsWhenFine_fine hr hs) hpru t
      ((w.taskOrder_perm _ _ _).mem_iff.2 (mem_filter.2 ⟨ht, hp⟩))
    have hd := (goAll_keeps (K := fun s => Fine (s.task t))
      (fun s u _ hs => deleteTask_keeps (P := fun state => state = some .running ∨ state = some .succeeded) hs) hde).2
      hpr
    exact createTasks_keeps (K := fun s => Fine (s.task t)) (fun s u hs =>
      applyTask_keeps (P := fun state => state = some .running ∨ state = some .succeeded) holdsWhenFine_fine.of_applied
        hr hs) h hd
  · rw [Fine, createTasks_phase hr h ht ha]
    exact holdsWhenFine_fine.of_applied

/-! ## Dry runs -/

theorem add_ne_pending {a b : RunState} (ha : a ≠ .pending) (hb : b ≠ .pending) : a.add b ≠ .pending := by
  cases a <;> cases b <;> simp_all [RunState.add]

theorem goAll_ne_pending {f : RunState → SyncTask → St → RunState × St}
    (hf : ∀ state t s, state ≠ .pending → (f state t s).1 ≠ .pending) (hs : state ≠ .pending) :
    (goAll f state tasks s).1 ≠ .pending := by
  have hl : ∀ p : RunState × St, p.1 ≠ .pending →
      (tasks.foldl (fun p t => (p.1.add (f state t p.2).1, (f state t p.2).2)) p).1 ≠ .pending := by
    induction tasks with
    | nil => exact fun p hp => hp
    | cons t ts ih => exact fun p hp => ih _ (add_ne_pending hp (hf state t p.2 hs))
  exact hl (state, s) hs

theorem andThen_ne_pending {r : RunState × St} {next : St → RunState × St} (hr : r.1 ≠ .pending)
    (hn : ∀ s, (next s).1 ≠ .pending) : (RunState.andThen r next).1 ≠ .pending := by
  unfold RunState.andThen
  split_ifs
  · exact hn _
  · exact hr

theorem RunState.successful_of_ne {r : RunState} (hp : r ≠ .pending) (hf : r ≠ .failed) : r = .successful := by
  cases r with
  | successful => rfl
  | pending => exact absurd rfl hp
  | failed => exact absurd rfl hf

theorem createTasks_ne_pending : (createTasks ctx w dryRun tasks s).1 ≠ .pending := by
  have ha : ∀ state t s, state ≠ .pending → (applyTask ctx w dryRun state t s).1 ≠ .pending := by
    intro state t s hs
    unfold applyTask
    split
    · exact hs
    · dsimp only
      split_ifs
      · exact nofun
      · exact hs
  unfold createTasks
  generalize (tasks.filter fun t => !t.isPrune).splitBy _ = groups
  have hl : ∀ p : RunState × St, p.1 ≠ .pending →
      (groups.foldl (fun p group => processCreateTasks ctx w dryRun p.1 group p.2) p).1 ≠ .pending := by
    induction groups with
    | nil => exact fun p hp => hp
    | cons g gs ih => exact fun p hp => ih _ (goAll_ne_pending ha hp)
  exact hl _ nofun

/-- **A dry run decides**, unless pruning waits for confirmation. -/
theorem runTasks_dry (hd : (dry || ctx.dryRun) = true)
    (hc : (!ctx.pruneConfirmed && tasks.any (requiresPruneConfirmation ctx)) = false) :
    (runTasks ctx w tasks dry s).1 ≠ .pending := by
  unfold runTasks
  simp only [hd, hc, Bool.false_eq_true, if_false]
  refine andThen_ne_pending (goAll_ne_pending (fun state t s hs => ?_) nofun) fun s => ?_
  · simpa [removeOldFinalizer] using hs
  · refine andThen_ne_pending (goAll_ne_pending (fun state t s hs => ?_) nofun) fun s => ?_
    · unfold pruneTask
      dsimp only
      split_ifs
      · exact nofun
      · exact hs
    · refine andThen_ne_pending (goAll_ne_pending (fun state t s hs => ?_) nofun) fun s => ?_
      · simpa [deleteTask] using hs
      · exact createTasks_ne_pending

/-! ## Runs that only create -/

theorem goAll_trivial {f : RunState → SyncTask → St → RunState × St}
    (hf : ∀ s, ∀ t ∈ tasks, f .successful t s = (.successful, s)) :
      goAll f .successful tasks s = (.successful, s) := by
  refine foldlRecOn (motive := (· = (RunState.successful, s))) _ _ rfl fun p hp t ht => ?_
  rw [hp]
  exact hf s t ht

theorem pruneTask_validating (hc : ctx.dryRun = false) : pruneTask ctx w true .successful t s = (.successful, s) := by
  unfold pruneTask pruneObject
  split_ifs <;> simp_all [recordsResult]

/-- the validation before the sync: nothing but applies with the client strategy -/
theorem runTasks_validating (hc : ctx.dryRun = false) :
    runTasks ctx w tasks true s =
      if !ctx.pruneConfirmed && tasks.any (requiresPruneConfirmation ctx) then (.pending, s)
      else createTasks ctx w true tasks s := by
  have hf : removeOldFinalizers w true tasks s = (.successful, s) := goAll_trivial fun _ _ _ => rfl
  have hp : pruneTasks ctx w true tasks s = (.successful, s) := goAll_trivial fun _ _ _ => pruneTask_validating hc
  have hd : deleteTasks ctx w true tasks s = (.successful, s) := goAll_trivial fun _ _ _ => rfl
  unfold runTasks
  simp only [Bool.true_or, hf, RunState.andThen, if_true, hp, hd]

theorem runTasks_missing (h : ∀ t ∈ tasks, t.isPrune = false ∧ s.liveObj t = none) :
    runTasks ctx w tasks dry s = createTasks ctx w (dry || ctx.dryRun) tasks s := by
  have hn : ∀ {p : SyncTask → Bool} {f : RunState → SyncTask → St → RunState × St} {stage : Stage},
      (∀ t ∈ tasks, p t = false) →
        goAll f .successful (w.taskOrder stage s.log (tasks.filter p)) s = (.successful, s) := by
    refine fun hp => goAll_trivial fun s t ht => ?_
    obtain ⟨ht, hpt⟩ := mem_of_taskOrder_filter ht
    cases (hp t ht).symm.trans hpt
  have hf : removeOldFinalizers w (dry || ctx.dryRun) tasks s = (.successful, s) :=
    hn fun t ht => by simp [isExistingHook, (h t ht).2]
  have hpr : pruneTasks ctx w (dry || ctx.dryRun) tasks s = (.successful, s) := hn fun t ht => (h t ht).1
  have hd : deleteTasks ctx w (dry || ctx.dryRun) tasks s = (.successful, s) :=
    hn fun t ht => by simp [deleteBeforeCreation, (h t ht).2]
  have hc : tasks.any (requiresPruneConfirmation ctx) = false := by
    refine any_eq_false.2 fun t ht => ?_
    simp [requiresPruneConfirmation, (h t ht).1]
  unfold runTasks
  simp only [hf, hc, Bool.and_false, Bool.false_eq_true, if_false, RunState.andThen, if_true, hpr, hd]

/-- a validation that does not fail records nothing -/
theorem runTasks_validating_does (hc : ctx.dryRun = false) (h : (runTasks ctx w tasks true s).1 ≠ .failed) :
    Does (callsOf (runKinds true) fun _ => True) noResult (fun _ => False) s (runTasks ctx w tasks true s).2 := by
  rw [runTasks_validating hc] at h ⊢
  split_ifs at h ⊢
  · exact .refl
  · have hsu := RunState.successful_of_ne createTasks_ne_pending h
    refine createTasks_keeps (K := fun s' => Does (callsOf (runKinds true) fun _ => True) noResult (fun _ => False) s s')
      (fun s' u hs' hd => ?_) hsu .refl
    unfold applyTask at hs' ⊢
    cases ht : u.targetObj with
    | none =>
      exact hd
    | some target =>
      simp only [ht] at hs' ⊢
      split_ifs at hs' with hf
      have hr : ∀ result : ResultCode, result ≠ .syncFailed → recordsResult ctx true result = false := by
        intro result hne
        simp [recordsResult, hc, hne]
      rw [hr _ hf]
      refine hd.trans (Does.weaken (applyObject_does (T := fun _ => True) trivial) ?_ (fun _ _ _ _ h => h) fun _ h => h)
      exact callsOf_le createKinds_subset fun _ h => h

end GitOpsDeploy.Sync

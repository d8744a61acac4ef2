/-
When a write of an ApplicationSet's status can be relied on.

A write is durable if, when it returns no error, the ApplicationSet is gone, or what is stored contains the values and the
copy in memory agrees with it. Two paths return no error without a write: the comparison finds nothing to write, and a Get
of the retry loop fails (other than with "not found").
-/
import GitOpsDeploy.AppSet.StatusWrites

namespace GitOpsDeploy.AppSet.StatusWrites

open List

/-! ## The loop -/

section Loop

variable {A : Type} {server : Server A} {modify : ℕ → A → A} {memory : A}

/-- the i-th attempt ends with a conflict -/
def Server.Conflict (server : Server A) (i : ℕ) : Prop :=
  (∃ a, server.get i = .found a) ∧ ∃ err, server.update i = .conflict err

/-- among the attempts from i on, a Get fails after conflicts only -/
def Server.FailedRead (server : Server A) (i tries : ℕ) : Prop :=
  ∃ n < tries, (∀ m < n, server.Conflict (i + m)) ∧ ∃ err, server.get (i + n) = .failed err

theorem failedRead_succ (server : Server A) (i tries : ℕ) : server.FailedRead i (tries + 1) ↔
      (∃ err, server.get i = .failed err) ∨ server.Conflict i ∧ server.FailedRead (i + 1) tries := by
  simp only [Server.FailedRead, Nat.exists_lt_succ_left, Nat.forall_lt_succ_left, Nat.not_lt_zero, false_implies,
    implies_true, true_and, Nat.add_zero, ← Nat.add_assoc, Nat.add_right_comm i _ 1, and_assoc]
  simp only [and_left_comm (b := server.Conflict i), exists_and_left]

/-- what one attempt or a whole loop comes to -/
inductive Ends (server : Server A) (modify : ℕ → A → A) (memory : A) : Outcome A → Prop
  | written (i : ℕ) (fetched : A) (h : server.get i = .found fetched) :
      Ends server modify memory ⟨modify i fetched, some (modify i fetched), none⟩
  | gone (err : String) (h : server.stored = none) : Ends server modify memory ⟨memory, none, some (.notFound err)⟩
  | conflict (err : String) : Ends server modify memory ⟨memory, none, some (.conflict err)⟩
  | failed (err : String) : Ends server modify memory ⟨memory, none, some (.other err)⟩

theorem attempt_cases (i : ℕ) :
    (∃ err, server.get i = .failed err) ∧ attempt server (modify i) memory i = ⟨memory, none, none⟩ ∨
    (¬∃ err, server.get i = .failed err) ∧ Ends server modify memory (attempt server (modify i) memory i) ∧
      ((∃ err, (attempt server (modify i) memory i).err = some (.conflict err)) ↔ server.Conflict i) := by
  unfold attempt Server.Conflict
  cases hg : server.get i with
  | failed err => exact .inl ⟨⟨err, rfl⟩, rfl⟩
  | notFound err => exact .inr ⟨nofun, .gone _ (server.gone i err (.inl hg)), by simp⟩
  | found fetched =>
    cases hu : server.update i with
    | stored => exact .inr ⟨nofun, .written i fetched hg, by simp⟩
    | conflict err => exact .inr ⟨nofun, .conflict err, by simp⟩
    | notFound err => exact .inr ⟨nofun, .gone err (server.gone i err (.inr hu)), by simp⟩
    | failed err => exact .inr ⟨nofun, .failed err, by simp⟩

/-- **A loop** returns no error without a write exactly if a read failed. -/
theorem retryOnConflict_cases (left i : ℕ) :
    server.FailedRead i (left + 1) ∧ retryOnConflict server modify memory left i = ⟨memory, none, none⟩ ∨
    ¬server.FailedRead i (left + 1) ∧ Ends server modify memory (retryOnConflict server modify memory left i) := by
  induction left generalizing i with
  | zero =>
    have hno : ¬server.FailedRead (i + 1) 0 := fun ⟨n, hn, _⟩ => Nat.not_lt_zero n hn
    rw [failedRead_succ]
    rcases attempt_cases i with ⟨hf, h⟩ | ⟨hf, h, _⟩
    · exact .inl ⟨.inl hf, h⟩
    · exact .inr ⟨fun hr => hr.elim hf fun hr => hno hr.2, h⟩
  | succ left ih =>
    rw [failedRead_succ]
    unfold retryOnConflict
    rcases attempt_cases i with ⟨hf, h⟩ | ⟨hf, h, hco⟩
    · rw [h]
      exact .inl ⟨.inl hf, rfl⟩
    · by_cases hc : server.Conflict i
      · obtain ⟨err, he⟩ := hco.2 hc
        rw [he]
        rcases ih (i + 1) with ⟨hre, hl⟩ | ⟨hre, hl⟩
        · exact .inl ⟨.inr ⟨hc, hre⟩, hl⟩
        · exact .inr ⟨fun hr => hr.elim hf fun hr => hre hr.2, hl⟩
      · refine .inr ⟨fun hr => hr.elim hf fun hr => hc hr.1, ?_⟩
        split
        · exact absurd (hco.1 ⟨_, by assumption⟩) hc
        · exact h

/-! ## Durable writes -/

/-- when no error is returned, the object is gone, or contains the values and is the copy in memory -/
def Durable (server : Server A) (contains : A → Prop) (o : Outcome A) : Prop :=
  o.err = none → server.final o = none ∨ ∃ a, server.final o = some a ∧ contains a ∧ o.memory = a

/-- nothing was written: it depends on what was stored before -/
theorem durable_unwritten (server : Server A) (contains : A → Prop) (memory : A) :
    Durable server contains ⟨memory, none, none⟩ ↔
      (server.stored = none ∨ server.stored = some memory ∧ contains memory) := by
  constructor
  · intro h
    rcases h rfl with h | ⟨a, hs, hc, rfl⟩
    · exact .inl h
    · exact .inr ⟨hs, hc⟩
  · rintro (h | ⟨hs, hc⟩) _
    · exact .inl h
    · exact .inr ⟨memory, hs, hc, rfl⟩

/-- a loop that did not end on a failed read -/
theorem Ends.durable {o : Outcome A} (h : Ends server modify memory o) {contains : A → Prop}
    (hm : ∀ i a, contains (modify i a)) (message : String) : Durable server contains (o.wrapped message) := by
  intro he
  cases h with
  | written i fetched => exact .inr ⟨_, rfl, hm i fetched, rfl⟩
  | _ => cases he

/-- **A loop is durable** exactly if no read failed, or the object was stored like that before. -/
theorem durable_persist {contains : A → Prop} (hm : ∀ i a, contains (modify i a)) (hme : contains memory)
    (message : String) : Durable server contains ((persist server modify memory).wrapped message) ↔
      (server.FailedRead 0 5 → server.stored = none ∨ server.stored = some memory) := by
  unfold persist
  rcases @retryOnConflict_cases A server modify memory 4 0 with ⟨hre, h⟩ | ⟨hre, h⟩
  · rw [h]
    refine (durable_unwritten server contains memory).trans ⟨fun hd _ => hd.imp id And.left, fun hd => ?_⟩
    exact (hd hre).imp id fun hs => ⟨hs, hme⟩
  · exact ⟨fun _ hr => absurd hr hre, fun _ => h.durable hm message⟩

end Loop

/-! ## Application statuses -/

def ContainsStatuses (statuses : List ApplicationStatus) (appset : ApplicationSet) : Prop :=
  ∀ s ∈ statuses, s ∈ appset.applicationStatus

/-! ## Resources -/

/-- the number of applications, and the status of each one whose name is its own, unless there are more than the limit -/
structure ContainsResources (max : ℤ) (apps : List ResourceStatus) (appset : ApplicationSet) : Prop where
  count : appset.resourcesCount = (apps.map ResourceStatus.name).toFinset.card
  passed : ∀ r ∈ appset.resources, r ∈ apps
  complete : max ≤ 0 ∨ (appset.resourcesCount : ℤ) ≤ max →
    ∀ app ∈ apps, (∀ other ∈ apps, other.name = app.name → other = app) → app ∈ appset.resources

theorem mem_cleanup (statusMap : ResourceStatusMap) (apps : List ResourceStatus) (r : ResourceStatus) :
    r ∈ cleanupDeletedApplicationStatuses statusMap apps ↔
      r ∈ statusMap ∧ r.name ∈ apps.map ResourceStatus.name := by
  have hf : ∀ (names : List String) (m : ResourceStatusMap),
      r ∈ names.foldl (fun m name => if name ∈ apps.map ResourceStatus.name then m else m.delete name) m ↔
        r ∈ m ∧ (r.name ∈ names → r.name ∈ apps.map ResourceStatus.name) := by
    intro names
    induction names with
    | nil => simp
    | cons name names ih =>
      intro m
      rw [foldl_cons, ih, mem_cons]
      by_cases hr : r.name = name
      · subst hr
        split_ifs with hn
        · simp [hn]
        · simp [hn, KeyedMap.mem_delete]
      · split_ifs
        · simp [hr]
        · simp [hr, KeyedMap.mem_delete]
  unfold cleanupDeletedApplicationStatuses
  rw [hf]
  exact and_congr_right fun hr => ⟨fun h => h (mem_map_of_mem hr), fun h _ => h⟩

/-- the statuses come from the applications, one for each name -/
theorem mem_resourceStatuses {appset : ApplicationSet} {apps : List ResourceStatus} {r : ResourceStatus}
    (h : r ∈ resourceStatuses appset apps) : r ∈ apps := by
  unfold resourceStatuses at h
  rw [mem_insertionSort] at h
  obtain ⟨hr, hn⟩ := (mem_cleanup _ apps r).1 h
  exact (KeyedMap.of_mem_foldl_put hr).resolve_right fun ho => ho.2 hn

theorem exists_resourceStatus (appset : ApplicationSet) {apps : List ResourceStatus} {app : ResourceStatus}
    (h : app ∈ apps) : ∃ r ∈ resourceStatuses appset apps, r.name = app.name := by
  obtain ⟨r, hr, hn⟩ := KeyedMap.exists_mem_foldl_put (getResourceStatusMap appset) apps app.name
    (.inl (mem_map_of_mem h))
  refine ⟨r, ?_, hn⟩
  unfold resourceStatuses
  rw [mem_insertionSort]
  exact (mem_cleanup _ apps r).2 ⟨hr, hn ▸ mem_map_of_mem h⟩

theorem length_resourceStatuses (appset : ApplicationSet) (apps : List ResourceStatus) :
    (resourceStatuses appset apps).length = (apps.map ResourceStatus.name).toFinset.card := by
  have hn : ((resourceStatuses appset apps).map ResourceStatus.name).toFinset =
      (apps.map ResourceStatus.name).toFinset := by
    ext name
    simp only [mem_toFinset, mem_map]
    constructor
    · rintro ⟨r, hr, rfl⟩
      exact ⟨r, mem_resourceStatuses hr, rfl⟩
    · rintro ⟨app, ha, rfl⟩
      exact exists_resourceStatus appset ha
  have hno : ((resourceStatuses appset apps).map ResourceStatus.name).Nodup := by
    exact ((perm_insertionSort _ _).map _).nodup_iff.2 (KeyedMap.nodup _)
  calc (resourceStatuses appset apps).length
      = ((resourceStatuses appset apps).map ResourceStatus.name).length := (length_map _).symm
    _ = ((resourceStatuses appset apps).map ResourceStatus.name).toFinset.card := (toFinset_card_of_nodup hno).symm
    _ = (apps.map ResourceStatus.name).toFinset.card := by rw [hn]

theorem containsResources (max : ℤ) (appset updated : ApplicationSet) (apps : List ResourceStatus) :
    ContainsResources max apps { updated with
      resources := truncateResources max (resourceStatuses appset apps)
      resourcesCount := (resourceStatuses appset apps).length } where
  count := length_resourceStatuses appset apps
  passed := by
    intro r hr
    unfold truncateResources at hr
    split_ifs at hr
    · exact mem_resourceStatuses (mem_of_mem_take hr)
    · exact mem_resourceStatuses hr
  complete := by
    intro hm app ha ho
    obtain ⟨r, hr, hn⟩ := exists_resourceStatus appset ha
    rw [ho r (mem_resourceStatuses hr) hn] at hr
    unfold truncateResources
    rw [if_neg fun hc => hm.elim hc.1.not_ge hc.2.not_ge]
    exact hr

/-! ## Conditions -/

variable (isRolling : Bool)

/-- a condition about the rollout of an ApplicationSet that has none; it is not written -/
def Ignored (type : ConditionType) : Prop :=
  isRolling = false ∧ (type = .rolloutProgressing ∨ type = .invalidRolloutConfig)

/-- the conditions are there, whatever their times -/
def ContainsConditions (conditions : List Condition) (appset : ApplicationSet) : Prop :=
  ∀ c ∈ conditions, ¬Ignored isRolling c.type →
    ∃ c' ∈ appset.conditions, c'.type = c.type ∧ c'.message = c.message ∧ c'.status = c.status ∧
      c'.reason = c.reason

theorem evaluated_evaluate {e : Evaluation} {type type' : ConditionType} (h : e.evaluated type = true) :
    (e.evaluate type' true).evaluated type = true := by
  unfold Evaluation.evaluate
  dsimp only
  rw [Function.update_apply]
  split_ifs
  · rfl
  · exact h

/-- what one turn of the loop does: its condition is added and evaluated, and nothing that was is lost -/
structure Turn (e : Evaluation) (condition : Condition) (e' : Evaluation) : Prop where
  added : condition ∈ e'.newConditions
  kept : ∀ c ∈ e.newConditions, c ∈ e'.newConditions
  evaluated : ∀ type, ¬Ignored isRolling type → e.evaluated type = true ∨ type = condition.type →
    e'.evaluated type = true

variable {isRolling} {e e' : Evaluation} {condition : Condition}

theorem Turn.add (h : Turn isRolling e condition e') {type : ConditionType} (c : Condition) :
    Turn isRolling e condition ((e'.evaluate type true).add c) where
  added := mem_append_left _ h.added
  kept c hc := mem_append_left _ (h.kept c hc)
  evaluated type hi ht := evaluated_evaluate (h.evaluated type hi ht)

/-- only conditions that are ignored are left out again -/
theorem Turn.ignore (h : Turn isRolling e condition e') {type : ConditionType} (hr : ¬isRolling = true)
    (ht : type = .rolloutProgressing ∨ type = .invalidRolloutConfig) :
    Turn isRolling e condition (e'.evaluate type false) where
  added := h.added
  kept := h.kept
  evaluated type' hi ht' := by
    refine (Function.update_of_ne ?_ _ _).trans (h.evaluated type' hi ht')
    rintro rfl
    exact hi ⟨Bool.eq_false_iff.2 hr, ht⟩

variable (isRolling e condition)

theorem evaluateCondition_turn : Turn isRolling e condition (evaluateCondition isRolling e condition) := by
  have hb : Turn isRolling e condition ((e.evaluate condition.type true).add condition) := by
    refine ⟨mem_append_right _ (mem_singleton_self _), fun c hc => mem_append_left _ hc, ?_⟩
    rintro type - (h | rfl)
    · exact evaluated_evaluate h
    · exact Function.update_self ..
  unfold evaluateCondition
  split
  · split_ifs
    · exact hb.add _
    · exact hb
  · split_ifs
    · exact hb.add _
    · exact hb
  · split_ifs with hr
    · exact hb
    · exact hb.ignore hr (.inl rfl)
  · split_ifs with hr
    · exact hb
    · exact hb.ignore hr (.inr rfl)
  · exact hb

theorem foldl_evaluateCondition (conditions : List Condition) (e : Evaluation) :
    (∀ c, c ∈ conditions ∨ c ∈ e.newConditions → c ∈ (conditions.foldl
      (evaluateCondition isRolling) e).newConditions) ∧
    ∀ type, ¬Ignored isRolling type → e.evaluated type = true ∨ type ∈ conditions.map Condition.type →
      (conditions.foldl (evaluateCondition isRolling) e).evaluated type = true := by
  induction conditions generalizing e with
  | nil => simp
  | cons first rest ih =>
    obtain ⟨ha, hk, he⟩ := evaluateCondition_turn isRolling e first
    obtain ⟨hn, ht⟩ := ih (evaluateCondition isRolling e first)
    constructor
    · rintro c (hc | hc)
      · rcases mem_cons.1 hc with rfl | hc
        · exact hn c (.inr ha)
        · exact hn c (.inl hc)
      · exact hn c (.inr (hk c hc))
    · rintro type hi (h | h)
      · exact ht type hi (.inl (he type hi (.inl h)))
      · rcases mem_cons.1 h with h | h
        · exact ht type hi (.inl (he type hi (.inr h)))
        · exact ht type hi (.inr h)

theorem updateCondition_spec (now : Time) (current : List Condition) (c : Condition) :
    (updateCondition now current c).type = c.type ∧ (updateCondition now current c).message = c.message ∧
      (updateCondition now current c).status = c.status ∧ (updateCondition now current c).reason = c.reason := by
  unfold updateCondition
  cases hf : current.find? fun c' => c'.type = c.type with
  | none => exact ⟨rfl, rfl, rfl, rfl⟩
  | some existing =>
    dsimp only
    split_ifs with hs
    · have ht : existing.type = c.type := by simpa using List.find?_some hf
      unfold Condition.same at hs
      simp only [Bool.and_eq_true, decide_eq_true_eq] at hs
      exact ⟨ht, hs.1.1, hs.2, hs.1.2⟩
    · exact ⟨rfl, rfl, rfl, rfl⟩

theorem containsConditions (sorting : Sorting Condition) (now : Time) (memory : ApplicationSet)
    (conditions : List Condition) (generated : Bool) (appset : ApplicationSet) :
    ContainsConditions (isRollingSyncStrategy memory.rollout) conditions
      (withConditions sorting now memory conditions generated appset) := by
  intro c hc hi
  unfold withConditions
  generalize isRollingSyncStrategy memory.rollout = isRolling at hi
  have hl := foldl_evaluateCondition isRolling conditions
  have hn : c ∈ (evaluateConditions isRolling conditions generated).newConditions :=
    (hl _).1 c (.inl hc)
  have he : (evaluateConditions isRolling conditions generated).evaluated c.type = true :=
    (hl _).2 c.type hi (.inr (mem_map_of_mem hc))
  refine ⟨updateCondition now appset.conditions c, ?_, updateCondition_spec now appset.conditions c⟩
  exact (sorting.perm _).mem_iff.2 (mem_append_right _
    (mem_map_of_mem (mem_filter.2 ⟨hn, he⟩)))

/-- a loop whose NotFound is not an error; the ApplicationSet is gone then -/
theorem Ends.durable_swallowed {server : Server ApplicationSet} {modify : ℕ → ApplicationSet → ApplicationSet}
    {memory : ApplicationSet} {o : Outcome ApplicationSet} (h : Ends server modify memory o) {err : String}
    (he : o.err = some (.notFound err)) (contains : ApplicationSet → Prop) :
    Durable server contains { o with err := none } := by
  cases h with
  | gone err' hg => exact fun _ => .inl hg
  | _ => cases he

theorem durable_setApplicationSetStatusCondition {sorting : Sorting Condition} {now : ℕ → Time}
    {server : Server ApplicationSet} {appset memory : ApplicationSet} {conditions : List Condition} {generated : Bool}
    (hme : withConditions sorting (now 0) appset conditions generated appset = memory) :
    Durable server (ContainsConditions (isRollingSyncStrategy appset.rollout) conditions)
        (setApplicationSetStatusCondition sorting now server appset conditions generated) ↔
      (needToUpdateConditions appset.conditions memory.conditions = false ∨ server.FailedRead 0 5 →
        server.stored = none ∨ server.stored = some memory) := by
  have hc := fun now => containsConditions sorting now appset conditions generated
  have hm := hme ▸ hc (now 0) appset
  unfold setApplicationSetStatusCondition
  dsimp only
  rw [hme]
  split_ifs with hn
  · have hf : (needToUpdateConditions appset.conditions memory.conditions = false ∨ server.FailedRead 0 5) ↔
        server.FailedRead 0 5 := by
      simp [hn]
    rw [hf]
    split
    · rename_i err he
      unfold persist at he ⊢
      rcases retryOnConflict_cases 4 0 with ⟨_, h⟩ | ⟨hre, h⟩
      · rw [h] at he
        cases he
      · exact ⟨fun _ hr => absurd hr hre, fun _ => h.durable_swallowed he _⟩
    · exact durable_persist (fun i a => hc (now (i + 1)) a) hm _
  · refine (durable_unwritten server _ memory).trans ?_
    have hq : needToUpdateConditions appset.conditions memory.conditions = false := Bool.eq_false_iff.2 hn
    exact ⟨fun h _ => h.imp id And.left, fun h => (h (.inl hq)).imp id fun hs => ⟨hs, hm⟩⟩

/-! ## All three -/

/-- **Durable exactly if** the call gets to a write, or what is stored was the copy in memory with the values before. -/
theorem status_durable_iff (server : Server ApplicationSet) (appset : ApplicationSet) :
    (∀ sorting statuses,
      Durable server (ContainsStatuses statuses) (setAppSetApplicationStatus sorting server appset statuses) ↔
        (needToUpdateStatus appset.applicationStatus statuses = false →
          server.stored = none ∨ server.stored = some appset ∧ ContainsStatuses statuses appset) ∧
        (needToUpdateStatus appset.applicationStatus statuses = true → server.FailedRead 0 5 →
          server.stored = none ∨ server.stored = some { appset with applicationStatus := sorting.sort statuses })) ∧
    (∀ max apps,
      Durable server (ContainsResources max apps) (updateResourcesStatus max server appset apps) ↔
        (server.FailedRead 0 5 → server.stored = none ∨ server.stored = some { appset with
          resources := truncateResources max (resourceStatuses appset apps)
          resourcesCount := (resourceStatuses appset apps).length })) ∧
    ∀ sorting now conditions parametersGenerated,
      Durable server (ContainsConditions (isRollingSyncStrategy appset.rollout) conditions)
          (setApplicationSetStatusCondition sorting now server appset conditions parametersGenerated) ↔
        (needToUpdateConditions appset.conditions
            (withConditions sorting (now 0) appset conditions parametersGenerated appset).conditions = false ∨
            server.FailedRead 0 5 →
          server.stored = none ∨
          server.stored = some (withConditions sorting (now 0) appset conditions parametersGenerated appset)) := by
  refine ⟨fun sorting statuses => ?_, fun max apps => ?_, fun _ _ _ _ => ?_⟩
  · unfold setAppSetApplicationStatus
    split_ifs with hne
    · have hso : ∀ a : ApplicationSet,
          ContainsStatuses statuses { a with applicationStatus := sorting.sort statuses } :=
        fun a s hs => (sorting.perm statuses).mem_iff.2 hs
      refine (durable_persist (fun _ => hso) (hso appset) _).trans ?_
      exact ⟨fun h => ⟨fun hn => absurd (hn.symm.trans hne) Bool.false_ne_true, fun _ => h⟩, fun h => h.2 hne⟩
    · refine (durable_unwritten server _ appset).trans ?_
      exact ⟨fun h => ⟨fun _ => h, fun hn => absurd hn hne⟩, fun h => h.1 (Bool.eq_false_iff.2 hne)⟩
  · have hc := fun updated => containsResources max appset updated apps
    exact durable_persist (fun _ => hc) (hc appset) _
  · exact durable_setApplicationSetStatusCondition rfl

/-! ## Writes that are lost -/

section Example

def unsorted {A : Type} : Sorting A := ⟨id, fun l => List.Perm.refl l⟩

/-- the status of an application in the first step -/
def onlyStatus (status : ProgressiveSyncStatusCode) (targetRevisions : List String) : ApplicationStatus :=
  ⟨"guestbook", none, "", status, "1", some targetRevisions⟩

def storedSet : ApplicationSet := ⟨none, [], [onlyStatus .waiting ["v1"]], [], 0, ⟨.unknown, ""⟩⟩

/-- the API server has the ApplicationSet, but cannot be reached -/
def unreachable : Server ApplicationSet where
  get := fun _ => .failed "connection refused"
  update := fun _ => .failed "connection refused"
  stored := some storedSet
  gone := by simp

def guestbookStatus : ResourceStatus := ⟨"apps.hanzo.ai", "v1alpha1", "Application", "guestbook", "cd", .synced,
    .healthy⟩

def reportedError : Condition := ⟨.errorOccurred, "no project", none, .isTrue, "ApplicationValidationError"⟩

/-- **Writes that are lost without an error**: all three when a read fails, and new target revisions always. -/
theorem status_lost :
    ¬Durable unreachable (ContainsStatuses [onlyStatus .pending ["v1"]])
      (setAppSetApplicationStatus unsorted unreachable storedSet [onlyStatus .pending ["v1"]]) ∧
    ¬Durable unreachable (ContainsResources 0 [guestbookStatus])
      (updateResourcesStatus 0 unreachable storedSet [guestbookStatus]) ∧
    ¬Durable unreachable (ContainsConditions false [reportedError])
      (setApplicationSetStatusCondition unsorted (fun _ => 0) unreachable storedSet [reportedError] true) ∧
    ¬Durable unreachable (ContainsStatuses [onlyStatus .waiting ["v2"]])
      (setAppSetApplicationStatus unsorted unreachable storedSet [onlyStatus .waiting ["v2"]]) := by
  have hl : ∀ {contains : ApplicationSet → Prop} {o : Outcome ApplicationSet}, o.err = none → o.written = none →
      ¬(contains storedSet ∧ o.memory = storedSet) → ¬Durable unreachable contains o := by
    intro contains o he hw hn hd
    have hf : unreachable.final o = some storedSet := by
      unfold Server.final
      rw [hw]
      rfl
    rcases hd he with h | ⟨a, ha, hc, hm⟩
    · rw [hf] at h
      cases h
    · rw [hf] at ha
      cases ha
      exact hn ⟨hc, hm⟩
  refine ⟨hl rfl rfl ?_, hl rfl rfl ?_, hl rfl rfl ?_, hl rfl rfl ?_⟩
  · exact fun h => absurd (h.1 _ (mem_singleton_self _)) (by decide)
  · exact fun h => absurd (congrArg ApplicationSet.resourcesCount h.2) (by decide)
  · exact fun h => absurd (congrArg ApplicationSet.conditions h.2) (by decide)
  · exact fun h => absurd (h.1 _ (mem_singleton_self _)) (by decide)

end Example

end GitOpsDeploy.AppSet.StatusWrites

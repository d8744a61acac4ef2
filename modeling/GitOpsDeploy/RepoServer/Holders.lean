/-
What the state of a path says about its holders, over all interleavings of `Lock` and the closers.

- `LockState.Inv`: the counter, the revision and the flag of a path are those of its holders.
-/
import GitOpsDeploy.RepoServer.Lock

namespace GitOpsDeploy.RepoServer

open Finset

variable {T : Type}

/-- two calls that may hold at the same time -/
def LockCall.Compatible (c c' : LockCall) : Prop :=
  c.path = c'.path → c.revision = c'.revision ∧ c.allowConcurrent = true ∧ c'.allowConcurrent = true

/-- the call is not yet answered -/
def CallState.wants : CallState → Option LockCall
  | .locking c => some c
  | .initializing c _ => some c
  | .waiting c => some c
  | _ => none

namespace LockState

/-! ## The invariant -/

/-- the counter and the flags of a path are those of its holders -/
def Counted (s : LockState T) (path : String) : Prop :=
  ∃ holders : Finset T, (∀ t, t ∈ holders ↔ ∃ c n, s.call t = .holding c n ∧ c.path = path) ∧
    (s.stateByKey path).processCount = holders.card ∧ ((s.stateByKey path).revision = "" ↔ holders = ∅) ∧
    ((s.stateByKey path).allowConcurrent = false → holders.card ≤ 1)

/-- what the state of a path says about a holder -/
structure Describes (r : RepositoryState T) (c : LockCall) (closer : ℕ) : Prop where
  revision : r.revision = c.revision
  initCloser : r.initCloser = some closer
  concurrent : r.allowConcurrent = c.allowConcurrent

/-- what it says about a call that runs `init` -/
structure Initializes (r : RepositoryState T) (t : T) (clean : Bool) : Prop where
  busy : r.busy = some t
  free : r.revision = ""
  clean : clean = !r.allowConcurrent

structure PathInv (s : LockState T) (path : String) : Prop where
  counted : s.Counted path
  holding : ∀ t c n, s.call t = .holding c n → c.path = path → Describes (s.stateByKey path) c n
  initializing : ∀ t c clean, s.call t = .initializing c clean → c.path = path →
    Initializes (s.stateByKey path) t clean
  lastInit : (s.stateByKey path).allowConcurrent = true ↔ s.lastInit path = some true

structure Inv (s : LockState T) : Prop where
  wants : ∀ t c, (s.call t).wants = some c → c.revision ≠ ""
  paths : ∀ path, s.PathInv path

theorem inv_initial : (initial T).Inv where
  wants t c h := by cases h
  paths path := by
    refine ⟨⟨∅, fun t => ?_, rfl, by simp [initial, RepositoryState.new], by simp⟩, nofun,
      nofun, by simp [initial, RepositoryState.new]⟩
    simp [initial]

variable {n' n : ℕ} {c c' : LockCall} {t' t : T} {s s' : LockState T} {clean : Bool} {path : String}

theorem Inv.revision_eq (h : s.Inv) (ht : s.call t = .holding c n)
    (ht' : s.call t' = .holding c' n') (hp : c.path = c'.path) : c.revision = c'.revision :=
  ((h.paths c'.path).holding t c n ht hp).revision.symm.trans ((h.paths c'.path).holding t' c' n' ht' rfl).revision

theorem Inv.compatible (h : s.Inv) (ht : s.call t = .holding c n)
    (ht' : s.call t' = .holding c' n') (hne : t ≠ t') : c.Compatible c' := by
  intro hp
  obtain ⟨hol, hm, -, -, ho⟩ := (h.paths c'.path).counted
  have hc := ((h.paths c'.path).holding t c n ht hp).concurrent
  have hc' := ((h.paths c'.path).holding t' c' n' ht' rfl).concurrent
  have htr : (s.stateByKey c'.path).allowConcurrent = true := by
    by_contra hf
    have hca := ho (by simpa using hf)
    exact hne (card_le_one.mp hca t ((hm t).mpr ⟨c, n, ht, hp⟩) t' ((hm t').mpr ⟨c', n', ht', rfl⟩))
  exact ⟨h.revision_eq ht ht' hp, hc.symm.trans htr, hc'.symm.trans htr⟩

/-- a path on which `init` runs has no holder -/
theorem Inv.alone (h : s.Inv)
    (ht : s.call t = .initializing c clean) (ht' : s.call t' = .holding c' n) : c'.path ≠ c.path := by
  intro hp
  obtain ⟨ho, hm, -, he, -⟩ := (h.paths c.path).counted
  have hin := (hm t').mpr ⟨c', n, ht', hp⟩
  rw [he.mp ((h.paths c.path).initializing t c clean ht rfl).free] at hin
  exact notMem_empty t' hin

theorem Inv.closer_eq (h : s.Inv) (ht : s.call t = .holding c n)
    (ht' : s.call t' = .holding c' n') (hp : c'.path = c.path) : n' = n := by
  have hc := ((h.paths c.path).holding t c n ht rfl).initCloser
  rw [((h.paths c.path).holding t' c' n' ht' hp).initCloser] at hc
  exact Option.some.inj hc

theorem Inv.exists_holder (h : s.Inv) (hr : (s.stateByKey path).revision ≠ "") :
    ∃ t c n, s.call t = .holding c n ∧ c.path = path ∧ (s.stateByKey path).initCloser = some n := by
  obtain ⟨hol, hm, -, he, -⟩ := (h.paths path).counted
  obtain ⟨t, ht⟩ := nonempty_iff_ne_empty.mpr (mt he.mpr hr)
  obtain ⟨c, n, ho, hp⟩ := (hm t).mp ht
  exact ⟨t, c, n, ho, hp, ((h.paths path).holding t c n ho hp).initCloser⟩

theorem PathInv.init_unique {clean' : Bool} (h : s.PathInv c.path)
    (ht : s.call t = .initializing c clean) (ht' : s.call t' = .initializing c' clean') (hp : c'.path = c.path) :
      t' = t := by
  have hb := (h.initializing t' c' clean' ht' hp).busy
  rw [(h.initializing t c clean ht rfl).busy] at hb
  exact (Option.some.inj hb).symm

/-! ## Frame -/

/-- only the mutex of the path and calls that do not hold it change -/
theorem PathInv.of_busy (busy : Option T) (h : s.PathInv path)
    (hh : ∀ t c n, c.path = path → (s'.call t = .holding c n ↔ s.call t = .holding c n))
    (hs : s'.stateByKey path = { s.stateByKey path with busy := busy }) (hl : s'.lastInit path = s.lastInit path)
    (hi : ∀ t c clean, s'.call t = .initializing c clean → c.path = path →
      Initializes { s.stateByKey path with busy := busy } t clean) : s'.PathInv path := by
  refine ⟨?_, fun t c n ht hp => ?_, by rwa [hs], ?_⟩
  · obtain ⟨ho, hm, hco⟩ := h.counted
    unfold Counted
    rw [hs]
    refine ⟨ho, fun t => ?_, hco⟩
    rw [hm]
    exact exists₂_congr fun c n => and_congr_left fun hp => (hh t c n hp).symm
  · obtain ⟨hr, hcl, hc⟩ := h.holding t c n ((hh t c n hp).mp ht) hp
    rw [hs]
    exact ⟨hr, hcl, hc⟩
  · rw [hs, hl]
    exact h.lastInit

/-- a path that a step does not touch -/
theorem PathInv.frame (h : s.PathInv path)
    (hh : ∀ t c n, c.path = path → (s'.call t = .holding c n ↔ s.call t = .holding c n))
    (hi : ∀ t c clean, c.path = path → (s'.call t = .initializing c clean ↔ s.call t = .initializing c clean))
    (hs : s'.stateByKey path = s.stateByKey path) (hl : s'.lastInit path = s.lastInit path) : s'.PathInv path :=
  h.of_busy _ hh hs hl fun t c clean ht hp => h.initializing t c clean ((hi t c clean hp).mp ht) hp

/-- the call holds, or runs `init`, on another path at most if this one is not touched -/
def On (path : String) : CallState → Prop
  | .holding c _ => c.path = path
  | .initializing c _ => c.path = path
  | _ => True

variable [DecidableEq T] {x y : CallState} {r : RepositoryState T}

theorem call_eq_iff (hc : s'.call = Function.update s.call t x) (hx : x ≠ y) (t' : T) :
    s'.call t' = y ↔ t' ≠ t ∧ s.call t' = y := by
  rw [hc, Function.update_apply]
  split_ifs with h
  · exact iff_of_false hx fun h' => h'.1 h
  · exact (and_iff_right h).symm

theorem call_eq_iff_of_ne (hc : s'.call = Function.update s.call t x) (hx : x ≠ y) (ht : s.call t ≠ y) (t' : T) :
    s'.call t' = y ↔ s.call t' = y := by
  rw [call_eq_iff hc hx, and_iff_right_iff_imp]
  rintro h rfl
  exact ht h

/-- a call starts to hold, by an `init` of its own or by that of others -/
theorem holding_gain (hc : s'.call = Function.update s.call t (.holding c n)) (hn : ∀ c' n', s.call t ≠ .holding c' n')
    (t' : T) (c' : LockCall) (n' : ℕ) :
    s'.call t' = .holding c' n' ↔ (t' = t ∧ c' = c ∧ n' = n) ∨ s.call t' = .holding c' n' := by
  rw [hc, Function.update_apply]
  split_ifs with heq
  · subst heq
    simp [hn, eq_comm]
  · simp [heq]

variable (h : s.Inv)

include h

/-- a step of one call, on one path -/
theorem Inv.moves (hm : s.Moves s' t x path r) (hb : On path (s.call t)) (ha : On path x)
    (hl : ∀ p ≠ path, s'.lastInit p = s.lastInit p) (hw : ∀ c, x.wants = some c → c.revision ≠ "")
    (hpa : s'.PathInv path) : s'.Inv := by
  refine ⟨fun t' c hc => ?_, fun p => ?_⟩
  · rw [hm.call_apply] at hc
    split_ifs at hc
    · exact hw c hc
    · exact h.wants t' c hc
  · by_cases hp : p = path
    · rw [hp]
      exact hpa
    have ho : ∀ t' y, ¬ On path y → (s'.call t' = y ↔ s.call t' = y) := fun t' y hy =>
      call_eq_iff_of_ne hm.call (fun he => hy (by rwa [← he])) (fun he => hy (by rwa [← he])) t'
    exact (h.paths p).frame (fun t' c n hc => ho t' _ fun hy => hp (hc.symm.trans hy))
      (fun t' c clean hc => ho t' _ fun hy => hp (hc.symm.trans hy))
      (by rw [hm.state, Function.update_of_ne hp]) (hl p hp)

/-! ## Steps that leave the holders alone -/

/-- a call that neither holds nor runs `init`, before and after -/
theorem Inv.setCall (hx : ∀ c n, x ≠ .holding c n)
    (hx' : ∀ c clean, x ≠ .initializing c clean) (ht : ∀ c n, s.call t ≠ .holding c n)
    (ht' : ∀ c clean, s.call t ≠ .initializing c clean) (hw : ∀ c, x.wants = some c → c.revision ≠ "") :
    (s.setCall t x).Inv := by
  refine ⟨fun t' c hc => ?_, fun path => (h.paths path).frame
    (fun t' c n _ => call_eq_iff_of_ne rfl (hx c n) (ht c n) t')
    (fun t' c clean _ => call_eq_iff_of_ne rfl (hx' c clean) (ht' c clean) t') rfl rfl⟩
  rw [call_setCall] at hc
  split_ifs at hc
  · exact hw c hc
  · exact h.wants t' c hc

omit h in
theorem wake_spec (path : String) (x : CallState) : (∀ c n, wake path x = .holding c n ↔ x = .holding c n) ∧
    (∀ c clean, wake path x = .initializing c clean ↔ x = .initializing c clean) ∧ (wake path x).wants = x.wants := by
  cases x with
  | waiting c =>
    dsimp only [wake]
    split_ifs <;> simp [CallState.wants]
  | _ => simp [wake]

omit h in
theorem holding_broadcast (ht : s.call t = .notifying path) (t' : T) (c : LockCall)
    (n : ℕ) : (s.broadcast t path).call t' = .holding c n ↔ s.call t' = .holding c n := by
  unfold broadcast
  rw [call_setCall]
  split_ifs with heq
  · rw [heq, ht]
    exact iff_of_false nofun nofun
  · exact (wake_spec path _).1 c n

theorem inv_broadcast (ht : s.call t = .notifying path) : (s.broadcast t path).Inv := by
  have ha : ({ s with call := fun t' => wake path (s.call t') } : LockState T).Inv := by
    refine ⟨fun t' c hc => ?_, fun p => (h.paths p).frame (fun t' c n _ => (wake_spec path _).1 c n)
      (fun t' c clean _ => (wake_spec path _).2.1 c clean) rfl rfl⟩
    rw [(wake_spec path _).2.2] at hc
    exact h.wants t' c hc
  refine ha.setCall nofun nofun (fun c n hn => ?_) (fun c clean hn => ?_) nofun
  · rw [(wake_spec path _).1, ht] at hn
    cases hn
  · rw [(wake_spec path _).2.1, ht] at hn
    cases hn

/-- only the mutex of the path and a call that does not hold change -/
theorem Inv.busy {busy : Option T} (hm : s.Moves s' t x path { s.stateByKey path with busy := busy })
    (hb : On path (s.call t)) (ha : On path x) (hl : s'.lastInit = s.lastInit)
    (hx : ∀ c n, x ≠ .holding c n) (ht : ∀ c n, s.call t ≠ .holding c n)
    (hw : ∀ c, x.wants = some c → c.revision ≠ "")
    (hi : ∀ t' c clean, (if t' = t then x else s.call t') = .initializing c clean → c.path = path →
      Initializes { s.stateByKey path with busy := busy } t' clean) : s'.Inv :=
  h.moves hm hb ha (fun p _ => congrFun hl p) hw ((h.paths path).of_busy busy
    (fun t' c n _ => call_eq_iff_of_ne hm.call (hx c n) (ht c n) t') hm.here (congrFun hl path)
    fun t' c clean ht' => hi t' c clean (hm.call_apply t' ▸ ht'))

theorem inv_start (ht : s.call t = .locking c)
    (hb : (s.stateByKey c.path).busy = none) (hf : (s.stateByKey c.path).revision = "") :
    ((s.setState c.path { s.stateByKey c.path with busy := some t }).setCall t
      (.initializing c (!(s.stateByKey c.path).allowConcurrent))).Inv := by
  refine h.busy ⟨rfl, rfl⟩ (by rw [ht]; trivial) rfl rfl nofun (by rw [ht]; nofun) (fun c' hc' => ?_)
    fun t' c' clean ht' hpa => ?_
  · cases hc'
    exact h.wants t c (by rw [ht]; rfl)
  · split_ifs at ht' with heq
    · cases ht'
      exact ⟨congrArg some heq.symm, hf, rfl⟩
    · -- no other call runs `init` on this path
      have ho := ((h.paths c.path).initializing t' c' clean ht' hpa).busy
      rw [hb] at ho
      cases ho

theorem inv_initFailed
    (ht : s.call t = .initializing c clean) (closer : Bool) : (s.initReturns t c (.failed closer)).Inv := by
  refine h.busy ⟨rfl, rfl⟩ (by rw [ht]; rfl) trivial rfl nofun (by rw [ht]; nofun) nofun fun t' c' clean' ht' hpa => ?_
  -- the only call that ran `init` on this path has returned
  split_ifs at ht' with heq
  exact absurd ((h.paths c.path).init_unique ht ht' hpa) heq

/-! ## Steps that change the holders -/

theorem Inv.gain (hmo : s.Moves s' t (.holding c n) c.path r) (holders : Finset T)
    (hm : ∀ t', t' ∈ holders ↔ ∃ c' n', s.call t' = .holding c' n' ∧ c'.path = c.path)
    (hb : On c.path (s.call t)) (hno : ∀ c' n', s.call t ≠ .holding c' n')
    (hla : ∀ p ≠ c.path, s'.lastInit p = s.lastInit p) (hne : Describes r c n) (hn : c.revision ≠ "")
    (ho : ∀ t' c' n', s.call t' = .holding c' n' → c'.path = c.path → Describes r c' n')
    (hco : r.processCount = holders.card + 1) (hon : r.allowConcurrent = false → holders = ∅)
    (hi : ∀ t' c' clean, t' ≠ t → s.call t' = .initializing c' clean → c'.path ≠ c.path)
    (hl : r.allowConcurrent = true ↔ s'.lastInit c.path = some true) : s'.Inv := by
  have hh := holding_gain hmo.call hno
  have hou : t ∉ holders := by
    rw [hm]
    rintro ⟨c', n', ht, -⟩
    exact hno c' n' ht
  have hc : (insert t holders).card = holders.card + 1 := card_insert_of_notMem hou
  refine h.moves hmo hb rfl hla nofun ?_
  refine ⟨⟨insert t holders, fun t' => ?_, ?_, ?_, fun hf => ?_⟩, fun t' c' n' ht' hp => ?_,
    fun t' c' clean ht' hp => ?_, ?_⟩
  · rw [mem_insert, hm]
    simp only [hh]
    constructor
    · rintro (rfl | ⟨c', n', ht', hp⟩)
      · exact ⟨c, n, .inl ⟨rfl, rfl, rfl⟩, rfl⟩
      · exact ⟨c', n', .inr ht', hp⟩
    · rintro ⟨c', n', ⟨heq, -⟩ | ht', hp⟩
      · exact .inl heq
      · exact .inr ⟨c', n', ht', hp⟩
  · rw [hmo.here, hco, hc, Nat.cast_succ]
  · rw [hmo.here, hne.revision]
    exact iff_of_false hn (insert_ne_empty t holders)
  · rw [hmo.here] at hf
    rw [hc, hon hf, card_empty]
  · rw [hmo.here]
    rcases (hh t' c' n').mp ht' with ⟨-, rfl, rfl⟩ | hol
    · exact hne
    · exact ho t' c' n' hol hp
  · obtain ⟨hne', ht'⟩ := (call_eq_iff (y := .initializing c' clean) hmo.call nofun t').mp ht'
    exact absurd hp (hi t' c' clean hne' ht')
  · rwa [hmo.here]

theorem inv_initOk (ht : s.call t = .initializing c clean) : (s.initReturns t c .ok).Inv := by
  have hn : ∀ t' c' n, s.call t' = .holding c' n → c'.path ≠ c.path := fun t' c' n ht' =>
    h.alone ht ht'
  refine h.gain ⟨rfl, rfl⟩ ∅ (fun t' => ?_) (by rw [ht]; rfl) (by rw [ht]; nofun)
    (fun p hp => Function.update_of_ne hp ..) ⟨rfl, rfl, rfl⟩ (h.wants t c (by rw [ht]; rfl))
    (fun t' c' n ho hpa => absurd hpa (hn t' c' n ho)) rfl (fun _ => rfl)
    (fun t' c' clean' hne ht' hpa => hne ((h.paths c.path).init_unique ht ht' hpa)) ?_
  · refine iff_of_false (notMem_empty t') ?_
    rintro ⟨c', n', ho, hpa⟩
    exact hn t' c' n' ho hpa
  · rw [show (s.initReturns t c .ok).lastInit c.path = some c.allowConcurrent from Function.update_self ..]
    simp

theorem inv_join (ht : s.call t = .locking c)
    (hs : (s.stateByKey c.path).revision = c.revision ∧ (s.stateByKey c.path).allowConcurrent = true ∧
      c.allowConcurrent = true) :
    ((s.setState c.path { s.stateByKey c.path with processCount := (s.stateByKey c.path).processCount + 1 }).setCall t
      (.holding c ((s.stateByKey c.path).initCloser.getD 0))).Inv := by
  obtain ⟨hre, hco, hc⟩ := hs
  have hn : c.revision ≠ "" := h.wants t c (by rw [ht]; rfl)
  obtain ⟨ho, hm, hcar, -⟩ := (h.paths c.path).counted
  -- there is a holder, by whose closer the call holds now
  obtain ⟨-, -, n, -, -, hcl⟩ := h.exists_holder (hre ▸ hn)
  refine h.gain ⟨rfl, rfl⟩ ho hm (by rw [ht]; trivial) (by rw [ht]; nofun) (fun _ _ => rfl)
    ⟨hre, ?_, hco.trans hc.symm⟩ hn
    (fun t' c' n' hol hpa => ?_) (by rw [hcar]) (fun hf => absurd (hco.symm.trans hf) (by decide))
    (fun t' c' clean _ hi hpa => ?_) (h.paths c.path).lastInit
  · rw [hcl]
    rfl
  · obtain ⟨hrev, hclo, hcon⟩ := (h.paths c.path).holding t' c' n' hol hpa
    exact ⟨hrev, hclo, hcon⟩
  · exact hn (hre.symm.trans ((h.paths c.path).initializing t' c' clean hi hpa).free)

omit h in
/-- a holder leaves: what is left of the path, whether or not it was the last one -/
theorem Inv.leave (hin : s.Inv) (ht : s.call t = .holding c n) (hmo : s.Moves s' t x c.path r) (ha : On c.path x)
    (hx : ∀ c n, x ≠ .holding c n) (hx' : ∀ c clean, x ≠ .initializing c clean) (hw : ∀ c, x.wants ≠ some c)
    (hl : s'.lastInit = s.lastInit) (revision : String) (hs : r =
      { s.stateByKey c.path with processCount := (s.stateByKey c.path).processCount - 1, revision := revision })
    (hf : (s.stateByKey c.path).processCount - 1 = 0 → revision = "")
    (hk : (s.stateByKey c.path).processCount - 1 ≠ 0 → revision = (s.stateByKey c.path).revision) : s'.Inv := by
  have h := hin.paths c.path
  obtain ⟨holders, hm, hc, he, hon⟩ := h.counted
  have hin' : t ∈ holders := (hm t).mpr ⟨c, n, ht, rfl⟩
  have hr : (s.stateByKey c.path).revision ≠ "" := mt he.mp (ne_empty_of_mem hin')
  have hpo : 0 < holders.card := card_pos.mpr ⟨t, hin'⟩
  have hc' : (s.stateByKey c.path).processCount - 1 = (holders.erase t).card := by
    rw [card_erase_of_mem hin']
    omega
  have hz : (s.stateByKey c.path).processCount - 1 = 0 ↔ holders.erase t = ∅ := by
    rw [hc', Nat.cast_eq_zero, card_eq_zero]
  rw [Ne, hz] at hk
  rw [hz] at hf
  subst hs
  have hh := fun t' c' n' => call_eq_iff hmo.call (hx c' n') t'
  refine hin.moves hmo (by rw [ht]; rfl) ha (fun p _ => congrFun hl p) (fun c' hc' => absurd hc' (hw c')) ?_
  refine ⟨⟨holders.erase t, fun t' => ?_, ?_, ?_, ?_⟩, fun t' c' n' ht' hp => ?_, fun t' c' clean ht' hp => ?_, ?_⟩
  · rw [mem_erase, hm]
    simp only [hh, and_assoc, exists_and_left]
  · rw [hmo.here]
    exact hc'
  · rw [hmo.here]
    by_cases hl : holders.erase t = ∅
    · exact iff_of_true (hf hl) hl
    · exact iff_of_false (fun he => hr ((hk hl).symm.trans he)) hl
  · rw [hmo.here]
    intro hfa
    exact le_trans (card_le_card (erase_subset t holders)) (hon hfa)
  · obtain ⟨hne, ho⟩ := (hh t' c' n').mp ht'
    obtain ⟨hr', hcl, hco⟩ := h.holding t' c' n' ho hp
    have hle : t' ∈ holders.erase t := mem_erase.mpr ⟨hne, (hm t').mpr ⟨c', n', ho, hp⟩⟩
    rw [hmo.here]
    exact ⟨(hk (ne_empty_of_mem hle)).trans hr', hcl, hco⟩
  · obtain ⟨-, hi⟩ := (call_eq_iff hmo.call (hx' c' clean) t').mp ht'
    exact absurd (h.initializing t' c' clean hi hp).free hr
  · rw [hmo.here, hl]
    exact h.lastInit

/-! ## Steps -/

omit h in
/-- the step does not call `Lock` with the empty revision -/
def NonEmpty : LockStep T → Prop
  | .call _ c => c.revision ≠ ""
  | _ => True

theorem inv_section {a : LockStep T} (ha : NonEmpty a) (hs : s.Section a s') : s'.Inv := by
  cases hs with
  | skip => exact h
  | call ht =>
    refine h.setCall nofun nofun (by rw [ht]; nofun) (by rw [ht]; nofun) fun c' hc' => ?_
    cases hc'
    exact ha
  | start ht hb hf => exact inv_start h ht hb hf
  | join ht _ hs => exact inv_join h ht hs
  | wait ht =>
    refine h.setCall nofun nofun (by rw [ht]; nofun) (by rw [ht]; nofun) fun c' hc' => ?_
    cases hc'
    exact h.wants _ _ (by rw [ht]; rfl)
  | initOk ht => exact inv_initOk h ht
  | initFailed ht => exact inv_initFailed h ht _
  | @closeLast _ c _ ht hl =>
    refine h.leave ht (moves_closeInit _) trivial nofun nofun nofun ?_ "" (by rw [hl]) (fun _ => rfl) (absurd hl)
    cases (s.stateByKey c.path).initCloser <;> rfl
  | closeMore ht hl =>
    exact h.leave ht ⟨rfl, rfl⟩ trivial nofun nofun nofun rfl _ rfl (fun hz => absurd hz hl) fun _ => rfl
  | broadcast ht => exact inv_broadcast h ht

theorem inv_step (a : LockStep T) (ha : NonEmpty a) : (step a s).Inv := inv_section h ha (step_section a s)

end LockState

end GitOpsDeploy.RepoServer

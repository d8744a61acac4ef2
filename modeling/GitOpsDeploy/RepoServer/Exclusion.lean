/-
Exclusion of the repository lock, over all interleavings of calls and closers.

- `LockState.Accounts`: which closers are due, and that these are closed.
-/
import GitOpsDeploy.RepoServer.Holders

namespace GitOpsDeploy.RepoServer

variable {T : Type}

/-! ## What the lock promises -/

/-- someone holds by the `init` that returned this closer -/
def LockState.Held (s : LockState T) (closer : ℕ) : Prop := ∃ t c, s.call t = .holding c closer

structure LockState.Exclusive (s : LockState T) : Prop where
  /-- holders of one path hold the same revision -/
  revision : ∀ t t' c c' n n', s.call t = .holding c n → s.call t' = .holding c' n' → c.path = c'.path →
    c.revision = c'.revision
  /-- if there is more than one, all asked for concurrent processing -/
  concurrent : ∀ t t' c c' n n', s.call t = .holding c n → s.call t' = .holding c' n' → c.path = c'.path →
    t ≠ t' → c.allowConcurrent = true ∧ c'.allowConcurrent = true
  /-- `init` runs only while the path has no holder -/
  alone : ∀ t t' c c' clean n, s.call t = .initializing c clean → s.call t' = .holding c' n → c'.path ≠ c.path
  clean : ∀ t c clean, s.call t = .initializing c clean → (clean = true ↔ s.lastInit c.path ≠ some true)
  /-- a closer is closed once, when the last holder has left -/
  closers : ∀ n < s.returned, (s.Held n → s.closed n = 0) ∧ (¬ s.Held n → s.closed n = 1)

/-- no call has the empty revision, and an `init` that fails returns no closer -/
def LockState.Proper (_ : LockState T) : LockStep T → Prop
  | .call _ c => c.revision ≠ ""
  | .initReturns _ (.failed closer) => closer = false
  | _ => True

namespace LockState

/-! ## Closers -/

/-- the closers that are due are closed, and no others -/
structure Accounts (s : LockState T) : Prop where
  path : ∀ t t' c c' n, s.call t = .holding c n → s.call t' = .holding c' n → c.path = c'.path
  returned : ∀ n, s.Held n → n < s.returned
  due : ∀ n < s.returned, ¬ s.Held n → s.closed n = 1
  open' : ∀ n, s.Held n ∨ s.returned ≤ n → s.closed n = 0

variable {s s' : LockState T} {c : LockCall} {n : ℕ} {t : T}

/-- the closers of a step that neither returns nor closes one -/
theorem Accounts.frame (h : s.Accounts) (hh : ∀ n, s'.Held n ↔ s.Held n)
    (hp : ∀ t t' c c' n, s'.call t = .holding c n → s'.call t' = .holding c' n → c.path = c'.path)
    (hr : s'.returned = s.returned) (hc : s'.closed = s.closed) : s'.Accounts := by
  refine ⟨hp, fun n hn => ?_, fun n hn hh' => ?_, fun n hn => ?_⟩
  · rw [hr]
    exact h.returned n ((hh n).mp hn)
  · rw [hc]
    exact h.due n (hr ▸ hn) (mt (hh n).mpr hh')
  · rw [hc]
    refine h.open' n ?_
    rwa [hh, hr] at hn

theorem Accounts.of_holding (h : s.Accounts)
    (hh : ∀ t c n, s'.call t = .holding c n ↔ s.call t = .holding c n) (hr : s'.returned = s.returned)
    (hc : s'.closed = s.closed) : s'.Accounts :=
  h.frame (fun n => exists₂_congr fun t c => hh t c n)
    (fun t t' c c' n ht ht' => h.path t t' c c' n ((hh t c n).mp ht) ((hh t' c' n).mp ht')) hr hc

/-- a call that joins the holders of a path takes over their closer -/
theorem accounts_join (h : s.Accounts) {t₀ : T} {c₀ : LockCall}
    (hc₀ : s.call t₀ = .holding c₀ n) (hpa : c₀.path = c.path)
    (hh : ∀ t' c' n', s'.call t' = .holding c' n' ↔ (t' = t ∧ c' = c ∧ n' = n) ∨ s.call t' = .holding c' n')
    (hr : s'.returned = s.returned) (hc : s'.closed = s.closed) : s'.Accounts := by
  refine h.frame (fun n' => ?_) (fun t₁ t₂ c₁ c₂ n' ht₁ ht₂ => ?_) hr hc
  · constructor
    · rintro ⟨t', c', ht'⟩
      rcases (hh t' c' n').mp ht' with ⟨-, -, rfl⟩ | hold
      · exact ⟨t₀, c₀, hc₀⟩
      · exact ⟨t', c', hold⟩
    · rintro ⟨t', c', ht'⟩
      exact ⟨t', c', (hh t' c' n').mpr (.inr ht')⟩
  · have hp : ∀ t' c', s.call t' = .holding c' n → c'.path = c.path := fun t' c' ht' =>
      (h.path t' t₀ c' c₀ n ht' hc₀).trans hpa
    rcases (hh t₁ c₁ n').mp ht₁ with ⟨-, rfl, rfl⟩ | ho <;>
      rcases (hh t₂ c₂ _).mp ht₂ with ⟨-, rfl, hn⟩ | hol
    · rfl
    · exact (hp t₂ c₂ hol).symm
    · subst hn
      exact hp t₁ c₁ ho
    · exact h.path t₁ t₂ c₁ c₂ n' ho hol

theorem accounts_initOk (h : s.Accounts)
    (hh : ∀ t' c' n', s'.call t' = .holding c' n' ↔ (t' = t ∧ c' = c ∧ n' = s.returned) ∨
      s.call t' = .holding c' n')
    (hr : s'.returned = s.returned + 1) (hc : s'.closed = s.closed) : s'.Accounts := by
  have hf : ∀ t' c', s.call t' ≠ .holding c' s.returned := fun t' c' ht' =>
    absurd (h.returned _ ⟨t', c', ht'⟩) (lt_irrefl _)
  have hhe : ∀ n, s'.Held n ↔ s.Held n ∨ n = s.returned := by
    intro n
    constructor
    · rintro ⟨t', c', ht'⟩
      rcases (hh t' c' n).mp ht' with ⟨-, -, hn⟩ | hold
      · exact .inr hn
      · exact .inl ⟨t', c', hold⟩
    · rintro (⟨t', c', ht'⟩ | rfl)
      · exact ⟨t', c', (hh t' c' n).mpr (.inr ht')⟩
      · exact ⟨t, c, (hh t c _).mpr (.inl ⟨rfl, rfl, rfl⟩)⟩
  refine ⟨fun t₁ t₂ c₁ c₂ n ht₁ ht₂ => ?_, fun n hn => ?_, fun n hn hhe' => ?_, fun n hn => ?_⟩
  · rcases (hh t₁ c₁ n).mp ht₁ with ⟨-, rfl, rfl⟩ | ho <;>
      rcases (hh t₂ c₂ _).mp ht₂ with ⟨-, rfl, hn⟩ | hol
    · rfl
    · exact absurd hol (hf t₂ c₂)
    · subst hn
      exact absurd ho (hf t₁ c₁)
    · exact h.path t₁ t₂ c₁ c₂ n ho hol
  · rw [hr]
    rcases (hhe n).mp hn with hn | rfl
    · exact Nat.lt_succ_of_lt (h.returned n hn)
    · exact Nat.lt_succ_self _
  · rw [hhe, not_or] at hhe'
    rw [hr] at hn
    rw [hc]
    exact h.due n (lt_of_le_of_ne (Nat.le_of_lt_succ hn) hhe'.2) hhe'.1
  · rw [hhe, hr, or_assoc] at hn
    rw [hc]
    refine h.open' n (hn.imp_right ?_)
    rintro (rfl | hn)
    · exact le_rfl
    · exact le_trans (Nat.le_succ _) hn

theorem accounts_closeLast (hi : s.Inv) (h : s.Accounts) (ht : s.call t = .holding c n)
    (hla : (s.stateByKey c.path).processCount - 1 = 0)
    (hh : ∀ t' c' n', s'.call t' = .holding c' n' ↔ t' ≠ t ∧ s.call t' = .holding c' n')
    (hr : s'.returned = s.returned) (hc : s'.closed = Function.update s.closed n (s.closed n + 1)) : s'.Accounts := by
  obtain ⟨ho, hm, hca, -⟩ := (hi.paths c.path).counted
  have hon : ho.card ≤ 1 := by omega
  have hl : ∀ t' c', t' ≠ t → s.call t' ≠ .holding c' n := by
    intro t' c' hne ht'
    have hp := h.path t' t c' c n ht' ht
    exact hne (Finset.card_le_one.mp hon t' ((hm t').mpr ⟨c', n, ht', hp⟩) t ((hm t).mpr ⟨c, n, ht, rfl⟩))
  have hhe : ∀ n', s'.Held n' ↔ s.Held n' ∧ n' ≠ n := by
    intro n'
    constructor
    · rintro ⟨t', c', ht'⟩
      obtain ⟨hne, hol⟩ := (hh t' c' n').mp ht'
      refine ⟨⟨t', c', hol⟩, ?_⟩
      rintro rfl
      exact hl t' c' hne hol
    · rintro ⟨⟨t', c', ht'⟩, hne⟩
      refine ⟨t', c', (hh t' c' n').mpr ⟨?_, ht'⟩⟩
      rintro rfl
      rw [ht] at ht'
      cases ht'
      exact hne rfl
  have hop : s.closed n = 0 := h.open' n (.inl ⟨t, c, ht⟩)
  have hlt : n < s.returned := h.returned n ⟨t, c, ht⟩
  refine ⟨fun t₁ t₂ c₁ c₂ n' ht₁ ht₂ => ?_, fun n' hn' => ?_, fun n' hn' hhe' => ?_, fun n' hn' => ?_⟩
  · exact h.path t₁ t₂ c₁ c₂ n' ((hh t₁ c₁ n').mp ht₁).2 ((hh t₂ c₂ n').mp ht₂).2
  · rw [hr]
    exact h.returned n' ((hhe n').mp hn').1
  · rw [hc]
    by_cases heq : n' = n
    · rw [heq, Function.update_self, hop]
    · rw [Function.update_of_ne heq]
      exact h.due n' (hr ▸ hn') fun hn => hhe' ((hhe n').mpr ⟨hn, heq⟩)
  · have heq : n' ≠ n := by
      rcases hn' with hn' | hn'
      · exact ((hhe n').mp hn').2
      · omega
    rw [hc, Function.update_of_ne heq]
    refine h.open' n' (hn'.imp (fun hn => ((hhe n').mp hn).1) fun hn => ?_)
    rwa [hr] at hn

/-- a holder that is not the last leaves the closer to the others -/
theorem accounts_closeMore (hi : s.Inv) (h : s.Accounts) (ht : s.call t = .holding c n)
    (hmo : (s.stateByKey c.path).processCount - 1 ≠ 0)
    (hh : ∀ t' c' n', s'.call t' = .holding c' n' ↔ t' ≠ t ∧ s.call t' = .holding c' n')
    (hr : s'.returned = s.returned) (hc : s'.closed = s.closed) : s'.Accounts := by
  obtain ⟨holders, hm, hca, -⟩ := (hi.paths c.path).counted
  have hin : t ∈ holders := (hm t).mpr ⟨c, n, ht, rfl⟩
  obtain ⟨t₀, ht₀, hn⟩ : ∃ t₀ ∈ holders, t₀ ≠ t := by
    refine Finset.exists_mem_ne ?_ t
    have hpo : 0 < holders.card := Finset.card_pos.mpr ⟨t, hin⟩
    omega
  obtain ⟨c₀, n₀, ho, hp⟩ := (hm t₀).mp ht₀
  obtain rfl : n₀ = n := hi.closer_eq ht ho hp
  refine h.frame (fun n' => ⟨?_, ?_⟩) (fun t₁ t₂ c₁ c₂ n' ht₁ ht₂ => ?_) hr hc
  · rintro ⟨t', c', ht'⟩
    exact ⟨t', c', ((hh t' c' n').mp ht').2⟩
  · rintro ⟨t', c', ht'⟩
    by_cases heq : t' = t
    · subst heq
      rw [ht] at ht'
      cases ht'
      exact ⟨t₀, c₀, (hh t₀ c₀ _).mpr ⟨hn, ho⟩⟩
    · exact ⟨t', c', (hh t' c' n').mpr ⟨heq, ht'⟩⟩
  · exact h.path t₁ t₂ c₁ c₂ n' ((hh t₁ c₁ n').mp ht₁).2 ((hh t₂ c₂ n').mp ht₂).2

theorem accounts_initial : (initial T).Accounts := by
  have hh : ∀ n, ¬ (initial T).Held n := by
    rintro n ⟨t, c, h⟩
    cases h
  exact ⟨nofun, fun n h => absurd h (hh n), fun n h => absurd h (Nat.not_lt_zero n),
    fun _ _ => rfl⟩

theorem Inv.exclusive (h : s.Inv) (ha : s.Accounts) : s.Exclusive where
  revision t t' c c' n n' ht ht' hpath := h.revision_eq ht ht' hpath
  concurrent t t' c c' n n' ht ht' hpath hne := (h.compatible ht ht' hne hpath).2
  alone t t' c c' clean n ht ht' := h.alone ht ht'
  clean t c clean ht := by
    rw [((h.paths c.path).initializing t c clean ht rfl).clean, ← not_iff_not, not_not, ← (h.paths c.path).lastInit]
    simp
  closers n hn := ⟨fun hh => ha.open' n (.inl hh), ha.due n hn⟩

/-! ## Steps -/

theorem Proper.nonEmpty {a : LockStep T} (h : s.Proper a) : NonEmpty a := by
  cases a with
  | call t c => exact h
  | _ => trivial

variable [DecidableEq T]

theorem accounts_section (hi : s.Inv) (h : s.Accounts) {a : LockStep T} (ha : s.Proper a) (hs : s.Section a s') :
    s'.Accounts := by
  cases hs with
  | skip => exact h
  | call ht => exact h.of_holding (fun _ _ _ => call_eq_iff_of_ne rfl (by nofun) (by simp [ht]) _) rfl rfl
  | start ht => exact h.of_holding (fun _ _ _ => call_eq_iff_of_ne rfl (by nofun) (by simp [ht]) _) rfl rfl
  | @join _ c ht hf =>
    obtain ⟨t₀, c₀, n, hc₀, hp, hc⟩ := hi.exists_holder hf
    rw [show (s.stateByKey c.path).initCloser.getD 0 = n by rw [hc]; rfl]
    exact accounts_join h hc₀ hp (holding_gain rfl (by simp [ht])) rfl rfl
  | wait ht => exact h.of_holding (fun _ _ _ => call_eq_iff_of_ne rfl (by nofun) (by simp [ht]) _) rfl rfl
  | initOk ht => exact accounts_initOk h (holding_gain rfl (by simp [ht])) rfl rfl
  | initFailed ht =>
    obtain rfl := ha
    exact h.of_holding (fun _ _ _ => call_eq_iff_of_ne rfl (by nofun) (by simp [ht]) _) rfl rfl
  | closeLast ht hl =>
    rw [((hi.paths _).holding _ _ _ ht rfl).initCloser]
    exact accounts_closeLast hi h ht hl (fun t' c' n' => call_eq_iff rfl (by nofun) t') rfl rfl
  | closeMore ht hl => exact accounts_closeMore hi h ht hl (fun t' c' n' => call_eq_iff rfl (by nofun) t') rfl rfl
  | broadcast ht => exact h.of_holding (holding_broadcast ht) rfl rfl

/-! ## Runs -/

theorem reach_inv (h : Trace.Reach step Proper (initial T) s) : s.Inv ∧ s.Accounts :=
  h.inv (fun s => s.Inv ∧ s.Accounts) ⟨inv_initial, accounts_initial⟩ fun _ a hs ha =>
    ⟨inv_step hs.1 a ha.nonEmpty, accounts_section hs.1 hs.2 ha (step_section a _)⟩

/-- **The repository lock excludes.** In every run without empty revisions and without an `init` that fails after having
returned a closer: holders of one path hold one revision, and share it only if all asked for concurrent processing;
`init` runs while nobody holds the path, and cleans unless the last one was for a concurrent holder; every closer that
was returned is closed once, when its last holder leaves. -/
theorem lock_exclusion {s : LockState T} (h : Trace.Reach step Proper (initial T) s) : s.Exclusive :=
  (reach_inv h).1.exclusive (reach_inv h).2

def run (steps : List (LockStep T)) : LockState T := steps.foldl (fun s a => step a s) (initial T)

theorem reach_run (steps : List (LockStep T)) (h : ∀ a ∈ steps, (initial T).Proper a) :
    Trace.Reach step Proper (initial T) (run steps) :=
  Trace.Reach.foldl_state _ steps _ fun _ a ha => .act a (h a ha)

/-- two calls share a checkout -/
def sharing : List (LockStep (Fin 2)) :=
  [.call 0 ⟨"/repo", "c1", true⟩, .enter 0, .initReturns 0 .ok, .call 1 ⟨"/repo", "c1", true⟩, .enter 1]

theorem lock_exclusion_sharing : (run sharing).call 0 = .holding ⟨"/repo", "c1", true⟩ 0 ∧
    (run sharing).call 1 = .holding ⟨"/repo", "c1", true⟩ 0 ∧ (run sharing).Exclusive := by
  refine ⟨by decide, by decide, lock_exclusion (reach_run sharing ?_)⟩
  simp [sharing, Proper]

/-- a call with the empty revision takes the lock, and the path still looks free -/
def emptyRevision : List (LockStep (Fin 2)) :=
  [.call 0 ⟨"/repo", "", false⟩, .enter 0, .initReturns 0 .ok, .call 1 ⟨"/repo", "c1", false⟩, .enter 1]

/-- the checkout fails after the permissions of the directory were given, with the closer that takes them back -/
def failedCheckout : List (LockStep (Fin 1)) :=
  [.call 0 ⟨"/repo", "c1", true⟩, .enter 0, .initReturns 0 (.failed true)]

/-- **The lock does not always exclude.** `init` runs while the path has a holder with the empty revision, and the
closer of a failed `init` is never closed. -/
theorem lock_exclusion_fails : ¬ (run emptyRevision).Exclusive ∧ ¬ (run failedCheckout).Exclusive := by
  constructor
  · intro h
    exact h.alone 1 0 ⟨"/repo", "c1", false⟩ ⟨"/repo", "", false⟩ true 0 (by decide) (by decide) rfl
  · intro h
    have hh : ¬ (run failedCheckout).Held 0 := by
      rintro ⟨t, c, ht⟩
      have hi : ∀ t, (run failedCheckout).call t = .idle := by decide
      rw [hi t] at ht
      cases ht
    exact absurd ((h.closers 0 (by decide)).2 hh) (by decide)

end LockState

end GitOpsDeploy.RepoServer

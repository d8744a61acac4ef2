/-
Requests that wait for each other's repository locks.

A request holds the lock of its own repository while it asks for those of the referenced repositories, in the order of
its value files. `Lock` waits without a timeout.
- `LockState.Awaited`: a call that waits is going to be woken up, or the path is held in a way that keeps it out.
- `no_deadlock`: without requests that are `Circular` no state that is reached has a deadlock.
- `no_deadlock_each_other`: two requests that take values from each other's repository, at one commit each.
- `deadlock_reached`: the same two when one repository has moved on, and a request that references its own repository.
-/
import GitOpsDeploy.RepoServer.Scanned

namespace GitOpsDeploy.RepoServer

/-! ## No wake-up is lost -/

namespace LockState

variable {T : Type}

/-- the path is held in a way that keeps the call out -/
def KeepsOut (r : RepositoryState T) (c : LockCall) : Prop :=
  r.revision ≠ "" ∧ ¬ (r.revision = c.revision ∧ r.allowConcurrent = true ∧ c.allowConcurrent = true)

def Awaited (s : LockState T) : Prop :=
  ∀ t c, s.call t = .waiting c → (∃ t', s.call t' = .notifying c.path) ∨ KeepsOut (s.stateByKey c.path) c

variable [DecidableEq T] {s s' : LockState T}

variable {t : T} {c : LockCall}

/-- one call moves, on one path: those that wait there are kept out as before, or are going to be woken up -/
theorem Awaited.change (h : s.Awaited) {path : String} {x y : CallState} {r : RepositoryState T}
    (hm : s.Moves s' t x path r) (ht : s.call t = y) (hn : ∀ p, y ≠ .notifying p)
    (hse : ∀ c, x = .waiting c → KeepsOut (s'.stateByKey c.path) c)
    (hpa : x = .notifying path ∨ ∀ c, KeepsOut (s.stateByKey path) c → KeepsOut r c) : s'.Awaited := by
  intro t' c ht'
  rw [hm.call_apply] at ht'
  split_ifs at ht' with heq
  · exact .inr (hse c ht')
  · rcases h t' c ht' with ⟨t₁, ht₁⟩ | ho
    · refine .inl ⟨t₁, ?_⟩
      rw [hm.call_apply, if_neg, ht₁]
      rintro rfl
      exact hn _ (ht.symm.trans ht₁)
    · by_cases hp : c.path = path
      · rw [hp] at ho ⊢
        rcases hpa with rfl | hpa
        · exact .inl ⟨t, by rw [hm.call_apply, if_pos rfl]⟩
        · rw [hm.here]
          exact .inr (hpa c ho)
      · rw [hm.state, Function.update_of_ne hp]
        exact .inr ho

/-- the calls that wait for the path are woken up; others wait for another call to notify them -/
theorem awaited_broadcast (h : s.Awaited) {path : String} (ht : s.call t = .notifying path) :
    (s.broadcast t path).Awaited := by
  intro t' c ht'
  have hc : ∀ t₁, (s.broadcast t path).call t₁ = if t₁ = t then .idle else wake path (s.call t₁) :=
    fun t₁ => call_setCall ..
  rw [hc] at ht'
  split_ifs at ht'
  obtain ⟨hw, hpa⟩ : s.call t' = .waiting c ∧ c.path ≠ path := by
    cases hx : s.call t' with
    | waiting c' =>
      rw [hx] at ht'
      dsimp only [wake] at ht'
      split_ifs at ht' with hp
      cases ht'
      exact ⟨rfl, hp⟩
    | _ => simp [hx, wake] at ht'
  refine (h t' c hw).imp_left ?_
  rintro ⟨t₁, ht₁⟩
  refine ⟨t₁, ?_⟩
  rw [hc, if_neg, ht₁]
  · rfl
  · rintro rfl
    rw [ht] at ht₁
    cases ht₁
    exact hpa rfl

theorem awaited_section (h : s.Awaited) (hi : s.Inv) {a : LockStep T} (hs : s.Section a s') : s'.Awaited := by
  -- a call that moves and leaves the paths alone
  have hu {t x} (path : String) : s.Moves (s.setCall t x) t x path (s.stateByKey path) :=
    ⟨rfl, (Function.update_eq_self path _).symm⟩
  have hf {t c clean} (ht : s.call t = .initializing c clean) := ((hi.paths c.path).initializing t c clean ht rfl).free
  cases hs with
  | skip => exact h
  | call ht => exact h.change (hu "") ht nofun nofun (.inr fun _ ho => ho)
  | start ht _ hf => exact h.change ⟨rfl, rfl⟩ ht nofun nofun (.inr fun c' ho => absurd hf ho.1)
  | join ht => exact h.change ⟨rfl, rfl⟩ ht nofun nofun (.inr fun c' ho => ho)
  | wait ht hf hs =>
    refine h.change (hu "") ht nofun (fun c' hc' => ?_) (.inr fun _ ho => ho)
    cases hc'
    exact ⟨hf, hs⟩
  | initOk ht => exact h.change ⟨rfl, rfl⟩ ht nofun nofun (.inr fun c' ho => absurd (hf ht) ho.1)
  | initFailed ht => exact h.change ⟨rfl, rfl⟩ ht nofun nofun (.inr fun c' ho => absurd (hf ht) ho.1)
  | closeLast ht => exact h.change (moves_closeInit _) ht nofun nofun (.inl rfl)
  | closeMore ht => exact h.change ⟨rfl, rfl⟩ ht nofun nofun (.inr fun c' ho => ho)
  | broadcast ht => exact awaited_broadcast h ht

theorem notifying_step {a : LockStep T} (ha : ∀ t, a ≠ .close t) (h : ∀ t path, s.call t ≠ .notifying path) :
    ∀ t path, (step a s).call t ≠ .notifying path := by
  have hm {s' : LockState T} {t : T} (x : CallState) (hx : ∀ path, x ≠ .notifying path)
      (hca : s'.call = Function.update s.call t x) : ∀ t path, s'.call t ≠ .notifying path := by
    intro t' path
    rw [Ne, call_eq_iff hca (hx path)]
    exact fun hn => h t' path hn.2
  have hs := step_section a s
  generalize step a s = s' at hs ⊢
  cases hs with
  | skip => exact h
  | call => exact hm (.locking _) nofun rfl
  | start => exact hm (.initializing ..) nofun rfl
  | join => exact hm (.holding ..) nofun rfl
  | wait => exact hm (.waiting _) nofun rfl
  | initOk => exact hm (.holding ..) nofun rfl
  | initFailed => exact hm .idle nofun rfl
  | closeLast => exact absurd rfl (ha _)
  | closeMore => exact absurd rfl (ha _)
  | broadcast ht => exact absurd ht (h _ _)

end LockState

namespace Server

variable {R : Type} [DecidableEq R] {program : R → List Action} {s : Server R}

/-- a step of the server makes at most one of the lock -/
theorem lock_step (a : Step R) : (step program a s).lock = s.lock ∨
    ∃ b, (step program a s).lock = s.lock.step b ∧ ((∀ r i, a ≠ .close r i) → ∀ t, b ≠ .close t) := by
  cases a with
  | call r =>
    dsimp only [step]
    split
    · next c _ => exact .inr ⟨.call (r, s.position r) c, rfl, fun _ => nofun⟩
    · exact .inl rfl
  | enter r => exact .inr ⟨.enter (r, s.position r), rfl, fun _ => nofun⟩
  | initReturns r result =>
    dsimp only [step]
    split
    · cases result with
      | ok => exact .inr ⟨.initReturns (r, s.position r) .ok, rfl, fun _ => nofun⟩
      | failed closer => exact .inr ⟨.initReturns (r, s.position r) (.failed closer), rfl, fun _ => nofun⟩
    · exact .inl rfl
  | proceed r =>
    dsimp only [step]
    split <;> exact .inl rfl
  | scan r found =>
    dsimp only [step]
    split
    · next rootPath version noCache skipPaths hne =>
      left
      rcases s.check_cases rootPath version noCache skipPaths found with ⟨entry, -, -, hc⟩ | hc
      · rw [hc]
        split_ifs <;> rfl
      · rw [hc]
        split_ifs <;> rfl
    · exact .inl rfl
  | generate r =>
    dsimp only [step]
    split <;> exact .inl rfl
  | stop r =>
    dsimp only [step]
    split <;> exact .inl rfl
  | close r i =>
    dsimp only [step]
    split_ifs
    · exact .inr ⟨.close (r, i), rfl, fun hn => absurd rfl (hn r i)⟩
    · exact .inl rfl
  | broadcast r i => exact .inr ⟨.broadcast (r, i), rfl, fun _ => nofun⟩
  | expire key => exact .inl rfl

theorem awaited_step (h : s.lock.Awaited) (hi : s.Inv program) (a : Step R) : (step program a s).lock.Awaited := by
  rcases @lock_step _ _ program s a with hs | ⟨b, hb, -⟩
  · rw [hs]
    exact h
  · rw [hb]
    exact LockState.awaited_section h hi.lock (LockState.step_section b s.lock)

/-! ## Deadlocks -/

/-- every request of the set waits in `Lock`, with nobody about to wake it up, for a path that is held by requests of the set
only -/
structure Deadlocked (s : Server R) (requests : Set R) : Prop where
  nonempty : requests.Nonempty
  waits : ∀ r ∈ requests, ∃ c, s.lock.call (r, s.position r) = .waiting c ∧
    (∀ t, s.lock.call t ≠ .notifying c.path) ∧ (∃ t c' n, s.lock.call t = .holding c' n ∧ c'.path = c.path) ∧
    ∀ r' i c' n, s.lock.call (r', i) = .holding c' n → c'.path = c.path → r' ∈ requests

/-- Requests, with the number of actions that each has done: the locks taken by then are compatible with each other, and the
next action of each is a lock that is not compatible with one of those. -/
structure Circular (program : R → List Action) (requests : Set R) (done : R → ℕ) : Prop where
  nonempty : requests.Nonempty
  compatible : ∀ r ∈ requests, ∀ r' ∈ requests, ∀ i < done r, ∀ j < done r', (r, i) ≠ (r', j) → ∀ c c',
    (program r)[i]? = some (.lock c) → (program r')[j]? = some (.lock c') → c.Compatible c'
  blocked : ∀ r ∈ requests, ∃ c, (program r)[done r]? = some (.lock c) ∧
    ∃ r' ∈ requests, ∃ j < done r', ∃ c', (program r')[j]? = some (.lock c') ∧ ¬ c.Compatible c'

omit [DecidableEq R] in
theorem Deadlocked.circular {requests : Set R} (h : s.Deadlocked requests) (hin : s.Inv program) (ha : s.lock.Awaited) :
    Circular program requests s.position := by
  have hru : ∀ r ∈ requests, s.ended r = false := by
    intro r hr
    obtain ⟨c, hw, -⟩ := h.waits r hr
    exact (hin.pending r _ c (by rw [hw]; rfl)).2
  refine ⟨h.nonempty, fun r hr r' hr' i hi j hj hne c c' hc hc' => ?_, fun r hr => ?_⟩
  · obtain ⟨n, hn⟩ := hin.held r i c (hru r hr) hi hc
    obtain ⟨n', hn'⟩ := hin.held r' j c' (hru r' hr') hj hc'
    exact hin.lock.compatible hn hn' hne
  · obtain ⟨c, hw, hq, ⟨⟨r', j⟩, c', n, hh, hp⟩, ho⟩ := h.waits r hr
    have hr' := ho r' j c' n hh hp
    obtain ⟨hj, hc'⟩ := hin.placed r' j c' (by rw [hh]; rfl)
    -- the holder waits at its own position, so the lock that it holds is one of an action that it has done
    have hlt : j < s.position r' := by
      refine lt_of_le_of_ne hj fun heq => ?_
      obtain ⟨c'', hw', -⟩ := h.waits r' hr'
      rw [heq, hw'] at hh
      cases hh
    refine ⟨c, (hin.placed r _ c (by rw [hw]; rfl)).2, r', hr', j, hlt, c', hc', fun hco => ?_⟩
    rcases ha _ c hw with ⟨t, ht⟩ | ⟨-, hou⟩
    · exact hq t ht
    · obtain ⟨hre, hc, hcon⟩ := hco hp.symm
      obtain ⟨hrev, -, hconc⟩ := (hin.lock.paths c.path).holding _ c' n hh hp
      exact hou ⟨hrev.trans hre.symm, hconc.trans hcon, hc⟩

/-- **Requests that are not circular do not deadlock.** For any requests at the same time, over any repositories and
revisions: unless some of them could each hold the locks of their first actions and then ask for one that another of
them keeps, no state is reached in which a set of requests waits for paths that only the set holds. -/
theorem no_deadlock (g : GitSettings) (e : R → Answers) (q : R → ManifestRequest)
    (hcircular : ∀ requests done, ¬ Circular (fun r => RepoServer.program g (e r) (q r)) requests done) {s : Server R}
    (h : Trace.Reach (step fun r => RepoServer.program g (e r) (q r)) (fun _ _ => True) (initial R) s) (requests : Set R) :
    ¬ s.Deadlocked requests := by
  intro hd
  have hw := fun r => program_wellFormed g (e r) (q r)
  obtain ⟨hi, ha⟩ := h.inv (fun s => s.Inv _ ∧ s.lock.Awaited) ⟨inv_initial _, nofun⟩ fun s a hs _ =>
    ⟨inv_step hs.1 (fun r c => (hw r).revision c) a, awaited_step hs.2 hs.1 a⟩
  exact hcircular requests s.position (hd.circular hi ha)

/-- **No wake-up is lost.** For any requests at the same time and any interleaving: a call that waits is going to be
woken up, or its path is taken in a way that keeps it out; and a path that is taken has a holder. -/
theorem no_lost_wakeup (g : GitSettings) (e : R → Answers) (q : R → ManifestRequest) (steps : List (Step R)) :
    let lock := (run (fun r => RepoServer.program g (e r) (q r)) steps).lock
    lock.Awaited ∧ ∀ path, (lock.stateByKey path).revision ≠ "" → ∃ t c n, lock.call t = .holding c n ∧
      c.path = path := by
  obtain ⟨hi, ha⟩ := List.foldlRecOn steps (fun s a => step (fun r => RepoServer.program g (e r) (q r)) a s)
    (motive := fun s : Server R => s.Inv _ ∧ s.lock.Awaited) ⟨inv_initial _, nofun⟩ fun s hs a _ =>
      ⟨inv_step hs.1 (fun r c => (program_wellFormed g (e r) (q r)).revision c) a, awaited_step hs.2 hs.1 a⟩
  refine ⟨ha, fun path hr => ?_⟩
  obtain ⟨t, c, n, hc, hp, -⟩ := hi.lock.exists_holder hr
  exact ⟨t, c, n, hc, hp⟩

/-! ## Examples -/

theorem notifying_run (program : R → List Action) (steps : List (Step R))
    (hst : ∀ a ∈ steps, ∀ r i, a ≠ .close r i) :
    ∀ t path, (run program steps).lock.call t ≠ .notifying path := by
  refine List.foldlRecOn steps _ (motive := fun s : Server R => ∀ t path, s.lock.call t ≠ .notifying path) nofun
    fun s hs a ha => ?_
  rcases @lock_step _ _ program s a with hsa | ⟨b, hb, hc⟩
  · rw [hsa]
    exact hs
  · rw [hb]
    exact LockState.notifying_step (hc (hst a ha)) hs

/-- a source of a multi-source application, with a value file from another repository -/
def withValuesFrom (own other : String) (kustomize : Option Kustomize) : ManifestRequest where
  repo := own
  source := ⟨own, "app", "main", some ⟨["$values/prod.yaml"], [], ""⟩, kustomize, none, none, "", "", ""⟩
  revision := "main"
  noCache := false
  hasMultipleSources := true
  refSources := [("$values", ⟨other, "", "main", ""⟩)]

/-- every repository is at the given commit -/
def allAt (commit : Commit) : Answers := ⟨fun _ _ => .ok commit, .error "", .error ""⟩

/-- two sources that take their values from each other's repository, when one of the repositories has moved on in between -/
def crossed (r : Fin 2) : List Action :=
  if r.val = 0 then RepoServer.program exampleSettings (allAt ⟨"c1", c1_nonempty⟩) (withValuesFrom "a" "b" none)
  else RepoServer.program exampleSettings (allAt ⟨"c2", c2_nonempty⟩) (withValuesFrom "b" "a" none)

/-- a source that cannot be processed concurrently, with values from its own repository -/
def reflexive (_ : Fin 1) : List Action :=
  RepoServer.program exampleSettings (allAt ⟨"c1", c1_nonempty⟩)
    (withValuesFrom "a" "a" (some { Kustomize.zero with images := ["nginx:1"] }))

/-- a request takes the lock of its repository and scans it -/
def lockOwn {R : Type} (r : R) : List (Step R) :=
  [.call r, .enter r, .initReturns r .ok, .proceed r, .scan r true]

/-- the commit of each of two repositories does not change -/
def eachAt : Answers :=
  ⟨fun url _ => .ok (if url = "a" then ⟨"c1", c1_nonempty⟩ else ⟨"c2", c2_nonempty⟩), .error "", .error ""⟩

/-- two sources that take their values from each other's repository -/
def valuesOfEachOther (r : Fin 2) : ManifestRequest :=
  if r.val = 0 then withValuesFrom "a" "b" none else withValuesFrom "b" "a" none

/-- each request holds its own repository and gets the other's as well, in any order -/
theorem no_deadlock_each_other :
    let program := fun r => RepoServer.program exampleSettings eachAt (valuesOfEachOther r)
    let s := run program (lockOwn 0 ++ lockOwn 1 ++ [.call 0, .enter 0, .call 1, .enter 1])
    (s.lock.call (0, 0) = .holding ⟨"/repos/a", "c1", true⟩ 0 ∧
      s.lock.call (0, 2) = .holding ⟨"/repos/b", "c2", true⟩ 1 ∧
      s.lock.call (1, 0) = .holding ⟨"/repos/b", "c2", true⟩ 1 ∧
      s.lock.call (1, 2) = .holding ⟨"/repos/a", "c1", true⟩ 0) ∧
    ∀ requests, ¬ s.Deadlocked requests := by
  intro program s
  refine ⟨by decide +kernel, no_deadlock exampleSettings (fun _ => eachAt) valuesOfEachOther (fun requests done hci => ?_)
    (Trace.Reach.foldl_state _ _ _ fun s a _ => .act a trivial)⟩
  obtain ⟨r, hr⟩ := hci.nonempty
  obtain ⟨c, hc, r', -, j, -, c', hc', hn⟩ := hci.blocked r hr
  -- any two locks of the two requests are compatible
  have hp : ∀ r, ∀ a ∈ program r, a ∈ [.lock ⟨"/repos/a", "c1", true⟩, .lock ⟨"/repos/b", "c2", true⟩,
      .scan "/repos/a" "c1" false [".git"], .scan "/repos/b" "c1" false [".git"], .scan "/repos/b" "c2" false [".git"],
      .scan "/repos/a" "c2" false [".git"], .generate] := by decide +kernel
  have hl {r : Fin 2} {i : ℕ} {c : LockCall} (hc : (program r)[i]? = some (.lock c)) :
      c ∈ [⟨"/repos/a", "c1", true⟩, ⟨"/repos/b", "c2", true⟩] := by
    simpa using hp r _ (List.mem_of_getElem? hc)
  have hm : ∀ c ∈ [⟨"/repos/a", "c1", true⟩, ⟨"/repos/b", "c2", true⟩],
      ∀ c' ∈ [⟨"/repos/a", "c1", true⟩, ⟨"/repos/b", "c2", true⟩], LockCall.Compatible c c' := by
    unfold LockCall.Compatible
    decide
  exact hn (hm c (hl hc) c' (hl hc'))

/-- **Requests deadlock.** Two that reference each other's repository at another revision, and one that references its
own. -/
theorem deadlock_reached :
    (run crossed (lockOwn 0 ++ lockOwn 1 ++ [.call 0, .enter 0, .call 1, .enter 1])).Deadlocked {0, 1} ∧
      (run reflexive (lockOwn 0 ++ [.call 0, .enter 0])).Deadlocked {0} := by
  have hc := notifying_run crossed (lockOwn 0 ++ lockOwn 1 ++ [.call 0, .enter 0, .call 1, .enter 1])
    (by simp [lockOwn])
  have hr := notifying_run reflexive (lockOwn 0 ++ [.call 0, .enter 0]) (by simp [lockOwn])
  constructor
  · refine ⟨⟨0, by simp⟩, fun r _ => ?_⟩
    match r with
    | 0 =>
      refine ⟨⟨"/repos/b", "c1", true⟩, by decide +kernel, fun t => hc t _,
        ⟨(1, 0), ⟨"/repos/b", "c2", true⟩, 1, by decide +kernel, rfl⟩, fun r' _ _ _ _ _ => ?_⟩
      fin_cases r' <;> simp
    | 1 =>
      refine ⟨⟨"/repos/a", "c2", true⟩, by decide +kernel, fun t => hc t _,
        ⟨(0, 0), ⟨"/repos/a", "c1", true⟩, 0, by decide +kernel, rfl⟩, fun r' _ _ _ _ _ => ?_⟩
      fin_cases r' <;> simp
  · refine ⟨⟨0, rfl⟩, fun r _ => ?_⟩
    obtain rfl : r = 0 := Subsingleton.elim _ _
    exact ⟨⟨"/repos/a", "c1", true⟩, by decide +kernel, fun t => hr t _,
      ⟨(0, 0), ⟨"/repos/a", "c1", false⟩, 0, by decide +kernel, rfl⟩, fun r' _ _ _ _ _ => Subsingleton.elim _ _⟩

end Server

end GitOpsDeploy.RepoServer

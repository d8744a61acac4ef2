/-
The repo server with any number of requests at the same time: their programs, the repository lock, the checkouts and the
memoised symlink scans (`checkOutOfBoundsSymlinks` in `reposerver/repository/repository.go`).

A request that ends, with manifests or with an error, closes its locks, in any order. A failed checkout leaves the tree in an
unknown state. An entry of the memo may expire at any time. The memo records, beside the result, what was scanned: this
is what the invariants are about, the code does not read it.
- `Inv`: requests hold the locks of the actions they have done, and a held checkout is at its revision.
-/
import GitOpsDeploy.RepoServer.Holders
import GitOpsDeploy.RepoServer.Requests

namespace GitOpsDeploy.RepoServer

open Function

/-- an entry of `symlinksState`: the result, and of which tree it is -/
structure Checked where
  rootPath : String
  tree : Option String
  clean : Bool

structure Server (R : Type) where
  /-- a call of `Lock` is named by its request and the place in the program -/
  lock : LockState (R × ℕ)
  /-- the actions that are done -/
  position : R → ℕ
  ended : R → Bool
  /-- the commit at which a path is checked out -/
  tree : String → Option String
  symlinksState : String → Option Checked
  /-- the trees that were scanned without a finding so far -/
  clean : List (String × Option String)

namespace Server

variable {R : Type}

def initial (R : Type) : Server R := ⟨.initial _, fun _ => 0, fun _ => false, fun _ => none, fun _ => none, []⟩

inductive Step (R : Type) where
  | call (r : R)
  | enter (r : R)
  | initReturns (r : R) (result : InitResult)
  /-- `Lock` has returned -/
  | proceed (r : R)
  /-- the scan, with what the walk over the tree finds if it is made -/
  | scan (r : R) (clean : Bool)
  | generate (r : R)
  /-- the request ends for another reason: an answer from the cache, or an error -/
  | stop (r : R)
  | close (r : R) (i : ℕ)
  | broadcast (r : R) (i : ℕ)
  | expire (key : String)

/-- the key of the memo -/
def symlinksKey (rootPath version : String) (skipPaths : List String) : String :=
  rootPath ++ "/" ++ version ++ "/" ++ ",".intercalate skipPaths

variable [DecidableEq R] (program : R → List Action)

variable (s : Server R)

/-- the next action of a request that has not ended -/
def next (r : R) : Option Action := if s.ended r then none else (program r)[s.position r]?

omit [DecidableEq R] in
theorem next_eq_some {program : R → List Action} {s : Server R} {r : R} {a : Action} (h : s.next program r = some a) :
    s.ended r = false ∧ (program r)[s.position r]? = some a := by
  unfold next at h
  split_ifs at h with he
  exact ⟨by simpa using he, h⟩

def advance (r : R) : Server R := { s with position := Function.update s.position r (s.position r + 1) }

def finish (r : R) : Server R := { s with ended := Function.update s.ended r true }

/-- a scan of the tree, and its entry -/
def record (key rootPath : String) (clean : Bool) : Server R :=
  { s with
    symlinksState := Function.update s.symlinksState key (some ⟨rootPath, s.tree rootPath, clean⟩)
    clean := if clean then (rootPath, s.tree rootPath) :: s.clean else s.clean }

variable (rootPath version : String)

/-- `checkOutOfBoundsSymlinks` -/
def checkOutOfBoundsSymlinks (noCache : Bool) (skipPaths : List String) (found : Bool) : Server R × Bool :=
  let key := symlinksKey rootPath version skipPaths
  match if noCache then none else s.symlinksState key with
  | some entry => (s, entry.clean)
  | none => (s.record key rootPath found, found)

omit [DecidableEq R] in
/-- the memo answers, or the tree is scanned -/
theorem check_cases (noCache : Bool) (skipPaths : List String) (found : Bool) :
    (∃ entry, noCache = false ∧ s.symlinksState (symlinksKey rootPath version skipPaths) = some entry ∧
      s.checkOutOfBoundsSymlinks rootPath version noCache skipPaths found = (s, entry.clean)) ∨
    s.checkOutOfBoundsSymlinks rootPath version noCache skipPaths found =
      (s.record (symlinksKey rootPath version skipPaths) rootPath found, found) := by
  unfold checkOutOfBoundsSymlinks
  cases noCache with
  | true => exact .inr rfl
  | false =>
    cases he : s.symlinksState (symlinksKey rootPath version skipPaths) with
    | none =>
      refine .inr ?_
      simp only [he]
      rfl
    | some entry =>
      refine .inl ⟨entry, rfl, rfl, ?_⟩
      simp only [he]
      rfl

/-- the checkout that `init` makes -/
def checkout (path : String) (commit : Option String) : Server R :=
  { s with tree := Function.update s.tree path commit }

def step (a : Step R) (s : Server R) : Server R :=
  match a with
  | .call r => match s.next program r with
    | some (.lock c) => { s with lock := s.lock.step (.call (r, s.position r) c) }
    | _ => s
  | .enter r => { s with lock := s.lock.step (.enter (r, s.position r)) }
  | .initReturns r result => match s.lock.call (r, s.position r) with
    | .initializing c _ =>
      let s' := { s with lock := s.lock.step (.initReturns (r, s.position r) result) }
      match result with
      | .ok => s'.checkout c.path (some c.revision)
      | .failed _ => (s'.checkout c.path none).finish r
    | _ => s
  | .proceed r => match s.next program r, s.lock.call (r, s.position r) with
    | some (.lock _), .holding _ _ => s.advance r
    | _, _ => s
  | .scan r found => match s.next program r with
    | some (.scan rootPath version noCache skipPaths) =>
      let (s', ok) := s.checkOutOfBoundsSymlinks rootPath version noCache skipPaths found
      if ok then s'.advance r else s'.finish r
    | _ => s
  | .generate r => match s.next program r with
    | some .generate => (s.advance r).finish r
    | _ => s
  | .stop r => match s.lock.call (r, s.position r) with
    | .idle => s.finish r
    | _ => s
  | .close r i => if s.ended r then { s with lock := s.lock.step (.close (r, i)) } else s
  | .broadcast r i => { s with lock := s.lock.step (.broadcast (r, i)) }
  | .expire key => { s with symlinksState := Function.update s.symlinksState key none }

/-! ## The invariant -/

/-- a call that is being made or holds -/
def LockCallOf : CallState → LockCall → Prop
  | .locking c, c' | .initializing c _, c' | .waiting c, c' | .holding c _, c' => c = c'
  | .idle, _ | .notifying _, _ => False

structure Inv (s : Server R) : Prop where
  lock : s.lock.Inv
  placed : ∀ r i c, LockCallOf (s.lock.call (r, i)) c → i ≤ s.position r ∧ (program r)[i]? = some (.lock c)
  pending : ∀ r i c, (s.lock.call (r, i)).wants = some c → i = s.position r ∧ s.ended r = false
  /-- the locks of the actions that are done are held -/
  held : ∀ r i c, s.ended r = false → i < s.position r → (program r)[i]? = some (.lock c) →
    ∃ n, s.lock.call (r, i) = .holding c n
  /-- a held checkout is at its revision -/
  tree : ∀ t c n, s.lock.call t = .holding c n → s.tree c.path = some c.revision

omit [DecidableEq R] in
theorem inv_initial : (initial R).Inv program where
  lock := LockState.inv_initial
  placed r i c h := h.elim
  pending r i c h := by cases h
  held r i c _ h := absurd h (Nat.not_lt_zero i)
  tree t c n h := by cases h

omit [DecidableEq R] in
/-- a step of the lock that only moves calls that may move -/
theorem Inv.setLock {program : R → List Action} {s : Server R} (h : s.Inv program) {l : LockState (R × ℕ)} (hin : l.Inv)
    (hp : ∀ r i c, LockCallOf (l.call (r, i)) c → LockCallOf (s.lock.call (r, i)) c ∨
      (i = s.position r ∧ s.next program r = some (.lock c)))
    (hw : ∀ r i c, (l.call (r, i)).wants = some c → (s.lock.call (r, i)).wants = some c ∨
      (i = s.position r ∧ s.next program r = some (.lock c)))
    (hh : ∀ r i c n, s.lock.call (r, i) = .holding c n → l.call (r, i) = .holding c n ∨ s.ended r = true)
    (htr : ∀ t c n, l.call t = .holding c n → s.lock.call t = .holding c n ∨ s.tree c.path = some c.revision) :
    ({ s with lock := l } : Server R).Inv program := by
  refine ⟨hin, fun r i c hc => ?_, fun r i c hc => ?_, fun r i c he hi hc => ?_, fun t c n ht => ?_⟩
  · rcases hp r i c hc with ho | ⟨rfl, hne⟩
    · exact h.placed r i c ho
    · exact ⟨le_rfl, (next_eq_some hne).2⟩
  · rcases hw r i c hc with ho | ⟨rfl, hne⟩
    · exact h.pending r i c ho
    · exact ⟨rfl, (next_eq_some hne).1⟩
  · obtain ⟨n, hn⟩ := h.held r i c he hi hc
    rcases hh r i c n hn with hn | htru
    · exact ⟨n, hn⟩
    · exact absurd (he.symm.trans htru) (by decide)
  · rcases htr t c n ht with ht | ht
    · exact h.tree t c n ht
    · exact ht

/-! ## Steps -/

section

variable {program} {s : Server R}

variable {x : CallState} {r : R}

omit [DecidableEq R] in
theorem LockCallOf.of_wants {c : LockCall} (h : x.wants = some c) : LockCallOf x c := by
  cases x with
  | idle => cases h
  | holding c' n => cases h
  | notifying path => cases h
  | _ => exact Option.some.inj h

omit [DecidableEq R] in
theorem LockCallOf.of_wake {path : String} {c : LockCall} (h : LockCallOf (LockState.wake path x) c) :
    LockCallOf x c := by
  cases x with
  | waiting c' =>
    dsimp only [LockState.wake] at h
    split_ifs at h <;> exact h
  | _ => exact h

variable (h : s.Inv program)

include h

theorem Inv.moveCall {l : LockState (R × ℕ)} (hi : l.Inv) {i : ℕ}
    (hca : l.call = update s.lock.call (r, i) x) (hp : ∀ c, LockCallOf x c → LockCallOf (s.lock.call (r, i)) c ∨
      (i = s.position r ∧ s.next program r = some (.lock c)))
    (hw : ∀ c, x.wants = some c → (s.lock.call (r, i)).wants = some c ∨
      (i = s.position r ∧ s.next program r = some (.lock c)))
    (hh : ∀ c n, s.lock.call (r, i) = .holding c n → x = .holding c n ∨ s.ended r = true)
    (ht : ∀ c n, x = .holding c n → s.lock.call (r, i) = .holding c n ∨ s.tree c.path = some c.revision) :
    ({ s with lock := l } : Server R).Inv program := by
  refine h.setLock hi (fun r' i' c hc => ?_) (fun r' i' c hc => ?_) (fun r' i' c n hn => ?_) (fun t c n hn => ?_)
  · rw [hca, update_apply] at hc
    split_ifs at hc with heq
    · cases heq
      exact hp c hc
    · exact .inl hc
  · rw [hca, update_apply] at hc
    split_ifs at hc with heq
    · cases heq
      exact hw c hc
    · exact .inl hc
  · rw [hca, update_apply]
    split_ifs with heq
    · cases heq
      exact hh c n hn
    · exact .inl hn
  · rw [hca, update_apply] at hn
    split_ifs at hn with heq
    · subst heq
      exact ht c n hn
    · exact .inl hn

/-- a turn of the loop of `Lock` -/
theorem Inv.turn {l : LockState (R × ℕ)} (hi : l.Inv) {i : ℕ} {c : LockCall}
    (hc : s.lock.call (r, i) = .locking c) (hca : l.call = update s.lock.call (r, i) x)
    (hx : LockCallOf x = LockCallOf (.locking c)) (ht : ∀ c' n, x = .holding c' n → s.tree c'.path = some c'.revision) :
    ({ s with lock := l } : Server R).Inv program := by
  refine h.moveCall hi hca (fun c' hc' => .inl ?_) (fun c' hc' => .inl ?_) (fun c' n hn => ?_)
    fun c' n hn => .inr (ht c' n hn)
  · rw [hc, ← hx]
    exact hc'
  · obtain rfl : c = c' := (congrFun hx c').mp (.of_wants hc')
    rw [hc]
    rfl
  · rw [hc] at hn
    cases hn

theorem Inv.lockStep (a : LockStep (R × ℕ)) (ha : LockState.NonEmpty a)
    (hl : ∀ l : LockState (R × ℕ), l.Inv → s.lock.Section a l → ({ s with lock := l } : Server R).Inv program) :
    ({ s with lock := s.lock.step a } : Server R).Inv program :=
  hl _ (LockState.inv_step h.lock a ha) (LockState.step_section a s.lock)

theorem inv_call (hp : ∀ r c, Action.lock c ∈ program r → c.revision ≠ "") (r : R) :
    (step program (.call r) s).Inv program := by
  dsimp only [step]
  split
  · next c hne =>
    refine h.lockStep _ (hp r c (List.mem_of_getElem? (next_eq_some hne).2)) fun l hl hs => ?_
    cases hs with
    | skip => exact h
    | call hi =>
      refine h.moveCall (x := .locking c) hl rfl (fun c' hc' => .inr ⟨rfl, ?_⟩) (fun c' hc' => .inr ⟨rfl, ?_⟩)
        (fun c' n hn => ?_) nofun
      · cases hc'
        exact hne
      · cases hc'
        exact hne
      · rw [hi] at hn
        cases hn
  · exact h

theorem inv_enter (r : R) : (step program (.enter r) s).Inv program := by
  refine h.lockStep (.enter (r, s.position r)) trivial fun l hl hs => ?_
  cases hs with
  | skip => exact h
  | start hc => exact h.turn (x := .initializing ..) hl hc rfl rfl nofun
  | wait hc => exact h.turn (x := .waiting _) hl hc rfl rfl nofun
  | @join _ c hc hf hr =>
    -- the call joins others that hold the same checkout
    refine h.turn (x := .holding ..) hl hc rfl rfl fun c' n hn => ?_
    cases hn
    obtain ⟨t₀, c₀, n₀, ho, hp, -⟩ := h.lock.exists_holder hf
    have hre := ((h.lock.paths c.path).holding t₀ c₀ n₀ ho hp).revision
    rw [← hp, h.tree t₀ c₀ n₀ ho, ← hre, hr.1]

omit [DecidableEq R] in
/-- a path that nobody holds is checked out -/
theorem Inv.checkout {path : String} (commit : Option String)
    (hf : ∀ t c n, s.lock.call t = .holding c n → c.path ≠ path) : (s.checkout path commit).Inv program := by
  refine ⟨h.lock, h.placed, h.pending, h.held, fun t c n ht => ?_⟩
  exact (update_of_ne (hf t c n ht) ..).trans (h.tree t c n ht)

omit h in
theorem ended_finish {r' : R} (h : (s.finish r).ended r' = false) : r' ≠ r ∧ s.ended r' = false := by
  rw [show (s.finish r).ended r' = if r' = r then true else s.ended r' from update_apply ..] at h
  split_ifs at h with heq
  exact ⟨heq, h⟩

omit h in
theorem position_advance (r' : R) : (s.advance r).position r' = if r' = r then s.position r + 1 else s.position r' :=
  update_apply ..

/-- a request ends that is not in `Lock` -/
theorem Inv.finish (hn : ∀ c, (s.lock.call (r, s.position r)).wants ≠ some c) : (s.finish r).Inv program := by
  refine ⟨h.lock, h.placed, fun r' i c hc => ?_, fun r' i c hr' => h.held r' i c (ended_finish hr').2, h.tree⟩
  obtain ⟨rfl, hru⟩ := h.pending r' i c hc
  refine ⟨rfl, (update_of_ne ?_ ..).trans hru⟩
  rintro rfl
  exact hn c hc

/-- an action is done; the lock is held if it was one -/
theorem Inv.advance (hn : ∀ c, (s.lock.call (r, s.position r)).wants ≠ some c)
    (hh : ∀ c, (program r)[s.position r]? = some (.lock c) → ∃ n, s.lock.call (r, s.position r) = .holding c n) :
    (s.advance r).Inv program := by
  refine ⟨h.lock, fun r' i c hc => ?_, fun r' i c hc => ?_, fun r' i c he hi hc => ?_, h.tree⟩
  · obtain ⟨hi, hl⟩ := h.placed r' i c hc
    rw [position_advance]
    split_ifs with heq
    · subst heq
      exact ⟨Nat.le_succ_of_le hi, hl⟩
    · exact ⟨hi, hl⟩
  · obtain ⟨rfl, hr⟩ := h.pending r' i c hc
    refine ⟨?_, hr⟩
    rw [position_advance, if_neg]
    rintro rfl
    exact hn c hc
  · rw [position_advance] at hi
    split_ifs at hi with heq
    · subst heq
      rcases Nat.lt_succ_iff_lt_or_eq.mp hi with hi | rfl
      · exact h.held r' i c he hi hc
      · exact hh c hc
    · exact h.held r' i c he hi hc

theorem inv_initReturns (r : R) (result : InitResult) : (step program (.initReturns r result) s).Inv program := by
  dsimp only [step]
  split
  · next c clean hc =>
    have hst : s.lock.step (.initReturns (r, s.position r) result) = s.lock.initReturns (r, s.position r) c result := by
      dsimp only [LockState.step]
      rw [hc]
    have hi := LockState.inv_step h.lock (.initReturns (r, s.position r) result) trivial
    rw [hst] at hi ⊢
    have hf : ∀ t c' n, s.lock.call t = .holding c' n → c'.path ≠ c.path := fun t c' n ht => h.lock.alone hc ht
    have hh : ∀ c' n, s.lock.call (r, s.position r) ≠ .holding c' n := by
      rw [hc]
      nofun
    cases result with
    | ok =>
      refine (h.checkout (some c.revision) hf).moveCall (x := .holding ..) hi rfl (fun c' hc' => .inl ?_) nofun
        (fun c' n hn => absurd hn (hh c' n)) fun c' n hn => .inr ?_
      · exact hc ▸ hc'
      · cases hn
        exact update_self ..
    | failed closer =>
      refine ((h.checkout none hf).moveCall (x := .idle) hi rfl nofun nofun
        (fun c' n hn => absurd hn (hh c' n)) nofun).finish fun c' hc' => ?_
      change (update s.lock.call (r, s.position r) .idle (r, s.position r)).wants = some c' at hc'
      rw [update_self] at hc'
      cases hc'
  · exact h

theorem inv_proceed (r : R) : (step program (.proceed r) s).Inv program := by
  dsimp only [step]
  split
  · next c c' n hne hn =>
    have hc : (program r)[s.position r]? = some (.lock c') := (h.placed r (s.position r) c' (by rw [hn]; rfl)).2
    refine h.advance (fun c'' => by rw [hn]; nofun) fun c'' hc'' => ?_
    rw [hc] at hc''
    cases hc''
    exact ⟨n, hn⟩
  · exact h

omit [DecidableEq R] in
/-- a request whose next action is not a lock is not in `Lock` -/
theorem Inv.not_wants {a : Action} (hn : s.next program r = some a)
    (ha : ∀ c, a ≠ .lock c) : (∀ c, (s.lock.call (r, s.position r)).wants ≠ some c) ∧
      ∀ c, (program r)[s.position r]? ≠ some (.lock c) := by
  have hl : ∀ c, (program r)[s.position r]? ≠ some (.lock c) := by
    intro c hc
    rw [(next_eq_some hn).2] at hc
    exact ha c (Option.some.inj hc)
  exact ⟨fun c hc => hl c (h.placed r _ c (.of_wants hc)).2, hl⟩

theorem inv_scan (r : R) (found : Bool) : (step program (.scan r found) s).Inv program := by
  dsimp only [step]
  split
  · next rootPath version noCache skipPaths hne =>
    obtain ⟨hn, hlo⟩ := h.not_wants hne nofun
    have hd : ∀ s' : Server R, s'.lock = s.lock → s'.position = s.position → s'.ended = s.ended →
        s'.tree = s.tree → ∀ ok : Bool, (if ok then s'.advance r else s'.finish r).Inv program := by
      intro s' hl hp he ht ok
      have hs' : s'.Inv program := by
        refine ⟨hl ▸ h.lock, ?_, ?_, ?_, ?_⟩
        · rw [hl, hp]
          exact h.placed
        · rw [hl, hp, he]
          exact h.pending
        · rw [hl, hp, he]
          exact h.held
        · rw [hl, ht]
          exact h.tree
      rw [← hl, ← hp] at hn
      rw [← hp] at hlo
      cases ok with
      | true => exact hs'.advance hn fun c hc => absurd hc (hlo c)
      | false => exact hs'.finish hn
    rcases s.check_cases rootPath version noCache skipPaths found with ⟨entry, -, -, hch⟩ | hch
    · rw [hch]
      exact hd s rfl rfl rfl rfl _
    · rw [hch]
      exact hd (s.record _ _ _) rfl rfl rfl rfl _
  · exact h

theorem inv_generate (r : R) : (step program (.generate r) s).Inv program := by
  dsimp only [step]
  split
  · next hn =>
    obtain ⟨hno, hl⟩ := h.not_wants hn nofun
    refine (h.advance hno fun c hc => absurd hc (hl c)).finish fun c hc => ?_
    -- no call is made yet at the next place
    obtain ⟨hp, -⟩ := h.pending r _ c hc
    rw [position_advance, if_pos rfl] at hp
    omega
  · exact h

theorem inv_stop (r : R) : (step program (.stop r) s).Inv program := by
  dsimp only [step]
  split
  · next hi => exact h.finish fun c => by rw [hi]; nofun
  · exact h

theorem inv_close (r : R) (i : ℕ) : (step program (.close r i) s).Inv program := by
  dsimp only [step]
  split_ifs with he
  · refine h.lockStep (.close (r, i)) trivial fun l hl hs => ?_
    cases hs with
    | skip => exact h
    | closeLast =>
      exact h.moveCall hl (LockState.moves_closeInit _).call nofun nofun (fun _ _ _ => .inr he) nofun
    | closeMore => exact h.moveCall (x := .idle) hl rfl nofun nofun (fun _ _ _ => .inr he) nofun
  · exact h

theorem inv_broadcast (r : R) (i : ℕ) : (step program (.broadcast r i) s).Inv program := by
  refine h.lockStep (.broadcast (r, i)) trivial fun l hl hs => ?_
  cases hs with
  | skip => exact h
  | @broadcast _ path hp =>
    have hh := LockState.holding_broadcast hp
    refine h.setLock hl (fun r' i' c hc => .inl ?_) (fun r' i' c hc => .inl ?_)
      (fun r' i' c n hn => .inl ((hh _ c n).mpr hn)) fun t c n hn => .inl ((hh t c n).mp hn)
    · rw [LockState.broadcast, LockState.call_setCall] at hc
      split_ifs at hc
      · exact hc.elim
      · exact hc.of_wake
    · rw [LockState.broadcast, LockState.call_setCall] at hc
      split_ifs at hc
      · cases hc
      · rwa [(LockState.wake_spec path _).2.2] at hc

theorem inv_step (hp : ∀ r c, Action.lock c ∈ program r → c.revision ≠ "") (a : Step R) :
    (step program a s).Inv program := by
  cases a with
  | call r => exact inv_call h hp r
  | enter r => exact inv_enter h r
  | initReturns r result => exact inv_initReturns h r result
  | proceed r => exact inv_proceed h r
  | scan r found => exact inv_scan h r found
  | generate r => exact inv_generate h r
  | stop r => exact inv_stop h r
  | close r i => exact inv_close h r i
  | broadcast r i => exact inv_broadcast h r i
  | expire key => exact ⟨h.lock, h.placed, h.pending, h.held, h.tree⟩

end

end Server

end GitOpsDeploy.RepoServer

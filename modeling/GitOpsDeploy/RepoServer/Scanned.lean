/-
Manifests are generated from scanned trees only.

The memo of scans is keyed by a root and a version that the caller passes. It answers for the tree that is checked out now if
all scans with the key are of one commit.
- `OneRevision`: this condition, on the programs of the requests alone.
- `Memoised`: each entry of the memo is of the tree that was checked out when it was made, at the revision that was locked
  just before; and the requests have passed scans of trees that were found clean.
- `generated_from_scanned`: in any run of requests with `OneRevision`. `generated_from_scanned_values` are two requests of
  which the second is answered by the memo.
- `generated_unscanned`: the repository of value files is scanned under the version of the chart, which stays the same while
  the repository moves on.
-/
import GitOpsDeploy.RepoServer.Server

namespace GitOpsDeploy.RepoServer.Server

open Function

variable {R : Type} [DecidableEq R]

/-! ## The property -/

/-- every checkout of a request that generates manifests now is at its commit, and that commit was scanned without a
finding -/
def Scanned (program : R → List Action) (s : Server R) : Prop :=
  ∀ r, s.next program r = some .generate → ∀ i c, i < s.position r → (program r)[i]? = some (.lock c) →
    s.tree c.path = some c.revision ∧ (c.path, some c.revision) ∈ s.clean

/-- Scans with the key of a memoised scan of a locked repository are scans of the same repository, locked at the same
revision. -/
def OneRevision (program : R → List Action) : Prop :=
  ∀ r i c version skipPaths, (program r)[i]? = some (.lock c) →
    (program r)[i + 1]? = some (.scan c.path version false skipPaths) →
    ∀ r' j rootPath version' noCache skipPaths', (program r')[j]? = some (.scan rootPath version' noCache skipPaths') →
      symlinksKey rootPath version' skipPaths' = symlinksKey c.path version skipPaths →
      rootPath = c.path ∧ ∃ k c', j = k + 1 ∧ (program r')[k]? = some (.lock c') ∧ c'.revision = c.revision

/-! ## The invariant -/

/-- the entry was made by a scan with the key, of the tree that was locked just before -/
def MadeBy (program : R → List Action) (key : String) (entry : Checked) : Prop :=
  ∃ r j version noCache skipPaths, (program r)[j]? = some (.scan entry.rootPath version noCache skipPaths) ∧
    key = symlinksKey entry.rootPath version skipPaths ∧
    ∀ k c, j = k + 1 → (program r)[k]? = some (.lock c) → entry.tree = some c.revision

structure Memoised (program : R → List Action) (s : Server R) : Prop where
  memo : ∀ key entry, s.symlinksState key = some entry →
    MadeBy program key entry ∧ (entry.clean = true → (entry.rootPath, entry.tree) ∈ s.clean)
  done : ∀ r i c, s.ended r = false → i + 1 < s.position r → (program r)[i]? = some (.lock c) →
    (c.path, some c.revision) ∈ s.clean

variable {program : R → List Action} {s : Server R}

omit [DecidableEq R] in
theorem memoised_initial : (initial R).Memoised program := ⟨nofun, fun _ _ _ _ h => absurd h (Nat.not_lt_zero _)⟩

omit [DecidableEq R] in
/-- a new entry is of the tree that was just scanned -/
theorem Memoised.record (h : s.Memoised program) (key rootPath : String) (found : Bool)
    (hmade : MadeBy program key ⟨rootPath, s.tree rootPath, found⟩) :
      (s.record key rootPath found).Memoised program := by
  have hm : ∀ x ∈ s.clean, x ∈ (s.record key rootPath found).clean := by
    intro x hx
    cases found with
    | true => exact List.mem_cons_of_mem _ hx
    | false => exact hx
  refine ⟨fun key' entry he => ?_, fun r i c hen hi hc => hm _ (h.done r i c hen hi hc)⟩
  rw [show (s.record key rootPath found).symlinksState key' =
    if key' = key then some ⟨rootPath, s.tree rootPath, found⟩ else s.symlinksState key' from update_apply ..] at he
  split_ifs at he with hk
  · cases he
    refine ⟨hk ▸ hmade, fun hcl => ?_⟩
    obtain rfl : found = true := hcl
    exact List.mem_cons_self
  · exact (h.memo key' entry he).imp_right fun hcl hok => hm _ (hcl hok)

theorem Memoised.finish (h : s.Memoised program) (r : R) : (s.finish r).Memoised program := by
  exact ⟨h.memo, fun r' i c he hi hc => h.done r' i c (ended_finish he).2 hi hc⟩

/-- past a scan, with the tree among those that are clean -/
theorem Memoised.advance (h : s.Memoised program) {r : R} (hcl : ∀ i c, i + 1 = s.position r →
    (program r)[i]? = some (.lock c) → (c.path, some c.revision) ∈ s.clean) : (s.advance r).Memoised program := by
  refine ⟨h.memo, fun r' i c he hi hc => ?_⟩
  rw [position_advance] at hi
  split_ifs at hi with heq
  · subst heq
    rcases Nat.lt_succ_iff_lt_or_eq.mp hi with hi | hi
    · exact h.done r' i c he hi hc
    · exact hcl i c hi hc
  · exact h.done r' i c he hi hc

section

-- a locked path is scanned next
variable (hscan : ∀ r i c, (program r)[i]? = some (.lock c) → ∃ version noCache skipPaths,
  (program r)[i + 1]? = some (.scan c.path version noCache skipPaths))
include hscan

variable (h : s.Memoised program)

include h

omit [DecidableEq R] in
/-- steps that are not scans: no request comes past a scan -/
theorem Memoised.frame {s' : Server R}
    (hm : ∀ key entry, s'.symlinksState key = some entry → s.symlinksState key = some entry) (hcl : s'.clean = s.clean)
    (hp : ∀ r, s'.ended r = false → s.ended r = false ∧ (s'.position r = s.position r ∨
      (s'.position r = s.position r + 1 ∧ ∃ c, (program r)[s.position r]? = some (.lock c)))) : s'.Memoised program := by
  refine ⟨fun key entry hen => ?_, fun r i c he hi hc => ?_⟩
  · rw [hcl]
    exact h.memo key entry (hm key entry hen)
  · rw [hcl]
    obtain ⟨he, hs | ⟨hn, c', hc'⟩⟩ := hp r he
    · exact h.done r i c he (hs ▸ hi) hc
    · by_cases hl : i + 1 = s.position r
      · obtain ⟨version, noCache, skipPaths, ha⟩ := hscan r i c hc
        rw [hl, hc'] at ha
        cases ha
      · exact h.done r i c he (by omega) hc

/-- the tree was scanned, now or when the entry of the memo was made -/
theorem memoised_scan (hkeys : OneRevision program) (hin : s.Inv program) (r : R) (found : Bool) :
    (step program (.scan r found) s).Memoised program := by
  dsimp only [step]
  split
  · next rootPath version noCache skipPaths hne =>
    obtain ⟨hru, hg⟩ := next_eq_some hne
    -- the path was locked just before
    have hpat : ∀ i c, i + 1 = s.position r → (program r)[i]? = some (.lock c) →
        c.path = rootPath ∧ s.tree rootPath = some c.revision := by
      intro i c hi hc
      obtain ⟨version', noCache', skipPaths', ha⟩ := hscan r i c hc
      rw [hi, hg] at ha
      cases ha
      obtain ⟨n, hn⟩ := hin.held r i c hru (by omega) hc
      exact ⟨rfl, hin.tree _ c n hn⟩
    rcases s.check_cases rootPath version noCache skipPaths found with ⟨entry, rfl, hen, hch⟩ | hch
    · rw [hch]
      cases hok : entry.clean with
      | true =>
        -- the entry was made by a scan with the same key, after a lock of the same revision
        refine h.advance fun i c hi hc => ?_
        obtain ⟨hpath, -⟩ := hpat i c hi hc
        obtain ⟨⟨r', j, version', noCache', skipPaths', hj, hkey, hmade⟩, hcl⟩ := h.memo _ entry hen
        rw [← hi, ← hpath] at hg
        rw [← hpath] at hkey
        obtain ⟨hroot, k, c', hjk, hk, hrev⟩ := hkeys r i c version skipPaths hc hg r' j _ _ _ _ hj hkey.symm
        have hclean := hcl hok
        rwa [hroot, hmade k c' hjk hk, hrev] at hclean
      | false => exact h.finish r
    · rw [hch]
      have hr : (s.record (symlinksKey rootPath version skipPaths) rootPath found).Memoised program := by
        refine h.record _ _ found ⟨r, s.position r, version, noCache, skipPaths, hg, rfl, fun k c hk hc => ?_⟩
        exact (hpat k c hk.symm hc).2
      cases found with
      | true =>
        refine hr.advance fun i c hi hc => ?_
        obtain ⟨rfl, ht⟩ := hpat i c hi hc
        exact ht ▸ List.mem_cons_self
      | false => exact hr.finish r
  · exact h

theorem memoised_step (hkeys : OneRevision program) (hi : s.Inv program) (a : Step R) :
    (step program a s).Memoised program := by
  have hl : ∀ {s' : Server R}, s'.symlinksState = s.symlinksState → s'.clean = s.clean → s'.ended = s.ended →
      s'.position = s.position → s'.Memoised program := by
    intro s' hm hc hen hp
    refine h.frame hscan (fun key entry he => hm ▸ he) hc fun r hr => ⟨hen ▸ hr, .inl (by rw [hp])⟩
  cases a with
  | call r =>
    dsimp only [step]
    split
    · exact hl rfl rfl rfl rfl
    · exact h
  | initReturns r result =>
    dsimp only [step]
    split
    · cases result with
      | ok => exact hl rfl rfl rfl rfl
      | failed closer =>
        dsimp only
        refine Memoised.finish ?_ r
        exact hl rfl rfl rfl rfl
    · exact h
  | proceed r =>
    dsimp only [step]
    split
    · next c c' n hne hn =>
      refine h.frame hscan (fun _ _ he => he) rfl fun r' hr' => ⟨hr', ?_⟩
      rw [position_advance]
      split_ifs with heq
      · subst heq
        exact .inr ⟨rfl, c, (next_eq_some hne).2⟩
      · exact .inl rfl
    · exact h
  | scan r found => exact memoised_scan hscan h hkeys hi r found
  | generate r =>
    dsimp only [step]
    split
    · refine h.frame hscan (fun _ _ he => he) rfl fun r' hr' => ?_
      obtain ⟨hne, hr'⟩ := ended_finish hr'
      exact ⟨hr', .inl (update_of_ne hne ..)⟩
    · exact h
  | stop r =>
    dsimp only [step]
    split
    · exact h.finish r
    · exact h
  | close r i =>
    dsimp only [step]
    split_ifs
    · exact hl rfl rfl rfl rfl
    · exact h
  | expire key =>
    refine h.frame hscan (fun key' entry he => ?_) rfl fun r hr => ⟨hr, .inl rfl⟩
    rw [show (step program (.expire key) s).symlinksState key' = if key' = key then none else s.symlinksState key' from
      update_apply ..] at he
    split_ifs at he
    exact he
  | _ => exact hl rfl rfl rfl rfl

omit [DecidableEq R] in
theorem Memoised.scanned (hin : s.Inv program) : s.Scanned program := by
  intro r hne i c hi hc
  obtain ⟨hr, hg⟩ := next_eq_some hne
  obtain ⟨n, hn⟩ := hin.held r i c hr hi hc
  refine ⟨hin.tree _ c n hn, h.done r i c hr (lt_of_le_of_ne hi fun hl => ?_) hc⟩
  -- the next action after a lock is a scan
  obtain ⟨version, noCache, skipPaths, ha⟩ := hscan r i c hc
  rw [hl, hg] at ha
  cases ha

end

/-! ## Runs -/

/-- **Manifests are generated from scanned trees.** On a server that does not allow symlinks out of bounds, with any requests
and any interleaving: whenever a request generates manifests, each repository that it has checked out, its own or a
referenced one, is at the commit of the request, and that commit of it was scanned without a finding; provided that
scans with the key of a memoised one follow locks of one repository at one revision. -/
theorem generated_from_scanned (g : GitSettings) (hallow : g.allowOutOfBoundsSymlinks = false) (e : R → Answers)
    (q : R → ManifestRequest) (hkeys : OneRevision fun r => RepoServer.program g (e r) (q r)) {s : Server R}
    (h : Trace.Reach (step fun r => RepoServer.program g (e r) (q r)) (fun _ _ => True) (initial R) s) : s.Scanned
      fun r => RepoServer.program g (e r) (q r) := by
  have hw := fun r => program_wellFormed g (e r) (q r)
  have hscan := fun r => (hw r).scan hallow
  obtain ⟨hi, hm⟩ := h.inv (fun s => s.Inv _ ∧ s.Memoised _) ⟨inv_initial _, memoised_initial⟩ fun s a hs _ =>
    ⟨inv_step hs.1 (fun r c => (hw r).revision c) a, memoised_step hscan hs.2 hkeys hs.1 a⟩
  exact hm.scanned hscan hi

/-! ## An example -/

def run (program : R → List Action) (steps : List (Step R)) : Server R :=
  steps.foldl (fun s a => step program a s) (initial R)

def exampleSettings : GitSettings where
  normalizeGitURL url := url
  root url := "/repos/" ++ url
  quote text := "\"" ++ text ++ "\""
  allowOutOfBoundsSymlinks := false

/-- a chart of a fixed version, with value files from a repository -/
def chartWithValues : ManifestRequest where
  repo := "charts"
  source := ⟨"charts", "", "1.0.0", some ⟨["$values/prod.yaml"], [], ""⟩, none, none, none, "app", "", ""⟩
  revision := "1.0.0"
  noCache := false
  hasMultipleSources := true
  refSources := [("$values", ⟨"values", "", "main", ""⟩)]

/-- the repository of value files is at the given commit -/
def valuesAt (commit : Commit) : Answers where
  lsRemote _ _ := .ok commit
  version := .ok "1.0.0"
  extracted := .ok "/charts/app"

/-- a request comes to the generation of manifests -/
def toGeneration (r : R) : List (Step R) :=
  [.scan r true, .call r, .enter r, .initReturns r .ok, .proceed r, .scan r true]

/-- two requests, one after the other -/
def oneByOne (r r' : R) : List (Step R) :=
  toGeneration r ++ [.generate r, .close r 1, .broadcast r 1] ++ toGeneration r'

/-- both requests find the value files at the commit c1 -/
theorem generated_from_scanned_values :
    let program := fun _ : Fin 2 => RepoServer.program exampleSettings (valuesAt ⟨"c1", by decide⟩) chartWithValues
    (run program (oneByOne 0 1)).next program 1 = some .generate ∧ (run program (oneByOne 0 1)).Scanned program := by
  intro program
  have hprogram : ∀ r, program r = [.scan "/charts/app" "1.0.0" false [], .lock ⟨"/repos/values", "c1", true⟩,
      .scan "/repos/values" "1.0.0" false [".git"], .generate] := fun _ => by decide +kernel
  have hkeys : OneRevision program := by
    intro r i c version skipPaths hlock hscan r' j rootPath version' noCache skipPaths' hother hkey
    rw [hprogram r] at hlock hscan
    rw [hprogram r'] at hother
    rcases i with _ | _ | _ | _ | i <;> cases hlock
    cases hscan
    rcases j with _ | _ | _ | _ | j <;> cases hother
    · exact absurd hkey (by decide +kernel)
    · exact ⟨rfl, 1, _, rfl, by rw [hprogram r']; rfl, rfl⟩
  refine ⟨by decide +kernel, generated_from_scanned exampleSettings rfl (fun _ => valuesAt ⟨"c1", by decide⟩)
    (fun _ => chartWithValues) hkeys ?_⟩
  exact Trace.Reach.foldl_state _ _ _ fun s a _ => .act a trivial

theorem c1_nonempty : "c1" ≠ "" := by decide

theorem c2_nonempty : "c2" ≠ "" := by decide

/-- the value files have moved on when the second request comes, the chart has not -/
def movedValues (r : Fin 2) : List Action :=
  RepoServer.program exampleSettings (valuesAt (if r.val = 0 then ⟨"c1", c1_nonempty⟩ else ⟨"c2", c2_nonempty⟩))
    chartWithValues

/-- **Manifests are generated from an unscanned tree.** The scan of the value files is answered by the memo of another
commit. -/
theorem generated_unscanned : ¬ (run movedValues (oneByOne 0 1)).Scanned movedValues := by
  intro h
  obtain ⟨-, hc⟩ := h 1 (by decide +kernel) 1 ⟨"/repos/values", "c2", true⟩ (by decide +kernel) (by decide +kernel)
  exact absurd hc (by decide +kernel)

end GitOpsDeploy.RepoServer.Server

/-
Repository errors of many applications (`repoErrorCache` of the `appStateManager`, used by `CompareAppState` in
`controller/state.go`).

The time an error was first seen is remembered by the name of the application, without its namespace.

- `endsEarly_eq`, `firstSeenAfter_eq`: what a call decides and remembers depends on `Call.seen`.
- `decisions_filter`: calls for other names change nothing for an application.
- `decisions_isolated`: applications are isolated in runs where no two of them share a name.
-/
import GitOpsDeploy.Compare.Unknown

namespace GitOpsDeploy.Compare

open OperationQueue

/-- a call for an application; the remembered error and the grace period in env are replaced by those of the manager -/
structure Call where
  ns : String
  name : String
  env : Env
  app : App
  req : Request

def Call.qualifiedName (c : Call) : String := if c.ns = "" then c.name else c.ns ++ "/" ++ c.name

abbrev RepoErrorCache := String → Option Time

variable (repoErrorGracePeriod : Duration) (cache : RepoErrorCache)

def Call.within (c : Call) : Env := { c.env with repoErrorGracePeriod, firstSeen := cache c.name }

/-- whether the call ends with the temporary repository error -/
def Call.endsEarly (c : Call) : Bool :=
  match compareAppState (c.within repoErrorGracePeriod cache) c.app c.req with
  | .repoErr => true
  | _ => false

def Call.cacheAfter (c : Call) : RepoErrorCache :=
  Function.update cache c.name (firstSeenAfter (c.within repoErrorGracePeriod cache) c.req)

/-- the decisions of a run, with the qualified names of the applications -/
def decisions : RepoErrorCache → List Call → List (String × Bool)
  | _, [] => []
  | cache, c :: calls => (c.qualifiedName, c.endsEarly repoErrorGracePeriod cache) ::
      decisions (c.cacheAfter repoErrorGracePeriod cache) calls

/-! ## What a decision depends on -/

/-- manifest generation, as far as it is tried: whether it succeeds -/
def Call.generation (c : Call) : Option Bool :=
  if c.env.settings = .ok () ∧ c.env.destCluster = .ok () ∧ c.req.localManifests = [] then
    some (match c.env.getRepoObjs (loadRevisions c.req) with
      | .ok _ => true
      | .error _ => false)
  else none

/-- a call as another run has to agree on it -/
structure Seen where
  qualifiedName : String
  name : String
  noRevisionCache : Bool
  generation : Option Bool
  now : Time

def Call.seen (c : Call) : Seen := ⟨c.qualifiedName, c.name, c.req.noRevisionCache, c.generation, c.env.now⟩

def Seen.endsEarly (s : Seen) : Bool :=
  s.generation = some false && !s.noRevisionCache &&
    match cache s.name with
    | some t => s.now - t ≤ repoErrorGracePeriod
    | none => true

def Seen.firstSeenAfter (s : Seen) : Option Time :=
  match s.generation with
  | none => cache s.name
  | some true => none
  | some false => if (cache s.name).isNone && !s.noRevisionCache then some s.now else cache s.name

theorem endsEarly_eq (c : Call) : c.endsEarly repoErrorGracePeriod cache = c.seen.endsEarly repoErrorGracePeriod cache := by
  unfold Call.endsEarly compareAppState Seen.endsEarly Call.seen Call.generation loadTargets ignoresRepoError Call.within
  cases c.env.settings <;> cases c.env.destCluster <;> by_cases hl : c.req.localManifests = [] <;> simp [hl]
  all_goals grind

theorem firstSeenAfter_eq (c : Call) :
    firstSeenAfter (c.within repoErrorGracePeriod cache) c.req = c.seen.firstSeenAfter cache := by
  unfold firstSeenAfter Seen.firstSeenAfter Call.seen Call.generation Call.within
  dsimp only
  grind

/-! ## Isolation -/

/-- the decisions from what is seen of the calls -/
def seenDecisions : RepoErrorCache → List Seen → List (String × Bool)
  | _, [] => []
  | cache, s :: calls => (s.qualifiedName, s.endsEarly repoErrorGracePeriod cache) ::
      seenDecisions (Function.update cache s.name (s.firstSeenAfter cache)) calls

/-- no other application has the name of the application -/
def Apart (q : String) (calls : List Call) : Prop :=
  ∀ c ∈ calls, ∀ d ∈ calls, d.qualifiedName = q → c.name = d.name → c.qualifiedName = q

/-- the calls for one application, as another run has to agree on them -/
def seenOf (q : String) (calls : List Call) : List Seen := (calls.filter (·.qualifiedName = q)).map Call.seen

/-- the decisions for an application are those of its own calls alone -/
theorem decisions_filter {q : String} {calls : List Call} (ha : Apart q calls) (cache' : RepoErrorCache)
    (hc : ∀ c ∈ calls, c.qualifiedName = q → cache c.name = cache' c.name) :
    (decisions repoErrorGracePeriod cache calls).filter (·.1 = q) =
      seenDecisions repoErrorGracePeriod cache' (seenOf q calls) := by
  induction calls generalizing cache cache' with
  | nil => rfl
  | cons c calls ih =>
    have ha' : Apart q calls := fun c hc d hd => ha c (.tail _ hc) d (.tail _ hd)
    by_cases hq : c.qualifiedName = q
    · have hn : cache c.name = cache' c.name := hc c List.mem_cons_self hq
      have he : c.seen.endsEarly repoErrorGracePeriod cache = c.seen.endsEarly repoErrorGracePeriod cache' := by
        simp [Seen.endsEarly, Call.seen, hn]
      have hf : c.seen.firstSeenAfter cache = c.seen.firstSeenAfter cache' := by
        simp [Seen.firstSeenAfter, Call.seen, hn]
      have hu : ∀ d ∈ calls, d.qualifiedName = q → c.cacheAfter repoErrorGracePeriod cache d.name =
          Function.update cache' c.name (c.seen.firstSeenAfter cache') d.name := by
        intro d hd hdq
        rw [Call.cacheAfter, firstSeenAfter_eq, hf]
        by_cases hdn : d.name = c.name
        · simp [hdn]
        · simpa [hdn] using hc d (.tail _ hd) hdq
      simp only [decisions, seenOf, List.filter_cons, hq, decide_true, ↓reduceIte, List.map_cons, seenDecisions]
      rw [ih _ ha' _ hu, endsEarly_eq, he]
      exact congrArg (List.cons · _) (Prod.ext hq.symm rfl)
    · -- its own entry is not one of the application's
      have hk : ∀ d ∈ calls, d.qualifiedName = q → d.name ≠ c.name := by
        intro d hd hdq hdn
        exact hq (ha c List.mem_cons_self d (.tail _ hd) hdq hdn.symm)
      have hu : ∀ d ∈ calls, d.qualifiedName = q → c.cacheAfter repoErrorGracePeriod cache d.name = cache' d.name := by
        intro d hd hdq
        rw [Call.cacheAfter, Function.update_of_ne (hk d hd hdq), hc d (.tail _ hd) hdq]
      simp only [decisions, seenOf, List.filter_cons, hq, decide_false, Bool.false_eq_true, ↓reduceIte]
      exact ih _ ha' _ hu

/-- **Isolated grace periods.** Two runs that agree on the calls for an application make the same decisions for it, if in
neither of them another application has its name. -/
theorem decisions_isolated {q : String} {calls calls' : List Call} (ha : Apart q calls) (ha' : Apart q calls')
    (h : seenOf q calls = seenOf q calls') :
    (decisions repoErrorGracePeriod cache calls).filter (·.1 = q) =
      (decisions repoErrorGracePeriod cache calls').filter (·.1 = q) := by
  rw [decisions_filter _ _ ha cache fun _ _ _ => rfl, decisions_filter _ _ ha' cache fun _ _ _ => rfl, h]

/-- a call whose manifests cannot be generated -/
def failingCall (ns name : String) (now : Time) : Call :=
  ⟨ns, name, { compareEnv (configMap "") [] .ok with now, getRepoObjs := fun _ => .error "timeout" }, plainApp,
    plainRequest⟩

theorem decisions_isolated_other_name :
    (decisions 180 (fun _ => none) [failingCall "b" "api" 0, failingCall "a" "web" 300]).filter (·.1 = "a/web") =
      (decisions 180 (fun _ => none) [failingCall "a" "web" 300]).filter (·.1 = "a/web") :=
  decisions_isolated 180 (fun _ => none) (by unfold Apart; decide) (by unfold Apart; decide) rfl

/-- an application of the same name in another namespace takes the grace period away -/
theorem same_name_interferes :
    seenOf "a/web" [failingCall "b" "web" 0, failingCall "a" "web" 300] = seenOf "a/web" [failingCall "a" "web" 300] ∧
      (decisions 180 (fun _ => none) [failingCall "b" "web" 0, failingCall "a" "web" 300]).filter (·.1 = "a/web") =
        [("a/web", false)] ∧
      (decisions 180 (fun _ => none) [failingCall "a" "web" 300]).filter (·.1 = "a/web") = [("a/web", true)] := by
  refine ⟨rfl, by decide +kernel, by decide +kernel⟩

end GitOpsDeploy.Compare

/-
Global projects (`GetGlobalProjects`, `GetAppVirtualProject`, `mergeVirtualProject` in `util/cd/cd.go`).

A project inherits the rules of the global projects whose selector matches it. The settings are processed in order; an entry
that cannot be processed ends the loop, and neither it nor the settings that cannot be read are reported. What happens
when an entry is processed stands beside it.
-/
import GitOpsDeploy.Project.Types
import GitOpsDeploy.Project.Patterns

namespace GitOpsDeploy.GlobalProjects

open List

open Project (ApplicationDestination isDenyPattern)

/-! ## Projects and settings -/

abbrev Labels := List (String × String)

/-- R are resource rules, W sync windows, A service accounts of destinations; they are only copied -/
structure Spec (R W A : Type) where
  clusterResourceWhitelist : List R
  clusterResourceBlacklist : List R
  namespaceResourceWhitelist : List R
  namespaceResourceBlacklist : List R
  syncWindows : List W
  sourceRepos : List String
  destinations : List ApplicationDestination
  destinationServiceAccounts : List A

structure AppProject (R W A : Type) where
  name : String
  labels : Labels
  spec : Spec R W A

/-- an entry of the settings, and the errors of the lister when it is processed -/
structure Entry (L : Type) where
  projectName : String
  labelSelector : L
  listError : Option String
  getError : Option String

/-- `settings` are the entries in the config map, `projects` those of the namespace of the project -/
structure Cluster (L R W A : Type) where
  settings : List (Entry L)
  /-- the error of reading the settings -/
  readError : Option String
  labelSelectorAsSelector : L → Except String (Labels → Bool)
  projects : List (AppProject R W A)

variable {L R W A : Type} (k : Cluster L R W A) (proj : AppProject R W A)

namespace Cluster

def list (e : Entry L) (selector : Labels → Bool) : Except String (List (AppProject R W A)) :=
  match e.listError with
  | some err => .error err
  | none => .ok (k.projects.filter fun p => selector p.labels)

def find (name : String) : Option (AppProject R W A) := k.projects.find? fun p => p.name = name

def get (e : Entry L) : Except String (AppProject R W A) :=
  match e.getError, k.find e.projectName with
  | some err, _ => .error err
  | none, none => .error ("appproject \"" ++ e.projectName ++ "\" not found")
  | none, some p => .ok p

/-- what one entry adds; none ends the loop -/
def globalProjectsOf (e : Entry L) : Option (List (AppProject R W A)) :=
  if proj.name = e.projectName then some []
  else
    match k.labelSelectorAsSelector e.labelSelector with
    | .error _ => none
    | .ok selector =>
      match k.list e selector with
      | .error _ => none
      | .ok projList =>
        if projList.any fun item => item.name = proj.name then
          match k.get e with
          | .error _ => none
          | .ok globalProj => some [globalProj]
        else some []

/-- the loop over the settings -/
def globalProjectsLoop : List (Entry L) → List (AppProject R W A)
  | [] => []
  | e :: es =>
    match k.globalProjectsOf proj e with
    | none => []
    | some added => added ++ globalProjectsLoop es

def getGlobalProjects : List (AppProject R W A) :=
  match k.readError with
  | some _ => []
  | none => k.globalProjectsLoop proj k.settings

end Cluster

def mergeVirtualProject (proj globalProj : AppProject R W A) : AppProject R W A :=
  { proj with
    spec :=
      { clusterResourceWhitelist := proj.spec.clusterResourceWhitelist ++ globalProj.spec.clusterResourceWhitelist
        clusterResourceBlacklist := proj.spec.clusterResourceBlacklist ++ globalProj.spec.clusterResourceBlacklist
        namespaceResourceWhitelist := proj.spec.namespaceResourceWhitelist ++ globalProj.spec.namespaceResourceWhitelist
        namespaceResourceBlacklist := proj.spec.namespaceResourceBlacklist ++ globalProj.spec.namespaceResourceBlacklist
        syncWindows := proj.spec.syncWindows ++ globalProj.spec.syncWindows
        sourceRepos := proj.spec.sourceRepos ++ globalProj.spec.sourceRepos
        destinations := proj.spec.destinations ++ globalProj.spec.destinations
        destinationServiceAccounts :=
          proj.spec.destinationServiceAccounts ++ globalProj.spec.destinationServiceAccounts } }

/-- no error is ever returned -/
def getAppVirtualProject : Except String (AppProject R W A) :=
  .ok ((k.getGlobalProjects proj).foldl mergeVirtualProject proj)

/-! ## Restrictions -/

/-- a rule with a negated server, name or namespace -/
def deniesDestination (d : ApplicationDestination) : Bool :=
  isDenyPattern d.server || isDenyPattern d.name || isDenyPattern d.ns

/-- a restriction that a project can have -/
inductive Restriction (R W : Type) where
  | clusterResource (r : R)
  | namespaceResource (r : R)
  | syncWindow (w : W)
  | source (repo : String)
  | destination (d : ApplicationDestination)

def Restricts (p : AppProject R W A) : Restriction R W → Prop
  | .clusterResource r => r ∈ p.spec.clusterResourceBlacklist
  | .namespaceResource r => r ∈ p.spec.namespaceResourceBlacklist
  | .syncWindow w => w ∈ p.spec.syncWindows
  | .source repo => repo ∈ p.spec.sourceRepos ∧ isDenyPattern repo
  | .destination d => d ∈ p.spec.destinations ∧ deniesDestination d

variable {q : AppProject R W A} {x : Restriction R W} {e : Entry L}

theorem restricts_merge {p : AppProject R W A} :
    Restricts (mergeVirtualProject p q) x ↔ Restricts p x ∨ Restricts q x := by
  cases x <;> simp [Restricts, mergeVirtualProject, or_and_right]

/-- a virtual project has the restrictions of all that was merged -/
theorem restricts_foldl {p : AppProject R W A} {globals : List (AppProject R W A)} :
    Restricts (globals.foldl mergeVirtualProject p) x ↔ Restricts p x ∨ ∃ q ∈ globals, Restricts q x := by
  induction globals generalizing p with
  | nil => simp
  | cons q globals ih => rw [foldl_cons, ih, restricts_merge, exists_mem_cons_iff, or_assoc]

/-! ## Entries -/

/-- the selector of the entry matches the project as the namespace has it -/
def Matches (e : Entry L) : Prop :=
  ∃ selector, k.labelSelectorAsSelector e.labelSelector = .ok selector ∧
    ∃ item ∈ k.projects, item.name = proj.name ∧ selector item.labels = true

/-- the global project of an entry; that of an entry for the project itself is the project -/
def globalOf (e : Entry L) : Option (AppProject R W A) :=
  if proj.name = e.projectName then some proj else k.find e.projectName

/-- the entry cannot be processed: its selector is wrong, its projects cannot be listed, or its project cannot be got -/
def Fails (e : Entry L) : Prop :=
  proj.name ≠ e.projectName ∧
    ((∃ err, k.labelSelectorAsSelector e.labelSelector = .error err) ∨ e.listError ≠ none ∨
      (Matches k proj e ∧ (e.getError ≠ none ∨ k.find e.projectName = none)))

/-- the entry comes after no entry that fails, and does not fail -/
def Reached (e : Entry L) : Prop :=
  k.readError = none ∧ ∃ pre post, k.settings = pre ++ e :: post ∧ ∀ e' ∈ pre ++ [e], ¬Fails k proj e'

/-- every configured global project that matches has its restrictions in the virtual project -/
def Inherits (virtual : AppProject R W A) : Prop :=
  ∀ e ∈ k.settings, Matches k proj e → ∀ q ∈ globalOf k proj e, ∀ x, Restricts q x → Restricts virtual x

variable {k proj}

theorem any_iff_matches {selector : Labels → Bool} (hs : k.labelSelectorAsSelector e.labelSelector = .ok selector) :
    ((k.projects.filter fun p => selector p.labels).any fun item => item.name = proj.name) = true ↔ Matches k proj e := by
  simp only [Matches, hs, Except.ok.injEq, exists_eq_left', any_eq_true, mem_filter, decide_eq_true_eq]
  constructor
  · rintro ⟨item, ⟨hi, hl⟩, hn⟩
    exact ⟨item, hi, hn, hl⟩
  · rintro ⟨item, hi, hn, hl⟩
    exact ⟨item, ⟨hi, hl⟩, hn⟩

/-- an entry ends the loop iff it fails -/
theorem globalProjectsOf_none : k.globalProjectsOf proj e = none ↔ Fails k proj e := by
  unfold Cluster.globalProjectsOf Fails
  by_cases hs : proj.name = e.projectName
  · simp [hs]
  cases hse : k.labelSelectorAsSelector e.labelSelector with
  | error err => simp [hs]
  | ok selector =>
    simp only [hs, if_false, Cluster.list, ne_eq, not_false_eq_true, true_and, reduceCtorEq, exists_false, false_or]
    cases hl : e.listError with
    | some err => simp
    | none =>
      dsimp only
      by_cases hm : Matches k proj e
      · rw [if_pos ((any_iff_matches hse).2 hm)]
        simp only [hm, Cluster.get, true_and, not_true_eq_false, false_or]
        cases e.getError with
        | some err => simp
        | none => cases k.find e.projectName <;> simp
      · rw [if_neg (mt (any_iff_matches hse).1 hm)]
        simp [hm]

/-- an entry that is processed adds its global project iff it matches -/
theorem mem_globalProjectsOf {added : List (AppProject R W A)} (ha : k.globalProjectsOf proj e = some added) :
    q ∈ added ↔ proj.name ≠ e.projectName ∧ Matches k proj e ∧ k.find e.projectName = some q := by
  unfold Cluster.globalProjectsOf at ha
  by_cases hs : proj.name = e.projectName
  · rw [if_pos hs] at ha
    cases ha
    simp [hs]
  rw [if_neg hs] at ha
  cases hse : k.labelSelectorAsSelector e.labelSelector with
  | error err => simp [hse] at ha
  | ok selector =>
    simp only [hse, Cluster.list] at ha
    cases hl : e.listError with
    | some err => simp [hl] at ha
    | none =>
      simp only [hl] at ha
      by_cases hm : Matches k proj e
      · rw [if_pos ((any_iff_matches hse).2 hm), Cluster.get] at ha
        cases hg : e.getError with
        | some err => simp [hg] at ha
        | none =>
          cases hf : k.find e.projectName with
          | none => simp [hg, hf] at ha
          | some p =>
            simp only [hg, hf, Option.some.injEq] at ha
            rw [← ha]
            simp [hs, hm, eq_comm]
      · rw [if_neg (mt (any_iff_matches hse).1 hm), Option.some.injEq] at ha
        rw [← ha]
        simp [hm]

/-- the first element of a list is where it is split, or before -/
theorem exists_split_cons {α : Type} {a : α} {l : List α} {P : List α → α → Prop} :
    (∃ pre x post, a :: l = pre ++ x :: post ∧ P pre x) ↔ P [] a ∨ ∃ pre x post, l = pre ++ x :: post ∧
      P (a :: pre) x := by
  constructor
  · rintro ⟨_ | ⟨b, pre⟩, x, post, h, hP⟩
    · cases h
      exact .inl hP
    · cases h
      exact .inr ⟨pre, x, post, rfl, hP⟩
  · rintro (hP | ⟨pre, x, post, rfl, hP⟩)
    · exact ⟨[], a, l, rfl, hP⟩
    · exact ⟨a :: pre, x, post, rfl, hP⟩

/-- the loop adds the global projects of the matching entries before the first that fails -/
theorem mem_globalProjectsLoop {es : List (Entry L)} :
    q ∈ k.globalProjectsLoop proj es ↔ ∃ pre e post, es = pre ++ e :: post ∧
      (∀ e' ∈ pre ++ [e], ¬Fails k proj e') ∧
      proj.name ≠ e.projectName ∧ Matches k proj e ∧ k.find e.projectName = some q := by
  induction es with
  | nil => simp [Cluster.globalProjectsLoop]
  | cons e es ih =>
    rw [Cluster.globalProjectsLoop, exists_split_cons]
    split
    · next ha => simp [globalProjectsOf_none.1 ha]
    · next ha =>
      have hok : ¬Fails k proj e := by
        rw [← globalProjectsOf_none, ha]
        simp
      rw [mem_append, mem_globalProjectsOf ha, ih]
      simp [hok]

theorem mem_getGlobalProjects :
    q ∈ k.getGlobalProjects proj ↔ ∃ e ∈ k.settings, Reached k proj e ∧ proj.name ≠ e.projectName ∧
      Matches k proj e ∧ k.find e.projectName = some q := by
  unfold Cluster.getGlobalProjects Reached
  cases hr : k.readError with
  | some err => simp
  | none =>
    rw [mem_globalProjectsLoop]
    constructor
    · rintro ⟨pre, e, post, hes, hp, h⟩
      exact ⟨e, by simp [hes], ⟨rfl, pre, post, hes, hp⟩, h⟩
    · rintro ⟨e, -, ⟨-, pre, post, hes, hp⟩, h⟩
      exact ⟨pre, e, post, hes, hp, h⟩

/-- what the virtual project restricts: what the project restricts itself, and what the reached entries restrict -/
theorem restricts_virtual {virtual : AppProject R W A} (h : getAppVirtualProject k proj = .ok virtual) :
    Restricts virtual x ↔ Restricts proj x ∨ ∃ e ∈ k.settings, Reached k proj e ∧ Matches k proj e ∧
      ∃ q ∈ globalOf k proj e, Restricts q x := by
  cases h
  rw [restricts_foldl]
  constructor
  · rintro (hp | ⟨q, hq, hx⟩)
    · exact .inl hp
    · obtain ⟨e, he, hr, hs, hm, hf⟩ := mem_getGlobalProjects.1 hq
      exact .inr ⟨e, he, hr, hm, q, by simp [globalOf, hs, hf], hx⟩
  · rintro (hp | ⟨e, he, hr, hm, q, hq, hx⟩)
    · exact .inl hp
    · unfold globalOf at hq
      split_ifs at hq with hs
      · cases hq
        exact .inl hx
      · exact .inr ⟨q, mem_getGlobalProjects.2 ⟨e, he, hr, hs, hm, hq⟩, hx⟩

/-! ## Inheritance -/

/-- **Global restrictions.** A virtual project has the restrictions of all matching global projects iff those of the entries
that were not reached are also restrictions of the project, or of a matching entry that was reached. -/
theorem global_restrictions_kept (virtual : AppProject R W A) (h : getAppVirtualProject k proj = .ok virtual) :
    Inherits k proj virtual ↔ ∀ e ∈ k.settings, ¬Reached k proj e → Matches k proj e →
      ∀ q ∈ globalOf k proj e, ∀ x,
      Restricts q x → Restricts proj x ∨ ∃ e' ∈ k.settings, Reached k proj e' ∧ Matches k proj e' ∧
        ∃ q' ∈ globalOf k proj e', Restricts q' x := by
  constructor
  · intro hi e he _ hm q hq x hx
    exact (restricts_virtual h).1 (hi e he hm q hq x hx)
  · intro ha e he hm q hq x hx
    apply (restricts_virtual h).2
    by_cases hr : Reached k proj e
    · exact .inr ⟨e, he, hr, hm, q, hq, hx⟩
    · exact ha e he hr hm q hq x hx

/-- a project that restricts the sources -/
def noForks (name : String) : AppProject Unit Unit Unit :=
  ⟨name, [], [], [], [], [], [], ["!https://forks.example.com/*"], [], []⟩

def plainProject (name : String) : AppProject Unit Unit Unit :=
  ⟨name, [], [], [], [], [], [], [], [], []⟩

/-- selectors are none when they cannot be parsed, and match everything otherwise -/
def guardedCluster (settings : List (Entry (Option Unit))) : Cluster (Option Unit) Unit Unit Unit where
  settings := settings
  readError := none
  labelSelectorAsSelector
    | none => .error "invalid selector"
    | some () => .ok fun _ => true
  projects := [plainProject "app", noForks "base"]

/-- an entry that fails, and the same global project before and after it -/
def namedTwice : Cluster (Option Unit) Unit Unit Unit :=
  guardedCluster [⟨"base", some (), none, none⟩, ⟨"base", none, none, none⟩, ⟨"base", some (), none, none⟩]

theorem global_restrictions_kept_twice :
    Fails namedTwice (plainProject "app") ⟨"base", none, none, none⟩ ∧
      Inherits namedTwice (plainProject "app")
        ((getAppVirtualProject namedTwice (plainProject "app")).toOption.getD (plainProject "")) := by
  refine ⟨⟨by decide, .inl ⟨_, rfl⟩⟩, (global_restrictions_kept _ rfl).2 fun e he _ _ q hq x hx => .inr ?_⟩
  have hbase : e.projectName = "base" := by
    simp only [namedTwice, guardedCluster, mem_cons, not_mem_nil, or_false] at he
    rcases he with rfl | rfl | rfl <;> rfl
  have hq' : q ∈ globalOf namedTwice (plainProject "app") ⟨"base", some (), none, none⟩ := by
    rw [globalOf, hbase] at hq
    exact hq
  refine ⟨⟨"base", some (), none, none⟩, by simp [namedTwice, guardedCluster], ⟨rfl, [], _, rfl, fun e' he' => ?_⟩,
    ⟨fun _ => true, rfl, plainProject "app", by simp [namedTwice, guardedCluster], rfl, rfl⟩, q, hq', hx⟩
  rw [mem_singleton.1 he']
  rintro ⟨-, ⟨err, herr⟩ | hl | ⟨-, hg | hf⟩⟩
  · cases herr
  · exact hl rfl
  · exact hg rfl
  · exact absurd hf (by decide)

/-- **Dropped.** The selector of the first entry is wrong; the second matches, and its rule is missing. No error is
returned. -/
theorem global_restrictions_dropped :
    ∃ virtual, getAppVirtualProject (guardedCluster [⟨"base", none, none, none⟩, ⟨"base", some (), none, none⟩])
        (plainProject "app") = .ok virtual ∧
      ¬Inherits (guardedCluster [⟨"base", none, none, none⟩, ⟨"base", some (), none, none⟩]) (plainProject "app")
        virtual := by
  refine ⟨_, rfl, fun hi => ?_⟩
  have hm : Matches (guardedCluster [⟨"base", none, none, none⟩, ⟨"base", some (), none, none⟩]) (plainProject "app")
      ⟨"base", some (), none, none⟩ :=
    ⟨fun _ => true, rfl, plainProject "app", by simp [guardedCluster], rfl, rfl⟩
  have hk := hi _ (by simp [guardedCluster]) hm (noForks "base") rfl
    (.source "!https://forks.example.com/*") ⟨by decide, by decide⟩
  exact absurd hk.1 (by decide)

end GitOpsDeploy.GlobalProjects

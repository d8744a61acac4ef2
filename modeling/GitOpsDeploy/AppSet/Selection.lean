/-
Which steps select an application.

The loops of `buildAppDependencyList` break out early and note invalid operators as they go; what they put where does
not depend on that. `selections` are the selections of applications by steps, in the order of the loops.
-/
import GitOpsDeploy.AppSet.Steps

namespace GitOpsDeploy.AppSet

open List

variable {Spec : Type}

variable (app : Application Spec) (steps : List RolloutStep) (appset : ApplicationSet) (desired : List (Application Spec))

variable (labels : List (String × String))

/-- the match expression does not exclude an application with these labels -/
def satisfies (m : ApplicationMatchExpression) : Bool :=
  match labels.lookup m.key with
  | some val => (labelMatchedExpression val m).1
  | none => m.operator ≠ "In"

def RolloutStep.Selects (step : RolloutStep) (app : Application Spec) : Prop :=
  ∀ m ∈ step.matchExpressions, satisfies app.labels m = true

instance (step : RolloutStep) (app : Application Spec) : Decidable (step.Selects app) :=
  inferInstanceAs (Decidable (∀ m ∈ step.matchExpressions, _))

/-- step j of the ApplicationSet selects an application of this name -/
def SelectedBy (j : ℕ) (name : String) : Prop :=
  ∃ step, (rolloutSteps appset)[j]? = some step ∧ ∃ app ∈ desired, app.name = name ∧ step.Selects app

/-- step i is the first one that selects an application of this name -/
def IsFirstStep (i : ℕ) (name : String) : Prop :=
  SelectedBy appset desired i name ∧ ∀ j < i, ¬SelectedBy appset desired j name

/-- step j selects the application -/
def SelectedAt (app : Application Spec) (j : ℕ) : Prop := ∃ step, steps[j]? = some step ∧ step.Selects app

/-! ## Match expressions -/

theorem labelMatchedExpression_invalid {val : String} {m : ApplicationMatchExpression}
    (h : (labelMatchedExpression val m).2 = true) : (labelMatchedExpression val m).1 = false := by
  unfold labelMatchedExpression at h ⊢
  by_cases hop : m.operator ≠ "In" ∧ m.operator ≠ "NotIn"
  · rw [if_pos hop]
  · rw [if_neg hop] at h
    split_ifs at h

theorem selects_fst (i : ℕ) (ms : List ApplicationMatchExpression)
    (issues : ValidationIssues) : (selects labels i ms issues).1 = ms.all (satisfies labels) := by
  induction ms generalizing issues with
  | nil => rfl
  | cons m later ih =>
    rw [all_cons]
    unfold selects
    cases hv : labels.lookup m.key with
    | none =>
      have hs : satisfies labels m = decide (m.operator ≠ "In") := by simp only [satisfies, hv]
      by_cases hop : m.operator = "In"
      · simp [hs, hop]
      · simp [hs, hop, ih]
    | some val =>
      have hs : satisfies labels m = (labelMatchedExpression val m).1 := by simp only [satisfies, hv]
      dsimp only
      split_ifs with hn hu
      · rw [hs, labelMatchedExpression_invalid (Bool.and_eq_true_iff.mp hn).1, Bool.false_and]
      · rw [hs, (Bool.not_eq_true' _).mp hu, Bool.false_and]
      · have hm : (labelMatchedExpression val m).1 = true := by simpa using hu
        rw [hs, hm, Bool.true_and, ih]

/-- the loop leaves the duplicates alone -/
theorem selects_snd (i : ℕ) (ms : List ApplicationMatchExpression) (issues : ValidationIssues) :
    (selects labels i ms issues).2.duplicateAppSelections = issues.duplicateAppSelections := by
  induction ms generalizing issues with
  | nil => rfl
  | cons m later ih =>
    unfold selects
    cases labels.lookup m.key with
    | none =>
      dsimp only
      split_ifs
      · rfl
      · exact ih issues
    | some val =>
      dsimp only
      split_ifs
      · rfl
      · rfl
      · exact ih issues

/-! ## The selections -/

def selectionsOf : List (String × ℕ) := (steps.zipIdx.filter fun s => s.1.Selects app).map fun s => (app.name, s.2)

/-- the selections in the order in which the loops make them -/
def selections : List (String × ℕ) := desired.flatMap fun app => selectionsOf app steps

/-- the steps in the selections of a name -/
def stepsOf (n : String) (sel : List (String × ℕ)) : List ℕ := (sel.filter fun s => s.1 = n).map Prod.snd

/-- the names in the selections by a step -/
def namesOf (j : ℕ) (sel : List (String × ℕ)) : List String := (sel.filter fun s => s.2 = j).map Prod.fst

variable {n : String} {i j : ℕ} {sel : List (String × ℕ)}

theorem mem_stepsOf : j ∈ stepsOf n sel ↔ (n, j) ∈ sel := by
  simp [stepsOf]

theorem mem_namesOf : n ∈ namesOf j sel ↔ (n, j) ∈ sel := by
  simp [namesOf]

theorem mem_selectionsOf {app : Application Spec} {steps : List RolloutStep} :
    (n, j) ∈ selectionsOf app steps ↔ app.name = n ∧ SelectedAt steps app j := by
  simp only [selectionsOf, SelectedAt, mem_map, mem_filter, Prod.exists, List.mem_zipIdx_iff_getElem?, decide_eq_true_eq,
    Prod.mk.injEq]
  constructor
  · rintro ⟨step, k, ⟨hg, hs⟩, rfl, rfl⟩
    exact ⟨rfl, step, hg, hs⟩
  · rintro ⟨rfl, step, hg, hs⟩
    exact ⟨step, j, ⟨hg, hs⟩, rfl, rfl⟩

theorem mem_selections : (n, j) ∈ selections (rolloutSteps appset) desired ↔ SelectedBy appset desired j n := by
  simp only [selections, mem_flatMap, mem_selectionsOf, SelectedAt, SelectedBy]
  constructor
  · rintro ⟨app, ha, hn, step, hg, hs⟩
    exact ⟨step, hg, app, ha, hn, hs⟩
  · rintro ⟨step, hg, app, ha, hn, hs⟩
    exact ⟨app, ha, hn, step, hg, hs⟩

/-- the lists of k steps, the map and the duplicates hold these selections and nothing else -/
structure Build.Records (b : Build) (k : ℕ) (sel : List (String × ℕ)) : Prop where
  lists : ∀ j, b.appDependencyList[j]? = if j < k then some (namesOf j sel) else none
  first : ∀ n, b.appStepMap.lookup n = (stepsOf n sel).head?
  duplicates : ∀ n, b.issues.duplicateAppSelections.lookup n =
    if 1 < (stepsOf n sel).length then some (stepsOf n sel) else none

variable {b : Build} {k : ℕ}

theorem Build.select_deps (b : Build) (name : String) (i : ℕ) :
    (b.select name i).appDependencyList = b.appDependencyList.modify i (· ++ [name]) := by
  unfold Build.select
  split <;> rfl

theorem stepsOf_concat (name : String) :
    stepsOf n (sel ++ [(name, i)]) = stepsOf n sel ++ if name = n then [i] else [] := by
  by_cases h : name = n <;> simp [stepsOf, h]

theorem Build.Records.select (h : b.Records k sel) (name : String) (i : ℕ) :
    (b.select name i).Records k (sel ++ [(name, i)]) := by
  refine ⟨fun j => ?_, fun n => ?_, fun n => ?_⟩
  · rw [Build.select_deps, List.getElem?_modify, h.lists j]
    by_cases hij : i = j <;> by_cases hk : j < k <;> simp [namesOf, hij, hk]
  · have hf := h.first name
    rw [stepsOf_concat]
    unfold Build.select
    by_cases hn : name = n
    · subst hn
      cases hs : stepsOf name sel with
      | nil => simp [hf, hs]
      | cons first later => simp [hf, hs]
    · cases hl : b.appStepMap.lookup name with
      | none => simp [hn, AList.lookup_insert_ne (Ne.symm hn), h.first n]
      | some first => simp [hn, h.first n]
  · have hf := h.first name
    have hd := h.duplicates name
    rw [stepsOf_concat]
    unfold Build.select
    by_cases hn : name = n
    · subst hn
      cases hs : stepsOf name sel with
      | nil => simp [hf, hd, hs]
      | cons first later => cases later <;> simp [hf, hd, hs]
    · cases hl : b.appStepMap.lookup name with
      | none => simp [hn, h.duplicates n]
      | some first => simp [hn, AList.lookup_insert_ne (Ne.symm hn), h.duplicates n]

theorem Build.Records.buildStep (h : b.Records k sel) (step : RolloutStep × ℕ) :
    (AppSet.buildStep app b step).Records k (sel ++ if step.1.Selects app then [(app.name, step.2)] else []) := by
  have hs := selects_fst app.labels step.2 step.1.matchExpressions b.issues
  have hi : ({ b with issues := (selects app.labels step.2 step.1.matchExpressions b.issues).2 } : Build).Records k sel :=
    ⟨h.lists, h.first, by rw [selects_snd]; exact h.duplicates⟩
  unfold AppSet.buildStep
  dsimp only
  by_cases hse : step.1.Selects app
  · rw [if_pos hse, if_pos (hs.trans (all_eq_true.2 hse))]
    exact hi.select app.name step.2
  · rw [if_neg hse, if_neg fun ha => hse (all_eq_true.1 (hs.symm.trans ha)), append_nil]
    exact hi

theorem Build.Records.buildApp (h : b.Records k sel) :
    (AppSet.buildApp steps b app).Records k (sel ++ selectionsOf app steps) := by
  unfold AppSet.buildApp selectionsOf
  generalize steps.zipIdx = l
  induction l generalizing b sel with
  | nil => simpa using h
  | cons step later ih =>
    have hi := ih (h.buildStep app step)
    rw [append_assoc] at hi
    by_cases hse : step.1.Selects app
    · simpa [hse] using hi
    · simpa [hse] using hi

theorem Build.Records.buildApps (h : b.Records k sel) :
    (desired.foldl (AppSet.buildApp steps) b).Records k (sel ++ selections steps desired) := by
  induction desired generalizing b sel with
  | nil => simpa [selections] using h
  | cons app later ih =>
    have hi := ih (h.buildApp app steps)
    rwa [append_assoc] at hi

theorem rolloutSteps_of_default {appset : ApplicationSet}
    (h : ∀ s ∈ appset.strategy, s.type = "" ∨ s.type = "AllAtOnce") : rolloutSteps appset = [] := by
  have hr : isRollingSyncStrategy appset = false := by
    apply decide_eq_false
    intro ⟨s, hs, ht, _⟩
    rcases h s hs with h | h <;> simp [h] at ht
  simp [rolloutSteps, rollingSyncStrategyEnabled, hr]

theorem records_empty {issues : ValidationIssues} (h : issues.duplicateAppSelections = ∅) :
    (⟨steps.map fun _ => [], ∅, issues⟩ : Build).Records steps.length [] := by
  refine ⟨fun j => ?_, fun n => rfl, fun n => ?_⟩
  · by_cases hj : j < steps.length <;> simp [namesOf, hj]
  · simp [h, stepsOf]

theorem records_buildAppDependencyList : (buildAppDependencyList appset desired).Records (rolloutSteps appset).length
      (selections (rolloutSteps appset) desired) := by
  unfold buildAppDependencyList
  split_ifs with hd
  · have hs : selections [] desired = [] := by simp [selections, selectionsOf]
    rw [rolloutSteps_of_default hd, hs]
    exact records_empty [] rfl
  · have h0 := records_empty (rolloutSteps appset) (show ValidationIssues.empty.duplicateAppSelections = ∅ from rfl)
    have h := h0.buildApps (rolloutSteps appset) desired
    exact ⟨h.lists, h.first, h.duplicates⟩

/-! ## The lists of the steps -/

/-- the name stands in the list of step j -/
def Listed (deps : List (List String)) (j : ℕ) (name : String) : Prop := ∃ l, deps[j]? = some l ∧ name ∈ l

theorem SelectedBy.lt {appset : ApplicationSet} {desired : List (Application Spec)} (h : SelectedBy appset desired j n) :
    j < (rolloutSteps appset).length := by
  obtain ⟨step, hg, -⟩ := h
  exact (List.getElem?_eq_some_iff.mp hg).1

/-- a name stands in the list of step j iff step j selects a desired application of it -/
theorem listed_buildAppDependencyList (j : ℕ) (n : String) :
    Listed (buildAppDependencyList appset desired).appDependencyList j n ↔ SelectedBy appset desired j n := by
  rw [Listed, (records_buildAppDependencyList appset desired).lists j]
  constructor
  · rintro ⟨l, hl, hn⟩
    split_ifs at hl
    cases hl
    exact (mem_selections appset desired).1 (mem_namesOf.1 hn)
  · intro h
    exact ⟨_, if_pos h.lt, mem_namesOf.2 ((mem_selections appset desired).2 h)⟩

/-! ## The first step of an application -/

/-- the map has every name that stands in a list, and only steps that exist -/
structure Build.Mapped (b : Build) : Prop where
  lookup_isSome : ∀ j n, Listed b.appDependencyList j n → (b.appStepMap.lookup n).isSome
  lookup_lt : ∀ n i, b.appStepMap.lookup n = some i → i < b.appDependencyList.length

theorem selectedBy_of_lookup {appset : ApplicationSet} {desired : List (Application Spec)}
    (h : (buildAppDependencyList appset desired).appStepMap.lookup n = some i) : SelectedBy appset desired i n := by
  rw [(records_buildAppDependencyList appset desired).first n] at h
  exact (mem_selections appset desired).1 (mem_stepsOf.1 (mem_of_head? h))

theorem buildAppDependencyList_mapped : (buildAppDependencyList appset desired).Mapped := by
  refine ⟨fun j n hl => ?_, fun n i hi => ?_⟩
  · rw [listed_buildAppDependencyList, ← mem_selections, ← mem_stepsOf] at hl
    rw [(records_buildAppDependencyList appset desired).first n, List.isSome_head?]
    simpa using ne_nil_of_mem hl
  · obtain ⟨l, hl, -⟩ := (listed_buildAppDependencyList appset desired i n).2 (selectedBy_of_lookup hi)
    exact (List.getElem?_eq_some_iff.mp hl).1

/-- an application is mapped to a step that exists -/
theorem lookup_lt_steps {appset : ApplicationSet} {desired : List (Application Spec)}
    (h : (buildAppDependencyList appset desired).appStepMap.lookup n = some i) : i < appset.steps.length := by
  have hlt := (selectedBy_of_lookup h).lt
  rw [rolloutSteps] at hlt
  split_ifs at hlt
  · exact hlt
  · exact absurd hlt (Nat.not_lt_zero i)

/-- the selections of each name go from step to later step -/
def Increasing (sel : List (String × ℕ)) : Prop := sel.Pairwise fun x y => x.1 = y.1 → x.2 < y.2

theorem increasing_iff : Increasing sel ↔ ∀ n, (stepsOf n sel).Pairwise (· < ·) := by
  constructor
  · intro h n
    rw [stepsOf, pairwise_map, pairwise_filter]
    exact h.imp fun hxy hx hy => hxy ((of_decide_eq_true hx).trans (of_decide_eq_true hy).symm)
  · intro h
    refine pairwise_iff_forall_sublist.2 fun {x y} hs he => ?_
    have hp := (h y.1).sublist ((hs.filter fun s => decide (s.1 = y.1)).map Prod.snd)
    simpa [he] using hp

/-- the selections increase iff those of applications with one name do -/
theorem increasing_selections : Increasing (selections steps desired) ↔ desired.Pairwise fun a a' =>
    a.name = a'.name → ∀ i j, SelectedAt steps a i → SelectedAt steps a' j → i < j := by
  have hsi : ∀ app ∈ desired, (selectionsOf app steps).Pairwise fun x y => x.1 = y.1 → x.2 < y.2 := by
    intro app _
    refine pairwise_map.2 (Pairwise.filter _ ?_)
    have hr : (steps.zipIdx.map Prod.snd).Pairwise (· < ·) := by
      rw [zipIdx_map_snd]
      exact pairwise_lt_range'
    exact (pairwise_map.1 hr).imp fun h (_ : app.name = app.name) => h
  rw [Increasing, selections, pairwise_flatMap, and_iff_right hsi]
  refine Pairwise.iff fun a a' => ?_
  simp only [Prod.forall, mem_selectionsOf]
  constructor
  · intro h hn i j hi hj
    exact h a.name i ⟨rfl, hi⟩ a'.name j ⟨rfl, hj⟩ hn
  · rintro h n i ⟨rfl, hi⟩ n' j ⟨rfl, hj⟩ hn
    exact h hn i j hi hj

theorem head?_eq_some_iff {l : List ℕ} (h : l.Pairwise (· < ·)) :
    l.head? = some i ↔ i ∈ l ∧ ∀ j < i, j ∉ l := by
  cases l with
  | nil => simp
  | cons a l =>
    rw [pairwise_cons] at h
    simp only [head?_cons, Option.some.injEq, mem_cons, not_or]
    constructor
    · rintro rfl
      exact ⟨.inl rfl, fun j hj => ⟨hj.ne, fun hl => absurd (h.1 j hl) hj.asymm⟩⟩
    · rintro ⟨rfl | hi, hf⟩
      · rfl
      · exact absurd rfl (hf a (h.1 i hi)).1

/-- where the selections increase, the map has the first step that selects an application -/
theorem lookup_eq_some_iff (h : Increasing (selections (rolloutSteps appset) desired)) :
    (buildAppDependencyList appset desired).appStepMap.lookup n = some i ↔ IsFirstStep appset desired i n := by
  rw [(records_buildAppDependencyList appset desired).first n, head?_eq_some_iff (increasing_iff.1 h n)]
  simp only [mem_stepsOf, mem_selections, IsFirstStep]

end GitOpsDeploy.AppSet

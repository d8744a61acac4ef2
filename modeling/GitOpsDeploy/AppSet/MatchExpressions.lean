/-
What the match expressions of a rolling sync select.

An expression is satisfied by a label with a listed value (In) or without one (NotIn). Loops over expressions that also
look for invalid operators come close to that meaning.
-/
import GitOpsDeploy.AppSet.Selection

namespace GitOpsDeploy.AppSet

open List

variable {Spec : Type} (appset : ApplicationSet) (desired : List (Application Spec)) {n : String} {i j : ℕ}

/-- the label has a listed value, or, for NotIn, no listed value; other operators are never satisfied -/
def ApplicationMatchExpression.Satisfied (m : ApplicationMatchExpression) (labels : List (String × String)) : Prop :=
  m.operator = "In" ∧ (∃ val ∈ labels.lookup m.key, val ∈ m.values) ∨
    m.operator = "NotIn" ∧ ∀ val ∈ labels.lookup m.key, val ∉ m.values

/-- another operator, on a label that the application does not have -/
def ApplicationMatchExpression.Ignored (m : ApplicationMatchExpression) (labels : List (String × String)) : Prop :=
  m.operator ≠ "In" ∧ m.operator ≠ "NotIn" ∧ labels.lookup m.key = none

theorem satisfies_iff (labels : List (String × String)) (m : ApplicationMatchExpression) :
    satisfies labels m = true ↔ m.Satisfied labels ∨ m.Ignored labels := by
  unfold satisfies ApplicationMatchExpression.Satisfied ApplicationMatchExpression.Ignored labelMatchedExpression
  cases labels.lookup m.key with
  | none => by_cases hi : m.operator = "In" <;> by_cases hn : m.operator = "NotIn" <;> simp [hi, hn]
  | some val =>
    by_cases hi : m.operator = "In" <;> by_cases hn : m.operator = "NotIn" <;> by_cases hv : val ∈ m.values <;>
      simp [hi, hn, hv]

def RolloutStep.Matches (step : RolloutStep) (app : Application Spec) : Prop :=
  ∀ m ∈ step.matchExpressions, m.Satisfied app.labels

/-- step j matches an application of this name -/
def MatchedBy (j : ℕ) (name : String) : Prop :=
  ∃ step, (rolloutSteps appset)[j]? = some step ∧ ∃ app ∈ desired, app.name = name ∧ step.Matches app

/-- the steps hold the applications they match, the map their first steps, and the duplicates those with several -/
structure SelectsByMeaning : Prop where
  lists : ∀ j n, Listed (buildAppDependencyList appset desired).appDependencyList j n ↔ MatchedBy appset desired j n
  first : ∀ n i, (buildAppDependencyList appset desired).appStepMap.lookup n = some i ↔
    IsLeast { j | MatchedBy appset desired j n } i
  duplicates : ∀ n l, (buildAppDependencyList appset desired).issues.duplicateAppSelections.lookup n = some l ↔
    1 < l.length ∧ l.Pairwise (· < ·) ∧ ∀ j, j ∈ l ↔ MatchedBy appset desired j n

/-- no step selects an application although one of its expressions has another operator -/
def NoneIgnored : Prop := ∀ app ∈ desired, ∀ step ∈ rolloutSteps appset,
  (∀ m ∈ step.matchExpressions, m.Satisfied app.labels ∨ m.Ignored app.labels) →
    ∀ m ∈ step.matchExpressions, ¬m.Ignored app.labels

/-- of two applications with one name, the steps that select the first come before those that select the second -/
def NamesInOrder : Prop := desired.Pairwise fun a a' =>
  a.name = a'.name → ∀ i j, SelectedAt (rolloutSteps appset) a i → SelectedAt (rolloutSteps appset) a' j → i < j

theorem RolloutStep.Matches.selects {step : RolloutStep} {app : Application Spec} (h : step.Matches app) :
    step.Selects app :=
  fun m hm => (satisfies_iff _ m).2 (.inl (h m hm))

theorem matchedBy_iff {appset : ApplicationSet} {desired : List (Application Spec)} (h : NoneIgnored appset desired) :
    MatchedBy appset desired j n ↔ SelectedBy appset desired j n := by
  constructor
  · rintro ⟨step, hg, app, ha, hn, hm⟩
    exact ⟨step, hg, app, ha, hn, hm.selects⟩
  · rintro ⟨step, hg, app, ha, hn, hs⟩
    have hor := fun m hm => (satisfies_iff app.labels m).1 (hs m hm)
    have hni := h app ha step (mem_of_getElem? hg) hor
    exact ⟨step, hg, app, ha, hn, fun m hm => (hor m hm).resolve_right (hni m hm)⟩

/-- **Step selection.** The steps, the map and the duplicates are those of the match expressions iff no expression with
another operator is ignored and the applications of one name are selected in order. -/
theorem selects_by_meaning_iff :
    SelectsByMeaning appset desired ↔ NoneIgnored appset desired ∧ NamesInOrder appset desired := by
  have hr := records_buildAppDependencyList appset desired
  constructor
  · intro h
    have hin : NamesInOrder appset desired := by
      refine (increasing_selections _ _).1 (increasing_iff.2 fun n => ?_)
      by_cases hl : 1 < (stepsOf n (selections (rolloutSteps appset) desired)).length
      · exact ((h.duplicates n _).1 ((hr.duplicates n).trans (if_pos hl))).2.1
      generalize stepsOf n (selections (rolloutSteps appset) desired) = l at hl
      rcases l with _ | ⟨a, _ | ⟨c, l⟩⟩
      · exact Pairwise.nil
      · exact pairwise_singleton _ a
      · simp at hl
    refine ⟨fun app ha step hstep hor m hm hig => ?_, hin⟩
    have hs : step.Selects app := fun m hm => (satisfies_iff app.labels m).2 (hor m hm)
    obtain ⟨j, hg⟩ := List.mem_iff_getElem?.1 hstep
    -- the step then matches another application of the name, and both are selected by step j
    have hli := (listed_buildAppDependencyList appset desired j app.name).2 ⟨step, hg, app, ha, rfl, hs⟩
    obtain ⟨step', hg', app', ha', hn, hma⟩ := (h.lists j app.name).1 hli
    cases hg.symm.trans hg'
    have hne : app' ≠ app := by
      rintro rfl
      rcases hma m hm with ho | ho
      · exact hig.1 ho.1
      · exact hig.2.1 ho.1
    have hap : desired.Pairwise fun a a' => ¬(a.name = a'.name ∧ step.Selects a ∧ step.Selects a') := by
      refine hin.imp ?_
      rintro a a' hlt ⟨he, hs, hs'⟩
      exact lt_irrefl j (hlt he j j ⟨step, hg, hs⟩ ⟨step, hg, hs'⟩)
    have : Std.Symm fun a a' : Application Spec => ¬(a.name = a'.name ∧ step.Selects a ∧ step.Selects a') :=
      ⟨fun a a' h hb => h ⟨hb.1.symm, hb.2.symm⟩⟩
    exact hap.forall ha' ha hne ⟨hn, hma.selects, hs⟩
  · rintro ⟨hno, hin⟩
    have hi := (increasing_selections _ _).2 hin
    refine ⟨fun j n => ?_, fun n i => ?_, fun n l => ?_⟩
    · rw [listed_buildAppDependencyList, matchedBy_iff hno]
    · rw [lookup_eq_some_iff appset desired hi, IsFirstStep]
      simp only [← matchedBy_iff hno]
      refine and_congr_right fun _ => ⟨fun hf j hj => not_lt.1 fun hlt => hf j hlt hj, fun hf j hlt hj => ?_⟩
      exact absurd (hf hj) (not_le.2 hlt)
    · have hp := increasing_iff.1 hi n
      have hm : ∀ j, j ∈ stepsOf n (selections (rolloutSteps appset) desired) ↔ MatchedBy appset desired j n := by
        intro j
        rw [mem_stepsOf, mem_selections, matchedBy_iff hno]
      rw [hr.duplicates n]
      constructor
      · intro he
        split_ifs at he with hl
        cases he
        exact ⟨hl, hp, hm⟩
      · rintro ⟨hl, hpl, hml⟩
        have hpe := (perm_ext_iff_of_nodup hp.nodup hpl.nodup).2 fun j => (hm j).trans (hml j).symm
        rw [hpe.eq_of_pairwise (fun a b _ _ hab hba => absurd hba hab.asymm) hp hpl, if_pos hl]

def existsStep : RolloutStep := ⟨[⟨"env", "Exists", []⟩], none⟩

def existsSet : ApplicationSet := ⟨some ⟨"RollingSync", some [existsStep]⟩, []⟩

def unlabelled : Application Unit := ⟨"web", [], (), .healthy, .synced, "", [], none, none, []⟩

/-- an application without the label joins a step whose only expression has an operator that does not exist -/
theorem selects_despite_operator : ¬SelectsByMeaning existsSet [unlabelled] := by
  intro h
  have hs : SelectedBy existsSet [unlabelled] 0 "web" :=
    ⟨existsStep, by decide, unlabelled, mem_singleton_self _, rfl, by decide⟩
  obtain ⟨step, hg, app, -, -, hm⟩ := (h.lists 0 "web").1 ((listed_buildAppDependencyList _ _ _ _).2 hs)
  cases hg
  rcases hm ⟨"env", "Exists", []⟩ (mem_singleton_self _) with ho | ho
  · exact absurd ho.1 (by decide)
  · exact absurd ho.1 (by decide)

end GitOpsDeploy.AppSet

/-
Source rules of a project (`IsSourcePermitted` of `pkg/apis/application/v1alpha1/app_project_types.go`).

A rule is a pattern for repository URLs, or '!' and a pattern for URLs that are rejected. Rules are normalized like URLs are.
The loop returns false at the first rule that rejects the source and otherwise reports whether some rule matched; a rule
with '!' that does not reject counts as one that matched.
-/
import GitOpsDeploy.Database.Repositories
import GitOpsDeploy.Project.Patterns

namespace GitOpsDeploy.Project

open Database (Text normalizeGitURL)

variable (compile : GlobLib) (t : Text) (src : String) (rules : List String)

/-- the rule as the loop compares it -/
def normalizeRule (repoURL : String) : String :=
  if isDenyPattern repoURL then "!" ++ normalizeGitURL t (denyBase repoURL) else normalizeGitURL t repoURL

/-- the loop, with the normalized source -/
def permitSource : List String → Bool → Bool
  | [], anySourceMatched => anySourceMatched
  | repoURL :: later, anySourceMatched =>
    if globMatch compile (normalizeRule t repoURL) src true ['/'] then permitSource later true
    else if isDenyPattern (normalizeRule t repoURL) then false
    else permitSource later anySourceMatched

def isSourcePermitted (sourceRepos : List String) (repoURL : String) : Bool :=
  permitSource compile t (normalizeGitURL t repoURL) sourceRepos false

/-! ## What the rules say -/

/-- the pattern without '!' matches -/
def Allows (rule : String) : Prop :=
  isDenyPattern rule = false ∧ globMatch compile (normalizeGitURL t rule) src false ['/'] = true

/-- the pattern after '!' matches -/
def Rejects (rule : String) : Prop :=
  isDenyPattern rule = true ∧ compile.matches (normalizeGitURL t (denyBase rule)) src ['/'] = true

/-- a rule that has its '!' only when it is normalized, and then rejects -/
def RejectsLate (rule : String) : Prop :=
  isDenyPattern rule = false ∧ denies compile (normalizeGitURL t rule) src ['/'] = true

/-- the source is permitted iff some rule without '!' matches and no rule with '!' rejects -/
def RulesFollowed (rules : List String) (repoURL : String) : Prop :=
  isSourcePermitted compile t rules repoURL = true ↔
    (∃ r ∈ rules, Allows compile t (normalizeGitURL t repoURL) r) ∧
      ¬∃ r ∈ rules, Rejects compile t (normalizeGitURL t repoURL) r

variable {compile t src rules}

theorem permitSource_iff {any : Bool} : permitSource compile t src rules any = true ↔
    (∀ r ∈ rules, denies compile (normalizeRule t r) src ['/'] = false) ∧
      (any = true ∨ ∃ r ∈ rules, globMatch compile (normalizeRule t r) src true ['/'] = true) := by
  induction rules generalizing any with
  | nil => simp [permitSource]
  | cons r later ih =>
    simp only [permitSource, List.forall_mem_cons, List.exists_mem_cons_iff]
    rw [denies_eq]
    split_ifs with hm hd
    · simp [hm, ih]
    · simp [hm, hd]
    · simp [hm, hd, ih]

theorem normalizeRule_deny {r : String} (h : isDenyPattern r = true) :
    isDenyPattern (normalizeRule t r) = true ∧ denyBase (normalizeRule t r) = normalizeGitURL t (denyBase r) := by
  rw [normalizeRule, if_pos h]
  generalize normalizeGitURL t (denyBase r) = base
  simp [isDenyPattern, denyBase, String.toList_append]

theorem normalizeRule_allow {r : String} (h : isDenyPattern r = false) : normalizeRule t r = normalizeGitURL t r := by
  simp [normalizeRule, h]

/-- what makes the loop return false -/
theorem denies_normalizeRule (r : String) : denies compile (normalizeRule t r) src ['/'] = true ↔
    Rejects compile t src r ∨ RejectsLate compile t src r := by
  cases h : isDenyPattern r with
  | true => simp [denies, Rejects, RejectsLate, h, normalizeRule_deny h]
  | false => simp [Rejects, RejectsLate, h, normalizeRule_allow h]

/-- a rule without '!' matches where the loop says so -/
theorem globMatch_normalizeRule {r : String} (h : isDenyPattern (normalizeRule t r) = false) :
    globMatch compile (normalizeRule t r) src true ['/'] = true ↔ Allows compile t src r := by
  have hr : isDenyPattern r = false := by
    by_contra hc
    rw [(normalizeRule_deny (Bool.not_eq_false _ ▸ hc)).1] at h
    cases h
  rw [normalizeRule_allow hr] at h ⊢
  simp [Allows, hr, globMatch, h]

theorem permitSource_eq_true : permitSource compile t src rules false = true ↔
    (¬∃ r ∈ rules, Rejects compile t src r) ∧ (¬∃ r ∈ rules, RejectsLate compile t src r) ∧
      ∃ r ∈ rules, globMatch compile (normalizeRule t r) src true ['/'] = true := by
  rw [permitSource_iff]
  simp only [← Bool.not_eq_true, denies_normalizeRule, not_or, forall_and, not_exists, not_and, Bool.false_eq_true,
    false_or, and_assoc]

/-- **Source rules.** The order of the rules does not matter; they are followed iff one with '!' rejects, or one that is
only normalized to one with '!' rejects and none without matches, or one without matches or there is none with '!'. -/
theorem source_rules_followed_iff (compile : GlobLib) (t : Text) (rules : List String) (repoURL : String) :
    (∀ rules', rules.Perm rules' → isSourcePermitted compile t rules' repoURL =
      isSourcePermitted compile t rules repoURL) ∧ (RulesFollowed compile t rules repoURL ↔
        (∃ r ∈ rules, Rejects compile t (normalizeGitURL t repoURL) r) ∨
        ((∃ r ∈ rules, RejectsLate compile t (normalizeGitURL t repoURL) r) ∧
          ¬∃ r ∈ rules, Allows compile t (normalizeGitURL t repoURL) r) ∨
        ((¬∃ r ∈ rules, RejectsLate compile t (normalizeGitURL t repoURL) r) ∧
          ((∃ r ∈ rules, Allows compile t (normalizeGitURL t repoURL) r) ∨
            ∀ r ∈ rules, isDenyPattern (normalizeRule t r) = false))) := by
  constructor
  · intro rules' hp
    rw [Bool.eq_iff_iff, isSourcePermitted, isSourcePermitted, permitSource_iff, permitSource_iff]
    simp only [hp.mem_iff]
  · rw [RulesFollowed, isSourcePermitted, permitSource_eq_true]
    generalize normalizeGitURL t repoURL = src
    by_cases hr : ∃ r ∈ rules, Rejects compile t src r
    · simp only [hr, not_true, false_and, and_false, true_or]
    by_cases hl : ∃ r ∈ rules, RejectsLate compile t src r
    · simp only [hr, hl, not_true, not_false_eq_true, false_and, and_false, and_true, true_and, or_false, false_or,
        false_iff]
    by_cases hd : ∀ r ∈ rules, isDenyPattern (normalizeRule t r) = false
    · have hg : (∃ r ∈ rules, globMatch compile (normalizeRule t r) src true ['/'] = true) ↔
          ∃ r ∈ rules, Allows compile t src r :=
        exists_congr fun r => and_congr_right fun h => globMatch_normalizeRule (hd r h)
      simp only [hr, hl, eq_true hd, hg, not_false_eq_true, true_and, and_true, false_and, or_true]
    · -- a rule with '!' that does not reject counts as one that matched
      have hg : ∃ r ∈ rules, globMatch compile (normalizeRule t r) src true ['/'] = true := by
        push Not at hd
        obtain ⟨r, hm, hn⟩ := hd
        have hde : denies compile (normalizeRule t r) src ['/'] ≠ true := fun h =>
          ((denies_normalizeRule r).1 h).elim (fun h => hr ⟨r, hm, h⟩) fun h => hl ⟨r, hm, h⟩
        rw [denies_eq] at hde
        exact ⟨r, hm, by simpa [hn] using hde⟩
      simp only [hr, hl, hd, eq_true hg, not_false_eq_true, true_and, and_true, false_and, false_or, or_false, true_iff]

/-- texts that are normalized already -/
def plainText : Text := ⟨id, some, id, id, fun _ => .ok true, fun _ => .ok 0, String.length⟩

/-- a project with nothing but a rule with '!' permits every source that the rule does not reject -/
theorem source_without_allow_rule : ¬RulesFollowed (fun _ _ => some fun _ => false) plainText
    ["!https://gitlab.com/group/**"] "https://github.com/other/app" := by
  have hd : isDenyPattern "!https://gitlab.com/group/**" = true := by decide
  simp [RulesFollowed, isSourcePermitted, permitSource, globMatch, Allows, GlobLib.matches, hd, normalizeRule_deny hd]

end GitOpsDeploy.Project

/-
Sync windows of a project, and the applications that they are for (`pkg/apis/application/v1alpha1/types.go`).

A window names applications, clusters and namespaces by glob patterns. It applies to an application by any of the three, or,
with the AND operator, by all of them that are configured.
-/
import GitOpsDeploy.Project.Types
import GitOpsDeploy.Project.Patterns

namespace GitOpsDeploy.SyncWindows

open List Project

/-! ## Model -/

structure SyncWindow where
  kind : String
  schedule : String
  duration : String
  applications : List String
  namespaces : List String
  clusters : List String
  manualSync : Bool
  timeZone : String
  useAndOperator : Bool
  syncOverrun : Bool

variable (w : SyncWindow) (ws : List SyncWindow) (compile : GlobLib) (appName : String) (dst : ApplicationDestination)

/-- patterns of the window are matched without negation -/
def applicationMatched : Bool := w.applications.any fun a => globMatch compile a appName false []

def clusterMatched : Bool := w.clusters.any fun c =>
  dst.name ≠ "" && globMatch compile c dst.name false [] || dst.server ≠ "" && globMatch compile c dst.server false []

def namespaceMatched : Bool := w.namespaces.any fun n => globMatch compile n dst.ns false []

/-- the body of the loop of `Matches`, with its two flags -/
def windowMatches : Bool :=
  let isSet := decide (0 < w.applications.length)
  let matched := applicationMatched w compile appName
  if w.useAndOperator && !matched && isSet then false
  else if !w.useAndOperator && matched then true
  else
    let (matched, isSet) :=
      if 0 < w.clusters.length then (clusterMatched w compile dst, true) else (matched, isSet)
    if isSet && w.useAndOperator && !matched then false
    else if !w.useAndOperator && matched then true
    else if 0 < w.namespaces.length then namespaceMatched w compile dst
    else matched

def matchingWindows : List SyncWindow := ws.filter fun w => windowMatches w compile appName dst

/-! ## Windows of an application -/

/-- some dimension is configured and, with AND, every configured dimension matches, without it some does -/
def AppliesTo : Prop :=
  (w.applications ≠ [] ∨ w.clusters ≠ [] ∨ w.namespaces ≠ []) ∧
    if w.useAndOperator then
      (w.applications ≠ [] → applicationMatched w compile appName) ∧
        (w.clusters ≠ [] → clusterMatched w compile dst) ∧ (w.namespaces ≠ [] → namespaceMatched w compile dst)
    else applicationMatched w compile appName ∨ clusterMatched w compile dst ∨ namespaceMatched w compile dst

instance : Decidable (AppliesTo w compile appName dst) := inferInstanceAs (Decidable (_ ∧ ite _ _ _))

theorem windowMatches_iff : windowMatches w compile appName dst = true ↔ AppliesTo w compile appName dst := by
  have ha : w.applications = [] → applicationMatched w compile appName = false := fun h => by
    simp [applicationMatched, h]
  have hc : w.clusters = [] → clusterMatched w compile dst = false := fun h => by simp [clusterMatched, h]
  have hn : w.namespaces = [] → namespaceMatched w compile dst = false := fun h => by simp [namespaceMatched, h]
  unfold windowMatches AppliesTo
  simp only [length_pos_iff]
  by_cases h1 : w.applications = [] <;> by_cases h2 : w.clusters = [] <;> by_cases h3 : w.namespaces = [] <;>
    cases w.useAndOperator <;> simp_all

/-- **Windows of an application.** They are those that apply to it, in their order. -/
theorem matches_eq : matchingWindows ws compile appName dst = ws.filter fun w => AppliesTo w compile appName dst := by
  refine filter_congr fun w _ => ?_
  rw [Bool.eq_iff_iff, windowMatches_iff, decide_eq_true_iff]

end GitOpsDeploy.SyncWindows

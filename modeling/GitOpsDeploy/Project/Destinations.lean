/-
Destination rules of a project (`isDestinationMatched`, `IsDestinationPermitted`).

Each rule has a server, a name and a namespace pattern, each possibly negated. The loop returns false at the first rule
that rejects the destination and otherwise reports whether some rule matched.

Rules that the loop treats unevenly (a negated name whose namespace pattern does not match, a negated namespace on a
cluster selected by name only, one item both rejecting and selecting the cluster) are left open there.
-/
import GitOpsDeploy.Project.Types
import GitOpsDeploy.Project.Patterns

namespace GitOpsDeploy.Project

/-! ## Model -/

variable (compile : GlobLib)

variable (dst item : ApplicationDestination)

def dstNameMatched : Bool :=
  dst.name != "" && globMatch compile item.name dst.name true []

def dstServerMatched : Bool :=
  dst.server != "" && globMatch compile item.server dst.server true []

def dstNamespaceMatched : Bool := globMatch compile item.ns dst.ns true []

/-- the `matched` case of the loop -/
def itemMatches : Bool :=
  (dstServerMatched compile dst item || dstNameMatched compile dst item) && dstNamespaceMatched compile dst item

/-- the two `return false` cases of the loop; `&&` binds tighter than `||` -/
def itemRejects : Bool :=
  ((!dstNameMatched compile dst item && isDenyPattern item.name) ||
    ((!dstServerMatched compile dst item && isDenyPattern item.server) && dstNamespaceMatched compile dst item)) ||
  ((!dstNamespaceMatched compile dst item && isDenyPattern item.ns) && dstServerMatched compile dst item)

def matchDestinations (dst : ApplicationDestination) : List ApplicationDestination → Bool → Bool
  | [], anyDestinationMatched => anyDestinationMatched
  | item :: items, anyDestinationMatched =>
    if itemMatches compile dst item then matchDestinations dst items true
    else if itemRejects compile dst item then false
    else matchDestinations dst items anyDestinationMatched

def isDestinationMatched (p : AppProject) (dst : ApplicationDestination) : Bool :=
  matchDestinations compile dst p.destinations false

/-! ## The loop -/

/-- **The verdict of the loop.** -/
theorem matchDestinations_iff (dst : ApplicationDestination) (items : List ApplicationDestination) (any : Bool) :
    matchDestinations compile dst items any = true ↔
      (∀ item ∈ items, itemMatches compile dst item = false → itemRejects compile dst item = false) ∧
        (any = true ∨ ∃ item ∈ items, itemMatches compile dst item = true) := by
  induction items generalizing any with
  | nil => simp [matchDestinations]
  | cons item items ih =>
    simp only [matchDestinations, List.forall_mem_cons, List.exists_mem_cons_iff]
    split_ifs with hm hr
    · rw [ih]
      simp [hm]
    · simp [hm, hr]
    · rw [ih]
      simp [hm, hr]

/-! ## Which deny rules win -/

/-- the cluster is selected by the item's server pattern and its negated namespace pattern rejects the namespace -/
def nsDenied : Bool :=
  globMatch compile item.server dst.server true [] && denies compile item.ns dst.ns []

/-- a negated server (name) pattern rejects the cluster, the item's name (server) pattern does not select it, and the
namespace pattern matches -/
def clusterDenied : Bool :=
  ((denies compile item.server dst.server [] && !globMatch compile item.name dst.name true []) ||
    (denies compile item.name dst.name [] && !globMatch compile item.server dst.server true [])) &&
    globMatch compile item.ns dst.ns true []

/-- the item selects the cluster and its negated namespace pattern rejects the namespace, or a negated cluster pattern
rejects the cluster and its namespace pattern matches -/
def ruleDenies : Bool :=
  ((globMatch compile item.server dst.server true [] || globMatch compile item.name dst.name true []) &&
      denies compile item.ns dst.ns []) ||
    ((denies compile item.server dst.server [] || denies compile item.name dst.name []) &&
      globMatch compile item.ns dst.ns true [])

/-- a negated name pattern rejects the cluster and the namespace pattern does not match -/
def nameDeniedElsewhere : Bool :=
  denies compile item.name dst.name [] && !globMatch compile item.ns dst.ns true []

/-- the item permits the destination: a cluster pattern and the namespace pattern match -/
def rulePermits : Bool :=
  (globMatch compile item.server dst.server true [] || globMatch compile item.name dst.name true []) &&
    globMatch compile item.ns dst.ns true []

variable {compile}

theorem dstServerMatched_eq {dst : ApplicationDestination} (hs : dst.server ≠ "") (item : ApplicationDestination) :
    dstServerMatched compile dst item = globMatch compile item.server dst.server true [] := by
  simp [dstServerMatched, bne_iff_ne.2 hs]

theorem dstNameMatched_eq {dst : ApplicationDestination} (hn : dst.name ≠ "") (item : ApplicationDestination) :
    dstNameMatched compile dst item = globMatch compile item.name dst.name true [] := by
  simp [dstNameMatched, bne_iff_ne.2 hn]

theorem itemRejects_of_denied {dst item : ApplicationDestination} (hs : dst.server ≠ "") (hn : dst.name ≠ "")
    (h : nsDenied compile dst item = true ∨ clusterDenied compile dst item = true) :
    itemMatches compile dst item = false ∧ itemRejects compile dst item = true := by
  simp only [nsDenied, clusterDenied, denies_eq] at h
  simp only [itemMatches, itemRejects, dstServerMatched_eq hs, dstNameMatched_eq hn, dstNamespaceMatched]
  -- only whether each of the three patterns matches is left
  generalize globMatch compile item.server dst.server true [] = S at h ⊢
  generalize globMatch compile item.name dst.name true [] = N at h ⊢
  generalize globMatch compile item.ns dst.ns true [] = K at h ⊢
  revert h
  cases S <;> cases N <;> cases K <;> simp +contextual [or_comm]

theorem not_itemRejects {dst item : ApplicationDestination} (hs : dst.server ≠ "") (hn : dst.name ≠ "")
    (h : ruleDenies compile dst item = false) (h' : nameDeniedElsewhere compile dst item = false) :
    itemRejects compile dst item = false := by
  simp only [ruleDenies, nameDeniedElsewhere, denies_eq] at h h'
  simp only [itemRejects, dstServerMatched_eq hs, dstNameMatched_eq hn, dstNamespaceMatched]
  generalize globMatch compile item.server dst.server true [] = S at h ⊢
  generalize globMatch compile item.name dst.name true [] = N at h h' ⊢
  generalize globMatch compile item.ns dst.ns true [] = K at h h' ⊢
  revert h h'
  cases S <;> cases N <;> cases K <;> simp +contextual

/-- **Deny rules of project destinations.** For every glob library, project and destination with a server and a name:
a rule that selects the cluster by its server pattern and rejects the namespace, or that rejects the cluster by one
pattern without selecting it by the other and matches the namespace, makes the verdict false. If no rule denies the
destination and no negated name pattern hits outside its namespaces, the verdict is true exactly when some rule permits
the destination, negated patterns matching whatever their base does not. -/
theorem deny_rules_win (compile : GlobLib) (p : AppProject) (dst : ApplicationDestination) (hs : dst.server ≠ "")
    (hn : dst.name ≠ "") :
    ((∃ item ∈ p.destinations, nsDenied compile dst item = true ∨ clusterDenied compile dst item = true) →
      isDestinationMatched compile p dst = false) ∧
    ((∀ item ∈ p.destinations, ruleDenies compile dst item = false ∧ nameDeniedElsewhere compile dst item = false) →
      (isDestinationMatched compile p dst = true ↔ ∃ item ∈ p.destinations, rulePermits compile dst item = true)) := by
  constructor
  · rintro ⟨item, hme, hd⟩
    obtain ⟨hm, hr⟩ := itemRejects_of_denied hs hn hd
    rw [← Bool.not_eq_true, isDestinationMatched, matchDestinations_iff]
    intro h
    exact absurd (h.1 item hme hm) (by simp [hr])
  · intro hf
    have hp : ∀ item, itemMatches compile dst item = rulePermits compile dst item := by
      intro item
      simp only [itemMatches, rulePermits, dstServerMatched_eq hs, dstNameMatched_eq hn, dstNamespaceMatched]
    rw [isDestinationMatched, matchDestinations_iff]
    simp only [hp, Bool.false_eq_true, false_or]
    exact ⟨fun h => h.2, fun h => ⟨fun item hi _ => not_itemRejects hs hn (hf item hi).1 (hf item hi).2, h⟩⟩

/-- a glob library without wildcards -/
def literalGlob : GlobLib := fun pattern _ => some fun text => pattern == text

/-- a project with the given destination rules only -/
def projectWith (rules : List ApplicationDestination) : AppProject := ⟨"demo", [], rules, ∅⟩

def inCluster (ns : String) : ApplicationDestination := ⟨"https://kubernetes.default.svc", "in-cluster", ns⟩

/-- nothing may be installed in kube-system, whatever the rule before it permits; other namespaces are fine -/
theorem deny_rules_win_kube_system :
    isDestinationMatched literalGlob (projectWith [⟨"*", "", "*"⟩, ⟨"*", "", "!kube-system"⟩])
      (inCluster "kube-system") = false ∧
    isDestinationMatched literalGlob (projectWith [⟨"*", "", "*"⟩, ⟨"*", "", "!kube-system"⟩])
      (inCluster "default") = true :=
  ⟨(deny_rules_win literalGlob _ (inCluster "kube-system") (by decide) (by decide)).1 (by decide),
    ((deny_rules_win literalGlob _ (inCluster "default") (by decide) (by decide)).2 (by decide)).2 (by decide)⟩

/-- the verdict that counts only rules without a negation as allow rules -/
def allowRulesVerdict (compile : GlobLib) (p : AppProject) (dst : ApplicationDestination) : Bool :=
  !p.destinations.any (ruleDenies compile dst) &&
    p.destinations.any fun item =>
      !isDenyPattern item.server && !isDenyPattern item.name && !isDenyPattern item.ns && rulePermits compile dst item

/-- **A deny rule that does not hit also permits.** The only rule is '!https://my-cluster' / default; another cluster
is permitted although no rule without a negation permits it. -/
theorem unhit_deny_permits :
    isDestinationMatched literalGlob (projectWith [⟨"!https://my-cluster", "", "default"⟩]) (inCluster "default") =
      true ∧
    allowRulesVerdict literalGlob (projectWith [⟨"!https://my-cluster", "", "default"⟩]) (inCluster "default") =
      false := by
  decide

end GitOpsDeploy.Project

/-
The pods of a log query (`getSelectedPods`, `isTheSelectedOne` in `server/application/application.go`).

The search follows parent references, and fuel bounds its depth. A map remembers the answers, but its two results are read
in the wrong order: only the answer true is ever found again, and a cycle without a match is walked for ever.
- `Searches`: from a node that does not match, the search goes on to a parent if none before it is selected.
- `selected_pods_exact`: enough fuel gives the selected pods iff no pod has an endless chain of such steps.
- Witnesses: `selected_pods_before_loop`, a cycle that is not searched, and `own_owner_endless`, one that is.
-/
import Mathlib.Tactic

namespace GitOpsDeploy.PodLogs

open Relation (ReflTransGen)

structure ResourceRef where
  group : String
  kind : String
  ns : String
  name : String
  deriving DecidableEq

structure ResourceNode extends ResourceRef where
  uid : String
  parentRefs : List ResourceRef
  deriving DecidableEq

/-- `ApplicationPodLogsQuery`; an empty text matches everything -/
structure Query where
  resourceName : String
  kind : String
  group : String
  ns : String

def Query.selects (q : Query) (n : ResourceNode) : Bool :=
  (q.resourceName = "" || n.name = q.resourceName) && (q.kind = "" || n.kind = q.kind) &&
    (q.group = "" || n.group = q.group) && (q.ns = "" || n.ns = q.ns)

/-- the nodes of a tree, each with a UID of its own -/
structure Tree where
  nodes : List ResourceNode
  named : ∀ n ∈ nodes, n.uid ≠ ""
  distinct : (nodes.map ResourceNode.uid).Nodup

abbrev Memo := String → Option Bool

/-! ## The search -/

/-- the nodes that are compared with a parent reference and equal it, in the order of the two loops -/
def Tree.parents (t : Tree) (n : ResourceNode) : List ResourceNode :=
  n.parentRefs.flatMap fun ref => t.nodes.filter (·.toResourceRef = ref)

/-- the loop over the parents, left with the first that is selected -/
def anyParent (selected : ResourceNode → Memo → Option (Bool × Memo)) :
    List ResourceNode → Memo → Option (Bool × Memo)
  | [], memo => some (false, memo)
  | n :: ns, memo => do
    let (found, memo) ← selected n memo
    if found then some (true, memo) else anyParent selected ns memo

variable (t : Tree) (q : Query)

def isTheSelectedOne : ℕ → ResourceNode → Memo → Option (Bool × Memo)
  | 0, _, _ => none
  | fuel + 1, n, isTheOneMap =>
    -- `exist, value := isTheOneMap[currentNode.UID]`: the value comes first
    let exist := (isTheOneMap n.uid).getD false
    let value := (isTheOneMap n.uid).isSome
    if exist then some (value, isTheOneMap)
    else if q.selects n then some (true, Function.update isTheOneMap n.uid (some true))
    else do
      let (found, isTheOneMap) ← anyParent (isTheSelectedOne fuel) (t.parents n) isTheOneMap
      some (found, Function.update isTheOneMap n.uid (some found))

def ResourceNode.isPod (n : ResourceNode) : Bool := n.kind = "Pod" && n.group = "" && n.uid ≠ ""

def selectPods (fuel : ℕ) : List ResourceNode → Memo → Option (List ResourceNode)
  | [], _ => some []
  | n :: ns, isTheOneMap =>
    if n.isPod then do
      let (selected, isTheOneMap) ← isTheSelectedOne t q fuel n isTheOneMap
      let pods ← selectPods fuel ns isTheOneMap
      some (if selected then n :: pods else pods)
    else selectPods fuel ns isTheOneMap

def getSelectedPods (fuel : ℕ) : Option (List ResourceNode) := selectPods t q fuel t.nodes fun _ => none

/-! ## What it is for -/

/-- the node, or one that is reached over parent references, matches the query -/
def Selected (n : ResourceNode) : Prop := ∃ m, ReflTransGen (fun n m => m ∈ t.parents n) n m ∧ q.selects m = true

/-- the loop over the parents gets to this one: none before it is selected -/
inductive Tried (m : ResourceNode) : List ResourceNode → Prop where
  | head {ns : List ResourceNode} : Tried m (m :: ns)
  | tail {n : ResourceNode} {ns : List ResourceNode} (hn : ¬ Selected t q n) (hm : Tried m ns) : Tried m (n :: ns)

/-- the search goes on from a node that does not match to a parent -/
def Searches (m n : ResourceNode) : Prop := q.selects n = false ∧ Tried t q m (t.parents n)

/-- what is remembered as selected is -/
def Faithful (memo : Memo) : Prop := ∀ n ∈ t.nodes, memo n.uid = some true → Selected t q n

/-- and the search for it has ended -/
def Ended (memo : Memo) : Prop := ∀ n ∈ t.nodes, memo n.uid = some true → Acc (Searches t q) n

/-- enough fuel gives the answer P, whatever is remembered -/
def Answers {α : Type} (run : ℕ → Memo → Option (α × Memo)) (P : α → Prop) : Prop :=
  ∃ N, ∀ fuel ≥ N, ∀ memo, Faithful t q memo → ∃ a memo', run fuel memo = some (a, memo') ∧ P a ∧
    Faithful t q memo'

/-- what an answer says of the node, and that it leaves what is remembered in order -/
def Returned (n : ResourceNode) (r : Bool × Memo) : Prop :=
  (r.1 = true → Selected t q n) ∧ Acc (Searches t q) n ∧ Faithful t q r.2 ∧ Ended t q r.2

variable {t q}

theorem Tried.mem {m : ResourceNode} {ns : List ResourceNode} (h : Tried t q m ns) : m ∈ ns := by
  induction h with
  | head => exact List.mem_cons_self
  | tail _ _ ih => exact List.mem_cons_of_mem _ ih

theorem Tree.parents_subset (n : ResourceNode) : t.parents n ⊆ t.nodes := by
  intro m hm
  obtain ⟨ref, -, hr⟩ := List.mem_flatMap.1 hm
  exact (List.mem_filter.1 hr).1

theorem selected_iff {n : ResourceNode} (hn : q.selects n = false) :
    Selected t q n ↔ ∃ m ∈ t.parents n, Selected t q m := by
  constructor
  · rintro ⟨m, hp, hm⟩
    obtain rfl | ⟨p, hnp, hpm⟩ := hp.cases_head
    · rw [hn] at hm
      cases hm
    · exact ⟨p, hnp, m, hpm, hm⟩
  · rintro ⟨p, hp, m, hpm, hm⟩
    exact ⟨m, hpm.head hp, hm⟩

/-- an answer that is written keeps what holds of all nodes remembered as selected -/
theorem remember {P : ResourceNode → Prop} {memo : Memo} (h : ∀ n ∈ t.nodes, memo n.uid = some true → P n)
    {n : ResourceNode} (hn : n ∈ t.nodes) {found : Bool} (hf : found = true → P n) :
    ∀ m ∈ t.nodes, Function.update memo n.uid (some found) m.uid = some true → P m := by
  intro m hm hu
  by_cases he : m.uid = n.uid
  · rw [he, Function.update_self, Option.some.injEq] at hu
    rw [List.inj_on_of_nodup_map t.distinct hm hn he]
    exact hf hu
  · rw [Function.update_of_ne he] at hu
    exact h m hm hu

/-! ## Enough fuel answers -/

theorem anyParent_answers {ns : List ResourceNode}
    (h : ∀ n, Tried t q n ns → Answers t q (isTheSelectedOne t q · n) fun found => found = true ↔ Selected t q n) :
    Answers t q (fun fuel => anyParent (isTheSelectedOne t q fuel) ns) fun found =>
      found = true ↔ ∃ m ∈ ns, Selected t q m := by
  induction ns with
  | nil => exact ⟨0, fun _ _ memo hm => ⟨false, memo, rfl, by simp, hm⟩⟩
  | cons n ns ih =>
    obtain ⟨N, hN⟩ := h n .head
    by_cases hn : Selected t q n
    · refine ⟨N, fun fuel hf memo hm => ?_⟩
      obtain ⟨found, memo₁, hr, hb, hm₁⟩ := hN fuel hf memo hm
      exact ⟨true, memo₁, by simp [anyParent, hr, hb.2 hn], by simp [hn], hm₁⟩
    · obtain ⟨N', hN'⟩ := ih fun m hm => h m (.tail hn hm)
      refine ⟨max N N', fun fuel hf memo hm => ?_⟩
      obtain ⟨found, memo₁, hr, hb, hm₁⟩ := hN fuel (le_of_max_le_left hf) memo hm
      obtain rfl : found = false := by simpa using mt hb.1 hn
      obtain ⟨found, memo₂, hr₂, hb₂, hm₂⟩ := hN' fuel (le_of_max_le_right hf) memo₁ hm₁
      exact ⟨found, memo₂, by simp [anyParent, hr, hr₂], by simp [hb₂, hn], hm₂⟩

theorem isTheSelectedOne_answers {n : ResourceNode} (ha : Acc (Searches t q) n) (hn : n ∈ t.nodes) :
    Answers t q (isTheSelectedOne t q · n) fun found => found = true ↔ Selected t q n := by
  induction ha with
  | intro n _ ih =>
    -- a remembered answer and a match need no parents; the fuel is for the other case
    have hq : ∃ N, q.selects n = false → ∀ fuel ≥ N, ∀ memo, Faithful t q memo → ∃ found memo',
        anyParent (isTheSelectedOne t q fuel) (t.parents n) memo = some (found, memo') ∧
          (found = true ↔ ∃ m ∈ t.parents n, Selected t q m) ∧ Faithful t q memo' := by
      cases hs : q.selects n with
      | true => exact ⟨0, by simp⟩
      | false =>
        obtain ⟨N, hN⟩ := anyParent_answers fun m hm => ih m ⟨hs, hm⟩ (Tree.parents_subset n hm.mem)
        exact ⟨N, fun _ => hN⟩
    obtain ⟨N, hN⟩ := hq
    refine ⟨N + 1, fun fuel hf memo hm => ?_⟩
    obtain ⟨fuel, rfl⟩ := Nat.exists_eq_add_of_le' (Nat.le_of_add_left_le hf)
    dsimp only [isTheSelectedOne]
    split_ifs with he hs
    · have ht : memo n.uid = some true := by cases hv : memo n.uid <;> simp_all
      exact ⟨true, memo, by simp [ht], by simp [hm n hn ht], hm⟩
    · have hsel : Selected t q n := ⟨n, .refl, hs⟩
      exact ⟨true, _, rfl, by simp [hsel], remember hm hn fun _ => hsel⟩
    · have hs : q.selects n = false := by simpa using hs
      obtain ⟨found, memo', hr, hb, hm'⟩ := hN hs fuel (by omega) memo hm
      have hb := hb.trans (selected_iff hs).symm
      exact ⟨found, _, by rw [hr]; rfl, hb, remember hm' hn hb.1⟩

open Classical in
theorem selectPods_eq {ns : List ResourceNode} (hn : ∀ n ∈ ns, n ∈ t.nodes)
    (ha : ∀ n ∈ ns, n.isPod → Acc (Searches t q) n) : ∃ N, ∀ fuel ≥ N, ∀ memo, Faithful t q memo →
      selectPods t q fuel ns memo = some (ns.filter fun n => n.isPod ∧ Selected t q n) := by
  induction ns with
  | nil => exact ⟨0, fun _ _ _ _ => rfl⟩
  | cons n ns ih =>
    rw [List.forall_mem_cons] at hn ha
    obtain ⟨N, hN⟩ := ih hn.2 ha.2
    by_cases hp : n.isPod = true
    · obtain ⟨N', hN'⟩ := isTheSelectedOne_answers (ha.1 hp) hn.1
      refine ⟨max N N', fun fuel hf memo hm => ?_⟩
      obtain ⟨found, memo', hr, hb, hm'⟩ := hN' fuel (le_of_max_le_right hf) memo hm
      have hr' := hN fuel (le_of_max_le_left hf) memo' hm'
      by_cases hs : Selected t q n <;> simp_all [selectPods]
    · exact ⟨N, fun fuel hf memo hm => by simp [selectPods, hp, hN fuel hf memo hm]⟩

/-! ## An answer means that the search ends -/

theorem anyParent_returned {selected : ResourceNode → Memo → Option (Bool × Memo)} {ns : List ResourceNode}
    (h : ∀ n ∈ ns, ∀ memo, Faithful t q memo → Ended t q memo → ∀ r ∈ selected n memo, Returned t q n r)
    {memo : Memo} (hm : Faithful t q memo) (he : Ended t q memo) : ∀ r ∈ anyParent selected ns memo,
      (r.1 = true → ∃ m ∈ ns, Selected t q m) ∧ (∀ m, Tried t q m ns → Acc (Searches t q) m) ∧
        Faithful t q r.2 ∧ Ended t q r.2 := by
  induction ns generalizing memo with
  | nil =>
    rintro _ ⟨⟩
    exact ⟨nofun, nofun, hm, he⟩
  | cons n ns ih =>
    rw [List.forall_mem_cons] at h
    intro r hr
    simp only [anyParent, Option.mem_def, Option.bind_eq_bind, Option.bind_eq_some_iff] at hr
    obtain ⟨⟨found, memo₁⟩, h₁, hr⟩ := hr
    obtain ⟨hs, ha, hm₁, he₁⟩ := h.1 memo hm he _ h₁
    cases found with
    | true =>
      cases hr
      have hn := hs rfl
      refine ⟨fun _ => ⟨n, List.mem_cons_self, hn⟩, fun m ht => ?_, hm₁, he₁⟩
      cases ht with
      | head => exact ha
      | tail hne => exact absurd hn hne
    | false =>
      obtain ⟨hs', ha', hm', he'⟩ := ih h.2 hm₁ he₁ r hr
      refine ⟨fun hf => (hs' hf).imp fun m hs => ⟨List.mem_cons_of_mem _ hs.1, hs.2⟩, fun m ht => ?_, hm', he'⟩
      cases ht with
      | head => exact ha
      | tail _ ht => exact ha' m ht

theorem isTheSelectedOne_returned {fuel : ℕ} {n : ResourceNode} (hn : n ∈ t.nodes) {memo : Memo} (hm : Faithful t q memo)
    (he : Ended t q memo) : ∀ r ∈ isTheSelectedOne t q fuel n memo, Returned t q n r := by
  induction fuel generalizing n memo with
  | zero => exact nofun
  | succ fuel ih =>
    intro r hr
    dsimp only [isTheSelectedOne] at hr
    split_ifs at hr with hex hs
    · have ht : memo n.uid = some true := by cases hv : memo n.uid <;> simp_all
      cases hr
      exact ⟨fun _ => hm n hn ht, he n hn ht, hm, he⟩
    · cases hr
      have ha : Acc (Searches t q) n := ⟨n, fun m h => by simp [h.1] at hs⟩
      exact ⟨fun _ => ⟨n, .refl, hs⟩, ha, remember hm hn fun _ => ⟨n, .refl, hs⟩, remember he hn fun _ => ha⟩
    · have hs : q.selects n = false := by simpa using hs
      simp only [Option.mem_def, Option.bind_eq_bind, Option.bind_eq_some_iff] at hr
      obtain ⟨⟨found, memo'⟩, h', hr⟩ := hr
      cases hr
      obtain ⟨hse, hac, hm', he'⟩ := anyParent_returned
        (fun m hmem memo hm he => ih (Tree.parents_subset n hmem) hm he) hm he _ h'
      have ha : Acc (Searches t q) n := ⟨n, fun m h => hac m h.2⟩
      have hse := fun hf => (selected_iff hs).2 (hse hf)
      exact ⟨hse, ha, remember hm' hn hse, remember he' hn fun _ => ha⟩

theorem selectPods_returned {fuel : ℕ} {ns : List ResourceNode} (hn : ∀ n ∈ ns, n ∈ t.nodes) {memo : Memo}
    (hm : Faithful t q memo) (he : Ended t q memo) (h : (selectPods t q fuel ns memo).isSome) :
    ∀ n ∈ ns, n.isPod → Acc (Searches t q) n := by
  induction ns generalizing memo with
  | nil => exact nofun
  | cons n ns ih =>
    rw [List.forall_mem_cons] at hn ⊢
    unfold selectPods at h
    split_ifs at h with hp
    · simp only [Option.bind_eq_bind, Option.isSome_bind, Option.any_eq_true] at h
      obtain ⟨⟨found, memo'⟩, hr, pods, hpods, -⟩ := h
      obtain ⟨-, ha, hm', he'⟩ := isTheSelectedOne_returned hn.1 hm he _ hr
      exact ⟨fun _ => ha, ih hn.2 hm' he' (Option.isSome_of_mem hpods)⟩
    · exact ⟨fun h => absurd h hp, ih hn.2 hm he h⟩

open Classical in
/-- **Pod selection.** Enough fuel gives the pods that are selected, and no others, iff no pod has an endless chain of
ancestors that are searched. -/
theorem selected_pods_exact (t : Tree) (q : Query) :
    (∃ N, ∀ fuel ≥ N, getSelectedPods t q fuel = some (t.nodes.filter fun n => n.isPod ∧ Selected t q n)) ↔
      ∀ n ∈ t.nodes, n.isPod → Acc (Searches t q) n := by
  constructor
  · rintro ⟨N, hN⟩
    have hs : (selectPods t q N t.nodes fun _ => none).isSome := Option.isSome_iff_exists.2 ⟨_, hN N le_rfl⟩
    exact selectPods_returned (fun _ h => h) (fun _ _ h => by cases h) (fun _ _ h => by cases h) hs
  · intro hacyclic
    obtain ⟨N, hN⟩ := selectPods_eq (fun _ h => h) hacyclic
    exact ⟨N, fun fuel hf => hN fuel hf _ fun _ _ h => by cases h⟩

def dbDeployment : ResourceNode := ⟨⟨"apps", "Deployment", "web", "db"⟩, "2", []⟩

/-- a replica set that is its own owner -/
def loopSet : ResourceNode := ⟨⟨"apps", "ReplicaSet", "web", "loop"⟩, "3",
    [⟨"apps", "ReplicaSet", "web", "loop"⟩]⟩

/-- a pod of the deployment, and of the replica set -/
def dbPod : ResourceNode := ⟨⟨"", "Pod", "web", "db-0"⟩, "1", [dbDeployment.toResourceRef, loopSet.toResourceRef]⟩

def loopTree : Tree := ⟨[dbPod, dbDeployment, loopSet], by decide, by decide⟩

def dbQuery : Query := ⟨"db", "Deployment", "apps", ""⟩

/-- the deployment is found before the replica set would be searched for ever -/
theorem selected_pods_before_loop : ∃ N, ∀ fuel ≥ N, ∃ pods, getSelectedPods loopTree dbQuery fuel = some pods ∧
    dbPod ∈ pods := by
  have hp : loopTree.parents dbPod = [dbDeployment, loopSet] := by decide
  have hsel : Selected loopTree dbQuery dbDeployment := ⟨_, .refl, by decide⟩
  obtain ⟨N, hN⟩ := (selected_pods_exact loopTree dbQuery).2 fun n hn hpod => by
    obtain rfl : n = dbPod := by
      revert n
      decide
    refine ⟨_, fun m ⟨_, ht⟩ => ?_⟩
    rw [hp] at ht
    cases ht with
    | head => exact ⟨_, fun _ h => absurd h.1 (by decide)⟩
    | tail hn => exact absurd hsel hn
  refine ⟨N, fun fuel hf => ⟨_, hN fuel hf, ?_⟩⟩
  simp only [List.mem_filter, decide_eq_true_eq]
  exact ⟨by decide, by decide, (selected_iff (by decide)).2 ⟨_, by rw [hp]; exact List.mem_cons_self, hsel⟩⟩

/-- a pod that is its own owner -/
def ownPod : ResourceNode := ⟨⟨"", "Pod", "web", "nginx"⟩, "1", [⟨"", "Pod", "web", "nginx"⟩]⟩

def ownOwner : Tree := ⟨[ownPod], by decide, by decide⟩

/-- **An endless search.** The pods of another deployment are asked for, and no fuel is enough. -/
theorem own_owner_endless : getSelectedPods ownOwner ⟨"db", "Deployment", "apps", "web"⟩ = fun _ => none := by
  funext fuel
  have hp : ownOwner.parents ownPod = [ownPod] := by decide
  have hs : Query.selects ⟨"db", "Deployment", "apps", "web"⟩ ownPod = false := by decide
  have h : isTheSelectedOne ownOwner ⟨"db", "Deployment", "apps", "web"⟩ fuel ownPod (fun _ => none) = none := by
    induction fuel with
    | zero => rfl
    | succ fuel ih => simp [isTheSelectedOne, hs, hp, anyParent, ih]
  have hd : ownPod.isPod = true := by decide
  rw [getSelectedPods, show ownOwner.nodes = [ownPod] from rfl]
  simp [selectPods, hd, h]

end GitOpsDeploy.PodLogs

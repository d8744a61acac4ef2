/-
What the hierarchy traversal visits (`IterateHierarchyV2`), for consistent caches and any order of its maps.

- `hierarchy_complete_iff`: all that is reachable is visited, up to siblings that share a UID, iff it is reached within the
  namespace of its root, or from a cluster-scoped root along owner references alone.
- `hierarchy_calls_once`: no resource is visited twice, only reachable ones are, and cached roots are.
- Witnesses: `hierarchy_complete_service` and `hierarchy_calls_once_tenant`.
- `hierarchy_incomplete`: an inferred child of what a cluster-scoped root owns is lost.
-/
import GitOpsDeploy.ClusterCache.Traversal

namespace GitOpsDeploy.ClusterCache

open List

open DepthFirst Relation

/-! ## Reachable resources -/

/-- reachable from a cached root over ownership edges -/
def Reachable (c : Cache) (keys : List ResourceKey) (k : ResourceKey) : Prop :=
  ∃ root ∈ keys, (c.resource root).isSome ∧ ReflTransGen (Owns c) root k

def ReachableInNamespace (c : Cache) (keys : List ResourceKey) (k : ResourceKey) : Prop :=
  ∃ root ∈ keys, (c.resource root).isSome ∧ ReflTransGen (fun p k => Owns c p k ∧ k.ns = p.ns) root k

def ReachableByUID (c : Cache) (keys : List ResourceKey) (k : ResourceKey) : Prop :=
  ∃ root ∈ keys, (c.resource root).isSome ∧ root.ns = "" ∧ ReflTransGen (OwnsByUID c) root k

/-- children of one parent that share a UID, any number of times -/
def Siblings (c : Cache) : ResourceKey → ResourceKey → Prop :=
  ReflTransGen fun k k' => SameUID c k k' ∧ ∃ p, Owns c p k ∧ Owns c p k'

/-- the action is called on what is reachable and on nothing else, up to siblings that share a UID -/
structure Complete (c : Cache) (keys called : List ResourceKey) : Prop where
  sound : ∀ k ∈ called, Reachable c keys k
  roots : ∀ k ∈ keys, (c.resource k).isSome → k ∈ called
  complete : ∀ k, Reachable c keys k → ∃ k' ∈ called, Siblings c k k'

section Reach

variable {c : Cache} {keys : List ResourceKey} {k j : ResourceKey}

theorem ReachableInNamespace.reachable (h : ReachableInNamespace c keys k) : Reachable c keys k := by
  obtain ⟨root, hr, hc, hp⟩ := h
  exact ⟨root, hr, hc, ReflTransGen.mono (fun _ _ he => he.1) _ _ hp⟩

theorem ReachableByUID.reachable (h : ReachableByUID c keys k) : Reachable c keys k := by
  obtain ⟨root, hr, hc, _, hp⟩ := h
  exact ⟨root, hr, hc, ReflTransGen.mono (fun _ _ he => he.owns) _ _ hp⟩

theorem ReachableInNamespace.step (h : ReachableInNamespace c keys k) (ho : Owns c k j) (hns : j.ns = k.ns) :
    ReachableInNamespace c keys j := by
  obtain ⟨root, hr, hc, hp⟩ := h
  exact ⟨root, hr, hc, hp.tail ⟨ho, hns⟩⟩

theorem ReachableByUID.step (h : ReachableByUID c keys k) (ho : OwnsByUID c k j) : ReachableByUID c keys j := by
  obtain ⟨root, hr, hc, hns, hp⟩ := h
  exact ⟨root, hr, hc, hns, hp.tail ho⟩

/-- below a namespaced root everything is in its namespace -/
theorem Reachable.inNamespace (h : Reachable c keys k) (hk : ∀ root ∈ keys, root.ns ≠ "") :
    ReachableInNamespace c keys k := by
  obtain ⟨root, hr, hc, hp⟩ := h
  suffices k.ns = root.ns ∧ ReflTransGen (fun p k => Owns c p k ∧ k.ns = p.ns) root k from ⟨root, hr, hc, this.2⟩
  induction hp with
  | refl => exact ⟨rfl, .refl⟩
  | tail _ ho ih =>
    obtain ⟨_, _, _, _, hs, _⟩ := id ho
    have hns := hs.resolve_right (ih.1 ▸ hk root hr)
    exact ⟨hns.trans ih.1, ih.2.tail ⟨ho, hns⟩⟩

theorem Siblings.uid (h : Siblings c k j) {r : Resource} (hr : c.resource k = some r) :
    ∃ r', c.resource j = some r' ∧ r'.ref.uid = r.ref.uid := by
  induction h with
  | refl => exact ⟨r, hr, rfl⟩
  | tail _ hed ih =>
    obtain ⟨r₁, hr₁, hu⟩ := ih
    obtain ⟨⟨_, r₂, r', hr₂, hr', he⟩, _⟩ := hed
    rw [hr₁] at hr₂
    cases hr₂
    exact ⟨r', hr', he.symm.trans hu⟩

theorem isSome_resource : (c.resource k).isSome ↔ k ∈ cachedKeys c := by
  rw [mem_cachedKeys, Cache.resource, Option.isSome_map, Option.isSome_iff_exists]

theorem SameUID.refl (h : (c.resource k).isSome) : SameUID c k k := by
  obtain ⟨r, hr⟩ := Option.isSome_iff_exists.1 h
  exact ⟨rfl, r, r, hr, hr, rfl⟩

end Reach

/-! ## The descents from all roots -/

section Phases

variable {c : Cache} (h : Consistent c) (o : TraversalOrder c) {fuel : ℕ} (hfuel : (cachedKeys c).card ≤ fuel)
  (keys : List ResourceKey)

/-- the walk after the roots of the namespaces -/
def namespaceWalk (c : Cache) (o : TraversalOrder c) (fuel : ℕ) (keys : List ResourceKey) (namespaces : List String)
    (w : Walk ResourceKey) : Walk ResourceKey :=
  namespaces.foldl (fun w ns =>
    processNamespaceHierarchy c o (fun _ => true) fuel (c.graphOf o ns) (keysPerNamespace c keys ns) w) w

include h hfuel

theorem namespaceWalk_grows (namespaces : List String) {w : Walk ResourceKey} (hw : ∀ k, w.state k ≠ .inProgress) :
    Grows (graphNext c o) (ReachableInNamespace c keys) w (namespaceWalk c o fuel keys namespaces w) ∧
      ∀ k ∈ keys, k ∈ cachedKeys c → k.ns ∈ namespaces →
        (namespaceWalk c o fuel keys namespaces w).state k ≠ .notCalled := by
  have hcl : ∀ k, ReachableInNamespace c keys k → ∀ j ∈ graphNext c o k, ReachableInNamespace c keys j := by
    intro k hk j hj
    obtain ⟨u, r, hen, hr⟩ := (mem_graphNext h o).1 hj
    obtain ⟨_, _, j', hj', hns, ho⟩ := graph_sound h o hen
    have he : j' = j := (h.keyed j' r hj').symm.trans (h.keyed j r hr)
    subst he
    exact hk.step ho hns
  induction namespaces generalizing w with
  | nil => exact ⟨Grows.refl w, fun k _ _ hns => absurd hns not_mem_nil⟩
  | cons ns namespaces ih =>
    have hke : ∀ k ∈ keysPerNamespace c keys ns,
        k ∈ (cachedKeys c).filter (fun k => k.ns = ns) ∧ ReachableInNamespace c keys k := by
      intro k hk
      obtain ⟨hm, hc⟩ := mem_filter.1 hk
      obtain ⟨hs, hns⟩ := of_decide_eq_true hc
      have hk' : k ∈ cachedKeys c := mem_cachedKeys.2 (Option.isSome_iff_exists.1 hs)
      exact ⟨Finset.mem_filter.2 ⟨hk', hns⟩, k, hm, isSome_resource.2 hk', .refl⟩
    obtain ⟨hg, hca⟩ := processNamespaceHierarchy_grows h o hcl hfuel hke hw
    obtain ⟨hre, ha⟩ := ih (hg.settled hw)
    refine ⟨hg.trans hre, fun k hk hc hns => ?_⟩
    rcases mem_cons.1 hns with hns | hns
    · refine hre.stays (hca k (mem_filter.2 ⟨hk, decide_eq_true ⟨?_, hns⟩⟩))
      exact Option.isSome_iff_exists.2 (mem_cachedKeys.1 hc)
    · exact ha k hk hc hns

variable {k : ResourceKey}

omit hfuel in
/-- of the children of p with the UID of k one is a successor of p -/
theorem graph_step {p : ResourceKey} (ho : Owns c p k) (hns : k.ns = p.ns) :
    ∃ j ∈ graphNext c o p, SameUID c k j ∧ Owns c p j := by
  obtain ⟨_, child, _, hc, _⟩ := id ho
  obtain ⟨r, he⟩ := graph_complete h o ho hns hc
  obtain ⟨_, hu, j, hj, hjn, hpj⟩ := graph_sound h o he
  exact ⟨j, (mem_graphNext h o).2 ⟨_, r, he, hj⟩,
    ⟨hns.trans hjn.symm, child, c.heap r, hc, resource_eq_some.2 ⟨r, hj, rfl⟩, hu.symm⟩, hpj⟩

/-- the walk after the roots of all namespaces -/
def rootsWalk (c : Cache) (o : TraversalOrder c) (fuel : ℕ) (keys : List ResourceKey) : Walk ResourceKey :=
  namespaceWalk c o fuel keys
    (o.namespaces ((keys.filter fun key => (c.resources.lookup key).isSome).map ResourceKey.ns).dedup) Walk.start

theorem rootsWalk_grows : Grows (graphNext c o) (ReachableInNamespace c keys) Walk.start (rootsWalk c o fuel keys) ∧
    ∀ k ∈ keys, (c.resource k).isSome → (rootsWalk c o fuel keys).state k ≠ .notCalled := by
  obtain ⟨hg, hr⟩ := namespaceWalk_grows h o hfuel keys
    (o.namespaces ((keys.filter fun key => (c.resources.lookup key).isSome).map ResourceKey.ns).dedup)
    (w := Walk.start) nofun
  refine ⟨hg, fun k hk hc => hr k hk (isSome_resource.1 hc) ?_⟩
  rw [(o.namespaces_perm _).mem_iff, mem_dedup]
  refine mem_map.2 ⟨k, mem_filter.2 ⟨hk, ?_⟩, rfl⟩
  rwa [Cache.resource, Option.isSome_map] at hc

/-- the walk after the children in other namespaces -/
def crossWalk (c : Cache) (o : TraversalOrder c) (fuel : ℕ) (keys : List ResourceKey) : CrossWalk :=
  processCrossNamespaceChildren c o (fun _ => true) fuel fuel (keysPerNamespace c keys "")
    ⟨rootsWalk c o fuel keys, fun _ => false⟩

theorem crossWalk_crosses :
    Crosses c o (ReachableByUID c keys) ⟨rootsWalk c o fuel keys, fun _ => false⟩ (crossWalk c o fuel keys) ∧
      ∀ k ∈ keys, (c.resource k).isSome → k.ns = "" → (crossWalk c o fuel keys).crossNSTraversed k = true := by
  have hke : ∀ k ∈ keysPerNamespace c keys "", k ∈ cachedKeys c ∧ k.ns = "" ∧ ReachableByUID c keys k := by
    intro k hk
    obtain ⟨hm, hc⟩ := mem_filter.1 hk
    obtain ⟨hs, hns⟩ := of_decide_eq_true hc
    have hk' : k ∈ cachedKeys c := mem_cachedKeys.2 (Option.isSome_iff_exists.1 hs)
    exact ⟨hk', hns, k, hm, isSome_resource.2 hk', hns, .refl⟩
  obtain ⟨hcr, ht⟩ := processCrossNamespaceChildren_crosses (o := o) h (fun k hk j hj => hk.step hj) hfuel
    (w := ⟨rootsWalk c o fuel keys, fun _ => false⟩) hke ((Finset.card_filter_le _ _).trans hfuel)
  refine ⟨hcr, fun k hk hc hns => ht k (mem_filter.2 ⟨hk, decide_eq_true ⟨?_, hns⟩⟩)⟩
  rwa [Cache.resource, Option.isSome_map] at hc

theorem mem_iterateHierarchyV2 (k : ResourceKey) : k ∈ iterateHierarchyV2 c o (fun _ => true) fuel keys ↔
    (crossWalk c o fuel keys).walk.state k ≠ .notCalled := by
  refine (crossWalk_crosses h o hfuel keys).1.walk.mem_called ?_ k
  refine (rootsWalk_grows h o hfuel keys).1.mem_called fun k => ?_
  exact iff_of_false not_mem_nil fun hk => hk rfl

theorem marked_cases (hk : (crossWalk c o fuel keys).walk.state k ≠ .notCalled) :
    ReachableInNamespace c keys k ∨ ReachableByUID c keys k := by
  by_cases hk' : (rootsWalk c o fuel keys).state k = .notCalled
  · exact .inr ((crossWalk_crosses h o hfuel keys).1.walk.new k hk' hk).1
  · exact .inl ((rootsWalk_grows h o hfuel keys).1.new k rfl hk').1

/-- inside the namespace of a root the graph leads to every descendant or to a sibling with its UID -/
theorem ReachableInNamespace.marked (hk : ReachableInNamespace c keys k) :
    ∃ k', (rootsWalk c o fuel keys).state k' ≠ .notCalled ∧ SameUID c k k' ∧ Siblings c k k' := by
  obtain ⟨hg, hr⟩ := rootsWalk_grows h o hfuel keys
  obtain ⟨root, hro, hc, hpa⟩ := hk
  induction hpa with
  | refl => exact ⟨root, hr root hro hc, SameUID.refl hc, .refl⟩
  | tail _ he ih =>
    obtain ⟨p', hp', hs, _⟩ := ih
    have ho := he.1.of_sameUID hs
    obtain ⟨j, hj, hkj, hpj⟩ := graph_step h o ho (he.2.trans hs.1)
    exact ⟨j, (hg.new p' rfl hp').2.2 j hj, hkj, .single ⟨hkj, p', ho, hpj⟩⟩

/-- below cluster-scoped roots the index leads to every descendant over UIDs, unless the graph has been there -/
theorem ReachableByUID.marked (hk : ReachableByUID c keys k) :
    (k.ns = "" → (crossWalk c o fuel keys).crossNSTraversed k = true) ∧
      ∃ k', (crossWalk c o fuel keys).walk.state k' ≠ .notCalled ∧ SameUID c k k' ∧ Siblings c k k' := by
  obtain ⟨hgr, hro⟩ := rootsWalk_grows h o hfuel keys
  obtain ⟨hc, ht⟩ := crossWalk_crosses h o hfuel keys
  obtain ⟨root, hr, hca, hns, hpa⟩ := hk
  induction hpa with
  | refl =>
    exact ⟨fun _ => ht root hr hca hns, root, hc.walk.stays (hro root hr hca),
      SameUID.refl hca, .refl⟩
  | @tail p k _ he ih =>
    have hkc : (c.resource k).isSome := by
      obtain ⟨_, child, _, hch, _⟩ := id he
      exact Option.isSome_of_eq_some hch
    by_cases hpn : p.ns = ""
    · obtain ⟨hcal, hsc⟩ := (hc.new p rfl (ih.1 hpn)).2 k ((mem_crossNext h o hpn).2 he)
      exact ⟨hsc, k, hcal, SameUID.refl hkc, .refl⟩
    have hkn : k.ns = p.ns := by
      obtain ⟨_, _, _, _, hns, _⟩ := he
      exact hns.resolve_right hpn
    refine ⟨fun hk => absurd (hkn.symm.trans hk) hpn, ?_⟩
    obtain ⟨p', hp', hs, _⟩ := ih.2
    have ho := he.of_sameUID hs
    by_cases hg : (rootsWalk c o fuel keys).state p' = .notCalled
    · have hn := (hc.walk.new p' hg hp').2.2 k ((mem_indexNext h o).2 ⟨ho, hkn.trans hs.1⟩)
      exact ⟨k, hn, SameUID.refl hkc, .refl⟩
    · obtain ⟨j, hj, hkj, hpj⟩ := graph_step h o ho.owns (hkn.trans hs.1)
      exact ⟨j, hc.walk.stays ((hgr.new p' rfl hg).2.2 j hj), hkj, .single ⟨hkj, p', ho.owns, hpj⟩⟩

theorem called_reachable (hk : k ∈ iterateHierarchyV2 c o (fun _ => true) fuel keys) :
    ReachableInNamespace c keys k ∨ ReachableByUID c keys k :=
  marked_cases h o hfuel keys ((mem_iterateHierarchyV2 h o hfuel keys k).1 hk)

/-- **The traversal is complete exactly on what the two descents reach.** -/
theorem hierarchy_complete_iff : Complete c keys (iterateHierarchyV2 c o (fun _ => true) fuel keys) ↔
    ∀ k, Reachable c keys k → ∃ k', (ReachableInNamespace c keys k' ∨ ReachableByUID c keys k') ∧
      Siblings c k k' := by
  constructor
  · intro hc k hk
    obtain ⟨k', hk', hs⟩ := hc.complete k hk
    exact ⟨k', called_reachable h o hfuel keys hk', hs⟩
  · intro ha
    refine ⟨fun k hk => ?_, fun k hk hca => ?_, fun k hk => ?_⟩
    · rcases called_reachable h o hfuel keys hk with hk | hk
      · exact hk.reachable
      · exact hk.reachable
    · rw [mem_iterateHierarchyV2 h o hfuel]
      exact (crossWalk_crosses h o hfuel keys).1.walk.stays ((rootsWalk_grows h o hfuel keys).2 k hk hca)
    · obtain ⟨k', hk', hs⟩ := ha k hk
      rcases hk' with hk' | hk'
      · obtain ⟨j, hj, _, hs'⟩ := hk'.marked h o hfuel
        refine ⟨j, (mem_iterateHierarchyV2 h o hfuel keys j).2 ?_, hs.trans hs'⟩
        exact (crossWalk_crosses h o hfuel keys).1.walk.stays hj
      · obtain ⟨_, j, hj, _, hs'⟩ := hk'.marked h o hfuel
        exact ⟨j, (mem_iterateHierarchyV2 h o hfuel keys j).2 hj, hs.trans hs'⟩

/-- **Once each.** Whatever the roots and the orders, no resource is called twice; what is called is reachable, and
cached roots are called. -/
theorem hierarchy_calls_once : (iterateHierarchyV2 c o (fun _ => true) fuel keys).Nodup ∧
    (∀ k ∈ iterateHierarchyV2 c o (fun _ => true) fuel keys, Reachable c keys k) ∧
    ∀ k ∈ keys, (c.resource k).isSome → k ∈ iterateHierarchyV2 c o (fun _ => true) fuel keys := by
  obtain ⟨hg, hr⟩ := rootsWalk_grows h o hfuel keys
  have hc := (crossWalk_crosses h o hfuel keys).1.walk
  refine ⟨?_, fun k hk => (called_reachable h o hfuel keys hk).elim (·.reachable) (·.reachable),
    fun k hk hca => (mem_iterateHierarchyV2 h o hfuel keys k).2 (hc.stays (hr k hk hca))⟩
  obtain ⟨l, hl, hn, hm⟩ := hg.calls
  obtain ⟨l', hl', hn', hm'⟩ := hc.calls
  have heq : iterateHierarchyV2 c o (fun _ => true) fuel keys = l ++ l' := hl'.trans (congrArg (· ++ l') hl)
  rw [heq]
  exact hn.append hn' fun k hk hk' => ((hm k).1 hk).2 ((hm' k).1 hk').1

end Phases

/-! ## An inferred owner below a cluster-scoped one -/

/-- a cluster-scoped resource -/
def tenant : Object :=
  { (default : Object) with apiVersion := "example.org/v1", kind := "Tenant", name := "web", uid := "tenant" }

/-- a Service it owns -/
def service : Object :=
  { (default : Object) with
    apiVersion := "v1", kind := "Service", ns := "prod", name := "web", uid := "service"
    ownerReferences := [⟨"tenant", "web", "Tenant", "example.org/v1"⟩] }

/-- the Endpoints of the Service; its inferred owner reference has no UID -/
def endpoints : Object :=
  { (default : Object) with apiVersion := "v1", kind := "Endpoints", ns := "prod", name := "web", uid := "endpoints" }

def tenantKey : ResourceKey := ⟨"example.org", "Tenant", "", "web"⟩

def serviceKey : ResourceKey := ⟨"", "Service", "prod", "web"⟩

def endpointsKey : ResourceKey := ⟨"", "Endpoints", "prod", "web"⟩

def tenantCache : Cache :=
  run (fun _ _ => true) .empty [.setNode tenant .listed, .setNode service .listed, .setNode endpoints .listed]

theorem tenantCache_consistent : Consistent tenantCache := by
  refine Coherent.consistent (run_coherent _ _ empty_coherent ?_) ?_
  · intro op hop un hun
    simp only [mem_cons, not_mem_nil, or_false] at hop
    rcases hop with rfl | rfl | rfl <;> simp only [Op.objects, mem_singleton] at hun <;> subst hun <;> decide
  · have he : NamedParents Cache.empty := fun k => MultiIndex.not_has_empty "" k
    simp only [tenantCache, run, foldl_cons, foldl_nil, step]
    exact setNode_named (setNode_named (setNode_named he .listed _) .listed _) .listed _

theorem tenantCache_children (u : String) :
    tenantCache.parentUIDToChildren.get u = if u = "tenant" then {serviceKey} else ∅ := by
  ext k
  have ha : (MultiIndex.empty.add "tenant" serviceKey).Has u k ↔
      u = "tenant" ∧ k = serviceKey ∨ (MultiIndex.empty : MultiIndex String ResourceKey).Has u k :=
    MultiIndex.has_add _ _ _ _ _
  rw [or_iff_left (MultiIndex.not_has_empty u k)] at ha
  refine ha.trans ?_
  split_ifs with hu <;> simp [hu]

def tenantChildren (r : ℕ) : SetOrder (tenantCache.parentUIDToChildren.get (tenantCache.heap r).ref.uid) where
  keys := if (tenantCache.heap r).ref.uid = "tenant" then [serviceKey] else []
  nodup := by split_ifs <;> simp
  mem k := by
    rw [tenantCache_children]
    split_ifs <;> simp

def tenantOrder : TraversalOrder tenantCache where
  namespaces l := l
  namespaces_perm l := .refl l
  build _ := ⟨.listed, .listed⟩
  graph _ l := l
  graph_perm _ l := .refl l
  index := tenantChildren
  cross := tenantChildren

theorem hierarchy_calls_once_tenant : (iterateHierarchyV2 tenantCache tenantOrder (fun _ => true) 3
    [tenantKey, serviceKey]).Nodup :=
  (hierarchy_calls_once tenantCache_consistent tenantOrder (by decide +kernel) _).1

/-- **The Endpoints are lost.** From the cluster-scoped root the traversal reaches the Service but not the Endpoints that the
Service owns; from the Service itself it reaches them. -/
theorem hierarchy_incomplete :
    (Consistent tenantCache ∧ (cachedKeys tenantCache).card = 3) ∧
      iterateHierarchyV2 tenantCache tenantOrder (fun _ => true) 3 [tenantKey] =
        [tenantKey, serviceKey] ∧
      iterateHierarchyV2 tenantCache tenantOrder (fun _ => true) 3 [serviceKey] =
        [serviceKey, endpointsKey] ∧
      Reachable tenantCache [tenantKey] endpointsKey ∧
      ¬Complete tenantCache [tenantKey]
        (iterateHierarchyV2 tenantCache tenantOrder (fun _ => true) 3 [tenantKey]) := by
  have hc : iterateHierarchyV2 tenantCache tenantOrder (fun _ => true) 3 [tenantKey] =
      [tenantKey, serviceKey] := by decide +kernel
  have hre : Reachable tenantCache [tenantKey] endpointsKey := by
    have hse : Owns tenantCache tenantKey serviceKey :=
      ⟨tenantCache.heap 0, tenantCache.heap 1, rfl, rfl, by decide, _, mem_singleton_self _, rfl⟩
    have he : Owns tenantCache serviceKey endpointsKey :=
      ⟨tenantCache.heap 1, tenantCache.heap 2, rfl, rfl, by decide, _, mem_singleton_self _, rfl⟩
    exact ⟨_, mem_singleton_self _, rfl, .tail (.single hse) he⟩
  refine ⟨⟨tenantCache_consistent, by decide +kernel⟩, hc, by decide +kernel, hre, fun hco => ?_⟩
  obtain ⟨k, hk, hs⟩ := hco.complete _ hre
  obtain ⟨r, hr, hu⟩ := hs.uid (r := tenantCache.heap 2) rfl
  rw [hc, mem_cons, mem_singleton] at hk
  rcases hk with rfl | rfl
  · cases hr
    exact absurd hu (by decide)
  · cases hr
    exact absurd hu (by decide)

/-- from the Service as the root the traversal is complete -/
theorem hierarchy_complete_service :
    Complete tenantCache [serviceKey]
      (iterateHierarchyV2 tenantCache tenantOrder (fun _ => true) 3 [serviceKey]) := by
  refine (hierarchy_complete_iff tenantCache_consistent tenantOrder (by decide +kernel) _).2 fun k hk => ?_
  exact ⟨k, .inl (hk.inNamespace fun root hr => mem_singleton.1 hr ▸ by decide), .refl⟩

end GitOpsDeploy.ClusterCache

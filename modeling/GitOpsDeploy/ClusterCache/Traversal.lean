/-
The two descents of the hierarchy traversal, against the ownership edges of the cache.
-/
import GitOpsDeploy.ClusterCache.Hierarchy
import GitOpsDeploy.ClusterCache.Loops

namespace GitOpsDeploy.ClusterCache

open List

open DepthFirst

/-! ## Ownership -/

/-- the indexes agree with the cached resources -/
structure Consistent (c : Cache) : Prop where
  keyed : ∀ k r, c.resources.lookup k = some r → (c.heap r).resourceKey = k
  split : ∀ k r, c.resources.lookup k = some r ↔ ∃ m, c.nsIndex.lookup k.ns = some m ∧ m.lookup k = some r
  inNs : ∀ ns m k r, c.nsIndex.lookup ns = some m → m.lookup k = some r → k.ns = ns
  children : ∀ u k, c.parentUIDToChildren.Has u k ↔ u ≠ "" ∧ OwnedBy c u k

variable {c : Cache} {p k : ResourceKey}

theorem Coherent.consistent (h : Coherent c noExtra) (hn : NamedParents c) : Consistent c where
  keyed k r hk := (h.keyed k r hk).2
  split := h.split
  inNs := h.inNs
  children u k := by
    by_cases hu : u = ""
    · subst hu
      exact iff_of_false (hn k) fun hk => hk.1 rfl
    · rw [h.children u k hu]
      simp [noExtra, hu]

/-- the resource cached under k -/
def Cache.resource (c : Cache) (k : ResourceKey) : Option Resource := (c.resources.lookup k).map c.heap

/-- the UID of the owner that a reference of a cached child names -/
def Cache.namedUID (c : Cache) (child : Resource) (ref : OwnerReference) : Option String :=
  if ref.uid ≠ "" then some ref.uid
  else
    match parseGroup ref.apiVersion with
    | none => none
    | some group => (c.resource ⟨group, ref.kind, child.ref.ns, ref.name⟩).map fun owner => owner.ref.uid

/-- the resource under p owns the one under k -/
def Owns (c : Cache) (p k : ResourceKey) : Prop :=
  ∃ parent child, c.resource p = some parent ∧ c.resource k = some child ∧ (k.ns = p.ns ∨ p.ns = "") ∧
    ∃ ref ∈ child.ownerRefs, c.namedUID child ref = some parent.ref.uid

/-- ... over a reference that has its UID -/
def OwnsByUID (c : Cache) (p k : ResourceKey) : Prop :=
  ∃ parent child, c.resource p = some parent ∧ c.resource k = some child ∧ (k.ns = p.ns ∨ p.ns = "") ∧
    parent.ref.uid ≠ "" ∧ parent.ref.uid ∈ child.ownerUIDs

theorem OwnsByUID.owns (h : OwnsByUID c p k) : Owns c p k := by
  obtain ⟨parent, child, hp, hk, hns, hu, hm⟩ := h
  obtain ⟨ref, hr, he⟩ := mem_map.1 hm
  refine ⟨parent, child, hp, hk, hns, ref, hr, ?_⟩
  rw [Cache.namedUID, he, if_pos hu]

/-- the two resources are the same object to its owners: same UID, same namespace -/
def SameUID (c : Cache) (k k' : ResourceKey) : Prop :=
  k.ns = k'.ns ∧ ∃ r r', c.resource k = some r ∧ c.resource k' = some r' ∧ r.ref.uid = r'.ref.uid

/-- what a resource owns depends on its UID and its namespace only -/
theorem Owns.of_sameUID {p' : ResourceKey} (h : Owns c p k) (hp : SameUID c p p') : Owns c p' k := by
  obtain ⟨parent, child, hpa, hk, hns, ref, hre, hu⟩ := h
  obtain ⟨hpn, r, r', hr, hr', he⟩ := hp
  rw [hpa] at hr
  cases hr
  exact ⟨r', child, hr', hk, by rwa [← hpn], ref, hre, by rw [hu, he]⟩

theorem OwnsByUID.of_sameUID {p' : ResourceKey} (h : OwnsByUID c p k) (hp : SameUID c p p') : OwnsByUID c p' k := by
  obtain ⟨parent, child, hpa, hk, hns, hne, hm⟩ := h
  obtain ⟨hpn, r, r', hr, hr', he⟩ := hp
  rw [hpa] at hr
  cases hr
  exact ⟨r', child, hr', hk, by rwa [← hpn], by rwa [← he], by rwa [← he]⟩

/-! ## The graph of a namespace -/

/-- the graph has r below p as the child with UID u -/
def Graph.Entry (graph : Graph) (p : ResourceKey) (u : String) (r : ℕ) : Prop :=
  ∃ children : AList fun _ : String => ℕ, graph.lookup p = some children ∧ children.lookup u = some r

section BuildGraph

variable {graph : Graph} {p : ResourceKey} {u : String} {r : ℕ}

theorem entry_insert {q : ResourceKey} {v : String} {child : ℕ} :
    Graph.Entry (graph.insert q (((graph.lookup q).getD ∅).insert v child)) p u r ↔
      if p = q ∧ u = v then r = child else graph.Entry p u r := by
  unfold Graph.Entry
  by_cases hp : p = q
  · subst hp
    by_cases hu : u = v
    · subst hu
      simp [AList.lookup_insert, eq_comm]
    · rw [AList.lookup_insert]
      simp only [Option.some.injEq, exists_eq_left', AList.lookup_insert_ne hu, hu, and_false, if_false]
      cases graph.lookup p <;> simp
  · rw [AList.lookup_insert_ne hp]
    simp [hp]

variable (heap : ℕ → Resource)

/-- the child is put in, or some child with its UID is there -/
theorem addChild_cases (child : ℕ) (graph : Graph) (node : ℕ) :
    (addChild heap child graph node = graph ∧ ∃ r, graph.Entry (heap node).resourceKey (heap child).ref.uid r) ∨
      addChild heap child graph node = graph.insert (heap node).resourceKey
        (((graph.lookup (heap node).resourceKey).getD ∅).insert (heap child).ref.uid child) := by
  unfold addChild
  dsimp only
  cases hr : ((graph.lookup (heap node).resourceKey).getD ∅ : AList fun _ : String => ℕ).lookup (heap child).ref.uid with
  | none => exact .inr rfl
  | some r =>
    dsimp only
    split_ifs
    · exact .inr rfl
    · refine .inl ⟨rfl, r, ?_⟩
      unfold Graph.Entry
      cases hq : graph.lookup (heap node).resourceKey with
      | none =>
        rw [hq] at hr
        simp at hr
      | some children =>
        rw [hq] at hr
        exact ⟨children, rfl, hr⟩

theorem addChild_sound {heap : ℕ → Resource} {child node : ℕ} (h : (addChild heap child graph node).Entry p u r) :
    graph.Entry p u r ∨ p = (heap node).resourceKey ∧ u = (heap child).ref.uid ∧ r = child := by
  rcases addChild_cases heap child graph node with ⟨he, _⟩ | he
  · exact .inl (he ▸ h)
  · rw [he, entry_insert] at h
    split_ifs at h with hpu
    · exact .inr ⟨hpu.1, hpu.2, h⟩
    · exact .inl h

theorem addChild_keeps (child node : ℕ) (h : ∃ r, graph.Entry p u r) :
    ∃ r, (addChild heap child graph node).Entry p u r := by
  rcases addChild_cases heap child graph node with ⟨he, _⟩ | he
  · rwa [he]
  · obtain ⟨r, hr⟩ := h
    rw [he]
    simp only [entry_insert]
    by_cases hpu : p = (heap node).resourceKey ∧ u = (heap child).ref.uid
    · exact ⟨child, by rw [if_pos hpu]⟩
    · exact ⟨r, by rwa [if_neg hpu]⟩

theorem addChild_adds (child : ℕ) (graph : Graph) (node : ℕ) :
    ∃ r, (addChild heap child graph node).Entry (heap node).resourceKey (heap child).ref.uid r := by
  rcases addChild_cases heap child graph node with ⟨he, h⟩ | he
  · rwa [he]
  · rw [he]
    simp only [entry_insert, and_self, if_true]
    exact ⟨child, rfl⟩

theorem foldl_addChild (pairs : List (ℕ × ℕ)) (graph : Graph) :
    (∀ p u r, (pairs.foldl (fun graph x => addChild heap x.1 graph x.2) graph).Entry p u r → graph.Entry p u r ∨
      ∃ x ∈ pairs, p = (heap x.2).resourceKey ∧ u = (heap x.1).ref.uid ∧ r = x.1) ∧
    (∀ p u, (∃ r, graph.Entry p u r) → ∃ r, (pairs.foldl (fun graph x => addChild heap x.1 graph x.2) graph).Entry
      p u r) ∧
    ∀ x ∈ pairs, ∃ r, (pairs.foldl (fun graph x => addChild heap x.1 graph x.2) graph).Entry (heap x.2).resourceKey
      (heap x.1).ref.uid r := by
  induction pairs generalizing graph with
  | nil => exact ⟨fun p u r h => .inl h, fun p u h => h, fun x hx => absurd hx not_mem_nil⟩
  | cons x pairs ih =>
    obtain ⟨hs, hk, ha⟩ := ih (addChild heap x.1 graph x.2)
    refine ⟨fun p u r h => ?_, fun p u h => hk p u (addChild_keeps heap x.1 x.2 h), fun y hy => ?_⟩
    · rcases hs p u r h with h | ⟨y, hy, h⟩
      · rcases addChild_sound h with h | h
        · exact .inl h
        · exact .inr ⟨x, mem_cons_self, h⟩
      · exact .inr ⟨y, mem_cons_of_mem _ hy, h⟩
    · rcases mem_cons.1 hy with rfl | hy
      · exact hk _ _ (addChild_adds heap y.1 graph y.2)
      · exact ha y hy

/-- the children and the owners that `buildGraph` puts together -/
def ownedPairs (o : GraphOrder) (nsNodes : ResourceMap) : List (ℕ × ℕ) :=
  (o.children.entries nsNodes.entries).flatMap fun e => (heap e.2).ownerRefs.flatMap fun ownerRef =>
    match ownerUID heap nsNodes (heap e.2) ownerRef with
    | none => []
    | some uid => (((o.byUID.entries nsNodes.entries).map Sigma.snd).filter fun node => (heap node).ref.uid = uid).map
        fun node => (e.2, node)

theorem buildGraph_eq (o : GraphOrder) (nsNodes : ResourceMap) :
    buildGraph heap o nsNodes = (ownedPairs heap o nsNodes).foldl (fun graph x => addChild heap x.1 graph x.2) ∅ := by
  unfold buildGraph ownedPairs
  dsimp only
  rw [foldl_flatMap]
  congr 1
  funext graph e
  rw [foldl_flatMap]
  congr 1
  funext graph ownerRef
  cases ownerUID heap nsNodes (heap e.2) ownerRef with
  | none => rfl
  | some uid => rw [foldl_map]

theorem mem_ownedPairs {heap : ℕ → Resource} {o : GraphOrder} {nsNodes : ResourceMap} {child node : ℕ} :
    (child, node) ∈ ownedPairs heap o nsNodes ↔ ∃ k l, nsNodes.lookup k = some child ∧
      nsNodes.lookup l = some node ∧
      ∃ ref ∈ (heap child).ownerRefs, ownerUID heap nsNodes (heap child) ref = some (heap node).ref.uid := by
  have hen : ∀ (o : RangeOrder) (e : Σ _ : ResourceKey, ℕ),
      e ∈ o.entries nsNodes.entries ↔ nsNodes.lookup e.1 = some e.2 :=
    fun o e => (o.perm _).mem_iff.trans AList.mem_lookup_iff.symm
  simp only [ownedPairs, mem_flatMap]
  constructor
  · intro ⟨e, he, ref, hr, hm⟩
    split at hm
    · cases hm
    · next uid hu =>
      obtain ⟨node', hn, hp⟩ := mem_map.1 hm
      cases hp
      obtain ⟨hn, he'⟩ := mem_filter.1 hn
      obtain ⟨e', hm', rfl⟩ := mem_map.1 hn
      exact ⟨e.1, e'.1, (hen _ e).1 he, (hen _ e').1 hm', ref, hr, by rw [hu, of_decide_eq_true he']⟩
  · intro ⟨k, l, hk, hl, ref, hr, hu⟩
    refine ⟨⟨k, child⟩, (hen _ _).2 hk, ref, hr, ?_⟩
    rw [hu]
    refine mem_map.2 ⟨node, mem_filter.2 ⟨mem_map.2 ⟨⟨l, node⟩, (hen _ _).2 hl, rfl⟩, ?_⟩, rfl⟩
    exact decide_eq_true rfl

end BuildGraph

section NamespaceGraph

variable {c : Cache} (h : Consistent c) (o : TraversalOrder c)

def Cache.graphOf (c : Cache) (o : TraversalOrder c) (ns : String) : Graph :=
  buildGraph c.heap (o.build ns) ((c.nsIndex.lookup ns).getD ∅)

variable {k : ResourceKey} {r : ℕ} {ns : String}

theorem resource_eq_some {c : Cache} {res : Resource} :
    c.resource k = some res ↔ ∃ r, c.resources.lookup k = some r ∧ c.heap r = res := by
  simp [Cache.resource, Option.map_eq_some_iff]

include h

theorem Consistent.lookup_ns :
    ((c.nsIndex.lookup ns).getD ∅).lookup k = some r ↔ c.resources.lookup k = some r ∧ k.ns = ns :=
  split_iff.2 ⟨h.split, h.inNs⟩ ns k r

theorem Consistent.ownerUID_eq {child : Resource} (hns : child.ref.ns = ns) (ref : OwnerReference) :
    ownerUID c.heap ((c.nsIndex.lookup ns).getD ∅) child ref = c.namedUID child ref := by
  have hl : ∀ group, ((c.nsIndex.lookup ns).getD ∅).lookup ⟨group, ref.kind, child.ref.ns, ref.name⟩ =
      c.resources.lookup ⟨group, ref.kind, child.ref.ns, ref.name⟩ :=
    fun group => Option.ext fun r => h.lookup_ns.trans (and_iff_left hns)
  unfold ownerUID Cache.namedUID Cache.resource
  split_ifs
  · rfl
  · cases parseGroup ref.apiVersion with
    | none => rfl
    | some group => simp [hl, Option.map_map, Function.comp_def]

theorem Consistent.heap_ns (hk : c.resources.lookup k = some r) : (c.heap r).ref.ns = k.ns := by
  rw [← h.keyed k r hk]
  rfl

theorem graph_sound {p : ResourceKey} {u : String} (he : (c.graphOf o ns).Entry p u r) :
    p.ns = ns ∧ (c.heap r).ref.uid = u ∧ ∃ k, c.resources.lookup k = some r ∧ k.ns = ns ∧ Owns c p k := by
  rw [Cache.graphOf, buildGraph_eq] at he
  rcases (foldl_addChild _ _ _).1 p u r he with ⟨children, hn, _⟩ | ⟨x, hx, hp, hu, hr⟩
  · cases hn
  · obtain ⟨k, l, hk, hl, ref, hre, hui⟩ := mem_ownedPairs.1 hx
    obtain ⟨hk, hkn⟩ := h.lookup_ns.1 hk
    obtain ⟨hl, hln⟩ := h.lookup_ns.1 hl
    have hpl : p = l := hp.trans (h.keyed l x.2 hl)
    subst hpl hr
    rw [h.ownerUID_eq ((h.heap_ns hk).trans hkn)] at hui
    exact ⟨hln, hu.symm, k, hk, hkn, _, _, resource_eq_some.2 ⟨x.2, hl, rfl⟩, resource_eq_some.2 ⟨x.1, hk, rfl⟩,
      .inl (hkn.trans hln.symm), ref, hre, hui⟩

theorem graph_complete {p : ResourceKey} (ho : Owns c p k) (hns : k.ns = p.ns) {child : Resource}
    (hc : c.resource k = some child) : ∃ r, (c.graphOf o p.ns).Entry p child.ref.uid r := by
  obtain ⟨parent, child', hp, hk, _, ref, hre, hu⟩ := ho
  rw [hc] at hk
  cases hk
  obtain ⟨node, hn, rfl⟩ := resource_eq_some.1 hp
  obtain ⟨ch, hch, rfl⟩ := resource_eq_some.1 hc
  have hpa : (ch, node) ∈ ownedPairs c.heap (o.build p.ns) ((c.nsIndex.lookup p.ns).getD ∅) := by
    refine mem_ownedPairs.2 ⟨k, p, h.lookup_ns.2 ⟨hch, hns⟩, h.lookup_ns.2 ⟨hn, rfl⟩, ref, hre, ?_⟩
    rw [h.ownerUID_eq ((h.heap_ns hch).trans hns), hu]
  obtain ⟨r, hr⟩ := (foldl_addChild c.heap (ownedPairs c.heap (o.build p.ns) ((c.nsIndex.lookup p.ns).getD ∅)) ∅).2.2
    (ch, node) hpa
  rw [h.keyed p node hn] at hr
  refine ⟨r, ?_⟩
  rw [Cache.graphOf, buildGraph_eq]
  exact hr

end NamespaceGraph

/-! ## The descent inside a namespace -/

def cachedKeys (c : Cache) : Finset ResourceKey := c.resources.keys.toFinset

theorem mem_cachedKeys {c : Cache} {k : ResourceKey} : k ∈ cachedKeys c ↔ ∃ r, c.resources.lookup k = some r := by
  rw [cachedKeys, mem_toFinset, ← AList.mem_keys, ← AList.lookup_isSome, Option.isSome_iff_exists]

section Descent

variable {c : Cache} (h : Consistent c) (o : TraversalOrder c)

/-- the children of a key in the graph of its namespace, in the order they are met -/
def graphNext (c : Cache) (o : TraversalOrder c) (k : ResourceKey) : List ResourceKey :=
  match (c.graphOf o k.ns).lookup k with
  | none => []
  | some children => (o.graph k children.entries).map fun (child : Σ _ : String, ℕ) => (c.heap child.2).resourceKey

/-- `iterateChildrenV2` of the resource under a key of the namespace -/
def visitGraph (c : Cache) (o : TraversalOrder c) (ns : String) (fuel : ℕ) (k : ResourceKey) (w : Walk ResourceKey) :
    Walk ResourceKey :=
  match c.resources.lookup k with
  | none => w
  | some r => iterateChildrenV2 c o (fun _ => true) (c.graphOf o ns) fuel r w

include h

variable {ns : String} {fuel : ℕ}

theorem graph_entry_cached {p : ResourceKey} {u : String} {r : ℕ} (he : (c.graphOf o ns).Entry p u r) :
    c.resources.lookup (c.heap r).resourceKey = some r ∧ (c.heap r).resourceKey.ns = ns := by
  obtain ⟨_, _, k, hk, hns, _⟩ := graph_sound h o he
  rw [h.keyed k r hk]
  exact ⟨hk, hns⟩

theorem mem_graphNext {k j : ResourceKey} : j ∈ graphNext c o k ↔
    ∃ u r, (c.graphOf o k.ns).Entry k u r ∧ c.resources.lookup j = some r := by
  unfold graphNext
  split
  · next hk =>
    refine iff_of_false not_mem_nil ?_
    intro ⟨u, r, ⟨children, hc, _⟩, _⟩
    rw [hk] at hc
    cases hc
  · next children hk =>
    rw [mem_map]
    constructor
    · intro ⟨child, hch, hj⟩
      have hl : children.lookup child.1 = some child.2 :=
        AList.mem_lookup_iff.2 ((o.graph_perm k _).mem_iff.1 hch)
      have he : (c.graphOf o k.ns).Entry k child.1 child.2 := ⟨children, hk, hl⟩
      exact ⟨child.1, child.2, he, hj ▸ (graph_entry_cached h o he).1⟩
    · intro ⟨u, r, ⟨children', hc, hr⟩, hj⟩
      rw [hk] at hc
      cases hc
      exact ⟨⟨u, r⟩, (o.graph_perm k _).mem_iff.2 (AList.mem_lookup_iff.1 hr), h.keyed j r hj⟩

/-- a loop over the children of a key in the graph of its namespace -/
theorem graph_loop (k : ResourceKey) (w : Walk ResourceKey)
    {f : Walk ResourceKey → (Σ _ : String, ℕ) → Walk ResourceKey}
    (hf : ∀ w child, f w child = if w.state (c.heap child.2).resourceKey = .notCalled then
      callThen c (fun _ => true) child.2 w (iterateChildrenV2 c o (fun _ => true) (c.graphOf o k.ns) fuel child.2) else w) :
    (match (c.graphOf o k.ns).lookup k with
      | none => w
      | some children => (o.graph k children.entries).foldl f w) =
      (graphNext c o k).foldl (visitNew (visitGraph c o k.ns fuel)) w := by
  unfold graphNext
  cases hc : (c.graphOf o k.ns).lookup k with
  | none => rfl
  | some children =>
    rw [foldl_map]
    refine foldl_ext _ _ _ fun w' child hch => ?_
    have he : (c.graphOf o k.ns).Entry k child.1 child.2 :=
      ⟨children, hc, AList.mem_lookup_iff.2 ((o.graph_perm k _).mem_iff.1 hch)⟩
    have hca := (graph_entry_cached h o he).1
    rw [hf, visitNew]
    simp only [callThen, if_true, visitGraph, hca]

/-- the descent over the graph of a namespace is a depth-first search -/
theorem visitGraph_visits (ns : String) :
    Visits ((cachedKeys c).filter fun k => k.ns = ns) (graphNext c o) (visitGraph c o ns) where
  inside k hk j hj := by
    obtain ⟨_, hns⟩ := Finset.mem_filter.1 hk
    obtain ⟨u, r, he, hr⟩ := (mem_graphNext h o).1 hj
    have hc := graph_entry_cached h o he
    rw [h.keyed j r hr] at hc
    exact Finset.mem_filter.2 ⟨mem_cachedKeys.2 ⟨r, hr⟩, hc.2.trans hns⟩
  step fuel k hk w hnew := by
    obtain ⟨hc, rfl⟩ := Finset.mem_filter.1 hk
    obtain ⟨r, hr⟩ := mem_cachedKeys.1 hc
    have hs : ¬w.state k = .completed := by
      rw [hnew]
      exact CallState.noConfusion
    have hv : visitGraph c o k.ns (fuel + 1) k w =
        iterateChildrenV2 c o (fun _ => true) (c.graphOf o k.ns) (fuel + 1) r w := by
      simp only [visitGraph, hr]
    rw [hv, iterateChildrenV2, h.keyed k r hr, if_neg hs]
    refine congrArg (Walk.set · k .completed) (graph_loop h o k _ fun w' child => ?_)
    cases w'.state (c.heap child.2).resourceKey <;> rfl

/-- one root: what `processNamespaceHierarchy` does is a visit -/
theorem process_root {k : ResourceKey} (hk : k ∈ (cachedKeys c).filter fun k => k.ns = ns)
    {w : Walk ResourceKey} (hw : w.state k ≠ .inProgress) :
    processNamespaceHierarchy c o (fun _ => true) fuel (c.graphOf o ns) [k] w =
      visitNew (visitGraph c o ns (fuel + 1)) w k := by
  obtain ⟨hc, rfl⟩ := Finset.mem_filter.1 hk
  obtain ⟨r, hr⟩ := mem_cachedKeys.1 hc
  simp only [processNamespaceHierarchy, foldl_cons, foldl_nil, hr, visitNew]
  cases hs : w.state k with
  | inProgress => exact absurd hs hw
  | completed => simp
  | notCalled =>
    have hca : ∀ next, callThen c (fun _ => true) r w next = next (w.log k) := by
      intro next
      simp only [callThen, if_true, h.keyed k r hr]
    rw [hca, (visitGraph_visits h o k.ns).step fuel k hk (w.log k) hs]
    exact congrArg (Walk.set · k .completed) (graph_loop h o k _ fun w' child => rfl)

theorem processNamespaceHierarchy_grows {R : ResourceKey → Prop}
    (hR : ∀ k, R k → ∀ j ∈ graphNext c o k, R j) (hf : (cachedKeys c).card ≤ fuel) {keys : List ResourceKey}
    (hke : ∀ k ∈ keys, k ∈ (cachedKeys c).filter (fun k => k.ns = ns) ∧ R k) {w : Walk ResourceKey}
    (hw : ∀ k, w.state k ≠ .inProgress) :
    Grows (graphNext c o) R w (processNamespaceHierarchy c o (fun _ => true) fuel (c.graphOf o ns) keys w) ∧
      ∀ k ∈ keys, (processNamespaceHierarchy c o (fun _ => true) fuel (c.graphOf o ns) keys w).state k ≠
        .notCalled := by
  induction keys generalizing w with
  | nil => exact ⟨Grows.refl w, fun k hk => absurd hk not_mem_nil⟩
  | cons k keys ih =>
    have hr : Grows (graphNext c o) R w
          (processNamespaceHierarchy c o (fun _ => true) fuel (c.graphOf o ns) [k] w) ∧
        (processNamespaceHierarchy c o (fun _ => true) fuel (c.graphOf o ns) [k] w).state k ≠ .notCalled := by
      rw [process_root h o (hke k mem_cons_self).1 (hw k)]
      have hl : (left ((cachedKeys c).filter fun k => k.ns = ns) w).card ≤ fuel + 1 :=
        (card_left_le _ w).trans ((Finset.card_filter_le _ _).trans (Nat.le_succ_of_le hf))
      have hk : ∀ j ∈ [k], j ∈ (cachedKeys c).filter (fun k => k.ns = ns) ∧ R j :=
        fun j hj => mem_singleton.1 hj ▸ hke k mem_cons_self
      obtain ⟨hg, hc⟩ := visitAll_grows (visitGraph_visits h o ns) (fun k _ => hR k) hk hl
      exact ⟨hg, hc k mem_cons_self⟩
    obtain ⟨hg, hc⟩ := ih (fun j hj => hke j (mem_cons_of_mem _ hj)) (hr.1.settled hw)
    refine ⟨hr.1.trans hg, fun j hj => ?_⟩
    rcases mem_cons.1 hj with rfl | hj
    · exact hg.stays hr.2
    · exact hc j hj

end Descent

/-! ## The descent over the index -/

section Index

variable {c : Cache} (h : Consistent c) (o : TraversalOrder c)

/-- the children of a key in the index that are in its namespace, in the order they are met -/
def indexNext (c : Cache) (o : TraversalOrder c) (k : ResourceKey) : List ResourceKey :=
  match c.resources.lookup k with
  | none => []
  | some r => (o.index r).keys.filter fun j => (c.resources.lookup j).isSome ∧ j.ns = k.ns

/-- all children of a key in the index -/
def crossNext (c : Cache) (o : TraversalOrder c) (k : ResourceKey) : List ResourceKey :=
  match c.resources.lookup k with
  | none => []
  | some r => (o.cross r).keys

/-- what is done with a child after the action has been called on it -/
def visitIndex (c : Cache) (o : TraversalOrder c) (fuel : ℕ) (k : ResourceKey) (w : Walk ResourceKey) : Walk ResourceKey :=
  match c.resources.lookup k with
  | none => w
  | some r => (iterateChildrenUsingIndex c o (fun _ => true) fuel r (w.set k .inProgress)).set k .completed

include h

variable {j k : ResourceKey}

theorem mem_childrenSet {r : ℕ} (hk : c.resources.lookup k = some r) :
    j ∈ c.parentUIDToChildren.get (c.heap r).ref.uid ↔ ∃ parent child, c.resource k = some parent ∧
      c.resource j = some child ∧ parent.ref.uid ≠ "" ∧ parent.ref.uid ∈ child.ownerUIDs := by
  have hh := h.children (c.heap r).ref.uid j
  refine (show _ ↔ c.parentUIDToChildren.Has (c.heap r).ref.uid j from Iff.rfl).trans (hh.trans ?_)
  constructor
  · intro ⟨hne, r', hr', hm⟩
    exact ⟨c.heap r, c.heap r', resource_eq_some.2 ⟨r, hk, rfl⟩, resource_eq_some.2 ⟨r', hr', rfl⟩, hne, hm⟩
  · intro ⟨parent, child, hp, hc, hne, hm⟩
    obtain ⟨r1, hr1, rfl⟩ := resource_eq_some.1 hp
    obtain ⟨r2, hr2, rfl⟩ := resource_eq_some.1 hc
    rw [hk] at hr1
    cases hr1
    exact ⟨hne, r2, hr2, hm⟩

theorem mem_indexNext : j ∈ indexNext c o k ↔ OwnsByUID c k j ∧ j.ns = k.ns := by
  unfold indexNext
  split
  · next hk =>
    refine iff_of_false not_mem_nil ?_
    intro ⟨⟨parent, _, hp, _⟩, _⟩
    simp [Cache.resource, hk] at hp
  · next r hk =>
    rw [mem_filter, (o.index r).mem, mem_childrenSet h hk, decide_eq_true_eq]
    constructor
    · intro ⟨⟨parent, child, hp, hc, hne, hm⟩, _, hns⟩
      exact ⟨⟨parent, child, hp, hc, .inl hns, hne, hm⟩, hns⟩
    · intro ⟨⟨parent, child, hp, hc, _, hne, hm⟩, hns⟩
      obtain ⟨r', hr', _⟩ := resource_eq_some.1 hc
      exact ⟨⟨parent, child, hp, hc, hne, hm⟩, by rw [hr']; rfl, hns⟩

theorem mem_crossNext (hns : k.ns = "") : j ∈ crossNext c o k ↔ OwnsByUID c k j := by
  unfold crossNext
  split
  · next hk =>
    refine iff_of_false not_mem_nil ?_
    intro ⟨parent, _, hp, _⟩
    simp [Cache.resource, hk] at hp
  · next r hk =>
    rw [(o.cross r).mem, mem_childrenSet h hk]
    simp only [OwnsByUID, hns, or_true, true_and]

theorem index_loop {fuel : ℕ} {r : ℕ} (hk : c.resources.lookup k = some r) (w : Walk ResourceKey) :
    iterateChildrenUsingIndex c o (fun _ => true) (fuel + 1) r w =
      (indexNext c o k).foldl (visitNew (visitIndex c o fuel)) w := by
  simp only [indexNext, hk, iterateChildrenUsingIndex]
  rw [foldl_filter]
  refine foldl_ext _ _ _ fun w' j _ => ?_
  unfold visitNew
  cases hj : c.resources.lookup j with
  | none => cases w'.state j <;> simp
  | some child =>
    have hc := h.keyed j child hj
    cases w'.state j with
    | notCalled =>
      by_cases hns : j.ns = k.ns
      · simp [h.heap_ns hj, h.heap_ns hk, hns, callThen, hc, visitIndex, hj]
      · simp [h.heap_ns hj, h.heap_ns hk, hns]
    | _ => simp

/-- the descent over the index inside a namespace is a depth-first search -/
theorem visitIndex_visits : Visits (cachedKeys c) (indexNext c o) (visitIndex c o) where
  inside k _ j hj := by
    obtain ⟨⟨_, child, _, hc, _⟩, _⟩ := (mem_indexNext h o).1 hj
    obtain ⟨r, hr, _⟩ := resource_eq_some.1 hc
    exact mem_cachedKeys.2 ⟨r, hr⟩
  step fuel k hk w _ := by
    obtain ⟨r, hr⟩ := mem_cachedKeys.1 hk
    rw [← index_loop h o hr]
    simp only [visitIndex, hr]

end Index

/-! ## Children in other namespaces -/

/-- from w to w' the walk has grown over the index, and every key traversed since then is in R and cluster-scoped, with all
its children called and those in the cluster scope traversed -/
structure Crosses (c : Cache) (o : TraversalOrder c) (R : ResourceKey → Prop) (w w' : CrossWalk) : Prop where
  walk : Grows (indexNext c o) R w.walk w'.walk
  stays : ∀ k, w.crossNSTraversed k = true → w'.crossNSTraversed k = true
  new : ∀ k, w.crossNSTraversed k = false → w'.crossNSTraversed k = true → (k.ns = "" ∧ R k) ∧
    ∀ j ∈ crossNext c o k, w'.walk.state j ≠ .notCalled ∧ (j.ns = "" → w'.crossNSTraversed j = true)

section Cross

variable {c : Cache} {o : TraversalOrder c} {R : ResourceKey → Prop} {w w' w'' : CrossWalk}

theorem Crosses.refl (w : CrossWalk) : Crosses c o R w w where
  walk := Grows.refl w.walk
  stays _ h := h
  new k h h' := by
    rw [h] at h'
    cases h'

theorem Crosses.trans (h : Crosses c o R w w') (h' : Crosses c o R w' w'') : Crosses c o R w w'' where
  walk := h.walk.trans h'.walk
  stays k hk := h'.stays k (h.stays k hk)
  new k hk hk'' := by
    cases hk' : w'.crossNSTraversed k with
    | false => exact h'.new k hk' hk''
    | true =>
      obtain ⟨hR, hc⟩ := h.new k hk hk'
      exact ⟨hR, fun j hj => ⟨h'.walk.stays (hc j hj).1, fun hns => h'.stays j ((hc j hj).2 hns)⟩⟩

/-- keys that have not been traversed -/
def untraversed (c : Cache) (w : CrossWalk) : Finset ResourceKey :=
  (cachedKeys c).filter fun k => w.crossNSTraversed k = false

theorem Crosses.untraversed_card (h : Crosses c o R w w') : (untraversed c w').card ≤ (untraversed c w).card := by
  refine Finset.card_le_card fun k hk => ?_
  obtain ⟨hc, hk⟩ := Finset.mem_filter.1 hk
  refine Finset.mem_filter.2 ⟨hc, ?_⟩
  by_contra hne
  rw [h.stays k (Bool.not_eq_false _ ▸ hne)] at hk
  cases hk

variable {k j : ResourceKey}

theorem Crosses.enter (hk : w.walk.state k = .notCalled) (hR : R k)
    (h : Crosses c o R ⟨(w.walk.log k).set k .inProgress, w.crossNSTraversed⟩ w')
    (hn : ∀ j ∈ indexNext c o k, w'.walk.state j ≠ .notCalled) :
    Crosses c o R w ⟨w'.walk.set k .completed, w'.crossNSTraversed⟩ where
  walk := Grows.enter hk hR h.walk hn
  stays := h.stays
  new j hj hj' := by
    obtain ⟨hRj, hc⟩ := h.new j hj hj'
    refine ⟨hRj, fun i hi => ⟨?_, (hc i hi).2⟩⟩
    by_cases hik : i = k
    · subst hik
      rw [Walk.state_set_self]
      exact CallState.noConfusion
    · rw [Walk.state_set_of_ne _ hik]
      exact (hc i hi).1

variable (h : Consistent c) (hR : ∀ k, R k → ∀ j, OwnsByUID c k j → R j) {depth : ℕ}
    (hdepth : (cachedKeys c).card ≤ depth)
include h hR hdepth

/-- the descent over the index below a child on which the action has just been called -/
theorem index_descent {r : ℕ} (hr : c.resources.lookup j = some r) (hRj : R j) {w : Walk ResourceKey}
    (hn : w.state j = .notCalled) : Grows (indexNext c o) R ((w.log j).set j .inProgress)
        (iterateChildrenUsingIndex c o (fun _ => true) depth r ((w.log j).set j .inProgress)) ∧ ∀ i ∈ indexNext c o j,
        (iterateChildrenUsingIndex c o (fun _ => true) depth r ((w.log j).set j .inProgress)).state i ≠ .notCalled := by
  have hj : j ∈ cachedKeys c := mem_cachedKeys.2 ⟨r, hr⟩
  obtain ⟨d, rfl⟩ : ∃ d, depth = d + 1 :=
    Nat.exists_eq_add_one.2 (Nat.lt_of_lt_of_le (Finset.card_pos.2 ⟨j, hj⟩) hdepth)
  rw [index_loop h o hr]
  refine visitAll_grows (visitIndex_visits h o) (fun k _ hk i hi => hR k hk i ((mem_indexNext h o).1 hi).1)
    (fun i hi => ⟨(visitIndex_visits h o).inside j hj i hi, hR j hRj i ((mem_indexNext h o).1 hi).1⟩) ?_
  exact left_enter hj hn ((card_left_le _ w).trans hdepth)

/-- **One child.** It is called, and traversed when it is in the cluster scope. -/
theorem crossChild_crosses {again : List ResourceKey → CrossWalk → CrossWalk} {bound : ℕ}
    (hj : j ∈ cachedKeys c) (hRj : R j) (ha : j.ns = "" → ∀ w, (untraversed c w).card ≤ bound →
      Crosses c o R w (again [j] w) ∧ (again [j] w).crossNSTraversed j = true) (hw : (untraversed c w).card ≤ bound) :
    Crosses c o R w (processCrossNamespaceChild c o (fun _ => true) depth again w j) ∧
      (processCrossNamespaceChild c o (fun _ => true) depth again w j).walk.state j ≠ .notCalled ∧
      (j.ns = "" → (processCrossNamespaceChild c o (fun _ => true) depth again w j).crossNSTraversed j = true) := by
  obtain ⟨r, hr⟩ := mem_cachedKeys.1 hj
  obtain ⟨m, hm, _⟩ := (h.split j r).1 hr
  simp only [processCrossNamespaceChild, hr, hm, if_true, h.keyed j r hr]
  by_cases hn : w.walk.state j = .notCalled
  · rw [if_neg (not_not.2 hn)]
    obtain ⟨hg, hne⟩ := index_descent (o := o) h hR hdepth hr hRj hn
    have hc : Crosses c o R ⟨(w.walk.log j).set j .inProgress, w.crossNSTraversed⟩
        ⟨iterateChildrenUsingIndex c o (fun _ => true) depth r ((w.walk.log j).set j .inProgress),
          w.crossNSTraversed⟩ := by
      refine ⟨hg, fun _ hk => hk, fun k hk hk' => ?_⟩
      rw [hk] at hk'
      cases hk'
    split_ifs with hns
    · obtain ⟨ha', ht⟩ := ha hns
        ⟨iterateChildrenUsingIndex c o (fun _ => true) depth r ((w.walk.log j).set j .inProgress), w.crossNSTraversed⟩ hw
      refine ⟨Crosses.enter hn hRj (hc.trans ha') fun i hi => ha'.walk.stays (hne i hi), ?_,
        fun _ => ht⟩
      rw [Walk.state_set_self]
      exact CallState.noConfusion
    · refine ⟨Crosses.enter hn hRj hc hne, ?_, fun hns' => absurd hns' hns⟩
      rw [Walk.state_set_self]
      exact CallState.noConfusion
  · rw [if_pos hn]
    split_ifs with hns
    · obtain ⟨ha', ht⟩ := ha hns w hw
      exact ⟨ha', ha'.walk.stays hn, fun _ => ht⟩
    · exact ⟨Crosses.refl w, hn, fun hns' => absurd hns' hns⟩

theorem foldl_crossChild_crosses {again : List ResourceKey → CrossWalk → CrossWalk} {bound : ℕ}
    (ha : ∀ j ∈ cachedKeys c, R j → j.ns = "" → ∀ w, (untraversed c w).card ≤ bound →
      Crosses c o R w (again [j] w) ∧ (again [j] w).crossNSTraversed j = true)
    {js : List ResourceKey} (hjs : ∀ j ∈ js, j ∈ cachedKeys c ∧ R j) (hw : (untraversed c w).card ≤ bound) :
    Crosses c o R w (js.foldl (processCrossNamespaceChild c o (fun _ => true) depth again) w) ∧
      ∀ j ∈ js, (js.foldl (processCrossNamespaceChild c o (fun _ => true) depth again) w).walk.state j ≠ .notCalled ∧
        (j.ns = "" →
          (js.foldl (processCrossNamespaceChild c o (fun _ => true) depth again) w).crossNSTraversed j = true) := by
  induction js generalizing w with
  | nil => exact ⟨Crosses.refl w, fun j hj => absurd hj not_mem_nil⟩
  | cons j js ih =>
    obtain ⟨hj, hRj⟩ := hjs j mem_cons_self
    obtain ⟨hc, hca, ht⟩ := crossChild_crosses h hR hdepth hj hRj (ha j hj hRj) hw
    obtain ⟨hr, hal⟩ := ih (fun i hi => hjs i (mem_cons_of_mem _ hi)) (hc.untraversed_card.trans hw)
    refine ⟨hc.trans hr, fun i hi => ?_⟩
    rcases mem_cons.1 hi with rfl | hi
    · exact ⟨hr.walk.stays hca, fun hns => hr.stays _ (ht hns)⟩
    · exact hal i hi

omit h hR hdepth in
theorem mark_self (w : CrossWalk) (k : ResourceKey) : (w.mark k).crossNSTraversed k = true := Function.update_self _ _ _

omit h hR hdepth in
theorem mark_of_ne (w : CrossWalk) (hjk : j ≠ k) : (w.mark k).crossNSTraversed j = w.crossNSTraversed j :=
  Function.update_of_ne hjk _ _

omit h hR hdepth in
/-- a key that is marked and whose children are called and traversed -/
theorem Crosses.mark (hns : k.ns = "") (hRk : R k) (hc : Crosses c o R (w.mark k) w')
    (hch : ∀ j ∈ crossNext c o k, w'.walk.state j ≠ .notCalled ∧ (j.ns = "" → w'.crossNSTraversed j = true)) :
    Crosses c o R w w' := by
  refine ⟨hc.walk, fun j hj => hc.stays j ?_, fun j hj hj' => ?_⟩
  · by_cases hjk : j = k
    · rw [hjk, mark_self]
    · rwa [mark_of_ne w hjk]
  · by_cases hjk : j = k
    · subst hjk
      exact ⟨⟨hns, hRk⟩, hch⟩
    · exact hc.new j (by rwa [mark_of_ne w hjk]) hj'

omit h hR hdepth in
theorem untraversed_mark {fuel : ℕ} (hk : k ∈ cachedKeys c) (hn : w.crossNSTraversed k = false)
    (hw : (untraversed c w).card ≤ fuel + 1) : (untraversed c (w.mark k)).card ≤ fuel := by
  have hss : untraversed c (w.mark k) ⊂ untraversed c w := by
    refine (Finset.ssubset_iff_of_subset fun j hj => ?_).2 ⟨k, Finset.mem_filter.2 ⟨hk, hn⟩, fun hm => ?_⟩
    · obtain ⟨hc, hj⟩ := Finset.mem_filter.1 hj
      refine Finset.mem_filter.2 ⟨hc, ?_⟩
      by_cases hjk : j = k
      · rwa [hjk]
      · rwa [mark_of_ne w hjk] at hj
    · have hs := (Finset.mem_filter.1 hm).2
      rw [mark_self] at hs
      cases hs
  have hlt := Finset.card_lt_card hss
  omega

theorem processCrossNamespaceChildren_crosses {fuel : ℕ} {keys : List ResourceKey}
    (hke : ∀ k ∈ keys, k ∈ cachedKeys c ∧ k.ns = "" ∧ R k) (hw : (untraversed c w).card ≤ fuel) :
    Crosses c o R w (processCrossNamespaceChildren c o (fun _ => true) depth fuel keys w) ∧
      ∀ k ∈ keys, (processCrossNamespaceChildren c o (fun _ => true) depth fuel keys w).crossNSTraversed k = true := by
  induction fuel generalizing keys w with
  | zero =>
    refine ⟨Crosses.refl w, fun k hk => ?_⟩
    have he := Finset.card_eq_zero.1 (Nat.le_zero.1 hw)
    by_contra hne
    have hm : k ∈ untraversed c w := Finset.mem_filter.2 ⟨(hke k hk).1, Bool.not_eq_true _ ▸ hne⟩
    rw [he] at hm
    exact Finset.notMem_empty k hm
  | succ fuel ih =>
    -- one key, then the rest of the list
    have hon : ∀ k ∈ keys, ∀ {w : CrossWalk}, (untraversed c w).card ≤ fuel + 1 →
        Crosses c o R w (processCrossNamespaceChildren c o (fun _ => true) depth (fuel + 1) [k] w) ∧
          (processCrossNamespaceChildren c o (fun _ => true) depth (fuel + 1) [k] w).crossNSTraversed k = true := by
      intro k hk w hw
      obtain ⟨hca, hns, hRk⟩ := hke k hk
      obtain ⟨r, hr⟩ := mem_cachedKeys.1 hca
      have hn : crossNext c o k = (o.cross r).keys := by simp only [crossNext, hr]
      simp only [processCrossNamespaceChildren, foldl_cons, foldl_nil, hr]
      split_ifs with ht
      · exact ⟨Crosses.refl w, ht⟩
      · have ha : ∀ j ∈ cachedKeys c, R j → j.ns = "" → ∀ w, (untraversed c w).card ≤ fuel →
            Crosses c o R w (processCrossNamespaceChildren c o (fun _ => true) depth fuel [j] w) ∧
              (processCrossNamespaceChildren c o (fun _ => true) depth fuel [j] w).crossNSTraversed j = true := by
          intro j hj hRj hjn w' hw'
          have hs : ∀ i ∈ [j], i ∈ cachedKeys c ∧ i.ns = "" ∧ R i :=
            fun i hi => mem_singleton.1 hi ▸ ⟨hj, hjn, hRj⟩
          exact ⟨(ih hs hw').1, (ih hs hw').2 j mem_cons_self⟩
        have hch : ∀ j ∈ crossNext c o k, j ∈ cachedKeys c ∧ R j := by
          intro j hj
          have ho := (mem_crossNext h o hns).1 hj
          obtain ⟨_, child, _, hch, _⟩ := id ho
          obtain ⟨r', hr', _⟩ := resource_eq_some.1 hch
          exact ⟨mem_cachedKeys.2 ⟨r', hr'⟩, hR k hRk j ho⟩
        obtain ⟨hc, hchi⟩ := foldl_crossChild_crosses h hR hdepth ha hch
          (untraversed_mark hca (Bool.not_eq_true _ ▸ ht) hw)
        rw [← hn]
        exact ⟨hc.mark hns hRk hchi, hc.stays k (mark_self w k)⟩
    induction keys generalizing w with
    | nil => exact ⟨Crosses.refl w, fun k hk => absurd hk not_mem_nil⟩
    | cons k keys ihkeys =>
      obtain ⟨hc, ht⟩ := hon k mem_cons_self hw
      obtain ⟨hre, hal⟩ := ihkeys (fun j hj => hke j (mem_cons_of_mem _ hj))
        (hc.untraversed_card.trans hw) fun j hj => hon j (mem_cons_of_mem _ hj)
      refine ⟨hc.trans hre, fun j hj => ?_⟩
      rcases mem_cons.1 hj with rfl | hj
      · exact hre.stays j ht
      · exact hal j hj

end Cross

end GitOpsDeploy.ClusterCache

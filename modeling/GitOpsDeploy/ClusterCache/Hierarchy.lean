/-
Hierarchy traversal of the cluster cache (`IterateHierarchyV2` and its helpers in `gitops-engine/pkg/cache/cluster.go`,
`iterateChildrenV2` in `resource.go`).

Roots and what they own inside a namespace are walked over a graph of that namespace, which resolves owner references
without a UID. What cluster-scoped roots own elsewhere is walked over the index of children by UID. Both share the marks of
the resources the action has been called on.

The action is a predicate on resources, so it cannot look at earlier calls; the walk keeps the keys it was called on. Ranges
over Go maps run in any order, a `TraversalOrder`; each of them is run at most once for a key. The recursion has fuel.
-/
import GitOpsDeploy.Core.DepthFirst
import GitOpsDeploy.ClusterCache.Cluster

namespace GitOpsDeploy.ClusterCache

open DepthFirst (CallState Walk)

/-! ## The graph of a namespace -/

/-- the children of each parent, by their UIDs -/
abbrev Graph := AList fun _ : ResourceKey => AList fun _ : String => ℕ

/-- the UID of the owner that a reference of the child names -/
def ownerUID (heap : ℕ → Resource) (nsNodes : ResourceMap) (childNode : Resource) (ownerRef : OwnerReference) :
    Option String :=
  if ownerRef.uid ≠ "" then some ownerRef.uid
  else
    match parseGroup ownerRef.apiVersion with
    | none => none
    | some group =>
      (nsNodes.lookup ⟨group, ownerRef.kind, childNode.ref.ns, ownerRef.name⟩).map fun node => (heap node).ref.uid

/-- the child in the graph below the owner; of children with one UID the one with the least key stays -/
def addChild (heap : ℕ → Resource) (childNode : ℕ) (graph : Graph) (uidNode : ℕ) : Graph :=
  let uidNodeKey := (heap uidNode).resourceKey
  let children := (graph.lookup uidNodeKey).getD ∅
  match children.lookup (heap childNode).ref.uid with
  | none => graph.insert uidNodeKey (children.insert (heap childNode).ref.uid childNode)
  | some r =>
    if (heap childNode).resourceKey.text < (heap r).resourceKey.text then
      graph.insert uidNodeKey (children.insert (heap childNode).ref.uid childNode)
    else graph

/-- the orders of the two ranges over the nodes in `buildGraph` -/
structure GraphOrder where
  byUID : RangeOrder
  children : RangeOrder

def buildGraph (heap : ℕ → Resource) (o : GraphOrder) (nsNodes : ResourceMap) : Graph :=
  let nodesByUID uid := ((o.byUID.entries nsNodes.entries).map Sigma.snd).filter fun node => (heap node).ref.uid = uid
  (o.children.entries nsNodes.entries).foldl (fun graph e =>
    (heap e.2).ownerRefs.foldl (fun graph ownerRef =>
      match ownerUID heap nsNodes (heap e.2) ownerRef with
      | none => graph
      | some uid => (nodesByUID uid).foldl (addChild heap e.2) graph) graph) ∅

/-! ## Orders of the ranges -/

/-- a range over a set of keys -/
structure SetOrder (S : Finset ResourceKey) where
  keys : List ResourceKey
  nodup : keys.Nodup
  mem : ∀ k, k ∈ keys ↔ k ∈ S

structure TraversalOrder (c : Cache) where
  /-- of the namespaces of the roots -/
  namespaces : List String → List String
  namespaces_perm : ∀ l, (namespaces l).Perm l
  build : String → GraphOrder
  /-- of the children of a key in a graph -/
  graph : ResourceKey → List (Σ _ : String, ℕ) → List (Σ _ : String, ℕ)
  graph_perm : ∀ key l, (graph key l).Perm l
  /-- of the children of a resource in the index, in `iterateChildrenUsingIndex` and in `processCrossNamespaceChildren` -/
  index : ∀ r, SetOrder (c.parentUIDToChildren.get (c.heap r).ref.uid)
  cross : ∀ r, SetOrder (c.parentUIDToChildren.get (c.heap r).ref.uid)

/-! ## Walks -/

section Walks

variable (c : Cache) (o : TraversalOrder c) (action : Resource → Bool)

/-- calls the action on a resource and goes on with `next` when it returns true -/
def callThen (r : ℕ) (w : Walk ResourceKey) (next : Walk ResourceKey → Walk ResourceKey) : Walk ResourceKey :=
  let w := w.log (c.heap r).resourceKey
  if action (c.heap r) then next w else w

/-- a circular dependency is logged and not given to the action -/
def iterateChildrenV2 (graph : Graph) : ℕ → ℕ → Walk ResourceKey → Walk ResourceKey
  | 0, _, w => w
  | fuel + 1, r, w =>
    let key := (c.heap r).resourceKey
    if w.state key = .completed then w
    else
      let w := w.set key .inProgress
      let w :=
        match graph.lookup key with
        | none => w
        | some children => (o.graph key children.entries).foldl (fun w (child : Σ _ : String, ℕ) =>
            match w.state (c.heap child.2).resourceKey with
            | .notCalled => callThen c action child.2 w (iterateChildrenV2 graph fuel child.2)
            | .inProgress => w
            | .completed => w) w
      w.set key .completed

def processNamespaceHierarchy (fuel : ℕ) (graph : Graph) (namespaceKeys : List ResourceKey) (w : Walk ResourceKey) :
    Walk ResourceKey :=
  namespaceKeys.foldl (fun w key =>
    match c.resources.lookup key with
    | none => w
    | some res =>
      if w.state key = .completed then w
      else
        callThen c action res w fun w =>
          let w := w.set key .inProgress
          let w :=
            match graph.lookup key with
            | none => w
            | some children => (o.graph key children.entries).foldl (fun w (child : Σ _ : String, ℕ) =>
                if w.state (c.heap child.2).resourceKey = CallState.notCalled then
                  callThen c action child.2 w (iterateChildrenV2 c o action graph fuel child.2)
                else w) w
          w.set key .completed) w

def iterateChildrenUsingIndex : ℕ → ℕ → Walk ResourceKey → Walk ResourceKey
  | 0, _, w => w
  | fuel + 1, parent, w =>
    (o.index parent).keys.foldl (fun w childKey =>
      if w.state childKey ≠ .notCalled then w
      else
        match c.resources.lookup childKey with
        | none => w
        | some child =>
          -- children in other namespaces are left to processCrossNamespaceChildren
          if (c.heap child).ref.ns ≠ (c.heap parent).ref.ns then w
          else
            callThen c action child w fun w =>
              (iterateChildrenUsingIndex fuel child (w.set childKey .inProgress)).set childKey .completed) w

/-- the walk with the cluster-scoped keys whose children in other namespaces have been traversed -/
structure CrossWalk where
  walk : Walk ResourceKey
  crossNSTraversed : ResourceKey → Bool

def CrossWalk.mark (w : CrossWalk) (key : ResourceKey) : CrossWalk :=
  { w with crossNSTraversed := Function.update w.crossNSTraversed key true }

/-- one child of a cluster-scoped resource; `again` is the recursive call, `depth` the fuel of the descent over the index -/
def processCrossNamespaceChild (depth : ℕ) (again : List ResourceKey → CrossWalk → CrossWalk) (w : CrossWalk)
    (childKey : ResourceKey) : CrossWalk :=
  match c.resources.lookup childKey with
  | none => w
  | some child =>
    if w.walk.state childKey ≠ .notCalled then
      -- the action was called below the roots of the cluster scope, but not for children elsewhere
      if childKey.ns = "" then again [childKey] w else w
    else
      match c.nsIndex.lookup childKey.ns with
      | none => w
      | some _ =>
        let walk := w.walk.log (c.heap child).resourceKey
        if action (c.heap child) then
          let walk := iterateChildrenUsingIndex c o action depth child (walk.set childKey .inProgress)
          let w := { w with walk }
          let w := if childKey.ns = "" then again [childKey] w else w
          { w with walk := w.walk.set childKey .completed }
        else { w with walk }

def processCrossNamespaceChildren (depth : ℕ) : ℕ → List ResourceKey → CrossWalk → CrossWalk
  | 0, _, w => w
  | fuel + 1, clusterScopedKeys, w =>
    clusterScopedKeys.foldl (fun w clusterKey =>
      if w.crossNSTraversed clusterKey then w
      else
        match c.resources.lookup clusterKey with
        | none => w.mark clusterKey
        | some clusterResource => (o.cross clusterResource).keys.foldl
            (processCrossNamespaceChild c o action depth (processCrossNamespaceChildren depth fuel)) (w.mark clusterKey)) w

/-- the keys of the cached roots in a namespace, in the order they are given in -/
def keysPerNamespace (keys : List ResourceKey) (ns : String) : List ResourceKey :=
  keys.filter fun key => (c.resources.lookup key).isSome ∧ key.ns = ns

/-- the keys of the resources the action is called on, in order -/
def iterateHierarchyV2 (fuel : ℕ) (keys : List ResourceKey) : List ResourceKey :=
  let namespaces := ((keys.filter fun key => (c.resources.lookup key).isSome).map ResourceKey.ns).dedup
  let walk := (o.namespaces namespaces).foldl (fun w ns =>
    let graph := buildGraph c.heap (o.build ns) ((c.nsIndex.lookup ns).getD ∅)
    processNamespaceHierarchy c o action fuel graph (keysPerNamespace c keys ns) w) Walk.start
  (processCrossNamespaceChildren c o action fuel fuel (keysPerNamespace c keys "") ⟨walk, fun _ => false⟩).walk.called

end Walks

end GitOpsDeploy.ClusterCache

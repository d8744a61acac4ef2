/-
The cluster cache (`gitops-engine/pkg/cache/cluster.go`): cached resources and the indexes over them.

Resources are shared pointers whose owner references are rewritten in place, so they live in a heap and the maps hold
references to it. Every caller of `setNode` passes a resource it has just made with `newResource`; the model allocates it
there. A range over a Go map runs in an arbitrary order, a `RangeOrder`. Event handlers are not modelled.
-/
import Mathlib.Data.List.AList
import GitOpsDeploy.Core.MultiIndex
import GitOpsDeploy.ClusterCache.Resource

namespace GitOpsDeploy.ClusterCache

abbrev ResourceMap := AList fun _ : ResourceKey => ℕ

structure Cache where
  heap : ℕ → Resource
  /-- the next free reference -/
  next : ℕ
  resources : ResourceMap
  nsIndex : AList fun _ : String => ResourceMap
  /-- the keys of the children of each owner UID -/
  parentUIDToChildren : MultiIndex String ResourceKey

def Cache.empty : Cache :=
  { heap := fun _ => default, next := 0, resources := ∅, nsIndex := ∅, parentUIDToChildren := .empty }

/-- the order of a range over a map of resources -/
structure RangeOrder where
  entries : List (Σ _ : ResourceKey, ℕ) → List (Σ _ : ResourceKey, ℕ)
  perm : ∀ l, (entries l).Perm l

def RangeOrder.listed : RangeOrder := ⟨id, fun l => .refl l⟩

def updateParentUIDToChildren (index : MultiIndex String ResourceKey) (childKey : ResourceKey)
    (oldResource : Option Resource) (newResource : Resource) : MultiIndex String ResourceKey :=
  let oldParents := ((oldResource.map Resource.ownerUIDs).getD []).filter (· ≠ "")
  let newParents := newResource.ownerUIDs.filter (· ≠ "")
  let index := (oldParents.filter (· ∉ newParents)).foldl (fun index uid => index.remove uid childKey) index
  (newParents.filter (· ∉ oldParents)).foldl (fun index uid => index.add uid childKey) index

/-- sets or clears an inferred owner reference of a child, in the resource and in the index -/
def relink (c : Cache) (child : ℕ) (childKey : ResourceKey) (parent : Resource) (shouldBeParent : Bool) : Cache :=
  { c with
    heap := Function.update c.heap child ((c.heap child).setOwnerRef parent.toOwnerRef shouldBeParent)
    parentUIDToChildren :=
      if parent.ref.uid = "" then c.parentUIDToChildren
      else if shouldBeParent then c.parentUIDToChildren.add parent.ref.uid childKey
      else c.parentUIDToChildren.remove parent.ref.uid childKey }

/-- n as a parent of the resource v under key k -/
def linkChild (n : ℕ) (c : Cache) (k : ResourceKey) (v : ℕ) : Cache :=
  match (c.heap n).isInferredParentOf with
  | none => c
  | some isParent => if mightHaveInferredOwner (c.heap v) then relink c v k (c.heap n) (isParent k) else c

/-- n as a child of the resource v -/
def linkParent (n : ℕ) (c : Cache) (v : ℕ) : Cache :=
  match (c.heap v).isInferredParentOf with
  | none => c
  | some isParent =>
    if mightHaveInferredOwner (c.heap n) then
      relink c n (c.heap n).resourceKey (c.heap v) (isParent (c.heap n).resourceKey)
    else c

/-- one turn of the loop of `setNode` over the resources of the namespace -/
def linkInferred (n : ℕ) (c : Cache) (e : Σ _ : ResourceKey, ℕ) : Cache := linkParent n (linkChild n c e.1 e.2) e.2

/-- the two maps and the index with the new node, before inferred owners are looked at -/
def storeNode (c : Cache) (n : Resource) : Cache :=
  let key := n.resourceKey
  let ns := (c.nsIndex.lookup key.ns).getD ∅
  { heap := Function.update c.heap c.next n
    next := c.next + 1
    resources := c.resources.insert key c.next
    nsIndex := c.nsIndex.insert key.ns (ns.insert key c.next)
    parentUIDToChildren :=
      updateParentUIDToChildren c.parentUIDToChildren key ((c.resources.lookup key).map c.heap) n }

def setNode (o : RangeOrder) (c : Cache) (n : Resource) : Cache :=
  if n.isInferredParentOf.isSome || mightHaveInferredOwner n then
    (o.entries (((storeNode c n).nsIndex.lookup n.resourceKey.ns).getD ∅).entries).foldl (linkInferred c.next)
      (storeNode c n)
  else storeNode c n

/-- one turn of the loop of `onNodeRemoved`; the code does not look at the resource itself otherwise -/
def unlinkInferred (existing : Resource) (isParent : ResourceKey → Bool) (c : Cache)
    (e : Σ _ : ResourceKey, ℕ) : Cache :=
  if mightHaveInferredOwner (c.heap e.2) && isParent e.1 then relink c e.2 e.1 existing false else c

/-- the two maps without the key; an empty namespace is dropped -/
def dropNode (c : Cache) (key : ResourceKey) : Cache :=
  { c with
    resources := c.resources.erase key
    nsIndex :=
      match c.nsIndex.lookup key.ns with
      | none => c.nsIndex
      | some ns => if (ns.erase key).entries = [] then c.nsIndex.erase key.ns else c.nsIndex.insert key.ns (ns.erase key) }

/-- removes the ownership references to a removed resource from the children it was inferred to own -/
def unlinkChildren (o : RangeOrder) (existing : Resource) (ns : ResourceMap) (c : Cache) : Cache :=
  match existing.isInferredParentOf with
  | none => c
  | some isParent => (o.entries ns.entries).foldl (unlinkInferred existing isParent) c

/-- takes the key out of the children of the owners of the resource at ref -/
def forgetOwners (ref : ℕ) (key : ResourceKey) (c : Cache) : Cache :=
  { c with
    parentUIDToChildren := ((c.heap ref).ownerUIDs.filter (· ≠ "")).foldl (fun index uid => index.remove uid key)
      c.parentUIDToChildren }

def onNodeRemoved (o : RangeOrder) (c : Cache) (key : ResourceKey) : Cache :=
  match c.resources.lookup key with
  | none => c
  | some ref =>
    let ns := ((c.nsIndex.lookup key.ns).map fun ns => ns.erase key).getD ∅
    forgetOwners ref key (unlinkChildren o (c.heap ref) ns (dropNode c key))

/-- the orders of the ranges inside `replaceResourceCache` -/
structure ReplaceOrder where
  /-- in the call of `setNode` for the i-th resource -/
  set : ℕ → RangeOrder
  /-- of the loop over all cached resources -/
  keys : RangeOrder
  /-- in the call of `onNodeRemoved` for a key -/
  remove : ResourceKey → RangeOrder

variable (o : ReplaceOrder)

/-- a listed resource replaces the cached one when that is missing or of another version -/
def replaceNode (c : Cache) (res : Resource × ℕ) : Cache :=
  if ((c.resources.lookup res.1.resourceKey).map fun old => (c.heap old).resourceVersion) = some res.1.resourceVersion then c
  else setNode (o.set res.2) c res.1

/-- a cached resource of the kind and namespace that is not listed is removed -/
def removeStale (group kind ns : String) (listed : List ResourceKey) (c : Cache) (e : Σ _ : ResourceKey, ℕ) : Cache :=
  if e.1.kind ≠ kind || e.1.group ≠ group || ns ≠ "" && e.1.ns ≠ ns then c
  else if e.1 ∈ listed then c
  else onNodeRemoved (o.remove e.1) c e.1

def replaceResourceCache (c : Cache) (group kind : String) (resources : List Resource) (ns : String) : Cache :=
  let c := resources.zipIdx.foldl (replaceNode o) c
  (o.keys.entries c.resources.entries).foldl (removeStale o group kind ns (resources.map Resource.resourceKey)) c

inductive Op where
  | setNode (un : Object) (o : RangeOrder)
  | onNodeRemoved (key : ResourceKey) (o : RangeOrder)
  | replaceResourceCache (group kind : String) (uns : List Object) (ns : String) (o : ReplaceOrder)

/-- the objects an operation puts into the cache -/
def Op.objects : Op → List Object
  | .setNode un _ => [un]
  | .onNodeRemoved _ _ => []
  | .replaceResourceCache _ _ uns _ _ => uns

def step (matchString : String → String → Bool) (c : Cache) : Op → Cache
  | .setNode un o => setNode o c (newResource matchString un)
  | .onNodeRemoved key o => onNodeRemoved o c key
  | .replaceResourceCache group kind uns ns o =>
    replaceResourceCache o c group kind (uns.map (newResource matchString)) ns

def run (matchString : String → String → Bool) (c : Cache) (ops : List Op) : Cache := ops.foldl (step matchString) c

end GitOpsDeploy.ClusterCache

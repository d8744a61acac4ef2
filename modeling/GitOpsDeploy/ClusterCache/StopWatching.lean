/-
Watches of a kind that the cluster no longer serves (`startMissingWatches`, `processApi`, `loadInitialState` and
`stopWatching` in `gitops-engine/pkg/cache/cluster.go`).

A kind is watched in each managed namespace, under one entry with one cancel function. The first watch that finds the
kind gone cancels all of them and forgets the entry, but evicts only the resources of its own namespace.
-/
import GitOpsDeploy.ClusterCache.Settled

namespace GitOpsDeploy.ClusterCache

open List

/-! ## The watches -/

structure GroupKind where
  group : String
  kind : String
  deriving DecidableEq, Repr

structure APIResource where
  groupKind : GroupKind
  namespaced : Bool

def ReplaceOrder.listed : ReplaceOrder := ⟨fun _ => .listed, .listed, fun _ => .listed⟩

/-- what listing a kind in a namespace comes to; permissions are checked when the list is refused -/
inductive Listing where
  | items (uns : List Object) (o : ReplaceOrder)
  /-- an error that is not about permissions is left to the watch -/
  | failed
  | restricted (keep : Bool)
  /-- the permissions could not be checked -/
  | unchecked

/-- the fields of `clusterCache` that watching reads; a watch runs for every entry of `apisMeta` -/
structure Watcher where
  namespaces : List String
  clusterResources : Bool
  apisMeta : List GroupKind
  cache : Cache

/-- `processApi`: the namespaces its callback is called with -/
def Watcher.apiNamespaces (c : Watcher) (api : APIResource) : List String :=
  if c.namespaces = [] ∨ (api.namespaced = false ∧ c.clusterResources = true) then [""]
  else if api.namespaced then c.namespaces else []

/-- `loadInitialState` -/
def Watcher.loadInitialState (matchString : String → String → Bool) (c : Watcher) (gk : GroupKind) (ns : String)
    (uns : List Object) (o : ReplaceOrder) : Watcher :=
  { c with cache := replaceResourceCache o c.cache gk.group gk.kind (uns.map (newResource matchString)) ns }

/-- the callback of `startMissingWatches` for each namespace; an error ends the loop -/
def watchNamespaces (matchString : String → String → Bool) (gk : GroupKind) (list : String → Listing) :
    List String → Watcher → Watcher
  | [], c => c
  | ns :: rest, c =>
    match list ns with
    | .items uns o => watchNamespaces matchString gk list rest (c.loadInitialState matchString gk ns uns o)
    | .failed => watchNamespaces matchString gk list rest c
    | .restricted keep =>
      watchNamespaces matchString gk list rest (if keep then c else { c with apisMeta := c.apisMeta.filter (· ≠ gk) })
    | .unchecked => c

/-- `startMissingWatches` for one kind -/
def startMissingWatch (matchString : String → String → Bool) (c : Watcher) (api : APIResource)
    (list : String → Listing) : Watcher :=
  if api.groupKind ∈ c.apisMeta then c
  else
    watchNamespaces matchString api.groupKind list (c.apiNamespaces api)
      { c with apisMeta := api.groupKind :: c.apisMeta }

def stopWatching (o : ReplaceOrder) (c : Watcher) (gk : GroupKind) (ns : String) : Watcher :=
  if gk ∈ c.apisMeta then
    { c with
      apisMeta := c.apisMeta.filter (· ≠ gk)
      cache := replaceResourceCache o c.cache gk.group gk.kind [] ns }
  else c

/-- the states that listing and watching reach -/
inductive Watched (matchString : String → String → Bool) : Watcher → Prop
  | start (namespaces : List String) (clusterResources : Bool) :
      Watched matchString ⟨namespaces, clusterResources, [], .empty⟩
  | list {c : Watcher} (h : Watched matchString c) (api : APIResource) (list : String → Listing) :
      Watched matchString (startMissingWatch matchString c api list)
  | relist {c : Watcher} (h : Watched matchString c) (gk : GroupKind) (ns : String) (uns : List Object) (o : ReplaceOrder) :
      Watched matchString (c.loadInitialState matchString gk ns uns o)
  | event {c : Watcher} (h : Watched matchString c) (op : Op) :
      Watched matchString { c with cache := step matchString c.cache op }
  | stop {c : Watcher} (h : Watched matchString c) (gk : GroupKind) (ns : String) (o : ReplaceOrder) :
      Watched matchString (stopWatching o c gk ns)

/-! ## What an eviction leaves -/

variable {c : Cache} {o : RangeOrder} {ro : ReplaceOrder} {key k : ResourceKey} {group kind ns : String}

theorem resources_unlinkChildren {existing : Resource} {m : ResourceMap} :
    (unlinkChildren o existing m c).resources = c.resources := by
  unfold unlinkChildren
  split
  · rfl
  · refine foldlRecOn (o.entries m.entries) _ (motive := fun d : Cache => d.resources = c.resources) rfl fun d hd e _ => ?_
    unfold unlinkInferred
    split_ifs
    · exact hd
    · exact hd

theorem lookup_onNodeRemoved :
    (onNodeRemoved o c key).resources.lookup k = if k = key then none else c.resources.lookup k := by
  unfold onNodeRemoved
  split
  · rename_i hn
    split_ifs with hk
    · rw [hk, hn]
    · rfl
  · change (unlinkChildren o _ _ (dropNode c key)).resources.lookup k = _
    rw [resources_unlinkChildren]
    change (c.resources.erase key).lookup k = _
    split_ifs with hk
    · rw [hk, AList.lookup_erase]
    · exact AList.lookup_erase_ne hk

theorem lookup_removeStale_foldl (es : List (Σ _ : ResourceKey, ℕ)) (c : Cache) :
    (es.foldl (removeStale ro group kind ns []) c).resources.lookup k =
      if k ∈ es.map Sigma.fst ∧ staleKey group kind ns [] k = true then none else c.resources.lookup k := by
  induction es generalizing c with
  | nil => simp
  | cons e es ih =>
    rw [foldl_cons, ih, removeStale_eq]
    simp only [map_cons, mem_cons]
    by_cases he : staleKey group kind ns [] e.1 = true
    · rw [if_pos he, lookup_onNodeRemoved]
      by_cases hk : k = e.1
      · rw [hk, if_pos rfl, ite_self, if_pos ⟨.inl rfl, he⟩]
      · rw [if_neg hk]
        simp only [hk, false_or]
    · rw [if_neg he]
      by_cases hk : k = e.1
      · rw [hk, if_neg fun h => he h.2, if_neg fun h => he h.2]
      · simp only [hk, false_or]

theorem lookup_replaceResourceCache_nil :
    (replaceResourceCache ro c group kind [] ns).resources.lookup k =
      if staleKey group kind ns [] k then none else c.resources.lookup k := by
  refine (lookup_removeStale_foldl (ro.keys.entries c.resources.entries) c).trans ?_
  have hmem : k ∈ (ro.keys.entries c.resources.entries).map Sigma.fst ↔ k ∈ c.resources :=
    ((ro.keys.perm c.resources.entries).map _).mem_iff
  by_cases hk : k ∈ c.resources
  · simp only [hmem.2 hk, true_and]
  · rw [if_neg fun h => hk (hmem.1 h.1), AList.lookup_eq_none.2 hk, ite_self]

/-! ## Stopping -/

/-- nothing of the kind is cached, in any namespace -/
def NoneOf (gk : GroupKind) (c : Cache) : Prop :=
  ∀ k, k.group = gk.group → k.kind = gk.kind → c.resources.lookup k = none

/-- **Stopping leaves nothing of the kind exactly when** the kind is watched and everything cached of it lies in the
    namespace of the watch, or nothing of it was cached. -/
theorem stop_watching_clean_iff (o : ReplaceOrder) (c : Watcher) (gk : GroupKind) (ns : String) :
    NoneOf gk (stopWatching o c gk ns).cache ↔
      ∀ k, k.group = gk.group → k.kind = gk.kind → c.cache.resources.lookup k ≠ none → gk ∈ c.apisMeta ∧
        (ns = "" ∨ k.ns = ns) := by
  refine forall_congr' fun k => forall_congr' fun hg => forall_congr' fun hk => ?_
  unfold stopWatching
  split_ifs with hin
  · rw [lookup_replaceResourceCache_nil]
    by_cases hns : ns = "" ∨ k.ns = ns
    · simp [staleKey, hg, hk, hns, hin]
    · simp [staleKey, hns, hin]
  · simp [hin]

/-! ## Two namespaces -/

def widgetKind : GroupKind := ⟨"example.com", "Widget"⟩

def widget (ns : String) : Object :=
  { (default : Object) with apiVersion := "example.com/v1", kind := "Widget", ns := ns, name := "w", uid := ns }

/-- widgets listed in two managed namespaces -/
def twoNamespaces : Watcher :=
  startMissingWatch (fun _ _ => false) ⟨["a", "b"], false, [], .empty⟩ ⟨widgetKind, true⟩ fun ns =>
    .items [widget ns] .listed

/-- the watch in namespace a stops; the widget in b stays, and nothing watches it any more -/
theorem stop_watching_leaves :
    Watched (fun _ _ => false) twoNamespaces ∧ widgetKind ∈ twoNamespaces.apisMeta ∧
      widgetKind ∉ (stopWatching .listed twoNamespaces widgetKind "a").apisMeta ∧
      ((stopWatching .listed twoNamespaces widgetKind "a").cache.resources.lookup
        ⟨"example.com", "Widget", "b", "w"⟩).isSome = true :=
  ⟨.list (.start _ _) _ _, by decide +kernel, by decide +kernel, by decide +kernel⟩

end GitOpsDeploy.ClusterCache

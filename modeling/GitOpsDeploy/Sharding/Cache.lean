/-
The sharding cache of the application controller (`controller/sharding/cache.go`) and the clusters it is filled with
(`SecretToCluster` of `util/db/cluster.go`).

A `ClusterSharding` holds the clusters, the applications and the shard recorded for each cluster; every operation decides for
itself whether the distribution has to be recomputed. Each operation is run under a `MapOrder`, the order in which Go
happens to read the maps. `none` is an operation that never returns (a ring lookup without end).
-/
import GitOpsDeploy.Core.KeyedMap
import GitOpsDeploy.Sharding.Distribution

namespace GitOpsDeploy.Sharding

open Decimal List

/-! ## Clusters read from secrets -/

structure Secret where
  uid : String
  data : List (String × String)
  annotations : List (String × String)

/-- the annotations of a secret that are not copied to the cluster -/
def systemAnnotations : List String := ["kubectl.kubernetes.io/last-applied-configuration", "managed-by"]

def trimRightSlash (s : String) : String := String.ofList (s.toList.reverse.dropWhile (· = '/')).reverse

/-- `unmarshal` parses the client configuration, which the distribution does not read; its error is passed on -/
def secretToCluster (unmarshal : String → Except String Unit) (s : Secret) : Except String Cluster :=
  let config := (s.data.lookup "config").getD ""
  match if config = "" then .ok () else unmarshal config with
  | .error err => .error ("failed to unmarshal cluster config: " ++ err)
  | .ok () => .ok
    { id := s.uid
      server := trimRightSlash ((s.data.lookup "server").getD "")
      shard := (s.data.lookup "shard").bind atoi
      annotations := s.annotations.filter fun a => a.1 ∉ systemAnnotations }

/-! ## The cache -/

structure ClusterSharding where
  /-- the shard of this replica -/
  shard : ℤ
  replicas : ℕ
  /-- the shard recorded for each cluster, by server -/
  shards : String → Option ℤ
  clusters : KeyedMap Cluster.server
  apps : KeyedMap Application.name
  /-- chooses `getClusterShard` -/
  algorithm : ShardingAlgorithm

def newClusterSharding (shard : ℤ) (replicas : ℕ) (algorithm : ShardingAlgorithm) : ClusterSharding :=
  { shard, replicas, shards := fun _ => none, clusters := .empty, apps := .empty, algorithm }

/-- the orders in which the maps are read while the shard of a cluster is computed, by the server of that cluster -/
structure MapOrder where
  clusters : String → List Cluster → List Cluster
  apps : String → List Application → List Application
  clusters_perm : ∀ server l, (clusters server l).Perm l
  apps_perm : ∀ server l, (apps server l).Perm l

/-- the order of the lists themselves -/
def MapOrder.listed : MapOrder :=
  { clusters := fun _ l => l, apps := fun _ l => l, clusters_perm := fun _ l => .refl l, apps_perm := fun _ l => .refl l }

/-- strconv.ParseBool accepts these as true -/
def parseBoolTrue : List String := ["1", "t", "T", "TRUE", "true", "True"]

def skipReconcile (c : Cluster) : Bool :=
  decide ((c.annotations.lookup "apps.hanzo.ai/skip-reconcile").getD "" ∈ parseBoolTrue)

def isManagedCluster (s : ClusterSharding) (c : Option Cluster) : Bool :=
  match c with
  | none => true
  | some c => if skipReconcile c then false else decide ((s.shards c.server).getD 0 = s.shard)

variable (hash : String → ℕ)

def getClusterShard (algorithm : ShardingAlgorithm) (replicas : ℕ) (clusters : List Cluster)
    (apps : List Application) (c : Cluster) : Option ℤ :=
  if 1 < replicas then getDistributionFunction hash clusters apps algorithm replicas (some c) else some 0

/-- the shard `updateDistribution` records for c -/
def clusterShard (algorithm : ShardingAlgorithm) (replicas : ℕ) (clusters : List Cluster)
    (apps : List Application) (c : Cluster) : Option ℤ :=
  match c.shard with
  | some requestedShard => some (if requestedShard < replicas then requestedShard else 0)
  | none => getClusterShard hash algorithm replicas clusters apps c

variable (o : MapOrder) (s : ClusterSharding)

def recordShard (shards : String → Option ℤ) (c : Cluster) : Option (String → Option ℤ) :=
  (clusterShard hash s.algorithm s.replicas (o.clusters c.server s.clusters.values) (o.apps c.server s.apps.values) c).map
    fun shard => Function.update shards c.server (some shard)

/-- the loop over the clusters; what it computes for one does not depend on what it has recorded for the others -/
def updateDistribution : Option ClusterSharding :=
  (s.clusters.values.foldlM (recordShard hash o s) s.shards).map fun shards => { s with shards }

def hasShardingUpdates (old new : Cluster) : Bool :=
  old.id ≠ new.id || old.server ≠ new.server || old.shard ≠ new.shard

def init (clusters : List Cluster) (apps : List Application) : Option ClusterSharding :=
  updateDistribution hash o { s with clusters := .ofList clusters, apps := .ofList apps }

def add (c : Cluster) : Option ClusterSharding :=
  let s' := { s with clusters := s.clusters.put c }
  match s.clusters.get? c.server with
  | none => updateDistribution hash o s'
  | some old => if hasShardingUpdates old c then updateDistribution hash o s' else some s'

/-- the entries of a server in both maps -/
def forget (server : String) : ClusterSharding :=
  { s with clusters := s.clusters.delete server, shards := Function.update s.shards server none }

def delete (server : String) : Option ClusterSharding :=
  if (s.clusters.get? server).isSome then updateDistribution hash o (forget s server) else some s

def update (old new : Cluster) : Option ClusterSharding :=
  let s := if (s.clusters.get? old.server).isSome && old.server ≠ new.server then forget s old.server else s
  let s := { s with clusters := s.clusters.put new }
  if hasShardingUpdates old new then updateDistribution hash o s else some s

/-- the common body of `AddApp` and `UpdateApp` -/
def putApp (a : Application) : Option ClusterSharding :=
  let s' := { s with apps := s.apps.put a }
  if (s.apps.get? a.name).isSome then some s' else updateDistribution hash o s'

def addApp := putApp

def updateApp := putApp

def deleteApp (a : Application) : Option ClusterSharding :=
  if (s.apps.get? a.name).isSome then updateDistribution hash o { s with apps := s.apps.delete a.name } else some s

inductive Op where
  | init (clusters : List Cluster) (apps : List Application)
  | add (c : Cluster)
  | delete (server : String)
  | update (old new : Cluster)
  | addApp (a : Application)
  | deleteApp (a : Application)
  | updateApp (a : Application)
  deriving DecidableEq, Repr

def step : Op → Option ClusterSharding
  | .init clusters apps => init hash o s clusters apps
  | .add c => add hash o s c
  | .delete server => delete hash o s server
  | .update old new => update hash o s old new
  | .addApp a => addApp hash o s a
  | .deleteApp a => deleteApp hash o s a
  | .updateApp a => updateApp hash o s a

def run (ops : List (Op × MapOrder)) : Option ClusterSharding :=
  ops.foldlM (fun s op => step hash op.2 s op.1) s

/-! ## What a recomputation does -/

theorem recordShard_fold (cs : List Cluster)
    (hcs : (cs.map Cluster.server).Nodup) (m m' : String → Option ℤ) (h : cs.foldlM (recordShard hash o s) m = some m') :
    (∀ c ∈ cs, ∃ v, clusterShard hash s.algorithm s.replicas (o.clusters c.server s.clusters.values)
        (o.apps c.server s.apps.values) c = some v ∧ m' c.server = some v) ∧
      ∀ k, k ∉ cs.map Cluster.server → m' k = m k := by
  induction cs generalizing m with
  | nil =>
    cases h
    exact ⟨fun c hc => absurd hc not_mem_nil, fun _ _ => rfl⟩
  | cons c cs ih =>
    obtain ⟨hc, hcs⟩ := nodup_cons.1 hcs
    rw [foldlM_cons, Option.bind_eq_bind, Option.bind_eq_some_iff] at h
    obtain ⟨m₁, hm₁, hr⟩ := h
    obtain ⟨v, hv, rfl⟩ := Option.map_eq_some_iff.1 hm₁
    obtain ⟨h1, h2⟩ := ih hcs _ hr
    refine ⟨fun d hd => ?_, fun k hk => ?_⟩
    · rcases mem_cons.1 hd with rfl | hd
      · exact ⟨v, hv, by rw [h2 _ hc, Function.update_self]⟩
      · exact h1 d hd
    · rw [map_cons, mem_cons, not_or] at hk
      rw [h2 k hk.2, Function.update_of_ne hk.1]

theorem updateDistribution_spec {hash : String → ℕ} {o : MapOrder} {s s' : ClusterSharding}
    (h : updateDistribution hash o s = some s') : s' = { s with shards := s'.shards } ∧
      (∀ c ∈ s.clusters, ∃ v, clusterShard hash s.algorithm s.replicas (o.clusters c.server s.clusters.values)
        (o.apps c.server s.apps.values) c = some v ∧ s'.shards c.server = some v) ∧
      ∀ k, (∀ c ∈ s.clusters, c.server ≠ k) → s'.shards k = s.shards k := by
  obtain ⟨m, hm, rfl⟩ := Option.map_eq_some_iff.1 h
  obtain ⟨h1, h2⟩ := recordShard_fold hash o s _ s.clusters.nodup _ _ hm
  refine ⟨rfl, h1, fun k hk => h2 k fun hme => ?_⟩
  obtain ⟨c, hc, hck⟩ := mem_map.1 hme
  exact hk c hc hck

theorem updateDistribution_returns {hash : String → ℕ} {o : MapOrder} {s : ClusterSharding}
    (h : ∀ c ∈ s.clusters, (clusterShard hash s.algorithm s.replicas (o.clusters c.server s.clusters.values)
      (o.apps c.server s.apps.values) c).isSome) : ∃ s', updateDistribution hash o s = some s' := by
  have hf : ∀ (cs : List Cluster), (∀ c ∈ cs, c ∈ s.clusters) →
    ∀ m, ∃ m', cs.foldlM (recordShard hash o s) m = some m' := by
    intro cs
    induction cs with
    | nil => exact fun _ m => ⟨m, rfl⟩
    | cons c cs ih =>
      intro hcs m
      obtain ⟨v, hv⟩ := Option.isSome_iff_exists.1 (h c (hcs c mem_cons_self))
      obtain ⟨m', hm'⟩ := ih (fun d hd => hcs d (mem_cons_of_mem _ hd)) (Function.update m c.server (some v))
      exact ⟨m', by rw [foldlM_cons, recordShard, hv]; exact hm'⟩
  obtain ⟨m', hm'⟩ := hf s.clusters.values (fun _ hc => hc) s.shards
  exact ⟨{ s with shards := m' }, by rw [updateDistribution, hm']; rfl⟩

end GitOpsDeploy.Sharding

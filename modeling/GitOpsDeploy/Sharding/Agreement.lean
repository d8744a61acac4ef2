/-
Agreement of replicas on the sharding, and ownership of every cluster by one replica.

- `Fresh`: the recorded shards are what some recomputation on the present clusters and applications records; nothing else
  is recorded. `step_fresh` keeps it for every operation that meets `OpOk`, `run_fresh` for whole runs.
-/
import GitOpsDeploy.Sharding.Cache

namespace GitOpsDeploy.Sharding

open Decimal

/-! ## Agreement -/

/-- When an operation recomputes the distribution if it has to:
`Init` must not drop a cluster (its entry in Shards is not cleared); `Update` must change the sharding fields, or write over
a cluster that had the same ones; an application that is already known must keep its destination, under consistent
hashing. -/
def OpOk (s : ClusterSharding) : Op → Prop
  | .init clusters _ => ∀ c ∈ s.clusters.values, c.server ∈ clusters.map Cluster.server
  | .update old new => hasShardingUpdates old new = true ∨ ∃ c ∈ s.clusters.values, c.view = new.view
  | .addApp a | .updateApp a =>
    s.algorithm = .consistentHashing → ∀ b ∈ s.apps.values, b.name = a.name → b.destServer = a.destServer
  | .add _ | .delete _ | .deleteApp _ => True

/-- every operation of the run meets the condition in the state it is applied to -/
def RunOk (hash : String → ℕ) (s : ClusterSharding) : List (Op × MapOrder) → Prop
  | [] => True
  | op :: ops => OpOk s op.1 ∧ ∀ s', step hash op.2 s op.1 = some s' → RunOk hash s' ops

/-- the shard of c was computed from clusters and applications that look like the present ones to the distribution -/
def Computed (hash : String → ℕ) (s : ClusterSharding) (c : Cluster) (v : ℤ) : Prop :=
  ∃ L A c₀, (L.map Cluster.view).Perm (s.clusters.values.map Cluster.view) ∧
    (s.algorithm = .consistentHashing →
      (A.map Application.destServer).Perm (s.apps.values.map Application.destServer)) ∧
    c₀ ∈ L ∧ c₀.view = c.view ∧ clusterShard hash s.algorithm s.replicas L A c₀ = some v

/-- no server that is gone has an entry -/
def ClusterSharding.Known (s : ClusterSharding) : Prop := ∀ k, (s.shards k).isSome → ∃ c ∈ s.clusters, c.server = k

structure Fresh (hash : String → ℕ) (s : ClusterSharding) : Prop where
  computed : ∀ c ∈ s.clusters, ∃ v, s.shards c.server = some v ∧ Computed hash s c v
  known : ∀ k, (s.shards k).isSome → ∃ c ∈ s.clusters, c.server = k

theorem newClusterSharding_fresh (hash : String → ℕ) (shard : ℤ) (replicas : ℕ) (algorithm : ShardingAlgorithm) :
    Fresh hash (newClusterSharding shard replicas algorithm) where
  computed c hc := nomatch (hc : c ∈ [])
  known _ hk := nomatch hk

variable {hash : String → ℕ} {s s' : ClusterSharding} {o : MapOrder}

/-- a recomputation makes the cache fresh when no entry is left of a server that is gone -/
theorem updateDistribution_fresh (h : updateDistribution hash o s = some s') (hkn : s.Known) : Fresh hash s' := by
  obtain ⟨heq, hr, hke⟩ := updateDistribution_spec h
  rw [heq]
  refine ⟨fun c hc => ?_, fun k hk => ?_⟩
  · obtain ⟨v, hv, hs⟩ := hr c hc
    refine ⟨v, hs, _, _, c, (o.clusters_perm _ _).map _, fun _ => (o.apps_perm _ _).map _, ?_, rfl, hv⟩
    exact (o.clusters_perm _ _).mem_iff.2 hc
  · by_contra hn
    have hne : ∀ c ∈ s.clusters, c.server ≠ k := fun c hc he => hn ⟨c, hc, he⟩
    exact hn (hkn k (by rw [← hke k hne]; exact hk))

/-- writing a cluster over one with the same sharding fields keeps the cache fresh without a recomputation -/
theorem put_fresh (h : Fresh hash s) {old new : Cluster} (ho : old ∈ s.clusters) (hvi : old.view = new.view) :
    Fresh hash { s with clusters := s.clusters.put new } := by
  have hke : old.server = new.server := congrArg (fun v => v.2.1) hvi
  have hp := KeyedMap.put_perm Cluster.view ho hke hvi
  -- every member of the new map stands where a member with the same view stood
  have hb : ∀ c ∈ s.clusters.put new, ∃ d ∈ s.clusters, d.view = c.view := by
    intro c hc
    rcases (KeyedMap.mem_put _ _ _).1 hc with rfl | hc
    · exact ⟨old, ho, hvi⟩
    · exact ⟨c, hc.1, rfl⟩
  refine ⟨fun c hc => ?_, fun k hk => ?_⟩
  · obtain ⟨d, hd, hdc⟩ := hb c hc
    obtain ⟨v, hv, L, A, c₀, hL, hA, hc₀, hcv, hva⟩ := h.computed d hd
    have hs : d.server = c.server := congrArg (fun v => v.2.1) hdc
    exact ⟨v, hs ▸ hv, L, A, c₀, hL.trans hp.symm, hA, hc₀, hcv.trans hdc, hva⟩
  · exact KeyedMap.exists_mem_put _ _ _ (h.known k hk)

/-- so does writing an application over one with the same destination -/
theorem putApp_fresh (h : Fresh hash s) {old a : Application} (ho : old ∈ s.apps) (hn : old.name = a.name)
    (hd : s.algorithm = .consistentHashing → old.destServer = a.destServer) :
    Fresh hash { s with apps := s.apps.put a } := by
  refine ⟨fun c hc => ?_, h.known⟩
  obtain ⟨v, hv, L, A, c₀, hL, hA, hr⟩ := h.computed c hc
  refine ⟨v, hv, L, A, c₀, hL, fun ha => (hA ha).trans ?_, hr⟩
  exact (KeyedMap.put_perm Application.destServer ho hn (hd ha)).symm

theorem hasShardingUpdates_eq_false {old new : Cluster} (h : ¬ hasShardingUpdates old new = true) :
    old.view = new.view := by
  simp only [hasShardingUpdates, Bool.or_eq_true, decide_eq_true_eq, not_or, not_not] at h
  simp only [Cluster.view, h.1.1, h.1.2, h.2]

/-- no entry of a server without cluster, after the entries of one server are dropped -/
theorem forget_known (h : Fresh hash s) (server : String) : (forget s server).Known := by
  intro k hk
  by_cases he : k = server
  · simp [forget, he] at hk
  · have hk' : (s.shards k).isSome := by simpa [forget, Function.update_of_ne he] using hk
    obtain ⟨c, hc, rfl⟩ := h.known k hk'
    exact ⟨c, (KeyedMap.mem_delete _ _ _).2 ⟨hc, he⟩, rfl⟩

/-- the configuration an operation never changes -/
def SameConfig (s t : ClusterSharding) : Prop := t.replicas = s.replicas ∧ t.algorithm = s.algorithm

/-- an operation edits the maps, and then either stops, with a cache that is fresh if the condition is met, or recomputes,
with no entry of a server that is gone -/
theorem step_shape (hash : String → ℕ) (o : MapOrder) (s : ClusterSharding) (op : Op) : ∃ t,
    (step hash o s op = some t ∧ (Fresh hash s → OpOk s op → Fresh hash t) ∨
      step hash o s op = updateDistribution hash o t ∧ (Fresh hash s → OpOk s op → t.Known)) ∧ SameConfig s t := by
  have hput : ∀ {t : ClusterSharding} {c : Cluster}, t.Known →
    ClusterSharding.Known { t with clusters := t.clusters.put c } :=
    fun h k hk => KeyedMap.exists_mem_put _ _ _ (h k hk)
  cases op with
  | init clusters apps =>
    refine ⟨_, .inr ⟨rfl, fun h hok k hk => ?_⟩, rfl, rfl⟩
    obtain ⟨c, hc, rfl⟩ := h.known k hk
    exact KeyedMap.exists_mem_ofList clusters c.server (hok c hc)
  | add c =>
    simp only [step, add]
    split
    · exact ⟨_, .inr ⟨rfl, fun h _ => hput h.known⟩, rfl, rfl⟩
    · next old ho =>
      split_ifs with hu
      · exact ⟨_, .inr ⟨rfl, fun h _ => hput h.known⟩, rfl, rfl⟩
      · refine ⟨_, .inl ⟨rfl, fun h _ => ?_⟩, rfl, rfl⟩
        exact put_fresh h (KeyedMap.get?_eq_some.1 ho).1 (hasShardingUpdates_eq_false hu)
  | delete server =>
    simp only [step, delete]
    split_ifs
    · exact ⟨_, .inr ⟨rfl, fun h _ => forget_known h server⟩, rfl, rfl⟩
    · exact ⟨_, .inl ⟨rfl, fun h _ => h⟩, rfl, rfl⟩
  | update old new =>
    simp only [step, update]
    by_cases hu : hasShardingUpdates old new = true
    · rw [if_pos hu]
      split_ifs
      · exact ⟨_, .inr ⟨rfl, fun h _ => hput (forget_known h old.server)⟩, rfl, rfl⟩
      · exact ⟨_, .inr ⟨rfl, fun h _ => hput h.known⟩, rfl, rfl⟩
    · have hse : old.server = new.server := congrArg (fun v => v.2.1) (hasShardingUpdates_eq_false hu)
      rw [if_neg hu, if_neg (by simp [hse])]
      refine ⟨_, .inl ⟨rfl, fun h hok => ?_⟩, rfl, rfl⟩
      obtain ⟨c, hc, hv⟩ := hok.resolve_left hu
      exact put_fresh h hc hv
  | addApp a | updateApp a =>
    simp only [step, addApp, updateApp, putApp]
    split_ifs with hg
    · obtain ⟨old, ho⟩ := Option.isSome_iff_exists.1 hg
      obtain ⟨hm, hn⟩ := KeyedMap.get?_eq_some.1 ho
      exact ⟨_, .inl ⟨rfl, fun h hok => putApp_fresh h hm hn fun hal => hok hal old hm hn⟩, rfl, rfl⟩
    · exact ⟨_, .inr ⟨rfl, fun h _ => h.known⟩, rfl, rfl⟩
  | deleteApp a =>
    simp only [step, deleteApp]
    split_ifs
    · exact ⟨_, .inr ⟨rfl, fun h _ => h.known⟩, rfl, rfl⟩
    · exact ⟨_, .inl ⟨rfl, fun h _ => h⟩, rfl, rfl⟩

/-- **One operation.** Whatever meets the condition leaves the cache fresh. -/
theorem step_fresh {op : Op} (h : Fresh hash s) (hok : OpOk s op) (hs : step hash o s op = some s') :
    Fresh hash s' ∧ SameConfig s s' := by
  obtain ⟨t, ⟨heq, hf⟩ | ⟨heq, hk⟩, ht⟩ := step_shape hash o s op
  · cases heq.symm.trans hs
    exact ⟨hf h hok, ht⟩
  · have hu := heq.symm.trans hs
    refine ⟨updateDistribution_fresh hu (hk h hok), ?_⟩
    rw [(updateDistribution_spec hu).1]
    exact ht

theorem run_fresh (ops : List (Op × MapOrder)) (h : Fresh hash s)
    (hok : RunOk hash s ops) (hru : run hash s ops = some s') : Fresh hash s' ∧ SameConfig s s' := by
  induction ops generalizing s with
  | nil =>
    cases hru
    exact ⟨h, rfl, rfl⟩
  | cons op ops ih =>
    rw [run, List.foldlM_cons, Option.bind_eq_bind, Option.bind_eq_some_iff] at hru
    obtain ⟨s₁, hs₁, hre⟩ := hru
    obtain ⟨hf₁, hr₁, ha₁⟩ := step_fresh h hok.1 hs₁
    obtain ⟨hf, hr, ha⟩ := ih hf₁ (hok.2 s₁ hs₁) hre
    exact ⟨hf, hr.trans hr₁, ha.trans ha₁⟩

theorem computed_unique {s₁ s₂ : ClusterSharding} {c : Cluster} {v₁ v₂ : ℤ}
    (hc : SameConfig s₁ s₂) (hcl : ∀ c, c ∈ s₁.clusters ↔ c ∈ s₂.clusters)
    (hap : ∀ a, a ∈ s₁.apps ↔ a ∈ s₂.apps) (hi : (s₁.clusters.values.map Cluster.id).Nodup)
    (h₁ : Computed hash s₁ c v₁) (h₂ : Computed hash s₂ c v₂) : v₁ = v₂ := by
  obtain ⟨L, A, c₁, hL, hA, hc₁, hv₁, hv⟩ := h₁
  obtain ⟨L', A', c₂, hL', hA', hc₂, hv₂, hva⟩ := h₂
  rw [hc.1, hc.2] at hva
  rw [hc.2] at hA'
  have hvi : (L.map Cluster.view).Perm (L'.map Cluster.view) :=
    hL.trans (((KeyedMap.values_perm hcl).map _).trans hL'.symm)
  have hcc : c₁.view = c₂.view := hv₁.trans hv₂.symm
  have hi' : (L.map Cluster.id).Nodup := by
    have hp := hL.map Prod.fst
    rw [List.map_map, List.map_map] at hp
    exact hp.nodup_iff.2 hi
  have hd := distribution_congr hash s₁.algorithm s₁.replicas hvi hi' hc₁ hc₂ hcc fun ha =>
    (hA ha).trans (((KeyedMap.values_perm hap).map _).trans (hA' ha).symm)
  have hs : c₁.shard = c₂.shard := congrArg (fun v => v.2.2) hcc
  have heq : clusterShard hash s₁.algorithm s₁.replicas L A c₁ =
    clusterShard hash s₁.algorithm s₁.replicas L' A' c₂ := by
    simp only [clusterShard, getClusterShard, hs, hd]
  rw [heq, hva] at hv
  exact (Option.some.inj hv).symm

theorem fresh_shards_eq {s₁ s₂ : ClusterSharding} (h₁ : Fresh hash s₁) (h₂ : Fresh hash s₂)
    (hco : SameConfig s₁ s₂) (hcl : ∀ c, c ∈ s₁.clusters ↔ c ∈ s₂.clusters)
    (ha : ∀ a, a ∈ s₁.apps ↔ a ∈ s₂.apps) (hi : (s₁.clusters.values.map Cluster.id).Nodup) :
      s₁.shards = s₂.shards := by
  funext k
  by_cases hk : ∃ c ∈ s₁.clusters, c.server = k
  · obtain ⟨c, hc, rfl⟩ := hk
    obtain ⟨v₁, hv₁, hc₁⟩ := h₁.computed c hc
    obtain ⟨v₂, hv₂, hc₂⟩ := h₂.computed c ((hcl c).1 hc)
    rw [hv₁, hv₂, computed_unique hco hcl ha hi hc₁ hc₂]
  · have hn₁ : s₁.shards k = none := Option.not_isSome_iff_eq_none.1 fun h => hk (h₁.known k h)
    have hn₂ : s₂.shards k = none := Option.not_isSome_iff_eq_none.1 fun h => by
      obtain ⟨c, hc, he⟩ := h₂.known k h
      exact hk ⟨c, (hcl c).2 hc, he⟩
    rw [hn₁, hn₂]

/-! ## The recomputation returns -/

theorem clusterShard_range {algorithm : ShardingAlgorithm} {replicas : ℕ} (h1 : 1 < replicas)
    (h31 : replicas < 2 ^ 31) (hk : algorithm = .consistentHashing → Consistent.KeepsPoints hash replicas)
    {clusters : List Cluster} (apps : List Application) {c : Cluster} (hc : c ∈ clusters) :
    ∃ v, clusterShard hash algorithm replicas clusters apps c = some v ∧ v < replicas ∧
      (0 ≤ v ↔ ∀ requested, c.shard = some requested → 0 ≤ requested) := by
  have h0 : 0 < replicas := by omega
  cases hs : c.shard with
  | some requested =>
    refine ⟨_, by rw [clusterShard, hs], ?_⟩
    split_ifs with hlt
    · exact ⟨hlt, by simp⟩
    · refine ⟨by exact_mod_cast h0, ?_⟩
      simp only [le_refl, Option.some.injEq, forall_eq', true_iff]
      omega
  | none =>
    have hd : ∃ v, getDistributionFunction hash clusters apps algorithm replicas (some c) = some v ∧ 0 ≤ v ∧
        v < replicas := by
      cases algorithm with
      | legacy => exact ⟨_, rfl, legacy_range h0 h31 hs⟩
      | roundRobin => exact ⟨_, rfl, roundRobin_range h0 hc hs⟩
      | consistentHashing => exact consistentHashing_range h0 (by omega) (hk rfl) apps hc hs
    obtain ⟨v, hv, hv0, hvn⟩ := hd
    exact ⟨v, by rw [clusterShard, hs, getClusterShard, if_pos h1, hv], hvn, by simp [hv0]⟩

theorem updateDistribution_total (h1 : 1 < s.replicas)
    (h31 : s.replicas < 2 ^ 31) (hk : s.algorithm = .consistentHashing → Consistent.KeepsPoints hash s.replicas)
    (o : MapOrder) : ∃ s', updateDistribution hash o s = some s' := by
  refine updateDistribution_returns fun c hc => ?_
  obtain ⟨v, hv, _⟩ := clusterShard_range h1 h31 hk (o.apps c.server s.apps.values)
    ((o.clusters_perm c.server s.clusters.values).mem_iff.2 hc)
  rw [hv]
  rfl

/-- **Sharding agreement.** Two replicas whose operations all meet `OpOk` and that end with the same clusters, of pairwise
distinct IDs, and the same applications hold the same shards, and these are the shards a replica computes when it is
initialised with those clusters and applications; that computation returns when the hash leaves every host a point. -/
theorem sharding_agreement (hash : String → ℕ) (algorithm : ShardingAlgorithm) (replicas : ℕ) (shard₁ shard₂ : ℤ)
    (ops₁ ops₂ : List (Op × MapOrder)) (s₁ s₂ : ClusterSharding)
    (hok₁ : RunOk hash (newClusterSharding shard₁ replicas algorithm) ops₁)
    (hok₂ : RunOk hash (newClusterSharding shard₂ replicas algorithm) ops₂)
    (h₁ : run hash (newClusterSharding shard₁ replicas algorithm) ops₁ = some s₁)
    (h₂ : run hash (newClusterSharding shard₂ replicas algorithm) ops₂ = some s₂)
    (hclusters : ∀ c, c ∈ s₁.clusters ↔ c ∈ s₂.clusters) (happs : ∀ a, a ∈ s₁.apps ↔ a ∈ s₂.apps)
    (hids : (s₁.clusters.values.map Cluster.id).Nodup) :
    s₁.shards = s₂.shards ∧
      (∀ shard o s, init hash o (newClusterSharding shard replicas algorithm) s₁.clusters.values s₁.apps.values =
        some s → s₁.shards = s.shards) ∧
      (1 < replicas → replicas < 2 ^ 31 → (algorithm = .consistentHashing → Consistent.KeepsPoints hash replicas) →
        ∀ shard o, ∃ s, init hash o (newClusterSharding shard replicas algorithm) s₁.clusters.values s₁.apps.values =
          some s) := by
  obtain ⟨hf₁, hr₁, ha₁⟩ := run_fresh ops₁ (newClusterSharding_fresh hash shard₁ replicas algorithm)
    hok₁ h₁
  obtain ⟨hf₂, hr₂, ha₂⟩ := run_fresh ops₂ (newClusterSharding_fresh hash shard₂ replicas algorithm)
    hok₂ h₂
  refine ⟨fresh_shards_eq hf₁ hf₂ ⟨hr₂.trans hr₁.symm, ha₂.trans ha₁.symm⟩ hclusters happs hids,
    fun shard o s hs => ?_, fun h1 h31 hke shard o => updateDistribution_total h1 h31 hke o⟩
  have hf : Fresh hash s := updateDistribution_fresh hs nofun
  have heq := (updateDistribution_spec hs).1
  refine fresh_shards_eq hf₁ hf ?_ (fun c => ?_) (fun a => ?_) hids
  · rw [heq]
    exact ⟨hr₁.symm, ha₁.symm⟩
  · rw [heq, KeyedMap.mem_ofList s₁.clusters.nodup]
    exact KeyedMap.mem_iff _ _
  · rw [heq, KeyedMap.mem_ofList s₁.apps.nodup]
    exact KeyedMap.mem_iff _ _

def east : Cluster := { id := "east", server := "https://east", shard := some 0, annotations := [] }

def west : Cluster := { id := "west", server := "https://west", shard := some 1, annotations := [] }

/-- a cluster that was added and deleted leaves no trace -/
theorem sharding_agreement_deleted : ∃ s₁ s₂,
    run (fun _ => 0) (newClusterSharding 0 2 .legacy) [(.init [east, west] [], .listed), (.delete west.server, .listed)] =
        some s₁ ∧
      run (fun _ => 0) (newClusterSharding 1 2 .legacy) [(.init [east] [], .listed)] = some s₂ ∧
        s₁.shards = s₂.shards := by
  have hi : ∀ shard clusters, OpOk (newClusterSharding shard 2 .legacy) (.init clusters []) :=
    fun _ _ _ hc => absurd hc List.not_mem_nil
  refine ⟨_, _, rfl, rfl, ?_⟩
  exact (sharding_agreement (fun _ => 0) .legacy 2 0 1 [(.init [east, west] [], .listed), (.delete west.server, .listed)]
    [(.init [east] [], .listed)] _ _ ⟨hi 0 _, fun _ _ => ⟨trivial, fun _ _ => trivial⟩⟩
      ⟨hi 1 _, fun _ _ => trivial⟩
    rfl rfl (fun _ => Iff.rfl) (fun _ => Iff.rfl) (by decide)).1

/-- The shard of a cluster that a second `Init` no longer lists survives; the replica that never saw it has no entry. -/
theorem stale_shard_survives :
    (run (fun _ => 0) (newClusterSharding 0 2 .legacy) [(.init [east, west] [], .listed), (.init [east] [], .listed)]).map
        (fun s => (s.clusters.values, s.apps.values, s.shards west.server)) = some ([east], [], some 1) ∧
      (run (fun _ => 0) (newClusterSharding 1 2 .legacy) [(.init [east] [], .listed)]).map
        (fun s => (s.clusters.values, s.apps.values, s.shards west.server)) = some ([east], [], none) := by
  decide

/-! ## One replica per cluster -/

/-- the replica with the given shard number that holds the same shards -/
def replica (s : ClusterSharding) (i : ℤ) : ClusterSharding := { s with shard := i }

/-- the recorded shard is in range, and exactly one replica manages the cluster unless it is annotated to be skipped -/
def ManagedByOne (s : ClusterSharding) (c : Cluster) : Prop :=
  (∃ v, s.shards c.server = some v ∧ 0 ≤ v ∧ v < s.replicas) ∧
    (skipReconcile c = false → ∃! i : ℤ, (0 ≤ i ∧ i < s.replicas) ∧
      isManagedCluster (replica s i) (some c) = true)

/-- **One owner.** For more than one replica and under every algorithm, the recomputation returns, and afterwards a cluster
has a shard in range and exactly one managing replica iff its manual shard, when it has one, is not negative. -/
theorem managed_by_one_iff (hash : String → ℕ) (o : MapOrder) (s : ClusterSharding) (h1 : 1 < s.replicas)
    (h31 : s.replicas < 2 ^ 31) (hkeeps : s.algorithm = .consistentHashing → Consistent.KeepsPoints hash s.replicas) :
    ∃ s', updateDistribution hash o s = some s' ∧ (∀ c, c ∈ s'.clusters ↔ c ∈ s.clusters) ∧
      ∀ c ∈ s.clusters, ManagedByOne s' c ↔ ∀ requested, c.shard = some requested → 0 ≤ requested := by
  obtain ⟨s', hs'⟩ := updateDistribution_total h1 h31 hkeeps o
  obtain ⟨heq, hrec, _⟩ := updateDistribution_spec hs'
  have hre : s'.replicas = s.replicas := by rw [heq]
  refine ⟨s', hs', fun c => by rw [heq], fun c hc => ?_⟩
  obtain ⟨v, hv, hr⟩ := hrec c hc
  obtain ⟨v', hv', hlt, hif⟩ := clusterShard_range h1 h31 hkeeps (o.apps c.server s.apps.values)
    ((o.clusters_perm c.server s.clusters.values).mem_iff.2 hc)
  rw [hv] at hv'
  cases hv'
  rw [← hif, ManagedByOne, hre]
  refine ⟨fun h => ?_, fun h0 => ⟨⟨v, hr, h0, hlt⟩, fun hsk => ⟨v, ⟨⟨h0, hlt⟩, ?_⟩, fun i hi => ?_⟩⟩⟩
  · obtain ⟨⟨w, hw, hw0, _⟩, _⟩ := h
    rw [hr] at hw
    cases hw
    exact hw0
  · simp [isManagedCluster, hsk, replica, hr]
  · have hm := hi.2
    simp only [isManagedCluster, hsk, replica, hr] at hm
    simpa [eq_comm] using hm

/-- two clusters without manual shard, under consistent hashing -/
theorem managed_by_one_two_clusters : ∃ s', updateDistribution Consistent.firstBytes .listed
    { newClusterSharding 0 2 .consistentHashing with
      clusters := .ofList [{ east with shard := none }, { west with shard := none }] } = some s' ∧
    ManagedByOne s' { west with shard := none } := by
  obtain ⟨s', hs', _, hi⟩ := managed_by_one_iff Consistent.firstBytes .listed
    { newClusterSharding 0 2 .consistentHashing with
      clusters := .ofList [{ east with shard := none }, { west with shard := none }] } (by decide) (by decide)
    fun _ => Consistent.firstBytes_keepsPoints
  exact ⟨s', hs', (hi _ ((KeyedMap.mem_ofList (by decide) _).2 (by decide))).2 (by decide)⟩

def negativeShardSecret : Secret :=
  { uid := "east", data := [("server", "https://east/"), ("shard", "-1")], annotations := [] }

/-- The secret is read without error, the recorded shard is -1, and neither of two replicas manages the cluster. -/
theorem negative_shard_unmanaged : ∃ c, secretToCluster (fun _ => .ok ()) negativeShardSecret = .ok c ∧
    c.shard = some (-1) ∧
    (init (fun _ => 0) .listed (newClusterSharding 0 2 .legacy) [c] []).map (fun s => (s.shards c.server,
      isManagedCluster (replica s 0) (some c), isManagedCluster (replica s 1) (some c))) =
      some (some (-1), false, false) := by
  exact ⟨{ east with shard := some (-1) }, by decide, by decide, by decide⟩

end GitOpsDeploy.Sharding

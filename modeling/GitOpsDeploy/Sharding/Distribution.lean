/-
The distribution functions of the sharding package (`controller/sharding/sharding.go`): which shard a cluster belongs to.

The clusters and applications come from Go maps, so each call sees them in an arbitrary order, and `sort.Slice` leaves equal
IDs in an arbitrary order; both are covered by the order of the list a function is given, which is then sorted stably.
A distribution function returns `none` when the ring lookup of consistent hashing does not return.
-/
import GitOpsDeploy.Sharding.Consistent

namespace GitOpsDeploy.Sharding

open List Function

open Decimal

structure Cluster where
  id : String
  server : String
  /-- the shard set by hand -/
  shard : Option ℤ
  annotations : List (String × String)
  deriving DecidableEq, Repr

structure Application where
  name : String
  /-- `Spec.Destination.Server` -/
  destServer : String
  deriving DecidableEq, Repr

/-- what the distribution reads of a cluster -/
def Cluster.view (c : Cluster) : String × String × Option ℤ := (c.id, c.server, c.shard)

inductive ShardingAlgorithm where
  | legacy
  | roundRobin
  | consistentHashing
  deriving DecidableEq, Repr

/-! ## Legacy -/

/-- `hash/fnv` New32a -/
def fnv32a (bytes : List UInt8) : ℕ :=
  bytes.foldl (fun h b => ((h ^^^ b.toNat) * 16777619) % 2 ^ 32) 2166136261

/-- the shard set by hand, when it is below the number of replicas -/
def manualShard (replicas : ℕ) (c : Cluster) : Option ℤ := c.shard.filter fun requested => requested < replicas

def legacyDistribution (replicas : ℕ) (c : Option Cluster) : ℤ :=
  if replicas = 0 then -1
  else
    match c with
    | none => 0
    | some c =>
      match manualShard replicas c with
      | some shard => shard
      | none =>
        if c.id = "" then 0
        else Int.bmod ((fnv32a c.id.toUTF8.toList % (replicas % 2 ^ 32) : ℕ) : ℤ) (2 ^ 32)

/-! ## Round robin -/

def getSortedClustersList (clusters : List Cluster) : List Cluster := clusters.mergeSort fun a b => a.id ≤ b.id

def indexIds (ids : List (String × ℕ)) (m : String → Option ℕ) : String → Option ℕ :=
  ids.foldl (fun m x => Function.update m x.1 (some x.2)) m

def createClusterIndexByClusterIdMap (clusters : List Cluster) : String → Option ℕ :=
  indexIds (((getSortedClustersList clusters).map Cluster.id).zipIdx) fun _ => none

def roundRobinDistribution (clusters : List Cluster) (replicas : ℕ) (c : Option Cluster) : ℤ :=
  if 0 < replicas then
    match c with
    | none => 0
    | some c =>
      match manualShard replicas c with
      | some shard => shard
      | none =>
        match createClusterIndexByClusterIdMap clusters c.id with
        | none => -1
        | some clusterIndex => ((clusterIndex % replicas : ℕ) : ℤ)
  else -1

/-! ## Consistent hashing with bounded loads -/

/-- the number of applications per destination server -/
def getAppDistribution (apps : List Application) : String → ℤ :=
  apps.foldl (fun m a => Function.update m a.destServer (m a.destServer + 1)) fun _ => 0

/-- the variables of the loop over the clusters -/
structure Assignment where
  consistentHashing : Consistent
  shardIndexedByCluster : String → Option ℤ
  appsIndexedByShard : String → ℤ

variable (hash : String → ℕ)

/-- one turn of the loop: place the cluster with this ID and server. `Atoi` of a name that is no number is 0. -/
def assign (appDistribution : String → ℤ) (a : Assignment) (c : String × String) : Option Assignment :=
  (a.consistentHashing.getLeast hash c.1).map fun (answer, ring) =>
    let clusterIndex := match answer with
      | .ok host => host
      | .error _ => ""
    let numApps := a.appsIndexedByShard clusterIndex + appDistribution c.2
    { consistentHashing := ring.updateLoad clusterIndex numApps
      shardIndexedByCluster := Function.update a.shardIndexedByCluster c.1 (some ((atoi clusterIndex).getD 0))
      appsIndexedByShard := Function.update a.appsIndexedByShard clusterIndex numApps }

def createConsistentHashingWithBoundLoads (replicas : ℕ) (clusters : List Cluster)
    (apps : List Application) : Option (String → Option ℤ) :=
  (((getSortedClustersList clusters).map fun c => (c.id, c.server)).foldlM (assign hash (getAppDistribution apps))
    { consistentHashing := Consistent.addAll hash replicas
      shardIndexedByCluster := fun _ => none
      appsIndexedByShard := fun _ => 0 }).map Assignment.shardIndexedByCluster

def consistentHashingDistribution (clusters : List Cluster) (apps : List Application) (replicas : ℕ)
    (c : Option Cluster) : Option ℤ :=
  if 0 < replicas then
    match c with
    | none => some 0
    | some c =>
      match manualShard replicas c with
      | some shard => some shard
      | none =>
        if c ∈ clusters then
          (createConsistentHashingWithBoundLoads hash replicas clusters apps).map fun shardIndexedByCluster =>
            (shardIndexedByCluster c.id).getD (-1)
        else some (-1)
  else some (-1)

def getDistributionFunction (clusters : List Cluster) (apps : List Application)
    (algorithm : ShardingAlgorithm) (replicas : ℕ) (c : Option Cluster) : Option ℤ :=
  match algorithm with
  | .legacy => some (legacyDistribution replicas c)
  | .roundRobin => some (roundRobinDistribution clusters replicas c)
  | .consistentHashing => consistentHashingDistribution hash clusters apps replicas c

/-! ## A shard below the number of replicas -/

variable {replicas : ℕ} {c : Cluster} {clusters L L' : List Cluster}

theorem legacy_range (h0 : 0 < replicas) (h31 : replicas < 2 ^ 31) (hc : c.shard = none) :
    0 ≤ legacyDistribution replicas (some c) ∧ legacyDistribution replicas (some c) < replicas := by
  have hm : manualShard replicas c = none := by simp [manualShard, hc]
  simp only [legacyDistribution, hm, if_neg h0.ne']
  split_ifs with hid
  · exact ⟨le_rfl, by exact_mod_cast h0⟩
  · have hmo : replicas % 2 ^ 32 = replicas := Nat.mod_eq_of_lt (by omega)
    have hlt := Nat.mod_lt (fnv32a c.id.toUTF8.toList) h0
    rw [hmo]
    rw [Int.bmod_eq_of_le_mul_two] <;> omega

theorem indexIds_isSome (ids : List (String × ℕ)) (m : String → Option ℕ) (id : String)
    (h : (m id).isSome ∨ id ∈ ids.map Prod.fst) : (indexIds ids m id).isSome := by
  induction ids generalizing m with
  | nil => simpa [indexIds] using h
  | cons x ids ih =>
    apply ih
    by_cases he : id = x.1
    · simp [he]
    · simpa [update_of_ne he, he] using h

theorem index_isSome (hc : c ∈ clusters) : (createClusterIndexByClusterIdMap clusters c.id).isSome := by
  apply indexIds_isSome
  right
  rw [zipIdx_map_fst]
  exact mem_map_of_mem (mem_mergeSort.2 hc)

theorem roundRobin_range (h0 : 0 < replicas) (hc : c ∈ clusters)
    (hs : c.shard = none) : 0 ≤ roundRobinDistribution clusters replicas (some c) ∧
      roundRobinDistribution clusters replicas (some c) < replicas := by
  have hm : manualShard replicas c = none := by simp [manualShard, hs]
  obtain ⟨i, hi⟩ := Option.isSome_iff_exists.1 (index_isSome hc)
  simp only [roundRobinDistribution, hm, if_pos h0, hi]
  exact ⟨by positivity, by exact_mod_cast Nat.mod_lt i h0⟩

/-- what the loop over the clusters keeps: a sound ring of n hosts with the counted loads, and recorded shards below n -/
structure Assignment.Inv (n : ℕ) (a : Assignment) : Prop where
  sound : a.consistentHashing.Sound
  covered : a.consistentHashing.Covered
  hosts : a.consistentHashing.hosts = (Finset.range n).image itoa
  counted : ∀ s ∈ a.consistentHashing.hosts, a.appsIndexedByShard s = a.consistentHashing.load s
  range : ∀ id v, a.shardIndexedByCluster id = some v → 0 ≤ v ∧ v < n

theorem getAppDistribution_eq (apps : List Application) (server : String) :
    getAppDistribution apps server = ((apps.map Application.destServer).count server : ℤ) := by
  have h : ∀ (l : List Application) (m : String → ℤ),
      l.foldl (fun m a => Function.update m a.destServer (m a.destServer + 1)) m server =
        m server + ((l.map Application.destServer).count server : ℤ) := by
    intro l
    induction l with
    | nil => simp
    | cons a l ih =>
      intro m
      rw [foldl_cons, ih]
      by_cases he : server = a.destServer
      · simp [he]
        ring
      · simp [update_of_ne he, Ne.symm he]
  simpa [getAppDistribution] using h apps fun _ => 0

theorem updateLoad_frame (c : Consistent) (server : String) (load : ℤ) :
    (c.updateLoad server load).servers = c.servers ∧ (c.updateLoad server load).clients = c.clients ∧
      (c.updateLoad server load).hosts = c.hosts := by
  unfold Consistent.updateLoad
  split_ifs <;> exact ⟨rfl, rfl, rfl⟩

/-- one turn of the loop returns, records a shard for the cluster and forgets no other -/
theorem assign_inv {n : ℕ} (hn : 0 < n) (h63 : n < 2 ^ 63) (appDistribution : String → ℤ)
    (hd : ∀ s, 0 ≤ appDistribution s) (a : Assignment) (h : a.Inv n) (c : String × String) :
    ∃ a', assign hash appDistribution a c = some a' ∧ a'.Inv n ∧
      ∀ id, id = c.1 ∨ (a.shardIndexedByCluster id).isSome → (a'.shardIndexedByCluster id).isSome := by
  have hne : a.consistentHashing.hosts.Nonempty := by
    rw [h.hosts]
    exact ⟨itoa 0, Finset.mem_image_of_mem _ (Finset.mem_range.2 hn)⟩
  obtain ⟨s, hs, -, hg⟩ := Consistent.getLeast_returns hash h.sound h.covered hne c.1
  have hl : 0 ≤ a.appsIndexedByShard s + appDistribution c.2 := by
    rw [h.counted s hs]
    exact add_nonneg (h.sound.nonneg s hs) (hd c.2)
  obtain ⟨hf1, hf2, hf3⟩ := updateLoad_frame a.consistentHashing s (a.appsIndexedByShard s + appDistribution c.2)
  refine ⟨_, by rw [assign, hg]; rfl, ⟨?_, ?_, ?_, ?_, ?_⟩, ?_⟩
  · exact Consistent.updateLoad_sound _ _ _ h.sound hl
  · intro s' hs'
    simp only [hf1, hf2, hf3] at hs' ⊢
    exact h.covered s' hs'
  · exact hf3.trans h.hosts
  · intro s' hs'
    simp only [hf3] at hs'
    by_cases he : s' = s
    · simp [he, Consistent.updateLoad, hs]
    · simpa [update_of_ne he, Consistent.updateLoad, hs] using h.counted s' hs'
  · intro id v hv
    by_cases he : id = c.1
    · rw [h.hosts] at hs
      obtain ⟨i, hi, rfl⟩ := Finset.mem_image.1 hs
      have hi := Finset.mem_range.1 hi
      simp only [he, update_self, atoi_itoa i (by omega), Option.getD_some, Option.some.injEq] at hv
      omega
    · exact h.range id v (by simpa [update_of_ne he] using hv)
  · intro id hid
    by_cases he : id = c.1
    · simp [he]
    · simpa [update_of_ne he, he] using hid

theorem assignAll_inv {n : ℕ} (hn : 0 < n) (h63 : n < 2 ^ 63) (appDistribution : String → ℤ)
    (hd : ∀ s, 0 ≤ appDistribution s) (cs : List (String × String)) (a : Assignment) (h : a.Inv n) :
    ∃ a', cs.foldlM (assign hash appDistribution) a = some a' ∧ a'.Inv n ∧
      ∀ id, id ∈ cs.map Prod.fst ∨ (a.shardIndexedByCluster id).isSome → (a'.shardIndexedByCluster id).isSome := by
  induction cs generalizing a with
  | nil => exact ⟨a, rfl, h, by simp⟩
  | cons c cs ih =>
    obtain ⟨a₁, h1, hi, hk⟩ := assign_inv hash hn h63 appDistribution hd a h c
    obtain ⟨a₂, h2, hin, hke⟩ := ih a₁ hi
    refine ⟨a₂, by rw [foldlM_cons, h1]; exact h2, hin, fun id hid => hke id ?_⟩
    rw [map_cons, mem_cons, or_assoc] at hid
    rcases hid with hid | hid | hid
    · exact .inr (hk id (.inl hid))
    · exact .inl hid
    · exact .inr (hk id (.inr hid))

theorem consistentHashing_range {hash : String → ℕ} (h0 : 0 < replicas) (h63 : replicas < 2 ^ 63)
    (hk : Consistent.KeepsPoints hash replicas) (apps : List Application) (hc : c ∈ clusters) (hs : c.shard = none) :
    ∃ v, consistentHashingDistribution hash clusters apps replicas (some c) = some v ∧ 0 ≤ v ∧ v < replicas := by
  have hm : manualShard replicas c = none := by simp [manualShard, hs]
  have hd : ∀ s, 0 ≤ getAppDistribution apps s := fun s => by
    rw [getAppDistribution_eq]
    positivity
  have hi : Assignment.Inv replicas
      ⟨Consistent.addAll hash replicas, fun _ => none, fun _ => 0⟩ :=
    { sound := Consistent.addAll_sound hash replicas
      covered := Consistent.covered_addAll hk
      hosts := (Consistent.addAll_filled hash replicas).hosts
      counted := fun s _ => (Consistent.addAll_load hash replicas s).symm
      range := nofun }
  obtain ⟨a, ha, hin, hke⟩ := assignAll_inv hash h0 h63 _ hd
    ((getSortedClustersList clusters).map fun c => (c.id, c.server)) _ hi
  have hme : c.id ∈ ((getSortedClustersList clusters).map fun c => (c.id, c.server)).map Prod.fst := by
    rw [map_map]
    exact mem_map_of_mem (mem_mergeSort.2 hc)
  obtain ⟨v, hv⟩ := Option.isSome_iff_exists.1 (hke c.id (.inl hme))
  refine ⟨v, ?_, hin.range c.id v hv⟩
  simp [consistentHashingDistribution, h0, hm, hc, createConsistentHashingWithBoundLoads, ha, hv]

/-! ## The order of the maps does not matter -/

theorem pairwise_getSortedClustersList (clusters : List Cluster) :
    ((getSortedClustersList clusters).map Cluster.view).Pairwise fun a b => a.1 ≤ b.1 := by
  have h : (getSortedClustersList clusters).Pairwise fun a b => decide (a.id ≤ b.id) = true := by
    apply pairwise_mergeSort
    · intro a b c hab hbc
      exact decide_eq_true (String.le_trans (of_decide_eq_true hab) (of_decide_eq_true hbc))
    · intro a b
      rcases String.le_total a.id b.id with hab | hab <;> simp [hab]
  rw [pairwise_map]
  exact h.imp fun hab => of_decide_eq_true hab

/-- with distinct IDs there is only one sorted list -/
theorem getSortedClustersList_view_eq (hv : (L.map Cluster.view).Perm (L'.map Cluster.view))
    (hi : (L.map Cluster.id).Nodup) :
    (getSortedClustersList L).map Cluster.view = (getSortedClustersList L').map Cluster.view := by
  have hp : ∀ l : List Cluster, ((getSortedClustersList l).map Cluster.view).Perm (l.map Cluster.view) :=
    fun l => (mergeSort_perm l _).map _
  have hf : ((L.map Cluster.view).map Prod.fst).Nodup := by
    rw [map_map]
    exact hi
  refine List.Perm.eq_of_pairwise (fun a b ha hb hab hba => ?_) (pairwise_getSortedClustersList L)
    (pairwise_getSortedClustersList L') ((hp L).trans (hv.trans (hp L').symm))
  have ha' := (hp L).mem_iff.1 ha
  have hb' := hv.mem_iff.2 ((hp L').mem_iff.1 hb)
  exact inj_on_of_nodup_map hf ha' hb' (String.le_antisymm hab hba)

theorem map_eq_of_view_eq {β : Type*} (h : L.map Cluster.view = L'.map Cluster.view)
    (f : Cluster → β) (g : String × String × Option ℤ → β) (hf : ∀ c, f c = g c.view) : L.map f = L'.map f := by
  have hm : ∀ l : List Cluster, l.map f = (l.map Cluster.view).map g := by
    intro l
    rw [map_map]
    exact map_congr_left fun c _ => hf c
  rw [hm, hm, h]

theorem getAppDistribution_congr {A A' : List Application}
    (h : (A.map Application.destServer).Perm (A'.map Application.destServer)) :
    getAppDistribution A = getAppDistribution A' := by
  funext server
  rw [getAppDistribution_eq, getAppDistribution_eq, h.count_eq]

/-- For pairwise distinct IDs, the shard of a cluster is a function of the clusters' IDs, servers and manual shards and,
under consistent hashing, of the destinations of the applications: not of the order in which the maps are read. -/
theorem distribution_congr (algorithm : ShardingAlgorithm) (replicas : ℕ)
    {A A' : List Application} {c' : Cluster} (hv : (L.map Cluster.view).Perm (L'.map Cluster.view))
    (hids : (L.map Cluster.id).Nodup) (hc : c ∈ L) (hc' : c' ∈ L') (hcc : c.view = c'.view)
    (ha : algorithm = .consistentHashing → (A.map Application.destServer).Perm (A'.map Application.destServer)) :
    getDistributionFunction hash L A algorithm replicas (some c) =
      getDistributionFunction hash L' A' algorithm replicas (some c') := by
  have hid : c.id = c'.id := congrArg Prod.fst hcc
  have hm : manualShard replicas c = manualShard replicas c' := by
    rw [manualShard, manualShard, show c.shard = c'.shard from congrArg (fun v => v.2.2) hcc]
  have hs := getSortedClustersList_view_eq hv hids
  cases algorithm with
  | legacy => simp only [getDistributionFunction, legacyDistribution, hid, hm]
  | roundRobin =>
    have hi : createClusterIndexByClusterIdMap L = createClusterIndexByClusterIdMap L' := by
      rw [createClusterIndexByClusterIdMap, createClusterIndexByClusterIdMap,
        map_eq_of_view_eq hs Cluster.id Prod.fst fun _ => rfl]
    simp only [getDistributionFunction, roundRobinDistribution, hid, hm, hi]
  | consistentHashing =>
    have hcr : createConsistentHashingWithBoundLoads hash replicas L A =
        createConsistentHashingWithBoundLoads hash replicas L' A' := by
      rw [createConsistentHashingWithBoundLoads, createConsistentHashingWithBoundLoads,
        map_eq_of_view_eq hs (fun c => (c.id, c.server)) (fun v => (v.1, v.2.1)) fun _ => rfl,
        getAppDistribution_congr (ha rfl)]
    simp only [getDistributionFunction, consistentHashingDistribution, hid, hm, hcr, hc, hc', if_true]

end GitOpsDeploy.Sharding

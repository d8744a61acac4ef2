/-
Round robin spreads clusters evenly (`RoundRobinDistributionFunction`).
-/
import Mathlib.Data.Int.CardIntervalMod
import GitOpsDeploy.Sharding.Distribution

namespace GitOpsDeploy.Sharding

open List Function

variable {clusters : List Cluster} {n : ℕ}

/-- the number of clusters on a shard -/
def shardSize (clusters : List Cluster) (n : ℕ) (shard : ℤ) : ℕ :=
  clusters.countP fun c => roundRobinDistribution clusters n (some c) = shard

theorem indexIds_zipIdx (ids : List String) (hn : ids.Nodup) (k : ℕ) (m : String → Option ℕ) (id : String) :
    indexIds (ids.zipIdx k) m id = if id ∈ ids then some (k + ids.idxOf id) else m id := by
  induction ids generalizing k m with
  | nil => rfl
  | cons x ids ih =>
    obtain ⟨hx, hn⟩ := nodup_cons.1 hn
    rw [zipIdx_cons]
    change indexIds (ids.zipIdx (k + 1)) (Function.update m x (some k)) id = _
    rw [ih hn]
    by_cases he : id = x
    · subst he
      simp [hx]
    · have hne : x ≠ id := Ne.symm he
      by_cases hm : id ∈ ids <;> simp [he, hm, idxOf_cons_ne _ hne]
      omega

theorem index_eq (hi : (clusters.map Cluster.id).Nodup) {i : ℕ} (h : i < (getSortedClustersList clusters).length) :
    createClusterIndexByClusterIdMap clusters (getSortedClustersList clusters)[i].id = some i := by
  have hn : ((getSortedClustersList clusters).map Cluster.id).Nodup :=
    ((mergeSort_perm clusters _).map Cluster.id).nodup_iff.2 hi
  rw [createClusterIndexByClusterIdMap, indexIds_zipIdx _ hn, if_pos (mem_map_of_mem (getElem_mem h)), Nat.zero_add]
  have hx := hn.idxOf_getElem i (by simpa using h)
  rw [getElem_map] at hx
  rw [hx]

/-- the shards of the sorted clusters go round -/
theorem map_roundRobin (h0 : 0 < n) (hi : (clusters.map Cluster.id).Nodup) (hs : ∀ c ∈ clusters, c.shard = none) :
    (getSortedClustersList clusters).map (fun c => roundRobinDistribution clusters n (some c)) =
      (List.range clusters.length).map fun i => ((i % n : ℕ) : ℤ) := by
  have hp := mergeSort_perm clusters fun a b => decide (a.id ≤ b.id)
  refine ext_getElem (by simp [getSortedClustersList]) fun i h _ => ?_
  rw [length_map] at h
  have hm : manualShard n (getSortedClustersList clusters)[i] = none := by
    rw [manualShard, hs _ (hp.mem_iff.1 (getElem_mem h))]
    rfl
  simp only [getElem_map, getElem_range, roundRobinDistribution, if_pos h0, hm, index_eq hi h]

theorem shardSize_eq (h0 : 0 < n) (hi : (clusters.map Cluster.id).Nodup) (hs : ∀ c ∈ clusters, c.shard = none) {k : ℕ}
    (hk : k < n) : shardSize clusters n k = clusters.length / n + if k < clusters.length % n then 1 else 0 := by
  have hc : shardSize clusters n k = clusters.length.count (· ≡ k [MOD n]) := by
    rw [shardSize, ← (mergeSort_perm clusters fun a b => decide (a.id ≤ b.id)).countP_eq]
    have hm := congrArg (countP fun s => decide (s = (k : ℤ))) (map_roundRobin h0 hi hs)
    rw [countP_map, countP_map] at hm
    refine hm.trans ?_
    refine countP_congr fun i _ => ?_
    simp only [comp_apply, decide_eq_true_iff, Nat.cast_inj, Nat.ModEq, Nat.mod_eq_of_lt hk]
  rw [hc, Nat.count_modEq_card _ h0, Nat.mod_eq_of_lt hk]

/-- **Round robin.** Every cluster has a shard, two shards differ by at most one cluster, and the order in which the
clusters are read does not matter. -/
theorem round_robin_balanced (h0 : 0 < n) (hi : (clusters.map Cluster.id).Nodup) (hs : ∀ c ∈ clusters, c.shard = none) :
    (∀ c ∈ clusters, 0 ≤ roundRobinDistribution clusters n (some c) ∧
      roundRobinDistribution clusters n (some c) < n) ∧
      (∀ a b : ℕ, a < n → b < n → shardSize clusters n a ≤ shardSize clusters n b + 1) ∧
      ∀ clusters', clusters.Perm clusters' → ∀ c ∈ clusters,
        roundRobinDistribution clusters' n (some c) = roundRobinDistribution clusters n (some c) := by
  refine ⟨fun c hc => roundRobin_range h0 hc (hs c hc), fun a b ha hb => ?_, fun clusters' hp c hc => ?_⟩
  · rw [shardSize_eq h0 hi hs ha, shardSize_eq h0 hi hs hb]
    split_ifs <;> omega
  · have ha : ShardingAlgorithm.roundRobin = .consistentHashing →
        (([] : List Application).map Application.destServer).Perm (([] : List Application).map Application.destServer) :=
      fun _ => .refl _
    have h := distribution_congr (fun _ => 0) .roundRobin n (hp.map Cluster.view) hi hc (hp.mem_iff.1 hc) rfl ha
    exact (Option.some.inj h).symm

def threeClusters : List Cluster := [⟨"b", "https://b", none, []⟩, ⟨"a", "https://a", none, []⟩,
    ⟨"c", "https://c", none, []⟩]

theorem round_robin_three : shardSize threeClusters 2 0 ≤ shardSize threeClusters 2 1 + 1 :=
  (round_robin_balanced (by decide) (by decide) (by decide)).2.1 0 1 (by decide) (by decide)

end GitOpsDeploy.Sharding

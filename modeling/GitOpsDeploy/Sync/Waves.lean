/-
The waves of prune tasks (the reordering in `getSyncTasks` of `gitops-engine/pkg/sync/sync_context.go`).

The waves of prune tasks are listed in ascending order without repetition, and each task takes the wave at the mirrored
index, so that what was created last is deleted first.
-/
import GitOpsDeploy.Sync.Plan

namespace GitOpsDeploy.Sync

open List

variable {tasks : List SyncTask} {t u : SyncTask} {ws : List ℤ} {x y : ℤ}

theorem mem_uniquePruneWaves : x ∈ uniquePruneWaves tasks ↔ ∃ t ∈ tasks, t.isPrune = true ∧ t.wave = x := by
  simp [uniquePruneWaves, and_assoc]

theorem uniquePruneWaves_sorted : (uniquePruneWaves tasks).Pairwise (· < ·) := by
  have hle := pairwise_insertionSort (· ≤ ·) ((tasks.filter SyncTask.isPrune).map SyncTask.wave).dedup
  have hne : (uniquePruneWaves tasks).Nodup := (perm_insertionSort _ _).nodup_iff.2 (nodup_dedup _)
  exact (hle.and hne).imp fun h => lt_of_le_of_ne h.1 h.2

/-- a prune task takes the wave at the mirrored index, also in the middle, where the swap does nothing -/
theorem wave_swapPruneWave (hp : t.isPrune = true) (hw : t.wave ∈ ws) :
    ws.reverse[ws.idxOf t.wave]? = some (swapPruneWave ws t).wave := by
  have hi : ws.idxOf t.wave < ws.length := idxOf_lt_length_of_mem hw
  rw [getElem?_reverse hi]
  unfold swapPruneWave
  dsimp only
  split_ifs with h
  · have hj : ws.length - 1 - ws.idxOf t.wave < ws.length := by omega
    rw [getElem?_eq_getElem hj]
    rfl
  · have hmid : ws.length - 1 - ws.idxOf t.wave = ws.idxOf t.wave := by
      simp only [hp, Bool.true_and, Bool.or_eq_true, decide_eq_true_eq] at h
      omega
    rw [hmid, getElem?_idxOf hw]

theorem idxOf_lt_idxOf (hs : ws.Pairwise (· < ·)) (hx : x ∈ ws) (hy : y ∈ ws) (h : x < y) :
    ws.idxOf x < ws.idxOf y := by
  have hix := idxOf_lt_length_of_mem hx
  have hiy := idxOf_lt_length_of_mem hy
  rcases lt_trichotomy (ws.idxOf x) (ws.idxOf y) with hlt | heq | hgt
  · exact hlt
  · exact absurd ((idxOf_inj hx).1 heq) h.ne
  · have hyx := pairwise_iff_getElem.1 hs _ _ hiy hix hgt
    rw [getElem_idxOf, getElem_idxOf] at hyx
    exact absurd hyx h.asymm

/-- the mirrored wave of the mirrored wave -/
theorem reverse_idxOf_reverse (hs : ws.Pairwise (· < ·)) (hx : x ∈ ws) (h : ws.reverse[ws.idxOf x]? = some y) :
    ws.reverse[ws.idxOf y]? = some x := by
  have hi : ws.idxOf x < ws.length := idxOf_lt_length_of_mem hx
  rw [getElem?_reverse hi] at h
  obtain ⟨hj, rfl⟩ := List.getElem?_eq_some_iff.1 h
  have hn : ws.Nodup := hs.imp fun h => h.ne
  rw [hn.idxOf_getElem, getElem?_reverse hj, show ws.length - 1 - (ws.length - 1 - ws.idxOf x) = ws.idxOf x by omega,
    getElem?_idxOf hx]

theorem swapPruneWave_of_not_prune (hp : t.isPrune = false) : swapPruneWave ws t = t := by
  simp [swapPruneWave, hp]

/-- the wave a prune task gets is one that a prune task had -/
theorem exists_wave_eq_swap (ht : t ∈ tasks) (hp : t.isPrune = true) :
    ∃ u ∈ tasks, u.isPrune = true ∧ u.wave = (swapPruneWave (uniquePruneWaves tasks) t).wave := by
  have h := wave_swapPruneWave hp (mem_uniquePruneWaves.2 ⟨t, ht, hp, rfl⟩)
  exact mem_uniquePruneWaves.1 (mem_reverse.1 (mem_of_getElem? h))

/-- the wave a prune task had is one that a prune task gets -/
theorem exists_swap_eq_wave (hu : u ∈ tasks) (hp : u.isPrune = true) :
    ∃ t ∈ tasks, t.isPrune = true ∧ (swapPruneWave (uniquePruneWaves tasks) t).wave = u.wave := by
  have hmem : u.wave ∈ uniquePruneWaves tasks := mem_uniquePruneWaves.2 ⟨u, hu, hp, rfl⟩
  have h := wave_swapPruneWave hp hmem
  obtain ⟨t, ht, hpt, hw⟩ := exists_wave_eq_swap hu hp
  refine ⟨t, ht, hpt, ?_⟩
  -- the index is mirrored twice
  have hback := reverse_idxOf_reverse uniquePruneWaves_sorted hmem h
  rw [← hw, wave_swapPruneWave hpt (mem_uniquePruneWaves.2 ⟨t, ht, hpt, rfl⟩)] at hback
  exact Option.some.inj hback

/-- **Prune waves are reversed.** -/
theorem prune_waves_reversed (tasks : List SyncTask) :
    (∀ x, (∃ t ∈ tasks, t.isPrune = true ∧ (swapPruneWave (uniquePruneWaves tasks) t).wave = x) ↔
      ∃ t ∈ tasks, t.isPrune = true ∧ t.wave = x) ∧
    (∀ a ∈ tasks, ∀ b ∈ tasks, a.isPrune = true → b.isPrune = true →
      (a.wave = b.wave → (swapPruneWave (uniquePruneWaves tasks) a).wave =
        (swapPruneWave (uniquePruneWaves tasks) b).wave) ∧
      (a.wave < b.wave → (swapPruneWave (uniquePruneWaves tasks) b).wave <
        (swapPruneWave (uniquePruneWaves tasks) a).wave)) ∧
    ∀ t ∈ tasks, t.isPrune = false → swapPruneWave (uniquePruneWaves tasks) t = t := by
  have hs : (uniquePruneWaves tasks).Pairwise (· < ·) := uniquePruneWaves_sorted
  have hmem (t : SyncTask) (ht : t ∈ tasks) (hp : t.isPrune = true) : t.wave ∈ uniquePruneWaves tasks :=
    mem_uniquePruneWaves.2 ⟨t, ht, hp, rfl⟩
  refine ⟨fun x => ⟨?_, ?_⟩, fun a ha b hb hpa hpb => ⟨fun he => ?_, fun hlt => ?_⟩, fun t _ hp => ?_⟩
  · rintro ⟨t, ht, hp, rfl⟩
    exact exists_wave_eq_swap ht hp
  · rintro ⟨u, hu, hp, rfl⟩
    exact exists_swap_eq_wave hu hp
  · have h := wave_swapPruneWave hpa (hmem a ha hpa)
    rw [he, wave_swapPruneWave hpb (hmem b hb hpb)] at h
    exact (Option.some.inj h).symm
  · obtain ⟨hia, hea⟩ := List.getElem?_eq_some_iff.1 (wave_swapPruneWave hpa (hmem a ha hpa))
    obtain ⟨hib, heb⟩ := List.getElem?_eq_some_iff.1 (wave_swapPruneWave hpb (hmem b hb hpb))
    rw [← hea, ← heb]
    exact pairwise_iff_getElem.1 (pairwise_reverse.2 hs) _ _ hia hib
      (idxOf_lt_idxOf hs (hmem a ha hpa) (hmem b hb hpb) hlt)
  · exact swapPruneWave_of_not_prune hp

end GitOpsDeploy.Sync

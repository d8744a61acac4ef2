/-
The order of sync tasks (`gitops-engine/pkg/sync/sync_tasks.go`): phase, wave, kind, name, with the two passes that pull
namespaces and custom resource definitions in front of the first task that needs them.

`sort.Sort` is not stable; the caller shuffles the tasks before the (stable) sort here, so that ties come out in any order.
Differences of waves are taken in int64.
-/
import Mathlib.Data.Prod.Lex
import Mathlib.Data.String.Basic
import GitOpsDeploy.Core.Slices
import GitOpsDeploy.Sync.Task

namespace GitOpsDeploy.Sync

open Slices List

/-- int arithmetic wraps around -/
def wrap64 (x : ℤ) : ℤ := Int.bmod x (2 ^ 64)

def kinds : List String :=
  ["Namespace", "NetworkPolicy", "ResourceQuota", "LimitRange", "PodSecurityPolicy", "PodDisruptionBudget",
    "ServiceAccount", "Secret", "SecretList", "ConfigMap", "StorageClass", "PersistentVolume", "PersistentVolumeClaim",
    "CustomResourceDefinition", "ClusterRole", "ClusterRoleList", "ClusterRoleBinding", "ClusterRoleBindingList", "Role",
    "RoleList", "RoleBinding", "RoleBindingList", "Service", "DaemonSet", "Pod", "ReplicationController", "ReplicaSet",
    "Deployment", "HorizontalPodAutoscaler", "StatefulSet", "Job", "CronJob", "IngressClass", "Ingress", "APIService"]

/-- negative for the known kinds, so that custom resources come last -/
def kindOrder (kind : String) : ℤ := ((kinds.idxOf? kind).map fun i : ℕ => (i : ℤ) - kinds.length).getD 0

def less (a b : SyncTask) : Bool :=
  if wrap64 (a.phase.order - b.phase.order) ≠ 0 then wrap64 (a.phase.order - b.phase.order) < 0
  else if wrap64 (a.wave - b.wave) ≠ 0 then wrap64 (a.wave - b.wave) < 0
  else if kindOrder a.obj.kind - kindOrder b.obj.kind ≠ 0 then kindOrder a.obj.kind - kindOrder b.obj.kind < 0
  else a.obj.name < b.obj.name

/-- the variables of `adjustDeps`: the tasks, and the first index of a task that references each dependency -/
abbrev Deps := List SyncTask × (String → Option ℕ)

/-- the dependency takes the place, the wave and the phase of the first task that references it -/
def bubbleUp (d : Deps) (i index : ℕ) (t first : SyncTask) : Deps :=
  (moveUp d.1 i index { t with waveOverride := some first.wave, phase := first.phase },
    fun depKey => (d.2 depKey).map fun firstIndex => if index ≤ firstIndex then firstIndex + 1 else firstIndex)

/-- one turn of the loop of `adjustDeps`, for the task at index i -/
def adjustDep (isDep doesRefDep : Obj → Option String) (d : Deps) (i : ℕ) : Deps :=
  match d.1[i]? with
  | none => d
  | some t =>
    match t.targetObj with
    | none => d
    | some target =>
      match isDep target with
      | some depKey =>
        match d.2 depKey with
        | none => d
        | some index =>
          match d.1[index]? with
          | none => d
          | some first => bubbleUp d i index t first
      | none =>
        match doesRefDep target with
        | none => d
        | some depKey => if (d.2 depKey).isSome then d else (d.1, Function.update d.2 depKey (some i))

def adjustDeps (isDep doesRefDep : Obj → Option String) (tasks : List SyncTask) : List SyncTask :=
  ((List.range tasks.length).foldl (adjustDep isDep doesRefDep) (tasks, fun _ => none)).1

variable (o : Obj)

def isNamespaceDep : Option String := if isNamespaceKind o then some o.name else none

def refsNamespace : Option String := if o.ns ≠ "" then some o.ns else none

def isCRDDep : Option String :=
  if isCRD o then o.crdGroup.bind fun group => o.crdKind.map fun kind => group ++ "/" ++ kind else none

def refsCRD : Option String := some (o.group ++ "/" ++ o.kind)

/-- `syncTasks.Sort` -/
def sortTasks (tasks : List SyncTask) : List SyncTask :=
  adjustDeps isCRDDep refsCRD
    (adjustDeps isNamespaceDep refsNamespace (tasks.insertionSort fun a b => ¬ (less b a = true)))

/-- `tasks.phase()`, `tasks.wave()`, `tasks.lastPhase()` and `tasks.lastWave()` compared; no tasks are one step -/
def multiStep (tasks : List SyncTask) : Bool :=
  match tasks.head?, tasks.getLast? with
  | some first, some last => first.wave ≠ last.wave || first.phase ≠ last.phase
  | _, _ => false

/-! ## Sorted by phase and wave -/

variable (t : SyncTask)

/-- the position of a task in the sync -/
def SyncTask.rank : ℤ ×ₗ ℤ := toLex (t.phase.order, t.wave)

variable {b a : SyncTask} {tasks : List SyncTask} {i : ℕ} {d : Deps}

theorem rank_eq_iff : a.rank = b.rank ↔ a.phase = b.phase ∧ a.wave = b.wave := by
  unfold SyncTask.rank
  rw [toLex_inj, Prod.mk.injEq, SyncPhase.order_injective.eq_iff]

/-- everything `less` compares -/
def fullRank : ℤ ×ₗ ℤ ×ₗ ℤ ×ₗ String :=
  toLex (t.phase.order, toLex (t.wave, toLex (kindOrder t.obj.kind, t.obj.name)))

theorem rank_le_of_fullRank_le (h : fullRank a ≤ fullRank b) : a.rank ≤ b.rank := by
  simp only [fullRank, SyncTask.rank, Prod.Lex.toLex_le_toLex] at h ⊢
  rcases h with h | ⟨h, h' | h'⟩
  · exact .inl h
  · exact .inr ⟨h, h'.le⟩
  · exact .inr ⟨h, h'.1.le⟩

/-- the difference of two waves fits in int64 -/
def WavesFit (tasks : List SyncTask) : Prop :=
  ∀ a ∈ tasks, ∀ b ∈ tasks, -(2 ^ 63) ≤ a.wave - b.wave ∧ a.wave - b.wave < 2 ^ 63

instance (tasks : List SyncTask) : Decidable (WavesFit tasks) :=
  inferInstanceAs (Decidable (∀ a ∈ tasks, ∀ b ∈ tasks, -(2 ^ 63) ≤ a.wave - b.wave ∧ a.wave - b.wave < 2 ^ 63))

/-- the same within each phase, which is all that `less` needs -/
def PhaseWavesFit (tasks : List SyncTask) : Prop :=
  ∀ a ∈ tasks, ∀ b ∈ tasks, a.phase = b.phase → -(2 ^ 63) ≤ a.wave - b.wave ∧ a.wave - b.wave < 2 ^ 63

theorem WavesFit.inPhases (h : WavesFit tasks) : PhaseWavesFit tasks := fun a ha b hb _ => h a ha b hb

theorem wrap64_eq {x : ℤ} (h : -(2 ^ 63) ≤ x ∧ x < 2 ^ 63) : wrap64 x = x := by
  unfold wrap64
  rw [Int.bmod_eq_of_le] <;> omega

theorem less_iff (hf : a.phase = b.phase → -(2 ^ 63) ≤ a.wave - b.wave ∧ a.wave - b.wave < 2 ^ 63) :
    less a b = true ↔ fullRank a < fullRank b := by
  have hp : wrap64 (a.phase.order - b.phase.order) = a.phase.order - b.phase.order := by
    apply wrap64_eq
    cases a.phase <;> cases b.phase <;> decide
  by_cases hph : a.phase = b.phase
  · simp only [less, hp, wrap64_eq (hf hph), fullRank, Prod.Lex.toLex_lt_toLex]
    split_ifs with h1 h2 h3
    · exact absurd (by rw [hph, sub_self]) h1
    · have hne : a.wave ≠ b.wave := fun he => h2 (by omega)
      simp [hph, hne]
    · have hw : a.wave = b.wave := by omega
      have hne : kindOrder a.obj.kind ≠ kindOrder b.obj.kind := fun he => h3 (by omega)
      simp [hph, hw, hne]
    · have hw : a.wave = b.wave := by omega
      have hk : kindOrder a.obj.kind = kindOrder b.obj.kind := by omega
      simp [hph, hw, hk]
  · have hne : a.phase.order ≠ b.phase.order := fun he => hph (SyncPhase.order_injective he)
    have hd : a.phase.order - b.phase.order ≠ 0 := sub_ne_zero.2 hne
    simp [less, hp, hd, fullRank, Prod.Lex.toLex_lt_toLex, hne]

theorem insertionSort_ranked (h : PhaseWavesFit tasks) :
    (tasks.insertionSort fun a b => ¬ (less b a = true)).Pairwise fun a b => a.rank ≤ b.rank := by
  rw [insertionSort_congr _ (fun a b => fullRank a ≤ fullRank b) tasks fun a ha b hb => by
    rw [less_iff (h b hb a ha), not_lt]]
  exact (pairwise_insertionSort _ tasks).imp fun h => rank_le_of_fullRank_le h

/-! ## The dependency passes -/

/-- the dependency that a task is -/
def depKey (isDep : Obj → Option String) (t : SyncTask) : Option String := t.targetObj.bind isDep

/-- the dependency that a task references; one that is a dependency itself references none -/
def refKey (isDep doesRefDep : Obj → Option String) (t : SyncTask) : Option String :=
  if (depKey isDep t).isSome then none else t.targetObj.bind doesRefDep

variable {isDep doesRefDep : Obj → Option String}

/-- what one turn may do -/
theorem adjustDep_cases {t : SyncTask} (ht : d.1[i]? = some t) : (adjustDep isDep doesRefDep d i = d ∧
      (∀ k index, depKey isDep t = some k → d.2 k = some index → d.1[index]? = none) ∧
      ∀ k, refKey isDep doesRefDep t = some k → (d.2 k).isSome) ∨
    (∃ k index first, depKey isDep t = some k ∧ d.2 k = some index ∧ d.1[index]? = some first ∧
      adjustDep isDep doesRefDep d i = bubbleUp d i index t first) ∨
    ∃ k, refKey isDep doesRefDep t = some k ∧ d.2 k = none ∧
      adjustDep isDep doesRefDep d i = (d.1, Function.update d.2 k (some i)) := by
  unfold adjustDep
  simp only [ht]
  cases hta : t.targetObj with
  | none => simp [depKey, refKey, hta]
  | some target =>
    cases hd : isDep target with
    | some k =>
      cases hk : d.2 k with
      | none =>
        refine .inl ⟨by simp [hd, hk], fun k' index hk' hi => ?_, by simp [depKey, refKey, hta, hd]⟩
        cases hd.symm.trans (show isDep target = some k' by simpa [depKey, hta] using hk')
        cases hk.symm.trans hi
      | some index =>
        cases hf : d.1[index]? with
        | some first => exact .inr (.inl ⟨k, index, first, by simp [depKey, hta, hd], hk, hf, by simp [hd, hk, hf]⟩)
        | none =>
          refine .inl ⟨by simp [hd, hk, hf], fun k' index' hk' hi => ?_, by simp [depKey, refKey, hta, hd]⟩
          cases hd.symm.trans (show isDep target = some k' by simpa [depKey, hta] using hk')
          cases hk.symm.trans hi
          exact hf
    | none =>
      cases hr : doesRefDep target with
      | none => simp [depKey, refKey, hta, hd, hr]
      | some k => cases hk : d.2 k <;> simp [depKey, refKey, hta, hd, hr, hk]

theorem adjustDep_none (h : d.1[i]? = none) : adjustDep isDep doesRefDep d i = d := by
  unfold adjustDep
  rw [h]

/-- before index i is looked at: the tasks are ranked, and the recorded indexes are of tasks already passed -/
structure DepsInv (n i : ℕ) (d : Deps) : Prop where
  length : d.1.length = n
  ranked : d.1.Pairwise fun a b => a.rank ≤ b.rank
  passed : ∀ depKey index, d.2 depKey = some index → index < i

theorem bubbleUp_inv {n index : ℕ} (h : DepsInv n i d) (hi : i < n) {t first : SyncTask}
    (hin : index < i) (hf : d.1[index]? = some first) : DepsInv n (i + 1) (bubbleUp d i index t first) where
  length := by rw [bubbleUp, length_moveUp _ _ _ _ (by rw [h.length]; exact hi), h.length]
  ranked := pairwise_moveUp SyncTask.rank d.1 i index _ first hin hf rfl h.ranked
  passed depKey j hj := by
    obtain ⟨j', hj', rfl⟩ := Option.map_eq_some_iff.1 hj
    have hlt := h.passed depKey j' hj'
    split_ifs <;> omega

theorem adjustDep_inv {n : ℕ} (h : DepsInv n i d) (hi : i < n) : DepsInv n (i + 1) (adjustDep isDep doesRefDep d i) := by
  have hke : DepsInv n (i + 1) d := ⟨h.length, h.ranked, fun k j hj => Nat.lt_succ_of_lt (h.passed k j hj)⟩
  rcases adjustDep_cases (getElem?_eq_getElem (h.length ▸ hi)) with
    ⟨he, -, -⟩ | ⟨k, index, first, -, hk, hf, he⟩ | ⟨k, -, -, he⟩
  · rwa [he]
  · rw [he]
    exact bubbleUp_inv h hi (h.passed k index hk) hf
  · rw [he]
    refine ⟨h.length, h.ranked, fun k' j hj => ?_⟩
    change Function.update d.2 k (some i) k' = some j at hj
    by_cases hkk : k' = k
    · rw [hkk, Function.update_self] at hj
      cases hj
      exact Nat.lt_succ_self i
    · rw [Function.update_of_ne hkk] at hj
      exact hke.passed k' j hj

theorem adjustDeps_inv (isDep doesRefDep : Obj → Option String) (h : tasks.Pairwise fun a b => a.rank ≤ b.rank)
    (hi : i ≤ tasks.length) :
    DepsInv tasks.length i ((List.range i).foldl (adjustDep isDep doesRefDep) (tasks, fun _ => none)) := by
  induction i with
  | zero => exact ⟨rfl, h, nofun⟩
  | succ i ih =>
    rw [range_succ, foldl_append]
    exact adjustDep_inv (ih (by omega)) hi

theorem adjustDeps_ranked (isDep doesRefDep : Obj → Option String) (h : tasks.Pairwise fun a b => a.rank ≤ b.rank) :
    (adjustDeps isDep doesRefDep tasks).Pairwise fun a b => a.rank ≤ b.rank :=
  (adjustDeps_inv isDep doesRefDep h le_rfl).ranked

theorem sortTasks_ranked (h : WavesFit tasks) : (sortTasks tasks).Pairwise fun a b => a.rank ≤ b.rank :=
  adjustDeps_ranked _ _ (adjustDeps_ranked _ _ (insertionSort_ranked h.inPhases))

/-! ## What the sort keeps -/

/-- the fields the sort does not touch -/
def SyncTask.core : ℕ × Subject × Bool := (t.ptr, t.subject, t.skipDryRun)

theorem bubbleUp_core {index : ℕ} {t first : SyncTask} (ht : d.1[i]? = some t) :
    ((bubbleUp d i index t first).1.map SyncTask.core).Perm (d.1.map SyncTask.core) := by
  obtain ⟨hi, rfl⟩ := List.getElem?_eq_some_iff.1 ht
  have h := (moveUp_perm d.1 i index { d.1[i] with waveOverride := some first.wave, phase := first.phase }).map
    SyncTask.core
  have h' := (getElem_cons_eraseIdx_perm hi).map SyncTask.core
  exact h.trans h'

theorem adjustDep_core (d : Deps) (i : ℕ) :
    ((adjustDep isDep doesRefDep d i).1.map SyncTask.core).Perm (d.1.map SyncTask.core) := by
  cases ht : d.1[i]? with
  | none => rw [adjustDep_none ht]
  | some t =>
    rcases adjustDep_cases ht with ⟨he, -, -⟩ | ⟨k, index, first, -, -, -, he⟩ | ⟨k, -, -, he⟩
    · rw [he]
    · rw [he]
      exact bubbleUp_core ht
    · rw [he]

theorem adjustDeps_core (isDep doesRefDep : Obj → Option String) (tasks : List SyncTask) :
    ((adjustDeps isDep doesRefDep tasks).map SyncTask.core).Perm (tasks.map SyncTask.core) := by
  have hl : ∀ (is : List ℕ) (d : Deps),
      ((is.foldl (adjustDep isDep doesRefDep) d).1.map SyncTask.core).Perm (d.1.map SyncTask.core) := by
    intro is
    induction is with
    | nil => exact fun d => .refl _
    | cons i is ih => exact fun d => (ih _).trans (adjustDep_core d i)
  exact hl _ _

theorem sortTasks_core (tasks : List SyncTask) : ((sortTasks tasks).map SyncTask.core).Perm (tasks.map SyncTask.core) :=
  (adjustDeps_core _ _ _).trans ((adjustDeps_core _ _ _).trans ((perm_insertionSort _ tasks).map _))

/-! ## Single steps -/

theorem multiStep_eq_false (h : tasks.Pairwise fun a b => a.rank ≤ b.rank)
    (hm : multiStep tasks = false) (a b : SyncTask) (ha : a ∈ tasks) (hb : b ∈ tasks) : a.rank = b.rank := by
  cases tasks with
  | nil => cases ha
  | cons first rest =>
    have hl : ∃ last, (first :: rest).getLast? = some last := ⟨_, List.getLast?_cons⟩
    obtain ⟨last, hl⟩ := hl
    have he : first.rank = last.rank := by
      simp only [multiStep, List.head?_cons, hl, Bool.or_eq_false_iff, decide_eq_false_iff_not, not_not] at hm
      exact rank_eq_iff.2 ⟨hm.2, hm.1⟩
    have hbe : ∀ t ∈ first :: rest, t.rank = first.rank := by
      intro t ht
      apply le_antisymm
      · rw [he]
        obtain ⟨pre, hp⟩ := List.getLast?_eq_some_iff.1 hl
        rw [hp] at ht h
        rcases mem_append.1 ht with ht | ht
        · exact (pairwise_append.1 h).2.2 t ht last mem_cons_self
        · rw [mem_singleton.1 ht]
      · rcases mem_cons.1 ht with rfl | ht
        · exact le_rfl
        · exact (pairwise_cons.1 h).1 t ht
    rw [hbe a ha, hbe b hb]

end GitOpsDeploy.Sync

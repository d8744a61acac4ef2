/-
The diff cache (`useDiffCache` in `controller/state.go`, `diffArrayCached` in `util/cd/diff/diff.go`, and the writes at
the end of `processAppRefreshQueueItem`).

A refresh reuses the cached result of a resource if the application's status has the revisions and the specification of this
refresh, and the live object its resource version. The results are in one store and the status in another; a refresh writes
them one after the other, and each write can fail. Results are named by what they were computed from.
-/
import GitOpsDeploy.Core.Trace

namespace GitOpsDeploy.DiffCache

open List

/-! ## What a refresh compares -/

/-- destination and ignored differences are one value -/
structure Spec (Src Dest : Type) where
  source : Src
  sources : List Src
  destination : Dest

structure ComparedTo (Src Dest : Type) where
  source : Option Src
  sources : List Src
  destination : Dest
  deriving DecidableEq

structure SyncStatus (Src Dest : Type) where
  revision : String
  revisions : List String
  comparedTo : ComparedTo Src Dest

variable {Src Dest Key M : Type} [DecidableEq Src] [DecidableEq Dest] [DecidableEq Key]

variable (spec : Spec Src Dest)

def Spec.hasMultipleSources : Bool := !spec.sources.isEmpty

/-- the sources that are compared -/
def Spec.getSources : List Src := if spec.hasMultipleSources then spec.sources else [spec.source]

def Spec.buildComparedToStatus : ComparedTo Src Dest :=
  if spec.hasMultipleSources then ⟨none, spec.sources, spec.destination⟩
    else ⟨some spec.source, [], spec.destination⟩

def SyncStatus.getRevisions (status : SyncStatus Src Dest) : List String :=
  if status.revisions ≠ [] then status.revisions else if status.revision ≠ "" then [status.revision] else []

/-- the result of a diff, named by its target and the live version; `empty` stands where the diff failed -/
inductive Result (M : Type) where
  | computed (target : Option M) (resourceVersion : String)
  | empty
  deriving DecidableEq

structure ResourceDiff (Key M : Type) where
  key : Key
  /-- of the live object, empty if there is none -/
  resourceVersion : String
  diff : Result M

/-- a refresh with what it finds, and which of its accesses fail -/
structure Refresh (Src Dest Key : Type) where
  spec : Spec Src Dest
  /-- the revision that is asked for -/
  revision : String
  /-- of the manifests, one for each source; nothing if they cannot be loaded -/
  manifestRevisions : Option (List String)
  resolved : ∀ revisions, manifestRevisions = some revisions → revisions.length = spec.getSources.length
  /-- the resources of the reconciliation with their live versions -/
  resources : List (Key × String)
  noCache : Bool
  refreshRequested : Bool
  expired : Bool
  serverSideDiff : Bool
  cacheRead : Bool
  diffs : Bool
  cacheWritten : Bool
  statusPatched : Bool

structure State (Src Dest Key M : Type) where
  /-- the managed resources in the cache -/
  cache : Option (List (ResourceDiff Key M))
  status : SyncStatus Src Dest

/-! ## A refresh -/

/-- the manifest of a resource, from the sources, the destination and the resolved revisions -/
abbrev Manifests (Src Dest Key M : Type) := List Src → Dest → List String → Key → Option M

variable (manifests : Manifests Src Dest Key M) (isSecret : Key → Bool)

namespace Refresh

variable (r : Refresh Src Dest Key) (s : State Src Dest Key M)

def target (key : Key) : Option M :=
  r.manifestRevisions.bind fun revisions => manifests r.spec.getSources r.spec.destination revisions key

def useDiffCache : Bool :=
  !r.noCache && !r.refreshRequested && !(r.expired && !r.serverSideDiff) &&
    (r.manifestRevisions.getD []).length == r.spec.getSources.length &&
    s.status.getRevisions == r.manifestRevisions.getD [] && s.status.comparedTo == r.spec.buildComparedToStatus

/-- of entries with one key the last one counts -/
def diffFromCache (cachedDiff : List (ResourceDiff Key M)) (key : Key) (resourceVersion : String) : Option (Result M) :=
  match cachedDiff.reverse.find? (·.key = key) with
  | some cached => if cached.resourceVersion = resourceVersion then some cached.diff else none
  | none => none

/-- the cached result that is used for a resource -/
def reused (key : Key) (resourceVersion : String) : Option (Result M) :=
  if r.useDiffCache s && r.cacheRead then s.cache.bind fun cachedDiff =>
    diffFromCache cachedDiff key resourceVersion else none

def stateDiff (key : Key) (resourceVersion : String) : Result M :=
  if r.diffs then (r.reused s key resourceVersion).getD (.computed (r.target manifests key) resourceVersion) else .empty

/-- the results of secrets are computed again, without the data -/
def hideSecretData : List (ResourceDiff Key M) :=
  r.resources.map fun (key, resourceVersion) =>
    ⟨key, resourceVersion,
      if isSecret key then .computed (r.target manifests key) resourceVersion
        else r.stateDiff manifests s key resourceVersion⟩

def syncStatus : SyncStatus Src Dest :=
  let manifestRevisions := r.manifestRevisions.getD []
  if r.spec.hasMultipleSources then ⟨"", manifestRevisions, r.spec.buildComparedToStatus⟩
  else ⟨manifestRevisions.head?.getD r.revision, [], r.spec.buildComparedToStatus⟩

end Refresh

inductive Action (Src Dest Key : Type) where
  | refresh (r : Refresh Src Dest Key)
  /-- a refresh that finds errors in the application deletes the managed resources -/
  | conditionErrors (deleted : Bool)
  | expire

def step : Action Src Dest Key → State Src Dest Key M → State Src Dest Key M
  | .refresh r, s =>
    { cache := if r.cacheWritten then some (r.hideSecretData manifests isSecret s) else s.cache
      status := if r.statusPatched then r.syncStatus else s.status }
  | .conditionErrors deleted, s => if deleted then { s with cache := none } else s
  | .expire, s => { s with cache := none }

/-! ## Coherence -/

/-- nothing of the refresh is stored that the rest does not go with: it writes both stores, or none, or the status has
what it would write; one that could not load the manifests or compute the diffs writes nothing -/
def BothOrNeither (s : State Src Dest Key M) : Action Src Dest Key → Prop
  | .refresh r =>
    (r.cacheWritten = false ∧ (r.statusPatched = false ∨ s.cache = none)) ∨
      (r.manifestRevisions.isSome ∧ r.diffs = true ∧ (r.cacheWritten = r.statusPatched ∨ s.status = r.syncStatus))
  | _ => True

/-- the sources that were compared -/
def ComparedTo.getSources (comparedTo : ComparedTo Src Dest) : List Src := comparedTo.source.elim comparedTo.sources ([·])

/-- the manifest of a resource that a status stands for -/
def SyncStatus.target (status : SyncStatus Src Dest) (key : Key) : Option M :=
  manifests status.comparedTo.getSources status.comparedTo.destination status.getRevisions key

/-- what is cached was computed from the manifests of the status -/
def Coherent (s : State Src Dest Key M) : Prop :=
  s.status.getRevisions ≠ [] → ∀ entries, s.cache = some entries →
    ∀ e ∈ entries, e.diff = .computed (s.status.target manifests e.key) e.resourceVersion

variable {manifests isSecret} {r : Refresh Src Dest Key} {s : State Src Dest Key M} {key : Key} {d : Result M}
  {resourceVersion : String}

omit [DecidableEq Src] [DecidableEq Dest] in
theorem buildComparedToStatus_getSources :
    spec.buildComparedToStatus.getSources = spec.getSources ∧
      spec.buildComparedToStatus.destination = spec.destination := by
  unfold Spec.buildComparedToStatus Spec.getSources ComparedTo.getSources
  split_ifs <;> simp

omit [DecidableEq Src] [DecidableEq Dest] in
theorem getSources_ne_nil : spec.getSources ≠ [] := by
  unfold Spec.getSources Spec.hasMultipleSources
  split_ifs with h
  · simpa using h
  · simp

omit [DecidableEq Key] in
/-- a refresh that uses the cache has the manifests that the status stands for -/
theorem target_of_useDiffCache (h : r.useDiffCache s = true) :
    s.status.getRevisions ≠ [] ∧ ∀ key, r.target manifests key = s.status.target manifests key := by
  simp only [Refresh.useDiffCache, Bool.and_eq_true, beq_iff_eq] at h
  obtain ⟨⟨⟨-, hl⟩, hr⟩, hc⟩ := h
  cases hlo : r.manifestRevisions with
  | none =>
    rw [hlo, Option.getD_none, length_nil, eq_comm, length_eq_zero_iff] at hl
    exact absurd hl (getSources_ne_nil r.spec)
  | some revisions =>
    rw [hlo, Option.getD_some] at hl hr
    refine ⟨fun hn => getSources_ne_nil r.spec ?_, fun key => ?_⟩
    · rw [← length_eq_zero_iff, ← hl, ← hr, hn, length_nil]
    · obtain ⟨hs, hd⟩ := buildComparedToStatus_getSources r.spec
      simp only [Refresh.target, hlo, Option.bind_some, SyncStatus.target, hc, hs, hd, hr]

omit [DecidableEq Src] [DecidableEq Dest] [DecidableEq Key] in
/-- the status that a refresh writes stands for its manifests -/
theorem target_of_syncStatus (hlo : r.manifestRevisions.isSome) (hne : r.syncStatus.getRevisions ≠ []) (key : Key) :
    r.target manifests key = r.syncStatus.target manifests key := by
  obtain ⟨revisions, hr⟩ := Option.isSome_iff_exists.1 hlo
  obtain ⟨hs, hd⟩ := buildComparedToStatus_getSources r.spec
  have hl := r.resolved revisions hr
  have hsa : r.syncStatus.getRevisions = revisions := by
    unfold Refresh.syncStatus SyncStatus.getRevisions Spec.getSources at *
    rw [hr, Option.getD_some] at hne ⊢
    split_ifs at hne hl ⊢ with hm <;> simp_all
    obtain ⟨revision, rfl⟩ := length_eq_one_iff.1 hl
    simp_all
  have hc : r.syncStatus.comparedTo = r.spec.buildComparedToStatus := by
    unfold Refresh.syncStatus
    split_ifs <;> rfl
  simp only [Refresh.target, hr, Option.bind_some, SyncStatus.target, hsa, hc, hs, hd]

theorem reused_of_coherent (hs : Coherent manifests s) (h : r.reused s key resourceVersion = some d) :
    d = .computed (r.target manifests key) resourceVersion := by
  unfold Refresh.reused at h
  split_ifs at h with hu
  obtain ⟨hne, ht⟩ := target_of_useDiffCache (Bool.and_eq_true_iff.1 hu).1
  obtain ⟨entries, he, hf⟩ := Option.bind_eq_some_iff.1 h
  unfold Refresh.diffFromCache at hf
  split at hf
  next cached hc =>
    split_ifs at hf with hv
    have hm := mem_reverse.1 (List.mem_of_find?_eq_some hc)
    have hk : cached.key = key := by simpa using List.find?_some hc
    rw [← Option.some.inj hf, hs hne entries he cached hm, ht, hk, hv]
  next => cases hf

/-- what a refresh would cache was computed from its manifests -/
theorem hideSecretData_of_coherent (hs : Coherent manifests s) (hd : r.diffs = true) :
    ∀ e ∈ r.hideSecretData manifests isSecret s, e.diff = .computed (r.target manifests e.key) e.resourceVersion := by
  intro e he
  obtain ⟨⟨key, resourceVersion⟩, -, rfl⟩ := mem_map.1 he
  dsimp only
  split_ifs
  · rfl
  unfold Refresh.stateDiff
  rw [if_pos hd]
  cases hr : r.reused s key resourceVersion with
  | none => rfl
  | some d => exact reused_of_coherent hs hr

theorem coherent_step {a : Action Src Dest Key} (hs : Coherent manifests s) (ha : BothOrNeither s a) :
    Coherent manifests (step manifests isSecret a s) := by
  cases a with
  | expire => exact nofun
  | conditionErrors deleted =>
    cases deleted with
    | true => exact nofun
    | false => exact hs
  | refresh r =>
    intro hne entries hen
    dsimp only [step] at hne hen ⊢
    rcases ha with ⟨hw, hp | hn⟩ | ⟨hl, hd, hb⟩
    · simp only [hp, hw] at hne hen ⊢
      exact hs hne entries hen
    · simp [hw, hn] at hen
    -- the status after the refresh is the one it writes, unless nothing is written
    · by_cases hc : r.cacheWritten = true
      · have hst : (if r.statusPatched then r.syncStatus else s.status) = r.syncStatus := by
          rcases hb with hb | hb
          · rw [if_pos (hb ▸ hc)]
          · rw [hb, ite_self]
        rw [if_pos hc] at hen
        cases hen
        rw [hst] at hne ⊢
        intro e he
        rw [← target_of_syncStatus hl hne]
        exact hideSecretData_of_coherent hs hd e he
      · have hst : (if r.statusPatched then r.syncStatus else s.status) = s.status := by
          rcases hb with hb | hb
          · rw [if_neg (hb ▸ hc)]
          · rw [← hb, ite_self]
        rw [if_neg hc] at hen
        rw [hst] at hne ⊢
        exact hs hne entries hen

/-- **The diff cache is coherent**, in every run in which a refresh writes both stores or neither. -/
theorem reuse_coherent {status : SyncStatus Src Dest}
    (hrun : Trace.Reach (step manifests isSecret) BothOrNeither ⟨none, status⟩ s) (r : Refresh Src Dest Key)
    (hreused : r.reused s key resourceVersion = some d) : d = .computed (r.target manifests key) resourceVersion :=
  reused_of_coherent (hrun.inv (Coherent manifests) nofun fun _ _ => coherent_step) hreused

/-- a refresh of the one resource at a revision; the live object stays as it is -/
def refreshAt (revision : String) (cacheWritten statusPatched : Bool) : Refresh Unit Unit Unit where
  spec := ⟨(), [], ()⟩
  revision := "HEAD"
  manifestRevisions := some [revision]
  resolved := fun _ h => Option.some.inj h ▸ rfl
  resources := [((), "1")]
  noCache := false
  refreshRequested := false
  expired := false
  serverSideDiff := false
  cacheRead := true
  diffs := true
  cacheWritten := cacheWritten
  statusPatched := statusPatched

/-- the manifest has the revision in it -/
def revisionManifest : Manifests Unit Unit Unit String := fun _ _ revisions _ => revisions.head?

/-- nothing has been compared yet -/
def unrefreshed : State Unit Unit Unit String := ⟨none, ⟨"", [], ⟨none, [], ()⟩⟩⟩

theorem reuse_coherent_second :
    (.computed (some "a") "1" : Result String) = .computed ((refreshAt "a" true true).target revisionManifest ()) "1" := by
  have hr : Trace.Reach (step revisionManifest fun _ => false) BothOrNeither unrefreshed
      (step revisionManifest (fun _ => false) (.refresh (refreshAt "a" true true)) unrefreshed) :=
    .act _ (.inr ⟨rfl, rfl, .inl rfl⟩)
  exact reuse_coherent hr (refreshAt "a" true true) (by decide +kernel)

/-- the refresh at b is cached, but its status cannot be patched; the refresh back at a takes the result of b -/
theorem reuse_incoherent :
    (refreshAt "a" true true).reused ([.refresh (refreshAt "a" true true), .refresh (refreshAt "b" true false)].foldl
      (fun s a => step revisionManifest (fun _ => false) a s) unrefreshed) () "1" =
      some (.computed (some "b") "1") ∧
    (refreshAt "a" true true).target revisionManifest () = some "a" := by
  decide +kernel

end GitOpsDeploy.DiffCache

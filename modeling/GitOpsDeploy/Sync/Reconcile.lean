/-
Target objects paired with live objects (`gitops-engine/pkg/sync/reconcile.go`).

The live objects are a map by their keys, none of them nil, which deduplication and pairing take objects out of. Ranges over
Go maps run in any order, a `ReconcileOrder`.

- `mem_dedupLiveResources`: which live objects deduplication leaves.
- `reconcile_pairs`: nothing is lost and nothing is used twice.
-/
import Mathlib.Data.List.ReduceOption
import GitOpsDeploy.Core.KeyedMap
import GitOpsDeploy.Sync.Object

namespace GitOpsDeploy.Sync

open List

structure LiveResource where
  obj : Obj
  uid : String
  deriving DecidableEq, Repr

def LiveResource.key (r : LiveResource) : ResourceKey := r.obj.key

abbrev LiveMap := KeyedMap LiveResource.key

/-- the orders of the ranges over live objects, over their UIDs and over what is left -/
structure ReconcileOrder where
  live : List LiveResource → List LiveResource
  ids : List String → List String
  rest : List LiveResource → List LiveResource
  live_perm : ∀ l, (live l).Perm l
  ids_perm : ∀ l, (ids l).Perm l
  rest_perm : ∀ l, (rest l).Perm l

def ignore (obj : Obj) : Bool := isHook obj && (hookTypes obj).isEmpty

/-- the targets and the hooks; a target may be nil -/
def splitHooks (target : List (Option Obj)) : List Obj × List Obj :=
  (target.reduceOption.filter fun obj => !ignore obj).partition fun obj => !isHook obj

/-- the loop over objects with one UID, with the number of them that is left -/
def dropDuplicates (targetKeys : List ResourceKey) : List LiveResource → ℕ → LiveMap → LiveMap
  | [], _, live => live
  | obj :: objs, duplicatesLeft, live =>
    if obj.key ∈ targetKeys then dropDuplicates targetKeys objs duplicatesLeft live
    else if duplicatesLeft - 1 = 1 then live.delete obj.key
    else dropDuplicates targetKeys objs (duplicatesLeft - 1) (live.delete obj.key)

/-- `liveObjsById[id]` -/
def liveObjsById (o : ReconcileOrder) (live : LiveMap) (id : String) : List LiveResource :=
  (o.live live.values).filter fun obj => obj.uid = id

def dedupLiveResources (o : ReconcileOrder) (targetObjs : List Obj) (live : LiveMap) : LiveMap :=
  (o.ids ((live.values.map LiveResource.uid).dedup)).foldl (fun left id =>
    let objs := liveObjsById o live id
    if 1 < objs.length then dropDuplicates (targetObjs.map Obj.key) objs objs.length left else left) live

/-- `isNamespaced` has no answer when the scope is not known -/
def keysToCheck (appNamespace : String) (isNamespaced : String → String → Option Bool) (obj : Obj) : List ResourceKey :=
  let ns := if obj.ns ≠ "" then obj.ns else appNamespace
  match isNamespaced obj.group obj.kind with
  | some true => [⟨obj.group, obj.kind, ns, obj.name⟩]
  | some false => [⟨obj.group, obj.kind, "", obj.name⟩]
  | none => [⟨obj.group, obj.kind, ns, obj.name⟩, ⟨obj.group, obj.kind, "", obj.name⟩]

/-- the live object under the first of the keys that has one is taken -/
def claimLive (live : LiveMap) : List ResourceKey → Option LiveResource × LiveMap
  | [] => (none, live)
  | key :: keys =>
    match live.get? key with
    | some liveObj => (some liveObj, live.delete key)
    | none => claimLive live keys

/-- the loop over the targets: `managedLiveObj`, and what is left -/
def pairTargets (keys : Obj → List ResourceKey) : List Obj → LiveMap → List (Option LiveResource) × LiveMap
  | [], live => ([], live)
  | obj :: objs, live =>
    let found := claimLive live (keys obj)
    let rest := pairTargets keys objs found.2
    (found.1 :: rest.1, rest.2)

structure ReconciliationResult where
  live : List (Option LiveResource)
  target : List (Option Obj)
  hooks : List Obj

def reconcile (o : ReconcileOrder) (targetObjs : List (Option Obj)) (live : LiveMap) (appNamespace : String)
    (isNamespaced : String → String → Option Bool) : ReconciliationResult :=
  let split := splitHooks targetObjs
  let paired := pairTargets (keysToCheck appNamespace isNamespaced) split.1 (dedupLiveResources o split.1 live)
  { target := split.1.map some ++ List.replicate paired.2.values.length none
    hooks := split.2
    live := paired.1 ++ (o.rest paired.2.values).map some }

/-! ## Deduplication -/

variable {o : ReconcileOrder} {live : LiveMap} {a r : LiveResource} {objs : List LiveResource}
  {targetKeys : List ResourceKey} {targetObjs : List Obj} {n : ℕ} {id : String}

/-- the objects with one UID that go: all but one of those that are no target, or all of these -/
def dropped (targetKeys : List ResourceKey) (objs : List LiveResource) (n : ℕ) : List LiveResource :=
  (objs.filter fun obj => obj.key ∉ targetKeys).take (n - 1)

theorem mem_dropDuplicates (hn : 1 < n) :
    a ∈ dropDuplicates targetKeys objs n live ↔
      a ∈ live ∧ a.key ∉ (dropped targetKeys objs n).map LiveResource.key := by
  induction objs generalizing n live with
  | nil => simp [dropDuplicates, dropped]
  | cons obj objs ih =>
    unfold dropDuplicates
    split_ifs with ht hone
    · rw [ih hn]
      simp [dropped, ht]
    · obtain rfl : n = 2 := by omega
      rw [KeyedMap.mem_delete]
      simp [dropped, ht]
    · obtain ⟨m, rfl⟩ : ∃ m, n = m + 2 := ⟨n - 2, by omega⟩
      rw [ih (by omega), KeyedMap.mem_delete]
      simp [dropped, ht, and_assoc]

theorem mem_liveObjsById : a ∈ liveObjsById o live id ↔ a ∈ live ∧ a.uid = id := by
  rw [liveObjsById, mem_filter, (o.live_perm _).mem_iff, decide_eq_true_eq]
  rfl

/-- what goes of the objects with an UID -/
def droppedOf (o : ReconcileOrder) (targetObjs : List Obj) (live : LiveMap) (id : String) : List LiveResource :=
  if 1 < (liveObjsById o live id).length then
    dropped (targetObjs.map Obj.key) (liveObjsById o live id) (liveObjsById o live id).length
  else []

theorem mem_of_mem_droppedOf (h : a ∈ droppedOf o targetObjs live id) :
    (a ∈ live ∧ a.uid = id) ∧ a.key ∉ targetObjs.map Obj.key := by
  unfold droppedOf at h
  split_ifs at h with hlen
  · obtain ⟨hm, hk⟩ := mem_filter.1 (mem_of_mem_take h)
    exact ⟨mem_liveObjsById.1 hm, of_decide_eq_true hk⟩
  · cases h

/-- **What deduplication leaves.** -/
theorem mem_dedupLiveResources :
    a ∈ dedupLiveResources o targetObjs live ↔ a ∈ live ∧ a ∉ droppedOf o targetObjs live a.uid := by
  have hl (ids : List String) (m : LiveMap) : a ∈ ids.foldl (fun left id =>
      let objs := liveObjsById o live id
      if 1 < objs.length then dropDuplicates (targetObjs.map Obj.key) objs objs.length left else left) m ↔
      a ∈ m ∧ ∀ id ∈ ids, a.key ∉ (droppedOf o targetObjs live id).map LiveResource.key := by
    induction ids generalizing m with
    | nil => simp
    | cons id ids ih =>
      rw [foldl_cons, ih, forall_mem_cons, ← and_assoc]
      refine and_congr_left fun _ => ?_
      unfold droppedOf
      dsimp only
      split_ifs with hlen
      · exact mem_dropDuplicates hlen
      · simp
  rw [dedupLiveResources, hl]
  refine and_congr_right fun ha => ⟨fun h hd => ?_, fun h id _ hk => ?_⟩
  · refine h a.uid ?_ (mem_map_of_mem hd)
    rw [(o.ids_perm _).mem_iff, mem_dedup]
    exact mem_map_of_mem ha
  · -- an object of that key is this one
    obtain ⟨b, hb, he⟩ := mem_map.1 hk
    obtain ⟨⟨hbm, hid⟩, -⟩ := mem_of_mem_droppedOf hb
    obtain rfl := KeyedMap.eq_of_key hbm ha he
    exact h (hid ▸ hb)

theorem dedupLiveResources_keeps_uid (hr : r ∈ live) : ∃ a ∈ dedupLiveResources o targetObjs live, a.uid = r.uid := by
  have hrg : r ∈ liveObjsById o live r.uid := mem_liveObjsById.2 ⟨hr, rfl⟩
  obtain ⟨a, ha, hn⟩ : ∃ a ∈ liveObjsById o live r.uid, a ∉ droppedOf o targetObjs live r.uid := by
    by_contra hall
    push Not at hall
    have hnodup : (liveObjsById o live r.uid).Nodup := ((o.live_perm _).nodup_iff.2 live.nodup_values).filter _
    have hle := (subperm_of_subset hnodup hall).length_le
    have hpos := length_pos_of_mem hrg
    unfold droppedOf dropped at hle
    split_ifs at hle with hlen
    · rw [length_take] at hle
      omega
    · rw [length_nil] at hle
      omega
  obtain ⟨hal, hid⟩ := mem_liveObjsById.1 ha
  exact ⟨a, mem_dedupLiveResources.2 ⟨hal, hid ▸ hn⟩, hid⟩

/-! ## Pairing -/

variable {keys : Obj → List ResourceKey} {ks : List ResourceKey} {ts : List Obj} {t : Obj} {x : Option LiveResource}

/-- a claim takes one object out, under one of the keys, or there is none under them -/
theorem claimLive_cases (live : LiveMap) (ks : List ResourceKey) :
    (∃ r ∈ live, r.key ∈ ks ∧ claimLive live ks = (some r, live.delete r.key)) ∨
      (claimLive live ks = (none, live) ∧ ∀ r ∈ live, r.key ∉ ks) := by
  induction ks with
  | nil => exact .inr ⟨rfl, fun _ _ => not_mem_nil⟩
  | cons k ks ih =>
    unfold claimLive
    cases hk : live.get? k with
    | some r =>
      obtain ⟨hr, rfl⟩ := KeyedMap.get?_eq_some.1 hk
      exact .inl ⟨r, hr, mem_cons_self, rfl⟩
    | none =>
      rcases ih with ⟨r, hr, hm, he⟩ | ⟨he, hno⟩
      · exact .inl ⟨r, hr, mem_cons_of_mem _ hm, he⟩
      · refine .inr ⟨he, fun r hr hm => ?_⟩
        rcases mem_cons.1 hm with rfl | hm
        · cases hk.symm.trans (KeyedMap.get?_eq_some.2 ⟨hr, rfl⟩)
        · exact hno r hr hm

theorem pairTargets_length : (pairTargets keys ts live).1.length = ts.length := by
  induction ts generalizing live with
  | nil => rfl
  | cons t ts ih => exact congrArg (· + 1) ih

/-- every live object is taken once or left -/
theorem pairTargets_perm :
    ((pairTargets keys ts live).1.reduceOption ++ (pairTargets keys ts live).2.values).Perm live.values := by
  induction ts generalizing live with
  | nil => exact .refl _
  | cons t ts ih =>
    rw [pairTargets]
    rcases claimLive_cases live (keys t) with ⟨r, hr, -, he⟩ | ⟨he, -⟩
    · rw [he]
      exact (ih.cons r).trans (KeyedMap.perm_delete hr).symm
    · rw [he]
      exact ih

theorem mem_of_mem_pairTargets (h : r ∈ (pairTargets keys ts live).2) : r ∈ live :=
  pairTargets_perm.subset (mem_append_right _ h)

/-- a target gets what is under one of its keys, and nothing only if what is left is not -/
theorem pairTargets_pairs (h : (t, x) ∈ ts.zip (pairTargets keys ts live).1) :
    (∀ r ∈ x, r.key ∈ keys t) ∧ (x = none → ∀ r ∈ (pairTargets keys ts live).2, r.key ∉ keys t) := by
  induction ts generalizing live with
  | nil => cases h
  | cons u ts ih =>
    rw [pairTargets] at h ⊢
    rw [zip_cons_cons] at h
    rcases mem_cons.1 h with he | h
    · obtain ⟨rfl, rfl⟩ := Prod.mk.inj he
      rcases claimLive_cases live (keys t) with ⟨r, -, hk, hc⟩ | ⟨hc, hno⟩
      · rw [hc]
        exact ⟨fun r' hr' => Option.mem_some_iff.1 hr' ▸ hk, nofun⟩
      · rw [hc]
        exact ⟨nofun, fun _ r hr => hno r (mem_of_mem_pairTargets hr)⟩
    · exact ih h

variable {appNamespace : String} {isNamespaced : String → String → Option Bool} {targets : List (Option Obj)}

theorem mem_keysToCheck {k : ResourceKey} (h : k ∈ keysToCheck appNamespace isNamespaced t) :
    k.group = t.group ∧ k.kind = t.kind ∧ k.name = t.name ∧
      (k.ns = (if t.ns ≠ "" then t.ns else appNamespace) ∨ k.ns = "") := by
  unfold keysToCheck at h
  dsimp only at h
  split at h
  · rw [mem_singleton.1 h]
    exact ⟨rfl, rfl, rfl, .inl rfl⟩
  · rw [mem_singleton.1 h]
    exact ⟨rfl, rfl, rfl, .inr rfl⟩
  · rcases mem_pair.1 h with rfl | rfl
    · exact ⟨rfl, rfl, rfl, .inl rfl⟩
    · exact ⟨rfl, rfl, rfl, .inr rfl⟩

/-- what is returned for the targets and the live objects that deduplication leaves -/
structure Pairs (appNamespace : String) (isNamespaced : String → String → Option Bool) (targets : List (Option Obj))
    (deduped : LiveMap) (res : ReconciliationResult) : Prop where
  length : res.live.length = res.target.length
  targets : res.target.reduceOption = targets.reduceOption.filter fun obj => !ignore obj && !isHook obj
  /-- each of them exactly once -/
  live : res.live.reduceOption.Perm deduped.values
  fits : ∀ t r, (some t, some r) ∈ res.target.zip res.live → r.obj.group = t.group ∧ r.obj.kind = t.kind ∧
    r.obj.name = t.name ∧ (r.obj.ns = (if t.ns ≠ "" then t.ns else appNamespace) ∨ r.obj.ns = "")
  /-- what is left cannot be claimed by a target that has no live object -/
  left : ∀ t r, (none, some r) ∈ res.target.zip res.live → (some t, none) ∈ res.target.zip res.live →
    r.key ∉ keysToCheck appNamespace isNamespaced t

theorem splitHooks_targets (targets : List (Option Obj)) :
    (splitHooks targets).1 = targets.reduceOption.filter fun obj => !ignore obj && !isHook obj := by
  rw [splitHooks, partition_eq_filter_filter, filter_filter]
  exact filter_congr fun obj _ => Bool.and_comm _ _

/-- an entry of the result is a target with what it has been paired with, or a live object that is left -/
theorem mem_zip_reconcile {y : Option Obj}
    (h : (y, x) ∈ (reconcile o targets live appNamespace isNamespaced).target.zip
      (reconcile o targets live appNamespace isNamespaced).live) :
    (∃ t, y = some t ∧ (t, x) ∈ (splitHooks targets).1.zip (pairTargets (keysToCheck appNamespace isNamespaced)
      (splitHooks targets).1 (dedupLiveResources o (splitHooks targets).1 live)).1) ∨
    (y = none ∧ ∃ r ∈ (pairTargets (keysToCheck appNamespace isNamespaced)
      (splitHooks targets).1 (dedupLiveResources o (splitHooks targets).1 live)).2, x = some r) := by
  unfold reconcile at h
  dsimp only at h
  rw [zip_append (by rw [length_map, pairTargets_length]), mem_append] at h
  rcases h with h | h
  · rw [zip_map_left, mem_map] at h
    obtain ⟨⟨t, x'⟩, hm, he⟩ := h
    cases he
    exact .inl ⟨t, rfl, hm⟩
  · obtain ⟨hy, hx⟩ := of_mem_zip h
    obtain ⟨r, hr, rfl⟩ := mem_map.1 hx
    exact .inr ⟨eq_of_mem_replicate hy, r, (o.rest_perm _).mem_iff.1 hr, rfl⟩

/-- **Targets and live objects are paired without loss and without repetition**, and of the live objects with one UID one
stays, and every one that is a target. -/
theorem reconcile_pairs (o : ReconcileOrder) (targets : List (Option Obj)) (live : LiveMap) (appNamespace : String)
    (isNamespaced : String → String → Option Bool) :
    Pairs appNamespace isNamespaced targets (dedupLiveResources o (splitHooks targets).1 live)
      (reconcile o targets live appNamespace isNamespaced) ∧
    (∀ r ∈ live, ∃ a ∈ dedupLiveResources o (splitHooks targets).1 live, a.uid = r.uid) ∧
    ∀ r ∈ live, r.key ∈ (splitHooks targets).1.map Obj.key →
      r ∈ dedupLiveResources o (splitHooks targets).1 live := by
  refine ⟨⟨?_, ?_, ?_, fun t r h => ?_, fun t r hleft hnone hk => ?_⟩, fun r => dedupLiveResources_keeps_uid,
    fun r hr hk => ?_⟩
  · simp [reconcile, pairTargets_length, (o.rest_perm _).length_eq]
  · rw [← splitHooks_targets, reconcile, reduceOption_append]
    simp [reduceOption, filterMap_map]
  · unfold reconcile
    dsimp only
    rw [reduceOption_append]
    refine Perm.trans (.append_left _ ?_) pairTargets_perm
    simpa [reduceOption, filterMap_map] using o.rest_perm _
  · rcases mem_zip_reconcile h with ⟨t', he, hm⟩ | ⟨he, -⟩
    · cases he
      exact mem_keysToCheck ((pairTargets_pairs hm).1 r rfl)
    · cases he
  · rcases mem_zip_reconcile hleft with ⟨t', he, -⟩ | ⟨-, r', hr', he⟩
    · cases he
    cases he
    rcases mem_zip_reconcile hnone with ⟨t', he, hm⟩ | ⟨he, -⟩
    · cases he
      exact (pairTargets_pairs hm).2 rfl r hr' hk
    · cases he
  · exact mem_dedupLiveResources.2 ⟨hr, fun hd => (mem_of_mem_droppedOf hd).2 hk⟩

end GitOpsDeploy.Sync

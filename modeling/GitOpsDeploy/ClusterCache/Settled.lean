/-
The cache as a function of the objects that exist.

- `Settled c L`: c holds the resources of L, every volume claim among them with the owners that `settle` gives it.
-/
import GitOpsDeploy.ClusterCache.Loops

namespace GitOpsDeploy.ClusterCache

open List
open Latest (put mem_put)
open Resource (resourceKey)

/-! ## Settled caches -/

/-- resources of objects that exist side by side, as `newResource` makes them -/
structure Sound (L : List Resource) : Prop where
  keys : (L.map resourceKey).Nodup
  distinct : ∀ p ∈ L, mightHaveInferredOwner p = true → p.ownerUIDs.Nodup
  oneJudge : ∀ p ∈ L, mightHaveInferredOwner p = true → OneJudge L p
  apart : ∀ p ∈ L, mightHaveInferredOwner p = true → p.isInferredParentOf = none

variable {L : List Resource} {r r' : Resource}

theorem Sound.mono {L' : List Resource} (h : Sound L) (hk : (L'.map resourceKey).Nodup)
    (hL : ∀ n ∈ L', n ∈ L) : Sound L' where
  keys := hk
  distinct p hp := h.distinct p (hL p hp)
  oneJudge p hp hc s hs s' hs' := h.oneJudge p (hL p hp) hc s (hL s hs) s' (hL s' hs')
  apart p hp := h.apart p (hL p hp)

/-- the same resource, with owner references as sets -/
structure SameResource (r r' : Resource) : Prop where
  object : SameObject r r'
  owners : ∀ o, o ∈ r.ownerRefs ↔ o ∈ r'.ownerRefs

theorem SameResource.symm (h : SameResource r r') : SameResource r' r :=
  ⟨h.object.symm, fun o => (h.owners o).symm⟩

theorem SameResource.trans {r'' : Resource} (h : SameResource r r') (h' : SameResource r' r'') : SameResource r r'' :=
  ⟨h.object.trans h'.object, fun o => (h.owners o).trans (h'.owners o)⟩

theorem SameResource.of_sameAt (h : SameObject r r') (hat : ∀ u, SameAt u r r') : SameResource r r' :=
  ⟨h, fun o => hat o.uid o rfl⟩

theorem SameResource.sameAt (h : SameResource r r') (u : String) : SameAt u r r' := fun o _ => h.owners o

/-- the cache holds the resources of L, and every claim has the owners it should have among them -/
structure Settled (c : Cache) (L : List Resource) : Prop where
  coherent : Coherent c noExtra
  named : NamedParents c
  sound : Sound L
  cached : ∀ k r, c.resources.lookup k = some r → ∃ n ∈ L, n.resourceKey = k
  shown : ∀ n ∈ L, ∃ r, c.resources.lookup n.resourceKey = some r ∧ SameResource (c.heap r) (settle L n)

theorem empty_settled : Settled Cache.empty [] where
  coherent := empty_coherent
  named k := by simp [Cache.empty]
  sound := ⟨nodup_nil, fun p hp => absurd hp not_mem_nil, fun p hp => absurd hp not_mem_nil,
    fun p hp => absurd hp not_mem_nil⟩
  cached k r h := nomatch h
  shown n hn := absurd hn not_mem_nil

theorem settle_of_not_claim {p : Resource} (hp : ¬mightHaveInferredOwner p = true) (L : List Resource) : settle L p = p :=
  if_neg hp

theorem sameResource_settle_iff {q p : Resource} (h : SameObject q p) {L : List Resource} :
    SameResource q (settle L p) ↔ ∀ u, SameAt u q (settle L p) :=
  ⟨fun hs u => hs.sameAt u, .of_sameAt (h.trans (SameObject.symm (settle_frame L p)))⟩

theorem Settled.shows {c : Cache} (h : Settled c L) {p : Resource} (hp : p ∈ L) {r : ℕ}
    (hr : c.resources.lookup p.resourceKey = some r) :
    SameResource (c.heap r) (settle L p) ∧ SameObject (c.heap r) p := by
  obtain ⟨r', hr', hs⟩ := h.shown p hp
  rw [hr] at hr'
  cases hr'
  exact ⟨hs, hs.object.trans (settle_frame L p)⟩

/-- a cached resource is that of an object, up to its owners -/
theorem Settled.object {c : Cache} (h : Settled c L) {k : ResourceKey} {r : ℕ}
    (hk : c.resources.lookup k = some r) : ∃ n ∈ L, n.resourceKey = k ∧ SameObject (c.heap r) n := by
  obtain ⟨n, hn, hke⟩ := h.cached k r hk
  exact ⟨n, hn, hke, (h.shows hn (hke ▸ hk)).2⟩

theorem Settled.congr {c : Cache} {L' : List Resource} (h : Settled c L) (hL : ∀ n, n ∈ L' ↔ n ∈ L)
    (hke : (L'.map resourceKey).Nodup) : Settled c L' where
  coherent := h.coherent
  named := h.named
  sound := h.sound.mono hke fun n hn => (hL n).1 hn
  cached k r hk := by
    obtain ⟨n, hn, hkey⟩ := h.cached k r hk
    exact ⟨n, (hL n).2 hn, hkey⟩
  shown n hn := by
    obtain ⟨r, hr, hs⟩ := h.shown n ((hL n).1 hn)
    refine ⟨r, hr, hs.trans (.of_sameAt ((settle_frame L n).trans (SameObject.symm (settle_frame L' n))) fun u => ?_)⟩
    by_cases hc : mightHaveInferredOwner n = true
    · exact (settle_congr hc (h.sound.distinct n ((hL n).1 hn) hc) hL
        (h.sound.oneJudge n ((hL n).1 hn) hc) u).symm
    · rw [settle_of_not_claim hc, settle_of_not_claim hc]
      exact SameAt.refl u n

/-! ## Setting a node -/

section SetNode

variable {c : Cache} {L : List Resource} {n : Resource}

variable {k : ResourceKey} {r : ℕ}

theorem storeNode_lookup_ne (c : Cache) (n : Resource) (hk : k ≠ n.resourceKey) :
    (storeNode c n).resources.lookup k = c.resources.lookup k :=
  AList.lookup_insert_ne hk

theorem storeNode_heap_old (h : Coherent c noExtra) (n : Resource)
    (hk : c.resources.lookup k = some r) : (storeNode c n).heap r = c.heap r :=
  Function.update_of_ne (h.keyed k r hk).1.ne _ _

variable (h : Settled c L)

include h

theorem storeNode_object (hk : (storeNode c n).resources.lookup k = some r) :
    ∃ s ∈ put resourceKey n L, s.resourceKey = k ∧ SameObject ((storeNode c n).heap r) s := by
  by_cases hke : k = n.resourceKey
  · subst hke
    rw [storeNode_lookup] at hk
    cases hk
    exact ⟨n, mem_put.2 (.inl rfl), rfl, by rw [storeNode_heap_self]; rfl⟩
  · rw [storeNode_lookup_ne c n hke] at hk
    obtain ⟨s, hs, hsk, hsa⟩ := h.object hk
    exact ⟨s, mem_put.2 (.inr ⟨hs, hsk ▸ hke⟩), hsk, by rwa [storeNode_heap_old h.coherent n hk]⟩

theorem storeNode_shown {s : Resource} (hs : s ∈ put resourceKey n L) :
    ∃ r, (storeNode c n).resources.lookup s.resourceKey = some r ∧ SameObject ((storeNode c n).heap r) s := by
  rcases mem_put.1 hs with rfl | ⟨hs, hk⟩
  · exact ⟨c.next, storeNode_lookup c s, by rw [storeNode_heap_self]; rfl⟩
  · obtain ⟨r, hr, hsa⟩ := h.shown s hs
    refine ⟨r, by rw [storeNode_lookup_ne c n hk, hr], ?_⟩
    rw [storeNode_heap_old h.coherent n hr]
    exact hsa.object.trans (settle_frame L s)

/-- a new claim is settled: it hears all judges of its namespace -/
theorem setNode_shows_claim (hso : Sound (put resourceKey n L)) (o : RangeOrder)
    (hc : mightHaveInferredOwner n = true) :
    SameResource ((setNode o c n).heap c.next) (settle (put resourceKey n L) n) := by
  have hm : n ∈ put resourceKey n L := mem_put.2 (.inl rfl)
  have hn := hso.distinct n hm
  have hst := storeNode_coherent h.coherent n hn
  rw [setNode_heap_claim h.coherent o hn hc (hso.apart n hm hc), Function.update_self]
  refine (sameResource_settle_iff (foldl_heed_frame _ n)).2 fun u => ?_
  refine foldl_heed_settle hc (hn hc) (hso.oneJudge n hm hc) (fun t ht => ?_) (fun s hs hj => ?_) u
  · obtain ⟨e, he, rfl⟩ := mem_map.1 ht
    obtain ⟨s, hs, _, hsa⟩ := storeNode_object h ((hst.mem_ns o).1 he).1
    exact ⟨s, hs, hsa⟩
  · obtain ⟨r, hr, hsa⟩ := storeNode_shown h hs
    have hns : s.ref.ns = n.ref.ns := by
      by_contra hne
      exact hj (by simp [Resource.judges, hne])
    exact ⟨_, mem_map.2 ⟨⟨s.resourceKey, r⟩, (hst.mem_ns o).2 ⟨hr, hns⟩, rfl⟩, hsa⟩

theorem setNode_shows_old (hs : Sound (put resourceKey n L)) (o : RangeOrder)
    {p : Resource} (hp : p ∈ L) (hk : p.resourceKey ≠ n.resourceKey)
    (hr : c.resources.lookup p.resourceKey = some r) (hc : mightHaveInferredOwner p = true) :
    SameResource ((setNode o c n).heap r) (settle (put resourceKey n L) p) ↔
      ∀ old ∈ L, old.resourceKey = n.resourceKey → Forgets old n p := by
  have hn : n ∈ put resourceKey n L := mem_put.2 (.inl rfl)
  have hp' : p ∈ put resourceKey n L := mem_put.2 (.inr ⟨hp, hk⟩)
  obtain ⟨hsa, ho⟩ := h.shows hp hr
  have hc' : mightHaveInferredOwner (c.heap r) = true := by rw [ho.mightHaveInferredOwner, hc]
  have hh : (setNode o c n).heap r = (c.heap r).heed n := by
    rw [setNode_heap h.coherent o (hs.distinct n hn) (hs.apart n hn)
      (by rw [storeNode_lookup_ne c n hk, hr]) fun he => (h.coherent.keyed _ _ hr).1.ne he.1,
      storeNode_heap_old h.coherent n hr, if_pos hc']
  rw [hh, sameResource_settle_iff (SameObject.trans (heed_frame _ n) ho),
    settle_put_iff hc (h.sound.distinct p hp hc) (h.coherent.distinct _ r hr hc') ho.ref
    h.sound.keys (h.sound.oneJudge p hp hc) (hs.oneJudge p hp' hc) fun u => hsa.sameAt u]

theorem setNode_settled (hso : Sound (put resourceKey n L)) (o : RangeOrder)
    (hfo : ∀ old ∈ L, old.resourceKey = n.resourceKey → ∀ p ∈ L, p.resourceKey ≠ n.resourceKey →
      mightHaveInferredOwner p = true → Forgets old n p) : Settled (setNode o c n) (put resourceKey n L) := by
  have hm : n ∈ put resourceKey n L := mem_put.2 (.inl rfl)
  have hn := hso.distinct n hm
  obtain ⟨hco, hf⟩ := setNode_spec h.coherent o n hn
  refine ⟨hco, setNode_named h.named o n, hso, fun k r hk => ?_, fun p hp => ?_⟩
  · rw [hf.resources] at hk
    obtain ⟨s, hs, hke, _⟩ := storeNode_object h hk
    exact ⟨s, hs, hke⟩
  · rw [hf.resources]
    -- resources that are not claims are as `newResource` has made them
    have ho : ∀ r, (storeNode c n).resources.lookup p.resourceKey = some r →
        SameResource ((storeNode c n).heap r) p → ¬mightHaveInferredOwner p = true →
        SameResource ((setNode o c n).heap r) (settle (put resourceKey n L) p) := by
      intro r hr hsa hc
      rw [settle_of_not_claim hc, setNode_heap h.coherent o hn (hso.apart n hm) hr, if_neg]
      · exact hsa
      · rwa [hsa.object.mightHaveInferredOwner]
      · intro ⟨hne, hc'⟩
        subst hne
        rw [storeNode_heap_self] at hsa
        exact hc (hsa.object.mightHaveInferredOwner ▸ hc')
    rcases mem_put.1 hp with rfl | ⟨hpL, hke⟩
    · refine ⟨c.next, storeNode_lookup c p, ?_⟩
      by_cases hc : mightHaveInferredOwner p = true
      · exact setNode_shows_claim h hso o hc
      · refine ho _ (storeNode_lookup c p) ?_ hc
        rw [storeNode_heap_self]
        exact ⟨rfl, fun _ => Iff.rfl⟩
    · obtain ⟨r, hr, hsa⟩ := h.shown p hpL
      have hr' : (storeNode c n).resources.lookup p.resourceKey = some r := by rw [storeNode_lookup_ne c n hke, hr]
      refine ⟨r, hr', ?_⟩
      by_cases hc : mightHaveInferredOwner p = true
      · exact (setNode_shows_old h hso o hpL hke hr hc).2 fun old hol hke' =>
          hfo old hol hke' p hpL hke hc
      · refine ho r hr' ?_ hc
        rw [storeNode_heap_old h.coherent n hr]
        rwa [settle_of_not_claim hc] at hsa

end SetNode

/-! ## Removing a node -/

/-- no claim lists the judge old among its owners itself -/
def Unlisted (L : List Resource) (old : Resource) : Prop :=
  ∀ p ∈ L, p.resourceKey ≠ old.resourceKey → mightHaveInferredOwner p = true → old.judges p ≠ none →
    old.ref.uid ∉ p.ownerUIDs

section Remove

variable {c : Cache} {L : List Resource} {old : Resource} {ref : ℕ}

theorem onNodeRemoved_shows (h : Settled c L) (o : RangeOrder) (hol : old ∈ L)
    (hre : c.resources.lookup old.resourceKey = some ref) (ho : SameObject (c.heap ref) old) {p : Resource}
    (hp : p ∈ L) (hk : p.resourceKey ≠ old.resourceKey) {r : ℕ} (hr : c.resources.lookup p.resourceKey = some r)
    (hc : mightHaveInferredOwner p = true) : SameResource ((onNodeRemoved o c old.resourceKey).heap r)
        (settle (Latest.drop resourceKey old.resourceKey L) p) ↔
          (old.judges p ≠ none → old.ref.uid ∉ p.ownerUIDs) := by
  obtain ⟨hs, ho'⟩ := h.shows hp hr
  have hc' : mightHaveInferredOwner (c.heap r) = true := by rw [ho'.mightHaveInferredOwner, hc]
  have hh : (onNodeRemoved o c old.resourceKey).heap r = (c.heap r).unheed old := by
    rw [onNodeRemoved_heap h.coherent o hre (dropNode_lookup.2 ⟨hk, hr⟩), if_pos hc', ho.unheed]
  rw [hh, sameResource_settle_iff ((unheed_frame _ old).trans ho'),
    settle_drop_iff hc (h.sound.distinct p hp hc) (h.coherent.distinct _ r hr hc') ho'.ref
    h.sound.keys (h.sound.oneJudge p hp hc) hol fun u => hs.sameAt u]

theorem onNodeRemoved_settled (h : Settled c L) (o : RangeOrder) {key : ResourceKey}
    (hu : ∀ old ∈ L, old.resourceKey = key → Unlisted L old) :
    Settled (onNodeRemoved o c key) (Latest.drop resourceKey key L) := by
  have hkeys := Latest.nodup_filter h.sound.keys fun n => decide (n.resourceKey ≠ key)
  cases hke : c.resources.lookup key with
  | none =>
    have hre : onNodeRemoved o c key = c := by simp only [onNodeRemoved, hke]
    rw [hre]
    refine h.congr (fun n => Latest.mem_drop.trans (and_iff_left_of_imp fun hn he => ?_)) hkeys
    obtain ⟨r, hr, _⟩ := h.shown n hn
    rw [he, hke] at hr
    cases hr
  | some ref =>
    obtain ⟨old, hol, rfl, ho⟩ := h.object hke
    obtain ⟨hco, hf⟩ := onNodeRemoved_spec h.coherent o hke
    refine ⟨hco, onNodeRemoved_named h.named o _, h.sound.mono hkeys fun n hn => (Latest.mem_drop.1 hn).1,
      fun k r hk => ?_, fun p hp => ?_⟩
    · rw [hf.resources] at hk
      obtain ⟨hne, hk⟩ := dropNode_lookup.1 hk
      obtain ⟨n, hn, hnk⟩ := h.cached k r hk
      exact ⟨n, Latest.mem_drop.2 ⟨hn, hnk ▸ hne⟩, hnk⟩
    · obtain ⟨hpL, hne⟩ := Latest.mem_drop.1 hp
      obtain ⟨r, hr, hs⟩ := h.shown p hpL
      have hr' := dropNode_lookup.2 ⟨hne, hr⟩
      refine ⟨r, by rw [hf.resources, hr'], ?_⟩
      by_cases hc : mightHaveInferredOwner p = true
      · exact (onNodeRemoved_shows h o hol hke ho hpL hne hr hc).2 (hu old hol rfl p hpL hne hc)
      · rw [settle_of_not_claim hc] at hs ⊢
        rw [onNodeRemoved_heap h.coherent o hke hr', if_neg (by rwa [hs.object.mightHaveInferredOwner])]
        exact hs

end Remove

/-! ## Relisting -/

/-- n can be set without a trace of what was there before -/
structure Fits (L : List Resource) (n : Resource) : Prop where
  distinct : mightHaveInferredOwner n = true → n.ownerUIDs.Nodup
  oneJudge : ∀ p ∈ put resourceKey n L, mightHaveInferredOwner p = true →
    OneJudge (put resourceKey n L) p
  forgets : ∀ old ∈ L, old.resourceKey = n.resourceKey → ∀ p ∈ L, p.resourceKey ≠ n.resourceKey →
    mightHaveInferredOwner p = true → Forgets old n p

/-- volume claims are no StatefulSets; true of what `newResource` makes -/
def Apart (n : Resource) : Prop := mightHaveInferredOwner n = true → n.isInferredParentOf = none

variable {L : List Resource} {c : Cache}

theorem Sound.put (h : Sound L) {n : Resource} (hn : Apart n) (hf : Fits L n) :
    Sound (put resourceKey n L) where
  keys := Latest.nodup_put h.keys n
  distinct p hp := by
    rcases mem_put.1 hp with rfl | ⟨hp, _⟩
    · exact hf.distinct
    · exact h.distinct p hp
  oneJudge := hf.oneJudge
  apart p hp := by
    rcases mem_put.1 hp with rfl | ⟨hp, _⟩
    · exact hn
    · exact h.apart p hp

/-- listed resources can be set one after another, and one with the version that is cached is the cached one -/
def FitsAll : List Resource → List Resource → Prop
  | _, [] => True
  | L, n :: rest =>
    Fits L n ∧ (∀ old ∈ L, old.resourceKey = n.resourceKey → old.resourceVersion = n.resourceVersion → old = n) ∧
      FitsAll (put resourceKey n L) rest

/-- the resources there are once all of rs have been set -/
def putAll (L rs : List Resource) : List Resource := rs.foldl (fun L n => put resourceKey n L) L

theorem replaceNode_settled (h : Settled c L) {n : Resource} (hn : Apart n)
    (hf : Fits L n) (hv : ∀ old ∈ L, old.resourceKey = n.resourceKey → old.resourceVersion = n.resourceVersion →
      old = n) (o : ReplaceOrder) (i : ℕ) : Settled (replaceNode o c (n, i)) (put resourceKey n L) := by
  have hs := h.sound.put hn hf
  unfold replaceNode
  split_ifs with hc
  · obtain ⟨r, hr, hrv⟩ := Option.map_eq_some_iff.1 hc
    obtain ⟨old, ho, hk, hob⟩ := h.object hr
    have hrv' : old.resourceVersion = n.resourceVersion := by
      rw [← hrv, hob]
    have he := hv old ho hk hrv'
    subst he
    refine h.congr (fun m => mem_put.trans ⟨fun hm => ?_, fun hm => ?_⟩) hs.keys
    · rcases hm with rfl | hm
      · exact ho
      · exact hm.1
    · by_cases hmk : m.resourceKey = old.resourceKey
      · exact .inl (Latest.eq_of_key_eq h.sound.keys hm ho hmk)
      · exact .inr ⟨hm, hmk⟩
  · exact setNode_settled h hs _ hf.forgets

variable (o : ReplaceOrder)

theorem foldl_replaceNode_settled (rs : List (Resource × ℕ))
    (h : Settled c L) (ha : ∀ x ∈ rs, Apart x.1) (hf : FitsAll L (rs.map Prod.fst)) :
    Settled (rs.foldl (replaceNode o) c) (putAll L (rs.map Prod.fst)) := by
  induction rs generalizing c L with
  | nil => exact h
  | cons x rs ih =>
    obtain ⟨hx, hv, hr⟩ := hf
    exact ih (replaceNode_settled h (ha x mem_cons_self) hx hv o x.2)
      (fun y hy => ha y (mem_cons_of_mem _ hy)) hr

variable (group kind ns : String) (listed : List ResourceKey)

/-- a key that a relist of a group and kind in a namespace removes when it is not listed -/
def staleKey (k : ResourceKey) : Bool :=
  decide (k.kind = kind ∧ k.group = group ∧ (ns = "" ∨ k.ns = ns) ∧ k ∉ listed)

theorem removeStale_eq (c : Cache) (e : Σ _ : ResourceKey, ℕ) : removeStale o group kind ns listed c e =
      if staleKey group kind ns listed e.1 then onNodeRemoved (o.remove e.1) c e.1 else c := by
  simp only [removeStale, staleKey, Bool.or_eq_true, Bool.and_eq_true, decide_eq_true_eq]
  by_cases h1 : e.1.kind = kind <;> by_cases h2 : e.1.group = group <;> by_cases h3 : ns = "" <;>
    by_cases h4 : e.1.ns = ns <;> by_cases h5 : e.1 ∈ listed <;> simp [h1, h2, h3, h4, h5]

theorem foldl_removeStale_settled (es : List (Σ _ : ResourceKey, ℕ)) (h : Settled c L)
    (hu : ∀ old ∈ L, staleKey group kind ns listed old.resourceKey = true → Unlisted L old) :
    ∃ L', Settled (es.foldl (removeStale o group kind ns listed) c) L' ∧
      ∀ n, n ∈ L' ↔ n ∈ L ∧ ¬(staleKey group kind ns listed n.resourceKey = true ∧
        n.resourceKey ∈ es.map Sigma.fst) := by
  induction es generalizing c L with
  | nil => exact ⟨L, h, fun n => by simp⟩
  | cons e es ih =>
    rw [foldl_cons, removeStale_eq]
    split_ifs with hs
    · have hr := onNodeRemoved_settled h (o.remove e.1) fun old ho hk =>
        hu old ho (by rw [hk, hs])
      obtain ⟨L', hL', hm⟩ := ih hr fun old ho hs' p hp =>
        hu old (Latest.mem_drop.1 ho).1 hs' p (Latest.mem_drop.1 hp).1
      refine ⟨L', hL', fun n => (hm n).trans ?_⟩
      rw [Latest.mem_drop]
      by_cases hk : n.resourceKey = e.1
      · simp [hk, hs]
      · simp [hk]
    · obtain ⟨L', hL', hm⟩ := ih h hu
      refine ⟨L', hL', fun n => (hm n).trans ?_⟩
      by_cases hk : n.resourceKey = e.1
      · simp [hk, hs]
      · simp [hk]

/-- the resources there are after a relist -/
def relisted (L : List Resource) (group kind : String) (rs : List Resource) (ns : String) : List Resource :=
  (putAll L rs).filter fun n => !staleKey group kind ns (rs.map resourceKey) n.resourceKey

theorem replaceResourceCache_settled (h : Settled c L) (o : ReplaceOrder)
    {group kind ns : String} {rs : List Resource} (ha : ∀ n ∈ rs, Apart n) (hf : FitsAll L rs)
    (hu : ∀ old ∈ putAll L rs, staleKey group kind ns (rs.map resourceKey) old.resourceKey = true →
      Unlisted (putAll L rs) old) :
    Settled (replaceResourceCache o c group kind rs ns) (relisted L group kind rs ns) := by
  have hs := foldl_replaceNode_settled o rs.zipIdx h (fun x hx => ha _ (fst_mem_of_mem_zipIdx hx))
    (by rwa [zipIdx_map_fst])
  rw [zipIdx_map_fst] at hs
  obtain ⟨L', hL', hm⟩ := foldl_removeStale_settled o group kind ns (rs.map resourceKey)
    (o.keys.entries (rs.zipIdx.foldl (replaceNode o) c).resources.entries) hs hu
  refine hL'.congr (fun n => ?_) (Latest.nodup_filter hs.sound.keys _)
  rw [hm, relisted, mem_filter]
  refine and_congr_right fun hn => ?_
  -- every cached key is met by the loop
  have hk : n.resourceKey ∈ (o.keys.entries (rs.zipIdx.foldl (replaceNode o) c).resources.entries).map Sigma.fst := by
    obtain ⟨r, hr, _⟩ := hs.shown n hn
    exact mem_map.2 ⟨⟨_, r⟩, (o.keys.perm _).mem_iff.2 (AList.mem_lookup_iff.1 hr), rfl⟩
  simp [hk]

end GitOpsDeploy.ClusterCache

/-
Inferred owners of a volume claim, apart from the cache.

A StatefulSet judges every volume claim of its namespace: it is an owner of the claim or it is not, and `setOwnerRef` puts
that down in the claim. `settle L p` is the claim p after all resources of L have had their say once.
-/
import GitOpsDeploy.Core.Latest
import GitOpsDeploy.ClusterCache.Resource

namespace GitOpsDeploy.ClusterCache

open List
open Latest (put mem_put)
open Resource (resourceKey)

/-! ## Owner references as sets -/

variable {r r' q p n s' s : Resource} {u : String}

theorem mem_eraseIdx_uid (h : r.ownerUIDs.Nodup) {uid : String} {index : ℕ}
    (hi : (r.ownerRefs.findIdx? fun item => item.uid = uid) = some index) (o : OwnerReference) :
    o ∈ r.ownerRefs.eraseIdx index ↔ o ∈ r.ownerRefs ∧ o.uid ≠ uid := by
  obtain ⟨hlt, hat⟩ := List.getElem?_eq_some_iff.1 (findIdx?_uid_eq_some hi)
  rw [mem_eraseIdx_iff_getElem]
  constructor
  · rintro ⟨j, hj, hne, ho⟩
    refine ⟨ho ▸ getElem_mem _, fun hu => hne ?_⟩
    have hj' : r.ownerUIDs[j]? = some uid := by simp [Resource.ownerUIDs, List.getElem?_eq_getElem hj, ho, hu]
    obtain ⟨hjl, hja⟩ := List.getElem?_eq_some_iff.1 hj'
    exact (h.getElem_inj_iff).1 (hja.trans hat.symm)
  · rintro ⟨ho, hu⟩
    obtain ⟨j, hj, rfl⟩ := getElem_of_mem ho
    refine ⟨j, hj, fun he => hu ?_, rfl⟩
    subst he
    simpa [Resource.ownerUIDs] using hat

/-- with distinct UIDs, only the reference with the UID of `ref` changes: a missing one is added, any is removed -/
theorem mem_setOwnerRef (h : r.ownerUIDs.Nodup) (ref : OwnerReference) (add : Bool) (o : OwnerReference) :
    o ∈ (r.setOwnerRef ref add).ownerRefs ↔
      if o.uid = ref.uid then add = true ∧ (o ∈ r.ownerRefs ∨ o = ref ∧ ref.uid ∉ r.ownerUIDs)
        else o ∈ r.ownerRefs := by
  unfold Resource.setOwnerRef
  split
  · rename_i hi
    have hn := findIdx?_uid_eq_none hi
    have hm : o.uid = ref.uid → o ∉ r.ownerRefs := fun hu ho => hn (hu ▸ mem_map_of_mem ho)
    by_cases hu : o.uid = ref.uid
    · cases add <;> simp [hu, hm hu, hn]
    · have hne : o ≠ ref := fun he => hu (congrArg _ he)
      cases add <;> simp [hu, hne]
  · rename_i index hi
    have hm : ref.uid ∈ r.ownerUIDs := List.mem_of_getElem? (findIdx?_uid_eq_some hi)
    cases add with
    | true => simp [hm]
    | false =>
      simp only [Bool.false_eq_true, if_false, mem_eraseIdx_uid h hi, false_and]
      by_cases hu : o.uid = ref.uid <;> simp [hu]

theorem notMem_setOwnerRef_false (h : r.ownerUIDs.Nodup) {ref o : OwnerReference} (ho : o.uid = ref.uid) :
    o ∉ (r.setOwnerRef ref false).ownerRefs := by
  rw [mem_setOwnerRef h, if_pos ho]
  simp

/-- the same references with UID u -/
def SameAt (u : String) (r r' : Resource) : Prop :=
  ∀ o : OwnerReference, o.uid = u → (o ∈ r.ownerRefs ↔ o ∈ r'.ownerRefs)

theorem SameAt.refl (u : String) (r : Resource) : SameAt u r r := fun _ _ => Iff.rfl

theorem SameAt.symm (h : SameAt u r r') : SameAt u r' r := fun o ho => (h o ho).symm

theorem SameAt.trans {r'' : Resource} (h : SameAt u r r') (h' : SameAt u r' r'') : SameAt u r r'' :=
  fun o ho => (h o ho).trans (h' o ho)

theorem SameAt.mem_ownerUIDs (h : SameAt u r r') : u ∈ r.ownerUIDs ↔ u ∈ r'.ownerUIDs := by
  simp only [Resource.ownerUIDs, mem_map]
  exact exists_congr fun o => and_congr_left fun ho => h o ho

theorem setOwnerRef_sameAt_of_ne (h : r.ownerUIDs.Nodup) {ref : OwnerReference}
    (hu : ref.uid ≠ u) (b : Bool) : SameAt u (r.setOwnerRef ref b) r := by
  intro o ho
  rw [mem_setOwnerRef h, if_neg (fun he => hu (he.symm.trans ho))]

theorem SameAt.setOwnerRef (h : SameAt u r r') (hr : r.ownerUIDs.Nodup)
    (hr' : r'.ownerUIDs.Nodup) (ref : OwnerReference) (b : Bool) :
    SameAt u (r.setOwnerRef ref b) (r'.setOwnerRef ref b) := by
  intro o ho
  rw [mem_setOwnerRef hr, mem_setOwnerRef hr']
  split_ifs with hui
  · have hu : u = ref.uid := ho.symm.trans hui
    rw [h o ho, ← hu, h.mem_ownerUIDs]
  · exact h o ho

theorem setOwnerRef_twice (h : r.ownerUIDs.Nodup) (ref : OwnerReference) (b : Bool) (u : String) :
    SameAt u ((r.setOwnerRef ref b).setOwnerRef ref b) (r.setOwnerRef ref b) := by
  intro o _
  rw [mem_setOwnerRef (setOwnerRef_nodup h ref b), mem_setOwnerRef h, setOwnerRef_uids h]
  split_ifs <;> cases b <;> simp

/-! ## Judgements -/

/-- whether s says that it owns p; `none` when s says nothing about resources of p's namespace -/
def Resource.judges (s p : Resource) : Option Bool :=
  if s.ref.ns = p.ref.ns then s.isInferredParentOf.map fun isParent => isParent p.resourceKey else none

/-- p after s has had its say -/
def Resource.heed (p s : Resource) : Resource :=
  match s.judges p with
  | none => p
  | some isParent => p.setOwnerRef s.toOwnerRef isParent

/-- p after all resources of L have had their say, in the order of L -/
def settle (L : List Resource) (p : Resource) : Resource :=
  if mightHaveInferredOwner p then L.foldl Resource.heed p else p

theorem heed_frame (p s : Resource) : p.heed s = { p with ownerRefs := (p.heed s).ownerRefs } := by
  unfold Resource.heed
  split
  · rfl
  · exact setOwnerRef_frame _ _ _

/-- what s says of p does not depend on the owners p has -/
theorem judges_congr (h : p.ref = q.ref) (s : Resource) : s.judges p = s.judges q := by
  simp [Resource.judges, resourceKey, h]

/-- the same object, maybe with other owners -/
def SameObject (r n : Resource) : Prop := r = { n with ownerRefs := r.ownerRefs }

namespace SameObject

variable (h : SameObject r n)

include h

theorem symm : SameObject n r := by
  rw [SameObject, h]

theorem trans {m : Resource} (h' : SameObject n m) : SameObject r m := by
  rw [SameObject, h, h']

theorem ref : r.ref = n.ref := by
  rw [h]

theorem isInferredParentOf : r.isInferredParentOf = n.isInferredParentOf := by
  rw [h]

theorem resourceKey : r.resourceKey = n.resourceKey := by
  simp only [Resource.resourceKey, h.ref]

theorem mightHaveInferredOwner : mightHaveInferredOwner r = mightHaveInferredOwner n := by
  simp only [ClusterCache.mightHaveInferredOwner, h.ref]

theorem toOwnerRef : r.toOwnerRef = n.toOwnerRef := by
  simp only [Resource.toOwnerRef, h.ref]

end SameObject

theorem SameObject.judges (h : SameObject s s') (p : Resource) : s.judges p = s'.judges p := by
  simp only [Resource.judges, h.ref, h.isInferredParentOf]

theorem SameObject.heed (h : SameObject s s') (p : Resource) : p.heed s = p.heed s' := by
  simp only [Resource.heed, h.judges, h.toOwnerRef]

theorem heed_ref (p s : Resource) : (p.heed s).ref = p.ref := by
  rw [heed_frame]

theorem heed_nodup (h : p.ownerUIDs.Nodup) (s : Resource) : (p.heed s).ownerUIDs.Nodup := by
  unfold Resource.heed
  split
  · exact h
  · exact setOwnerRef_nodup h _ _

/-- s judges p and would write its judgement under the UID u -/
def JudgesAt (u : String) (s p : Resource) : Prop := s.ref.uid = u ∧ s.judges p ≠ none

theorem heed_sameAt_of_not (h : p.ownerUIDs.Nodup) (hs : ¬JudgesAt u s p) : SameAt u (p.heed s) p := by
  unfold Resource.heed
  split
  · exact SameAt.refl u p
  · rename_i b hb
    exact setOwnerRef_sameAt_of_ne h (fun he => hs ⟨he, by simp [hb]⟩) b

theorem SameAt.heed (h : SameAt u p q) (hp : p.ownerUIDs.Nodup) (hq : q.ownerUIDs.Nodup)
    (hr : p.ref = q.ref) (s : Resource) : SameAt u (p.heed s) (q.heed s) := by
  unfold Resource.heed
  rw [judges_congr hr]
  split
  · exact h
  · exact h.setOwnerRef hp hq _ _

theorem heed_twice (h : p.ownerUIDs.Nodup) (s : Resource) (u : String) : SameAt u ((p.heed s).heed s) (p.heed s) := by
  have hj := judges_congr (heed_ref p s) s
  cases hs : s.judges p with
  | none => simp only [Resource.heed, hs]; exact SameAt.refl u p
  | some b =>
    have hh : p.heed s = p.setOwnerRef s.toOwnerRef b := by simp only [Resource.heed, hs]
    have ht : (p.heed s).heed s = (p.heed s).setOwnerRef s.toOwnerRef b := by
      rw [Resource.heed.eq_def (p.heed s), hj, hs]
    rw [ht, hh]
    exact setOwnerRef_twice h _ _ u

/-! ## All judges of a list -/

theorem foldl_heed_frame (L : List Resource) (p : Resource) :
    L.foldl Resource.heed p = { p with ownerRefs := (L.foldl Resource.heed p).ownerRefs } := by
  induction L generalizing p with
  | nil => rfl
  | cons s L ih =>
    rw [foldl_cons, ih (p.heed s), heed_frame p s]

theorem foldl_heed_at_none (h : p.ownerUIDs.Nodup) {L : List Resource}
    (hL : ∀ s ∈ L, ¬JudgesAt u s p) : SameAt u (L.foldl Resource.heed p) p := by
  induction L generalizing p with
  | nil => exact SameAt.refl u p
  | cons s L ih =>
    refine (ih (heed_nodup h s) fun s' hs' => ?_).trans (heed_sameAt_of_not h (hL s mem_cons_self))
    rw [JudgesAt, judges_congr (heed_ref p s)]
    exact hL s' (mem_cons_of_mem _ hs')

/-- s and s' would do the same to every claim of p's name -/
def Alike (p s s' : Resource) : Prop := s.toOwnerRef = s'.toOwnerRef ∧ s.judges p = s'.judges p

theorem Alike.heed (h : Alike p s s') (hq : q.ref = p.ref) : q.heed s = q.heed s' := by
  unfold Resource.heed
  rw [judges_congr hq s, judges_congr hq s', h.2, h.1]

section Decides

variable {p s : Resource} {u : String} {L : List Resource}

/-- one more judge like s, or none for u, before s makes no difference to what s decides -/
theorem heed_before (h : p.ownerUIDs.Nodup) {s' : Resource} (ha : JudgesAt u s' p → Alike p s s') :
    SameAt u ((p.heed s').heed s) (p.heed s) := by
  by_cases hs' : JudgesAt u s' p
  · rw [← (ha hs').heed rfl]
    exact heed_twice h s u
  · exact (heed_sameAt_of_not h hs').heed (heed_nodup h s') h (heed_ref p s') s

/-- along a list whose judges with UID u are all like s, what stands at u is still p's or already what s says -/
theorem foldl_heed_decided {q : Resource} (h : p.ownerUIDs.Nodup) (hq : q.ownerUIDs.Nodup) (hr : q.ref = p.ref)
    (ha : ∀ t ∈ L, JudgesAt u t p → Alike p s t) (hd : SameAt u q (p.heed s) ∨ SameAt u q p ∧ s ∈ L) :
    SameAt u (L.foldl Resource.heed q) (p.heed s) := by
  induction L generalizing q with
  | nil => exact hd.resolve_right fun hd => not_mem_nil hd.2
  | cons t L ih =>
    refine ih (heed_nodup hq t) ((heed_ref q t).trans hr) (fun t' ht' => ha t' (mem_cons_of_mem t ht')) ?_
    by_cases hj : JudgesAt u t p
    · rw [← (ha t mem_cons_self hj).heed hr]
      rcases hd with hd | ⟨hd, _⟩
      · exact .inl ((hd.heed hq (heed_nodup h s) (hr.trans (heed_ref p s).symm) s).trans (heed_twice h s u))
      · exact .inl (hd.heed hq h hr s)
    · have hsa : SameAt u (q.heed t) q := heed_sameAt_of_not hq (by rwa [JudgesAt, judges_congr hr])
      rcases hd with hd | ⟨hd, hs⟩
      · exact .inl (hsa.trans hd)
      · rcases mem_cons.1 hs with rfl | hs
        · exact .inl (hsa.trans (hd.trans (heed_sameAt_of_not h hj).symm))
        · exact .inr ⟨hsa.trans hd, hs⟩

/-- **One judge decides.** If all judges with UID u are like s, what the list leaves for u is what s says. -/
theorem foldl_heed_at_judge (h : p.ownerUIDs.Nodup) (hs : s ∈ L) (ha : ∀ t ∈ L, JudgesAt u t p → Alike p s t) :
    SameAt u (L.foldl Resource.heed p) (p.heed s) :=
  foldl_heed_decided h h rfl ha (.inr ⟨SameAt.refl u p, hs⟩)

end Decides

/-! ## Settled claims -/

/-- judges of p are told apart by their UIDs -/
def OneJudge (L : List Resource) (p : Resource) : Prop :=
  ∀ s ∈ L, ∀ s' ∈ L, s.judges p ≠ none → s'.judges p ≠ none → s.ref.uid = s'.ref.uid → s = s'

section Settled

variable {p s : Resource} {u : String} {L : List Resource}

theorem settle_frame (L : List Resource) (p : Resource) : settle L p = { p with ownerRefs := (settle L p).ownerRefs } := by
  unfold settle
  split_ifs
  · exact foldl_heed_frame L p
  · rfl

variable (hp : mightHaveInferredOwner p = true) (h : p.ownerUIDs.Nodup)

include hp h

theorem settle_at_none (hL : ∀ s ∈ L, ¬JudgesAt u s p) : SameAt u (settle L p) p := by
  rw [settle, if_pos hp]
  exact foldl_heed_at_none h hL

theorem settle_at_judge (ho : OneJudge L p) (hs : s ∈ L) (hj : JudgesAt u s p) : SameAt u (settle L p) (p.heed s) := by
  rw [settle, if_pos hp]
  refine foldl_heed_at_judge h hs fun t ht ht' => ?_
  rw [ho s hs t ht hj.2 ht'.2 (hj.1.trans ht'.1.symm)]
  exact ⟨rfl, rfl⟩

/-- a list whose only possible judge at u is s -/
theorem settle_at_only (hon : OneJudge L p) (hs : s ∈ L)
    (ho : ∀ t ∈ L, JudgesAt u t p → t = s) : SameAt u (settle L p) (p.heed s) := by
  by_cases hj : JudgesAt u s p
  · exact settle_at_judge hp h hon hs hj
  · refine (settle_at_none hp h fun t ht ht' => hj ?_).trans (heed_sameAt_of_not h hj).symm
    rwa [← ho t ht ht']

/-- **Only the judges count.** Whatever list the judges of p stand in, in whatever order, p ends up the same. -/
theorem foldl_heed_settle {R : List Resource} (ho : OneJudge L p) (hR : ∀ t ∈ R, ∃ s ∈ L, SameObject t s)
    (hL : ∀ s ∈ L, s.judges p ≠ none → ∃ t ∈ R, SameObject t s) (u : String) :
    SameAt u (R.foldl Resource.heed p) (settle L p) := by
  have hb : ∀ t ∈ R, JudgesAt u t p → ∃ s ∈ L, SameObject t s ∧ JudgesAt u s p := by
    intro t ht hj
    obtain ⟨s, hs, hsa⟩ := hR t ht
    refine ⟨s, hs, hsa, ?_⟩
    rwa [JudgesAt, ← hsa.ref, ← hsa.judges]
  by_cases hj : ∃ s ∈ L, JudgesAt u s p
  · obtain ⟨s, hs, hj⟩ := hj
    obtain ⟨t, ht, hsa⟩ := hL s hs hj.2
    refine SameAt.trans ?_ (settle_at_judge hp h ho hs hj).symm
    rw [← hsa.heed p]
    refine foldl_heed_at_judge h ht fun t' ht' hj' => ?_
    obtain ⟨s', hs', hsa', hj''⟩ := hb t' ht' hj'
    have he := ho s hs s' hs' hj.2 hj''.2 (hj.1.trans hj''.1.symm)
    subst he
    exact ⟨hsa.toOwnerRef.trans hsa'.toOwnerRef.symm, by rw [hsa.judges, hsa'.judges]⟩
  · have hn : ∀ s ∈ L, ¬JudgesAt u s p := fun s hs hs' => hj ⟨s, hs, hs'⟩
    refine (foldl_heed_at_none h fun t ht hj' => ?_).trans (settle_at_none hp h hn).symm
    obtain ⟨s, hs, _, hj''⟩ := hb t ht hj'
    exact hn s hs hj''

theorem settle_congr {L' : List Resource} (hL : ∀ s, s ∈ L' ↔ s ∈ L) (ho : OneJudge L p) (u : String) :
    SameAt u (settle L' p) (settle L p) := by
  rw [settle.eq_def L', if_pos hp]
  exact foldl_heed_settle hp h ho (fun t ht => ⟨t, (hL t).1 ht, rfl⟩) (fun s hs _ => ⟨s, (hL s).2 hs, rfl⟩) u

end Settled

/-! ## A new version, a removal -/

/-- p, when s is taken away: the code takes back the references s has asked for, not those it has cleared -/
def Resource.unheed (p s : Resource) : Resource :=
  if s.judges p = some true then p.setOwnerRef s.toOwnerRef false else p

theorem unheed_frame (p s : Resource) : SameObject (p.unheed s) p := by
  unfold Resource.unheed
  split_ifs
  · exact setOwnerRef_frame _ _ _
  · rfl

theorem SameObject.unheed {s s' : Resource} (h : SameObject s s') (p : Resource) : p.unheed s = p.unheed s' := by
  simp only [Resource.unheed, h.judges, h.toOwnerRef]

/-- n makes up for all that old has left on p -/
def Forgets (old n p : Resource) : Prop := ∀ u, SameAt u ((p.heed old).heed n) (p.heed n)

section Changes

variable {p q n old : Resource} {L : List Resource} {k : ResourceKey}

theorem settle_put_at_iff (hp : mightHaveInferredOwner p = true) (h : p.ownerUIDs.Nodup) (hq : q.ownerUIDs.Nodup)
    (hre : q.ref = p.ref) (hke : (L.map resourceKey).Nodup) (hon : OneJudge L p)
    (hon' : OneJudge (put resourceKey n L) p) {u : String} (hse : SameAt u q (settle L p)) :
    SameAt u (q.heed n) (settle (put resourceKey n L) p) ↔
      ∀ old ∈ L, old.resourceKey = n.resourceKey → SameAt u ((p.heed old).heed n) (p.heed n) := by
  have hn : n ∈ put resourceKey n L := mem_put.2 (.inl rfl)
  by_cases hr : ∃ s ∈ L, s.resourceKey ≠ n.resourceKey ∧ JudgesAt u s p
  · -- another judge decides before and after; neither version of n has a say at u
    obtain ⟨s, hs, hk, hj⟩ := hr
    have hs' : s ∈ put resourceKey n L := mem_put.2 (.inr ⟨hs, hk⟩)
    have hno : ¬JudgesAt u n q := by
      intro hn'
      rw [JudgesAt, judges_congr hre] at hn'
      exact hk (congrArg _ (hon' s hs' n hn hj.2 hn'.2 (hj.1.trans hn'.1.symm)))
    refine iff_of_true ?_ fun old ho hk' => heed_before h fun ho' => ?_
    · exact (heed_sameAt_of_not hq hno).trans (hse.trans
        ((settle_at_judge hp h hon hs hj).trans (settle_at_judge hp h hon' hs' hj).symm))
    · have he := hon s hs old ho hj.2 ho'.2 (hj.1.trans ho'.1.symm)
      exact absurd (he ▸ hk') hk
  · have hnew : SameAt u (settle (put resourceKey n L) p) (p.heed n) := by
      refine settle_at_only hp h hon' hn fun t ht hj => ?_
      exact (mem_put.1 ht).resolve_right fun ht' => hr ⟨t, ht'.1, ht'.2, hj⟩
    by_cases ho : ∃ old ∈ L, old.resourceKey = n.resourceKey
    · obtain ⟨old, ho, hk⟩ := ho
      have hb : SameAt u (settle L p) (p.heed old) := by
        refine settle_at_only hp h hon ho fun t ht hj => Latest.eq_of_key_eq hke ht ho ?_
        by_contra hne
        exact hr ⟨t, ht, fun he => hne (he.trans hk.symm), hj⟩
      have ha : SameAt u (q.heed n) ((p.heed old).heed n) :=
        (hse.trans hb).heed hq (heed_nodup h old) (hre.trans (heed_ref p old).symm) n
      constructor
      · intro hsa old' ho' hk'
        rw [Latest.eq_of_key_eq hke ho' ho (hk'.trans hk.symm)]
        exact ha.symm.trans (hsa.trans hnew)
      · exact fun hf => ha.trans ((hf old ho hk).trans hnew.symm)
    · refine iff_of_true ?_ fun old ho' hk => absurd ⟨old, ho', hk⟩ ho
      have hb : SameAt u (settle L p) p :=
        settle_at_none hp h fun t ht hj => hr ⟨t, ht, fun he => ho ⟨t, ht, he⟩, hj⟩
      exact ((hse.trans hb).heed hq h hre n).trans hnew.symm

/-- **A new version.** A settled claim that heeds n is settled again iff n makes up for what its old version has left. -/
theorem settle_put_iff (hp : mightHaveInferredOwner p = true) (h : p.ownerUIDs.Nodup) (hq : q.ownerUIDs.Nodup)
    (hr : q.ref = p.ref) (hke : (L.map resourceKey).Nodup) (ho : OneJudge L p)
    (ho' : OneJudge (put resourceKey n L) p) (hs : ∀ u, SameAt u q (settle L p)) :
    (∀ u, SameAt u (q.heed n) (settle (put resourceKey n L) p)) ↔
      ∀ old ∈ L, old.resourceKey = n.resourceKey → Forgets old n p := by
  constructor
  · exact fun ha old hol hk u =>
      (settle_put_at_iff hp h hq hr hke ho ho' (hs u)).1 (ha u) old hol hk
  · exact fun ha u => (settle_put_at_iff hp h hq hr hke ho ho' (hs u)).2
      fun old hol hk => ha old hol hk u

/-- nothing with the UID of a judge is left when it is taken away -/
theorem unheed_at_judge (h : p.ownerUIDs.Nodup) (hq : q.ownerUIDs.Nodup) (hr : q.ref = p.ref)
    (hj : old.judges p ≠ none) (hs : SameAt old.ref.uid q (p.heed old)) {o : OwnerReference}
    (ho : o.uid = old.ref.uid) : o ∉ (q.unheed old).ownerRefs := by
  unfold Resource.unheed
  rw [judges_congr hr]
  cases hol : old.judges p with
  | none => exact absurd hol hj
  | some b =>
    cases b with
    | true =>
      exact notMem_setOwnerRef_false hq ho
    | false =>
      rw [if_neg (by simp), hs o ho, Resource.heed, hol]
      exact notMem_setOwnerRef_false h ho

theorem unheed_sameAt_of_not (hq : q.ownerUIDs.Nodup) {u : String} (h : ¬JudgesAt u old q) : SameAt u (q.unheed old) q := by
  unfold Resource.unheed
  split_ifs with ho
  · exact setOwnerRef_sameAt_of_ne hq (fun he => h ⟨he, by simp [ho]⟩) false
  · exact SameAt.refl u q

/-- **A removal.** A settled claim is settled again after the removal of a judge iff it does not list the judge itself. -/
theorem settle_drop_iff (hp : mightHaveInferredOwner p = true) (h : p.ownerUIDs.Nodup) (hq : q.ownerUIDs.Nodup)
    (hre : q.ref = p.ref) (hk : (L.map resourceKey).Nodup) (hon : OneJudge L p) (hol : old ∈ L)
    (hse : ∀ u, SameAt u q (settle L p)) :
    (∀ u, SameAt u (q.unheed old) (settle (Latest.drop resourceKey old.resourceKey L) p)) ↔
      (old.judges p ≠ none → old.ref.uid ∉ p.ownerUIDs) := by
  have hon' : OneJudge (Latest.drop resourceKey old.resourceKey L) p :=
    fun s hs s' hs' => hon s (Latest.mem_drop.1 hs).1 s' (Latest.mem_drop.1 hs').1
  have honl : ∀ u, JudgesAt u old p → ∀ t ∈ Latest.drop resourceKey old.resourceKey L, ¬JudgesAt u t p := by
    intro u hu t ht ht'
    obtain ⟨htL, hne⟩ := Latest.mem_drop.1 ht
    exact hne (congrArg _ (hon t htL old hol ht'.2 hu.2 (ht'.1.trans hu.1.symm)))
  have hju : ∀ u, JudgesAt u old p → ∀ o : OwnerReference, o.uid = u → o ∉ (q.unheed old).ownerRefs := by
    intro u hu o ho
    refine unheed_at_judge h hq hre hu.2 ?_ (ho.trans hu.1.symm)
    rw [hu.1]
    exact (hse u).trans (settle_at_judge hp h hon hol hu)
  constructor
  · intro ha hj hm
    have hu : JudgesAt old.ref.uid old p := ⟨rfl, hj⟩
    obtain ⟨o, ho, hui⟩ := mem_map.1 hm
    have hsa := (ha _).trans (settle_at_none hp h (honl _ hu))
    exact hju _ hu o hui ((hsa o hui).2 ho)
  · intro hl u
    by_cases hu : JudgesAt u old p
    · refine SameAt.trans (fun o ho => ?_) (settle_at_none hp h (honl u hu)).symm
      refine iff_of_false (hju u hu o ho) fun ho' => hl hu.2 ?_
      rw [hu.1, ← ho]
      exact mem_map_of_mem ho'
    · have hu' : ¬JudgesAt u old q := by
        rwa [JudgesAt, judges_congr hre]
      refine (unheed_sameAt_of_not hq hu').trans ((hse u).trans ?_)
      by_cases hr : ∃ s ∈ Latest.drop resourceKey old.resourceKey L, JudgesAt u s p
      · obtain ⟨s, hs, hj⟩ := hr
        exact (settle_at_judge hp h hon (Latest.mem_drop.1 hs).1 hj).trans
          (settle_at_judge hp h hon' hs hj).symm
      have hn : ∀ t ∈ L, ¬JudgesAt u t p := by
        intro t ht hj
        have hke : t.resourceKey = old.resourceKey := by
          by_contra hne
          exact hr ⟨t, Latest.mem_drop.2 ⟨ht, hne⟩, hj⟩
        exact hu (Latest.eq_of_key_eq hk ht hol hke ▸ hj)
      exact (settle_at_none hp h hn).trans
        (settle_at_none hp h fun t ht => hn t (Latest.mem_drop.1 ht).1).symm

end Changes

end GitOpsDeploy.ClusterCache

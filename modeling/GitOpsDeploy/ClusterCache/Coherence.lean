/-
Coherence of the indexes of the cluster cache.

- `Coherent c extra`: the namespace index is the resource map split by namespace, and the children index is the owner
  references of the cached resources, plus the pairs `extra` of a resource that is just being removed.
-/
import GitOpsDeploy.ClusterCache.Cluster

namespace GitOpsDeploy.ClusterCache

open List Function

/-- the resource cached under k has an owner reference with UID u -/
def OwnedBy (c : Cache) (u : String) (k : ResourceKey) : Prop :=
  ∃ r, c.resources.lookup k = some r ∧ u ∈ (c.heap r).ownerUIDs

structure Coherent (c : Cache) (extra : String → ResourceKey → Prop) : Prop where
  keyed : ∀ k r, c.resources.lookup k = some r → r < c.next ∧ (c.heap r).resourceKey = k
  /-- the owner UIDs of a cached volume claim are distinct -/
  distinct : ∀ k r, c.resources.lookup k = some r → mightHaveInferredOwner (c.heap r) = true →
    (c.heap r).ownerUIDs.Nodup
  split : ∀ k r, c.resources.lookup k = some r ↔ ∃ m, c.nsIndex.lookup k.ns = some m ∧ m.lookup k = some r
  inNs : ∀ n m k r, c.nsIndex.lookup n = some m → m.lookup k = some r → k.ns = n
  nsNonempty : ∀ n m, c.nsIndex.lookup n = some m → m.entries ≠ []
  children : ∀ u k, u ≠ "" → (c.parentUIDToChildren.Has u k ↔ OwnedBy c u k ∨ extra u k)

def noExtra : String → ResourceKey → Prop := fun _ _ => False

theorem empty_coherent : Coherent Cache.empty noExtra where
  keyed k r h := by cases h
  distinct k r h := by cases h
  split k r := by simp [Cache.empty]
  inNs n m k r h := by cases h
  nsNonempty n m h := by cases h
  children u k _ := by simp [Cache.empty, MultiIndex.not_has_empty, noExtra, OwnedBy]

variable {r ref : ℕ} {k key : ResourceKey} {extra : String → ResourceKey → Prop} {c : Cache}

variable (matchString : String → String → Bool)

theorem Coherent.ref_inj (h : Coherent c extra) {k' : ResourceKey} (hk : c.resources.lookup k = some r)
    (hk' : c.resources.lookup k' = some r) : k = k' :=
  (h.keyed k r hk).2.symm.trans (h.keyed k' r hk').2

/-! ## The namespace index -/

theorem lookup_getD_eq_some (index : AList fun _ : String => ResourceMap) (n : String) (k : ResourceKey) (r : ℕ) :
    ((index.lookup n).getD ∅).lookup k = some r ↔ ∃ m, index.lookup n = some m ∧ m.lookup k = some r := by
  cases index.lookup n with
  | none => simp
  | some m => simp

/-- the index is the map split by namespace iff every namespace, a missing one being empty, has what the map has in it -/
theorem split_iff {resources : ResourceMap} {index : AList fun _ : String => ResourceMap} :
    (∀ n k r, ((index.lookup n).getD ∅).lookup k = some r ↔ resources.lookup k = some r ∧ k.ns = n) ↔
      (∀ k r, resources.lookup k = some r ↔ ∃ m, index.lookup k.ns = some m ∧ m.lookup k = some r) ∧
        ∀ n m k r, index.lookup n = some m → m.lookup k = some r → k.ns = n := by
  simp only [lookup_getD_eq_some]
  constructor
  · intro h
    exact ⟨fun k r => ((h k.ns k r).trans (and_iff_left rfl)).symm, fun n m k r hm hr => ((h n k r).1 ⟨m, hm, hr⟩).2⟩
  · intro ⟨hs, hi⟩ n k r
    constructor
    · intro ⟨m, hm, hr⟩
      have hns := hi n m k r hm hr
      exact ⟨(hs k r).2 ⟨m, hns ▸ hm, hr⟩, hns⟩
    · intro ⟨hr, hns⟩
      exact hns ▸ (hs k r).1 hr

theorem Coherent.lookup_ns (h : Coherent c extra) {n : String} :
    ((c.nsIndex.lookup n).getD ∅).lookup k = some r ↔ c.resources.lookup k = some r ∧ k.ns = n :=
  split_iff.2 ⟨h.split, h.inNs⟩ n k r

theorem Coherent.mem_ns (h : Coherent c extra) (o : RangeOrder) {n : String} {e : Σ _ : ResourceKey, ℕ} :
    e ∈ o.entries ((c.nsIndex.lookup n).getD ∅).entries ↔ c.resources.lookup e.1 = some e.2 ∧ e.1.ns = n :=
  (o.perm _).mem_iff.trans (AList.mem_lookup_iff.symm.trans h.lookup_ns)

/-! ## Changing an inferred owner -/

/-- what the loops over a namespace leave alone: the maps, everything of a resource but its owner references, and
resources that are not cached -/
structure Frame (c c' : Cache) : Prop where
  resources : c'.resources = c.resources
  nsIndex : c'.nsIndex = c.nsIndex
  next : c'.next = c.next
  heap : ∀ r, c'.heap r = { c.heap r with ownerRefs := (c'.heap r).ownerRefs }
  uncached : ∀ r, (∀ k, c.resources.lookup k ≠ some r) → c'.heap r = c.heap r

theorem Frame.refl (c : Cache) : Frame c c := ⟨rfl, rfl, rfl, fun _ => rfl, fun _ _ => rfl⟩

theorem Frame.trans {c₁ c₂ c₃ : Cache} (h : Frame c₁ c₂) (h' : Frame c₂ c₃) : Frame c₁ c₃ where
  resources := h'.resources.trans h.resources
  nsIndex := h'.nsIndex.trans h.nsIndex
  next := h'.next.trans h.next
  heap r := by rw [h'.heap r, h.heap r]
  uncached r hr := (h'.uncached r (by rw [h.resources]; exact hr)).trans (h.uncached r hr)

theorem Frame.resourceKey {c' : Cache} (h : Frame c c') (r : ℕ) : (c'.heap r).resourceKey = (c.heap r).resourceKey := by
  rw [h.heap r]
  rfl

theorem relink_frame {child : ℕ} (hk : c.resources.lookup k = some child)
    (parent : Resource) (b : Bool) : Frame c (relink c child k parent b) := by
  refine ⟨rfl, rfl, rfl, fun r => ?_, fun r hr => ?_⟩
  · by_cases hr : r = child
    · subst hr
      simp only [relink, update_self]
      exact setOwnerRef_frame _ _ _
    · simp only [relink, update_of_ne hr]
  · exact update_of_ne (fun he : r = child => hr k (he ▸ hk)) _ _

theorem has_relink (c : Cache) (child : ℕ) (k : ResourceKey) (parent : Resource) (b : Bool) (u : String) (l : ResourceKey)
    (hu : u ≠ "") : (relink c child k parent b).parentUIDToChildren.Has u l ↔
      if u = parent.ref.uid ∧ l = k then b = true else c.parentUIDToChildren.Has u l := by
  simp only [relink]
  by_cases hp : parent.ref.uid = ""
  · simp [hp, hu]
  cases b with
  | true =>
    simp only [if_neg hp, if_true, MultiIndex.has_add]
    split_ifs with hul <;> simp [hul]
  | false =>
    simp only [if_neg hp, Bool.false_eq_true, if_false, MultiIndex.has_remove]
    split_ifs with hul <;> simp [hul]

theorem relink_coherent (h : Coherent c extra) {child : ℕ} (hk : c.resources.lookup k = some child)
    (hcl : mightHaveInferredOwner (c.heap child) = true)
    (hex : ∀ u, ¬ extra u k) (parent : Resource) (b : Bool) : Coherent (relink c child k parent b) extra := by
  have hf := relink_frame hk parent b
  have hn := h.distinct k child hk hcl
  have hh : ∀ r, r ≠ child → (relink c child k parent b).heap r = c.heap r :=
    fun r hr => update_of_ne hr _ _
  have hc : (relink c child k parent b).heap child = (c.heap child).setOwnerRef parent.toOwnerRef b :=
    update_self _ _ _
  refine ⟨fun l r hl => ?_, fun l r hl hm => ?_, h.split, h.inNs, h.nsNonempty, fun u l hu => ?_⟩
  · rw [hf.resourceKey]
    exact h.keyed l r hl
  · by_cases hr : r = child
    · rw [hr, hc]
      exact setOwnerRef_nodup hn _ _
    · rw [hh r hr] at hm ⊢
      exact h.distinct l r hl hm
  · have ho : OwnedBy (relink c child k parent b) u l ↔
        if u = parent.ref.uid ∧ l = k then b = true else OwnedBy c u l := by
      by_cases hl : l = k
      · subst hl
        have hg : ∀ d : Cache, d.resources = c.resources → (OwnedBy d u l ↔ u ∈ (d.heap child).ownerUIDs) := by
          intro d hd
          simp [OwnedBy, hd, hk]
        rw [hg (relink c child l parent b) rfl, hg c rfl, hc, setOwnerRef_uids hn]
        by_cases hup : u = parent.ref.uid <;> simp [hup, Resource.toOwnerRef]
      · simp only [hl, and_false, if_false]
        refine exists_congr fun r => and_congr_right fun hr => ?_
        have hne : r ≠ child := fun he => hl (h.ref_inj (he ▸ hr) hk)
        rw [hh r hne]
    rw [has_relink _ _ _ _ _ _ _ hu, ho]
    split_ifs with hul
    · simp [hul.2, hex u]
    · exact h.children u l hu

/-- A loop over entries of the cache whose every turn keeps coherence and the frame does so as a whole. -/
theorem foldl_coherent (resources : ResourceMap) (f : Cache → (Σ _ : ResourceKey, ℕ) → Cache)
    (hf : ∀ d e, Coherent d extra → d.resources = resources → resources.lookup e.1 = some e.2 →
      Coherent (f d e) extra ∧ Frame d (f d e))
    (es : List (Σ _ : ResourceKey, ℕ)) (hes : ∀ e ∈ es, resources.lookup e.1 = some e.2) (c : Cache)
    (h : Coherent c extra) (hc : c.resources = resources) : Coherent (es.foldl f c) extra ∧ Frame c (es.foldl f c) := by
  induction es generalizing c with
  | nil => exact ⟨h, Frame.refl c⟩
  | cons e es ih =>
    obtain ⟨h1, hfr⟩ := hf c e h hc (hes e mem_cons_self)
    obtain ⟨h2, hfr'⟩ := ih (fun e' he' => hes e' (mem_cons_of_mem _ he')) (f c e) h1
      (hfr.resources.trans hc)
    exact ⟨h2, hfr.trans hfr'⟩

section

variable (h : Coherent c noExtra)

include h

theorem linkInferred_coherent {n : ℕ}
    (hn : c.resources.lookup key = some n) (e : Σ _ : ResourceKey, ℕ) (he : c.resources.lookup e.1 = some e.2) :
    Coherent (linkInferred n c e) noExtra ∧ Frame c (linkInferred n c e) := by
  have hc : Coherent (linkChild n c e.1 e.2) noExtra ∧ Frame c (linkChild n c e.1 e.2) := by
    unfold linkChild
    split
    · exact ⟨h, Frame.refl c⟩
    · split_ifs with hm
      · exact ⟨relink_coherent h he hm (fun _ => id) _ _, relink_frame he _ _⟩
      · exact ⟨h, Frame.refl c⟩
  obtain ⟨h1, hf⟩ := hc
  have hn1 : (linkChild n c e.1 e.2).resources.lookup key = some n := by rw [hf.resources, hn]
  have hk := (h1.keyed key n hn1).2
  unfold linkInferred linkParent
  split
  · exact ⟨h1, hf⟩
  · split_ifs with hm
    · rw [hk]
      exact ⟨relink_coherent h1 hn1 hm (fun _ => id) _ _, hf.trans (relink_frame hn1 _ _)⟩
    · exact ⟨h1, hf⟩

/-! ## Storing a node -/

omit h in
/-- the child moves from the parents it had to the ones it has now -/
theorem has_updateParentUIDToChildren (index : MultiIndex String ResourceKey) (key : ResourceKey) (old : Option Resource)
    (new : Resource) (u : String) (k : ResourceKey) (hu : u ≠ "")
    (ho : index.Has u key ↔ u ∈ (old.map Resource.ownerUIDs).getD []) :
    (updateParentUIDToChildren index key old new).Has u k ↔ if k = key then u ∈ new.ownerUIDs else index.Has u k := by
  simp only [updateParentUIDToChildren, MultiIndex.has_addAll, MultiIndex.has_removeAll, mem_filter,
    decide_eq_true_eq, hu, ne_eq, not_false_eq_true, and_true]
  split_ifs with hk
  · subst hk
    tauto
  · simp [hk]

theorem storeNode_coherent (n : Resource)
    (hn : mightHaveInferredOwner n = true → n.ownerUIDs.Nodup) : Coherent (storeNode c n) noExtra := by
  set key := n.resourceKey with hke
  have hs : (storeNode c n).resources.lookup key = some c.next := AList.lookup_insert _
  have ho : ∀ k, k ≠ key → (storeNode c n).resources.lookup k = c.resources.lookup k :=
    fun k hk => AList.lookup_insert_ne hk
  have hne : (storeNode c n).heap c.next = n := update_self _ _ _
  have hol : ∀ k r, c.resources.lookup k = some r → (storeNode c n).heap r = c.heap r :=
    fun k r hr => update_of_ne (h.keyed k r hr).1.ne _ _
  have hns : (storeNode c n).nsIndex.lookup key.ns = some (((c.nsIndex.lookup key.ns).getD ∅).insert key c.next) :=
    AList.lookup_insert _
  have hns' : ∀ m, m ≠ key.ns → (storeNode c n).nsIndex.lookup m = c.nsIndex.lookup m :=
    fun m hm => AList.lookup_insert_ne hm
  have hi : ∀ m k r, (((storeNode c n).nsIndex.lookup m).getD ∅).lookup k = some r ↔
      (storeNode c n).resources.lookup k = some r ∧ k.ns = m := by
    intro m k r
    by_cases hm : m = key.ns
    · rw [hm, hns, Option.getD_some]
      by_cases hk : k = key
      · rw [hk, hs, AList.lookup_insert]
        exact (and_iff_left rfl).symm
      · rw [ho k hk, AList.lookup_insert_ne hk, h.lookup_ns]
    · rw [hns' m hm, h.lookup_ns]
      refine and_congr_left fun hkm => ?_
      rw [ho k fun hk => hm (by rw [← hkm, hk])]
  refine ⟨fun k r hr => ?_, fun k r hr hm => ?_, (split_iff.1 hi).1, (split_iff.1 hi).2, fun m ns hm => ?_,
    fun u k hu => ?_⟩
  · by_cases hk : k = key
    · rw [hk, hs] at hr
      cases hr
      exact ⟨Nat.lt_succ_self _, by rw [hne, hk]⟩
    · rw [ho k hk] at hr
      rw [hol k r hr]
      exact ⟨Nat.lt_succ_of_lt (h.keyed k r hr).1, (h.keyed k r hr).2⟩
  · by_cases hk : k = key
    · rw [hk, hs] at hr
      cases hr
      rw [hne] at hm ⊢
      exact hn hm
    · rw [ho k hk] at hr
      rw [hol k r hr] at hm ⊢
      exact h.distinct k r hr hm
  · by_cases hmk : m = key.ns
    · rw [hmk, hns] at hm
      cases hm
      exact cons_ne_nil _ _
    · rw [hns' m hmk] at hm
      exact h.nsNonempty m ns hm
  · have hb : c.parentUIDToChildren.Has u key ↔
        u ∈ (((c.resources.lookup key).map c.heap).map Resource.ownerUIDs).getD [] := by
      rw [h.children u key hu]
      cases hr : c.resources.lookup key <;> simp [OwnedBy, noExtra, hr]
    have hi : (storeNode c n).parentUIDToChildren.Has u k ↔ _ :=
      has_updateParentUIDToChildren c.parentUIDToChildren key _ n u k hu hb
    rw [hi]
    simp only [noExtra, or_false]
    by_cases hk : k = key
    · rw [if_pos hk, hk]
      simp only [OwnedBy, hs, Option.some.injEq, exists_eq_left', hne]
    · rw [if_neg hk, h.children u k hu]
      simp only [OwnedBy, ho k hk, noExtra, or_false]
      refine exists_congr fun r => and_congr_right fun hr => ?_
      rw [hol k r hr]

omit h in
theorem storeNode_lookup (c : Cache) (n : Resource) : (storeNode c n).resources.lookup n.resourceKey = some c.next :=
  AList.lookup_insert _

theorem setNode_spec (o : RangeOrder) (n : Resource) (hn : mightHaveInferredOwner n = true → n.ownerUIDs.Nodup) :
    Coherent (setNode o c n) noExtra ∧ Frame (storeNode c n) (setNode o c n) := by
  have hs := storeNode_coherent h n hn
  unfold setNode
  split_ifs
  · refine foldl_coherent (storeNode c n).resources (linkInferred c.next) (fun d e hd hr he => ?_) _
      (fun e he => ((hs.mem_ns o).1 he).1) _ hs rfl
    exact linkInferred_coherent hd (by rw [hr, storeNode_lookup]) e (by rw [hr, he])
  · exact ⟨hs, Frame.refl _⟩

theorem setNode_coherent (o : RangeOrder) (n : Resource)
    (hn : mightHaveInferredOwner n = true → n.ownerUIDs.Nodup) : Coherent (setNode o c n) noExtra :=
  (setNode_spec h o n hn).1

/-! ## Removing a node -/

omit h in
theorem dropNode_lookup : (dropNode c key).resources.lookup k = some r ↔ k ≠ key ∧ c.resources.lookup k = some r := by
  by_cases hk : k = key
  · subst hk
    simp [dropNode]
  · simp [dropNode, hk]

omit h in
/-- the namespace of the key loses just the key; it is dropped when nothing else is in it -/
theorem dropNode_ns (c : Cache) (key : ResourceKey) (m : String) : ((dropNode c key).nsIndex.lookup m).getD ∅ =
    if m = key.ns then ((c.nsIndex.lookup key.ns).map fun ns => ns.erase key).getD ∅
      else (c.nsIndex.lookup m).getD ∅ := by
  simp only [dropNode]
  cases hns : c.nsIndex.lookup key.ns with
  | none =>
    split_ifs with hm
    · rw [hm, hns]
      rfl
    · rfl
  | some ns =>
    dsimp only
    split_ifs with he hm hm
    · rw [hm, AList.lookup_erase]
      exact (AList.ext he).symm
    · rw [AList.lookup_erase_ne hm]
    · rw [hm, AList.lookup_insert]
      rfl
    · rw [AList.lookup_insert_ne hm]

/-- without the key the maps still agree; the entries of its resource in the children index are left over -/
theorem dropNode_coherent (hke : c.resources.lookup key = some ref) :
    Coherent (dropNode c key) (fun u k => k = key ∧ u ∈ (c.heap ref).ownerUIDs) := by
  obtain ⟨ns, hns, -⟩ := (h.split key ref).1 hke
  have hi : ∀ m k r, (((dropNode c key).nsIndex.lookup m).getD ∅).lookup k = some r ↔
      (dropNode c key).resources.lookup k = some r ∧ k.ns = m := by
    intro m k r
    rw [dropNode_ns, dropNode_lookup, and_assoc, ← h.lookup_ns]
    split_ifs with hm
    · rw [hm, hns, Option.map_some, Option.getD_some, Option.getD_some]
      by_cases hk : k = key
      · rw [hk, AList.lookup_erase]
        simp
      · rw [AList.lookup_erase_ne hk, and_iff_right hk]
    · refine (and_iff_right_of_imp fun hr hk => hm ?_).symm
      rw [← (h.lookup_ns.1 hr).2, hk]
  refine ⟨fun k r hr => h.keyed k r (dropNode_lookup.1 hr).2, fun k r hr => h.distinct k r (dropNode_lookup.1 hr).2,
    (split_iff.1 hi).1, (split_iff.1 hi).2, fun m ns' hm => ?_, fun u k hu => ?_⟩
  · simp only [dropNode, hns] at hm
    by_cases hmk : m = key.ns
    · rw [hmk] at hm
      split_ifs at hm with he
      · rw [AList.lookup_erase] at hm
        cases hm
      · rw [AList.lookup_insert] at hm
        cases hm
        exact he
    · refine h.nsNonempty m ns' ?_
      split_ifs at hm
      · rwa [AList.lookup_erase_ne hmk] at hm
      · rwa [AList.lookup_insert_ne hmk] at hm
  · rw [show (dropNode c key).parentUIDToChildren = c.parentUIDToChildren from rfl, h.children u k hu]
    simp only [OwnedBy, dropNode_lookup, noExtra, or_false]
    by_cases hk : k = key
    · subst hk
      simp [hke]
    · simp only [hk, ne_eq, not_false_eq_true, true_and, false_and, or_false]
      exact Iff.rfl

theorem dropNode_ns_lookup (hke : c.resources.lookup key = some ref) :
    (((c.nsIndex.lookup key.ns).map fun ns : ResourceMap => ns.erase key).getD ∅).lookup k = some r ↔
      (dropNode c key).resources.lookup k = some r ∧ k.ns = key.ns := by
  rw [← (dropNode_coherent h hke).lookup_ns, dropNode_ns, if_pos rfl]

omit h in
theorem unlinkInferred_coherent (h : Coherent c extra)
    (existing : Resource) (isParent : ResourceKey → Bool) (e : Σ _ : ResourceKey, ℕ)
    (he : c.resources.lookup e.1 = some e.2) (hex : ∀ u, ¬ extra u e.1) :
    Coherent (unlinkInferred existing isParent c e) extra ∧ Frame c (unlinkInferred existing isParent c e) := by
  unfold unlinkInferred
  split_ifs with hm
  · exact ⟨relink_coherent h he (Bool.and_eq_true_iff.1 hm).1 hex _ _, relink_frame he _ _⟩
  · exact ⟨h, Frame.refl c⟩

omit h in
theorem unlinkChildren_coherent (h : Coherent c extra) (o : RangeOrder)
    (existing : Resource) (ns : ResourceMap) (hns : ∀ k r, ns.lookup k = some r → c.resources.lookup k = some r)
    (hex : ∀ u k r, c.resources.lookup k = some r → ¬ extra u k) :
    Coherent (unlinkChildren o existing ns c) extra ∧ Frame c (unlinkChildren o existing ns c) := by
  unfold unlinkChildren
  split
  · exact ⟨h, Frame.refl c⟩
  · refine foldl_coherent c.resources _ (fun d e hd hr he => ?_) _ (fun e he => ?_) c h rfl
    · exact unlinkInferred_coherent hd _ _ e (by rw [hr, he]) fun u => hex u e.1 e.2 he
    · exact hns e.1 e.2 (AList.mem_lookup_iff.2 ((o.perm _).mem_iff.1 he))

omit h in
/-- the entries left over by `dropNode` are those of the owners of the removed resource -/
theorem forgetOwners_coherent
    (h : Coherent c fun u k => k = key ∧ u ∈ (c.heap ref).ownerUIDs) (hg : c.resources.lookup key = none) :
    Coherent (forgetOwners ref key c) noExtra := by
  refine ⟨h.keyed, h.distinct, h.split, h.inNs, h.nsNonempty, fun u k hu => ?_⟩
  have hi : (forgetOwners ref key c).parentUIDToChildren.Has u k ↔
      c.parentUIDToChildren.Has u k ∧ ¬ (u ∈ (c.heap ref).ownerUIDs ∧ k = key) := by
    simp [forgetOwners, MultiIndex.has_removeAll, hu]
  have ho : OwnedBy (forgetOwners ref key c) u k ↔ OwnedBy c u k := Iff.rfl
  rw [hi, h.children u k hu, ho]
  by_cases hk : k = key
  · subst hk
    have hn : ¬ OwnedBy c u k := by simp [OwnedBy, hg]
    simp [hn, noExtra]
  · simp [hk, noExtra]

theorem onNodeRemoved_spec (o : RangeOrder) (hke : c.resources.lookup key = some ref) :
    Coherent (onNodeRemoved o c key) noExtra ∧ Frame (dropNode c key) (onNodeRemoved o c key) := by
  have hre : onNodeRemoved o c key = forgetOwners ref key (unlinkChildren o (c.heap ref)
      (((c.nsIndex.lookup key.ns).map fun ns => ns.erase key).getD ∅) (dropNode c key)) := by
    simp only [onNodeRemoved, hke]
  obtain ⟨hd, hf⟩ := unlinkChildren_coherent (dropNode_coherent h hke) o (c.heap ref) _
    (fun k r hr => ((dropNode_ns_lookup h hke).1 hr).1) fun u k r hr hx => (dropNode_lookup.1 hr).1 hx.1
  -- the removed resource itself is not cached any more, so the loop has not touched it
  have hh := hf.uncached ref fun k hk =>
    (dropNode_lookup.1 hk).1 (h.ref_inj (dropNode_lookup.1 hk).2 hke)
  have hg : (dropNode c key).resources.lookup key = none := AList.lookup_erase _ _
  rw [hre]
  refine ⟨forgetOwners_coherent ?_ (by rw [hf.resources, hg]),
    hf.resources, hf.nsIndex, hf.next, hf.heap, hf.uncached⟩
  rw [hh]
  exact hd

theorem onNodeRemoved_coherent (o : RangeOrder) (key : ResourceKey) : Coherent (onNodeRemoved o c key) noExtra := by
  cases hk : c.resources.lookup key with
  | none => simpa only [onNodeRemoved, hk] using h
  | some ref => exact (onNodeRemoved_spec h o hk).1

/-! ## Whole operations and runs -/

theorem replaceResourceCache_coherent (o : ReplaceOrder) (group kind ns : String)
    (resources : List Resource) (hre : ∀ n ∈ resources, mightHaveInferredOwner n = true → n.ownerUIDs.Nodup) :
    Coherent (replaceResourceCache o c group kind resources ns) noExtra := by
  have hs : ∀ (rs : List (Resource × ℕ)) (d : Cache), Coherent d noExtra → (∀ x ∈ rs, x.1 ∈ resources) →
      Coherent (rs.foldl (replaceNode o) d) noExtra := by
    intro rs
    induction rs with
    | nil => exact fun d hd _ => hd
    | cons x rs ih =>
      intro d hd hrs
      refine ih _ ?_ fun y hy => hrs y (mem_cons_of_mem _ hy)
      unfold replaceNode
      split_ifs
      · exact hd
      · exact setNode_coherent hd _ _ (hre _ (hrs x mem_cons_self))
  have hr : ∀ (es : List (Σ _ : ResourceKey, ℕ)) (d : Cache), Coherent d noExtra →
      Coherent (es.foldl (removeStale o group kind ns (resources.map Resource.resourceKey)) d) noExtra := by
    intro es
    induction es with
    | nil => exact fun d hd => hd
    | cons e es ih =>
      intro d hd
      refine ih _ ?_
      unfold removeStale
      split_ifs
      · exact hd
      · exact hd
      · exact onNodeRemoved_coherent hd _ _
  refine hr _ _ (hs _ _ h fun x hx => ?_)
  exact fst_mem_of_mem_zipIdx hx

omit h in
theorem newResource_distinct {un : Object} (h : (un.ownerReferences.map OwnerReference.uid).Nodup) :
    mightHaveInferredOwner (newResource matchString un) = true → (newResource matchString un).ownerUIDs.Nodup := by
  intro hc
  rw [Resource.ownerUIDs, (newResource_claim matchString un hc).1]
  exact h

omit h in
/-- the owner references of every object of the operation have pairwise distinct UIDs -/
def Op.DistinctOwners (op : Op) : Prop := ∀ un ∈ op.objects, (un.ownerReferences.map OwnerReference.uid).Nodup

theorem step_coherent (op : Op) (hop : op.DistinctOwners) : Coherent (step matchString c op) noExtra := by
  cases op with
  | setNode un o => exact setNode_coherent h o _ (newResource_distinct matchString (hop un mem_cons_self))
  | onNodeRemoved key o => exact onNodeRemoved_coherent h o key
  | replaceResourceCache group kind uns ns o =>
    refine replaceResourceCache_coherent h o group kind ns _ fun n hn => ?_
    obtain ⟨un, hun, rfl⟩ := mem_map.1 hn
    exact newResource_distinct matchString (hop un hun)

end

theorem run_coherent (ops : List Op) (h : Coherent c noExtra)
    (hop : ∀ op ∈ ops, op.DistinctOwners) : Coherent (run matchString c ops) noExtra := by
  induction ops generalizing c with
  | nil => exact h
  | cons op ops ih =>
    exact ih (step_coherent matchString h op (hop op mem_cons_self)) fun o ho => hop o (mem_cons_of_mem _ ho)

/-- **The indexes agree with the cached resources.** In every state reached from the empty cache by operations on objects
with distinct owner UIDs: a resource is stored under k iff the namespace index of k's namespace stores the same resource
under k, and no namespace is stored empty; the children stored for a UID are exactly the keys of the cached resources with
that owner UID, and no empty set of children is stored. -/
theorem cache_indexes_coherent (ops : List Op)
    (hops : ∀ op ∈ ops, op.DistinctOwners) :
    (∀ k r, (run matchString .empty ops).resources.lookup k = some r ↔
      ∃ m, (run matchString .empty ops).nsIndex.lookup k.ns = some m ∧ m.lookup k = some r) ∧
    (∀ n m, (run matchString .empty ops).nsIndex.lookup n = some m → m.entries ≠ [] ∧ ∀ k ∈ m, k.ns = n) ∧
    (∀ u k, u ≠ "" → (k ∈ (run matchString .empty ops).parentUIDToChildren.get u ↔
      ∃ r, (run matchString .empty ops).resources.lookup k = some r ∧
        u ∈ ((run matchString .empty ops).heap r).ownerUIDs)) ∧
    ∀ u S, (run matchString .empty ops).parentUIDToChildren.sets u = some S → S ≠ ∅ := by
  have h := run_coherent matchString ops empty_coherent hops
  refine ⟨h.split, fun n m hm => ⟨h.nsNonempty n m hm, fun k hk => ?_⟩, fun u k hu => ?_, fun u S hS => ?_⟩
  · obtain ⟨r, hr⟩ := Option.isSome_iff_exists.1 (AList.lookup_isSome.2 hk)
    exact h.inNs n m k r hm hr
  · exact (h.children u k hu).trans (or_iff_left id)
  · exact Finset.nonempty_iff_ne_empty.1 (MultiIndex.nonempty _ u S hS)

/-- a StatefulSet "db" with one volume claim template "data" -/
def statefulSet : Object :=
  { (default : Object) with
    apiVersion := "apps/v1", kind := "StatefulSet", ns := "prod", name := "db", uid := "sts", resourceVersion := "1"
    volumeClaimTemplates := some ["data"] }

/-- a claim of that StatefulSet -/
def volumeClaim : Object :=
  { (default : Object) with
    apiVersion := "v1", kind := "PersistentVolumeClaim", ns := "prod", name := "data-db-0", uid := "pvc",
    resourceVersion := "1" }

/-- the claim, cached before the StatefulSet, is found under the UID of its inferred owner -/
theorem cache_indexes_coherent_statefulSet :
    ResourceKey.mk "" "PersistentVolumeClaim" "prod" "data-db-0" ∈
      (run (fun _ _ => true) .empty [.setNode volumeClaim .listed, .setNode statefulSet .listed]).parentUIDToChildren.get
        "sts" :=
  ((cache_indexes_coherent (fun _ _ => true) [.setNode volumeClaim .listed, .setNode statefulSet .listed] (by
      intro op hop un hun
      simp only [mem_cons, not_mem_nil, or_false] at hop
      rcases hop with rfl | rfl <;> simp only [Op.objects, mem_singleton] at hun <;> subst hun <;>
        exact nodup_nil)).2.2.1 "sts" _ (by decide)).2 ⟨0, by decide, by decide⟩

end GitOpsDeploy.ClusterCache

/-
The loops of `setNode` and `onNodeRemoved` over a namespace, resource by resource.
-/
import GitOpsDeploy.ClusterCache.Coherence
import GitOpsDeploy.ClusterCache.Judges

namespace GitOpsDeploy.ClusterCache

open List Function
open Resource (heed judges unheed)

/-! ## Loops over a namespace -/

section Hears

variable {c : Cache} {es : List (Σ _ : ResourceKey, ℕ)} {f : Cache → (Σ _ : ResourceKey, ℕ) → Cache}
  {g : Resource → Resource} (hg : ∀ q, SameObject (g q) q)
  (hf : ∀ e ∈ es, ∀ d, (∀ r, SameObject (d.heap r) (c.heap r)) →
    (f d e).heap = Function.update d.heap e.2 (g (d.heap e.2)))
include hg hf

/-- a loop whose every turn rewrites the resource it is at, by a function that changes nothing but owners -/
theorem foldl_heap (hno : (es.map Sigma.snd).Nodup) {d : Cache} (hd : ∀ r, SameObject (d.heap r) (c.heap r)) (r : ℕ) :
    (es.foldl f d).heap r = if r ∈ es.map Sigma.snd then g (d.heap r) else d.heap r := by
  induction es generalizing d with
  | nil => rfl
  | cons e es ih =>
    have hh := hf e mem_cons_self d hd
    obtain ⟨hnot, hno⟩ := nodup_cons.1 hno
    have hd' : ∀ r, SameObject ((f d e).heap r) (c.heap r) := by
      intro r
      rw [hh]
      by_cases hr : r = e.2
      · rw [hr, update_self]
        exact (hg _).trans (hd e.2)
      · rw [update_of_ne hr]
        exact hd r
    rw [foldl_cons, ih (fun e' he' => hf e' (mem_cons_of_mem _ he')) hno hd', hh]
    by_cases hr : r = e.2
    · subst hr
      simp [hnot]
    · have hm : r ∈ (e :: es).map Sigma.snd ↔ r ∈ es.map Sigma.snd := mem_cons.trans (or_iff_right hr)
      simp only [hm, update_of_ne hr]

/-- the same over a namespace, when the function changes nothing outside it -/
theorem foldl_ns_heap {extra : String → ResourceKey → Prop} (h : Coherent c extra) {ns : String}
    (hno : (es.map Sigma.fst).Nodup) (hes : ∀ e, e ∈ es ↔ c.resources.lookup e.1 = some e.2 ∧ e.1.ns = ns)
    (hout : ∀ q, ¬ns = q.ref.ns → g q = q) {k : ResourceKey} {r : ℕ} (hk : c.resources.lookup k = some r) :
    (es.foldl f c).heap r = g (c.heap r) := by
  have hre : (es.map Sigma.snd).Nodup := by
    refine (List.Nodup.of_map _ hno).map_on fun e he e' he' hs => ?_
    have hf : e.1 = e'.1 := h.ref_inj ((hes e).1 he).1 (hs ▸ ((hes e').1 he').1)
    exact Sigma.ext hf (heq_of_eq hs)
  rw [foldl_heap hg hf hre fun _ => rfl]
  split_ifs with hm
  · rfl
  · refine (hout _ fun hns => hm (mem_map.2 ⟨⟨k, r⟩, (hes _).2 ⟨hk, ?_⟩, rfl⟩)).symm
    rw [hns, ← (h.keyed k r hk).2]
    rfl

end Hears

section Turn

variable {c : Cache} {ref : ℕ} {e : Σ _ : ResourceKey, ℕ}

theorem linkInferred_parent (hp : (c.heap ref).isInferredParentOf ≠ none)
    (hc : mightHaveInferredOwner (c.heap ref) = false) (hk : (c.heap e.2).resourceKey = e.1)
    (hns : (c.heap ref).ref.ns = (c.heap e.2).ref.ns) :
    (linkInferred ref c e).heap = Function.update c.heap e.2
      (if mightHaveInferredOwner (c.heap e.2) then (c.heap e.2).heed (c.heap ref) else c.heap e.2) := by
  obtain ⟨isParent, hp⟩ := Option.ne_none_iff_exists'.1 hp
  have hch : linkChild ref c e.1 e.2 = if mightHaveInferredOwner (c.heap e.2) = true then
      relink c e.2 e.1 (c.heap ref) (isParent e.1) else c := by
    simp only [linkChild, hp]
  have hhe : (c.heap e.2).heed (c.heap ref) = (c.heap e.2).setOwnerRef (c.heap ref).toOwnerRef (isParent e.1) := by
    simp only [heed, judges, hns, hp, if_true, Option.map_some, hk]
  have hh : (linkChild ref c e.1 e.2).heap = Function.update c.heap e.2
      (if mightHaveInferredOwner (c.heap e.2) then (c.heap e.2).heed (c.heap ref) else c.heap e.2) := by
    rw [hch, hhe]
    split_ifs with hm
    · rfl
    · exact (update_eq_self _ _).symm
  have hs : mightHaveInferredOwner ((linkChild ref c e.1 e.2).heap ref) = false := by
    rw [hh]
    by_cases hr : ref = e.2
    · subst hr
      rw [update_self, hc]
      exact hc
    · rw [update_of_ne hr, hc]
  rw [← hh, linkInferred, linkParent]
  split
  · rfl
  · rw [if_neg (by rw [hs]; exact Bool.false_ne_true)]

theorem linkInferred_claim (hc : mightHaveInferredOwner (c.heap ref) = true)
    (hp : (c.heap ref).isInferredParentOf = none) (hns : (c.heap e.2).ref.ns = (c.heap ref).ref.ns) :
    (linkInferred ref c e).heap = Function.update c.heap ref ((c.heap ref).heed (c.heap e.2)) := by
  have hch : linkChild ref c e.1 e.2 = c := by
    simp only [linkChild, hp]
  rw [linkInferred, hch, linkParent, heed, judges, if_pos hns]
  cases (c.heap e.2).isInferredParentOf with
  | none => exact (update_eq_self _ _).symm
  | some isParent =>
    simp only [hc, if_true, Option.map_some]
    rfl

end Turn

theorem foldl_linkInferred_claim {es : List (Σ _ : ResourceKey, ℕ)} {c : Cache} {ref : ℕ}
    (hc : mightHaveInferredOwner (c.heap ref) = true) (hp : (c.heap ref).isInferredParentOf = none)
    (hns : ∀ e ∈ es, (c.heap e.2).ref.ns = (c.heap ref).ref.ns) : (es.foldl (linkInferred ref) c).heap =
      Function.update c.heap ref ((es.map fun e => c.heap e.2).foldl heed (c.heap ref)) := by
  induction es generalizing c with
  | nil => exact (update_eq_self _ _).symm
  | cons e es ih =>
    have hh := linkInferred_claim hc hp (hns e mem_cons_self)
    -- the turn has changed nothing but owners
    have hs : ∀ r, SameObject ((linkInferred ref c e).heap r) (c.heap r) := by
      intro r
      rw [hh]
      by_cases hr : r = ref
      · subst hr
        rw [update_self]
        exact heed_frame _ _
      · rw [update_of_ne hr]
        rfl
    have hre : (fun q (e' : Σ _ : ResourceKey, ℕ) => heed q ((linkInferred ref c e).heap e'.2)) =
        fun q e' => heed q (c.heap e'.2) := by
      funext q e'
      exact (hs e'.2).heed q
    rw [foldl_cons, ih, map_cons, foldl_cons, foldl_map, foldl_map, hre, hh,
      update_self, update_idem]
    · rw [(hs ref).mightHaveInferredOwner, hc]
    · rw [(hs ref).isInferredParentOf, hp]
    · intro e' he'
      rw [(hs e'.2).ref, (hs ref).ref]
      exact hns e' (mem_cons_of_mem _ he')

/-! ## What setting and removing a node do to each resource -/

theorem entries_nodupKeys (o : RangeOrder) (m : ResourceMap) : ((o.entries m.entries).map Sigma.fst).Nodup :=
  ((o.perm _).map Sigma.fst).nodup_iff.2 m.nodupKeys

section SetNodeHeap

variable {c : Cache} (h : Coherent c noExtra) (o : RangeOrder) {n : Resource}
  (hn : mightHaveInferredOwner n = true → n.ownerUIDs.Nodup)
  (hapart : mightHaveInferredOwner n = true → n.isInferredParentOf = none)

theorem storeNode_heap_self (c : Cache) (n : Resource) : (storeNode c n).heap c.next = n := update_self _ _ _

include h hn

/-- a new claim hears every resource of its namespace -/
theorem setNode_heap_claim (hc : mightHaveInferredOwner n = true) (hp : n.isInferredParentOf = none) :
    (setNode o c n).heap = Function.update (storeNode c n).heap c.next
      (((o.entries (((storeNode c n).nsIndex.lookup n.resourceKey.ns).getD ∅).entries).map
        fun e => (storeNode c n).heap e.2).foldl heed n) := by
  have hst := storeNode_coherent h n hn
  have hs := storeNode_heap_self c n
  rw [setNode, if_pos (by simp [hc])]
  rw [foldl_linkInferred_claim (by rw [hs, hc]) (by rw [hs, hp]), hs]
  intro e he
  obtain ⟨hr, hns⟩ := (hst.mem_ns o).1 he
  rw [hs]
  exact (congrArg ResourceKey.ns (hst.keyed _ _ hr).2).trans hns

include hapart

/-- every other claim hears the new node -/
theorem setNode_heap {k : ResourceKey} {r : ℕ} (hk : (storeNode c n).resources.lookup k = some r)
    (hr : ¬(r = c.next ∧ mightHaveInferredOwner n = true)) :
    (setNode o c n).heap r = if mightHaveInferredOwner ((storeNode c n).heap r) then ((storeNode c n).heap r).heed n
      else (storeNode c n).heap r := by
  have hs := storeNode_coherent h n hn
  cases hp : n.isInferredParentOf with
  | none =>
    have hhe : ((storeNode c n).heap r).heed n = (storeNode c n).heap r := by
      simp [heed, judges, hp]
    rw [hhe, ite_self]
    by_cases hc : mightHaveInferredOwner n = true
    · rw [setNode_heap_claim h o hn hc hp, update_of_ne fun he => hr ⟨he, hc⟩]
    · rw [setNode, if_neg (by simp [hp, hc])]
  | some isParent =>
    have hc : mightHaveInferredOwner n = false := by
      cases hm : mightHaveInferredOwner n with
      | false => rfl
      | true => exact absurd (hapart hm) (by simp [hp])
    have hse := storeNode_heap_self c n
    rw [setNode, if_pos (by simp [hp])]
    refine foldl_ns_heap (g := fun q => if mightHaveInferredOwner q then q.heed n else q) (fun q => ?_)
      (fun e he d hsa => ?_) hs (entries_nodupKeys o _) (fun e => hs.mem_ns o) (fun q hns => ?_) hk
    · split_ifs
      · exact heed_frame _ _
      · rfl
    · obtain ⟨hr, hns⟩ := (hs.mem_ns o).1 he
      have hke := (hsa e.2).resourceKey.trans (hs.keyed _ _ hr).2
      have hd := hse ▸ hsa c.next
      rw [linkInferred_parent (by simp [hd.isInferredParentOf, hp]) (by rw [hd.mightHaveInferredOwner, hc]) hke,
        hd.heed]
      rw [hd.ref]
      exact hns.symm.trans (congrArg _ hke.symm)
    · -- outside the namespace n says nothing
      simp [heed, judges, show ¬n.ref.ns = q.ref.ns from hns]

end SetNodeHeap

variable {c : Cache}

theorem unlinkInferred_heap {existing : Resource} {isParent : ResourceKey → Bool} {e : Σ _ : ResourceKey, ℕ}
    (hp : existing.isInferredParentOf = some isParent) (hk : (c.heap e.2).resourceKey = e.1)
    (hns : existing.ref.ns = (c.heap e.2).ref.ns) :
    (unlinkInferred existing isParent c e).heap = Function.update c.heap e.2
      (if mightHaveInferredOwner (c.heap e.2) then (c.heap e.2).unheed existing else c.heap e.2) := by
  have hj : existing.judges (c.heap e.2) = some (isParent e.1) := by
    simp only [judges, hns, hp, if_true, Option.map_some, hk]
  unfold unlinkInferred unheed
  rw [hj]
  cases mightHaveInferredOwner (c.heap e.2) with
  | false => simp
  | true =>
    cases isParent e.1 with
    | false => simp
    | true => rfl

/-- every claim loses what it has from the removed node -/
theorem onNodeRemoved_heap (h : Coherent c noExtra) (o : RangeOrder) {key : ResourceKey} {ref : ℕ}
    (hkey : c.resources.lookup key = some ref) {k : ResourceKey} {r : ℕ}
    (hk : (dropNode c key).resources.lookup k = some r) :
    (onNodeRemoved o c key).heap r = if mightHaveInferredOwner (c.heap r) then (c.heap r).unheed (c.heap ref)
      else c.heap r := by
  have hd := dropNode_coherent h hkey
  have hrem : (onNodeRemoved o c key).heap r = (unlinkChildren o (c.heap ref)
      (((c.nsIndex.lookup key.ns).map fun ns => ns.erase key).getD ∅) (dropNode c key)).heap r := by
    simp only [onNodeRemoved, hkey]
    rfl
  rw [hrem, unlinkChildren.eq_def]
  cases hp : (c.heap ref).isInferredParentOf with
  | none =>
    have hu : (c.heap r).unheed (c.heap ref) = c.heap r := by
      simp [unheed, judges, hp]
    rw [hu, ite_self]
    rfl
  | some isParent =>
    have hes := fun e : Σ _ : ResourceKey, ℕ => (o.perm _).mem_iff.trans (AList.mem_lookup_iff.symm.trans
      (dropNode_ns_lookup h hkey (k := e.1) (r := e.2)))
    have hre : (c.heap ref).ref.ns = key.ns := congrArg ResourceKey.ns (h.keyed key ref hkey).2
    refine foldl_ns_heap (g := fun q => if mightHaveInferredOwner q then q.unheed (c.heap ref) else q) (fun q => ?_)
      (fun e he d hs => ?_) hd (entries_nodupKeys o _) hes (fun q hns => ?_) hk
    · split_ifs
      · exact unheed_frame _ _
      · rfl
    · obtain ⟨hr, hns⟩ := (hes e).1 he
      have hke := (hs e.2).resourceKey.trans (hd.keyed _ _ hr).2
      exact unlinkInferred_heap hp hke (hre.trans (hns.symm.trans (congrArg _ hke.symm)))
    · simp [unheed, judges, hre, hns]

/-! ## No children of the empty UID -/

/-- nothing is indexed under the empty UID -/
def NamedParents (c : Cache) : Prop := ∀ k, ¬c.parentUIDToChildren.Has "" k

theorem relink_named (h : NamedParents c) (child : ℕ) (key : ResourceKey) (parent : Resource) (b : Bool) :
    NamedParents (relink c child key parent b) := by
  intro k
  by_cases hp : parent.ref.uid = ""
  · simp only [relink, if_pos hp]
    exact h k
  have hne : ¬("" = parent.ref.uid ∧ k = key) := fun he => hp he.1.symm
  cases b with
  | true =>
    simp only [relink, if_neg hp, if_true, MultiIndex.has_add]
    exact fun hk => hk.elim hne (h k)
  | false =>
    simp only [relink, if_neg hp, Bool.false_eq_true, if_false, MultiIndex.has_remove]
    exact fun hk => h k hk.1

theorem foldl_named {E : Type*} {f : Cache → E → Cache} (hf : ∀ c e, NamedParents c → NamedParents (f c e))
    (es : List E) (h : NamedParents c) : NamedParents (es.foldl f c) := by
  induction es generalizing c with
  | nil => exact h
  | cons e es ih => exact ih (hf c e h)

theorem setNode_named (h : NamedParents c) (o : RangeOrder) (n : Resource) : NamedParents (setNode o c n) := by
  have hs : NamedParents (storeNode c n) := by
    intro k
    simp only [storeNode, updateParentUIDToChildren, MultiIndex.has_addAll, MultiIndex.has_removeAll, mem_filter]
    simp [h k]
  unfold setNode
  split_ifs
  · refine foldl_named (fun d e hd => ?_) _ hs
    have hc : NamedParents (linkChild c.next d e.1 e.2) := by
      unfold linkChild
      split
      · exact hd
      · split_ifs
        · exact relink_named hd _ _ _ _
        · exact hd
    unfold linkInferred linkParent
    split
    · exact hc
    · split_ifs
      · exact relink_named hc _ _ _ _
      · exact hc
  · exact hs

theorem onNodeRemoved_named (h : NamedParents c) (o : RangeOrder) (key : ResourceKey) :
    NamedParents (onNodeRemoved o c key) := by
  unfold onNodeRemoved
  split
  · exact h
  · rename_i ref _
    have hu : ∀ ns, NamedParents (unlinkChildren o (c.heap ref) ns (dropNode c key)) := by
      intro ns
      unfold unlinkChildren
      split
      · exact h
      · refine foldl_named (fun d e hd => ?_) _ (show NamedParents (dropNode c key) from h)
        unfold unlinkInferred
        split_ifs
        · exact relink_named hd _ _ _ _
        · exact hd
    intro k hk
    rw [forgetOwners, MultiIndex.has_removeAll] at hk
    exact hu _ k hk.1

end GitOpsDeploy.ClusterCache

/-
Confluence of the cluster cache: what is cached against the objects that exist.

- `survivors`: the latest version of every object that has not been deleted.
-/
import GitOpsDeploy.ClusterCache.Settled

namespace GitOpsDeploy.ClusterCache

open List
open Latest (put mem_put)
open Resource (resourceKey)

/-! ## Events -/

inductive EventType where
  | added
  | modified
  | deleted
  deriving DecidableEq, Repr

/-- a watch event for the object with the key -/
def processEvent (matchString : String → String → Bool) (o : RangeOrder) (c : Cache) (key : ResourceKey)
    (event : EventType) (un : Object) : Cache :=
  if event = .deleted then
    if (c.resources.lookup key).isSome then onNodeRemoved o c key else c
  else setNode o c (newResource matchString un)

/-- watch events are the operations of the cache: additions and changes set a node, deletions remove it -/
theorem processEvent_eq_step (matchString : String → String → Bool) (o : RangeOrder) (c : Cache) (key : ResourceKey)
    (event : EventType) (un : Object) : processEvent matchString o c key event un =
      step matchString c (if event = .deleted then .onNodeRemoved key o else .setNode un o) := by
  cases event with
  | deleted =>
    cases hk : c.resources.lookup key <;> simp [processEvent, step, onNodeRemoved, hk]
  | _ => rfl

/-! ## Objects that exist -/

def Object.resourceKey (un : Object) : ResourceKey := ⟨(parseGroup un.apiVersion).getD "", un.kind, un.ns, un.name⟩

/-- the objects that exist after an operation -/
def survive (objects : List Object) : Op → List Object
  | .setNode un _ => put Object.resourceKey un objects
  | .onNodeRemoved key _ => Latest.drop Object.resourceKey key objects
  | .replaceResourceCache group kind uns ns _ =>
    (uns.foldl (fun objects un => put Object.resourceKey un objects) objects).filter fun un =>
      !staleKey group kind ns (uns.map Object.resourceKey) un.resourceKey

def survivors (ops : List Op) : List Object := ops.foldl survive []

section Resources

variable (matchString : String → String → Bool)

theorem resourceKey_newResource (un : Object) : (newResource matchString un).resourceKey = un.resourceKey := rfl

theorem map_putAll (uns objects : List Object) :
    (uns.foldl (fun objects un => put Object.resourceKey un objects) objects).map (newResource matchString) =
      putAll (objects.map (newResource matchString)) (uns.map (newResource matchString)) := by
  induction uns generalizing objects with
  | nil => rfl
  | cons un uns ih =>
    rw [foldl_cons, ih, Latest.map_put (resourceKey_newResource matchString)]
    rfl

/-- what the cache is given of the objects that exist -/
def resourcesOf (objects : List Object) : List Resource := objects.map (newResource matchString)

/-- the operation leaves no trace of an earlier StatefulSet on a claim -/
def Op.Fits (objects : List Object) : Op → Prop
  | .setNode un _ => ClusterCache.Fits (resourcesOf matchString objects) (newResource matchString un)
  | .onNodeRemoved key _ => ∀ old ∈ resourcesOf matchString objects, old.resourceKey = key →
      Unlisted (resourcesOf matchString objects) old
  | .replaceResourceCache group kind uns ns _ =>
    FitsAll (resourcesOf matchString objects) (resourcesOf matchString uns) ∧
      ∀ old ∈ putAll (resourcesOf matchString objects) (resourcesOf matchString uns),
        staleKey group kind ns ((resourcesOf matchString uns).map resourceKey) old.resourceKey = true →
          Unlisted (putAll (resourcesOf matchString objects) (resourcesOf matchString uns)) old

/-- every operation of the run does -/
def RunFits : List Object → List Op → Prop
  | _, [] => True
  | objects, op :: ops => op.Fits matchString objects ∧ RunFits (survive objects op) ops

theorem newResource_apart (un : Object) : Apart (newResource matchString un) :=
  fun hc => (newResource_claim matchString un hc).2

variable {ms : String → String → Bool} {c : Cache} {objects : List Object}

theorem step_settled (h : Settled c (resourcesOf ms objects)) (op : Op) (hop : op.Fits ms objects) :
    Settled (step ms c op) (resourcesOf ms (survive objects op)) := by
  have ha : ∀ uns, ∀ n ∈ resourcesOf ms uns, Apart n := by
    intro uns n hn
    obtain ⟨un, _, rfl⟩ := mem_map.1 hn
    exact newResource_apart ms un
  cases op with
  | setNode un o =>
    rw [survive, resourcesOf, Latest.map_put (resourceKey_newResource ms)]
    exact setNode_settled h (h.sound.put (newResource_apart ms un) hop) o hop.forgets
  | onNodeRemoved key o =>
    rw [survive, resourcesOf, Latest.map_drop (resourceKey_newResource ms)]
    exact onNodeRemoved_settled h o hop
  | replaceResourceCache group kind uns ns o =>
    have hm : resourcesOf ms (survive objects (.replaceResourceCache group kind uns ns o)) =
        relisted (resourcesOf ms objects) group kind (resourcesOf ms uns) ns := by
      have hk : (resourcesOf ms uns).map resourceKey = uns.map Object.resourceKey :=
        map_map
      rw [relisted, hk, resourcesOf, resourcesOf, resourcesOf, ← map_putAll]
      exact Latest.map_filter_key (resourceKey_newResource ms)
        (fun k => !staleKey group kind ns (uns.map Object.resourceKey) k) _
    rw [hm]
    exact replaceResourceCache_settled h o (ha uns) hop.1 hop.2

theorem run_settled (ops : List Op) (h : Settled c (resourcesOf ms objects)) (ho : RunFits ms objects ops) :
    Settled (run ms c ops) (resourcesOf ms (ops.foldl survive objects)) := by
  induction ops generalizing c objects with
  | nil => exact h
  | cons op ops ih => exact ih (step_settled h op ho.1) ho.2

end Resources

/-! ## Caches with the same contents -/

/-- two caches hold the same: resources, with owner references as sets, and both indexes -/
structure Cache.Same (c d : Cache) : Prop where
  resources : ∀ k, Option.Rel SameResource ((c.resources.lookup k).map c.heap) ((d.resources.lookup k).map d.heap)
  nsIndex : ∀ ns, Option.Rel (fun m m' : ResourceMap =>
    ∀ k, Option.Rel SameResource ((m.lookup k).map c.heap) ((m'.lookup k).map d.heap))
      (c.nsIndex.lookup ns) (d.nsIndex.lookup ns)
  parentUIDToChildren : c.parentUIDToChildren.sets = d.parentUIDToChildren.sets

section Same

variable {c d : Cache} {L : List Resource}

theorem Settled.same_resources (hc : Settled c L) (hd : Settled d L) (k : ResourceKey) :
    Option.Rel SameResource ((c.resources.lookup k).map c.heap) ((d.resources.lookup k).map d.heap) := by
  by_cases hk : ∃ n ∈ L, n.resourceKey = k
  · obtain ⟨n, hn, rfl⟩ := hk
    obtain ⟨r, hr, hs⟩ := hc.shown n hn
    obtain ⟨r', hr', hs'⟩ := hd.shown n hn
    rw [hr, hr']
    exact .some (hs.trans hs'.symm)
  · have hno : ∀ {c : Cache}, Settled c L → c.resources.lookup k = none := by
      intro c hc
      by_contra hne
      obtain ⟨r, hr⟩ := Option.ne_none_iff_exists'.1 hne
      exact hk (hc.cached k r hr)
    rw [hno hc, hno hd]
    exact .none

/-- the part of the cache in a namespace -/
theorem Coherent.lookup_of_ns {extra : String → ResourceKey → Prop} (h : Coherent c extra) {ns : String}
    {m : ResourceMap} (hm : c.nsIndex.lookup ns = some m) (k : ResourceKey) :
    m.lookup k = if k.ns = ns then c.resources.lookup k else none := by
  refine Option.ext fun r => ?_
  have hl := h.lookup_ns (n := ns) (k := k) (r := r)
  rw [hm, Option.getD_some] at hl
  refine hl.trans ?_
  split_ifs with hns
  · exact and_iff_left hns
  · simp [hns]

theorem Coherent.nsIndex_isSome {extra : String → ResourceKey → Prop} (h : Coherent c extra) (ns : String) :
    (c.nsIndex.lookup ns).isSome ↔ ∃ k, k.ns = ns ∧ (c.resources.lookup k).isSome := by
  constructor
  · intro hns
    obtain ⟨m, hm⟩ := Option.isSome_iff_exists.1 hns
    obtain ⟨e, he⟩ := exists_mem_of_ne_nil _ (h.nsNonempty ns m hm)
    have hr : m.lookup e.1 = some e.2 := AList.mem_lookup_iff.2 he
    have hen := h.inNs ns m e.1 e.2 hm hr
    exact ⟨e.1, hen, by rw [(h.split e.1 e.2).2 ⟨m, hen ▸ hm, hr⟩]; rfl⟩
  · intro ⟨k, hk, hr⟩
    obtain ⟨r, hr⟩ := Option.isSome_iff_exists.1 hr
    obtain ⟨m, hm, _⟩ := (h.split k r).1 hr
    rw [← hk, hm]
    rfl

/-- **Settled for the same objects, the same cache.** -/
theorem Settled.same (hc : Settled c L) (hd : Settled d L) : c.Same d := by
  have hr := hc.same_resources hd
  have hs : ∀ k, (c.resources.lookup k).isSome ↔ (d.resources.lookup k).isSome := by
    intro k
    have hk := hr k
    cases hck : c.resources.lookup k <;> cases hdk : d.resources.lookup k <;> rw [hck, hdk] at hk <;>
      first | rfl | cases hk
  refine ⟨hr, fun ns => ?_, MultiIndex.sets_eq_of_has fun u k => ?_⟩
  · have hns : (c.nsIndex.lookup ns).isSome ↔ (d.nsIndex.lookup ns).isSome := by
      rw [hc.coherent.nsIndex_isSome, hd.coherent.nsIndex_isSome]
      exact exists_congr fun k => and_congr_right fun _ => hs k
    cases hcm : c.nsIndex.lookup ns with
    | none =>
      rw [hcm] at hns
      rw [Option.not_isSome_iff_eq_none.1 fun h => nomatch hns.2 h]
      exact .none
    | some m =>
      rw [hcm] at hns
      obtain ⟨m', hdm⟩ := Option.isSome_iff_exists.1 (hns.1 rfl)
      rw [hdm]
      refine .some fun k => ?_
      rw [hc.coherent.lookup_of_ns hcm, hd.coherent.lookup_of_ns hdm]
      split_ifs
      · exact hr k
      · exact .none
  · by_cases hu : u = ""
    · subst hu
      exact iff_of_false (hc.named k) (hd.named k)
    rw [hc.coherent.children u k hu, hd.coherent.children u k hu]
    simp only [noExtra, or_false, OwnedBy]
    have hk := hr k
    cases hck : c.resources.lookup k <;> cases hdk : d.resources.lookup k <;> rw [hck, hdk] at hk
    · simp
    · cases hk
    · cases hk
    · obtain ⟨hsa⟩ := hk
      have hui := (hsa.sameAt u).mem_ownerUIDs
      simpa using hui

theorem Cache.Same.shows (h : c.Same d) (hd : Settled d L) {n : Resource} (hn : n ∈ L) {r : ℕ}
    (hr : c.resources.lookup n.resourceKey = some r) : SameResource (c.heap r) (settle L n) := by
  obtain ⟨r', hr', hs⟩ := hd.shown n hn
  have hre := h.resources n.resourceKey
  rw [hr, hr'] at hre
  obtain ⟨hre⟩ := hre
  exact hre.trans hs

theorem setNode_same_iff {n : Resource} (hc : Settled c L) (hd : Settled d (put resourceKey n L))
    (o : RangeOrder) : (setNode o c n).Same d ↔ ∀ old ∈ L, old.resourceKey = n.resourceKey →
      ∀ p ∈ L, p.resourceKey ≠ n.resourceKey → mightHaveInferredOwner p = true → Forgets old n p := by
  constructor
  · intro hs old ho hk p hp hpk hcl
    obtain ⟨r, hr, _⟩ := hc.shown p hp
    have hfr := (setNode_spec hc.coherent o n (hd.sound.distinct n (mem_put.2 (.inl rfl)))).2
    refine (setNode_shows_old hc hd.sound o hp hpk hr hcl).1 ?_ old ho hk
    refine hs.shows hd (mem_put.2 (.inr ⟨hp, hpk⟩)) ?_
    rw [hfr.resources, storeNode_lookup_ne c n hpk, hr]
  · exact fun hf => (setNode_settled hc hd.sound o hf).same hd

theorem onNodeRemoved_same_iff {key : ResourceKey} (hc : Settled c L)
    (hd : Settled d (Latest.drop resourceKey key L)) (o : RangeOrder) :
    (onNodeRemoved o c key).Same d ↔ ∀ old ∈ L, old.resourceKey = key → Unlisted L old := by
  constructor
  · intro hsa old ho hk p hp hpk hcl
    subst hk
    obtain ⟨r, hr, _⟩ := hc.shown p hp
    obtain ⟨ref, hre, hs⟩ := hc.shown old ho
    have hf := (onNodeRemoved_spec hc.coherent o hre).2
    refine (onNodeRemoved_shows hc o ho hre (hs.object.trans (settle_frame L old)) hp hpk hr hcl).1 ?_
    refine hsa.shows hd (Latest.mem_drop.2 ⟨hp, hpk⟩) ?_
    rw [hf.resources]
    exact dropNode_lookup.2 ⟨hpk, hr⟩
  · exact fun hu => (onNodeRemoved_settled hc o hu).same hd

end Same

/-! ## Adding objects to an empty cache -/

/-- the operations that add objects, each with the order of its range -/
def additions (adds : List (Object × RangeOrder)) : List Op := adds.map fun a => .setNode a.1 a.2

section Additions

variable {ms : String → String → Bool}

/-- objects of a sound list, added one by one: every addition fits, and all of them exist in the end -/
theorem additions_fit {T : List Resource} (hT : Sound T) {adds : List (Object × RangeOrder)} {objects : List Object}
    (ho : ∀ un ∈ objects, newResource ms un ∈ T) (ha : ∀ a ∈ adds, newResource ms a.1 ∈ T)
    (hk : ((objects ++ adds.map Prod.fst).map Object.resourceKey).Nodup) : RunFits ms objects (additions adds) ∧
      ∀ un, un ∈ (additions adds).foldl survive objects ↔ un ∈ objects ∨ un ∈ adds.map Prod.fst := by
  induction adds generalizing objects with
  | nil => exact ⟨trivial, fun un => by simp [additions]⟩
  | cons a adds ih =>
    rw [map_cons, map_append, map_cons, nodup_middle] at hk
    have hne : a.1.resourceKey ∉ objects.map Object.resourceKey := fun hm =>
      (nodup_cons.1 hk).1 (mem_append_left _ hm)
    have hst : survive objects (.setNode a.1 a.2) = a.1 :: objects := Latest.put_of_new hne
    have ho' : ∀ un ∈ a.1 :: objects, newResource ms un ∈ T := by
      intro un hun
      rcases mem_cons.1 hun with rfl | hun
      · exact ha a mem_cons_self
      · exact ho un hun
    obtain ⟨hf, hm⟩ := ih ho' (fun b hb => ha b (mem_cons_of_mem _ hb)) (by
      rw [cons_append, map_cons, map_append]
      exact hk)
    have hpu : ∀ n ∈ put resourceKey (newResource ms a.1) (resourcesOf ms objects),
        n ∈ T := by
      intro n hn
      rcases mem_put.1 hn with rfl | ⟨hn, _⟩
      · exact ha a mem_cons_self
      · obtain ⟨un, hun, rfl⟩ := mem_map.1 hn
        exact ho un hun
    refine ⟨⟨⟨hT.distinct _ (ha a mem_cons_self), fun p hp hc s hs s' hs' =>
      hT.oneJudge p (hpu p hp) hc s (hpu s hs) s' (hpu s' hs'), fun old hol hke => ?_⟩, ?_⟩, fun un => ?_⟩
    · obtain ⟨un, hun, rfl⟩ := mem_map.1 hol
      have hke' : un.resourceKey = a.1.resourceKey := hke
      exact absurd (hke' ▸ mem_map_of_mem hun) hne
    · rw [hst]
      exact hf
    · rw [additions, map_cons, foldl_cons, hst]
      refine (hm un).trans ?_
      rw [map_cons, mem_cons, mem_cons]
      tauto

/-- **Additions.** Objects that exist side by side, added in any order to an empty cache, give their settled cache. -/
theorem additions_settled {objects : List Object} (hs : Sound (resourcesOf ms objects))
    {adds : List (Object × RangeOrder)} (had : (adds.map Prod.fst).Perm objects) :
    Settled (run ms .empty (additions adds)) (resourcesOf ms objects) := by
  have ho : (objects.map Object.resourceKey).Nodup := by
    have hk := hs.keys
    rwa [resourcesOf, map_map] at hk
  have hk : ((adds.map Prod.fst).map Object.resourceKey).Nodup := (had.map _).nodup_iff.2 ho
  obtain ⟨hf, hm⟩ := additions_fit hs (fun un hun => absurd hun not_mem_nil)
    (fun a ha => mem_map_of_mem (had.mem_iff.1 (mem_map_of_mem ha))) hk
  refine (run_settled (additions adds) empty_settled hf).congr (fun n => ?_) hs.keys
  simp only [resourcesOf, mem_map]
  refine exists_congr fun un => and_congr_left fun _ => ?_
  rw [hm un, ← had.mem_iff]
  simp

end Additions

/-! ## Confluence -/

section Confluence

variable (matchString : String → String → Bool)

/-- **The cache depends only on the objects that exist.** After a run in which every operation fits, the cache is the one
made by adding the latest version of each surviving object, in any order, to an empty cache. -/
theorem cache_confluent (ops : List Op) (hops : RunFits matchString [] ops) (adds : List (Object × RangeOrder))
    (hadds : (adds.map Prod.fst).Perm (survivors ops)) :
    (run matchString .empty ops).Same (run matchString .empty (additions adds)) := by
  have hr : Settled (run matchString .empty ops) (resourcesOf matchString (survivors ops)) :=
    run_settled ops empty_settled hops
  exact hr.same (additions_settled hr.sound hadds)

variable {ms : String → String → Bool}

/-- **A new version** of an object keeps the cache confluent exactly when no trace of the old one is left on a claim. -/
theorem setNode_confluent_iff {ops : List Op} (ho : RunFits ms [] ops) (un : Object) (o : RangeOrder)
    (hs : Sound (resourcesOf ms (survivors (ops ++ [.setNode un o])))) {adds : List (Object × RangeOrder)}
    (had : (adds.map Prod.fst).Perm (survivors (ops ++ [.setNode un o]))) :
    (run ms .empty (ops ++ [.setNode un o])).Same (run ms .empty (additions adds)) ↔
      ∀ old ∈ resourcesOf ms (survivors ops), old.resourceKey = (newResource ms un).resourceKey →
        ∀ p ∈ resourcesOf ms (survivors ops), p.resourceKey ≠ (newResource ms un).resourceKey →
          mightHaveInferredOwner p = true → Forgets old (newResource ms un) p := by
  have hl : resourcesOf ms (survivors (ops ++ [.setNode un o])) =
      put resourceKey (newResource ms un) (resourcesOf ms (survivors ops)) := by
    rw [survivors, foldl_append]
    exact Latest.map_put (resourceKey_newResource ms) un _
  have ha := additions_settled hs had
  rw [hl] at ha
  rw [run, foldl_append]
  exact setNode_same_iff (run_settled ops empty_settled ho) ha o

/-- **A removal** keeps the cache confluent exactly when no claim lists the removed StatefulSet among its owners. -/
theorem onNodeRemoved_confluent_iff {ops : List Op} (ho : RunFits ms [] ops) (key : ResourceKey) (o : RangeOrder)
    {adds : List (Object × RangeOrder)} (had : (adds.map Prod.fst).Perm (survivors (ops ++ [.onNodeRemoved key o]))) :
    (run ms .empty (ops ++ [.onNodeRemoved key o])).Same (run ms .empty (additions adds)) ↔
      ∀ old ∈ resourcesOf ms (survivors ops), old.resourceKey = key →
        Unlisted (resourcesOf ms (survivors ops)) old := by
  have hr : Settled (run ms .empty ops) (resourcesOf ms (survivors ops)) :=
    run_settled ops empty_settled ho
  have hl : resourcesOf ms (survivors (ops ++ [.onNodeRemoved key o])) =
      Latest.drop resourceKey key (resourcesOf ms (survivors ops)) := by
    rw [survivors, foldl_append]
    exact Latest.map_drop (resourceKey_newResource ms) key _
  have hs : Sound (resourcesOf ms (survivors (ops ++ [.onNodeRemoved key o]))) := by
    rw [hl]
    exact hr.sound.mono (Latest.nodup_filter hr.sound.keys _) fun n hn => (Latest.mem_drop.1 hn).1
  have ha := additions_settled hs had
  rw [hl] at ha
  rw [run, foldl_append]
  exact onNodeRemoved_same_iff hr ha o

end Confluence

/-! ## Traces that stay -/

/-- the StatefulSet, deleted and created again -/
def recreated : Object := { statefulSet with uid := "sts-2", resourceVersion := "2" }

/-- the claim, with its StatefulSet as an owner -/
def ownedClaim : Object := { volumeClaim with ownerReferences := [⟨"sts", "db", "StatefulSet", "apps/v1"⟩] }

/-- a claim, its StatefulSet, and the StatefulSet created again -/
def recreation : List Op :=
  [.setNode volumeClaim .listed, .setNode statefulSet .listed, .setNode recreated .listed]

/-- a claim that lists its StatefulSet, and the removal of the StatefulSet -/
def removal : List Op :=
  [.setNode ownedClaim .listed, .setNode statefulSet .listed, .onNodeRemoved statefulSet.resourceKey .listed]

/-- **Traces of an earlier StatefulSet.** A claim keeps the UID of a StatefulSet that was created again under its name, and
loses an owner it lists itself when the owner is removed. -/
theorem cache_not_confluent :
    (survivors recreation = [recreated, volumeClaim] ∧ ¬(run (fun _ _ => true) .empty recreation).Same
        (run (fun _ _ => true) .empty (additions [(recreated, .listed), (volumeClaim, .listed)]))) ∧
      survivors removal = [ownedClaim] ∧ ¬(run (fun _ _ => true) .empty removal).Same
        (run (fun _ _ => true) .empty (additions [(ownedClaim, .listed)])) := by
  refine ⟨⟨by decide +kernel, fun h => ?_⟩, by decide +kernel, fun h => ?_⟩
  · exact absurd (congrFun h.parentUIDToChildren "sts") (by decide +kernel)
  · exact absurd (congrFun h.parentUIDToChildren "sts") (by decide +kernel)

/-- the StatefulSet, changed -/
def changed : Object := { statefulSet with resourceVersion := "2" }

def change : List Op := [.setNode volumeClaim .listed, .setNode statefulSet .listed, .setNode changed .listed]

/-- with at most one StatefulSet there is at most one judge -/
theorem oneJudge_put {L : List Resource} {n : Resource}
    (h : ∀ s ∈ L, s.resourceKey ≠ n.resourceKey → s.isInferredParentOf = none) (p : Resource) :
    OneJudge (put resourceKey n L) p := by
  have hn : ∀ s ∈ put resourceKey n L, s.judges p ≠ none → s = n := by
    intro s hs hj
    rcases mem_put.1 hs with rfl | ⟨hs, hk⟩
    · rfl
    · exact absurd (by simp [Resource.judges, h s hs hk]) hj
  exact fun s hs s' hs' hj hj' _ => (hn s hs hj).trans (hn s' hs' hj').symm

theorem change_fits : RunFits (fun _ _ => true) [] change := by
  have hke : volumeClaim.resourceKey ≠ statefulSet.resourceKey := by decide +kernel
  refine ⟨⟨fun _ => nodup_nil, fun p _ _ => oneJudge_put ?_ p, ?_⟩,
    ⟨fun _ => nodup_nil, fun p _ _ => oneJudge_put ?_ p, ?_⟩,
    ⟨fun _ => nodup_nil, fun p _ _ => oneJudge_put ?_ p, ?_⟩, trivial⟩
  · exact fun s hs => absurd hs not_mem_nil
  · exact fun old ho => absurd ho not_mem_nil
  · intro s hs _
    rw [mem_singleton.1 hs]
    rfl
  · intro old ho hk
    rw [mem_singleton.1 ho] at hk
    exact absurd hk hke
  · intro s hs hk
    rcases mem_cons.1 hs with rfl | hs
    · exact absurd rfl hk
    · rw [mem_singleton.1 hs]
      rfl
  · intro old ho hk p hp hpk _
    rcases mem_cons.1 ho with rfl | ho
    · rcases mem_cons.1 hp with rfl | hp
      · exact absurd rfl hpk
      · rw [mem_singleton.1 hp]
        exact fun u => heed_before (p := newResource (fun _ _ => true) volumeClaim) nodup_nil fun _ => ⟨rfl, rfl⟩
    · rw [mem_singleton.1 ho] at hk
      exact absurd hk hke

/-- a claim, its StatefulSet and a change of the StatefulSet give what they give the other way round -/
theorem cache_confluent_changed : (run (fun _ _ => true) .empty change).Same
    (run (fun _ _ => true) .empty (additions [(changed, .listed), (volumeClaim, .listed)])) :=
  cache_confluent (fun _ _ => true) change change_fits _ (by decide +kernel)

/-- so does the change alone -/
theorem setNode_confluent_changed : (run (fun _ _ => true) .empty change).Same
    (run (fun _ _ => true) .empty (additions [(changed, .listed), (volumeClaim, .listed)])) :=
  (@setNode_confluent_iff _ (change.take 2) ⟨change_fits.1, change_fits.2.1, trivial⟩ changed .listed
    (run_settled change empty_settled change_fits).sound _ (by decide +kernel)).2 change_fits.2.2.1.forgets

/-- the claim does not list the StatefulSet that is removed -/
theorem onNodeRemoved_confluent_unlisted :
    (run (fun _ _ => true) .empty (change.take 2 ++ [.onNodeRemoved statefulSet.resourceKey .listed])).Same
      (run (fun _ _ => true) .empty (additions [(volumeClaim, .listed)])) := by
  refine (@onNodeRemoved_confluent_iff _ (change.take 2) ⟨change_fits.1, change_fits.2.1, trivial⟩ _ _ _
    (by decide +kernel)).2 fun old ho _ p hp _ _ _ => ?_
  revert old p
  decide +kernel

end GitOpsDeploy.ClusterCache

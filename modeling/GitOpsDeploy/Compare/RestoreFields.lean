/-
Repairing the target that ignored live fields were copied into (`restoreNonIgnoredFields`, `controller/sync.go`).

Nested maps are trees: at every key there is nothing, a value that is no map, or a map. The patched target, the original
one, its normalization and the normalized live object are walked in parallel. What the normalizer left alone is put back,
and what only the live object has is removed, unless the normalizer stripped it.
- `Repaired`: the three promises about the result. `restoreAt_again`: a second repair changes nothing.
- `Misjudged`: the four shapes of the inputs at a place where the walk stops, for which a decision about the whole value is
  wrong for a part of it.
- `repair_exact_iff`: the promises are kept iff none of the four occurs where the walk gets to.
- Witness: `dropped_parent_stays_dropped`, a map the patch has lost.
-/
import Mathlib.Tactic

namespace GitOpsDeploy.Restore

inductive Value (K L : Type) where
  | absent
  | leaf (v : L)
  | map (fields : K → Value K L)

namespace Value

variable {K L : Type}

/-- the fields of a map, none if it is no map -/
def fields : Value K L → K → Value K L
  | .map f => f
  | _ => fun _ => .absent

/-- what is at the end of a path -/
def get (t : Value K L) : List K → Value K L
  | [] => t
  | k :: path => (t.fields k).get path

def IsMap (t : Value K L) : Prop := ∃ f, t = .map f

@[simp] theorem get_absent (path : List K) : (absent : Value K L).get path = .absent := by
  induction path with
  | nil => rfl
  | cons k path ih => exact ih

theorem get_of_not_map {t : Value K L} (h : ¬ t.IsMap) {path : List K} (hp : path ≠ []) : t.get path = .absent := by
  cases path with
  | nil => exact absurd rfl hp
  | cons k path =>
    cases t with
    | map f => exact absurd ⟨f, rfl⟩ h
    | _ => exact get_absent path

theorem not_isMap_leaf (v : L) : ¬ (leaf v : Value K L).IsMap := by
  rintro ⟨f, hf⟩
  cases hf

/-- so a value in what is no map is at its root -/
theorem eq_nil_of_get {t : Value K L} (h : ¬ t.IsMap) {path : List K} {v : L} (hv : t.get path = .leaf v) : path = [] := by
  by_contra hp
  rw [get_of_not_map h hp] at hv
  cases hv

/-- `reflect.DeepEqual`, for finitely many keys -/
def decEq [Fintype K] [DecidableEq L] : (t u : Value K L) → Decidable (t = u)
  | .absent, .absent => isTrue rfl
  | .leaf v, .leaf w => decidable_of_iff (v = w) (by simp)
  | .map f, .map g =>
    have := fun k => decEq (f k) (g k)
    decidable_of_iff (∀ k, f k = g k) (by simp [funext_iff])
  | .absent, .leaf _ | .absent, .map _ | .leaf _, .absent | .leaf _, .map _ | .map _, .absent | .map _, .leaf _ =>
    isFalse (by simp)

instance [Fintype K] [DecidableEq L] : DecidableEq (Value K L) := decEq

end Value

open Value

variable {K L : Type} {p n l o : Value K L} {path : List K}

/-! ## What should be repaired -/

/-- the path ends in a value that is no map -/
def Leaf (t : Value K L) (path : List K) : Prop := ∃ v, t.get path = .leaf v

/-- the three promises about the result r -/
structure Repaired (p n l o r : Value K L) : Prop where
  restored : ∀ path v, o.get path = .leaf v → n.get path = .leaf v → r.get path = .leaf v
  removed : ∀ path, Leaf r path → o.get path = .absent → l.get path = .absent
  kept : ∀ path v, p.get path = .leaf v → o.get path = .absent → l.get path = .absent → r.get path = .leaf v

/-- the decision about a whole value is wrong for what is at a path in it -/
inductive Misjudged (p n l o : Value K L) (path : List K) : Prop where
  /-- the original has nothing here and the live object has: all is removed, with a value that was stripped from the
  latter -/
  | removed (ho : o = .absent) (hl : l ≠ .absent) (hp : Leaf p path) (hs : l.get path = .absent)
  /-- a value that the normalizer left alone replaces a map of the patch, with a value in it that only the patch has -/
  | replaced (v : L) (ho : o = .leaf v) (hn : n = o) (hne : path ≠ []) (hp : Leaf p path) (hs : l.get path = .absent)
  /-- what the normalizer changed, and is no map there, is left as patched, with a value that only the live object has -/
  | leftAlone (hm : o ≠ .absent ∧ ¬ (o.IsMap ∧ n.IsMap)) (hn : n ≠ o) (hp : Leaf p path) (ho : o.get path = .absent)
    (hl : l.get path ≠ .absent)
  /-- a map that the patch has lost and that the normalizer changed is not put back, with a value in it that it left alone -/
  | lost (hm : o.IsMap ∧ ¬ p.IsMap) (hn : n ≠ o) (v : L) (ho : o.get path = .leaf v) (hv : n.get path = .leaf v)

/-- the walk gets there, along maps of the patch, the normalization and the original -/
def Reached (p n o : Value K L) : List K → Prop
  | [] => True
  | k :: path => (p.IsMap ∧ n.IsMap ∧ o.IsMap) ∧ Reached (p.fields k) (n.fields k) (o.fields k) path

/-- no decision about a whole value is wrong for a part of it -/
def Exact (p n l o : Value K L) : Prop :=
  ∀ place, Reached p n o place → ∀ path, ¬ Misjudged (p.get place) (n.get place) (l.get place) (o.get place) path

/-- where the walk stops, the decision is about this place -/
theorem exact_stop (h : ¬ (p.IsMap ∧ n.IsMap ∧ o.IsMap)) : Exact p n l o ↔ ∀ path, ¬ Misjudged p n l o path := by
  refine ⟨fun he => he [] trivial, fun hm place hr => ?_⟩
  cases place with
  | nil => exact hm
  | cons k place => exact absurd hr.1 h

theorem exact_maps {pm nm om : K → Value K L} : Exact (.map pm) (.map nm) l (.map om) ↔
    ∀ k, Exact (pm k) (nm k) (l.fields k) (om k) := by
  refine ⟨fun he k place hr => he (k :: place) ⟨⟨⟨_, rfl⟩, ⟨_, rfl⟩, ⟨_, rfl⟩⟩, hr⟩,
    fun he place hr => ?_⟩
  cases place with
  | nil =>
    intro path hm
    cases hm with
    | removed ho => cases ho
    | replaced v ho => cases ho
    | leftAlone hm => exact hm.2 ⟨⟨_, rfl⟩, ⟨_, rfl⟩⟩
    | lost hm => exact hm.2 ⟨_, rfl⟩
  | cons k place => exact he k place hr.2

/-- the promises hold for a map if they hold at every key -/
theorem repaired_maps {pm nm om rm : K → Value K L} : Repaired (.map pm) (.map nm) l (.map om) (.map rm) ↔
    ∀ k, Repaired (pm k) (nm k) (l.fields k) (om k) (rm k) := by
  constructor
  · exact fun h k => ⟨fun path => h.restored (k :: path), fun path => h.removed (k :: path),
      fun path => h.kept (k :: path)⟩
  · intro h
    refine ⟨?_, ?_, ?_⟩
    · rintro (_ | ⟨k, path⟩) v ho hn
      · cases ho
      · exact (h k).restored path v ho hn
    · rintro (_ | ⟨k, path⟩) hr ho
      · cases ho
      · exact (h k).removed path hr ho
    · rintro (_ | ⟨k, path⟩) v hp ho hl
      · cases ho
      · exact (h k).kept path v hp ho hl

/-! ## The walk -/

variable [DecidableEq (Value K L)]

/-- the walk at one key -/
def restoreAt (patchedVal normalizedVal normalizedLiveVal : Value K L) : Value K L → Value K L
  -- pass 2: only in patched
  | .absent => if normalizedLiveVal = .absent then patchedVal else .absent
  | .leaf v => if normalizedVal = .leaf v then .leaf v else patchedVal
  | .map originalMap =>
    match patchedVal, normalizedVal with
    | .map patchedMap, .map normalizedMap =>
      .map fun key => restoreAt (patchedMap key) (normalizedMap key) (normalizedLiveVal.fields key) (originalMap key)
    | _, _ => if normalizedVal = .map originalMap then .map originalMap else patchedVal

def restoreNonIgnoredFields (patched original normalizedTarget normalizedLive : K → Value K L) : K → Value K L :=
  fun key => restoreAt (patched key) (normalizedTarget key) (normalizedLive key) (original key)

/-! ## Walking again -/

theorem restoreAt_self (l o : Value K L) : restoreAt o o l o = o := by
  induction o generalizing l with
  | absent => simp [restoreAt]
  | leaf v => simp [restoreAt]
  | map f ih => exact congrArg Value.map (funext fun k => ih k _)

theorem restoreAt_stop {om : K → Value K L} (h : ¬ (p.IsMap ∧ n.IsMap)) :
    restoreAt p n l (.map om) = if n = .map om then .map om else p := by
  unfold restoreAt
  split
  · next pm nm => exact absurd ⟨⟨pm, rfl⟩, nm, rfl⟩ h
  · rfl

theorem restoreAt_again (p n l o : Value K L) : restoreAt (restoreAt p n l o) n l o = restoreAt p n l o := by
  induction o generalizing p n l with
  | absent =>
    simp only [restoreAt]
    split_ifs <;> rfl
  | leaf v =>
    simp only [restoreAt]
    split_ifs <;> rfl
  | map om ih =>
    by_cases h : p.IsMap ∧ n.IsMap
    · obtain ⟨⟨pm, rfl⟩, nm, rfl⟩ := h
      exact congrArg Value.map (funext fun k => ih k _ _ _)
    · rw [restoreAt_stop h]
      split_ifs with hn
      · rw [hn, restoreAt_self]
      · rw [restoreAt_stop h, if_neg hn]

/-! ## What is repaired -/

theorem repaired_absent : Repaired p n l .absent (restoreAt p n l .absent) ↔
    ∀ path, ¬ Misjudged p n l .absent path := by
  unfold restoreAt
  split_ifs with h
  · refine ⟨fun _ path hm => ?_, fun _ => ⟨fun _ _ ho => by simp at ho, fun _ _ _ => by simp [h],
      fun _ _ hp _ _ => hp⟩⟩
    cases hm with
    | removed _ hl => exact hl h
    | replaced v ho => cases ho
    | leftAlone hm => exact hm.1 rfl
    | lost _ _ v ho => simp at ho
  · refine ⟨fun hr path hm => ?_, fun he => ⟨fun _ _ ho => by simp at ho, fun _ ⟨v, hv⟩ => by simp at hv, ?_⟩⟩
    · cases hm with
      | removed _ _ hp hs =>
        obtain ⟨v, hv⟩ := hp
        simpa using hr.kept path v hv (get_absent _) hs
      | replaced v ho => cases ho
      | leftAlone hm => exact hm.1 rfl
      | lost _ _ v ho => simp at ho
    · exact fun path v hp _ hl => absurd (.removed rfl h ⟨v, hp⟩ hl) (he path)

theorem repaired_leaf (v : L) :
    Repaired p n l (.leaf v) (restoreAt p n l (.leaf v)) ↔ ∀ path, ¬ Misjudged p n l (.leaf v) path := by
  have hm := not_isMap_leaf (K := K) v
  have hne : ∀ {path}, (Value.leaf v : Value K L).get path = .absent → path ≠ [] := by rintro _ ho rfl; cases ho
  unfold restoreAt
  split_ifs with h
  · refine ⟨fun hr path hmi => ?_, fun he => ⟨fun _ _ ho _ => ho, fun path ⟨w, hw⟩ ho => ?_, ?_⟩⟩
    · cases hmi with
      | removed ho => cases ho
      | replaced _ _ _ hp hl hs =>
        obtain ⟨w, hw⟩ := hl
        exact hp (eq_nil_of_get hm (hr.kept _ w hw (get_of_not_map hm hp) hs))
      | leftAlone _ hn => exact hn h
      | lost hl => exact hm hl.1
    · exact absurd (eq_nil_of_get hm hw) (hne ho)
    · exact fun path w hw ho hl => absurd (.replaced v rfl h (hne ho) ⟨w, hw⟩ hl) (he path)
  · refine ⟨fun hr path hmi => ?_, fun he => ⟨fun path w ho hn => ?_, fun path hv ho => ?_, fun _ _ hw _ _ => hw⟩⟩
    · cases hmi with
      | removed ho => cases ho
      | replaced _ _ hn => exact h hn
      | leftAlone _ _ hp ho hl => exact hl (hr.removed _ hp ho)
      | lost hl => exact hm hl.1
    · obtain rfl := eq_nil_of_get hm ho
      exact absurd (hn.trans ho.symm) h
    · by_contra hl
      exact he path (.leftAlone ⟨nofun, fun hi => hm hi.1⟩ h hv ho hl)

/-- where the original has a map, and the patch or the normalization has none -/
theorem repaired_stop {om : K → Value K L} (h : ¬ (p.IsMap ∧ n.IsMap)) :
    Repaired p n l (.map om) (restoreAt p n l (.map om)) ↔ ∀ path, ¬ Misjudged p n l (.map om) path := by
  rw [restoreAt_stop h]
  split_ifs with hn
  · -- put back as a whole: a value of the patch, which is no map, is at its root
    have hp : ¬ p.IsMap := fun hp => h ⟨hp, om, hn⟩
    refine ⟨fun _ path hm => ?_, fun _ => ⟨fun _ _ ho _ => ho, fun path ⟨v, hv⟩ ho => ?_,
      fun path v hv ho _ => ?_⟩⟩
    · cases hm with
      | removed ho => cases ho
      | replaced v ho => cases ho
      | leftAlone _ hne => exact hne hn
      | lost _ hne => exact hne hn
    · rw [ho] at hv
      cases hv
    · obtain rfl := eq_nil_of_get hp hv
      cases ho
  · refine ⟨fun hr path hm => ?_, fun he => ⟨fun path v ho hv => ?_, fun path hv ho => ?_, fun _ _ hv _ _ => hv⟩⟩
    · cases hm with
      | removed ho => cases ho
      | replaced v ho => cases ho
      | leftAlone _ _ hp ho hl => exact hl (hr.removed _ hp ho)
      | lost hm _ v ho hv =>
        obtain rfl := eq_nil_of_get hm.2 (hr.restored path v ho hv)
        cases ho
    · -- the normalization is a map if it has the value, so the patch is not
      by_cases hi : n.IsMap
      · exact absurd (.lost ⟨⟨om, rfl⟩, fun hp => h ⟨hp, hi⟩⟩ hn v ho hv) (he path)
      · obtain rfl := eq_nil_of_get hi hv
        cases ho
    · by_contra hl
      refine he path (.leftAlone ⟨nofun, fun hi => ?_⟩ hn hv ho hl)
      obtain ⟨v, hv⟩ := hv
      obtain rfl := eq_nil_of_get (fun hp => h ⟨hp, hi.2⟩) hv
      cases ho

theorem repaired_iff (p n l o : Value K L) : Repaired p n l o (restoreAt p n l o) ↔ Exact p n l o := by
  induction o generalizing p n l with
  | absent => exact repaired_absent.trans (exact_stop fun ⟨_, _, f, hf⟩ => by cases hf).symm
  | leaf v => exact (repaired_leaf v).trans (exact_stop fun h => not_isMap_leaf v h.2.2).symm
  | map om ih =>
    by_cases h : p.IsMap ∧ n.IsMap
    · obtain ⟨⟨pm, rfl⟩, nm, rfl⟩ := h
      exact repaired_maps.trans ((forall_congr' fun k => ih k _ _ _).trans exact_maps.symm)
    · exact (repaired_stop h).trans (exact_stop fun hm => h ⟨hm.1, hm.2.1⟩).symm

/-- **The repair is exact, and a second one does nothing, iff no value is misjudged.** -/
theorem repair_exact_iff (patched original normalizedTarget normalizedLive : K → Value K L) :
    (Repaired (.map patched) (.map normalizedTarget) (.map normalizedLive) (.map original)
        (.map (restoreNonIgnoredFields patched original normalizedTarget normalizedLive)) ∧
      restoreNonIgnoredFields (restoreNonIgnoredFields patched original normalizedTarget normalizedLive) original
        normalizedTarget normalizedLive = restoreNonIgnoredFields patched original normalizedTarget normalizedLive) ↔
    Exact (.map patched) (.map normalizedTarget) (.map normalizedLive) (.map original) := by
  refine (and_iff_left (funext fun k => restoreAt_again _ _ _ _)).trans ?_
  exact repaired_maps.trans ((forall_congr' fun k => repaired_iff _ _ _ _).trans exact_maps.symm)

/-- a map with one field -/
def single (k : Bool) (t : Value Bool ℕ) : Bool → Value Bool ℕ := fun k' => if k' = k then t else .absent

/-- **A map the patch has lost is not put back.** One of its two fields is ignored, the other one is lost with it. -/
theorem dropped_parent_stays_dropped :
    let original := single true (.map fun k => .leaf (if k then 1 else 2))
    let normalizedTarget := single true (.map (single true (.leaf 1)))
    ¬ Repaired (.map fun _ => .absent) (.map normalizedTarget) (.map fun _ => .absent) (.map original)
      (.map (restoreNonIgnoredFields (fun _ => .absent) original normalizedTarget fun _ => .absent)) := by
  intro original normalizedTarget h
  have hr := h.restored [true, true] 1 rfl rfl
  revert hr
  decide

end GitOpsDeploy.Restore

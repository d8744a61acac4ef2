/-
Maps whose values carry their own key (Go's `map[string]*T` filled with `m[x.Key] = x`).

A `KeyedMap key` is the list of its values, no two with one key; the order of the list means nothing, so a range over the
map is any permutation of `values`.
-/
import Mathlib.Tactic

namespace GitOpsDeploy

open List

structure KeyedMap {α : Type*} {K : Type*} (key : α → K) where
  values : List α
  /-- one value a key -/
  nodup : (values.map key).Nodup

namespace KeyedMap

variable {α K : Type*} {key : α → K}

instance : Membership α (KeyedMap key) := ⟨fun m a => a ∈ m.values⟩

theorem mem_iff (m : KeyedMap key) (a : α) : a ∈ m ↔ a ∈ m.values := Iff.rfl

theorem nodup_values (m : KeyedMap key) : m.values.Nodup := m.nodup.of_map

variable {m : KeyedMap key} {a : α}

theorem eq_of_key {b : α} (ha : a ∈ m) (hb : b ∈ m) (h : key a = key b) : a = b :=
  inj_on_of_nodup_map m.nodup ha hb h

theorem values_perm {m' : KeyedMap key} (h : ∀ a, a ∈ m ↔ a ∈ m') : m.values.Perm m'.values :=
  (perm_ext_iff_of_nodup m.nodup_values m'.nodup_values).2 h

variable [DecidableEq K]

def empty : KeyedMap key := ⟨[], nodup_nil⟩

def get? (m : KeyedMap key) (k : K) : Option α := m.values.find? fun a => key a = k

def delete (m : KeyedMap key) (k : K) : KeyedMap key :=
  ⟨m.values.filter fun a => key a ≠ k, m.nodup.sublist (filter_sublist.map key)⟩

/-- `m[key a] = a` -/
def put (m : KeyedMap key) (a : α) : KeyedMap key :=
  ⟨a :: (m.delete (key a)).values, by
    refine nodup_cons.2 ⟨fun hmem => ?_, (m.delete (key a)).nodup⟩
    obtain ⟨b, hb, hkey⟩ := mem_map.1 hmem
    exact (by simpa using (mem_filter.1 hb).2 : key b ≠ key a) hkey⟩

/-- the map after writing every element in turn: the last one of a key stays -/
def ofList (l : List α) : KeyedMap key := l.foldl put empty

theorem mem_delete (m : KeyedMap key) (k : K) (a : α) : a ∈ m.delete k ↔ a ∈ m ∧ key a ≠ k := by
  simp [mem_iff, delete]

theorem mem_put (m : KeyedMap key) (a b : α) : b ∈ m.put a ↔ b = a ∨ (b ∈ m ∧ key b ≠ key a) := by
  rw [← mem_delete]
  simp [mem_iff, put]

theorem get?_eq_some {k : K} : m.get? k = some a ↔ a ∈ m ∧ key a = k := by
  refine ⟨fun h => ?_, fun h => ?_⟩
  · exact ⟨List.mem_of_find?_eq_some h, by simpa using List.find?_some h⟩
  · obtain ⟨hm, rfl⟩ := h
    have hs : (m.get? (key a)).isSome := List.find?_isSome.2 ⟨a, hm, by simp⟩
    obtain ⟨b, hb⟩ := Option.isSome_iff_exists.1 hs
    have hk : key b = key a := by simpa using List.find?_some hb
    rw [hb, eq_of_key (List.mem_of_find?_eq_some hb) hm hk]

/-- the last write of a key is there, and what was there before if there is none -/
theorem mem_foldl_put (m : KeyedMap key) (l : List α) (a : α) : a ∈ l.foldl put m ↔
    (l.filter fun b => key b = key a).getLast? = some a ∨ (a ∈ m ∧ key a ∉ l.map key) := by
  induction l using List.reverseRecOn with
  | nil => simp
  | append_singleton l b ih =>
    rw [foldl_append, foldl_cons, foldl_nil, mem_put, ih, filter_append, map_append, mem_append]
    by_cases hk : key b = key a
    · simp [hk, eq_comm]
    · have hne : a ≠ b := fun h => hk (congrArg key h.symm)
      simp [hk, Ne.symm hk, hne]

/-- a value is a write, or it was there before and has not been overwritten -/
theorem of_mem_foldl_put {l : List α} (h : a ∈ l.foldl put m) : a ∈ l ∨ (a ∈ m ∧ key a ∉ l.map key) :=
  ((mem_foldl_put m l a).1 h).imp_left fun h => (mem_filter.1 (mem_of_getLast? h)).1

theorem exists_mem_foldl_put (m : KeyedMap key) (l : List α) (k : K) (h : k ∈ l.map key ∨ ∃ a ∈ m, key a = k) :
    ∃ a ∈ l.foldl put m, key a = k := by
  induction l generalizing m with
  | nil => simpa using h
  | cons b l ih =>
    apply ih
    rw [map_cons, mem_cons, or_assoc] at h
    rcases h with rfl | h | ⟨a, ha, rfl⟩
    · exact .inr ⟨b, (mem_put _ _ _).2 (.inl rfl), rfl⟩
    · exact .inl h
    · by_cases hb : key a = key b
      · exact .inr ⟨b, (mem_put _ _ _).2 (.inl rfl), hb.symm⟩
      · exact .inr ⟨a, (mem_put _ _ _).2 (.inr ⟨ha, hb⟩), rfl⟩

theorem exists_mem_put (m : KeyedMap key) (b : α) (k : K) (h : ∃ a ∈ m, key a = k) : ∃ a ∈ m.put b, key a = k :=
  exists_mem_foldl_put m [b] k (.inr h)

theorem exists_mem_ofList (l : List α) (k : K) (h : k ∈ l.map key) : ∃ a ∈ (ofList l : KeyedMap key), key a = k :=
  exists_mem_foldl_put empty l k (.inl h)

theorem mem_ofList {l : List α} (hl : (l.map key).Nodup) (a : α) : a ∈ (ofList l : KeyedMap key) ↔ a ∈ l := by
  have hs : ∀ b, b ∈ (ofList l : KeyedMap key) → b ∈ l := fun b hb =>
    (of_mem_foldl_put hb).resolve_right fun h => not_mem_nil h.1
  refine ⟨hs a, fun h => ?_⟩
  obtain ⟨b, hb, hk⟩ := exists_mem_ofList l (key a) (mem_map_of_mem h)
  rwa [inj_on_of_nodup_map hl h (hs b hb) hk.symm]

theorem perm_delete (ha : a ∈ m) : m.values.Perm (a :: (m.delete (key a)).values) := by
  refine (perm_ext_iff_of_nodup m.nodup_values ?_).2 fun b => ?_
  · exact (m.put a).nodup_values
  · rw [mem_cons, ← mem_iff, ← mem_iff, mem_delete]
    refine ⟨fun hb => ?_, fun hb => ?_⟩
    · by_cases hk : key b = key a
      · exact .inl (eq_of_key hb ha hk)
      · exact .inr ⟨hb, hk⟩
    · rcases hb with rfl | hb
      · exact ha
      · exact hb.1

/-- writing over `old` keeps every function of the values that agrees on the two -/
theorem put_perm {β : Type*} (f : α → β) {old : α} (ho : old ∈ m) (hk : key old = key a)
    (hf : f old = f a) : ((m.put a).values.map f).Perm (m.values.map f) := by
  have h := ((perm_delete ho).map f).symm
  rw [map_cons, hf, hk] at h
  exact h

end KeyedMap

end GitOpsDeploy

/-
The two-level cache (`util/cache/twolevelclient.go`, over `inmemory.go` and `redis.go`).

Values are kept in memory in their gob encoding and in the external cache in their JSON encoding. The memory is written
before the external cache, whatever that answers; a value that is in memory already is not written again. A call to the
external cache is done, refused, or done without the caller learning of it. One client, no expiry.
- `Coherent`: what is in memory and what is in the external cache decode to the same. `step_coherent`: steps that are
  `Allowed` keep this.
- `two_level_honest`: after a run of such steps writes are stored and reads are right (`Honest`).
- Witnesses: `two_level_honest_run`; `two_level_write_lost`, a write that was refused and one that JSON does not keep.
-/
import Mathlib.Data.Finmap
import GitOpsDeploy.Core.Trace

namespace GitOpsDeploy.TwoLevel

/-! ## Clients -/

inductive CacheError where
  | cacheMiss
  | failed (err : String)
  deriving DecidableEq, Repr

structure Item (Obj : Type) where
  key : String
  object : Obj
  disableOverwrite : Bool
  deriving DecidableEq, Repr

/-- `encoding/gob`, or the JSON of `redisCache.marshal` and `unmarshal` -/
structure Codec (Obj Bytes : Type) where
  encode : Obj → Except String Bytes
  decode : Bytes → Except String Obj

/-- how a call to the external cache ends: a call that is lost takes effect, and reports an error -/
inductive Ending where
  | done
  | refused (err : String)
  | lost (err : String)
  deriving DecidableEq, Repr

variable {Obj Bytes : Type} [DecidableEq Bytes]

abbrev Memory (Bytes : Type) := Finmap fun _ : String => Bytes

abbrev External (Bytes : Type) := Finmap fun _ : String => Bytes

namespace Memory

variable (g : Codec Obj Bytes) (m : Memory Bytes)

/-- `InMemoryCache.Set` -/
def set (item : Item Obj) : Memory Bytes :=
  match g.encode item.object with
  | .error _ => m
  | .ok buf => if item.disableOverwrite ∧ item.key ∈ m then m else m.insert item.key buf

/-- `InMemoryCache.Rename` -/
def rename (oldKey newKey : String) : Memory Bytes :=
  match m.lookup oldKey with
  | none => m
  | some buf => (m.insert newKey buf).erase oldKey

/-- `InMemoryCache.HasSame`; an error counts as no -/
def hasSame (key : String) (obj : Obj) : Bool :=
  match g.encode obj with
  | .error _ => false
  | .ok buf => m.lookup key = some buf

/-- `InMemoryCache.Get`; the error does not matter to the caller -/
def get (key : String) : Option Obj :=
  match m.lookup key with
  | none => none
  | some buf => (g.decode buf).toOption

end Memory

namespace External

variable (j : Codec Obj Bytes) (e : External Bytes)

/-- `redisCache.Get` -/
def get (key : String) : Except CacheError Obj :=
  match e.lookup key with
  | none => .error .cacheMiss
  | some data => (j.decode data).mapError fun err => .failed ("failed to decode cached data: " ++ err)

/-- `redisCache.Set`; a write that must not overwrite and finds the key is not an error -/
def set (item : Item Obj) : External Bytes × Except CacheError Unit :=
  match j.encode item.object with
  | .error err => (e, .error (.failed err))
  | .ok val => (if item.disableOverwrite ∧ item.key ∈ e then e else e.insert item.key val, .ok ())

/-- `redisCache.Rename` -/
def rename (oldKey newKey : String) : External Bytes × Except CacheError Unit :=
  match e.lookup oldKey with
  | none => (e, .error .cacheMiss)
  | some data => ((e.erase oldKey).insert newKey data, .ok ())

def delete (key : String) : External Bytes × Except CacheError Unit := (e.erase key, .ok ())

/-- the cache after a call, and the answer -/
def call {A : Type} (ending : Ending) (r : External Bytes × Except CacheError A) : External Bytes × Except CacheError A :=
  match ending with
  | .done => r
  | .refused err => (e, .error (.failed err))
  | .lost err => (r.1, .error (.failed err))

end External

/-! ## The two levels -/

/-- `failed` remembers that an operation of the external cache has failed -/
structure State (Bytes : Type) where
  memory : Memory Bytes
  external : External Bytes
  failed : Bool

/-- an error, other than that there is nothing under the key -/
def isFailure {A : Type} : Except CacheError A → Bool
  | .error (.failed _) => true
  | _ => false

/-- what the external cache answered becomes the answer -/
def State.after {A : Type} (s : State Bytes) (ending : Ending) (memory : Memory Bytes)
    (r : External Bytes × Except CacheError A) : State Bytes × Except CacheError A :=
  let answered := s.external.call ending r
  (⟨memory, answered.1, s.failed || isFailure answered.2⟩, answered.2)

variable (g j : Codec Obj Bytes)

namespace State

variable (s : State Bytes)

def rename (oldKey newKey : String) (ending : Ending) : State Bytes × Except CacheError Unit :=
  s.after ending (s.memory.rename oldKey newKey) (s.external.rename oldKey newKey)

def set (item : Item Obj) (ending : Ending) : State Bytes × Except CacheError Unit :=
  if s.memory.hasSame g item.key item.object then (s, .ok ())
  else s.after ending (s.memory.set g item) (s.external.set j item)

def get (key : String) (ending : Ending) : State Bytes × Except CacheError Obj :=
  match s.memory.get g key with
  | some obj => (s, .ok obj)
  | none =>
    let r := s.after ending s.memory (s.external, s.external.get j key)
    match r.2 with
    | .ok obj => ({ r.1 with memory := s.memory.set g ⟨key, obj, false⟩ }, .ok obj)
    | .error err => (r.1, .error err)

def delete (key : String) (ending : Ending) : State Bytes × Except CacheError Unit :=
  s.after ending (s.memory.erase key) (s.external.delete key)

end State

inductive Op (Obj : Type) where
  | set (item : Item Obj)
  | get (key : String)
  | rename (oldKey newKey : String)
  | delete (key : String)
  deriving DecidableEq, Repr

/-- the state after an operation -/
def step (op : Op Obj × Ending) (s : State Bytes) : State Bytes :=
  match op with
  | (.set item, ending) => (s.set g j item ending).1
  | (.get key, ending) => (s.get g j key ending).1
  | (.rename oldKey newKey, ending) => (s.rename oldKey newKey ending).1
  | (.delete key, ending) => (s.delete key ending).1

/-! ## What a client may rely on -/

/-- what is in memory is what the external cache would return -/
def Coherent (s : State Bytes) : Prop :=
  ∀ key buf, s.memory.lookup key = some buf → ∃ obj, g.decode buf = .ok obj ∧ s.external.get j key = .ok obj

/-- a write without `DisableOverwrite` that returns no error is in the external cache; while no operation of that has failed,
a read returns what the external cache holds, or the error that it answers this call with -/
def Honest (s : State Bytes) : Op Obj × Ending → Prop
  | (.set item, ending) => item.disableOverwrite = false → (s.set g j item ending).2 = .ok () →
      (s.set g j item ending).1.external.get j item.key = .ok item.object
  | (.get key, ending) => s.failed = false → (s.get g j key ending).2 = s.external.get j key ∨
      (s.get g j key ending).2 = (s.external.call ending (s.external, s.external.get j key)).2
  | _ => True

def Ending.isRefused : Ending → Bool
  | .refused _ => true
  | _ => false

/-- the encoding of the object stands for it -/
def Faithful (obj : Obj) : Prop := ∀ buf, g.encode obj = .ok buf → g.decode buf = .ok obj

/-- a write of the object gets to the external cache -/
def Codec.writes (obj : Obj) (ending : Ending) : Bool := !ending.isRefused && (j.encode obj).toOption.isSome

/-- the external cache is not behind when the memory changes: a call that has changed the memory is not refused, what is not
in memory does not stand in the way of a write without overwriting or of a move over a key in memory, an object without
an encoding does not replace one in memory, and what is written survives both encodings -/
def Allowed (s : State Bytes) : Op Obj × Ending → Prop
  | (.set item, ending) => Faithful g item.object ∧ Faithful j item.object ∧
      (s.memory.hasSame g item.key item.object ∨
        if (g.encode item.object).toOption.isNone then
          item.disableOverwrite ∨ item.key ∉ s.memory ∨ j.writes item.object ending = false
        else if item.disableOverwrite then
          item.key ∈ s.memory ∨ s.external.get j item.key = .ok item.object ∨
            (item.key ∉ s.external ∧ j.writes item.object ending)
        else j.writes item.object ending ∨ s.external.get j item.key = .ok item.object)
  | (.get key, _) => ∀ obj, s.external.get j key = .ok obj → Faithful g obj
  | (.rename oldKey newKey, ending) =>
      s.external.lookup newKey = s.external.lookup oldKey ∨
        if oldKey ∈ s.memory then ending.isRefused = false
        else oldKey ∈ s.external → newKey ∉ s.memory ∨ ending.isRefused
  | (.delete _, _) => True

variable {g j}

variable {s : State Bytes} {key : String} {obj : Obj}

omit [DecidableEq Bytes] in
theorem get_eq_ok {e : External Bytes} : e.get j key = .ok obj ↔
    ∃ data, e.lookup key = some data ∧ j.decode data = .ok obj := by
  unfold External.get
  cases e.lookup key with
  | none => simp
  | some data => cases hd : j.decode data <;> simp [Except.mapError, hd]

omit [DecidableEq Bytes] in
theorem get_congr {e e' : External Bytes} (h : e.lookup key = e'.lookup key) : e.get j key = e'.get j key := by
  unfold External.get
  rw [h]

omit [DecidableEq Bytes] in
theorem mem_external_of_mem (h : Coherent g j s) (hk : key ∈ s.memory) : key ∈ s.external := by
  obtain ⟨buf, hb⟩ := Finmap.mem_iff.1 hk
  obtain ⟨obj, -, ho⟩ := h key buf hb
  obtain ⟨data, hl, -⟩ := get_eq_ok.1 ho
  exact Finmap.mem_iff.2 ⟨data, hl⟩

omit [DecidableEq Bytes] in
/-- what memory answers is in the external cache -/
theorem get_of_memory (h : Coherent g j s) (hg : s.memory.get g key = some obj) : s.external.get j key = .ok obj := by
  unfold Memory.get at hg
  split at hg
  · cases hg
  · next buf hb =>
    obtain ⟨obj', hd, ho⟩ := h key buf hb
    simp only [hd, Except.toOption, Option.some.injEq] at hg
    rw [ho, hg]

theorem hasSame_iff {m : Memory Bytes} :
    m.hasSame g key obj = true ↔ ∃ buf, g.encode obj = .ok buf ∧ m.lookup key = some buf := by
  unfold Memory.hasSame
  cases g.encode obj with
  | error err => simp
  | ok buf => simp

/-- an object that is in memory already is in the external cache -/
theorem external_of_hasSame (h : Coherent g j s) (ho : Faithful g obj)
    (hs : s.memory.hasSame g key obj = true) : s.external.get j key = .ok obj := by
  obtain ⟨buf, he, hb⟩ := hasSame_iff.1 hs
  obtain ⟨obj', hd, hex⟩ := h key buf hb
  rw [ho buf he] at hd
  rw [hex, Except.ok.inj hd]

omit [DecidableEq Bytes] in
/-- a write to a key of both levels, or to none -/
theorem Coherent.insert (h : Coherent g j s) {buf : Bytes} {failed : Bool}
    (hd : g.decode buf = .ok obj) {external : External Bytes} (hke : external.get j key = .ok obj)
    (hot : ∀ k, k ≠ key → external.lookup k = s.external.lookup k) :
    Coherent g j ⟨s.memory.insert key buf, external, failed⟩ := by
  intro k b hb
  by_cases hk : k = key
  · subst hk
    rw [Finmap.lookup_insert, Option.some.injEq] at hb
    exact ⟨obj, hb ▸ hd, hke⟩
  · rw [Finmap.lookup_insert_of_ne _ hk] at hb
    obtain ⟨o, ho, he⟩ := h k b hb
    exact ⟨o, ho, (get_congr (hot k hk)).trans he⟩

omit [DecidableEq Bytes] in
/-- a change of the external cache away from the keys in memory -/
theorem Coherent.external (h : Coherent g j s) {external : External Bytes} {failed : Bool}
    (hk : ∀ k ∈ s.memory, external.lookup k = s.external.lookup k) : Coherent g j ⟨s.memory, external, failed⟩ := by
  intro k b hb
  obtain ⟨o, ho, he⟩ := h k b hb
  exact ⟨o, ho, (get_congr (hk k (Finmap.mem_iff.2 ⟨b, hb⟩))).trans he⟩

/-! ## Calls to the external cache -/

section Calls

omit [DecidableEq Bytes]

variable {e : External Bytes} {ending : Ending} {item : Item Obj} {newKey oldKey : String}

theorem call_fst {A : Type} (r : External Bytes × Except CacheError A) :
    (e.call ending r).1 = if ending.isRefused then e else r.1 := by
  cases ending <;> rfl

theorem call_ok {A : Type} {r : External Bytes × Except CacheError A} {a : A} (h : (e.call ending r).2 = .ok a) :
    e.call ending r = r := by
  cases ending with
  | done => rfl
  | _ => cases h

/-- a write takes effect if it gets there, unless it must not overwrite and finds the key -/
theorem lookup_set (k : String) : (e.call ending (e.set j item)).1.lookup k =
    if k = item.key ∧ j.writes item.object ending ∧ ¬(item.disableOverwrite = true ∧ item.key ∈ e) then
      (j.encode item.object).toOption
    else e.lookup k := by
  rw [call_fst]
  unfold External.set Codec.writes
  cases j.encode item.object with
  | error err => simp [Except.toOption]
  | ok val =>
    by_cases ho : item.disableOverwrite = true ∧ item.key ∈ e
    · simp [ho]
    cases ending.isRefused with
    | true => simp
    | false =>
      by_cases hk : k = item.key
      · subst hk
        simp [ho, Finmap.lookup_insert, Except.toOption]
      · simp [ho, hk, Finmap.lookup_insert_of_ne]

/-- the object is there after a write that takes effect, or that finds it -/
theorem get_set (hj : Faithful j item.object) (h : e.get j item.key = .ok item.object ∨
      j.writes item.object ending = true ∧ ¬(item.disableOverwrite = true ∧ item.key ∈ e)) :
    (e.call ending (e.set j item)).1.get j item.key = .ok item.object := by
  by_cases hw : j.writes item.object ending = true ∧ ¬(item.disableOverwrite = true ∧ item.key ∈ e)
  · have hl := @lookup_set _ _ j e ending item item.key
    rw [if_pos ⟨rfl, hw⟩] at hl
    have hs := (Bool.and_eq_true_iff.1 hw.1).2
    cases he : j.encode item.object with
    | error err => simp [he, Except.toOption] at hs
    | ok val =>
      rw [he] at hl
      exact get_eq_ok.2 ⟨val, hl, hj val he⟩
  · rw [← h.resolve_right hw]
    refine get_congr ?_
    rw [lookup_set, if_neg fun hc => hw hc.2]

theorem lookup_rename (k : String) : (e.call ending (e.rename oldKey newKey)).1.lookup k =
    if ending.isRefused then e.lookup k else
      match e.lookup oldKey with
      | none => e.lookup k
      | some obj => if k = newKey then some obj else if k = oldKey then none else e.lookup k := by
  rw [call_fst]
  unfold External.rename
  cases e.lookup oldKey with
  | none => simp
  | some obj =>
    dsimp only
    split_ifs with hr hn ho
    · rfl
    · rw [hn, Finmap.lookup_insert]
    · rw [Finmap.lookup_insert_of_ne _ hn, ho, Finmap.lookup_erase]
    · rw [Finmap.lookup_insert_of_ne _ hn, Finmap.lookup_erase_ne ho]

end Calls

/-! ## Steps -/

variable {s : State Bytes} {ending : Ending} {newKey oldKey : String}

section

variable (h : Coherent g j s)

include h

theorem set_coherent {item : Item Obj}
    (hallowed : Allowed g j s (.set item, ending)) : Coherent g j (s.set g j item ending).1 := by
  obtain ⟨hf, hj, hallowed⟩ := hallowed
  unfold State.set
  split_ifs with hs
  · exact h
  replace hallowed := hallowed.resolve_left hs
  simp only [State.after, Memory.set]
  split
  · next he =>
    -- the memory stays as it is
    simp only [he, Except.toOption, Option.isNone_none, if_true] at hallowed
    refine h.external fun k hk => ?_
    rw [lookup_set, if_neg]
    rintro ⟨rfl, hr, ho⟩
    rcases hallowed with hno | hn | hr'
    · exact ho ⟨hno, mem_external_of_mem h hk⟩
    · exact hn hk
    · cases hr.symm.trans hr'
  · next buf he =>
    simp only [he, Except.toOption, Option.isNone_some, Bool.false_eq_true, if_false] at hallowed
    have hins (failed : Bool) (hk : s.external.get j item.key = .ok item.object ∨ j.writes item.object ending = true ∧
        ¬(item.disableOverwrite = true ∧ item.key ∈ s.external)) :
        Coherent g j ⟨s.memory.insert item.key buf, (s.external.call ending (s.external.set j item)).1, failed⟩ := by
      refine h.insert (hf buf he) (get_set hj hk) fun k hne => ?_
      rw [lookup_set, if_neg fun hb => hne hb.1]
    split_ifs at hallowed ⊢ with hm hno hno
    · refine h.external fun k _ => ?_
      rw [lookup_set, if_neg fun hb => hb.2.2 ⟨hno, mem_external_of_mem h hm.2⟩]
    · exact absurd hm.1 hno
    · exact hins _ ((hallowed.resolve_left fun hk => hm ⟨hno, hk⟩).imp_right fun hw => ⟨hw.2, fun hb => hw.1 hb.2⟩)
    · exact hins _ (hallowed.symm.imp_right fun hr => ⟨hr, fun hb => hno hb.1⟩)

theorem get_coherent {key : String} (ha : Allowed g j s (.get key, ending)) : Coherent g j (s.get g j key ending).1 := by
  have hs : (s.external.call ending (s.external, s.external.get j key)).1 = s.external := by
    rw [call_fst]
    split_ifs <;> rfl
  unfold State.get
  split
  · exact h
  · simp only [State.after]
    split
    · next obj hg =>
      have ho : s.external.get j key = .ok obj := by rwa [call_ok hg] at hg
      simp only [Memory.set]
      split
      · refine h.external fun k _ => ?_
        rw [hs]
      · next buf he => exact h.insert (ha obj ho buf he) (by rw [hs, ho]) fun k _ => by rw [hs]
    · refine h.external fun k _ => ?_
      rw [hs]

theorem rename_coherent
    (ha : Allowed g j s (.rename oldKey newKey, ending)) : Coherent g j (s.rename oldKey newKey ending).1 := by
  simp only [State.rename, State.after, Memory.rename]
  cases hbu : s.memory.lookup oldKey with
  | none =>
    -- only the external cache moves
    have hol : oldKey ∉ s.memory := Finmap.lookup_eq_none.1 hbu
    refine h.external fun k hk => ?_
    rw [lookup_rename]
    cases hob : s.external.lookup oldKey with
    | none => simp
    | some obj =>
      dsimp only
      rw [if_neg fun hk' : k = oldKey => hol (hk' ▸ hk)]
      split_ifs with hr hn
      · rfl
      · subst hn
        simp only [Allowed, hol, if_false, hob] at ha
        refine (ha.resolve_right fun hm => ?_).symm
        rcases hm (Finmap.mem_iff.2 ⟨obj, hob⟩) with hno | hr'
        · exact hno hk
        · exact hr hr'
      · rfl
  | some buf =>
    have hol : oldKey ∈ s.memory := Finmap.mem_iff.2 ⟨buf, hbu⟩
    simp only [Allowed, hol, if_true] at ha
    obtain ⟨obj, hd, hex⟩ := h oldKey buf hbu
    obtain ⟨data, hob, hde⟩ := get_eq_ok.1 hex
    intro k b hb
    have hk : k ≠ oldKey := by
      rintro rfl
      rw [Finmap.lookup_erase] at hb
      cases hb
    rw [Finmap.lookup_erase_ne hk] at hb
    have hl := @lookup_rename _ s.external ending newKey oldKey k
    simp only [hob, if_neg hk] at hl
    by_cases hn : k = newKey
    · subst hn
      rw [Finmap.lookup_insert, Option.some.injEq] at hb
      refine ⟨obj, hb ▸ hd, get_eq_ok.2 ⟨data, hl.trans ?_, hde⟩⟩
      rw [if_pos rfl]
      rcases ha with hs | hr
      · rw [hs, hob, ite_self]
      · rw [hr, if_neg Bool.false_ne_true]
    · rw [Finmap.lookup_insert_of_ne _ hn] at hb
      rw [if_neg hn, ite_self] at hl
      obtain ⟨o, ho, he⟩ := h k b hb
      exact ⟨o, ho, (get_congr hl).trans he⟩

omit [DecidableEq Bytes] in
/-- the memory forgets first -/
theorem delete_coherent (key : String) (ending : Ending) : Coherent g j (s.delete key ending).1 := by
  intro k b hb
  simp only [State.delete, State.after] at hb ⊢
  by_cases hk : k = key
  · rw [hk, Finmap.lookup_erase] at hb
    cases hb
  rw [Finmap.lookup_erase_ne hk] at hb
  obtain ⟨o, ho, he⟩ := h k b hb
  refine ⟨o, ho, (get_congr ?_).trans he⟩
  rw [call_fst]
  split_ifs
  · rfl
  · exact Finmap.lookup_erase_ne hk

theorem step_coherent (op : Op Obj × Ending) (ha : Allowed g j s op) : Coherent g j (step g j op s) := by
  obtain ⟨op, ending⟩ := op
  cases op with
  | set item => exact set_coherent h ha
  | get key => exact get_coherent h ha
  | rename oldKey newKey => exact rename_coherent h ha
  | delete key => exact delete_coherent h key ending

/-! ## Runs -/

theorem honest_of_coherent (op : Op Obj × Ending) (ha : Allowed g j s op) : Honest g j s op := by
  obtain ⟨op, ending⟩ := op
  cases op with
  | set item =>
    intro ho hok
    unfold State.set at hok ⊢
    split_ifs at hok ⊢ with hs
    · exact external_of_hasSame h ha.1 hs
    · refine get_set ha.2.1 (.inr ⟨?_, by simp [ho]⟩)
      -- no error: the call is done, and the object has an encoding
      cases ending with
      | done =>
        simp only [State.after, External.call, External.set] at hok
        cases he : j.encode item.object with
        | error err => simp [he] at hok
        | ok val => simp [Codec.writes, he, Ending.isRefused, Except.toOption]
      | _ => cases hok
  | get key =>
    intro _
    unfold State.get
    split
    · next hm => exact .inl (get_of_memory h hm).symm
    · right
      simp only [State.after]
      cases (s.external.call ending (s.external, s.external.get j key)).2 with
      | ok obj => rfl
      | error err => rfl
  | _ => trivial

end

/-- **Runs of the two-level cache.** From an empty memory and any external cache, in every state that allowed steps reach, an
allowed operation is honest. -/
theorem two_level_honest (external : External Bytes) (s : State Bytes)
    (hreach : Trace.Reach (step g j) (Allowed g j) ⟨∅, external, false⟩ s) (op : Op Obj × Ending)
    (hallowed : Allowed g j s op) : Honest g j s op := by
  have hc : Coherent g j s := by
    refine hreach.inv (Coherent g j) (fun key buf hb => ?_) fun t a ht ha => step_coherent ht a ha
    cases hb
  exact honest_of_coherent hc op hallowed

/-! ## Times -/

/-- a time: `metav1.Time` is written to JSON in seconds -/
structure Stamp where
  seconds : ℕ
  nanos : ℕ
  deriving DecidableEq

def gobStamp : Codec Stamp (List ℕ) where
  encode t := .ok [t.seconds, t.nanos]
  decode
    | [seconds, nanos] => .ok ⟨seconds, nanos⟩
    | _ => .error "unexpected EOF"

def jsonStamp : Codec Stamp (List ℕ) where
  encode t := .ok [t.seconds]
  decode
    | [seconds] => .ok ⟨seconds, 0⟩
    | _ => .error "unexpected EOF"

theorem gobStamp_faithful (t : Stamp) : Faithful gobStamp t := by
  rintro _ ⟨⟩
  rfl

theorem jsonStamp_faithful (seconds : ℕ) : Faithful jsonStamp ⟨seconds, 0⟩ := by
  rintro _ ⟨⟩
  rfl

def setTime (seconds nanos : ℕ) : Op Stamp := .set ⟨"k", ⟨seconds, nanos⟩, false⟩

/-- two writes and a write again that is refused but already made, with reads in between -/
def writesAndReads : List (Op Stamp × Ending) :=
  [(setTime 5 0, .done), (.get "k", .done), (setTime 6 0, .lost "timeout"), (.get "k", .done),
    (setTime 6 0, .refused "connection refused")]

def afterRun (ops : List (Op Stamp × Ending)) : State (List ℕ) :=
  ops.foldl (fun s op => step gobStamp jsonStamp op s) ⟨∅, ∅, false⟩

theorem two_level_honest_run :
    Trace.Legal (step gobStamp jsonStamp) (Allowed gobStamp jsonStamp) ⟨∅, ∅, false⟩ writesAndReads ∧
      Honest gobStamp jsonStamp (afterRun writesAndReads) (setTime 6 0, .done) ∧
      Honest gobStamp jsonStamp (afterRun writesAndReads) (.get "k", .done) := by
  have hset (s : State (List ℕ)) (seconds : ℕ) (ending : Ending) (h : ending.isRefused = false ∨
      s.memory.hasSame gobStamp "k" ⟨seconds, 0⟩ = true) : Allowed gobStamp jsonStamp s (setTime seconds 0, ending) := by
    refine ⟨gobStamp_faithful _, jsonStamp_faithful _, ?_⟩
    rcases h with h | h
    · exact .inr (.inl (by simp [Codec.writes, h, jsonStamp, Except.toOption]))
    · exact .inl h
  have hget (s : State (List ℕ)) (ending : Ending) : Allowed gobStamp jsonStamp s (.get "k", ending) :=
    fun obj _ => gobStamp_faithful obj
  have hl : Trace.Legal (step gobStamp jsonStamp) (Allowed gobStamp jsonStamp) ⟨∅, ∅, false⟩ writesAndReads :=
    ⟨hset _ _ _ (.inl rfl), hget _ _, hset _ _ _ (.inl rfl), hget _ _, hset _ _ _ (.inr (by decide +kernel)), trivial⟩
  exact ⟨hl, two_level_honest ∅ _ (.of_legal hl) _ (hset _ _ _ (.inl rfl)),
    two_level_honest ∅ _ (.of_legal hl) _ (hget _ _)⟩

/-- **A write that is lost.** The retry of a write that was refused returns no error, and nothing is in the external cache;
and a time that has been written is read from memory with its nanoseconds, and from the external cache without them. -/
theorem two_level_write_lost :
    ¬Honest gobStamp jsonStamp (afterRun [(setTime 5 0, .refused "connection refused")]) (setTime 5 0, .done) ∧
      ¬Honest gobStamp jsonStamp (afterRun [(setTime 5 7, .done)]) (.get "k", .done) := by
  refine ⟨fun hh => ?_, fun hh => ?_⟩
  · have hk := hh rfl (by decide +kernel)
    revert hk
    decide +kernel
  · have hk := hh (by decide +kernel)
    revert hk
    decide +kernel

end GitOpsDeploy.TwoLevel

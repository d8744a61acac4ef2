/-
Revoked tokens of an API server (`util/session/state.go`).

`RevokeToken` marks the token in memory, writes a key to Redis and publishes the token. A resync scans the keys and then
replaces the tokens in memory by those it found and those that were marked since the last resync; it runs in one goroutine.
The steps of calls, resyncs and notifications interleave; keys may expire at any time, and other servers may write keys and
publish tokens. A scan returns at least the keys that were there all the time.
-/
import GitOpsDeploy.Core.Trace

namespace GitOpsDeploy.Session

open Finset

/-! ## Model -/

def revokedTokenPrefix : String := "revoked-token|"

def keyOf (id : String) : String := revokedTokenPrefix ++ id

/-- the token of a key, by splitting the key; keys with more or fewer parts are skipped -/
def tokenOf (key : String) : Option String :=
  match key.toList.splitOn '|' with
  | [_, id] => some (String.ofList id)
  | _ => none

/-- a call of `RevokeToken` that has not returned: the token is marked, its key is written, or the key has expired since -/
inductive Phase where
  | marked
  | stored
  | expired
  deriving DecidableEq, Repr

structure Call where
  id : String
  phase : Phase
  deriving DecidableEq, Repr

/-- `scan` holds the keys that have been there since the scan began; `acknowledged` the tokens for which `RevokeToken` has
returned nil and whose key has not expired since -/
structure State where
  revokedTokens : Finset String
  recentRevokedTokens : Finset String
  redis : Finset String
  scan : Option (Finset String)
  calls : List Call
  acknowledged : Finset String
  deriving DecidableEq

/-- how a write to Redis ends; one that fails may have taken effect -/
inductive Written where
  | ok
  | failed (effect : Bool)
  deriving DecidableEq, Repr

inductive Action where
  /-- `RevokeToken` under the lock -/
  | mark (id : String)
  | store (i : ℕ) (written : Written)
  | publish (i : ℕ) (ok : Bool)
  /-- a message from the channel of new tokens -/
  | notify (payload : String)
  | beginScan
  /-- the scan has returned these keys -/
  | endScan (keys : Finset String)
  | failScan
  | expire (key : String)
  | storeElsewhere (key : String)
  deriving DecidableEq

namespace State

def isTokenRevoked (s : State) (id : String) : Bool := id ∈ s.revokedTokens

/-- the end of `loadRevokedTokens`, under the lock -/
def loadRevokedTokens (s : State) (keys : Finset String) : State :=
  { s with
    revokedTokens := (keys.biUnion fun key => (tokenOf key).toFinset) ∪ s.recentRevokedTokens
    recentRevokedTokens := ∅
    scan := none }

def mark (s : State) (id : String) : State :=
  { s with revokedTokens := insert id s.revokedTokens, recentRevokedTokens := insert id s.recentRevokedTokens }

/-- a key is gone: for a scan, for the calls that wrote it and for what was acknowledged -/
def expire (s : State) (key : String) : State :=
  { s with
    redis := s.redis.erase key
    scan := s.scan.map (·.erase key)
    calls := s.calls.map fun c => if c.phase = .stored ∧ keyOf c.id = key then { c with phase := .expired } else c
    acknowledged := s.acknowledged.filter fun id => keyOf id ≠ key }

end State

def step : Action → State → State
  | .mark id, s => { s.mark id with calls := s.calls ++ [⟨id, .marked⟩] }
  | .store i written, s =>
    match s.calls[i]?, written with
    | some ⟨id, .marked⟩, .ok => { s with redis := insert (keyOf id) s.redis, calls := s.calls.set i ⟨id, .stored⟩ }
    | some ⟨id, .marked⟩, .failed effect =>
      { s with redis := if effect then insert (keyOf id) s.redis else s.redis, calls := s.calls.eraseIdx i }
    | _, _ => s
  | .publish i ok, s =>
    match s.calls[i]? with
    | some ⟨id, .stored⟩ =>
      { s with calls := s.calls.eraseIdx i, acknowledged := if ok then insert id s.acknowledged else s.acknowledged }
    | some ⟨_, .expired⟩ => { s with calls := s.calls.eraseIdx i }
    | _ => s
  | .notify payload, s => s.mark payload
  | .beginScan, s => { s with scan := some s.redis }
  | .endScan keys, s => s.loadRevokedTokens keys
  | .failScan, s => { s with scan := none }
  | .expire key, s => s.expire key
  | .storeElsewhere key, s => { s with redis := insert key s.redis }

/-- one scan at a time, which returns every key that was there all the time -/
def Enabled (s : State) : Action → Prop
  | .beginScan => s.scan = none
  | .endScan keys => ∃ all ∈ s.scan, all ⊆ keys
  | _ => True

instance (s : State) (a : Action) : Decidable (Enabled s a) :=
  match a with
  | .beginScan => inferInstanceAs (Decidable (s.scan = none))
  | .endScan keys => inferInstanceAs (Decidable (∃ all ∈ s.scan, all ⊆ keys))
  | .mark _ | .store .. | .publish .. | .notify _ | .failScan | .expire _ | .storeElsewhere _ => isTrue trivial

/-- the server starts with any keys in Redis -/
def initial (redis : Finset String) : State := ⟨∅, ∅, redis, none, [], ∅⟩

/-- tokens are one part of their key, and no scan begins while a token is marked, not written, and no longer recent -/
def Timely (s : State) : Action → Prop
  | .mark id => '|' ∉ id.toList
  | .beginScan => ∀ c ∈ s.calls, c.phase = .marked → c.id ∈ s.recentRevokedTokens
  | _ => True

instance (s : State) (a : Action) : Decidable (Timely s a) :=
  match a with
  | .mark id => inferInstanceAs (Decidable ('|' ∉ id.toList))
  | .beginScan => inferInstanceAs (Decidable (∀ c ∈ s.calls, c.phase = .marked → c.id ∈ s.recentRevokedTokens))
  | .store .. | .publish .. | .notify _ | .endScan _ | .failScan | .expire _ | .storeElsewhere _ => isTrue trivial

/-! ## Keys -/

variable {id : String} {s' s : State}

theorem tokenOf_keyOf (h : '|' ∉ id.toList) : tokenOf (keyOf id) = some id := by
  have hk : (keyOf id).toList = "revoked-token".toList ++ '|' :: id.toList := by
    simp [keyOf, revokedTokenPrefix]
  have hs : (keyOf id).toList.splitOn '|' = ["revoked-token".toList, id.toList] := by
    rw [hk, List.splitOn_append_cons_self_of_not_mem (by decide), List.splitOn_eq_singleton h]
  simp [tokenOf, hs]

/-! ## What keeps a token revoked -/

/-- the key of the token is there, and a scan that is under way returns it or finds the token recent -/
structure Held (s : State) (id : String) : Prop where
  onePart : '|' ∉ id.toList
  revoked : id ∈ s.revokedTokens
  key : keyOf id ∈ s.redis
  scan : ∀ all ∈ s.scan, keyOf id ∈ all ∨ id ∈ s.recentRevokedTokens

/-- a token without a key is revoked as long as it is recent -/
structure Marked (s : State) (id : String) : Prop where
  onePart : '|' ∉ id.toList
  revoked : id ∈ s.revokedTokens
  scan : s.scan ≠ none → id ∈ s.recentRevokedTokens

structure Inv (s : State) : Prop where
  marked : ∀ c ∈ s.calls, c.phase = .marked → Marked s c.id
  stored : ∀ c ∈ s.calls, c.phase = .stored → Held s c.id
  acknowledged : ∀ id ∈ s.acknowledged, Held s id

/-- a step that forgets no token and no key, and does not change the scan -/
structure Grows (s s' : State) : Prop where
  revoked : s.revokedTokens ⊆ s'.revokedTokens
  recent : s.recentRevokedTokens ⊆ s'.recentRevokedTokens
  redis : s.redis ⊆ s'.redis
  scan : s'.scan = s.scan

theorem Held.grows (h : Held s id) (hg : Grows s s') : Held s' id :=
  ⟨h.onePart, hg.revoked h.revoked, hg.redis h.key,
    fun all ha => (h.scan all (hg.scan ▸ ha)).imp_right fun hid => hg.recent hid⟩

theorem Marked.grows (h : Marked s id) (hg : Grows s s') : Marked s' id :=
  ⟨h.onePart, hg.revoked h.revoked, fun hs => hg.recent (h.scan (hg.scan ▸ hs))⟩

/-- the calls and the acknowledgements stay, or shrink -/
theorem Inv.grows (h : Inv s) (hg : Grows s s') (hca : ∀ c ∈ s'.calls, c ∈ s.calls)
    (ha : ∀ id ∈ s'.acknowledged, id ∈ s.acknowledged) : Inv s' :=
  ⟨fun c hc hp => (h.marked c (hca c hc) hp).grows hg, fun c hc hp => (h.stored c (hca c hc) hp).grows hg,
    fun id hid => (h.acknowledged id (ha id hid)).grows hg⟩

theorem grows_mark (s : State) (id : String) : Grows s (s.mark id) :=
  ⟨subset_insert _ _, subset_insert _ _, subset_rfl, rfl⟩

/-! ## Steps -/

section

variable (h : Inv s)

include h

theorem mark_inv (hid : '|' ∉ id.toList) : Inv (step (.mark id) s) := by
  have hg : Grows s (step (.mark id) s) := ⟨subset_insert _ _, subset_insert _ _, subset_rfl, rfl⟩
  refine ⟨fun c hc hp => ?_, fun c hc hp => ?_, fun id' hid' => (h.acknowledged id' hid').grows hg⟩
  · rcases List.mem_append.1 hc with hc | hc
    · exact (h.marked c hc hp).grows hg
    · rw [List.mem_singleton.1 hc]
      exact ⟨hid, mem_insert_self _ _, fun _ => mem_insert_self _ _⟩
  · rcases List.mem_append.1 hc with hc | hc
    · exact (h.stored c hc hp).grows hg
    · rw [List.mem_singleton.1 hc] at hp
      cases hp

theorem store_inv (i : ℕ) (written : Written) : Inv (step (.store i written) s) := by
  simp only [step]
  split
  · rename_i id hca
    have hm := h.marked _ (List.mem_of_getElem? hca) rfl
    have hg : Grows s { s with redis := insert (keyOf id) s.redis, calls := s.calls.set i ⟨id, .stored⟩ } :=
      ⟨subset_rfl, subset_rfl, subset_insert _ _, rfl⟩
    refine ⟨fun c hc hp => ?_, fun c hc hp => ?_, fun id' hid' => (h.acknowledged id' hid').grows hg⟩
    · rcases List.mem_or_eq_of_mem_set hc with hc | rfl
      · exact (h.marked c hc hp).grows hg
      · cases hp
    · rcases List.mem_or_eq_of_mem_set hc with hc | rfl
      · exact (h.stored c hc hp).grows hg
      · -- the key is new, so a scan under way need not return it
        exact ⟨hm.onePart, hm.revoked, mem_insert_self _ _,
          fun all ha => .inr (hm.scan (Option.ne_none_iff_exists'.2 ⟨all, ha⟩))⟩
  · rename_i effect hca
    refine h.grows ⟨subset_rfl, subset_rfl, ?_, rfl⟩ (fun c hc => List.mem_of_mem_eraseIdx hc) fun _ hid => hid
    split_ifs
    · exact subset_insert _ _
    · exact subset_rfl
  · exact h

theorem publish_inv (i : ℕ) (ok : Bool) : Inv (step (.publish i ok) s) := by
  simp only [step]
  split
  · rename_i id hca
    have hh := h.stored _ (List.mem_of_getElem? hca) rfl
    have hg : ∀ ack, Grows s { s with calls := s.calls.eraseIdx i, acknowledged := ack } :=
      fun ack => ⟨subset_rfl, subset_rfl, subset_rfl, rfl⟩
    refine ⟨fun c hc hp => ?_, fun c hc hp => ?_, fun id' hid' => ?_⟩
    · exact (h.marked c (List.mem_of_mem_eraseIdx hc) hp).grows (hg _)
    · exact (h.stored c (List.mem_of_mem_eraseIdx hc) hp).grows (hg _)
    · dsimp only at hid'
      split_ifs at hid'
      · rcases mem_insert.1 hid' with rfl | hid'
        · exact hh.grows (hg _)
        · exact (h.acknowledged id' hid').grows (hg _)
      · exact (h.acknowledged id' hid').grows (hg _)
  · exact h.grows ⟨subset_rfl, subset_rfl, subset_rfl, rfl⟩ (fun c hc => List.mem_of_mem_eraseIdx hc) fun _ hid => hid
  · exact h

theorem beginScan_inv (hr : Timely s .beginScan) : Inv (step .beginScan s) := by
  have hh : ∀ {id}, Held s id → Held (step .beginScan s) id := by
    intro id hid
    refine ⟨hid.onePart, hid.revoked, hid.key, fun all ha => ?_⟩
    cases ha
    exact .inl hid.key
  refine ⟨fun c hc hp => ?_, fun c hc hp => hh (h.stored c hc hp), fun id hid => hh (h.acknowledged id hid)⟩
  have hm := h.marked c hc hp
  exact ⟨hm.onePart, hm.revoked, fun _ => hr c hc hp⟩

/-- what the scan returns and what is recent make up all tokens that are held or marked -/
theorem endScan_inv {keys : Finset String} (hk : Enabled s (.endScan keys)) : Inv (step (.endScan keys) s) := by
  obtain ⟨all, ha, hsu⟩ := hk
  have hh : ∀ {id}, Held s id → Held (step (.endScan keys) s) id := by
    intro id hid
    refine ⟨hid.onePart, ?_, hid.key, nofun⟩
    rcases hid.scan all ha with hke | hr
    · refine mem_union_left _ (mem_biUnion.2 ⟨keyOf id, hsu hke, ?_⟩)
      simp [tokenOf_keyOf hid.onePart]
    · exact mem_union_right _ hr
  refine ⟨fun c hc hp => ?_, fun c hc hp => hh (h.stored c hc hp), fun id hid => hh (h.acknowledged id hid)⟩
  have hm := h.marked c hc hp
  refine ⟨hm.onePart, mem_union_right _ (hm.scan ?_), fun hs => absurd rfl hs⟩
  exact Option.ne_none_iff_exists'.2 ⟨all, ha⟩

theorem failScan_inv : Inv (step .failScan s) := by
  refine ⟨fun c hc hp => ?_, fun c hc hp => ?_, fun id hid => ?_⟩
  · have hm := h.marked c hc hp
    exact ⟨hm.onePart, hm.revoked, fun hs => absurd rfl hs⟩
  · have hh := h.stored c hc hp
    exact ⟨hh.onePart, hh.revoked, hh.key, nofun⟩
  · have hh := h.acknowledged id hid
    exact ⟨hh.onePart, hh.revoked, hh.key, nofun⟩

theorem expire_inv (key : String) : Inv (step (.expire key) s) := by
  have hh : ∀ {id}, Held s id → keyOf id ≠ key → Held (step (.expire key) s) id := by
    intro id hid hne
    refine ⟨hid.onePart, hid.revoked, mem_erase.2 ⟨hne, hid.key⟩, fun all ha => ?_⟩
    obtain ⟨before, hb, rfl⟩ := Option.map_eq_some_iff.1 ha
    exact (hid.scan before hb).imp_left fun hk => mem_erase.2 ⟨hne, hk⟩
  refine ⟨fun c hc hp => ?_, fun c hc hp => ?_, fun id hid => ?_⟩
  · obtain ⟨c', hc', rfl⟩ := List.mem_map.1 hc
    split_ifs at hp ⊢ with hk
    have hm := h.marked c' hc' hp
    refine ⟨hm.onePart, hm.revoked, fun hs => hm.scan fun hn => hs ?_⟩
    simp [step, State.expire, hn]
  · obtain ⟨c', hc', rfl⟩ := List.mem_map.1 hc
    split_ifs at hp ⊢ with hk
    exact hh (h.stored c' hc' hp) fun hne => hk ⟨hp, hne⟩
  · obtain ⟨hid, hne⟩ := mem_filter.1 hid
    exact hh (h.acknowledged id hid) hne

theorem step_inv (a : Action) (ha : Enabled s a ∧ Timely s a) : Inv (step a s) := by
  cases a with
  | mark id => exact mark_inv h ha.2
  | store i written => exact store_inv h i written
  | publish i ok => exact publish_inv h i ok
  | notify payload => exact h.grows (grows_mark s payload) (fun _ hc => hc) fun _ hid => hid
  | beginScan => exact beginScan_inv h ha.2
  | endScan keys => exact endScan_inv h ha.1
  | failScan => exact failScan_inv h
  | expire key => exact expire_inv h key
  | storeElsewhere key =>
    exact h.grows ⟨subset_rfl, subset_rfl, subset_insert _ _, rfl⟩ (fun _ hc => hc) fun _ hid => hid

end

/-! ## Runs -/

/-- **Revocation lasts.** In every state of a timely run, a token whose revocation was acknowledged and whose key has not
expired since is revoked. -/
theorem revocation_lasts (redis : Finset String) (s : State)
    (hreach : Trace.Reach step (fun s a => Enabled s a ∧ Timely s a) (initial redis) s) (id : String)
    (hid : id ∈ s.acknowledged) : s.isTokenRevoked id = true := by
  have hi : Inv s := by
    refine hreach.inv Inv ⟨nofun, nofun, fun id hid => ?_⟩ fun t a ht ha => step_inv ht a ha
    exact absurd hid (notMem_empty id)
  exact decide_eq_true (hi.acknowledged id hid).revoked

/-- the state after a list of actions -/
def run (actions : List Action) : State := actions.foldl (fun s a => step a s) (initial ∅)

/-- a call of `RevokeToken` from its mark to its return, and then a resync -/
def timelyRun : List Action :=
  [.mark "abc", .store 0 .ok, .publish 0 true, .beginScan, .endScan {"revoked-token|abc"}]

theorem revocation_lasts_resync : "abc" ∈ (run timelyRun).acknowledged ∧ (run timelyRun).isTokenRevoked "abc" = true :=
  ⟨by decide +kernel,
    revocation_lasts ∅ (run timelyRun) (Trace.Reach.of_legal (by decide +kernel)) "abc" (by decide +kernel)⟩

/-- the second resync no longer finds the token recent, and skips its key -/
def splitRun : List Action :=
  [.mark "a|b", .store 0 .ok, .publish 0 true, .beginScan, .endScan {"revoked-token|a|b"}, .beginScan,
    .endScan {"revoked-token|a|b"}]

/-- the first resync uses up the mark, and the second scan begins before the key is written -/
def lateRun : List Action :=
  [.mark "abc", .beginScan, .endScan ∅, .beginScan, .store 0 .ok, .publish 0 true, .endScan ∅]

/-- **Two ways to forget a token.** Its key is in Redis, and it is not revoked. -/
theorem revocation_forgotten :
    (Trace.Reach step Enabled (initial ∅) (run splitRun) ∧ "a|b" ∈ (run splitRun).acknowledged ∧
      keyOf "a|b" ∈ (run splitRun).redis ∧ (run splitRun).isTokenRevoked "a|b" = false) ∧
    (Trace.Reach step Enabled (initial ∅) (run lateRun) ∧ "abc" ∈ (run lateRun).acknowledged ∧
      keyOf "abc" ∈ (run lateRun).redis ∧ (run lateRun).isTokenRevoked "abc" = false) :=
  ⟨⟨Trace.Reach.of_legal (by decide +kernel), by decide +kernel⟩,
    ⟨Trace.Reach.of_legal (by decide +kernel), by decide +kernel⟩⟩

end GitOpsDeploy.Session

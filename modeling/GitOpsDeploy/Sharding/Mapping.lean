/-
Shards that controllers take from a config map (`GetOrUpdateShardFromConfigMap` in `controller/sharding/sharding.go`).

The mapping has an entry for each shard, with the controller that has it and the time of its last heartbeat. A
controller that has an entry renews its heartbeat; one that has none takes the first entry that is free or whose
heartbeat is too old. Each call reads and writes the config map in one step, or fails and changes nothing. Time passes
between calls, and controllers restart.
-/
import GitOpsDeploy.Core.Trace

namespace GitOpsDeploy.ShardMapping

open List Function

/-! ## Model -/

/-- a time in nanoseconds; the zero time is none -/
structure Entry where
  shardNumber : ℤ
  controllerName : String
  heartbeatTime : Option ℤ

/-- the first entry with a property is changed, and the loop ends; the number of the entry, if there is one -/
def changeFirst (p : Entry → Bool) (change : Entry → Entry) : List Entry → Option (ℤ × List Entry)
  | [] => none
  | e :: es =>
    if p e then some (e.shardNumber, change e :: es)
    else (changeFirst p change es).map fun (n, es) => (n, e :: es)

variable (replicas : ℕ)

def getDefaultShardMappingData : List Entry := (List.range replicas).map fun i : ℕ => ⟨(i : ℤ), "", none⟩

/-- the mapping for another number of replicas: shards are added at the end, or all are free again -/
def resize (mapping : List Entry) (replicas : ℕ) : List Entry :=
  if mapping.length < replicas then
    mapping ++ (List.range' mapping.length (replicas - mapping.length)).map fun i : ℕ => ⟨(i : ℤ), "", none⟩
  else if replicas < mapping.length then getDefaultShardMappingData replicas
  else mapping

/-- `now` is after the heartbeat and the timeout; the zero time is long ago -/
def expired (timeout now : ℤ) (e : Entry) : Bool := e.heartbeatTime.all fun t => t + timeout < now

/-- a shard that is set in the environment is not -1 -/
def getOrUpdateShardNumberForController (timeout now : ℤ) (mapping : List Entry) (hostname : String) (replicas : ℕ)
    (shard : ℤ) : ℤ × List Entry :=
  let mapping := resize mapping replicas
  let claim := fun e : Entry => { e with controllerName := hostname, heartbeatTime := some now }
  let (shard, mapping) :=
    if shard ≠ -1 ∧ shard < replicas then
      (shard, ((changeFirst (fun e => e.shardNumber = shard) claim mapping).map Prod.snd).getD mapping)
    else
      (changeFirst (fun e => e.controllerName = hostname) (fun e => { e with heartbeatTime := some now }) mapping).getD
        (shard, mapping)
  if shard = -1 then
    (changeFirst (fun e => e.controllerName = "" || expired timeout now e) claim mapping).getD (shard, mapping)
  else (shard, mapping)

/-- none where the index is out of range -/
def generateDefaultShardMapping (now : ℤ) (hostname : String) (replicas : ℕ) (shard : ℤ) : Option (List Entry) :=
  let mapping := getDefaultShardMappingData replicas
  let shard := if shard = -1 ∨ replicas < shard then 0 else shard
  if 0 ≤ shard ∧ shard < mapping.length then
    some (mapping.modify shard.toNat fun e => { e with controllerName := hostname, heartbeatTime := some now })
  else none

/-- a config map that is there has a mapping, or data that cannot be read -/
abbrev ConfigMap := Option (Except String (List Entry))

/-- the shard that the controller is told, and the config map; none where the call fails -/
def getOrUpdateShardFromConfigMap (timeout now : ℤ) (cm : ConfigMap) (hostname : String) (replicas : ℕ) (shard : ℤ) :
    Option (ℤ × ConfigMap) :=
  match cm with
  | none =>
    let shard := if shard = -1 then 0 else shard
    (generateDefaultShardMapping now hostname replicas shard).map fun mapping => (shard, some (.ok mapping))
  | some (.error _) => none
  | some (.ok mapping) =>
    let (shard, mapping) := getOrUpdateShardNumberForController timeout now mapping hostname replicas shard
    some (shard, some (.ok mapping))

/-! ## Runs -/

/-- `told` is the shard that each controller was last told -/
structure State where
  cm : ConfigMap
  now : ℤ
  told : String → Option ℤ

inductive Action where
  /-- a controller without a shard in its environment -/
  | call (hostname : String)
  /-- an error of the API, or a conflict -/
  | fail (hostname : String)
  | restart (hostname : String)
  | wait (d : ℕ)
  deriving DecidableEq, Repr

def step (timeout : ℤ) (replicas : ℕ) : Action → State → State
  | .call hostname, s =>
    match getOrUpdateShardFromConfigMap timeout s.now s.cm hostname replicas (-1) with
    | some (shard, cm) => { s with cm, told := Function.update s.told hostname (some shard) }
    | none => s
  | .fail _, s => s
  | .restart hostname, s => { s with told := Function.update s.told hostname none }
  | .wait d, s => { s with now := s.now + d }

/-- the controller has an entry with a heartbeat that is not too old -/
def Live (timeout : ℤ) (s : State) (hostname : String) : Prop :=
  ∃ mapping, s.cm = some (.ok mapping) ∧
    ∃ e ∈ mapping, e.controllerName = hostname ∧ ∃ t, e.heartbeatTime = some t ∧ s.now ≤ t + timeout

/-! ## Mappings that calls leave -/

/-- an entry that a controller has taken; the controller without a name, if there is one, is told from a free shard by its
heartbeat -/
def Assigned (e : Entry) : Prop := e.controllerName ≠ "" ∨ e.heartbeatTime ≠ none

/-- of two entries in order: they are assigned to different controllers, and no free shard comes before the one that the
controller without a name renews -/
structure Apart (a b : Entry) : Prop where
  names : Assigned a → Assigned b → a.controllerName ≠ b.controllerName
  first : b.controllerName = "" → b.heartbeatTime ≠ none → a.controllerName ≠ ""

/-- shards are numbered from 0, and no controller has two; every call leaves such a mapping, for any number of replicas -/
structure WellFormed (mapping : List Entry) : Prop where
  numbers : mapping.map Entry.shardNumber = (List.range mapping.length).map fun i : ℕ => (i : ℤ)
  apart : mapping.Pairwise Apart

/-- a controller with an entry was last told the number of the entry -/
def Agrees (told : String → Option ℤ) (mapping : List Entry) : Prop :=
  ∀ e ∈ mapping, Assigned e → ∀ n ∈ told e.controllerName, n = e.shardNumber

theorem not_assigned_free (n : ℤ) : ¬Assigned ⟨n, "", none⟩ := by
  simp [Assigned]

theorem apart_free_right {a : Entry} {n : ℤ} : Apart a ⟨n, "", none⟩ :=
  ⟨fun _ hb => absurd hb (not_assigned_free n), fun _ hb => absurd rfl hb⟩

/-! ## The first entry with a property -/

theorem changeFirst_some {p : Entry → Bool} {change : Entry → Entry} {l l' : List Entry} {n : ℤ}
    (h : changeFirst p change l = some (n, l')) :
    ∃ pre e post, l = pre ++ e :: post ∧ (∀ a ∈ pre, p a = false) ∧ p e = true ∧ n = e.shardNumber ∧
      l' = pre ++ change e :: post := by
  induction l generalizing l' with
  | nil => cases h
  | cons e es ih =>
    unfold changeFirst at h
    split_ifs at h with hp
    · cases h
      exact ⟨[], e, es, rfl, nofun, hp, rfl, rfl⟩
    · obtain ⟨⟨m, rest⟩, hr, heq⟩ := Option.map_eq_some_iff.1 h
      cases heq
      obtain ⟨pre, e', post, rfl, hpr, he', hn, rfl⟩ := ih hr
      refine ⟨e :: pre, e', post, rfl, ?_, he', hn, rfl⟩
      exact forall_mem_cons.2 ⟨Bool.eq_false_iff.2 hp, hpr⟩

theorem changeFirst_none {p : Entry → Bool} {change : Entry → Entry} {l : List Entry}
    (h : changeFirst p change l = none) : ∀ a ∈ l, p a = false := by
  induction l with
  | nil => exact nofun
  | cons e es ih =>
    unfold changeFirst at h
    split_ifs at h with hp
    exact forall_mem_cons.2 ⟨Bool.eq_false_iff.2 hp, ih (Option.map_eq_none_iff.1 h)⟩

/-! ## Calls keep mappings well-formed -/

theorem wellFormed_default : WellFormed (getDefaultShardMappingData replicas) := by
  constructor
  · rw [getDefaultShardMappingData, map_map, length_map, length_range]
    rfl
  · rw [getDefaultShardMappingData, pairwise_map]
    exact pairwise_of_forall fun _ _ => apart_free_right

theorem agrees_default (told : String → Option ℤ) (replicas : ℕ) :
    Agrees told (getDefaultShardMappingData replicas) := by
  intro e he ha
  obtain ⟨i, -, rfl⟩ := mem_map.1 he
  exact absurd ha (not_assigned_free i)

theorem length_resize (mapping : List Entry) (replicas : ℕ) : (resize mapping replicas).length = replicas := by
  unfold resize
  split_ifs with hl hm
  · rw [length_append, length_map, length_range']
    omega
  · rw [getDefaultShardMappingData, length_map, length_range]
  · omega

variable {mapping : List Entry}

theorem resize_numbers
    (h : mapping.map Entry.shardNumber = (List.range mapping.length).map fun i : ℕ => (i : ℤ)) (replicas : ℕ) :
    (resize mapping replicas).map Entry.shardNumber = (List.range replicas).map fun i : ℕ => (i : ℤ) := by
  unfold resize
  split_ifs with hl hm
  · nth_rewrite 2 [← Nat.add_sub_of_le hl.le]
    rw [map_append, h, map_map, range_eq_range', range_eq_range', ← List.range'_append_1, map_append, Nat.zero_add]
    rfl
  · rw [getDefaultShardMappingData, map_map]
    rfl
  · rw [h, show mapping.length = replicas by omega]

theorem resize_wellFormed (h : WellFormed mapping) (replicas : ℕ) : WellFormed (resize mapping replicas) := by
  refine ⟨by rw [resize_numbers h.numbers, length_resize], ?_⟩
  unfold resize
  split_ifs with hl hm
  · rw [pairwise_append]
    refine ⟨h.apart, ?_, fun a _ b hb => ?_⟩
    · rw [pairwise_map]
      exact pairwise_of_forall fun _ _ => apart_free_right
    · obtain ⟨i, -, rfl⟩ := mem_map.1 hb
      exact apart_free_right
  · exact (wellFormed_default replicas).apart
  · exact h.apart

variable {told : String → Option ℤ}

theorem resize_agrees (h : Agrees told mapping) (replicas : ℕ) : Agrees told (resize mapping replicas) := by
  unfold resize
  split_ifs with hl hm
  · intro e he ha
    rcases mem_append.1 he with he | he
    · exact h e he ha
    · obtain ⟨i, -, rfl⟩ := mem_map.1 he
      exact absurd ha (not_assigned_free i)
  · exact agrees_default told replicas
  · exact h

/-- one entry is taken or renewed, and its controller told its number -/
theorem change_kept {pre post : List Entry} {e e' : Entry} (h : WellFormed (pre ++ e :: post))
    (ht : Agrees told (pre ++ e :: post)) (hnu : e'.shardNumber = e.shardNumber)
    (hpr : ∀ a ∈ pre, a.controllerName ≠ e'.controllerName)
    (hp : ∀ b ∈ post, Assigned b → b.controllerName ≠ e'.controllerName) : WellFormed (pre ++ e' :: post) ∧
      Agrees (Function.update told e'.controllerName (some e.shardNumber)) (pre ++ e' :: post) := by
  refine ⟨⟨?_, ?_⟩, fun a ha has n hn => ?_⟩
  · have hn := h.numbers
    simp only [map_append, map_cons, length_append, length_cons] at hn ⊢
    rw [hnu, hn]
  · obtain ⟨hpres, hr, hc⟩ := pairwise_append.1 h.apart
    obtain ⟨he, hpo⟩ := pairwise_cons.1 hr
    refine pairwise_append.2 ⟨hpres, pairwise_cons.2 ⟨fun b hb => ?_, hpo⟩, fun a ha b hb => ?_⟩
    · refine ⟨fun _ has => (hp b hb has).symm, fun hna hbe hf => ?_⟩
      exact hp b hb (.inr hbe) (hna.trans hf.symm)
    · rcases mem_cons.1 hb with rfl | hb
      · exact ⟨fun _ _ => hpr a ha, fun hna _ hf => hpr a ha (hf.trans hna.symm)⟩
      · exact hc a ha b (mem_cons_of_mem _ hb)
  · rcases mem_append.1 ha with ha | ha
    · rw [update_of_ne (hpr a ha)] at hn
      exact ht a (mem_append_left _ ha) has n hn
    rcases mem_cons.1 ha with rfl | ha
    · rw [update_self, Option.mem_some_iff] at hn
      rw [hnu, hn]
    · rw [update_of_ne (hp a ha has)] at hn
      exact ht a (mem_append_right _ (mem_cons_of_mem _ ha)) has n hn

section Calls

variable {timeout now : ℤ} {mapping : List Entry} {told : String → Option ℤ} {hostname : String}

variable {l : List Entry}

/-- a controller with an entry renews it -/
theorem renew {n : ℤ} (h : WellFormed mapping) (ht : Agrees told mapping)
    (hfo : changeFirst (fun e => e.controllerName = hostname) (fun e => { e with heartbeatTime := some now }) mapping =
      some (n, l)) :
    WellFormed l ∧ Agrees (Function.update told hostname (some n)) l := by
  obtain ⟨pre, e, post, rfl, hp, he, rfl, rfl⟩ := changeFirst_some hfo
  obtain rfl := of_decide_eq_true he
  have hp' : ∀ a ∈ pre, a.controllerName ≠ e.controllerName := fun a ha => of_decide_eq_false (hp a ha)
  have hpo : ∀ b ∈ post, Assigned b → b.controllerName ≠ e.controllerName := by
    intro b hb has hn
    obtain ⟨-, hr, -⟩ := pairwise_append.1 h.apart
    have hap := (pairwise_cons.1 hr).1 b hb
    by_cases hf : e.controllerName = ""
    · -- of the free shards the first one is renewed, and no other has a heartbeat
      have hbe := has.resolve_left fun hne => hne (hn.trans hf)
      exact hap.first (hn.trans hf) hbe hf
    · exact hap.names (.inl hf) has hn.symm
  exact change_kept h ht rfl hp' hpo

/-- a controller without an entry takes one -/
theorem take {n : ℤ} {p : Entry → Bool} (h : WellFormed mapping) (ht : Agrees told mapping)
    (hn : ∀ a ∈ mapping, a.controllerName ≠ hostname)
    (hf : changeFirst p (fun e => { e with controllerName := hostname, heartbeatTime := some now }) mapping =
      some (n, l)) :
    WellFormed l ∧ Agrees (Function.update told hostname (some n)) l := by
  obtain ⟨pre, e, post, rfl, -, -, rfl, rfl⟩ := changeFirst_some hf
  exact change_kept h ht rfl (fun a ha => hn a (mem_append_left _ ha))
    fun b hb _ => hn b (mem_append_right _ (mem_cons_of_mem _ hb))

theorem number_ne (h : WellFormed mapping) {e : Entry} (he : e ∈ mapping) : e.shardNumber ≠ -1 := by
  have hm : e.shardNumber ∈ mapping.map Entry.shardNumber := mem_map_of_mem he
  rw [h.numbers] at hm
  obtain ⟨i, -, hi⟩ := mem_map.1 hm
  omega

theorem getOrUpdate_kept (h : WellFormed mapping) (ht : Agrees told mapping) :
    WellFormed (getOrUpdateShardNumberForController timeout now mapping hostname replicas (-1)).2 ∧
      Agrees (Function.update told hostname
          (some (getOrUpdateShardNumberForController timeout now mapping hostname replicas (-1)).1))
        (getOrUpdateShardNumberForController timeout now mapping hostname replicas (-1)).2 := by
  have hs := resize_wellFormed h replicas
  have hto := resize_agrees ht replicas
  unfold getOrUpdateShardNumberForController
  simp only [ne_eq, not_true_eq_false, false_and, if_false]
  cases hm : changeFirst (fun e => e.controllerName = hostname) (fun e => { e with heartbeatTime := some now })
      (resize mapping replicas) with
  | some r =>
    obtain ⟨n, l⟩ := r
    have hn : n ≠ -1 := by
      obtain ⟨pre, e, post, hl, -, -, rfl, -⟩ := changeFirst_some hm
      exact number_ne hs (hl ▸ mem_append_right _ mem_cons_self)
    simp only [Option.getD_some, hn, if_false]
    exact renew hs hto hm
  | none =>
    have hno : ∀ a ∈ resize mapping replicas, a.controllerName ≠ hostname :=
      fun a ha => of_decide_eq_false (changeFirst_none hm a ha)
    simp only [Option.getD_none, if_true]
    cases hf : changeFirst (fun e => e.controllerName = "" || expired timeout now e)
        (fun e => { e with controllerName := hostname, heartbeatTime := some now }) (resize mapping replicas) with
    | some r => exact take hs hto hno hf
    | none =>
      refine ⟨hs, fun e he has n hn => ?_⟩
      rw [update_of_ne (hno e he)] at hn
      exact hto e he has n hn

theorem generateDefault_kept {replicas : ℕ} (hl : generateDefaultShardMapping now hostname replicas 0 = some l) :
    WellFormed l ∧ Agrees (Function.update told hostname (some 0)) l := by
  unfold generateDefaultShardMapping at hl
  simp only [show ¬((0 : ℤ) = -1 ∨ (replicas : ℤ) < 0) by omega, if_false] at hl
  split_ifs at hl with hpo
  cases hl
  cases replicas with
  | zero => simp [getDefaultShardMappingData] at hpo
  | succ k =>
    have hs : getDefaultShardMappingData (k + 1) =
        [] ++ ⟨0, "", none⟩ :: (List.range k).map fun i : ℕ => ⟨(i : ℤ) + 1, "", none⟩ := by
      simp [getDefaultShardMappingData, range_succ_eq_map, comp_def]
    have hwf := wellFormed_default (k + 1)
    have ha := agrees_default told (k + 1)
    rw [hs] at hwf ha ⊢
    refine change_kept hwf ha rfl nofun fun b hb has => ?_
    obtain ⟨i, -, rfl⟩ := mem_map.1 hb
    exact absurd has (not_assigned_free _)

end Calls

/-! ## Runs -/

/-- the mapping, if there is one, is well-formed and agrees with what the controllers were told -/
def Inv (s : State) : Prop := ∀ mapping, s.cm = some (.ok mapping) → WellFormed mapping ∧ Agrees s.told mapping

theorem call_inv {timeout now : ℤ} {replicas : ℕ} {cm cm' : ConfigMap} {hostname : String}
    {shard : ℤ} (h : Inv ⟨cm, now, told⟩)
    (hc : getOrUpdateShardFromConfigMap timeout now cm hostname replicas (-1) = some (shard, cm')) :
    Inv ⟨cm', now, Function.update told hostname (some shard)⟩ := by
  cases cm with
  | none =>
    obtain ⟨l, hl, heq⟩ := Option.map_eq_some_iff.1 hc
    cases heq
    rintro _ ⟨⟩
    exact generateDefault_kept hl
  | some r =>
    cases r with
    | error err => cases hc
    | ok before =>
      obtain ⟨hwf, ha⟩ := h before rfl
      cases hc
      rintro _ ⟨⟩
      exact getOrUpdate_kept replicas hwf ha

theorem step_inv {timeout : ℤ} {replicas : ℕ} {s : State} (h : Inv s) (a : Action) :
    Inv (step timeout replicas a s) := by
  cases a with
  | call hostname =>
    dsimp only [step]
    cases hc : getOrUpdateShardFromConfigMap timeout s.now s.cm hostname replicas (-1) with
    | none => exact h
    | some r => exact call_inv h hc
  | restart hostname =>
    intro mapping hm
    obtain ⟨hwf, hag⟩ := h mapping hm
    refine ⟨hwf, fun e he ha n hn => hag e he ha n ?_⟩
    simp only [step] at hn
    by_cases hna : e.controllerName = hostname
    · rw [hna, update_self] at hn
      cases hn
    · rwa [update_of_ne hna] at hn
  | _ => exact h

/-- the controllers have not been told anything yet; there is no config map, or one that earlier calls have left -/
structure Initial (s : State) : Prop where
  told : ∀ hostname, s.told hostname = none
  cm : ∀ mapping, s.cm = some (.ok mapping) → WellFormed mapping

/-- **No two live controllers share a shard.** -/
theorem no_shared_shard (timeout : ℤ) (replicas : ℕ) (s₀ s : State) (h₀ : Initial s₀)
    (hreach : Trace.Reach (step timeout replicas) (fun _ _ => True) s₀ s) (c d : String) (hcd : c ≠ d)
    (hc : Live timeout s c) (hd : Live timeout s d) (n m : ℤ) (hn : s.told c = some n) (hm : s.told d = some m) :
    n ≠ m := by
  have hi : Inv s := by
    refine hreach.inv Inv (fun mapping hma => ⟨h₀.cm mapping hma, ?_⟩) fun t a ht _ => step_inv ht a
    intro e _ _ n hn
    rw [h₀.told] at hn
    cases hn
  obtain ⟨mapping, hma, e, he, rfl, t, het, -⟩ := hc
  obtain ⟨mapping', hma', e', he', rfl, t', het', -⟩ := hd
  cases hma.symm.trans hma'
  obtain ⟨hwf, ha⟩ := hi mapping hma
  intro hnm
  have hnu : e.shardNumber = e'.shardNumber := by
    rw [← ha e he (.inr (by simp [het])) n hn, ← ha e' he' (.inr (by simp [het'])) m hm, hnm]
  have hno : (mapping.map Entry.shardNumber).Nodup := by
    rw [hwf.numbers]
    exact nodup_range.map Nat.cast_injective
  exact hcd (congrArg Entry.controllerName (inj_on_of_nodup_map hno he he' hnu))

/-- two controllers call in turn, and there is no config map yet -/
def twoCalls : State :=
  [Action.call "controller-a", .call "controller-b"].foldl (fun s a => step 30 2 a s) ⟨none, 0, fun _ => none⟩

theorem no_shared_shard_two :
    (Live 30 twoCalls "controller-a" ∧ Live 30 twoCalls "controller-b") ∧
      (twoCalls.told "controller-a" = some 0 ∧ twoCalls.told "controller-b" = some 1) ∧ (0 : ℤ) ≠ 1 := by
  have hm : twoCalls.cm = some (.ok [⟨0, "controller-a", some 0⟩, ⟨1, "controller-b", some 0⟩]) := by rfl
  have ha : Live 30 twoCalls "controller-a" := ⟨_, hm, _, mem_cons_self, rfl, 0, rfl, by decide⟩
  have hb : Live 30 twoCalls "controller-b" :=
    ⟨_, hm, _, mem_cons_of_mem _ mem_cons_self, rfl, 0, rfl, by decide⟩
  have ht : twoCalls.told "controller-a" = some 0 ∧ twoCalls.told "controller-b" = some 1 := ⟨rfl, rfl⟩
  have hr : Trace.Reach (step 30 2) (fun _ _ => True) ⟨none, 0, fun _ => none⟩ twoCalls :=
    (Trace.Reach.refl.tail (Action.call "controller-a") trivial).tail (Action.call "controller-b") trivial
  have hi : Initial ⟨none, 0, fun _ => none⟩ := ⟨fun _ => rfl, fun _ h => by cases h⟩
  exact ⟨⟨ha, hb⟩, ht,
    no_shared_shard 30 2 _ twoCalls hi hr _ _ (by decide) ha hb 0 1 ht.1 ht.2⟩

end GitOpsDeploy.ShardMapping

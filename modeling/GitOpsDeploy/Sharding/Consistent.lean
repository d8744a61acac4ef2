/-
Consistent hashing with bounded loads (`controller/sharding/consistent/consistent.go`).

The hash (the first eight bytes of blake2b-512) is a parameter. Loads are counts of applications, modelled by ℤ, on which
int64 and float64 are exact up to 2^50; `math.Ceil(avg * 1.25)` is `(5 * avg + 3) / 4`.
-/
import GitOpsDeploy.Core.Decimal
import GitOpsDeploy.Core.Ring

namespace GitOpsDeploy.Sharding

open List Function Finset

open Decimal

structure Consistent where
  /-- the host that owns a point of the ring -/
  servers : ℕ → Option String
  /-- the points of the ring -/
  clients : Finset ℕ
  /-- the keys of the load map -/
  hosts : Finset String
  /-- the loads in the load map, meaningful on its keys -/
  load : String → ℤ
  totalLoad : ℤ
  replicationFactor : ℕ

namespace Consistent

/-- `New()` -/
def new : Consistent :=
  { servers := fun _ => none, clients := ∅, hosts := ∅, load := fun _ => 0, totalLoad := 0, replicationFactor := 1000 }

/-- the i-th point of a server is placed at the hash of this name -/
def pointName (server : String) (i : ℕ) : String := server ++ itoa i

variable (hash : String → ℕ) (server : String)

def addPoint (c : Consistent) (i : ℕ) : Consistent :=
  { c with
    servers := Function.update c.servers (hash (pointName server i)) (some server)
    clients := insert (hash (pointName server i)) c.clients }

/-- the points of a server, of which there are k -/
def points (k : ℕ) : Finset ℕ :=
  (Finset.range k).image fun i => hash (pointName server i)

def add (c : Consistent) (server : String) : Consistent :=
  if server ∈ c.hosts then c
  else (List.range c.replicationFactor).foldl (addPoint hash server)
    { c with hosts := insert server c.hosts, load := Function.update c.load server 0 }

/-- the safety check at the head of `loadOK` -/
def clamp (c : Consistent) : Consistent := if c.totalLoad < 0 then { c with totalLoad := 0 } else c

/-- the load a host has to stay below to be offered another client -/
def bound (c : Consistent) : ℤ :=
  let avgLoadPerNode := (c.totalLoad + 1) / (c.hosts.card : ℤ)
  let avgLoadPerNode := if avgLoadPerNode = 0 then 1 else avgLoadPerNode
  (5 * avgLoadPerNode + 3) / 4

/-- `none` is the panic on a host that is not in the load map -/
def loadOK (c : Consistent) (server : String) : Option Bool :=
  if server ∈ c.hosts then some (decide (c.load server < c.bound)) else none

def owner (c : Consistent) (pt : ℕ) : String := (c.servers pt).getD ""

/-- the loop ends at a point whose host can take the client, or panics there -/
def stopsAt (c : Consistent) (pt : ℕ) : Bool := c.loadOK (c.owner pt) != some false

def errNoHosts : String := "no hosts added"

/-- `none` is a lookup that never returns: the loop turns forever or panics. The walk visits at most every point once
before it repeats itself, so the number of points is fuel enough to decide that. -/
def getLeast (c : Consistent) (client : String) : Option (Except String String × Consistent) :=
  if hne : c.clients.Nonempty then
    match Ring.search c.clients hne c.clamp.stopsAt c.clients.card (hash client) with
    | none => none
    | some pt => (c.clamp.loadOK (c.clamp.owner pt)).map fun _ => (.ok (c.clamp.owner pt), c.clamp)
  else some (.error errNoHosts, c)

def updateLoad (c : Consistent) (server : String) (load : ℤ) : Consistent :=
  if server ∈ c.hosts then
    { c with totalLoad := c.totalLoad - c.load server + load, load := Function.update c.load server load }
  else c

/-! ## What the operations keep -/

/-- points belong to hosts, and the total is the sum of loads that are not negative -/
structure Sound (c : Consistent) : Prop where
  owned : ∀ pt ∈ c.clients, c.owner pt ∈ c.hosts
  nonneg : ∀ s ∈ c.hosts, 0 ≤ c.load s
  total : c.totalLoad = ∑ s ∈ c.hosts, c.load s

/-- every host owns a point of the ring -/
def Covered (c : Consistent) : Prop := ∀ s ∈ c.hosts, ∃ pt ∈ c.clients, c.servers pt = some s

variable {c : Consistent}

theorem Sound.total_nonneg (h : c.Sound) : 0 ≤ c.totalLoad := by
  rw [h.total]
  exact sum_nonneg h.nonneg

theorem Sound.clamp_eq (h : c.Sound) : c.clamp = c := by
  unfold clamp
  rw [if_neg (not_lt.2 h.total_nonneg)]

theorem new_sound : new.Sound where
  owned pt h := absurd h (notMem_empty pt)
  nonneg s h := absurd h (notMem_empty s)
  total := rfl

theorem points_succ (k : ℕ) :
    points hash server (k + 1) = insert (hash (pointName server k)) (points hash server k) := by
  rw [points, Finset.range_add_one, image_insert]
  rfl

/-- a host takes its points, whoever had them -/
theorem addPoints_eq (k : ℕ) (c : Consistent) : (List.range k).foldl (addPoint hash server) c = { c with
        servers := fun pt => if pt ∈ points hash server k then some server else c.servers pt
        clients := c.clients ∪ points hash server k } := by
  induction k with
  | zero => simp [points]
  | succ k ih =>
    rw [List.range_succ, foldl_append, ih, points_succ]
    simp only [foldl_cons, foldl_nil, addPoint, union_insert]
    congr 1
    funext pt
    by_cases he : pt = hash (pointName server k)
    · simp [he]
    · simp [he]

theorem add_eq {c : Consistent} {server : String} (h : server ∉ c.hosts) : c.add hash server = { c with
      hosts := insert server c.hosts
      load := Function.update c.load server 0
      servers := fun pt => if pt ∈ points hash server c.replicationFactor then some server else c.servers pt
      clients := c.clients ∪ points hash server c.replicationFactor } := by
  rw [add, if_neg h, addPoints_eq]

theorem sum_insert_host {server : String} (h : server ∉ c.hosts) :
    ∑ s ∈ insert server c.hosts, Function.update c.load server 0 s = ∑ s ∈ c.hosts, c.load s := by
  rw [sum_insert h, update_self, zero_add, sum_update_of_notMem h]

theorem add_sound (c : Consistent) (server : String) (h : c.Sound) : (c.add hash server).Sound := by
  by_cases hs : server ∈ c.hosts
  · rwa [add, if_pos hs]
  rw [add_eq hash hs]
  refine ⟨fun pt hpt => ?_, fun s hm => ?_, ?_⟩
  · simp only [owner]
    split_ifs with hp
    · exact mem_insert_self _ _
    · exact mem_insert_of_mem (h.owned pt ((Finset.mem_union.1 hpt).resolve_right hp))
  · by_cases he : s = server
    · simp [he]
    · simpa [update_of_ne he] using h.nonneg s (mem_of_mem_insert_of_ne hm he)
  · exact h.total.trans (sum_insert_host hs).symm

theorem sum_update_load {server : String} (h : server ∈ c.hosts) (load : ℤ) :
    ∑ s ∈ c.hosts, Function.update c.load server load s = ∑ s ∈ c.hosts, c.load s - c.load server + load := by
  rw [sum_update_of_mem h, sdiff_singleton_eq_erase, ← add_sum_erase _ c.load h]
  ring

theorem updateLoad_sound (c : Consistent) (server : String) (load : ℤ) (h : c.Sound) (hl : 0 ≤ load) :
    (c.updateLoad server load).Sound := by
  unfold updateLoad
  split_ifs with hs
  · refine ⟨h.owned, fun s hm => ?_, ?_⟩
    · by_cases he : s = server
      · simpa [he] using hl
      · simpa [update_of_ne he] using h.nonneg s hm
    · simp only [h.total, sum_update_load hs]
  · exact h

/-! ## The lookup ends at a host -/

/-- the bound is above the average, so not every host has reached it -/
theorem exists_loadOK (h : c.Sound) (hne : c.hosts.Nonempty) : ∃ s ∈ c.hosts, c.load s < c.bound := by
  by_contra ha
  have hge : ∀ s ∈ c.hosts, c.bound ≤ c.load s := fun s hs => not_lt.1 fun hlt => ha ⟨s, hs, hlt⟩
  have hsu : c.hosts.card * c.bound ≤ c.totalLoad := by
    rw [h.total]
    exact card_nsmul_le_sum _ _ _ hge
  have hc : (0 : ℤ) < c.hosts.card := by exact_mod_cast card_pos.2 hne
  have hnn := h.total_nonneg
  set n : ℤ := (c.hosts.card : ℤ)
  set q : ℤ := (c.totalLoad + 1) / n
  have hq : c.totalLoad + 1 < n * (q + 1) := by
    have := Int.lt_ediv_add_one_mul_self (c.totalLoad + 1) hc
    rwa [mul_comm] at this
  have hq0 : 0 ≤ q := Int.ediv_nonneg (by omega) (by omega)
  have hb : q + 1 ≤ c.bound := by
    have hbo : c.bound = (5 * (if q = 0 then 1 else q) + 3) / 4 := rfl
    rw [hbo]
    split_ifs with h0 <;> omega
  have hle : n * (q + 1) ≤ n * c.bound := mul_le_mul_of_nonneg_left hb (by omega)
  omega

theorem getLeast_returns (h : c.Sound) (hco : c.Covered) (hne : c.hosts.Nonempty) (client : String) :
    ∃ s ∈ c.hosts, c.load s < c.bound ∧ c.getLeast hash client = some (.ok s, c) := by
  obtain ⟨s, hs, hlt⟩ := exists_loadOK h hne
  obtain ⟨pt, hpt, ho⟩ := hco s hs
  have hc : c.clients.Nonempty := ⟨pt, hpt⟩
  have hst : c.stopsAt pt = true := by simp [stopsAt, loadOK, owner, ho, hs, hlt]
  obtain ⟨x, hx⟩ := Option.isSome_iff_exists.1
    (Ring.search_isSome c.clients hc c.stopsAt pt hpt hst (hash client))
  obtain ⟨hxm, hxo⟩ := Ring.search_some _ _ _ _ _ _ hx
  have hxs := h.owned x hxm
  refine ⟨c.owner x, hxs, by simpa [stopsAt, loadOK, hxs] using hxo, ?_⟩
  simp [getLeast, hc, h.clamp_eq, hx, loadOK, hxs]

/-! ## Every host keeps a point -/

variable (n : ℕ)

/-- the ring of the hosts "0" … "n-1", in the order in which they are added -/
def addAll : Consistent := (List.range n).foldl (fun c i => c.add hash (itoa i)) new

/-- the hash leaves every one of n hosts a point that no later host takes over -/
def KeepsPoints : Prop :=
  ∀ i < n, ∃ a < 1000, ∀ j, i < j → j < n → ∀ b < 1000, hash (pointName (itoa j) b) ≠
    hash (pointName (itoa i) a)

/-- after m hosts: which they are, and that a point of theirs no later one has taken is still theirs -/
structure Filled (hash : String → ℕ) (m : ℕ) (c : Consistent) : Prop where
  factor : c.replicationFactor = 1000
  hosts : c.hosts = (Finset.range m).image itoa
  kept : ∀ i < m, ∀ a < 1000, (∀ j, i < j → j < m →
    ∀ b < 1000, hash (pointName (itoa j) b) ≠ hash (pointName (itoa i) a)) →
    hash (pointName (itoa i) a) ∈ c.clients ∧ c.servers (hash (pointName (itoa i) a)) = some (itoa i)

theorem add_filled (m : ℕ) (c : Consistent) (h : c.Filled hash m) : (c.add hash (itoa m)).Filled hash (m + 1) := by
  have hm : itoa m ∉ c.hosts := by
    rw [h.hosts, mem_image]
    intro hex
    obtain ⟨i, hi, heq⟩ := hex
    have hlt := Finset.mem_range.1 hi
    have := itoa_injective heq
    omega
  rw [add_eq hash hm]
  refine ⟨h.factor, ?_, fun i hi a ha hf => ?_⟩
  · rw [h.hosts, range_add_one, image_insert]
  · simp only [h.factor, Finset.mem_union]
    by_cases him : i = m
    · subst him
      have hp : hash (pointName (itoa i) a) ∈ points hash (itoa i) 1000 :=
        mem_image_of_mem _ (Finset.mem_range.2 ha)
      exact ⟨.inr hp, if_pos hp⟩
    · have hil : i < m := by omega
      obtain ⟨hme, ho⟩ := h.kept i hil a ha fun j hij hj b hb => hf j hij (by omega) b hb
      refine ⟨.inl hme, ?_⟩
      rw [if_neg, ho]
      rw [points, mem_image]
      rintro ⟨b, hb, he⟩
      exact hf m hil (by omega) b (Finset.mem_range.1 hb) he

theorem addAll_filled : (addAll hash n).Filled hash n := by
  induction n with
  | zero => exact ⟨rfl, rfl, fun i hi => absurd hi (Nat.not_lt_zero i)⟩
  | succ n ih =>
    rw [addAll, range_succ, foldl_append]
    exact add_filled hash n _ ih

theorem addAll_sound : (addAll hash n).Sound := by
  induction n with
  | zero => exact new_sound
  | succ n ih =>
    rw [addAll, range_succ, foldl_append]
    exact add_sound hash _ _ ih

theorem addAll_load (s : String) : (addAll hash n).load s = 0 := by
  induction n with
  | zero => rfl
  | succ n ih =>
    rw [addAll, range_succ, foldl_append]
    change ((addAll hash n).add hash (itoa n)).load s = 0
    by_cases hs : itoa n ∈ (addAll hash n).hosts
    · rwa [add, if_pos hs]
    · rw [add_eq hash hs]
      by_cases he : s = itoa n
      · simp [he]
      · simpa [update_of_ne he] using ih

theorem covered_addAll {hash : String → ℕ} {n : ℕ} (h : KeepsPoints hash n) : (addAll hash n).Covered := by
  have hf := addAll_filled hash n
  intro s hs
  rw [hf.hosts, mem_image] at hs
  obtain ⟨i, hi, rfl⟩ := hs
  have hi := Finset.mem_range.1 hi
  obtain ⟨a, ha, hfr⟩ := h i hi
  exact ⟨_, hf.kept i hi a ha hfr⟩

/-- the ring after updates of loads -/
def loaded (loads : List (String × ℕ)) : Consistent :=
  loads.foldl (fun c l => c.updateLoad l.1 l.2) (addAll hash n)

/-- what updates of loads keep: a load times the number of hosts is at most B -/
structure Loaded (B : ℤ) (c : Consistent) : Prop where
  sound : c.Sound
  covered : c.Covered
  card : c.hosts.card = n
  small : ∀ s ∈ c.hosts, n * c.load s ≤ B

theorem loaded_keeps {hash : String → ℕ} {n : ℕ} (hk : KeepsPoints hash n) {B : ℤ} (hB : 0 ≤ B)
    (loads : List (String × ℕ)) (hl : ∀ l ∈ loads, n * (l.2 : ℤ) ≤ B) : Loaded n B (loaded hash n loads) := by
  refine foldlRecOn (motive := Loaded n B) loads _ ⟨addAll_sound hash n, covered_addAll hk, ?_, fun s _ => ?_⟩
    fun c hc l hmem => ⟨updateLoad_sound c _ _ hc.sound (Int.natCast_nonneg _), ?_, ?_, ?_⟩
  · rw [(addAll_filled hash n).hosts, card_image_of_injective _ itoa_injective, card_range]
  · simpa [addAll_load] using hB
  all_goals unfold updateLoad; split_ifs
  · exact hc.covered
  · exact hc.covered
  · exact hc.card
  · exact hc.card
  · intro s hs
    by_cases he : s = l.1
    · simpa [he] using hl l hmem
    · simpa [update_of_ne he] using hc.small s hs
  · exact hc.small

/-- the total is at most the number of hosts times the largest load -/
theorem Loaded.total_le {B : ℤ} (h : Loaded n B c) (hn : 0 < n) : c.totalLoad ≤ B := by
  have hs : ∑ s ∈ c.hosts, n * c.load s ≤ c.hosts.card • B := sum_le_card_nsmul _ _ _ h.small
  rw [← mul_sum, ← h.sound.total, h.card, nsmul_eq_mul] at hs
  exact le_of_mul_le_mul_left hs (by exact_mod_cast hn)

/-- **Lookups end.** After updates with loads of which no sum over the hosts gets to 2^50, the total stays there, where its
int64 sum and the float64 arithmetic of the bound are exact, and a lookup returns a host below the bound. -/
theorem getLeast_loaded {hash : String → ℕ} {n : ℕ} (hk : KeepsPoints hash n) (hn : 0 < n)
    (loads : List (String × ℕ))
    (hl : ∀ l ∈ loads, n * (l.2 : ℤ) ≤ 2 ^ 50) (client : String) : (loaded hash n loads).totalLoad ≤ 2 ^ 50 ∧
      ∃ s ∈ (loaded hash n loads).hosts, (loaded hash n loads).load s < (loaded hash n loads).bound ∧
        (loaded hash n loads).getLeast hash client = some (.ok s, loaded hash n loads) := by
  have hc := loaded_keeps hk (by positivity) loads hl
  refine ⟨hc.total_le n hn, getLeast_returns hash hc.sound hc.covered ?_ client⟩
  rw [← card_pos, hc.card]
  exact hn

/-- a hash with distinct values on short names: their first eight bytes, as a number -/
def firstBytes (name : String) : ℕ := Nat.ofDigits 256 ((name.toList.take 8).map fun c => c.toNat % 256)

/-- the points of "0" have another first byte than those of "1" -/
theorem firstBytes_keepsPoints : KeepsPoints firstBytes 2 := by
  intro i hi
  refine ⟨0, by decide, fun j hij hj b _ he => ?_⟩
  obtain ⟨rfl, rfl⟩ : i = 0 ∧ j = 1 := by omega
  have h1 : (itoa 1).toList = ['1'] := by decide
  have h0 : (itoa 0).toList = ['0'] := by decide
  have := congrArg (· % 256) he
  simp [firstBytes, pointName, h0, h1, Nat.ofDigits_cons] at this

theorem getLeast_loaded_two : (loaded firstBytes 2 [("0", 5), ("1", 3)]).totalLoad ≤ 2 ^ 50 ∧
    ∃ s ∈ (loaded firstBytes 2 [("0", 5), ("1", 3)]).hosts,
      (loaded firstBytes 2 [("0", 5), ("1", 3)]).load s < (loaded firstBytes 2 [("0", 5), ("1", 3)]).bound ∧
        (loaded firstBytes 2 [("0", 5), ("1", 3)]).getLeast firstBytes "a" =
          some (.ok s, loaded firstBytes 2 [("0", 5), ("1", 3)]) :=
  getLeast_loaded firstBytes_keepsPoints Nat.two_pos [("0", 5), ("1", 3)] (by decide) "a"

end Consistent

end GitOpsDeploy.Sharding

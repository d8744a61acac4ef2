/-
Session tokens in several cookies (`MakeCookieMetadata`, `splitCookie`, `JoinCookies` in `util/http/http.go`).

Texts are lists of their bytes. A cookie leaves three bytes beside its key and value, enough for one digit: from ten chunks
on, the number of chunks takes two.
-/
import GitOpsDeploy.Core.Decimal

namespace GitOpsDeploy.Cookies

open Decimal

abbrev Bytes := List Char

def digits (n : ℕ) : Bytes := (itoa n).toList

/-! ## Splitting -/

structure Cookie where
  name : Bytes
  value : Bytes

def maxCookieLength : ℕ := 4093

def maxCookieValueLength (key attributes : Bytes) : ℕ :=
  if attributes ≠ [] then maxCookieLength - (key.length + 3) - (attributes.length + 2)
  else maxCookieLength - (key.length + 3)

/-- the length divided by the maximum, rounded up -/
def numberOfChunks (value : Bytes) (maxValueLength : ℕ) : ℕ := (value.length + (maxValueLength - 1)) / maxValueLength

/-- the cookie of chunk j out of n -/
def chunkCookie (key value : Bytes) (maxValueLength n j : ℕ) : Cookie :=
  let chunk := (value.drop (j * maxValueLength)).take maxValueLength
  if j = 0 ∧ n = 1 then ⟨key, chunk⟩
  else if j = 0 then ⟨key, digits n ++ ':' :: chunk⟩
  else ⟨key ++ '-' :: digits j, chunk⟩

def splitCookie (key value attributes : Bytes) : List Cookie :=
  let maxValueLength := maxCookieValueLength key attributes
  let n := numberOfChunks value maxValueLength
  (List.range n).map (chunkCookie key value maxValueLength n)

def Cookie.text (c : Cookie) (attributes : Bytes) : Bytes :=
  c.name ++ '=' :: c.value ++ if attributes ≠ [] then ';' :: ' ' :: attributes else []

/-- the cookies, with the flags joined to attributes; none where there would be too many -/
def makeCookieMetadata (maxCookieNumber : ℕ) (key value attributes : Bytes) : Option (List Cookie) :=
  if numberOfChunks value (maxCookieValueLength key attributes) > maxCookieNumber then none
  else some (splitCookie key value attributes)

/-! ## Joining -/

def setCookie (key : Bytes) (cookies : Bytes → Option Bytes) (c : Cookie) : Bytes → Option Bytes :=
  if key <+: c.name then Function.update cookies c.name (some c.value) else cookies

def cookieMap (key : Bytes) (cookieList : List Cookie) : Bytes → Option Bytes :=
  cookieList.foldl (setCookie key) fun _ => none

inductive JoinError where
  | failedToRetrieve (key : Bytes)
  | notANumber
  | invalidCookie (key : Bytes)

def joinCookies (key : Bytes) (cookieList : List Cookie) : Except JoinError Bytes :=
  let cookies := cookieMap key cookieList
  let join (numOfChunks : ℤ) (part : Bytes) := Except.ok (part ++
    (List.range (numOfChunks.toNat - 1)).flatMap fun i => (cookies (key ++ '-' :: digits (i + 1))).getD [])
  match cookies key with
  | none => .error (.failedToRetrieve key)
  | some token =>
    match token.splitOn ':' with
    | [count, part] =>
      match atoi (String.ofList count) with
      | some numOfChunks => join numOfChunks part
      | none => .error .notANumber
    | [part] => join 1 part
    | _ => .error (.invalidCookie key)

/-! ## Chunks -/

variable {key value attributes : Bytes} {m n j : ℕ}

theorem cookieMap_eq {cookieList : List Cookie} {c : Cookie} (hc : c ∈ cookieList) (hk : key <+: c.name)
    (hu : ∀ d ∈ cookieList, d.name = c.name → d.value = c.value) : cookieMap key cookieList c.name = some c.value := by
  unfold cookieMap
  -- from any map: the last cookie of the name has the value, as all of them do
  suffices h : ∀ cookies : Bytes → Option Bytes, c ∈ cookieList ∨ cookies c.name = some c.value →
      cookieList.foldl (setCookie key) cookies c.name = some c.value from h _ (.inl hc)
  clear hc
  induction cookieList with
  | nil => simp
  | cons d ds ih =>
    rw [List.forall_mem_cons] at hu
    intro cookies h
    refine ih hu.2 _ ?_
    by_cases hd : d.name = c.name
    · right
      rw [setCookie, if_pos (hd ▸ hk), ← hd, Function.update_self, hu.1 hd]
    rcases h with h | h
    · refine .inl ((List.mem_cons.1 h).resolve_left fun he => hd (by rw [he]))
    · right
      unfold setCookie
      split_ifs
      · rw [Function.update_of_ne (Ne.symm hd), h]
      · exact h

theorem length_le_chunks (value : Bytes) (hm : 0 < m) : value.length ≤ numberOfChunks value m * m := by
  have hd := Nat.div_add_mod (value.length + (m - 1)) m
  have hl := Nat.mod_lt (value.length + (m - 1)) hm
  rw [numberOfChunks, Nat.mul_comm]
  omega

theorem le_length_of_chunks (hn : 1 < numberOfChunks value m) : m ≤ value.length := by
  by_contra hlt
  refine absurd hn (not_lt_of_ge (Nat.lt_succ_iff.1 (Nat.div_lt_of_lt_mul ?_)))
  omega

theorem colon_notMem_digits (n : ℕ) : ':' ∉ digits n := fun h =>
  absurd (isDigit_toDigits n ':' (by rwa [digits, toList_itoa] at h)) (by decide)

theorem flatMap_chunks (value : Bytes) (m n : ℕ) :
    ((List.range n).flatMap fun j => (value.drop (j * m)).take m) = value.take (n * m) := by
  induction n with
  | zero => simp
  | succ n ih => rw [List.range_succ, List.flatMap_append, ih, Nat.succ_mul, List.take_add]; simp

theorem length_digits_le_one : (digits n).length ≤ 1 ↔ n < 10 := by
  rw [digits, toList_itoa, Nat.length_toDigits_le_iff (by decide) (by decide), pow_one]

/-- the first of several cookies is full -/
theorem text_first (hm : 0 < maxCookieValueLength key attributes) (hn : n ≠ 1)
    (hv : maxCookieValueLength key attributes ≤ value.length) :
    ((chunkCookie key value (maxCookieValueLength key attributes) n 0).text attributes).length = 4092 +
      (digits n).length := by
  simp only [chunkCookie, hn, and_false, if_false, if_true, Cookie.text, List.length_append, List.length_cons, Nat.zero_mul,
    List.drop_zero, List.length_take, Nat.min_eq_left hv]
  unfold maxCookieValueLength maxCookieLength at *
  split_ifs at * <;> simp <;> omega

theorem text_le (hm : 0 < maxCookieValueLength key attributes) (hn : n < 10) (hj : j < n) :
    ((chunkCookie key value (maxCookieValueLength key attributes) n j).text attributes).length ≤ maxCookieLength := by
  have hl := List.length_take_le (maxCookieValueLength key attributes) (value.drop (j * maxCookieValueLength key attributes))
  have hd := length_digits_le_one.2 hn
  have hd' := length_digits_le_one.2 (hj.trans hn)
  have ha : (if attributes ≠ [] then ';' :: ' ' :: attributes else []).length + key.length + 3 +
      maxCookieValueLength key attributes = maxCookieLength := by
    unfold maxCookieValueLength maxCookieLength at *
    split_ifs at * <;> simp <;> omega
  unfold chunkCookie
  dsimp only
  split_ifs <;> simp only [Cookie.text, List.length_append, List.length_cons] <;> omega

/-! ## Round trips -/

theorem name_injective {i : ℕ} (h : (chunkCookie key value m n i).name = (chunkCookie key value m n j).name) : i = j := by
  have hd : Function.Injective digits := fun a b hab => itoa_injective (String.toList_inj.1 hab)
  unfold chunkCookie at h
  dsimp only at h
  split_ifs at h <;> simp_all [hd.eq_iff]

theorem prefix_name (j : ℕ) : key <+: (chunkCookie key value m n j).name := by
  unfold chunkCookie
  dsimp only
  split_ifs <;> simp

theorem joinCookies_chunks (hn : 0 < n) (hlt : n < 2 ^ 63) (hlen : value.length ≤ n * m) (hc : ':' ∉ value)
    {cookieList : List Cookie} (hget : ∀ j < n, cookieMap key cookieList (chunkCookie key value m n j).name =
      some (chunkCookie key value m n j).value) : joinCookies key cookieList = .ok value := by
  have hall := flatMap_chunks value m n
  rw [List.take_of_length_le hlen] at hall
  have h0 := hget 0 hn
  have hc0 : ':' ∉ value.take m := fun h => hc (List.mem_of_mem_take h)
  unfold joinCookies
  by_cases h1 : n = 1
  · subst h1
    simp only [chunkCookie, and_self, if_true, Nat.zero_mul, List.drop_zero] at h0
    simp only [h0, List.splitOn_eq_singleton hc0]
    simpa using hlen
  · obtain ⟨k, rfl⟩ := Nat.exists_eq_succ_of_ne_zero hn.ne'
    have hs : (digits (k + 1) ++ ':' :: value.take m).splitOn ':' = [digits (k + 1), value.take m] := by
      rw [List.splitOn_append_cons_self_of_not_mem (colon_notMem_digits _), List.splitOn_eq_singleton hc0]
    have ha : atoi (String.ofList (digits (k + 1))) = some ((k + 1 : ℕ) : ℤ) := by
      rw [digits, String.ofList_toList, atoi_itoa _ hlt]
    have hrest : ∀ i ∈ List.range k, (cookieMap key cookieList (key ++ '-' :: digits (i + 1))).getD [] =
        (value.drop ((i + 1) * m)).take m := fun i hi => by
      have h := hget (i + 1) (by simpa using hi)
      simp only [chunkCookie, Nat.succ_ne_zero, false_and, if_false] at h
      rw [h, Option.getD_some]
    simp only [chunkCookie, h1, and_false, if_false, if_true, Nat.zero_mul, List.drop_zero] at h0
    rw [List.range_succ_eq_map, List.flatMap_cons, List.flatMap_map, Nat.zero_mul, List.drop_zero] at hall
    simp only [h0, hs, ha, Int.toNat_natCast, Nat.add_sub_cancel]
    rw [List.flatMap_congr hrest, hall]

/-- a token that is accepted, under any maximal number of cookies -/
structure Accepted where
  (key value attributes : Bytes)
  maxCookieNumber : Fin (2 ^ 63)
  cookies : List Cookie
  positive : 0 < maxCookieValueLength key attributes
  nonempty : value ≠ []
  noColon : ':' ∉ value
  made : makeCookieMetadata maxCookieNumber key value attributes = some cookies

/-- **Chunks of a token.** The cookies keep the limit exactly when there are less than ten; and joined with any cookies of
other names, they always give the token back. -/
theorem chunking_iff (t : Accepted) : ((∀ c ∈ t.cookies, (c.text t.attributes).length ≤ maxCookieLength) ↔
      numberOfChunks t.value (maxCookieValueLength t.key t.attributes) < 10) ∧
    ∀ cookieList, t.cookies ⊆ cookieList →
      (∀ d ∈ cookieList, d.name ∈ t.cookies.map Cookie.name → d ∈ t.cookies) →
        joinCookies t.key cookieList = .ok t.value := by
  obtain ⟨key, value, attributes, maxNumber, cookies, hm, hv, hc, hmade⟩ := t
  dsimp only
  unfold makeCookieMetadata splitCookie at hmade
  split_ifs at hmade with hmax
  cases hmade
  have hlen := length_le_chunks value hm
  have hn : 0 < numberOfChunks value (maxCookieValueLength key attributes) := by
    by_contra h0
    rw [Nat.eq_zero_of_not_pos h0, Nat.zero_mul] at hlen
    exact hv (List.eq_nil_of_length_eq_zero (Nat.le_zero.1 hlen))
  refine ⟨⟨fun h => ?_, fun h c hcs => ?_⟩, fun cookieList hsub hoth => ?_⟩
  · by_contra h10
    have hf := h _ (List.mem_map_of_mem (List.mem_range.2 hn))
    rw [text_first hm (by omega) (le_length_of_chunks (by omega)), maxCookieLength] at hf
    exact h10 (length_digits_le_one.1 (by omega))
  · obtain ⟨j, hj, rfl⟩ := List.mem_map.1 hcs
    exact text_le hm h (List.mem_range.1 hj)
  · refine joinCookies_chunks hn (by omega) hlen hc fun j hj => ?_
    refine cookieMap_eq (hsub (List.mem_map_of_mem (List.mem_range.2 hj))) (prefix_name j) fun d hd hname => ?_
    obtain ⟨i, hi, rfl⟩ := List.mem_map.1 (hoth d hd (List.mem_map.2
      ⟨_, List.mem_map_of_mem (List.mem_range.2 hj), hname.symm⟩))
    rw [name_injective hname]

/-- a token of so many bytes -/
@[irreducible] def tokenOf (n : ℕ) : Bytes := List.replicate n 'x'

theorem length_tokenOf (n : ℕ) : (tokenOf n).length = n := by
  unfold tokenOf
  exact List.length_replicate

/-- 5000 bytes, in two cookies -/
def shortToken : Accepted where
  key := "cd.token".toList
  value := tokenOf 5000
  attributes := "HttpOnly".toList
  maxCookieNumber := 20
  cookies := splitCookie "cd.token".toList (tokenOf 5000) "HttpOnly".toList
  positive := by decide
  nonempty h := absurd (length_tokenOf 5000) (by rw [h]; decide)
  noColon h := by
    unfold tokenOf at h
    exact absurd (List.mem_replicate.1 h).2 (by decide)
  made := if_neg (by rw [numberOfChunks, length_tokenOf]; decide)

/-- the two cookies, after a stale one of an earlier token that was longer -/
theorem chunking_two_cookies :
    shortToken.cookies.map Cookie.name = ["cd.token".toList, "cd.token-1".toList] ∧
    (∀ c ∈ shortToken.cookies, (c.text shortToken.attributes).length ≤ maxCookieLength) ∧
    joinCookies shortToken.key (⟨"cd.token-7".toList, "stale".toList⟩ :: shortToken.cookies) = .ok shortToken.value := by
  have hn : numberOfChunks (tokenOf 5000) (maxCookieValueLength "cd.token".toList "HttpOnly".toList) = 2 := by
    rw [numberOfChunks, length_tokenOf]
    decide
  have hnames : shortToken.cookies.map Cookie.name = ["cd.token".toList, "cd.token-1".toList] := by
    unfold shortToken splitCookie
    dsimp only
    rw [hn]
    rfl
  refine ⟨hnames, (chunking_iff shortToken).1.2 (hn.trans_lt (by decide)),
    (chunking_iff shortToken).2 _ (List.subset_cons_self _ _) fun d hd hname => ?_⟩
  refine (List.mem_cons.1 hd).resolve_left fun he => ?_
  rw [he, hnames] at hname
  exact absurd hname (by decide)

/-- **Ten chunks.** The token of 40000 bytes is split into cookies of which the first is one byte too long. -/
theorem ten_chunks_too_long : ∃ cookies, makeCookieMetadata 20 "cd.token".toList (tokenOf 40000) [] = some cookies ∧
    ∃ c ∈ cookies, (c.text []).length = maxCookieLength + 1 := by
  have hn : numberOfChunks (tokenOf 40000) (maxCookieValueLength "cd.token".toList []) = 10 := by
    rw [numberOfChunks, length_tokenOf]
    decide
  refine ⟨splitCookie "cd.token".toList (tokenOf 40000) [], if_neg (by rw [hn]; decide),
    chunkCookie "cd.token".toList (tokenOf 40000) (maxCookieValueLength "cd.token".toList []) 10 0, ?_, ?_⟩
  · simp only [splitCookie, hn]
    exact List.mem_map_of_mem (List.mem_range.2 (by decide))
  · rw [text_first (by decide) (by decide) (by rw [length_tokenOf]; decide)]
    decide

end GitOpsDeploy.Cookies

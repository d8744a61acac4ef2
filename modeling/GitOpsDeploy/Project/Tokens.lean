/-
Lookup and revocation of project-role tokens (`GetJWTTokenFromSpec`, `GetJWTToken`, `RemoveJWTToken`).

A token is looked up by id and, when no id matches, by issue time. Tokens live in the spec (old location) and in the
status (new location); `RemoveJWTToken` removes from both, by moving the last token into the hole. The session
manager accepts a project token when `GetJWTToken` finds it in the status (`accepts`).
-/
import GitOpsDeploy.Core.Slices
import GitOpsDeploy.Project.Types

namespace GitOpsDeploy.Project

open GitOpsDeploy.Slices List

variable (p : AppProject) (roleIndex : ℕ) (role : ProjectRole) (roleName : String) (issuedAt : ℤ) (id : String)

/-! ## Model -/

/-- the role with its index: the first one of that name -/
def getRoleByName (name : String) : Except String (ProjectRole × ℕ) :=
  match p.roles.zipIdx.find? fun r => decide (name = r.1.name) with
  | some r => .ok r
  | none => .error ("role '" ++ name ++ "' does not exist in project '" ++ p.name ++ "'")

/-- the two loops of both token lookups: by id (new token), if not then by the issue time (old token) -/
def lookupToken (tokens : List JWTToken) (issuedAt : ℤ) (id : String) : Option (JWTToken × ℕ) :=
  let byId := if id ≠ "" then tokens.zipIdx.find? fun t => decide (id = t.1.id) else none
  match byId with
  | some t => some t
  | none => if issuedAt ≠ -1 then tokens.zipIdx.find? fun t => decide (issuedAt = t.1.issuedAt) else none

def tokenNotFound : String :=
  "JWT token for role '" ++ roleName ++ "' issued at '" ++ toString issuedAt ++ "' does not exist in project '" ++
    p.name ++ "'"

def getJWTTokenFromSpec :
    Except String (JWTToken × ℕ) :=
  match getRoleByName p roleName with
  | .error e => .error e
  | .ok (role, _) =>
    match lookupToken role.jwtTokens issuedAt id with
    | some t => .ok t
    | none => .error (tokenNotFound p role.name issuedAt)

def getJWTToken : Except String (JWTToken × ℕ) :=
  match lookupToken (p.statusTokens roleName) issuedAt id with
  | some t => .ok t
  | none => .error (tokenNotFound p roleName issuedAt)

/-- the removal in `Spec.Roles[roleIndex]`; `none` is an index out of range (the token index was found in the first
role of that name, which need not be the one at `roleIndex`) -/
def removeFromSpec (i : ℕ) : Option AppProject :=
  if i < role.jwtTokens.length then
    some { p with roles := p.roles.set roleIndex { role with jwtTokens := swapRemove role.jwtTokens i } }
  else none

def removeFromStatus (i : ℕ) : AppProject :=
  { p with jwtTokensByRole := p.jwtTokensByRole.insert roleName (swapRemove (p.statusTokens roleName) i) }

/-- the project after the call and the error it returns; `none` is a run-time panic -/
def removeJWTToken :
    Option (AppProject × Option String) :=
  match p.roles[roleIndex]? with
  | none => none
  | some role =>
    let err1 := getJWTTokenFromSpec p role.name issuedAt id
    -- for backward compatibility
    let spec := match err1 with
      | .ok (_, i) => removeFromSpec p roleIndex role i
      | .error _ => some p
    match spec with
    | none => none
    | some p1 =>
      -- new location
      match getJWTToken p1 role.name issuedAt id with
      | .ok (_, i) => some (removeFromStatus p1 role.name i, none)
      | .error e2 => some (p1, if err1.isOk then none else some e2)

/-- the check of `SessionManager.Parse` for a project-role token -/
def accepts : Bool :=
  (getJWTToken p roleName issuedAt id).isOk

/-! ## Lookup -/

/-- the token a lookup may hit -/
def Hits (t : JWTToken) : Prop :=
  (id ≠ "" ∧ t.id = id) ∨ (issuedAt ≠ -1 ∧ t.issuedAt = issuedAt)

instance (issuedAt : ℤ) (id : String) : DecidablePred (Hits issuedAt id) := fun t => by
  unfold Hits; infer_instance

section Find

variable {c : Prop} [Decidable c] {q : JWTToken → Prop} [DecidablePred q] {l : List JWTToken} {t : JWTToken} {i : ℕ}

theorem find_none : (if c then l.zipIdx.find? fun t => decide (q t.1) else none) = none ↔ ∀ t ∈ l, ¬(c ∧ q t) := by
  have hm : (∀ t ∈ l.zipIdx, ¬q t.1) ↔ ∀ t ∈ l, ¬q t := by
    rw [← forall_mem_map (f := Prod.fst) (P := fun t => ¬q t), zipIdx_map_fst]
  split_ifs with hc
  · simp only [find?_eq_none, decide_eq_true_eq, hm, hc, true_and]
  · simp [hc]

theorem find_some (h : (if c then l.zipIdx.find? fun t => decide (q t.1) else none) = some (t, i)) :
    l[i]? = some t ∧ c ∧ q t := by
  split_ifs at h with hc
  exact ⟨mem_zipIdx_iff_getElem?.1 (mem_of_find?_eq_some h), hc, by simpa using find?_some h⟩

end Find

variable (l : List JWTToken)

theorem lookupToken_eq (issuedAt : ℤ) (id : String) : lookupToken l issuedAt id =
    (if id ≠ "" then l.zipIdx.find? fun t => decide (id = t.1.id) else none).or
      (if issuedAt ≠ -1 then l.zipIdx.find? fun t => decide (issuedAt = t.1.issuedAt) else none) := by
  unfold lookupToken
  dsimp only
  split
  · next h => rw [h, Option.some_or]
  · next h => rw [h, Option.none_or]

theorem lookupToken_none (issuedAt : ℤ) (id : String) :
    lookupToken l issuedAt id = none ↔ ∀ t ∈ l, ¬ Hits issuedAt id t := by
  rw [lookupToken_eq, Option.or_eq_none_iff, find_none (q := fun t => id = t.id),
    find_none (q := fun t => issuedAt = t.issuedAt)]
  simp only [Hits, not_or, ← forall₂_and, eq_comm]

theorem lookupToken_some {l : List JWTToken} {issuedAt : ℤ} {id : String} {t : JWTToken} {i : ℕ}
    (h : lookupToken l issuedAt id = some (t, i)) : l[i]? = some t ∧ Hits issuedAt id t := by
  rw [lookupToken_eq, Option.or_eq_some_iff] at h
  rcases h with h | ⟨-, h⟩
  · obtain ⟨hm, hid, he⟩ := find_some (q := fun t => id = t.id) h
    exact ⟨hm, .inl ⟨hid, he.symm⟩⟩
  · obtain ⟨hm, hi, he⟩ := find_some (q := fun t => issuedAt = t.issuedAt) h
    exact ⟨hm, .inr ⟨hi, he.symm⟩⟩

/-- **Acceptance.** The session manager accepts (issuedAt, id) exactly when some status token of the role carries the
id or the issue time. -/
theorem accepts_iff : accepts p roleName issuedAt id = true ↔ ∃ t ∈ p.statusTokens roleName, Hits issuedAt id t := by
  unfold accepts getJWTToken
  cases h : lookupToken (p.statusTokens roleName) issuedAt id with
  | none => simpa [Except.isOk, Except.toBool] using (lookupToken_none _ _ _).1 h
  | some r =>
    obtain ⟨hm, hh⟩ := lookupToken_some (t := r.1) (i := r.2) h
    simp only [Except.isOk, Except.toBool, true_iff]
    exact ⟨r.1, List.mem_of_getElem? hm, hh⟩

/-! ## Removal -/

/-- the role's status tokens after a removal: unchanged if nothing is hit, else one hit token is gone -/
inductive Removed (issuedAt : ℤ) (id : String) (l : List JWTToken) : List JWTToken → Prop where
  | nothing (h : ∀ t ∈ l, ¬ Hits issuedAt id t) : Removed issuedAt id l l
  | one (t : JWTToken) (l' : List JWTToken) (hh : Hits issuedAt id t) (hp : (t :: l').Perm l) :
    Removed issuedAt id l l'

theorem statusTokens_removeFromStatus (i : ℕ) :
    (removeFromStatus p roleName i).statusTokens roleName = swapRemove (p.statusTokens roleName) i := by
  simp [removeFromStatus, AppProject.statusTokens]

/-- the token index found in the spec is in range for the role at `roleIndex` -/
def SpecIndexOk : Prop :=
  ∀ t i, getJWTTokenFromSpec p role.name issuedAt id = .ok (t, i) → i < role.jwtTokens.length

/-- in a project that passed validation (role names distinct) the spec index is always in range -/
theorem specIndexOk_of_nodup (hnd : (p.roles.map ProjectRole.name).Nodup)
    (roleIndex : Fin p.roles.length) (issuedAt : ℤ) (id : String) : SpecIndexOk p p.roles[roleIndex] issuedAt id := by
  intro t i h
  unfold getJWTTokenFromSpec getRoleByName at h
  cases hf : p.roles.zipIdx.find? fun r => decide (p.roles[roleIndex].name = r.1.name) with
  | none => rw [hf] at h; cases h
  | some r =>
    obtain ⟨role, j⟩ := r
    have hj := List.mem_zipIdx_iff_getElem?.1 (List.mem_of_find?_eq_some hf)
    have hn : p.roles[roleIndex].name = role.name := by simpa using List.find?_some hf
    -- distinct names: the role found is the one at roleIndex
    have hr : role = p.roles[roleIndex] :=
      inj_on_of_nodup_map hnd (List.mem_of_getElem? hj) (getElem_mem _) hn.symm
    subst hr
    rw [hf] at h
    simp only at h
    split at h
    · rename_i tok ht
      cases h
      exact (List.getElem?_eq_some_iff.1 (lookupToken_some ht).1).1
    · cases h

/-- `RemoveJWTToken` panics exactly when the spec index is out of range; otherwise it removes one hit status token -/
theorem statusTokens_remove (hr : p.roles[roleIndex]? = some role) :
    (¬ SpecIndexOk p role issuedAt id ∧ removeJWTToken p roleIndex issuedAt id = none) ∨
    (SpecIndexOk p role issuedAt id ∧ ∃ p' err, removeJWTToken p roleIndex issuedAt id = some (p', err) ∧
      Removed issuedAt id (p.statusTokens role.name) (p'.statusTokens role.name)) := by
  -- the spec part leaves the status alone, so both parts can be read off separately
  have hst : ∀ p1 : AppProject, p1.jwtTokensByRole = p.jwtTokensByRole → ∀ err1 : Bool, ∃ p' err,
      (match getJWTToken p1 role.name issuedAt id with
        | .ok (_, i) => some (removeFromStatus p1 role.name i, none)
        | .error e2 => some (p1, if err1 then none else some e2)) = some (p', err) ∧
      Removed issuedAt id (p.statusTokens role.name) (p'.statusTokens role.name) := by
    intro p1 hp1 err1
    have ht : p1.statusTokens role.name = p.statusTokens role.name := by simp [AppProject.statusTokens, hp1]
    unfold getJWTToken
    cases h : lookupToken (p1.statusTokens role.name) issuedAt id with
    | none =>
      refine ⟨p1, _, rfl, ?_⟩
      rw [ht] at h ⊢
      exact .nothing ((lookupToken_none _ _ _).1 h)
    | some r =>
      refine ⟨_, _, rfl, ?_⟩
      obtain ⟨hm, hh⟩ := lookupToken_some (t := r.1) (i := r.2) h
      obtain ⟨hlt, hg⟩ := List.getElem?_eq_some_iff.1 hm
      have hp := swapRemove_perm _ r.2 hlt
      rw [hg] at hp
      rw [statusTokens_removeFromStatus]
      exact .one r.1 _ hh (hp.trans (ht ▸ List.Perm.refl _))
  unfold removeJWTToken SpecIndexOk
  simp only [hr]
  cases hs : getJWTTokenFromSpec p role.name issuedAt id with
  | error e =>
    right
    refine ⟨by simp, ?_⟩
    obtain ⟨p', err, h1, h2⟩ := hst p rfl false
    exact ⟨p', err, by simpa [Except.isOk, Except.toBool] using h1, h2⟩
  | ok r =>
    obtain ⟨t, i⟩ := r
    by_cases hi : i < role.jwtTokens.length
    · right
      refine ⟨by rintro t' i' ⟨⟩; exact hi, ?_⟩
      obtain ⟨p', err, h1, h2⟩ := hst
        { p with roles := p.roles.set roleIndex { role with jwtTokens := swapRemove role.jwtTokens i } } rfl true
      exact ⟨p', err, by simpa [removeFromSpec, hi, Except.isOk, Except.toBool] using h1, h2⟩
    · left
      exact ⟨fun h => hi (h t i rfl), by simp [removeFromSpec, hi]⟩

/-! ## Main result -/

/-- the tokens of a role, in the spec and in the status -/
def roleTokens (role : ProjectRole) : List JWTToken := role.jwtTokens ++ p.statusTokens role.name

/-- revoking (issuedAt, id) works: the call returns, the revoked token is no longer accepted, and every other token of the
role with a different id that was accepted still is -/
def Revokes (roleIndex : Fin p.roles.length) (issuedAt : ℤ) (id : String) : Prop :=
  ∃ p' err, removeJWTToken p roleIndex issuedAt id = some (p', err) ∧
    accepts p' p.roles[roleIndex].name issuedAt id = false ∧
    ∀ t ∈ roleTokens p p.roles[roleIndex], t.id ≠ id →
      accepts p p.roles[roleIndex].name t.issuedAt t.id = true →
      accepts p' p.roles[roleIndex].name t.issuedAt t.id = true

/-- the issue-time fallback has nothing else to hit: at most one status token carries the id or the issue time, and no other
token has only that one to be accepted by -/
def FallbackFree (tokens status : List JWTToken) : Prop :=
  status.countP (Hits issuedAt id) ≤ 1 ∧
    ∀ t ∈ tokens, t.id ≠ id → ∀ s ∈ status, Hits issuedAt id s → Hits t.issuedAt t.id s →
      2 ≤ status.countP (Hits t.issuedAt t.id)

theorem removed_effective_precise_iff {issuedAt : ℤ} {id : String} {l l' tokens : List JWTToken}
    (h : Removed issuedAt id l l') : ((∀ t ∈ l', ¬ Hits issuedAt id t) ∧
      ∀ t ∈ tokens, t.id ≠ id → (∃ s ∈ l, Hits t.issuedAt t.id s) → ∃ s ∈ l', Hits t.issuedAt t.id s) ↔
      FallbackFree issuedAt id tokens l := by
  cases h with
  | nothing h =>
    have h0 : l.countP (Hits issuedAt id) = 0 := by simpa [countP_eq_zero] using h
    exact ⟨fun _ => ⟨by omega, fun _ _ _ s hs hh => absurd hh (h s hs)⟩, fun _ => ⟨h, fun t _ _ hs => hs⟩⟩
  | one t₀ _ hh hp =>
    have hco : l.countP (Hits issuedAt id) = l'.countP (Hits issuedAt id) + 1 := by
      rw [← hp.countP_eq, countP_cons_of_pos (by simpa using hh)]
    have hf : l.countP (Hits issuedAt id) ≤ 1 ↔ ∀ t ∈ l', ¬ Hits issuedAt id t := by
      rw [hco]
      simp [countP_eq_zero]
    have hle (t : JWTToken) : (∃ s ∈ l', Hits t.issuedAt t.id s) ↔ 1 ≤ l'.countP (Hits t.issuedAt t.id) := by
      simp [Nat.one_le_iff_ne_zero, countP_eq_zero]
    unfold FallbackFree
    rw [hf]
    refine and_congr_right fun hc => forall₃_congr fun t _ _ => ⟨fun hpr s hs hhs hts => ?_, fun hd hs => ?_⟩
    · -- a hit token of l is the removed one
      obtain rfl : s = t₀ := (mem_cons.1 (hp.mem_iff.2 hs)).resolve_right fun h => hc s h hhs
      have := (hle t).1 (hpr ⟨s, hs, hts⟩)
      rw [← hp.countP_eq, countP_cons_of_pos (by simpa using hts)]
      omega
    · obtain ⟨s, hs, hts⟩ := hs
      rcases mem_cons.1 (hp.mem_iff.2 hs) with rfl | hs'
      · have h2 := hd s hs hh hts
        rw [← hp.countP_eq, countP_cons_of_pos (by simpa using hts)] at h2
        exact (hle t).2 (by omega)
      · exact ⟨s, hs', hts⟩

/-- **When revocation works.** For every project, role and token, `RemoveJWTToken` revokes exactly that token if and
only if the call does not panic and the issue-time fallback has nothing else to hit. -/
theorem revokes_iff (roleIndex : Fin p.roles.length) (issuedAt : ℤ) (id : String) :
    Revokes p roleIndex issuedAt id ↔
      SpecIndexOk p p.roles[roleIndex] issuedAt id ∧
        FallbackFree issuedAt id (roleTokens p p.roles[roleIndex]) (p.statusTokens p.roles[roleIndex].name) := by
  have hr : p.roles[(roleIndex : ℕ)]? = some p.roles[roleIndex] := by simp
  unfold Revokes
  rcases statusTokens_remove p roleIndex _ issuedAt id hr with ⟨hb, hn⟩ | ⟨hok, p', err, hs, hre⟩
  · refine ⟨fun ⟨_, _, h, _⟩ => ?_, fun h => absurd h.1 hb⟩
    rw [hn] at h
    cases h
  · rw [← removed_effective_precise_iff hre]
    simp only [hs, Option.some.injEq, Prod.mk.injEq, hok, true_and, accepts_iff, ← Bool.not_eq_true, not_exists,
      not_and]
    exact ⟨by rintro ⟨_, _, ⟨rfl, rfl⟩, h⟩; exact h, fun h => ⟨p', err, ⟨rfl, rfl⟩, h⟩⟩

/-- role "ci" with tokens "a" and "b", both issued at second 100 -/
def sameSecond : AppProject where
  name := "demo"
  roles := [⟨"ci", []⟩]
  destinations := []
  jwtTokensByRole := (∅ : AList fun _ : String => List JWTToken).insert "ci" [⟨100, 0, "a"⟩, ⟨100, 0, "b"⟩]

/-- **A revoked token that is still accepted.** Revoking (100, "a") removes token "a"; presented again, (100, "a") finds
no id and falls back to the issue time of "b". -/
theorem revoked_still_accepted : ¬ Revokes sameSecond ⟨0, by decide⟩ 100 "a" := by
  rintro ⟨p', err, hr, ha, -⟩
  have h : (removeJWTToken sameSecond 0 100 "a").map (fun r => accepts r.1 "ci" 100 "a") = some true := by decide
  have hr' : removeJWTToken sameSecond 0 100 "a" = some (p', err) := hr
  rw [hr'] at h
  exact absurd (h.symm.trans (congrArg some ha)) (by decide)

end GitOpsDeploy.Project

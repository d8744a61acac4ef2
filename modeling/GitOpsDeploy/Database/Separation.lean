/-
Whether secrets to read and secrets to write repositories are kept apart (`util/db/repository.go`).

- `read_write_separation`: what is read depends on the secrets to read alone. Repositories and credentials to write depend
  on the secrets to write alone; their lists do iff the sets to read have the same URLs and the write repositories
  inherit the same from them.
- Witness: `read_write_separation_password`, two stores whose secrets to read have different passwords.
- `read_write_mixed`: a set to read is listed as one to write, and a write repository is listed with its user.
-/
import GitOpsDeploy.Core.Fallible
import GitOpsDeploy.Database.Addressing

namespace GitOpsDeploy.Database

open List

/-! ## Credentials and repositories -/

section Db

variable (t : Text) (store : SecretStore)

variable (writeCreds : Bool)

/-- `GetRepoCreds`: none if no set covers the URL; a set that cannot be read is an error -/
def getRepoCreds (repoURL : String) : Except String (Option RepoCreds) :=
  match getRepoCredsSecret t store writeCreds repoURL with
  | .error err => if err.isNotFound then .ok none else .error err.message
  | .ok secret => (secretToRepoCred t secret).map some

/-- always the type of sets to read -/
def listRepoCreds : List String := (store.listSecretsByType "repo-creds").map (·.text "url")

def listRepositoryCredentials : List String := listRepoCreds store

def listWriteRepositoryCredentials : List String := listRepoCreds store

/-- asks first if there is a set -/
def getRepositoryCredentials (repoURL : String) : Except String (Option RepoCreds) :=
  match repoCredsExists t store false repoURL with
  | .error err => .error ("unable to check if repository credentials for " ++ t.quote (t.sanitize repoURL) ++
      " exists from secrets backend: " ++ err.message)
  | .ok false => .ok none
  | .ok true => (getRepoCreds t store false repoURL).mapError
      ("unable to get repository credentials for " ++ t.quote (t.sanitize repoURL) ++ " from secrets backend: " ++ ·)

def getWriteRepositoryCredentials (repoURL : String) : Except String (Option RepoCreds) :=
  (getRepoCreds t store true repoURL).mapError
    ("unable to get repo write credentials for " ++ t.quote (t.sanitize repoURL) ++ " from secrets backend: " ++ ·)

/-- the credentials for a repository cannot be read -/
structure CredsError where
  repo : String
  cause : String
  deriving DecidableEq

def CredsError.message (e : CredsError) : String :=
  "failed to get repository credentials for " ++ t.quote e.repo ++ ": " ++ e.cause

/-- a repository without credentials inherits those that `get` finds -/
def enrichWith (get : String → Except String (Option RepoCreds)) (repository : Repository) :
    Except CredsError Repository :=
  if repository.hasCredentials then .ok repository
  else
    match get repository.repo with
    | .error cause => .error ⟨repository.repo, cause⟩
    | .ok none => .ok repository
    | .ok (some creds) => .ok { repository.copyCredentialsFrom creds with inheritedCreds := true }

def enrichCredsToRepo : Repository → Except CredsError Repository := enrichWith (getRepositoryCredentials t store)

def enrichWriteCredsToRepo : Repository → Except CredsError Repository :=
  enrichWith (getWriteRepositoryCredentials t store)

def enrichCredsToRepos (repositories : List Repository) : Except CredsError (List Repository) :=
  repositories.mapM (enrichCredsToRepo t store)

/-- `ListRepositories` of the backend: a secret that cannot be read is a repository with a configuration error -/
def backendListRepositories (repoType : Option String) : List Repository :=
  ((store.listSecretsByType (getSecretType writeCreds)).map fun secret =>
    match secretToRepository t secret with
    | (r, none) => r
    | (r, some _) => { r with misconfigured := true }).filter fun r => repoType.all (· = r.text .type)

/-- the inherited credentials are those to read, for both kinds -/
def listRepositoriesOf (repoType : Option String) (writeCreds : Bool) : Except CredsError (List Repository) :=
  enrichCredsToRepos t store (backendListRepositories t store writeCreds repoType)

def listRepositories : Except CredsError (List Repository) := listRepositoriesOf t store none false

def listWriteRepositories : Except CredsError (List Repository) := listRepositoriesOf t store none true

variable (repoURL project : String)

/-- `GetRepository` of the backend: a repository without a secret has only its URL -/
def backendGetRepository : Except String Repository :=
  match getRepositorySecret t store writeCreds repoURL project true with
  | .error err => if err.isNotFound then .ok (Repository.ofURL repoURL) else .error err.message
  | .ok secret =>
    match secretToRepository t secret with
    | (r, none) => .ok r
    | (_, some err) => .error err

/-- asks first if there is a secret -/
def getRepositoryToRead : Except String Repository :=
  match repositoryExists t store false repoURL project true with
  | .error err => .error ("unable to check if repository " ++ t.quote (t.sanitize repoURL) ++
      " exists from secrets backend: " ++ err.message)
  | .ok false => .ok (Repository.ofURL repoURL)
  | .ok true => (backendGetRepository t store false repoURL project).mapError
      ("unable to get repository " ++ t.quote (t.sanitize repoURL) ++ " from secrets backend: " ++ ·)

def getRepository : Except String Repository := do
  let repository ← (getRepositoryToRead t store repoURL project).mapError
    ("unable to get repository " ++ t.quote (t.sanitize repoURL) ++ ": " ++ ·)
  (enrichCredsToRepo t store repository).mapError fun err =>
    "unable to enrich repository " ++ t.quote (t.sanitize repoURL) ++ " info with credentials: " ++ err.message t

def getWriteRepository : Except String Repository := do
  let repository ← (backendGetRepository t store true repoURL project).mapError
    ("unable to get write repository " ++ t.quote (t.sanitize repoURL) ++ ": " ++ ·)
  (enrichWriteCredsToRepo t store repository).mapError fun err =>
    "unable to enrich write repository " ++ t.quote (t.sanitize repoURL) ++ " info with credentials: " ++ err.message t

end Db

/-! ## What the operations depend on -/

/-- the stores have the same secrets of one kind -/
structure AgreeOn (writeCreds : Bool) (store store' : SecretStore) : Prop where
  repositories : store.listSecretsByType (getSecretType writeCreds) =
    store'.listSecretsByType (getSecretType writeCreds)
  credentials : credentialSets store writeCreds = credentialSets store' writeCreds

section Agree

variable {t : Text} {store store' : SecretStore} {write : Bool}

section

variable (h : AgreeOn write store store')

include h

theorem getRepoCredsSecret_congr : getRepoCredsSecret t store write = getRepoCredsSecret t store' write := by
  funext repoURL
  unfold getRepoCredsSecret
  have hs := h.credentials
  unfold credentialSets at hs
  rw [hs]

theorem getRepoCreds_congr : getRepoCreds t store write = getRepoCreds t store' write := by
  funext repoURL
  rw [getRepoCreds, getRepoCreds, getRepoCredsSecret_congr h]

omit h in
theorem getRepositoryCredentials_congr (h : AgreeOn false store store') :
    getRepositoryCredentials t store = getRepositoryCredentials t store' := by
  funext repoURL
  rw [getRepositoryCredentials, getRepositoryCredentials, repoCredsExists, repoCredsExists, getRepoCredsSecret_congr h,
    getRepoCreds_congr h]

omit h in
theorem getWriteRepositoryCredentials_congr (h : AgreeOn true store store') :
    getWriteRepositoryCredentials t store = getWriteRepositoryCredentials t store' := by
  funext repoURL
  rw [getWriteRepositoryCredentials, getWriteRepositoryCredentials, getRepoCreds_congr h]

theorem getRepositorySecret_congr : getRepositorySecret t store write = getRepositorySecret t store' write := by
  funext repoURL project allowFallback
  rw [getRepositorySecret, getRepositorySecret, h.repositories]

theorem backendGetRepository_congr : backendGetRepository t store write = backendGetRepository t store' write := by
  funext repoURL project
  rw [backendGetRepository, backendGetRepository, getRepositorySecret_congr h]

theorem backendListRepositories_congr :
    backendListRepositories t store write = backendListRepositories t store' write := by
  funext repoType
  rw [backendListRepositories, backendListRepositories, h.repositories]

end

variable (h : AgreeOn false store store')

include h

theorem enrichCredsToRepo_congr : enrichCredsToRepo t store = enrichCredsToRepo t store' := by
  rw [enrichCredsToRepo, enrichCredsToRepo, getRepositoryCredentials_congr h]

omit h in
theorem enrichWriteCredsToRepo_congr (h : AgreeOn true store store') :
    enrichWriteCredsToRepo t store = enrichWriteCredsToRepo t store' := by
  rw [enrichWriteCredsToRepo, enrichWriteCredsToRepo, getWriteRepositoryCredentials_congr h]

theorem getRepository_congr : getRepository t store = getRepository t store' := by
  funext repoURL project
  rw [getRepository, getRepository, getRepositoryToRead, getRepositoryToRead, repositoryExists, repositoryExists,
    getRepositorySecret_congr h, backendGetRepository_congr h, enrichCredsToRepo_congr h]

omit h in
theorem getWriteRepository_congr (h : AgreeOn true store store') :
    getWriteRepository t store = getWriteRepository t store' := by
  funext repoURL project
  rw [getWriteRepository, getWriteRepository, backendGetRepository_congr h, enrichWriteCredsToRepo_congr h]

theorem listRepositories_congr : listRepositories t store = listRepositories t store' := by
  rw [listRepositories, listRepositories, listRepositoriesOf, listRepositoriesOf, backendListRepositories_congr h,
    enrichCredsToRepos, enrichCredsToRepos, enrichCredsToRepo_congr h]

theorem listRepositoryCredentials_congr : listRepositoryCredentials store = listRepositoryCredentials store' :=
  congrArg (List.map fun s : Secret => s.text "url") h.credentials

end Agree

/-! ## Inherited credentials -/

/-- the set to read from which a repository inherits -/
def inheritedSet (t : Text) (store : SecretStore) (r : Repository) : Option Secret :=
  if r.hasCredentials then none else getRepositoryCredential t (credentialSets store false) r.repo

/-- the repository inherits the same from both stores: nothing, or the same credentials -/
def InheritsAlike (t : Text) (store store' : SecretStore) (r : Repository) : Prop :=
  match inheritedSet t store r, inheritedSet t store' r with
  | none, none => True
  | some s, some s' => ∀ creds creds', secretToRepoCred t s = .ok creds → secretToRepoCred t s' = .ok creds' →
    r.copyCredentialsFrom creds = r.copyCredentialsFrom creds'
  | _, _ => False

/-- the repository inherits from a set that cannot be read: its URL and the error -/
def unreadable (t : Text) (store : SecretStore) (r : Repository) : Option (String × String) :=
  (inheritedSet t store r).bind fun s =>
    match secretToRepoCred t s with
    | .ok _ => none
    | .error err => some (r.repo, err)

/-- the first repository that inherits from a set that cannot be read is the same one, with the same error; or there is
none, and all of them inherit the same -/
def InheritAlike (t : Text) (store store' : SecretStore) (rs : List Repository) : Prop :=
  rs.findSome? (unreadable t store) = rs.findSome? (unreadable t store') ∧
    (rs.findSome? (unreadable t store) = none → ∀ r ∈ rs, InheritsAlike t store store' r)

section Inherit

variable {t : Text} {store store' : SecretStore} {r : Repository}

/-- the text of the error of a set that cannot be read -/
def unreadableCause (t : Text) (repo err : String) : String :=
  "unable to get repository credentials for " ++ t.quote (t.sanitize repo) ++ " from secrets backend: " ++ err

theorem unreadableCause_inj {repo err err' : String} :
    unreadableCause t repo err = unreadableCause t repo err' ↔ err = err' := by
  refine ⟨fun h => ?_, congrArg (unreadableCause t repo)⟩
  have hl : (unreadableCause t repo err).toList = (unreadableCause t repo err').toList := congrArg String.toList h
  unfold unreadableCause at hl
  simp only [String.toList_append] at hl
  exact String.toList_inj.1 (append_cancel_left hl)

/-- the repository with what it inherits -/
def inherited (t : Text) (store : SecretStore) (r : Repository) : Repository :=
  match (inheritedSet t store r).bind fun s => (secretToRepoCred t s).toOption with
  | none => r
  | some creds => { r.copyCredentialsFrom creds with inheritedCreds := true }

theorem enrichCredsToRepo_eq (t : Text) (store : SecretStore) (r : Repository) :
    enrichCredsToRepo t store r =
      match unreadable t store r with
      | some (repo, err) => .error ⟨repo, unreadableCause t repo err⟩
      | none => .ok (inherited t store r) := by
  unfold enrichCredsToRepo enrichWith unreadable inherited inheritedSet
  split_ifs with hc
  · rfl
  · rw [getRepositoryCredentials, repoCredsExists_eq]
    cases hf : getRepositoryCredential t (credentialSets store false) r.repo with
    | none => rfl
    | some s =>
      simp only [Option.isSome_some, getRepoCreds, getRepoCredsSecret_of_found hf, Option.bind_some]
      cases secretToRepoCred t s with
      | error err => rfl
      | ok creds => rfl

theorem enrichCredsToRepos_eq (t : Text) (store : SecretStore) (rs : List Repository) :
    enrichCredsToRepos t store rs =
      match rs.findSome? (unreadable t store) with
      | some (repo, err) => .error ⟨repo, unreadableCause t repo err⟩
      | none => .ok (rs.map (inherited t store)) := by
  induction rs with
  | nil => rfl
  | cons r rs ih =>
    unfold enrichCredsToRepos at ih ⊢
    rw [mapM_cons, ih, enrichCredsToRepo_eq, List.findSome?_cons]
    cases unreadable t store r with
    | some e => rfl
    | none =>
      cases hr : rs.findSome? (unreadable t store) with
      | some e => rfl
      | none => rfl

/-- a repository that inherits is not the one that does not -/
theorem inherits_ne (hr : r.inheritedCreds = false) (creds : RepoCreds) :
    r ≠ { r.copyCredentialsFrom creds with inheritedCreds := true } := by
  intro h
  have hi := congrArg Repository.inheritedCreds h
  cases hr.symm.trans hi

theorem inherits_inj {creds creds' : RepoCreds} :
    ({ r.copyCredentialsFrom creds with inheritedCreds := true } : Repository) =
      { r.copyCredentialsFrom creds' with inheritedCreds := true } ↔
      r.copyCredentialsFrom creds = r.copyCredentialsFrom creds' := by
  simp [Repository.copyCredentialsFrom]

theorem readable_cases {store : SecretStore} (h : unreadable t store r = none) : inheritedSet t store r = none ∨
    ∃ s creds, inheritedSet t store r = some s ∧ secretToRepoCred t s = .ok creds := by
  unfold unreadable at h
  cases hs : inheritedSet t store r with
  | none => exact .inl rfl
  | some s =>
    rw [hs] at h
    cases hre : secretToRepoCred t s with
    | error err => simp [hre] at h
    | ok creds => exact .inr ⟨s, creds, rfl, hre⟩

/-- where the sets can be read, the repositories are alike iff what they inherit is -/
theorem inherited_alike (hr : r.inheritedCreds = false) (h : unreadable t store r = none)
    (h' : unreadable t store' r = none) :
    inherited t store r = inherited t store' r ↔ InheritsAlike t store store' r := by
  unfold inherited InheritsAlike
  rcases readable_cases h with hs | ⟨s, creds, hs, hre⟩ <;>
    rcases readable_cases h' with hs' | ⟨s', creds', hs', hre'⟩ <;> rw [hs, hs']
  · exact ⟨fun _ => trivial, fun _ => rfl⟩
  · refine iff_of_false ?_ id
    simpa [hre', Except.toOption] using inherits_ne hr creds'
  · refine iff_of_false ?_ id
    simpa [hre, Except.toOption] using (inherits_ne hr creds).symm
  · simp only [Option.bind_some, hre, hre', Except.toOption, inherits_inj, Except.ok.injEq]
    refine ⟨?_, fun h => h creds creds' rfl rfl⟩
    rintro h _ _ rfl rfl
    exact h

theorem enrichCredsToRepos_alike {rs : List Repository} (hrs : ∀ r ∈ rs, r.inheritedCreds = false) :
    enrichCredsToRepos t store rs = enrichCredsToRepos t store' rs ↔ InheritAlike t store store' rs := by
  rw [enrichCredsToRepos_eq, enrichCredsToRepos_eq, InheritAlike]
  cases hf : rs.findSome? (unreadable t store) with
  | some e =>
    cases hf' : rs.findSome? (unreadable t store') with
    | none => exact iff_of_false nofun nofun
    | some e' =>
      obtain ⟨repo, err⟩ := e
      obtain ⟨repo', err'⟩ := e'
      simp only [Except.error.injEq, CredsError.mk.injEq, Option.some.injEq, Prod.mk.injEq, reduceCtorEq, false_imp_iff,
        and_true]
      refine and_congr_right ?_
      rintro rfl
      exact unreadableCause_inj
  | none =>
    cases hf' : rs.findSome? (unreadable t store') with
    | some e' => exact iff_of_false nofun nofun
    | none =>
      simp only [Except.ok.injEq, true_and, forall_const, map_inj_left]
      refine forall₂_congr fun r hr => inherited_alike (hrs r hr) ?_ ?_
      · exact List.findSome?_eq_none_iff.1 hf r hr
      · exact List.findSome?_eq_none_iff.1 hf' r hr

/-- a setter that leaves the mark of inherited credentials alone -/
def KeepsMark (setter : Setter Repository) : Prop :=
  ∀ s set, setter s = .ok set → ∀ r, (set r).inheritedCreds = r.inheritedCreds

theorem keepsMark_setFlag {key : String} {set : Repository → Bool → Repository}
    (h : ∀ r v, (set r v).inheritedCreds = r.inheritedCreds) : KeepsMark (setFlag t key set) := by
  intro s set' hs r
  obtain ⟨v, -, hv⟩ := Fallible.bind_eq_ok.1 hs
  cases hv
  exact h r v

theorem keepsMark_setNumber {key : String} {set : Repository → ℤ → Repository}
    (h : ∀ r v, (set r v).inheritedCreds = r.inheritedCreds) : KeepsMark (setNumber t key set) := by
  intro s set' hs r
  obtain ⟨v, -, hv⟩ := Fallible.bind_eq_ok.1 hs
  cases hv
  exact h r v

theorem setFields_inheritedCreds {s : Secret} {setters : List (Setter Repository)}
    (h : ∀ setter ∈ setters, KeepsMark setter)
    (r : Repository) : (setFields s setters r).1.inheritedCreds = r.inheritedCreds := by
  induction setters generalizing r with
  | nil => rfl
  | cons setter setters ih =>
    obtain ⟨hse, hs⟩ := forall_mem_cons.1 h
    unfold setFields
    cases hset : setter s with
    | error err => rfl
    | ok set =>
      rw [ih hs, hse s set hset]

theorem secretToRepository_inheritedCreds (s : Secret) : (secretToRepository t s).1.inheritedCreds = false := by
  refine (setFields_inheritedCreds ?_ _).trans rfl
  simp only [repositorySetters, repositorySetters.flag, repositorySetters.number, forall_mem_cons,
    not_mem_nil, false_imp_iff, implies_true, and_true]
  refine ⟨?_, ?_, ?_, ?_, ?_, ?_, ?_, ?_, ?_, ?_, ?_⟩
  all_goals
    first
    | exact keepsMark_setFlag fun _ _ => rfl
    | exact keepsMark_setNumber fun _ _ => rfl

theorem backendListRepositories_inheritedCreds {write : Bool} {repoType : Option String} :
    ∀ r ∈ backendListRepositories t store write repoType, r.inheritedCreds = false := by
  intro r hr
  obtain ⟨s, -, hs⟩ := mem_map.1 (mem_filter.1 hr).1
  have hm := secretToRepository_inheritedCreds (t := t) s
  split at hs
  · rename_i r' heq
    rw [heq] at hm
    exact hs ▸ hm
  · rename_i r' err heq
    rw [heq] at hm
    exact hs ▸ hm

end Inherit

/-- **Secrets to read and to write.** Stores with the same secrets to write give the same write repository and the same
write credentials for every URL; the lists are the same iff the sets to read have the same URLs, and iff the write
repositories inherit the same from the sets to read. Stores with the same secrets to read give the same results for all
that is read. -/
theorem read_write_separation (t : Text) (store store' : SecretStore) :
    (AgreeOn true store store' →
      (∀ repoURL project, getWriteRepository t store repoURL project = getWriteRepository t store' repoURL project) ∧
      (∀ repoURL, getWriteRepositoryCredentials t store repoURL = getWriteRepositoryCredentials t store' repoURL) ∧
      (listWriteRepositoryCredentials store = listWriteRepositoryCredentials store' ↔
        (credentialSets store false).map (·.text "url") = (credentialSets store' false).map (·.text "url")) ∧
      (listWriteRepositories t store = listWriteRepositories t store' ↔
        InheritAlike t store store' (backendListRepositories t store true none))) ∧
    (AgreeOn false store store' →
      (∀ repoURL project, getRepository t store repoURL project = getRepository t store' repoURL project) ∧
      (∀ repoURL, getRepositoryCredentials t store repoURL = getRepositoryCredentials t store' repoURL) ∧
      listRepositoryCredentials store = listRepositoryCredentials store' ∧
      listRepositories t store = listRepositories t store') := by
  constructor
  · intro h
    refine ⟨fun repoURL project => ?_, fun repoURL => ?_, Iff.rfl, ?_⟩
    · rw [getWriteRepository_congr h]
    · rw [getWriteRepositoryCredentials_congr h]
    · rw [listWriteRepositories, listWriteRepositories, listRepositoriesOf, listRepositoriesOf,
        ← backendListRepositories_congr h]
      exact enrichCredsToRepos_alike backendListRepositories_inheritedCreds
  · intro h
    refine ⟨fun repoURL project => ?_, fun repoURL => ?_, listRepositoryCredentials_congr h, listRepositories_congr h⟩
    · rw [getRepository_congr h]
    · rw [getRepositoryCredentials_congr h]

/-! ## Stores -/

/-- a write repository with a password or without one, and a set to read for its organisation with a user -/
def mixedStore (password user : String) : SecretStore :=
  [⟨"repo-write", some "repository-write", true,
      (Finmap.singleton "url" "https://git.example.com/org/app").insert "password" password⟩,
    ⟨"creds", some "repo-creds", true, (Finmap.singleton "url" "https://git.example.com/org").insert "username" user⟩]

/-- the set to read changes, and the write repository has a password of its own -/
theorem read_write_separation_password :
    listWriteRepositories exampleText (mixedStore "secret" "reader") =
        listWriteRepositories exampleText (mixedStore "secret" "other") ∧
      listWriteRepositoryCredentials (mixedStore "secret" "reader") =
        listWriteRepositoryCredentials (mixedStore "secret" "other") := by
  have h := (read_write_separation exampleText (mixedStore "secret" "reader") (mixedStore "secret" "other")).1 ⟨rfl, rfl⟩
  have ho : ∀ user, ∀ r ∈ backendListRepositories exampleText (mixedStore "secret" "reader") true none,
      inheritedSet exampleText (mixedStore "secret" user) r = none := by
    intro user r hr
    obtain rfl := mem_singleton.1 hr
    rfl
  refine ⟨h.2.2.2.2 ⟨?_, fun _ r hr => ?_⟩, h.2.2.1.2 rfl⟩
  · rw [List.findSome?_eq_none_iff.2, List.findSome?_eq_none_iff.2]
    · intro r hr
      rw [unreadable, ho "other" r hr]
      rfl
    · intro r hr
      rw [unreadable, ho "reader" r hr]
      rfl
  · rw [InheritsAlike, ho "reader" r hr, ho "other" r hr]
    trivial

/-- **Credentials to read are listed with those to write.** With no set to write and a write repository without
credentials, the URL of the set to read is listed as a write credential set, and the write repository is listed with the
user of the set to read; without the set to read, neither is. -/
theorem read_write_mixed :
    AgreeOn true (mixedStore "" "reader") ((mixedStore "" "reader").take 1) ∧
      listWriteRepositoryCredentials (mixedStore "" "reader") = ["https://git.example.com/org"] ∧
      listWriteRepositoryCredentials ((mixedStore "" "reader").take 1) = [] ∧
      (listWriteRepositories exampleText (mixedStore "" "reader")).toOption.map (·.map fun r => r.text .username) =
        some ["reader"] ∧
      (listWriteRepositories exampleText ((mixedStore "" "reader").take 1)).toOption.map
        (·.map fun r => r.text .username) = some [""] := by
  refine ⟨⟨rfl, rfl⟩, by decide +kernel, by decide +kernel, by decide +kernel, by decide +kernel⟩

end GitOpsDeploy.Database

/-
Credential sets: how they are looked up, created, updated and deleted (`util/db/repository.go`,
`util/db/repository_secrets.go`).

The lookup for reading takes the set with the longest URL that is a beginning of the repository's; the same lookup finds
the set to change.
-/
import GitOpsDeploy.Core.Longest
import GitOpsDeploy.Database.Repositories

namespace GitOpsDeploy.Database

/-! ## The backend -/

inductive DbError where
  | notFound (message : String)
  | alreadyExists (message : String)
  | other (message : String)
  deriving DecidableEq

def DbError.message : DbError → String
  | notFound message => message
  | alreadyExists message => message
  | other message => message

def DbError.isNotFound : DbError → Bool
  | notFound _ => true
  | _ => false

section Backend

variable (t : Text)

/-- the name of the secret made for a URL -/
def repoURLToSecretName (start repo project : String) : String :=
  start ++ "-" ++ Decimal.itoa (t.hash (repo ++ project))

/-- the name of the secret of a new credential set -/
def credsSecretName (writeCreds : Bool) (url : String) : String :=
  repoURLToSecretName t (if writeCreds then "creds-write" else "creds") url ""

/-- the normalized URL of a credential set -/
def credURL (cred : Secret) : String := normalizeGitURL t (cred.text "url")

/-- `getRepositoryCredentialIndex`, with the set for its index -/
def getRepositoryCredential (repoCredentials : List Secret) (repoURL : String) : Option Secret :=
  Longest.longest (fun cred => (credURL t cred).length)
    (fun cred => (credURL t cred).toList.isPrefixOf (normalizeGitURL t repoURL).toList) repoCredentials

variable (store : SecretStore) (writeCreds : Bool)

def getRepoCredsSecret (repoURL : String) : Except DbError Secret :=
  match getRepositoryCredential t (store.listSecretsByType (getRepoCredSecretType writeCreds)) repoURL with
  | none => .error (.notFound ("repository credentials " ++ t.quote (t.sanitize repoURL) ++ " not found"))
  | some secret => .ok secret

def repoCredsExists (repoURL : String) : Except DbError Bool :=
  match getRepoCredsSecret t store writeCreds repoURL with
  | .ok _ => .ok true
  | .error err => if err.isNotFound then .ok false else .error err

/-- the secret of the project, or the last one without a project -/
def findRepositorySecret (repoURL project : String) (allowFallback : Bool) : List Secret → Option Secret → Option Secret
  | [], foundSecret => foundSecret
  | secret :: secrets, foundSecret =>
    if !sameURL t (secret.text "url") repoURL then findRepositorySecret repoURL project allowFallback secrets foundSecret
    else if project = secret.text "project" then some secret
    else if secret.text "project" = "" && allowFallback then
      findRepositorySecret repoURL project allowFallback secrets (some secret)
    else findRepositorySecret repoURL project allowFallback secrets foundSecret

def getRepositorySecret (repoURL project : String) (allowFallback : Bool) : Except DbError Secret :=
  match findRepositorySecret t repoURL project allowFallback (store.listSecretsByType (getSecretType writeCreds)) none with
  | none => .error (.notFound ("repository " ++ t.quote (t.sanitize repoURL) ++ " not found"))
  | some secret => .ok secret

def repositoryExists (repoURL project : String) (allowFallback : Bool) : Except DbError Bool :=
  match getRepositorySecret t store writeCreds repoURL project allowFallback with
  | .ok _ => .ok true
  | .error err => if err.isNotFound then .ok false
    else .error (.other ("failed to get repository secret for " ++ t.quote (t.sanitize repoURL) ++ ": " ++ err.message))

/-- what a change returns and the secrets it leaves -/
abbrev Change (A : Type) := Except DbError A × SecretStore

def createRepoCreds (repoCreds : RepoCreds) : Change RepoCreds :=
  if store.any (·.name = credsSecretName t writeCreds repoCreds.url) then
    (.error (.alreadyExists ("repository credentials " ++ t.quote repoCreds.url ++ " already exists")), store)
  else (.ok repoCreds, store ++ [repoCredsToSecret writeCreds repoCreds
    ⟨credsSecretName t writeCreds repoCreds.url, none, false, ∅⟩])

def updateRepoCreds (repoCreds : RepoCreds) : Change RepoCreds :=
  match getRepoCredsSecret t store writeCreds repoCreds.url with
  | .error err => if err.isNotFound then createRepoCreds t store writeCreds repoCreds else (.error err, store)
  | .ok secret =>
    let updatedSecret := repoCredsToSecret writeCreds repoCreds secret
    ((secretToRepoCred t updatedSecret).mapError .other, store.update updatedSecret)

def deleteRepoCreds (name : String) : Change Unit :=
  match getRepoCredsSecret t store writeCreds name with
  | .error err => (.error err, store)
  | .ok secret => (.ok (), store.deleteSecret secret)

end Backend

/-! ## The database -/

section Db

variable (t : Text) (store : SecretStore)

/-- go on if the test could be made -/
def afterTest {A : Type} (test : Except DbError Bool) (next : Bool → Change A) : Change A :=
  match test with
  | .error err => (.error err, store)
  | .ok found => next found

/-- asks for a repository with the URL, not for a credential set -/
def createRepositoryCredentials (r : RepoCreds) : Change RepoCreds :=
  afterTest store (repositoryExists t store false r.url "" false) fun secretExists =>
    if secretExists then (.error (.alreadyExists ("repository credentials " ++ t.quote r.url ++ " already exists")), store)
    else createRepoCreds t store false r

def createWriteRepositoryCredentials (r : RepoCreds) : Change RepoCreds :=
  afterTest store (repoCredsExists t store true r.url) fun secretExists =>
    if secretExists then
      (.error (.alreadyExists ("write repository credentials " ++ t.quote r.url ++ " already exists")), store)
    else createRepoCreds t store true r

/-- update a set of one kind that has this name in messages -/
def updateCredentials (writeCreds : Bool) (what : String) (r : RepoCreds) : Change RepoCreds :=
  afterTest store (repoCredsExists t store writeCreds r.url) fun secretExists =>
    if secretExists then updateRepoCreds t store writeCreds r
    else (.error (.notFound (what ++ " '" ++ r.url ++ "' not found")), store)

def updateRepositoryCredentials : RepoCreds → Change RepoCreds :=
  updateCredentials t store false "repository credentials"

def updateWriteRepositoryCredentials : RepoCreds → Change RepoCreds :=
  updateCredentials t store true "write repository credentials"

def deleteCredentials (writeCreds : Bool) (what : String) (name : String) : Change Unit :=
  afterTest store (repoCredsExists t store writeCreds name) fun secretExists =>
    if secretExists then deleteRepoCreds t store writeCreds name
    else (.error (.notFound (what ++ " '" ++ name ++ "' not found")), store)

def deleteRepositoryCredentials : String → Change Unit := deleteCredentials t store false "repository credentials"

def deleteWriteRepositoryCredentials : String → Change Unit :=
  deleteCredentials t store true "write repository credentials"

end Db

end GitOpsDeploy.Database

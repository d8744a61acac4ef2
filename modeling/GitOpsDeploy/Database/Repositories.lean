/-
Repositories and credential sets in secrets (`util/db/repository.go`, `util/db/repository_secrets.go`,
`util/db/secrets.go`, `util/git/git.go`, and `pkg/apis/application/v1alpha1/repository_types.go`).

One backend serves both kinds of secrets, those to read repositories and those to write them. The many fields that are
copied between a secret and an object are families with the keys they have in a secret. What the standard library does
with texts is a parameter (`Text`); the API server applies every change.
-/
import GitOpsDeploy.Database.Cluster

namespace GitOpsDeploy.Database

/-! ## URLs -/

structure Text where
  /-- `strings.ToLower` after `strings.TrimSpace` -/
  lower : String → String
  /-- `url.Parse` and the URL printed again -/
  parseURL : String → Option String
  /-- `SanitizeRepoURL` -/
  sanitize : String → String
  /-- the verb %q -/
  quote : String → String
  parseBool : String → Except String Bool
  parseInt : String → Except String ℤ
  /-- the 32-bit hash `fnv.New32a` -/
  hash : String → ℕ

/-- `strings.TrimPrefix` -/
def trimStart (start text : List Char) : List Char := if start.isPrefixOf text then text.drop start.length else text

/-- `strings.TrimSuffix` -/
def trimEnd (ending text : List Char) : List Char := (trimStart ending.reverse text.reverse).reverse

/-- `^(ssh://)?([^/:]*?)@[^@]+$` -/
def isSSHURL (url : List Char) : Bool :=
  let rest := trimStart "ssh://".toList url
  -- up to the last @, if there is one
  let user := (rest.reverse.dropWhile (· ≠ '@')).reverse.dropLast
  '@' ∈ rest && rest.getLast? ≠ some '@' && !user.contains '/' && !user.contains ':'

/-- the first colon becomes a slash -/
def replaceColon (url : List Char) : List Char :=
  url.takeWhile (· ≠ ':') ++ (match url.dropWhile (· ≠ ':') with
    | [] => []
    | _ :: rest => '/' :: rest)

def normalizeGitURL (t : Text) (repo : String) : String :=
  let repo := (t.lower repo).toList
  let repo := if isSSHURL repo && !"ssh://".toList.isPrefixOf repo
    then "ssh://".toList ++ trimStart "ssh://".toList (replaceColon repo) else repo
  match t.parseURL (String.ofList (trimEnd ".git".toList repo)) with
  | none => ""
  | some normalized => String.ofList (trimStart "ssh://".toList normalized.toList)

/-- the URL itself, if it cannot be parsed -/
def normalizeGitURLAllowInvalid (t : Text) (repo : String) : String :=
  if normalizeGitURL t repo = "" then repo else normalizeGitURL t repo

def sameURL (t : Text) (leftRepo rightRepo : String) : Bool :=
  normalizeGitURLAllowInvalid t leftRepo ≠ "" && normalizeGitURLAllowInvalid t rightRepo ≠ "" &&
    normalizeGitURLAllowInvalid t leftRepo = normalizeGitURLAllowInvalid t rightRepo

/-! ## Secrets -/

structure Secret where
  name : String
  /-- the label `apps.hanzo.ai/secret-type` -/
  secretType : Option String
  /-- the annotation `managed-by` has the value `apps.hanzo.ai` -/
  managed : Bool
  data : Entries String

/-- a missing entry reads as the empty text -/
def Secret.text (s : Secret) (key : String) : String := (s.data.lookup key).getD ""

/-- the secrets of the namespace, in the order in which they are listed -/
abbrev SecretStore := List Secret

namespace SecretStore

variable (store : SecretStore)

def listSecretsByType (secretType : String) : List Secret :=
  store.filter fun s => s.secretType = some secretType

def update (secret : Secret) : SecretStore :=
  store.map fun s => if s.name = secret.name then secret else s

/-- a secret that is not managed only loses its label -/
def deleteSecret (secret : Secret) : SecretStore :=
  if secret.managed then store.filter fun s => s.name ≠ secret.name
  else store.update { secret with secretType := none }

end SecretStore

variable (data : Entries String)

def updateSecretString (key value : String) : Entries String :=
  if (data.lookup key).isSome || value ≠ "" then data.insert key value else data

def updateSecretBool (key : String) (value : Bool) : Entries String :=
  if (data.lookup key).isSome || value then data.insert key (if value then "true" else "false") else data

def updateSecretInt (key : String) (value : ℤ) : Entries String :=
  if (data.lookup key).isSome || value ≠ 0 then data.insert key (Decimal.formatInt value) else data

def boolOrFalse (t : Text) (s : Secret) (key : String) : Except String Bool :=
  match s.data.lookup key with
  | none => .ok false
  | some val => t.parseBool val

def intOrZero (t : Text) (s : Secret) (key : String) : Except String ℤ :=
  match s.data.lookup key with
  | none => .ok 0
  | some val => t.parseInt val

/-! ## Fields -/

/-- texts that both repositories and credential sets have -/
inductive TextField where
  | username
  | password
  | bearerToken
  | sshPrivateKey
  | tlsClientCertData
  | tlsClientCertKey
  | type
  | githubAppPrivateKey
  | gitHubAppEnterpriseBaseURL
  | gcpServiceAccountKey
  | proxy
  | noProxy
  | azureServicePrincipalClientId
  | azureServicePrincipalClientSecret
  | azureServicePrincipalTenantId
  | azureActiveDirectoryEndpoint
  deriving DecidableEq

inductive FlagField where
  | enableOCI
  | insecureOCIForceHttp
  | forceHttpBasicAuth
  | useAzureWorkloadIdentity
  deriving DecidableEq

inductive NumberField where
  | githubAppId
  | githubAppInstallationId
  deriving DecidableEq

/-- the key in the secret of a repository -/
def TextField.repositoryKey : TextField → String
  | username => "username"
  | password => "password"
  | bearerToken => "bearerToken"
  | sshPrivateKey => "sshPrivateKey"
  | tlsClientCertData => "tlsClientCertData"
  | tlsClientCertKey => "tlsClientCertKey"
  | type => "type"
  | githubAppPrivateKey => "githubAppPrivateKey"
  | gitHubAppEnterpriseBaseURL => "githubAppEnterpriseBaseUrl"
  | gcpServiceAccountKey => "gcpServiceAccountKey"
  | proxy => "proxy"
  | noProxy => "noProxy"
  | azureServicePrincipalClientId => "azureServicePrincipalClientId"
  | azureServicePrincipalClientSecret => "azureServicePrincipalClientSecret"
  | azureServicePrincipalTenantId => "azureServicePrincipalTenantId"
  | azureActiveDirectoryEndpoint => "azureActiveDirectoryEndpoint"

/-- the key in the secret of a credential set -/
def TextField.credsKey : TextField → String
  | azureServicePrincipalClientId => "azureServicePrincipalClientID"
  | azureServicePrincipalTenantId => "azureServicePrincipalTenantID"
  | field => field.repositoryKey

def FlagField.key : FlagField → String
  | enableOCI => "enableOCI"
  | insecureOCIForceHttp => "insecureOCIForceHttp"
  | forceHttpBasicAuth => "forceHttpBasicAuth"
  | useAzureWorkloadIdentity => "useAzureWorkloadIdentity"

def NumberField.key : NumberField → String
  | githubAppId => "githubAppID"
  | githubAppInstallationId => "githubAppInstallationID"

structure RepoCreds where
  url : String
  text : TextField → String
  flag : FlagField → Bool
  number : NumberField → ℤ

structure Repository where
  name : String
  repo : String
  project : String
  text : TextField → String
  flag : FlagField → Bool
  number : NumberField → ℤ
  insecureIgnoreHostKey : Bool
  insecure : Bool
  enableLFS : Bool
  depth : ℤ
  webhookManifestCacheWarmDisabled : Bool
  inheritedCreds : Bool
  /-- the connection state is a configuration error -/
  misconfigured : Bool

/-- a repository of which only the URL is known -/
def Repository.ofURL (repo : String) : Repository :=
  ⟨"", repo, "", fun _ => "", fun _ => false, fun _ => 0, false, false, false, 0, false, false, false⟩

def Repository.hasCredentials (r : Repository) : Bool :=
  r.text .username ≠ "" || r.text .password ≠ "" || r.text .bearerToken ≠ "" || r.text .sshPrivateKey ≠ "" ||
    r.text .tlsClientCertData ≠ "" || r.text .githubAppPrivateKey ≠ "" || r.flag .useAzureWorkloadIdentity ||
    r.text .azureServicePrincipalClientSecret ≠ ""

/-- texts and numbers only where the repository has none -/
def Repository.copyCredentialsFrom (r : Repository) (source : RepoCreds) : Repository :=
  { r with
    text := fun field => if r.text field = "" then source.text field else r.text field
    number := fun field => if r.number field = 0 then source.number field else r.number field
    flag := source.flag }

/-! ## Objects and secrets -/

/-- set a field that is read from a secret -/
abbrev Setter (A : Type) := Secret → Except String (A → A)

/-- set one field after the other, until one cannot be read -/
def setFields {A : Type} (s : Secret) : List (Setter A) → A → A × Option String
  | [], a => (a, none)
  | setter :: setters, a =>
    match setter s with
    | .error err => (a, some err)
    | .ok set => setFields s setters (set a)

section Convert

variable (t : Text)

def setFlag {A : Type} (key : String) (set : A → Bool → A) : Setter A := fun s => do
  let value ← boolOrFalse t s key
  pure (set · value)

def setNumber {A : Type} (key : String) (set : A → ℤ → A) : Setter A := fun s => do
  let value ← intOrZero t s key
  pure (set · value)

/-- the fields that may be unreadable, in the order in which they are read -/
def repositorySetters : List (Setter Repository) :=
  [setFlag t "insecureIgnoreHostKey" fun r v => { r with insecureIgnoreHostKey := v },
    setFlag t "insecure" fun r v => { r with insecure := v },
    setFlag t "enableLfs" fun r v => { r with enableLFS := v },
    flag .enableOCI, flag .insecureOCIForceHttp, number .githubAppId, number .githubAppInstallationId,
    flag .forceHttpBasicAuth, flag .useAzureWorkloadIdentity,
    setNumber t "depth" fun r v => { r with depth := v },
    setFlag t "webhookManifestCacheWarmDisabled" fun r v => { r with webhookManifestCacheWarmDisabled := v }]
where
  flag (field : FlagField) : Setter Repository :=
    setFlag t field.key fun r v => { r with flag := Function.update r.flag field v }
  number (field : NumberField) : Setter Repository :=
    setNumber t field.key fun r v => { r with number := Function.update r.number field v }

/-- the repository as far as it could be read, and the error -/
def secretToRepository (s : Secret) : Repository × Option String :=
  setFields s (repositorySetters t)
    { Repository.ofURL (s.text "url") with
      name := s.text "name"
      project := s.text "project"
      text := fun field => s.text field.repositoryKey }

def credsSetters : List (Setter RepoCreds) :=
  [flag .enableOCI, flag .insecureOCIForceHttp, number .githubAppId, number .githubAppInstallationId,
    flag .forceHttpBasicAuth, flag .useAzureWorkloadIdentity]
where
  flag (field : FlagField) : Setter RepoCreds :=
    setFlag t field.key fun r v => { r with flag := Function.update r.flag field v }
  number (field : NumberField) : Setter RepoCreds :=
    setNumber t field.key fun r v => { r with number := Function.update r.number field v }

def secretToRepoCred (s : Secret) : Except String RepoCreds :=
  match setFields s (credsSetters t) ⟨s.text "url", fun field => s.text field.credsKey, fun _ => false, fun _ => 0⟩ with
  | (creds, none) => .ok creds
  | (_, some err) => .error err

end Convert

variable (writeCreds : Bool)

/-- the type of the secrets of credential sets -/
def getRepoCredSecretType : String := if writeCreds then "repo-write-creds" else "repo-creds"

/-- the type of the secrets of repositories -/
def getSecretType : String := if writeCreds then "repository-write" else "repository"

def repoCredsToSecret (creds : RepoCreds) (secret : Secret) : Secret :=
  let text := fun data (field : TextField) => updateSecretString data field.credsKey (creds.text field)
  let flag := fun data (field : FlagField) => updateSecretBool data field.key (creds.flag field)
  let number := fun data (field : NumberField) => updateSecretInt data field.key (creds.number field)
  let data := updateSecretString secret.data "url" creds.url
  let data := [.username, .password, .bearerToken, .sshPrivateKey].foldl text data
  let data := [.enableOCI, .insecureOCIForceHttp].foldl flag data
  let data := [.tlsClientCertData, .tlsClientCertKey, .type, .githubAppPrivateKey].foldl text data
  let data := [.githubAppId, .githubAppInstallationId].foldl number data
  let data := [.gitHubAppEnterpriseBaseURL, .gcpServiceAccountKey, .proxy, .noProxy].foldl text data
  let data := [.forceHttpBasicAuth, .useAzureWorkloadIdentity].foldl flag data
  let data := [.azureServicePrincipalClientId, .azureServicePrincipalClientSecret, .azureServicePrincipalTenantId,
    .azureActiveDirectoryEndpoint].foldl text data
  { secret with data, secretType := some (getRepoCredSecretType writeCreds), managed := true }

end GitOpsDeploy.Database

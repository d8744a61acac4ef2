/-
Hydration of a group of applications (`ProcessHydrationQueueItem`, `validateApplications`, `hydrate`, `getManifests` in
`controller/hydrator/hydrator.go`).

Applications that share a hydration key are hydrated together: all are validated, their manifests are generated at one dry
revision, taken from the first of them, and committed in one commit. What the projects, the repo server, the commit server
and the settings answer is an input. The manifests of the other applications are generated concurrently; here they stand in
the order of the applications. The applications are those that the worker has in memory; each change of a status is written
as a patch against the copy before it.
-/
import Mathlib.Data.List.AList
import GitOpsDeploy.Core.Paths
import GitOpsDeploy.Core.Script

namespace GitOpsDeploy.Hydrator

variable (env : Env) (apps : List Application) (app : Application) (targetRevision : String)

/-! ## Applications -/

/-- instants, in nanoseconds -/
abbrev Time := ℤ

/-- the options are those of the tools: Helm, Kustomize, directory and plugin -/
structure DrySource where
  repoURL : String
  targetRevision : String
  path : String
  options : String
  deriving DecidableEq, Repr

structure SyncSource where
  targetBranch : String
  path : String
  repoURL : String
  deriving DecidableEq, Repr

/-- `hydrateTo` is the branch that is committed to, if it is not the one that is synced -/
structure SourceHydrator where
  drySource : DrySource
  syncSource : SyncSource
  hydrateTo : Option String
  deriving DecidableEq, Repr

inductive Phase where
  | hydrating
  | failed
  | hydrated
  deriving DecidableEq, Repr

structure HydrateOperation where
  startedAt : Time
  finishedAt : Option Time
  phase : Phase
  message : String
  drySHA : String
  hydratedSHA : String
  sourceHydrator : SourceHydrator
  deriving DecidableEq, Repr

structure SuccessfulHydrateOperation where
  drySHA : String
  hydratedSHA : String
  sourceHydrator : SourceHydrator

/-- `SourceHydratorStatus` -/
structure Status where
  lastSuccessfulOperation : Option SuccessfulHydrateOperation
  currentOperation : Option HydrateOperation
  lastComparedDryRevision : String

/-- an application with a source hydrator -/
structure Application where
  ns : String
  name : String
  project : String
  sourceHydrator : SourceHydrator
  status : Status

def Application.qualifiedName : String := if app.ns = "" then app.name else app.ns ++ "/" ++ app.name

/-- the repository, path and revision of an `ApplicationSource` -/
structure Source where
  repoURL : String
  path : String
  targetRevision : String

def SourceHydrator.getHydrateToSource (s : SourceHydrator) : Source where
  repoURL := if s.syncSource.repoURL = "" then s.drySource.repoURL else s.syncSource.repoURL
  path := s.syncSource.path
  targetRevision := s.hydrateTo.getD s.syncSource.targetBranch

structure HydrationQueueKey where
  sourceRepoURL : String
  sourceTargetRevision : String
  destinationRepoURL : String
  destinationBranch : String
  deriving DecidableEq, Repr

/-- normalize is `git.NormalizeGitURLAllowInvalid` -/
def getHydrationQueueKey (normalize : String → String) (s : SourceHydrator) : HydrationQueueKey where
  sourceRepoURL := normalize s.drySource.repoURL
  sourceTargetRevision := s.drySource.targetRevision
  destinationRepoURL := normalize s.getHydrateToSource.repoURL
  destinationBranch := s.getHydrateToSource.targetRevision

/-! ## Changes of the status -/

def Status.isHydrating (s : Status) : Bool := decide (∃ op ∈ s.currentOperation, op.phase = .hydrating)

/-- `markAppsHydrating`, for one application; one that is Hydrating is left alone -/
def markAppHydrating (now : Time) (app : Application) : Application :=
  if app.status.isHydrating then app
  else { app with status.currentOperation := some ⟨now, none, .hydrating, "", "", "", app.sourceHydrator⟩ }

def setAppHydratorError (failedAt : Time) (err : String) (app : Application) : Application :=
  { app with status.currentOperation := app.status.currentOperation.map fun op =>
      { op with phase := .failed, finishedAt := some failedAt, message := "Failed to hydrate: " ++ err } }

/-- the dry revision of an attempt that failed, if it was resolved -/
def recordDrySHA (drySHA : String) (app : Application) : Application :=
  if drySHA = "" then app
  else { app with status := { app.status with
    currentOperation := app.status.currentOperation.map fun op => { op with drySHA }
    lastComparedDryRevision := drySHA } }

def setAppHydrated (finishedAt : Time) (drySHA hydratedSHA : String) (app : Application) : Application :=
  match app.status.currentOperation with
  | none => app
  | some op => { app with status := {
      currentOperation := some ⟨op.startedAt, some finishedAt, .hydrated, "", drySHA, hydratedSHA, op.sourceHydrator⟩
      lastComparedDryRevision := drySHA
      lastSuccessfulOperation := some ⟨drySHA, hydratedSHA, op.sourceHydrator⟩ } }

/-! ## What the others answer -/

structure AppProject where
  name : String
  /-- `IsSourcePermitted`, by the URL of the repository -/
  isSourcePermitted : String → Bool

/-- the result of a source integrity check; the error is that of `AsError` -/
inductive IntegrityResult where
  | absent
  | valid
  | invalid (err : String)

structure ManifestResponse where
  manifests : List String
  revision : String
  commands : List String
  sourceIntegrityResult : IntegrityResult

structure PathDetails where
  path : String
  manifests : List String
  commands : List String

structure CommitHydratedManifestsRequest where
  repo : String
  syncBranch : String
  targetBranch : String
  drySha : String
  commitMessage : String
  paths : List PathDetails
  readmeMessage : String
  authorName : String
  authorEmail : String

structure Env where
  getProcessableAppProj : Application → Except String AppProject
  /-- `sourceintegrity.HasCriteria` of the project's policy, for the dry source -/
  hasCriteria : Application → Bool
  getRepoObjs : Application → String → Except String ManifestResponse
  /-- the metadata of a commit, by repository, project and revision -/
  getRevisionMetadata : String → String → String → Except String String
  /-- the repository with its credentials; none if there are none -/
  getWriteCredentials : String → String → Except String (Option String)
  getHydratorCommitMessageTemplate : Except String String
  /-- the commit message, from the repository, the revision, the template and the metadata -/
  getTemplatedCommitMessage : String → String → String → String → Except String String
  getHydratorReadmeMessageTemplate : Except String String
  getCommitAuthorName : Except String String
  getCommitAuthorEmail : Except String String
  newCommitServerClient : Except String Unit
  /-- the SHA of the commit -/
  commitHydratedManifests : CommitHydratedManifestsRequest → Except String String
  sanitizeRepoURL : String → String

/-! ## Validation -/

/-- `IsRootPath` -/
def isRootPath (path : String) : Bool := (Paths.ofString path).clean.text ∈ ["", ".", "/"]

abbrev ErrorsByApp := AList fun _ : String => String

/-- the loop: the projects of the applications, the errors, and which application uses a destination -/
structure Validation where
  projects : List String
  errors : ErrorsByApp
  uniquePaths : List ((String × String) × String)

def Validation.fail (v : Validation) (app err : String) : Validation := { v with errors := v.errors.insert app err }

def validateApplication (v : Validation) (app : Application) : Validation :=
  match env.getProcessableAppProj app with
  | .error err => v.fail app.qualifiedName ("failed to get project \"" ++ app.project ++ "\": " ++ err)
  | .ok proj =>
    let drySource := app.sourceHydrator.drySource
    let destination := app.sourceHydrator.getHydrateToSource
    if !proj.isSourcePermitted drySource.repoURL then
      v.fail app.qualifiedName ("application repo " ++ env.sanitizeRepoURL drySource.repoURL ++
        " is not permitted in project '" ++ proj.name ++ "'")
    else
      let v := { v with projects := v.projects.insert app.project }
      if isRootPath destination.path then
        v.fail app.qualifiedName ("app is configured to hydrate to the repository root (branch \"" ++
          destination.targetRevision ++ "\", path \"" ++ destination.path ++ "\") which is not allowed")
      else if !proj.isSourcePermitted destination.repoURL then
        v.fail app.qualifiedName ("destination repo " ++ env.sanitizeRepoURL destination.repoURL ++
          " is not permitted in project '" ++ proj.name ++ "'")
      else
        match v.uniquePaths.lookup (destination.repoURL, destination.path) with
        | some other =>
          let uses := " hydrator uses the same destination: repo=" ++ env.sanitizeRepoURL destination.repoURL ++
            ", path=" ++ destination.path
          (v.fail app.qualifiedName ("app " ++ other ++ uses)).fail other ("app " ++ app.qualifiedName ++ uses)
        | none => { v with uniquePaths := ((destination.repoURL, destination.path), app.qualifiedName) :: v.uniquePaths }

/-- with an error no projects are returned -/
def validateApplications : Validation :=
  let v := apps.foldl (validateApplication env) ⟨[], ∅, []⟩
  if v.errors.keys ≠ [] then { v with projects := [] } else v

def genericHydrationError (errors : ErrorsByApp) : String :=
  let keys := errors.keys.insertionSort (· ≤ ·)
  "cannot hydrate because application " ++ keys.headD "" ++ " " ++
    if keys.length > 1 then "and " ++ toString (keys.length - 1) ++ " more have errors" else "has an error"

/-! ## Manifests -/

def getManifests : Except String (String × PathDetails) :=
  let targetRevision := if targetRevision = "" then app.sourceHydrator.drySource.targetRevision else targetRevision
  match env.getRepoObjs app targetRevision with
  | .error err => .error ("failed to get repo objects for app \"" ++ app.qualifiedName ++ "\": " ++ err)
  | .ok resp =>
    let details : String × PathDetails :=
      (resp.revision, ⟨app.sourceHydrator.syncSource.path, resp.manifests, resp.commands⟩)
    if env.hasCriteria app then
      match resp.sourceIntegrityResult with
      | .absent => .error ("source integrity verification required but not performed for app \"" ++ app.qualifiedName ++
          "\" dry revision \"" ++ resp.revision ++ "\"")
      | .invalid err => .error ("source integrity verification failed for app \"" ++ app.qualifiedName ++
          "\" dry revision \"" ++ resp.revision ++ "\": " ++ err)
      | .valid => .ok details
    else .ok details

/-! ## Hydration -/

/-- what `hydrate` returns; err is an error that affects each application -/
structure HydrateResult where
  drySHA : String
  hydratedSHA : String
  errors : ErrorsByApp
  err : Option String

/-- a program that issues commits and may return early -/
abbrev Hydrating := Script CommitHydratedManifestsRequest HydrateResult

/-- a step that affects all applications when it fails -/
def attempt {A : Type} (drySHA message : String) : Except String A → Hydrating A
  | .error err => .stop ⟨drySHA, "", ∅, some (message ++ err)⟩
  | .ok a => pure a

/-- the manifests of an application after the first -/
def collect (s : List PathDetails × ErrorsByApp) (app : Application) :
    List PathDetails × ErrorsByApp :=
  match getManifests env app targetRevision with
  | .error err => (s.1, s.2.insert app.qualifiedName ("failed to get manifests: " ++ err))
  | .ok (_, details) => (s.1 ++ [details], s.2)

def otherManifests (first : PathDetails) (apps : List Application) :
    Hydrating (List PathDetails) :=
  let (paths, errors) := apps.foldl (collect env targetRevision) ([first], ∅)
  if errors.keys = [] then pure paths else .stop ⟨targetRevision, "", errors, none⟩

def firstManifests : Hydrating (String × PathDetails) :=
  match getManifests env app "" with
  | .error err => .stop ⟨"", "", (∅ : ErrorsByApp).insert app.qualifiedName ("failed to get manifests: " ++ err), none⟩
  | .ok details => pure details

/-- a dry commit that was hydrated before is not hydrated again; only the first application is inspected -/
def skipHydrated : Hydrating Unit :=
  match app.status.lastSuccessfulOperation with
  | none => pure ()
  | some op => if targetRevision = op.drySHA then .stop ⟨targetRevision, op.hydratedSHA, ∅, none⟩ else pure ()

/-- the project of all applications, or none -/
def commonProject : List String → String
  | [project] => project
  | _ => ""

def commit (drySHA : String) (request : CommitHydratedManifestsRequest) : Hydrating String := do
  attempt drySHA "failed to create commit service: " env.newCommitServerClient
  .emit request
  attempt drySHA "failed to commit hydrated manifests: " (env.commitHydratedManifests request)

def hydrate (projects : List String) : List Application → Hydrating HydrateResult
  | [] => pure ⟨"", "", ∅, none⟩
  | first :: others => do
    let destination := first.sourceHydrator.getHydrateToSource
    let drySourceRepoURL := first.sourceHydrator.drySource.repoURL
    let (targetRevision, details) ← firstManifests env first
    skipHydrated first targetRevision
    let paths ← otherManifests env targetRevision details others
    let project := commonProject projects
    let metadata ← attempt targetRevision ("failed to get revision metadata for \"" ++ targetRevision ++ "\": ")
      (env.getRevisionMetadata drySourceRepoURL project targetRevision)
    let repo ← attempt targetRevision "failed to get hydrator credentials: "
      (env.getWriteCredentials destination.repoURL project)
    let template ← attempt targetRevision "failed to get hydrated commit message template: "
      env.getHydratorCommitMessageTemplate
    let commitMessage ← attempt targetRevision "failed to get hydrator commit templated message: "
      (env.getTemplatedCommitMessage drySourceRepoURL targetRevision template metadata)
    let readmeMessage ← attempt targetRevision "failed to get hydrated readme message template: "
      env.getHydratorReadmeMessageTemplate
    let authorName ← attempt targetRevision "failed to get commit author name: " env.getCommitAuthorName
    let authorEmail ← attempt targetRevision "failed to get commit author email: " env.getCommitAuthorEmail
    let hydratedSHA ← commit env targetRevision {
      repo := repo.getD destination.repoURL
      syncBranch := first.sourceHydrator.syncSource.targetBranch
      targetBranch := destination.targetRevision
      drySha := targetRevision
      commitMessage, paths, readmeMessage, authorName, authorEmail }
    pure ⟨targetRevision, hydratedSHA, ∅, none⟩

/-- returned early or not -/
def returned (o : Hydrating HydrateResult) : HydrateResult :=
  match o.result with
  | .error r => r
  | .ok r => r

/-! ## The queue item -/

/-- the applications afterwards, and the commits that were requested -/
structure Processed where
  apps : List Application
  commits : List CommitHydratedManifestsRequest

/-- an application fails with its own error, or with one that names another -/
def failWith (failedAt : Time) (errors : ErrorsByApp) (app : Application) : Application :=
  setAppHydratorError failedAt ((errors.lookup app.qualifiedName).getD (genericHydrationError errors)) app

/-- the errors of a hydration; an error that affects each application is the error of each -/
def appErrors (r : HydrateResult) : ErrorsByApp :=
  match r.err with
  | none => r.errors
  | some err => apps.foldl (fun errors app => errors.insert app.qualifiedName err) r.errors

/-- `ProcessHydrationQueueItem`, after the applications of the key were listed -/
def processHydrationQueueItem (now finishedAt : Time) (listed : List Application) : Processed :=
  let apps := listed.map (markAppHydrating now)
  let validation := validateApplications env apps
  if validation.errors.keys ≠ [] then ⟨apps.map (failWith finishedAt validation.errors), []⟩
  else
    let o := hydrate env validation.projects apps
    let r := returned o
    let errors := appErrors apps r
    if errors.keys ≠ [] then ⟨apps.map fun app => failWith finishedAt errors (recordDrySHA r.drySHA app), o.calls⟩
    else ⟨apps.map (setAppHydrated finishedAt r.drySHA r.hydratedSHA), o.calls⟩

end GitOpsDeploy.Hydrator

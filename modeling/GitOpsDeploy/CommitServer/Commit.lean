/-
Commit requests (`handleCommitRequest`, `initGitClient` in `commitserver/commit/commit.go`, `WriteForPaths` and the functions
around it in `commitserver/commit/hydratorhelper.go`, `GetCommitMetadata` in `util/hydrator/hydrator.go`).

A request asks for a commit on the target branch that holds, for each of its paths, the manifests of that path. The dry
commit that the tip of the branch was hydrated from stands in a note of the tip. The outputs of git that are only logged are
left out.
-/
import GitOpsDeploy.Hydrator.Group
import GitOpsDeploy.CommitServer.Repository

namespace GitOpsDeploy.CommitServer

open Paths (SlashPath)
open Hydrator (PathDetails)
open Prog (ask stop lift)

/-! ## Requests -/

/-- the date is in the format of RFC 3339; the references are those of the trailers -/
structure RevisionMetadata where
  author : String
  date : Option String
  message : String
  references : List String

/-- of the repository only its URL is used -/
structure CommitHydratedManifestsRequest where
  repo : Option String
  syncBranch : String
  targetBranch : String
  drySha : String
  commitMessage : String
  paths : List PathDetails
  dryCommitMetadata : Option RevisionMetadata
  readmeMessage : String
  authorName : String
  authorEmail : String

structure HydratorCommitMetadata where
  repoURL : String
  drySHA : String
  commands : List String := []
  author : String := ""
  date : String := ""
  subject : String := ""
  body : String := ""
  references : List String := []

/-- JSON, YAML and templates -/
structure Formats (Obj : Type) where
  /-- a manifest from its JSON -/
  unmarshal : String → Except String Obj
  /-- a YAML document -/
  encode : Obj → Except String String
  encodeMetadata : HydratorCommitMetadata → Except String String
  /-- a template that was parsed is executed on metadata -/
  parseReadme : String → Except String (HydratorCommitMetadata → Except String String)
  /-- the body of a commit message without the trailers that `GetReferences` knows -/
  withoutTrailers : String → String
  /-- a note with a dry SHA, and the dry SHA of a note -/
  marshalNote : String → Except String String
  unmarshalNote : String → Except String String

def manifestYaml : String := "manifest.yaml"

def gitAttributesContents : String := "**/README.md linguist-generated=true\n**/hydrator.metadata linguist-generated=true"

/-- `strings.Cut` at the first empty line -/
def cutAtEmptyLine : List Char → List Char × List Char
  | '\n' :: '\n' :: rest => ([], rest)
  | c :: rest => (c :: (cutAtEmptyLine rest).1, (cutAtEmptyLine rest).2)
  | [] => ([], [])

variable {Obj : Type} (f : Formats Obj)

variable (r : CommitHydratedManifestsRequest) (dirPath : String)

def getCommitMetadata (repoUrl drySha : String) (dryCommitMetadata : Option RevisionMetadata) : HydratorCommitMetadata :=
  let message := (dryCommitMetadata.map RevisionMetadata.message).getD ""
  { repoURL := repoUrl
    drySHA := drySha
    author := (dryCommitMetadata.map RevisionMetadata.author).getD ""
    subject := String.ofList (cutAtEmptyLine message.toList).1
    body := f.withoutTrailers (String.ofList (cutAtEmptyLine message.toList).2)
    date := (dryCommitMetadata.bind RevisionMetadata.date).getD ""
    references := (dryCommitMetadata.map RevisionMetadata.references).getD [] }

/-! ## Writing -/

/-- a program of the commit server -/
abbrev Committing := Prog Call Answer String

/-- an action; its error is wrapped -/
def act (wrap : String) (action : Action) : Committing Unit := do
  let answer : Except String Unit ← ask (Call.act action)
  lift (answer.mapError (wrap ++ ·))

def tryLift {A : Type} (wrap : String) (r : Except String A) : Committing A := lift (r.mapError (wrap ++ ·))

def writeMetadata (metadata : HydratorCommitMetadata) : Committing Unit := do
  act "failed to create hydrator metadata file: " (.create (inDir dirPath "hydrator.metadata"))
  let text ← tryLift "failed to encode hydrator metadata: " (f.encodeMetadata metadata)
  act "failed to encode hydrator metadata: " (.append (inDir dirPath "hydrator.metadata") text)

def writeReadme (metadata : HydratorCommitMetadata) (rawReadmeTemplate : String) : Committing Unit := do
  let readmeTemplate ← tryLift "failed to parse readme template: " (f.parseReadme rawReadmeTemplate)
  act "failed to create README file: " (.create (inDir dirPath "README.md"))
  let text ← tryLift "failed to execute readme template: " (readmeTemplate metadata)
  act "failed to execute readme template: " (.append (inDir dirPath "README.md") text)

def writeGitAttributes : Committing Unit := do
  act "failed to create git attributes file: " (.create (inDir "" ".gitattributes"))
  act "failed to write git attributes: " (.append (inDir "" ".gitattributes") gitAttributesContents)

/-- documents of a stream are separated, so all but the first start with a line of their own -/
def separator (later : Bool) : String := if later then "---\n" else ""

def writeManifests (manifests : List String) : Committing Unit := do
  act "failed to open manifest file: " (.create (inDir dirPath manifestYaml))
  let _ ← manifests.foldlM (fun later m => do
    let obj ← tryLift "failed to unmarshal manifest: " (f.unmarshal m)
    let document ← tryLift "failed to encode manifest: " (f.encode obj)
    act "failed to encode manifest: " (.append (inDir dirPath manifestYaml) (separator later ++ document))
    pure true) false

def hydratePath (p : PathDetails) : String := if p.path = "." then "" else p.path

/-- the root directory is there already -/
def createPath : Committing Unit :=
  if dirPath = "" then pure () else act "failed to create path: " (.mkdirAll dirPath)

/-- one path of `WriteForPaths`: its metadata and its README are only written when its manifests changed -/
def writeForPath (repoUrl drySha rawReadmeTemplate : String) (atleastOneManifestChanged : Bool) (p : PathDetails) :
    Committing Bool := do
  createPath (hydratePath p)
  (writeManifests f (hydratePath p) p.manifests).mapStop ("failed to write manifests: " ++ ·)
  let answer : Except String Bool ← ask (Call.hasFileChanged (inDir (hydratePath p) manifestYaml))
  let changed ← tryLift "failed to check if anything changed on the manifest: " answer
  if changed then
    let hydratorMetadata : HydratorCommitMetadata := { commands := p.commands, drySHA := drySha, repoURL := repoUrl }
    (writeMetadata f (hydratePath p) hydratorMetadata).mapStop ("failed to write hydrator metadata: " ++ ·)
    (writeReadme f (hydratePath p) hydratorMetadata rawReadmeTemplate).mapStop ("failed to write readme: " ++ ·)
    pure true
  else
    pure atleastOneManifestChanged

/-- `WriteForPaths`: whether a manifest changed -/
def writeForPaths (repoUrl drySha : String) (dryCommitMetadata : Option RevisionMetadata) (paths : List PathDetails)
    (rawReadmeTemplate : String) : Committing Bool := do
  (writeMetadata f "" (getCommitMetadata f repoUrl drySha dryCommitMetadata)).mapStop
    ("failed to write top-level hydrator metadata: " ++ ·)
  writeGitAttributes.mapStop ("failed to write git attributes: " ++ ·)
  paths.foldlM (writeForPath f repoUrl drySha rawReadmeTemplate) false

/-! ## Committing -/

/-- `IsHydrated`: the note of the commit is for this dry SHA; a commit without a note is not hydrated -/
def isHydrated (drySha commitSha : String) : Committing Bool := do
  let answer : Except NoteError String ← ask (Call.getCommitNote commitSha)
  match answer with
  | .error .noNoteFound => pure false
  | .error (.failed err) => stop err
  | .ok note =>
    let commitNote ← tryLift "json unmarshal failed " (f.unmarshalNote note)
    pure (commitNote = drySha)

def addNote (drySha commitSha : String) : Committing Unit := do
  let note ← tryLift "failed to marshal commit note: " (f.marshalNote drySha)
  act "" (.addAndPushNote commitSha note)

def commitSHA : Committing String := do
  let answer : Except String String ← ask Call.commitSHA
  tryLift "failed to get commit SHA: " answer

def authorOf : String × String :=
  (if r.authorName = "" then "Hanzo CD" else r.authorName, if r.authorEmail = "" then "argo-cd@example.com"
    else r.authorEmail)

def initGitClient : Committing Unit := do
  act "failed to create temp dir: " .createTempDir
  act "failed to create git client: " .newClient
  act "failed to init git client: " .init
  act "failed to clone repo: " .fetch
  act "failed to set author: " (.setAuthor (authorOf r).1 (authorOf r).2)

/-- the manifests are written, and committed if one of them changed; in both cases the commit gets a note -/
def hydrate (repoUrl hydratedSha : String) (r : CommitHydratedManifestsRequest) : Committing String := do
  let shouldCommit ← (writeForPaths f repoUrl r.drySha r.dryCommitMetadata r.paths r.readmeMessage).mapStop
    ("failed to write manifests: " ++ ·)
  if shouldCommit then
    act "failed to commit and push: " (.commitAndPush r.targetBranch r.commitMessage)
    let sha ← commitSHA
    (addNote f r.drySha sha).mapStop ("failed to add commit note: " ++ ·)
    pure sha
  else
    (addNote f r.drySha hydratedSha).mapStop ("failed to add commit note: " ++ ·)
    pure hydratedSha

/-- `handleCommitRequest`: the SHA of the hydrated commit -/
def handleCommitRequest : Committing String :=
  match r.repo with
  | none => stop "repo is required"
  | some repoUrl =>
    if repoUrl = "" then stop "repo URL is required"
    else if r.targetBranch = "" then stop "target branch is required"
    else if r.syncBranch = "" then stop "sync branch is required"
    else do
      (initGitClient r).mapStop ("failed to init git client: " ++ ·)
      act "failed to open root dir: " .openRoot
      act "failed to checkout sync branch: " (.checkoutOrOrphan r.syncBranch)
      act "failed to checkout target branch: " (.checkoutOrNew r.targetBranch r.syncBranch)
      let hydratedSha ← commitSHA
      let hydrated ← (isHydrated f r.drySha hydratedSha).mapStop ("failed to get notes from git " ++ ·)
      if hydrated then pure hydratedSha else hydrate f repoUrl hydratedSha r

end GitOpsDeploy.CommitServer

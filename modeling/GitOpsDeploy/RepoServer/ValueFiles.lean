/-
Value files of Helm sources (`getResolvedValueFiles` in `reposerver/repository/repository.go`, `util/io/path/resolved.go`).

An entry of the list of value files is a URL, a path from the application or from the root of the repository, a glob, or a
path in another repository that is named by a reference. A local path is joined in its text, the links in its last component
are followed by their texts, and the result has to start with the root. Matches of a glob are resolved by the file system
instead. Absolute paths are lists of components.
-/
import GitOpsDeploy.Core.Fallible
import GitOpsDeploy.Files.Untar

namespace GitOpsDeploy.ValueFiles

open Paths (SlashPath IsName components cleanRooted)
open FileTree (Errno)
open Untar (evalSymlinks)

/-! ## What the code reads -/

structure Host where
  tree : FileTree
  /-- how many links the kernel follows -/
  limit : ℕ
  cwd : String
  /-- `doublestar.FilepathGlob` of an absolute pattern -/
  glob : List String → Except String (List (List String))

/-- a text from the root, or none -/
def Rooted (s : String) : Prop := s = "" ∨ s.toList.head? = some '/'

/-- substitution of variables, and `url.Parse`; both leave a leading slash where it is -/
structure Texts where
  envsubst : String → String
  envsubst_rooted : ∀ s, Rooted s → Rooted (envsubst s)
  /-- the scheme of a URL; none if the text is no URL or has no scheme -/
  scheme : String → Option String
  scheme_rooted : ∀ s, Rooted s → scheme s = none
  equalFold : String → String → Bool

structure Request where
  appPath : String
  repoRoot : String
  allowedValueFilesSchemas : List String
  rawValueFiles : List String
  /-- the URL of the repository that a reference names -/
  refSources : String → Option String
  /-- where a repository is checked out, by its URL; empty if it is not -/
  gitRepoPaths : String → String
  ignoreMissingValueFiles : Bool

/-- a URL, or an absolute path -/
inductive ResolvedFilePath where
  | url (text : String)
  | path (p : List String)
  deriving DecidableEq, Repr

/-! ## Resolution -/

variable (h : Host)

variable (path : List String)

/-- `os.Readlink`: the target, if the last component is a link -/
def readlink : Option SlashPath :=
  match h.tree.locate h.limit path with
  | .error _ => none
  | .ok (p, c) =>
    match h.tree.node (p ++ [c]) with
    | some (.link target) => some target
    | _ => none

/-- where the text of a link leads, from the directory that the path to the link names -/
def follow (target : SlashPath) : List String :=
  if target.rooted then target.parts else cleanRooted (path.dropLast ++ target.parts)

def resolveSymbolicLinkRecursive (path : List String) (maxDepth : ℕ) : Except String (List String) :=
  match readlink h path with
  | none => .ok path
  | some target =>
    match maxDepth with
    | 0 => .error "maximum nesting level reached"
    | maxDepth + 1 => resolveSymbolicLinkRecursive (follow path target) maxDepth

def resolveFailure (_err : String) : String := "internal error: failed to resolve path. Check logs for more details"

/-- the path of an entry before links are followed -/
def joined (appPath repoRoot fileOrDirectory : String) : List String :=
  if (Paths.ofString fileOrDirectory).rooted then cleanRooted (Paths.abs h.cwd repoRoot ++ components fileOrDirectory)
  else cleanRooted (Paths.abs h.cwd appPath ++ components fileOrDirectory)

/-- the file system's own root has no path above it, so that a path may be equal to it -/
def resolveFileOrDirectory (appPath repoRoot fileOrDirectory : String) (allowResolveToRoot : Bool) :
    Except String (List String) := do
  let absRepoPath := Paths.abs h.cwd repoRoot
  let delinkedPath ← (resolveSymbolicLinkRecursive h (joined h appPath repoRoot fileOrDirectory) 10).mapError
    resolveFailure
  let path := cleanRooted delinkedPath
  if path = absRepoPath ∧ absRepoPath ≠ [] then
    if allowResolveToRoot then pure path
    else throw (resolveFailure "path resolved to repository root, which is not allowed")
  else if absRepoPath <+: path then pure path
  else throw ("file '" ++ fileOrDirectory ++ "' resolved to outside repository root")

variable (x : Texts)

variable (r : Request) (rawValueFile : String)

def isURLSchemeAllowed (scheme : String) (allowed : List String) : Bool :=
  allowed.any (x.equalFold scheme) && scheme ≠ ""

def resolveValueFilePathOrUrl (appPath repoRoot valueFile : String) (allowedURLSchemes : List String) :
    Except String ResolvedFilePath :=
  match x.scheme valueFile with
  | some scheme =>
    if isURLSchemeAllowed x scheme allowedURLSchemes then .ok (.url valueFile)
    else .error ("the URL scheme '" ++ scheme ++ "' is not allowed")
  | none => (resolveFileOrDirectory h appPath repoRoot valueFile false).map .path

/-! ## Entries -/

/-- the name of a reference, with its dollar -/
def getReferencedSourceName : String :=
  if rawValueFile.toList.head? = some '$' then (components rawValueFile).headD "" else ""

def getReferencedSource : Option String :=
  if getReferencedSourceName rawValueFile = "" then none else r.refSources (getReferencedSourceName rawValueFile)

/-- an entry without the name of its reference -/
def withoutReference : String := "/".intercalate ("" :: (components rawValueFile).tail)

def getResolvedRefValueFile (rawValueFile refSourceRepo : String) : Except String ResolvedFilePath :=
  let repoPath := r.gitRepoPaths refSourceRepo
  if repoPath = "" then .error ("failed to find repo \"" ++ refSourceRepo ++ "\"")
  else
    (resolveValueFilePathOrUrl h x repoPath repoPath (x.envsubst (withoutReference rawValueFile))
      r.allowedValueFilesSchemas).mapError ("error resolving value file path: " ++ ·)

def resolveEntry : Except String ResolvedFilePath :=
  match getReferencedSource r rawValueFile with
  | some repo => getResolvedRefValueFile h x r rawValueFile repo
  | none => resolveValueFilePathOrUrl h x r.appPath r.repoRoot (x.envsubst rawValueFile) r.allowedValueFilesSchemas

/-- the repository that an entry is in -/
def effectiveRoot : String :=
  match getReferencedSource r rawValueFile with
  | some repo => if r.gitRepoPaths repo ≠ "" then r.gitRepoPaths repo else r.repoRoot
  | none => r.repoRoot

def isGlobPath : Bool := path.any fun c => c.toList.any (· ∈ ['*', '?', '['])

def errnoText : Errno → String
  | .notExist => "no such file or directory"
  | .notDir => "not a directory"
  | .loop => "too many links"
  | .exist => "file exists"
  | .isDir => "is a directory"
  | .denied => "permission denied"

def pathText : String := (SlashPath.mk true path).text

def verifyGlobMatchesWithinRoot (matched : List (List String)) (effectiveRoot : String) : Except String Unit := do
  let canonicalRoot ← (evalSymlinks h.tree (Paths.abs h.cwd effectiveRoot)).mapError
    fun e => "error resolving symlinks in repo root: " ++ errnoText e
  forM matched fun m => do
    let realMatch ← (evalSymlinks h.tree m).mapError
      fun e => "error resolving symlink for glob match \"" ++ pathText m ++ "\": " ++ errnoText e
    if canonicalRoot <+: realMatch then pure ()
    else throw ("glob match \"" ++ pathText m ++ "\" resolved to outside repository root")

/-- `os.IsNotExist` of the error of `os.Stat` -/
def notExist : Bool :=
  match h.tree.resolve h.limit [] path with
  | .ok (.missing ..) => true
  | .error .notExist => true
  | _ => false

/-- the files that a glob stands for, without those that are listed on their own -/
def expandGlob (explicitPaths : List ResolvedFilePath) (rawValueFile : String) (pattern : List String) :
    Except String (List ResolvedFilePath) := do
  let matched ← (h.glob pattern).mapError ("error expanding glob pattern \"" ++ rawValueFile ++ "\": " ++ ·)
  if matched = [] then
    if r.ignoreMissingValueFiles then pure []
    else throw ("values file glob \"" ++ rawValueFile ++ "\" matched no files")
  else
    (verifyGlobMatchesWithinRoot h matched (effectiveRoot r rawValueFile)).mapError
      ("glob pattern \"" ++ rawValueFile ++ "\": " ++ ·)
    pure ((matched.map .path).filter (· ∉ explicitPaths))

/-- what one entry adds -/
def valueFilesOf (explicitPaths : List ResolvedFilePath) (rawValueFile : String) :
    Except String (List ResolvedFilePath) := do
  let resolved ← (resolveEntry h x r rawValueFile).mapError ("error resolving value file path: " ++ ·)
  match resolved with
  | .url text => pure [.url text]
  | .path p =>
    if isGlobPath p then expandGlob h r explicitPaths rawValueFile p
    else if notExist h p && r.ignoreMissingValueFiles then pure []
    else pure [.path p]

/-- entries that are no globs; an error is found again when the entry is processed -/
def explicitPath : Option ResolvedFilePath :=
  match resolveEntry h x r rawValueFile with
  | .error _ => none
  | .ok (.url text) => if isGlobPath [text] then none else some (.url text)
  | .ok (.path p) => if isGlobPath p then none else some (.path p)

def appendUnique (files : List ResolvedFilePath) (p : ResolvedFilePath) : List ResolvedFilePath :=
  if p ∈ files then files else files ++ [p]

def getResolvedValueFiles : Except String (List ResolvedFilePath) :=
  let explicitPaths := r.rawValueFiles.filterMap (explicitPath h x r)
  r.rawValueFiles.foldlM (fun files raw => do
    let added ← valueFilesOf h x r explicitPaths raw
    pure (added.foldl appendUnique files)) []

end GitOpsDeploy.ValueFiles

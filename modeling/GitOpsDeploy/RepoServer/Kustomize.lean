/-
The generation of manifests with Kustomize in a checkout (`GenerateManifests`, `GetAppSourceType` and
`mergeSourceParameters` in `reposerver/repository/repository.go`, `Build` in `util/kustomize/kustomize.go`).

What the code reads of the checkout and the commands it runs there are calls (`Call`); the tools it links, with merge
patches, YAML and the substitution of variables, are `Tools`. For the other types of sources the generation is handed
over to their tool, which is not modelled.
-/
import GitOpsDeploy.Core.Decimal
import GitOpsDeploy.Core.Interleave
import GitOpsDeploy.RepoServer.Source

namespace GitOpsDeploy.RepoServer

/-! ## Calls -/

inductive SourceType where
  | helm
  | kustomize
  | directory
  | plugin
  deriving DecidableEq

def SourceType.name : SourceType → String
  | helm => "Helm"
  | kustomize => "Kustomize"
  | directory => "Directory"
  | plugin => "Plugin"

/-- what is found under the name of an override file -/
inductive OverrideFile where
  | missing
  | directory
  | statError (err : String)
  | unreadable (err : String)
  | content (text : String)

/-- the field `patches` of a kustomization file: a list, or a value of another type -/
inductive PatchesField where
  | list (patches : List String)
  | other (type : String)

/-- what is read of a kustomization file; `rest` is the map without its patches -/
inductive KustomizationFile where
  | unreadable (err : String)
  | malformed (err : String)
  | notMap
  | map (rest : String) (patches : Option PatchesField)

/-- what a generation does outside of its own memory -/
inductive Call where
  /-- stat and read an override file -/
  | overrideFile (filename : String)
  /-- `discovery.AppType` -/
  | appType
  /-- `creds.Environ` -/
  | environ
  /-- run `kustomize edit` in the directory of the application -/
  | edit (binary : String) (args : List String)
  | findKustomizeFile
  | readKustomization (file : String)
  | statFile (file : String)
  | writeFile (file content : String)
  /-- `getSemverSafe(...).LessThan(version)` -/
  | versionLessThan (binary version : String)
  /-- `os.OpenRoot` of the repository -/
  | openRoot
  /-- `filepath.Rel` and `root.Stat` of a component -/
  | statComponent (component : String)
  | build (binary : String) (params : List String)

/-- the type of the answers -/
def Call.Answer : Call → Type
  | overrideFile _ => OverrideFile
  | appType => Except String SourceType
  | environ => Except String Unit
  | edit _ _ => Except String Unit
  | findKustomizeFile => Option String
  | readKustomization _ => KustomizationFile
  | statFile _ => Except String Unit
  | writeFile _ _ => Except String Unit
  | versionLessThan _ _ => Bool
  | openRoot => Except String Unit
  | statComponent _ => Except String Bool
  | build _ _ => Except String String

/-- the calls that are there to change files of the checkout -/
def Call.Modifies : Call → Prop
  | edit _ _ => True
  | writeFile _ _ => True
  | _ => False

structure Tools where
  /-- JSON of the source, patched with the YAML of an override file and read back -/
  mergePatch : ApplicationSource → String → Except String ApplicationSource
  /-- `GetKustomizeBinaryPath` -/
  kustomizeBinaryPath : ApplicationSource → Except String String
  /-- `GetKubeVersionOrDefault` and `parseKubeVersion`; an error has its full text -/
  kubeVersion : ApplicationSource → Except String String
  /-- `GetAPIVersionsOrDefault` -/
  apiVersions : ApplicationSource → List String
  envsubst : String → String
  /-- YAML of a kustomization file with the patches -/
  marshal : String → List String → Except String String
  splitYAML : String → Except String (List String)

/-- what a generation reads of its request -/
structure GenerationRequest where
  source : ApplicationSource
  appName : String
  appPath : String
  enabledSourceTypes : Option (List (String × Bool))
  /-- `KustomizeOptions.BuildOptions` -/
  buildOptions : String

abbrev Generation := Prog Call Call.Answer String

open Prog

-- the calls with the types of their answers

abbrev readOverride (filename : String) : Generation OverrideFile := ask (Call.overrideFile filename)

abbrev discoverAppType : Generation (Except String SourceType) := ask Call.appType

abbrev credsEnviron : Generation (Except String Unit) := ask Call.environ

abbrev kustomizeEdit (binary : String) (args : List String) : Generation (Except String Unit) :=
  ask (Call.edit binary args)

abbrev findKustomizeFile : Generation (Option String) := ask Call.findKustomizeFile

abbrev readKustomization (file : String) : Generation KustomizationFile := ask (Call.readKustomization file)

abbrev statFile (file : String) : Generation (Except String Unit) := ask (Call.statFile file)

abbrev writeFile (file content : String) : Generation (Except String Unit) := ask (Call.writeFile file content)

abbrev versionLessThan (binary version : String) : Generation Bool := ask (Call.versionLessThan binary version)

abbrev openRoot : Generation (Except String Unit) := ask Call.openRoot

abbrev statComponent (component : String) : Generation (Except String Bool) := ask (Call.statComponent component)

abbrev kustomizeBuild (binary : String) (params : List String) : Generation (Except String String) :=
  ask (Call.build binary params)

/-! ## The source in force -/

def repoSourceFile : String := ".cd-source.yaml"

def appSourceFile (appName : String) : String := ".cd-source-" ++ appName ++ ".yaml"

/-- the override files, in the order in which they are applied -/
def overrides (req : GenerationRequest) : List String :=
  (repoSourceFile :: if req.appName ≠ "" then [appSourceFile req.appName] else []).map (req.appPath ++ "/" ++ ·)

def applyOverride (tools : Tools) (merged : ApplicationSource) (filename : String) : Generation ApplicationSource := do
  match ← readOverride filename with
  | .missing => pure merged
  | .directory => pure merged
  | .statError err => stop err
  | .unreadable err => stop (filename ++ ": " ++ err)
  | .content text => lift ((tools.mergePatch merged text).mapError (filename ++ ": " ++ ·))

/-- only properties of the config management tools are taken from the override files -/
def mergeSourceParameters (tools : Tools) (req : GenerationRequest) : Generation ApplicationSource := do
  let merged ← (overrides req).foldlM (applyOverride tools) req.source
  pure { merged with
    chart := req.source.chart
    path := req.source.path
    repoURL := req.source.repoURL
    targetRevision := req.source.targetRevision }

def ApplicationSource.explicitType (source : ApplicationSource) : Except String (Option SourceType) :=
  let appTypes := (if source.kustomize.isSome then [SourceType.kustomize] else []) ++
    (if source.helm.isSome then [.helm] else []) ++ (if source.directory.isSome then [.directory] else []) ++
    (if source.plugin.isSome then [.plugin] else [])
  match appTypes with
  | [] => .ok none
  | [appType] => .ok (some appType)
  | _ => .error ("multiple application sources defined: " ++ ",".intercalate (appTypes.map SourceType.name))

def isManifestGenerationEnabled (sourceType : SourceType) (enabled : Option (List (String × Bool))) : Bool :=
  ((enabled.bind (List.lookup sourceType.name)).getD true)

/-- the type of the source and the source with the overrides applied -/
def getAppSourceType (tools : Tools) (req : GenerationRequest) : Generation (SourceType × ApplicationSource) := do
  let source ← (mergeSourceParameters tools req).mapStop ("error while parsing source parameters: " ++ ·)
  match ← lift source.explicitType with
  | some appSourceType =>
    if isManifestGenerationEnabled appSourceType req.enabledSourceTypes then pure (appSourceType, source)
    else pure (.directory, source)
  | none => do
    let appType ← lift ((← discoverAppType).mapError ("error getting app source type: " ++ ·))
    pure (appType, source)

/-! ## Kustomize -/

def KustomizeReplica.getIntCount (replica : KustomizeReplica) : Except String ℤ :=
  match replica.count with
  | .int count => .ok count
  | .str text =>
    match Decimal.atoi text with
    | some count => .ok count
    | none => .error ("expected integer value for count. Received: " ++ text)

/-- `name=count` -/
def KustomizeReplica.arg (replica : KustomizeReplica) : Except String String := do
  pure (replica.name ++ "=" ++ Decimal.formatInt (← replica.getIntCount))

/-- the default of `getBinaryPath` -/
def getBinaryPath (binaryPath : String) : String := if binaryPath ≠ "" then binaryPath else "kustomize"

/-- run `kustomize edit`, if there is something to set -/
def editWhen (present : Bool) (binaryPath : String) (args : List String) : Generation Unit := do
  if present then lift (← kustomizeEdit (getBinaryPath binaryPath) args)

/-- `name:value` in one argument each, or in one argument together before v3.8.5 -/
def mapToEditAddArgs (val : List (String × String)) : Generation (List String) := do
  let pairs := val.map fun (labelName, labelValue) => labelName ++ ":" ++ labelValue
  if ← versionLessThan (getBinaryPath "") "v3.8.5" then pure [",".intercalate pairs] else pure pairs

section Build

variable (tools : Tools) (binaryPath : String) (opts : Kustomize)

def setNamePrefix : Generation Unit :=
  editWhen (opts.namePrefix ≠ "") binaryPath ["set", "nameprefix", "--", opts.namePrefix]

def setNameSuffix : Generation Unit :=
  editWhen (opts.nameSuffix ≠ "") binaryPath ["set", "namesuffix", "--", opts.nameSuffix]

def setImages : Generation Unit :=
  editWhen (opts.images.length > 0) binaryPath (["set", "image"] ++ opts.images.map tools.envsubst)

def setReplicas : Generation Unit := do
  let args ← lift (opts.replicas.mapM KustomizeReplica.arg)
  editWhen (opts.replicas.length > 0) binaryPath (["set", "replicas"] ++ args)

def addLabels : Generation Unit := do
  if opts.commonLabels.length > 0 then
    let pairs ← mapToEditAddArgs (opts.commonLabels.map fun (name, value) => (name, tools.envsubst value))
    editWhen true binaryPath (["add", "label"] ++ (if opts.forceCommonLabels then ["--force"] else []) ++
      (if opts.labelWithoutSelector then ["--without-selector"] else []) ++
      (if opts.labelIncludeTemplates then ["--include-templates"] else []) ++ pairs)

def addAnnotations : Generation Unit := do
  if opts.commonAnnotations.length > 0 then
    let pairs ← mapToEditAddArgs (if opts.commonAnnotationsEnvsubst
      then opts.commonAnnotations.map fun (name, value) => (name, tools.envsubst value) else opts.commonAnnotations)
    editWhen true binaryPath
      (["add", "annotation"] ++ (if opts.forceCommonAnnotations then ["--force"] else []) ++ pairs)

def setNamespace : Generation Unit :=
  editWhen (opts.ns ≠ "") binaryPath ["set", "namespace", "--", opts.ns]

/-- there is no `kustomize edit` for patches: the kustomization file is written -/
def addPatches : Generation Unit := do
  if opts.patches.length > 0 then
    match ← findKustomizeFile with
    | none => stop "kustomization file not found in the path"
    | some kustFile =>
      match ← readKustomization kustFile with
      | .unreadable err => stop ("failed to load kustomization.yaml: " ++ err)
      | .malformed err => stop ("failed to unmarshal kustomization.yaml: " ++ err)
      | .notMap => stop ("expected kustomization.yaml to be type map[string]any, but got " ++
          "map[string]interface \x7b\x7d")
      | .map _ (some (.other type)) =>
        stop ("expected 'patches' field in kustomization.yaml to be []any, but got " ++ type)
      | .map rest (some (.list patches)) => update kustFile rest (patches ++ opts.patches)
      | .map rest none => update kustFile rest opts.patches
where
  update (kustFile rest : String) (patches : List String) : Generation Unit := do
    let updated ← lift ((tools.marshal rest patches).mapError
      ("failed to marshal kustomization.yaml after adding patches: " ++ ·))
    lift ((← statFile kustFile).mapError ("failed to stat kustomization.yaml: " ++ ·))
    lift ((← writeFile kustFile updated).mapError
      ("failed to write kustomization.yaml with updated 'patches' field: " ++ ·))

/-- look for one more component -/
def addFound (found : List String) (c : String) : Generation (List String) := do
  let present ← lift ((← statComponent c).mapError ("kustomize components path failed: " ++ ·))
  pure (if present then found ++ [c] else found)

/-- the components that exist, in order -/
def existingComponents (components : List String) : Generation (List String) := components.foldlM addFound []

/-- only supported by kustomize from v3.7.0 on -/
def addComponents : Generation Unit := do
  if opts.components.length > 0 then
    if ← versionLessThan (getBinaryPath binaryPath) "v3.7.0" then
      stop "kustomize components require kustomize v3.7.0 and above"
    else if opts.ignoreMissingComponents then
      lift ((← openRoot).mapError ("failed to open the repo folder: " ++ ·))
      let found ← existingComponents opts.components
      editWhen (found.length > 0) binaryPath (["add", "component"] ++ found)
    else
      editWhen true binaryPath (["add", "component"] ++ opts.components)

/-- what is done to the checkout before the build -/
def applyOptions : Generation Unit := do
  setNamePrefix binaryPath opts
  setNameSuffix binaryPath opts
  setImages tools binaryPath opts
  setReplicas binaryPath opts
  addLabels tools binaryPath opts
  addAnnotations tools binaryPath opts
  setNamespace binaryPath opts
  addPatches tools opts
  addComponents binaryPath opts

end Build

def isHelmEnabled (buildOptions : String) : Bool := decide ("--enable-helm".toList <:+: buildOptions.toList)

def fields (text : String) : List String :=
  ((text.toList.splitOnP Decimal.isSpace).filter (· ≠ [])).map String.ofList

/-- the command line of the build -/
def buildParams (req : GenerationRequest) (binaryPath kubeVersion : String) (apiVersions : List String) :
    Generation (List String) := do
  if req.buildOptions ≠ "" then
    let params := ["build", req.appPath] ++ fields req.buildOptions
    let before ← versionLessThan (getBinaryPath binaryPath) "v5.3.0"
    if !before && isHelmEnabled req.buildOptions then
      pure (params ++ (if kubeVersion ≠ "" then ["--helm-kube-version", kubeVersion] else []) ++
        apiVersions.flatMap (["--helm-api-versions", ·]))
    else pure params
  else pure ["build", req.appPath]

def build (tools : Tools) (req : GenerationRequest) (binaryPath kubeVersion : String) (apiVersions : List String)
    (opts : Option Kustomize) : Generation (List String) := do
  lift (← credsEnviron)
  match opts with
  | some k => applyOptions tools binaryPath k
  | none => pure ()
  let params ← buildParams req binaryPath kubeVersion apiVersions
  let out ← lift (← kustomizeBuild (getBinaryPath binaryPath) params)
  lift (tools.splitYAML out)

/-! ## Generation -/

inductive Generated where
  | objects (targetObjs : List String)
  /-- the tool of another type takes over, with the source in force -/
  | handedTo (sourceType : SourceType) (source : ApplicationSource)

def generateManifests (tools : Tools) (req : GenerationRequest) : Generation Generated := do
  let (appSourceType, source) ← (getAppSourceType tools req).mapStop ("error getting app source type: " ++ ·)
  match appSourceType with
  | .kustomize =>
    let binaryPath ← lift ((tools.kustomizeBinaryPath source).mapError ("error getting kustomize binary path: " ++ ·))
    let kubeVersion ← lift (tools.kubeVersion source)
    let targetObjs ← build tools req binaryPath kubeVersion (tools.apiVersions source) source.kustomize
    pure (.objects targetObjs)
  | other => pure (.handedTo other source)

end GitOpsDeploy.RepoServer

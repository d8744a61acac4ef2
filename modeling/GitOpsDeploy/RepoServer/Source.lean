/-
Application sources as the repo server reads them (`ApplicationSource` and its parts in
`pkg/apis/application/v1alpha1/types.go`), and the requests for manifests.

Options that are only handed on to a tool are kept as one text (`options`).
-/
import Mathlib.Tactic

namespace GitOpsDeploy.RepoServer

/-! ## Sources -/

inductive IntOrString where
  | int (value : ℤ)
  | str (value : String)
  deriving DecidableEq

structure KustomizeReplica where
  name : String
  count : IntOrString

/-- `ApplicationSourceKustomize`; maps by their entries, and a patch by its YAML -/
structure Kustomize where
  namePrefix : String
  nameSuffix : String
  images : List String
  commonLabels : List (String × String)
  commonAnnotations : List (String × String)
  forceCommonLabels : Bool
  forceCommonAnnotations : Bool
  ns : String
  commonAnnotationsEnvsubst : Bool
  replicas : List KustomizeReplica
  patches : List String
  components : List String
  ignoreMissingComponents : Bool
  labelWithoutSelector : Bool
  labelIncludeTemplates : Bool
  /-- the versions of kustomize and of the cluster's APIs -/
  options : String

/-- no option set -/
def Kustomize.zero : Kustomize :=
  ⟨"", "", [], [], [], false, false, "", false, [], [], [], false, false, false, ""⟩

/-- `ApplicationSourceHelm`; file parameters by their paths -/
structure Helm where
  valueFiles : List String
  fileParameters : List String
  options : String

structure ApplicationSource where
  repoURL : String
  path : String
  targetRevision : String
  helm : Option Helm
  kustomize : Option Kustomize
  /-- the options of a directory -/
  directory : Option String
  /-- the options of a plugin -/
  plugin : Option String
  chart : String
  ref : String
  tagPrefix : String

/-- true if multiple processes can run Kustomize builds on the same source at the same time -/
def Kustomize.allowsConcurrentProcessing (k : Kustomize) : Bool :=
  k.images.length = 0 && k.commonLabels.length = 0 && k.commonAnnotations.length = 0 && k.namePrefix = "" &&
    k.ns = "" && k.nameSuffix = "" && k.patches.length = 0 && k.components.length = 0

namespace ApplicationSource

/-- Kustomize with parameters requires changing the kustomization file -/
def allowsConcurrentProcessing (source : ApplicationSource) : Bool :=
  match source.kustomize with
  | some k => k.allowsConcurrentProcessing
  | none => true

def isOCI (source : ApplicationSource) : Bool := "oci://".toList.isPrefixOf source.repoURL.toList

def isHelm (source : ApplicationSource) : Bool := source.chart ≠ ""

def isRef (source : ApplicationSource) : Bool := source.ref ≠ ""

end ApplicationSource

/-! ## Requests -/

/-- `RefTarget`, with what is read of its repository -/
structure RefTarget where
  repo : String
  project : String
  targetRevision : String
  chart : String

/-- what `checkoutRevision` checks out: the result of `LsRemote` -/
structure Commit where
  sha : String
  nonempty : sha ≠ ""
  deriving DecidableEq

/-- value files and file parameters that may name a referenced source -/
def Helm.refCandidates (h : Helm) : List String := h.valueFiles ++ h.fileParameters

/-- the value file names a source -/
def isReference (valueFile : String) : Bool := "$".toList.isPrefixOf valueFile.toList

/-- its name, up to the first slash -/
def refVar (valueFile : String) : String := String.ofList (valueFile.toList.takeWhile (· ≠ '/'))

end GitOpsDeploy.RepoServer

/-
Names of Kubernetes resources (`gitops-engine/pkg/utils/kube/kube.go`).
-/
import Mathlib.Tactic

namespace GitOpsDeploy

structure ResourceKey where
  group : String
  kind : String
  ns : String
  name : String
  deriving DecidableEq, Repr, Inhabited

/-- `ResourceKey.String()` -/
def ResourceKey.text (k : ResourceKey) : String := k.group ++ "/" ++ k.kind ++ "/" ++ k.ns ++ "/" ++ k.name

structure GroupVersionKind where
  group : String
  version : String
  kind : String
  deriving DecidableEq, Repr, Inhabited

end GitOpsDeploy

/-
Clusters in secrets and the watch over them (`util/db/cluster.go`).

`SecretToCluster` reads a secret; `WatchClusters` turns the events of the secrets into callbacks, with the local cluster
in a captured variable. A consumer keeps a map from servers to clusters: an addition inserts, a modification removes the
old server and inserts the new cluster, a deletion removes the server.

JSON of a cluster's configuration and times are parameters (`ClusterCodec`); of a cluster's information, which is not
stored in its secret, nothing is kept.
-/
import Mathlib.Data.Finmap
import Mathlib.Data.List.DropRight
import GitOpsDeploy.Core.Decimal

namespace GitOpsDeploy.Database

/-- Go's `map[string]T` -/
abbrev Entries (V : Type) := Finmap fun _ : String => V

/-! ## Clusters -/

structure ClusterSecret where
  name : String
  uid : String
  data : Entries String
  labels : Entries String
  annotations : Entries String

/-- configurations of type Config, times of type Time -/
structure Cluster (Config Time : Type) where
  id : String
  server : String
  name : String
  namespaces : List String
  clusterResources : Bool
  config : Config
  refreshRequestedAt : Option Time
  shard : Option ℤ
  project : String
  labels : Entries String
  annotations : Entries String

structure ClusterCodec (Config Time : Type) where
  emptyConfig : Config
  unmarshal : String → Except String Config
  parseTime : String → Option Time

def kubernetesInternalAPIServerAddr : String := "https://kubernetes.default.svc"

def kubernetesInClusterName : String := "in-cluster"

/-- a missing entry reads as the empty text -/
def ClusterSecret.text (s : ClusterSecret) (key : String) : String := (s.data.lookup key).getD ""

/-- `strings.TrimRight(server, "/")` -/
def trimRightSlash (server : String) : String := String.ofList (server.toList.rdropWhile (· = '/'))

variable {Config Time : Type}

/-- no configuration is the empty one -/
def readConfig (codec : ClusterCodec Config Time) (s : ClusterSecret) : Except String Config :=
  if (s.text "config").length > 0
  then (codec.unmarshal (s.text "config")).mapError ("failed to unmarshal cluster config: " ++ ·)
  else .ok codec.emptyConfig

def secretToCluster (codec : ClusterCodec Config Time) (s : ClusterSecret) : Except String (Cluster Config Time) := do
  let config ← readConfig codec s
  pure {
    id := s.uid
    server := trimRightSlash (s.text "server")
    name := s.text "name"
    namespaces := ((((s.text "namespaces").toList.splitOn ',').map Decimal.trimSpace).filter (· ≠ [])).map String.ofList
    clusterResources := s.text "clusterResources" = "true"
    config
    -- a time or a shard that cannot be read is logged
    refreshRequestedAt := (s.annotations.lookup "apps.hanzo.ai/refresh").bind codec.parseTime
    shard := (s.data.lookup "shard").bind Decimal.atoi
    project := s.text "project"
    labels := s.labels.erase "apps.hanzo.ai/secret-type"
    annotations :=
      (s.annotations.erase "kubectl.kubernetes.io/last-applied-configuration").erase "managed-by" }

/-- the local cluster without a secret -/
def getLocalCluster (codec : ClusterCodec Config Time) : Cluster Config Time where
  id := ""
  server := kubernetesInternalAPIServerAddr
  name := kubernetesInClusterName
  namespaces := []
  clusterResources := false
  config := codec.emptyConfig
  refreshRequestedAt := none
  shard := none
  project := ""
  labels := ∅
  annotations := ∅

/-- the informer's clusters by their servers: secrets that cannot be read have none -/
def getClusterByURL (codec : ClusterCodec Config Time) (secrets : List ClusterSecret) (url : String) :
    Option (Cluster Config Time) :=
  (secrets.filterMap fun s => (secretToCluster codec s).toOption).find? fun c => c.server = trimRightSlash url

/-- `GetCluster` for the local address, with in-cluster enabled -/
def getInCluster (codec : ClusterCodec Config Time) (secrets : List ClusterSecret) : Cluster Config Time :=
  (getClusterByURL codec secrets kubernetesInternalAPIServerAddr).getD (getLocalCluster codec)

/-! ## The watch -/

inductive Callback (Config Time : Type) where
  | add (cluster : Cluster Config Time)
  | modify (oldCluster newCluster : Cluster Config Time)
  | delete (clusterServer : String)

/-- what a consumer keeps -/
abbrev ClusterMap (Config Time : Type) := String → Option (Cluster Config Time)

def Callback.apply (clusters : ClusterMap Config Time) : Callback Config Time → ClusterMap Config Time
  | add cluster => Function.update clusters cluster.server (some cluster)
  | modify oldCluster newCluster =>
    Function.update (Function.update clusters oldCluster.server none) newCluster.server (some newCluster)
  | delete clusterServer => Function.update clusters clusterServer none

section Handlers

variable (codec : ClusterCodec Config Time) (inClusterEnabled : Bool) (localCls : Cluster Config Time)

/-- the handlers return the local cluster they leave in the captured variable and the callbacks they make -/
def onAdd (secret : ClusterSecret) : Cluster Config Time × List (Callback Config Time) :=
  match secretToCluster codec secret with
  | .error _ => (localCls, [])
  | .ok cluster =>
    if cluster.server = kubernetesInternalAPIServerAddr then
      -- it cannot be added at runtime
      if inClusterEnabled then (cluster, [.modify localCls cluster]) else (localCls, [])
    else (localCls, [.add cluster])

def onUpdate (oldSecret newSecret : ClusterSecret) : Cluster Config Time × List (Callback Config Time) :=
  match secretToCluster codec oldSecret, secretToCluster codec newSecret with
  | .ok oldCluster, .ok newCluster =>
    (if newCluster.server = kubernetesInternalAPIServerAddr then newCluster else localCls,
      [.modify oldCluster newCluster])
  | _, _ => (localCls, [])

def onDelete (secret : ClusterSecret) : Cluster Config Time × List (Callback Config Time) :=
  if secret.text "server" = kubernetesInternalAPIServerAddr && inClusterEnabled then
    -- it cannot be deleted at runtime, unless disabled
    (getLocalCluster codec, [.modify localCls (getLocalCluster codec)])
  else (localCls, [.delete (secret.text "server")])

end Handlers

/-! ## Runs -/

/-- the secrets by their names, the watch's variable and the consumer's map -/
structure WatchState (Config Time : Type) where
  secrets : String → Option ClusterSecret
  localCls : Cluster Config Time
  clusters : ClusterMap Config Time

inductive SecretEvent where
  | add (secret : ClusterSecret)
  | update (secret : ClusterSecret)
  | delete (name : String)

namespace WatchState

variable (codec : ClusterCodec Config Time) (inClusterEnabled : Bool)

/-- a secret changes, and the consumer sees the callbacks -/
def handle (w : WatchState Config Time) (name : String) (secret : Option ClusterSecret)
    (handled : Cluster Config Time × List (Callback Config Time)) : WatchState Config Time where
  secrets := Function.update w.secrets name secret
  localCls := handled.1
  clusters := handled.2.foldl Callback.apply w.clusters

/-- events of secrets that are not there, and additions of one that is, do not happen -/
def step (w : WatchState Config Time) : SecretEvent → WatchState Config Time
  | .add secret =>
    match w.secrets secret.name with
    | none => w.handle secret.name (some secret) (onAdd codec inClusterEnabled w.localCls secret)
    | some _ => w
  | .update secret =>
    match w.secrets secret.name with
    | none => w
    | some oldSecret => w.handle secret.name (some secret) (onUpdate codec w.localCls oldSecret secret)
  | .delete name =>
    match w.secrets name with
    | none => w
    | some secret => w.handle name none (onDelete codec inClusterEnabled w.localCls secret)

/-- the watch before its first event -/
def watchClusters (initial : List ClusterSecret) : WatchState Config Time :=
  if inClusterEnabled then
    ⟨fun _ => none, getInCluster codec initial,
      Callback.apply (fun _ => none) (.add (getInCluster codec initial))⟩
  else ⟨fun _ => none, getLocalCluster codec, fun _ => none⟩

/-- the watch after the additions of the secrets it found -/
def started (initial : List ClusterSecret) : WatchState Config Time :=
  (initial.map SecretEvent.add).foldl (step codec inClusterEnabled) (watchClusters codec inClusterEnabled initial)

end WatchState

end GitOpsDeploy.Database

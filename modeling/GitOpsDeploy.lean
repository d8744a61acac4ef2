import GitOpsDeploy.Project.Tokens
import GitOpsDeploy.Project.Destinations
import GitOpsDeploy.Sync.WaveGate
import GitOpsDeploy.Sharding.Agreement
import GitOpsDeploy.Sync.Validation
import GitOpsDeploy.Sync.Honesty
import GitOpsDeploy.AppSet.MaxUpdate
import GitOpsDeploy.Deletion.PreDelete
import GitOpsDeploy.Refresh.Protection
import GitOpsDeploy.OperationQueue.TerminateReached
import GitOpsDeploy.ClusterCache.Confluence
import GitOpsDeploy.ClusterCache.Completeness
import GitOpsDeploy.Mirror.Trace
import GitOpsDeploy.Files.SymlinkScan
import GitOpsDeploy.Files.Extraction
import GitOpsDeploy.AppSet.CreateOnly
import GitOpsDeploy.AppSet.Durability
import GitOpsDeploy.Hydrator.Truthful
import GitOpsDeploy.RepoServer.Exclusion
import GitOpsDeploy.RepoServer.Deadlock
import GitOpsDeploy.RepoServer.SharedCheckout
import GitOpsDeploy.Database.ClusterWatch
import GitOpsDeploy.Database.Separation
import GitOpsDeploy.CommitServer.Responses
import GitOpsDeploy.RepoServer.ValueFilesInside
import GitOpsDeploy.Cache.TwoLevel
import GitOpsDeploy.Session.Revocation
import GitOpsDeploy.Sharding.Mapping
import GitOpsDeploy.Project.Global
import GitOpsDeploy.Api.Access
import GitOpsDeploy.Refresh.DiffCache
import GitOpsDeploy.AppSet.Healthy
import GitOpsDeploy.ClusterCache.OrdinalNames
import GitOpsDeploy.ClusterCache.StopWatching
import GitOpsDeploy.Sync.Waves
import GitOpsDeploy.Sharding.Balance
import GitOpsDeploy.AppSet.MatchExpressions
import GitOpsDeploy.Project.Sources
import GitOpsDeploy.Project.WindowVerdicts
import GitOpsDeploy.Compare.TrackingId
import GitOpsDeploy.Compare.RestoreFields
import GitOpsDeploy.Hydrator.Destinations
import GitOpsDeploy.Api.SelectedPods
import GitOpsDeploy.Session.Cookies
import GitOpsDeploy.Compare.RepoErrors
import GitOpsDeploy.AppSet.Fixpoint
import GitOpsDeploy.AppSet.ReverseDeletion
import GitOpsDeploy.RepoServer.SourceIntegrity
import GitOpsDeploy.Sync.Reconcile

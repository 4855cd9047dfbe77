import Tempest.Compare.Faithful
import Tempest.Execute.Harmless
import Tempest.Targets.Purity
import Tempest.Prove.Minimized
import Tempest.Agent.Budget
import Tempest.Agent.Charged
import Tempest.Agent.Replayed
import Tempest.Agent.Contracts
import Tempest.Agent.Slug
import Tempest.Agent.Listing
import Tempest.Agent.Reversed
import Tempest.Agent.Accept
import Tempest.Agent.Logs
import Tempest.Inference.Answers
import Tempest.Index.Query
import Tempest.Envrepro.Worktree
import Tempest.Compose.Reprove
import Tempest.Models.Download
import Tempest.Prove.WellFormed
import Tempest.Execute.Answered
import Tempest.Index.Claimed
import Tempest.Execute.TsFaithful
import Tempest.Api.Parked
import Tempest.Api.Steers
import Tempest.Api.Reconcile
import Tempest.Api.Mirrored
import Tempest.Api.BundleStore
import Tempest.Api.Sync
import Tempest.Execute.Persistent
import Tempest.Prove.OwnFile
import Tempest.Targets.TsPurity
import Tempest.Prove.TsIdentity
import Tempest.Api.Watch
import Tempest.Api.ModelDownloads
import Tempest.Desktop.Supervisor
import Tempest.Desktop.ModelServer
import Tempest.Desktop.Lsp
import Tempest.Api.AgentStore
import Tempest.Api.Migration
import Tempest.Desktop.Followed
import Tempest.Desktop.Watcher
import Tempest.Generate.Compared
import Tempest.Minimize.Minimal
import Tempest.Determinism.PathKeys
import Tempest.Determinism.Session
import Tempest.Desktop.SavedKeys
import Tempest.Compare.Unordered
import Tempest.Compare.Masked
import Tempest.Desktop.PercentCodecs
import Tempest.Desktop.Inline
import Tempest.Mcp.Envelope
import Tempest.Execute.TsCoverage
import Tempest.Execute.Cancel
import Tempest.Settings

import HiveBear.Cli.Api.Messages
import HiveBear.Cli.Api.Streams
import HiveBear.Cli.DaemonOrder
import HiveBear.Cli.LeakedStages
import HiveBear.Cli.MeshChat
import HiveBear.Cli.ResolveModel
import HiveBear.Cli.SessionIsolation
import HiveBear.Cli.TokenIds
import HiveBear.Coordinator.Membership
import HiveBear.Core.CanonicalEndpoint
import HiveBear.Core.Contribution
import HiveBear.Core.Scoring
import HiveBear.Desktop.Answers
import HiveBear.Desktop.Handles
import HiveBear.Desktop.SavedChat
import HiveBear.Inference.CandlePipeline.ExpertDispatch
import HiveBear.Inference.CandlePipeline.SplitForward
import HiveBear.Inference.Cloud.Backend
import HiveBear.Inference.PromptContents
import HiveBear.Inference.Sampling
import HiveBear.Inference.SchemaDefinitions
import HiveBear.Inference.SchemaGaps
import HiveBear.Inference.TokenPieces
import HiveBear.Mesh.Discovery.Composite
import HiveBear.Mesh.Discovery.Lan
import HiveBear.Mesh.Discovery.Pex
import HiveBear.Mesh.Nat.StunResponse
import HiveBear.Mesh.Node.Peers
import HiveBear.Mesh.Node.Registration
import HiveBear.Mesh.Pipeline.Checkpoint
import HiveBear.Mesh.Pipeline.Distributed
import HiveBear.Mesh.Pipeline.SharedStreams
import HiveBear.Mesh.Pipeline.StageOrder
import HiveBear.Mesh.Pipeline.StageRoutes
import HiveBear.Mesh.Scheduler.StageSize
import HiveBear.Mesh.Swarm.DraftAccounting
import HiveBear.Mesh.Swarm.FailedRebalance
import HiveBear.Mesh.Swarm.ModelFit
import HiveBear.Mesh.Swarm.SelectSwarm
import HiveBear.Mesh.Transport.Narrowing
import HiveBear.Mesh.Transport.Quic
import HiveBear.Mesh.Transport.ReliableLinks
import HiveBear.Mesh.Transport.TransferDtype
import HiveBear.Mesh.Trust.ReputationOrder
import HiveBear.Mesh.Trust.Verification
import HiveBear.Persistence.Search
import HiveBear.Registry.Cancel
import HiveBear.Registry.Cancellations
import HiveBear.Registry.Complete
import HiveBear.Registry.ForeignMetadata
import HiveBear.Registry.Ownership
import HiveBear.Registry.ParamCount
import HiveBear.Registry.PartialViews
import HiveBear.Registry.RangeReset
import HiveBear.Registry.SavedIndex

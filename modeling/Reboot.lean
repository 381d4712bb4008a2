import Reboot.Admin.AdminAuth
import Reboot.Admin.ImportOrder
import Reboot.Auth.AllowIf
import Reboot.Auth.Authorization
import Reboot.Auth.AuthorizedResponses
import Reboot.Auth.CodeDelivery
import Reboot.Auth.NativeAuth
import Reboot.Auth.OAuthServer
import Reboot.Auth.OAuthSystem
import Reboot.Auth.ReturnTo
import Reboot.Ciphertext.AssociatedData
import Reboot.Ciphertext.CiphertextIndex
import Reboot.Ciphertext.KeyRotation
import Reboot.Ciphertext.UsageMarkers
import Reboot.Cli.RcExpansion
import Reboot.Cli.RcFile
import Reboot.Client.Checkpoints
import Reboot.Client.DerivedKeys
import Reboot.Client.IdempotencyManager
import Reboot.Client.Resends
import Reboot.Client.Stub
import Reboot.Client.Uncertainty
import Reboot.Collections.Items
import Reboot.Collections.Queue
import Reboot.Collections.QueueConservation
import Reboot.Collections.Uuid7
import Reboot.Dashboard.Changelog
import Reboot.Dashboard.IncrementalWalks
import Reboot.Dashboard.Walk
import Reboot.Dashboard.WalkAgain
import Reboot.Dashboard.WalkOnce
import Reboot.Lib.Base64
import Reboot.Lib.BigEndian
import Reboot.Lib.CommandLine
import Reboot.Lib.DepthFirst
import Reboot.Lib.Dict
import Reboot.Lib.Json
import Reboot.Lib.LengthPrefix
import Reboot.Lib.PercentEncoding
import Reboot.Lib.Pieces
import Reboot.Lib.Progress
import Reboot.Lib.Run
import Reboot.Lib.Scan
import Reboot.Lib.SortedAssoc
import Reboot.Lib.WebUrl
import Reboot.Lib.Worklist
import Reboot.Methods.Construction
import Reboot.Methods.FailedConstruction
import Reboot.Methods.TypedState
import Reboot.Methods.TypedStateShared
import Reboot.OrderedMap.Range
import Reboot.OrderedMap.ReadBack
import Reboot.OrderedMap.ReverseRange
import Reboot.OrderedMap.Size
import Reboot.OrderedMap.Structure
import Reboot.Names
import Reboot.Persist.BulkRecovery
import Reboot.Persist.FindPages
import Reboot.Persist.MonotonicClock
import Reboot.Persist.MutationKeys
import Reboot.Persist.MutationLoads
import Reboot.Persist.PendingWrites
import Reboot.Persist.StaleTasks
import Reboot.Presence.ExactCounts
import Reboot.Presence.Subscriber
import Reboot.Pubsub.AtMostOnce
import Reboot.Pubsub.Topic
import Reboot.Routing.Agreement
import Reboot.Routing.CallerIdTrust
import Reboot.Routing.CanonicalRef
import Reboot.Routing.EnvoyRoutes
import Reboot.Routing.MangledPath
import Reboot.Routing.Plans
import Reboot.Routing.StateId
import Reboot.Schema.CompareMessages
import Reboot.Schema.Compatibility
import Reboot.Schema.Descriptors
import Reboot.Schema.ReservedRanges
import Reboot.Schema.UpdateChains
import Reboot.SortedMap.FiniteMap
import Reboot.SortedMap.Range
import Reboot.SortedMap.Servicer
import Reboot.Tasks.Concurrently
import Reboot.Tasks.Dispatcher
import Reboot.Tasks.OneOutcome
import Reboot.Txn.BloomFilter
import Reboot.Txn.CacheCoherence
import Reboot.Txn.CommitSection
import Reboot.Txn.Completion
import Reboot.Txn.Deadlock
import Reboot.Txn.Idempotency
import Reboot.Txn.Join
import Reboot.Txn.LockFairness
import Reboot.Txn.LockPrompt
import Reboot.Txn.MutationLookup
import Reboot.Txn.NestedDurability
import Reboot.Txn.NestedRollback
import Reboot.Txn.ParticipantSets
import Reboot.Txn.ReadOnlyElision
import Reboot.Txn.Recovery
import Reboot.Txn.Requests
import Reboot.Txn.TwoPhase
import Reboot.Web.Mutations
import Reboot.Web.OwnResponse
import Reboot.Web.PathTemplates
import Reboot.Web.ReactiveRead
import Reboot.Web.RouteMatches
import Reboot.Web.TrustedRoutes
import Reboot.Web.UiRequests
import Reboot.Workflows.ControlLoop
import Reboot.Workflows.OneUntil
import Reboot.Workflows.Reactively
import Reboot.Workflows.UntilChanges

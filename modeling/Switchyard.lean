import Switchyard.BudgetRuns
import Switchyard.CacheHistory
import Switchyard.KeyRetirement
import Switchyard.CallLogic
import Switchyard.ChatWire
import Switchyard.ProviderAdapters
import Switchyard.ProviderRegistry
import Switchyard.FallbackChain
import Switchyard.LiveConfig
import Switchyard.TokenBucket
import Switchyard.ChatCalls
import Switchyard.ChatChain
import Switchyard.ChatHandler
import Switchyard.ChatFootprint
import Switchyard.Settlement
import Switchyard.RequestAccounts
import Switchyard.RecordedCost
import Switchyard.AdmissionLimits
import Switchyard.ProviderCompliance
import Switchyard.TeamDirectory
import Switchyard.TeamTable
import Switchyard.TeamRefresh
import Switchyard.GoogleSignIn
import Switchyard.LinkedRows
import Switchyard.SessionTable
import Switchyard.SessionRotation
import Switchyard.SessionReplay
import Switchyard.RequestLog
import Switchyard.LogAccounts
import Switchyard.LoggedRequests
import Switchyard.QualityScores
import Switchyard.AdminTeams
import Switchyard.RawURL
import Switchyard.JSONText
import Switchyard.SignedTokens
import Switchyard.CompletionSources
import Switchyard.CacheCompliance
import Switchyard.BucketRuns
import Switchyard.BucketExpiry
import Switchyard.CircuitBreaker
import Switchyard.ProbeSlot
import Switchyard.BreakerStore
import Switchyard.SharedBreaker
import Switchyard.FailedPublish
import Switchyard.Interleaving
import Switchyard.BreakerFleet
import Switchyard.FleetProbe
import Switchyard.FleetCooldown
import Switchyard.FleetReopens
import Switchyard.HealthMonitor
import Switchyard.RecoveryLoop
import Switchyard.ChainReports
import Switchyard.TenantInterference
import Switchyard.ChainOrder
import Switchyard.ChainWalk
import Switchyard.ConfigClosure
import Switchyard.RoutingPolicy
import Switchyard.StreamCharges
import Switchyard.TeamPurge
import Switchyard.TeamIndex
import Switchyard.TeamUpdates
import Switchyard.Keyset
import Switchyard.LogPages
import Switchyard.Retention
import Switchyard.Cooldown
import Switchyard.BreakerHistory
import Switchyard.ProbeReports
import Switchyard.MirroredCooldown
import Switchyard.DeniedCalls
import Switchyard.Climb
import Switchyard.ClockSteps
import Switchyard.RetryAdvice
import Switchyard.RingLog
import Switchyard.HealthHistory
import Switchyard.ChainTopUps
import Switchyard.StoreLogic
import Switchyard.Migrations
import Switchyard.ModelNotFound
import Switchyard.TierBounds
import Switchyard.LineScan
import Switchyard.SseReader
import Switchyard.StreamDecoders
import Switchyard.StreamEvents
import Switchyard.StreamReplay
import Switchyard.EntryLifetime
import Switchyard.HealthWindow
import Switchyard.TeamSlug
import Switchyard.BucketCandidates
import Switchyard.RequestRate

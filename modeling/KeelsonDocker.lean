import KeelsonDocker.App
import KeelsonDocker.AppRun
import KeelsonDocker.Backend
import KeelsonDocker.Cli
import KeelsonDocker.Compose
import KeelsonDocker.Errors
import KeelsonDocker.FollowRun
import KeelsonDocker.FollowerThreads
import KeelsonDocker.GitStatus
import KeelsonDocker.Guard
import KeelsonDocker.Handlers
import KeelsonDocker.LogPublisher
import KeelsonDocker.LogQueue
import KeelsonDocker.LogsFollower
import KeelsonDocker.Messages
import KeelsonDocker.Model
import KeelsonDocker.PlatformEntities
import KeelsonDocker.PlatformGuard
import KeelsonDocker.PlatformHandlers
import KeelsonDocker.PlatformMessages
import KeelsonDocker.PlatformPaths
import KeelsonDocker.PlatformRepo
import KeelsonDocker.PlatformService
import KeelsonDocker.PlatformWrite
import KeelsonDocker.Py.Printable
import KeelsonDocker.Py.Str
import KeelsonDocker.Py.Value
import KeelsonDocker.ReadRun
import KeelsonDocker.SelfId
import KeelsonDocker.Stats
import KeelsonDocker.StatsPublisher
import KeelsonDocker.StatusPublisher
import KeelsonDocker.StatusWire
import KeelsonDocker.Theory.Critical
import KeelsonDocker.Theory.Dict
import KeelsonDocker.Theory.Effect
import KeelsonDocker.Theory.Feed
import KeelsonDocker.Theory.FileSystem
import KeelsonDocker.Theory.Gapless
import KeelsonDocker.Theory.Laying
import KeelsonDocker.Theory.Prefix
import KeelsonDocker.Theory.RealPath
import KeelsonDocker.Theory.Scope
import KeelsonDocker.Theory.Sorted
import KeelsonDocker.Theory.Tail
import KeelsonDocker.Theory.Threads
import KeelsonDocker.Theory.Tour
import KeelsonDocker.Theory.Walk
import KeelsonDocker.Theory.Wire
import KeelsonDocker.Verify.ActionReports
import KeelsonDocker.Verify.AllowLists
import KeelsonDocker.Verify.ChangeReplies
import KeelsonDocker.Verify.CliRuns
import KeelsonDocker.Verify.CliVerdicts
import KeelsonDocker.Verify.CompareAndSwap
import KeelsonDocker.Verify.ComposeKeys
import KeelsonDocker.Verify.ComposeKinds
import KeelsonDocker.Verify.ComposeTour
import KeelsonDocker.Verify.Connections
import KeelsonDocker.Verify.CrashSafety
import KeelsonDocker.Verify.DirtyMarks
import KeelsonDocker.Verify.DropNotes
import KeelsonDocker.Verify.DurableSaves
import KeelsonDocker.Verify.EveryAnswer
import KeelsonDocker.Verify.Flags
import KeelsonDocker.Verify.FollowerNames
import KeelsonDocker.Verify.Host
import KeelsonDocker.Verify.LevelWords
import KeelsonDocker.Verify.LifecycleTimes
import KeelsonDocker.Verify.LinearReads
import KeelsonDocker.Verify.LogCeilings
import KeelsonDocker.Verify.LogLines
import KeelsonDocker.Verify.LogPipeline
import KeelsonDocker.Verify.LogRequests
import KeelsonDocker.Verify.LogResume
import KeelsonDocker.Verify.LogSince
import KeelsonDocker.Verify.LogTail
import KeelsonDocker.Verify.MergeOrder
import KeelsonDocker.Verify.MergedLogs
import KeelsonDocker.Verify.Mutations
import KeelsonDocker.Verify.OneFollower
import KeelsonDocker.Verify.PathJail
import KeelsonDocker.Verify.PullAndFollow
import KeelsonDocker.Verify.QueueAccounting
import KeelsonDocker.Verify.QuotedNames
import KeelsonDocker.Verify.RateBound
import KeelsonDocker.Verify.RateCap
import KeelsonDocker.Verify.ReadVersions
import KeelsonDocker.Verify.Refusals
import KeelsonDocker.Verify.RemoveRaces
import KeelsonDocker.Verify.Replies
import KeelsonDocker.Verify.ReplyDiscipline
import KeelsonDocker.Verify.ReportedPaths
import KeelsonDocker.Verify.Restarts
import KeelsonDocker.Verify.SaveStages
import KeelsonDocker.Verify.SegmentGlobs
import KeelsonDocker.Verify.SelfProtection
import KeelsonDocker.Verify.ServiceCounts
import KeelsonDocker.Verify.ServiceOnTree
import KeelsonDocker.Verify.SessionAudit
import KeelsonDocker.Verify.Splicing
import KeelsonDocker.Verify.Startup
import KeelsonDocker.Verify.StatsCache
import KeelsonDocker.Verify.StatsReading
import KeelsonDocker.Verify.StatsRows
import KeelsonDocker.Verify.StatusDigest
import KeelsonDocker.Verify.StatusStream
import KeelsonDocker.Verify.StopEnds
import KeelsonDocker.Verify.StopFollowers
import KeelsonDocker.Verify.StrictKeys
import KeelsonDocker.Verify.TransferTotals
import KeelsonDocker.Verify.UnsetRates
import KeelsonDocker.Verify.WriteAlone
import KeelsonDocker.Verify.WriteConfinement
import KeelsonDocker.WriteRun
import KeelsonDocker.Yaml

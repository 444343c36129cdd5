import TeamClu.ForStd.Assoc
import TeamClu.ForStd.AsyncProgram
import TeamClu.ForStd.Calendar
import TeamClu.ForStd.Chunks
import TeamClu.ForStd.FileLeaves
import TeamClu.ForStd.FilePaths
import TeamClu.ForStd.FileTree
import TeamClu.ForStd.FirstMatch
import TeamClu.ForStd.Fold
import TeamClu.ForStd.Gaps
import TeamClu.ForStd.JsonText
import TeamClu.ForStd.Lcs
import TeamClu.ForStd.Lines
import TeamClu.ForStd.Machine
import TeamClu.ForStd.OrderedMap
import TeamClu.ForStd.Paging
import TeamClu.ForStd.Redact
import TeamClu.ForStd.SqlLike
import TeamClu.ForStd.StableSort
import TeamClu.ForStd.Text
import TeamClu.ForStd.TreeMap
import TeamClu.ForStd.Utf8
import TeamClu.Native.AcpEvents
import TeamClu.Native.AppsAuthGate
import TeamClu.Native.AppsAuthPaths
import TeamClu.Native.AppsAuthRules
import TeamClu.Native.AppsAuthSession
import TeamClu.Native.BlobAccess
import TeamClu.Native.ChannelTurn
import TeamClu.Native.ChatTimeline
import TeamClu.Native.Conflict
import TeamClu.Native.ContentTree
import TeamClu.Native.Credits
import TeamClu.Native.CronRunner
import TeamClu.Native.CronRuns
import TeamClu.Native.CronSchedule
import TeamClu.Native.CronSearch
import TeamClu.Native.CronTick
import TeamClu.Native.DesktopCron
import TeamClu.Native.DurableMqttStore
import TeamClu.Native.DurableQueue
import TeamClu.Native.FeedItems
import TeamClu.Native.FileHistory
import TeamClu.Native.IgnoreRules
import TeamClu.Native.InboundPath
import TeamClu.Native.KeyPool
import TeamClu.Native.LateTools
import TeamClu.Native.LineDiff
import TeamClu.Native.Listings
import TeamClu.Native.MessageCache
import TeamClu.Native.MessageStore
import TeamClu.Native.MqttSupervisor
import TeamClu.Native.Outbox
import TeamClu.Native.PathValidator
import TeamClu.Native.PiEvents
import TeamClu.Native.PiTranscript
import TeamClu.Native.PiTranslate
import TeamClu.Native.PublishPath
import TeamClu.Native.PullPhase
import TeamClu.Native.ResolvedEnv
import TeamClu.Native.Scanner
import TeamClu.Native.SeaTalkCursor
import TeamClu.Native.SeaTalkStream
import TeamClu.Native.SessionQueue
import TeamClu.Native.SkillFrontmatter
import TeamClu.Native.SkillPack
import TeamClu.Native.SseTee
import TeamClu.Native.StreamStore
import TeamClu.Native.StripeCredits
import TeamClu.Native.SyncAcl
import TeamClu.Native.SyncEngine
import TeamClu.Native.SyncHandlers
import TeamClu.Native.SyncPath
import TeamClu.Native.SyncProcesses
import TeamClu.Native.SyncPull
import TeamClu.Native.SyncPush
import TeamClu.Native.SyncScheduler
import TeamClu.Native.SyncState
import TeamClu.Native.ToolDeadline
import TeamClu.Native.TurnAggregator
import TeamClu.Native.UrlPath
import TeamClu.Native.WeComFrames
import TeamClu.Native.WeComOutbox
import TeamClu.Native.WeComSegments
import TeamClu.Spec.BlobDownloads
import TeamClu.Spec.CacheBudget
import TeamClu.Spec.CacheEviction
import TeamClu.Spec.CacheInterleaved
import TeamClu.Spec.CacheRuns
import TeamClu.Spec.ChannelReply
import TeamClu.Spec.ChannelSupplements
import TeamClu.Spec.ChatBubbles
import TeamClu.Spec.ConflictNames
import TeamClu.Spec.CreditsBalance
import TeamClu.Spec.CronClaims
import TeamClu.Spec.CronGrammar
import TeamClu.Spec.CronOccurrences
import TeamClu.Spec.CronRunRecords
import TeamClu.Spec.CronTickRows
import TeamClu.Spec.CursorReads
import TeamClu.Spec.DeadLetters
import TeamClu.Spec.DeclarativeRules
import TeamClu.Spec.DocumentRaces
import TeamClu.Spec.DurableQueueCorrect
import TeamClu.Spec.EnvInserts
import TeamClu.Spec.EnvPasses
import TeamClu.Spec.FeedCards
import TeamClu.Spec.FeedConserved
import TeamClu.Spec.FeedOrder
import TeamClu.Spec.FeedPlaces
import TeamClu.Spec.FeedRequests
import TeamClu.Spec.FeedWalk
import TeamClu.Spec.FileHistory
import TeamClu.Spec.FrontmatterLines
import TeamClu.Spec.FrontmatterParsers
import TeamClu.Spec.FrontmatterWrite
import TeamClu.Spec.InboundDelivery
import TeamClu.Spec.InboundEffects
import TeamClu.Spec.InboxAdmission
import TeamClu.Spec.KeyCooldowns
import TeamClu.Spec.KeyFailover
import TeamClu.Spec.LateTools
import TeamClu.Spec.LineDiffMinimal
import TeamClu.Spec.ListedFiles
import TeamClu.Spec.LiveTranscript
import TeamClu.Spec.LogLines
import TeamClu.Spec.LoggedQueue
import TeamClu.Spec.LoginWall
import TeamClu.Spec.ManifestFilter
import TeamClu.Spec.MessageOrder
import TeamClu.Spec.MqttGenerations
import TeamClu.Spec.OutboxRuns
import TeamClu.Spec.PackCommit
import TeamClu.Spec.PackInstalled
import TeamClu.Spec.PackSwap
import TeamClu.Spec.PagedListings
import TeamClu.Spec.PathSpellings
import TeamClu.Spec.PathValidatorsAgree
import TeamClu.Spec.PaymentsOnce
import TeamClu.Spec.PublishRetirement
import TeamClu.Spec.PullAccounting
import TeamClu.Spec.PullTransfers
import TeamClu.Spec.QueueCrashSafety
import TeamClu.Spec.RecordedBytes
import TeamClu.Spec.RefundShares
import TeamClu.Spec.ResolvedEnvs
import TeamClu.Spec.SanitizedTranscripts
import TeamClu.Spec.ScanFacts
import TeamClu.Spec.SchedulerSafe
import TeamClu.Spec.SegmentsWhole
import TeamClu.Spec.SessionQueues
import TeamClu.Spec.SidecarNames
import TeamClu.Spec.StorageHeld
import TeamClu.Spec.StoreInvariant
import TeamClu.Spec.StoreJson
import TeamClu.Spec.StreamedReplies
import TeamClu.Spec.StreamedText
import TeamClu.Spec.StreamedWhole
import TeamClu.Spec.TimelineEntries
import TeamClu.Spec.TimelineReplay
import TeamClu.Spec.ToolsWatched
import TeamClu.Spec.TrackedPaths
import TeamClu.Spec.TransparentTee
import TeamClu.Spec.TurnErrors
import TeamClu.Spec.TurnMessages
import TeamClu.Spec.TypedRules
import TeamClu.Spec.WeComDelivery
import TeamClu.Spec.WeComFrames

import Piclaw.KeyedTable
import Piclaw.OrderedMap
import Piclaw.TextRuns
import Piclaw.Values
import Piclaw.Transactions
import Piclaw.Canonical
import Piclaw.OutboxSchema
import Piclaw.OutboxRequests
import Piclaw.OutboxStore
import Piclaw.OutboxTransitions
import Piclaw.OutboxRows
import Piclaw.OutboxFencing
import Piclaw.OutboxReports
import Piclaw.OutboxReplay
import Piclaw.OutboxDecisions
import Piclaw.OutboxStale
import Piclaw.ClosedPrefix
import Piclaw.WorkSchema
import Piclaw.WorkRequests
import Piclaw.WorkStore
import Piclaw.WorkHost
import Piclaw.WorkLedger
import Piclaw.WorkInvariant
import Piclaw.WorkSettlement
import Piclaw.WorkTransitions
import Piclaw.WorkControls
import Piclaw.AgentQueue
import Piclaw.AgentQueueInvariant
import Piclaw.AgentQueueTurns
import Piclaw.AgentQueueClosing
import Piclaw.AgentQueueRuns
import Piclaw.HostCutover
import Piclaw.HostCutoverRuns
import Piclaw.HostCutoverRollback
import Piclaw.ScheduledSchema
import Piclaw.ScheduledRequests
import Piclaw.ScheduledRecords
import Piclaw.ScheduledRuns
import Piclaw.ScheduledHeads
import Piclaw.ScheduledMoves
import Piclaw.ScheduledTransitions
import Piclaw.ScheduledInvariant
import Piclaw.ScheduledDormancy
import Piclaw.ScheduledResume
import Piclaw.Watchdog
import Piclaw.WatchdogPrompts
import Piclaw.BranchHandles
import Piclaw.BranchRegistry
import Piclaw.BranchRegistration
import Piclaw.BranchSeeding
import Piclaw.BranchCopies
import Piclaw.SeedClaims
import Piclaw.ProcessExit
import Piclaw.ExitLatch
import Piclaw.ContextPrune
import Piclaw.PrunedResults
import Piclaw.SessionPool
import Piclaw.SessionHolders
import Piclaw.SessionRuns
import Piclaw.TranscriptReading
import Piclaw.DisplayBridgeRuns
import Piclaw.MessageReaders
import Piclaw.MessageSearch
import Piclaw.TimelineDraftRuns
import Piclaw.ChunkUploadRuns
import Piclaw.OperationMediaRuns
import Piclaw.CdpViewRuns
import Piclaw.TimelineGapsRuns
import Piclaw.ScheduledAdmission
import Piclaw.WorkBarriers
import Piclaw.WorkRefusals
import Piclaw.WorkRuns
import Piclaw.LinkPreviews
import Piclaw.GoalUsageRuns
import Piclaw.WebSessionRuns
import Piclaw.CanonicalRequests
import Piclaw.AddressUrls
import Piclaw.ShellRuns
import Piclaw.HiddenText
import Piclaw.NotePassages
import Piclaw.NoteTiling
import Piclaw.RetentionSweep
import Piclaw.TableKeeping
import Piclaw.ToolCallPairs
import Piclaw.ShutdownRuns
import Piclaw.TableCellRendering
import Piclaw.TotpSignIn
import Piclaw.TabConsistency
import Piclaw.WorkspaceUpdates
import Piclaw.DelimitedTables
import Piclaw.PushStore
import Piclaw.ZipListings
import Piclaw.OutboxCleanup
import Piclaw.WorkSettleable
import Piclaw.WorkReplays
import Piclaw.ShellResults
import Piclaw.ScheduledOccurrences
import Piclaw.SessionLives
import Piclaw.ScheduledFencing

import DiploidAgent.Lib.Runs
import DiploidAgent.Lib.Histories
import DiploidAgent.Lib.Seams
import DiploidAgent.Lib.Board
import DiploidAgent.Lib.Dict
import DiploidAgent.Lib.Sweep
import DiploidAgent.Lib.Lines
import DiploidAgent.Lib.Json
import DiploidAgent.Lib.JsonLines
import DiploidAgent.Lib.JsonDumps
import DiploidAgent.Lib.JsonOrder
import DiploidAgent.Lib.JsonLayout
import DiploidAgent.Lib.Asking
import DiploidAgent.Lib.Text
import DiploidAgent.Lib.Bisect
import DiploidAgent.Lib.LineLoader
import DiploidAgent.Lib.TableFile
import DiploidAgent.Lib.LineScan
import DiploidAgent.Lib.Follow
import DiploidAgent.Plans.Models
import DiploidAgent.Plans.Manager
import DiploidAgent.Plans.Resolve
import DiploidAgent.Plans.Scheduling
import DiploidAgent.Plans.Recompute
import DiploidAgent.Lib.Ledger
import DiploidAgent.Plans.Outcome
import DiploidAgent.Plans.Engine
import DiploidAgent.Plans.ExactlyOnce
import DiploidAgent.Plans.StartedTasks
import DiploidAgent.Plans.Steady
import DiploidAgent.Plans.Writes
import DiploidAgent.Runtime.Instance
import DiploidAgent.Runtime.WakeQueue
import DiploidAgent.Runtime.WakeLease
import DiploidAgent.Runtime.WakeMerge
import DiploidAgent.Runtime.WakeGates
import DiploidAgent.Runtime.WakeHandler
import DiploidAgent.Runtime.Planning
import DiploidAgent.Runtime.QuietTasks
import DiploidAgent.Cron.State
import DiploidAgent.Cron.Store
import DiploidAgent.Lib.Spacing
import DiploidAgent.Cron.Service
import DiploidAgent.Cron.TriggerSteps
import DiploidAgent.Cron.TriggerFloor
import DiploidAgent.Cron.OwedFire
import DiploidAgent.Cron.OverlapPolicy
import DiploidAgent.Lib.Totals
import DiploidAgent.Cron.TurnBudget
import DiploidAgent.Cron.WakeSpacing
import DiploidAgent.Cron.Interleaving
import DiploidAgent.Cron.RunOnce
import DiploidAgent.Cron.Materialize
import DiploidAgent.Lib.Records
import DiploidAgent.Lib.Retention
import DiploidAgent.Runtime.Config
import DiploidAgent.Runtime.ConfigManager
import DiploidAgent.Runtime.Redaction
import DiploidAgent.Runtime.McpSkills
import DiploidAgent.Runtime.LastToggle
import DiploidAgent.Runtime.Outbox
import DiploidAgent.Runtime.Loaders
import DiploidAgent.Runtime.Transactions
import DiploidAgent.Runtime.MatchedSkills
import DiploidAgent.Runtime.SkillSync
import DiploidAgent.Runtime.Metrics
import DiploidAgent.Runtime.MetricsRestart
import DiploidAgent.Runtime.TokenBudget
import DiploidAgent.Runtime.DispatchStore
import DiploidAgent.Memory.RetainBuffer
import DiploidAgent.Memory.Spool
import DiploidAgent.Memory.Transcript
import DiploidAgent.Memory.Recall
import DiploidAgent.Lib.Occurrences
import DiploidAgent.Lib.Firsts
import DiploidAgent.Lib.Words
import DiploidAgent.Lib.Codes
import DiploidAgent.Lib.Templates
import DiploidAgent.Lib.Overlays
import DiploidAgent.Memory.Trimming
import DiploidAgent.Memory.ShortTerm
import DiploidAgent.Memory.Promoted
import DiploidAgent.Runtime.EventLog
import DiploidAgent.Runtime.RestartGate
import DiploidAgent.Runtime.TaskBoard
import DiploidAgent.Sessions.Store
import DiploidAgent.Sessions.Operations
import DiploidAgent.Sessions.Numbers
import DiploidAgent.Sessions.TurnNumbers
import DiploidAgent.Sessions.Workspace
import DiploidAgent.Lib.Threads
import DiploidAgent.Telegram.Interactive
import DiploidAgent.Telegram.Blocks
import DiploidAgent.Telegram.PendingQuestion
import DiploidAgent.Telegram.Sender
import DiploidAgent.Telegram.SplitText
import DiploidAgent.Telegram.SplitProgress
import DiploidAgent.Telegram.SplitBudget
import DiploidAgent.Telegram.SplitFences
import DiploidAgent.Telegram.TurnWorkers
import DiploidAgent.Telegram.WakeDisplay
import DiploidAgent.Turns.Stop
import DiploidAgent.Turns.Reconcile
import DiploidAgent.Acp.Prompts
import DiploidAgent.Acp.Updates
import DiploidAgent.Acp.Watchdog
import DiploidAgent.Acp.Requests
import DiploidAgent.Acp.McpServers
import DiploidAgent.Acp.SharedTransport
import DiploidAgent.Acp.RestartHistory
import DiploidAgent.Plugins.Manager
import DiploidAgent.Plugins.Rollback
import DiploidAgent.Plugins.Hooks
import DiploidAgent.Plugins.FanOut
import DiploidAgent.Plugins.McpRegistration
import DiploidAgent.Plugins.StateSnapshots
import DiploidAgent.Sessions.Directories
import DiploidAgent.Sessions.Copies
import DiploidAgent.Lib.Snapshots
import DiploidAgent.Lib.Objects
import DiploidAgent.Lib.Windows
import DiploidAgent.Lib.Paths
import DiploidAgent.Lib.FileTrees
import DiploidAgent.Lib.Ascending
import DiploidAgent.Telegram.StreamDisplay
import DiploidAgent.Telegram.SendTexts
import DiploidAgent.Telegram.Delivery
import DiploidAgent.Telegram.Extraction
import DiploidAgent.Telegram.StreamOnce
import DiploidAgent.Turns.FollowUp
import DiploidAgent.Context.PromptSlots
import DiploidAgent.Context.WakeTrim
import DiploidAgent.Context.BlockPolicy
import DiploidAgent.Context.ShownBlocks
import DiploidAgent.Context.Handoff
import DiploidAgent.Context.ReplyQuote
import DiploidAgent.Turns.Pipeline
import DiploidAgent.Turns.FreshSession
import DiploidAgent.Turns.SessionInStep
import DiploidAgent.Turns.Continuation
import DiploidAgent.Turns.Overlap
import DiploidAgent.Turns.RollingText
import DiploidAgent.Turns.NotifyStream
import DiploidAgent.Acp.FinalSegment
import DiploidAgent.Acp.CallbackPump
import DiploidAgent.Acp.ResumeBudget
import DiploidAgent.Acp.LifecycleLog
import DiploidAgent.Acp.McpDrift
import DiploidAgent.Acp.ControlSocket
import DiploidAgent.Cron.TriggerPaths
import DiploidAgent.Cron.HotReload
import DiploidAgent.Plugins.Incidents
import DiploidAgent.Runtime.EventBus
import DiploidAgent.Runtime.TimerService
import DiploidAgent.Runtime.Typing
import DiploidAgent.Telegram.UpdateOffset
import DiploidAgent.Telegram.ApiCalls
import DiploidAgent.Telegram.BoardMessage
import DiploidAgent.Context.MessageRegistry
import DiploidAgent.Telegram.LiveBoard
import DiploidAgent.Memory.McpServer
import DiploidAgent.Runtime.SubagentOutcome

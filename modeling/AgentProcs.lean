import AgentProcs.Machinery.Runs
import AgentProcs.Machinery.Ledger
import AgentProcs.Protocol.Messages
import AgentProcs.Daemon.Life
import AgentProcs.Daemon.PortAllocator
import AgentProcs.Daemon.ProcessManager
import AgentProcs.Daemon.Actor
import AgentProcs.Daemon.World
import AgentProcs.Supervision.Holdings
import AgentProcs.Supervision.Custody
import AgentProcs.Supervision.Ledgers
import AgentProcs.Supervision.Handlers
import AgentProcs.Supervision.Refinement
import AgentProcs.Supervision.Ownership
import AgentProcs.Supervision.Replies
import AgentProcs.Supervision.Answers
import AgentProcs.Supervision.StopAll
import AgentProcs.Supervision.ManualStop
import AgentProcs.Supervision.CrashBudget
import AgentProcs.Supervision.Routes
import AgentProcs.Supervision.Shutdown
import AgentProcs.Machinery.Files
import AgentProcs.Machinery.Rotation
import AgentProcs.Machinery.Lines
import AgentProcs.Logs.LogWriter
import AgentProcs.Logs.Segments
import AgentProcs.Logs.Writing
import AgentProcs.Logs.Capture
import AgentProcs.Logs.NoLoss
import AgentProcs.Logs.DiskLogReader
import AgentProcs.Logs.ReadBack
import AgentProcs.Machinery.StableSort
import AgentProcs.Logs.Incarnations
import AgentProcs.Logs.IndexLag
import AgentProcs.Logs.Chronology
import AgentProcs.Logs.FailedRotation
import AgentProcs.Supervision.LastCommand
import AgentProcs.Daemon.Service
import AgentProcs.Supervision.LateRun
import AgentProcs.Daemon.Proxy
import AgentProcs.Supervision.Advertised
import AgentProcs.Machinery.BufferedLines
import AgentProcs.Daemon.Connection
import AgentProcs.Protocol.Framing
import AgentProcs.Daemon.Wait
import AgentProcs.Logs.NewestSegment
import AgentProcs.Logs.WaitTiming
import AgentProcs.Daemon.Session
import AgentProcs.Supervision.SingleDaemon
import AgentProcs.Logs.Scan
import AgentProcs.Logs.Listing
import AgentProcs.Tui.App
import AgentProcs.Tui.EventLoop
import AgentProcs.Tui.FilterIndex
import AgentProcs.Tui.FreshScan
import AgentProcs.Machinery.Windows
import AgentProcs.Tui.Pane
import AgentProcs.Tui.Steps
import AgentProcs.Tui.Frozen
import AgentProcs.Tui.Clamped
import AgentProcs.Config.StartupOrder
import AgentProcs.Supervision.Changes
import AgentProcs.Supervision.Watchers
import AgentProcs.Supervision.WaitExit
import AgentProcs.Supervision.Lineage
import AgentProcs.Supervision.OneUrl
import AgentProcs.Supervision.Targets
import AgentProcs.Supervision.AutoPorts
import AgentProcs.Daemon.Proxying
import AgentProcs.Supervision.EnableTwice
import AgentProcs.Daemon.Follow
import AgentProcs.Supervision.Spellings
import AgentProcs.Logs.WaitLag
import AgentProcs.Logs.Arrivals
import AgentProcs.Logs.TornWrites
import AgentProcs.Tui.Preload
import AgentProcs.Tui.HotBuffer
import AgentProcs.Machinery.Cyclic
import AgentProcs.Daemon.PortSearch
import AgentProcs.Logs.IndexBytes
import AgentProcs.Logs.UnusableIndex
import AgentProcs.Machinery.FixedWidth
import AgentProcs.Logs.ReadPaths
import AgentProcs.Daemon.FollowLimit
import AgentProcs.Logs.Tailing
import AgentProcs.Logs.Replay
import AgentProcs.Logs.Moment
import AgentProcs.Logs.TailThenFollow
import AgentProcs.Logs.Naming
import AgentProcs.Logs.Attribution
import AgentProcs.Logs.Pairing
import AgentProcs.Daemon.Cleaning
import AgentProcs.Machinery.Paths
import AgentProcs.Daemon.EventFilter
import AgentProcs.Tui.Reconnecting
import AgentProcs.Supervision.Annotations
import AgentProcs.Logs.InStep
import AgentProcs.Logs.AddressSpace
import AgentProcs.Logs.ChunkedScan
import AgentProcs.Machinery.Json
import AgentProcs.Protocol.Wire
import AgentProcs.Protocol.Compatibility
import AgentProcs.Machinery.Ranks
import AgentProcs.Tui.Selection
import AgentProcs.Config.Up
import AgentProcs.Supervision.Deployment
import AgentProcs.Daemon.RuntimeDir
import AgentProcs.Machinery.ProcessGroups
import AgentProcs.Supervision.Signals
import AgentProcs.Supervision.Stopped
import AgentProcs.Daemon.Forwarding
import AgentProcs.Logs.DiskUse
import AgentProcs.Supervision.Forwarded
import AgentProcs.Supervision.WindingUp
import AgentProcs.Machinery.Fairness
import AgentProcs.Supervision.Eventually
import AgentProcs.Supervision.FollowUp

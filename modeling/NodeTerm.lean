import NodeTerm.Canvas.LateJoin
import NodeTerm.Watch.NoLeak
import NodeTerm.Canvas.RoundTrip
import NodeTerm.Canvas.Owed
import NodeTerm.Agents.Conservation
import NodeTerm.Agents.Order
import NodeTerm.SessionHost.Serialized
import NodeTerm.SessionHost.ExactlyOnce
import NodeTerm.Sinks.Balanced
import NodeTerm.SessionHost.SharedGeometry
import NodeTerm.SessionHost.Retries
import NodeTerm.Sinks.Resync
import NodeTerm.Parts.CrashAtomic
import NodeTerm.Parts.TwoWriters
import NodeTerm.Archive.Capacity
import NodeTerm.Workspace.SplitOnce
import NodeTerm.Portal.RepairTotal
import NodeTerm.Presence.Replica
import NodeTerm.Planner.Removal
import NodeTerm.Planner.InStep
import NodeTerm.Planner.Protocol
import NodeTerm.Universe.CanonicalForm
import NodeTerm.Agents.FlowBudgets
import NodeTerm.Tunnel.LateReplies
import NodeTerm.Trigger.Consent
import NodeTerm.Workspace.Unread
import NodeTerm.Pulls.AtMostOnce
import NodeTerm.Workspace.StaleSaves
import NodeTerm.Agents.StatusMirror
import NodeTerm.GitHub.Settles
import NodeTerm.Trigger.Runs
import NodeTerm.Relay.WatchGate
import NodeTerm.Unlock.Upward
import NodeTerm.Publication.Forward
import NodeTerm.Agents.SubagentTail
import NodeTerm.Agents.ContextLife
import NodeTerm.Board.Blobs
import NodeTerm.Glyphgrid.FrameChain
import NodeTerm.Agents.Fates
import NodeTerm.Setup.Live
import NodeTerm.Webview.Commits
import NodeTerm.Planner.TimerRuns
import NodeTerm.Worktree.Facts
import NodeTerm.Trigger.CronScan
import NodeTerm.PortForward.Runs
import NodeTerm.Agents.Capacity
import NodeTerm.Relay.BoardLogCounts
import NodeTerm.Reaper.SessionBudget
import NodeTerm.Canvas.MutationGuard
import NodeTerm.Archive.Manifest
import NodeTerm.History.Graph
import NodeTerm.Rpc.Messages
import NodeTerm.Glyphgrid.Atlas
import NodeTerm.Settings.SaveQueue
import NodeTerm.Ssh.ChildGate
import NodeTerm.Archive.DuplicateKeys
import NodeTerm.Vocabulary.JsonScan
import NodeTerm.Canvas.NodeCreation
import NodeTerm.Glyphgrid.WebglBudget
import NodeTerm.Agents.InboxTrim
import NodeTerm.Shell.Quoting
import NodeTerm.Presence.RateLimits
import NodeTerm.SessionHost.Framing
import NodeTerm.Ssh.PosixCksum

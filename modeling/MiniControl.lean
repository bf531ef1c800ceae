import MiniControl.Transition.System
import MiniControl.Transition.Interleaving
import MiniControl.Transition.Interaction
import MiniControl.Tables.Keyed
import MiniControl.Text.Hex
import MiniControl.Text.Space
import MiniControl.Tables.Ordering
import MiniControl.Buffers.Ring
import MiniControl.Buffers.Compaction
import MiniControl.Releases.Paths
import MiniControl.Releases.Store
import MiniControl.Releases.Integrity
import MiniControl.Releases.Download
import MiniControl.Fleet.Model
import MiniControl.Fleet.Scheduling
import MiniControl.Fleet.Workers
import MiniControl.Fleet.Workstations
import MiniControl.Fleet.Statements
import MiniControl.Fleet.Changes
import MiniControl.Fleet.Isolation
import MiniControl.Fleet.Allocation
import MiniControl.Fleet.Deletion
import MiniControl.Fleet.Lifecycle
import MiniControl.Fleet.Alone
import MiniControl.Fleet.Frames
import MiniControl.Fleet.Releasing
import MiniControl.WorkerCore.Tart
import MiniControl.WorkerCore.Runtime
import MiniControl.WorkerCore.Manager
import MiniControl.WorkerCore.Adoption
import MiniControl.Heartbeat.System
import MiniControl.Heartbeat.Effects
import MiniControl.Heartbeat.Safety
import MiniControl.Heartbeat.Orphans
import MiniControl.Terminal.History
import MiniControl.Terminal.Session
import MiniControl.Terminal.Effects
import MiniControl.Terminal.Replay
import MiniControl.Terminal.Handover
import MiniControl.Terminal.Watch
import MiniControl.Terminal.IdleTimer
import MiniControl.Access.Verifier
import MiniControl.Access.Freshness
import MiniControl.Proxy.Session
import MiniControl.Proxy.Manager
import MiniControl.Proxy.Effects
import MiniControl.Proxy.Relays
import MiniControl.Proxy.Closing
import MiniControl.Proxy.Consistency
import MiniControl.Rest.Routes
import MiniControl.Enrollment.System
import MiniControl.Enrollment.Tokens
import MiniControl.Enrollment.Hostnames
import MiniControl.Proxy.Disclosure
import MiniControl.Rest.WorkerRequests
import MiniControl.Rest.MemberRequests
import MiniControl.Rest.MemberIsolation
import MiniControl.Balance.Greedy
import MiniControl.Fleet.LeastLoaded
import MiniControl.Fleet.Filling
import MiniControl.Rest.MemberAnswers
import MiniControl.Rest.Polling
import MiniControl.Rest.HostSpelling
import MiniControl.WorkerCore.Reconciliation
import MiniControl.WorkerCore.Relays
import MiniControl.Heartbeat.Convergence
import MiniControl.Terminal.LiveOrder
import MiniControl.Terminal.Backlog
import MiniControl.Releases.Signing
import MiniControl.Releases.Containment
import MiniControl.Access.EmailDomain
import MiniControl.Proxy.Reaping
import MiniControl.Enrollment.Numbering
import MiniControl.Enrollment.PoolSize
import MiniControl.WorkerCore.RelayTasks
import MiniControl.WorkerCore.ProxyRelay
import MiniControl.Text.Yaml
import MiniControl.Text.Characters
import MiniControl.Installer.ConfigFile
import MiniControl.Installer.Address
import MiniControl.Text.Collation
import MiniControl.Calendar.Gregorian
import MiniControl.Calendar.Timestamp
import MiniControl.Frontend.Machines
import MiniControl.Enrollment.Site
import MiniControl.Enrollment.Handshake
import MiniControl.Enrollment.Lockout
import MiniControl.WorkerCore.Steadiness
import MiniControl.Heartbeat.Calm
import MiniControl.Heartbeat.Recovery
import MiniControl.Buffers.Framing
import MiniControl.Proxy.Tunnel
import MiniControl.Proxy.Delivery
import MiniControl.Frontend.RemoteTerminal
import MiniControl.Frontend.Reconnecting
import MiniControl.Frontend.Ownership
import MiniControl.Frontend.OwnTerminal
import MiniControl.Transition.History
import MiniControl.Fleet.Atomic
import MiniControl.Fleet.Serial
import MiniControl.Enrollment.Pinning

import Symbolon.Lib.Run
import Symbolon.Lib.Pool
import Symbolon.Lib.Collect
import Symbolon.Lib.Text
import Symbolon.Lib.Checked
import Symbolon.Lib.Cursor
import Symbolon.Lib.Encoding
import Symbolon.Lib.Segmented
import Symbolon.Lib.Url
import Symbolon.Lib.Relay
import Symbolon.Identity
import Symbolon.PskStore
import Symbolon.PskStore.Format
import Symbolon.Clients
import Symbolon.PlainCodec
import Symbolon.State.Mutation
import Symbolon.State.Ledger
import Symbolon.State.Lockstep
import Symbolon.State.Revocation
import Symbolon.State.Durability
import Symbolon.State.Crash
import Symbolon.State.Rollback
import Symbolon.State.Serving
import Symbolon.Transport.Wire
import Symbolon.Transport.Tlv
import Symbolon.Transport.Session
import Symbolon.Transport.Calls
import Symbolon.Transport.Discipline
import Symbolon.Transport.Noise
import Symbolon.Transport.Network
import Symbolon.Transport.Stages
import Symbolon.Transport.Agreement
import Symbolon.Transport.Delivery
import Symbolon.GitCredential
import Symbolon.GitCredential.Grammar
import Symbolon.GitCredential.Emission
import Symbolon.RateLimit
import Symbolon.RateLimit.Window
import Symbolon.Provider
import Symbolon.TtlCache
import Symbolon.TtlCache.Refinement
import Symbolon.SingleflightCache
import Symbolon.SingleflightCache.With
import Symbolon.SingleflightCache.Guards
import Symbolon.Providers.GitHub.Api
import Symbolon.Providers.GitHub.Url
import Symbolon.Providers.GitHub.Mint
import Symbolon.Providers.GitHub.Moves
import Symbolon.Providers.GitHub.Provenance
import Symbolon.Providers.GitHub.Invalidation
import Symbolon.Providers.GitHub.Scratch
import Symbolon.Providers.JwtRs256
import Symbolon.Providers.Agent
import Symbolon.Providers.AgentBackend
import Symbolon.Providers.AgentBackend.Channel
import Symbolon.Providers.AgentBackend.CrossTalk
import Symbolon.Providers.TpmWire
import Symbolon.Connection
import Symbolon.Connection.Life
import Symbolon.Connection.Enumeration
import Symbolon.Connection.ReadExact
import Symbolon.Signals
import Symbolon.Daemon
import Symbolon.Daemon.Mint
import Symbolon.Daemon.Audit
import Symbolon.Daemon.Entitlement
import Symbolon.Daemon.Revoked
import Symbolon.Daemon.Startup
import Symbolon.Daemon.ReadBudget
import Symbolon.Daemon.Lifecycle
import Symbolon.Admin
import Symbolon.Admin.Agreement
import Symbolon.Admin.Undo
import Symbolon.Lib.Trim
import Symbolon.Client
import Symbolon.Client.KeyFile
import Symbolon.Client.Link
import Symbolon.Client.Service
import Symbolon.Lib.Volume
import Symbolon.Lib.Worker
import Symbolon.Providers.TpmBackend
import Symbolon.State.Storage
import Symbolon.State.PowerLoss
import Symbolon.RateLimit.Restarts
import Symbolon.Daemon.LogFlood
import Symbolon.Lib.Landlock
import Symbolon.Sandbox
import Symbolon.ConnectionTracker
import Symbolon.Daemon.Shutdown

import Gretun.Foundation.Run
import Gretun.Foundation.Slice
import Gretun.Foundation.Channel
import Gretun.Foundation.Checks
import Gretun.Foundation.Command
import Gretun.Foundation.Interleave
import Gretun.Foundation.Assoc
import Gretun.Foundation.Log
import Gretun.Foundation.Ring
import Gretun.Foundation.Decimal
import Gretun.Foundation.Base64
import Gretun.Foundation.Cut
import Gretun.Foundation.Tagged
import Gretun.Foundation.Union
import Gretun.Foundation.EndAround
import Gretun.Foundation.Octets
import Gretun.Basic
import Gretun.Net.Addr
import Gretun.Net.Prefix
import Gretun.Net.Ip
import Gretun.Net.Url
import Gretun.Tunnel.Config
import Gretun.Tunnel.Netlink
import Gretun.Tunnel.Gre
import Gretun.Tunnel.Rollback
import Gretun.Tunnel.Created
import Gretun.Disco.Message
import Gretun.Daemon.Peer
import Gretun.Daemon.PeerFrame
import Gretun.Daemon.BringUp
import Gretun.Daemon.Follow
import Gretun.Daemon.Budget
import Gretun.Daemon.Pair
import Gretun.Daemon.DataPlane
import Gretun.Daemon.Messages
import Gretun.Daemon.Replay
import Gretun.Coord.Types
import Gretun.Coord.Signals
import Gretun.Coord.Relay
import Gretun.Coord.Ledger
import Gretun.Coord.Registry
import Gretun.Coord.RegistryInv
import Gretun.Coord.Allocation
import Gretun.Coord.PeersPoll
import Gretun.Coord.SignalPoll
import Gretun.Coord.Auth
import Gretun.Coord.Server
import Gretun.Coord.Integrity
import Gretun.Coord.ServerSignals
import Gretun.Coord.Delivery
import Gretun.Daemon.Causality
import Gretun.Daemon.Retry
import Gretun.Daemon.Mailbox
import Gretun.Daemon.Table
import Gretun.Coord.Signing
import Gretun.Coord.Snapshots
import Gretun.Disco.Client
import Gretun.Disco.Envelope
import Gretun.Disco.Binding
import Gretun.Daemon.Wire
import Gretun.Health.Probe
import Gretun.Health.Targets
import Gretun.Health.Checksum
import Gretun.Health.Bounded
import Gretun.Daemon.Relayed
import Gretun.Daemon.Roster
import Gretun.Daemon.TableView
import Gretun.Daemon.Shutdown
import Gretun.Tunnel.Holding
import Gretun.Tunnel.Sharing
import Gretun.Daemon.Raise
import Gretun.Daemon.Reattempt
import Gretun.Daemon.OwnTunnel
import Gretun.Tunnel.Inventory
import Gretun.Daemon.Host
import Gretun.Net.ParseAddr
import Gretun.Net.ParseIPv6
import Gretun.Tunnel.Cidr
import Gretun.Daemon.OnLink
import Gretun.Net.Json
import Gretun.Coord.Wire
import Gretun.Coord.Serve
import Gretun.Disco.Exchange
import Gretun.Disco.PeersView
import Gretun.Disco.Stun
import Gretun.Daemon.DiscoSocket
import Gretun.Daemon.SignalLoop
import Gretun.Disco.Keys
import Gretun.Daemon.Absorb
import Gretun.Tunnel.PortMode
import Gretun.Tunnel.Status
import Gretun.Tunnel.HostAddr
import Gretun.Tunnel.Untouched
import Gretun.Cli.Commands
import Gretun.Cli.Session
import Gretun.Daemon.Queue
import Gretun.Daemon.Traffic
import Gretun.Health.Multiple
import Gretun.Cli.Health
import Gretun.Daemon.Fleet
import Gretun.Net.ParseAddrPort
import Gretun.Daemon.Targets
import Gretun.Daemon.Advertise
import Gretun.Daemon.Conversation
import Gretun.Daemon.Sections

import Wk.Library.Table
import Wk.Library.Run
import Wk.Library.Ranked
import Wk.Protocol
import Wk.Wiring
import Wk.Workspace
import Wk.Instancing
import Wk.Instancing.Collapse
import Wk.Server.Graph
import Wk.Vfs
import Wk.Server.State
import Wk.Server.Mounts
import Wk.Server.Wires
import Wk.Server.Nodes
import Wk.Server.Instances
import Wk.Server.Apply
import Wk.Server.Edits
import Wk.Server.Discipline
import Wk.Server.SideTables
import Wk.Server.Effects
import Wk.Server.PrivateNets
import Wk.Server.Anchors
import Wk.Server.Memberships
import Wk.Instancing.Forest
import Wk.Server.Homes
import Wk.Server.Settling
import Wk.Server.Saves
import Wk.Provider
import Wk.Vfs.Guest
import Wk.Vfs.Session
import Wk.Vfs.Names
import Wk.Vfs.Effects
import Wk.Vfs.Shape
import Wk.Vfs.HostMoves
import Wk.Vfs.Descriptors
import Wk.Vfs.Dangling
import Wk.Vfs.Leaks
import Wk.Vfs.Tree
import Wk.Vfs.Deeds
import Wk.Vfs.OpenFiles
import Wk.Vfs.ReadOnly
import Wk.Vfs.Paths
import Wk.Vfs.Resolvers
import Wk.Vfs.Relative
import Wk.Vfs.Forwarded
import Wk.Vfs.Fleet
import Wk.Provider.Conn
import Wk.Provider.Matching
import Wk.Provider.Handles
import Wk.Instancing.Order
import Wk.Library.Floats
import Wk.Library.Routes
import Wk.Library.Fuel
import Wk.Library.Loop
import Wk.Instancing.Chains
import Wk.Instancing.Endless
import Wk.Server.Layout
import Wk.ExecPipe
import Wk.ExecPipe.Wakeups
import Wk.ExecPipe.Permits
import Wk.Exec
import Wk.Api
import Wk.MidiFile
import Wk.MidiFile.Reread
import Wk.Library.Reach
import Wk.Library.Rekey
import Wk.Automergefs
import Wk.Automergefs.Repo
import Wk.Automergefs.Flush
import Wk.Automergefs.Sync
import Wk.Fabric
import Wk.Fabric.Switch
import Wk.Fabric.Sockets
import Wk.Fabric.Resources
import Wk.Fabric.Owners
import Wk.Fabric.Listeners
import Wk.Fabric.Uplink
import Wk.Library.MidiBytes
import Wk.Sequence
import Wk.Sequence.Balance
import Wk.Sequence.Saved
import Wk.Sequence.Restored
import Wk.Sequence.Steps
import Wk.Sequence.Unrolled
import Wk.Midi
import Wk.Midi.Release
import Wk.Midi.Backlog
import Wk.Library.Transducer
import Wk.Midi.Stream
import Wk.Library.Kdl
import Wk.Workspace.Text
import Wk.Instancing.Scopes
import Wk.Instancing.Overrides
import Wk.Instancing.OnePer
import Wk.Instancing.Naming
import Wk.Server.UndoCosts
import Wk.Server.Serves
import Wk.Library.PathTree
import Wk.Workspace.Ids
import Wk.Workspace.Literals
import Wk.Workspace.RoundTrip
import Wk.Workspace.Reload
import Wk.Library.Overlay
import Wk.Workspace.Write
import Wk.Workspace.Load
import Wk.Workspace.Comments
import Wk.Vfs.Creating
import Wk.Vfs.Listing
import Wk.Library.Memo
import Wk.Server.AuthCache
import Wk.Vfs.ShortWrites
import Wk.Vfs.Failures
import Wk.Library.Appenders
import Wk.Vfs.Appends
import Wk.Vfs.Addresses
import Wk.Vfs.Bounds
import Wk.Fabric.Bridging
import Wk.Sequence.Smf
import Wk.Sequence.Pairing
import Wk.Sequence.Recut
import Wk.Sequence.Reimport
import Wk.Sequence.Sounding
import Wk.Library.Octets
import Wk.Fabric.Datagrams
import Wk.Fabric.HostMulticast
import Wk.Fabric.Dialer
import Wk.Fabric.UdpForward
import Wk.Fabric.Veilid
import Wk.Fabric.Teardown
import Wk.Fabric.TcpPump
import Wk.Library.Leases
import Wk.Fabric.Frames
import Wk.Fabric.Ports
import Wk.Fabric.Ephemeral
import Wk.Fabric.Readiness
import Wk.Fabric.HostConn
import Wk.Automergefs.Handles
import Wk.Arpeggiator
import Wk.Tty
import Wk.Artifacts
import Wk.Vfs.Pictures
import Wk.Vfs.Layers
import Wk.Vfs.Snapshots
import Wk.Images
import Wk.Images.Copied
import Wk.Images.Extracted
import Wk.Images.Stages
import Wk.Cli
import Wk.Cli.Configure
import Wk.Library.Slices
import Wk.Workspace.Hex
import Wk.Library.Peg
import Wk.Dockerfile
import Wk.Dockerfile.Stages
import Wk.Dockerfile.Lines
import Wk.Dockerfile.Exec
import Wk.Dockerfile.Words
import Wk.Dockerfile.Pairs
import Wk.Library.DepthFirst
import Wk.Workspace.Resolve

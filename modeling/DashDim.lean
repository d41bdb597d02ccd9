import DashDim.Base.AlarmRounds
import DashDim.Base.AlarmServer
import DashDim.Base.EpollServer
import DashDim.Base.EventLoop
import DashDim.Base.Ini
import DashDim.Base.IniLines
import DashDim.Base.IniLookup
import DashDim.Base.Rounds
import DashDim.Base.Timers
import DashDim.Codec.Bounds
import DashDim.Codec.Exact
import DashDim.Codec.Failure
import DashDim.Codec.Raw
import DashDim.Codec.Reader
import DashDim.Codec.RoundTrip
import DashDim.Codec.VarInt
import DashDim.Codec.VarInt62
import DashDim.Codec.Writer
import DashDim.Dash.Algorithms
import DashDim.Dash.Bookkeeping
import DashDim.Dash.Client
import DashDim.Dash.Delay
import DashDim.Dash.Fuzzy
import DashDim.Dash.Gradual
import DashDim.Dash.Harmonic
import DashDim.Dash.Ladder
import DashDim.Dash.Lockstep
import DashDim.Dash.Measured
import DashDim.Dash.Panda
import DashDim.Dash.Playable
import DashDim.Dash.Playback
import DashDim.Dash.Predicator
import DashDim.Dash.ReadLoop
import DashDim.Dash.Response
import DashDim.Dash.Searches
import DashDim.Dash.Segments
import DashDim.Dash.Server
import DashDim.Dash.Trend
import DashDim.Dash.Util
import DashDim.Hen.Base
import DashDim.Hen.Draining
import DashDim.Hen.Meta
import DashDim.Hen.Stick
import DashDim.Lib.Blend
import DashDim.Lib.Bytes
import DashDim.Lib.Framing
import DashDim.Lib.IntervalSet
import DashDim.Lib.IntrusiveList
import DashDim.Lib.Mean
import DashDim.Lib.Multimap
import DashDim.Lib.Outcome
import DashDim.Lib.Reassembly
import DashDim.Lib.Run
import DashDim.Lib.Search
import DashDim.Lib.SearchTree
import DashDim.Lib.Sending
import DashDim.Lib.Serving
import DashDim.Lib.Traced
import DashDim.Octopus.Base
import DashDim.Octopus.Draining
import DashDim.Octopus.Handlers
import DashDim.Octopus.Handshake
import DashDim.Octopus.Link
import DashDim.Octopus.Links
import DashDim.Octopus.Meta
import DashDim.Octopus.Proxy
import DashDim.Octopus.Safety
import DashDim.Octopus.Session
import DashDim.Octopus.WriteBudget
import DashDim.Relays
import DashDim.Sequencer.Blocks
import DashDim.Sequencer.Intervals
import DashDim.Tcp.Types
import DashDim.Tools.FileTransfer
import DashDim.Tpproxy.Backpressure
import DashDim.Tpproxy.Budget
import DashDim.Tpproxy.Connection
import DashDim.Tpproxy.Delivery
import DashDim.Tpproxy.Draining
import DashDim.Tpproxy.Events
import DashDim.Tpproxy.Frame
import DashDim.Tpproxy.HalfClose
import DashDim.Tpproxy.Header
import DashDim.Tpproxy.Keeping
import DashDim.Tpproxy.Listed
import DashDim.Tpproxy.Malformed
import DashDim.Tpproxy.Multipath
import DashDim.Tpproxy.Overrun
import DashDim.Tpproxy.Partition
import DashDim.Tpproxy.Proxy
import DashDim.Tpproxy.Reading
import DashDim.Tpproxy.Ready
import DashDim.Tpproxy.Registry
import DashDim.Tpproxy.Rejoining
import DashDim.Tpproxy.Sequencer
import DashDim.Tpproxy.Server
import DashDim.Tpproxy.Servers
import DashDim.Tpproxy.Sessions
import DashDim.Tpproxy.Socket
import DashDim.Tpproxy.WindowedFilter
import DashDim.Tpproxy.World
import DashDim.Tpproxy.Zombies

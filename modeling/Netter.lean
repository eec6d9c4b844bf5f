import Netter.Lib.Block
import Netter.Lib.BigEndian
import Netter.Lib.Framing
import Netter.Lib.Wp
import Netter.Lib.Skip
import Netter.Lib.Before
import Netter.Lib.Run
import Netter.Lib.Eventually
import Netter.Lib.Walk
import Netter.Lib.Periodic
import Netter.Lib.Emit
import Netter.Lib.EdgeTriggered
import Netter.Util
import Netter.SimpleBuffer
import Netter.SimpleBuffer.Queue
import Netter.SimpleBuffer.Capacity
import Netter.ByteStream.Model
import Netter.ByteStream.Bounds
import Netter.ByteStream.RoundTrip
import Netter.ByteStream.Overflow
import Netter.ByteStream.Backings
import Netter.Pkt
import Netter.Pkt.Header
import Netter.Conn.Model
import Netter.Conn.Receive
import Netter.Conn.Release
import Netter.Conn.Send
import Netter.Conn.Armed
import Netter.Conn.Close
import Netter.Conn.Room
import Netter.Conn.Chunks
import Netter.Conn.Growth
import Netter.Link.Model
import Netter.Link.Frames
import Netter.Link.Party
import Netter.Link.Delivery
import Netter.Link.PingPong
import Netter.Link.Settled
import Netter.Link.Eventually
import Netter.Link.Forever
import Netter.Client.Model
import Netter.Client.Recv
import Netter.Client.Agree
import Netter.Client.Pressure
import Netter.Client.Eventually
import Netter.Drain
import Netter.Handle
import Netter.Timer.Model
import Netter.Timer.Pass
import Netter.Timer.Schedule
import Netter.Timeout
import Netter.Sweep
import Netter.Loop.Model
import Netter.Loop.Fit
import Netter.Loop.States
import Netter.Loop.Lifetime
import Netter.Loop.Once
import Netter.Loop.Stages
import Netter.Loop.Batch
import Netter.Loop.Connect.Model
import Netter.Loop.Connect.Opening
import Netter.Loop.Connect.Run
import Netter.Accept.Model
import Netter.Accept.Introduced
import Netter.Sockets.Model
import Netter.Sockets.Conserved
import Netter.Posting.Model
import Netter.Posting.Steps
import Netter.Posting.Owned
import Netter.Posting.Order
import Netter.Posting.Kept
import Netter.Posting.Closes
import Netter.Posting.ByHandle
import Netter.Posting.Lives
import Netter.Outlive
import Netter.Wakeup
import Netter.Wakeup.Eventually
import Netter.Dispatch.Model
import Netter.Dispatch.Confirm
import Netter.Dispatch.Drained
import Netter.Http.Syntax
import Netter.Http.Execute
import Netter.Http.Marks
import Netter.Http.Early
import Netter.Http.Feed
import Netter.Http.Request
import Netter.Http.Stages
import Netter.Http.Conn
import Netter.Http.Length
import Netter.Http.Alone
import Netter.Http.Once
import Netter.Http.Shared
import Netter.Http.Written
import Netter.Http.Reads
import Netter.Http.Lines
import Netter.Http.Names
import Netter.Http.Numbers
import Netter.Http.Headers
import Netter.Http.Bodies
import Netter.Http.RoundTrip
import Netter.Http.Grammar
import Netter.Http.Tail
import Netter.Http.Front
import Netter.Http.Accepted
import Netter.Pool.Model
import Netter.Pool.Steps
import Netter.Pool.Locked
import Netter.Pool.Order
import Netter.Pool.Stop
import Netter.Pool.Drain
import Netter.Pool.Eventually
import Netter.SimpleLog

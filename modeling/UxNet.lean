import UxNet.Lib.Serial
import UxNet.Lib.Loop
import UxNet.Lib.Access
import UxNet.Lib.Linked
import UxNet.Lib.Acks
import UxNet.Lib.Reassembly
import UxNet.Lib.Ring
import UxNet.Lib.Places
import UxNet.Lib.Xor
import UxNet.Lib.Crc
import UxNet.Lib.OnesComplement
import UxNet.Lib.Scan
import UxNet.Lib.Strto
import UxNet.Lib.Rank
import UxNet.Lib.Sliding
import UxNet.Lib.Table
import UxNet.Lib.Weak
import UxNet.Lib.Paging
import UxNet.Lib.Throw
import UxNet.Lib.Endless
import UxNet.Pool.Basic
import UxNet.Pool.Contents
import UxNet.Pool.FreeStack
import UxNet.Pool.FreeTrace
import UxNet.Pool.Geometry
import UxNet.Pool.FreeCount
import UxNet.Pool.Race
import UxNet.Pool.Construction
import UxNet.Pool.Registry
import UxNet.Pool.Meminfo
import UxNet.Pool.NumaMaps
import UxNet.Pool.RelAcq
import UxNet.Pool.Lifecycle
import UxNet.Ring.PacketRing
import UxNet.Ring.Setup
import UxNet.Ring.Held
import UxNet.Ring.Spsc
import UxNet.Ring.RelAcq
import UxNet.Perf.Histogram
import UxNet.Perf.Report
import UxNet.Packet.Parser
import UxNet.Packet.Rss
import UxNet.Packet.Batch
import UxNet.Packet.Processor
import UxNet.Packet.Flush
import UxNet.Packet.Drain
import UxNet.Packet.Toeplitz
import UxNet.Packet.Frame
import UxNet.Packet.Fragments
import UxNet.Capture.Pipeline
import UxNet.Capture.Accounting
import UxNet.Capture.Order
import UxNet.Capture.Live
import UxNet.Capture.Shutdown
import UxNet.Capture.Poll
import UxNet.Capture.Print
import UxNet.TcpLite.Header
import UxNet.TcpLite.Crc32
import UxNet.TcpLite.Queue
import UxNet.TcpLite.Entries
import UxNet.TcpLite.Bitmap
import UxNet.TcpLite.Window
import UxNet.TcpLite.Session
import UxNet.TcpLite.Frames
import UxNet.TcpLite.Reads
import UxNet.TcpLite.Machine
import UxNet.TcpLite.Ownership
import UxNet.TcpLite.Reentry
import UxNet.TcpLite.Agreement
import UxNet.TcpLite.Writes
import UxNet.TcpLite.Inbox
import UxNet.TcpLite.Calls
import UxNet.TcpLite.Timing
import UxNet.TcpLite.Recovery
import UxNet.TcpLite.Completion
import UxNet.TcpLite.Progress
import UxNet.TcpLite.Exhaustion
import UxNet.TcpLite.Stale
import UxNet.TcpLite.Corruption
import UxNet.TcpLite.Course
import UxNet.TcpLite.Fair
import UxNet.TcpLite.Echo

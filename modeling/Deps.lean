import Deps.Lib.Region
import Deps.Lib.Throwing
import Deps.Lib.Program
import Deps.Lib.Reentrant
import Deps.Lib.Runs
import Deps.Lib.Monitor
import Deps.Lib.Outcome
import Deps.Lib.OrderedMap
import Deps.Lib.Bytes
import Deps.Lib.HalfSwaps
import Deps.Net.Host
import Deps.Net.BlockBuffer
import Deps.Net.BlockBufferRefinement
import Deps.Net.Pack
import Deps.Net.Unpack
import Deps.Net.Wire
import Deps.Net.WireRoundTrip
import Deps.Net.UnpackBounds
import Deps.Net.Packet
import Deps.Net.Encoding
import Deps.Net.Framing
import Deps.Net.HostAgreement
import Deps.Net.World
import Deps.Net.EpollContainer
import Deps.Net.TcpSocket
import Deps.Net.UdpSocket
import Deps.Net.EventLoop
import Deps.Net.Rules
import Deps.Net.Outcomes
import Deps.Net.Ownership
import Deps.Net.OwnershipRuns
import Deps.Net.ContainerRuns
import Deps.Net.Listener
import Deps.Net.EventDelivery
import Deps.Net.SizeBounds
import Deps.Net.SignedSwaps
import Deps.Net.StreamRuns
import Deps.Net.Receiving
import Deps.Net.ReceiveErrors
import Deps.Net.ReceivedBytes
import Deps.Net.Reassembly
import Deps.Net.Conservation
import Deps.Net.WriteInterest
import Deps.Sys.ThreadQueue
import Deps.Sys.SequentialQueue
import Deps.Sys.QueueRuns
import Deps.Sys.TimedWaits
import Deps.Sys.Logger
import Deps.Sys.Rotation
import Deps.Net.TimeoutSweep
import Deps.Lib.Endings
import Deps.Net.NoticeRuns
import Deps.Net.CloseNotice
import Deps.Net.BlockBufferPromises
import Deps.Net.EncoderHistory
import Deps.Net.Datagrams
import Deps.Net.Openings
import Deps.Net.WireReading
import Deps.Net.TakenBytes
import Deps.Net.ReusedTargets
import Deps.Net.ContainerHelpers
import Deps.Net.Inflation
import Deps.Net.Accepted
import Deps.Lib.Rescale
import Deps.Sys.NtpTime
import Deps.Sys.LogLine
import Deps.Sys.Durations
import Deps.Net.ForwardBuffer
import Deps.Net.BlockAccounting
import Deps.Lib.CursorSweep
import Deps.Net.SweepRuns
import Deps.Net.Lifetimes
import Deps.Net.UdpReplies
import Deps.Net.ConnectProgress
import Deps.Lib.Link
import Deps.Lib.Frames
import Deps.Net.Delivery
import Deps.Net.Connection
import Deps.Net.Draining
import Deps.Lib.Locking
import Deps.Sys.QueueLocking
import Deps.Sys.ThreadStart
import Deps.Lib.Processes
import Deps.Lib.Ledger
import Deps.Lib.Files
import Deps.Sys.LogFiles
import Deps.Sys.LogDescriptors
import Deps.Sys.LogLines
import Deps.Sys.LogOrder
import Deps.Sys.LogBackups
import Deps.Sys.Daemon
import Deps.Lib.Protocols
import Deps.Lib.Network
import Deps.Net.Exchange
import Deps.Net.SocketLife

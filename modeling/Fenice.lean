import Fenice.Lib.Run
import Fenice.Lib.Ring
import Fenice.Lib.Broadcast
import Fenice.BufferPool.Slots
import Fenice.BufferPool.Pool
import Fenice.BufferPool.Consumer
import Fenice.BufferPool.Producer
import Fenice.BufferPool.References
import Fenice.BufferPool.Delivery
import Fenice.Lib.CString
import Fenice.Rtsp.Framing
import Fenice.Rtsp.Requests
import Fenice.Rtsp.Segmentation
import Fenice.Lib.CText
import Fenice.Rtsp.Url
import Fenice.Schedule.Calls
import Fenice.Rtsp.Connection
import Fenice.Rtsp.Methods
import Fenice.Rtsp.Setup
import Fenice.Rtsp.Dispatch
import Fenice.Rtsp.Calls
import Fenice.H264.Packetize
import Fenice.EventLoop.Loop
import Fenice.Rtp.SendPacket
import Fenice.Rtsp.Acquire
import Fenice.Rtsp.Sweep
import Fenice.Rtsp.Ports
import Fenice.Schedule.Buffers
import Fenice.Rtsp.Readers
import Fenice.Rtsp.Consumers
import Fenice.Rtsp.Lifetime
import Fenice.Rtsp.Sharing
import Fenice.Rtsp.Server
import Fenice.Rtsp.OneReply
import Fenice.Rtsp.Outcomes
import Fenice.Rtsp.Transitions
import Fenice.Rtsp.Discard
import Fenice.Rtsp.Consumption
import Fenice.Rtsp.Delimiting
import Fenice.Rtsp.OutStream
import Fenice.BufferPool.Window
import Fenice.Rtsp.Identity
import Fenice.Rtsp.Descriptors
import Fenice.Mediainfo.SDFile
import Fenice.Mediainfo.Reload
import Fenice.Mediainfo.Sdp
import Fenice.Rtsp.Control
import Fenice.Rtcp.Recv
import Fenice.Rtcp.Compound
import Fenice.Rtcp.Send
import Fenice.Rtcp.Reports
import Fenice.H264.AnnexB
import Fenice.Mediainfo.GetFrame
import Fenice.H264.Recall
import Fenice.BufferPool.TwoWrites
import Fenice.BufferPool.Readers
import Fenice.BufferPool.Shared
import Fenice.Mediainfo.Growth
import Fenice.Mediainfo.MpegVideo
import Fenice.Mediainfo.MpegHeads
import Fenice.Mediainfo.MpegEnds
import Fenice.Mediainfo.MpegCalls
import Fenice.H264.Bounds
import Fenice.Mediainfo.MpegBounds
import Fenice.Mediainfo.MpegStream
import Fenice.Mediainfo.MpegPictures
import Fenice.Mediainfo.Mp3
import Fenice.Rtsp.Channels
import Fenice.Rtcp.Interleaved
import Fenice.Rtp.Playback
import Fenice.Rtp.SendFrame
import Fenice.Rtp.EndOfStream
import Fenice.Rtsp.Ranges
import Fenice.Rtsp.Playing
import Fenice.Rtsp.Seek
import Fenice.Rtsp.StartTime
import Fenice.Rtsp.RoundTrip
import Fenice.Mediainfo.DescrList
import Fenice.Rtsp.Described
import Fenice.Mediainfo.Playable
import Fenice.Mediainfo.Period
import Fenice.Rtsp.Pointers
import Fenice.Rtsp.ReplySizes
import Fenice.Mediainfo.SDText
import Fenice.Lib.CLine
import Fenice.Rtsp.HeaderOrder
import Fenice.Rtsp.Behind
import Fenice.Rtsp.Atomic
import Fenice.Rtsp.Enrolment
import Fenice.Rtsp.Flags
import Fenice.Rtsp.Agreement
import Fenice.EventLoop.PortRanges
import Fenice.BufferPool.OneRing
import Fenice.EventLoop.Connections
import Fenice.Memory.MallocTable
import Fenice.Mediainfo.MpegConserved
import Fenice.Lib.Ladder
import Fenice.Mediainfo.SearchMedia
import Fenice.Intnet.Adaptation
import Fenice.Intnet.Neighbours
import Fenice.Intnet.Failures
import Fenice.Intnet.Position
import Fenice.Mediainfo.SdpLoop
import Fenice.Lib.BitString
import Fenice.Mediainfo.BitFields
import Fenice.Mediainfo.StartCodes
import Fenice.Lib.Ledger
import Fenice.Memory.Discipline
import Fenice.Memory.Allocations
import Fenice.Memory.Ownership
import Fenice.Memory.Runs
import Fenice.Lib.Blocks
import Fenice.Md5.Digest
import Fenice.Md5.Streaming
import Fenice.Mediainfo.Mpeg4Es
import Fenice.Mediainfo.Mpeg4Packets
import Fenice.Rtsp.Isolation
import Fenice.Lib.Marked
import Fenice.Rtp.Live
import Fenice.H264.Transport

import Bifrost.Lib.Resequencer
import Bifrost.Rtc.SeqManager
import Bifrost.Rtc.QueueReassembly
import Bifrost.Rtc.QueueDuplicates
import Bifrost.Rtc.QueueDelivery
import Bifrost.Rtc.RtpPacket
import Bifrost.Rtc.RtpRetransmissionBuffer
import Bifrost.Rtc.RetransmissionWindow
import Bifrost.Rtc.RetransmissionCapacity
import Bifrost.Rtc.RtpStreamSequence
import Bifrost.Rtc.NackPacing
import Bifrost.Rtc.NackEviction
import Bifrost.Rtc.RateRing
import Bifrost.Rtc.ReceiverResync
import Bifrost.Rtc.TransportDispatch
import Bifrost.Rtc.StreamIsolation
import Bifrost.Rtc.RtpRoundTrip
import Bifrost.Rtc.RtpBounds
import Bifrost.Rtc.RetransmissionOrder
import Bifrost.Rtc.RetransmissionRecency
import Bifrost.Rtc.RetransmissionShift
import Bifrost.Rtc.RetransmissionLedger
import Bifrost.Io.ConnectOnce
import Bifrost.Io.MessageBoundaries
import Bifrost.Io.ClosedFlag
import Bifrost.Io.EventCopies
import Bifrost.Rtc.CompoundRoundTrip
import Bifrost.Rtc.RtcpBounds
import Bifrost.Rtc.RoundTripTime
import Bifrost.Api.AudioBounds
import Bifrost.Api.StreamTables
import Bifrost.Rtc.CompoundBudget
import Bifrost.Rtc.ReportSetters
import Bifrost.Rtc.LossReporting
import Bifrost.Rtc.NackCodec
import Bifrost.Rtc.HeartbeatPacket
import Bifrost.Api.DecodedSmoothPCMQueue
import Bifrost.Api.SmoothingPass
import Bifrost.Api.SmoothingCount
import Bifrost.Api.SmoothingOrder
import Bifrost.Api.FramePassThrough
import Bifrost.Api.SmoothingLoops
import Bifrost.Rtc.QueueReset
import Bifrost.Io.PlainEvents
import Bifrost.Io.TcpBuffer
import Bifrost.Rtc.SeqRenumbering
import Bifrost.Rtc.RateWindow
import Bifrost.Api.AudioDelivery
import Bifrost.Io.NetworkThread
import Bifrost.Lib.Incremental
import Bifrost.Lib.RefCount
import Bifrost.Rtc.CallBackQueueThread
import Bifrost.Utils.CopyOnWriteBuffer
import Bifrost.Utils.ValueSemantics
import Bifrost.Ws.Base64
import Bifrost.Ws.DataBuffer
import Bifrost.Ws.FrameDelivery
import Bifrost.Ws.FrameRoundTrip
import Bifrost.Ws.Handshake
import Bifrost.Ws.KeepAlive
import Bifrost.Ws.MessageDelivery

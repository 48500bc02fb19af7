import Zngtcp2.Reorder.Runs
import Zngtcp2.Conn.Release
import Zngtcp2.Rx.Conservation
import Zngtcp2.Rx.ReassemblyRuns
import Zngtcp2.Rx.Prefix
import Zngtcp2.Rx.LifecycleRuns
import Zngtcp2.Rx.StoppedRuns
import Zngtcp2.Pkt.Frame
import Zngtcp2.Pkt.Ppe
import Zngtcp2.Pkt.Hd
import Zngtcp2.Pkt.RoundTrip
import Zngtcp2.Pkt.HdCodec
import Zngtcp2.Pkt.Assembly
import Zngtcp2.Pkt.Codec
import Zngtcp2.Strm.GaptrRuns
import Zngtcp2.Strm.PopConserves
import Zngtcp2.Strm.Acked
import Zngtcp2.Strm.Tx
import Zngtcp2.Strm.Unacked
import Zngtcp2.Strm.Queue
import Zngtcp2.Tx.Crumble
import Zngtcp2.Tx.Crypto
import Zngtcp2.Tx.CryptoQueue
import Zngtcp2.Tx.CryptoWire
import Zngtcp2.Tx.CryptoSteps
import Zngtcp2.Tx.CryptoRuns
import Zngtcp2.Tx.CryptoChain
import Zngtcp2.Tx.Held
import Zngtcp2.Tx.HeldPop
import Zngtcp2.Tx.StreamSteps
import Zngtcp2.Tx.StreamRuns
import Zngtcp2.Tx.StreamFrames
import Zngtcp2.Tx.Flow
import Zngtcp2.Tx.FlowRuns
import Zngtcp2.Pktns.Recv
import Zngtcp2.Pktns.AckRuns
import Zngtcp2.Rtb.Runs
import Zngtcp2.Early.Runs
import Zngtcp2.Custody.Runs
import Zngtcp2.Ksl.Runs
import Zngtcp2.Scid.PoolRuns
import Zngtcp2.Cpkt.Agreement
import Zngtcp2.Tp.RoundTrip
import Zngtcp2.HashMap.Overflow
import Zngtcp2.Token.Bind
import Zngtcp2.FrameChain.Runs
import Zngtcp2.Ratelim.Runs
import Zngtcp2.Pmtud.Runs
import Zngtcp2.Pkt.Reconstruct
import Zngtcp2.Pkt.Datalen
import Zngtcp2.Pkt.Padding
import Zngtcp2.Pq.Runs
import Zngtcp2.Strm.AckedRuns
import Zngtcp2.Strm.VecConserve
import Zngtcp2.Tp.Robust
import Zngtcp2.Rtb.AckRuns
import Zngtcp2.KeyUpdate.Runs
import Zngtcp2.Timer.Runs
import Zngtcp2.WindowFilter
import Zngtcp2.Tx.ServerName
import Zngtcp2.Pkt.Retry
import Zngtcp2.Rtb.Detect
import Zngtcp2.Rtb.PersistentRuns
import Zngtcp2.Tx.CrumbleFits
import Zngtcp2.Cc.Cbrt
import Zngtcp2.Str.Uint
import Zngtcp2.BufAlloc.Refs
import Zngtcp2.PktSeal.Bounds
import Zngtcp2.Rst.Runs
import Zngtcp2.Bbr.ExactRuns
import Zngtcp2.Strmq.Runs
import Zngtcp2.Cubic.Runs
import Zngtcp2.AckNet.Runs
import Zngtcp2.Transfer.Crypto
import Zngtcp2.Transfer.Stream
import Zngtcp2.Transfer.Flow
import Zngtcp2.Migration.Runs

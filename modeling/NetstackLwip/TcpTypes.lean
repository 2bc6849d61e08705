import NetstackLwip.FaultState
import NetstackLwip.SerialNumber

namespace NetstackLwip

/-!
# Configuration and data of the TCP core

The constants are those of `lwip/custom/lwipopts.h` and of the defaults in
`lwip/opt.h` that follow from them, for a build that is not for iOS: no window
scaling, no timestamps, no outgoing SACK, no listen backlog, no keepalive, and
`TCP_OVERSIZE_DBGCHECK` on (`LWIP_DEBUG` is defined, if only as 0).

Lists of segments and of packet buffers are Lean lists. Sequence numbers are
32-bit vectors; the other fixed-width counters are `Nat` or `Int`, reduced
where the source's type makes them wrap.
-/

open FaultState

/-- `TCP_MSS`. -/
def tcpMss : Nat := 1460

/-- `TCP_WND`. -/
def tcpWnd : Nat := 32 * tcpMss

/-- `TCP_SND_BUF`. -/
def tcpSndBuf : Nat := 16 * tcpMss

/-- `TCP_SND_QUEUELEN`. -/
def tcpSndQueuelen : Nat := (4 * tcpSndBuf + (tcpMss - 1)) / tcpMss

/-- `TCP_SNDQUEUELEN_OVERFLOW`. -/
def tcpSndQueuelenOverflow : Nat := 0xffff - 3

/-- `TCP_WND_UPDATE_THRESHOLD`. -/
def tcpWndUpdateThreshold : Nat := min (tcpWnd / 4) (tcpMss * 4)

/-- `TCP_OVERSIZE`. -/
def tcpOversize : Nat := tcpMss

/-- `INITIAL_MSS`. -/
def initialMss : Nat := if 536 < tcpMss then 536 else tcpMss

/-- `TCP_MAXRTX`. -/
def tcpMaxrtx : Nat := 12

/-- `TCP_SLOW_INTERVAL`, in milliseconds. -/
def tcpSlowInterval : Nat := 500

/-- `TCP_FIN_WAIT_TIMEOUT`, in milliseconds. -/
def tcpFinWaitTimeout : Nat := 20000

/-- `TCP_SYN_RCVD_TIMEOUT`, in milliseconds. -/
def tcpSynRcvdTimeout : Nat := 20000

/-- `TCP_MSL`, in milliseconds. -/
def tcpMsl : Nat := 60000

/-- `TCP_OOSEQ_TIMEOUT`, in retransmission time-outs. -/
def tcpOoseqTimeout : Nat := 6

/-- `TCP_PRIO_NORMAL`. -/
def tcpPrioNormal : Nat := 64

/-- `TCP_PRIO_MAX`. -/
def tcpPrioMax : Nat := 127

/-- `tcp_backoff`. -/
def tcpBackoff : List Nat := [1, 2, 3, 4, 5, 6, 7, 7, 7, 7, 7, 7, 7]

/-- `tcp_persist_backoff`. -/
def tcpPersistBackoff : List Nat := [3, 6, 12, 24, 48, 96, 120]

/-- `LWIP_TCP_CALC_INITIAL_CWND`. -/
def calcInitialCwnd (mss : Nat) : Nat :=
  min (4 * mss) (max (2 * mss) 4380)

/-- The `mtu` that `NetStack::_new` sets. -/
def netifMtu : Nat := 1500

/-- A sequence number. -/
abbrev SeqNo : Type := BitVec 32

/-- A byte string. -/
abbrev Bytes : Type := List UInt8

/-- An IPv4 or IPv6 address. -/
inductive IpAddr where
  | v4 (addr : BitVec 32)
  | v6 (addr : BitVec 128)
  deriving DecidableEq, Repr

namespace IpAddr

/-- `ip_addr_isany`. -/
def isAny : IpAddr → Bool
  | v4 addr => addr == 0
  | v6 addr => addr == 0

/-- `ip_addr_isbroadcast` on a netif without `NETIF_FLAG_BROADCAST`. -/
def isBroadcast : IpAddr → Bool
  | v4 addr => addr == 0 || addr == BitVec.allOnes 32
  | v6 _ => false

/-- `ip_addr_ismulticast`. -/
def isMulticast : IpAddr → Bool
  | v4 addr => addr &&& 0xf0000000 == 0xe0000000
  | v6 addr => addr >>> 120 == 0xff

end IpAddr

/-- A Rust `SocketAddr`. -/
structure SocketAddr where
  ip : IpAddr
  port : BitVec 16
  deriving DecidableEq, Repr

/-- The states of a `tcp_pcb`. `LISTEN` belongs to `tcp_pcb_listen`, and
`SYN_SENT` is entered by `tcp_connect` alone, which the crate never calls. -/
inductive TcpState where
  | closed
  | synRcvd
  | established
  | finWait1
  | finWait2
  | closeWait
  | closing
  | lastAck
  | timeWait
  deriving DecidableEq, Repr

namespace TcpState

/-- The value of the state in `enum tcp_state`. -/
def code : TcpState → Nat
  | closed => 0
  | synRcvd => 3
  | established => 4
  | finWait1 => 5
  | finWait2 => 6
  | closeWait => 7
  | closing => 8
  | lastAck => 9
  | timeWait => 10

end TcpState

/-- The results an lwIP function returns, other than `ERR_OK` the ones that
some caller of the modelled functions can see. -/
inductive Err where
  | ok
  | mem
  | buf
  | rte
  | val
  | inprogress
  | conn
  | iface
  | abrt
  | rst
  | clsd
  | arg
  deriving DecidableEq, Repr

/-- The flag bits of a TCP header. -/
structure HdrFlags where
  fin : Bool := false
  syn : Bool := false
  rst : Bool := false
  psh : Bool := false
  ack : Bool := false
  deriving DecidableEq, Repr

/-- `TCPH_SET_FLAG`: the flags are or-ed into the header. -/
def HdrFlags.set (flags more : HdrFlags) : HdrFlags where
  fin := flags.fin || more.fin
  syn := flags.syn || more.syn
  rst := flags.rst || more.rst
  psh := flags.psh || more.psh
  ack := flags.ack || more.ack

/-- A TCP segment on the wire with the addresses of its IP header, and its
checksum as the header holds it. -/
structure Packet where
  srcIp : IpAddr
  destIp : IpAddr
  src : BitVec 16
  dest : BitVec 16
  seqno : SeqNo
  ackno : SeqNo
  flags : HdrFlags
  wnd : BitVec 16
  options : Bytes
  payload : Bytes
  chksum : BitVec 16 := 0
  deriving DecidableEq, Repr

/--
A packet as `tcp_input` finds it: `tot_len` and the header length have 16 and
4 bits, so 65515 bytes of data and 40 bytes of options are the most there can
be.
-/
structure InPacket extends Packet where
  payload_le : payload.length ≤ 65515
  options_le : options.length ≤ 40

/-- A chain of packet buffers, headers left out. -/
abbrev Pbuf : Type := List Bytes

namespace Pbuf

/-- The data of the chain. -/
def data (p : Pbuf) : Bytes :=
  p.flatten

/-- `tot_len`, the headers left out. -/
def totLen (p : Pbuf) : Nat :=
  p.data.length

/-- `pbuf_clen`. -/
def clen (p : Pbuf) : Nat :=
  p.length

/-- `pbuf_cat`. -/
def cat (head tail : Pbuf) : Pbuf :=
  head ++ tail

/-- `pbuf_realloc`: shrink the chain to `newLen` bytes of data. -/
def realloc : Pbuf → Nat → Pbuf
  | [], _ => []
  | buffer :: rest, newLen =>
      if buffer.length < newLen then
        buffer :: realloc rest (newLen - buffer.length)
      else
        [buffer.take newLen]

/-- Drop `off` bytes from the front: the buffers passed over stay, empty. -/
def removeFront : Pbuf → Nat → Pbuf
  | [], _ => []
  | buffer :: rest, off =>
      if buffer.length < off then
        [] :: removeFront rest (off - buffer.length)
      else
        buffer.drop off :: rest

end Pbuf

namespace InetChksum

/-- `chksum` and `chksum_swapped` of `struct tcp_seg`. -/
structure SegChksum where
  chksum : BitVec 16 := 0
  chksumSwapped : Bool := false
  deriving DecidableEq, Repr

end InetChksum

/-- `struct tcp_seg`, with the header fields that are used while it is queued. -/
structure TcpSeg where
  p : Pbuf
  len : Nat
  oversizeLeft : Nat := 0
  optsMss : Bool := false
  seqno : SeqNo
  hdr : HdrFlags
  chksum : InetChksum.SegChksum := {}
  deriving DecidableEq, Repr

namespace TcpSeg

/-- `TCP_TCPLEN`. -/
def tcplen (seg : TcpSeg) : Nat :=
  seg.len + if seg.hdr.fin || seg.hdr.syn then 1 else 0

/-- `LWIP_TCP_OPT_LENGTH_SEGMENT`. -/
def optLength (seg : TcpSeg) : Nat :=
  if seg.optsMss then 4 else 0

/-- The sequence number just after the segment. -/
def endSeq (seg : TcpSeg) : SeqNo :=
  seg.seqno + BitVec.ofNat 32 seg.tcplen

end TcpSeg

/-- The bits of `pcb->flags`. -/
structure PcbFlags where
  ackDelay : Bool := false
  ackNow : Bool := false
  infr : Bool := false
  closepend : Bool := false
  rxclosed : Bool := false
  fin : Bool := false
  nodelay : Bool := false
  naglememerr : Bool := false
  rto : Bool := false
  deriving DecidableEq, Repr

/-- What `callback_arg` points to. -/
inductive CallbackArg where
  | null
  | listener (id : Nat)
  | stream (id : Nat)
  deriving DecidableEq, Repr

/-- The function stored in `pcb->recv`. -/
inductive RecvFn where
  | none
  | tcpRecvNull
  | tcpRecvCb
  deriving DecidableEq, Repr

/-- The connection's addresses. -/
structure EndpointVars where
  localIp : IpAddr
  localPort : BitVec 16
  remoteIp : IpAddr
  remotePort : BitVec 16
  deriving DecidableEq, Repr

/-- What the application has registered. `sent`, `errf` and `poll` say
whether the stream's callback is installed. -/
structure AppVars where
  callbackArg : CallbackArg := .null
  listener : Option Nat := none
  recv : RecvFn := .tcpRecvNull
  sent : Bool := false
  errf : Bool := false
  poll : Bool := false
  pollinterval : Nat := 0
  deriving DecidableEq, Repr

/-- Receiver variables. -/
structure RcvVars where
  rcvNxt : SeqNo := 0
  rcvWnd : Nat := tcpWnd
  ooseq : List TcpSeg := []
  refusedData : Option (Pbuf × Bool) := none
  deriving DecidableEq, Repr

/-- The window last announced. -/
structure AnnVars where
  rcvAnnWnd : Nat := tcpWnd
  rcvAnnRightEdge : SeqNo := 0
  deriving DecidableEq, Repr

/-- Sender variables that output leaves alone. -/
structure SndVars where
  mss : Nat := initialMss
  lastack : SeqNo := 0
  sndWl1 : SeqNo := 0
  sndWl2 : SeqNo := 0
  sndLbb : SeqNo := 0
  sndWnd : Nat := 0
  sndWndMax : Nat := 0
  sndBuf : Nat := tcpSndBuf
  sndQueuelen : Nat := 0
  deriving DecidableEq, Repr

/-- The queues of the sender and how far it has sent. -/
structure QueueVars where
  sndNxt : SeqNo := 0
  unsentOversize : Nat := 0
  unsent : List TcpSeg := []
  unacked : List TcpSeg := []
  deriving DecidableEq, Repr

/-- Retransmission timer, round-trip estimation and congestion control. -/
structure CongVars where
  rtime : Int := -1
  rttest : BitVec 32 := 0
  rtseq : SeqNo := 0
  sa : Int := 0
  sv : Int := 3000 / tcpSlowInterval
  rto : Int := 3000 / tcpSlowInterval
  nrtx : Nat := 0
  dupacks : Nat := 0
  cwnd : Nat := 1
  ssthresh : Nat := tcpSndBuf
  rtoEnd : SeqNo := 0
  bytesAcked : Nat := 0
  deriving DecidableEq, Repr

/-- The persist timer. -/
structure PersistVars where
  persistCnt : Nat := 0
  persistBackoff : Nat := 0
  persistProbe : Nat := 0
  deriving DecidableEq, Repr

/-- `struct tcp_pcb`. The defaults are what `tcp_alloc` writes. -/
structure TcpPcb extends
    EndpointVars, AppVars, RcvVars, AnnVars, SndVars, QueueVars, CongVars,
    PersistVars where
  state : TcpState := .closed
  prio : Nat := tcpPrioNormal
  flags : PcbFlags := {}
  polltmr : Nat := 0
  tmr : BitVec 32
  deriving DecidableEq, Repr

/-- A `TcpStream` together with the `TcpStreamContextInner` it owns. -/
structure TcpStream where
  srcAddr : SocketAddr
  destAddr : SocketAddr
  pcb : Nat
  writeBuf : Bytes := []
  isEof : Bool := false
  readTx : Bool := true
  readRx : List Bytes := []
  errored : Bool := false
  closed : Bool := false
  writeWaker : Bool := false
  deriving DecidableEq, Repr

/-- The assertions of the TCP core that the model checks, and the use of a
callback argument whose target is gone. -/
inductive Fault where
  | insaneOffset
  | pbufTooShort
  | notTrimmedToRcvWnd
  | notTrimmedToOoseq
  | tcplenRcvWnd
  | ooseqTcplenRcvWnd
  | newRcvAnnWnd
  | queuelenClen
  | receiveQueueLength
  | receiveWrongState
  | writeQueueNonEmpty
  | writeQueueEmpty
  | writeQueueLength
  | mssLocalTooSmall
  | oversizeMismatch
  | oversizeMismatchNull
  | oversizeSpace
  | oversizeLen
  | oversizeLeft
  | concatEmpty
  | splitLengthZero
  | splitMss
  | splitUsegLen
  | splitPayload
  | enqueueFlagsLength
  | rstNotExpected
  | persistInFlight
  | persistEmpty
  | refusedData
  | closeUnaccepted
  | segmentsLeaking
  | danglingArg
  | danglingPcb
  | bindNull
  deriving DecidableEq, Repr

/-- The part of the source an assertion guards. -/
inductive FaultOrigin where
  | receiveData
  | receiveAck
  | write
  | split
  | enqueue
  | output
  | persist
  | refused
  | removal
  | callback
  | handle
  | binding
  deriving DecidableEq, Repr

/-- Where an assertion stands. -/
def Fault.origin : Fault → FaultOrigin
  | insaneOffset | pbufTooShort | notTrimmedToRcvWnd | notTrimmedToOoseq
  | tcplenRcvWnd | ooseqTcplenRcvWnd | newRcvAnnWnd => .receiveData
  | queuelenClen | receiveQueueLength | receiveWrongState => .receiveAck
  | writeQueueNonEmpty | writeQueueEmpty | writeQueueLength
  | mssLocalTooSmall | oversizeMismatch | oversizeMismatchNull
  | oversizeSpace | oversizeLen | oversizeLeft | concatEmpty => .write
  | splitLengthZero | splitMss | splitUsegLen | splitPayload => .split
  | enqueueFlagsLength => .enqueue
  | rstNotExpected => .output
  | persistInFlight | persistEmpty => .persist
  | refusedData => .refused
  | segmentsLeaking => .removal
  | closeUnaccepted | danglingArg => .callback
  | danglingPcb => .handle
  | bindNull => .binding

/-- `lwip_htons`, and `PP_HTONS` of a constant, on a little-endian host. -/
def lwipHtons (n : BitVec 16) : BitVec 16 :=
  (n &&& 0x00ff) <<< 8 ||| (n &&& 0xff00) >>> 8

/-- An MTU for IPv6 destinations: 0 until a router advertisement sets one,
which then is at least the IPv6 minimum. -/
def Mtu6 : Type :=
  { mtu : Nat // mtu = 0 ∨ 1280 ≤ mtu }

/-- No router advertisement has been heard. -/
def Mtu6.unset : Mtu6 :=
  ⟨0, .inl rfl⟩

/--
What surrounds the pcb at address `pcbAddr`: the tick counter, the outcomes
that the next memory allocations, the next `ip_output_if` calls and the next
calls of `poll_recv` will have (an exhausted list means success), the packets
emitted so far, the listeners that are alive, the id the next stream gets, and
the stream that `callback_arg` points to.
-/
structure World where
  tcpTicks : BitVec 32
  pcbAddr : Nat := 0
  mtu6 : Mtu6 := .unset
  allocs : List Bool := []
  outputs : List Err := []
  recvs : List Bool := []
  sent : List Packet := []
  listeners : List Nat := []
  nextStream : Nat := 0
  accepted : List (Nat × Nat) := []
  stream : Option TcpStream := none
  woken : Bool := false

/-- The monad of the modelled functions. -/
abbrev Lwip (α : Type) : Type :=
  FaultM Fault World α

end NetstackLwip

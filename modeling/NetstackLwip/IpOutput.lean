import NetstackLwip.TcpTypes

namespace NetstackLwip

/-!
# IP output

`ip4_output_if_opt_src`, `ip6_output_if_src`, the two fragmentation loops and
the loopback queue, on the one interface there is: the loopback interface of
`netif_init`, whose output functions and `mtu` `NetStack::_new` replaces while
`netif_add` has copied an `mtu6` of 0. The destination cache of `nd6` stays
empty, since only the Ethernet output path fills it, so the path MTU of every
IPv6 destination is `mtu6`. Nothing calls `netif_poll`: what is put into the
loopback queue stays there.
-/

/-! ## Bytes and checksums -/

/-- A 16-bit word in network byte order. -/
def wordBytes (word : BitVec 16) : Bytes :=
  [.ofBitVec (word.extractLsb' 8 8), .ofBitVec (word.extractLsb' 0 8)]

/-- A 32-bit word in network byte order. -/
def longBytes (long : BitVec 32) : Bytes :=
  wordBytes (long.extractLsb' 16 16) ++ wordBytes (long.extractLsb' 0 16)

/-- A 128-bit address in network byte order. -/
def addrBytes (addr : BitVec 128) : Bytes :=
  longBytes (addr.extractLsb' 96 32) ++ longBytes (addr.extractLsb' 64 32) ++
    (longBytes (addr.extractLsb' 32 32) ++ longBytes (addr.extractLsb' 0 32))

@[simp]
theorem wordBytes_length (word : BitVec 16) : (wordBytes word).length = 2 :=
  rfl

@[simp]
theorem longBytes_length (long : BitVec 32) : (longBytes long).length = 4 :=
  rfl

@[simp]
theorem addrBytes_length (addr : BitVec 128) : (addrBytes addr).length = 16 :=
  rfl

/-- `lwip_standard_chksum` before it is folded: the sum of the 16-bit words,
a last odd byte being the upper half of its word. -/
def wordSum : Bytes → Nat
  | [] => 0
  | [high] => high.toNat * 256
  | high :: low :: rest => high.toNat * 256 + low.toNat + wordSum rest

/-- `FOLD_U32T`. -/
def foldU32T (sum : Nat) : Nat :=
  sum / 65536 + sum % 65536

/-- The complement of the folded sum, as the checksum functions return it. -/
def chksumOfSum (sum : Nat) : BitVec 16 :=
  ~~~ BitVec.ofNat 16 (foldU32T (foldU32T sum))

/-- `inet_chksum`. -/
def inetChksum (bytes : Bytes) : BitVec 16 :=
  chksumOfSum (wordSum bytes)

/-! ## Packets -/

/-- `struct ip_hdr` without options, its checksum left out; `_offset` is the
fragment offset in units of 8 bytes and the flag `IP_MF`. -/
structure Ip4Hdr where
  tos : BitVec 8
  len : BitVec 16
  id : BitVec 16
  offset : BitVec 13
  mf : Bool
  ttl : BitVec 8
  proto : BitVec 8
  src : BitVec 32
  dest : BitVec 32
  deriving DecidableEq, Repr

namespace Ip4Hdr

/-- The header with `chksum` in its checksum field. -/
def bytesWith (hdr : Ip4Hdr) (chksum : BitVec 16) : Bytes :=
  [0x45, .ofBitVec hdr.tos] ++ wordBytes hdr.len ++ wordBytes hdr.id ++
    wordBytes ((if hdr.mf then 0x2000 else 0) ||| hdr.offset.setWidth 16) ++
    [.ofBitVec hdr.ttl, .ofBitVec hdr.proto] ++ wordBytes chksum ++
    longBytes hdr.src ++ longBytes hdr.dest

/-- The header as it is sent: the checksum is taken with its own field zero. -/
def bytes (hdr : Ip4Hdr) : Bytes :=
  hdr.bytesWith (inetChksum (hdr.bytesWith 0))

end Ip4Hdr

/-- `struct ip6_hdr`. -/
structure Ip6Hdr where
  tc : BitVec 8
  plen : BitVec 16
  nexth : BitVec 8
  hoplim : BitVec 8
  src : BitVec 128
  dest : BitVec 128
  deriving DecidableEq, Repr

/-- `IP6H_VTCFL_SET` and the other fields, on the wire. -/
def Ip6Hdr.bytes (hdr : Ip6Hdr) : Bytes :=
  longBytes (0x60000000 ||| hdr.tc.setWidth 32 <<< 20) ++
    wordBytes hdr.plen ++ [.ofBitVec hdr.nexth, .ofBitVec hdr.hoplim] ++
    addrBytes hdr.src ++ addrBytes hdr.dest

/-- `struct ip6_frag_hdr`, with the offset in units of 8 bytes. -/
structure Ip6FragHdr where
  nexth : BitVec 8
  offset : BitVec 13
  more : Bool
  identification : BitVec 32
  deriving DecidableEq, Repr

/-- The fragment header on the wire. -/
def Ip6FragHdr.bytes (hdr : Ip6FragHdr) : Bytes :=
  [UInt8.ofBitVec hdr.nexth, 0] ++
    wordBytes (hdr.offset.setWidth 16 <<< 3 ||| if hdr.more then 1 else 0) ++
    longBytes hdr.identification

/-- A packet that the IP layer hands on. -/
inductive IpPacket where
  | v4 (hdr : Ip4Hdr) (payload : Bytes)
  | v6 (hdr : Ip6Hdr) (frag : Option Ip6FragHdr) (payload : Bytes)
  deriving DecidableEq, Repr

/-- The packet on the wire. -/
def IpPacket.bytes : IpPacket → Bytes
  | .v4 hdr payload => hdr.bytes ++ payload
  | .v6 hdr frag payload =>
      hdr.bytes ++ (frag.elim [] Ip6FragHdr.bytes ++ payload)

@[simp]
theorem IpPacket.bytes_v4_length
    (hdr : Ip4Hdr)
    (payload : Bytes) :
    (IpPacket.v4 hdr payload).bytes.length = 20 + payload.length := by
  simp [bytes, Ip4Hdr.bytes, Ip4Hdr.bytesWith]
  omega

@[simp]
theorem IpPacket.bytes_v6_length
    (hdr : Ip6Hdr)
    (frag : Option Ip6FragHdr)
    (payload : Bytes) :
    (IpPacket.v6 hdr frag payload).bytes.length =
      40 + ((if frag.isSome then 8 else 0) + payload.length) := by
  cases frag <;> simp [bytes, Ip6Hdr.bytes, Ip6FragHdr.bytes] <;> omega

/-! ## The interface -/

/-- `IP_HLEN`. -/
def ipHlen : Nat := 20

/-- `IP6_HLEN`. -/
def ip6Hlen : Nat := 40

/-- `IP6_FRAG_HLEN`. -/
def ip6FragHlen : Nat := 8

/-- `IP_PROTO_UDP`. -/
def ipProtoUdp : BitVec 8 := 17

/-- `IP_PROTO_TCP`. -/
def ipProtoTcp : BitVec 8 := 6

/-- `IP6_NEXTH_FRAGMENT`. -/
def ip6NexthFragment : BitVec 8 := 44

/-- `IP_DEFAULT_TTL`. -/
def ipDefaultTtl : BitVec 8 := 64

/-- The IPv4 address of the loopback interface. -/
def loopIpaddr : BitVec 32 := 0x7f000001

/-- The IPv6 address of the loopback interface. -/
def loopIp6addr : BitVec 128 := 1

/--
What IP output reads and writes: whether a `NetStack` is alive, the interface's
`mtu6` and whether its IPv6 address counts as valid, the two packet counters,
the outcomes of the next memory allocations (an exhausted list means success),
and the packets handed to `NetStack::output` and put into the loopback queue.
-/
structure IpStack where
  live : Bool := true
  mtu6 : Mtu6 := .unset
  ip6Valid : Bool := true
  ipId : BitVec 16 := 0
  identification : BitVec 32 := 0
  allocs : List Bool := []
  handed : List IpPacket := []
  looped : List IpPacket := []

namespace IpStack

/-- The outcome of the next memory allocation. -/
def allocate (stack : IpStack) : Bool × IpStack :=
  match stack.allocs with
  | [] => (true, stack)
  | outcome :: rest => (outcome, { stack with allocs := rest })

end IpStack

/-- `output` of `output.rs`, which `output_ip4` and `output_ip6` both are. -/
def netifOutput (packet : IpPacket) (stack : IpStack) : Err × IpStack :=
  if stack.live then
    (.ok, { stack with handed := stack.handed ++ [packet] })
  else
    (.abrt, stack)

/-- `netif_loop_output`. -/
def netifLoopOutput (packet : IpPacket) (stack : IpStack) : Err × IpStack :=
  let (allocated, stack) := stack.allocate
  if allocated then
    (.ok, { stack with looped := stack.looped ++ [packet] })
  else
    (.mem, stack)

/-! ## Fragmentation -/

/-- `nfb` of `ip4_frag`: the number of fragment blocks. -/
def ip4Nfb : Nat := (netifMtu - ipHlen) / 8

/--
The loop of `ip4_frag` over the bytes that are left, `ofo` blocks into the
datagram. The buffers of one fragment have one allocation outcome; what the
output function returns is ignored.
-/
def ip4FragLoop
    (hdr : Ip4Hdr)
    (left : Bytes)
    (ofo : Nat)
    (stack : IpStack) : Err × IpStack :=
  if _ : left.length = 0 then
    (.ok, stack)
  else
    let fragsize := min left.length (ip4Nfb * 8)
    let (allocated, stack) := stack.allocate
    if allocated then
      let last := left.length ≤ netifMtu - ipHlen
      let fragment :=
        .v4
          { hdr with
            offset := BitVec.ofNat 13 ofo
            mf := !last
            len := BitVec.ofNat 16 (fragsize + ipHlen) }
          (left.take fragsize)
      ip4FragLoop hdr (left.drop fragsize) (ofo + ip4Nfb)
        (netifOutput fragment stack).2
    else
      (.mem, stack)
termination_by left.length
decreasing_by
  simp only [ip4Nfb, netifMtu, ipHlen, List.length_drop]
  omega

/-- `ip4_frag`. -/
def ip4Frag (hdr : Ip4Hdr) (payload : Bytes) (stack : IpStack) :
    Err × IpStack :=
  ip4FragLoop hdr payload 0 stack

/-- `nfb` of `ip6_frag`: the bytes a fragment has room for. -/
def ip6Nfb (mtu : Nat) : Nat :=
  (mtu - (ip6Hlen + ip6FragHlen)) / 8 * 8

/-- The loop of `ip6_frag` over the bytes that are left. -/
def ip6FragLoop
    (nfb : Nat)
    (positive : 0 < nfb)
    (hdr : Ip6Hdr)
    (left : Bytes)
    (fragmentOffset : Nat)
    (stack : IpStack) : Err × IpStack :=
  if _ : left.length = 0 then
    (.ok, stack)
  else
    let last := left.length ≤ nfb
    let cop := if last then left.length else nfb
    let (allocated, stack) := stack.allocate
    if allocated then
      let fragment :=
        .v6
          { hdr with
            nexth := ip6NexthFragment
            plen := BitVec.ofNat 16 (cop + ip6FragHlen) }
          (some
            { nexth := hdr.nexth
              offset := BitVec.ofNat 13 (fragmentOffset / 8)
              more := !last
              identification := stack.identification })
          (left.take cop)
      ip6FragLoop nfb positive hdr (left.drop cop) (fragmentOffset + cop)
        (netifOutput fragment stack).2
    else
      (.mem, stack)
termination_by left.length
decreasing_by
  simp only [List.length_drop]
  split <;> omega

/-- A path MTU that is not 0 leaves room for a block. -/
theorem Mtu6.ip6Nfb_pos
    (mtu6 : Mtu6)
    (nonZero : mtu6.val ≠ 0) :
    0 < ip6Nfb mtu6.val := by
  have large : 1280 ≤ mtu6.val :=
    mtu6.property.resolve_left nonZero
  simp only [ip6Nfb, ip6Hlen, ip6FragHlen]
  omega

/-- `ip6_frag`. -/
def ip6Frag
    (hdr : Ip6Hdr)
    (payload : Bytes)
    (stack : IpStack)
    (nonZero : stack.mtu6.val ≠ 0) : Err × IpStack :=
  ip6FragLoop (ip6Nfb stack.mtu6.val) (stack.mtu6.ip6Nfb_pos nonZero) hdr
    payload 0 { stack with identification := stack.identification + 1 }

/-! ## Output -/

/-- `pbuf_add_header`, whose one failure here is that `tot_len` would wrap. -/
def addHeaderFails (hlen : Nat) (payload : Bytes) : Bool :=
  decide ((hlen + payload.length) % 65536 < hlen)

/-- The header that `ip4_output_if_opt_src` puts before `payload`. -/
def ip4OutputHdr
    (payload : Bytes)
    (src dest : BitVec 32)
    (ttl tos proto : BitVec 8)
    (id : BitVec 16) : Ip4Hdr where
  tos := tos
  len := BitVec.ofNat 16 (payload.length + ipHlen)
  id := id
  offset := 0
  mf := false
  ttl := ttl
  proto := proto
  src := src
  dest := dest

/-- The header that `ip6_output_if_src` puts before `payload`. -/
def ip6OutputHdr
    (payload : Bytes)
    (src dest : BitVec 128)
    (hl tc nexth : BitVec 8) : Ip6Hdr where
  tc := tc
  plen := BitVec.ofNat 16 payload.length
  nexth := nexth
  hoplim := hl
  src := src
  dest := dest

/-- `ip4_output_if_opt_src`, without options. -/
def ip4OutputIfSrc
    (payload : Bytes)
    (src dest : BitVec 32)
    (ttl tos proto : BitVec 8)
    (stack : IpStack) : Err × IpStack :=
  if addHeaderFails ipHlen payload then
    (.buf, stack)
  else
    let hdr := ip4OutputHdr payload src dest ttl tos proto stack.ipId
    let stack := { stack with ipId := stack.ipId + 1 }
    if dest = loopIpaddr then
      netifLoopOutput (.v4 hdr payload) stack
    else if netifMtu < payload.length + ipHlen then
      ip4Frag hdr payload stack
    else
      netifOutput (.v4 hdr payload) stack

/-- `ip6_output_if_src`. -/
def ip6OutputIfSrc
    (payload : Bytes)
    (src dest : BitVec 128)
    (hl tc nexth : BitVec 8)
    (stack : IpStack) : Err × IpStack :=
  if addHeaderFails ip6Hlen payload then
    (.buf, stack)
  else
    let hdr := ip6OutputHdr payload src dest hl tc nexth
    if stack.ip6Valid ∧ dest = loopIp6addr then
      netifLoopOutput (.v6 hdr none payload) stack
    else if large :
        stack.mtu6.val ≠ 0 ∧ stack.mtu6.val < payload.length + ip6Hlen then
      ip6Frag hdr payload stack large.1
    else
      netifOutput (.v6 hdr none payload) stack

/--
`ip_addr_t`: the type and the union, whose first 32 bits are an IPv4 address.
-/
structure IpAddrT where
  isV6 : Bool
  addr : BitVec 128
  deriving DecidableEq, Repr

namespace IpAddrT

/-- `ip_2_ip4`. -/
def ip4 (ip : IpAddrT) : BitVec 32 :=
  ip.addr.extractLsb' 96 32

/-- `ip_2_ip6`. -/
def ip6 (ip : IpAddrT) : BitVec 128 :=
  ip.addr

end IpAddrT

/-- `to_ip_addr_t`; `stale` is what the rest of the union holds when only its
IPv4 part is written. -/
def toIpAddrT (stale : BitVec 96) : IpAddr → IpAddrT
  | .v4 addr => ⟨false, addr ++ stale⟩
  | .v6 addr => ⟨true, addr⟩

/-- `ip_output_if_src`: the destination's type decides. -/
def ipOutputIfSrc
    (payload : Bytes)
    (src dest : IpAddrT)
    (ttl tos proto : BitVec 8)
    (stack : IpStack) : Err × IpStack :=
  if dest.isV6 then
    ip6OutputIfSrc payload src.ip6 dest.ip6 ttl tos proto stack
  else
    ip4OutputIfSrc payload src.ip4 dest.ip4 ttl tos proto stack

/-- `ip6_select_source_address` on the loopback interface, which has one
address. -/
def ip6SelectSourceAddress (stack : IpStack) : Option (BitVec 128) :=
  if stack.ip6Valid then some loopIp6addr else none

/-- `ip_output_if`: the interface's address stands in for the any-address. -/
def IpStack.ipOutputIf
    (payload : Bytes)
    (src dest : IpAddrT)
    (ttl tos proto : BitVec 8)
    (stack : IpStack) : Err × IpStack :=
  if dest.isV6 then
    if src.ip6 = 0 then
      match ip6SelectSourceAddress stack with
      | none => (.rte, stack)
      | some src => ip6OutputIfSrc payload src dest.ip6 ttl tos proto stack
    else
      ip6OutputIfSrc payload src.ip6 dest.ip6 ttl tos proto stack
  else
    ip4OutputIfSrc payload (if src.ip4 = 0 then loopIpaddr else src.ip4)
      dest.ip4 ttl tos proto stack

/-! ## UDP output -/

/-- `struct udp_hdr`. -/
structure UdpHdr where
  src : BitVec 16
  dest : BitVec 16
  len : BitVec 16
  chksum : BitVec 16
  deriving DecidableEq, Repr

/-- The UDP header on the wire. -/
def UdpHdr.bytes (hdr : UdpHdr) : Bytes :=
  wordBytes hdr.src ++ wordBytes hdr.dest ++ wordBytes hdr.len ++
    wordBytes hdr.chksum

@[simp]
theorem UdpHdr.bytes_length (hdr : UdpHdr) : hdr.bytes.length = 8 :=
  rfl

/-- `UDP_HLEN`. -/
def udpHlen : Nat := 8

/-- `ip_chksum_pseudo`. -/
def ipChksumPseudo
    (datagram : Bytes)
    (proto : BitVec 8)
    (src dest : IpAddrT) : BitVec 16 :=
  let addresses :=
    if dest.isV6 then
      wordSum (addrBytes src.ip6) + wordSum (addrBytes dest.ip6)
    else
      wordSum (longBytes src.ip4) + wordSum (longBytes dest.ip4)
  chksumOfSum (addresses + wordSum datagram + proto.toNat + datagram.length)

/-- The checksum that `udp_sendto_if_src_chksum` writes: 0 means none, so it
becomes `0xffff`. -/
def udpChksum (datagram : Bytes) (src dest : IpAddrT) : BitVec 16 :=
  let chksum := ipChksumPseudo datagram ipProtoUdp src dest
  if chksum = 0 then 0xffff else chksum

/-- The UDP header before `data`, with its checksum. -/
def udpOutputHdr
    (data : Bytes)
    (dest : IpAddrT)
    (destPort : BitVec 16)
    (src : IpAddrT)
    (srcPort : BitVec 16) : UdpHdr :=
  let hdr : UdpHdr :=
    { src := srcPort
      dest := destPort
      len := BitVec.ofNat 16 (data.length + udpHlen)
      chksum := 0 }
  { hdr with chksum := udpChksum (UdpHdr.bytes hdr ++ data) src dest }

/--
`udp_sendto_if_src_chksum`, for a bound pcb whose local address is of the type
that matches both families, with time to live `IP_DEFAULT_TTL` and no flags.
-/
def udpSendtoIfSrcChksum
    (data : Bytes)
    (dest : IpAddrT)
    (destPort : BitVec 16)
    (src : IpAddrT)
    (srcPort : BitVec 16)
    (stack : IpStack) : Err × IpStack :=
  if (data.length + udpHlen) % 65536 < data.length then
    (.mem, stack)
  else
    -- `data` is a PBUF_REF, so its header always needs a buffer of its own
    let (allocated, stack) := stack.allocate
    if allocated then
      ipOutputIfSrc ((udpOutputHdr data dest destPort src srcPort).bytes ++ data)
        src dest ipDefaultTtl 0 ipProtoUdp stack
    else
      (.mem, stack)

/-- `send_udp`: the length of the slice is narrowed to 16 bits. -/
def sendUdp
    (src dest : SocketAddr)
    (stale : BitVec 96)
    (data : Bytes)
    (stack : IpStack) : Err × IpStack :=
  udpSendtoIfSrcChksum (data.take (data.length % 65536))
    (toIpAddrT stale dest.ip) dest.port
    (toIpAddrT stale src.ip) src.port stack

/-! ## TCP segments on the wire -/

/-- The flag bits of a TCP header. -/
def HdrFlags.bits (flags : HdrFlags) : BitVec 16 :=
  (if flags.fin then 1 else 0) ||| (if flags.syn then 2 else 0) |||
    (if flags.rst then 4 else 0) ||| (if flags.psh then 8 else 0) |||
    (if flags.ack then 16 else 0)

/-- The TCP header, options and data of a packet, with `chksum` in the
checksum field. -/
def Packet.segmentWith (packet : Packet) (chksum : BitVec 16) : Bytes :=
  wordBytes packet.src ++ wordBytes packet.dest ++ longBytes packet.seqno ++
    longBytes packet.ackno ++
    wordBytes (BitVec.ofNat 16 ((5 + packet.options.length / 4) * 4096) |||
      packet.flags.bits) ++
    wordBytes packet.wnd ++ wordBytes chksum ++ wordBytes 0 ++
    packet.options ++ packet.payload

/-- The segment with the checksum of its bytes. -/
def Packet.segment (packet : Packet) : Bytes :=
  packet.segmentWith
    (ipChksumPseudo (packet.segmentWith 0) ipProtoTcp
      (toIpAddrT 0 packet.srcIp) (toIpAddrT 0 packet.destIp))

theorem Packet.segmentWith_length
    (packet : Packet)
    (chksum : BitVec 16) :
    (packet.segmentWith chksum).length =
      20 + packet.options.length + packet.payload.length := by
  simp [segmentWith]
  omega

@[simp]
theorem Packet.segment_length
    (packet : Packet) :
    packet.segment.length =
      20 + packet.options.length + packet.payload.length :=
  packet.segmentWith_length _

/-- `ip_output_if` for one TCP segment, with the checksum that is stored in its
header. -/
def tcpIpOutput (packet : Packet) (stack : IpStack) : IpStack :=
  (IpStack.ipOutputIf (packet.segmentWith (lwipHtons packet.chksum))
    (toIpAddrT 0 packet.srcIp) (toIpAddrT 0 packet.destIp) ipDefaultTtl 0
    ipProtoTcp stack).2

end NetstackLwip

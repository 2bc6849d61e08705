import NetstackLwip.FaultMachine
import NetstackLwip.Ip4Reass
import NetstackLwip.Ip6Reass

namespace NetstackLwip

/-!
# IP input

`ip_input`, `ip4_input`, `ip6_input` and `udp_input` on the loopback netif,
which the patched `ip4_input_accept` and `ip6_input_accept` let accept every
unicast destination. Checksums are not verified, no raw pcb exists, and the
ICMPv6 messages sent in answer are left out. What goes to `tcp_input` and
`icmp6_input` is handed back to the caller.
-/

open FaultState FragmentChain

/-! ## Upper layers -/

/-- The protocols that have an input function. -/
inductive UpperProto where
  | udp
  | tcp
  | icmp6
  deriving DecidableEq, Repr

/-- A packet for an upper layer, `payload` at that layer's header. -/
structure Upward where
  proto : UpperProto
  src : IpAddr
  dest : IpAddr
  p : Chain
  deriving DecidableEq, Repr

/-- `udp_recv_cb`: the item goes into the channel if there is room. -/
def udpRecvCb (src dest : SocketAddr) (p : Chain) (socket : UdpSocket) :
    UdpSocket :=
  if socket.queue.length < socket.capacity then
    { socket with queue := socket.queue ++ [(p.data.take p.totLen, src, dest)] }
  else
    socket

/-- `udp_input`: the first of `udp_pcbs` takes every datagram, and the length
in the UDP header is never looked at. -/
def udpInput (src dest : IpAddr) (p : Chain) : IpM Unit := do
  if p.head.len < udpHlen then
    pure ()
  else do
    let srcPort ← readWord p.head 0
    let destPort ← readWord p.head 2
    let input ← get
    match input.sockets with
    | [] => pure ()
    | socket :: rest => do
        let p ← pbufRemoveHeader p udpHlen
        set {
          input with
          sockets := udpRecvCb ⟨src, srcPort⟩ ⟨dest, destPort⟩ p socket ::
            rest }

/-! ## IPv4 -/

/-- `ip4_input` once the packet is whole, `payload` at its IP header. -/
def ip4Deliver (src dest : BitVec 32) (iphdrHlen : Nat) (p : Chain) :
    IpM (Option Upward) := do
  let proto ← readByte p.head 9
  let p ← pbufRemoveHeader p iphdrHlen
  if proto = .ofBitVec ipProtoUdp then
    pure (some ⟨.udp, .v4 src, .v4 dest, p⟩)
  else if proto = .ofBitVec ipProtoTcp then
    pure (some ⟨.tcp, .v4 src, .v4 dest, p⟩)
  else
    pure none

/-- `ip4_input`. -/
def ip4Input (p : PBuf) : IpM (Option Upward) := do
  let vhl ← readByte p 0
  if vhl >>> 4 ≠ 4 then
    pure none
  else do
    let iphdrHlen := (vhl &&& 0xf).toNat * 4
    let iphdrLen ← readWord p 2
    let p := p.realloc iphdrLen.toNat
    if p.len < iphdrHlen ∨ p.len < iphdrLen.toNat ∨ iphdrHlen < ipHlen then
      pure none
    else do
      let dest ← readLong p 16
      let src ← readLong p 12
      if (IpAddr.v4 src).isBroadcast ∨ (IpAddr.v4 src).isMulticast then
        pure none
      else do
        let offset ← readWord p 6
        if offset &&& 0x3fff ≠ 0 then do
          match ← ip4Reass p with
          | none => pure none
          | some p => ip4Deliver src dest iphdrHlen p
        else
          ip4Deliver src dest iphdrHlen { head := p }

/-! ## IPv6 -/

/-- `ip6_addr_isipv4mappedipv6`. -/
def isIpv4Mapped (addr : BitVec 128) : Bool :=
  addr >>> 32 == 0xffff

/-- `ip6_addr_issolicitednode`. -/
def isSolicitedNode (addr : BitVec 128) : Bool :=
  addr.extractLsb' 96 32 == 0xff020000 && addr.extractLsb' 32 32 == 1 &&
    addr.extractLsb' 24 8 == 0xff

/-- `ip6_addr_cmp_solicitednode`. -/
def cmpSolicitedNode (addr own : BitVec 128) : Bool :=
  addr.extractLsb' 96 32 == 0xff020000 && addr.extractLsb' 64 32 == 0 &&
    addr.extractLsb' 32 32 == 1 &&
    addr.extractLsb' 0 32 == 0xff000000 ||| own.extractLsb' 0 32

/-- Whether a destination is one of the netif's. -/
def ip6Accepts (ip6Addrs : List (BitVec 128)) (dest : BitVec 128) : Bool :=
  if (IpAddr.v6 dest).isMulticast then
    dest == 0xff010000000000000000000000000001 ||
      dest == 0xff020000000000000000000000000001 ||
      (isSolicitedNode dest && ip6Addrs.any (cmpSolicitedNode dest))
  else
    true

/-- `icmp6_param_problem`: the message is left out, and with it the distance
from the current header that it carries. -/
def icmp6ParamProblem (_ : PBuf) : IpM Unit :=
  pure ()

/-- What the extension-header loop of `ip6_input` keeps: the packet at its next
header, that header's type, `hlen_tot`, and two fields of the IPv6 header. -/
structure Ip6Walk where
  p : Chain
  nexth : UInt8
  hlenTot : Nat
  plen : BitVec 16
  hdrNexth : UInt8
  deriving DecidableEq, Repr

/-- The loop over the options of a header; the result says whether the packet
is kept. -/
def walkOptions (known : List UInt8) (multicast : Bool) (p : PBuf)
    (hlen : Nat) : Nat → Nat → IpM Bool
  | 0, _ => throw .hang
  | rounds + 1, optOffset =>
      if optOffset < hlen then do
        let type ← readOption p hlen optOffset
        if type = 0 then
          walkOptions known multicast p hlen rounds (optOffset + 1)
        else if type ∈ known ∨ type >>> 6 = 0 then do
          let dlen ← readOption p hlen (optOffset + 1)
          walkOptions known multicast p hlen rounds
            (optOffset + 2 + dlen.toNat)
        else if type >>> 6 = 2 ∨ (type >>> 6 = 3 ∧ !multicast) then do
          icmp6ParamProblem p
          pure false
        else
          pure false
      else
        pure true

/-- A header with options: the option types in `known` are skipped. -/
def optionsHeader (known : List UInt8) (dest : BitVec 128) (walk : Ip6Walk) :
    IpM (Option Ip6Walk) := do
  let p := walk.p
  let ext ← readByte p.head 1
  let hlen := 8 * (1 + ext.toNat)
  if p.head.len < 8 ∨ p.head.len < hlen then
    pure none
  else if
      ← walkOptions known (IpAddr.v6 dest).isMulticast p.head hlen hlen 2 then do
    let nexth ← readByte p.head 0
    let p ← pbufRemoveHeader p hlen
    pure (some {
      walk with p, nexth, hlenTot := (walk.hlenTot + hlen) % 65536 })
  else
    pure none

/-- `IP6_NEXTH_HOPBYHOP` in `ip6_input`. -/
def hopByHopHeader (dest : BitVec 128) (walk : Ip6Walk) :
    IpM (Option Ip6Walk) :=
  optionsHeader [1, 5, 194] dest walk

/-- `IP6_NEXTH_DESTOPTS` in `ip6_input`. -/
def destOptsHeader (dest : BitVec 128) (walk : Ip6Walk) :
    IpM (Option Ip6Walk) :=
  optionsHeader [1, 5, 194, 201] dest walk

/-- `IP6_NEXTH_ROUTING` in `ip6_input`. -/
def routingHeader (walk : Ip6Walk) : IpM (Option Ip6Walk) := do
  let p := walk.p
  let ext ← readByte p.head 1
  let hlen := 8 * (1 + ext.toNat)
  if p.head.len < 8 ∨ p.head.len < hlen then
    pure none
  else do
    let segmentsLeft ← readByte p.head 3
    let type ← readByte p.head 2
    if segmentsLeft ≠ 0 ∧ (ext &&& 1 ≠ 0 ∨ (type ≠ 2 ∧ type ≠ 3)) then do
      icmp6ParamProblem p.head
      pure none
    else do
      let nexth ← readByte p.head 0
      let p ← pbufRemoveHeader p hlen
      pure (some {
        walk with p, nexth, hlenTot := (walk.hlenTot + hlen) % 65536 })

/-- `IP6_NEXTH_FRAGMENT` in `ip6_input`. -/
def fragmentHeader (src dest : BitVec 128) (walk : Ip6Walk) :
    IpM (Option Ip6Walk) := do
  let p := walk.p
  if p.head.len < ip6FragHlen then
    pure none
  else do
    let offset ← readWord p.head 2
    if offset &&& 1 ≠ 0 ∧ walk.plen &&& 7 ≠ 0 then do
      icmp6ParamProblem p.head
      pure none
    else if offset &&& 0xfff9 = 0 then do
      let nexth ← readByte p.head 0
      let p ← pbufRemoveHeader p ip6FragHlen
      pure (some {
        walk with p, nexth, hlenTot := (walk.hlenTot + ip6FragHlen) % 65536 })
    else
      match ← ip6Reass src dest p with
      | none => pure none
      | some p => do
          let plen ← readWord p.head 4
          let nexth ← readByte p.head 6
          modify fun input => {
            input with reassembled := input.reassembled ++ [(plen, nexth)] }
          let p ← pbufRemoveHeader p ip6Hlen
          pure (some { p, nexth, hlenTot := ip6Hlen, plen, hdrNexth := nexth })

/-- The header types that the loop of `ip6_input` processes. -/
def isExtension (nexth : UInt8) : Bool :=
  nexth == 0 || nexth == 60 || nexth == 43 ||
    nexth == .ofBitVec ip6NexthFragment

/-- The `switch` of the extension-header loop. -/
def extensionHeader (src dest : BitVec 128) (walk : Ip6Walk) :
    IpM (Option Ip6Walk) :=
  if walk.nexth = 0 then
    hopByHopHeader dest walk
  else if walk.nexth = 60 then
    destOptsHeader dest walk
  else if walk.nexth = 43 then
    routingHeader walk
  else
    fragmentHeader src dest walk

/-- The extension-header loop of `ip6_input`: a Hop-by-Hop header is refused
behind another header. -/
def walkHeaders (src dest : BitVec 128) :
    Nat → Ip6Walk → IpM (Option Ip6Walk)
  | 0, _ => throw .hang
  | rounds + 1, walk => do
      if isExtension walk.nexth then
        match ← extensionHeader src dest walk with
        | none => pure none
        | some walk =>
            if walk.nexth = 0 then do
              icmp6ParamProblem walk.p.head
              pure none
            else
              walkHeaders src dest rounds walk
      else
        pure (some walk)

/-- `raw_input` sees the packet from its IPv6 header on. -/
def showHeaders (walk : Ip6Walk) : IpM Chain :=
  pbufRemoveHeader ((walk.p.addHeader walk.hlenTot).getD walk.p) walk.hlenTot

/-- `ip6_input` after the loop. -/
def ip6Deliver (src dest : BitVec 128) (walk : Ip6Walk) :
    IpM (Option Upward) := do
  let p ← showHeaders walk
  if walk.nexth = 59 then
    pure none
  else if walk.nexth = .ofBitVec ipProtoUdp then
    pure (some ⟨.udp, .v6 src, .v6 dest, p⟩)
  else if walk.nexth = .ofBitVec ipProtoTcp then
    pure (some ⟨.tcp, .v6 src, .v6 dest, p⟩)
  else if walk.nexth = 58 then
    pure (some ⟨.icmp6, .v6 src, .v6 dest, p⟩)
  else do
    if !(IpAddr.v6 dest).isMulticast ∧ walk.hdrNexth ≠ 58 then
      icmp6ParamProblem p.head
    pure none

/-- Enough rounds for a packet of 65535 bytes and as many reassembled ones as
there can be datagrams. -/
def walkRounds : Nat := 65536

/-- `ip6_input`. The payload length is read in a packet shorter than its header
as well. -/
def ip6Input (p : PBuf) : IpM (Option Upward) := do
  let vTcFl ← readLong p 0
  if vTcFl >>> 28 ≠ 6 then
    pure none
  else do
    let plen ← readWord p 4
    if p.len < ip6Hlen ∨ p.len - ip6Hlen < plen.toNat then
      pure none
    else do
      let p := p.realloc (ip6Hlen + plen.toNat)
      let dest ← readAddr p 24
      let src ← readAddr p 8
      if isIpv4Mapped dest ∨ isIpv4Mapped src ∨
          (IpAddr.v6 src).isMulticast then
        pure none
      else do
        modify fun input =>
          { input with currentIp6Header := ⟨p.addr, p.payload⟩ }
        let input ← get
        if (src = 0 ∧ !isSolicitedNode dest) ∨
            !ip6Accepts input.ip6Addrs dest then
          pure none
        else do
          let nexth ← readByte p 6
          let chain ← pbufRemoveHeader { head := p } ip6Hlen
          let walk : Ip6Walk :=
            { p := chain, nexth, hlenTot := ip6Hlen, plen, hdrNexth := nexth }
          match ← walkHeaders src dest walkRounds walk with
          | none => pure none
          | some walk => ip6Deliver src dest walk

/-! ## The netif -/

/-- `ip_input`. -/
def ipInput (p : PBuf) : IpM (Option Upward) := do
  let version ← readByte p 0
  if version >>> 4 = 6 then ip6Input p else ip4Input p

/-- `ip_input` together with `udp_input`; the result is for the other upper
layers. -/
def netifInput (p : PBuf) : IpM (Option Upward) := do
  match ← ipInput p with
  | none => pure none
  | some up =>
      if up.proto = .udp then do
        udpInput up.src up.dest up.p
        pure none
      else
        pure (some up)

/-- The buffer that `NetStack::poll_flush` makes of an item: its length is
narrowed to a `u16_t`. -/
def itemPbuf (addr : Nat) (item : Bytes) : PBuf where
  addr
  mem := item.take (item.length % 65536)
  len := item.length % 65536

/-- `NetStack::poll_flush` on an item: the allocator gives a buffer at `addr`,
or none. -/
def sinkInput (addr : Option Nat) (item : Bytes) : IpM (Option Upward) :=
  match addr with
  | none => pure none
  | some addr =>
      if item.isEmpty then pure none else netifInput (itemPbuf addr item)

end NetstackLwip

import NetstackLwip.IpOutput

namespace NetstackLwip.InetChksum

/-!
# Internet checksums as they are computed

`inet_chksum.c` with checksum algorithm 3, the checksum that `tcp_write` and
`tcp_split_unsent_seg` keep with a segment while its bytes are copied, and the
sum that `ip4_output_if_opt_src` takes while it fills in a header. Words are
loaded from memory as a little-endian host does; a buffer is the address of
its payload and the bytes there, since the address decides how the summing
loop splits them. `tcp_write` is always called with `TCP_WRITE_FLAG_COPY`.
-/

/-! ## Words in memory -/

/-- A `u16_t` as it is loaded from two bytes. -/
def loadU16 (low high : UInt8) : BitVec 16 :=
  high.toBitVec ++ low.toBitVec

/-- A `u32_t` as it is loaded from four bytes. -/
def loadU32 (first second third fourth : UInt8) : BitVec 32 :=
  loadU16 third fourth ++ loadU16 first second

/-- A `u16_t` as it is stored. -/
def storeU16 (n : BitVec 16) : Bytes :=
  [.ofBitVec (n.extractLsb' 0 8), .ofBitVec (n.extractLsb' 8 8)]

/-- `lwip_htonl`. -/
def lwipHtonl (n : BitVec 32) : BitVec 32 :=
  (n &&& 0x000000ff) <<< 24 ||| (n &&& 0x0000ff00) <<< 8 |||
    (n &&& 0x00ff0000) >>> 8 ||| (n &&& 0xff000000) >>> 24

/-- `u & 0xffff`. -/
def lowHalf (u : BitVec 32) : BitVec 32 :=
  u &&& 0xffff

/-- `FOLD_U32T`. -/
def foldU32T (u : BitVec 32) : BitVec 32 :=
  u >>> 16 + lowHalf u

/-- `SWAP_BYTES_IN_WORD`. -/
def swapBytesInWord (w : BitVec 32) : BitVec 32 :=
  (w &&& 0xff) <<< 8 ||| (w &&& 0xff00) >>> 8

/-! ## One stretch of memory -/

/-- The first steps of `lwip_standard_chksum`: the byte at an odd address
becomes the upper byte of `t`. Returns that byte, `ps`, and the rest. -/
def oddByte (dataptr : Nat) (data : Bytes) : UInt8 × Nat × Bytes :=
  match data with
  | first :: rest =>
      if dataptr % 2 = 1 then
        (first, dataptr + 1, rest)
      else
        (0, dataptr, data)
  | [] => (0, dataptr, [])

/-- A word of 16 bits in front of a boundary of 32 bits. -/
def alignWord (ps : Nat) (data : Bytes) : BitVec 32 × Bytes :=
  match data with
  | low :: high :: rest =>
      if ps % 4 ≠ 0 then
        ((loadU16 low high).setWidth 32, rest)
      else
        (0, data)
  | _ => (0, data)

/-- An addition of 32 bits that adds the carry back. -/
def addCarry (sum word : BitVec 32) : BitVec 32 :=
  let tmp := sum + word
  if tmp < sum then tmp + 1 else tmp

/-- The loop over eight bytes at a time. -/
def sumLongs (sum : BitVec 32) : Bytes → BitVec 32 × Bytes
  | b0 :: b1 :: b2 :: b3 :: b4 :: b5 :: b6 :: b7 :: rest =>
      let tmp := addCarry sum (loadU32 b0 b1 b2 b3)
      sumLongs (addCarry tmp (loadU32 b4 b5 b6 b7)) rest
  | rest => (sum, rest)

/-- The loop over the 16-bit words behind it, and the tail byte. -/
def sumWords (sum : BitVec 32) : Bytes → BitVec 32 × UInt8
  | low :: high :: rest => sumWords (sum + (loadU16 low high).setWidth 32) rest
  | [tail] => (sum, tail)
  | [] => (sum, 0)

/-- `lwip_standard_chksum` for the bytes at `dataptr`. -/
def lwipStandardChksum (dataptr : Nat) (data : Bytes) : BitVec 16 :=
  let (head, ps, data) := oddByte dataptr data
  let (sum, data) := alignWord ps data
  let (sum, data) := sumLongs sum data
  let (sum, tail) := sumWords (foldU32T sum) data
  let sum := foldU32T (foldU32T (sum + (loadU16 tail head).setWidth 32))
  (if dataptr % 2 = 1 then swapBytesInWord sum else sum).setWidth 16

/-- `inet_chksum`. -/
def inetChksum (dataptr : Nat) (data : Bytes) : BitVec 16 :=
  ~~~ lwipStandardChksum dataptr data

/-- `lwip_chksum_copy`: the sum is taken over the copy. -/
def lwipChksumCopy (dst : Nat) (src : Bytes) : BitVec 16 :=
  lwipStandardChksum dst src

/-! ## Chains of buffers -/

/-- A `struct pbuf`: `payload`, and the `len` bytes there. -/
structure Buf where
  payload : Nat
  data : Bytes
  deriving DecidableEq, Repr

/-- The sum over the buffers passed; `swapped` says whether it stands with its
bytes exchanged. -/
structure ChainSum where
  acc : BitVec 32
  swapped : Bool := false
  deriving DecidableEq, Repr

/-- One round of the loops over a chain, `chklen` bytes of the buffer being
summed. -/
def ChainSum.add (sum : ChainSum) (q : Buf) (chklen : Nat) : ChainSum :=
  let chksum := lwipStandardChksum q.payload (q.data.take chklen)
  let acc := foldU32T (sum.acc + chksum.setWidth 32)
  if q.data.length % 2 ≠ 0 then
    ⟨swapBytesInWord acc, !sum.swapped⟩
  else
    ⟨acc, sum.swapped⟩

/-- The sum with its bytes back in their places. -/
def ChainSum.restored (sum : ChainSum) : BitVec 32 :=
  if sum.swapped then swapBytesInWord sum.acc else sum.acc

/-- The loop over the whole chain. -/
def ChainSum.addAll (p : List Buf) (sum : ChainSum) : ChainSum :=
  p.foldl (fun sum q => sum.add q q.data.length) sum

/-- `inet_chksum_pbuf`. -/
def inetChksumPbuf (p : List Buf) : BitVec 16 :=
  ~~~ (ChainSum.addAll p ⟨0, false⟩).restored.setWidth 16

/-- What `inet_cksum_pseudo_base` and `inet_cksum_pseudo_partial_base` do
behind their loops. -/
def closePseudo (sum : ChainSum) (proto : BitVec 8) (protoLen : BitVec 16) :
    BitVec 16 :=
  let acc :=
    sum.restored + (lwipHtons (proto.setWidth 16)).setWidth 32 +
      (lwipHtons protoLen).setWidth 32
  ~~~ (foldU32T (foldU32T acc)).setWidth 16

/-- `inet_cksum_pseudo_base`. -/
def inetCksumPseudoBase (p : List Buf) (proto : BitVec 8)
    (protoLen : BitVec 16) (acc : BitVec 32) : BitVec 16 :=
  closePseudo (ChainSum.addAll p ⟨acc, false⟩) proto protoLen

/-- The loop of `inet_cksum_pseudo_partial_base`: nothing where its assertion
on what is left fails. -/
def addPartial : List Buf → Nat → ChainSum → Option ChainSum
  | [], _, sum => some sum
  | q :: rest, chksumLen, sum =>
      if chksumLen = 0 then
        some sum
      else
        let chklen := min q.data.length chksumLen
        if chksumLen - chklen < 0x7fff then
          addPartial rest (chksumLen - chklen) (sum.add q chklen)
        else
          none

/-- `inet_cksum_pseudo_partial_base`. -/
def inetCksumPseudoPartialBase (p : List Buf) (proto : BitVec 8)
    (protoLen : BitVec 16) (chksumLen : Nat) (acc : BitVec 32) :
    Option (BitVec 16) :=
  (addPartial p chksumLen ⟨acc, false⟩).map
    fun sum => closePseudo sum proto protoLen

/-- The two halves of a word of 32 bits. -/
def halves (addr : BitVec 32) : BitVec 32 :=
  lowHalf addr + lowHalf (addr >>> 16)

/-- The sum of the addresses, with which `inet_chksum_pseudo` starts. -/
def ip4Addresses (src dest : BitVec 32) : BitVec 32 :=
  foldU32T (foldU32T (halves (lwipHtonl src) + halves (lwipHtonl dest)))

/-- The sum of the addresses, with which `ip6_chksum_pseudo` starts. -/
def ip6Addresses (src dest : BitVec 128) : BitVec 32 :=
  let acc :=
    [96, 64, 32, 0].foldl
      (fun acc low =>
        acc + halves (lwipHtonl (src.extractLsb' low 32)) +
          halves (lwipHtonl (dest.extractLsb' low 32)))
      0
  foldU32T (foldU32T acc)

/-- The sum of the addresses; the destination's type decides. -/
def ipAddresses (src dest : IpAddrT) : BitVec 32 :=
  if dest.isV6 then
    ip6Addresses src.ip6 dest.ip6
  else
    ip4Addresses src.ip4 dest.ip4

/-- `ip_chksum_pseudo`. -/
def ipChksumPseudo (p : List Buf) (proto : BitVec 8) (protoLen : BitVec 16)
    (src dest : IpAddrT) : BitVec 16 :=
  inetCksumPseudoBase p proto protoLen (ipAddresses src dest)

/-- `ip_chksum_pseudo_partial`. -/
def ipChksumPseudoPartial (p : List Buf) (proto : BitVec 8)
    (protoLen : BitVec 16) (chksumLen : Nat) (src dest : IpAddrT) :
    Option (BitVec 16) :=
  inetCksumPseudoPartialBase p proto protoLen chksumLen (ipAddresses src dest)

/-- The checksum that `udp_sendto_if_src_chksum` takes over a datagram, with its
header's own field zero. -/
def udpChksum (q : List Buf) (totLen : BitVec 16) (src dest : IpAddrT) :
    BitVec 16 :=
  let udpchksum := ipChksumPseudo q ipProtoUdp totLen src dest
  if udpchksum = 0 then 0xffff else udpchksum

/-! ## The checksum of a queued segment -/

/-- `SWAP_BYTES_IN_WORD` on a `u16_t`. -/
def swapU16 (chksum : BitVec 16) : BitVec 16 :=
  (swapBytesInWord (chksum.setWidth 32)).setWidth 16

/-- `tcp_seg_add_chksum`. -/
def tcpSegAddChksum (chksum : BitVec 16) (len : Nat) (seg : SegChksum) :
    SegChksum :=
  let chksum := (foldU32T (chksum.setWidth 32 + seg.chksum.setWidth 32)).setWidth 16
  if len % 2 ≠ 0 then
    ⟨swapU16 chksum, !seg.chksumSwapped⟩
  else
    { seg with chksum }

/-- `TCP_DATA_COPY` and `TCP_DATA_COPY2`: phase 1 of `tcp_write` on the last
segment, and the data of a new segment in phase 3 on a checksum of zero. -/
def tcpDataCopy (dst : Nat) (data : Bytes) (seg : SegChksum) : SegChksum :=
  tcpSegAddChksum (lwipChksumCopy dst data) data.length seg

/-- Phase 2 of `tcp_write`: the checksum of the buffer that is chained to the
last segment, taken on its own and added at the end. -/
def tcpConcatChksum (dst : Nat) (data : Bytes) (seg : SegChksum) : SegChksum :=
  let concat := tcpDataCopy dst data {}
  let chksum :=
    if concat.chksumSwapped then swapU16 concat.chksum else concat.chksum
  tcpSegAddChksum chksum data.length seg

/-- `tcp_split_unsent_seg`: the checksum of the remainder, copied to `dst`. -/
def splitRemainderChksum (dst : Nat) (remainder : Bytes) : SegChksum :=
  tcpSegAddChksum (~~~ inetChksum dst remainder) remainder.length {}

/-- `tcp_split_unsent_seg`: the buffer in which the data starts, and its offset
there. -/
def payloadStart : List Buf → Nat → List Buf × Nat
  | [], offset => ([], offset)
  | q :: rest, offset =>
      if q.data.length < offset then
        payloadStart rest (offset - q.data.length)
      else
        (q :: rest, offset)

/-- `tcp_split_unsent_seg`: the checksums of the buffers, the first one taken
from `offset` on. -/
def sumPayload : List Buf → Nat → SegChksum → SegChksum
  | [], _, useg => useg
  | q :: rest, offset, useg =>
      sumPayload rest 0
        (tcpSegAddChksum
          (~~~ inetChksum (q.payload + offset) (q.data.drop offset))
          (q.data.length - offset) useg)

/-- `tcp_split_unsent_seg`: the checksum of the segment that keeps its place,
over its trimmed chain, in which the data starts at `offset`; nothing where the
assertion that it starts somewhere fails. -/
def splitHeadChksum (p : List Buf) (offset : Nat) : Option SegChksum :=
  match payloadStart p offset with
  | ([], _) => none
  | (q :: rest, offset) => some (sumPayload (q :: rest) offset {})

/-- `tcp_output_segment`: the checksum field for the chain `p` from the TCP
header on, and the segment's own checksum afterwards. -/
def outputSegmentChksum (p : List Buf) (protoLen : BitVec 16) (hdrlen : Nat)
    (src dest : IpAddrT) (seg : SegChksum) :
    Option (BitVec 16 × SegChksum) :=
  (ipChksumPseudoPartial p ipProtoTcp protoLen hdrlen src dest).map
    fun acc =>
      let chksum := if seg.chksumSwapped then swapU16 seg.chksum else seg.chksum
      let acc := (~~~ acc).setWidth 32 + chksum.setWidth 32
      -- the segment's checksum is swapped back for data added later
      ((~~~ foldU32T acc).setWidth 16,
        { seg with
          chksum := if seg.chksumSwapped then swapU16 chksum else chksum })

/-! ## The IPv4 header -/

/-- The sum that `ip4_output_if_opt_src` takes while it fills in the header of
an unfragmented packet. -/
def ip4InlineChksum (hdr : Ip4Hdr) : BitVec 16 :=
  let dest := lwipHtonl hdr.dest
  let src := lwipHtonl hdr.src
  let chkSum :=
    (lwipHtons (hdr.ttl ++ hdr.proto)).setWidth 32 +
      lowHalf dest + dest >>> 16 +
      (lwipHtons ((0x45 : BitVec 8) ++ hdr.tos)).setWidth 32 +
      (lwipHtons hdr.len).setWidth 32 + (lwipHtons hdr.id).setWidth 32 +
      lowHalf src + src >>> 16
  let chkSum := chkSum >>> 16 + lowHalf chkSum
  let chkSum := chkSum >>> 16 + chkSum
  (~~~ chkSum).setWidth 16

end NetstackLwip.InetChksum

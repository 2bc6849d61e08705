import NetstackLwip.Ip4RoundTrip
import NetstackLwip.HalfClose
import NetstackLwip.SentChecksums
import NetstackLwip.TcpHeader

namespace NetstackLwip

/-!
# A segment on the wire

A segment that the IP layer hands out in one packet is, given to the sink of
another stack, the same segment once more: IP input finds it, and `tcp_input`
reads the header, the options and the data that were sent.
-/

open FaultState

/-! ## The header -/

/-- The length of the header and the flags, in one word. -/
def hdrWord (options : Bytes) (flags : HdrFlags) : BitVec 16 :=
  BitVec.ofNat 16 ((5 + options.length / 4) * 4096) ||| flags.bits

theorem HdrFlags.bits_low (flags : HdrFlags) : flags.bits >>> 12 = 0#16 := by
  rcases flags with ⟨_ | _, _ | _, _ | _, _ | _, _ | _⟩ <;> rfl

theorem HdrFlags.ofBits_bits (flags : HdrFlags) :
    HdrFlags.ofBits flags.bits = flags := by
  rcases flags with ⟨_ | _, _ | _, _ | _, _ | _, _ | _⟩ <;> rfl

/-- The header length lies above every flag. -/
theorem hdrWord_low
    (words bit : Nat)
    (low : bit < 12) :
    (BitVec.ofNat 16 (words * 4096)).getLsbD bit = false := by
  rw [BitVec.getLsbD_ofNat, show 4096 = 2 ^ 12 from rfl,
    Nat.testBit_mul_two_pow, decide_eq_false (by omega : ¬ 12 ≤ bit),
    Bool.false_and, Bool.and_false]

theorem ofBits_hdrWord (options : Bytes) (flags : HdrFlags) :
    HdrFlags.ofBits (hdrWord options flags) = flags := by
  refine Eq.trans ?_ flags.ofBits_bits
  simp only [HdrFlags.ofBits, hdrWord, BitVec.getLsbD_or]
  rw [hdrWord_low _ 0 (by decide), hdrWord_low _ 1 (by decide),
    hdrWord_low _ 2 (by decide), hdrWord_low _ 3 (by decide),
    hdrWord_low _ 4 (by decide)]
  simp only [Bool.false_or]

theorem hdrlenBytes_hdrWord
    {options : Bytes}
    {flags : HdrFlags}
    (words : options.length % 4 = 0)
    (most : options.length ≤ 40) :
    hdrlenBytes (hdrWord options flags) = tcpHlen + options.length := by
  rw [hdrlenBytes, hdrWord, BitVec.ushiftRight_or_distrib, flags.bits_low,
    BitVec.or_zero, BitVec.toNat_ushiftRight, Nat.shiftRight_eq_div_pow,
    BitVec.toNat_ofNat, tcpHlen]
  omega

/-- A segment with whole words of options, not too long for its headers, and
with the checksum of its bytes. -/
structure Packet.WellFormed (packet : Packet) : Prop where
  words : packet.options.length % 4 = 0
  most : packet.options.length ≤ 40
  room : packet.segment.length + 40 < 65536
  stored : packet.segmentWith (lwipHtons packet.chksum) = packet.segment

section Header

variable {packet : Packet}

theorem segment_word :
    wordAt packet.segment 12 = hdrWord packet.options packet.flags := by
  simpa [Packet.segment, Packet.segmentWith, hdrWord, wordAt, byteAt,
    wordBytes, longBytes] using
    wordAt_wordBytes (hdrWord packet.options packet.flags)

theorem segment_ports :
    wordAt packet.segment 0 = packet.src ∧
      wordAt packet.segment 2 = packet.dest := by
  constructor
  · simpa [Packet.segment, Packet.segmentWith, wordAt, byteAt, wordBytes]
      using wordAt_wordBytes packet.src
  · simpa [Packet.segment, Packet.segmentWith, wordAt, byteAt, wordBytes]
      using wordAt_wordBytes packet.dest

theorem segment_numbers :
    longAt packet.segment 4 = packet.seqno ∧
      longAt packet.segment 8 = packet.ackno := by
  constructor
  · simpa [Packet.segment, Packet.segmentWith, longAt, wordAt, byteAt,
      longBytes, wordBytes] using longAt_longBytes packet.seqno
  · simpa [Packet.segment, Packet.segmentWith, longAt, wordAt, byteAt,
      longBytes, wordBytes] using longAt_longBytes packet.ackno

theorem segment_wnd : wordAt packet.segment 14 = packet.wnd := by
  simpa [Packet.segment, Packet.segmentWith, wordAt, byteAt, wordBytes,
    longBytes] using wordAt_wordBytes packet.wnd

theorem segment_chksum
    (formed : packet.WellFormed) :
    wordAt packet.segment 16 = lwipHtons packet.chksum := by
  rw [← formed.stored]
  simpa [Packet.segmentWith, wordAt, byteAt, wordBytes, longBytes] using
    wordAt_wordBytes (lwipHtons packet.chksum)

theorem hdrlenOf_segment
    (formed : packet.WellFormed) :
    hdrlenOf packet.segment = tcpHlen + packet.options.length := by
  rw [hdrlenOf, segment_word, hdrlenBytes_hdrWord formed.words formed.most]

/-- The bytes of a segment say what it was made of. -/
theorem segmentOf_segment
    (formed : packet.WellFormed) :
    segmentOf packet.srcIp packet.destIp packet.segment = packet := by
  have behind :
      packet.segment.drop tcpHlen = packet.options ++ packet.payload := rfl
  rw [segmentOf, hdrlenOf_segment formed, ← List.drop_drop, behind,
    segment_ports.1, segment_ports.2, segment_numbers.1, segment_numbers.2,
    segment_word, segment_wnd, segment_chksum formed, ofBits_hdrWord,
    InetChksum.lwipHtons_lwipHtons, Nat.add_sub_cancel_left, List.take_left,
    List.drop_left]

end Header

/-! ## IP input -/

/-- The segment handed to `tcp_input`, nothing else being changed. -/
structure HandsSegment
    (src dest : IpAddr)
    (segment : Bytes)
    (input : IpInput)
    (up : Option Upward)
    (next : IpInput) : Prop where
  packet :
    ∃ p : PBuf, up = some ⟨.tcp, src, dest, { head := p }⟩ ∧ p.Held ∧
      p.data = segment
  rest : next = { input with currentIp6Header := next.currentIp6Header }

section Ip4

variable {hdr : Ip4Hdr} {segment : Bytes}

theorem ip4_len_offset :
    wordAt (IpPacket.v4 hdr segment).bytes 2 = hdr.len ∧
      wordAt (IpPacket.v4 hdr segment).bytes 6 =
        ((if hdr.mf then 0x2000 else 0) ||| hdr.offset.setWidth 16) := by
  constructor
  · simpa [IpPacket.bytes, Ip4Hdr.bytes, Ip4Hdr.bytesWith, wordAt, byteAt,
      wordBytes] using wordAt_wordBytes hdr.len
  · simpa [IpPacket.bytes, Ip4Hdr.bytes, Ip4Hdr.bytesWith, wordAt, byteAt,
      wordBytes] using
      wordAt_wordBytes
        ((if hdr.mf then 0x2000 else 0) ||| hdr.offset.setWidth 16)

theorem ip4_addresses :
    longAt (IpPacket.v4 hdr segment).bytes 12 = hdr.src ∧
      longAt (IpPacket.v4 hdr segment).bytes 16 = hdr.dest := by
  constructor
  · simpa [IpPacket.bytes, Ip4Hdr.bytes, Ip4Hdr.bytesWith, longAt, wordAt,
      byteAt, longBytes, wordBytes] using longAt_longBytes hdr.src
  · simpa [IpPacket.bytes, Ip4Hdr.bytes, Ip4Hdr.bytesWith, longAt, wordAt,
      byteAt, longBytes, wordBytes] using longAt_longBytes hdr.dest

variable {src dest : BitVec 32} {ttl tos : BitVec 8} {id : BitVec 16}
  {addr : Nat} {allowed : IpFault → Prop} {input : IpInput}

/-- An IPv4 packet as `ip4_output_if_opt_src` makes it is taken whole. -/
theorem ip4Input_segment
    (host : (IpAddr.v4 src).isUnicast = true)
    (small : segment.length + ipHlen < 65536) :
    wp
      (ip4Input
        (wholePbuf addr
          (IpPacket.v4 (ip4OutputHdr segment src dest ttl tos ipProtoTcp id)
            segment).bytes))
      (HandsSegment (.v4 src) (.v4 dest) segment input) allowed input := by
  have hlen : ipHlen = 20 := rfl
  obtain ⟨hdr, hdrEq⟩ :
      ∃ hdr, ip4OutputHdr segment src dest ttl tos ipProtoTcp id = hdr :=
    ⟨_, rfl⟩
  obtain ⟨hdrLen, mf, units, hdrProto, hdrSrc, hdrDest⟩ :
      hdr.len = BitVec.ofNat 16 (segment.length + ipHlen) ∧
        hdr.mf = false ∧ hdr.offset = 0 ∧ hdr.proto = ipProtoTcp ∧
          hdr.src = src ∧ hdr.dest = dest := by
    rw [← hdrEq]
    exact ⟨rfl, rfl, rfl, rfl, rfl, rfl⟩
  rw [hdrEq]
  set p := wholePbuf addr (IpPacket.v4 hdr segment).bytes with pEq
  have size : p.mem.length = 20 + segment.length :=
    IpPacket.bytes_v4_length hdr segment
  have len : p.len = 20 + segment.length := size
  have start : p.payload = 0 := rfl
  have inside (index : Nat) (within : index < 20) :
      p.payload + index < p.mem.length := by
    omega
  have version : byteAt p.mem (p.payload + 0) = 0x45 := rfl
  have total : wordAt p.mem (p.payload + 2) = hdr.len := ip4_len_offset.1
  have totalNat : hdr.len.toNat = 20 + segment.length := by
    rw [hdrLen, BitVec.toNat_ofNat]
    omega
  have offset : wordAt p.mem (p.payload + 6) = 0 := by
    refine ip4_len_offset.2.trans ?_
    rw [mf, units]
    decide
  have proto : byteAt p.mem (p.payload + 9) = .ofBitVec ipProtoTcp :=
    congrArg UInt8.ofBitVec hdrProto
  have source : longAt p.mem (p.payload + 12) = src :=
    ip4_addresses.1.trans hdrSrc
  have target : longAt p.mem (p.payload + 16) = dest :=
    ip4_addresses.2.trans hdrDest
  have uncut : p.realloc hdr.len.toNat = p := by
    rw [PBuf.realloc, if_pos (by omega)]
  have ihl : ((0x45 : UInt8) &&& 0xf).toNat * 4 = 20 := rfl
  rw [IpAddr.isUnicast_iff] at host
  rw [ip4Input, wp_bind, wp_readByte (inside 0 (by decide)), version,
    if_neg (by decide), wp_bind, wp_readWord (inside 3 (by decide)), total, ihl,
    uncut, if_neg (by omega), wp_bind, wp_readLong (inside 19 (by decide)),
    target, wp_bind, wp_readLong (inside 15 (by decide)), source,
    if_neg (by simp [host]), wp_bind, wp_readWord (inside 7 (by decide)),
    offset, if_neg (by decide), ip4Deliver, wp_bind,
    wp_readByte (inside 9 (by decide)), proto, wp_bind,
    wp_pbufRemoveHeader (by rw [len]; omega), if_neg (by decide), if_pos rfl]
  refine ⟨⟨p.skip 20, rfl, ?_, ?_⟩, rfl⟩
  · exact (wholePbuf_held addr _).skip (by rw [← pEq]; omega)
  · rw [PBuf.skip_data, pEq, wholePbuf_data]
    rfl

end Ip4

section Ip6

/-- An address is read back from its four words. -/
theorem addrAt_eq
    {bytes : Bytes}
    {index : Nat}
    {addr : BitVec 128}
    (first : longAt bytes index = addr.extractLsb' 96 32)
    (second : longAt bytes (index + 4) = addr.extractLsb' 64 32)
    (third : longAt bytes (index + 8) = addr.extractLsb' 32 32)
    (fourth : longAt bytes (index + 12) = addr.extractLsb' 0 32) :
    addrAt bytes index = addr := by
  have high :
      addr.extractLsb' 96 32 ++ addr.extractLsb' 64 32 =
        addr.extractLsb' 64 64 :=
    BitVec.extractLsb'_append_extractLsb'_eq_extractLsb' rfl
  have low :
      addr.extractLsb' 32 32 ++ addr.extractLsb' 0 32 = addr.extractLsb' 0 64 :=
    BitVec.extractLsb'_append_extractLsb'_eq_extractLsb' rfl
  rw [addrAt, first, second, third, fourth, high, low]
  exact BitVec.extractLsb'_append_extractLsb'

/-- The version before the traffic class. -/
theorem vtcfl_version (tc : BitVec 8) :
    (0x60000000 ||| tc.setWidth 32 <<< 20) >>> 28 = 6#32 := by
  have low : (tc.setWidth 32 <<< 20) >>> 28 = 0#32 := by
    have small := tc.isLt
    apply BitVec.eq_of_toNat_eq
    rw [BitVec.toNat_ushiftRight, BitVec.toNat_shiftLeft, BitVec.toNat_setWidth,
      Nat.shiftRight_eq_div_pow, Nat.shiftLeft_eq]
    simp only [BitVec.toNat_ofNat]
    omega
  rw [BitVec.ushiftRight_or_distrib, low]
  rfl

variable {hdr : Ip6Hdr} {segment : Bytes}

theorem ip6_words :
    longAt (IpPacket.v6 hdr none segment).bytes 0 =
        0x60000000 ||| hdr.tc.setWidth 32 <<< 20 ∧
      wordAt (IpPacket.v6 hdr none segment).bytes 4 = hdr.plen := by
  constructor
  · simpa [IpPacket.bytes, Ip6Hdr.bytes, longAt, wordAt, byteAt, longBytes,
      wordBytes] using
      longAt_longBytes (0x60000000 ||| hdr.tc.setWidth 32 <<< 20)
  · simpa [IpPacket.bytes, Ip6Hdr.bytes, wordAt, byteAt, longBytes, wordBytes]
      using wordAt_wordBytes hdr.plen

/-- An address is read back where it was written. -/
theorem addrAt_addrBytes
    (front rest : Bytes)
    (addr : BitVec 128) :
    addrAt (front ++ (addrBytes addr ++ rest)) front.length = addr := by
  have word (index : Nat) (start : BitVec 32)
      (here : longAt (addrBytes addr ++ rest) index = start) :
      longAt (front ++ (addrBytes addr ++ rest)) (front.length + index) =
        start := by
    simp only [longAt, wordAt, Nat.add_assoc, byteAt_append_right] at here ⊢
    exact here
  refine addrAt_eq ?_ ?_ ?_ ?_
  · exact word 0 _ (longAt_longBytes _)
  · exact word 4 _ (longAt_longBytes _)
  · exact word 8 _ (longAt_longBytes _)
  · exact word 12 _ (longAt_longBytes _)

theorem ip6_addresses :
    addrAt (IpPacket.v6 hdr none segment).bytes 8 = hdr.src ∧
      addrAt (IpPacket.v6 hdr none segment).bytes 24 = hdr.dest := by
  constructor
  · have read := addrAt_addrBytes
      (longBytes (0x60000000 ||| hdr.tc.setWidth 32 <<< 20) ++
        wordBytes hdr.plen ++ [.ofBitVec hdr.nexth, .ofBitVec hdr.hoplim])
      (addrBytes hdr.dest ++ segment) hdr.src
    simpa [IpPacket.bytes, Ip6Hdr.bytes] using read
  · have read := addrAt_addrBytes
      (longBytes (0x60000000 ||| hdr.tc.setWidth 32 <<< 20) ++
        wordBytes hdr.plen ++ [.ofBitVec hdr.nexth, .ofBitVec hdr.hoplim] ++
          addrBytes hdr.src)
      segment hdr.dest
    simpa [IpPacket.bytes, Ip6Hdr.bytes] using read

variable {src dest : BitVec 128} {hl tc : BitVec 8}
  {addr : Nat} {allowed : IpFault → Prop} {input : IpInput}

/-- An IPv6 packet as `ip6_output_if_src` makes it is taken whole. -/
theorem ip6Input_segment
    (host : (IpAddr.v6 src).isUnicast = true)
    (target : (IpAddr.v6 dest).isUnicast = true)
    (unmapped : isIpv4Mapped src = false ∧ isIpv4Mapped dest = false)
    (small : segment.length + ip6Hlen < 65536) :
    wp
      (ip6Input
        (wholePbuf addr
          (IpPacket.v6 (ip6OutputHdr segment src dest hl tc ipProtoTcp) none
            segment).bytes))
      (HandsSegment (.v6 src) (.v6 dest) segment input) allowed input := by
  have hlen : ip6Hlen = 40 := rfl
  obtain ⟨hdr, hdrEq⟩ :
      ∃ hdr, ip6OutputHdr segment src dest hl tc ipProtoTcp = hdr :=
    ⟨_, rfl⟩
  obtain ⟨hdrPlen, hdrNexth, hdrSrc, hdrDest⟩ :
      hdr.plen = BitVec.ofNat 16 segment.length ∧ hdr.nexth = ipProtoTcp ∧
        hdr.src = src ∧ hdr.dest = dest := by
    rw [← hdrEq]
    exact ⟨rfl, rfl, rfl, rfl⟩
  rw [hdrEq]
  set p := wholePbuf addr (IpPacket.v6 hdr none segment).bytes with pEq
  have size : p.mem.length = 40 + segment.length := by
    have whole := IpPacket.bytes_v6_length hdr none segment
    rw [if_neg (by decide), Nat.zero_add] at whole
    exact whole
  have len : p.len = 40 + segment.length := size
  have start : p.payload = 0 := rfl
  have inside (index : Nat) (within : index < 40) :
      p.payload + index < p.mem.length := by
    omega
  have vtcfl :
      longAt p.mem (p.payload + 0) = 0x60000000 ||| hdr.tc.setWidth 32 <<< 20 :=
    ip6_words.1
  have version : longAt p.mem (p.payload + 0) >>> 28 = 6 := by
    rw [vtcfl]
    exact vtcfl_version hdr.tc
  have plen : wordAt p.mem (p.payload + 4) = hdr.plen := ip6_words.2
  have plenNat : hdr.plen.toNat = segment.length := by
    rw [hdrPlen, BitVec.toNat_ofNat]
    omega
  have nexth : byteAt p.mem (p.payload + 6) = .ofBitVec ipProtoTcp :=
    congrArg UInt8.ofBitVec hdrNexth
  have source : addrAt p.mem (p.payload + 8) = src :=
    ip6_addresses.1.trans hdrSrc
  have hdrTarget : addrAt p.mem (p.payload + 24) = dest :=
    ip6_addresses.2.trans hdrDest
  have uncut : p.realloc (ip6Hlen + hdr.plen.toNat) = p := by
    rw [PBuf.realloc, if_pos (by omega)]
  have accepted :
      ¬((src = 0 ∧ (!isSolicitedNode dest) = true) ∨
        (!ip6Accepts input.ip6Addrs dest) = true) :=
    not_foreign_of_unicast host target
  have notMulticast : (IpAddr.v6 src).isMulticast = false :=
    (IpAddr.isUnicast_iff.mp host).2.2
  rw [ip6Input, wp_bind, wp_readLong (inside 3 (by decide)), version,
    if_neg (by decide), wp_bind, wp_readWord (inside 5 (by decide)), plen,
    if_neg (by omega), uncut, wp_bind, wp_readAddr (inside 39 (by decide)),
    wp_bind, wp_readAddr (inside 23 (by decide)), hdrTarget, source,
    if_neg (by simp [unmapped, notMulticast]), wp_bind, wp_modify, wp_bind,
    wp_get, if_neg accepted, wp_bind, wp_readByte (inside 6 (by decide)), nexth,
    wp_bind, wp_pbufRemoveHeader (by rw [len]; omega), wp_bind]
  have ends : isExtension (.ofBitVec ipProtoTcp) = false := rfl
  have other : (UInt8.ofBitVec ipProtoTcp) ≠ 59 := by decide
  have notUdp : (UInt8.ofBitVec ipProtoTcp) ≠ .ofBitVec ipProtoUdp := by decide
  rw [show walkRounds = 65535 + 1 from rfl, walkHeaders]
  dsimp only
  rw [ends, if_neg Bool.false_ne_true, wp_pure]
  dsimp only
  rw [ip6Deliver, wp_bind]
  refine showHeaders_back (by simp [start, hlen])
    (by simp [len, hlen]; omega) ?_
  dsimp only
  rw [if_neg other, if_neg notUdp, if_pos rfl]
  refine ⟨⟨p.skip ip6Hlen, rfl, ?_, ?_⟩, rfl⟩
  · exact (wholePbuf_held addr _).skip (by rw [← pEq]; omega)
  · rw [PBuf.skip_data, pEq, wholePbuf_data]
    rfl

end Ip6

/-! ## Output and input -/

/-- The two ends are hosts with addresses of one family, neither of them an
IPv4 address mapped into IPv6. -/
structure Packet.BetweenHosts (packet : Packet) : Prop where
  family : SameFamily packet.srcIp packet.destIp
  src : packet.srcIp.isUnicast = true
  dest : packet.destIp.isUnicast = true
  unmapped :
    ∀ addr,
      packet.srcIp = .v6 addr ∨ packet.destIp = .v6 addr →
        isIpv4Mapped addr = false

/-- The segment fits into one packet. -/
def Packet.InOnePacket (packet : Packet) (stack : IpStack) : Prop :=
  match packet.destIp with
  | .v4 _ => packet.segment.length + ipHlen ≤ netifMtu
  | .v6 _ =>
      stack.mtu6.val = 0 ∨ packet.segment.length + ip6Hlen ≤ stack.mtu6.val

/-- The packets that the segment is handed out in. -/
def Packet.handedOut (packet : Packet) (stack : IpStack) : List IpPacket :=
  (tcpIpOutput packet stack).handed.drop stack.handed.length

theorem not_handed
    {out : IpPacket}
    {stack next : IpStack}
    (kept : next.handed = stack.handed) :
    out ∉ next.handed.drop stack.handed.length := by
  rw [kept, List.drop_length]
  exact List.not_mem_nil

/-- What is handed out at all is this one packet. -/
theorem netifOutput_handed
    {packet out : IpPacket}
    {stack : IpStack}
    (handed :
      out ∈ (netifOutput packet stack).2.handed.drop stack.handed.length) :
    (netifOutput packet stack).2.handed.drop stack.handed.length =
      [packet] := by
  unfold netifOutput at handed ⊢
  split
  · exact List.drop_left
  · rename_i dead
    rw [if_neg dead] at handed
    exact absurd handed (not_handed rfl)

theorem netifLoopOutput_handed
    (packet : IpPacket)
    (stack : IpStack) :
    (netifLoopOutput packet stack).2.handed = stack.handed := by
  unfold netifLoopOutput
  rcases stack.allocate_cases with ⟨allocs, outcome, _⟩ | ⟨allocs, outcome, _⟩
  · rw [outcome]
    rfl
  · rw [outcome]
    rfl

theorem ip4OutputIfSrc_handed
    {payload : Bytes}
    {src dest : BitVec 32}
    {ttl tos proto : BitVec 8}
    {stack : IpStack}
    {out : IpPacket}
    (whole : payload.length + ipHlen ≤ netifMtu)
    (handed :
      out ∈ (ip4OutputIfSrc payload src dest ttl tos proto stack).2.handed.drop
        stack.handed.length) :
    (ip4OutputIfSrc payload src dest ttl tos proto stack).2.handed.drop
        stack.handed.length =
      [.v4 (ip4OutputHdr payload src dest ttl tos proto stack.ipId)
        payload] := by
  unfold ip4OutputIfSrc at handed ⊢
  split at handed
  · exact absurd handed (not_handed rfl)
  · rename_i room
    rw [if_neg room]
    dsimp only at handed ⊢
    split at handed
    · exact absurd handed (not_handed (netifLoopOutput_handed _ _))
    · rename_i foreign
      have uncut : ¬netifMtu < payload.length + ipHlen := by omega
      rw [if_neg uncut] at handed
      rw [if_neg foreign, if_neg uncut]
      exact @netifOutput_handed _ _ { stack with ipId := stack.ipId + 1 } handed

theorem ip6OutputIfSrc_handed
    {payload : Bytes}
    {src dest : BitVec 128}
    {hl tc nexth : BitVec 8}
    {stack : IpStack}
    {out : IpPacket}
    (whole :
      stack.mtu6.val = 0 ∨ payload.length + ip6Hlen ≤ stack.mtu6.val)
    (handed :
      out ∈ (ip6OutputIfSrc payload src dest hl tc nexth stack).2.handed.drop
        stack.handed.length) :
    (ip6OutputIfSrc payload src dest hl tc nexth stack).2.handed.drop
        stack.handed.length =
      [.v6 (ip6OutputHdr payload src dest hl tc nexth) none payload] := by
  unfold ip6OutputIfSrc at handed ⊢
  split at handed
  · exact absurd handed (not_handed rfl)
  · rename_i room
    rw [if_neg room]
    dsimp only at handed ⊢
    split at handed
    · exact absurd handed (not_handed (netifLoopOutput_handed _ _))
    · rename_i foreign
      have uncut :
          ¬(stack.mtu6.val ≠ 0 ∧
            stack.mtu6.val < payload.length + ip6Hlen) := by
        omega
      rw [dif_neg uncut] at handed
      rw [if_neg foreign, dif_neg uncut]
      exact netifOutput_handed handed

/-- One IP packet between the addresses of the segment, the IP header in front
of all of it. -/
inductive Packet.CarriedBy (packet : Packet) : IpPacket → Prop where
  | v4
      {src dest : BitVec 32}
      {id : BitVec 16} :
      packet.srcIp = .v4 src →
      packet.destIp = .v4 dest →
      CarriedBy packet
        (.v4
          (ip4OutputHdr packet.segment src dest ipDefaultTtl 0 ipProtoTcp id)
          packet.segment)
  | v6
      {src dest : BitVec 128} :
      packet.srcIp = .v6 src →
      packet.destIp = .v6 dest →
      CarriedBy packet
        (.v6 (ip6OutputHdr packet.segment src dest ipDefaultTtl 0 ipProtoTcp)
          none packet.segment)

/-- A segment is handed out in one packet that carries it. -/
structure LeavesIn (packet : Packet) (stack : IpStack) (out : IpPacket) :
    Prop where
  one : packet.handedOut stack = [out]
  carried : packet.CarriedBy out

theorem leavesIn_of_single
    {packet : Packet}
    {stack : IpStack}
    {out made : IpPacket}
    (handed : out ∈ packet.handedOut stack)
    (one : packet.handedOut stack = [made])
    (carried : packet.CarriedBy made) :
    LeavesIn packet stack out := by
  have same : out = made := by
    rw [one] at handed
    exact List.mem_singleton.mp handed
  rw [← same] at one carried
  exact ⟨one, carried⟩

/-- What fits into one packet leaves in one. -/
theorem handedOut_leaves
    {packet : Packet}
    {stack : IpStack}
    {out : IpPacket}
    (formed : packet.WellFormed)
    (hosts : packet.BetweenHosts)
    (whole : packet.InOnePacket stack)
    (handed : out ∈ packet.handedOut stack) :
    LeavesIn packet stack out := by
  obtain ⟨family, source, -, -⟩ := hosts
  have sends :
      packet.handedOut stack =
        (IpStack.ipOutputIf packet.segment (toIpAddrT 0 packet.srcIp)
          (toIpAddrT 0 packet.destIp) ipDefaultTtl 0 ipProtoTcp
          stack).2.handed.drop stack.handed.length := by
    rw [Packet.handedOut, tcpIpOutput, formed.stored]
  unfold Packet.InOnePacket at whole
  cases srcIp : packet.srcIp with
  | v4 src =>
      cases destIp : packet.destIp with
      | v4 dest =>
          have notAny : src ≠ 0 := by
            rintro rfl
            rw [srcIp] at source
            cases source
          have v4 : (toIpAddrT 0 (.v4 dest)).isV6 = false := rfl
          rw [destIp] at whole
          rw [srcIp, destIp, IpStack.ipOutputIf, v4, if_neg Bool.false_ne_true,
            toIpAddrT_v4, toIpAddrT_v4, if_neg notAny] at sends
          have one := ip4OutputIfSrc_handed whole (sends ▸ handed)
          exact leavesIn_of_single handed (sends.trans one)
            (.v4 srcIp destIp)
      | v6 dest =>
          rw [srcIp, destIp] at family
          cases family
  | v6 src =>
      cases destIp : packet.destIp with
      | v4 dest =>
          rw [srcIp, destIp] at family
          cases family
      | v6 dest =>
          have notAny : src ≠ 0 := by
            rintro rfl
            rw [srcIp] at source
            cases source
          have v6 : (toIpAddrT 0 (.v6 dest)).isV6 = true := rfl
          have here : (toIpAddrT 0 (.v6 src)).ip6 = src := rfl
          have there : (toIpAddrT 0 (.v6 dest)).ip6 = dest := rfl
          rw [destIp] at whole
          rw [srcIp, destIp, IpStack.ipOutputIf, v6, if_pos rfl, here, there,
            if_neg notAny] at sends
          have one := ip6OutputIfSrc_handed whole (sends ▸ handed)
          exact leavesIn_of_single handed (sends.trans one)
            (.v6 srcIp destIp)

section Received

variable {packet : Packet} {stack : IpStack} {out : IpPacket} {addr : Nat}
  {allowed : IpFault → Prop} {input : IpInput}

/-- The version of a packet decides which input function takes it, and a
segment goes on to `tcp_input`. -/
theorem sinkInput_hands
    {src dest : IpAddr}
    {segment vec : Bytes}
    (small : vec.length < 65536)
    (long : 0 < vec.length)
    (taken :
      wp
        (if byteAt vec 0 >>> 4 = 6 then ip6Input (wholePbuf addr vec)
        else ip4Input (wholePbuf addr vec))
        (HandsSegment src dest segment input) allowed input) :
    wp (sinkInput (some addr) vec) (HandsSegment src dest segment input) allowed
      input := by
  have notEmpty : vec.isEmpty = false := by
    rw [List.isEmpty_eq_false_iff, ← List.length_pos_iff]
    exact long
  have version :
      byteAt (wholePbuf addr vec).mem ((wholePbuf addr vec).payload + 0) =
        byteAt vec 0 := rfl
  rw [sinkInput, notEmpty, if_neg (by decide), itemPbuf_of_small small,
    netifInput, wp_bind, ipInput, wp_bind,
    wp_readByte (by simpa [wholePbuf] using long), version]
  refine wp_weaken taken ?_
  rintro up next ⟨⟨p, rfl, held, data⟩, rest⟩
  dsimp only
  rw [if_neg (by decide), wp_pure]
  exact ⟨⟨p, rfl, held, data⟩, rest⟩

theorem sinkInput_segment4
    {src dest : BitVec 32}
    {segment vec : Bytes}
    {ttl tos : BitVec 8}
    {id : BitVec 16}
    (host : (IpAddr.v4 src).isUnicast = true)
    (small : segment.length + ipHlen < 65536)
    (wire :
      (IpPacket.v4 (ip4OutputHdr segment src dest ttl tos ipProtoTcp id)
        segment).bytes = vec) :
    wp (sinkInput (some addr) vec)
      (HandsSegment (.v4 src) (.v4 dest) segment input) allowed input := by
  have taken :=
    @ip4Input_segment segment src dest ttl tos id addr allowed input host small
  generalize ip4OutputHdr segment src dest ttl tos ipProtoTcp id = hdr
    at taken wire
  have hlen : ipHlen = 20 := rfl
  have size := IpPacket.bytes_v4_length hdr segment
  have version : byteAt (IpPacket.v4 hdr segment).bytes 0 = 0x45 := rfl
  rw [wire] at taken size version
  refine sinkInput_hands (by omega) (by omega) ?_
  rw [version, if_neg (by decide)]
  exact taken

theorem sinkInput_segment6
    {src dest : BitVec 128}
    {segment vec : Bytes}
    {hl tc : BitVec 8}
    (host : (IpAddr.v6 src).isUnicast = true)
    (target : (IpAddr.v6 dest).isUnicast = true)
    (unmapped : isIpv4Mapped src = false ∧ isIpv4Mapped dest = false)
    (small : segment.length + ip6Hlen < 65536)
    (wire :
      (IpPacket.v6 (ip6OutputHdr segment src dest hl tc ipProtoTcp) none
        segment).bytes = vec) :
    wp (sinkInput (some addr) vec)
      (HandsSegment (.v6 src) (.v6 dest) segment input) allowed input := by
  have taken :=
    @ip6Input_segment segment src dest hl tc addr allowed input host target
      unmapped small
  generalize ip6OutputHdr segment src dest hl tc ipProtoTcp = hdr
    at taken wire
  have hlen : ip6Hlen = 40 := rfl
  have size := IpPacket.bytes_v6_length hdr none segment
  rw [if_neg (by decide)] at size
  have version : (byteAt (IpPacket.v6 hdr none segment).bytes 0 >>> 4) = 6 := by
    rw [← UInt8.toNat_inj, ← longAt_version, ip6_words.1, vtcfl_version]
    rfl
  rw [wire] at taken size version
  refine sinkInput_hands (by omega) (by omega) ?_
  rw [if_pos version]
  exact taken

/-- What carries a segment is taken by the sink of another stack. -/
theorem sinkInput_segment
    (formed : packet.WellFormed)
    (hosts : packet.BetweenHosts)
    (carried : packet.CarriedBy out) :
    wp (sinkInput (some addr) out.bytes)
      (HandsSegment packet.srcIp packet.destIp packet.segment input) allowed
      input := by
  have room := formed.room
  obtain ⟨-, source, target, unmapped⟩ := hosts
  have hlen : ipHlen = 20 := rfl
  have hlen6 : ip6Hlen = 40 := rfl
  -- A variable for the bytes keeps them from being computed.
  generalize wire : out.bytes = vec
  cases carried with
  | v4 srcIp destIp =>
      rw [srcIp] at source
      rw [srcIp, destIp]
      exact sinkInput_segment4 source (by omega) wire
  | v6 srcIp destIp =>
      rw [srcIp] at source
      rw [destIp] at target
      rw [srcIp, destIp]
      exact sinkInput_segment6 source target
        ⟨unmapped _ (.inl srcIp), unmapped _ (.inr destIp)⟩ (by omega) wire

/-- `tcp_input` finds the segment that was sent. -/
theorem HandsSegment.found
    {up : Option Upward}
    {next : IpInput}
    (formed : packet.WellFormed)
    (hosts : packet.BetweenHosts)
    (hands :
      HandsSegment packet.srcIp packet.destIp packet.segment input up next) :
    ∃ p options,
      up = some ⟨.tcp, packet.srcIp, packet.destIp, p⟩ ∧
        tcpInputHeader packet.srcIp packet.destIp p =
          .ok (some (packet, options)) ∧
        ∀ pcb,
          options.parseopt options.optlen pcb =
            tcpParseopt packet.options pcb := by
  obtain ⟨⟨p, rfl, heldHead, data⟩, _⟩ := hands
  have held : Chain.Held { head := p } :=
    ⟨heldHead, fun _ member => absurd member List.not_mem_nil⟩
  have whole : Chain.data { head := p } = packet.segment := by
    rw [Chain.data, List.flatMap_nil, List.append_nil, data]
  have room := formed.room
  have size := packet.segment_length
  have len : p.len = packet.segment.length := by
    rw [← data, PBuf.data_length heldHead]
  have hdrlen := hdrlenOf_segment formed
  have hlen : tcpHlen = 20 := rfl
  have host := IpAddr.isUnicast_iff.mp hosts.dest
  have taken : HeaderTaken packet.destIp { head := p } := by
    refine ⟨?_, host.2, ?_, ?_, ?_⟩
    · dsimp only
      omega
    · rw [whole, hdrlen]
      exact Nat.le_add_right _ _
    · rw [whole, hdrlen]
      omega
    · rw [whole, hdrlen]
      dsimp only
      omega
  have fits : (Chain.data { head := p }).length ≤ 65535 := by
    rw [whole]
    omega
  obtain ⟨options, parsed, found⟩ :=
    @tcpInputHeader_taken packet.srcIp packet.destIp _ held fits taken
  rw [whole, segmentOf_segment formed] at parsed found
  exact ⟨_, options, rfl, parsed, found.parsed _ (Nat.le_refl _)⟩

end Received

/-! ## What a connection sends -/

/-- The sink of another stack, given `vec`, hands `tcp_input` a buffer in which
it finds `packet`. -/
def ReceivedAs
    (packet : Packet)
    (addr : Nat)
    (vec : Bytes)
    (input : IpInput) : Prop :=
  ∃ p options next,
    sinkInput (some addr) vec input =
        .ok (some ⟨.tcp, packet.srcIp, packet.destIp, p⟩, next) ∧
      next = { input with currentIp6Header := next.currentIp6Header } ∧
      tcpInputHeader packet.srcIp packet.destIp p =
        .ok (some (packet, options)) ∧
      ∀ pcb,
        options.parseopt options.optlen pcb = tcpParseopt packet.options pcb

theorem receivedAs_of_carried
    {packet : Packet}
    {out : IpPacket}
    {addr : Nat}
    {input : IpInput}
    (formed : packet.WellFormed)
    (hosts : packet.BetweenHosts)
    (carried : packet.CarriedBy out) :
    ReceivedAs packet addr out.bytes input := by
  have hands :
      wp (sinkInput (some addr) out.bytes)
        (HandsSegment packet.srcIp packet.destIp packet.segment input)
        (fun _ => False) input :=
    sinkInput_segment formed hosts carried
  unfold wp at hands
  cases ran : sinkInput (some addr) out.bytes input with
  | error fault =>
      rw [ran] at hands
      exact hands.elim
  | ok result =>
      rw [ran] at hands
      obtain ⟨p, options, up, parsed, parseopt⟩ := hands.found formed hosts
      exact ⟨p, options, result.2, by rw [ran, ← up], hands.rest, parsed,
        parseopt⟩

/-- What a connection sends has room for its headers, and its checksum. -/
theorem SoundPacket.formed
    {packet : Packet}
    (sound : SoundPacket packet) :
    packet.WellFormed := by
  refine ⟨?_, ?_, sound.toSmallPacket.length_lt, sound.stored⟩
  · rcases sound.options with absent | one
    · rw [absent]
    · rw [one]
  · rcases sound.options with absent | one <;> omega

/-- A small segment is never cut for IPv4; for IPv6 it is not unless the path
MTU is known and too small. -/
theorem SmallPacket.inOnePacket
    {packet : Packet}
    {stack : IpStack}
    (small : SmallPacket packet)
    (uncut :
      ∀ addr, packet.destIp = .v6 addr →
        stack.mtu6.val = 0 ∨
          packet.segment.length + ip6Hlen ≤ stack.mtu6.val) :
    packet.InOnePacket stack := by
  have fits := small.fits
  have mss : tcpMss = 1460 := rfl
  have mtu : netifMtu = 1500 := rfl
  have hlen : ipHlen = 20 := rfl
  have size := packet.segment_length
  unfold Packet.InOnePacket
  cases destIp : packet.destIp with
  | v4 addr =>
      dsimp only
      omega
  | v6 addr => exact uncut addr destIp

/-- A segment that a connection has sent in any run is small, and leaves in
one packet. Given to the sink of another stack, it is the segment that was
sent: the stack's IP input takes it, and `tcp_input` finds the header, the
options and the data. -/
theorem sent_segment_received
    {conn : Conn}
    (reached : connMachine.Reached conn)
    {packet : Packet}
    (sent : packet ∈ conn.world.sent)
    (hosts : packet.BetweenHosts)
    {stack : IpStack}
    (uncut :
      ∀ addr, packet.destIp = .v6 addr →
        stack.mtu6.val = 0 ∨
          packet.segment.length + ip6Hlen ≤ stack.mtu6.val)
    {out : IpPacket}
    (handed : out ∈ packet.handedOut stack)
    (addr : Nat)
    (input : IpInput) :
    SmallPacket packet ∧
      LeavesIn packet stack out ∧
      ReceivedAs packet addr out.bytes input := by
  have sound := sound_of_reached reached packet sent
  have small := sound.toSmallPacket
  have leaves :=
    handedOut_leaves sound.formed hosts (small.inOnePacket uncut) handed
  exact ⟨small, leaves,
    receivedAs_of_carried sound.formed hosts leaves.carried⟩

theorem sent_segment_received_threeBytes :
    ∃ conn packet out,
      connMachine.Reached conn ∧
        packet ∈ conn.world.sent ∧
        packet.payload = [1, 2, 3] ∧
        out ∈ packet.handedOut {} ∧
        SmallPacket packet ∧
        LeavesIn packet {} out ∧
        ReceivedAs packet 0 out.bytes {} := by
  obtain ⟨conn, reached, holds⟩ :=
    exists_reached (exampleSyn 1000 []) 0 0 exampleWorld
      [exampleHandshake, { event := .pollWrite [1, 2, 3] }]
      (fun conn => conn.world.sent.any fun packet =>
        packet.payload == [1, 2, 3] &&
          packet.srcIp == .v4 0x01010101 && packet.destIp == .v4 0x0a000001 &&
            !(packet.handedOut {}).isEmpty)
      rfl rfl rfl (by decide +kernel)
  obtain ⟨packet, sent, known⟩ := List.any_eq_true.mp holds
  rw [Bool.and_eq_true, Bool.and_eq_true, Bool.and_eq_true, beq_iff_eq,
    beq_iff_eq, beq_iff_eq, Bool.not_eq_true', List.isEmpty_eq_false_iff]
    at known
  obtain ⟨⟨⟨payload, src⟩, dest⟩, handedOut⟩ := known
  obtain ⟨out, handed⟩ := List.exists_mem_of_ne_nil _ handedOut
  have hosts : packet.BetweenHosts := by
    refine ⟨by rw [src, dest]; trivial, by rw [src]; rfl, by rw [dest]; rfl, ?_⟩
    rintro addr (isV6 | isV6)
    · rw [src] at isV6
      cases isV6
    · rw [dest] at isV6
      cases isV6
  refine ⟨conn, packet, out, reached, sent, payload, handed, ?_⟩
  refine sent_segment_received reached sent hosts (fun addr isV6 => ?_) handed
    0 {}
  rw [dest] at isV6
  cases isV6

end NetstackLwip

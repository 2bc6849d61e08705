import NetstackLwip.SegmentChecksums

namespace NetstackLwip

/-!
# The checksums of emitted packets

Whatever the addresses of its buffers are, and in whatever pieces its data was
written, joined and split, an emitted packet carries the checksum that RFC 1071
gives for its bytes, which are the bytes `IpPacket.bytes` and `Packet.segment`
list; a receiver that sums all of them gets all ones.
-/

open OnesComplement InetChksum

/-! ## Sums in network byte order -/

theorem wordSum_eq_netSum (bytes : Bytes) : wordSum bytes = netSum bytes := by
  induction bytes using wordSum.induct with
  | case1 => rfl
  | case2 high =>
      rw [wordSum, netSum_cons, hostSum_nil]
      omega
  | case3 high low rest inductionHypothesis =>
      rw [wordSum, netSum_cons, hostSum_cons, inductionHypothesis]
      omega

theorem wordSum_le (bytes : Bytes) :
    wordSum bytes ≤ 65535 * ((bytes.length + 1) / 2) := by
  induction bytes using wordSum.induct with
  | case1 => exact Nat.zero_le _
  | case2 high =>
      have highLt := high.toNat_lt
      rw [wordSum, List.length_singleton]
      omega
  | case3 high low rest inductionHypothesis =>
      have highLt := high.toNat_lt
      have lowLt := low.toNat_lt
      rw [wordSum, List.length_cons, List.length_cons]
      omega

/-- Two folds are enough for the sums of a packet. -/
theorem chksumOfSum_eq
    {total : Nat}
    {bytes : Bytes}
    (small : total < 4294901760)
    (same : SameSum total (netSum bytes)) :
    chksumOfSum total = internetChecksum bytes := by
  have first := @fold_onesEq 65536 (by omega) total
  have second := @fold_onesEq 65536 (by omega) (total / 65536 + total % 65536)
  have below : (total / 65536 + total % 65536) / 65536 +
      (total / 65536 + total % 65536) % 65536 < 65536 := by
    omega
  rw [internetChecksum, chksumOfSum]
  apply congrArg (~~~ ·)
  apply eq_internetSum
  rw [BitVec.toNat_ofNat, NetstackLwip.foldU32T, NetstackLwip.foldU32T,
    Nat.mod_eq_of_lt below]
  exact second.trans (first.trans same)

theorem inetChksum_eq
    {bytes : Bytes}
    (fits : bytes.length ≤ 65535) :
    NetstackLwip.inetChksum bytes = internetChecksum bytes := by
  have bound := wordSum_le bytes
  exact chksumOfSum_eq (by omega) (OnesEq.of_eq (wordSum_eq_netSum bytes))

theorem netSum_even_append
    {front : Bytes}
    (even : front.length % 2 = 0)
    (back : Bytes) :
    netSum (front ++ back) = netSum front + netSum back := by
  rw [netSum_append, if_pos even]

theorem netSum_wordBytes (word : BitVec 16) : netSum (wordBytes word) = word.toNat := by
  have below := word.isLt
  simp only [wordBytes, netSum_cons, hostSum_cons, netSum_nil, UInt8.toNat_ofBitVec,
    BitVec.extractLsb'_toNat, Nat.shiftRight_eq_div_pow]
  omega

/-- The pseudo header counts as the addresses, the protocol and the length. -/
theorem netSum_pseudoHeader
    (src dest : IpAddrT)
    (proto : BitVec 8)
    (len : BitVec 16)
    (data : Bytes) :
    SameSum (netSum (pseudoHeader src dest proto len ++ data))
      (netSum (addressBytes src dest) + netSum data + (proto.toNat + len.toNat)) := by
  have trailer : netSum ([0, .ofBitVec proto] ++ wordBytes len) =
      proto.toNat + len.toNat := by
    rw [netSum_even_append (by simp), netSum_wordBytes]
    simp
  have swapped := hostSum_swapped (pseudoHeader src dest proto len ++ data)
  rw [hostSum_pseudoHeader, Nat.mul_add, Nat.mul_add] at swapped
  rw [← trailer]
  exact swapped.symm.trans
    (((hostSum_swapped _).add (hostSum_swapped data)).add (hostSum_swapped _))

theorem ipChksumPseudo_eq
    {datagram : Bytes}
    (fits : datagram.length < 65536)
    (proto : BitVec 8)
    (src dest : IpAddrT) :
    NetstackLwip.ipChksumPseudo datagram proto src dest =
      internetChecksum
        (pseudoHeader src dest proto (BitVec.ofNat 16 datagram.length) ++ datagram) := by
  have addresses :
      (if dest.isV6 then
          wordSum (addrBytes src.ip6) + wordSum (addrBytes dest.ip6)
        else
          wordSum (longBytes src.ip4) + wordSum (longBytes dest.ip4)) =
        netSum (addressBytes src dest) := by
    unfold addressBytes
    by_cases v6 : dest.isV6 = true
    · rw [if_pos v6, if_pos v6, netSum_even_append (by rw [addrBytes_length]),
        wordSum_eq_netSum, wordSum_eq_netSum]
    · rw [if_neg v6, if_neg v6, netSum_even_append (by rw [longBytes_length]),
        wordSum_eq_netSum, wordSum_eq_netSum]
  have addressesLe : netSum (addressBytes src dest) ≤ 1048560 := by
    rw [← addresses]
    by_cases v6 : dest.isV6 = true
    · have srcLe := wordSum_le (addrBytes src.ip6)
      have destLe := wordSum_le (addrBytes dest.ip6)
      rw [addrBytes_length] at srcLe destLe
      rw [if_pos v6]
      omega
    · have srcLe := wordSum_le (longBytes src.ip4)
      have destLe := wordSum_le (longBytes dest.ip4)
      rw [longBytes_length] at srcLe destLe
      rw [if_neg v6]
      omega
  have datagramLe := wordSum_le datagram
  have protoLt := proto.isLt
  have len : (BitVec.ofNat 16 datagram.length).toNat = datagram.length := by
    rw [BitVec.toNat_ofNat, Nat.mod_eq_of_lt fits]
  have counted :=
    (netSum_pseudoHeader src dest proto (BitVec.ofNat 16 datagram.length) datagram).symm
  rw [len, ← wordSum_eq_netSum datagram, ← Nat.add_assoc] at counted
  unfold NetstackLwip.ipChksumPseudo
  dsimp only
  rw [addresses]
  exact chksumOfSum_eq (by omega) counted

/-! ## What a receiver finds -/

/-- Summed with its checksum in place, a packet gives all ones. -/
theorem internetSum_checksum
    {front : Bytes}
    (even : front.length % 2 = 0)
    (back : Bytes) :
    internetSum
        (front ++ (wordBytes (internetChecksum (front ++ (wordBytes 0 ++ back))) ++ back)) =
      0xffff := by
  have zeros : netSum (front ++ (wordBytes 0 ++ back)) = netSum front + netSum back := by
    rw [netSum_even_append even, netSum_even_append (by rw [wordBytes_length]),
      netSum_wordBytes]
    exact congrArg (netSum front + ·) (Nat.zero_add _)
  have counted := internetSum_sameSum (front ++ (wordBytes 0 ++ back))
  rw [zeros] at counted
  have sumLt := (internetSum (front ++ (wordBytes 0 ++ back))).isLt
  have chksum :
      (internetChecksum (front ++ (wordBytes 0 ++ back))).toNat =
        65535 - (internetSum (front ++ (wordBytes 0 ++ back))).toNat := by
    rw [internetChecksum, BitVec.toNat_not]
  symm
  apply eq_internetSum
  rw [netSum_even_append even, netSum_even_append (by rw [wordBytes_length]),
    netSum_wordBytes, chksum]
  have residue :
      (internetSum (front ++ (wordBytes 0 ++ back))).toNat % 65535 =
        (netSum front + netSum back) % 65535 :=
    counted.residue
  have zero := counted.zero
  have ones : (0xffff : BitVec 16).toNat = 65535 := rfl
  constructor
  · show _ % 65535 = _ % 65535
    omega
  · omega

/-- A checksum of zero that is sent as all ones is found right as well. -/
theorem internetSum_ones
    {front back : Bytes}
    (even : front.length % 2 = 0)
    (zero : internetChecksum (front ++ (wordBytes 0 ++ back)) = 0) :
    internetSum (front ++ (wordBytes 0xffff ++ back)) = 0xffff := by
  have verified := internetSum_checksum even back
  have sum := internetSum_sameSum (front ++ (wordBytes 0 ++ back))
  rw [zero] at verified
  rw [verified] at sum
  have ones : (0xffff : BitVec 16).toNat = 65535 := rfl
  have residue : 65535 % 65535 = netSum (front ++ (wordBytes 0 ++ back)) % 65535 :=
    sum.residue
  symm
  apply eq_internetSum
  rw [netSum_even_append even, netSum_even_append (by rw [wordBytes_length]),
    netSum_wordBytes] at residue ⊢
  have zeroWord : (0 : BitVec 16).toNat = 0 := rfl
  constructor
  · show _ % 65535 = _ % 65535
    omega
  · omega

/-! ## What is put on the wire -/

/-- However a packet lies in memory, the checksum functions store the Internet
checksum of its bytes, and of its pseudo header before them. -/
theorem checksums_of_any_layout
    (dataptr : Nat)
    (p : List Buf)
    (proto : BitVec 8)
    (protoLen : BitVec 16)
    (src dest : IpAddrT) :
    storeU16 (InetChksum.inetChksum dataptr (chainBytes p)) =
        wordBytes (internetChecksum (chainBytes p)) ∧
      storeU16 (inetChksumPbuf p) = wordBytes (internetChecksum (chainBytes p)) ∧
      storeU16 (InetChksum.ipChksumPseudo p proto protoLen src dest) =
        wordBytes
          (internetChecksum (pseudoHeader src dest proto protoLen ++ chainBytes p)) := by
  refine ⟨?_, ?_, ?_⟩
  · have summed := eq_lwipHtons_internetSum
      (lwipStandardChksum_sameSum dataptr (chainBytes p))
    rw [InetChksum.inetChksum, summed, ← lwipHtons_not, storeU16_lwipHtons]
    rfl
  · rw [inetChksumPbuf_eq, storeU16_lwipHtons]
  · rw [InetChksum.ipChksumPseudo_eq, storeU16_lwipHtons]

/-- The TCP header and options of a packet. -/
def Packet.header (packet : Packet) (chksum : BitVec 16) : Bytes :=
  wordBytes packet.src ++ wordBytes packet.dest ++ longBytes packet.seqno ++
    longBytes packet.ackno ++
    wordBytes (BitVec.ofNat 16 ((5 + packet.options.length / 4) * 4096) |||
      packet.flags.bits) ++
    wordBytes packet.wnd ++ wordBytes chksum ++ wordBytes 0 ++ packet.options

theorem Packet.segmentWith_eq (packet : Packet) (chksum : BitVec 16) :
    packet.segmentWith chksum = packet.header chksum ++ packet.payload :=
  rfl

theorem Packet.header_length (packet : Packet) (chksum : BitVec 16) :
    (packet.header chksum).length = 20 + packet.options.length := by
  simp [header]
  omega

/-- The header with its checksum field apart. -/
theorem Packet.segmentWith_chksum (packet : Packet) :
    ∃ front back,
      front.length % 2 = 0 ∧
        ∀ chksum, packet.segmentWith chksum = front ++ (wordBytes chksum ++ back) := by
  refine ⟨wordBytes packet.src ++ wordBytes packet.dest ++ longBytes packet.seqno ++
      longBytes packet.ackno ++
      wordBytes (BitVec.ofNat 16 ((5 + packet.options.length / 4) * 4096) |||
        packet.flags.bits) ++ wordBytes packet.wnd,
    wordBytes 0 ++ packet.options ++ packet.payload, ?_, fun chksum => ?_⟩
  · simp
  · simp only [segmentWith, List.append_assoc]

/--
However the data of a TCP segment was written, joined, split and sent before,
and however it lies in memory, the checksum that goes into its header is that
of `Packet.segment`, and a receiver that sums the segment finds it right.
-/
theorem emitted_segment_checksum
    {packet : Packet}
    {seg : SegChksum}
    (queued : Queued packet.payload seg)
    (options : packet.options.length % 4 = 0)
    (fits : packet.segment.length < 65536)
    (optionsFit : packet.options.length ≤ 40)
    {p : List Buf}
    (chain : chainBytes p = packet.segmentWith 0) :
    ∃ chksum,
      outputSegmentChksum p (BitVec.ofNat 16 packet.segment.length)
          (20 + packet.options.length) (toIpAddrT 0 packet.srcIp)
          (toIpAddrT 0 packet.destIp) seg =
        some (chksum, seg) ∧
      packet.segmentWith (lwipHtons chksum) = packet.segment ∧
      internetSum
          (pseudoHeader (toIpAddrT 0 packet.srcIp) (toIpAddrT 0 packet.destIp)
              ipProtoTcp (BitVec.ofNat 16 packet.segment.length) ++
            packet.segment) =
        0xffff := by
  have length := packet.header_length 0
  have sent : (packet.segmentWith 0).length = packet.segment.length := by
    rw [Packet.segment_length, Packet.segmentWith_eq, List.length_append, length]
  have whole : chainBytes p = packet.header 0 ++ packet.payload := chain
  have out := outputSegmentChksum_eq queued.checked whole (by omega) (by omega)
    (BitVec.ofNat 16 packet.segment.length) (toIpAddrT 0 packet.srcIp)
    (toIpAddrT 0 packet.destIp)
  rw [length, ← Packet.segmentWith_eq] at out
  have chksum :
      ipChksumPseudo (packet.segmentWith 0) ipProtoTcp (toIpAddrT 0 packet.srcIp)
          (toIpAddrT 0 packet.destIp) =
        internetChecksum
          (pseudoHeader (toIpAddrT 0 packet.srcIp) (toIpAddrT 0 packet.destIp)
              ipProtoTcp (BitVec.ofNat 16 packet.segment.length) ++
            packet.segmentWith 0) := by
    rw [ipChksumPseudo_eq (by omega), sent]
  refine ⟨_, out, ?_, ?_⟩
  · rw [lwipHtons_lwipHtons, ← chksum]
    rfl
  · obtain ⟨front, back, even, split⟩ := packet.segmentWith_chksum
    have frontEven :
        (pseudoHeader (toIpAddrT 0 packet.srcIp) (toIpAddrT 0 packet.destIp) ipProtoTcp
            (BitVec.ofNat 16 packet.segment.length) ++ front).length % 2 = 0 := by
      have header := pseudoHeader_even (toIpAddrT 0 packet.srcIp)
        (toIpAddrT 0 packet.destIp) ipProtoTcp (BitVec.ofNat 16 packet.segment.length)
      rw [List.length_append]
      omega
    have verified := internetSum_checksum frontEven back
    rw [List.append_assoc, List.append_assoc, ← split, ← split, ← chksum] at verified
    exact verified

/-- A segment of seven bytes, put together out of pieces of odd lengths. -/
def oddPiecesPacket : Packet where
  srcIp := .v4 0x01010101
  destIp := .v4 0x0a000001
  src := 80
  dest := 1000
  seqno := 6511
  ackno := 100
  flags := { ack := true }
  wnd := 8192
  options := []
  payload := [1, 2, 3, 4, 5, 6, 7]

theorem emitted_segment_checksum_odd_pieces :
    internetSum
        (pseudoHeader (toIpAddrT 0 (.v4 0x01010101)) (toIpAddrT 0 (.v4 0x0a000001))
            ipProtoTcp 27 ++
          oddPiecesPacket.segment) =
      0xffff := by
  have written :=
    ((Queued.written 9 [1, 2, 3]).concatenated 6 [4]).filled 3 [5, 6, 7, 8, 9]
  have queued :=
    @Queued.trimmed _ [0, 0, 0, 0] _ _ written 7
      [⟨2, [0, 0, 0, 0, 1, 2, 3]⟩, ⟨6, [4, 5, 6, 7]⟩] rfl rfl
  obtain ⟨_, _, _, verified⟩ :=
    @emitted_segment_checksum oddPiecesPacket _ queued rfl (by decide) (by decide)
      [⟨1, (oddPiecesPacket.segmentWith 0).take 25⟩,
        ⟨4, (oddPiecesPacket.segmentWith 0).drop 25⟩] rfl
  exact verified

/-- The bytes of a UDP datagram with `chksum` in its checksum field. -/
def UdpHdr.datagram (hdr : UdpHdr) (data : Bytes) (chksum : BitVec 16) : Bytes :=
  UdpHdr.bytes { hdr with chksum } ++ data

theorem UdpHdr.datagram_length (hdr : UdpHdr) (data : Bytes) (chksum : BitVec 16) :
    (hdr.datagram data chksum).length = data.length + 8 := by
  rw [datagram, List.length_append, bytes_length]
  omega

theorem UdpHdr.datagram_eq (hdr : UdpHdr) (data : Bytes) (chksum : BitVec 16) :
    hdr.datagram data chksum =
      wordBytes hdr.src ++ wordBytes hdr.dest ++ wordBytes hdr.len ++
        (wordBytes chksum ++ data) := by
  rw [datagram, UdpHdr.bytes, List.append_assoc]

/-- The Internet checksum of the pseudo header and the whole datagram, in which
its own field counts as zero. -/
def UdpHdr.wholeChecksum (hdr : UdpHdr) (data : Bytes) (src dest : IpAddrT) :
    BitVec 16 :=
  internetChecksum
    (pseudoHeader src dest ipProtoUdp hdr.len ++ hdr.datagram data 0)

/-- That checksum is in the header, with all ones in place of zero. -/
def UdpHdr.Summed (hdr : UdpHdr) (data : Bytes) (src dest : IpAddrT) : Prop :=
  hdr.chksum =
    if hdr.wholeChecksum data src dest = 0 then 0xffff
    else hdr.wholeChecksum data src dest

theorem udpOutputHdr_summed
    {data : Bytes}
    (fits : data.length + 8 < 65536)
    (src dest : IpAddrT)
    (srcPort destPort : BitVec 16) :
    (udpOutputHdr data dest destPort src srcPort).Summed data src dest := by
  have length := (udpOutputHdr data dest destPort src srcPort).datagram_length data 0
  have pseudo :=
    @ipChksumPseudo_eq ((udpOutputHdr data dest destPort src srcPort).datagram data 0)
      (by omega) ipProtoUdp src dest
  rw [length] at pseudo
  have whole :
      (udpOutputHdr data dest destPort src srcPort).wholeChecksum data src dest =
        NetstackLwip.ipChksumPseudo
          ((udpOutputHdr data dest destPort src srcPort).datagram data 0)
          ipProtoUdp src dest :=
    pseudo.symm
  rw [UdpHdr.Summed, whole]
  rfl

section Datagram

variable {hdr : UdpHdr} {data : Bytes} {src dest : IpAddrT}

/-- A datagram sums to all ones behind its pseudo header, with the checksum or
with all ones in place of a checksum of zero. -/
theorem UdpHdr.Summed.verified (summed : hdr.Summed data src dest) :
    internetSum
        (pseudoHeader src dest ipProtoUdp hdr.len ++ (hdr.bytes ++ data)) =
      0xffff := by
  have even :
      (pseudoHeader src dest ipProtoUdp hdr.len ++
          (wordBytes hdr.src ++ wordBytes hdr.dest ++ wordBytes hdr.len)).length % 2 =
        0 := by
    have header := pseudoHeader_even src dest ipProtoUdp hdr.len
    rw [List.length_append, List.length_append, List.length_append, wordBytes_length,
      wordBytes_length, wordBytes_length]
    omega
  have bytes : hdr.bytes ++ data = hdr.datagram data hdr.chksum := rfl
  rw [UdpHdr.Summed, UdpHdr.wholeChecksum] at summed
  rw [bytes]
  rw [UdpHdr.datagram_eq, ← List.append_assoc] at summed ⊢
  by_cases zero :
      internetChecksum
        (pseudoHeader src dest ipProtoUdp hdr.len ++
          (wordBytes hdr.src ++ wordBytes hdr.dest ++ wordBytes hdr.len) ++
            (wordBytes 0 ++ data)) = 0
  · rw [if_pos zero] at summed
    rw [summed]
    exact internetSum_ones even zero
  · rw [if_neg zero] at summed
    rw [summed]
    exact internetSum_checksum even data

/-- The checksum functions store it however the datagram lies in memory. -/
theorem UdpHdr.Summed.stored
    (summed : hdr.Summed data src dest)
    {p : List Buf}
    (chain : chainBytes p = hdr.datagram data 0) :
    storeU16 (InetChksum.udpChksum p hdr.len src dest) =
      wordBytes hdr.chksum := by
  have computed := InetChksum.ipChksumPseudo_eq p ipProtoUdp hdr.len src dest
  rw [chain, ← UdpHdr.wholeChecksum] at computed
  rw [InetChksum.udpChksum, computed, summed]
  generalize hdr.wholeChecksum data src dest = sum
  by_cases zero : sum = 0
  · rw [zero]
    rfl
  · have stored : lwipHtons sum ≠ 0 := by
      intro cleared
      apply zero
      rw [← lwipHtons_lwipHtons sum, cleared]
      rfl
    rw [if_neg zero, if_neg stored, storeU16_lwipHtons]

end Datagram

/--
The checksum of a UDP datagram, however its header and its data lie in memory:
it is never the zero that stands for none, and a receiver that sums the
datagram finds it right.
-/
theorem emitted_datagram_checksum
    {data : Bytes}
    (fits : data.length + 8 < 65536)
    (src dest : IpAddrT)
    (srcPort destPort : BitVec 16)
    {p : List Buf}
    (chain :
      chainBytes p = (udpOutputHdr data dest destPort src srcPort).datagram data 0) :
    storeU16
          (InetChksum.udpChksum p (BitVec.ofNat 16 (data.length + 8)) src dest) =
        wordBytes (udpOutputHdr data dest destPort src srcPort).chksum ∧
      (udpOutputHdr data dest destPort src srcPort).chksum ≠ 0 ∧
      internetSum
          (pseudoHeader src dest ipProtoUdp (BitVec.ofNat 16 (data.length + 8)) ++
            ((udpOutputHdr data dest destPort src srcPort).bytes ++ data)) =
        0xffff := by
  have summed := udpOutputHdr_summed fits src dest srcPort destPort
  refine ⟨summed.stored chain, ?_, summed.verified⟩
  rw [summed]
  split
  · decide
  · assumption

theorem emitted_datagram_checksum_odd_address :
    internetSum
        (pseudoHeader ⟨true, 1⟩ ⟨true, 2⟩ ipProtoUdp 13 ++
          ((udpOutputHdr [1, 2, 3, 4, 5] ⟨true, 2⟩ 53 ⟨true, 1⟩ 5000).bytes ++
            [1, 2, 3, 4, 5])) =
      0xffff :=
  (@emitted_datagram_checksum [1, 2, 3, 4, 5] (by decide) ⟨true, 1⟩ ⟨true, 2⟩ 5000 53
    [⟨4, [0x13, 0x88, 0, 53, 0, 13, 0, 0]⟩, ⟨7, [1, 2, 3, 4, 5]⟩] rfl).2.2

/-! ## IPv4 headers -/

/-- The header with its checksum field apart. -/
theorem Ip4Hdr.bytesWith_eq (hdr : Ip4Hdr) (chksum : BitVec 16) :
    hdr.bytesWith chksum =
      ([0x45, .ofBitVec hdr.tos] ++ wordBytes hdr.len ++ wordBytes hdr.id ++
        wordBytes ((if hdr.mf then 0x2000 else 0) ||| hdr.offset.setWidth 16) ++
        [.ofBitVec hdr.ttl, .ofBitVec hdr.proto]) ++
      (wordBytes chksum ++ (longBytes hdr.src ++ longBytes hdr.dest)) := by
  simp only [bytesWith, List.append_assoc]

theorem Ip4Hdr.bytesWith_length (hdr : Ip4Hdr) (chksum : BitVec 16) :
    (hdr.bytesWith chksum).length = 20 := by
  simp [bytesWith]

/-- The header of a packet that is not a fragment has the words that the inline
sum takes. -/
theorem Ip4Hdr.hostSum_bytesWith
    {hdr : Ip4Hdr}
    (whole : hdr.offset = 0)
    (last : hdr.mf = false) :
    hostSum (hdr.bytesWith 0) =
      (lwipHtons ((0x45 : BitVec 8) ++ hdr.tos)).toNat + (lwipHtons hdr.len).toNat +
        (lwipHtons hdr.id).toNat + (lwipHtons (hdr.ttl ++ hdr.proto)).toNat +
        hostSum (longBytes hdr.src) + hostSum (longBytes hdr.dest) := by
  have zero : hostSum (wordBytes 0) = 0 := rfl
  have offset : hostSum (wordBytes (0 ||| (0 : BitVec 13).setWidth 16)) = 0 := rfl
  rw [bytesWith, whole, last, if_neg Bool.false_ne_true, lwipHtons_append, lwipHtons_append,
    lwipHtons_hostSum, lwipHtons_hostSum]
  simp only [List.append_assoc]
  rw [hostSum_even_append (by simp), hostSum_even_append (by simp),
    hostSum_even_append (by simp), hostSum_even_append (by simp),
    hostSum_even_append (by simp), hostSum_even_append (by simp),
    hostSum_even_append (by simp), zero, offset]
  have version : UInt8.ofBitVec (0x45 : BitVec 8) = 0x45 := rfl
  rw [version]
  omega

/-- The addresses' halves, as the inline sum takes them. -/
theorem inlineHalves (addr : BitVec 32) :
    (lowHalf (lwipHtonl addr)).toNat + (lwipHtonl addr >>> 16).toNat =
      hostSum (longBytes addr) := by
  have addrLt := (lwipHtonl addr).isLt
  have shifted : (lwipHtonl addr >>> 16).toNat = (lwipHtonl addr).toNat / 65536 := by
    rw [BitVec.toNat_ushiftRight, Nat.shiftRight_eq_div_pow]
  have high : (lwipHtonl addr).toNat / 65536 < 65536 := by omega
  rw [← halves_lwipHtonl, halves, BitVec.toNat_add, lowHalf_toNat, lowHalf_toNat, shifted,
    Nat.mod_eq_of_lt high]
  omega

/--
The IPv4 header of every packet is sent with a checksum that a receiver finds
right, and where a packet is not fragmented the sum taken while its header is
filled in is the one that `inet_chksum` gives for the header.
-/
theorem emitted_ip4_header_checksum (hdr : Ip4Hdr) :
    internetSum hdr.bytes = 0xffff ∧
      (hdr.offset = 0 → hdr.mf = false →
        storeU16 (ip4InlineChksum hdr) =
          wordBytes (NetstackLwip.inetChksum (hdr.bytesWith 0))) := by
  have chksum : NetstackLwip.inetChksum (hdr.bytesWith 0) =
      internetChecksum (hdr.bytesWith 0) := by
    apply inetChksum_eq
    rw [hdr.bytesWith_length]
    omega
  constructor
  · rw [Ip4Hdr.bytes, chksum, hdr.bytesWith_eq, hdr.bytesWith_eq 0]
    apply internetSum_checksum
    simp
  · intro whole last
    have counted := Ip4Hdr.hostSum_bytesWith whole last
    rw [← inlineHalves, ← inlineHalves] at counted
    have versionLt := (lwipHtons ((0x45 : BitVec 8) ++ hdr.tos)).isLt
    have lenLt := (lwipHtons hdr.len).isLt
    have idLt := (lwipHtons hdr.id).isLt
    have protoLt := (lwipHtons (hdr.ttl ++ hdr.proto)).isLt
    have srcLe := hostSum_longBytes_le hdr.src
    have destLe := hostSum_longBytes_le hdr.dest
    rw [← inlineHalves] at srcLe destLe
    rw [chksum, internetChecksum, ← storeU16_lwipHtons, lwipHtons_not]
    unfold ip4InlineChksum
    dsimp only
    rw [BitVec.setWidth_not (by omega)]
    apply congrArg fun sum => storeU16 (~~~ sum)
    apply eq_lwipHtons_internetSum
    generalize total :
      (lwipHtons (hdr.ttl ++ hdr.proto)).setWidth 32 + lowHalf (lwipHtonl hdr.dest) +
          lwipHtonl hdr.dest >>> 16 +
          (lwipHtons ((0x45 : BitVec 8) ++ hdr.tos)).setWidth 32 +
          (lwipHtons hdr.len).setWidth 32 + (lwipHtons hdr.id).setWidth 32 +
          lowHalf (lwipHtonl hdr.src) + lwipHtonl hdr.src >>> 16 = chkSum
    have sum : chkSum.toNat = hostSum (hdr.bytesWith 0) := by
      rw [← total, counted]
      simp only [BitVec.toNat_add, BitVec.toNat_setWidth]
      omega
    have folded := foldU32T_toNat chkSum
    have same := foldU32T_sameSum chkSum
    rw [sum] at same
    have once : chkSum >>> 16 + lowHalf chkSum = InetChksum.foldU32T chkSum := rfl
    have again : ((InetChksum.foldU32T chkSum >>> 16 + InetChksum.foldU32T chkSum).setWidth
          16).toNat =
        (InetChksum.foldU32T chkSum).toNat / 65536 +
          (InetChksum.foldU32T chkSum).toNat % 65536 := by
      have small : (InetChksum.foldU32T chkSum).toNat < 131071 := by omega
      rw [BitVec.toNat_setWidth, BitVec.toNat_add, BitVec.toNat_ushiftRight,
        Nat.shiftRight_eq_div_pow]
      by_cases below : (InetChksum.foldU32T chkSum).toNat < 65536
      · rw [Nat.div_eq_of_lt below]
        omega
      · omega
    rw [once, again]
    exact (fold_onesEq (by omega) _).trans same

/-- The header of a UDP packet of 28 bytes. -/
def exampleUdpHdr : Ip4Hdr where
  tos := 0
  len := 28
  id := 7
  offset := 0
  mf := false
  ttl := 255
  proto := ipProtoUdp
  src := 0x0a000001
  dest := 0xc0a80102

theorem emitted_ip4_header_checksum_udp :
    internetSum exampleUdpHdr.bytes = 0xffff ∧
      storeU16 (ip4InlineChksum exampleUdpHdr) =
        wordBytes (NetstackLwip.inetChksum (exampleUdpHdr.bytesWith 0)) :=
  ⟨(emitted_ip4_header_checksum exampleUdpHdr).1,
    (emitted_ip4_header_checksum exampleUdpHdr).2 rfl rfl⟩

end NetstackLwip

import NetstackLwip.EmittedChecksums
import NetstackLwip.SoundSegments
import NetstackLwip.UdpEgress

namespace NetstackLwip

/-!
# The checksums that are sent

In every run each segment is sent with the Internet checksum of its pseudo
header and all its bytes, as if it had been summed from the start, and so is
each datagram of `send_udp`. Where the bytes lie makes no difference.
-/

open OnesComplement InetChksum

/-! ## Segments -/

/-- The Internet checksum of the pseudo header and the whole segment, in which
its own field counts as zero. -/
def Packet.wholeChecksum (packet : Packet) : BitVec 16 :=
  internetChecksum
    (pseudoHeader (toIpAddrT 0 packet.srcIp) (toIpAddrT 0 packet.destIp)
        ipProtoTcp (BitVec.ofNat 16 packet.segment.length) ++
      packet.segmentWith 0)

theorem Packet.segment_eq
    {packet : Packet}
    (fits : packet.segment.length < 65536) :
    packet.segment = packet.segmentWith packet.wholeChecksum := by
  have length : (packet.segmentWith 0).length = packet.segment.length := by
    rw [packet.segmentWith_length, packet.segment_length]
  rw [wholeChecksum, ← length,
    ← NetstackLwip.ipChksumPseudo_eq (by rw [length]; exact fits)]
  rfl

theorem Packet.controlChksum_eq (packet : Packet) :
    packet.controlChksum = lwipHtons packet.wholeChecksum := by
  have one : chainBytes [⟨0, packet.segmentWith 0⟩] = packet.segmentWith 0 :=
    List.append_nil _
  rw [controlChksum, InetChksum.ipChksumPseudo_eq, one, wholeChecksum,
    packet.segmentWith_length, packet.segment_length]

/-- What was kept for the data completes the header's part. -/
theorem Packet.segmentChksum_eq
    {packet : Packet}
    {seg : SegChksum}
    (queued : Queued packet.payload seg)
    (words : packet.options.length % 2 = 0)
    (most : packet.options.length ≤ 40) :
    packet.segmentChksum seg = lwipHtons packet.wholeChecksum := by
  have length := packet.header_length 0
  have chain :
      chainBytes [⟨0, packet.segmentWith 0⟩] =
        packet.header 0 ++ packet.payload :=
    List.append_nil _
  have out := outputSegmentChksum_eq queued.checked chain (by omega) (by omega)
    (BitVec.ofNat 16 (packet.segmentWith 0).length)
    (toIpAddrT 0 packet.srcIp) (toIpAddrT 0 packet.destIp)
  rw [length] at out
  rw [segmentChksum, out, wholeChecksum, packet.segmentWith_length,
    packet.segment_length]
  rfl

theorem SoundPacket.chksum_eq
    {packet : Packet}
    (sound : SoundPacket packet) :
    packet.chksum = lwipHtons packet.wholeChecksum := by
  rcases sound.summed with whole | ⟨seg, queued, header⟩
  · rw [whole, packet.controlChksum_eq]
  · have options := sound.options
    rw [header, Packet.segmentChksum_eq queued (by omega) (by omega)]

theorem SmallPacket.length_lt
    {packet : Packet}
    (small : SmallPacket packet) :
    packet.segment.length + 40 < 65536 := by
  have fits := small.fits
  have mss : tcpMss = 1460 := rfl
  rw [packet.segment_length]
  omega

/-- The segment as it is stored is the segment as it should be. -/
theorem SoundPacket.stored
    {packet : Packet}
    (sound : SoundPacket packet) :
    packet.segmentWith (lwipHtons packet.chksum) = packet.segment := by
  have fits := sound.toSmallPacket.length_lt
  rw [sound.chksum_eq, lwipHtons_lwipHtons, Packet.segment_eq (by omega)]

/-! ## Addresses and buffers -/

theorem lwipStandardChksum_eq (dataptr : Nat) (data : Bytes) :
    lwipStandardChksum dataptr data = lwipHtons (internetSum data) :=
  eq_lwipHtons_internetSum (lwipStandardChksum_sameSum dataptr data)

theorem inetChksum_place (dataptr other : Nat) (data : Bytes) :
    InetChksum.inetChksum dataptr data = InetChksum.inetChksum other data := by
  rw [InetChksum.inetChksum, InetChksum.inetChksum, lwipStandardChksum_eq,
    lwipStandardChksum_eq]

theorem tcpDataCopy_place
    (dst other : Nat)
    (data : Bytes)
    (seg : SegChksum) :
    tcpDataCopy dst data seg = tcpDataCopy other data seg := by
  rw [tcpDataCopy, tcpDataCopy, lwipChksumCopy, lwipChksumCopy,
    lwipStandardChksum_eq, lwipStandardChksum_eq]

theorem sumPayload_place
    {p others : List Buf}
    (same : p.map Buf.data = others.map Buf.data)
    (offset : Nat)
    (seg : SegChksum) :
    sumPayload p offset seg = sumPayload others offset seg := by
  induction p generalizing others offset seg with
  | nil => rw [List.map_eq_nil_iff.mp same.symm]
  | cons q rest inductionHypothesis =>
      obtain ⟨other, behind, rfl, data, left⟩ :=
        List.map_eq_cons_iff.mp same.symm
      rw [sumPayload, sumPayload, inductionHypothesis left.symm, data,
        inetChksum_place (q.payload + offset) (other.payload + offset)]

theorem splitHeadChksum_place
    {p others : List Buf}
    (same : p.map Buf.data = others.map Buf.data)
    (offset : Nat) :
    splitHeadChksum p offset = splitHeadChksum others offset := by
  induction p generalizing others offset with
  | nil => rw [List.map_eq_nil_iff.mp same.symm]
  | cons q rest inductionHypothesis =>
      obtain ⟨other, behind, rfl, data, left⟩ :=
        List.map_eq_cons_iff.mp same.symm
      have next := inductionHypothesis left.symm
      unfold splitHeadChksum at next ⊢
      rw [payloadStart, payloadStart, data]
      by_cases short : q.data.length < offset
      · rw [if_pos short, if_pos short]
        exact next _
      · rw [if_neg short, if_neg short]
        exact congrArg some (sumPayload_place same offset {})

/-- The checksums depend neither on the addresses that bytes are copied to or
summed at, nor, where a whole packet is summed, on its buffers. -/
structure PlaceFree : Prop where
  copied (dst other : Nat) (data : Bytes) (seg : SegChksum) :
    tcpDataCopy dst data seg = tcpDataCopy other data seg
  concatenated (dst other : Nat) (data : Bytes) (seg : SegChksum) :
    tcpConcatChksum dst data seg = tcpConcatChksum other data seg
  remainder (dst other : Nat) (data : Bytes) :
    splitRemainderChksum dst data = splitRemainderChksum other data
  trimmed (p others : List Buf) (offset : Nat) :
    p.map Buf.data = others.map Buf.data →
      splitHeadChksum p offset = splitHeadChksum others offset
  control (p others : List Buf) (protoLen : BitVec 16) (src dest : IpAddrT) :
    chainBytes p = chainBytes others →
      InetChksum.ipChksumPseudo p ipProtoTcp protoLen src dest =
        InetChksum.ipChksumPseudo others ipProtoTcp protoLen src dest
  segment (p others : List Buf) (protoLen : BitVec 16) (hdrlen : Nat)
    (src dest : IpAddrT) (seg : SegChksum) :
    chainBytes p = chainBytes others →
      hdrlen ≤ 60 →
        outputSegmentChksum p protoLen hdrlen src dest seg =
          outputSegmentChksum others protoLen hdrlen src dest seg

theorem placeFree : PlaceFree where
  copied := tcpDataCopy_place
  concatenated dst other data seg := by
    rw [tcpConcatChksum, tcpConcatChksum, tcpDataCopy_place dst other]
  remainder dst other data := by
    rw [splitRemainderChksum, splitRemainderChksum,
      inetChksum_place dst other]
  trimmed _ _ offset same := splitHeadChksum_place same offset
  control p others protoLen src dest same := by
    rw [InetChksum.ipChksumPseudo_eq, InetChksum.ipChksumPseudo_eq, same]
  segment p others protoLen hdrlen src dest seg same most := by
    have small : hdrlen < 0x7fff := Nat.lt_of_le_of_lt most (by decide)
    rw [outputSegmentChksum, outputSegmentChksum,
      ipChksumPseudoPartial_eq p _ _ _ _ small,
      ipChksumPseudoPartial_eq others _ _ _ _ small, same]

/-! ## Datagrams -/

/-- `send_udp` fails before the IP layer is reached, or gives it a header and
data with the Internet checksum of the datagram, which the checksum functions
store however the datagram lies in its buffers. -/
inductive SendsSummed
    (src dest : IpAddrT)
    (stack : IpStack) :
    Err × IpStack → Prop where
  | refused {after : IpStack} (handed : after.handed = stack.handed) :
      SendsSummed src dest stack (.mem, after)
  | given
      {hdr : UdpHdr}
      {data : Bytes}
      {next : IpStack}
      (handed : next.handed = stack.handed)
      (len : hdr.len.toNat = data.length + 8)
      (summed : hdr.Summed data src dest)
      (stored :
        ∀ p : List Buf,
          chainBytes p = hdr.datagram data 0 →
            storeU16 (InetChksum.udpChksum p hdr.len src dest) =
              wordBytes hdr.chksum) :
      SendsSummed src dest stack
        (ipOutputIfSrc (hdr.bytes ++ data) src dest ipDefaultTtl 0 ipProtoUdp
          next)

theorem sendUdp_summed
    (src dest : SocketAddr)
    (stale : BitVec 96)
    (data : Bytes)
    (stack : IpStack) :
    SendsSummed (toIpAddrT stale src.ip) (toIpAddrT stale dest.ip) stack
      (sendUdp src dest stale data stack) := by
  have below : data.length % 65536 < 65536 := Nat.mod_lt _ (by decide)
  have narrowed :
      (data.take (data.length % 65536)).length = data.length % 65536 :=
    List.length_take_of_le (Nat.mod_le _ _)
  unfold sendUdp udpSendtoIfSrcChksum
  generalize data.take (data.length % 65536) = body at narrowed ⊢
  split
  · exact .refused rfl
  · rename_i noOverflow
    have fits : body.length + 8 < 65536 := by
      unfold udpHlen at noOverflow
      omega
    rcases stack.allocate_cases with
      ⟨allocs, outcome, _⟩ | ⟨allocs, outcome, _⟩
    · simp only [outcome, if_true]
      have summed := udpOutputHdr_summed fits (toIpAddrT stale src.ip)
        (toIpAddrT stale dest.ip) src.port dest.port
      refine .given rfl ?_ summed fun p chain => summed.stored chain
      exact Nat.mod_eq_of_lt fits
    · simp only [outcome, if_false, Bool.false_eq_true]
      exact .refused rfl

/-! ## Every run -/

/-- Whatever is written to a connection, in whatever pieces, and however it is
joined, cut, sent again and closed, each segment is sent with the Internet
checksum of its pseudo header and all its bytes; so is each datagram of
`send_udp`, with all ones in place of zero; and none of this depends on where
the bytes lie. -/
theorem emitted_checksums_right
    {conn : Conn}
    (reached : connMachine.Reached conn) :
    (∀ packet ∈ conn.world.sent,
        storeU16 packet.chksum = wordBytes packet.wholeChecksum ∧
          packet.segmentWith (lwipHtons packet.chksum) = packet.segment) ∧
      (∀ src dest stale data stack,
        SendsSummed (toIpAddrT stale src.ip) (toIpAddrT stale dest.ip) stack
          (sendUdp src dest stale data stack)) ∧
      PlaceFree := by
  refine ⟨fun packet sent => ?_, sendUdp_summed, placeFree⟩
  have sound := sound_of_reached reached packet sent
  refine ⟨?_, sound.stored⟩
  rw [sound.chksum_eq, storeU16_lwipHtons]

/-- The peer acknowledges what comes before `ackno`, and has a window of `wnd`
bytes. -/
def exampleAck (ackno : SeqNo) (wnd : BitVec 16) : Label where
  event := .segment (exampleSegment { ack := true } 100 ackno wnd [] [])

/-- Six bytes are written behind a full window, one and then five, and closed;
the persist timer cuts them after five, and these are sent twice before the
window opens. -/
theorem emitted_checksums_right_pieces :
    ∃ conn,
      connMachine.Reached conn ∧
        conn.world.sent.map Packet.payload =
            [[], [1, 2, 3], [4, 5, 6, 7, 8], [4, 5, 6, 7, 8], [9]] ∧
          ∀ packet ∈ conn.world.sent,
            storeU16 packet.chksum = wordBytes packet.wholeChecksum ∧
              packet.segmentWith (lwipHtons packet.chksum) =
                packet.segment := by
  obtain ⟨conn, reached, sent⟩ :=
    exists_reached (exampleSyn 1000 [2, 4, 5, 180]) 0 0 exampleWorld
      ([exampleAck 1 3, { event := .pollWrite [1, 2, 3] },
          { event := .pollWrite [4] }, { event := .pollWrite [5, 6, 7, 8, 9] },
          { event := .pollShutdown }, exampleAck 4 5] ++
        List.replicate 12 { event := .slowtmr } ++ [exampleAck 9 1000])
      (fun conn =>
        conn.world.sent.map Packet.payload ==
          [[], [1, 2, 3], [4, 5, 6, 7, 8], [4, 5, 6, 7, 8], [9]])
      rfl rfl rfl (by decide +kernel)
  exact ⟨conn, reached, eq_of_beq sent, (emitted_checksums_right reached).1⟩

end NetstackLwip

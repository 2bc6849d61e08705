import NetstackLwip.HeaderWalk

namespace NetstackLwip

/-!
# UDP ingress

What a vector with a UDP datagram for a unicast destination becomes at the
sink: one item with everything behind the UDP header. The length field of that
header plays no part, so the item is the datagram's data exactly when the
field agrees with the length of the IP payload.
-/

open FaultState

/-! ## Words on the wire -/

theorem wordAt_wordBytes (word : BitVec 16) :
    (UInt8.ofBitVec (word.extractLsb' 8 8)).toBitVec ++
      (UInt8.ofBitVec (word.extractLsb' 0 8)).toBitVec = word :=
  BitVec.extractLsb'_append_extractLsb'

theorem longAt_longBytes (long : BitVec 32) :
    (UInt8.ofBitVec ((long.extractLsb' 16 16).extractLsb' 8 8)).toBitVec ++
        (UInt8.ofBitVec ((long.extractLsb' 16 16).extractLsb' 0 8)).toBitVec ++
      ((UInt8.ofBitVec ((long.extractLsb' 0 16).extractLsb' 8 8)).toBitVec ++
        (UInt8.ofBitVec ((long.extractLsb' 0 16).extractLsb' 0 8)).toBitVec) =
      long := by
  rw [wordAt_wordBytes, wordAt_wordBytes]
  exact BitVec.extractLsb'_append_extractLsb'

/-- A word that was written is read back. -/
theorem wordAt_overwrite
    {bytes : Bytes}
    {index : Nat}
    {word : BitVec 16}
    (fits : index + 2 ≤ bytes.length) :
    wordAt (overwrite bytes index (wordBytes word)) index = word := by
  have front : (bytes.take index).length = index := by
    rw [List.length_take]
    omega
  have first := @byteAt_append_right (bytes.take index) 0
    (wordBytes word ++ bytes.drop (index + (wordBytes word).length))
  have second := @byteAt_append_right (bytes.take index) 1
    (wordBytes word ++ bytes.drop (index + (wordBytes word).length))
  rw [front] at first second
  rw [Nat.add_zero] at first
  rw [overwrite, List.append_assoc, wordAt, first, second]
  exact wordAt_wordBytes word

/-- A word beside what was written is kept. -/
theorem wordAt_overwrite_beside
    {bytes new : Bytes}
    {index other : Nat}
    (fits : index + new.length ≤ bytes.length)
    (beside : other + 1 < index ∨ index + new.length ≤ other) :
    wordAt (overwrite bytes index new) other = wordAt bytes other := by
  rw [wordAt, byteAt_overwrite fits (by omega), byteAt_overwrite fits (by omega),
    wordAt]

/-! ## Datagrams -/

/-- An address of one host. -/
def IpAddr.isUnicast (ip : IpAddr) : Bool :=
  !ip.isAny && !ip.isBroadcast && !ip.isMulticast

theorem IpAddr.isUnicast_iff {ip : IpAddr} :
    ip.isUnicast = true ↔
      ip.isAny = false ∧ ip.isBroadcast = false ∧ ip.isMulticast = false := by
  simp only [isUnicast, Bool.and_eq_true, Bool.not_eq_true', and_assoc]

/-- `vec` begins with an unfragmented IPv4 packet that carries `udp`. -/
structure Ip4Udp (vec : Bytes) (src dest : BitVec 32) (udp : Bytes) :
    Prop where
  version : byteAt vec 0 >>> 4 = 4
  hdrLen : ipHlen ≤ iphHlBytes vec
  hdrFits : iphHlBytes vec ≤ (wordAt vec 2).toNat
  fits : (wordAt vec 2).toNat ≤ vec.length
  udp_eq : (vec.take (wordAt vec 2).toNat).drop (iphHlBytes vec) = udp
  whole : wordAt vec 6 &&& 0x3fff = 0
  proto : byteAt vec 9 = .ofBitVec ipProtoUdp
  src_eq : longAt vec 12 = src
  dest_eq : longAt vec 16 = dest

/-- `vec` begins with an IPv6 packet whose extension headers `exts` lead to
`udp`. -/
structure Ip6Udp (vec : Bytes) (src dest : BitVec 128) (exts udp : Bytes) :
    Prop where
  version : byteAt vec 0 >>> 4 = 6
  hdrFits : ip6Hlen ≤ vec.length
  fits : ip6Hlen + (wordAt vec 4).toNat ≤ vec.length
  data : (vec.drop ip6Hlen).take (wordAt vec 4).toNat = exts ++ udp
  headers : ExtHeaders (byteAt vec 6) exts (.ofBitVec ipProtoUdp)
  src_eq : addrAt vec 8 = src
  dest_eq : addrAt vec 24 = dest
  notMapped : isIpv4Mapped src = false ∧ isIpv4Mapped dest = false

/-- `vec` begins with an IP packet of `ipLen` bytes that carries the UDP
datagram `udp` from one host to another. -/
inductive IpUdp (vec : Bytes) : Nat → IpAddr → IpAddr → Bytes → Prop where
  | v4
      {src dest : BitVec 32}
      {udp : Bytes} :
      Ip4Udp vec src dest udp →
      (IpAddr.v4 src).isUnicast = true →
      (IpAddr.v4 dest).isUnicast = true →
      IpUdp vec (wordAt vec 2).toNat (.v4 src) (.v4 dest) udp
  | v6
      {src dest : BitVec 128}
      {exts udp : Bytes} :
      Ip6Udp vec src dest exts udp →
      (IpAddr.v6 src).isUnicast = true →
      (IpAddr.v6 dest).isUnicast = true →
      IpUdp vec (ip6Hlen + (wordAt vec 4).toNat) (.v6 src) (.v6 dest) udp

/-- The length field of a UDP header. -/
def udpHdrLen (udp : Bytes) : Nat :=
  (wordAt udp 4).toNat

/-- The item that a UDP datagram stands for: none when its length field is
impossible. -/
def udpItems (src dest : IpAddr) (udp : Bytes) : List UdpPkt :=
  if udpHlen ≤ udpHdrLen udp ∧ udpHdrLen udp ≤ udp.length then
    [((udp.take (udpHdrLen udp)).drop udpHlen, ⟨src, wordAt udp 0⟩,
      ⟨dest, wordAt udp 2⟩)]
  else
    []

/-- The whole vector as a buffer. -/
def wholePbuf (addr : Nat) (vec : Bytes) : PBuf where
  addr
  mem := vec
  len := vec.length

theorem wholePbuf_held (addr : Nat) (vec : Bytes) : (wholePbuf addr vec).Held := by
  simp [PBuf.Held, wholePbuf]

@[simp]
theorem wholePbuf_data (addr : Nat) (vec : Bytes) :
    (wholePbuf addr vec).data = vec := by
  simp [PBuf.data, wholePbuf]

/-- The packet handed to `udp_input`, nothing else being changed. -/
structure HandsUp
    (src dest : IpAddr)
    (udp : Bytes)
    (input : IpInput)
    (up : Option Upward)
    (next : IpInput) :
    Prop where
  packet :
    ∃ p : PBuf, up = some ⟨.udp, src, dest, { head := p }⟩ ∧ p.Held ∧
      p.data = udp
  rest : next = { input with currentIp6Header := next.currentIp6Header }

section Ip4

variable {vec udp : Bytes} {src dest : BitVec 32} {addr : Nat}
  {allowed : IpFault → Prop} {input : IpInput}

/-- An IPv4 packet with a UDP datagram is handed to `udp_input` without the
padding behind it. -/
theorem ip4Input_udp
    (packet : Ip4Udp vec src dest udp)
    (unicast : (IpAddr.v4 src).isUnicast = true) :
    wp (ip4Input (wholePbuf addr vec))
      (HandsUp (.v4 src) (.v4 dest) udp input) allowed input := by
  obtain ⟨version, hdrLen, hdrFits, fits, rfl, whole, proto, rfl, rfl⟩ := packet
  simp only [ipHlen] at hdrLen
  rw [IpAddr.isUnicast_iff] at unicast
  have long : 20 ≤ vec.length := by omega
  have inside (p : PBuf) (index : Nat) (same : p.mem = vec ∧ p.payload = 0)
      (small : index < 20) : p.payload + index < p.mem.length := by
    rw [same.1, same.2]
    omega
  set cut := (wholePbuf addr vec).realloc (wordAt vec 2).toNat with cutEq
  have cutLen : cut.len = (wordAt vec 2).toNat := by
    rw [cutEq, PBuf.realloc]
    split
    · rename_i all
      simp only [wholePbuf] at all ⊢
      omega
    · rfl
  have cutMem : cut.mem = vec ∧ cut.payload = 0 := by
    rw [cutEq, PBuf.realloc]
    split <;> exact ⟨rfl, rfl⟩
  have source : longAt cut.mem (cut.payload + 12) = longAt vec 12 := by
    rw [cutMem.1, cutMem.2]
  have target : longAt cut.mem (cut.payload + 16) = longAt vec 16 := by
    rw [cutMem.1, cutMem.2]
  have offset : wordAt cut.mem (cut.payload + 6) = wordAt vec 6 := by
    rw [cutMem.1, cutMem.2]
  have protocol : byteAt cut.mem (cut.payload + 9) = .ofBitVec ipProtoUdp := by
    rw [cutMem.1, cutMem.2]
    exact proto
  rw [ip4Input, wp_bind, wp_readByte (inside _ 0 ⟨rfl, rfl⟩ (by decide))]
  rw [if_neg (by simpa [wholePbuf] using version), wp_bind,
    wp_readWord (inside _ 3 ⟨rfl, rfl⟩ (by decide))]
  have total :
      wordAt (wholePbuf addr vec).mem ((wholePbuf addr vec).payload + 2) =
        wordAt vec 2 := by
    simp [wholePbuf]
  have hlen :
      (byteAt (wholePbuf addr vec).mem ((wholePbuf addr vec).payload + 0) &&&
        0xf).toNat * 4 = iphHlBytes vec := by
    simp [wholePbuf, iphHlBytes]
  rw [total, hlen, ← cutEq, if_neg (by simp only [ipHlen]; omega), wp_bind,
    wp_readLong (inside _ 19 cutMem (by decide)), wp_bind,
    wp_readLong (inside _ 15 cutMem (by decide)), source, target,
    if_neg (by simp [unicast]), wp_bind,
    wp_readWord (inside _ 7 cutMem (by decide)), offset,
    if_neg fun isFragment => isFragment whole]
  rw [ip4Deliver, wp_bind, wp_readByte (inside _ 9 cutMem (by decide)),
    protocol, wp_bind, wp_pbufRemoveHeader (by rw [cutLen]; exact hdrFits),
    if_pos rfl]
  refine ⟨⟨cut.skip (iphHlBytes vec), rfl, ?_, ?_⟩, rfl⟩
  · refine PBuf.Held.skip ?_ (by rw [cutLen]; exact hdrFits)
    rw [PBuf.Held, cutMem.1, cutMem.2, cutLen]
    omega
  · rw [PBuf.skip_data, PBuf.data, cutMem.1, cutMem.2, cutLen]
    rfl

end Ip4

section Ip6

variable {vec exts udp : Bytes} {src dest : BitVec 128} {addr : Nat}
  {allowed : IpFault → Prop} {input : IpInput}

theorem ip6Accepts_unicast
    {ip6Addrs : List (BitVec 128)}
    (unicast : (IpAddr.v6 dest).isUnicast = true) :
    ip6Accepts ip6Addrs dest = true := by
  simp [ip6Accepts, (IpAddr.isUnicast_iff.mp unicast).2.2]

theorem ne_zero_of_unicast
    (unicast : (IpAddr.v6 src).isUnicast = true) :
    src ≠ 0 := by
  rintro rfl
  cases unicast

/-- A packet from one host to one host is not for another. -/
theorem not_foreign_of_unicast
    {ip6Addrs : List (BitVec 128)}
    (source : (IpAddr.v6 src).isUnicast = true)
    (target : (IpAddr.v6 dest).isUnicast = true) :
    ¬((src = 0 ∧ (!isSolicitedNode dest) = true) ∨
      (!ip6Accepts ip6Addrs dest) = true) := by
  rintro (⟨zero, _⟩ | foreign)
  · exact ne_zero_of_unicast source zero
  · rw [ip6Accepts_unicast target] at foreign
    cases foreign

/-- An IPv6 packet whose extension headers are all accepted is handed to
`udp_input` from the UDP header on. -/
theorem ip6Input_udp
    (packet : Ip6Udp vec src dest exts udp)
    (small : vec.length < 65536)
    (source : (IpAddr.v6 src).isUnicast = true)
    (target : (IpAddr.v6 dest).isUnicast = true) :
    wp (ip6Input (wholePbuf addr vec))
      (HandsUp (.v6 src) (.v6 dest) udp input) allowed input := by
  obtain ⟨version, hdrFits, fits, data, headers, rfl, rfl, notMapped, destMapped⟩ :=
    packet
  have hlen : ip6Hlen = 40 := rfl
  have inside (p : PBuf) (index : Nat) (same : p.mem = vec ∧ p.payload = 0)
      (within : index < 40) : p.payload + index < p.mem.length := by
    rw [same.1, same.2]
    omega
  set plen := (wordAt vec 4).toNat with plenEq
  set cut := (wholePbuf addr vec).realloc (ip6Hlen + plen) with cutEq
  have cutLen : cut.len = ip6Hlen + plen := by
    rw [cutEq, PBuf.realloc]
    split
    · rename_i all
      simp only [wholePbuf] at all ⊢
      omega
    · rfl
  have cutMem : cut.mem = vec ∧ cut.payload = 0 := by
    rw [cutEq, PBuf.realloc]
    split <;> exact ⟨rfl, rfl⟩
  have cutHeld : cut.Held := by
    rw [PBuf.Held, cutMem.1, cutMem.2, cutLen]
    omega
  have notOther : longAt vec 0 >>> 28 = 6 := by
    apply BitVec.eq_of_toNat_eq
    rw [longAt_version, version]
    rfl
  have plenWord :
      wordAt (wholePbuf addr vec).mem ((wholePbuf addr vec).payload + 4) =
        wordAt vec 4 := by
    simp [wholePbuf]
  have vTcFl :
      longAt (wholePbuf addr vec).mem ((wholePbuf addr vec).payload + 0) =
        longAt vec 0 := by
    simp [wholePbuf]
  have destAddr : addrAt cut.mem (cut.payload + 24) = addrAt vec 24 := by
    rw [cutMem.1, cutMem.2]
  have srcAddr : addrAt cut.mem (cut.payload + 8) = addrAt vec 8 := by
    rw [cutMem.1, cutMem.2]
  have nexth : byteAt cut.mem (cut.payload + 6) = byteAt vec 6 := by
    rw [cutMem.1, cutMem.2]
  have notMulticast : (IpAddr.v6 (addrAt vec 8)).isMulticast = false :=
    (IpAddr.isUnicast_iff.mp source).2.2
  have whole : exts.length + udp.length = plen := by
    rw [← List.length_append, ← data, List.length_take, List.length_drop]
    omega
  have accepted :
      ¬((addrAt vec 8 = 0 ∧ (!isSolicitedNode (addrAt vec 24)) = true) ∨
        (!ip6Accepts input.ip6Addrs (addrAt vec 24)) = true) :=
    not_foreign_of_unicast source target
  rw [ip6Input, wp_bind, wp_readLong (inside _ 3 ⟨rfl, rfl⟩ (by decide)), vTcFl,
    if_neg (by rw [notOther]; decide), wp_bind,
    wp_readWord (inside _ 5 ⟨rfl, rfl⟩ (by decide)), plenWord, ← plenEq,
    if_neg (by simp only [wholePbuf]; omega), ← cutEq, wp_bind,
    wp_readAddr (inside _ 39 cutMem (by decide)), wp_bind,
    wp_readAddr (inside _ 23 cutMem (by decide)), destAddr, srcAddr,
    if_neg (by simp [notMapped, destMapped, notMulticast]), wp_bind,
    wp_modify, wp_bind, wp_get,
    if_neg accepted, wp_bind, wp_readByte (inside _ 6 cutMem (by decide)), nexth, wp_bind,
    wp_pbufRemoveHeader (by rw [cutLen]; omega), wp_bind]
  have skipped : (cut.skip ip6Hlen).data = exts ++ udp := by
    rw [PBuf.skip_data, PBuf.data, cutMem.1, cutMem.2, cutLen, List.drop_zero,
      List.drop_take, ← data]
    congr 1
    omega
  refine walkHeaders_passed headers rfl (by decide) (cutHeld.skip ?_) skipped
    (show ip6Hlen < 65536 by decide) ?_ ?_
  · rw [cutLen]
    omega
  · simp only [walkRounds]
    omega
  · simp only [ip6Deliver, wp_bind]
    refine showHeaders_back ?_ ?_ ?_
    · simp only [Ip6Walk.advance, Chain.skip_head, PBuf.skip_payload, cutMem.2]
      omega
    · simp only [Ip6Walk.advance, Chain.skip_head, Chain.skip_tail,
        PBuf.skip_len, cutLen, List.map_nil, List.sum_nil]
      omega
    · have behind :
          (Ip6Walk.advance
            { p := Chain.skip { head := cut } ip6Hlen
              nexth := byteAt vec 6
              hlenTot := ip6Hlen
              plen := wordAt vec 4
              hdrNexth := byteAt vec 6 }
            exts.length (.ofBitVec ipProtoUdp)).nexth =
              .ofBitVec ipProtoUdp := rfl
      rw [behind, if_neg (by decide), if_pos rfl]
      refine ⟨⟨(cut.skip ip6Hlen).skip exts.length, rfl, ?_, ?_⟩, rfl⟩
      · refine (cutHeld.skip ?_).skip ?_
        · rw [cutLen]
          omega
        · rw [PBuf.skip_len, cutLen]
          omega
      · rw [PBuf.skip_data, skipped, List.drop_left]

end Ip6

section Sink

variable {vec udp : Bytes} {src dest : IpAddr} {ipLen addr : Nat}
  {allowed : IpFault → Prop} {input : IpInput} {socket : UdpSocket}
  {rest : List UdpSocket}

/-- A packet with a UDP datagram is handed to `udp_input`. -/
theorem ipInput_udp
    (packet : IpUdp vec ipLen src dest udp)
    (small : vec.length < 65536) :
    wp (ipInput (wholePbuf addr vec)) (HandsUp src dest udp input) allowed
      input := by
  have first (long : 0 < vec.length) :
      wp (ipInput (wholePbuf addr vec)) (HandsUp src dest udp input) allowed
          input ↔
        wp
          (if byteAt vec 0 >>> 4 = 6 then ip6Input (wholePbuf addr vec)
          else ip4Input (wholePbuf addr vec))
          (HandsUp src dest udp input) allowed input := by
    rw [ipInput, wp_bind, wp_readByte (by simpa [wholePbuf] using long)]
    have version :
        byteAt (wholePbuf addr vec).mem ((wholePbuf addr vec).payload + 0) =
          byteAt vec 0 := by
      simp [wholePbuf]
    rw [version]
  cases packet with
  | v4 packet unicast =>
      have long := packet.hdrLen
      have hdrFits := packet.hdrFits
      have fits := packet.fits
      simp only [ipHlen] at long
      rw [first (by omega), packet.version, if_neg (by decide)]
      exact ip4Input_udp packet unicast
  | v6 packet source target =>
      have long := packet.hdrFits
      simp only [ip6Hlen] at long
      rw [first (by omega), packet.version, if_pos rfl]
      exact ip6Input_udp packet small source target

/-- `udp_input` puts everything behind the UDP header into the channel, if the
first buffer holds that header. -/
theorem udpInput_delivers
    {p : Chain}
    {post : Unit → IpInput → Prop}
    (held : p.Held)
    (small : p.data.length < 65536)
    (first : udpHlen ≤ p.data.length → udpHlen ≤ p.head.len)
    (sockets : input.sockets = socket :: rest)
    (room : socket.queue.length < socket.capacity)
    (delivered :
      post ()
        { input with
          sockets :=
            { socket with
              queue :=
                socket.queue ++
                  if udpHlen ≤ p.data.length then
                    [(p.data.drop udpHlen, ⟨src, wordAt p.data 0⟩,
                      ⟨dest, wordAt p.data 2⟩)]
                  else
                    [] } :: rest }) :
    wp (udpInput src dest p) post allowed input := by
  have size := Chain.data_length held
  have hlen : udpHlen = 8 := rfl
  rw [udpInput]
  by_cases short : p.head.len < udpHlen
  · rw [if_pos short]
    rw [if_neg (by omega), List.append_nil] at delivered
    have same :
        { input with sockets := { socket with queue := socket.queue } :: rest } =
          input := by
      rw [← sockets]
    rw [same] at delivered
    exact delivered
  · have inside := held.1
    unfold PBuf.Held at inside
    rw [if_pos (by omega)] at delivered
    rw [if_neg short, wp_bind, wp_readWord (by omega), wp_bind,
      wp_readWord (by omega), wp_bind, wp_get, sockets]
    dsimp only
    rw [wp_bind, wp_pbufRemoveHeader (by omega), wp_set]
    have total : (p.skip udpHlen).totLen = p.data.length - udpHlen := by
      simp only [Chain.totLen, Chain.skip_head, PBuf.skip_len, Chain.skip_tail]
      omega
    rw [udpRecvCb, if_pos room, total, Chain.skip_data held (by omega),
      List.take_of_length_le (by rw [List.length_drop]),
      Chain.wordAt_data held (by omega), Chain.wordAt_data held (by omega)]
    exact delivered

/-- A packet shorter than a header or than its own length is dropped. -/
theorem ip4Input_short
    {p : PBuf}
    {post : Option Upward → IpInput → Prop}
    (memory : input.slack.isSome)
    (held : p.Held)
    (short :
      p.len < ipHlen ∨ p.len < (wordAt p.mem (p.payload + 2)).toNat)
    (dropped : post none input) :
    wp (ip4Input p) post allowed input := by
  have hlen : ipHlen = 20 := rfl
  unfold PBuf.Held at held
  rw [ip4Input, wp_bind]
  refine wp_readByte_anywhere memory fun vhl _ => ?_
  rw [wp_ite]
  refine ⟨fun _ => dropped, fun _ => ?_⟩
  rw [wp_bind]
  refine wp_readWord_anywhere memory fun total totalAt => ?_
  rw [if_pos]
  · exact dropped
  · have shrinks : (p.realloc total.toNat).len ≤ p.len := by
      rw [PBuf.realloc]
      split
      · exact le_refl _
      · dsimp only
        omega
    rcases short with tiny | long
    · omega
    · by_cases tiny : p.len < ipHlen
      · omega
      · obtain rfl := totalAt (by omega)
        omega

theorem ip6Input_short
    {p : PBuf}
    {post : Option Upward → IpInput → Prop}
    (memory : input.slack.isSome)
    (held : p.Held)
    (short :
      p.len < ip6Hlen ∨
        p.len < ip6Hlen + (wordAt p.mem (p.payload + 4)).toNat)
    (dropped : post none input) :
    wp (ip6Input p) post allowed input := by
  have hlen : ip6Hlen = 40 := rfl
  unfold PBuf.Held at held
  rw [ip6Input, wp_bind]
  refine wp_readLong_anywhere memory fun vTcFl _ => ?_
  rw [wp_ite]
  refine ⟨fun _ => dropped, fun _ => ?_⟩
  rw [wp_bind]
  refine wp_readWord_anywhere memory fun plen plenAt => ?_
  rw [if_pos]
  · exact dropped
  · rcases short with tiny | long
    · exact .inl tiny
    · by_cases tiny : p.len < ip6Hlen
      · exact .inl tiny
      · refine .inr ?_
        rw [plenAt (by omega)]
        omega

/-- A packet of which a part is missing is dropped. -/
theorem ipInput_cut
    {post : Option Upward → IpInput → Prop}
    (memory : input.slack.isSome)
    (packet : IpUdp vec ipLen src dest udp)
    {size : Nat}
    (missing : size < ipLen)
    (fits : size ≤ vec.length)
    (dropped : post none input) :
    wp (ipInput (wholePbuf addr (vec.take size))) post allowed input := by
  have hlen : ipHlen = 20 := rfl
  have hlen6 : ip6Hlen = 40 := rfl
  have length : (vec.take size).length = size := by
    rw [List.length_take]
    omega
  have held := wholePbuf_held addr (vec.take size)
  rw [ipInput, wp_bind]
  refine wp_readByte_anywhere memory fun version versionAt => ?_
  simp only [wholePbuf, Nat.zero_add, length] at versionAt
  rw [wp_ite]
  cases packet with
  | v4 packet _ =>
      refine ⟨fun six => ?_, fun _ => ?_⟩
      · refine ip6Input_short memory held (.inl ?_) dropped
        by_cases empty : size = 0
        · simp only [wholePbuf, length]
          omega
        · rw [versionAt (by omega), byteAt_take (by omega), packet.version] at six
          cases six
      · refine ip4Input_short memory held ?_ dropped
        simp only [wholePbuf, length, Nat.zero_add]
        by_cases tiny : size < ipHlen
        · exact .inl tiny
        · rw [wordAt_take (by omega)]
          exact .inr missing
  | v6 packet _ _ =>
      refine ⟨fun _ => ?_, fun notSix => ?_⟩
      · refine ip6Input_short memory held ?_ dropped
        simp only [wholePbuf, length, Nat.zero_add]
        by_cases tiny : size < ip6Hlen
        · exact .inl tiny
        · rw [wordAt_take (by omega)]
          exact .inr missing
      · refine ip4Input_short memory held (.inl ?_) dropped
        by_cases empty : size = 0
        · simp only [wholePbuf, length]
          omega
        · rw [versionAt (by omega), byteAt_take (by omega)] at notSix
          exact absurd packet.version notSix

/-- A packet is still the same packet when padding behind it is cut off. -/
theorem IpUdp.take
    (packet : IpUdp vec ipLen src dest udp)
    {size : Nat}
    (kept : ipLen ≤ size)
    (fits : size ≤ vec.length) :
    IpUdp (vec.take size) ipLen src dest udp := by
  have length : (vec.take size).length = size := by
    rw [List.length_take]
    omega
  cases packet with
  | @v4 src dest udp packet source target =>
      obtain ⟨version, hdrLen, hdrFits, _, data, whole, proto, srcEq, destEq⟩ :=
        packet
      have hlen : 20 ≤ iphHlBytes vec := hdrLen
      have first : byteAt (vec.take size) 0 = byteAt vec 0 :=
        byteAt_take (by omega)
      have total : wordAt (vec.take size) 2 = wordAt vec 2 :=
        wordAt_take (by omega)
      have hdr : iphHlBytes (vec.take size) = iphHlBytes vec := by
        rw [iphHlBytes, first, iphHlBytes]
      have cut : Ip4Udp (vec.take size) src dest udp := by
        refine ⟨?_, ?_, ?_, ?_, ?_, ?_, ?_, ?_, ?_⟩
        · rw [first]
          exact version
        · rw [hdr]
          exact hdrLen
        · rw [hdr, total]
          exact hdrFits
        · rw [total, length]
          exact kept
        · rw [hdr, total, List.take_take, Nat.min_eq_left kept]
          exact data
        · rw [wordAt_take (by omega)]
          exact whole
        · rw [byteAt_take (by omega)]
          exact proto
        · rw [longAt_take (by omega)]
          exact srcEq
        · rw [longAt_take (by omega)]
          exact destEq
      rw [← total]
      exact .v4 cut source target
  | @v6 src dest exts udp packet source target =>
      obtain ⟨version, hdrFits, _, data, headers, srcEq, destEq, notMapped⟩ :=
        packet
      have hlen : ip6Hlen = 40 := rfl
      have plen : wordAt (vec.take size) 4 = wordAt vec 4 :=
        wordAt_take (by omega)
      have cut : Ip6Udp (vec.take size) src dest exts udp := by
        refine ⟨?_, ?_, ?_, ?_, ?_, ?_, ?_, notMapped⟩
        · rw [byteAt_take (by omega)]
          exact version
        · rw [length]
          omega
        · rw [plen, length]
          exact kept
        · rw [plen, List.drop_take, List.take_take, Nat.min_eq_left (by omega)]
          exact data
        · rw [byteAt_take (by omega)]
          exact headers
        · rw [addrAt_take (by omega)]
          exact srcEq
        · rw [addrAt_take (by omega)]
          exact destEq
      rw [← plen]
      exact .v6 cut source target

/-- What the code puts into the channel for a datagram. -/
def deliveredItems (src dest : IpAddr) (udp : Bytes) : List UdpPkt :=
  if udpHlen ≤ udp.length then
    [(udp.drop udpHlen, ⟨src, wordAt udp 0⟩, ⟨dest, wordAt udp 2⟩)]
  else
    []

/-- What the sink does with a vector that begins with a UDP datagram, if all
of the packet is left when the length is narrowed. -/
theorem sinkInput_udp
    (packet : IpUdp vec ipLen src dest udp)
    (kept : ipLen ≤ vec.length % 65536)
    (sockets : input.sockets = socket :: rest)
    (room : socket.queue.length < socket.capacity) :
    wp (sinkInput (some addr) vec)
      (fun up next =>
        up = none ∧
          next.sockets =
            { socket with
              queue := socket.queue ++ deliveredItems src dest udp } :: rest)
      allowed input := by
  have nonEmpty : vec.isEmpty = false := by
    have positive : 0 < ipLen := by
      cases packet with
      | v4 packet _ =>
          have long : 20 ≤ iphHlBytes vec := packet.hdrLen
          have fits := packet.hdrFits
          omega
      | v6 _ _ _ =>
          have hlen : ip6Hlen = 40 := rfl
          omega
    rw [List.isEmpty_eq_false_iff, ← List.length_pos_iff]
    omega
  have narrow : vec.length % 65536 < 65536 := Nat.mod_lt _ (by decide)
  have fits : vec.length % 65536 ≤ vec.length := Nat.mod_le _ _
  have buffer :
      itemPbuf addr vec = wholePbuf addr (vec.take (vec.length % 65536)) := by
    simp only [itemPbuf, wholePbuf, List.length_take]
    rw [Nat.min_eq_left fits]
  rw [sinkInput]
  rw [nonEmpty, if_neg (by decide), netifInput, wp_bind, buffer]
  refine wp_weaken
    (ipInput_udp (packet.take kept fits)
      (by rw [List.length_take]; omega)) ?_
  rintro up next ⟨⟨p, rfl, held, data⟩, others⟩
  dsimp only
  rw [if_pos rfl, wp_bind]
  have same : next.sockets = socket :: rest := by
    rw [others]
    exact sockets
  have whole : Chain.data { head := p } = udp := by
    rw [← data]
    simp [Chain.data]
  have small : (Chain.data { head := p }).length < 65536 := by
    rw [whole]
    cases packet with
    | v4 packet _ =>
        have eq := packet.udp_eq
        rw [← eq, List.length_drop, List.length_take]
        have bound := (wordAt vec 2).isLt
        omega
    | v6 packet _ _ =>
        have eq := congrArg List.length packet.data
        rw [List.length_take, List.length_append] at eq
        have bound := (wordAt vec 4).isLt
        omega
  refine udpInput_delivers ⟨held, fun _ member => by cases member⟩ small ?_ same
    room ?_
  · intro long
    rw [whole, ← data, PBuf.data_length held] at long
    exact long
  · rw [whole]
    exact ⟨rfl, rfl⟩

/-- What is cut short by the narrowing is dropped. -/
theorem sinkInput_udp_cut
    (memory : input.slack.isSome)
    (packet : IpUdp vec ipLen src dest udp)
    (missing : vec.length % 65536 < ipLen) :
    wp (sinkInput (some addr) vec)
      (fun up next => up = none ∧ next.sockets = input.sockets) allowed
      input := by
  have fits : vec.length % 65536 ≤ vec.length := Nat.mod_le _ _
  have buffer :
      itemPbuf addr vec = wholePbuf addr (vec.take (vec.length % 65536)) := by
    simp only [itemPbuf, wholePbuf, List.length_take]
    rw [Nat.min_eq_left fits]
  rw [sinkInput]
  rw [wp_ite]
  refine ⟨fun _ => ⟨rfl, rfl⟩, fun _ => ?_⟩
  rw [netifInput, wp_bind, buffer]
  exact ipInput_cut memory packet missing fits ⟨rfl, rfl⟩

/-- The sink takes the vector, `pbuf_alloc` finding a buffer at `addr` or none,
and of all channels only that of the first socket changes: it gets `items`. -/
def YieldsItems
    (input : IpInput)
    (addr : Option Nat)
    (vec : Bytes)
    (items : List UdpPkt) :
    Prop :=
  ∃ next, sinkInput addr vec input = .ok (none, next) ∧
    next.sockets =
      input.sockets.modifyHead fun socket =>
        { socket with queue := socket.queue ++ items }

/--
When the item is the right one: the packet has to find a buffer and to survive
the narrowing of the vector's length to 16 bits, and then the UDP length must be
that of the IP payload, unless that is too short for a UDP header. A packet that
is lost on the way is right only where nothing should come of it.
-/
def UdpLengthAgrees
    (addr : Option Nat)
    (vec : Bytes)
    (ipLen : Nat)
    (udp : Bytes) : Prop :=
  if addr.isSome = true ∧ ipLen ≤ vec.length % 65536 then
    udp.length < udpHlen ∨ udpHdrLen udp = udp.length
  else
    ¬(udpHlen ≤ udpHdrLen udp ∧ udpHdrLen udp ≤ udp.length)

/-- The two readings of a datagram agree exactly if its length field does. -/
theorem deliveredItems_eq_iff
    (src dest : IpAddr)
    (udp : Bytes) :
    deliveredItems src dest udp = udpItems src dest udp ↔
      udp.length < udpHlen ∨ udpHdrLen udp = udp.length := by
  rw [deliveredItems, udpItems]
  by_cases long : udpHlen ≤ udp.length
  · rw [if_pos long]
    split
    · rename_i valid
      constructor
      · intro same
        have lengths := congrArg List.length (Prod.ext_iff.mp
          (List.cons.inj same).1).1
        rw [List.length_drop, List.length_drop, List.length_take] at lengths
        omega
      · rintro (short | same)
        · omega
        · rw [same, List.take_length]
    · rename_i invalid
      constructor
      · intro same
        cases same
      · rintro (short | same)
        · omega
        · exact absurd ⟨by omega, by omega⟩ invalid
  · rw [if_neg long, if_neg (by omega)]
    exact ⟨fun _ => .inl (by omega), fun _ => rfl⟩

theorem udpItems_eq_nil_iff
    (src dest : IpAddr)
    (udp : Bytes) :
    udpItems src dest udp = [] ↔
      ¬(udpHlen ≤ udpHdrLen udp ∧ udpHdrLen udp ≤ udp.length) := by
  rw [udpItems]
  split <;> simp_all

/-- What a vector leaves in the sockets decides what it yields. -/
theorem takes_vector_iff
    {input : IpInput}
    {addr : Option Nat}
    {vec : Bytes}
    {left right : List UdpSocket}
    (outcome :
      wp (sinkInput addr vec) (fun up next => up = none ∧ next.sockets = left)
        (fun _ => False) input) :
    (∃ next,
        sinkInput addr vec input = .ok (none, next) ∧ next.sockets = right) ↔
      left = right := by
  constructor
  · rintro ⟨next, ran, same⟩
    rw [← same, (wp_returned outcome ran).2]
  · intro same
    cases ran : sinkInput addr vec input with
    | error fault => exact (wp_faulted outcome ran).elim
    | ok result =>
        obtain ⟨up, next⟩ := result
        obtain ⟨rfl, after⟩ := wp_returned outcome ran
        exact ⟨next, rfl, after.trans same⟩

/--
A vector that begins with a UDP datagram between two hosts yields exactly the
item its length field describes if and only if that field agrees with the
length of the IP payload, or with the loss of the packet.
-/
theorem udp_ingress_exact_iff
    (input : IpInput)
    (addr : Option Nat)
    (vec udp : Bytes)
    (ipLen : Nat)
    (src dest : IpAddr)
    (socket : UdpSocket)
    (rest : List UdpSocket)
    (memory : input.slack.isSome = true)
    (sockets : input.sockets = socket :: rest)
    (room : socket.queue.length < socket.capacity)
    (packet : IpUdp vec ipLen src dest udp) :
    YieldsItems input addr vec (udpItems src dest udp) ↔
      UdpLengthAgrees addr vec ipLen udp := by
  have appended (first second : List UdpPkt) :
      ({ socket with queue := socket.queue ++ first } :: rest =
        { socket with queue := socket.queue ++ second } :: rest) ↔
        first = second := by
    simp
  rw [UdpLengthAgrees, YieldsItems, sockets, List.modifyHead_cons]
  by_cases kept : addr.isSome = true ∧ ipLen ≤ vec.length % 65536
  · obtain ⟨buffer, rfl⟩ := Option.isSome_iff_exists.mp kept.1
    have outcome :
        wp (sinkInput (some buffer) vec)
          (fun up next =>
            up = none ∧
              next.sockets =
                { socket with
                  queue := socket.queue ++ deliveredItems src dest udp } ::
                  rest)
          (fun _ => False) input :=
      sinkInput_udp packet kept.2 sockets room
    rw [if_pos kept, ← deliveredItems_eq_iff src dest, ← appended]
    exact takes_vector_iff outcome
  · have outcome :
        wp (sinkInput addr vec)
          (fun up next => up = none ∧ next.sockets = input.sockets)
          (fun _ => False) input := by
      cases addr with
      | none => exact ⟨rfl, rfl⟩
      | some buffer =>
          refine sinkInput_udp_cut memory packet ?_
          exact not_le.mp fun whole => kept ⟨rfl, whole⟩
    have before : { socket with queue := socket.queue } :: rest =
        input.sockets := sockets.symm
    rw [if_neg kept, ← udpItems_eq_nil_iff src dest,
      @eq_comm _ (udpItems src dest udp), ← appended, List.append_nil, before]
    exact takes_vector_iff outcome

/-- A datagram with one byte of data whose length field says `length`. -/
def oneByteDatagram (length : UInt8) : Bytes :=
  [0x45, 0, 0, 29, 0, 0, 0, 0, 64, 17, 0, 0, 10, 0, 0, 1, 10, 0, 0, 2,
    4, 210, 0, 53, 0, length, 0, 0, 7]

/-- A state with one socket that has room. -/
def oneSocket : IpInput where
  slack := some fun _ _ => 0
  sockets := [{ capacity := 1 }]

theorem oneByteDatagram_packet :
    IpUdp (oneByteDatagram 9) 29 (.v4 0x0a000001) (.v4 0x0a000002)
      [4, 210, 0, 53, 0, 9, 0, 0, 7] := by
  have packet :
      Ip4Udp (oneByteDatagram 9) 0x0a000001 0x0a000002
        [4, 210, 0, 53, 0, 9, 0, 0, 7] := by
    constructor <;> decide
  exact .v4 packet (by decide) (by decide)

theorem udp_ingress_exact_iff_nine :
    YieldsItems oneSocket (some 1) (oneByteDatagram 9)
        (udpItems (.v4 0x0a000001) (.v4 0x0a000002)
          [4, 210, 0, 53, 0, 9, 0, 0, 7]) ↔
      UdpLengthAgrees (some 1) (oneByteDatagram 9) 29
        [4, 210, 0, 53, 0, 9, 0, 0, 7] :=
  udp_ingress_exact_iff oneSocket (some 1) (oneByteDatagram 9)
    [4, 210, 0, 53, 0, 9, 0, 0, 7] 29 (.v4 0x0a000001) (.v4 0x0a000002)
    { capacity := 1 } [] rfl rfl (by decide) oneByteDatagram_packet

/-- A length field of 4, too small for a UDP header, does not keep the item
from the socket. -/
theorem short_udp_length_delivered :
    udpItems (.v4 0x0a000001) (.v4 0x0a000002)
        [4, 210, 0, 53, 0, 4, 0, 0, 7] = [] ∧
      ¬YieldsItems oneSocket (some 1) (oneByteDatagram 4)
        (udpItems (.v4 0x0a000001) (.v4 0x0a000002)
          [4, 210, 0, 53, 0, 4, 0, 0, 7]) := by
  refine ⟨by decide, ?_⟩
  rintro ⟨next, ran, same⟩
  have outcome :
      sinkInput (some 1) (oneByteDatagram 4) oneSocket =
        .ok (none, {
          oneSocket with
          sockets := [{
            capacity := 1
            queue := [([7], ⟨.v4 0x0a000001, 1234⟩, ⟨.v4 0x0a000002, 53⟩)] }] }) := by
    rfl
  rw [outcome] at ran
  cases ran
  exact absurd same (by decide)

end Sink

end NetstackLwip

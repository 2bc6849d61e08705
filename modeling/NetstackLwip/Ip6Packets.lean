import NetstackLwip.HeaderChain

namespace NetstackLwip

/-!
# IPv6 packets at the sink

What a vector that is one IPv6 packet becomes: it is refused because of its
addresses, or its extension headers are walked from the first on.
-/

open FaultState

/-- `vec` is an IPv6 packet with `payload` behind its header. -/
structure Ip6Packet
    (vec : Bytes)
    (src dest : BitVec 128)
    (nexth : UInt8)
    (payload : Bytes) :
    Prop where
  version : byteAt vec 0 >>> 4 = 6
  size : vec.length = ip6Hlen + payload.length
  plen : (wordAt vec 4).toNat = payload.length
  nexth_eq : byteAt vec 6 = nexth
  src_eq : addrAt vec 8 = src
  dest_eq : addrAt vec 24 = dest
  data : vec.drop ip6Hlen = payload

/-- The checks of `ip6_input` on the addresses. -/
def ip6Admits (ip6Addrs : List (BitVec 128)) (src dest : BitVec 128) : Bool :=
  !isIpv4Mapped dest && !isIpv4Mapped src && !(IpAddr.v6 src).isMulticast &&
    !(src == 0 && !isSolicitedNode dest) && ip6Accepts ip6Addrs dest

/-- Where the extension-header loop begins in a packet. -/
def packetWalk (addr : Nat) (vec : Bytes) : Ip6Walk where
  p := { head := (wholePbuf addr vec).skip ip6Hlen }
  nexth := byteAt vec 6
  hlenTot := ip6Hlen
  plen := wordAt vec 4
  hdrNexth := byteAt vec 6

section Packet

variable {vec payload : Bytes} {src dest : BitVec 128} {nexth : UInt8}
  {addr : Nat} {allowed : IpFault → Prop} {input : IpInput}

theorem Ip6Packet.walk_data
    (packet : Ip6Packet vec src dest nexth payload)
    (addr : Nat) :
    (packetWalk addr vec).p.head.Held ∧
      (packetWalk addr vec).p.head.data = payload := by
  have size := packet.size
  have hlen : ip6Hlen = 40 := rfl
  refine ⟨(wholePbuf_held addr vec).skip ?_, ?_⟩
  · simp only [wholePbuf]
    omega
  · simp only [packetWalk, PBuf.skip_data, wholePbuf_data]
    exact packet.data

/-- `ip6_input` on a packet. -/
theorem ip6Input_packet
    {post : Option Upward → IpInput → Prop}
    (packet : Ip6Packet vec src dest nexth payload)
    (refused :
      ip6Admits input.ip6Addrs src dest = false →
        ∀ current, post none { input with currentIp6Header := current })
    (admitted :
      ip6Admits input.ip6Addrs src dest = true →
        wp (walkHeaders src dest walkRounds (packetWalk addr vec))
          (fun result next =>
            result.elim (post none next) fun walk =>
              wp (ip6Deliver src dest walk) post allowed next)
          allowed { input with currentIp6Header := ⟨addr, 0⟩ }) :
    wp (ip6Input (wholePbuf addr vec)) post allowed input := by
  obtain ⟨version, size, plen, -, rfl, rfl, -⟩ := packet
  have hlen : ip6Hlen = 40 := rfl
  have inside (index : Nat) (within : index < 40) :
      (wholePbuf addr vec).payload + index <
        (wholePbuf addr vec).mem.length := by
    simp only [wholePbuf]
    omega
  have fromStart (index : Nat) : (wholePbuf addr vec).payload + index = index :=
    Nat.zero_add index
  have six : longAt vec 0 >>> 28 = 6 := by
    apply BitVec.eq_of_toNat_eq
    rw [longAt_version, version]
    rfl
  have uncut :
      (wholePbuf addr vec).realloc (ip6Hlen + (wordAt vec 4).toNat) =
        wholePbuf addr vec := by
    rw [PBuf.realloc, if_pos]
    rw [plen]
    exact le_of_eq size
  have vTcFl : longAt (wholePbuf addr vec).mem 0 = longAt vec 0 := rfl
  have plenWord : wordAt (wholePbuf addr vec).mem 4 = wordAt vec 4 := rfl
  have destAddr : addrAt (wholePbuf addr vec).mem 24 = addrAt vec 24 := rfl
  have srcAddr : addrAt (wholePbuf addr vec).mem 8 = addrAt vec 8 := rfl
  have type : byteAt (wholePbuf addr vec).mem 6 = byteAt vec 6 := rfl
  rw [ip6Input, wp_bind, wp_readLong (inside 3 (by decide)), fromStart, vTcFl,
    if_neg (by rw [six]; decide), wp_bind,
    wp_readWord (inside 5 (by decide)), fromStart, plenWord,
    if_neg (by rw [plen]; simp only [wholePbuf]; omega), uncut, wp_bind,
    wp_readAddr (inside 39 (by decide)), fromStart, wp_bind,
    wp_readAddr (inside 23 (by decide)), fromStart, destAddr, srcAddr, wp_ite]
  refine ⟨fun bad => ?_, fun good => ?_⟩
  · refine refused ?_ input.currentIp6Header
    rw [ip6Admits]
    rcases bad with mapped | mapped | multicast
    · rw [mapped]
      rfl
    · rw [mapped]
      simp
    · rw [multicast]
      simp
  · simp only [not_or, Bool.not_eq_true] at good
    rw [wp_bind, wp_modify, wp_bind, wp_get, wp_ite]
    refine ⟨fun bad => ?_, fun fine => ?_⟩
    · refine refused ?_ _
      rw [ip6Admits]
      rcases bad with unspecified | foreign
      · simp [unspecified]
      · simp only [Bool.not_eq_true'] at foreign
        simp [foreign]
    · have admits :
          ip6Admits input.ip6Addrs (addrAt vec 8) (addrAt vec 24) = true := by
        simp only [not_or, not_and, Bool.not_eq_true', Bool.not_eq_false]
          at fine
        by_cases zero : addrAt vec 8 = 0
        · simp [ip6Admits, good, fine.1 zero, fine.2]
        · simp only [ip6Admits, good, fine.2, beq_eq_false_iff_ne.mpr zero]
          rfl
      rw [wp_bind, wp_readByte (inside 6 (by decide)), fromStart, type, wp_bind,
        wp_pbufRemoveHeader (by simp only [wholePbuf]; omega), wp_bind]
      refine wp_weaken (admitted admits) ?_
      rintro (_ | walk) next holds
      · exact holds
      · exact holds

/-! ## At the sink -/

/-- The sink gives a packet of less than 65536 bytes to `ip6_input`. -/
theorem sinkInput_packet
    {post : Option Upward → IpInput → Prop}
    (packet : Ip6Packet vec src dest nexth payload)
    (small : vec.length < 65536)
    (received :
      wp (ip6Input (wholePbuf addr vec))
        (fun up next =>
          up.elim (post none next) fun up =>
            wp
              (if up.proto = .udp then do
                udpInput up.src up.dest up.p
                pure none
              else
                pure (some up))
              post allowed next)
        allowed input) :
    wp (sinkInput (some addr) vec) post allowed input := by
  have size := packet.size
  have hlen : ip6Hlen = 40 := rfl
  have notEmpty : vec.isEmpty = false := by
    rw [List.isEmpty_eq_false_iff, ← List.length_pos_iff]
    omega
  have version : byteAt (wholePbuf addr vec).mem
      ((wholePbuf addr vec).payload + 0) >>> 4 = 6 := packet.version
  have buffer : itemPbuf addr vec = wholePbuf addr vec := by
    rw [itemPbuf, wholePbuf, Nat.mod_eq_of_lt small, List.take_length]
  rw [sinkInput, notEmpty, if_neg (by decide), buffer, netifInput, wp_bind,
    ipInput, wp_bind, wp_readByte (by simp only [wholePbuf]; omega), version,
    if_pos rfl]
  refine wp_weaken received ?_
  rintro (_ | up) next holds
  · exact holds
  · exact holds

/-- Of a longer one only a part shorter than a header is left. -/
theorem sinkInput_long
    {post : Option Upward → IpInput → Prop}
    (memory : input.slack.isSome)
    (packet : Ip6Packet vec src dest nexth payload)
    (long : 65536 ≤ vec.length)
    (dropped : post none input) :
    wp (sinkInput (some addr) vec) post allowed input := by
  have size := packet.size
  have plen := packet.plen
  have bound := (wordAt vec 4).isLt
  have hlen : ip6Hlen = 40 := rfl
  have ip4Len : ipHlen = 20 := rfl
  have tiny : vec.length % 65536 < ip6Hlen := by omega
  have held : (itemPbuf addr vec).Held := by
    simp only [PBuf.Held, itemPbuf, List.length_take]
    omega
  rw [sinkInput, wp_ite]
  refine ⟨fun _ => dropped, fun _ => ?_⟩
  rw [netifInput, wp_bind, ipInput, wp_bind]
  refine wp_readByte_anywhere memory fun version versionAt => ?_
  rw [wp_ite]
  refine ⟨fun _ => ?_, fun notSix => ?_⟩
  · exact ip6Input_short memory held (.inl tiny) dropped
  · refine ip4Input_short memory held (.inl ?_) dropped
    by_contra atLeast
    have positive : 0 < vec.length % 65536 := by
      simp only [itemPbuf, ip4Len] at atLeast
      omega
    simp only [itemPbuf, List.length_take] at versionAt
    rw [versionAt (by omega), byteAt_take (by omega)] at notSix
    exact notSix packet.version

/-- The loop ends `size` bytes behind the IPv6 header, at a UDP header, if the
extension headers are `kept`, and otherwise drops the packet. -/
def WalksToUdp
    (src dest : BitVec 128)
    (addr : Nat)
    (vec : Bytes)
    (kept : Bool)
    (size : Nat) :
    Prop :=
  ∀ (allowed : IpFault → Prop) (input : IpInput)
    (post : Option Ip6Walk → IpInput → Prop),
    input.slack.isSome →
      (kept = true →
        post
          (some ((packetWalk addr vec).advance size (.ofBitVec ipProtoUdp)))
          input) →
        (kept = false → post none input) →
          wp (walkHeaders src dest walkRounds (packetWalk addr vec)) post
            allowed input

/-- What is done with a packet that leads to a UDP header. -/
theorem sinkInput_udpPacket
    {kept : Bool}
    {size : Nat}
    {socket : UdpSocket}
    {rest : List UdpSocket}
    {post : Option Upward → IpInput → Prop}
    (memory : input.slack.isSome)
    (packet : Ip6Packet vec src dest nexth payload)
    (small : vec.length < 65536)
    (walks : WalksToUdp src dest addr vec kept size)
    (fits : size ≤ payload.length)
    (sockets : input.sockets = socket :: rest)
    (room : socket.queue.length < socket.capacity)
    (dropped :
      (ip6Admits input.ip6Addrs src dest && kept) = false →
        ∀ current, post none { input with currentIp6Header := current })
    (delivered :
      (ip6Admits input.ip6Addrs src dest && kept) = true →
        post none {
          input with
          currentIp6Header := ⟨addr, 0⟩
          sockets :=
            { socket with
              queue :=
                socket.queue ++
                  deliveredItems (.v6 src) (.v6 dest) (payload.drop size) } ::
              rest }) :
    wp (sinkInput (some addr) vec) post allowed input := by
  have length := packet.size
  have hlen : ip6Hlen = 40 := rfl
  obtain ⟨held, data⟩ := packet.walk_data addr
  refine sinkInput_packet packet small (ip6Input_packet packet ?_ ?_)
  · exact fun refused => dropped (by rw [refused]; rfl)
  · intro admits
    rw [admits, Bool.true_and] at dropped delivered
    refine walks _ _ _ memory ?_ ?_
    · intro keeps
      have behind :
          ((packetWalk addr vec).p.skip size).head.Held ∧
            ((packetWalk addr vec).p.skip size).head.data =
              payload.drop size := by
        refine ⟨held.skip ?_, ?_⟩
        · rw [← PBuf.data_length held, data]
          exact fits
        · rw [Chain.skip_head, PBuf.skip_data, data]
      have whole :
          ((packetWalk addr vec).p.skip size).data = payload.drop size := by
        rw [Chain.data, behind.2]
        simp [packetWalk]
      simp only [Option.elim_some, ip6Deliver, wp_bind]
      refine showHeaders_back ?_ ?_ ?_
      · simp only [Ip6Walk.advance, packetWalk, Chain.skip_head,
          PBuf.skip_payload, wholePbuf]
        omega
      · simp only [Ip6Walk.advance, packetWalk, Chain.skip_head, PBuf.skip_len,
          Chain.skip_tail, wholePbuf, List.map_nil, List.sum_nil]
        omega
      · simp only [Ip6Walk.advance]
        rw [if_neg (by decide), if_pos trivial, wp_pure]
        simp only [Option.elim_some, if_pos, wp_bind]
        refine udpInput_delivers ⟨behind.1, fun _ member => by cases member⟩
          (by rw [whole, List.length_drop]; omega) ?_ sockets room ?_
        · intro enough
          rwa [whole, ← behind.2, PBuf.data_length behind.1] at enough
        · rw [whole]
          exact delivered keeps
    · intro refused
      exact dropped refused _

end Packet

end NetstackLwip

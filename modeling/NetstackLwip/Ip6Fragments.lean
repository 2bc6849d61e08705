import Mathlib.Data.List.Infix
import NetstackLwip.DatagramCut
import NetstackLwip.Ip6Packets
import NetstackLwip.IpFrame

namespace NetstackLwip

/-!
# IPv6 fragments of one datagram

A packet that is sent as a single fragment is read like the packet itself. The
header of one that is reassembled from several fragments gets a payload length
that is 8 too small.
-/

open DatagramCut FaultState FragmentChain

/-! ## Fragments -/

/-- The bytes of a Fragment header in front of a piece of a header of type
`nexth`. -/
structure FragHdrOf
    (nexth : UInt8)
    (id : BitVec 32)
    (piece : Piece UInt8)
    (hdr : Bytes) :
    Prop where
  size : hdr.length = ip6FragHlen
  nexth_eq : byteAt hdr 0 = nexth
  offset : (wordAt hdr 2 &&& 0xfff8).toNat = piece.offset
  more : (wordAt hdr 2 &&& 1 != 0) = piece.more
  ident : longAt hdr 4 = id

/-- The field of a fragment that is a whole datagram. -/
theorem FragHdrOf.atomic_iff
    {nexth : UInt8}
    {id : BitVec 32}
    {piece : Piece UInt8}
    {hdr : Bytes}
    (fragHdr : FragHdrOf nexth id piece hdr) :
    wordAt hdr 2 &&& 0xfff9 = 0 ↔ piece.offset = 0 ∧ piece.more = false := by
  have both : (0xfff9 : BitVec 16) = 0xfff8 ||| 1 := rfl
  have offset : wordAt hdr 2 &&& 0xfff8 = 0 ↔ piece.offset = 0 := by
    rw [← fragHdr.offset]
    constructor
    · intro zero
      rw [zero]
      rfl
    · exact fun zero => BitVec.eq_of_toNat_eq zero
  have more : wordAt hdr 2 &&& 1 = 0 ↔ piece.more = false := by
    rw [← fragHdr.more, bne_eq_false_iff_eq]
  rw [both, BitVec.and_or_distrib_left, ← offset, ← more]
  exact BitVec.or_eq_zero_iff

/-- `vec` is the fragment of a piece, behind the extension headers `front`
that every fragment carries. -/
def Ip6FragmentOf
    (src dest : BitVec 128)
    (front : List ExtHdr)
    (nexth : UInt8)
    (id : BitVec 32)
    (piece : Piece UInt8)
    (vec : Bytes) :
    Prop :=
  ∃ hdr, FragHdrOf nexth id piece hdr ∧
    Ip6Packet vec src dest (firstType (.ofBitVec ip6NexthFragment) front)
      (encodeChain (.ofBitVec ip6NexthFragment) front ++ (hdr ++ piece.data))

/-- A UDP packet with a chain of extension headers. -/
def Ip6UdpPacket
    (vec : Bytes)
    (src dest : BitVec 128)
    (chain : List ExtHdr)
    (udp : Bytes) :
    Prop :=
  Ip6Packet vec src dest (firstType (.ofBitVec ipProtoUdp) chain)
    (encodeChain (.ofBitVec ipProtoUdp) chain ++ udp)

section Whole

variable {src dest : BitVec 128} {front back chain : List ExtHdr}
  {id : BitVec 32} {piece : Piece UInt8} {vec udp : Bytes} {addr : Nat}

/-- The loop reads a packet's own chain. -/
theorem Ip6UdpPacket.walks
    (packet : Ip6UdpPacket vec src dest chain udp)
    (small : vec.length < 65536) :
    WalksToUdp src dest addr vec
      (chainKept (.ofBitVec ipProtoUdp) chain)
      (encodeChain (.ofBitVec ipProtoUdp) chain).length := by
  intro allowed input post memory passed refused
  have length := packet.size
  have enough := (length_encodeChain (.ofBitVec ipProtoUdp) chain).2
  rw [List.length_append] at length
  obtain ⟨left, rounds⟩ : ∃ left, walkRounds = chain.length + (left + 1) :=
    ⟨65535 - chain.length, by simp only [walkRounds]; omega⟩
  obtain ⟨held, data⟩ := packet.walk_data addr
  rw [rounds]
  refine walkHeaders_chain memory packet.nexth_eq held data
    (show ip6Hlen < 65536 by decide) ?_ refused
  intro kept
  rw [walkHeaders, if_neg (by simp only [Ip6Walk.advance]; decide)]
  exact passed kept

/-- A Fragment header that starts the datagram and ends it is skipped. -/
theorem walkHeaders_atomic
    {left : Nat}
    {walk : Ip6Walk}
    {nexth : UInt8}
    {data hdr rest : Bytes}
    {post : Option Ip6Walk → IpInput → Prop}
    {allowed : IpFault → Prop}
    {input : IpInput}
    (fragHdr : FragHdrOf nexth id ⟨0, false, data⟩ hdr)
    (starts : walk.nexth = .ofBitVec ip6NexthFragment)
    (other : nexth ≠ 0)
    (held : walk.p.head.Held)
    (front : walk.p.head.data = hdr ++ rest)
    (passed :
      wp (walkHeaders src dest left (walk.advance hdr.length nexth)) post
        allowed input) :
    wp (walkHeaders src dest (left + 1) walk) post allowed input := by
  have size := fragHdr.size
  have hlen : ip6FragHlen = 8 := rfl
  have whole := PBuf.data_length held
  rw [front, List.length_append] at whole
  have within := held
  unfold PBuf.Held at within
  have offsetAt :
      wordAt walk.p.head.mem (walk.p.head.payload + 2) = wordAt hdr 2 := by
    rw [PBuf.wordAt_data (by omega), front, wordAt_append_left (by omega)]
  have single : wordAt hdr 2 &&& 1 = 0 := by
    have more := fragHdr.more
    simpa using more
  have first : wordAt hdr 2 &&& 0xfff9 = 0 :=
    fragHdr.atomic_iff.mpr ⟨rfl, rfl⟩
  rw [walkHeaders, if_pos (by rw [starts]; rfl), wp_bind, extensionHeader,
    starts, if_neg (by decide), if_neg (by decide), if_neg (by decide),
    fragmentHeader, if_neg (by omega), wp_bind, wp_readWord (by omega),
    offsetAt, if_neg (fun part => part.1 single), if_pos first, wp_bind,
    wp_readByte (by omega), PBuf.byteAt_front held front (by omega),
    fragHdr.nexth_eq, wp_bind, wp_pbufRemoveHeader (by omega), wp_pure]
  dsimp only
  rw [if_neg other, ← size]
  exact passed

/-- The loop reads an atomic fragment as it reads the packet. -/
theorem Ip6FragmentOf.walks
    (packet :
      Ip6FragmentOf src dest front (firstType (.ofBitVec ipProtoUdp) back) id
        ⟨0, false, encodeChain (.ofBitVec ipProtoUdp) back ++ udp⟩ vec)
    (starts : firstType (.ofBitVec ipProtoUdp) back ≠ 0)
    (small : vec.length < 65536) :
    WalksToUdp src dest addr vec
      (chainKept (.ofBitVec ipProtoUdp) (front ++ back))
      ((encodeChain (.ofBitVec ip6NexthFragment) front).length + ip6FragHlen +
        (encodeChain (.ofBitVec ipProtoUdp) back).length) := by
  intro allowed input post memory passed refused
  obtain ⟨hdr, fragHdr, packet⟩ := packet
  have size := fragHdr.size
  have length := packet.size
  have enough := (length_encodeChain (.ofBitVec ip6NexthFragment) front).2
  have enoughBack := (length_encodeChain (.ofBitVec ipProtoUdp) back).2
  have hlen : ip6Hlen = 40 := rfl
  have split :
      chainKept (.ofBitVec ipProtoUdp) (front ++ back) =
        (chainKept (.ofBitVec ip6NexthFragment) front &&
          chainKept (.ofBitVec ipProtoUdp) back) :=
    chainKept_append starts (by decide)
  rw [split] at passed refused
  obtain ⟨held, data⟩ := packet.walk_data addr
  have whole := PBuf.data_length held
  rw [data] at whole
  simp only [List.length_append] at length whole
  obtain ⟨left, rounds⟩ :
      ∃ left, walkRounds = front.length + (back.length + (left + 1) + 1) :=
    ⟨65534 - front.length - back.length, by simp only [walkRounds]; omega⟩
  rw [rounds]
  refine walkHeaders_chain memory packet.nexth_eq held data
    (show ip6Hlen < 65536 by decide) ?_ ?_
  · intro frontKept
    rw [frontKept, Bool.true_and] at passed refused
    set frontLen := (encodeChain (.ofBitVec ip6NexthFragment) front).length
    have behindFront :
        ((packetWalk addr vec).p.head.skip frontLen).data =
          hdr ++ (encodeChain (.ofBitVec ipProtoUdp) back ++ udp) := by
      rw [PBuf.skip_data, data, List.drop_left]
    have frontHeld : ((packetWalk addr vec).p.head.skip frontLen).Held :=
      held.skip (by omega)
    refine walkHeaders_atomic fragHdr rfl starts frontHeld behindFront ?_
    refine walkHeaders_chain memory rfl (frontHeld.skip ?_)
      (Ip6Walk.advance_data behindFront) ?_ ?_ refused
    · rw [PBuf.skip_len]
      omega
    · exact Nat.mod_lt _ (by decide)
    · intro backKept
      rw [Ip6Walk.advance_advance, Ip6Walk.advance_advance, size,
        ← Nat.add_assoc, walkHeaders,
        if_neg (by simp only [Ip6Walk.advance]; decide)]
      exact passed backKept
  · intro notKept
    exact refused (by rw [notKept]; rfl)

end Whole

/-! ## A datagram that is reassembled -/

/-- A packet was returned whose payload length is not `plen`. -/
def Misread (start : IpInput) (plen : Nat) (input : IpInput) : Prop :=
  ∃ hdr ∈ input.reassembled.drop start.reassembled.length,
    hdr.1.toNat ≠ plen

/-- What was misread stays so. -/
theorem misread_frame
    {α : Type}
    {start input : IpInput}
    {plen : Nat}
    {computation : IpM α}
    {post : α → IpInput → Prop}
    (frames : Frames input computation)
    (misread : Misread start plen input)
    (after : ∀ value next, Misread start plen next → post value next) :
    wp computation post (fun _ => True) input := by
  obtain ⟨hdr, member, wrong⟩ := misread
  refine wp_weaken (frames input (IpFrame.refl input)) ?_
  intro value next frame
  exact after value next ⟨hdr, (frame.reassembled.drop _).subset member, wrong⟩

/-- The buffer of a fragment whose Fragment header stands `fragAt` bytes from
its beginning, `payload` being `before` bytes in front of it. -/
structure FragBuffer (fragAt before : Nat) (p : Chain) : Prop where
  payload : p.head.payload + before = fragAt
  len : p.head.payload + p.head.len = p.head.mem.length
  room : fragAt + ip6FragHlen ≤ p.head.mem.length
  small : p.head.mem.length < 65536

/-- The entry of the datagram of `size` bytes that is being collected. -/
structure OpenDatagram6
    (src dest : BitVec 128)
    (id : BitVec 32)
    (fragAt size : Nat)
    (ipr : Ip6Reassdata) :
    Prop where
  src_eq : ipr.src = src
  dest_eq : ipr.dest = dest
  ident : ipr.identification = id
  iphdr : ipr.iphdr.off = 0
  frags : ∀ frag ∈ ipr.frags, FragBuffer fragAt ipv6FragReqroom frag.buffer
  datagramLen : ipr.datagramLen = 0 ∨ ipr.datagramLen = size

/-- Nothing has come out of reassembly, and no other datagram is in it. -/
structure Collecting6
    (src dest : BitVec 128)
    (id : BitVec 32)
    (fragAt size : Nat)
    (start input : IpInput) :
    Prop where
  slack : input.slack = start.slack
  sockets : input.sockets = start.sockets
  reassembled : input.reassembled = start.reassembled
  datagrams4 : input.datagrams4 = []
  datagrams6 :
    input.datagrams6 = [] ∨
      ∃ ipr, input.datagrams6 = [ipr] ∧
        OpenDatagram6 src dest id fragAt size ipr

section Reassembly

variable {src dest : BitVec 128} {id : BitVec 32} {fragAt size : Nat}
  {ipr : Ip6Reassdata} {start input : IpInput}

theorem wp_pbufRemoveHeader_any
    {p : Chain}
    {length : Nat}
    {post : Chain → IpInput → Prop}
    (passed : length ≤ p.head.len → post (p.skip length) input) :
    wp (pbufRemoveHeader p length) post (fun _ => True) input := by
  simp only [pbufRemoveHeader, wp_bind, wp_ensure, wp_pure]
  exact ⟨fun fits => passed (of_decide_eq_true fits), fun _ => trivial⟩

/-- Chaining leaves the first buffer as it is. -/
theorem chainFrags6_head
    {p : Chain}
    {rest : List (Frag Chain)}
    {post : Chain → IpInput → Prop}
    (chained : ∀ tail, post { p with tail } input) :
    wp (chainFrags6 p rest) post (fun _ => True) input := by
  induction rest generalizing p with
  | nil =>
      exact chained p.tail
  | cons frag rest inductionHypothesis =>
      rw [chainFrags6, wp_bind]
      refine wp_pbufRemoveHeader_any fun _ => ?_
      rw [wp_bind]
      refine wp_pbufRemoveHeader_any fun _ => ?_
      exact inductionHypothesis fun tail => chained tail

theorem findFragmentNexth_after
    {mem : Bytes}
    {rounds ptr : Nat}
    {post : Nat → IpInput → Prop}
    (found : ∀ place, ptr ≤ place → place < mem.length → post place input) :
    wp (findFragmentNexth mem rounds ptr) post (fun _ => True) input := by
  induction rounds generalizing ptr with
  | zero =>
      exact trivial
  | succ rounds inductionHypothesis =>
      rw [findFragmentNexth, wp_ite]
      refine ⟨fun _ => trivial, fun inside => ?_⟩
      rw [wp_ite]
      refine ⟨fun _ => found ptr (le_refl _) (by omega), fun _ => ?_⟩
      rw [wp_ite]
      refine ⟨fun _ => trivial, fun _ => ?_⟩
      exact inductionHypothesis fun place behind =>
        found place (by omega)

/-- The header that `ip6_reass` returns has a payload length that counts from 8
bytes before the end of the headers. -/
structure ShortHeader (fragAt size : Nat) (p : Chain) : Prop where
  payload : p.head.payload = ip6FragHlen
  room : fragAt + ip6FragHlen ≤ p.head.mem.length
  plen :
    wordAt p.head.mem (ip6FragHlen + 4) =
      BitVec.ofInt 16 (size + ((fragAt : Int) - ip6FragHlen) - ip6Hlen)

/-- What is written into the first buffer. -/
theorem rebuildHeaders_short
    {p : Chain}
    {post : Chain × Nat → IpInput → Prop}
    (buffer : FragBuffer fragAt 0 p)
    (behind : ip6Hlen ≤ fragAt)
    (iphdr : ipr.iphdr.off = 0)
    (built :
      ∀ mem,
        mem.length = p.head.mem.length →
          wordAt mem (ip6FragHlen + 4) =
            BitVec.ofInt 16
              (ipr.datagramLen + ((fragAt : Int) - ip6FragHlen) - ip6Hlen) →
          post ({ p with head := { p.head with mem } }, ip6FragHlen) input) :
    wp (rebuildHeaders ipr p) post (fun _ => True) input := by
  obtain rfl : p.head.payload = fragAt := buffer.payload
  have room := buffer.room
  have hlen : ip6Hlen = 40 := rfl
  have fragHlen : ip6FragHlen = 8 := rfl
  have difference :
      ((p.head.payload : Int) - ((0 : Nat) : Int)).toNat = p.head.payload := by
    omega
  simp only [rebuildHeaders, headerDifference, wp_bind, wp_ensure, wp_pure,
    iphdr, difference, Nat.zero_add, List.drop_zero]
  refine ⟨fun _ => ?_, fun _ => trivial⟩
  set moved :=
    overwrite p.head.mem ip6FragHlen (p.head.mem.take p.head.payload)
    with movedEq
  have movedLength : moved.length = p.head.mem.length := by
    rw [movedEq, overwrite_length]
    rw [List.length_take]
    omega
  generalize word :
    BitVec.ofInt 16
        (ipr.datagramLen + ((p.head.payload : Int) - ip6FragHlen) - ip6Hlen) =
      plen at built ⊢
  set mem := overwrite moved (ip6FragHlen + 4) (wordBytes plen) with memEq
  have memLength : mem.length = p.head.mem.length := by
    rw [memEq, overwrite_length]
    · exact movedLength
    · rw [wordBytes_length]
      omega
  have plenAt : wordAt mem (ip6FragHlen + 4) = plen :=
    wordAt_overwrite (by omega)
  have patched (place : Nat) (after : ip6FragHlen + 6 ≤ place)
      (inside : place < mem.length) :
      post
        ({ p with
            head := { p.head with mem := overwrite mem place [ipr.nexth] } },
          ip6FragHlen)
        input := by
    refine built _ ?_ ?_
    · rw [overwrite_length]
      · exact memLength
      · exact inside
    · rw [wordAt_overwrite_beside]
      · exact plenAt
      · exact inside
      · exact .inl after
  rw [fragmentNexthAt, wp_ite]
  refine ⟨fun _ => patched _ (le_refl _) (by omega), fun _ => ?_⟩
  exact findFragmentNexth_after fun place behind inside =>
    patched place (by omega) inside

/-- `payload` moves back, or not at all. -/
theorem pbufHeaderForce_back
    {p : Chain}
    {difference : Int}
    {amount : Nat}
    {post : Option Chain → IpInput → Prop}
    (same : difference = amount)
    (inside : amount ≤ p.head.payload)
    (small : p.head.payload + p.head.len < 65536)
    (failed : post none input)
    (moved :
      ∀ len,
        post
          (some {
            p with
            head := {
              p.head with payload := p.head.payload - amount, len } })
          input) :
    wp (pbufHeaderForce p difference) post (fun _ => True) input := by
  simp only [pbufHeaderForce]
  have narrowed :
      difference.bmod 65536 = amount ∨
        32768 ≤ amount ∧ difference.bmod 65536 = amount - 65536 := by
    rw [Int.bmod_def]
    split <;> omega
  generalize difference.bmod 65536 = increment at narrowed ⊢
  rcases narrowed with rfl | ⟨high, rfl⟩
  · rw [if_neg (by omega), Int.toNat_natCast, wp_pure, Chain.addHeader]
    split
    · exact failed
    · exact moved _
  · -- The buffer is too short for the negative difference it has become.
    rw [if_pos (by omega), wp_bind]
    refine wp_pbufRemoveHeader_any fun fits => ?_
    omega

theorem finishDatagram6_short
    {r : Nat}
    {post : Chain → IpInput → Prop}
    (opened : OpenDatagram6 src dest id fragAt size ipr)
    (behind : ip6Hlen ≤ fragAt)
    (complete : ipr.datagramLen = size)
    (finished :
      ∀ p datagrams6 pbufcount6,
        ShortHeader fragAt size p →
          post p { input with datagrams6, pbufcount6 }) :
    wp (finishDatagram6 r ipr) post (fun _ => True) input := by
  have hlen : ip6Hlen = 40 := rfl
  have fragHlen : ip6FragHlen = 8 := rfl
  have reqroom : ipv6FragReqroom = 4 := rfl
  unfold finishDatagram6
  split
  · exact trivial
  rename_i first rest frags
  obtain ⟨payload, len, room, small⟩ :=
    opened.frags first (by rw [frags]; exact List.mem_cons_self)
  rw [wp_bind]
  refine chainFrags6_head fun tail => ?_
  rw [wp_bind]
  refine wp_pbufRemoveHeader_any fun fits => ?_
  rw [wp_bind]
  set head := first.buffer.head with headEq
  have origHdr : (ipr.origHdr.take ipv6FragReqroom).length ≤ ipv6FragReqroom :=
    List.length_take_le _ _
  set mem := overwrite head.mem head.payload
    (ipr.origHdr.take ipv6FragReqroom) with memEq
  have memLength : mem.length = head.mem.length :=
    overwrite_length (by omega)
  refine @rebuildHeaders_short fragAt _ _ _ _ ?_ behind opened.iphdr ?_
  · constructor
    · exact payload
    · simp only [Chain.skip_head, PBuf.skip_payload, PBuf.skip_len,
        PBuf.skip_mem, memLength]
      omega
    · simp only [Chain.skip_head, PBuf.skip_mem, memLength]
      exact room
    · simp only [Chain.skip_head, PBuf.skip_mem, memLength]
      exact small
  · intro rebuilt rebuiltLength plen
    simp only [Chain.skip_head, PBuf.skip_mem, memLength] at rebuiltLength
    rw [complete] at plen
    simp only [wp_bind, wp_modify, wp_get, wp_ensure, wp_set]
    refine ⟨fun _ => ?_, fun _ => trivial⟩
    have back : (((head.payload + ipv6FragReqroom : Nat) : Int) - ip6FragHlen) =
        ((fragAt - ip6FragHlen : Nat) : Int) := by
      omega
    refine pbufHeaderForce_back back ?_ ?_ trivial ?_
    · show fragAt - ip6FragHlen ≤ head.payload + ipv6FragReqroom
      omega
    · show head.payload + ipv6FragReqroom + (head.len - ipv6FragReqroom) < 65536
      omega
    · intro headLen
      refine finished _ _ _ ⟨?_, ?_, plen⟩
      · show
          head.payload + ipv6FragReqroom - (fragAt - ip6FragHlen) = ip6FragHlen
        omega
      · show fragAt + ip6FragHlen ≤ rebuilt.length
        omega

/-- A fragment with the helper structure in place. -/
theorem putHelper_buffer
    {p : Chain}
    {post : Chain × Bytes → IpInput → Prop}
    (buffer : FragBuffer fragAt 0 p)
    (put :
      ∀ kept covered,
        FragBuffer fragAt ipv6FragReqroom kept → post (kept, covered) input) :
    wp (putHelper p) post (fun _ => True) input := by
  obtain ⟨payload, len, room, small⟩ := buffer
  have fragHlen : ip6FragHlen = 8 := rfl
  have reqroom : ipv6FragReqroom = 4 := rfl
  have helper : ip6ReassHelperSize = 12 := rfl
  rw [putHelper, Chain.addHeader]
  by_cases refused :
      (ipv6FragReqroom + p.totLen) % 65536 < ipv6FragReqroom ∨
        p.head.payload < ipv6FragReqroom
  · rw [if_pos refused]
    exact trivial
  · rw [if_neg refused]
    refine put _ _ ?_
    have memLength :
        (overwrite p.head.mem (p.head.payload - ipv6FragReqroom)
          (List.replicate ip6ReassHelperSize 0)).length = p.head.mem.length := by
      refine overwrite_length ?_
      rw [List.length_replicate]
      omega
    constructor
    · show p.head.payload - ipv6FragReqroom + ipv6FragReqroom = fragAt
      omega
    · show p.head.payload - ipv6FragReqroom +
        (p.head.len + ipv6FragReqroom) % 65536 = _
      rw [memLength, Nat.mod_eq_of_lt (by omega)]
      omega
    · rw [memLength]
      exact room
    · rw [memLength]
      exact small

/-- What is done with a fragment of the datagram: nothing comes out of
reassembly, or a packet whose header is short. -/
inductive Outcome6
    (src dest : BitVec 128)
    (id : BitVec 32)
    (fragAt size : Nat)
    (start : IpInput) :
    Option Chain → IpInput → Prop where
  | collecting
      {input : IpInput} :
      Collecting6 src dest id fragAt size start input →
      Outcome6 src dest id fragAt size start none input
  | short
      {p : Chain}
      {input : IpInput} :
      ShortHeader fragAt size p →
      input.reassembled = start.reassembled →
      Outcome6 src dest id fragAt size start (some p) input

theorem enqueueFragment6_outcome
    {frag : Fragment6}
    {p : Chain}
    (collecting : Collecting6 src dest id fragAt size start input)
    (opened : OpenDatagram6 src dest id fragAt size ipr)
    (one : input.datagrams6 = [ipr])
    (current : input.currentIp6Header.off = 0)
    (behind : ip6Hlen ≤ fragAt)
    (buffer : FragBuffer fragAt 0 p)
    (ends :
      frag.more = false → (frag.start + frag.len) % 65536 = size) :
    wp (enqueueFragment6 frag p 0) (Outcome6 src dest id fragAt size start)
      (fun _ => True) input := by
  rw [enqueueFragment6, wp_bind, wp_get, one]
  dsimp only [List.getElem?_cons_zero]
  rw [wp_bind]
  refine putHelper_buffer buffer fun kept covered keptBuffer => ?_
  dsimp only
  split
  · exact .collecting collecting
  rename_i placement placed
  rw [wp_bind, wp_ensure]
  refine ⟨fun _ => ?_, fun _ => trivial⟩
  rw [wp_bind, wp_modify, one, List.set_cons_zero]
  have frags : ∀ other ∈ placement.chain,
      FragBuffer fragAt ipv6FragReqroom other.buffer := by
    intro other member
    rcases (mem_place placed).mp member with rfl | old
    · exact keptBuffer
    · exact opened.frags other old
  set first : Ip6Reassdata :=
    if frag.start = 0 then
      { ipr with
        frags := placement.chain
        iphdr := input.currentIp6Header
        origHdr := covered }
    else
      { ipr with frags := placement.chain } with firstEq
  have firstOpened : OpenDatagram6 src dest id fragAt size first := by
    rw [firstEq]
    split
    · exact ⟨opened.src_eq, opened.dest_eq, opened.ident, current, frags,
        opened.datagramLen⟩
    · exact ⟨opened.src_eq, opened.dest_eq, opened.ident, opened.iphdr, frags,
        opened.datagramLen⟩
  set last : Ip6Reassdata :=
    if frag.more = true then first
    else { first with datagramLen := (frag.start + frag.len) % 65536 }
    with lastEq
  have lastOpened : OpenDatagram6 src dest id fragAt size last := by
    rw [lastEq]
    split
    · exact firstOpened
    · rename_i noMore
      exact ⟨firstOpened.src_eq, firstOpened.dest_eq, firstOpened.ident,
        firstOpened.iphdr, firstOpened.frags,
        .inr (ends (Bool.not_eq_true _ ▸ noMore))⟩
  rw [wp_ite]
  refine ⟨fun valid => ?_, fun _ => ?_⟩
  · have complete : last.datagramLen = size := by
      simp only [Bool.and_eq_true, bne_iff_ne] at valid
      exact lastOpened.datagramLen.resolve_left valid.1.2
    rw [wp_bind]
    refine finishDatagram6_short lastOpened behind complete ?_
    intro p datagrams6 pbufcount6 short
    exact .short short collecting.reassembled
  · exact .collecting ⟨collecting.slack, collecting.sockets,
      collecting.reassembled, collecting.datagrams4,
      .inr ⟨last, rfl, lastOpened⟩⟩

/-- The datagram of a fragment is found, or begun. -/
theorem findDatagram6_opened
    {frag : Fragment6}
    {clen : Nat}
    {post : Option Nat → IpInput → Prop}
    (collecting : Collecting6 src dest id fragAt size start input)
    (current : input.currentIp6Header.off = 0)
    (addresses :
      frag.src = src ∧ frag.dest = dest ∧ frag.hdrSrc = src ∧
        frag.hdrDest = dest)
    (ident : frag.identification = id)
    (found :
      ∀ ipr, OpenDatagram6 src dest id fragAt size ipr →
        post (some 0) { input with datagrams6 := [ipr] }) :
    wp (findDatagram6 frag clen) post (fun _ => True) input := by
  obtain ⟨fragSrc, fragDest, hdrSrc, hdrDest⟩ := addresses
  rw [findDatagram6, wp_bind, wp_get]
  rcases collecting.datagrams6 with vacant | ⟨ipr, one, opened⟩
  · rw [vacant, List.findIdx?_nil]
    dsimp only
    rw [wp_bind, ip6ReassdataAlloc, wp_bind, wp_get, vacant,
      if_pos (by decide), wp_pure, if_pos rfl, wp_bind, wp_modify, vacant]
    exact found _ ⟨hdrSrc, hdrDest, ident, current,
      (fun _ member => by cases member), .inl rfl⟩
  · have isIts : ipr.matchesFragment frag = true := by
      simp [Ip6Reassdata.matchesFragment, opened.src_eq, opened.dest_eq,
        opened.ident, fragSrc, fragDest, ident]
    rw [one, List.findIdx?_cons, isIts, if_pos rfl]
    have same : input = { input with datagrams6 := [ipr] } := by
      rw [← one]
    have holds := found ipr opened
    rw [← same] at holds
    exact holds

/-- With no other datagram none can be evicted. -/
theorem roomForFragment6_alone
    {clen : Nat}
    {post : Option Nat → IpInput → Prop}
    (one : input.datagrams6 = [ipr])
    (full : post none input)
    (room : post (some 0) input) :
    wp (roomForFragment6 0 clen) post (fun _ => True) input := by
  have oldest : (findOldest (some 0) 0 (0, ipr.timer) [ipr]).1 = 0 := by
    simp [findOldest]
  have unchanged {post : Option Nat → IpInput → Prop}
      (same : post (some 0) input) :
      wp (ip6ReassRemoveOldestDatagram (some 0) clen) post (fun _ => True)
        input := by
    rw [ip6ReassRemoveOldestDatagram, wp_bind, wp_get, removeOldestRounds6,
      wp_bind, wp_get, one]
    dsimp only
    rw [oldest, if_pos rfl]
    exact same
  rw [roomForFragment6, wp_bind, wp_get, wp_ite]
  refine ⟨fun _ => ?_, fun _ => room⟩
  rw [wp_bind]
  refine unchanged ?_
  rw [wp_bind, wp_get, wp_ite]
  exact ⟨fun _ => room, fun _ => full⟩

/-- The fields of the fragment of a piece. -/
structure PieceFragment
    (src dest : BitVec 128)
    (id : BitVec 32)
    (piece : Piece UInt8)
    (frag : Fragment6) :
    Prop where
  addresses :
    frag.src = src ∧ frag.dest = dest ∧ frag.hdrSrc = src ∧ frag.hdrDest = dest
  ident : frag.identification = id
  start : frag.start = piece.offset
  len : frag.len = piece.data.length
  more : frag.more = piece.more

theorem ip6Reass_outcome
    {piece : Piece UInt8}
    {p : Chain}
    {hdr : Bytes}
    {nexth : UInt8}
    (collecting : Collecting6 src dest id fragAt size start input)
    (current : input.currentIp6Header = ⟨p.head.addr, 0⟩)
    (behind : ip6Hlen ≤ fragAt)
    (buffer : FragBuffer fragAt 0 p)
    (srcAt : addrAt p.head.mem 8 = src)
    (destAt : addrAt p.head.mem 24 = dest)
    (plen :
      (wordAt p.head.mem 4).toNat + ip6Hlen =
        fragAt + ip6FragHlen + piece.data.length)
    (fragHdr : FragHdrOf nexth id piece hdr)
    (front : p.head.front ip6FragHlen = hdr)
    (ends :
      piece.more = false →
        (piece.offset + piece.data.length) % 65536 = size) :
    wp (ip6Reass src dest p) (Outcome6 src dest id fragAt size start)
      (fun _ => True) input := by
  have hlen : ip6Hlen = 40 := rfl
  have fragHlen : ip6FragHlen = 8 := rfl
  have payload : p.head.payload = fragAt := buffer.payload
  simp only [ip6Reass, headerDifference, wp_bind, wp_ensure, wp_get, wp_pure,
    current, front]
  refine ⟨fun _ => ⟨fun _ => ⟨fun _ => ⟨fun _ => ?_, fun _ => trivial⟩,
    fun _ => trivial⟩, fun _ => trivial⟩, fun _ => trivial⟩
  have difference :
      (((p.head.payload : Nat) : Int) - ((0 : Nat) : Int)).toNat = fragAt := by
    omega
  rw [difference]
  simp only [Nat.zero_add, srcAt, destAt]
  generalize fragEq :
    ({ src, dest
       hdrSrc := src
       hdrDest := dest
       identification := longAt hdr 4
       nexth := byteAt hdr 0
       start := (wordAt hdr 2 &&& 0xfff8).toNat
       len := (wordAt p.head.mem 4).toNat - (fragAt - ip6Hlen + ip6FragHlen)
       more := wordAt hdr 2 &&& 1 != 0 } : Fragment6) = frag
  have fields : PieceFragment src dest id piece frag := by
    rw [← fragEq]
    refine ⟨⟨rfl, rfl, rfl, rfl⟩, fragHdr.ident, fragHdr.offset, ?_,
      fragHdr.more⟩
    dsimp only
    omega
  rw [wp_ite]
  refine ⟨fun _ => .collecting collecting, fun _ => ?_⟩
  rw [wp_bind]
  refine findDatagram6_opened collecting (by rw [current]) fields.addresses
    fields.ident fun ipr opened => ?_
  have collecting :
      Collecting6 src dest id fragAt size start
        { input with datagrams6 := [ipr] } :=
    ⟨collecting.slack, collecting.sockets, collecting.reassembled,
      collecting.datagrams4, .inr ⟨ipr, rfl, opened⟩⟩
  dsimp only
  rw [wp_bind]
  refine roomForFragment6_alone rfl (.collecting collecting) ?_
  refine enqueueFragment6_outcome collecting opened rfl ?_ behind buffer ?_
  · show input.currentIp6Header.off = 0
    rw [current]
  · rw [fields.more, fields.start, fields.len]
    exact ends

/-- A short header is one that is misread. -/
theorem ShortHeader.misread
    {p : Chain}
    {nexth : UInt8}
    {plen : Nat}
    (short : ShortHeader fragAt size p)
    (same : input.reassembled = start.reassembled)
    (right : plen + ip6Hlen = fragAt + size) :
    Misread start plen
      { input with
        reassembled :=
          input.reassembled ++
            [(wordAt p.head.mem (p.head.payload + 4), nexth)] } := by
  have hlen : ip6Hlen = 40 := rfl
  have fragHlen : ip6FragHlen = 8 := rfl
  refine ⟨(wordAt p.head.mem (p.head.payload + 4), nexth), ?_, ?_⟩
  · dsimp only
    rw [same, List.drop_left]
    exact List.mem_singleton.mpr rfl
  · dsimp only
    rw [short.payload, short.plen, BitVec.toNat_ofInt]
    omega

/-- What the Fragment header of one of several pieces does. -/
theorem fragmentHeader_outcome
    {piece : Piece UInt8}
    {walk : Ip6Walk}
    {hdr : Bytes}
    {nexth : UInt8}
    {plen : Nat}
    (collecting : Collecting6 src dest id fragAt size start input)
    (current : input.currentIp6Header = ⟨walk.p.head.addr, 0⟩)
    (behind : ip6Hlen ≤ fragAt)
    (buffer : FragBuffer fragAt 0 walk.p)
    (srcAt : addrAt walk.p.head.mem 8 = src)
    (destAt : addrAt walk.p.head.mem 24 = dest)
    (plenAt :
      (wordAt walk.p.head.mem 4).toNat + ip6Hlen =
        fragAt + ip6FragHlen + piece.data.length)
    (fragHdr : FragHdrOf nexth id piece hdr)
    (front : walk.p.head.front ip6FragHlen = hdr)
    (part : piece.offset ≠ 0 ∨ piece.more = true)
    (ends :
      piece.more = false →
        (piece.offset + piece.data.length) % 65536 = size)
    (right : plen + ip6Hlen = fragAt + size) :
    wp (fragmentHeader src dest walk)
      (fun result next =>
        result = none ∧ Collecting6 src dest id fragAt size start next ∨
          Misread start plen next)
      (fun _ => True) input := by
  have hlen : ip6Hlen = 40 := rfl
  have fragHlen : ip6FragHlen = 8 := rfl
  have payload : walk.p.head.payload = fragAt := buffer.payload
  have len := buffer.len
  have room := buffer.room
  have offsetAt :
      wordAt walk.p.head.mem (walk.p.head.payload + 2) = wordAt hdr 2 := by
    rw [← front, PBuf.front, wordAt_take (by omega), wordAt_drop]
  have notAtomic : wordAt hdr 2 &&& 0xfff9 ≠ 0 := by
    rw [Ne, fragHdr.atomic_iff]
    rintro ⟨start, last⟩
    rcases part with positive | follows
    · exact positive start
    · rw [last] at follows
      cases follows
  rw [fragmentHeader, if_neg (by omega), wp_bind, wp_readWord (by omega),
    offsetAt, wp_ite]
  refine ⟨fun _ => ?_, fun _ => ?_⟩
  · rw [wp_bind]
    exact .inl ⟨rfl, collecting⟩
  rw [if_neg notAtomic, wp_bind]
  refine wp_weaken
    (ip6Reass_outcome collecting current behind buffer srcAt destAt plenAt
      fragHdr front ends) ?_
  rintro result next outcome
  cases outcome with
  | collecting collects =>
      exact .inl ⟨rfl, collects⟩
  | @short p _ short same =>
      have shortPayload := short.payload
      have shortRoom := short.room
      dsimp only
      rw [wp_bind, wp_readWord (by omega), wp_bind, wp_readByte (by omega),
        wp_bind, wp_modify, wp_bind]
      refine misread_frame (pbufRemoveHeader_frame _ _)
        (short.misread same right) ?_
      intro _ last misread
      exact .inr misread

end Reassembly

/-! ## Runs -/

section Runs

variable {src dest : BitVec 128} {front : List ExtHdr} {nexth : UInt8}
  {id : BitVec 32} {whole : Bytes} {pieces : List (Piece UInt8)}
  {encode : Piece UInt8 → Bytes} {start input : IpInput} {fragAt plen : Nat}

/-- Nothing has come out of reassembly, or something with a short header. -/
def Undelivered
    (src dest : BitVec 128)
    (id : BitVec 32)
    (fragAt size plen : Nat)
    (start input : IpInput) :
    Prop :=
  Collecting6 src dest id fragAt size start input ∨ Misread start plen input

theorem Collecting6.current
    {size : Nat}
    {hdr : Ip6HdrPtr}
    (collecting : Collecting6 src dest id fragAt size start input) :
    Collecting6 src dest id fragAt size start
      { input with currentIp6Header := hdr } :=
  ⟨collecting.slack, collecting.sockets, collecting.reassembled,
    collecting.datagrams4, collecting.datagrams6⟩

/-- What a fragment does, unless it is the whole datagram. -/
theorem sinkInput_fragment6
    {piece : Piece UInt8}
    {vec : Bytes}
    {addr size : Nat}
    (memory : start.slack.isSome)
    (collecting : Collecting6 src dest id fragAt size start input)
    (fragment : Ip6FragmentOf src dest front nexth id piece vec)
    (headers :
      fragAt = ip6Hlen +
        (encodeChain (.ofBitVec ip6NexthFragment) front).length)
    (part : vec.length < 65536 → piece.offset ≠ 0 ∨ piece.more = true)
    (ends :
      piece.more = false →
        (piece.offset + piece.data.length) % 65536 = size)
    (right : plen + ip6Hlen = fragAt + size) :
    wp (sinkInput (some addr) vec)
      (fun _ next => Undelivered src dest id fragAt size plen start next)
      (fun _ => True) input := by
  obtain ⟨hdr, fragHdr, packet⟩ := fragment
  have slack : input.slack.isSome := by
    rw [collecting.slack]
    exact memory
  by_cases long : 65536 ≤ vec.length
  · exact sinkInput_long slack packet long (.inl collecting)
  have hlen : ip6Hlen = 40 := rfl
  have fragHlen : ip6FragHlen = 8 := rfl
  have length := packet.size
  have hdrSize := fragHdr.size
  have enough := (length_encodeChain (.ofBitVec ip6NexthFragment) front).2
  simp only [List.length_append] at length
  obtain ⟨held, data⟩ := packet.walk_data addr
  refine sinkInput_packet packet (by omega) ?_
  have received :
      wp (ip6Input (wholePbuf addr vec))
        (fun up next =>
          up = none ∧ Collecting6 src dest id fragAt size start next ∨
            Misread start plen next)
        (fun _ => True) input := by
    refine ip6Input_packet packet ?_ ?_
    · exact fun _ _ => .inl ⟨rfl, collecting.current⟩
    intro _
    have walked :
        wp (walkHeaders src dest walkRounds (packetWalk addr vec))
          (fun result next =>
            result = none ∧ Collecting6 src dest id fragAt size start next ∨
              Misread start plen next)
          (fun _ => True) { input with currentIp6Header := ⟨addr, 0⟩ } := by
      obtain ⟨left, rounds⟩ : ∃ left, walkRounds = front.length + (left + 1) :=
        ⟨65535 - front.length, by simp only [walkRounds]; omega⟩
      rw [rounds]
      refine walkHeaders_chain slack packet.nexth_eq held data
        (show ip6Hlen < 65536 by decide) ?_
        (fun _ => .inl ⟨rfl, collecting.current⟩)
      intro _
      set walk := (packetWalk addr vec).advance
        (encodeChain (.ofBitVec ip6NexthFragment) front).length
        (.ofBitVec ip6NexthFragment)
      have payload : walk.p.head.payload = fragAt := by
        show 0 + ip6Hlen + _ = _
        omega
      have len : walk.p.head.len = vec.length - ip6Hlen -
          (encodeChain (.ofBitVec ip6NexthFragment) front).length := rfl
      have buffer : FragBuffer fragAt 0 walk.p := by
        refine ⟨payload, ?_, ?_, ?_⟩
        · show walk.p.head.payload + walk.p.head.len = vec.length
          omega
        · show fragAt + ip6FragHlen ≤ vec.length
          omega
        · show vec.length < 65536
          omega
      have hdrAt : walk.p.head.front ip6FragHlen = hdr := by
        have behind : walk.p.head.data = hdr ++ piece.data :=
          Ip6Walk.advance_data data
        have cut : walk.p.head.front ip6FragHlen =
            walk.p.head.data.take ip6FragHlen := by
          rw [PBuf.data, List.take_take, PBuf.front, Nat.min_eq_left (by omega)]
        rw [cut, behind, ← hdrSize, List.take_left]
      have plenAt :
          (wordAt walk.p.head.mem 4).toNat + ip6Hlen =
            fragAt + ip6FragHlen + piece.data.length := by
        have plen := packet.plen
        simp only [List.length_append] at plen
        show (wordAt vec 4).toNat + _ = _
        omega
      have type : walk.nexth = .ofBitVec ip6NexthFragment := rfl
      rw [walkHeaders, type, if_pos (by decide), wp_bind, extensionHeader, type,
        if_neg (by decide), if_neg (by decide), if_neg (by decide)]
      refine wp_weaken
        (fragmentHeader_outcome collecting.current rfl (by omega) buffer
          packet.src_eq packet.dest_eq plenAt fragHdr hdrAt (part (by omega))
          ends right) ?_
      rintro result next (⟨rfl, collects⟩ | misread)
      · exact .inl ⟨rfl, collects⟩
      · cases result with
        | none => exact .inr misread
        | some walk =>
            refine misread_frame ?_ misread fun _ _ later => .inr later
            exact .ite
              (.bind (icmp6ParamProblem_frame _) fun _ => .pure _)
              (walkHeaders_frame _ _ _ _)
    refine wp_weaken walked ?_
    rintro result next (⟨rfl, collects⟩ | misread)
    · exact .inl ⟨rfl, collects⟩
    · cases result with
      | none => exact .inr misread
      | some walk =>
          exact misread_frame (ip6Deliver_frame _ _ _) misread
            fun _ _ later => .inr later
  refine wp_weaken received ?_
  rintro up next (⟨rfl, collects⟩ | misread)
  · exact .inl collects
  · cases up with
    | none => exact .inr misread
    | some up =>
        refine misread_frame ?_ misread fun _ _ later => .inr later
        exact .ite (.bind (udpInput_frame _ _ _) fun _ => .pure _) (.pure _)

/-- The timer makes the entry older, or drops it. -/
theorem ip6ReassTmr_collecting
    {size : Nat}
    (collecting : Collecting6 src dest id fragAt size start input) :
    wp ip6ReassTmr
      (fun _ next => Collecting6 src dest id fragAt size start next)
      (fun _ => True) input := by
  rw [ip6ReassTmr, wp_bind, wp_get]
  rcases collecting.datagrams6 with vacant | ⟨ipr, one, opened⟩
  · rw [vacant]
    exact collecting
  rw [one, List.length_singleton, ip6ReassTmrFrom, wp_bind, wp_get, one]
  dsimp only [List.getElem?_cons_zero]
  rw [wp_ite]
  refine ⟨fun _ => ?_, fun _ => ?_⟩
  · rw [wp_bind, wp_set, ip6ReassTmrFrom, wp_pure]
    exact ⟨collecting.slack, collecting.sockets, collecting.reassembled,
      collecting.datagrams4, .inr ⟨_, rfl, opened.src_eq, opened.dest_eq,
        opened.ident, opened.iphdr, opened.frags, opened.datagramLen⟩⟩
  · have counted (freed : Nat) (frags : List (Frag Chain))
        {post : Nat → IpInput → Prop} (any : ∀ count, post count input) :
        wp (countFreed6 freed frags) post (fun _ => True) input := by
      induction frags generalizing freed with
      | nil => exact any freed
      | cons frag rest inductionHypothesis =>
          rw [countFreed6, wp_bind, wp_ensure]
          exact ⟨fun _ => inductionHypothesis _, fun _ => trivial⟩
    have returned {post : Unit → IpInput → Prop} (same : post () input) :
        wp (returnFirst ipr) post (fun _ => True) input := by
      unfold returnFirst
      split
      · exact trivial
      · rw [wp_ite]
        refine ⟨fun _ => ?_, fun _ => same⟩
        simp only [headerDifference, wp_bind, wp_ensure, wp_pure]
        refine ⟨fun _ => ?_, fun _ => trivial⟩
        simp only [pbufHeaderForce]
        generalize Int.bmod _ 65536 = increment
        rw [wp_ite]
        refine ⟨fun _ => ?_, fun _ => ⟨fun _ => same, fun _ => trivial⟩⟩
        rw [wp_bind]
        exact wp_pbufRemoveHeader_any fun _ => ⟨fun _ => same, fun _ => trivial⟩
    rw [wp_bind, ip6ReassFreeCompleteDatagram, wp_bind, wp_get, one]
    dsimp only [List.getElem?_cons_zero]
    rw [wp_bind]
    refine returned ?_
    rw [wp_bind]
    refine counted 0 _ fun freed => ?_
    simp only [wp_bind, wp_modify, wp_ensure, one, List.eraseIdx]
    refine ⟨fun _ => ?_, fun _ => trivial⟩
    rw [ip6ReassTmrFrom, wp_pure]
    exact ⟨collecting.slack, collecting.sockets, collecting.reassembled,
      collecting.datagrams4, .inl rfl⟩

/-- The fragments of a datagram that does not come as one vector. -/
structure Split6
    (src dest : BitVec 128)
    (front : List ExtHdr)
    (nexth : UInt8)
    (id : BitVec 32)
    (whole : Bytes)
    (pieces : List (Piece UInt8))
    (encode : Piece UInt8 → Bytes) :
    Prop where
  cut : Cut 8 0 whole pieces
  small : whole.length < 65536
  fragment :
    ∀ piece ∈ pieces,
      Ip6FragmentOf src dest front nexth id piece (encode piece)
  part :
    ∀ piece ∈ pieces,
      (encode piece).length < 65536 → piece.offset ≠ 0 ∨ piece.more = true

/-- In no run with the fragments is the packet delivered as it was. -/
theorem ipRun_undelivered
    {labels : List IpLabel}
    (split : Split6 src dest front nexth id whole pieces encode)
    (memory : start.slack.isSome)
    (headers :
      fragAt = ip6Hlen +
        (encodeChain (.ofBitVec ip6NexthFragment) front).length)
    (right : plen + ip6Hlen = fragAt + whole.length)
    (feeds : ∀ label ∈ labels, Feeds (pieces.map encode) label) :
    Preserves (Undelivered src dest id fragAt whole.length plen start)
      (fun _ => True) (ipRun labels) := by
  have step (label : IpLabel) (fed : Feeds (pieces.map encode) label) :
      Preserves (Undelivered src dest id fragAt whole.length plen start)
        (fun _ => True) label.run := by
    rintro input (collecting | misread)
    · cases fed with
      | @item addr vec among =>
          obtain ⟨piece, member, rfl⟩ := List.mem_map.mp among
          rw [IpLabel.run, wp_bind]
          refine sinkInput_fragment6 memory collecting
            (split.fragment piece member) headers (split.part piece member) ?_
            right
          intro last
          have ends := (split.cut.more_eq_false_iff piece member).mp last
          have small := split.small
          rw [ends, Nat.zero_add, Nat.mod_eq_of_lt small]
      | ipReassTmr =>
          show wp ipReassTmr _ _ _
          rw [ipReassTmr, wp_bind, wp_get, collecting.datagrams4]
          exact .inl collecting
      | ip6ReassTmr =>
          exact wp_weaken (ip6ReassTmr_collecting collecting)
            fun _ _ => .inl
    · exact misread_frame (label_frame label) misread fun _ _ => .inr
  induction labels with
  | nil =>
      exact .pure _
  | cons label labels inductionHypothesis =>
      exact .bind (step label (feeds label List.mem_cons_self)) fun _ =>
        inductionHypothesis fun label member =>
          feeds label (List.mem_cons_of_mem _ member)

end Runs

/--
The vectors, given in any order and any buffers, with repetitions before the
last missing one and within the lifetime of an entry, deliver exactly `item`,
and every header that reassembly returns has the payload length and the next
header of the packet `whole`.
-/
def ReadAsWhole
    (start : IpInput)
    (whole : Bytes)
    (item : UdpPkt)
    (vecs : List Bytes) :
    Prop :=
  ∀ labels,
    (∀ label ∈ labels, Feeds vecs label) →
      ticksSinceFirst .ip6ReassTmr labels ≤ ipv6ReassMaxage →
        AllArrived vecs labels →
          ¬AllArrived vecs labels.dropLast →
            ∃ next, ipRun labels start = .ok ((), next) ∧
              next.sockets =
                start.sockets.modifyHead (fun socket =>
                  { socket with queue := socket.queue ++ [item] }) ∧
              ∀ hdr ∈ next.reassembled.drop start.reassembled.length,
                hdr = (wordAt whole 4, byteAt whole 6)

section Deliver

variable {src dest : BitVec 128} {front back : List ExtHdr} {id : BitVec 32}
  {whole udp vec : Bytes} {start : IpInput} {socket : UdpSocket}
  {rest : List UdpSocket} {item : UdpPkt} {addr : Nat}

theorem append_item_ne
    (sockets : start.sockets = socket :: rest) :
    start.sockets ≠
      start.sockets.modifyHead fun socket =>
        { socket with queue := socket.queue ++ [item] } := by
  rw [sockets, List.modifyHead_cons, Ne, List.cons.injEq, not_and_or]
  refine .inl fun same => ?_
  have queue := congrArg UdpSocket.queue same
  simp at queue

/-- What is known of a packet that is delivered. -/
theorem Ip6UdpPacket.delivers
    (packet : Ip6UdpPacket whole src dest (front ++ back) udp)
    (memory : start.slack.isSome)
    (sockets : start.sockets = socket :: rest)
    (room : socket.queue.length < socket.capacity)
    (delivered : YieldsItems start (some addr) whole [item]) :
    (ip6Admits start.ip6Addrs src dest &&
        chainKept (.ofBitVec ipProtoUdp) (front ++ back)) = true ∧
      deliveredItems (.v6 src) (.v6 dest) udp = [item] := by
  obtain ⟨next, ran, after⟩ := delivered
  have unchanged (same : next.sockets = start.sockets) : False :=
    append_item_ne sockets (same.symm.trans after)
  by_cases long : 65536 ≤ whole.length
  · have outcome :
        wp (sinkInput (some addr) whole)
          (fun _ next => next.sockets = start.sockets) (fun _ => True) start :=
      sinkInput_long memory packet long rfl
    have same := wp_returned outcome ran
    exact (unchanged same).elim
  have outcome :
      wp (sinkInput (some addr) whole)
        (fun _ next =>
          next.sockets ≠ start.sockets →
            (ip6Admits start.ip6Addrs src dest &&
                chainKept (.ofBitVec ipProtoUdp) (front ++ back)) = true ∧
              next.sockets =
                { socket with
                  queue :=
                    socket.queue ++
                      deliveredItems (.v6 src) (.v6 dest) udp } :: rest)
        (fun _ => True) start := by
    refine sinkInput_udpPacket memory packet (by omega)
      (packet.walks (by omega)) ?_ sockets room ?_ ?_
    · rw [List.length_append]
      exact Nat.le_add_right _ _
    · exact fun _ _ changed => absurd rfl changed
    · intro both _
      rw [List.drop_left]
      exact ⟨both, rfl⟩
  have holds := wp_returned outcome ran
  obtain ⟨both, items⟩ := holds unchanged
  refine ⟨both, ?_⟩
  rw [after, sockets, List.modifyHead_cons, List.cons.injEq] at items
  have queue := congrArg UdpSocket.queue items.1
  exact (List.append_cancel_left queue).symm

/-- An atomic fragment delivers what the packet delivers. -/
theorem Ip6FragmentOf.delivers
    {post : Option Upward → IpInput → Prop}
    (fragment :
      Ip6FragmentOf src dest front (firstType (.ofBitVec ipProtoUdp) back) id
        ⟨0, false, encodeChain (.ofBitVec ipProtoUdp) back ++ udp⟩ vec)
    (starts : firstType (.ofBitVec ipProtoUdp) back ≠ 0)
    (small : vec.length < 65536)
    (memory : start.slack.isSome)
    (sockets : start.sockets = socket :: rest)
    (room : socket.queue.length < socket.capacity)
    (both :
      (ip6Admits start.ip6Addrs src dest &&
        chainKept (.ofBitVec ipProtoUdp) (front ++ back)) = true)
    (items : deliveredItems (.v6 src) (.v6 dest) udp = [item])
    (delivered :
      post none {
        start with
        currentIp6Header := ⟨addr, 0⟩
        sockets :=
          start.sockets.modifyHead fun socket =>
            { socket with queue := socket.queue ++ [item] } }) :
    wp (sinkInput (some addr) vec) post (fun _ => False) start := by
  have walks : WalksToUdp src dest addr vec _ _ := fragment.walks starts small
  obtain ⟨hdr, fragHdr, packet⟩ := fragment
  have size := fragHdr.size
  refine sinkInput_udpPacket memory packet small walks ?_ sockets room ?_ ?_
  · simp only [List.length_append]
    omega
  · intro neither
    rw [both] at neither
    cases neither
  · intro _
    have behind :
        (encodeChain (.ofBitVec ip6NexthFragment) front ++
            (hdr ++ (encodeChain (.ofBitVec ipProtoUdp) back ++ udp))).drop
          ((encodeChain (.ofBitVec ip6NexthFragment) front).length +
            ip6FragHlen + (encodeChain (.ofBitVec ipProtoUdp) back).length) =
          udp := by
      rw [← size, ← List.drop_drop, ← List.drop_drop, List.drop_left,
        List.drop_left, List.drop_left]
    rw [behind, items]
    rw [sockets] at delivered
    exact delivered

end Deliver

section Runs

variable {start : IpInput} {vec : Bytes} {labels : List IpLabel}

/-- Before the only vector is given, there are only ticks. -/
theorem ticks_before
    (feeds : ∀ label ∈ labels, Feeds [vec] label)
    (all : AllArrived [vec] labels)
    (before : ¬AllArrived [vec] labels.dropLast) :
    ∃ front addr, labels = front ++ [.item (some addr) vec] ∧
      ∀ label ∈ front, label.isTick = true := by
  rcases List.eq_nil_or_concat labels with rfl | ⟨front, label, rfl⟩
  · exact absurd all before
  rw [List.concat_eq_append] at feeds all
  rw [List.concat_eq_append, List.dropLast_concat] at before
  have ticks : ∀ label ∈ front, label.isTick = true := by
    intro label member
    cases feeds label (List.mem_append_left _ member) with
    | @item addr _ among =>
        rw [List.mem_singleton] at among
        subst among
        refine absurd (fun other otherMember => ?_) before
        rw [List.mem_singleton] at otherMember
        exact ⟨some addr, otherMember ▸ member⟩
    | ipReassTmr => rfl
    | ip6ReassTmr => rfl
  obtain ⟨addr, member⟩ := all vec List.mem_cons_self
  rcases List.mem_append.mp member with early | last
  · exact absurd (ticks _ early) (by simp [IpLabel.isTick])
  · rw [List.mem_singleton] at last
    rw [← last] at feeds ⊢
    cases feeds _ (List.mem_append_right _ (List.mem_singleton.mpr rfl)) with
    | item _ => exact ⟨front, _, List.concat_eq_append, ticks⟩

/-- With nothing to reassemble the timers do nothing. -/
theorem ipRun_ticks
    {allowed : IpFault → Prop}
    {post : Unit → IpInput → Prop}
    (idle : start.datagrams4 = [] ∧ start.datagrams6 = [])
    (ticks : ∀ label ∈ labels, label.isTick = true)
    (same : post () start) :
    wp (ipRun labels) post allowed start := by
  induction labels with
  | nil =>
      exact same
  | cons label labels inductionHypothesis =>
      have rest := inductionHypothesis fun label member =>
        ticks label (List.mem_cons_of_mem _ member)
      rw [ipRun, wp_bind]
      cases label with
      | item addr vec => exact absurd (ticks _ List.mem_cons_self) (by simp [IpLabel.isTick])
      | ipReassTmr =>
          show wp ipReassTmr _ _ _
          rw [ipReassTmr, wp_bind, wp_get, idle.1]
          exact rest
      | ip6ReassTmr =>
          show wp ip6ReassTmr _ _ _
          rw [ip6ReassTmr, wp_bind, wp_get, idle.2]
          exact rest

end Runs

/--
Fragments of a packet that is delivered are read like the packet in every run
exactly if there is one fragment only, short enough to come through the sink
whole.
-/
theorem ip6_fragments_read_as_whole_iff
    (start : IpInput)
    (memory : start.slack.isSome = true)
    (idle : start.datagrams4 = [] ∧ start.datagrams6 = [])
    (socket : UdpSocket)
    (rest : List UdpSocket)
    (sockets : start.sockets = socket :: rest)
    (room : socket.queue.length < socket.capacity)
    (src dest : BitVec 128)
    (front back : List ExtHdr)
    (whole udp : Bytes)
    (packet : Ip6UdpPacket whole src dest (front ++ back) udp)
    (item : UdpPkt)
    (addr : Nat)
    (delivered : YieldsItems start (some addr) whole [item])
    (perFragment : ∀ hdr ∈ back, hdr.type ≠ 0)
    (id : BitVec 32)
    (pieces : List (Piece UInt8))
    (encode : Piece UInt8 → Bytes)
    (cut : Cut 8 0 (encodeChain (.ofBitVec ipProtoUdp) back ++ udp) pieces)
    (fragments :
      ∀ piece ∈ pieces,
        Ip6FragmentOf src dest front (firstType (.ofBitVec ipProtoUdp) back) id
          piece (encode piece)) :
    ReadAsWhole start whole item (pieces.map encode) ↔
      ∃ piece, pieces = [piece] ∧ (encode piece).length < 65536 := by
  have plen := packet.plen
  have bound := (wordAt whole 4).isLt
  rw [List.length_append, length_encodeChain_append (.ofBitVec ip6NexthFragment)]
    at plen
  constructor
  · intro asWhole
    by_contra several
    have split :
        Split6 src dest front (firstType (.ofBitVec ipProtoUdp) back) id
          (encodeChain (.ofBitVec ipProtoUdp) back ++ udp) pieces encode := by
      refine ⟨cut, ?_, fragments, ?_⟩
      · rw [List.length_append]
        omega
      · intro piece member small
        by_contra neither
        rw [not_or, not_not, Bool.not_eq_true] at neither
        exact several
          ⟨piece, cut.eq_singleton member neither.1 neither.2, small⟩
    -- The fragments in order, each in a buffer of its own.
    set inOrder :=
      pieces.mapIdx fun index piece => IpLabel.item (some index) (encode piece)
      with inOrderEq
    have items : ∀ label ∈ inOrder, ∃ index, ∃ piece ∈ pieces,
        label = .item (some index) (encode piece) := by
      intro label member
      rw [inOrderEq, List.mem_mapIdx] at member
      obtain ⟨index, within, rfl⟩ := member
      exact ⟨index, _, List.getElem_mem within, rfl⟩
    have all : AllArrived (pieces.map encode) inOrder := by
      intro vec member
      obtain ⟨piece, among, rfl⟩ := List.mem_map.mp member
      obtain ⟨index, within, rfl⟩ := List.mem_iff_getElem.mp among
      refine ⟨some index, ?_⟩
      rw [inOrderEq, List.mem_mapIdx]
      exact ⟨index, within, rfl⟩
    have nonempty : pieces.map encode ≠ [] := by
      obtain ⟨piece, member, _⟩ := cut.exists_last
      exact List.ne_nil_of_mem (List.mem_map.mpr ⟨piece, member, rfl⟩)
    obtain ⟨labels, isPrefix, arrived, before⟩ :=
      exists_first_allArrived nonempty all
    have feeds : ∀ label ∈ labels, Feeds (pieces.map encode) label := by
      intro label member
      obtain ⟨index, piece, among, rfl⟩ := items label (isPrefix.subset member)
      exact .item (List.mem_map.mpr ⟨piece, among, rfl⟩)
    have young : ticksSinceFirst .ip6ReassTmr labels ≤ ipv6ReassMaxage := by
      have tickless :
          (labels.dropWhile IpLabel.isTick).count .ip6ReassTmr = 0 := by
        refine List.count_eq_zero.mpr fun member => ?_
        obtain ⟨_, _, _, isItem⟩ := items _
          (isPrefix.subset ((List.dropWhile_suffix _).subset member))
        cases isItem
      rw [ticksSinceFirst, tickless]
      exact Nat.zero_le _
    obtain ⟨next, ran, after, hdrs⟩ := asWhole labels feeds young arrived before
    have right :
        (wordAt whole 4).toNat + ip6Hlen =
          ip6Hlen + (encodeChain (.ofBitVec ip6NexthFragment) front).length +
            (encodeChain (.ofBitVec ipProtoUdp) back ++ udp).length := by
      rw [List.length_append]
      omega
    have outcome := ipRun_undelivered split memory rfl right feeds start
      (.inl ⟨rfl, rfl, rfl, idle.1, .inl idle.2⟩)
    rcases wp_returned outcome ran with collecting | ⟨hdr, member, wrong⟩
    · exact append_item_ne sockets (collecting.sockets.symm.trans after)
    · rw [hdrs hdr member] at wrong
      exact wrong rfl
  · rintro ⟨piece, rfl, small⟩ labels feeds _ all before
    obtain rfl := cut.eq_of_singleton
    have fragment := fragments _ List.mem_cons_self
    rw [List.map_singleton] at feeds all before
    generalize encode _ = vec at feeds all before small fragment
    obtain ⟨ticks, last, rfl, isTick⟩ := ticks_before feeds all before
    obtain ⟨both, items⟩ := packet.delivers memory sockets room delivered
    have starts : firstType (.ofBitVec ipProtoUdp) back ≠ 0 := by
      cases back with
      | nil => decide
      | cons hdr _ => exact perFragment hdr List.mem_cons_self
    have outcome :
        wp (ipRun (ticks ++ [.item (some last) vec]))
          (fun _ next =>
            next.sockets =
              start.sockets.modifyHead (fun socket =>
                { socket with queue := socket.queue ++ [item] }) ∧
            next.reassembled = start.reassembled)
          (fun _ => False) start := by
      rw [wp_ipRun_append]
      refine ipRun_ticks idle isTick ?_
      rw [wp_ipRun_singleton, IpLabel.run, wp_bind]
      exact fragment.delivers starts small memory sockets room both items
        ⟨rfl, rfl⟩
    cases ran : ipRun (ticks ++ [.item (some last) vec]) start with
    | error fault => exact (wp_faulted outcome ran).elim
    | ok result =>
        obtain ⟨after, same⟩ := wp_returned outcome ran
        refine ⟨result.2, rfl, after, ?_⟩
        rw [same, List.drop_length]
        exact fun _ member => by cases member

/-- An IPv6 header from 2001:db8::1 to 2001:db8::2. -/
def exampleIp6Hdr (plen nexth : UInt8) : Bytes :=
  [0x60, 0, 0, 0, 0, plen, nexth, 64,
    0x20, 1, 0xd, 0xb8, 0, 0, 0, 0, 0, 0, 0, 0, 0, 0, 0, 1,
    0x20, 1, 0xd, 0xb8, 0, 0, 0, 0, 0, 0, 0, 0, 0, 0, 0, 2]

/-- A UDP datagram with one byte of data. -/
def exampleUdp : Bytes :=
  [4, 210, 0, 53, 0, 9, 0, 0, 7]

/-- The packet with this datagram. -/
def exampleIp6Udp : Bytes :=
  exampleIp6Hdr 9 17 ++ exampleUdp

/-- A fragment of it, with `flags` as the last byte of the offset field. -/
def exampleIp6Fragment (flags : UInt8) (piece : Piece UInt8) : Bytes :=
  exampleIp6Hdr (.ofNat (8 + piece.data.length)) 44 ++
    ([17, 0, 0, flags, 0, 0, 0, 5] ++ piece.data)

/-- The item that the packet delivers. -/
def exampleIp6Item : UdpPkt :=
  ([7], ⟨.v6 0x20010db8000000000000000000000001, 1234⟩,
    ⟨.v6 0x20010db8000000000000000000000002, 53⟩)

theorem exampleIp6Udp_delivered :
    YieldsItems oneSocket (some 1) exampleIp6Udp [exampleIp6Item] := by
  have ran :
      sinkInput (some 1) exampleIp6Udp oneSocket =
        .ok (none, {
          oneSocket with
          currentIp6Header := ⟨1, 0⟩
          sockets := [{ capacity := 1, queue := [exampleIp6Item] }] }) := by
    rfl
  exact ⟨_, ran, rfl⟩

/-- A Destination Options header that holds padding. -/
def exampleOptions : ExtHdr where
  type := 60
  body := [0, 1, 4, 0, 0, 0, 0]
  kind := .inr (.inr rfl)
  size := rfl

/-- The datagram behind two of these headers. -/
def exampleIp6Chain : Bytes :=
  exampleIp6Hdr 25 60 ++
    (encodeChain 17 [exampleOptions, exampleOptions] ++ exampleUdp)

/-- The fragment of a piece behind one of them. -/
def exampleIp6ChainFragment (piece : Piece UInt8) : Bytes :=
  exampleIp6Hdr (.ofNat (16 + piece.data.length)) 60 ++
    (encodeChain 44 [exampleOptions] ++
      ([60, 0, 0, 0, 0, 0, 0, 5] ++ piece.data))

/-- The one fragment: the second header and the datagram. -/
def exampleIp6Atomic : Piece UInt8 where
  offset := 0
  more := false
  data := encodeChain 17 [exampleOptions] ++ exampleUdp

theorem exampleIp6Chain_delivered :
    YieldsItems oneSocket (some 1) exampleIp6Chain [exampleIp6Item] := by
  have ran :
      sinkInput (some 1) exampleIp6Chain oneSocket =
        .ok (none, {
          oneSocket with
          currentIp6Header := ⟨1, 0⟩
          sockets := [{ capacity := 1, queue := [exampleIp6Item] }] }) := by
    rfl
  exact ⟨_, ran, rfl⟩

theorem ip6_fragments_read_as_whole_iff_atomic :
    ReadAsWhole oneSocket exampleIp6Chain exampleIp6Item
        ([exampleIp6Atomic].map exampleIp6ChainFragment) ↔
      ∃ piece, [exampleIp6Atomic] = [piece] ∧
        (exampleIp6ChainFragment piece).length < 65536 := by
  refine ip6_fragments_read_as_whole_iff oneSocket rfl ⟨rfl, rfl⟩
    { capacity := 1 } [] rfl (by decide) 0x20010db8000000000000000000000001
    0x20010db8000000000000000000000002 [exampleOptions] [exampleOptions]
    exampleIp6Chain exampleUdp (by constructor <;> decide) exampleIp6Item 1
    exampleIp6Chain_delivered ?_ 5 [exampleIp6Atomic] exampleIp6ChainFragment
    (.last (List.cons_ne_nil _ _)) ?_
  · intro hdr member
    obtain rfl := List.mem_singleton.mp member
    decide
  · intro piece member
    obtain rfl := List.mem_singleton.mp member
    refine ⟨[60, 0, 0, 0, 0, 0, 0, 5], ?_, ?_⟩
    · constructor <;> decide
    · constructor <;> decide

/-- Two fragments of a delivered packet are put together, but the payload
length in the header is 1 in place of 9. -/
theorem reassembled_payload_length_short :
    YieldsItems oneSocket (some 1) exampleIp6Udp [exampleIp6Item] ∧
      ¬ReadAsWhole oneSocket exampleIp6Udp exampleIp6Item
        [exampleIp6Fragment 1 ⟨0, true, exampleUdp.take 8⟩,
          exampleIp6Fragment 8 ⟨8, false, exampleUdp.drop 8⟩] := by
  refine ⟨exampleIp6Udp_delivered, fun asWhole => ?_⟩
  obtain ⟨next, ran, -, hdrs⟩ := asWhole
    [.item (some 1) (exampleIp6Fragment 1 ⟨0, true, exampleUdp.take 8⟩),
      .item (some 2) (exampleIp6Fragment 8 ⟨8, false, exampleUdp.drop 8⟩)]
    (by
      intro label member
      simp only [List.mem_cons, List.not_mem_nil, or_false] at member
      rcases member with rfl | rfl
      · exact .item List.mem_cons_self
      · exact .item (List.mem_cons_of_mem _ List.mem_cons_self))
    (by decide)
    (by
      intro vec member
      simp only [List.mem_cons, List.not_mem_nil, or_false] at member
      rcases member with rfl | rfl
      · exact ⟨some 1, List.mem_cons_self⟩
      · exact ⟨some 2, List.mem_cons_of_mem _ List.mem_cons_self⟩)
    (by
      intro all
      obtain ⟨addr, member⟩ := all _ (List.mem_cons_of_mem _ List.mem_cons_self)
      simp only [List.dropLast, List.mem_singleton, IpLabel.item.injEq] at member
      exact absurd member.2 (by decide))
  have short :
      (ipRun
          [.item (some 1) (exampleIp6Fragment 1 ⟨0, true, exampleUdp.take 8⟩),
            .item (some 2) (exampleIp6Fragment 8 ⟨8, false, exampleUdp.drop 8⟩)]
          oneSocket).toOption.map
        (fun result => result.2.reassembled) = some [(1, 17)] := by
    decide +kernel
  rw [ran] at short
  have logged : next.reassembled = [(1, 17)] := Option.some.inj short
  rw [logged] at hdrs
  exact absurd (hdrs (1, 17) List.mem_cons_self) (by decide)

end NetstackLwip

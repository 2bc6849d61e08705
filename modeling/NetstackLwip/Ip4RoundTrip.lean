import Mathlib.Tactic.IntervalCases
import NetstackLwip.CollectedPieces
import NetstackLwip.IpRuns
import NetstackLwip.UdpEgress

namespace NetstackLwip

/-!
# IPv4 fragments of one datagram

The fragments of a UDP datagram, given to the sink in any order and with
repetitions, become the datagram's item when the last missing one arrives, and
nothing before.
-/

open DatagramCut FaultState FragmentChain

/-! ## Fragments -/

/-- `vec` is an IPv4 packet, without options, that carries `piece` of a UDP
datagram. -/
structure Ip4FragmentOf
    (src dest : BitVec 32)
    (id : BitVec 16)
    (piece : Piece UInt8)
    (vec : Bytes) :
    Prop where
  version : byteAt vec 0 = 0x45
  total : (wordAt vec 2).toNat = vec.length
  ident : wordAt vec 4 = id
  offset : iphOffsetBytes vec = piece.offset
  more : iphMf vec = piece.more
  proto : byteAt vec 9 = .ofBitVec ipProtoUdp
  src_eq : longAt vec 12 = src
  dest_eq : longAt vec 16 = dest
  size : vec.length = ipHlen + piece.data.length
  data : vec.drop ipHlen = piece.data

/--
The vectors are the fragments of one UDP datagram: of any cut of it at
multiples of 8 bytes, or those that `send_udp` hands over.
-/
inductive Ip4Fragments (src dest : SocketAddr) (data : Bytes) :
    List Bytes → Prop where
  | cut
      {source target : BitVec 32}
      {pieces : List (Piece UInt8)}
      {encode : Piece UInt8 → Bytes}
      (hdr : UdpHdr)
      (id : BitVec 16) :
      src = ⟨.v4 source, hdr.src⟩ →
      dest = ⟨.v4 target, hdr.dest⟩ →
      Cut 8 0 (hdr.bytes ++ data) pieces →
      (hdr.bytes ++ data).length + ipHlen < 65536 →
      (∀ piece ∈ pieces, Ip4FragmentOf source target id piece (encode piece)) →
      Ip4Fragments src dest data (pieces.map encode)
  | emitted
      {source target : BitVec 32}
      {stale : BitVec 96}
      {stack : IpStack}
      {packets : List IpPacket} :
      src.ip = .v4 source →
      dest.ip = .v4 target →
      data.length < 65536 →
      stack.live = true →
      (sendUdp src dest stale data stack).1 = .ok →
      (sendUdp src dest stale data stack).2.handed =
        stack.handed ++ packets →
      packets ≠ [] →
      Ip4Fragments src dest data (packets.map IpPacket.bytes)

/-! ## Headers on the wire -/

section OffsetField

variable {mf : Bool} {offset : BitVec 13}

theorem offsetField_offset :
    ((if mf then 0x2000 else 0) ||| offset.setWidth 16) &&&
      (0x1fff : BitVec 16) = offset.setWidth 16 := by
  ext bit small
  cases mf
  · interval_cases bit <;> simp
  · interval_cases bit <;> simp

theorem offsetField_mf :
    ((if mf then 0x2000 else 0) ||| offset.setWidth 16) &&&
      (0x2000 : BitVec 16) = if mf then 0x2000 else 0 := by
  ext bit small
  cases mf
  · interval_cases bit <;> simp
  · interval_cases bit <;> simp

/-- A packet is a fragment unless it starts the datagram and ends it. -/
theorem offsetField_eq_zero_iff
    {word : BitVec 16} :
    word &&& 0x3fff = 0 ↔ word &&& 0x1fff = 0 ∧ word &&& 0x2000 = 0 := by
  have both : (0x3fff : BitVec 16) = 0x1fff ||| 0x2000 := rfl
  rw [both, BitVec.and_or_distrib_left]
  exact BitVec.or_eq_zero_iff

end OffsetField

/-- What `ip4_frag` makes of a piece is a fragment of it. -/
theorem ip4Fragment_fragmentOf
    {hdr : Ip4Hdr}
    {piece : Piece UInt8}
    (proto : hdr.proto = ipProtoUdp)
    (aligned : 8 ∣ piece.offset)
    (fits : piece.offset + piece.data.length + ipHlen < 65536) :
    Ip4FragmentOf hdr.src hdr.dest hdr.id piece
      (ip4Fragment hdr piece).bytes := by
  have hlen : ipHlen = 20 := rfl
  have size : (ip4Fragment hdr piece).bytes.length = 20 + piece.data.length :=
    IpPacket.bytes_v4_length _ _
  obtain ⟨chksum, bytes⟩ :
      ∃ chksum, (ip4Fragment hdr piece).bytes =
        Ip4Hdr.bytesWith
          { hdr with
            offset := BitVec.ofNat 13 (piece.offset / 8)
            mf := piece.more
            len := BitVec.ofNat 16 (piece.data.length + ipHlen) }
          chksum ++ piece.data :=
    ⟨_, rfl⟩
  rw [bytes] at size ⊢
  generalize offset : BitVec.ofNat 13 (piece.offset / 8) = units at *
  generalize total : BitVec.ofNat 16 (piece.data.length + ipHlen) = len at *
  have offsetNat : units.toNat * 8 = piece.offset := by
    rw [← offset, BitVec.toNat_ofNat]
    omega
  have lenNat : len.toNat = 20 + piece.data.length := by
    rw [← total, BitVec.toNat_ofNat]
    omega
  have fieldAt :
      wordAt
          (Ip4Hdr.bytesWith
            { hdr with offset := units, mf := piece.more, len := len } chksum ++
              piece.data) 6 =
        (if piece.more then 0x2000 else 0) ||| units.setWidth 16 :=
    wordAt_wordBytes _
  constructor
  · rfl
  · rw [size, ← lenNat]
    exact congrArg BitVec.toNat (wordAt_wordBytes len)
  · exact wordAt_wordBytes hdr.id
  · rw [iphOffsetBytes, fieldAt, offsetField_offset, BitVec.toNat_setWidth,
      Nat.mod_eq_of_lt (units.isLt.trans (by decide))]
    exact offsetNat
  · rw [iphMf, fieldAt, offsetField_mf]
    cases piece.more <;> rfl
  · exact congrArg UInt8.ofBitVec proto
  · exact longAt_longBytes hdr.src
  · exact longAt_longBytes hdr.dest
  · exact size
  · rfl

/-- The fragments that `send_udp` hands over are a cut of the datagram. -/
theorem Ip4Fragments.exists_cut
    {src dest : SocketAddr}
    {data : Bytes}
    {vecs : List Bytes}
    (fragments : Ip4Fragments src dest data vecs) :
    ∃ (hdr : UdpHdr) (source target : BitVec 32) (id : BitVec 16)
      (pieces : List (Piece UInt8)) (encode : Piece UInt8 → Bytes),
      src = ⟨.v4 source, hdr.src⟩ ∧ dest = ⟨.v4 target, hdr.dest⟩ ∧
        Cut 8 0 (hdr.bytes ++ data) pieces ∧
        (hdr.bytes ++ data).length + ipHlen < 65536 ∧
        vecs = pieces.map encode ∧
        ∀ piece ∈ pieces,
          Ip4FragmentOf source target id piece (encode piece) := by
  cases fragments with
  | cut _ _ srcEq destEq cut fits fragments =>
      exact ⟨_, _, _, _, _, _, srcEq, destEq, cut, fits, rfl, fragments⟩
  | @emitted source target stale stack packets srcEq destEq short live ok handed
      nonEmpty =>
      have family : SameFamily src.ip dest.ip := by
        rw [srcEq, destEq]
        trivial
      have outcome := send_udp_exact src dest stale data stack live family short
      have datagram : IsUdpDatagram src dest data packets := by
        generalize sendUdp src dest stale data stack = result at outcome ok handed
        cases outcome with
        | sent _ complete after =>
            rwa [List.append_cancel_left (handed.symm.trans after)]
        | looped _ _ after _ =>
            rw [after, List.self_eq_append_right] at handed
            exact absurd handed nonEmpty
        | refused failed _ => exact absurd ok failed
        | interrupted _ _ _ _ _ => cases ok
      obtain ⟨hdr, srcPort, destPort, _, _, packet⟩ := datagram
      obtain ⟨srcIp, srcPort'⟩ := src
      obtain ⟨destIp, destPort'⟩ := dest
      dsimp only at srcEq destEq srcPort destPort packet
      subst srcEq destEq srcPort destPort
      generalize whole : hdr.bytes ++ data = udp at packet
      cases packet with
      | @v4 source target _ pieces ipHdr cut fits srcEq destEq proto =>
          subst srcEq destEq whole
          refine ⟨hdr, _, _, ipHdr.id, pieces,
            IpPacket.bytes ∘ ip4Fragment ipHdr, rfl, rfl, cut, fits,
            List.map_map, ?_⟩
          intro piece member
          have inside := cut.inside piece member
          exact ip4Fragment_fragmentOf proto
            (cut.aligned (Nat.dvd_zero 8) piece member) (by omega)

/-! ## A fragment in `ip4_input` -/

section Fragment

variable {src dest : BitVec 32} {id : BitVec 16} {piece : Piece UInt8}
  {vec : Bytes} {addr : Nat} {allowed : IpFault → Prop} {input : IpInput}

theorem Ip4FragmentOf.front_header
    (fragment : Ip4FragmentOf src dest id piece vec) :
    iphHlBytes (vec.take 20) = 20 ∧
      wordAt (vec.take 20) 2 = wordAt vec 2 ∧
      iphOffsetBytes (vec.take 20) = piece.offset ∧
      iphMf (vec.take 20) = piece.more := by
  refine ⟨?_, wordAt_take (by decide), ?_, ?_⟩
  · rw [iphHlBytes, byteAt_take (by decide), fragment.version]
    rfl
  · rw [iphOffsetBytes, wordAt_take (by decide)]
    exact fragment.offset
  · rw [iphMf, wordAt_take (by decide)]
    exact fragment.more

/-- A fragment comes to `ip4_reass` as it is. -/
theorem ip4Input_fragment
    {post : Option Upward → IpInput → Prop}
    (fragment : Ip4FragmentOf src dest id piece vec)
    (host : (IpAddr.v4 src).isUnicast = true)
    (part : piece.offset ≠ 0 ∨ piece.more = true)
    (reassembled :
      wp (ip4Reass (wholePbuf addr vec))
        (fun result next =>
          match result with
          | none => post none next
          | some p => wp (ip4Deliver src dest 20 p) post allowed next)
        allowed input) :
    wp (ip4Input (wholePbuf addr vec)) post allowed input := by
  have hlen : ipHlen = 20 := rfl
  have long : 20 ≤ vec.length := by
    rw [fragment.size, hlen]
    omega
  have inside (index : Nat) (small : index < 20) :
      (wholePbuf addr vec).payload + index < (wholePbuf addr vec).mem.length := by
    simp only [wholePbuf]
    omega
  have fromStart (index : Nat) : (wholePbuf addr vec).payload + index = index :=
    Nat.zero_add index
  have uncut :
      (wholePbuf addr vec).realloc (wordAt vec 2).toNat = wholePbuf addr vec := by
    rw [PBuf.realloc, if_pos]
    rw [fragment.total]
    exact le_refl _
  rw [IpAddr.isUnicast_iff] at host
  have isFragment : wordAt vec 6 &&& 0x3fff ≠ 0 := by
    rw [Ne, offsetField_eq_zero_iff]
    rintro ⟨offset, more⟩
    have start := fragment.offset
    have last := fragment.more
    rw [iphOffsetBytes, offset] at start
    rw [iphMf, more] at last
    rcases part with positive | follows
    · exact positive start.symm
    · rw [follows] at last
      cases last
  rw [ip4Input, wp_bind, wp_readByte (inside 0 (by decide)), fromStart]
  have version : byteAt (wholePbuf addr vec).mem 0 = 0x45 := fragment.version
  rw [version, if_neg (by decide), wp_bind, wp_readWord (inside 3 (by decide)),
    fromStart]
  have total : wordAt (wholePbuf addr vec).mem 2 = wordAt vec 2 := rfl
  rw [total, uncut, if_neg, wp_bind, wp_readLong (inside 19 (by decide)),
    fromStart, wp_bind, wp_readLong (inside 15 (by decide)), fromStart]
  · have target : longAt (wholePbuf addr vec).mem 16 = dest := fragment.dest_eq
    have source : longAt (wholePbuf addr vec).mem 12 = src := fragment.src_eq
    rw [target, source, if_neg (by simp [host]), wp_bind,
      wp_readWord (inside 7 (by decide)), fromStart]
    have field : wordAt (wholePbuf addr vec).mem 6 = wordAt vec 6 := rfl
    rw [field, if_pos isFragment, wp_bind]
    refine wp_weaken reassembled ?_
    intro result next holds
    cases result with
    | none => exact holds
    | some p => exact holds
  · have hdr : UInt8.toNat (0x45 &&& 0xf) * 4 = 20 := rfl
    rw [hdr, fragment.total]
    simp only [wholePbuf]
    omega

end Fragment

/-! ## The datagram being reassembled -/

/-- The buffer of a fragment as the netif gave it. -/
def HoldsPiece
    (src dest : BitVec 32)
    (id : BitVec 16)
    (piece : Piece UInt8)
    (p : PBuf) :
    Prop :=
  ∃ addr vec, Ip4FragmentOf src dest id piece vec ∧ p = wholePbuf addr vec

/-- An entry of the reassembly list that has the pieces that have arrived. -/
structure OpenDatagram
    (src dest : BitVec 32)
    (id : BitVec 16)
    (udp : Bytes)
    (pieces : List (Piece UInt8))
    (arrived : Piece UInt8 → Prop)
    (ipr : Ip4Reassdata) :
    Prop where
  hdr :
    ∃ piece vec,
      Ip4FragmentOf src dest id piece vec ∧ ipr.iphdr = vec.take 20
  collects : Collects (HoldsPiece src dest id) pieces arrived ipr.frags
  last :
    ipr.lastFrag = true ↔ ∃ piece ∈ pieces, piece.more = false ∧ arrived piece
  datagramLen : ipr.lastFrag = true → ipr.datagramLen = udp.length

/-- The chain that `ip4_reass` returns: an IP header before the datagram, the
first buffer holding at least both headers. -/
structure Reassembled4 (udp : Bytes) (p : Chain) : Prop where
  held : p.Held
  proto : byteAt p.head.mem (p.head.payload + 9) = .ofBitVec ipProtoUdp
  front : ipHlen + udpHlen ≤ p.head.len
  data : p.data.drop ipHlen = udp
  size : p.data.length = ipHlen + udp.length

theorem HoldsPiece.len
    {src dest : BitVec 32}
    {id : BitVec 16}
    {piece : Piece UInt8}
    {p : PBuf}
    (holds : HoldsPiece src dest id piece p) :
    p.len = 20 + piece.data.length := by
  obtain ⟨addr, vec, fragment, rfl⟩ := holds
  exact fragment.size

theorem HoldsPiece.held
    {src dest : BitVec 32}
    {id : BitVec 16}
    {piece : Piece UInt8}
    {p : PBuf}
    (holds : HoldsPiece src dest id piece p) :
    p.Held := by
  obtain ⟨addr, vec, _, rfl⟩ := holds
  exact wholePbuf_held addr vec

theorem HoldsPiece.data
    {src dest : BitVec 32}
    {id : BitVec 16}
    {piece : Piece UInt8}
    {p : PBuf}
    (holds : HoldsPiece src dest id piece p) :
    (p.skip 20).data = piece.data := by
  obtain ⟨addr, vec, fragment, rfl⟩ := holds
  rw [PBuf.skip_data, ← fragment.data]
  simp [PBuf.data, wholePbuf, ipHlen]

section Reassembly

variable {src dest : BitVec 32} {id : BitVec 16} {udp : Bytes}
  {pieces : List (Piece UInt8)} {arrived : Piece UInt8 → Prop}
  {ipr : Ip4Reassdata} {piece : Piece UInt8} {vec : Bytes} {addr : Nat}
  {allowed : IpFault → Prop} {input : IpInput}

/-- The buffers behind the first one are chained without their IP headers. -/
theorem wp_chainFrags
    {post : Chain → IpInput → Prop}
    {p : Chain}
    {rest : List (Frag PBuf)}
    (fits : ∀ frag ∈ rest, 20 ≤ frag.buffer.len)
    (chained :
      post { p with tail := p.tail ++ rest.map fun frag => frag.buffer.skip 20 }
        input) :
    wp (chainFrags p rest) post allowed input := by
  induction rest generalizing p with
  | nil =>
      rw [List.map_nil, List.append_nil] at chained
      exact chained
  | cons frag rest inductionHypothesis =>
      rw [chainFrags, wp_bind,
        wp_pbufRemoveHeader (fits frag List.mem_cons_self)]
      refine inductionHypothesis
        (fun frag member => fits frag (List.mem_cons_of_mem _ member)) ?_
      simpa [Chain.cat] using chained

/-- The data behind the headers of the fragments is that of the pieces. -/
theorem flatMap_skip_data
    {frags : List (Frag PBuf)}
    (carried : List.Forall₂ (CarriesPiece (HoldsPiece src dest id)) pieces frags) :
    (frags.map fun frag => frag.buffer.skip 20).flatMap PBuf.data =
      pieces.flatMap Piece.data := by
  induction carried with
  | nil =>
      rfl
  | cons carries _ inductionHypothesis =>
      rw [List.map_cons, List.flatMap_cons, List.flatMap_cons,
        inductionHypothesis, carries.buffer.data]

/-- The header written before a reassembled datagram has the length and the
protocol of the one that was kept. -/
theorem reassembledHdr_keeps
    {iphdr : Bytes}
    (size : iphdr.length = 20)
    (datagramLen : Nat) :
    (reassembledHdr iphdr datagramLen).length = 20 ∧
      byteAt (reassembledHdr iphdr datagramLen) 9 = byteAt iphdr 9 := by
  have write
      {bytes : Bytes}
      (long : bytes.length = 20)
      (index : Nat)
      (word : BitVec 16)
      (beside : index + 2 ≤ 9 ∨ 9 < index)
      (fits : index + 2 ≤ 20) :
      (overwrite bytes index (wordBytes word)).length = 20 ∧
        byteAt (overwrite bytes index (wordBytes word)) 9 = byteAt bytes 9 := by
    have inside : index + (wordBytes word).length ≤ bytes.length := by
      rw [wordBytes_length, long]
      exact fits
    refine ⟨(overwrite_length inside).trans long, byteAt_overwrite inside ?_⟩
    rw [wordBytes_length]
    omega
  rw [reassembledHdr]
  obtain ⟨long, keeps⟩ :=
    write size 2 (.ofNat 16 (datagramLen + 20)) (by omega) (by omega)
  obtain ⟨long', keeps'⟩ := write long 6 0 (by omega) (by omega)
  obtain ⟨long'', keeps''⟩ := write long' 10 0 (by omega) (by omega)
  obtain ⟨last, same⟩ := write long''
    10 (inetChksum _) (by omega) (by omega)
  exact ⟨last, same.trans (keeps''.trans (keeps'.trans keeps))⟩

/-- The only entry goes with all the buffers that are counted. -/
theorem releaseDatagram_only
    {post : Option Chain → IpInput → Prop}
    {p : Chain}
    (one : input.datagrams4.length = 1)
    (count : p.clen = input.pbufcount4)
    (released : post (some p) { input with datagrams4 := [], pbufcount4 := 0 }) :
    wp (releaseDatagram 0 p) post allowed input := by
  have erased : input.datagrams4.tail = [] := by
    rw [← List.length_eq_zero_iff, List.length_tail, one]
  simpa [releaseDatagram, ipReassDequeueDatagram, erased, count] using released

/-- The complete datagram is taken out of the list, an IP header before it. -/
theorem finishDatagram_reassembles
    {post : Option Chain → IpInput → Prop}
    (opened : OpenDatagram src dest id udp pieces arrived ipr)
    (cut : Cut 8 0 udp pieces)
    (all : ∀ piece ∈ pieces, arrived piece)
    (several : 1 < pieces.length)
    (one : input.datagrams4.length = 1)
    (count : input.pbufcount4 = ipr.frags.length)
    (finished :
      ∀ p, Reassembled4 udp p →
        post (some p) { input with datagrams4 := [], pbufcount4 := 0 }) :
    wp (finishDatagram 0 ipr) post allowed input := by
  have carried := opened.collects.forall₂ cut all
  obtain ⟨_, _, hdrFragment, hdrEq⟩ := opened.hdr
  have hdrSize : ipr.iphdr.length = 20 := by
    rw [hdrEq, List.length_take, hdrFragment.size]
    simp only [ipHlen]
    omega
  have hdrProto : byteAt ipr.iphdr 9 = .ofBitVec ipProtoUdp := by
    rw [hdrEq, byteAt_take (by decide)]
    exact hdrFragment.proto
  obtain ⟨size, keeps⟩ := reassembledHdr_keeps hdrSize ipr.datagramLen
  have bound : ∀ frag ∈ ipr.frags, 20 ≤ frag.buffer.len := by
    intro frag member
    obtain ⟨piece, _, _, carries⟩ := opened.collects.carried frag member
    rw [carries.buffer.len]
    omega
  generalize frags : ipr.frags = chain at carried bound count
  cases carried with
  | nil => exact absurd several (by simp)
  | @cons piece first others rest carries carried =>
      have length := carried.length_eq
      have long : 8 ≤ piece.data.length := by
        cases cut with
        | last _ => exact absurd several (by simp)
        | more nonEmpty divides _ =>
            exact Nat.le_of_dvd (List.length_pos_iff.mpr nonEmpty) divides
      obtain ⟨addr, vec, fragment, buffer⟩ := carries.buffer
      have vecSize : vec.length = 20 + piece.data.length := fragment.size
      have written :
          overwrite vec 0 (reassembledHdr ipr.iphdr ipr.datagramLen) =
            reassembledHdr ipr.iphdr ipr.datagramLen ++ piece.data := by
        rw [overwrite, size, List.take_zero, List.nil_append, ← fragment.data]
        rfl
      have headData :
          PBuf.data
            { addr, mem := reassembledHdr ipr.iphdr ipr.datagramLen ++
                piece.data, len := vec.length } =
            reassembledHdr ipr.iphdr ipr.datagramLen ++ piece.data := by
        rw [PBuf.data, List.drop_zero, List.take_of_length_le]
        rw [List.length_append, size, vecSize]
      rw [finishDatagram, frags]
      dsimp only
      rw [wp_bind]
      refine wp_chainFrags
        (fun frag member => bound frag (List.mem_cons_of_mem _ member)) ?_
      rw [buffer]
      dsimp only [wholePbuf]
      rw [written, List.nil_append]
      generalize reassembledHdr ipr.iphdr ipr.datagramLen = hdr at *
      refine releaseDatagram_only one ?_ (finished _ ⟨⟨?_, ?_⟩, ?_, ?_, ?_, ?_⟩)
      · rw [Chain.clen, List.length_map, count, List.length_cons]
        omega
      · simp only [PBuf.Held, List.length_append, size]
        omega
      · intro q member
        obtain ⟨frag, fragMember, rfl⟩ := List.mem_map.mp member
        have fits := bound frag (List.mem_cons_of_mem _ fragMember)
        have held : frag.buffer.Held := by
          obtain ⟨piece, _, _, carries⟩ :=
            opened.collects.carried frag
              (frags ▸ List.mem_cons_of_mem _ fragMember)
          exact carries.buffer.held
        exact held.skip fits
      · dsimp only
        rw [Nat.zero_add, byteAt_append_left (by omega), keeps]
        exact hdrProto
      · dsimp only
        rw [vecSize]
        simp only [ipHlen, udpHlen]
        omega
      · rw [Chain.data, headData, flatMap_skip_data carried, ← cut.data_eq,
          List.flatMap_cons, List.append_assoc]
        exact List.drop_left' size
      · rw [Chain.data, headData, flatMap_skip_data carried, ← cut.data_eq,
          List.flatMap_cons, List.append_assoc, List.length_append, size]
        rfl

/-- `ip_reass_chain_frag_into_datagram_and_validate` drops a piece that it has,
and finds the datagram finished exactly when it has all. -/
theorem validate_fragment
    {post : Validate × Ip4Reassdata → IpInput → Prop}
    (opened : OpenDatagram src dest id udp pieces arrived ipr)
    (cut : Cut 8 0 udp pieces)
    (small : udp.length + ipHlen < 65536)
    (several : 1 < pieces.length)
    (member : piece ∈ pieces)
    (fragment : Ip4FragmentOf src dest id piece vec)
    (again : arrived piece → post (.pbufDropped, ipr) input)
    (new :
      ¬arrived piece →
        ∀ frags,
          Collects (HoldsPiece src dest id) pieces
              (fun other => arrived other ∨ other = piece) frags →
            frags.length = ipr.frags.length + 1 →
              ∀ valid,
                (valid = .telegramFinished ∧
                    (∀ other ∈ pieces, arrived other ∨ other = piece) ∨
                  valid = .pbufQueued ∧
                    ¬∀ other ∈ pieces, arrived other ∨ other = piece) →
                  post (valid, { ipr with frags }) input) :
    wp (ipReassChainFragIntoDatagramAndValidate ipr (wholePbuf addr vec)
      (!piece.more)) post allowed input := by
  have hlen : ipHlen = 20 := rfl
  obtain ⟨hdrLen, total, offset, _⟩ := fragment.front_header
  have size := fragment.size
  have inside := cut.inside piece member
  have front : (wholePbuf addr vec).front 20 = vec.take 20 := rfl
  rw [ipReassChainFragIntoDatagramAndValidate]
  simp only [front, hdrLen, total, offset, fragment.total]
  rw [if_neg (by omega)]
  have stop : (piece.offset + (vec.length - 20)) % 65536 =
      piece.offset + piece.data.length := by
    omega
  rw [stop, if_neg (by omega)]
  have carries : CarriesPiece (HoldsPiece src dest id) piece
      ⟨piece.offset, piece.offset + piece.data.length, wholePbuf addr vec⟩ :=
    ⟨rfl, rfl, addr, vec, fragment, rfl⟩
  by_cases has : arrived piece
  · rw [opened.collects.place_again member has carries]
    exact again has
  · obtain ⟨placement, placed, ordered, collects⟩ :=
      opened.collects.place_new cut member has carries
    have longer := place_length placed
    rw [placed]
    dsimp only
    rw [ordered, wp_bind, wp_ensure]
    refine ⟨fun _ => ?_, fun unordered => by cases unordered⟩
    have seen :
        (!piece.more || ipr.lastFrag) = true ↔
          ∃ other ∈ pieces,
            other.more = false ∧ (arrived other ∨ other = piece) := by
      rw [Bool.or_eq_true, opened.last, Bool.not_eq_true']
      constructor
      · rintro (last | ⟨other, otherMember, last, otherHas⟩)
        · exact ⟨piece, member, last, .inr rfl⟩
        · exact ⟨other, otherMember, last, .inl otherHas⟩
      · rintro ⟨other, otherMember, last, otherHas | rfl⟩
        · exact .inr ⟨other, otherMember, last, otherHas⟩
        · exact .inl last
    have complete :
        ((!piece.more || ipr.lastFrag) && placement.gapless &&
            (placement.chain.head?.any fun frag => frag.start == 0) &&
            gaplessFrom
              ⟨piece.offset, piece.offset + piece.data.length,
                wholePbuf addr vec⟩ placement.behind) = true ↔
          ∀ other ∈ pieces, arrived other ∨ other = piece := by
      rw [Bool.and_assoc, Bool.and_assoc, Bool.and_eq_true, seen]
      constructor
      · rintro ⟨last, whole⟩
        rw [← Bool.and_assoc] at whole
        exact (collects.whole_iff cut placed last).mp whole
      · intro all
        obtain ⟨other, otherMember, last⟩ := cut.exists_last
        have reached : ∃ other ∈ pieces,
            other.more = false ∧ (arrived other ∨ other = piece) :=
          ⟨other, otherMember, last, all other otherMember⟩
        refine ⟨reached, ?_⟩
        rw [← Bool.and_assoc]
        exact (collects.whole_iff cut placed reached).mpr all
    by_cases all : ∀ other ∈ pieces, arrived other ∨ other = piece
    · rw [if_pos (complete.mpr all), wp_bind, wp_ensure]
      have length := (collects.forall₂ cut all).length_eq
      refine ⟨fun _ => ?_, fun single => ?_⟩
      · exact new has _ collects longer _ (.inl ⟨rfl, all⟩)
      · rw [decide_eq_false_iff_not] at single
        omega
    · rw [if_neg (fun finished => all (complete.mp finished))]
      exact new has _ collects longer _ (.inr ⟨rfl, all⟩)

/-- The entry with one more piece in its chain. -/
def Ip4Reassdata.withPiece
    (ipr : Ip4Reassdata)
    (frags : List (Frag PBuf))
    (piece : Piece UInt8) :
    Ip4Reassdata :=
  if (!piece.more) = true then
    { ipr with
      frags
      datagramLen := piece.offset + piece.data.length
      lastFrag := true }
  else
    { ipr with frags }

@[simp]
theorem Ip4Reassdata.withPiece_frags
    {frags : List (Frag PBuf)} :
    (ipr.withPiece frags piece).frags = frags := by
  unfold withPiece
  split <;> rfl

@[simp]
theorem Ip4Reassdata.withPiece_timer
    {frags : List (Frag PBuf)} :
    (ipr.withPiece frags piece).timer = ipr.timer := by
  unfold withPiece
  split <;> rfl

theorem OpenDatagram.withPiece
    {frags : List (Frag PBuf)}
    (opened : OpenDatagram src dest id udp pieces arrived ipr)
    (cut : Cut 8 0 udp pieces)
    (member : piece ∈ pieces)
    (collects :
      Collects (HoldsPiece src dest id) pieces
        (fun other => arrived other ∨ other = piece) frags) :
    OpenDatagram src dest id udp pieces
      (fun other => arrived other ∨ other = piece)
      (ipr.withPiece frags piece) := by
  cases follows : piece.more with
  | true =>
      have same : ipr.withPiece frags piece = { ipr with frags } := by
        rw [Ip4Reassdata.withPiece, follows]
        rfl
      rw [same]
      refine ⟨opened.hdr, collects, opened.last.trans ?_, opened.datagramLen⟩
      constructor
      · rintro ⟨other, otherMember, last, has⟩
        exact ⟨other, otherMember, last, .inl has⟩
      · rintro ⟨other, otherMember, last, has | rfl⟩
        · exact ⟨other, otherMember, last, has⟩
        · rw [follows] at last
          cases last
  | false =>
      have ends := (cut.more_eq_false_iff piece member).mp follows
      have same : ipr.withPiece frags piece =
          { ipr with
            frags
            datagramLen := piece.offset + piece.data.length
            lastFrag := true } := by
        rw [Ip4Reassdata.withPiece, follows]
        rfl
      rw [same]
      refine ⟨opened.hdr, collects, ⟨fun _ => ?_, fun _ => rfl⟩, fun _ => ?_⟩
      · exact ⟨piece, member, follows, .inr rfl⟩
      · rw [Nat.zero_add] at ends
        exact ends

/-- A fragment whose datagram is open is dropped if its piece is there, and
otherwise put into the chain, which is reassembled when it has all pieces. -/
theorem enqueueFragment_fragment
    {post : Option Chain → IpInput → Prop}
    (opened : OpenDatagram src dest id udp pieces arrived ipr)
    (cut : Cut 8 0 udp pieces)
    (small : udp.length + ipHlen < 65536)
    (several : 1 < pieces.length)
    (member : piece ∈ pieces)
    (fragment : Ip4FragmentOf src dest id piece vec)
    (one : input.datagrams4 = [ipr])
    (count : input.pbufcount4 = ipr.frags.length)
    (again : arrived piece → post none input)
    (queued :
      ¬arrived piece →
        (¬∀ other ∈ pieces, arrived other ∨ other = piece) →
          ∀ next,
            OpenDatagram src dest id udp pieces
                (fun other => arrived other ∨ other = piece) next →
              next.timer = ipr.timer →
                post none
                  { input with
                    datagrams4 := [next]
                    pbufcount4 := next.frags.length })
    (finished :
      ¬arrived piece →
        (∀ other ∈ pieces, arrived other ∨ other = piece) →
          ∀ p, Reassembled4 udp p →
            post (some p) { input with datagrams4 := [], pbufcount4 := 0 }) :
    wp (enqueueFragment 0 (wholePbuf addr vec)) post allowed input := by
  have hlen : ipHlen = 20 := rfl
  obtain ⟨_, total, offset, more⟩ := fragment.front_header
  have size := fragment.size
  have inside := cut.inside piece member
  have front : (wholePbuf addr vec).front 20 = vec.take 20 := rfl
  have datagramLen : (piece.offset + (vec.length - 20)) % 65536 =
      piece.offset + piece.data.length := by
    omega
  rw [enqueueFragment]
  simp only [front, total, offset, more, fragment.total, datagramLen]
  rw [if_neg (by omega), wp_bind, wp_get, one]
  dsimp only [List.getElem?_cons_zero]
  rw [wp_bind]
  refine validate_fragment opened cut small several member fragment ?_ ?_
  · intro has
    rw [if_pos rfl, dropFragment, wp_bind, wp_get, one]
    obtain ⟨frag, among, _⟩ := opened.collects.kept piece member has
    have filled :
        ¬([ipr][0]?.map Ip4Reassdata.frags) = some [] := by
      intro empty
      rw [Option.some.inj empty] at among
      cases among
    rw [if_neg filled]
    exact again has
  · intro missing frags collects longer valid outcome
    have open' := opened.withPiece cut member collects
    have entry :
        (if (!piece.more) = true then
          ({ ipr with
            frags
            datagramLen := piece.offset + piece.data.length
            lastFrag := true } : Ip4Reassdata)
        else
          { ipr with frags }) = ipr.withPiece frags piece := rfl
    rw [if_neg, wp_bind, wp_modify]
    · dsimp only
      rw [entry, one, List.set_cons_zero, count, ← longer]
      rcases outcome with ⟨rfl, all⟩ | ⟨rfl, incomplete⟩
      · rw [if_pos rfl]
        refine finishDatagram_reassembles open' cut all several rfl ?_ ?_
        · rw [Ip4Reassdata.withPiece_frags]
        · exact finished missing all
      · rw [if_neg (by decide)]
        have length : frags.length = (ipr.withPiece frags piece).frags.length := by
          rw [Ip4Reassdata.withPiece_frags]
        rw [length]
        exact queued missing incomplete _ open' Ip4Reassdata.withPiece_timer
    · rcases outcome with ⟨rfl, _⟩ | ⟨rfl, _⟩ <;> intro dropped <;> cases dropped

end Reassembly

/-! ## One fragment after the other -/

/-- The state while pieces are missing: nothing has changed but the entry of
the datagram, which is as old as the number of ticks since the first
fragment. -/
structure Waiting
    (src dest : BitVec 32)
    (id : BitVec 16)
    (udp : Bytes)
    (pieces : List (Piece UInt8))
    (start : IpInput)
    (arrived : Piece UInt8 → Prop)
    (age : Nat)
    (input : IpInput) :
    Prop where
  sockets : input.sockets = start.sockets
  noOther : input.datagrams6 = []
  entry :
    (input.datagrams4 = [] ∧ input.pbufcount4 = 0 ∧ age = 0 ∧
        ∀ piece ∈ pieces, ¬arrived piece) ∨
      ∃ ipr,
        input.datagrams4 = [ipr] ∧ input.pbufcount4 = ipr.frags.length ∧
          ipr.timer + age = ipReassMaxage ∧
          OpenDatagram src dest id udp pieces arrived ipr ∧
          ∃ piece ∈ pieces, arrived piece

section Steps

variable {src dest : BitVec 32} {id : BitVec 16} {udp : Bytes}
  {pieces : List (Piece UInt8)} {start : IpInput}
  {arrived : Piece UInt8 → Prop} {age : Nat} {piece : Piece UInt8}
  {vec : Bytes} {addr : Nat} {allowed : IpFault → Prop} {input : IpInput}

/-- The fragments of one datagram match. -/
theorem ipAddressesAndIdMatch_fragments
    {other : Piece UInt8}
    {otherVec : Bytes}
    (first : Ip4FragmentOf src dest id other otherVec)
    (second : Ip4FragmentOf src dest id piece vec) :
    ipAddressesAndIdMatch (otherVec.take 20) (vec.take 20) = true := by
  simp only [ipAddressesAndIdMatch, Bool.and_eq_true, beq_iff_eq]
  rw [longAt_take (by decide), longAt_take (by decide), longAt_take (by decide),
    longAt_take (by decide), wordAt_take (by decide), wordAt_take (by decide),
    first.src_eq, second.src_eq, first.dest_eq, second.dest_eq, first.ident,
    second.ident]
  exact ⟨⟨rfl, rfl⟩, rfl⟩

/-- The search opens an entry for the first fragment, and finds it again. -/
theorem findDatagram_waiting
    {post : Option Nat → IpInput → Prop}
    (waiting : Waiting src dest id udp pieces start arrived age input)
    (fragment : Ip4FragmentOf src dest id piece vec)
    (found :
      ∀ ipr,
        ipr.timer + age = ipReassMaxage →
          OpenDatagram src dest id udp pieces arrived ipr →
            input.pbufcount4 = ipr.frags.length →
              post (some 0) { input with datagrams4 := [ipr] }) :
    wp (findDatagram (vec.take 20)) post allowed input := by
  rw [findDatagram, wp_bind, wp_get]
  rcases waiting.entry with
    ⟨vacant, count, young, nothing⟩ | ⟨ipr, one, count, timer, opened, _⟩
  · have new : OpenDatagram src dest id udp pieces arrived
        { iphdr := vec.take 20, timer := ipReassMaxage } := by
      refine ⟨⟨piece, vec, fragment, rfl⟩, .nil nothing, ?_, fun last => ?_⟩
      · constructor
        · intro last
          cases last
        · rintro ⟨other, member, _, has⟩
          exact absurd has (nothing other member)
      · cases last
    have enqueued := found { iphdr := vec.take 20, timer := ipReassMaxage }
      (by rw [young]; rfl) new count
    rw [vacant]
    dsimp only [List.findIdx?_nil]
    simp only [ipReassEnqueueNewDatagram, reassdataFree, wp_bind, wp_get,
      wp_pure, vacant, List.length_nil, mempNumReassdata]
    simpa [vacant] using enqueued
  · obtain ⟨other, otherVec, otherFragment, hdr⟩ := opened.hdr
    have sameDatagram :
        ipAddressesAndIdMatch ipr.iphdr (vec.take 20) = true := by
      rw [hdr]
      exact ipAddressesAndIdMatch_fragments otherFragment fragment
    rw [one, List.findIdx?_cons, sameDatagram, if_pos rfl]
    dsimp only
    rw [wp_bind, wp_modify, wp_pure, one, List.modify_zero_cons]
    split
    · exact found _ timer
        ⟨⟨piece, vec, fragment, rfl⟩, opened.collects, opened.last,
          opened.datagramLen⟩ count
    · exact found _ timer opened count

/-- What `ip4_reass` does with a fragment while pieces are missing. -/
theorem ip4Reass_waiting
    {post : Option Chain → IpInput → Prop}
    (waiting : Waiting src dest id udp pieces start arrived age input)
    (cut : Cut 8 0 udp pieces)
    (small : udp.length + ipHlen < 65536)
    (several : 1 < pieces.length)
    (few : pieces.length ≤ ipReassMaxPbufs)
    (carried : ∀ piece ∈ pieces, ∃ vec, Ip4FragmentOf src dest id piece vec)
    (incomplete : ¬∀ piece ∈ pieces, arrived piece)
    (member : piece ∈ pieces)
    (fragment : Ip4FragmentOf src dest id piece vec)
    (waits :
      (¬∀ other ∈ pieces, arrived other ∨ other = piece) →
        ∀ next,
          Waiting src dest id udp pieces start
              (fun other => arrived other ∨ other = piece) age next →
            post none next)
    (finished :
      (∀ other ∈ pieces, arrived other ∨ other = piece) →
        ∀ p, Reassembled4 udp p →
          post (some p) { input with datagrams4 := [], pbufcount4 := 0 }) :
    wp (ip4Reass (wholePbuf addr vec)) post allowed input := by
  have hlen : ipHlen = 20 := rfl
  obtain ⟨hdrLen, total, _, _⟩ := fragment.front_header
  have size := fragment.size
  have front : (wholePbuf addr vec).front 20 = vec.take 20 := rfl
  rw [ip4Reass]
  simp only [front, hdrLen, total, fragment.total]
  rw [if_neg (by omega)]
  have room : input.pbufcount4 < pieces.length := by
    rcases waiting.entry with
      ⟨_, count, _, _⟩ | ⟨ipr, _, count, _, opened, _⟩
    · omega
    · simp only [not_forall] at incomplete
      obtain ⟨other, otherMember, missing⟩ := incomplete
      obtain ⟨otherVec, otherFragment⟩ := carried other otherMember
      rw [count]
      have carries : CarriesPiece (HoldsPiece src dest id) other
          ⟨_, _, wholePbuf 0 otherVec⟩ :=
        ⟨rfl, rfl, 0, otherVec, otherFragment, rfl⟩
      exact opened.collects.length_lt cut otherMember missing carries
  rw [wp_bind, roomForFragment, wp_bind, wp_get, if_neg (by omega), wp_pure,
    if_pos rfl, wp_bind]
  refine findDatagram_waiting waiting fragment ?_
  intro ipr timer opened count
  refine enqueueFragment_fragment opened cut small several member fragment rfl
    count ?_ ?_ ?_
  · intro has
    have same : ∀ other ∈ pieces, arrived other ↔ arrived other ∨ other = piece := by
      intro other _
      constructor
      · exact .inl
      · rintro (already | rfl)
        · exact already
        · exact has
    refine waits ?_ _ ⟨waiting.sockets, waiting.noOther, .inr
      ⟨ipr, rfl, count, timer, ?_, piece, member, .inl has⟩⟩
    · intro all
      exact incomplete fun other otherMember =>
        (same other otherMember).mpr (all other otherMember)
    · refine ⟨opened.hdr, opened.collects.congr same, ?_, opened.datagramLen⟩
      rw [opened.last]
      constructor
      · rintro ⟨other, otherMember, last, otherHas⟩
        exact ⟨other, otherMember, last, .inl otherHas⟩
      · rintro ⟨other, otherMember, last, otherHas⟩
        exact ⟨other, otherMember, last, (same other otherMember).mpr otherHas⟩
  · intro _ missing next openedNext sameTimer
    exact waits missing _ ⟨waiting.sockets, waiting.noOther, .inr
      ⟨next, rfl, rfl, sameTimer ▸ timer, openedNext, piece, member, .inr rfl⟩⟩
  · intro _ all p reassembled
    exact finished all p reassembled

theorem itemPbuf_of_small
    (small : vec.length < 65536) :
    itemPbuf addr vec = wholePbuf addr vec := by
  rw [itemPbuf, wholePbuf, Nat.mod_eq_of_lt small, List.take_length]

/-- A reassembled datagram is delivered to the first socket. -/
theorem reassembled4_delivers
    {p : Chain}
    {socket : UdpSocket}
    {rest : List UdpSocket}
    {post : Option Upward → IpInput → Prop}
    (reassembled : Reassembled4 udp p)
    (small : udp.length + ipHlen < 65536)
    (long : udpHlen ≤ udp.length)
    (sockets : input.sockets = socket :: rest)
    (room : socket.queue.length < socket.capacity)
    (delivered :
      post none
        { input with
          sockets :=
            { socket with
              queue :=
                socket.queue ++
                  [(udp.drop udpHlen, ⟨.v4 src, wordAt udp 0⟩,
                    ⟨.v4 dest, wordAt udp 2⟩)] } :: rest }) :
    wp (ip4Deliver src dest 20 p)
      (fun result next =>
        wp
          (match result with
          | none => pure none
          | some up =>
              if up.proto = .udp then do
                udpInput up.src up.dest up.p
                pure none
              else
                pure (some up))
          post allowed next) allowed input := by
  have hlen : ipHlen = 20 := rfl
  have uhlen : udpHlen = 8 := rfl
  have front := reassembled.front
  have inside := reassembled.held.1
  unfold PBuf.Held at inside
  have fits : 20 ≤ p.head.len := by omega
  have data : (p.skip 20).data = udp := by
    rw [Chain.skip_data reassembled.held fits]
    exact reassembled.data
  rw [ip4Deliver, wp_bind, wp_readByte (by omega), reassembled.proto, wp_bind,
    wp_pbufRemoveHeader fits, if_pos rfl, wp_pure]
  dsimp only
  rw [if_pos rfl, wp_bind]
  refine udpInput_delivers (reassembled.held.skip fits) (by rw [data]; omega)
    (fun _ => ?_) sockets room ?_
  · rw [Chain.skip_head, PBuf.skip_len]
    omega
  · rw [data, if_pos long]
    exact delivered

/-- The datagram's item is in the channel of the first socket, and nothing is
left in the reassembly list. -/
structure Delivered
    (src dest : BitVec 32)
    (udp : Bytes)
    (start input : IpInput) :
    Prop where
  sockets :
    input.sockets =
      start.sockets.modifyHead fun socket =>
        { socket with
          queue :=
            socket.queue ++
              [(udp.drop udpHlen, ⟨.v4 src, wordAt udp 0⟩,
                ⟨.v4 dest, wordAt udp 2⟩)] }
  datagrams : input.datagrams4 = []
  pbufcount : input.pbufcount4 = 0

/-- The one fragment of a datagram that is not cut is a packet of its own. -/
theorem Ip4FragmentOf.whole
    (fragment : Ip4FragmentOf src dest id ⟨0, false, udp⟩ vec) :
    Ip4Udp vec src dest udp := by
  have hdrLen : iphHlBytes vec = 20 := by
    rw [iphHlBytes, fragment.version]
    rfl
  have hlen : ipHlen = 20 := rfl
  have size := fragment.size
  refine ⟨?_, ?_, ?_, ?_, ?_, ?_, fragment.proto, fragment.src_eq,
    fragment.dest_eq⟩
  · rw [fragment.version]
    rfl
  · rw [hdrLen]
    exact le_refl _
  · rw [hdrLen, fragment.total]
    omega
  · rw [fragment.total]
  · rw [hdrLen, fragment.total, List.take_length]
    exact fragment.data
  · rw [offsetField_eq_zero_iff]
    constructor
    · have start := fragment.offset
      rw [iphOffsetBytes] at start
      have first : (wordAt vec 6 &&& 0x1fff).toNat = 0 := by
        dsimp only at start
        omega
      exact BitVec.eq_of_toNat_eq first
    · have last := fragment.more
      simpa [iphMf] using last

/-- What the sink does with a fragment while pieces are missing. -/
theorem sinkInput_fragment
    {socket : UdpSocket}
    {rest : List UdpSocket}
    {post : Option Upward → IpInput → Prop}
    (waiting : Waiting src dest id udp pieces start arrived age input)
    (cut : Cut 8 0 udp pieces)
    (small : udp.length + ipHlen < 65536)
    (long : udpHlen ≤ udp.length)
    (few : pieces.length ≤ ipReassMaxPbufs)
    (carried : ∀ piece ∈ pieces, ∃ vec, Ip4FragmentOf src dest id piece vec)
    (host : (IpAddr.v4 src).isUnicast = true)
    (sockets : start.sockets = socket :: rest)
    (room : socket.queue.length < socket.capacity)
    (incomplete : ¬∀ piece ∈ pieces, arrived piece)
    (member : piece ∈ pieces)
    (fragment : Ip4FragmentOf src dest id piece vec)
    (waits :
      (¬∀ other ∈ pieces, arrived other ∨ other = piece) →
        ∀ next,
          Waiting src dest id udp pieces start
              (fun other => arrived other ∨ other = piece) age next →
            post none next)
    (delivered :
      (∀ other ∈ pieces, arrived other ∨ other = piece) →
        ∀ next, Delivered src dest udp start next → post none next) :
    wp (sinkInput (some addr) vec) post allowed input := by
  have hlen : ipHlen = 20 := rfl
  have size := fragment.size
  have vecSmall : vec.length < 65536 := by
    rw [← fragment.total]
    exact (wordAt vec 2).isLt
  have notEmpty : vec.isEmpty = false := by
    rw [List.isEmpty_eq_false_iff, ← List.length_pos_iff]
    omega
  have now : input.sockets = socket :: rest := waiting.sockets.trans sockets
  have version : byteAt (wholePbuf addr vec).mem
      ((wholePbuf addr vec).payload + 0) = 0x45 := fragment.version
  rw [sinkInput, notEmpty, if_neg (by decide), itemPbuf_of_small vecSmall,
    netifInput, wp_bind, ipInput, wp_bind,
    wp_readByte (by simp only [wholePbuf]; omega), version, if_neg (by decide)]
  by_cases several : 1 < pieces.length
  · have part : piece.offset ≠ 0 ∨ piece.more = true := by
      by_contra neither
      simp only [not_or, not_not, Bool.not_eq_true] at neither
      obtain ⟨first, last⟩ := neither
      have ends := (cut.more_eq_false_iff piece member).mp last
      cases cut with
      | last _ => exact absurd several (by simp)
      | @more _ data others pieces nonEmpty _ cut =>
          have filled := cut.whole_length_pos
          rw [List.length_append] at ends
          rcases List.mem_cons.mp member with same | later
          · subst same
            simp only at ends
            omega
          · have starts := cut.starts piece later
            have positive := List.length_pos_iff.mpr nonEmpty
            omega
    refine ip4Input_fragment fragment host part ?_
    refine ip4Reass_waiting waiting cut small several few carried incomplete
      member fragment ?_ ?_
    · exact waits
    · intro all p reassembled
      refine reassembled4_delivers reassembled small long now room ?_
      refine delivered all _ ⟨?_, rfl, rfl⟩
      rw [sockets]
      rfl
  · obtain ⟨only, rfl⟩ : ∃ only, pieces = [only] := by
      cases pieces with
      | nil => cases member
      | cons only others =>
          refine ⟨only, ?_⟩
          rw [List.length_cons] at several
          rw [List.length_eq_zero_iff.mp (by omega : others.length = 0)]
    obtain rfl := List.mem_singleton.mp member
    obtain rfl := cut.eq_of_singleton
    have nothing : input.datagrams4 = [] ∧ input.pbufcount4 = 0 := by
      rcases waiting.entry with
        ⟨vacant, count, _⟩ | ⟨_, _, _, _, _, other, otherMember, has⟩
      · exact ⟨vacant, count⟩
      · obtain rfl := List.mem_singleton.mp otherMember
        refine absurd (fun piece among => ?_) incomplete
        obtain rfl := List.mem_singleton.mp among
        exact has
    refine wp_weaken (ip4Input_udp fragment.whole host) ?_
    rintro up next ⟨⟨p, rfl, held, data⟩, same⟩
    dsimp only
    rw [if_pos rfl, wp_bind]
    have whole : Chain.data { head := p } = udp := by
      rw [← data]
      simp [Chain.data]
    refine udpInput_delivers ⟨held, fun _ among => by cases among⟩
      (by rw [whole]; omega) ?_ ((congrArg IpInput.sockets same).trans now) room
      ?_
    · intro _
      rw [← PBuf.data_length held, data]
      exact long
    · rw [whole, if_pos long, same]
      refine delivered ?_ _ ⟨?_, nothing.1, nothing.2⟩
      · intro other among
        exact .inr (List.mem_singleton.mp among)
      · rw [sockets]
        rfl

end Steps

/-! ## Runs -/

section Runs

variable {src dest : BitVec 32} {id : BitVec 16} {udp : Bytes}
  {pieces : List (Piece UInt8)} {encode : Piece UInt8 → Bytes}
  {start : IpInput} {arrived : Piece UInt8 → Prop} {age : Nat}
  {allowed : IpFault → Prop} {input : IpInput}

theorem Waiting.congr
    {other : Piece UInt8 → Prop}
    (waiting : Waiting src dest id udp pieces start arrived age input)
    (same : ∀ piece ∈ pieces, arrived piece ↔ other piece) :
    Waiting src dest id udp pieces start other age input where
  sockets := waiting.sockets
  noOther := waiting.noOther
  entry := by
    rcases waiting.entry with
      ⟨vacant, count, young, nothing⟩ |
        ⟨ipr, one, count, timer, opened, piece, member, has⟩
    · exact .inl ⟨vacant, count, young, fun piece member has =>
        nothing piece member ((same piece member).mpr has)⟩
    · refine .inr ⟨ipr, one, count, timer,
        ⟨opened.hdr, opened.collects.congr same, ?_, opened.datagramLen⟩,
        piece, member, (same piece member).mp has⟩
      rw [opened.last]
      constructor
      · rintro ⟨last, lastMember, ends, has⟩
        exact ⟨last, lastMember, ends, (same last lastMember).mp has⟩
      · rintro ⟨last, lastMember, ends, has⟩
        exact ⟨last, lastMember, ends, (same last lastMember).mpr has⟩

/-- The IPv4 timer makes the entry older. -/
theorem ipReassTmr_waiting
    {post : Unit → IpInput → Prop}
    (waiting : Waiting src dest id udp pieces start arrived age input)
    (nothing :
      (∀ piece ∈ pieces, ¬arrived piece) → post () input)
    (older :
      (∃ piece ∈ pieces, arrived piece) →
        age + 1 ≤ ipReassMaxage ∧
          ∀ next,
            Waiting src dest id udp pieces start arrived (age + 1) next →
              post () next) :
    wp ipReassTmr post allowed input := by
  rw [ipReassTmr, wp_bind, wp_get]
  rcases waiting.entry with
    ⟨vacant, _, _, missing⟩ | ⟨ipr, one, count, timer, opened, begun⟩
  · rw [vacant]
    exact nothing missing
  · obtain ⟨young, waits⟩ := older begun
    rw [one, List.length_singleton, ipReassTmrFrom, wp_bind, wp_get, one]
    dsimp only [List.getElem?_cons_zero]
    rw [if_pos (by omega), wp_bind, wp_set, ipReassTmrFrom, wp_pure]
    refine waits _ ⟨waiting.sockets, waiting.noOther,
      .inr ⟨_, rfl, count, ?_, ?_, begun⟩⟩
    · dsimp only
      omega
    · exact ⟨opened.hdr, opened.collects, opened.last, opened.datagramLen⟩

/-- The IPv6 timer has nothing to do. -/
theorem ip6ReassTmr_waiting
    {post : Unit → IpInput → Prop}
    (waiting : Waiting src dest id udp pieces start arrived age input)
    (same : post () input) :
    wp ip6ReassTmr post allowed input := by
  rw [ip6ReassTmr, wp_bind, wp_get, waiting.noOther]
  exact same

/-- The pieces whose fragment has been given to the sink. -/
def GivenPiece
    (encode : Piece UInt8 → Bytes)
    (labels : List IpLabel)
    (piece : Piece UInt8) :
    Prop :=
  ∃ addr, IpLabel.item addr (encode piece) ∈ labels

theorem allArrived_map_iff
    {labels : List IpLabel} :
    AllArrived (pieces.map encode) labels ↔
      ∀ piece ∈ pieces, GivenPiece encode labels piece :=
  List.forall_mem_map

/-- Given the vectors of a run, those of a longer one are given too. -/
theorem GivenPiece.append
    {labels more : List IpLabel}
    {piece : Piece UInt8}
    (given : GivenPiece encode labels piece) :
    GivenPiece encode (labels ++ more) piece := by
  obtain ⟨addr, member⟩ := given
  exact ⟨addr, List.mem_append_left _ member⟩

theorem givenPiece_tick
    {labels : List IpLabel}
    {label : IpLabel}
    {piece : Piece UInt8}
    (isTick : label.isTick = true) :
    GivenPiece encode (labels ++ [label]) piece ↔
      GivenPiece encode labels piece := by
  constructor
  · rintro ⟨addr, member⟩
    rcases List.mem_append.mp member with front | last
    · exact ⟨addr, front⟩
    · rw [List.mem_singleton] at last
      rw [← last] at isTick
      cases isTick
  · exact .append

/-- The fragments of a cut. -/
structure Fragmented
    (src dest : BitVec 32)
    (id : BitVec 16)
    (udp : Bytes)
    (pieces : List (Piece UInt8))
    (encode : Piece UInt8 → Bytes) :
    Prop where
  cut : Cut 8 0 udp pieces
  small : udp.length + ipHlen < 65536
  long : udpHlen ≤ udp.length
  few : pieces.length ≤ ipReassMaxPbufs
  fragment :
    ∀ piece ∈ pieces, Ip4FragmentOf src dest id piece (encode piece)
  host : (IpAddr.v4 src).isUnicast = true

theorem Fragmented.givenPiece_item
    {labels : List IpLabel}
    {addr : Option Nat}
    {piece other : Piece UInt8}
    (fragmented : Fragmented src dest id udp pieces encode)
    (member : piece ∈ pieces)
    (otherMember : other ∈ pieces) :
    GivenPiece encode labels other ∨ other = piece ↔
      GivenPiece encode (labels ++ [.item addr (encode piece)]) other := by
  constructor
  · rintro (given | rfl)
    · exact given.append
    · exact ⟨addr, List.mem_append_right _ (List.mem_singleton.mpr rfl)⟩
  · rintro ⟨otherAddr, given⟩
    rcases List.mem_append.mp given with front | last
    · exact .inl ⟨otherAddr, front⟩
    · rw [List.mem_singleton, IpLabel.item.injEq] at last
      refine .inr ?_
      by_contra differ
      have offset := (fragmented.fragment piece member).offset
      have otherOffset := (fragmented.fragment other otherMember).offset
      rw [last.2, offset] at otherOffset
      have filled := fragmented.cut.filled piece member
      have otherFilled := fragmented.cut.filled other otherMember
      rcases fragmented.cut.beside otherMember member differ with ahead | behind
      · omega
      · omega

/-- What a step does while pieces are missing. -/
theorem label_waiting
    {labels : List IpLabel}
    {label : IpLabel}
    {socket : UdpSocket}
    {rest : List UdpSocket}
    {post : Unit → IpInput → Prop}
    (fragmented : Fragmented src dest id udp pieces encode)
    (sockets : start.sockets = socket :: rest)
    (room : socket.queue.length < socket.capacity)
    (fed : ∀ label ∈ labels, Feeds (pieces.map encode) label)
    (feeds : Feeds (pieces.map encode) label)
    (young : ticksSinceFirst .ipReassTmr (labels ++ [label]) ≤ ipReassMaxage)
    (incomplete : ¬∀ piece ∈ pieces, GivenPiece encode labels piece)
    (waiting :
      Waiting src dest id udp pieces start (GivenPiece encode labels)
        (ticksSinceFirst .ipReassTmr labels) input)
    (waits :
      (¬∀ piece ∈ pieces, GivenPiece encode (labels ++ [label]) piece) →
        ∀ next,
          Waiting src dest id udp pieces start
              (GivenPiece encode (labels ++ [label]))
              (ticksSinceFirst .ipReassTmr (labels ++ [label])) next →
            post () next)
    (delivered :
      (∀ piece ∈ pieces, GivenPiece encode (labels ++ [label]) piece) →
        ∀ next, Delivered src dest udp start next → post () next) :
    wp label.run post allowed input := by
  cases feeds with
  | @item addr vec vecMember =>
      obtain ⟨piece, member, rfl⟩ := List.mem_map.mp vecMember
      have given :
          ∀ other ∈ pieces,
            GivenPiece encode labels other ∨ other = piece ↔
              GivenPiece encode
                (labels ++ [.item (some addr) (encode piece)]) other :=
        fun _ otherMember => fragmented.givenPiece_item member otherMember
      rw [IpLabel.run, wp_bind]
      refine sinkInput_fragment waiting fragmented.cut fragmented.small
        fragmented.long fragmented.few
        (fun piece member => ⟨_, fragmented.fragment piece member⟩)
        fragmented.host sockets room incomplete member
        (fragmented.fragment piece member) ?_ ?_
      · intro missing next nextWaiting
        refine waits (fun all => missing fun other otherMember =>
          (given other otherMember).mpr (all other otherMember)) next ?_
        rw [ticksSinceFirst_other (by rintro ⟨⟩)]
        exact nextWaiting.congr given
      · intro all next nextDelivered
        exact delivered (fun other otherMember =>
          (given other otherMember).mp (all other otherMember)) next
          nextDelivered
  | ipReassTmr =>
      have given :
          ∀ piece ∈ pieces,
            GivenPiece encode (labels ++ [.ipReassTmr]) piece ↔
              GivenPiece encode labels piece :=
        fun _ _ => givenPiece_tick rfl
      have missing :
          ¬∀ piece ∈ pieces,
            GivenPiece encode (labels ++ [.ipReassTmr]) piece := fun all =>
        incomplete fun piece member =>
          (given piece member).mp (all piece member)
      refine ipReassTmr_waiting waiting ?_ ?_
      · intro nothing
        have ticks : ∀ label ∈ labels, label.isTick = true := by
          intro label member
          cases fed label member with
          | @item addr vec vecMember =>
              obtain ⟨piece, pieceMember, rfl⟩ := List.mem_map.mp vecMember
              exact absurd ⟨_, member⟩ (nothing piece pieceMember)
          | ipReassTmr => rfl
          | ip6ReassTmr => rfl
        refine waits missing input ?_
        have allTicks : ∀ label ∈ labels ++ [.ipReassTmr],
            IpLabel.isTick label = true := by
          intro label member
          rcases List.mem_append.mp member with front | last
          · exact ticks label front
          · rw [List.mem_singleton.mp last]
            rfl
        rw [ticksSinceFirst_ticks allTicks]
        rw [ticksSinceFirst_ticks ticks] at waiting
        exact waiting.congr fun piece member => (given piece member).symm
      · rintro ⟨piece, member, addr, first⟩
        rw [ticksSinceFirst_append ⟨_, first, rfl⟩, if_pos rfl] at young waits
        refine ⟨young, fun next nextWaiting => waits missing next ?_⟩
        exact nextWaiting.congr fun piece member => (given piece member).symm
  | ip6ReassTmr =>
      have given :
          ∀ piece ∈ pieces,
            GivenPiece encode (labels ++ [.ip6ReassTmr]) piece ↔
              GivenPiece encode labels piece :=
        fun _ _ => givenPiece_tick rfl
      have missing :
          ¬∀ piece ∈ pieces,
            GivenPiece encode (labels ++ [.ip6ReassTmr]) piece := fun all =>
        incomplete fun piece member =>
          (given piece member).mp (all piece member)
      refine ip6ReassTmr_waiting waiting (waits missing input ?_)
      rw [ticksSinceFirst_other (by rintro ⟨⟩)]
      exact waiting.congr fun piece member => (given piece member).symm

/-- While pieces are missing, nothing is delivered. -/
theorem ipRun_waiting
    {labels : List IpLabel}
    {socket : UdpSocket}
    {rest : List UdpSocket}
    (fragmented : Fragmented src dest id udp pieces encode)
    (sockets : start.sockets = socket :: rest)
    (room : socket.queue.length < socket.capacity)
    (idle :
      start.datagrams4 = [] ∧ start.pbufcount4 = 0 ∧ start.datagrams6 = [])
    (fed : ∀ label ∈ labels, Feeds (pieces.map encode) label)
    (young : ticksSinceFirst .ipReassTmr labels ≤ ipReassMaxage)
    (incomplete : ¬∀ piece ∈ pieces, GivenPiece encode labels piece) :
    wp (ipRun labels)
      (fun _ next =>
        Waiting src dest id udp pieces start (GivenPiece encode labels)
          (ticksSinceFirst .ipReassTmr labels) next)
      allowed start := by
  induction labels using List.reverseRecOn with
  | nil =>
      refine ⟨rfl, idle.2.2, .inl ⟨idle.1, idle.2.1, rfl, ?_⟩⟩
      rintro piece _ ⟨addr, member⟩
      cases member
  | append_singleton labels label inductionHypothesis =>
      have missing : ¬∀ piece ∈ pieces, GivenPiece encode labels piece :=
        fun all => incomplete fun piece member => (all piece member).append
      have fedFront : ∀ label ∈ labels, Feeds (pieces.map encode) label :=
        fun label member => fed label (List.mem_append_left _ member)
      rw [wp_ipRun_append]
      refine wp_weaken
        (inductionHypothesis fedFront (ticksSinceFirst_le.trans young) missing)
        ?_
      intro _ next waiting
      rw [wp_ipRun_singleton]
      refine label_waiting fragmented sockets room fedFront
        (fed label (List.mem_append_right _ (List.mem_singleton.mpr rfl))) young
        missing waiting ?_ ?_
      · exact fun _ after waits => waits
      · exact fun all => absurd all incomplete

end Runs

/--
The fragments of a UDP datagram from a host, given to the sink in any order and
with repetitions, deliver nothing while one of them is missing. The last
missing one delivers exactly the datagram's item and leaves nothing behind.
-/
theorem ip4_fragments_round_trip
    (src dest : SocketAddr)
    (data : Bytes)
    (vecs : List Bytes)
    (fragments : Ip4Fragments src dest data vecs)
    (few : vecs.length ≤ ipReassMaxPbufs)
    (host : src.ip.isUnicast = true)
    (start : IpInput)
    (socket : UdpSocket)
    (rest : List UdpSocket)
    (idle :
      start.datagrams4 = [] ∧ start.pbufcount4 = 0 ∧ start.datagrams6 = [])
    (sockets : start.sockets = socket :: rest)
    (room : socket.queue.length < socket.capacity)
    (labels : List IpLabel)
    (fed : ∀ label ∈ labels, Feeds vecs label)
    (young : ticksSinceFirst .ipReassTmr labels ≤ ipReassMaxage)
    (before : ¬AllArrived vecs labels.dropLast) :
    ∃ next,
      ipRun labels start = .ok ((), next) ∧
        (¬AllArrived vecs labels → next.sockets = start.sockets) ∧
        (AllArrived vecs labels →
          next.sockets =
              { socket with queue := socket.queue ++ [(data, src, dest)] } ::
                rest ∧
            next.datagrams4 = [] ∧ next.pbufcount4 = 0) := by
  obtain ⟨hdr, source, target, id, pieces, encode, rfl, rfl, cut, small, rfl,
    fragment⟩ := fragments.exists_cut
  rw [List.length_map] at few
  have long : udpHlen ≤ (hdr.bytes ++ data).length := by
    rw [List.length_append, UdpHdr.bytes_length]
    exact Nat.le_add_right _ _
  have fragmented :
      Fragmented source target id (hdr.bytes ++ data) pieces encode :=
    ⟨cut, small, long, few, fragment, host⟩
  have outcome :
      wp (ipRun labels)
        (fun _ next =>
          (¬AllArrived (pieces.map encode) labels →
            next.sockets = start.sockets) ∧
          (AllArrived (pieces.map encode) labels →
            Delivered source target (hdr.bytes ++ data) start next))
        (fun _ => False) start := by
    simp only [allArrived_map_iff] at before ⊢
    by_cases all : ∀ piece ∈ pieces, GivenPiece encode labels piece
    · rcases List.eq_nil_or_concat labels with rfl | ⟨front, label, rfl⟩
      · exact absurd all before
      · rw [List.concat_eq_append] at all young fed ⊢
        rw [List.concat_eq_append, List.dropLast_concat] at before
        have fedFront : ∀ label ∈ front, Feeds (pieces.map encode) label :=
          fun label member => fed label (List.mem_append_left _ member)
        rw [wp_ipRun_append]
        refine wp_weaken
          (ipRun_waiting fragmented sockets room idle fedFront
            (ticksSinceFirst_le.trans young) before) ?_
        intro _ next waiting
        rw [wp_ipRun_singleton]
        refine label_waiting fragmented sockets room fedFront
          (fed label (List.mem_append_right _ (List.mem_singleton.mpr rfl)))
          young before waiting ?_ ?_
        · exact fun missing => absurd all missing
        · intro _ after delivered
          exact ⟨fun missing => absurd all missing, fun _ => delivered⟩
    · refine wp_weaken
        (ipRun_waiting fragmented sockets room idle fed young all) ?_
      intro _ next waiting
      exact ⟨fun _ => waiting.sockets, fun all' => absurd all' all⟩
  cases ran : ipRun labels start with
  | error fault => exact (wp_faulted outcome ran).elim
  | ok result =>
      obtain ⟨undelivered, delivered⟩ := wp_returned outcome ran
      refine ⟨result.2, rfl, undelivered, fun all => ?_⟩
      obtain ⟨item, datagrams, count⟩ := delivered all
      rw [sockets] at item
      have srcPort : wordAt (hdr.bytes ++ data) 0 = hdr.src :=
        wordAt_wordBytes hdr.src
      have destPort : wordAt (hdr.bytes ++ data) 2 = hdr.dest :=
        wordAt_wordBytes hdr.dest
      have payload : (hdr.bytes ++ data).drop udpHlen = data := rfl
      rw [srcPort, destPort, payload] at item
      exact ⟨item, datagrams, count⟩

/-- The header of a UDP datagram with nine bytes of data. -/
def nineBytesUdpHdr : UdpHdr where
  src := 1234
  dest := 53
  len := 17
  chksum := 0

/-- The IP header of its fragments, from `source` to 10.0.0.2. -/
def nineBytesHdr (source : BitVec 32) : Ip4Hdr where
  tos := 0
  len := 0
  id := 7
  offset := 0
  mf := false
  ttl := 64
  proto := ipProtoUdp
  src := source
  dest := 0x0a000002

def nineBytesFragment (source : BitVec 32) (piece : Piece UInt8) : Bytes :=
  (ip4Fragment (nineBytesHdr source) piece).bytes

/-- The datagram, cut behind its UDP header. -/
def nineBytesPieces : List (Piece UInt8) :=
  [⟨0, true, nineBytesUdpHdr.bytes⟩, ⟨8, false, [1, 2, 3, 4, 5, 6, 7, 8, 9]⟩]

theorem nineBytes_fragments (source : BitVec 32) :
    Ip4Fragments ⟨.v4 source, 1234⟩ ⟨.v4 0x0a000002, 53⟩
      [1, 2, 3, 4, 5, 6, 7, 8, 9]
      (nineBytesPieces.map (nineBytesFragment source)) := by
  have cut : Cut 8 0 (nineBytesUdpHdr.bytes ++ [1, 2, 3, 4, 5, 6, 7, 8, 9])
      nineBytesPieces :=
    .more (List.cons_ne_nil _ _) (Nat.dvd_refl 8) (.last (List.cons_ne_nil _ _))
  refine .cut nineBytesUdpHdr 7 rfl rfl cut (by decide) ?_
  intro piece member
  have inside := cut.inside piece member
  have length : (nineBytesUdpHdr.bytes ++
      [1, 2, 3, 4, 5, 6, 7, 8, 9]).length = 17 := rfl
  have hlen : ipHlen = 20 := rfl
  have proto : (nineBytesHdr source).proto = ipProtoUdp := rfl
  exact ip4Fragment_fragmentOf proto
    (cut.aligned (Nat.dvd_zero 8) piece member) (by omega)

/-- The second fragment comes first, and once more after a tick. -/
def nineBytesRun (source : BitVec 32) : List IpLabel :=
  let first := nineBytesFragment source ⟨0, true, nineBytesUdpHdr.bytes⟩
  let second :=
    nineBytesFragment source ⟨8, false, [1, 2, 3, 4, 5, 6, 7, 8, 9]⟩
  [.item (some 1) second, .ipReassTmr, .item (some 2) second,
    .item (some 3) first]

theorem nineBytesRun_feeds
    (source : BitVec 32) :
    ∀ label ∈ nineBytesRun source,
      Feeds (nineBytesPieces.map (nineBytesFragment source)) label := by
  intro label member
  simp only [nineBytesRun, List.mem_cons, List.not_mem_nil, or_false] at member
  rcases member with rfl | rfl | rfl | rfl
  · exact .item (List.mem_cons_of_mem _ List.mem_cons_self)
  · exact .ipReassTmr
  · exact .item (List.mem_cons_of_mem _ List.mem_cons_self)
  · exact .item List.mem_cons_self

theorem nineBytesRun_allArrived
    (source : BitVec 32) :
    AllArrived (nineBytesPieces.map (nineBytesFragment source))
      (nineBytesRun source) := by
  intro vec member
  simp only [nineBytesPieces, List.map_cons, List.map_nil, List.mem_cons,
    List.not_mem_nil, or_false] at member
  rcases member with rfl | rfl
  · exact ⟨some 3, by simp [nineBytesRun]⟩
  · exact ⟨some 1, by simp [nineBytesRun]⟩

theorem nineBytesRun_before :
    ¬AllArrived (nineBytesPieces.map (nineBytesFragment 0x0a000001))
      (nineBytesRun 0x0a000001).dropLast := by
  intro all
  obtain ⟨addr, member⟩ := all _ List.mem_cons_self
  have differ :
      nineBytesFragment 0x0a000001 ⟨0, true, nineBytesUdpHdr.bytes⟩ ≠
        nineBytesFragment 0x0a000001
          ⟨8, false, [1, 2, 3, 4, 5, 6, 7, 8, 9]⟩ := by
    decide
  simp only [nineBytesRun, List.dropLast, List.mem_cons, IpLabel.item.injEq,
    List.not_mem_nil, or_false, reduceCtorEq, false_or] at member
  rcases member with ⟨_, same⟩ | ⟨_, same⟩
  · exact differ same
  · exact differ same

theorem ip4_fragments_round_trip_nine :
    ∃ next,
      ipRun (nineBytesRun 0x0a000001) oneSocket = .ok ((), next) ∧
        (¬AllArrived (nineBytesPieces.map (nineBytesFragment 0x0a000001))
            (nineBytesRun 0x0a000001) →
          next.sockets = oneSocket.sockets) ∧
        (AllArrived (nineBytesPieces.map (nineBytesFragment 0x0a000001))
            (nineBytesRun 0x0a000001) →
          next.sockets =
              [{ capacity := 1,
                 queue := [([1, 2, 3, 4, 5, 6, 7, 8, 9],
                   ⟨.v4 0x0a000001, 1234⟩, ⟨.v4 0x0a000002, 53⟩)] }] ∧
            next.datagrams4 = [] ∧ next.pbufcount4 = 0) :=
  ip4_fragments_round_trip ⟨.v4 0x0a000001, 1234⟩ ⟨.v4 0x0a000002, 53⟩
    [1, 2, 3, 4, 5, 6, 7, 8, 9] _ (nineBytes_fragments 0x0a000001) (by decide)
    (by decide) oneSocket { capacity := 1 } [] ⟨rfl, rfl, rfl⟩ rfl (by decide)
    (nineBytesRun 0x0a000001) (nineBytesRun_feeds 0x0a000001) (by decide)
    nineBytesRun_before

/-- A datagram whose source is a multicast address is not delivered. -/
theorem multicast_source_not_delivered :
    Ip4Fragments ⟨.v4 0xe0000001, 1234⟩ ⟨.v4 0x0a000002, 53⟩
        [1, 2, 3, 4, 5, 6, 7, 8, 9]
        (nineBytesPieces.map (nineBytesFragment 0xe0000001)) ∧
      AllArrived (nineBytesPieces.map (nineBytesFragment 0xe0000001))
        (nineBytesRun 0xe0000001) ∧
      ¬∃ next,
        ipRun (nineBytesRun 0xe0000001) oneSocket = .ok ((), next) ∧
          next.sockets =
            [{ capacity := 1,
               queue := [([1, 2, 3, 4, 5, 6, 7, 8, 9],
                 ⟨.v4 0xe0000001, 1234⟩, ⟨.v4 0x0a000002, 53⟩)] }] := by
  refine ⟨nineBytes_fragments 0xe0000001, nineBytesRun_allArrived 0xe0000001,
    ?_⟩
  rintro ⟨next, ran, delivered⟩
  have nothing :
      ipRun (nineBytesRun 0xe0000001) oneSocket = .ok ((), oneSocket) := rfl
  rw [nothing] at ran
  cases ran
  exact absurd delivered (by decide)

end NetstackLwip

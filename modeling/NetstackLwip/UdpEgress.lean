import Mathlib.Data.List.Infix
import NetstackLwip.DatagramCut
import NetstackLwip.IpOutput

namespace NetstackLwip

/-!
# What `send_to` hands to the stack's output

A datagram leaves as one packet or as the complete set of its fragments. The
interface's own addresses are the exception by design: packets to them go into
the loopback queue. When memory runs out in the middle of fragmenting, the
fragments before are already handed over.
-/

open DatagramCut

/-! ## Datagrams -/

/-- The IPv4 fragment that carries `piece` of a datagram. -/
def ip4Fragment (hdr : Ip4Hdr) (piece : Piece UInt8) : IpPacket :=
  .v4
    { hdr with
      offset := BitVec.ofNat 13 (piece.offset / 8)
      mf := piece.more
      len := BitVec.ofNat 16 (piece.data.length + ipHlen) }
    piece.data

/-- The IPv6 fragment that carries `piece` of a datagram. -/
def ip6Fragment
    (hdr : Ip6Hdr)
    (identification : BitVec 32)
    (piece : Piece UInt8) : IpPacket :=
  .v6
    { hdr with
      nexth := ip6NexthFragment
      plen := BitVec.ofNat 16 (piece.data.length + ip6FragHlen) }
    (some
      { nexth := hdr.nexth
        offset := BitVec.ofNat 13 (piece.offset / 8)
        more := piece.more
        identification := identification })
    piece.data

/--
The packets are one IP datagram with the given addresses, protocol and data:
one packet, or all its fragments, which share an identification and cut the
data at multiples of 8 bytes. No length or offset is too large for its field.
-/
inductive IsDatagram (proto : BitVec 8) :
    IpAddr → IpAddr → Bytes → List IpPacket → Prop where
  | v4
      {src dest : BitVec 32}
      {data : Bytes}
      {pieces : List (Piece UInt8)}
      (hdr : Ip4Hdr) :
      Cut 8 0 data pieces →
      data.length + ipHlen < 65536 →
      hdr.src = src →
      hdr.dest = dest →
      hdr.proto = proto →
      IsDatagram proto (.v4 src) (.v4 dest) data (pieces.map (ip4Fragment hdr))
  | v6
      {src dest : BitVec 128}
      {data : Bytes}
      (hdr : Ip6Hdr) :
      data.length < 65536 →
      hdr.src = src →
      hdr.dest = dest →
      hdr.nexth = proto →
      hdr.plen = BitVec.ofNat 16 data.length →
      IsDatagram proto (.v6 src) (.v6 dest) data [.v6 hdr none data]
  | v6Fragments
      {src dest : BitVec 128}
      {data : Bytes}
      {pieces : List (Piece UInt8)}
      (hdr : Ip6Hdr)
      (identification : BitVec 32) :
      Cut 8 0 data pieces →
      data.length + ip6FragHlen < 65536 →
      hdr.src = src →
      hdr.dest = dest →
      hdr.nexth = proto →
      IsDatagram proto (.v6 src) (.v6 dest) data
        (pieces.map (ip6Fragment hdr identification))

/-- The packets are one UDP datagram from `src` to `dest` with payload
`data`. -/
def IsUdpDatagram (src dest : SocketAddr) (data : Bytes)
    (packets : List IpPacket) : Prop :=
  ∃ hdr : UdpHdr,
    hdr.src = src.port ∧ hdr.dest = dest.port ∧
      hdr.len = BitVec.ofNat 16 (data.length + udpHlen) ∧
      data.length + udpHlen < 65536 ∧
      IsDatagram ipProtoUdp src.ip dest.ip (hdr.bytes ++ data) packets

theorem Cut.ne_nil
    {unit offset : Nat}
    {data : Bytes}
    {pieces : List (Piece UInt8)}
    (cut : Cut unit offset data pieces) :
    pieces ≠ [] := by
  cases cut <;> exact List.cons_ne_nil _ _

/-- A datagram is at least one packet. -/
theorem IsUdpDatagram.ne_nil
    {src dest : SocketAddr}
    {data : Bytes}
    {packets : List IpPacket}
    (datagram : IsUdpDatagram src dest data packets) :
    packets ≠ [] := by
  obtain ⟨_, _, _, _, _, packet⟩ := datagram
  intro nothing
  generalize src.ip = source, dest.ip = target at packet
  cases packet with
  | v4 _ cut => exact Cut.ne_nil cut (List.map_eq_nil_iff.mp nothing)
  | v6 => exact List.cons_ne_nil _ _ nothing
  | v6Fragments _ _ cut => exact Cut.ne_nil cut (List.map_eq_nil_iff.mp nothing)

/-! ## The fragmentation loops -/

/--
What a run of the output path hands over of `whole`: everything, or, with an
error because an allocation failed, only a proper part from the front.
-/
def HandsOver
    (whole : List IpPacket)
    (before : IpStack)
    (result : Err × IpStack) : Prop :=
  ∃ packets,
    result.2.handed = before.handed ++ packets ∧
      (result.1 = .ok ∧ packets = whole ∨
        result.1 = .mem ∧ packets <+: whole ∧ packets ≠ whole ∧
          false ∈ before.allocs)

/-- Allocation takes one outcome from the list. -/
theorem IpStack.allocate_cases
    (stack : IpStack) :
    (∃ allocs, stack.allocate = (true, { stack with allocs := allocs }) ∧
      ∀ outcome ∈ allocs, outcome ∈ stack.allocs) ∨
    (∃ allocs, stack.allocate = (false, { stack with allocs := allocs }) ∧
      false ∈ stack.allocs) := by
  unfold IpStack.allocate
  cases outcomes : stack.allocs with
  | nil =>
      refine .inl ⟨[], ?_, by simp⟩
      simp [← outcomes]
  | cons outcome rest =>
      cases outcome with
      | true => exact .inl ⟨rest, rfl, fun _ => List.mem_cons_of_mem _⟩
      | false => exact .inr ⟨rest, rfl, List.mem_cons_self⟩

/-- Nothing is left to hand over. -/
theorem HandsOver.done
    (stack : IpStack) :
    HandsOver [] stack (.ok, stack) :=
  ⟨[], by simp, .inl ⟨rfl, rfl⟩⟩

/-- No memory for the next fragment. -/
theorem HandsOver.stopped
    {fragment : IpPacket}
    {rest : List IpPacket}
    {stack : IpStack}
    {allocs : List Bool}
    (failed : false ∈ stack.allocs) :
    HandsOver (fragment :: rest) stack
      (.mem, { stack with allocs := allocs }) :=
  ⟨[], by simp, .inr ⟨rfl, List.nil_prefix, by simp, failed⟩⟩

/-- A fragment is handed over and then the rest. -/
theorem HandsOver.next
    {fragment : IpPacket}
    {rest : List IpPacket}
    {stack : IpStack}
    {allocs : List Bool}
    {result : Err × IpStack}
    (fewer : ∀ outcome ∈ allocs, outcome ∈ stack.allocs)
    (live : stack.live = true)
    (handsOver :
      HandsOver rest
        (netifOutput fragment { stack with allocs := allocs }).2 result) :
    HandsOver (fragment :: rest) stack result := by
  obtain ⟨packets, handed, outcome⟩ := handsOver
  simp only [netifOutput, live, if_true] at handed outcome
  refine ⟨fragment :: packets, by simp [handed], ?_⟩
  rcases outcome with ⟨ok, all⟩ | ⟨mem, front, notAll, failed⟩
  · exact .inl ⟨ok, by rw [all]⟩
  · refine .inr ⟨mem, ?_, ?_, fewer _ failed⟩
    · exact (List.prefix_cons_inj fragment).mpr front
    · intro same
      exact notAll (List.cons_inj_right fragment |>.mp same)

@[simp]
theorem netifOutput_live
    (packet : IpPacket)
    (stack : IpStack) :
    (netifOutput packet stack).2.live = stack.live := by
  unfold netifOutput
  split <;> rfl

@[simp]
theorem ip4FragLoop_nil
    (hdr : Ip4Hdr)
    (ofo : Nat)
    (stack : IpStack) :
    ip4FragLoop hdr [] ofo stack = (.ok, stack) := by
  rw [ip4FragLoop, dif_pos List.length_nil]

@[simp]
theorem ip6FragLoop_nil
    (nfb : Nat)
    (positive : 0 < nfb)
    (hdr : Ip6Hdr)
    (offset : Nat)
    (stack : IpStack) :
    ip6FragLoop nfb positive hdr [] offset stack = (.ok, stack) := by
  rw [ip6FragLoop, dif_pos List.length_nil]

@[simp]
theorem netifOutput_identification
    (packet : IpPacket)
    (stack : IpStack) :
    (netifOutput packet stack).2.identification = stack.identification := by
  unfold netifOutput
  split <;> rfl

/-- `ip4_frag` hands over the chopped datagram. -/
theorem ip4FragLoop_handsOver
    (hdr : Ip4Hdr)
    (left : Bytes)
    (ofo : Nat)
    (stack : IpStack)
    (live : stack.live = true)
    (nonEmpty : left ≠ []) :
    HandsOver
      ((chop (ip4Nfb * 8) (ofo * 8) left).map (ip4Fragment hdr)) stack
      (ip4FragLoop hdr left ofo stack) := by
  induction whole : left.length using Nat.strongRecOn
    generalizing left ofo stack with
  | ind length inductionHypothesis =>
      have positive : left.length ≠ 0 := fun zero =>
        nonEmpty (List.length_eq_zero_iff.mp zero)
      rw [ip4FragLoop, dif_neg positive]
      by_cases small : left.length ≤ ip4Nfb * 8
      · have last : left.length ≤ netifMtu - ipHlen := small
        rw [chop_small small]
        rcases stack.allocate_cases with
          ⟨allocs, outcome, fewer⟩ | ⟨allocs, outcome, failed⟩
        · simp only [outcome, if_true, last, decide_true, Nat.min_eq_left small,
            List.take_length, List.drop_length, List.map_cons, List.map_nil,
            Bool.not_true]
          refine HandsOver.next fewer live ?_
          simp only [ip4Fragment, Nat.mul_div_cancel _ (by omega : 0 < 8),
            ip4FragLoop_nil]
          exact HandsOver.done _
        · simp only [outcome, if_false, Bool.false_eq_true]
          exact HandsOver.stopped failed
      · have large : ip4Nfb * 8 < left.length := by omega
        have more : ¬left.length ≤ netifMtu - ipHlen := small
        have size : min left.length (ip4Nfb * 8) = ip4Nfb * 8 :=
          Nat.min_eq_right (Nat.le_of_lt large)
        have taken : (left.take (ip4Nfb * 8)).length = ip4Nfb * 8 :=
          List.length_take_of_le (Nat.le_of_lt large)
        have remains : (left.drop (ip4Nfb * 8)).length =
            left.length - ip4Nfb * 8 :=
          List.length_drop
        rw [chop_large (by decide) large]
        rcases stack.allocate_cases with
          ⟨allocs, outcome, fewer⟩ | ⟨allocs, outcome, failed⟩
        · simp only [outcome, if_true, more, decide_false, size,
            List.map_cons, Bool.not_false]
          refine HandsOver.next fewer live ?_
          simp only [ip4Fragment, taken,
            Nat.mul_div_cancel _ (by omega : 0 < 8), ← Nat.add_mul]
          refine inductionHypothesis (left.drop (ip4Nfb * 8)).length ?_
            _ _ _ (by simpa using live) ?_ rfl
          · rw [remains, ← whole]
            have blocks : 0 < ip4Nfb := by decide
            omega
          · intro nothing
            rw [nothing, List.length_nil] at remains
            omega
        · simp only [outcome, if_false, Bool.false_eq_true]
          exact HandsOver.stopped failed

/-- `ip6_frag` hands over the chopped datagram. -/
theorem ip6FragLoop_handsOver
    (nfb : Nat)
    (positive : 0 < nfb)
    (hdr : Ip6Hdr)
    (left : Bytes)
    (offset : Nat)
    (stack : IpStack)
    (live : stack.live = true)
    (nonEmpty : left ≠ []) :
    HandsOver
      ((chop nfb offset left).map (ip6Fragment hdr stack.identification)) stack
      (ip6FragLoop nfb positive hdr left offset stack) := by
  induction whole : left.length using Nat.strongRecOn
    generalizing left offset stack with
  | ind length inductionHypothesis =>
      have filled : left.length ≠ 0 := fun zero =>
        nonEmpty (List.length_eq_zero_iff.mp zero)
      rw [ip6FragLoop, dif_neg filled]
      by_cases small : left.length ≤ nfb
      · rw [chop_small small]
        rcases stack.allocate_cases with
          ⟨allocs, outcome, fewer⟩ | ⟨allocs, outcome, failed⟩
        · simp only [outcome, if_true, small, decide_true, List.take_length,
            List.drop_length, List.map_cons, List.map_nil, Bool.not_true,
            ip6FragLoop_nil]
          exact HandsOver.next fewer live (HandsOver.done _)
        · simp only [outcome, if_false, Bool.false_eq_true]
          exact HandsOver.stopped failed
      · have large : nfb < left.length := by omega
        have taken : (left.take nfb).length = nfb :=
          List.length_take_of_le (Nat.le_of_lt large)
        have remains : (left.drop nfb).length = left.length - nfb :=
          List.length_drop
        rw [chop_large positive large]
        rcases stack.allocate_cases with
          ⟨allocs, outcome, fewer⟩ | ⟨allocs, outcome, failed⟩
        · simp only [outcome, if_true, small, decide_false, if_false,
            List.map_cons, Bool.not_false]
          refine HandsOver.next fewer live ?_
          simp only [ip6Fragment, taken]
          have rest := inductionHypothesis (left.drop nfb).length
            (by rw [remains, ← whole]; omega) (left.drop nfb) (offset + nfb)
            (netifOutput
              (ip6Fragment hdr stack.identification
                ⟨offset, true, left.take nfb⟩)
              { stack with allocs := allocs }).2
            (by simpa using live)
            (fun nothing => by
              rw [nothing, List.length_nil] at remains
              omega)
            rfl
          simpa only [ip6Fragment, taken, netifOutput_identification]
            using rest
        · simp only [outcome, if_false, Bool.false_eq_true]
          exact HandsOver.stopped failed

/-! ## The IP layer -/

/-- `dest` is an address of the interface itself. -/
def OwnAddress (stack : IpStack) : IpAddr → Prop
  | .v4 dest => dest = loopIpaddr
  | .v6 dest => stack.ip6Valid = true ∧ dest = loopIp6addr

/--
What sending a datagram comes to: it is handed over whole; or it is for the
interface itself and goes into the loopback queue; or the call fails and hands
nothing over; or memory runs out in the middle of fragmenting.
-/
inductive SendOutcome
    (datagram : List IpPacket → Prop)
    (own : Prop)
    (before : IpStack) :
    Err × IpStack → Prop where
  | sent
      {after : IpStack}
      {packets : List IpPacket} :
      ¬own →
      datagram packets →
      after.handed = before.handed ++ packets →
      SendOutcome datagram own before (.ok, after)
  | looped
      {after : IpStack}
      {packets : List IpPacket} :
      own →
      datagram packets →
      after.handed = before.handed →
      after.looped = before.looped ++ packets →
      SendOutcome datagram own before (.ok, after)
  | refused
      {err : Err}
      {after : IpStack} :
      err ≠ .ok →
      after.handed = before.handed →
      SendOutcome datagram own before (err, after)
  | interrupted
      {after : IpStack}
      {whole packets : List IpPacket} :
      false ∈ before.allocs →
      datagram whole →
      packets <+: whole →
      packets ≠ whole →
      after.handed = before.handed ++ packets →
      SendOutcome datagram own before (.mem, after)

/-- Fragmenting a datagram for somebody else sends it. -/
theorem HandsOver.sendOutcome
    {datagram : List IpPacket → Prop}
    {own : Prop}
    {whole : List IpPacket}
    {before : IpStack}
    {result : Err × IpStack}
    (handsOver : HandsOver whole before result)
    (foreign : ¬own)
    (complete : datagram whole) :
    SendOutcome datagram own before result := by
  obtain ⟨err, after⟩ := result
  obtain ⟨packets, handed, outcome⟩ := handsOver
  dsimp only at handed outcome
  rcases outcome with ⟨rfl, rfl⟩ | ⟨rfl, front, notAll, failed⟩
  · exact .sent foreign complete handed
  · exact .interrupted failed complete front notAll handed

/-- Only the output queues, the allocations and the counters of the state
before matter. -/
theorem SendOutcome.of_same
    {datagram : List IpPacket → Prop}
    {own : Prop}
    {before middle : IpStack}
    {result : Err × IpStack}
    (outcome : SendOutcome datagram own middle result)
    (handed : middle.handed = before.handed)
    (looped : middle.looped = before.looped)
    (allocs : ∀ outcome ∈ middle.allocs, outcome ∈ before.allocs) :
    SendOutcome datagram own before result := by
  cases outcome with
  | sent foreign complete after =>
      exact .sent foreign complete (handed ▸ after)
  | looped itself complete after queue =>
      exact .looped itself complete (handed ▸ after) (looped ▸ queue)
  | refused failed after =>
      exact .refused failed (handed ▸ after)
  | interrupted failed complete front notAll after =>
      exact .interrupted (allocs _ failed) complete front notAll
        (handed ▸ after)

/-- A packet to the interface itself is queued, if memory lasts. -/
theorem netifLoopOutput_outcome
    {datagram : List IpPacket → Prop}
    {own : Prop}
    {packet : IpPacket}
    {stack : IpStack}
    (itself : own)
    (complete : datagram [packet]) :
    SendOutcome datagram own stack (netifLoopOutput packet stack) := by
  unfold netifLoopOutput
  rcases stack.allocate_cases with
    ⟨allocs, outcome, _⟩ | ⟨allocs, outcome, _⟩
  · simp only [outcome, if_true]
    exact .looped itself complete rfl rfl
  · simp only [outcome, if_false, Bool.false_eq_true]
    exact .refused (by decide) rfl

/-- A single packet is handed over. -/
theorem netifOutput_outcome
    {datagram : List IpPacket → Prop}
    {own : Prop}
    {packet : IpPacket}
    {stack : IpStack}
    (live : stack.live = true)
    (foreign : ¬own)
    (complete : datagram [packet]) :
    SendOutcome datagram own stack (netifOutput packet stack) := by
  unfold netifOutput
  simp only [live, if_true]
  exact .sent foreign complete rfl

theorem addHeaderFails_eq_false
    {hlen : Nat}
    {payload : Bytes}
    (small : payload.length < 65536)
    (header : hlen < 65536)
    (fits : addHeaderFails hlen payload = false) :
    payload.length + hlen < 65536 := by
  simp only [addHeaderFails, decide_eq_false_iff_not, Nat.not_lt] at fits
  by_contra large
  rw [Nat.mod_eq_sub_mod (by omega), Nat.mod_eq_of_lt (by omega)] at fits
  omega

/-- A packet that is not cut is a single fragment. -/
theorem ip4Fragment_single
    (payload : Bytes)
    (src dest : BitVec 32)
    (ttl tos proto : BitVec 8)
    (id : BitVec 16) :
    ip4Fragment (ip4OutputHdr payload src dest ttl tos proto id)
        ⟨0, false, payload⟩ =
      .v4 (ip4OutputHdr payload src dest ttl tos proto id) payload := by
  simp [ip4Fragment, ip4OutputHdr]

theorem ip4OutputIfSrc_outcome
    {payload : Bytes}
    {src dest : BitVec 32}
    {ttl tos proto : BitVec 8}
    {stack : IpStack}
    (live : stack.live = true)
    (nonEmpty : payload ≠ [])
    (small : payload.length < 65536) :
    SendOutcome (IsDatagram proto (.v4 src) (.v4 dest) payload)
      (OwnAddress stack (.v4 dest)) stack
      (ip4OutputIfSrc payload src dest ttl tos proto stack) := by
  -- the counter of identifications is no part of the outcome
  suffices outcome :
      SendOutcome (IsDatagram proto (.v4 src) (.v4 dest) payload)
        (dest = loopIpaddr) { stack with ipId := stack.ipId + 1 }
        (ip4OutputIfSrc payload src dest ttl tos proto stack) from
    outcome.of_same rfl rfl fun _ => id
  unfold ip4OutputIfSrc
  cases fits : addHeaderFails ipHlen payload with
  | true =>
      simp only [if_true]
      exact .refused (by decide) rfl
  | false =>
      have bound : payload.length + ipHlen < 65536 :=
        addHeaderFails_eq_false small (by decide) fits
      simp only [if_false, Bool.false_eq_true]
      have whole :
          IsDatagram proto (.v4 src) (.v4 dest) payload
            [.v4 (ip4OutputHdr payload src dest ttl tos proto stack.ipId)
              payload] := by
        rw [← ip4Fragment_single]
        exact .v4 (ip4OutputHdr payload src dest ttl tos proto stack.ipId)
          (.last nonEmpty) bound rfl rfl rfl
      split
      · rename_i own
        exact netifLoopOutput_outcome own whole
      · rename_i foreign
        split
        · refine (ip4FragLoop_handsOver _ payload 0
            { stack with ipId := stack.ipId + 1 } live
            nonEmpty).sendOutcome foreign ?_
          refine .v4 _ (chop_cut (by decide) ?_ nonEmpty) bound rfl rfl rfl
          exact Nat.dvd_mul_left 8 ip4Nfb
        · exact netifOutput_outcome live foreign whole

theorem ip6OutputIfSrc_outcome
    {payload : Bytes}
    {src dest : BitVec 128}
    {hl tc nexth : BitVec 8}
    {stack : IpStack}
    (live : stack.live = true)
    (nonEmpty : payload ≠ [])
    (small : payload.length < 65536) :
    SendOutcome (IsDatagram nexth (.v6 src) (.v6 dest) payload)
      (OwnAddress stack (.v6 dest)) stack
      (ip6OutputIfSrc payload src dest hl tc nexth stack) := by
  unfold ip6OutputIfSrc
  cases fits : addHeaderFails ip6Hlen payload with
  | true =>
      simp only [if_true]
      exact .refused (by decide) rfl
  | false =>
      have bound : payload.length + ip6Hlen < 65536 :=
        addHeaderFails_eq_false small (by decide) fits
      simp only [if_false, Bool.false_eq_true]
      have room : payload.length + ip6FragHlen < 65536 := by
        simp only [ip6Hlen, ip6FragHlen] at bound ⊢
        omega
      split
      · rename_i own
        exact netifLoopOutput_outcome own (.v6 _ small rfl rfl rfl rfl)
      · rename_i foreign
        split
        · rename_i large
          have handsOver := ip6FragLoop_handsOver
            (ip6Nfb stack.mtu6.val) (stack.mtu6.ip6Nfb_pos large.1)
            (ip6OutputHdr payload src dest hl tc nexth) payload 0
            { stack with identification := stack.identification + 1 } live
            nonEmpty
          refine SendOutcome.of_same (handsOver.sendOutcome foreign ?_)
            rfl rfl fun _ => id
          refine .v6Fragments _ _
            (chop_cut (stack.mtu6.ip6Nfb_pos large.1) ?_ nonEmpty)
            room rfl rfl rfl
          exact Nat.dvd_mul_left 8 _
        · exact netifOutput_outcome live foreign (.v6 _ small rfl rfl rfl rfl)

/-! ## `send_to` -/

/-- The two addresses are of one family. -/
def SameFamily : IpAddr → IpAddr → Prop
  | .v4 _, .v4 _ | .v6 _, .v6 _ => True
  | _, _ => False

instance (src dest : IpAddr) : Decidable (SameFamily src dest) := by
  unfold SameFamily
  split <;> infer_instance

@[simp]
theorem toIpAddrT_v4
    (stale : BitVec 96)
    (addr : BitVec 32) :
    (toIpAddrT stale (.v4 addr)).ip4 = addr :=
  BitVec.extractLsb'_append_eq_left

/-- The IP layer is given the addresses the caller named. -/
theorem ipOutputIfSrc_outcome
    (payload : Bytes)
    (src dest : IpAddr)
    (stale : BitVec 96)
    (ttl tos proto : BitVec 8)
    (stack : IpStack)
    (live : stack.live = true)
    (family : SameFamily src dest)
    (nonEmpty : payload ≠ [])
    (small : payload.length < 65536) :
    SendOutcome (IsDatagram proto src dest payload) (OwnAddress stack dest)
      stack
      (ipOutputIfSrc payload (toIpAddrT stale src) (toIpAddrT stale dest)
        ttl tos proto stack) := by
  unfold ipOutputIfSrc
  match src, dest, family with
  | .v4 src, .v4 dest, _ =>
      have v4 : (toIpAddrT stale (.v4 dest)).isV6 = false := rfl
      simp only [toIpAddrT_v4, v4, if_false, Bool.false_eq_true]
      exact ip4OutputIfSrc_outcome live nonEmpty small
  | .v6 src, .v6 dest, _ =>
      exact ip6OutputIfSrc_outcome live nonEmpty small

/-- What is sent is a datagram that the header before the data makes of it. -/
theorem SendOutcome.mono
    {datagram other : List IpPacket → Prop}
    {own : Prop}
    {before : IpStack}
    {result : Err × IpStack}
    (outcome : SendOutcome datagram own before result)
    (implies : ∀ packets, datagram packets → other packets) :
    SendOutcome other own before result := by
  cases outcome with
  | sent foreign complete after =>
      exact .sent foreign (implies _ complete) after
  | looped itself complete after queue =>
      exact .looped itself (implies _ complete) after queue
  | refused failed after =>
      exact .refused failed after
  | interrupted failed complete front notAll after =>
      exact .interrupted failed (implies _ complete) front notAll after

/--
`send_to` with at most 65535 bytes between addresses of one family either
fails and hands nothing to the stack's output, except for the first fragments
when memory runs out in the middle of them; or succeeds and hands over exactly
the datagram, or, when it is for an address of the interface itself, puts it
into the loopback queue.
-/
theorem send_udp_exact
    (src dest : SocketAddr)
    (stale : BitVec 96)
    (data : Bytes)
    (stack : IpStack)
    (live : stack.live = true)
    (family : SameFamily src.ip dest.ip)
    (short : data.length < 65536) :
    SendOutcome (IsUdpDatagram src dest data) (OwnAddress stack dest.ip) stack
      (sendUdp src dest stale data stack) := by
  have narrowed : data.take (data.length % 65536) = data := by
    rw [Nat.mod_eq_of_lt short, List.take_length]
  unfold sendUdp udpSendtoIfSrcChksum
  rw [narrowed]
  split
  · exact .refused (by decide) rfl
  · rename_i noOverflow
    have fits : data.length + udpHlen < 65536 := by
      by_contra large
      simp only [udpHlen] at noOverflow large
      omega
    rcases stack.allocate_cases with
      ⟨allocs, outcome, fewer⟩ | ⟨allocs, outcome, _⟩
    · simp only [outcome, if_true]
      have sent := ipOutputIfSrc_outcome
        ((udpOutputHdr data (toIpAddrT stale dest.ip) dest.port
          (toIpAddrT stale src.ip) src.port).bytes ++ data)
        src.ip dest.ip stale ipDefaultTtl 0 ipProtoUdp
        { stack with allocs := allocs } live family
        (List.append_ne_nil_of_left_ne_nil (List.cons_ne_nil _ _) _)
        (by
          rw [List.length_append, UdpHdr.bytes_length]
          simp only [udpHlen] at fits
          omega)
      have udp := sent.mono fun _ packet =>
        (⟨_, rfl, rfl, rfl, fits, packet⟩ : IsUdpDatagram src dest data _)
      exact udp.of_same rfl rfl fewer
    · simp only [outcome, if_false, Bool.false_eq_true]
      exact .refused (by decide) rfl

theorem send_udp_exact_three_bytes :
    SendOutcome
      (IsUdpDatagram ⟨.v4 0x0a000001, 53⟩ ⟨.v4 0x0a000002, 4000⟩ [1, 2, 3])
      (OwnAddress {} (.v4 0x0a000002)) {}
      (sendUdp ⟨.v4 0x0a000001, 53⟩ ⟨.v4 0x0a000002, 4000⟩ 0 [1, 2, 3] {}) :=
  send_udp_exact ⟨.v4 0x0a000001, 53⟩ ⟨.v4 0x0a000002, 4000⟩ 0 [1, 2, 3] {}
    rfl trivial (by decide)

/-- The call fails and hands nothing over, or succeeds and hands over one
datagram. -/
def SentExactly
    (datagram : List IpPacket → Prop)
    (before : IpStack)
    (result : Err × IpStack) : Prop :=
  result.1 ≠ .ok ∧ result.2.handed = before.handed ∨
    result.1 = .ok ∧
      ∃ packets,
        datagram packets ∧ result.2.handed = before.handed ++ packets

/-- A datagram to 127.0.0.1 is reported as sent and handed to nobody. -/
theorem send_udp_to_loopback_not_sent :
    ¬SentExactly
      (IsUdpDatagram ⟨.v4 0x0a000001, 53⟩ ⟨.v4 0x7f000001, 4000⟩ [1]) {}
      (sendUdp ⟨.v4 0x0a000001, 53⟩ ⟨.v4 0x7f000001, 4000⟩ 0 [1] {}) := by
  rintro (⟨failed, _⟩ | ⟨_, packets, datagram, handed⟩)
  · exact failed (by decide)
  · have nothing :
        (sendUdp ⟨.v4 0x0a000001, 53⟩ ⟨.v4 0x7f000001, 4000⟩ 0 [1]
          {}).2.handed = [] := by
      decide
    rw [nothing] at handed
    exact datagram.ne_nil (List.append_eq_nil_iff.mp handed.symm).2

end NetstackLwip

import NetstackLwip.QueueRules
import NetstackLwip.UdpEgress

namespace NetstackLwip

/-!
# The size of the packets the stack hands out

IPv4 packets never exceed the interface's MTU: segments are cut to the
effective MSS and longer datagrams are fragmented. For IPv6 both bounds read
`mtu6`, which is 0 until a router advertisement sets it, and 0 means no bound:
a segment is then as long as the peer's MSS option allows, and a datagram goes
out whole.
-/

open FaultState FaultMachine DatagramCut

/-! ## The sender's queues -/

/-- The room the MTU leaves for TCP options and data. -/
def tcpRoom : IpAddr → Nat
  | .v4 _ => netifMtu - ipHlen - 20
  | .v6 _ => netifMtu - ip6Hlen - 20

/-- What holds of a queued segment: its data is as long as its length says, and
fits into a packet. -/
structure FitsRoom (pcb : TcpPcb) (seg : TcpSeg) : Prop where
  notTimeWait : pcb.state ≠ .timeWait
  whole : seg.p.totLen = seg.len
  fits : seg.len + seg.optLength ≤ tcpRoom pcb.remoteIp

/-- An accepted connection whose sender is open. -/
def TcpState.Sending (state : TcpState) : Prop :=
  state = .established ∨ state = .closeWait

theorem TcpState.not_sending_synRcvd : ¬TcpState.Sending .synRcvd := by
  rintro (same | same) <;> cases same

theorem Shuts.not_sending
    {before after : TcpState}
    (shuts : Shuts before after) :
    ¬after.Sending := by
  cases shuts <;> rintro (same | same) <;> cases same

/-- Every queued segment fits, and so will what `tcp_write` adds. -/
structure RoomKept (pcb : TcpPcb) : Prop where
  live : pcb.state ≠ .closed
  mss : pcb.mss ≤ tcpMss
  room : pcb.state.Sending → pcb.mss ≤ tcpRoom pcb.remoteIp
  queued : AllQueued (FitsRoom pcb) pcb

/-- What holds of a sent segment: with its headers it is no longer than the
MTU. -/
def PacketFits (packet : Packet) : Prop :=
  packet.options.length + packet.payload.length ≤ tcpRoom packet.destIp

theorem tcpRoom_pos
    (ip : IpAddr) :
    4 ≤ tcpRoom ip := by
  cases ip <;> simp [tcpRoom, netifMtu, ipHlen, ip6Hlen]

theorem FitsRoom.congr
    {before after : TcpPcb}
    {seg : TcpSeg}
    (fits : FitsRoom before seg)
    (remoteIp : after.remoteIp = before.remoteIp)
    (state : after.state = before.state) :
    FitsRoom after seg where
  notTimeWait := state ▸ fits.notTimeWait
  whole := fits.whole
  fits := remoteIp ▸ fits.fits

theorem RoomKept.congr
    {before after : TcpPcb}
    (kept : RoomKept before)
    (queued : AllQueued (FitsRoom before) after)
    (remoteIp : after.remoteIp = before.remoteIp)
    (mss : after.mss = before.mss)
    (state : after.state = before.state) :
    RoomKept after where
  live := state ▸ kept.live
  mss := mss ▸ kept.mss
  room sending := by
    rw [mss, remoteIp]
    exact kept.room (state ▸ sending)
  queued := queued.mono fun _ fits => fits.congr remoteIp state

theorem RoomKept.drained
    {pcb : TcpPcb}
    (kept : RoomKept pcb) :
    Drained pcb :=
  kept.queued.mono fun _ fits => fits.notTimeWait

/-- A segment with no more data and the same options fits too. -/
theorem FitsRoom.resized
    {pcb : TcpPcb}
    {seg other : TcpSeg}
    (fits : FitsRoom pcb seg)
    (whole : other.p.totLen = other.len)
    (len : other.len ≤ seg.len)
    (optsMss : other.optsMss = seg.optsMss) :
    FitsRoom pcb other where
  notTimeWait := fits.notTimeWait
  whole := whole
  fits := by
    have room := fits.fits
    unfold TcpSeg.optLength at room ⊢
    rw [optsMss]
    omega

theorem fitsRoom_closed
    (pcb : TcpPcb) :
    SendClosed (FitsRoom pcb) where
  ack _ fits := fits.resized fits.whole (Nat.le_refl _) rfl
  push _ fits := fits.resized fits.whole (Nat.le_refl _) rfl
  same seg other fits same := by
    have data := same.data
    have len := same.len
    simp only [List.append_nil, List.length_nil, Nat.add_zero] at data len
    refine fits.resized ?_ (Nat.le_of_eq len) same.optsMss
    have whole := fits.whole
    unfold Pbuf.totLen at whole ⊢
    rw [data, len, whole]

/-- Cutting a segment leaves pieces that fit. -/
theorem FitsRoom.pieces
    {pcb : TcpPcb}
    {useg : TcpSeg}
    {split : Nat}
    (fits : FitsRoom pcb useg)
    (shorter : split < useg.len) :
    FitsRoom pcb (splitHead useg split) ∧
      FitsRoom pcb (splitTail useg split) := by
  refine ⟨fits.resized (splitPbuf_totLen fits.whole shorter)
    (Nat.le_of_lt shorter) rfl, fits.resized ?_ ?_ rfl⟩
  · simp [splitTail, Pbuf.totLen, Pbuf.data]
  · simp only [splitTail, splitData, List.length_take]
    omega

/-- What is sent for a fitting segment fits. -/
theorem packetFits_of_bareOr
    {pcb : TcpPcb}
    {packet : Packet}
    (sent : BareOr pcb.remoteIp (FitsRoom pcb) packet) :
    PacketFits packet := by
  unfold PacketFits
  rcases sent with bare | ⟨seg, fits, carries, destIp⟩
  · have room := tcpRoom_pos packet.destIp
    rw [bare.1, bare.2.2.2.1, List.length_nil]
    omega
  · obtain ⟨_, payload, _, options, _⟩ := carries
    have whole := fits.whole
    have room := fits.fits
    unfold Pbuf.totLen at whole
    rw [destIp, options, payload, whole]
    omega

theorem packetFits_of_bare
    {packet : Packet}
    (bare : Bare packet) :
    PacketFits packet := by
  have room := tcpRoom_pos packet.destIp
  unfold PacketFits
  rw [bare.1, bare.2.2.2.1, List.length_nil]
  omega

/-! ## The rules -/

theorem roomRules :
    SendRules (fun _ => True) PacketFits RoomKept (MayFin fun _ => True)
      (fun _ _ => True) where
  faults _ _ _ _ _ := trivial
  bare _ bare := packetFits_of_bare bare
  live _ kept := kept.live
  waiting _ kept := kept.drained.empty
  view before after same kept :=
    kept.congr (kept.queued.of_queue same.queue) same.remoteIp
      (congrArg SndVars.mss same.snd) same.state
  finView _ _ same may := ⟨trivial, same.state ▸ may.2⟩
  fireView _ _ _ _ := trivial
  output pcb world kept := by
    refine wp_weaken
      (tcpOutput_spec (fitsRoom_closed pcb) (fun _ _ => trivial) false pcb
        kept.queued) ?_
    rintro ⟨err, after⟩ later ⟨frame, queued, _, emits⟩
    exact ⟨frame, kept.congr queued frame.remoteIp
      (congrArg SndVars.mss frame.snd) frame.state,
      fun may => ⟨trivial, frame.state ▸ may.2⟩,
      emits.mono fun _ => packetFits_of_bareOr⟩
  fin pcb next world kept mayFin shuts := by
    refine wp_weaken
      (tcpSendFin_queued (fun _ _ => trivial) pcb) ?_
    rintro ⟨err, after⟩ later ⟨frame, refused, queued, emits⟩
    refine ⟨frame, fun ok => ?_, fun bad => ?_,
      emits.mono fun _ => packetFits_of_bare⟩
    · have all : AllQueued (FitsRoom pcb) after :=
        (queued ok).all kept.queued
          ⟨shuts.from_open, rfl, Nat.zero_le _⟩
          fun last isLast _ _ => by
            have fits := kept.queued.1 last (List.mem_of_getLast? isLast)
            exact fits.resized fits.whole (Nat.le_refl _) rfl
      have remoteIp : after.remoteIp = pcb.remoteIp :=
        congrArg EndpointVars.remoteIp frame.endpoint
      refine ⟨shuts.ne_closed, frame.mss ▸ kept.mss,
        fun sending => absurd sending shuts.not_sending, ?_⟩
      · refine all.mono fun seg fits => ⟨shuts.ne_timeWait, fits.whole, ?_⟩
        have room := fits.fits
        rw [← remoteIp] at room
        exact room
    · exact kept.congr (kept.queued.of_queue (refused bad).queue)
        (congrArg EndpointVars.remoteIp frame.endpoint) frame.mss frame.state
  fires pcb world kept notTimeWait running _ := by
    refine wp_weaken
      (persistFires_spec PacketFits (fitsRoom_closed pcb)
        (fun _ _ => trivial) (fun _ _ _ => trivial) pcb
        (fun _ => packetFits_of_bareOr) kept.queued ?_
        (fun _ _ _ _ => .inr trivial)
        fun useg rest queue _ longer => ?_) ?_
    · intro seg rest other _
      have room := tcpRoom_pos other.remoteIp
      unfold PacketFits Packet.summed probePacket controlPacket
      dsimp only
      split
      · exact Nat.zero_le _
      · simp only [List.length_nil, List.length_take]
        omega
    · exact (kept.queued.1 useg (by rw [queue]; exact List.mem_cons_self)).pieces
        longer
    · rintro after later ⟨fired, queued, _, emits⟩
      exact ⟨fired.frame, kept.congr queued fired.frame.remoteIp fired.mss
        fired.state, emits⟩
  rto pcb kept stopped := by
    obtain ⟨snd, _, state⟩ := tcpRexmitRtoPrepare_same pcb
    refine kept.congr kept.queued.rto ?_ (congrArg SndVars.mss snd) state
    unfold tcpRexmitRtoPrepare
    split <;> rfl
  persist _ _ _ _ := ⟨.inr trivial, .inr trivial⟩

/-! ## Segments from the peer -/

/-- With the packet's options the MSS fits the MTU, if the peer uses IPv6. -/
def LeavesRoom (packet : Packet) (pcb : TcpPcb) : Prop :=
  ∀ addr, pcb.remoteIp = .v6 addr →
    (tcpParseopt packet.options pcb).mss ≤ tcpRoom pcb.remoteIp

/-- The MSS in force fits: for IPv4 by `TCP_MSS`, for IPv6 by the condition. -/
theorem LeavesRoom.mss
    {packet : Packet}
    {pcb : TcpPcb}
    (leaves : LeavesRoom packet pcb)
    (small : pcb.mss ≤ tcpMss) :
    (tcpParseopt packet.options pcb).mss ≤ tcpRoom pcb.remoteIp := by
  cases remoteIp : pcb.remoteIp with
  | v4 addr =>
      exact tcpParseoptFrom_le _ _ _ _ small
  | v6 addr =>
      exact remoteIp ▸ leaves addr remoteIp

theorem InputMoves.sending
    {before after : TcpState}
    {fin : Bool}
    (moves : InputMoves before fin after)
    (synchronized : before ≠ .synRcvd)
    (sending : after.Sending) :
    before.Sending := by
  cases moves with
  | stay =>
      exact sending
  | handshake =>
      exact absurd rfl synchronized
  | handshakeFin =>
      exact absurd rfl synchronized
  | fin =>
      exact .inl rfl
  | _ =>
      rcases sending with same | same <;> cases same

theorem roomInputs :
    InputRules RoomKept LeavesRoom where
  noted packet before after kept synRcvd noted state := by
    have mss : after.mss ≤ tcpMss := by
      rw [noted.snd]
      exact tcpParseoptFrom_le _ _ _ _ kept.mss
    have remoteIp : after.remoteIp = before.remoteIp :=
      congrArg EndpointVars.remoteIp noted.endpoint
    exact ⟨state ▸ kept.live, mss,
      fun sending =>
        absurd (state.trans synRcvd ▸ sending) TcpState.not_sending_synRcvd,
      (kept.queued.of_queue noted.queue).mono fun _ fits =>
        fits.congr remoteIp state⟩
  handshakeRexmit pcb kept synRcvd := by
    obtain ⟨frame, queues⟩ := tcpRexmit_frame pcb
    exact kept.congr (kept.queued.requeued queues)
      (congrArg EndpointVars.remoteIp frame.endpoint) frame.mss frame.state
  acked packet before middle after kept leaves noted handshake established
      judged sndWndMax queues := by
    have state : after.state = middle.state := judged.state
    have remoteIp : after.remoteIp = before.remoteIp :=
      congrArg EndpointVars.remoteIp (judged.endpoint.trans noted.endpoint)
    have mss : after.mss = (tcpParseopt packet.options before).mss := by
      have same : after.mss = middle.mss := judged.mss
      rw [same, noted.snd]
      rfl
    have wasOpen : middle.state ≠ .timeWait ∨ before.state = middle.state := by
      rcases noted.state with same | ⟨_, moved⟩
      · exact .inr same.symm
      · exact .inl (by rw [moved]; exact nofun)
    refine ⟨?_, ?_, fun _ => ?_, ?_⟩
    · intro closed
      rw [← state, closed] at established
      exact absurd established (by decide)
    · rw [mss]
      exact tcpParseoptFrom_le _ _ _ _ kept.mss
    · rw [mss, remoteIp]
      exact leaves.mss kept.mss
    · refine ((kept.queued.of_queue noted.queue).acked queues).mono
        fun seg fits => ⟨?_, fits.whole, remoteIp ▸ fits.fits⟩
      rw [state]
      rcases wasOpen with still | same
      · exact still
      · exact same ▸ fits.notTimeWait
  moved pcb fin state kept moves synchronized still := by
    refine ⟨moves.ne_closed kept.live, kept.mss, fun sending => ?_,
      kept.queued.mono fun _ fits => ⟨still, fits.whole, fits.fits⟩⟩
    exact kept.room (moves.sending synchronized sending)
  timeWait pcb kept := by
    refine ⟨nofun, ?_, ?_, kept.drained.enterTimeWait kept.live _⟩
    · rw [enterTimeWait_mss]
      exact kept.mss
    · rintro (same | same) <;> cases same

theorem TcpState.Writable.sending
    {state : TcpState}
    (writable : state.Writable)
    (synchronized : state ≠ .synRcvd) :
    state.Sending := by
  unfold TcpState.Writable at writable
  unfold TcpState.Sending
  simpa [synchronized] using writable

/-- `tcp_write` cuts its segments to the MSS in force. -/
theorem pollWritePcb_room
    (log : SendLog)
    (buf : Bytes)
    (stream : TcpStream)
    (pcb : TcpPcb)
    (world : World)
    (kept : RoomKept pcb)
    (synchronized : pcb.state ≠ .synRcvd) :
    wp (pollWritePcb buf stream pcb)
      (fun result later =>
        Alike stream result.2.1 ∧
          SendRules.Kept false PacketFits RoomKept pcb world result.2.2 later)
      (fun _ => True) world := by
  have bound := mssLocal_le_mss pcb
  refine pollWritePcb_kept (fun _ : SendLog => roomRules) log buf stream pcb
    world kept
    (fun _ _ => ⟨fun _ kept => kept, fun _ fits => fits⟩) fun toWrite _ _ => ?_
  refine wp_weaken
    (tcpWrite_spec (fitsRoom_closed pcb) (fun _ _ _ => trivial) pcb _ false
      (fun _ _ => .inr trivial) ?_) ?_
  · intro writable
    have room := kept.room (writable.sending synchronized)
    refine ⟨kept.queued.1, ?_, ?_⟩
    · intro last count seg isLast _ inside room _ extended
      have fits := kept.queued.1 last (List.mem_of_getLast? isLast)
      have whole := fits.whole
      have data := extended.data
      have len := extended.len
      refine ⟨writable.ne_timeWait, ?_, ?_⟩
      · unfold Pbuf.totLen at whole ⊢
        rw [data, len, List.length_append, whole]
      · unfold TcpSeg.optLength at *
        rw [len, extended.optsMss, List.length_take]
        omega
    · intro pos len free inside small
      refine ⟨writable.ne_timeWait, ?_, ?_⟩
      · simp [freshSeg, Pbuf.totLen, Pbuf.data]
      · simp only [freshSeg, TcpSeg.optLength, List.length_take,
          List.length_drop]
        simp
        omega
  · rintro ⟨err, after⟩ later ⟨emits, frame, refused, done⟩
    have remoteIp : after.remoteIp = pcb.remoteIp :=
      congrArg EndpointVars.remoteIp frame.endpoint
    refine ⟨emits, frame, fun bad =>
      kept.congr (kept.queued.of_queue (refused bad).queue) remoteIp frame.mss
        frame.state,
      fun ok => kept.congr ⟨(done ok).unsent, ?_⟩ remoteIp frame.mss
        frame.state⟩
    rw [frame.unacked]
    exact kept.queued.2

/-- `RoomKept` as an invariant of the connection. -/
def roomInvariant : ConnInvariant where
  allowed _ := True
  carried _ := PacketFits
  inv _ := RoomKept
  finOk _ := True
  fireOk _ _ := True
  ackOk := LeavesRoom
  writeOk _ := True
  rules _ := roomRules
  inputs _ := roomInputs
  dataFaults _ _ := trivial
  opening packet listener iss world := by
    refine ⟨nofun, ?_, fun sending => absurd sending
      TcpState.not_sending_synRcvd, ?_, List.forall_mem_nil _⟩
    · exact openingPcb_mss_le packet listener iss world
    · intro seg member
      rw [List.mem_singleton.mp member]
      exact ⟨nofun, rfl, tcpRoom_pos _⟩
  grows _ _ _ fits := fits
  write log buf stream pcb world kept streaming _ :=
    pollWritePcb_room log buf stream pcb world kept streaming.state

/-- The segments of IPv6 peers leave an MSS that fits. -/
def RoomAdmits (conn : Conn) (label : Label) : Prop :=
  ∀ pcb packet,
    conn.pcb = some pcb →
      pcb.state ≠ .timeWait →
        label.event = .segment packet →
          packet.Heeded pcb → LeavesRoom packet.toPacket pcb

theorem RoomAdmits.admits
    {conn : Conn}
    {label : Label}
    (admits : RoomAdmits conn label) :
    roomInvariant.Admits conn label := by
  intro pcb current
  cases event : label.event with
  | segment packet =>
      exact fun notTimeWait heeded =>
        admits pcb packet current notTimeWait event heeded
  | slowtmr =>
      exact fun _ _ => trivial
  | fasttmr =>
      exact fun _ _ => trivial
  | handleClosepend =>
      exact fun _ _ => trivial
  | pollShutdown =>
      exact fun _ => trivial
  | _ =>
      exact trivial

/-! ## The IP layer -/

/-- Without a path MTU for IPv6, the step hands out no packet above the
MTU. -/
structure WithinMtu (before after : IpStack) : Prop where
  mtu6 : after.mtu6 = before.mtu6
  handed :
    (∀ packet ∈ before.handed, packet.bytes.length ≤ netifMtu) →
      ∀ packet ∈ after.handed, packet.bytes.length ≤ netifMtu

theorem WithinMtu.refl
    (stack : IpStack) :
    WithinMtu stack stack :=
  ⟨rfl, id⟩

theorem WithinMtu.trans
    {before middle after : IpStack}
    (first : WithinMtu before middle)
    (second : WithinMtu middle after) :
    WithinMtu before after :=
  ⟨second.mtu6.trans first.mtu6, second.handed ∘ first.handed⟩

theorem allocate_within
    (stack : IpStack) :
    WithinMtu stack stack.allocate.2 := by
  unfold IpStack.allocate
  split
  · exact WithinMtu.refl stack
  · exact ⟨rfl, id⟩

theorem netifOutput_within
    {packet : IpPacket}
    {stack : IpStack}
    (small : packet.bytes.length ≤ netifMtu) :
    WithinMtu stack (netifOutput packet stack).2 := by
  unfold netifOutput
  split
  · refine ⟨rfl, fun old other member => ?_⟩
    rcases List.mem_append.mp member with member | member
    · exact old other member
    · rw [List.mem_singleton.mp member]
      exact small
  · exact WithinMtu.refl _

theorem netifLoopOutput_within
    (packet : IpPacket)
    (stack : IpStack) :
    WithinMtu stack (netifLoopOutput packet stack).2 := by
  have taken := allocate_within stack
  unfold netifLoopOutput
  dsimp only
  split
  · exact taken.trans ⟨rfl, id⟩
  · exact taken

theorem ip4FragLoop_within
    (hdr : Ip4Hdr)
    (left : Bytes)
    (ofo : Nat)
    (stack : IpStack) :
    WithinMtu stack (ip4FragLoop hdr left ofo stack).2 := by
  induction whole : left.length using Nat.strongRecOn
    generalizing left ofo stack with
  | ind length inductionHypothesis =>
      rw [ip4FragLoop]
      split
      · exact WithinMtu.refl _
      · rename_i filled
        have taken := allocate_within stack
        have blocks : ip4Nfb * 8 = 1480 := rfl
        dsimp only
        split
        · refine (taken.trans (netifOutput_within ?_)).trans
            (inductionHypothesis _ ?_ _ _ _ rfl)
          · rw [IpPacket.bytes_v4_length, List.length_take]
            simp only [netifMtu, blocks]
            omega
          · rw [List.length_drop, ← whole]
            omega
        · exact taken

theorem ip4OutputIfSrc_within
    (payload : Bytes)
    (src dest : BitVec 32)
    (ttl tos proto : BitVec 8)
    (stack : IpStack) :
    WithinMtu stack
      (ip4OutputIfSrc payload src dest ttl tos proto stack).2 := by
  have counted : WithinMtu stack { stack with ipId := stack.ipId + 1 } :=
    ⟨rfl, id⟩
  unfold ip4OutputIfSrc
  split
  · exact WithinMtu.refl _
  · dsimp only
    split
    · exact counted.trans (netifLoopOutput_within _ _)
    · split
      · exact counted.trans (ip4FragLoop_within _ _ _ _)
      · refine counted.trans (netifOutput_within ?_)
        rw [IpPacket.bytes_v4_length]
        simp only [ipHlen] at *
        omega

/-- An IPv6 datagram whose size the interface does not bound: it is not too
long for its header, and not for the interface itself. -/
def Oversized6 (stack : IpStack) (length : Nat) (dest : BitVec 128) : Prop :=
  netifMtu < length + ip6Hlen ∧ length + ip6Hlen < 65536 ∧
    ¬OwnAddress stack (.v6 dest)

theorem ip6OutputIfSrc_within
    (payload : Bytes)
    (src dest : BitVec 128)
    (hl tc nexth : BitVec 8)
    (stack : IpStack)
    (mtu6 : stack.mtu6.val = 0)
    (small : payload.length < 65536)
    (within : ¬Oversized6 stack payload.length dest) :
    WithinMtu stack
      (ip6OutputIfSrc payload src dest hl tc nexth stack).2 := by
  unfold ip6OutputIfSrc
  split
  · exact WithinMtu.refl _
  · rename_i fits
    have bound : payload.length + ip6Hlen < 65536 :=
      addHeaderFails_eq_false small (by decide) (Bool.eq_false_iff.mpr fits)
    dsimp only
    split
    · exact netifLoopOutput_within _ _
    · rename_i foreign
      split
      · rename_i large
        exact absurd mtu6 large.1
      · refine netifOutput_within ?_
        rw [IpPacket.bytes_v6_length]
        by_contra large
        refine within ⟨?_, bound, foreign⟩
        simp only [Option.isSome_none, Bool.false_eq_true, if_false,
          ip6Hlen] at large ⊢
        omega

theorem ipOutputIfSrc_within
    (payload : Bytes)
    (src : IpAddrT)
    (dest : IpAddr)
    (stale : BitVec 96)
    (ttl tos proto : BitVec 8)
    (stack : IpStack)
    (mtu6 : stack.mtu6.val = 0)
    (small : payload.length < 65536)
    (within :
      ∀ addr, dest = .v6 addr → ¬Oversized6 stack payload.length addr) :
    WithinMtu stack
      (ipOutputIfSrc payload src (toIpAddrT stale dest) ttl tos proto
        stack).2 := by
  cases dest with
  | v4 addr =>
      exact ip4OutputIfSrc_within _ _ _ _ _ _ _
  | v6 addr =>
      exact ip6OutputIfSrc_within _ _ _ _ _ _ _ mtu6 small (within addr rfl)

theorem ipOutputIf_within
    (payload : Bytes)
    (src : IpAddrT)
    (dest : IpAddr)
    (stale : BitVec 96)
    (ttl tos proto : BitVec 8)
    (stack : IpStack)
    (mtu6 : stack.mtu6.val = 0)
    (small : payload.length < 65536)
    (within :
      ∀ addr, dest = .v6 addr → ¬Oversized6 stack payload.length addr) :
    WithinMtu stack
      (IpStack.ipOutputIf payload src (toIpAddrT stale dest) ttl tos proto
        stack).2 := by
  cases dest with
  | v4 addr =>
      exact ip4OutputIfSrc_within _ _ _ _ _ _ _
  | v6 addr =>
      have from6 (src : BitVec 128) :=
        ip6OutputIfSrc_within payload src addr ttl tos proto stack mtu6 small
          (within addr rfl)
      have v6 : (toIpAddrT stale (.v6 addr)).isV6 = true := rfl
      unfold IpStack.ipOutputIf
      rw [if_pos v6]
      split
      · split
        · exact WithinMtu.refl stack
        · exact from6 _
      · exact from6 _

/-- A segment that fits its packet stays within the MTU. -/
theorem tcpIpOutput_within
    (packet : Packet)
    (stack : IpStack)
    (mtu6 : stack.mtu6.val = 0)
    (fits : PacketFits packet) :
    WithinMtu stack (tcpIpOutput packet stack) := by
  unfold PacketFits at fits
  have size := packet.segmentWith_length (lwipHtons packet.chksum)
  refine ipOutputIf_within _ _ _ _ _ _ _ _ mtu6 ?_ ?_
  · have room : tcpRoom packet.destIp ≤ 1460 := by
      cases packet.destIp <;> simp [tcpRoom, netifMtu, ipHlen, ip6Hlen]
    omega
  · rintro addr destIp ⟨large, _⟩
    rw [destIp] at fits
    simp only [tcpRoom, netifMtu, ip6Hlen] at fits large
    omega

theorem tcpIpOutputs_within
    (packets : List Packet)
    (stack : IpStack)
    (mtu6 : stack.mtu6.val = 0)
    (fits : ∀ packet ∈ packets, PacketFits packet) :
    WithinMtu stack
      (packets.foldl (fun stack packet => tcpIpOutput packet stack)
        stack) := by
  induction packets generalizing stack with
  | nil =>
      exact WithinMtu.refl stack
  | cons packet rest inductionHypothesis =>
      obtain ⟨first, others⟩ := List.forall_mem_cons.mp fits
      have sent := tcpIpOutput_within packet stack mtu6 first
      exact sent.trans (inductionHypothesis _ (sent.mtu6 ▸ mtu6) others)

/-- The length of a datagram `send_to` makes of `data`. -/
def udpLength (data : Bytes) : Nat :=
  data.length % 65536 + udpHlen

theorem sendUdp_within
    (src dest : SocketAddr)
    (stale : BitVec 96)
    (data : Bytes)
    (stack : IpStack)
    (mtu6 : stack.mtu6.val = 0)
    (within :
      ∀ addr, dest.ip = .v6 addr → ¬Oversized6 stack (udpLength data) addr) :
    WithinMtu stack (sendUdp src dest stale data stack).2 := by
  have narrowed :
      (data.take (data.length % 65536)).length = data.length % 65536 :=
    List.length_take_of_le (Nat.mod_le _ _)
  have below : data.length % 65536 < 65536 := Nat.mod_lt _ (by decide)
  unfold sendUdp udpSendtoIfSrcChksum
  rw [narrowed]
  split
  · exact WithinMtu.refl stack
  · rename_i noOverflow
    rcases stack.allocate_cases with
      ⟨allocs, outcome, _⟩ | ⟨allocs, outcome, _⟩
    · simp only [outcome, if_true]
      have taken : WithinMtu stack { stack with allocs := allocs } :=
        ⟨rfl, id⟩
      refine taken.trans (ipOutputIfSrc_within _ _ _ _ _ _ _ _ mtu6 ?_ ?_)
      · rw [List.length_append, UdpHdr.bytes_length, narrowed]
        simp only [udpHlen] at noOverflow
        omega
      · intro addr destIp oversized
        rw [List.length_append, UdpHdr.bytes_length, narrowed] at oversized
        obtain ⟨large, fits, foreign⟩ := oversized
        refine within addr destIp ⟨?_, ?_, foreign⟩ <;>
          · unfold udpLength udpHlen
            omega
    · simp only [outcome, if_false, Bool.false_eq_true]
      exact ⟨rfl, id⟩

/-! ## Runs of the stack -/

/-- The connections of the stack and its IP layer. -/
structure Emitter where
  conns : List Conn := []
  ip : IpStack := {}

/-- What makes the stack emit packets. -/
inductive EmitterEvent where
  /-- A SYN for which `tcp_listen_input` opens a connection. -/
  | syn (packet : InPacket) (listener : Nat) (iss : SeqNo) (world : World)
  /-- An event of the connection at a place in the list. -/
  | connection (index : Nat) (label : Label)
  /-- `tcp_rst` for a segment that no connection takes. -/
  | reset
      (seqno ackno : SeqNo)
      (localIp remoteIp : IpAddr)
      (localPort remotePort : BitVec 16)
  | sendTo (src dest : SocketAddr) (stale : BitVec 96) (data : Bytes)

/-- An event with the outcomes of the IP layer's allocations. -/
structure EmitterLabel where
  event : EmitterEvent
  allocs : List Bool := []

/-- Give the packets of TCP to the IP layer. -/
def IpStack.emit (stack : IpStack) (packets : List Packet) : IpStack :=
  packets.foldl (fun stack packet => tcpIpOutput packet stack) stack

/-- One event of the stack. -/
def Emitter.step (emitter : Emitter) (label : EmitterLabel) :
    Except Fault Emitter :=
  let ip := { emitter.ip with allocs := label.allocs }
  match label.event with
  | .syn packet listener iss world =>
      if packet.flags.syn && !packet.flags.ack && !packet.flags.rst then
        match
            tcpListenInputSyn packet.toPacket (.listener listener) listener iss
              { world with sent := [], stream := none } with
        | .ok (some pcb, later) =>
            .ok {
              conns := emitter.conns ++ [{
                world := later
                pcb := some pcb
                history := { irs := packet.seqno, iss } }]
              ip := ip.emit later.sent }
        | .ok (none, later) =>
            .ok { emitter with ip := ip.emit later.sent }
        | .error fault => .error fault
      else
        .ok { emitter with ip }
  | .connection index tcp =>
      match emitter.conns[index]? with
      | none => .ok { emitter with ip }
      | some conn =>
          match conn.step tcp with
          | .ok after =>
              .ok {
                conns := emitter.conns.set index after
                ip := ip.emit
                  (after.world.sent.drop conn.world.sent.length) }
          | .error fault => .error fault
  | .reset seqno ackno localIp remoteIp localPort remotePort =>
      match
          tcpRst seqno ackno localIp remoteIp localPort remotePort
            { tcpTicks := 0 } with
      | .ok ((), later) => .ok { emitter with ip := ip.emit later.sent }
      | .error fault => .error fault
  | .sendTo src dest stale data =>
      .ok { emitter with ip := (sendUdp src dest stale data ip).2 }

/-- The machine of the stack's output; no router advertisement has been
heard. -/
def emitterMachine : Machine Fault Emitter EmitterLabel where
  initial emitter :=
    emitter.conns = [] ∧ emitter.ip.mtu6.val = 0 ∧ emitter.ip.handed = []
  step := Emitter.step

/-- The steps after which no packet is too long: an IPv6 peer's segment leaves
an MSS that fits, and an IPv6 datagram is not above the MTU. -/
def MtuAdmits (emitter : Emitter) (label : EmitterLabel) : Prop :=
  match label.event with
  | .connection index tcp =>
      ∀ conn, emitter.conns[index]? = some conn → RoomAdmits conn tcp
  | .sendTo _ dest _ data =>
      ∀ addr, dest.ip = .v6 addr →
        ¬Oversized6 emitter.ip (udpLength data) addr
  | _ => True

/-- What holds in every state of such a run. -/
structure Emitter.Within (emitter : Emitter) : Prop where
  conns : ∀ conn ∈ emitter.conns, roomInvariant.Keeps conn
  mtu6 : emitter.ip.mtu6.val = 0
  handed : ∀ packet ∈ emitter.ip.handed, packet.bytes.length ≤ netifMtu

/-- Segments that fit leave the IP layer in order. -/
theorem Emitter.Within.emit
    {emitter : Emitter}
    (within : emitter.Within)
    (allocs : List Bool)
    (packets : List Packet)
    (fits : ∀ packet ∈ packets, PacketFits packet)
    (conns : List Conn)
    (keeps : ∀ conn ∈ conns, roomInvariant.Keeps conn) :
    Emitter.Within {
      conns := conns
      ip := IpStack.emit { emitter.ip with allocs := allocs } packets } := by
  have sent := tcpIpOutputs_within packets
    { emitter.ip with allocs := allocs } within.mtu6 fits
  exact ⟨keeps, (congrArg Subtype.val sent.mtu6).trans within.mtu6,
    sent.handed within.handed⟩

/-- One step of the stack hands out no packet that is too long. -/
theorem Emitter.step_within
    {emitter after : Emitter}
    {label : EmitterLabel}
    (within : emitter.Within)
    (admits : MtuAdmits emitter label)
    (taken : emitter.step label = .ok after) :
    after.Within := by
  unfold MtuAdmits at admits
  unfold Emitter.step at taken
  dsimp only at taken
  cases event : label.event with
  | syn packet listener iss world =>
      simp only [event] at taken
      split at taken
      · rename_i plain
        have kept :=
          (roomInvariant.rules ⟨iss, [], false⟩).tcpListenInputSyn_kept
            packet.toPacket listener iss { world with sent := [], stream := none }
            (roomInvariant.opening _ _ _ _)
        split at taken
        · rename_i pcb later opened
          cases taken
          have initial : Conn.Initial {
              world := later
              pcb := some pcb
              history := { irs := packet.seqno, iss } } := by
            simp only [Bool.and_eq_true, Bool.not_eq_true'] at plain
            exact ⟨packet, listener, iss, { world with sent := [], stream := none },
              plain.1.1, plain.1.2, plain.2, rfl, rfl, opened, rfl, rfl⟩
          have keeps : roomInvariant.Keeps _ :=
            ConnInvariant.keeps_initial initial
          refine within.emit _ _ keeps.sent _ fun conn member => ?_
          rcases List.mem_append.mp member with member | member
          · exact within.conns conn member
          · rw [List.mem_singleton.mp member]
            exact keeps
        · rename_i later opened
          cases taken
          have emits := wp_returned kept opened
          exact within.emit _ _
            (emits.all_sent (List.forall_mem_nil _)) _ within.conns
        · cases taken
      · cases taken
        exact ⟨within.conns, within.mtu6, within.handed⟩
  | connection index tcp =>
      simp only [event] at taken admits
      split at taken
      · cases taken
        exact ⟨within.conns, within.mtu6, within.handed⟩
      · rename_i conn found
        have keeps := within.conns conn (List.mem_of_getElem? found)
        have stepped :=
          ConnInvariant.step_keeps keeps (admits conn found).admits
        split at taken
        · rename_i next stepEq
          cases taken
          simp only [stepEq] at stepped
          refine within.emit _ _ (fun packet member =>
            stepped.sent packet (List.mem_of_mem_drop member)) _
            fun other member => ?_
          rcases List.mem_or_eq_of_mem_set member with member | same
          · exact within.conns other member
          · exact same ▸ stepped
        · cases taken
  | reset seqno ackno localIp remoteIp localPort remotePort =>
      simp only [event] at taken
      have sent : wp (tcpRst seqno ackno localIp remoteIp localPort remotePort)
          (fun _ after => Emits Bare { tcpTicks := 0 } after)
          (fun _ => True) { tcpTicks := 0 } :=
        tcpRst_spec _ _ _ _ _ _
      split at taken
      · rename_i later reset
        cases taken
        have emits := wp_returned sent reset
        refine within.emit _ _ (fun packet member => packetFits_of_bare ?_) _
          within.conns
        exact emits.all_sent (List.forall_mem_nil _) packet member
      · cases taken
  | sendTo src dest stale data =>
      simp only [event] at taken admits
      cases taken
      have sent := sendUdp_within src dest stale data
        { emitter.ip with allocs := label.allocs } within.mtu6 admits
      exact ⟨within.conns, (congrArg Subtype.val sent.mtu6).trans within.mtu6,
        sent.handed within.handed⟩

/-- In a run of such steps no packet that is handed out is longer than the
MTU. -/
theorem packets_within_mtu
    {emitter : Emitter}
    (reached : emitterMachine.ReachedUnder MtuAdmits emitter) :
    ∀ packet ∈ emitter.ip.handed, packet.bytes.length ≤ netifMtu := by
  have within : emitter.Within := by
    refine reached.invariant ?_ ?_
    · rintro start ⟨conns, mtu6, handed⟩
      refine ⟨?_, mtu6, ?_⟩
      · rw [conns]
        exact List.forall_mem_nil _
      · rw [handed]
        exact List.forall_mem_nil _
    · intro before label after within admits taken
      exact Emitter.step_within within admits taken
  exact within.handed

/-- A SYN is answered and a datagram is sent over IPv4. -/
theorem packets_within_mtu_syn_and_datagram :
    ∃ emitter, emitterMachine.ReachedUnder MtuAdmits emitter ∧
      emitter.ip.handed.length = 2 ∧
        ∀ packet ∈ emitter.ip.handed, packet.bytes.length ≤ netifMtu := by
  have ran : ((emitterMachine.runUnder
      (fun _ label =>
        match label.event with
        | .connection _ _ => false
        | .sendTo _ dest _ _ => dest.ip == .v4 0x0a000001
        | _ => true)
      {}
      [{ event := .syn (exampleSyn 1000 []) 0 6510 exampleWorld },
        { event := .sendTo ⟨.v4 0x08080808, 53⟩ ⟨.v4 0x0a000001, 4000⟩ 0
            [1, 2, 3] }]).any fun emitter =>
        emitter.ip.handed.length == 2) = true := by
    decide +kernel
  obtain ⟨emitter, taken, two⟩ := (Option.any_eq_true _ _).mp ran
  have reached : emitterMachine.ReachedUnder MtuAdmits emitter := by
    refine .of_run ?_ (.start ⟨rfl, rfl, rfl⟩) taken
    intro before label checked
    unfold MtuAdmits
    cases event : label.event with
    | connection index tcp =>
        simp [event] at checked
    | sendTo src dest stale data =>
        simp only [event, beq_iff_eq] at checked
        intro addr isV6
        rw [checked] at isV6
        cases isV6
    | _ =>
        trivial
  exact ⟨emitter, reached, by simpa using two, packets_within_mtu reached⟩

/-- A datagram of 1453 bytes over IPv6 leaves as one packet of 1501. -/
theorem packet_above_mtu_ipv6_datagram :
    ∃ emitter, emitterMachine.Reached emitter ∧
      ∃ packet ∈ emitter.ip.handed, netifMtu < packet.bytes.length := by
  have ran : ((emitterMachine.runUnder (fun _ _ => true) {}
      [{ event := .sendTo ⟨.v6 0x20010db8000000000000000000000001, 53⟩
            ⟨.v6 0x20010db8000000000000000000000002, 4000⟩ 0
            (List.replicate 1453 0) }]).any fun emitter =>
        emitter.ip.handed.any fun packet =>
          decide (netifMtu < packet.bytes.length)) = true := by
    decide +kernel
  obtain ⟨emitter, taken, large⟩ := (Option.any_eq_true _ _).mp ran
  obtain ⟨packet, member, size⟩ := List.any_eq_true.mp large
  exact ⟨emitter, .of_run (fun _ _ _ => trivial) (.start ⟨rfl, rfl, rfl⟩) taken,
    packet, member, of_decide_eq_true size⟩

end NetstackLwip

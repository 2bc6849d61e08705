import NetstackLwip.Connection
import NetstackLwip.SegmentChecksums

namespace NetstackLwip

/-!
# What output leaves alone

Sending never touches the receive variables, the callbacks or the stream.
One specification for each sending function says which parts of the pcb it
may change, what the emitted packets carry, and which assertions it reaches.
-/

open FaultState

/-! ## The world -/

/-- Nothing but memory outcomes, output outcomes, wake-ups and emitted packets
has changed, and every packet emitted in between meets `carried`. -/
structure Emits
    (carried : Packet → Prop)
    (before after : World) : Prop where
  quiet :
    after =
      { before with
        allocs := after.allocs
        outputs := after.outputs
        sent := after.sent
        woken := after.woken }
  sent :
    ∃ more : List Packet,
      after.sent = before.sent ++ more ∧ ∀ packet ∈ more, carried packet

namespace Emits

variable {carried : Packet → Prop} {before middle after : World}

theorem refl
    (world : World) :
    Emits carried world world where
  quiet := rfl
  sent := ⟨[], by simp, by simp⟩

theorem trans
    (first : Emits carried before middle)
    (second : Emits carried middle after) :
    Emits carried before after where
  quiet := by
    rw [second.quiet, first.quiet]
  sent := by
    obtain ⟨more, sent, all⟩ := first.sent
    obtain ⟨rest, sentRest, allRest⟩ := second.sent
    refine ⟨more ++ rest, by rw [sentRest, sent, List.append_assoc], ?_⟩
    intro packet member
    rcases List.mem_append.mp member with member | member
    · exact all packet member
    · exact allRest packet member

theorem mono
    {other : Packet → Prop}
    (emits : Emits carried before after)
    (weaker : ∀ packet, carried packet → other packet) :
    Emits other before after where
  quiet := emits.quiet
  sent := by
    obtain ⟨more, sent, all⟩ := emits.sent
    exact ⟨more, sent, fun packet member => weaker _ (all packet member)⟩

theorem stream
    (emits : Emits carried before after) :
    after.stream = before.stream := by
  rw [emits.quiet]

theorem pcbAddr
    (emits : Emits carried before after) :
    after.pcbAddr = before.pcbAddr := by
  rw [emits.quiet]

/-- What holds of all packets sent before and of the new ones holds of all. -/
theorem all_sent
    (emits : Emits carried before after)
    (all : ∀ packet ∈ before.sent, carried packet) :
    ∀ packet ∈ after.sent, carried packet := by
  obtain ⟨more, sent, new⟩ := emits.sent
  intro packet member
  rw [sent] at member
  rcases List.mem_append.mp member with member | member
  · exact all packet member
  · exact new packet member

end Emits

section Primitives

variable {allowed : Fault → Prop} {world : World}

theorem wp_allocate
    {post : Bool → World → Prop}
    (every : ∀ outcome rest, post outcome { world with allocs := rest }) :
    wp allocate post allowed world := by
  unfold allocate
  rw [wp_modifyGet]
  split
  · exact every true world.allocs
  · exact every _ _

theorem wp_ipOutputIf
    {post : Err → World → Prop}
    {packet : Packet}
    (sent :
      ∀ rest,
        post .ok
          { world with outputs := rest, sent := world.sent ++ [packet] })
    (failed :
      ∀ err rest, err ≠ .ok → post err { world with outputs := rest }) :
    wp (ipOutputIf packet) post allowed world := by
  unfold ipOutputIf
  rw [wp_modifyGet]
  split
  · exact sent world.outputs
  · exact sent _
  · exact failed _ _ (by assumption)

theorem emits_allocs
    {carried : Packet → Prop}
    (rest : List Bool) :
    Emits carried world { world with allocs := rest } where
  quiet := rfl
  sent := ⟨[], by simp, by simp⟩

/-- `ipOutputIf` emits its packet or nothing. -/
theorem ipOutputIf_emits
    {carried : Packet → Prop}
    {packet : Packet}
    (holds : carried packet) :
    wp (ipOutputIf packet)
      (fun _ after => Emits carried world after) allowed world := by
  apply wp_ipOutputIf
  · intro rest
    exact ⟨rfl, [packet], rfl, by simpa using holds⟩
  · intro _ rest _
    exact ⟨rfl, [], by simp, by simp⟩

theorem allocate_emits
    (carried : Packet → Prop) :
    wp allocate (fun _ after => Emits carried world after) allowed world :=
  wp_allocate fun _ rest => emits_allocs rest

end Primitives

/-! ## The pcb -/

/-- The flags that record decisions of the application, and neither output nor
an acknowledgement changes. -/
def PcbFlags.lasting (flags : PcbFlags) : PcbFlags where
  closepend := flags.closepend
  rxclosed := flags.rxclosed
  fin := flags.fin
  nodelay := flags.nodelay

namespace PcbFlags

variable {before after : PcbFlags}

theorem closepend_of_lasting
    (same : after.lasting = before.lasting) :
    after.closepend = before.closepend := by
  have equal := congrArg PcbFlags.closepend same
  exact equal

theorem rxclosed_of_lasting
    (same : after.lasting = before.lasting) :
    after.rxclosed = before.rxclosed := by
  have equal := congrArg PcbFlags.rxclosed same
  exact equal

theorem fin_of_lasting
    (same : after.lasting = before.lasting) :
    after.fin = before.fin := by
  have equal := congrArg PcbFlags.fin same
  exact equal

end PcbFlags

/-- What is left alone by everything that only sends. -/
structure OutputFrame (before after : TcpPcb) : Prop where
  app : after.toAppVars = before.toAppVars
  rcv : after.toRcvVars = before.toRcvVars
  snd : after.toSndVars = before.toSndVars
  state : after.state = before.state
  prio : after.prio = before.prio
  polltmr : after.polltmr = before.polltmr
  tmr : after.tmr = before.tmr
  remoteIp : after.remoteIp = before.remoteIp
  remotePort : after.remotePort = before.remotePort
  localPort : after.localPort = before.localPort
  localIp : before.localIp.isAny = false → after.localIp = before.localIp
  lasting : after.flags.lasting = before.flags.lasting

/-- What is left alone by sending a bare acknowledgement. -/
structure AckFrame (before after : TcpPcb) : Prop
    extends OutputFrame before after where
  endpoint : after.toEndpointVars = before.toEndpointVars
  queue : after.toQueueVars = before.toQueueVars
  cong : after.toCongVars = before.toCongVars
  persist : after.toPersistVars = before.toPersistVars

namespace OutputFrame

variable {before middle after : TcpPcb}

theorem refl (pcb : TcpPcb) : OutputFrame pcb pcb := by
  constructor <;> intros <;> rfl

theorem trans
    (first : OutputFrame before middle)
    (second : OutputFrame middle after) :
    OutputFrame before after where
  app := second.app.trans first.app
  rcv := second.rcv.trans first.rcv
  snd := second.snd.trans first.snd
  state := second.state.trans first.state
  prio := second.prio.trans first.prio
  polltmr := second.polltmr.trans first.polltmr
  tmr := second.tmr.trans first.tmr
  remoteIp := second.remoteIp.trans first.remoteIp
  remotePort := second.remotePort.trans first.remotePort
  localPort := second.localPort.trans first.localPort
  localIp fixed := by
    have kept := first.localIp fixed
    exact (second.localIp (kept ▸ fixed)).trans kept
  lasting := second.lasting.trans first.lasting

theorem closepend
    (frame : OutputFrame before after) :
    after.flags.closepend = before.flags.closepend :=
  PcbFlags.closepend_of_lasting frame.lasting

theorem rxclosed
    (frame : OutputFrame before after) :
    after.flags.rxclosed = before.flags.rxclosed :=
  PcbFlags.rxclosed_of_lasting frame.lasting

theorem fin
    (frame : OutputFrame before after) :
    after.flags.fin = before.flags.fin :=
  PcbFlags.fin_of_lasting frame.lasting

end OutputFrame

namespace AckFrame

variable {before middle after : TcpPcb}

theorem refl (pcb : TcpPcb) : AckFrame pcb pcb where
  toOutputFrame := OutputFrame.refl pcb
  endpoint := rfl
  queue := rfl
  cong := rfl
  persist := rfl

theorem trans
    (first : AckFrame before middle)
    (second : AckFrame middle after) :
    AckFrame before after where
  toOutputFrame := first.toOutputFrame.trans second.toOutputFrame
  endpoint := second.endpoint.trans first.endpoint
  queue := second.queue.trans first.queue
  cong := second.cong.trans first.cong
  persist := second.persist.trans first.persist

end AckFrame

/-- Close a frame goal whose two pcbs differ only in fields outside it. -/
theorem AckFrame.of_flags
    (pcb : TcpPcb)
    (delay now : Bool)
    (edge : SeqNo) :
    AckFrame pcb
      { pcb with
        rcvAnnRightEdge := edge
        flags.ackDelay := delay
        flags.ackNow := now } where
  toOutputFrame := by
    constructor <;> intros <;> rfl
  endpoint := rfl
  queue := rfl
  cong := rfl
  persist := rfl

/-! ## Packets -/

/-- The packet carries nothing of the send stream. -/
def Bare (packet : Packet) : Prop :=
  packet.payload = [] ∧ packet.flags.fin = false ∧
    packet.flags.syn = false ∧ packet.options = [] ∧
      packet.chksum = packet.controlChksum

/-- The packet is the emission of a queued segment. -/
def Carries (seg : TcpSeg) (packet : Packet) : Prop :=
  packet.seqno = seg.seqno ∧
    packet.payload = seg.p.data ∧
    packet.flags = seg.hdr ∧
    packet.options.length = seg.optLength ∧
    packet.chksum = packet.segmentChksum seg.chksum

/-- A checksum does not depend on what its field holds. -/
theorem Packet.controlChksum_with (packet : Packet) (chksum : BitVec 16) :
    ({ packet with chksum } : Packet).controlChksum =
      packet.controlChksum := by
  unfold controlChksum
  rfl

theorem Packet.segmentChksum_with
    (packet : Packet)
    (chksum : BitVec 16)
    (seg : InetChksum.SegChksum) :
    ({ packet with chksum } : Packet).segmentChksum seg =
      packet.segmentChksum seg := by
  unfold segmentChksum
  rfl

theorem Bare.summed
    {packet : Packet}
    (payload : packet.payload = [])
    (fin : packet.flags.fin = false)
    (syn : packet.flags.syn = false)
    (options : packet.options = []) :
    Bare packet.summed :=
  ⟨payload, fin, syn, options, (packet.controlChksum_with _).symm⟩

theorem Carries.summed
    {seg : TcpSeg}
    {packet : Packet}
    (seqno : packet.seqno = seg.seqno)
    (payload : packet.payload = seg.p.data)
    (flags : packet.flags = seg.hdr)
    (options : packet.options.length = seg.optLength) :
    Carries seg
      { packet with chksum := packet.segmentChksum seg.chksum } :=
  ⟨seqno, payload, flags, options, (packet.segmentChksum_with _ _).symm⟩

/-- Bare, or the emission to `remoteIp` of a segment with `holds`. -/
def BareOr
    (remoteIp : IpAddr)
    (holds : TcpSeg → Prop)
    (packet : Packet) : Prop :=
  Bare packet ∨
    ∃ seg, holds seg ∧ Carries seg packet ∧ packet.destIp = remoteIp

/-- `seg` is `last` with `more` appended to its data. -/
structure Extends (last : TcpSeg) (more : Bytes) (seg : TcpSeg) : Prop where
  data : seg.p.data = last.p.data ++ more
  len : seg.len = last.len + more.length
  seqno : seg.seqno = last.seqno
  optsMss : seg.optsMss = last.optsMss
  hdr : seg.hdr = last.hdr
  chksum :
    Queued last.p.data last.chksum → Queued seg.p.data seg.chksum

/-- A property of segments that sending keeps: it looks neither at the ACK and
PSH flags, nor at how the data is cut into buffers, nor at `oversize_left`. -/
structure SendClosed (holds : TcpSeg → Prop) : Prop where
  ack : ∀ seg, holds seg → holds { seg with hdr.ack := true }
  push : ∀ seg, holds seg → holds { seg with hdr.psh := true }
  same : ∀ seg other, holds seg → Extends seg [] other → holds other

/-- Every queued segment has `holds`. -/
def AllQueued (holds : TcpSeg → Prop) (pcb : TcpPcb) : Prop :=
  (∀ seg ∈ pcb.unsent, holds seg) ∧ ∀ seg ∈ pcb.unacked, holds seg

theorem AllQueued.of_queue
    {holds : TcpSeg → Prop}
    {before after : TcpPcb}
    (all : AllQueued holds before)
    (queue : after.toQueueVars = before.toQueueVars) :
    AllQueued holds after := by
  unfold AllQueued
  rw [queue]
  exact all

/-! ## Control segments -/

section Specifications

variable {allowed : Fault → Prop} {world : World}

theorem tcpSendEmptyAck_spec
    (pcb : TcpPcb) :
    wp (tcpSendEmptyAck pcb)
      (fun result after =>
        AckFrame pcb result.2 ∧ Emits Bare world after)
      allowed world := by
  unfold tcpSendEmptyAck
  simp only [wp_bind]
  apply wp_allocate
  intro outcome rest
  simp only [wp_ite, wp_bind, wp_pure]
  refine ⟨fun _ => ?_, fun _ => ⟨?_, emits_allocs rest⟩⟩
  · apply wp_ipOutputIf
    · intro outputs
      refine ⟨AckFrame.of_flags pcb _ _ _, ⟨rfl, _, rfl, ?_⟩⟩
      rw [List.forall_mem_singleton]
      exact Bare.summed rfl rfl rfl rfl
    · intro err outputs bad
      split
      · contradiction
      · exact ⟨AckFrame.of_flags pcb _ _ _, ⟨rfl, [], by simp, by simp⟩⟩
  · exact AckFrame.of_flags pcb true true pcb.rcvAnnRightEdge

theorem tcpRst_spec
    (seqno ackno : SeqNo)
    (localIp remoteIp : IpAddr)
    (localPort remotePort : BitVec 16) :
    wp (tcpRst seqno ackno localIp remoteIp localPort remotePort)
      (fun _ after => Emits Bare world after)
      allowed world := by
  unfold tcpRst
  simp only [wp_bind]
  apply wp_allocate
  intro outcome rest
  simp only [wp_ite, wp_bind, wp_pure]
  refine ⟨fun _ => ?_, fun _ => emits_allocs rest⟩
  refine wp_weaken (ipOutputIf_emits ?_) fun _ after emits =>
    (emits_allocs rest).trans emits
  exact Bare.summed rfl rfl rfl rfl

/-! ## `tcp_output` -/

theorem mem_insertSorted
    {seg other : TcpSeg}
    {queue : List TcpSeg} :
    other ∈ insertSorted seg queue ↔ other = seg ∨ other ∈ queue := by
  induction queue with
  | nil =>
      simp [insertSorted]
  | cons cur rest inductionHypothesis =>
      simp only [insertSorted]
      split
      · rw [List.mem_cons, inductionHypothesis, List.mem_cons]
        exact or_left_comm
      · exact List.mem_cons

theorem mem_queueUnacked
    {seg other : TcpSeg}
    {unacked : List TcpSeg}
    (member : other ∈ queueUnacked unacked seg) :
    other = seg ∨ other ∈ unacked := by
  unfold queueUnacked at member
  split at member
  · split at member
    · exact .inl (List.mem_singleton.mp member)
    · split at member
      · exact mem_insertSorted.mp member
      · simpa [or_comm] using member
  · exact .inr member

theorem tcpOutputSegment_spec
    (seg : TcpSeg)
    (pcb : TcpPcb) :
    wp (tcpOutputSegment seg pcb)
      (fun result after =>
        OutputFrame pcb result.2 ∧
          result.2.toQueueVars = pcb.toQueueVars ∧
          result.2.toPersistVars = pcb.toPersistVars ∧
          result.2.flags = pcb.flags ∧
          Emits
            (fun packet => Carries seg packet ∧ packet.destIp = pcb.remoteIp)
            world after)
      allowed world := by
  unfold tcpOutputSegment
  simp only [wp_bind, wp_get, wp_pure]
  have options : (segmentPacket world.mtu6 pcb seg).options.length =
      seg.optLength := by
    unfold segmentPacket TcpSeg.optLength
    dsimp only
    split <;> rfl
  have emitted :
      wp
        (ipOutputIf
          { segmentPacket world.mtu6 pcb seg with
            chksum :=
              (segmentPacket world.mtu6 pcb seg).segmentChksum seg.chksum })
        (fun _ after =>
          Emits
            (fun packet => Carries seg packet ∧ packet.destIp = pcb.remoteIp)
            world after)
        allowed world :=
    ipOutputIf_emits ⟨Carries.summed rfl rfl rfl options, rfl⟩
  refine wp_weaken emitted fun err after emits => ?_
  exact ⟨by constructor <;> intros <;> rfl, rfl, rfl, rfl, emits⟩

/-- A property that output keeps holds of the segment as `tcp_output` emits
it and of the segment as it is queued afterwards. -/
theorem SendClosed.emitted
    {holds : TcpSeg → Prop}
    (closed : SendClosed holds)
    {seg : TcpSeg}
    (before : holds seg) :
    holds { seg with hdr.ack := true } ∧
      holds { seg with hdr.ack := true, oversizeLeft := 0 } :=
  ⟨closed.ack seg before,
    closed.same _ _ (closed.ack seg before)
      ⟨by simp, by simp, rfl, rfl, rfl, id⟩⟩

theorem segmentSent_spec
    {holds : TcpSeg → Prop}
    (pcb : TcpPcb)
    (seg : TcpSeg)
    (rest : List TcpSeg)
    (queued : holds { seg with oversizeLeft := 0 })
    (unacked : ∀ other ∈ pcb.unacked, holds other) :
    OutputFrame pcb (segmentSent pcb seg rest) ∧
      (segmentSent pcb seg rest).toPersistVars = pcb.toPersistVars ∧
      ∀ other ∈ (segmentSent pcb seg rest).unacked, holds other := by
  refine ⟨by constructor <;> intros <;> rfl, rfl, ?_⟩
  intro other member
  rcases mem_queueUnacked member with rfl | member
  · exact queued
  · exact unacked other member

theorem tcpOutputLoop_spec
    {holds : TcpSeg → Prop}
    (closed : SendClosed holds)
    (faults : ∀ fault : Fault, fault.origin = .output → allowed fault)
    (wnd : Nat)
    (queue : List TcpSeg)
    (pcb : TcpPcb)
    (unsent : ∀ seg ∈ queue, holds seg)
    (unacked : ∀ seg ∈ pcb.unacked, holds seg) :
    wp (tcpOutputLoop wnd queue pcb)
      (fun result after =>
        OutputFrame pcb result.2 ∧
          result.2.toPersistVars = pcb.toPersistVars ∧
          AllQueued holds result.2 ∧
          Emits (BareOr pcb.remoteIp holds) world after)
      allowed world := by
  induction queue generalizing pcb world with
  | nil =>
      unfold tcpOutputLoop
      rw [wp_pure]
      exact ⟨by constructor <;> intros <;> rfl, rfl, ⟨List.forall_mem_nil _, unacked⟩, Emits.refl _⟩
  | cons seg rest inductionHypothesis =>
      have stopped (flags : PcbFlags)
          (lasting : flags.lasting = pcb.flags.lasting) :
          OutputFrame pcb
            { pcb with unsent := seg :: rest, flags := flags } := by
        constructor <;> intros <;> first | rfl | exact lasting
      unfold tcpOutputLoop
      rw [wp_ite]
      refine ⟨fun _ => ?_, fun _ => ?_⟩
      · rw [wp_bind, wp_ensure]
        refine ⟨fun _ => ?_, fun _ => faults _ rfl⟩
        rw [wp_ite]
        refine ⟨fun _ => ?_, fun _ => ?_⟩
        · exact ⟨stopped _ rfl, rfl, ⟨unsent, unacked⟩, Emits.refl _⟩
        obtain ⟨emitted, queued⟩ := closed.emitted (unsent seg (by simp))
        rw [wp_bind]
        refine wp_weaken (tcpOutputSegment_spec _ pcb) ?_
        rintro ⟨err, after⟩ middle ⟨frame, queues, persist, flags, emits⟩
        have carried : Emits (BareOr pcb.remoteIp holds) world middle :=
          emits.mono fun packet carries => .inr ⟨_, emitted, carries⟩
        have keepsUnacked : ∀ other ∈ after.unacked, holds other := by
          rw [queues]
          exact unacked
        rw [wp_ite]
        refine ⟨fun _ => ⟨?_, persist, ⟨?_, keepsUnacked⟩, carried⟩,
          fun _ => ?_⟩
        · refine frame.trans ?_
          constructor <;> intros <;> rfl
        · intro other member
          rcases List.mem_cons.mp member with rfl | member
          · exact emitted
          · exact unsent other (List.mem_cons_of_mem _ member)
        · obtain ⟨sentFrame, sentPersist, sentUnacked⟩ :=
            segmentSent_spec after { seg with hdr.ack := true } rest queued
              keepsUnacked
          refine wp_weaken
            (inductionHypothesis _
              (fun other member => unsent other (List.mem_cons_of_mem _ member))
              sentUnacked) ?_
          rintro ⟨err, final⟩ last ⟨framed, persisted, all, emitted⟩
          rw [(frame.trans sentFrame).remoteIp] at emitted
          exact ⟨(frame.trans sentFrame).trans framed,
            (persisted.trans sentPersist).trans persist, all,
            carried.trans emitted⟩
      · exact ⟨stopped _ rfl, rfl, ⟨unsent, unacked⟩, Emits.refl _⟩

/-- While the persist timer runs, nothing is in flight and something waits. -/
def PersistIdle (pcb : TcpPcb) : Prop :=
  0 < pcb.persistBackoff → pcb.unacked = [] ∧ pcb.unsent ≠ []

theorem bindLocalIp_frame
    (pcb : TcpPcb) :
    OutputFrame pcb (bindLocalIp pcb) := by
  constructor
  case localIp =>
    intro fixed
    simp [bindLocalIp, fixed]
  all_goals rfl

theorem tcpOutput_spec
    {holds : TcpSeg → Prop}
    (closed : SendClosed holds)
    (faults : ∀ fault : Fault, fault.origin = .output → allowed fault)
    (inInput : Bool)
    (pcb : TcpPcb)
    (all : AllQueued holds pcb) :
    wp (tcpOutput inInput pcb)
      (fun result after =>
        OutputFrame pcb result.2 ∧
          AllQueued holds result.2 ∧
          (PersistIdle pcb → PersistIdle result.2) ∧
          Emits (BareOr pcb.remoteIp holds) world after)
      allowed world := by
  have ackOrDone (middle : TcpPcb)
      (frame : OutputFrame pcb middle)
      (queue : middle.toQueueVars = pcb.toQueueVars)
      (idle : PersistIdle pcb → PersistIdle middle) :
      wp
        (if middle.flags.ackNow then
          tcpSendEmptyAck middle
        else
          pure (outputDone middle))
        (fun result after =>
          OutputFrame pcb result.2 ∧
            AllQueued holds result.2 ∧
            (PersistIdle pcb → PersistIdle result.2) ∧
            Emits (BareOr pcb.remoteIp holds) world after)
        allowed world := by
    rw [wp_ite]
    refine ⟨fun _ => ?_, fun _ => ?_⟩
    · refine wp_weaken (tcpSendEmptyAck_spec middle) ?_
      rintro ⟨err, after⟩ final ⟨acked, emits⟩
      refine ⟨frame.trans acked.toOutputFrame,
        all.of_queue (acked.queue.trans queue), ?_,
        emits.mono fun packet bare => .inl bare⟩
      intro before
      unfold PersistIdle
      rw [acked.queue, acked.persist]
      exact idle before
    · rw [wp_pure]
      refine ⟨frame.trans ?_, all.of_queue queue, idle, Emits.refl _⟩
      constructor <;> intros <;> rfl
  unfold tcpOutput
  rw [wp_ite]
  refine ⟨fun _ => ?_, fun _ => ?_⟩
  · exact ⟨OutputFrame.refl pcb, all, id, Emits.refl _⟩
  · cases unsent : pcb.unsent with
    | nil =>
        exact ackOrDone pcb (OutputFrame.refl pcb) rfl id
    | cons seg rest =>
        rw [wp_ite]
        refine ⟨fun _ => ?_, fun _ => ?_⟩
        · refine ackOrDone _ ?_ ?_ ?_
          · refine (bindLocalIp_frame pcb).trans ?_
            unfold startPersist
            split <;> constructor <;> intros <;> rfl
          · unfold startPersist
            split <;> rfl
          · intro before
            unfold startPersist
            split
            · rename_i idle
              intro _
              have waiting : pcb.unsent ≠ [] := by
                simp [unsent]
              exact ⟨by simpa using idle.2.1, waiting⟩
            · exact before
        · refine wp_weaken
            (tcpOutputLoop_spec closed faults _ (seg :: rest) _
              (unsent ▸ all.1) all.2) ?_
          rintro ⟨err, after⟩ final ⟨frame, persist, kept, emits⟩
          refine ⟨((bindLocalIp_frame pcb).trans ?_).trans frame, kept, ?_,
            emits⟩
          · constructor <;> intros <;> rfl
          · intro _ running
            rw [persist] at running
            exact absurd running (Nat.lt_irrefl 0)

end Specifications

end NetstackLwip

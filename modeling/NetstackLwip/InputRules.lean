import NetstackLwip.InputFrame

namespace NetstackLwip

/-!
# A segment on its way through `tcp_input`

`InputRules` adds to `SendRules` what an invariant of the sender must bear from
an arriving segment. The theorems follow the segment through `tcp_process` and
`tcp_input`, and say besides what becomes of the receive variables, given any
description of what the data part of `tcp_receive` does to them.
-/

open FaultState

/-! ## How the state moves -/

/-- The moves of the state that an arriving segment causes; the flag says
whether the peer's FIN was taken. -/
inductive InputMoves : TcpState → Bool → TcpState → Prop where
  | stay (state : TcpState) : InputMoves state false state
  | handshake : InputMoves .synRcvd false .established
  | handshakeFin : InputMoves .synRcvd true .closeWait
  | fin : InputMoves .established true .closeWait
  | finAcked : InputMoves .finWait1 true .timeWait
  | finBoth : InputMoves .finWait1 true .closing
  | acked : InputMoves .finWait1 false .finWait2
  | finLast : InputMoves .finWait2 true .timeWait
  | ackedLast : InputMoves .closing false .timeWait

theorem InputMoves.ne_closed
    {before after : TcpState}
    {fin : Bool}
    (moves : InputMoves before fin after)
    (live : before ≠ .closed) :
    after ≠ .closed := by
  cases moves <;> first | exact live | simp

theorem InputMoves.from_open
    {before after : TcpState}
    {fin : Bool}
    (moves : InputMoves before fin after)
    (notTimeWait : after ≠ .timeWait) :
    before ≠ .timeWait := by
  cases moves <;> first | exact notTimeWait | simp

theorem InputMoves.synRcvd
    {before after : TcpState}
    {fin : Bool}
    (moves : InputMoves before fin after)
    (synchronized : before ≠ .synRcvd) :
    after ≠ .synRcvd := by
  cases moves <;> first | exact synchronized | simp

/-- The pcb after `noteActivity`, and after the handshake if the segment
completes it. -/
structure Noted (packet : Packet) (before after : TcpPcb) : Prop where
  endpoint : after.toEndpointVars = before.toEndpointVars
  rcv : after.toRcvVars = before.toRcvVars
  snd :
    after.toSndVars =
      { before.toSndVars with
        mss :=
          tcpParseoptFrom packet.options packet.options.length 0 before.mss }
  queue : after.toQueueVars = before.toQueueVars
  persist : after.persistBackoff = before.persistBackoff
  state :
    after.state = before.state ∨
      before.state = .synRcvd ∧ after.state = .established
  prio : after.prio = before.prio
  closepend : after.flags.closepend = before.flags.closepend
  rxclosed : after.flags.rxclosed = before.flags.rxclosed
  fin : after.flags.fin = before.flags.fin

theorem noteActivity_noted
    (packet : Packet)
    (tcpTicks : BitVec 32)
    (pcb : TcpPcb) :
    Noted packet pcb (noteActivity packet tcpTicks pcb) ∧
      (noteActivity packet tcpTicks pcb).toAppVars = pcb.toAppVars ∧
      (noteActivity packet tcpTicks pcb).state = pcb.state := by
  refine ⟨?_, rfl, rfl⟩
  constructor
  case state => exact .inl rfl
  all_goals rfl

/-! ## The rules -/

/-- Neither a reset nor a stray SYN, so `tcp_process` reads on. -/
def Packet.Heeded (packet : Packet) (pcb : TcpPcb) : Prop :=
  packet.flags.rst = false ∧
    (packet.flags.syn = false ∨ pcb.state = .synRcvd)

/-- The segment acknowledges the SYN|ACK. -/
def Packet.AcksSyn (packet : Packet) (pcb : TcpPcb) : Prop :=
  packet.flags.ack = true ∧
    SerialNumber.between packet.ackno (pcb.lastack + 1) pcb.sndNxt = true

instance (packet : Packet) (pcb : TcpPcb) : Decidable (packet.AcksSyn pcb) :=
  inferInstanceAs (Decidable (_ ∧ _))

/-- `tcp_process` hands the segment to `tcp_receive`. -/
structure Packet.Reaches (packet : Packet) (pcb : TcpPcb) : Prop where
  heeded : packet.Heeded pcb
  acksSyn : pcb.state = .synRcvd → packet.AcksSyn pcb

/-- What `inv` must bear from an arriving segment that `ackOk` admits. -/
structure InputRules
    (inv : TcpPcb → Prop)
    (ackOk : Packet → TcpPcb → Prop) : Prop where
  noted :
    ∀ packet before after,
      inv before →
        before.state = .synRcvd →
          Noted packet before after → after.state = before.state → inv after
  handshakeRexmit :
    ∀ pcb, inv pcb → pcb.state = .synRcvd → inv (tcpRexmit pcb).2
  acked :
    ∀ packet before middle after,
      inv before →
        ackOk packet before →
          Noted packet before middle →
            (before.state = .synRcvd → packet.AcksSyn before) →
              TcpState.established.code ≤ middle.state.code →
                JudgeFrame { middle with sndWndMax := after.sndWndMax } after →
                  after.sndWndMax =
                      (if packet.flags.ack then
                        (updateSndWnd packet middle).sndWndMax
                      else
                        middle.sndWndMax) →
                    AckQueues packet middle after →
                      inv after
  moved :
    ∀ pcb fin state,
      inv pcb →
        InputMoves pcb.state fin state →
          pcb.state ≠ .synRcvd →
            state ≠ .timeWait →
              inv { pcb with state := state }
  timeWait : ∀ pcb, inv pcb → inv (enterTimeWait pcb)

/-! ## The handshake -/

/-- The world after `tcp_accept_cb` has pushed a stream for `pcb`. -/
def acceptWorld (world : World) (listener : Nat) (pcb : TcpPcb) : World :=
  { world with
    stream := some (newStream world.pcbAddr world.nextStream pcb).1
    nextStream := world.nextStream + 1
    accepted := world.accepted ++ [(listener, world.nextStream)] }

/-- Either the application is as before, or it has been given a new stream. -/
inductive AppAfter
    (carried : Packet → Prop)
    (packet : Packet)
    (before : TcpPcb)
    (world : World)
    (after : TcpPcb)
    (later : World) : Prop where
  | kept
      (waits : before.state = .synRcvd → after.state = .synRcvd)
      (app : after.toAppVars = before.toAppVars)
      (emits : Emits carried world later)
  | accepted
      (listener : Nat)
      (plain : packet.flags.rst = false)
      (state : before.state = .synRcvd)
      (synchronized : after.state ≠ .synRcvd)
      (arg : before.callbackArg = .listener listener)
      (live : listener ∈ world.listeners)
      (app :
        after.toAppVars =
          (newStream world.pcbAddr world.nextStream before).2.toAppVars)
      (emits : Emits carried (acceptWorld world listener before) later)

variable {allowed : Fault → Prop} {world : World}

theorem tcpEventAccept_spec
    (faults : ∀ fault : Fault, fault.origin = .callback → allowed fault)
    (pcb : TcpPcb) :
    wp (tcpEventAccept pcb)
      (fun result after =>
        (result.1 ≠ .ok → result.2 = pcb ∧ after = world) ∧
          (result.1 = .ok →
            ∃ listener,
              pcb.callbackArg = .listener listener ∧
                listener ∈ world.listeners ∧
                result.2 =
                  (newStream world.pcbAddr world.nextStream pcb).2 ∧
                after = acceptWorld world listener pcb))
      allowed world := by
  unfold tcpEventAccept tcpAcceptCb
  split
  · exact ⟨fun _ => ⟨rfl, rfl⟩, by simp⟩
  · split
    · exact ⟨fun _ => ⟨rfl, rfl⟩, by simp⟩
    · exact faults _ rfl
    · rename_i listener arg
      rw [wp_bind, wp_get, wp_ite]
      refine ⟨fun live => ?_, fun _ => faults _ rfl⟩
      exact ⟨fun bad => absurd rfl bad,
        fun _ => ⟨listener, arg, live, rfl, rfl⟩⟩

/-! ## `tcp_process` -/

/-- The segment acknowledges all that was sent, and would leave nothing to be
sent. -/
def AcksRest (packet : Packet) (pcb : TcpPcb) : Prop :=
  packet.flags.ack = true ∧
    packet.ackno = pcb.sndNxt ∧
    (pcb.unsent.dropWhile fun seg =>
      SerialNumber.leq seg.endSeq packet.ackno) = []

theorem AckQueues.acksRest
    {packet : Packet}
    {before after : TcpPcb}
    (queues : AckQueues packet before after)
    (sndNxt : after.sndNxt = before.sndNxt)
    (all : acksAll packet after = true) :
    AcksRest packet before := by
  simp only [acksAll, Bool.and_eq_true, beq_iff_eq, List.isEmpty_iff] at all
  obtain ⟨⟨ack, ackno⟩, empty⟩ := all
  refine ⟨ack, ackno.trans sndNxt, ?_⟩
  cases queues with
  | kept old queues =>
      cases queues with
      | same unacked unsent =>
          rw [← unsent, empty]
          rfl
      | rexmit seg inFlight unsent =>
          have member : seg ∈ after.unsent :=
            unsent ▸ mem_insertSorted.mpr (.inl rfl)
          rw [empty] at member
          cases member
  | freed new unacked unsent =>
      rw [← unsent, empty]

/-- What `tcp_process` makes of the pcb when it keeps it. -/
structure Processed
    (inv : TcpPcb → Prop)
    (data : RecvOut → RcvVars → Prop)
    (packet : Packet)
    (before : TcpPcb)
    (result : InResult)
    (after : TcpPcb) : Prop where
  inv : inv after
  endpoint : after.toEndpointVars = before.toEndpointVars
  received :
    result.recv = {} ∧ after.toRcvVars = before.toRcvVars ∨
      ∃ rcv,
        data result.recv rcv ∧
          (after.toRcvVars = rcv ∨
            after.toRcvVars = { rcv with ooseq := [], refusedData := none })
  waiting :
    after.state = .synRcvd →
      result.recv = {} ∧ after.toRcvVars = before.toRcvVars
  state : InputMoves before.state result.recv.gotFin after.state
  reset :
    result.reset = true →
      packet.flags.rst = true ∧ packet.seqno = before.rcvNxt
  closed :
    result.closed = true →
      before.state = .lastAck ∧
        packet.flags.rst = false ∧
        packet.flags.syn = false ∧
        AcksRest packet before
  prio : after.prio = before.prio
  rxclosed : after.flags.rxclosed = before.flags.rxclosed
  closepend : after.flags.closepend = before.flags.closepend
  refusedData : before.refusedData = none → after.refusedData = none

theorem Processed.congr
    {inv : TcpPcb → Prop}
    {data : RecvOut → RcvVars → Prop}
    {packet : Packet}
    {before middle after : TcpPcb}
    {result other : InResult}
    (processed : Processed inv data packet before result middle)
    (keeps : inv after)
    (endpoint : after.toEndpointVars = middle.toEndpointVars)
    (rcv : after.toRcvVars = middle.toRcvVars)
    (state : after.state = middle.state)
    (prio : after.prio = middle.prio)
    (lasting : after.flags.lasting = middle.flags.lasting)
    (recv : other.recv = result.recv)
    (reset : other.reset = result.reset)
    (closed : other.closed = result.closed) :
    Processed inv data packet before other after where
  inv := keeps
  endpoint := endpoint.trans processed.endpoint
  received := by
    rw [recv, rcv]
    exact processed.received
  waiting := by
    rw [recv, rcv, state]
    exact processed.waiting
  state := by
    rw [recv, state]
    exact processed.state
  reset := by
    rw [reset]
    exact processed.reset
  closed := by
    rw [closed]
    exact processed.closed
  prio := prio.trans processed.prio
  rxclosed :=
    (PcbFlags.rxclosed_of_lasting lasting).trans processed.rxclosed
  closepend :=
    (PcbFlags.closepend_of_lasting lasting).trans processed.closepend
  refusedData := by
    rw [rcv]
    exact processed.refusedData

section Process

variable
  {carried : Packet → Prop}
  {inv finOk : TcpPcb → Prop}
  {fireOk : TcpPcb → List Err → Prop}
  {ackOk : Packet → TcpPcb → Prop}
  (rules : SendRules allowed carried inv finOk fireOk)
  (inputs : InputRules inv ackOk)
  {data : RecvOut → RcvVars → Prop}
include rules inputs

/-- What is known after `tcp_receive`: the acknowledgement has led to `acked`,
which keeps the invariant, and the data has changed only what it may. -/
structure AfterReceive
    (inv : TcpPcb → Prop)
    (data : RecvOut → RcvVars → Prop)
    (packet : Packet)
    (pcb acked : TcpPcb)
    (recv : RecvOut)
    (after : TcpPcb) : Prop where
  inv : inv acked
  judged : JudgeFrame { pcb with sndWndMax := acked.sndWndMax } acked
  queues : AckQueues packet pcb acked
  frame : DataFrame acked recv.gotFin after
  data : data recv after.toRcvVars
  late :
    TcpState.closeWait.code ≤ pcb.state.code →
      recv = {} ∧ after.toRcvVars = pcb.toRcvVars

theorem tcpReceive_kept
    {packet : Packet}
    {inseg : TcpSeg}
    {before pcb : TcpPcb}
    (holds : inv before)
    (admitted : ackOk packet before)
    (noted : Noted packet before pcb)
    (handshake : before.state = .synRcvd → packet.AcksSyn before)
    (established : TcpState.established.code ≤ pcb.state.code)
    (received :
      ∀ acked world,
        acked.toRcvVars = pcb.toRcvVars →
          acked.state = pcb.state →
            wp (tcpReceiveData inseg acked)
              (fun result _ => data result.1 result.2.toRcvVars)
              allowed world) :
    wp (tcpReceive packet inseg pcb)
      (fun result later =>
        (∃ acked,
          AfterReceive inv data packet pcb acked result.1.recv result.2) ∧
          result.1.reset = false ∧
          result.1.closed = false ∧
          Emits carried world later)
      allowed world := by
  unfold tcpReceive
  rw [wp_bind, wp_ensure]
  refine ⟨fun _ => ?_, fun _ => rules.origin rfl (by decide)⟩
  rw [wp_bind]
  refine wp_weaken
    (tcpReceiveAck_spec (fun fault same => rules.origin same (by decide))
      packet inseg.tcplen pcb) ?_
  rintro ⟨recvAcked, acked⟩ middle ⟨judged, wndMax, queues, emits⟩
  have kept : inv acked :=
    inputs.acked packet before pcb acked holds admitted noted handshake
      established judged wndMax queues
  rw [wp_bind]
  refine wp_weaken
    (wp_also (received acked middle judged.rcv judged.state)
      (tcpReceiveData_frame (fun _ _ _ _ => trivial) inseg acked
        fun _ _ => .inr ⟨trivial, trivial⟩)) ?_
  rintro ⟨recv, after⟩ later ⟨taken, frame, late, sent⟩
  have bare : Emits carried middle later := sent.mono rules.bare
  refine ⟨⟨acked, kept, judged, queues, frame, taken, ?_⟩, rfl, rfl,
    (emits.mono rules.bare).trans bare⟩
  intro overdue
  have sameState : acked.state = pcb.state := judged.state
  obtain ⟨nothing, same⟩ := late (sameState ▸ overdue)
  exact ⟨nothing, same.trans judged.rcv⟩

namespace AfterReceive

variable
  {packet : Packet}
  {before pcb acked after : TcpPcb}
  {recv : RecvOut}

omit rules inputs in
/-- The state may have moved already, if a queued FIN came into sequence. -/
theorem state
    (received : AfterReceive inv data packet pcb acked recv after) :
    after.state = pcb.state ∨
      pcb.state = .established ∧ after.state = .closeWait ∧
        recv.gotFin = true := by
  have same : acked.state = pcb.state := received.judged.state
  simpa only [same] using received.frame.state

omit rules inputs in
theorem sameSend
    (received : AfterReceive inv data packet pcb acked recv after)
    (now : Bool)
    (state : TcpState) :
    SameSend { acked with state := state }
      { after with flags.ackNow := now, state := state } where
  remoteIp := congrArg EndpointVars.remoteIp received.frame.endpoint
  snd := received.frame.snd
  queue := received.frame.queue
  persist := congrArg PersistVars.persistBackoff received.frame.persist
  state := rfl
  fin := PcbFlags.fin_of_lasting received.frame.lasting

/-- The invariant holds once the state has moved on. -/
theorem settle
    (received : AfterReceive inv data packet pcb acked recv after)
    (now : Bool)
    {state : TcpState}
    (moves : InputMoves pcb.state recv.gotFin state)
    (synchronized : pcb.state ≠ .synRcvd)
    (notTimeWait : state ≠ .timeWait) :
    inv { after with flags.ackNow := now, state := state } := by
  have same : acked.state = pcb.state := received.judged.state
  have moved : inv { acked with state := state } :=
    inputs.moved acked recv.gotFin state received.inv (same ▸ moves)
      (same ▸ synchronized) notTimeWait
  exact rules.view _ _ (received.sameSend now state) moved

/-- The invariant holds once the connection is in TIME_WAIT. -/
theorem settleTimeWait
    (received : AfterReceive inv data packet pcb acked recv after)
    (now : Bool)
    (sameState : after.state = pcb.state) :
    inv (enterTimeWait { after with flags.ackNow := now }) := by
  have same : acked.state = after.state :=
    Eq.trans received.judged.state sameState.symm
  refine inputs.timeWait _ (rules.view acked _ ?_ received.inv)
  exact {
    remoteIp := congrArg EndpointVars.remoteIp received.frame.endpoint
    snd := received.frame.snd
    queue := received.frame.queue
    persist := congrArg PersistVars.persistBackoff received.frame.persist
    state := same.symm
    fin := PcbFlags.fin_of_lasting received.frame.lasting }

omit rules inputs in
theorem lasting
    (received : AfterReceive inv data packet pcb acked recv after) :
    after.flags.lasting = pcb.flags.lasting :=
  received.frame.lasting.trans received.judged.lasting

omit rules inputs in
/-- A FIN that was taken before is not taken again. -/
theorem nothingLate
    (received : AfterReceive inv data packet pcb acked recv after)
    (late : TcpState.closeWait.code ≤ pcb.state.code) :
    recv.gotFin = false := by
  rw [(received.late late).1]

/-- The pcb goes on in `state`. -/
theorem processed
    {result : InResult}
    (received : AfterReceive inv data packet pcb acked result.recv after)
    (noted : Noted packet before pcb)
    (synchronized : pcb.state ≠ .synRcvd)
    (reset : result.reset = false)
    (closed : result.closed = false)
    (now : Bool)
    {state : TcpState}
    (moves : InputMoves pcb.state result.recv.gotFin state)
    (movesFrom : InputMoves before.state result.recv.gotFin state)
    (notTimeWait : state ≠ .timeWait) :
    Processed inv data packet before result
      { after with flags.ackNow := now, state := state } where
  inv := received.settle rules inputs now moves synchronized notTimeWait
  endpoint :=
    (received.frame.endpoint.trans received.judged.endpoint).trans
      noted.endpoint
  received := .inr ⟨after.toRcvVars, received.data, .inl rfl⟩
  waiting same := absurd same (moves.synRcvd synchronized)
  state := movesFrom
  reset := by
    simp [reset]
  closed := by
    simp [closed]
  prio := (received.frame.prio.trans received.judged.prio).trans noted.prio
  rxclosed :=
    (PcbFlags.rxclosed_of_lasting received.lasting).trans noted.rxclosed
  closepend :=
    (PcbFlags.closepend_of_lasting received.lasting).trans noted.closepend
  refusedData := by
    have same : after.refusedData = before.refusedData := by
      rw [received.frame.refusedData, received.judged.rcv, noted.rcv]
    exact same.trans

/-- The pcb goes to TIME_WAIT. -/
theorem waited
    {result : InResult}
    (received : AfterReceive inv data packet pcb acked result.recv after)
    (noted : Noted packet before pcb)
    (sameState : pcb.state = before.state)
    (unmoved : after.state = pcb.state)
    (live : pcb.state ≠ .closed ∧ pcb.state ≠ .timeWait)
    (reset : result.reset = false)
    (closed : result.closed = false)
    (now : Bool)
    (moves : InputMoves pcb.state result.recv.gotFin .timeWait) :
    Processed inv data packet before result
        (enterTimeWait { after with flags.ackNow := now }) ∧
      (enterTimeWait { after with flags.ackNow := now }).toAppVars =
        after.toAppVars := by
  have purged :
      tcpPcbPurge { after with flags.ackNow := now } =
        { after with
          flags.ackNow := now
          refusedData := none
          ooseq := []
          rtime := -1
          unsent := []
          unacked := []
          unsentOversize := 0 } := by
    unfold tcpPcbPurge
    rw [if_pos (by simpa only [unmoved] using live)]
  have keeps := received.settleTimeWait rules inputs now unmoved
  unfold enterTimeWait at keeps ⊢
  rw [purged] at keeps ⊢
  refine ⟨?_, rfl⟩
  exact {
    inv := keeps
    endpoint :=
      (received.frame.endpoint.trans received.judged.endpoint).trans
        noted.endpoint
    received := .inr ⟨after.toRcvVars, received.data, .inr rfl⟩
    waiting := nofun
    state := sameState ▸ moves
    reset := by simp [reset]
    closed := by simp [closed]
    prio := (received.frame.prio.trans received.judged.prio).trans noted.prio
    rxclosed :=
      (PcbFlags.rxclosed_of_lasting received.lasting).trans noted.rxclosed
    closepend :=
      (PcbFlags.closepend_of_lasting received.lasting).trans noted.closepend
    refusedData := fun _ => rfl }

end AfterReceive

/-- The states after SYN_RCVD. -/
theorem processSynchronized_kept
    {packet : Packet}
    {inseg : TcpSeg}
    {before pcb : TcpPcb}
    (holds : inv before)
    (admitted : ackOk packet before)
    (plain : packet.flags.rst = false ∧ packet.flags.syn = false)
    (noted : Noted packet before pcb)
    (sameState : pcb.state = before.state)
    (established : TcpState.established.code ≤ pcb.state.code)
    (notTimeWait : pcb.state ≠ .timeWait)
    (received :
      ∀ acked world,
        acked.toRcvVars = pcb.toRcvVars →
          acked.state = pcb.state →
            wp (tcpReceiveData inseg acked)
              (fun result _ => data result.1 result.2.toRcvVars)
              allowed world) :
    wp (processSynchronized packet inseg pcb)
      (fun result later =>
        Processed inv data packet before result.1 result.2 ∧
          result.2.toAppVars = pcb.toAppVars ∧
          Emits carried world later)
      allowed world := by
  have synchronized : pcb.state ≠ .synRcvd := by
    intro same
    rw [same] at established
    exact absurd established (by decide)
  unfold processSynchronized
  rw [wp_bind]
  refine wp_weaken
    (tcpReceive_kept rules inputs holds admitted noted
      (fun same => absurd (sameState.trans same) synchronized) established
      received) ?_
  rintro ⟨result, after⟩ later ⟨⟨acked, kept⟩, reset, closed, emits⟩
  have app : after.toAppVars = pcb.toAppVars :=
    kept.frame.app.trans kept.judged.app
  have goes (now : Bool) (state : TcpState)
      (moves : InputMoves pcb.state result.recv.gotFin state)
      (notTimeWait : state ≠ .timeWait) :=
    kept.processed rules inputs noted synchronized reset closed now moves
      (sameState ▸ moves) notTimeWait
  have waits (now : Bool) (unmoved : after.state = pcb.state)
      (live : pcb.state ≠ .closed)
      (moves : InputMoves pcb.state result.recv.gotFin .timeWait) :=
    kept.waited rules inputs noted sameState unmoved ⟨live, notTimeWait⟩ reset
      closed now moves
  have stays (fin : result.recv.gotFin = false) :
      Processed inv data packet before result after := by
    have unmoved : after.state = pcb.state := by
      rcases kept.state with same | ⟨_, _, got⟩
      · exact same
      · rw [fin] at got
        cases got
    have moves : InputMoves pcb.state result.recv.gotFin after.state := by
      rw [fin, unmoved]
      exact .stay _
    exact goes after.flags.ackNow after.state moves (unmoved ▸ notTimeWait)
  have rests (all : acksAll packet after = true)
      (sndNxt : after.sndNxt = before.sndNxt) :
      AcksRest packet before := by
    have moved : AckQueues packet before after :=
      kept.queues.congr noted.queue (by rw [noted.snd]) kept.frame.queue
    exact moved.acksRest sndNxt all
  have sndNxt : after.sndNxt = before.sndNxt := by
    rw [kept.frame.queue, kept.judged.sndNxt]
    exact congrArg QueueVars.sndNxt noted.queue
  have unmoved (other : pcb.state ≠ .established) :
      after.state = pcb.state := by
    rcases kept.state with same | ⟨started, _⟩
    · exact same
    · exact absurd started other
  simp only
  cases state : pcb.state with
  | established =>
      rw [wp_ite]
      refine ⟨fun fin => ?_, fun noFin => ?_⟩
      · have moves : InputMoves pcb.state result.recv.gotFin .closeWait := by
          rw [state, fin]
          exact .fin
        exact ⟨goes true .closeWait moves nofun, app, emits⟩
      · exact ⟨stays (by simpa using noFin), app, emits⟩
  | closeWait =>
      have noData := kept.nothingLate (by rw [state])
      rw [noData, wp_ite]
      exact ⟨nofun, fun _ => ⟨stays noData, app, emits⟩⟩
  | finWait1 =>
      have same := unmoved (by simp [state])
      rw [wp_ite]
      refine ⟨fun fin => ?_, fun noFin => ?_⟩
      · rw [wp_ite]
        refine ⟨fun _ => ?_, fun _ => ?_⟩
        · have moves : InputMoves pcb.state result.recv.gotFin .timeWait := by
            rw [state, fin]
            exact .finAcked
          obtain ⟨processed, sameApp⟩ := waits true same (by simp [state]) moves
          exact ⟨processed, sameApp.trans app, emits⟩
        · have moves : InputMoves pcb.state result.recv.gotFin .closing := by
            rw [state, fin]
            exact .finBoth
          exact ⟨goes true .closing moves nofun, app, emits⟩
      · have noData : result.recv.gotFin = false := by
          simpa using noFin
        rw [wp_ite]
        refine ⟨fun _ => ?_, fun _ => ⟨stays noData, app, emits⟩⟩
        have moves : InputMoves pcb.state result.recv.gotFin .finWait2 := by
          rw [state, noData]
          exact .acked
        exact ⟨goes after.flags.ackNow .finWait2 moves nofun, app, emits⟩
  | finWait2 =>
      have same := unmoved (by simp [state])
      rw [wp_ite]
      refine ⟨fun fin => ?_, fun noFin => ?_⟩
      · have moves : InputMoves pcb.state result.recv.gotFin .timeWait := by
          rw [state, fin]
          exact .finLast
        obtain ⟨processed, sameApp⟩ := waits true same (by simp [state]) moves
        exact ⟨processed, sameApp.trans app, emits⟩
      · exact ⟨stays (by simpa using noFin), app, emits⟩
  | closing =>
      have same := unmoved (by simp [state])
      have noData := kept.nothingLate (by rw [state]; decide)
      rw [wp_ite]
      refine ⟨fun _ => ?_, fun _ => ⟨stays noData, app, emits⟩⟩
      have moves : InputMoves pcb.state result.recv.gotFin .timeWait := by
        rw [state, noData]
        exact .ackedLast
      obtain ⟨processed, sameApp⟩ :=
        waits after.flags.ackNow same (by simp [state]) moves
      exact ⟨processed, sameApp.trans app, emits⟩
  | lastAck =>
      have noData := kept.nothingLate (by rw [state]; decide)
      have processed := stays noData
      rw [wp_ite]
      refine ⟨fun all => ⟨?_, app, emits⟩, fun _ => ⟨processed, app, emits⟩⟩
      exact {
        processed with
        closed := fun _ =>
          ⟨sameState ▸ state, plain.1, plain.2, rests all sndNxt⟩ }
  | timeWait =>
      exact absurd state notTimeWait
  | synRcvd =>
      exact absurd state synchronized
  | closed =>
      rw [state] at established
      exact absurd established (by decide)

/-! ### SYN_RCVD -/

/-- `Processed`, for a pcb that may have been given a stream or aborted. -/
def ProcessedOrGone
    (carried : Packet → Prop)
    (inv : TcpPcb → Prop)
    (data : RecvOut → RcvVars → Prop)
    (packet : Packet)
    (before : TcpPcb)
    (world : World)
    (result : Option (InResult × TcpPcb))
    (later : World) : Prop :=
  match result with
  | some (result, after) =>
      Processed inv data packet before result after ∧
        AppAfter carried packet before world after later
  | none =>
      before.state = .synRcvd ∧
        Emits carried { world with stream := told before.errf world.stream }
          later

theorem processHandshakeAck_kept
    {packet : Packet}
    {inseg : TcpSeg}
    {before pcb : TcpPcb}
    (holds : inv before)
    (admitted : ackOk packet before)
    (noted : Noted packet before pcb)
    (sameApp : pcb.toAppVars = before.toAppVars)
    (plain : packet.flags.rst = false)
    (synRcvd : before.state = .synRcvd)
    (handshake : packet.AcksSyn before)
    (received :
      ∀ acked world,
        acked.toRcvVars = pcb.toRcvVars →
          acked.state = .established →
            wp (tcpReceiveData inseg acked)
              (fun result _ => data result.1 result.2.toRcvVars)
              allowed world) :
    wp (processHandshakeAck packet inseg pcb)
      (ProcessedOrGone carried inv data packet before world)
      allowed world := by
  unfold processHandshakeAck
  rw [wp_bind]
  refine wp_weaken
    (tcpEventAccept_spec (fun fault same => rules.origin same (by decide)) _)
    ?_
  rintro ⟨err, accepted⟩ middle ⟨refused, taken⟩
  rw [wp_ite]
  refine ⟨fun bad => ?_, fun good => ?_⟩
  · obtain ⟨rfl, rfl⟩ := refused bad
    rw [wp_bind]
    refine wp_weaken
      (tcpAbandon_spec (fun fault same => rules.origin same (by decide))
        (fun fault same => rules.origin same (by decide)) true _ true nofun
        nofun) ?_
    intro _ later gone
    have errf : pcb.errf = before.errf := congrArg AppVars.errf sameApp
    refine ⟨synRcvd, ?_⟩
    rw [← errf]
    exact gone.mono rules.bare
  · obtain ⟨listener, arg, live, rfl, rfl⟩ := taken (not_not.mp good)
    have notedNew :
        Noted packet before
          (newStream world.pcbAddr world.nextStream
            { pcb with state := .established }).2 := by
      exact {
        endpoint := noted.endpoint
        rcv := noted.rcv
        snd := noted.snd
        queue := noted.queue
        persist := noted.persist
        state := .inr ⟨synRcvd, rfl⟩
        prio := noted.prio
        closepend := noted.closepend
        rxclosed := noted.rxclosed
        fin := noted.fin }
    have sameWorld :
        acceptWorld world listener { pcb with state := .established } =
          acceptWorld world listener before := by
      unfold acceptWorld newStream
      simp only [noted.endpoint]
    rw [wp_bind]
    refine wp_weaken
      (tcpReceive_kept rules inputs holds admitted notedNew
        (fun _ => handshake) (Nat.le_refl _) received) ?_
    rintro ⟨result, after⟩ later ⟨⟨acked, kept⟩, reset, closed, emits⟩
    have app :
        after.toAppVars =
          (newStream world.pcbAddr world.nextStream before).2.toAppVars := by
      refine (kept.frame.app.trans kept.judged.app).trans ?_
      unfold newStream
      simp only [sameApp]
    have newApp (final : TcpPcb) (same : final.toAppVars = after.toAppVars)
        (synchronized : final.state ≠ .synRcvd) :
        AppAfter carried packet before world final later :=
      .accepted listener plain synRcvd synchronized
        ((congrArg AppVars.callbackArg sameApp).symm.trans arg) live
        (same.trans app) (sameWorld ▸ emits)
    have goes (now : Bool) (state : TcpState)
        (moves : InputMoves .established result.recv.gotFin state)
        (movesFrom : InputMoves .synRcvd result.recv.gotFin state)
        (notTimeWait : state ≠ .timeWait) :=
      kept.processed rules inputs notedNew nofun reset closed now moves
        (synRcvd.symm ▸ movesFrom) notTimeWait
    simp only
    rw [wp_ite]
    refine ⟨fun fin => ?_, fun noFin => ?_⟩
    · have processed := goes true .closeWait (fin ▸ .fin)
        (fin ▸ .handshakeFin) nofun
      refine ⟨processed.congr (rules.view _ _ ?_ processed.inv) rfl rfl rfl rfl
        rfl rfl rfl rfl, newApp _ rfl nofun⟩
      constructor <;> rfl
    · have withoutFin : result.recv.gotFin = false := by
        simpa using noFin
      have unmoved : after.state = .established := by
        rcases kept.state with same | ⟨_, _, got⟩
        · exact same
        · rw [withoutFin] at got
          cases got
      have processed := goes after.flags.ackNow .established
        (withoutFin ▸ .stay _) (withoutFin ▸ .handshake) nofun
      refine ⟨processed.congr (rules.view _ _ ?_ processed.inv) rfl rfl
        unmoved rfl rfl rfl rfl rfl, newApp _ rfl (by simp [unmoved])⟩
      constructor <;> first | rfl | exact unmoved

theorem processSynRcvd_kept
    {packet : Packet}
    {inseg : TcpSeg}
    {before pcb : TcpPcb}
    (holds : inv before)
    (admitted : ackOk packet before)
    (noted : Noted packet before pcb)
    (sameApp : pcb.toAppVars = before.toAppVars)
    (sameState : pcb.state = before.state)
    (plain : packet.flags.rst = false)
    (synRcvd : before.state = .synRcvd)
    (received :
      packet.AcksSyn before →
        ∀ acked world,
          acked.toRcvVars = pcb.toRcvVars →
            acked.state = .established →
              wp (tcpReceiveData inseg acked)
                (fun result _ => data result.1 result.2.toRcvVars)
                allowed world) :
    wp (processSynRcvd packet inseg pcb)
      (ProcessedOrGone carried inv data packet before world)
      allowed world := by
  have keeps : inv pcb := inputs.noted packet before pcb holds synRcvd noted
    sameState
  have idle : Processed inv data packet before {} pcb := by
    exact {
      inv := keeps
      endpoint := noted.endpoint
      received := .inl ⟨rfl, noted.rcv⟩
      waiting := fun _ => ⟨rfl, noted.rcv⟩
      state := sameState ▸ .stay _
      reset := nofun
      closed := nofun
      prio := noted.prio
      rxclosed := noted.rxclosed
      closepend := noted.closepend
      refusedData := by
        rw [noted.rcv]
        exact id }
  unfold processSynRcvd
  rw [wp_ite]
  refine ⟨fun ack => ?_, fun _ => ?_⟩
  · rw [wp_ite]
    refine ⟨fun inRange => ?_, fun _ => ?_⟩
    · have handshake : packet.AcksSyn before := by
        refine ⟨ack, ?_⟩
        have lastack : pcb.lastack = before.lastack := by
          rw [noted.snd]
        have sndNxt : pcb.sndNxt = before.sndNxt :=
          congrArg QueueVars.sndNxt noted.queue
        rw [← lastack, ← sndNxt]
        exact inRange
      exact processHandshakeAck_kept rules inputs holds admitted noted sameApp
        plain synRcvd handshake (received handshake)
    · rw [wp_bind]
      refine wp_weaken (tcpRst_spec _ _ _ _ _ _) fun _ later emits => ?_
      exact ⟨idle, .kept sameState.trans sameApp (emits.mono rules.bare)⟩
  · rw [wp_ite]
    refine ⟨fun _ => ?_,
      fun _ => ⟨idle, .kept sameState.trans sameApp (Emits.refl world)⟩⟩
    have frame := (tcpRexmit_frame pcb).1
    refine ⟨idle.congr ?_ frame.endpoint frame.rcv frame.state frame.prio
      frame.lasting rfl rfl rfl, .kept (frame.state.trans sameState).trans
        (frame.app.trans sameApp)
        (Emits.refl world)⟩
    exact inputs.handshakeRexmit pcb keeps (sameState.trans synRcvd)

/-! ### Every state -/

omit inputs in
theorem processRst_kept
    {packet : Packet}
    {pcb : TcpPcb}
    (holds : inv pcb)
    (reset : packet.flags.rst = true) :
    Processed inv data packet pcb (processRst packet pcb).1
        (processRst packet pcb).2 ∧
      (processRst packet pcb).2.toAppVars = pcb.toAppVars := by
  have idle (delay now : Bool) (result : InResult)
      (nothing : result.recv = {} ∧ result.closed = false)
      (inPlace : result.reset = true → packet.seqno = pcb.rcvNxt) :
      Processed inv data packet pcb result
        { pcb with flags.ackDelay := delay, flags.ackNow := now } := by
    exact {
      inv := rules.view pcb _ (by constructor <;> rfl) holds
      endpoint := rfl
      received := .inl ⟨nothing.1, rfl⟩
      waiting := fun _ => ⟨nothing.1, rfl⟩
      state := by
        rw [nothing.1]
        exact .stay _
      reset := fun done => ⟨reset, inPlace done⟩
      closed := by
        simp [nothing.2]
      prio := rfl
      rxclosed := rfl
      closepend := rfl
      refusedData := id }
  unfold processRst
  split
  · rename_i inPlace
    exact ⟨idle _ _ _ ⟨rfl, rfl⟩ fun _ => inPlace, rfl⟩
  · split
    · exact ⟨idle _ _ _ ⟨rfl, rfl⟩ nofun, rfl⟩
    · exact ⟨idle _ _ _ ⟨rfl, rfl⟩ nofun, rfl⟩

/-- `tcp_process` on an active pcb. -/
theorem tcpProcess_kept
    {packet : Packet}
    {inseg : TcpSeg}
    {pcb : TcpPcb}
    (holds : inv pcb)
    (admitted : packet.Heeded pcb → ackOk packet pcb)
    (notTimeWait : pcb.state ≠ .timeWait)
    (received :
      packet.Reaches pcb →
        ∀ acked world,
          acked.toRcvVars = pcb.toRcvVars →
            (acked.state = pcb.state ∨
              pcb.state = .synRcvd ∧ acked.state = .established) →
              wp (tcpReceiveData inseg acked)
                (fun result _ => data result.1 result.2.toRcvVars)
                allowed world) :
    wp (tcpProcess packet inseg pcb)
      (ProcessedOrGone carried inv data packet pcb world)
      allowed world := by
  unfold tcpProcess
  rw [wp_ite]
  refine ⟨fun reset => ?_, fun noReset => ?_⟩
  · obtain ⟨processed, app⟩ :=
      processRst_kept rules holds reset
    have waits : pcb.state = .synRcvd →
        (processRst packet pcb).2.state = .synRcvd := by
      unfold processRst
      split
      · exact id
      · split <;> exact id
    exact ⟨processed, .kept waits app (Emits.refl world)⟩
  rw [wp_ite]
  refine ⟨fun _ => ?_, fun noSyn => ?_⟩
  · refine ⟨?_, .kept id rfl (Emits.refl world)⟩
    exact {
      inv := rules.view pcb _ (by constructor <;> rfl) holds
      endpoint := rfl
      received := .inl ⟨rfl, rfl⟩
      waiting := fun _ => ⟨rfl, rfl⟩
      state := .stay _
      reset := nofun
      closed := nofun
      prio := rfl
      rxclosed := rfl
      closepend := rfl
      refusedData := id }
  obtain ⟨noted, app, state⟩ := noteActivity_noted packet world.tcpTicks pcb
  rw [wp_bind, wp_get]
  have synchronized (established : TcpState.established.code ≤ pcb.state.code) :
      wp
        (do
          let processed ←
            processSynchronized packet inseg
              (noteActivity packet world.tcpTicks pcb)
          pure (some processed))
        (ProcessedOrGone carried inv data packet pcb world)
        allowed world := by
    have notSyn : pcb.state ≠ .synRcvd := by
      intro same
      rw [same] at established
      exact absurd established (by decide)
    have plain : packet.flags.rst = false ∧ packet.flags.syn = false := by
      refine ⟨by simpa using noReset, ?_⟩
      simpa [notSyn] using noSyn
    rw [wp_bind]
    refine wp_weaken
      (processSynchronized_kept rules inputs holds
        (admitted ⟨plain.1, .inl plain.2⟩) plain noted state
        (state ▸ established) (state ▸ notTimeWait)
        (fun acked world rcv same =>
          received ⟨⟨plain.1, .inl plain.2⟩, fun same => absurd same notSyn⟩
            acked world (rcv.trans noted.rcv) (.inl (same.trans state))))
      ?_
    rintro ⟨result, after⟩ later ⟨processed, sameApp, emits⟩
    exact ⟨processed, .kept (fun same => absurd same notSyn)
      (sameApp.trans app) emits⟩
  simp only [state]
  cases current : pcb.state with
  | synRcvd =>
      have plain : packet.flags.rst = false := by
        simpa using noReset
      exact processSynRcvd_kept rules inputs holds
        (admitted ⟨plain, .inr current⟩) noted app state plain current
        fun handshake acked world rcv same =>
          received ⟨⟨plain, .inr current⟩, fun _ => handshake⟩ acked world
            (rcv.trans noted.rcv) (.inr ⟨current, same⟩)
  | closed =>
      exact absurd current (rules.live pcb holds)
  | timeWait =>
      exact absurd current notTimeWait
  | _ =>
      exact synchronized (by simp [current, TcpState.code])

end Process

end NetstackLwip

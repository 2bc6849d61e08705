import NetstackLwip.QueueRules

namespace NetstackLwip

/-!
# The receiving side, event by event

What one event does to the receive variables of a pcb and to what its stream
holds for the reader, whatever the sender does meanwhile. The data part of
`tcp_receive` is left to a relation, which each property chooses.
-/

open FaultState FaultMachine

/-! ## A sender of which nothing is asked -/

/-- The pcb is in use, and in TIME_WAIT nothing is queued. -/
structure InUse (pcb : TcpPcb) : Prop where
  live : pcb.state ≠ .closed
  drained : Drained pcb

theorem InUse.congr
    {before after : TcpPcb}
    (inUse : InUse before)
    (queue : after.toQueueVars = before.toQueueVars)
    (state : after.state = before.state) :
    InUse after where
  live := state ▸ inUse.live
  drained := .of_state (inUse.drained.of_queue queue) state

section InUse

variable
  {allowed : Fault → Prop}
  (others : ∀ fault : Fault, fault.origin ≠ .receiveData → allowed fault)
include others

theorem inUseRules :
    SendRules allowed (fun _ => True) InUse (fun _ => True)
      (fun _ _ => True) where
  faults fault other _ _ _ := others fault other
  bare _ _ := trivial
  live _ inUse := inUse.live
  waiting _ inUse := inUse.drained.empty
  view _ _ same inUse := inUse.congr same.queue same.state
  finView _ _ _ _ := trivial
  fireView _ _ _ _ := trivial
  output pcb world inUse := by
    refine wp_weaken
      (tcpOutput_spec (.const _) (fun fault same => others fault (by simp [same]))
        false pcb inUse.drained) ?_
    rintro ⟨err, after⟩ later ⟨frame, drained, _, emits⟩
    exact ⟨frame, ⟨frame.state ▸ inUse.live, .of_state drained frame.state⟩,
      fun _ => trivial, emits.mono fun _ _ => trivial⟩
  fin pcb next world inUse _ shuts := by
    refine wp_weaken
      (tcpSendFin_queued (fun fault same => others fault (by simp [same])) pcb)
      ?_
    rintro ⟨err, after⟩ later ⟨frame, refused, queued, emits⟩
    refine ⟨frame, fun _ => ?_, fun bad => ?_, emits.mono fun _ _ => trivial⟩
    · exact ⟨shuts.ne_closed, ⟨fun _ _ => shuts.ne_timeWait,
        fun _ _ => shuts.ne_timeWait⟩⟩
    · exact inUse.congr (refused bad).queue frame.state
  fires pcb world inUse notTimeWait _ _ := by
    refine wp_weaken
      (persistFires_spec (fun _ => True) (.const _)
        (fun fault same => others fault (by simp [same]))
        (fun fault same _ => others fault (by simp [same]))
        pcb (fun _ _ => trivial) inUse.drained (fun _ _ _ _ => trivial)
        (fun _ _ _ _ => .inr (others _ (by decide)))
        fun _ _ _ _ _ => ⟨notTimeWait, notTimeWait⟩) ?_
    rintro after later ⟨fired, drained, _, emits⟩
    exact ⟨fired.frame, ⟨fired.state ▸ inUse.live,
      .of_state drained fired.state⟩, emits⟩
  rto pcb inUse _ := by
    obtain ⟨_, _, state⟩ := tcpRexmitRtoPrepare_same pcb
    exact ⟨state ▸ inUse.live, .of_state inUse.drained.rto state⟩
  persist _ _ _ _ :=
    ⟨.inr (others _ (by decide)), .inr (others _ (by decide))⟩

omit others in
theorem inUseInputs : InputRules InUse fun _ _ => True where
  noted _ _ _ inUse _ noted state := inUse.congr noted.queue state
  handshakeRexmit pcb inUse _ := by
    obtain ⟨frame, _⟩ := tcpRexmit_frame pcb
    exact ⟨frame.state ▸ inUse.live, .of_state inUse.drained.rexmit frame.state⟩
  acked packet before middle after inUse _ noted _ established judged _
      queues := by
    have state : after.state = middle.state := judged.state
    have drained : AllQueued (fun _ => before.state ≠ .timeWait) after :=
      (inUse.drained.of_queue noted.queue).acked queues
    refine ⟨fun closed => ?_, ?_⟩
    · rw [← state, closed] at established
      exact absurd established (by decide)
    · rcases noted.state with same | ⟨_, moved⟩
      · exact .of_state drained (state.trans same)
      · refine drained.mono fun _ _ => ?_
        rw [state, moved]
        exact nofun
  moved _ _ _ inUse moves _ notTimeWait :=
    ⟨moves.ne_closed inUse.live,
      ⟨fun _ _ => notTimeWait, fun _ _ => notTimeWait⟩⟩
  timeWait _ inUse := ⟨nofun, inUse.drained.enterTimeWait inUse.live _⟩

theorem pollWritePcb_inUse
    (buf : Bytes)
    (stream : TcpStream)
    (pcb : TcpPcb)
    (world : World)
    (inUse : InUse pcb) :
    wp (pollWritePcb buf stream pcb)
      (fun result later =>
        Alike stream result.2.1 ∧
          SendRules.Kept false (fun _ => True) InUse pcb world result.2.2
            later)
      allowed world := by
  refine pollWritePcb_kept
    (fun _ : SendLog => inUseRules others) ⟨0, [], false⟩ buf stream pcb world
    inUse
    (fun _ _ => ⟨fun _ kept => kept, fun _ _ => trivial⟩) fun toWrite _ _ => ?_
  refine wp_weaken
    (tcpWrite_spec (.const (pcb.state ≠ .timeWait))
      (fun fault same _ => others fault (by simp [same])) pcb _ false
      (fun _ _ => .inr (others _ (by decide))) ?_) ?_
  · intro writable
    have notTimeWait := writable.ne_timeWait
    exact ⟨inUse.drained.1, fun _ _ _ _ _ _ _ _ _ => notTimeWait,
      fun _ _ _ _ _ => notTimeWait⟩
  · rintro ⟨err, after⟩ later ⟨emits, frame, refused, done⟩
    refine ⟨emits, frame, fun bad =>
      inUse.congr (refused bad).queue frame.state, fun ok => ?_⟩
    refine ⟨frame.state ▸ inUse.live,
      .of_state ⟨(done ok).unsent, ?_⟩ frame.state⟩
    rw [frame.unacked]
    exact inUse.drained.2

end InUse

/-! ## What an event does -/

/-- What an event takes from the peer. -/
def takenBy (pcb : TcpPcb) (world : World) : Event → RecvOut
  | .segment packet =>
      if pcb.state = .timeWait then {} else takenFrom packet.toPacket pcb world
  | _ => {}

theorem acceptedBy_some
    (pcb : TcpPcb)
    (label : Label)
    (world : World) :
    acceptedBy (some pcb) label world =
      takenBy pcb (label.enter world) label.event := by
  unfold acceptedBy takenBy
  cases label.event <;> rfl

/-- The stream at most closes or stores a waker. -/
def Unread (before after : Option TcpStream) : Prop :=
  after = before ∨
    ∃ stream closed waker,
      before = some stream ∧
        after = some { stream with closed := closed, writeWaker := waker }

/-- The outcome is not that of a read. -/
def Outcome.NoRead (outcome : Outcome) : Prop :=
  ∀ remaining result, outcome ≠ .read remaining result

/--
What an event does to the receive variables of a pcb that survives it, and to
its stream. `data packet` is what the data part of `tcp_receive` may do with
`packet`.
-/
inductive Receives
    (data : InPacket → RecvOut → RcvVars → Prop)
    (before : TcpPcb)
    (stream : Option TcpStream) :
    Event → RecvOut → Outcome → TcpPcb → Option TcpStream → Prop where
  | idle
      {event : Event}
      {outcome : Outcome}
      {after : TcpPcb}
      {later : Option TcpStream}
      (state : after.state = before.state ∨ Shuts before.state after.state)
      (rcv : after.toRcvVars = before.toRcvVars)
      (unread : Unread stream later)
      (noRead : outcome.NoRead) :
      Receives data before stream event {} outcome after later
  | stale
      {after : TcpPcb}
      (state : after.state = before.state)
      (rcv : after.toRcvVars = { before.toRcvVars with ooseq := [] }) :
      Receives data before stream .slowtmr {} .silent after stream
  | read
      {after : TcpPcb}
      (recvs : List Bool)
      (remaining : Nat)
      (known : TcpStream)
      (present : stream = some known)
      (state : after.state = before.state)
      (rcv :
        after.toRcvVars =
          { before.toRcvVars with
            rcvWnd :=
              creditedWnd before.rcvWnd
                (readStream recvs remaining known).credited }) :
      Receives data before stream (.pollRead remaining) {}
        (.read remaining (readStream recvs remaining known).result) after
        (some (readStream recvs remaining known).stream)
  | segment
      {after : TcpPcb}
      (packet : InPacket)
      (recv : RecvOut)
      (moves : InputMoves before.state recv.gotFin after.state)
      (waits : before.state = .synRcvd → after.state = .synRcvd)
      (waiting :
        after.state = .synRcvd →
          recv = {} ∧ after.toRcvVars = before.toRcvVars)
      (received :
        before.recv = .tcpRecvCb →
          Received (data packet) before.toRcvVars recv after.toRcvVars) :
      Receives data before stream (.segment packet) recv .silent after
        (heard before recv stream)
  | accepted
      {after : TcpPcb}
      (packet : InPacket)
      (recv : RecvOut)
      (addr id : Nat)
      (synRcvd : before.state = .synRcvd)
      (moves : InputMoves before.state recv.gotFin after.state)
      (synchronized : after.state ≠ .synRcvd)
      (received :
        Received (data packet) before.toRcvVars recv after.toRcvVars) :
      Receives data before stream (.segment packet) recv .silent after
        (some (((newStream addr id before).1.hear recv).hearFin recv))
  | dropped
      {after : TcpPcb}
      (state : after.state = before.state)
      (rcv : after.toRcvVars = before.toRcvVars) :
      Receives data before stream .dropStream {} .silent after none

/-- How an event ends a pcb, and what its stream learns of it. -/
inductive Freed
    (before : TcpPcb)
    (stream : Option TcpStream) :
    Event → Option TcpStream → Prop where
  | ended
      (packet : InPacket)
      (ends : Ends packet.toPacket before) :
      Freed before stream (.segment packet) (told before.errf stream)
  | expired
      (waiting : before.state = .timeWait) :
      Freed before stream .slowtmr stream
  | timedOut :
      Freed before stream .slowtmr (told before.errf stream)
  | aborted :
      Freed before stream .dropStream none
  | killed
      (state :
        before.state = .lastAck ∨ before.state = .closing ∨
          before.state = .timeWait) :
      Freed before stream .kill (endTold before stream)

/-- What is left of a pcb after an event from which `recv` was taken. -/
def ReceivesOrFreed
    (data : InPacket → RecvOut → RcvVars → Prop)
    (before : TcpPcb)
    (stream : Option TcpStream)
    (event : Event)
    (recv : RecvOut)
    (result : Option TcpPcb × Outcome)
    (later : Option TcpStream) : Prop :=
  match result.1 with
  | some after =>
      Receives data before stream event recv result.2 after later
  | none => Freed before stream event later

/-- A local step of the sender leaves the receiver as it is. -/
theorem SendRules.Kept.receives
    {shut : Bool}
    {carried : Packet → Prop}
    {inv : TcpPcb → Prop}
    {data : InPacket → RecvOut → RcvVars → Prop}
    {before base after : TcpPcb}
    {world later : World}
    {stream next : Option TcpStream}
    {event : Event}
    {outcome : Outcome}
    (kept : SendRules.Kept shut carried inv base world after later)
    (state : base.state = before.state)
    (rcv : base.toRcvVars = before.toRcvVars)
    (unread : Unread stream next)
    (noRead : outcome.NoRead) :
    Receives data before stream event {} outcome after next := by
  refine .idle ?_ (kept.frame.rcv.trans rcv) unread noRead
  rw [← state]
  rcases kept.frame.state with ⟨same, _⟩ | ⟨_, moved⟩
  · exact .inl same
  · exact moved

/-- `poll_write` at most stores its waker in the stream. -/
theorem pollWritePcb_unread
    (buf : Bytes)
    (stream : TcpStream)
    (pcb : TcpPcb)
    (world : World) :
    wp (pollWritePcb buf stream pcb)
      (fun result _ => Unread (some stream) (some result.2.1))
      (fun _ => True) world := by
  have same : Unread (some stream) (some stream) := .inl rfl
  have waits :
      Unread (some stream) (some { stream with writeWaker := true }) :=
    .inr ⟨stream, stream.closed, true, rfl, rfl⟩
  unfold pollWritePcb
  rw [wp_ite]
  refine ⟨fun _ => waits, fun _ => ?_⟩
  rw [wp_bind]
  refine wp_of_outcomes (fun written _ _ => ?_) fun _ _ => trivial
  rw [wp_ite]
  refine ⟨fun _ => ?_, fun _ => ?_⟩
  · rw [wp_bind]
    refine wp_of_outcomes (fun sent _ _ => ?_) fun _ _ => trivial
    rw [wp_ite]
    exact ⟨fun _ => same, fun _ => same⟩
  · rw [wp_ite]
    exact ⟨fun _ => waits, fun _ => same⟩

section Perform

variable
  {allowed : Fault → Prop}
  {world : World}
  {data : InPacket → RecvOut → RcvVars → Prop}
  (others : ∀ fault : Fault, fault.origin ≠ .receiveData → allowed fault)
include others

theorem performSegment_receives
    (window : allowed .newRcvAnnWnd)
    (packet : InPacket)
    (pcb : TcpPcb)
    (inUse : InUse pcb)
    (attached : Attached world.pcbAddr pcb world.stream)
    (received :
      pcb.state ≠ .timeWait →
        packet.Reaches pcb →
          ∀ acked world,
            acked.toRcvVars = pcb.toRcvVars →
              (acked.state = pcb.state ∨
                pcb.state = .synRcvd ∧ acked.state = .established) →
                wp (tcpReceiveData (inputSeg packet.toPacket) acked)
                  (fun result _ => data packet result.1 result.2.toRcvVars)
                  allowed world) :
    wp (perform (some pcb) (.segment packet))
      (fun result later =>
        ReceivesOrFreed data pcb world.stream (.segment packet)
          (takenBy pcb world (.segment packet)) result later.stream)
      allowed world := by
  unfold perform
  simp only
  rw [wp_ite]
  refine ⟨fun waiting => ?_, fun active => ?_⟩
  · rw [wp_bind]
    refine wp_weaken ((inUseRules others).tcpTimewaitInput_kept packet.toPacket
      pcb world inUse) fun after later kept => ?_
    rw [show takenBy pcb world (.segment packet) = {} from if_pos waiting]
    exact kept.receives rfl rfl (.inl kept.emits.stream)
      (by simp [Outcome.NoRead])
  · rw [show takenBy pcb world (.segment packet) =
      takenFrom packet.toPacket pcb world from if_neg active]
    rw [wp_bind]
    refine wp_weaken
      (tcpInputPcb_kept (inUseRules others) (data packet) inUseInputs window
        inUse (fun _ => trivial) active attached.rxOpen attached.taken
        attached.owner.notNull (received active)) ?_
    rintro (_ | after) later arrived
    · obtain ⟨ends, emits⟩ := arrived
      show Freed _ _ _ later.stream
      rw [emits.stream]
      exact .ended packet ends
    · have known : Arrived (fun _ => True) InUse (data packet) pcb world
          (takenFrom packet.toPacket pcb world) after later := arrived
      show Receives _ _ _ _ _ _ after later.stream
      cases known.app with
      | kept waits app emits =>
          rw [emits.stream]
          refine .segment packet _ known.state waits known.waiting
            fun streaming => known.streamed ?_
          rw [app]
          exact streaming
      | accepted listener synRcvd synchronized _ _ app emits =>
          rw [emits.stream]
          exact .accepted packet _ world.pcbAddr world.nextStream synRcvd
            known.state synchronized
            (known.streamed (congrArg AppVars.recv app))

theorem performSlowtmr_receives
    (pcb : TcpPcb)
    (inUse : InUse pcb) :
    wp (perform (some pcb) .slowtmr)
      (fun result later =>
        ReceivesOrFreed data pcb world.stream .slowtmr {} result later.stream)
      allowed world := by
  have silent : Outcome.silent.NoRead := by
    simp [Outcome.NoRead]
  unfold perform
  rw [wp_bind, wp_modify]
  simp only
  rw [wp_ite]
  refine ⟨fun waiting => ?_, fun active => ?_⟩
  · rw [wp_bind, wp_get]
    unfold slowtmrTimewait
    split
    · exact .expired waiting
    · exact .idle (.inl rfl) rfl (.inl rfl) silent
  · rw [wp_bind]
    refine wp_weaken
      ((inUseRules others).slowtmrPcb_kept pcb _ inUse active
        fun _ => trivial) ?_
    rintro (_ | after) later kept
    · show Freed _ _ _ later.stream
      have stream : later.stream = told pcb.errf world.stream := kept.stream
      rw [stream]
      exact .timedOut
    · obtain ⟨queue, stepped⟩ := kept
      show Receives _ _ _ _ _ _ after later.stream
      have stream : later.stream = world.stream := stepped.emits.stream
      rcases queue with same | stale
      · exact stepped.receives rfl (by rw [same]) (.inl stream) silent
      · have state : after.state = pcb.state := by
          rcases stepped.frame.state with ⟨same, _⟩ | ⟨shut, _⟩
          · exact same
          · cases shut
        rw [stream]
        refine .stale state ?_
        rw [stepped.frame.rcv, stale]

theorem performPollRead_receives
    (window : allowed .newRcvAnnWnd)
    (remaining : Nat)
    (pcb : TcpPcb)
    (inUse : InUse pcb)
    (attached : Attached world.pcbAddr pcb world.stream) :
    wp (perform (some pcb) (.pollRead remaining))
      (fun result later =>
        ReceivesOrFreed data pcb world.stream (.pollRead remaining) {} result
          later.stream)
      allowed world := by
  unfold perform
  refine onStream_attached attached (fun absent => ?_) fun stream present => ?_
  · exact .idle (.inl rfl) rfl (.inl rfl) (by simp [Outcome.NoRead])
  · rw [wp_bind, wp_get, wp_bind]
    refine wp_weaken
      ((inUseRules others).pollReadPcb_kept window world.recvs remaining stream
        pcb world inUse) ?_
    rintro ⟨result, next, after⟩ later ⟨rfl, rfl, kept⟩
    unfold putStream
    simp only [wp_bind, wp_modify, wp_pure]
    have state : after.state = pcb.state := by
      rcases kept.frame.state with ⟨same, _⟩ | ⟨shut, _⟩
      · exact same
      · cases shut
    exact .read world.recvs remaining stream present state kept.frame.rcv

omit others in
/-- A call on the stream that leaves what the reader sees alone. -/
theorem performCall_receives
    {event : Event}
    {pcb : TcpPcb}
    {broken : Outcome}
    {freed : TcpStream → Lwip Outcome}
    {call : TcpStream → TcpPcb → Lwip (Option TcpPcb × Outcome)}
    (attached : Attached world.pcbAddr pcb world.stream)
    (called :
      ∀ stream,
        world.stream = some stream →
          wp (call stream pcb)
            (fun result later =>
              ReceivesOrFreed data pcb world.stream event {} result
                later.stream)
            allowed world) :
    wp (onStream (some pcb) broken freed call)
      (fun result later =>
        ReceivesOrFreed data pcb world.stream event {} result later.stream)
      allowed world :=
  onStream_attached attached
    (fun _ =>
      .idle (.inl rfl) rfl (.inl rfl) (by simp [Outcome.NoRead]))
    called

theorem performPollWrite_receives
    (buf : Bytes)
    (pcb : TcpPcb)
    (inUse : InUse pcb)
    (attached : Attached world.pcbAddr pcb world.stream) :
    wp (perform (some pcb) (.pollWrite buf))
      (fun result later =>
        ReceivesOrFreed data pcb world.stream (.pollWrite buf) {} result
          later.stream)
      allowed world := by
  unfold perform
  refine performCall_receives attached fun stream present => ?_
  rw [wp_bind]
  refine wp_weaken
    (wp_also (pollWritePcb_inUse others buf stream pcb world inUse)
      (pollWritePcb_unread buf stream pcb world)) ?_
  rintro ⟨result, next, after⟩ later ⟨⟨_, kept⟩, unread⟩
  unfold putStream
  simp only [wp_bind, wp_modify, wp_pure]
  exact kept.receives rfl rfl (present ▸ unread) (by simp [Outcome.NoRead])

theorem performPollShutdown_receives
    (pcb : TcpPcb)
    (inUse : InUse pcb)
    (attached : Attached world.pcbAddr pcb world.stream) :
    wp (perform (some pcb) .pollShutdown)
      (fun result later =>
        ReceivesOrFreed data pcb world.stream .pollShutdown {} result
          later.stream)
      allowed world := by
  unfold perform
  refine performCall_receives attached fun stream present => ?_
  rw [wp_bind]
  refine wp_weaken
    ((inUseRules others).pollShutdownPcb_kept stream pcb world inUse trivial) ?_
  rintro ⟨result, next, after⟩ later ⟨⟨closed, rfl⟩, kept⟩
  unfold putStream
  simp only [wp_bind, wp_modify, wp_pure]
  refine kept.receives rfl rfl ?_ (by simp [Outcome.NoRead])
  exact .inr ⟨stream, closed, stream.writeWaker, present, rfl⟩

theorem performDropStream_receives
    (pcb : TcpPcb)
    (inUse : InUse pcb)
    (attached : Attached world.pcbAddr pcb world.stream) :
    wp (perform (some pcb) .dropStream)
      (fun result later =>
        ReceivesOrFreed data pcb world.stream .dropStream {} result
          later.stream)
      allowed world := by
  unfold perform
  rw [wp_bind]
  refine onStream_attached attached (fun absent => ?_) fun stream present => ?_
  · simp only [wp_bind, wp_modify, wp_pure]
    exact .dropped rfl rfl
  · rw [wp_bind]
    refine wp_weaken
      ((inUseRules others).dropPcb_kept stream pcb world inUse) ?_
    rintro left later ⟨emits, shut, aborted, keeps⟩
    simp only [wp_bind, wp_modify, wp_pure]
    cases closed : stream.closed with
    | false =>
        rw [aborted closed]
        exact .aborted
    | true =>
        rw [shut closed]
        exact .dropped rfl rfl

/-- The receiving side, whatever happens. -/
theorem perform_receives
    (window : allowed .newRcvAnnWnd)
    (event : Event)
    (pcb : TcpPcb)
    (inUse : InUse pcb)
    (attached : Attached world.pcbAddr pcb world.stream)
    (received :
      ∀ packet,
        event = .segment packet →
          pcb.state ≠ .timeWait →
            packet.Reaches pcb →
              ∀ acked world,
                acked.toRcvVars = pcb.toRcvVars →
                  (acked.state = pcb.state ∨
                    pcb.state = .synRcvd ∧ acked.state = .established) →
                    wp (tcpReceiveData (inputSeg packet.toPacket) acked)
                      (fun result _ =>
                        data packet result.1 result.2.toRcvVars)
                      allowed world) :
    wp (perform (some pcb) event)
      (fun result later =>
        ReceivesOrFreed data pcb world.stream event (takenBy pcb world event)
          result later.stream)
      allowed world := by
  have rules := inUseRules others
  have silent : Outcome.silent.NoRead := by
    simp [Outcome.NoRead]
  cases event with
  | segment packet =>
      exact performSegment_receives others window packet pcb inUse attached
        (received packet rfl)
  | slowtmr =>
      exact performSlowtmr_receives others pcb inUse
  | fasttmr =>
      unfold perform
      simp only
      rw [wp_ite]
      refine ⟨fun _ => .idle (.inl rfl) rfl (.inl rfl) silent, fun _ => ?_⟩
      rw [wp_bind]
      refine wp_weaken
        (rules.fasttmrPcb_kept pcb world inUse attached.taken
          fun _ => trivial) fun after later kept => ?_
      exact kept.receives rfl rfl (.inl kept.emits.stream) silent
  | pollRead remaining =>
      exact performPollRead_receives others window remaining pcb inUse attached
  | pollWrite buf =>
      exact performPollWrite_receives others buf pcb inUse attached
  | pollFlush =>
      unfold perform
      refine performCall_receives attached fun stream present => ?_
      rw [wp_bind]
      refine wp_weaken (rules.pollFlushPcb_kept pcb world inUse) ?_
      rintro ⟨result, after⟩ later kept
      exact kept.receives rfl rfl (.inl kept.emits.stream)
        (by simp [Outcome.NoRead])
  | pollShutdown =>
      exact performPollShutdown_receives others pcb inUse attached
  | dropStream =>
      exact performDropStream_receives others pcb inUse attached
  | dropListener =>
      exact .idle (.inl rfl) rfl (.inl rfl) silent
  | handleClosepend =>
      unfold perform
      simp only
      rw [wp_ite]
      refine ⟨fun _ => .idle (.inl rfl) rfl (.inl rfl) silent, fun _ => ?_⟩
      rw [wp_bind]
      refine wp_weaken
        (rules.retryClosepend_kept pcb world inUse
          fun _ => trivial) fun after later kept => ?_
      exact kept.receives rfl rfl (.inl kept.emits.stream) silent
  | kill =>
      unfold perform
      simp only
      rw [wp_bind]
      refine wp_weaken (rules.killPcb_kept pcb world inUse) ?_
      rintro (_ | after) later kept
      · obtain ⟨state, emits⟩ := kept
        show Freed _ _ _ later.stream
        rw [emits.stream]
        exact .killed state
      · obtain ⟨rfl, rfl⟩ := kept
        exact .idle (.inl rfl) rfl (.inl rfl) silent

end Perform

/-! ## Steps of a connection -/

/-- `InUse` as an invariant of the connection. -/
def inUseInvariant : ConnInvariant where
  allowed _ := True
  carried _ _ := True
  inv _ := InUse
  finOk _ := True
  fireOk _ _ := True
  ackOk _ _ := True
  writeOk _ := True
  rules _ := {
    inUseRules fun _ _ => trivial with
    fin := fun pcb next world inUse _ =>
      (inUseRules fun _ _ => trivial).fin pcb next world inUse trivial
    finView := fun _ _ same may => ⟨trivial, same.state ▸ may.2⟩
    output := fun pcb world inUse => by
      refine wp_weaken
        ((inUseRules fun _ _ => trivial).output pcb world inUse) ?_
      rintro ⟨_, after⟩ later ⟨frame, kept, _, emits⟩
      exact ⟨frame, kept, fun may => ⟨trivial, frame.state ▸ may.2⟩, emits⟩ }
  inputs _ := inUseInputs
  dataFaults _ _ := trivial
  opening _ _ _ _ :=
    ⟨nofun, ⟨fun _ _ => nofun, fun _ _ => nofun⟩⟩
  grows _ _ _ _ := trivial
  write _ buf stream pcb world inUse _ _ :=
    pollWritePcb_inUse (fun _ _ => trivial) buf stream pcb world inUse

/-- A pcb of a reachable connection is attached to its stream and in use. -/
theorem attached_of_reached
    {conn : Conn}
    {pcb : TcpPcb}
    (reached : connMachine.Reached conn)
    (current : conn.pcb = some pcb) :
    Attached conn.world.pcbAddr pcb conn.world.stream ∧ InUse pcb := by
  have keeps : inUseInvariant.Keeps conn := by
    refine ConnInvariant.keeps_reached (reached.mono ?_)
    intro before label _ pcb _
    cases label.event with
    | segment packet => exact fun _ _ => trivial
    | slowtmr => exact fun _ _ => trivial
    | fasttmr => exact fun _ _ => trivial
    | handleClosepend => exact fun _ _ => trivial
    | pollShutdown => exact fun _ => trivial
    | _ => exact trivial
  exact keeps.pcb pcb current

/-- What a step of a connection does on the receiving side, and what it
records. -/
theorem Conn.step_receives
    {allowed : Fault → Prop}
    {data : InPacket → RecvOut → RcvVars → Prop}
    (others : ∀ fault : Fault, fault.origin ≠ .receiveData → allowed fault)
    (window : allowed .newRcvAnnWnd)
    {conn : Conn}
    {pcb : TcpPcb}
    (current : conn.pcb = some pcb)
    (attached : Attached conn.world.pcbAddr pcb conn.world.stream)
    (inUse : InUse pcb)
    (label : Label)
    (received :
      ∀ packet,
        label.event = .segment packet →
          pcb.state ≠ .timeWait →
            packet.Reaches pcb →
              ∀ acked world,
                acked.toRcvVars = pcb.toRcvVars →
                  (acked.state = pcb.state ∨
                    pcb.state = .synRcvd ∧ acked.state = .established) →
                    wp (tcpReceiveData (inputSeg packet.toPacket) acked)
                      (fun result _ =>
                        data packet result.1 result.2.toRcvVars)
                      allowed world) :
    match conn.step label with
    | .ok after =>
        ∃ outcome,
          after.history =
              conn.history.record (acceptedBy conn.pcb label conn.world)
                outcome ∧
            ReceivesOrFreed data pcb conn.world.stream label.event
              (acceptedBy conn.pcb label conn.world) (after.pcb, outcome)
              after.world.stream
    | .error fault => allowed fault := by
  have entered :
      Attached (label.enter conn.world).pcbAddr pcb
        (label.enter conn.world).stream := attached
  have performed :=
    perform_receives others window label.event pcb inUse entered received
  unfold wp at performed
  unfold Conn.step
  rw [current, acceptedBy_some]
  split
  · rename_i after taken
    split at taken
    · rename_i result later outcome
      rw [outcome] at performed
      cases taken
      exact ⟨_, rfl, performed⟩
    · cases taken
  · rename_i fault stopped
    split at stopped
    · cases stopped
    · rename_i other outcome
      rw [outcome] at performed
      cases stopped
      exact performed

end NetstackLwip

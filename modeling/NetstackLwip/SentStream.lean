import NetstackLwip.SentSlices

namespace NetstackLwip

/-!
# The stream that is sent

Whatever the peer, the timers and the application do, every data segment that
leaves a connection carries what `poll_write` accepted, at the place its
sequence number says, and a FIN only leaves behind the last byte. The steps in
which `tcp_write` and `tcp_send_fin` take a retransmitted segment for the last
of the stream are left out, and a run shows what happens there. As long as
sequence numbers have not come around, `snd_lbb` alone tells these steps.
-/

open FaultState FaultMachine SerialNumber

/-! ## What leaves in one event -/

/-- What a step asks for the stream to stay whole: a write fills up, and a FIN
is set on, the last segment of the stream only, and the persist timer cuts no
FIN. -/
def Event.Follows
    (log : SendLog)
    (shut : Prop)
    (pcb : TcpPcb)
    (allocs : List Bool)
    (outputs : List Err) :
    Event → Prop
  | .pollWrite buf =>
      WritesAtEnd log pcb (min buf.length pcb.sndBuf) allocs
  | event =>
      EventOk (ShutsAtEnd log shut) CutsNoFin (fun _ _ => True) (fun _ => True)
        pcb outputs event

section Steps

variable
  {log : SendLog}
  {shut : Prop}
  {pcb : TcpPcb}
  {world : World}

/-- One event on a pcb in use. -/
theorem perform_stream
    (event : Event)
    (kept : QueuedStream log shut pcb)
    (attached : Attached world.pcbAddr pcb world.stream)
    (admitted : event.Follows log shut pcb world.allocs world.outputs) :
    wp (perform (some pcb) event)
      (fun result later =>
        EventKept ((log.record result.2).Sends shut)
          (QueuedStream (log.record result.2) shut) world result later)
      (fun _ => True) world := by
  by_cases write : ∃ buf, event = .pollWrite buf
  · obtain ⟨buf, rfl⟩ := write
    unfold perform
    refine onStream_attached attached (fun _ => ?_) fun stream present => ?_
    · exact .stepped ⟨LocalFrame.refl false pcb, kept, Emits.refl world⟩
        attached (fun _ => rfl) rfl rfl
    · rw [wp_bind]
      refine wp_weaken (pollWritePcb_stream log buf stream pcb kept admitted) ?_
      rintro ⟨result, next, after⟩ later ⟨alike, wrote⟩
      unfold putStream
      simp only [wp_bind, wp_modify, wp_pure]
      exact .stored wrote present attached alike fun _ => rfl
  · have noWrite (buf : Bytes) : event ≠ .pollWrite buf :=
      fun same => write ⟨buf, same⟩
    have allowed :
        EventOk (ShutsAtEnd log shut) CutsNoFin (fun _ _ => True)
          (fun _ => True) pcb world.outputs event := by
      cases event with
      | pollWrite buf => exact trivial
      | _ => exact admitted
    have stays :=
      perform_kept (streamRules log shut) (streamInputs log shut)
        (fun _ _ => trivial) pcb event kept attached
        (EventOk.mayFin allowed attached) noWrite
    refine wp_weaken
      (wp_also stays (perform_noWrite (some pcb) event noWrite world)) ?_
    rintro result later ⟨stays, other⟩
    rw [log.record_other other]
    exact stays

/-- A pcb that takes no data. -/
structure Refuses (pcb : TcpPcb) : Prop where
  inUse : InUse pcb
  refuses : ¬pcb.state.Writable

theorem Refuses.congr
    {before after : TcpPcb}
    (refuses : Refuses before)
    (inUse : InUse after)
    (state : after.state = before.state) :
    Refuses after :=
  ⟨inUse, state ▸ refuses.refuses⟩

theorem refusesRules :
    SendRules (fun _ => True) (fun _ => True) Refuses (fun _ => True)
      (fun _ _ => True) where
  faults _ _ _ _ _ := trivial
  bare _ _ := trivial
  live _ refuses := refuses.inUse.live
  waiting pcb refuses := anyRules.waiting pcb refuses.inUse
  view before after same refuses :=
    refuses.congr (anyRules.view before after same refuses.inUse) same.state
  finView _ _ _ _ := trivial
  fireView _ _ _ _ := trivial
  output pcb world refuses := by
    refine wp_weaken (anyRules.output pcb world refuses.inUse) ?_
    rintro ⟨err, after⟩ later ⟨frame, inUse, fin, emits⟩
    exact ⟨frame, refuses.congr inUse frame.state, fin, emits⟩
  fin pcb next world refuses _ shuts :=
    absurd shuts.writable refuses.refuses
  fires pcb world refuses stillOpen running _ := by
    refine wp_weaken
      (anyRules.fires pcb world refuses.inUse stillOpen running trivial) ?_
    rintro after later ⟨frame, inUse, emits⟩
    refine ⟨frame, refuses.congr inUse ?_, emits⟩
    rcases frame.state with ⟨same, -⟩ | ⟨impossible, -⟩
    · exact same
    · cases impossible
  rto pcb refuses idle := by
    obtain ⟨_, _, state⟩ := tcpRexmitRtoPrepare_same pcb
    exact refuses.congr (anyRules.rto pcb refuses.inUse idle) state
  persist pcb refuses := anyRules.persist pcb refuses.inUse

theorem refusesInputs :
    InputRules Refuses (fun _ _ => True) where
  noted packet before after refuses waits noted state :=
    refuses.congr
      (inUseInputs.noted packet before after refuses.inUse waits noted state)
      state
  handshakeRexmit pcb refuses waits :=
    absurd (.inr (.inr waits)) refuses.refuses
  acked packet before middle after refuses ok noted acks established judged wnd
      queues := by
    refine refuses.congr
      (inUseInputs.acked packet before middle after refuses.inUse ok noted acks
        established judged wnd queues) ?_
    have state : after.state = middle.state := judged.state
    rcases noted.state with same | ⟨waits, -⟩
    · exact state.trans same
    · exact absurd (.inr (.inr waits)) refuses.refuses
  moved pcb fin state refuses moves synchronized stillOpen :=
    ⟨inUseInputs.moved pcb fin state refuses.inUse moves synchronized stillOpen,
      moves.not_writable refuses.refuses⟩
  timeWait pcb refuses := by
    refine ⟨inUseInputs.timeWait pcb refuses.inUse, ?_⟩
    rintro (state | state | state) <;> cases state

/-- A pcb that takes no data never takes data again. -/
theorem perform_refuses
    (event : Event)
    (refuses : Refuses pcb)
    (attached : Attached world.pcbAddr pcb world.stream) :
    wp (perform (some pcb) event)
      (fun result _ =>
        result.2.NothingWritten ∧
          ∀ after, result.1 = some after → ¬after.state.Writable)
      (fun _ => True) world := by
  by_cases write : ∃ buf, event = .pollWrite buf
  · obtain ⟨buf, rfl⟩ := write
    refine wp_weaken (performPollWrite_refused buf (some pcb) ?_) ?_
    · rintro _ ⟨⟩
      exact refuses.refuses
    · rintro ⟨left, outcome⟩ later ⟨same, nothing⟩
      refine ⟨nothing, fun after isLeft => ?_⟩
      rw [same] at isLeft
      cases isLeft
      exact refuses.refuses
  · have noWrite (buf : Bytes) : event ≠ .pollWrite buf :=
      fun same => write ⟨buf, same⟩
    have admitted :
        EventOk (fun _ => True) (fun _ _ => True) (fun _ _ => True)
          (fun _ => True) pcb world.outputs event := by
      cases event <;> simp [EventOk]
    refine wp_weaken
      (wp_and (perform_noWrite (some pcb) event noWrite world)
        (perform_kept refusesRules refusesInputs (fun _ _ => trivial) pcb event
          refuses attached admitted noWrite)) ?_
    rintro result later ⟨other, stays⟩
    exact ⟨other.nothingWritten,
      fun after isLeft => (stays.pcb after isLeft).2.refuses⟩

/-! ## A FIN ends the stream -/

/-- The packet is no FIN. -/
def NoFin (packet : Packet) : Prop :=
  packet.flags.fin = false

/-- Either the pcb takes no more data, or no FIN was sent. -/
def Closing (world : World) (after : TcpPcb) (later : World) : Prop :=
  ¬after.state.Writable ∨ Emits NoFin world later

theorem noFin_of_bare
    {packet : Packet}
    (bare : Bare packet) :
    NoFin packet :=
  bare.2.1

theorem tcpCloseShutdownFin_closing
    (pcb : TcpPcb)
    (inUse : InUse pcb) :
    wp (tcpCloseShutdownFin pcb)
      (fun result later => Closing world result.2 later)
      (fun _ => True) world := by
  have queued (next : TcpState) (shuts : Shuts pcb.state next) :
      wp
        (tcpSendFin pcb >>= fun sent =>
          if sent.1 = .ok then
            tcpOutput false { sent.2 with state := next } >>= fun out =>
              pure (Err.ok, out.2)
          else if sent.1 = .mem then
            pure (.ok, { sent.2 with flags.closepend := true })
          else
            pure (sent.1, sent.2))
        (fun result later => Closing world result.2 later)
        (fun _ => True) world := by
    rw [wp_bind]
    refine wp_weaken
      (wp_and (anyRules.fin pcb next world inUse trivial shuts)
        (tcpSendFin_spec (fun _ _ => trivial) pcb)) ?_
    rintro ⟨err, after⟩ middle ⟨⟨_, closed, _, _⟩, emits, _⟩
    have quiet : Emits NoFin world middle := emits.mono fun _ => noFin_of_bare
    rw [wp_ite]
    refine ⟨fun ok => ?_, fun _ => ?_⟩
    · rw [wp_bind]
      refine wp_weaken (anyRules.tcpOutput_kept _ middle (closed ok)) ?_
      rintro ⟨_, final⟩ later kept
      refine .inl ?_
      rcases kept.frame.state with ⟨same, _⟩ | ⟨shut, _⟩
      · have moved : final.state = next := same
        dsimp only
        rw [moved]
        exact shuts.not_writable
      · cases shut
    · rw [wp_ite]
      exact ⟨fun _ => .inr quiet, fun _ => .inr quiet⟩
  unfold tcpCloseShutdownFin
  cases state : pcb.state with
  | synRcvd =>
      exact queued .finWait1 (state ▸ .synRcvd)
  | established =>
      exact queued .finWait1 (state ▸ .established)
  | closeWait =>
      exact queued .lastAck (state ▸ .closeWait)
  | _ =>
      exact .inr (Emits.refl world)

theorem retryClosepend_closing
    (pcb : TcpPcb)
    (inUse : InUse pcb) :
    wp (retryClosepend pcb) (Closing world) (fun _ => True) world := by
  unfold retryClosepend
  rw [wp_ite]
  refine ⟨fun _ => ?_, fun _ => .inr (Emits.refl world)⟩
  rw [wp_bind]
  exact wp_weaken (tcpCloseShutdownFin_closing _ (inUse.congr rfl rfl))
    fun _ _ closing => closing

theorem pollShutdownPcb_closing
    (stream : TcpStream)
    (pcb : TcpPcb)
    (inUse : InUse pcb) :
    wp (pollShutdownPcb stream pcb)
      (fun result later => Closing world result.2.2 later)
      (fun _ => True) world := by
  have shut :
      wp (tcpShutdownTx pcb)
        (fun result later => Closing world result.2 later)
        (fun _ => True) world := by
    unfold tcpShutdownTx
    split
    · exact tcpCloseShutdownFin_closing pcb inUse
    · exact tcpCloseShutdownFin_closing pcb inUse
    · exact tcpCloseShutdownFin_closing pcb inUse
    · exact .inr (Emits.refl world)
  unfold pollShutdownPcb
  rw [wp_bind]
  refine wp_weaken shut ?_
  rintro ⟨err, after⟩ later closing
  rw [wp_ite]
  exact ⟨fun _ => closing, fun _ => closing⟩

/-- While the pcb takes data, none of its queued segments has a FIN, so what is
sent but by a close has none. -/
theorem QueuedStream.plain
    (kept : QueuedStream log True pcb)
    (writable : pcb.state.Writable) :
    QueuedStream log False pcb where
  formed := kept.formed
  queued := kept.queued.mono fun _ onStream =>
    ⟨fun fin => absurd writable (onStream.closing fin).1, onStream.holds⟩
  last := kept.last

theorem noFin_of_sends
    {packet : Packet}
    (sends : log.Sends False packet) :
    NoFin packet :=
  Bool.eq_false_iff.mpr sends.shut

theorem AllFormed.inUse
    {pcb : TcpPcb}
    (formed : AllFormed pcb) :
    InUse pcb :=
  ⟨formed.live, formed.drained⟩

theorem fasttmrPcb_closing
    (kept : QueuedStream log False pcb)
    (taken : pcb.refusedData = none) :
    wp (fasttmrPcb pcb) (Closing world) (fun _ => True) world := by
  unfold fasttmrPcb
  rw [wp_bind]
  refine wp_weaken ((streamRules log False).delayedAck_kept pcb world kept) ?_
  rintro acked middle ⟨stays, _, _⟩
  have inUse := stays.inv.formed.inUse
  have quiet := stays.emits.mono fun _ => noFin_of_sends
  rw [wp_bind]
  refine wp_weaken
    (wp_and (retryClosepend_closing acked inUse)
      (anyRules.retryClosepend_kept acked middle inUse fun _ => trivial)) ?_
  rintro closed later ⟨closing, same⟩
  have untouched : closed.refusedData = none := by
    rw [same.frame.rcv, stays.frame.rcv]
    exact taken
  rw [wp_bind, tcpProcessRefusedData_none _ _ untouched]
  rcases closing with refuses | emits
  · exact .inl refuses
  · exact .inr (quiet.trans emits)

/-- What is new in `later` is no FIN. -/
def NewNoFin (world later : World) : Prop :=
  ∃ more, later.sent = world.sent ++ more ∧ ∀ packet ∈ more, NoFin packet

/-- An event that sends a FIN leaves a pcb, if any, that takes no data. -/
theorem perform_closing
    (event : Event)
    (kept : QueuedStream log True pcb)
    (writable : pcb.state.Writable)
    (attached : Attached world.pcbAddr pcb world.stream)
    (admitted : event.Follows log True pcb world.allocs world.outputs) :
    wp (perform (some pcb) event)
      (fun result later =>
        (∀ after, result.1 = some after → ¬after.state.Writable) ∨
          NewNoFin world later)
      (fun _ => True) world := by
  have plain := kept.plain writable
  have nothing : NewNoFin world world := ⟨[], by simp, by simp⟩
  have closed (after : TcpPcb) (later : World)
      (closing : Closing world after later) :
      (∀ final, some after = some final → ¬final.state.Writable) ∨
        NewNoFin world later := by
    rcases closing with refuses | emits
    · refine .inl fun final left => ?_
      cases left
      exact refuses
    · exact .inr emits.sent
  have quietly
      (allowed : event.Follows log False pcb world.allocs world.outputs) :
      wp (perform (some pcb) event)
        (fun result later =>
          (∀ after, result.1 = some after → ¬after.state.Writable) ∨
            NewNoFin world later)
        (fun _ => True) world := by
    refine wp_weaken (perform_stream event plain attached allowed) ?_
    rintro result later stays
    obtain ⟨more, sent, all⟩ := stays.sent
    exact .inr ⟨more, sent, fun packet member =>
      noFin_of_sends (all packet member)⟩
  cases event with
  | fasttmr =>
      unfold perform
      simp only
      rw [wp_ite]
      refine ⟨fun _ => .inr nothing, fun _ => ?_⟩
      rw [wp_bind]
      exact wp_weaken (fasttmrPcb_closing plain attached.taken) closed
  | handleClosepend =>
      unfold perform
      simp only
      rw [wp_ite]
      refine ⟨fun _ => .inr nothing, fun _ => ?_⟩
      rw [wp_bind]
      exact wp_weaken (retryClosepend_closing pcb kept.formed.inUse) closed
  | pollShutdown =>
      unfold perform
      refine onStream_attached attached (fun _ => .inr nothing)
        fun stream _ => ?_
      rw [wp_bind]
      refine wp_weaken
        (pollShutdownPcb_closing stream pcb kept.formed.inUse) ?_
      rintro ⟨result, next, after⟩ later closing
      unfold putStream
      simp only [wp_bind, wp_modify, wp_pure]
      exact closed after later closing
  | segment packet => exact quietly admitted
  | slowtmr => exact quietly admitted
  | pollWrite buf => exact quietly admitted
  | pollRead remaining => exact quietly trivial
  | pollFlush => exact quietly trivial
  | dropStream => exact quietly trivial
  | dropListener => exact quietly trivial
  | kill => exact quietly trivial

end Steps

/-! ## The run -/

/-- The steps that go on with the stream where it ends. -/
def FollowsStream (conn : Conn) (label : Label) : Prop :=
  ∀ pcb,
    conn.pcb = some pcb →
      label.event.Follows conn.history.sendLog True pcb label.allocs
        label.outputs

/-- All that was sent stands in the stream, and a FIN has ended it. -/
structure SendsStream (conn : Conn) : Prop where
  sent :
    ∀ packet ∈ conn.world.sent, conn.history.sendLog.Sends True packet
  ended :
    ∀ packet ∈ conn.world.sent,
      packet.flags.fin = true →
        ∀ pcb, conn.pcb = some pcb → ¬pcb.state.Writable
  pcb :
    ∀ pcb, conn.pcb = some pcb →
      Attached conn.world.pcbAddr pcb conn.world.stream ∧
        QueuedStream conn.history.sendLog True pcb

/-- Data that was sent stays in the stream, whatever is written. -/
theorem SendLog.Sends.record
    {log : SendLog}
    {packet : Packet}
    (sends : log.Sends True packet)
    (plain : NoFin packet)
    (outcome : Outcome) :
    (log.record outcome).Sends True packet := by
  refine ⟨fun _ => trivial, fun known taken => ?_⟩
  have grows (arg : Bytes) (grown : Grown log arg (log.record outcome)) :
      ∃ position,
        (log.record outcome).Placed position packet.seqno packet.payload ∧
          (packet.flags.fin = true →
            position + packet.payload.length =
              (log.record outcome).written.length) := by
    obtain ⟨position, placed, -⟩ := sends.holds (grown.known known) taken
    refine ⟨position, placed.grow grown.iss arg grown.written, fun fin => ?_⟩
    rw [plain] at fin
    cases fin
  have same (kept : log.record outcome = log) :
      Grown log [] (log.record outcome) := by
    rw [kept]
    exact ⟨rfl, (List.append_nil _).symm, id⟩
  cases outcome with
  | write buf result =>
      cases result with
      | ready written => exact grows _ (.ready log buf written)
      | outputError err => exact absurd rfl known
      | _ => exact grows [] (same rfl)
  | _ => exact grows [] (same rfl)

theorem sendsStream_initial
    {conn : Conn}
    (initial : conn.Initial) :
    SendsStream conn := by
  obtain ⟨sent, pcb⟩ :=
    (streamRules conn.history.sendLog False).initial_kept initial
      fun log packet listener world => by
        rw [log]
        refine ⟨formedInvariant.opening _ _ _ _, ⟨?_, List.forall_mem_nil _⟩,
          fun _ _ => (place_zero _).symm⟩
        intro seg member
        rw [List.mem_singleton.mp member]
        exact ⟨nofun, (SendLog.holds_empty _ _)⟩
  refine ⟨fun packet member => ⟨fun _ => trivial, (sent packet member).holds⟩,
    fun packet member fin => ((sent packet member).shut fin).elim,
    fun known present => ?_⟩
  obtain ⟨attached, kept⟩ := pcb known present
  refine ⟨attached, kept.formed, ?_, kept.last⟩
  exact kept.queued.mono fun _ onStream =>
    ⟨fun fin => (onStream.closing fin).2.elim, onStream.holds⟩

theorem SendsStream.step
    {conn after : Conn}
    {label : Label}
    (sends : SendsStream conn)
    (admitted : FollowsStream conn label)
    (taken : conn.step label = .ok after) :
    SendsStream after := by
  cases current : conn.pcb with
  | none =>
      have performed :=
        perform_none label.event conn.history.sendLog (label.enter conn.world)
      rw [← current] at performed
      have stepped := Conn.step_returned
        (wp_mono performed (fun _ _ same => same) fun _ _ => trivial) taken
      obtain ⟨outcome, history, gone, sent, log⟩ := stepped
      have sameLog : after.history.sendLog = conn.history.sendLog := by
        rw [history, History.sendLog_record]
        exact log
      have sameSent : after.world.sent = conn.world.sent := sent
      have noPcb (pcb : TcpPcb) : after.pcb ≠ some pcb := by
        have left : after.pcb = none := gone.trans current
        rw [left]
        exact nofun
      refine ⟨?_, fun packet _ _ pcb isSome => absurd isSome (noPcb pcb),
        fun pcb isSome => absurd isSome (noPcb pcb)⟩
      rw [sameLog, sameSent]
      exact sends.sent
  | some pcb =>
      obtain ⟨attached, kept⟩ := sends.pcb pcb current
      have entered :
          Attached (label.enter conn.world).pcbAddr pcb
            (label.enter conn.world).stream := attached
      have stays :=
        perform_stream label.event kept entered (admitted pcb current)
      by_cases writable : pcb.state.Writable
      · have performed :=
          wp_and stays
            (perform_closing label.event kept writable entered
              (admitted pcb current))
        rw [← current] at performed
        obtain ⟨outcome, history, ⟨pcbAddr, ⟨more, sent, all⟩, left⟩, ending⟩ :=
          Conn.step_returned performed taken
        have log :
            after.history.sendLog = conn.history.sendLog.record outcome := by
          rw [history, History.sendLog_record]
        have old (packet : Packet) (member : packet ∈ conn.world.sent) :
            NoFin packet :=
          Bool.eq_false_iff.mpr fun fin =>
            sends.ended packet member fin pcb current writable
        have grown : after.world.sent = conn.world.sent ++ more := sent
        refine ⟨?_, ?_, ?_⟩
        · intro packet member
          rw [grown] at member
          rw [log]
          rcases List.mem_append.mp member with member | member
          · exact (sends.sent packet member).record (old packet member) _
          · exact all packet member
        · intro packet member fin final isLeft
          rcases ending with refuses | ⟨plain, sameSent, noneFin⟩
          · exact refuses final isLeft
          · have same : more = plain :=
              List.append_cancel_left (sent.symm.trans sameSent)
            have noFin : NoFin packet := by
              rw [grown] at member
              rcases List.mem_append.mp member with member | member
              · exact old packet member
              · exact noneFin packet (same ▸ member)
            rw [noFin] at fin
            cases fin
        · intro final isLeft
          rw [log]
          have known := left final isLeft
          rw [← pcbAddr] at known
          exact known
      · have performed :=
          wp_and stays
            (perform_refuses label.event ⟨kept.formed.inUse, writable⟩ entered)
        rw [← current] at performed
        obtain ⟨outcome, history, ⟨pcbAddr, ⟨more, sent, all⟩, left⟩, nothing,
            refuses⟩ :=
          Conn.step_returned performed taken
        have log : after.history.sendLog = conn.history.sendLog := by
          rw [history, History.sendLog_record]
          exact SendLog.record_nothing _ nothing
        have grown : after.world.sent = conn.world.sent ++ more := sent
        rw [SendLog.record_nothing _ nothing] at all left
        refine ⟨?_, fun packet _ _ => refuses, ?_⟩
        · intro packet member
          rw [grown] at member
          rw [log]
          rcases List.mem_append.mp member with member | member
          · exact sends.sent packet member
          · exact all packet member
        · intro final isLeft
          rw [log]
          have known := left final isLeft
          rw [← pcbAddr] at known
          exact known

/-- Where a packet with data or a FIN stands in the stream. -/
theorem SendsStream.placed
    {conn : Conn}
    (sends : SendsStream conn)
    (succeeded : conn.history.outputFailed = false) :
    ∀ packet ∈ conn.world.sent,
      packet.payload ≠ [] ∨ packet.flags.fin = true →
        ∃ position,
          packet.seqno = place (conn.history.iss + 1) position ∧
            position + packet.payload.length ≤ conn.history.written.length ∧
              packet.payload =
                  (conn.history.written.drop position).take
                    packet.payload.length ∧
                (packet.flags.fin = true →
                  position + packet.payload.length =
                    conn.history.written.length) := by
  have known : ¬conn.history.sendLog.Lost := Bool.eq_false_iff.mp succeeded
  intro packet member taken
  obtain ⟨position, placed, fin⟩ := (sends.sent packet member).holds known taken
  exact ⟨position, placed.seqno, placed.inside, placed.data, fin⟩

/-- In every run that goes on with the stream where it ends, and as long as no
write has failed after its data was queued, each packet with data or a FIN
carries what `poll_write` has accepted, at the place its sequence number says,
and a FIN only comes after the last byte. -/
theorem sent_stream_follows
    {conn : Conn}
    (reached : connMachine.ReachedUnder FollowsStream conn)
    (succeeded : conn.history.outputFailed = false) :
    ∀ packet ∈ conn.world.sent,
      packet.payload ≠ [] ∨ packet.flags.fin = true →
        ∃ position,
          packet.seqno = place (conn.history.iss + 1) position ∧
            position + packet.payload.length ≤ conn.history.written.length ∧
              packet.payload =
                  (conn.history.written.drop position).take
                    packet.payload.length ∧
                (packet.flags.fin = true →
                  position + packet.payload.length =
                    conn.history.written.length) := by
  have sends : SendsStream conn := by
    refine reached.invariant (fun _ => sendsStream_initial) ?_
    intro before label after kept admitted taken
    exact kept.step admitted taken
  exact sends.placed succeeded

/-- The peer acknowledges nothing new, and has a window of `wnd` bytes. A byte
of its own, at 100, is lost. -/
def examplePeer (wnd : BitVec 16) : Label where
  event := .segment (exampleSegment { ack := true } 101 1 wnd [] [])

/-- A connection on which a write or a close finds nothing unsent. -/
def checkFollows (conn : Conn) (label : Label) : Bool :=
  match label.event with
  | .segment _ => true
  | .pollWrite _ | .pollShutdown => conn.pcb.all fun pcb => pcb.unsent.isEmpty
  | _ => false

theorem followsStream_of_check
    {conn : Conn}
    {label : Label}
    (checked : checkFollows conn label = true) :
    FollowsStream conn label := by
  intro pcb current
  have nothing
      (checked : (conn.pcb.all fun pcb => pcb.unsent.isEmpty) = true)
      (last : TcpSeg) :
      pcb.unsent.getLast? ≠ some last := by
    rw [current, Option.all_some, List.isEmpty_iff] at checked
    rw [checked]
    exact nofun
  unfold checkFollows at checked
  cases event : label.event with
  | segment packet =>
      exact fun _ _ => trivial
  | pollWrite buf =>
      rw [event] at checked
      exact fun _ _ last isLast => absurd isLast (nothing checked last)
  | pollShutdown =>
      rw [event] at checked
      exact fun _ _ =>
        ⟨trivial, fun last isLast => absurd isLast (nothing checked last)⟩
  | _ =>
      rw [event] at checked
      cases checked

/-- The byte that the peer's third duplicate has made wait behind a closed
window is sent again once the window opens; then come the rest and the
close. -/
theorem sent_stream_follows_closed_window :
    ∃ conn,
      connMachine.ReachedUnder FollowsStream conn ∧
        conn.history.written = [1, 2, 3, 9] ∧
        conn.world.sent.map (fun packet => (packet.payload, packet.flags.fin)) =
            [([], false), ([1], false), ([2, 3], false), ([1], false),
              ([9], false), ([], true)] ∧
          ∀ packet ∈ conn.world.sent,
            packet.payload ≠ [] ∨ packet.flags.fin = true →
              ∃ position,
                packet.seqno = place (conn.history.iss + 1) position ∧
                  position + packet.payload.length ≤
                      conn.history.written.length ∧
                    packet.payload =
                        (conn.history.written.drop position).take
                          packet.payload.length ∧
                      (packet.flags.fin = true →
                        position + packet.payload.length =
                          conn.history.written.length) := by
  obtain ⟨conn, reached, holds⟩ :=
    exists_reachedUnder FollowsStream checkFollows
      (fun _ _ checked => followsStream_of_check checked)
      (exampleSyn 1000 [2, 4, 0, 2]) 0 0 exampleWorld
      ([exampleHandshake, { event := .pollWrite [1] },
          { event := .pollWrite [2, 3] }] ++
        List.replicate 4 (examplePeer 0) ++
        [examplePeer 1000, { event := .pollWrite [9] },
          { event := .pollShutdown }])
      (fun conn =>
        !conn.history.outputFailed && conn.history.written == [1, 2, 3, 9] &&
          conn.world.sent.map
              (fun packet => (packet.payload, packet.flags.fin)) ==
            [([], false), ([1], false), ([2, 3], false), ([1], false),
              ([9], false), ([], true)])
      rfl rfl rfl (by decide +kernel)
  rw [Bool.and_eq_true, Bool.and_eq_true, Bool.not_eq_true', beq_iff_eq,
    beq_iff_eq] at holds
  obtain ⟨⟨succeeded, written⟩, sent⟩ := holds
  exact ⟨conn, reached, written, sent, sent_stream_follows reached succeeded⟩

/-- Outside these runs the stream can break. A byte that is to be sent again
waits on `unsent` for the window to open, though two more bytes are in flight,
and the next write appends to it: the peer is sent a 9 where the second byte
was a 2. -/
theorem sent_stream_torn :
    ∃ conn packet,
      connMachine.Reached conn ∧ conn.history.outputFailed = false ∧
        conn.history.written = [1, 2, 3, 9] ∧
          packet ∈ conn.world.sent ∧
            packet.seqno = conn.history.iss + 1 ∧ packet.payload = [1, 9] := by
  obtain ⟨conn, reached, holds⟩ :=
    exists_reached (exampleSyn 1000 [2, 4, 0, 2]) 0 0 exampleWorld
      ([exampleHandshake, { event := .pollWrite [1] },
          { event := .pollWrite [2, 3] }] ++
        List.replicate 4 (examplePeer 0) ++
        [{ event := .pollWrite [9] }, examplePeer 1000])
      (fun conn =>
        !conn.history.outputFailed && conn.history.written == [1, 2, 3, 9] &&
          conn.world.sent.any fun packet =>
            packet.seqno == conn.history.iss + 1 && packet.payload == [1, 9])
      rfl rfl rfl (by decide +kernel)
  rw [Bool.and_eq_true, Bool.and_eq_true, Bool.not_eq_true', beq_iff_eq,
    List.any_eq_true] at holds
  obtain ⟨⟨succeeded, written⟩, packet, member, torn⟩ := holds
  rw [Bool.and_eq_true, beq_iff_eq, beq_iff_eq] at torn
  exact ⟨conn, packet, reached, succeeded, written, member, torn⟩

/-! ## What `snd_lbb` tells -/

/-- The last unsent segment, unless it is a SYN or a FIN, ends at `snd_lbb`. -/
def EndsStream (pcb : TcpPcb) : Prop :=
  ∀ last,
    pcb.unsent.getLast? = some last →
      last.hdr.fin = false →
        last.hdr.syn = false → place last.seqno last.len = pcb.sndLbb

/-- The last unsent segment, if a write may fill it up, ends at `snd_lbb`. -/
def RoomEndsStream (pcb : TcpPcb) : Prop :=
  ∀ last,
    pcb.unsent.getLast? = some last →
      last.len + last.optLength < mssLocal pcb →
        0 < last.len ∨ 0 < pcb.unsentOversize →
          place last.seqno last.len = pcb.sndLbb

/-- A FIN may be queued, and goes to `snd_lbb`. -/
def MayShut (shut : Prop) (pcb : TcpPcb) : Prop :=
  shut ∧ EndsStream pcb

/-- What the pcb alone says of a step: a write fills up, and a FIN is set on, a
segment that ends at `snd_lbb` only, and the persist timer cuts no FIN. -/
def Event.Appends
    (shut : Prop)
    (pcb : TcpPcb)
    (outputs : List Err) :
    Event → Prop :=
  EventOk (MayShut shut) CutsNoFin (fun _ _ => True) RoomEndsStream pcb outputs

/-- The steps that append to the stream where it ends. -/
def AppendsAtEnd (conn : Conn) (label : Label) : Prop :=
  ∀ pcb, conn.pcb = some pcb → label.event.Appends True pcb label.outputs

instance (pcb : TcpPcb) : Decidable (EndsStream pcb) :=
  inferInstanceAs
    (Decidable (∀ last ∈ pcb.unsent.getLast?, _ → _ → _))

instance (pcb : TcpPcb) : Decidable (RoomEndsStream pcb) :=
  inferInstanceAs
    (Decidable (∀ last ∈ pcb.unsent.getLast?, _ → _ → _))

/-- Two positions with one sequence number are the same, as long as sequence
numbers have not come around. -/
theorem SendLog.position_eq
    {log : SendLog}
    (small : log.written.length < 2 ^ 32)
    {position : Nat}
    (inside : position ≤ log.written.length)
    (same :
      place (log.iss + 1) position = place (log.iss + 1) log.written.length) :
    position = log.written.length := by
  have gap :=
    distance_place_of_le (log.iss + 1) inside
      (Nat.lt_of_le_of_lt (Nat.sub_le _ _) small)
  rw [same, distance, BitVec.sub_self] at gap
  exact Nat.le_antisymm inside (Nat.sub_eq_zero_iff_le.mp gap.symm)

/-- Until then a segment that ends at `snd_lbb` is the last of the stream. -/
theorem QueuedStream.lastOfStream
    {log : SendLog}
    {shut : Prop}
    {pcb : TcpPcb}
    {seg : TcpSeg}
    (kept : QueuedStream log shut pcb)
    (known : ¬log.Lost)
    (small : log.written.length < 2 ^ 32)
    (writable : pcb.state.Writable)
    (member : seg ∈ pcb.unsent)
    (ends : place seg.seqno seg.len = pcb.sndLbb) :
    LastOfStream log pcb seg := by
  refine ⟨?_, ends⟩
  by_cases empty : seg.p.data = []
  · rw [empty]
    exact List.nil_suffix
  · have length : seg.p.data.length = seg.len :=
      (kept.formed.formed.1 seg member).whole
    obtain ⟨position, placed, -⟩ :=
      (kept.queued.1 seg member).holds known (.inl empty)
    have ending : position + seg.p.data.length = log.written.length := by
      refine SendLog.position_eq small placed.inside ?_
      rw [← kept.last known writable, ← ends, placed.seqno, place_place,
        length]
    rw [placed.data, List.take_of_length_le (by rw [List.length_drop]; omega)]
    exact List.drop_suffix position log.written

/-- A write fills the last unsent segment up only if it has room. -/
theorem tailPlan_room
    {pcb : TcpPcb}
    {size : Nat}
    {last : TcpSeg}
    (isLast : pcb.unsent.getLast? = some last)
    (positive : 0 < (tailPlan pcb size).bytes) :
    last.len + last.optLength < mssLocal pcb ∧
      (0 < last.len ∨ 0 < pcb.unsentOversize) := by
  unfold tailPlan TailPlan.bytes at positive
  rw [isLast] at positive
  dsimp only at positive
  split at positive <;> dsimp only at positive <;> omega

/-- Until then the steps are the same. -/
theorem Event.Appends.follows
    {log : SendLog}
    {pcb : TcpPcb}
    {allocs : List Bool}
    {outputs : List Err}
    {event : Event}
    (appends : event.Appends True pcb outputs)
    (kept : QueuedStream log True pcb)
    (known : ¬log.Lost)
    (small : log.written.length < 2 ^ 32) :
    event.Follows log True pcb allocs outputs := by
  have shuts (may : MayShut True pcb) : ShutsAtEnd log True pcb := by
    intro writable
    refine ⟨trivial, fun last isLast fin syn => ?_⟩
    exact kept.lastOfStream known small writable (List.mem_of_getLast? isLast)
      (may.2 last isLast fin syn)
  cases event with
  | pollWrite buf =>
      intro accepts positive last isLast
      obtain ⟨room, taken⟩ := tailPlan_room isLast positive
      exact kept.lastOfStream known small accepts.writable
        (List.mem_of_getLast? isLast) (appends last isLast room taken)
  | fasttmr => exact fun late pending => shuts (appends late pending)
  | handleClosepend => exact fun late pending => shuts (appends late pending)
  | pollShutdown => exact fun streaming => shuts (appends streaming)
  | _ => exact appends

/-- What is lost, or too long, stays so. -/
theorem Conn.step_beyond
    {before after : Conn}
    {label : Label}
    (taken : before.step label = .ok after) :
    (before.history.outputFailed = true → after.history.outputFailed = true) ∧
      before.history.written.length ≤ after.history.written.length := by
  unfold Conn.step at taken
  split at taken
  · rename_i pcb outcome world ran
    cases taken
    cases outcome with
    | write buf result => cases result <;> simp [History.record]
    | _ => exact ⟨id, Nat.le_refl _⟩
  · cases taken

/-- All that was sent stands in the stream, until a write fails after its data
was queued or sequence numbers come around. -/
def SendsWhileKnown (conn : Conn) : Prop :=
  conn.history.outputFailed = true ∨
    2 ^ 32 ≤ conn.history.written.length ∨ SendsStream conn

theorem SendsWhileKnown.step
    {conn after : Conn}
    {label : Label}
    (sends : SendsWhileKnown conn)
    (admitted : AppendsAtEnd conn label)
    (taken : conn.step label = .ok after) :
    SendsWhileKnown after := by
  obtain ⟨fails, grows⟩ := Conn.step_beyond taken
  rcases sends with failed | long | sends
  · exact .inl (fails failed)
  · exact .inr (.inl (Nat.le_trans long grows))
  · by_cases failed : conn.history.outputFailed = true
    · exact .inl (fails failed)
    by_cases long : 2 ^ 32 ≤ conn.history.written.length
    · exact .inr (.inl (Nat.le_trans long grows))
    refine .inr (.inr (sends.step (fun pcb current => ?_) taken))
    exact (admitted pcb current).follows (sends.pcb pcb current).2 failed
      (Nat.not_le.mp long)

/-- In every run that appends where the stream ends, and as long as no write
has failed after its data was queued, each packet with data or a FIN carries
what `poll_write` has accepted, at the place its sequence number says, and a
FIN only comes after the last byte. -/
theorem sent_stream_intact
    {conn : Conn}
    (reached : connMachine.ReachedUnder AppendsAtEnd conn)
    (succeeded : conn.history.outputFailed = false)
    (small : conn.history.written.length < 2 ^ 32) :
    ∀ packet ∈ conn.world.sent,
      packet.payload ≠ [] ∨ packet.flags.fin = true →
        ∃ position,
          packet.seqno = place (conn.history.iss + 1) position ∧
            position + packet.payload.length ≤ conn.history.written.length ∧
              packet.payload =
                  (conn.history.written.drop position).take
                    packet.payload.length ∧
                (packet.flags.fin = true →
                  position + packet.payload.length =
                    conn.history.written.length) := by
  have sends : SendsWhileKnown conn := by
    refine reached.invariant
      (fun _ initial => .inr (.inr (sendsStream_initial initial))) ?_
    intro before label after kept admitted taken
    exact kept.step admitted taken
  rcases sends with failed | long | sends
  · rw [succeeded] at failed
    cases failed
  · exact absurd small (Nat.not_lt.mpr long)
  · exact sends.placed succeeded

/-- A pcb on which every step appends to the stream where it ends. -/
def checkAppends (conn : Conn) : Bool :=
  conn.pcb.all fun pcb =>
    EndsStream pcb && RoomEndsStream pcb && CutsNoFin pcb []

theorem appendsAtEnd_of_check
    {conn : Conn}
    (label : Label)
    (checked : checkAppends conn = true) :
    AppendsAtEnd conn label := by
  intro pcb current
  rw [checkAppends, current, Option.all_some, Bool.and_eq_true, Bool.and_eq_true,
    decide_eq_true_iff, decide_eq_true_iff, decide_eq_true_iff] at checked
  obtain ⟨⟨ends, room⟩, cuts⟩ := checked
  cases label.event with
  | segment packet => exact fun _ _ => trivial
  | slowtmr => exact fun _ _ => cuts
  | fasttmr => exact fun _ _ => ⟨trivial, ends⟩
  | handleClosepend => exact fun _ _ => ⟨trivial, ends⟩
  | pollShutdown => exact fun _ => ⟨trivial, ends⟩
  | pollWrite buf => exact room
  | _ => exact trivial

/-- Two writes and a close, all of which the retransmission timer sends
again. -/
theorem sent_stream_intact_retransmitted :
    ∃ conn,
      connMachine.ReachedUnder AppendsAtEnd conn ∧
        conn.history.written = [1, 2, 3] ∧
        conn.world.sent.map (fun packet => (packet.payload, packet.flags.fin)) =
            [([], false), ([1, 2], false), ([3], false), ([], true),
              ([1, 2], false), ([3], false), ([], true)] ∧
          ∀ packet ∈ conn.world.sent,
            packet.payload ≠ [] ∨ packet.flags.fin = true →
              ∃ position,
                packet.seqno = place (conn.history.iss + 1) position ∧
                  position + packet.payload.length ≤
                      conn.history.written.length ∧
                    packet.payload =
                        (conn.history.written.drop position).take
                          packet.payload.length ∧
                      (packet.flags.fin = true →
                        position + packet.payload.length =
                          conn.history.written.length) := by
  obtain ⟨conn, reached, holds⟩ :=
    exists_reachedUnder AppendsAtEnd (fun before _ => checkAppends before)
      (fun _ label checked => appendsAtEnd_of_check label checked)
      (exampleSyn 1000 []) 0 0 exampleWorld
      ([exampleHandshake, { event := .pollWrite [1, 2] },
          { event := .pollWrite [3] }, { event := .pollShutdown }] ++
        List.replicate 8 { event := .slowtmr })
      (fun conn =>
        !conn.history.outputFailed && conn.history.written == [1, 2, 3] &&
          conn.world.sent.map
              (fun packet => (packet.payload, packet.flags.fin)) ==
            [([], false), ([1, 2], false), ([3], false), ([], true),
              ([1, 2], false), ([3], false), ([], true)])
      rfl rfl rfl (by decide +kernel)
  rw [Bool.and_eq_true, Bool.and_eq_true, Bool.not_eq_true', beq_iff_eq,
    beq_iff_eq] at holds
  obtain ⟨⟨succeeded, written⟩, sent⟩ := holds
  refine ⟨conn, reached, written, sent,
    sent_stream_intact reached succeeded ?_⟩
  rw [written]
  decide

end NetstackLwip

import NetstackLwip.AdvertisedWindow
import NetstackLwip.FormedQueues
import NetstackLwip.StreamIntegrity

namespace NetstackLwip

/-!
# The end of a connection, as its reader sees it

While no ACK of the local FIN ends the connection under a live stream, the
stream keeps its pcb, and a read answers with the next bytes, with the end of
the peer's bytes, or not yet.
-/

open FaultState FaultMachine

/-! ## What a read has to answer -/

/-- The next bytes that have come, the end once they are all read, or nothing
yet. -/
inductive Answers (history : History) (remaining : Nat) : PollRead → Prop where
  | next
      (bytes rest : Bytes)
      (nonempty : bytes ≠ [])
      (fits : bytes.length ≤ remaining)
      (inOrder : history.returned ++ bytes ++ rest = history.accepted) :
      Answers history remaining (.ready bytes)
  | ended
      (all : history.returned = history.accepted)
      (fin : history.finAccepted = true) :
      Answers history remaining (.ready [])
  | waits
      (all : history.returned = history.accepted)
      (unfinished : history.finAccepted = false) :
      Answers history remaining .pending

/-- What is returned where the receiver is Pending was taken before. -/
theorem readPending_ready
    {taken bytes : Bytes}
    {stream : TcpStream}
    (returns : readPending taken stream = .ready bytes) :
    bytes = taken := by
  unfold readPending at returns
  split at returns
  · cases returns
    rfl
  · cases returns

/-- A read puts no more into the buffer than there is room for. -/
theorem readChunks_fits
    (chunks : List Bytes)
    (recvs : List Bool)
    (remaining : Nat)
    (taken : Bytes)
    {stream : TcpStream}
    {bytes : Bytes}
    (returns :
      (readChunks chunks recvs remaining taken stream).result = .ready bytes) :
    bytes.length ≤ taken.length + remaining := by
  induction chunks generalizing recvs remaining taken with
  | nil =>
      unfold readChunks at returns
      dsimp only at returns
      split at returns
      · cases returns
      · rw [readPending_ready returns]
        exact Nat.le_add_right _ _
  | cons data rest inductionHypothesis =>
      unfold readChunks at returns
      split at returns
      · rw [readPending_ready returns]
        exact Nat.le_add_right _ _
      split at returns
      · cases returns
        exact Nat.le_add_right _ _
      · dsimp only at returns
        split at returns
        · cases returns
          rw [List.length_append, List.length_take]
          omega
        · have short := inductionHypothesis _ _ _ returns
          rw [List.length_append, List.length_take] at short
          omega

/-- Bytes already taken are returned. -/
theorem readChunks_taken
    (chunks : List Bytes)
    (recvs : List Bool)
    (remaining : Nat)
    {taken : Bytes}
    {stream : TcpStream}
    (nonempty : taken ≠ []) :
    (readChunks chunks recvs remaining taken stream).result ≠ .pending := by
  have returned : readPending taken stream = .ready taken := by
    simp [readPending, nonempty]
  induction chunks generalizing recvs remaining taken with
  | nil =>
      unfold readChunks
      dsimp only
      split
      · simp
      · simp [returned]
  | cons data rest inductionHypothesis =>
      unfold readChunks
      split
      · simp [returned]
      split
      · simp
      · dsimp only
        split
        · simp
        · have more :
              taken ++ data.take (min remaining data.length) ≠ [] := by
            simp [nonempty]
          exact inductionHypothesis _ _ more (by simp [readPending, nonempty])

/-- A read whose first look into the channel is served waits only where
nothing is there. -/
theorem readStream_waits
    {recvs : List Bool}
    {remaining : Nat}
    {stream : TcpStream}
    (served : recvs.headD true = true)
    (waits : (readStream recvs remaining stream).result = .pending) :
    stream.writeBuf = [] ∧ stream.readRx = [] ∧ stream.isEof = false := by
  unfold readStream at waits
  split at waits
  · cases waits
  · rename_i empty
    have empty : stream.writeBuf = [] := by simpa using empty
    cases queue : stream.readRx with
    | nil =>
        refine ⟨empty, rfl, ?_⟩
        rw [queue] at waits
        unfold readChunks readPending at waits
        dsimp only at waits
        split at waits
        · cases waits
        · split at waits
          · cases waits
          · rename_i notEof
            simpa using notEof
    | cons data rest =>
        exfalso
        rw [queue] at waits
        unfold readChunks at waits
        rw [served, if_neg (by decide)] at waits
        split at waits
        · cases waits
        · rename_i filled
          dsimp only at waits
          split at waits
          · cases waits
          · rename_i whole
            refine readChunks_taken _ _ _ ?_ waits
            rw [List.nil_append, List.take_of_length_le (by omega)]
            simpa using filled

theorem Balanced.answers
    {history : History}
    {stream : TcpStream}
    (balanced : Balanced history stream)
    (listens : stream.readTx = true)
    {recvs : List Bool}
    (served : recvs.headD true = true)
    {remaining : Nat}
    (room : 0 < remaining) :
    Answers history remaining (readStream recvs remaining stream).result := by
  obtain ⟨bytes, reads⟩ :=
    readStream_reads recvs remaining balanced.marked listens
  have inOrder :
      history.returned ++ bytes ++
          ((readStream recvs remaining stream).stream.writeBuf ++
            (readStream recvs remaining stream).stream.readRx.flatten) =
        history.accepted := by
    rw [← balanced.bytes, List.append_assoc, ← List.append_assoc bytes,
      reads.joined, List.append_assoc]
  rcases reads.result with ready | ⟨waits, -⟩
  · rw [ready]
    cases bytes with
    | nil =>
        obtain ⟨fin, all⟩ := balanced.end listens room ready
        exact .ended all fin
    | cons byte more =>
        have fits : (byte :: more).length ≤ remaining := by
          have short := ready
          unfold readStream at short
          split at short
          · injection short with same
            rw [← same, List.length_take]
            omega
          · have fits := readChunks_fits _ _ _ _ short
            rw [List.length_nil, Nat.zero_add] at fits
            exact fits
        exact .next _ _ (List.cons_ne_nil _ _) fits inOrder
  · obtain ⟨writeBuf, readRx, notEof⟩ := readStream_waits served waits
    obtain ⟨chunks, -, queue, -⟩ := balanced.marked
    have all := balanced.bytes
    rw [writeBuf, readRx, List.append_nil, List.flatten_nil,
      List.append_nil] at all
    rw [waits]
    refine .waits all ?_
    cases fin : history.finAccepted with
    | false => rfl
    | true =>
        rw [readRx, fin, notEof] at queue
        simp at queue

/-! ## A read returns -/

section Returns

variable {world : World}

/-- No reset is queued, so output meets no assertion. -/
theorem tcpOutputLoop_total
    (wnd : Nat)
    (queue : List TcpSeg)
    (pcb : TcpPcb)
    (formed : ∀ seg ∈ queue, Formed seg) :
    wp (tcpOutputLoop wnd queue pcb) (fun _ _ => True) (fun _ => False)
      world := by
  induction queue generalizing pcb world with
  | nil => trivial
  | cons seg rest inductionHypothesis =>
      have noRst := (formed seg List.mem_cons_self).noRst
      unfold tcpOutputLoop
      rw [wp_ite]
      refine ⟨fun _ => ?_, fun _ => trivial⟩
      rw [wp_bind, wp_ensure]
      refine ⟨fun _ => ?_, fun bad => absurd noRst (by simpa using bad)⟩
      rw [wp_ite]
      refine ⟨fun _ => trivial, fun _ => ?_⟩
      rw [wp_bind]
      refine wp_weaken (tcpOutputSegment_spec _ pcb) fun result _ _ => ?_
      rw [wp_ite]
      exact ⟨fun _ => trivial, fun _ =>
        inductionHypothesis _ fun other member =>
          formed other (List.mem_cons_of_mem _ member)⟩

theorem tcpOutput_total
    (pcb : TcpPcb)
    (formed : AllFormed pcb) :
    wp (tcpOutput false pcb) (fun result _ => AllFormed result.2)
      (fun _ => False) world := by
  have returns :
      wp (tcpOutput false pcb) (fun _ _ => True) (fun _ => False) world := by
    have acked (middle : TcpPcb) :
        wp
          (if middle.flags.ackNow then
            tcpSendEmptyAck middle
          else
            pure (outputDone middle))
          (fun _ _ => True) (fun _ => False) world := by
      rw [wp_ite]
      exact ⟨fun _ => wp_weaken (tcpSendEmptyAck_spec middle)
        fun _ _ _ => trivial, fun _ => trivial⟩
    unfold tcpOutput
    rw [if_neg Bool.false_ne_true]
    dsimp only
    split
    · exact acked pcb
    · rename_i seg rest queue
      rw [wp_ite]
      refine ⟨fun _ => acked _, fun _ => ?_⟩
      refine tcpOutputLoop_total _ _ _ fun other member => ?_
      exact formed.formed.1 other (queue ▸ member)
  refine wp_weaken (wp_also returns (formedRules.output pcb world formed)) ?_
  rintro result later ⟨-, -, kept, -⟩
  exact kept

/-- The only assertion in the way of `tcp_recved`. -/
theorem tcpRecved_total
    (pcb : TcpPcb)
    (len : Nat)
    (formed : AllFormed pcb) :
    wp (tcpRecved false pcb len) (fun after _ => AllFormed after)
      (fun fault => fault = .newRcvAnnWnd) world := by
  unfold tcpRecved
  rw [wp_bind]
  refine wp_weaken
    (tcpUpdateRcvAnnWnd_spec { pcb with rcvWnd := recvedWnd pcb.rcvWnd len }
      rfl) ?_
  rintro ⟨inflation, updated⟩ later ⟨-, wnd, same⟩
  rw [show updated = _ from same, wp_ite]
  refine ⟨fun _ => ?_, fun _ => ⟨formed.live, formed.mss, formed.queued⟩⟩
  rw [wp_bind]
  exact wp_mono
    (tcpOutput_total _ ⟨formed.live, formed.mss, formed.queued⟩)
    (fun _ _ kept => kept) fun _ impossible => impossible.elim

theorem pollReadLoop_total
    (chunks : List Bytes)
    (recvs : List Bool)
    (remaining : Nat)
    (taken : Bytes)
    (stream : TcpStream)
    (pcb : TcpPcb)
    (formed : AllFormed pcb) :
    wp (pollReadLoop (tcpRecved false) chunks recvs remaining taken stream pcb)
      (fun _ _ => True) (fun fault => fault = .newRcvAnnWnd) world := by
  induction chunks generalizing recvs remaining taken pcb world with
  | nil => trivial
  | cons data rest inductionHypothesis =>
      unfold pollReadLoop
      rw [wp_ite]
      refine ⟨fun _ => trivial, fun _ => ?_⟩
      rw [wp_ite]
      refine ⟨fun _ => trivial, fun _ => ?_⟩
      rw [wp_bind]
      refine wp_weaken (tcpRecved_total pcb _ formed) fun after later kept => ?_
      dsimp only
      rw [wp_ite]
      exact ⟨fun _ => trivial, fun _ => inductionHypothesis _ _ _ _ kept⟩

/-- A read of a live stream with its pcb answers from what the stream holds,
unless the window to be announced overflows. -/
theorem performPollRead_answers
    {pcb : TcpPcb}
    {stream : TcpStream}
    (remaining : Nat)
    (present : world.stream = some stream)
    (working : stream.errored = false)
    (formed : AllFormed pcb) :
    wp (perform (some pcb) (.pollRead remaining))
      (fun result _ =>
        result.2 =
          .read remaining (readStream world.recvs remaining stream).result)
      (fun fault => fault = .newRcvAnnWnd) world := by
  have returns :
      wp (pollReadPcb world.recvs remaining stream pcb) (fun _ _ => True)
        (fun fault => fault = .newRcvAnnWnd) world := by
    unfold pollReadPcb pollReadOn
    rw [wp_ite]
    exact ⟨fun _ => trivial, fun _ => pollReadLoop_total _ _ _ _ _ _ formed⟩
  have answers :=
    formedRules.pollReadPcb_kept trivial world.recvs remaining stream pcb world
      formed
  unfold perform onStream
  rw [wp_bind, wp_get, present]
  dsimp only
  rw [working, if_neg Bool.false_ne_true, wp_bind, wp_get, wp_bind]
  refine wp_weaken (wp_also returns answers) ?_
  rintro ⟨result, next, after⟩ later ⟨-, rfl, -, -⟩
  rfl

end Returns

/-! ## Runs -/

/-- No RST comes, no timer takes the pcb away, and it is not killed to make
room. -/
structure Undisturbed (conn : Conn) (label : Label) : Prop where
  noRst :
    ∀ packet, label.event = .segment packet → packet.flags.rst = false
  noTimeout :
    ∀ after,
      label.event = .slowtmr →
        conn.step label = .ok after →
          conn.pcb.isSome = true → after.pcb.isSome = true
  noKill : label.event ≠ .kill

/-- No ACK of the local FIN ends the connection while its stream is there. -/
def EndsUnheard (conn : Conn) (label : Label) : Prop :=
  ∀ packet pcb,
    label.event = .segment packet →
      conn.pcb = some pcb →
        conn.world.stream.isSome = true →
          pcb.state = .lastAck →
            packet.flags.syn = false → ¬AcksRest packet.toPacket pcb

theorem InputMoves.late
    {before after : TcpState}
    {fin : Bool}
    (moves : InputMoves before fin after)
    (heard :
      fin = true ∨ TcpState.closeWait.code ≤ before.code) :
    TcpState.closeWait.code ≤ after.code := by
  cases moves with
  | stay => exact heard.resolve_left (by simp)
  | handshake => simp [TcpState.code] at heard
  | acked => simp [TcpState.code] at heard
  | _ => decide

theorem Shuts.late
    {before after : TcpState}
    (shuts : Shuts before after)
    (heard : TcpState.closeWait.code ≤ before.code) :
    TcpState.closeWait.code ≤ after.code := by
  cases shuts with
  | closeWait => decide
  | _ => simp [TcpState.code] at heard

/-- After the peer's FIN the data part of `tcp_receive` takes nothing. -/
theorem tcpReceiveData_late
    {world : World}
    (inseg : TcpSeg)
    (pcb : TcpPcb)
    (late : TcpState.closeWait.code ≤ pcb.state.code) :
    wp (tcpReceiveData inseg pcb) (fun result _ => result.1 = {})
      (fun _ => True) world := by
  unfold tcpReceiveData
  rw [wp_ite]
  refine ⟨fun early => absurd late (by omega), fun _ => ?_⟩
  rw [wp_ite]
  exact ⟨fun _ => rfl, fun _ => rfl⟩

/-- What a connection with a reader keeps: what was taken and not read is
there to be read, and nothing was taken after the FIN. -/
structure Conn.Served (conn : Conn) : Prop where
  reached : connMachine.Reached conn
  present : conn.world.stream.isSome = true → conn.pcb.isSome = true
  balanced :
    ∀ pcb reader, conn.pcb = some pcb →
      conn.world.stream = some reader → Balanced conn.history reader
  late :
    ∀ pcb, conn.pcb = some pcb →
      conn.world.stream.isSome = true →
        conn.history.finAccepted = true →
          TcpState.closeWait.code ≤ pcb.state.code
  untouched :
    ∀ pcb, conn.pcb = some pcb →
      pcb.state = .synRcvd → Untouched conn.history

/-- Where nothing is taken after the FIN, what is taken leaves the state past
it. -/
theorem late_of_moves
    {history : History}
    {before after : TcpState}
    {recv : RecvOut}
    {outcome : Outcome}
    (late :
      history.finAccepted = true → TcpState.closeWait.code ≤ before.code)
    (moves : InputMoves before recv.gotFin after)
    (fin : (history.record recv outcome).finAccepted = true) :
    TcpState.closeWait.code ≤ after.code := by
  have either : (history.finAccepted || recv.gotFin) = true := fin
  rw [Bool.or_eq_true] at either
  exact moves.late (either.symm.imp_right late)

theorem Receives.served
    {history : History}
    {addr : Nat}
    {before after : TcpPcb}
    {stream later : Option TcpStream}
    {event : Event}
    {recv : RecvOut}
    {outcome : Outcome}
    (receives :
      Receives
        (fun _ out _ => TcpState.closeWait.code ≤ before.state.code → out = {})
        before stream event recv outcome after later)
    (attached : Attached addr before stream)
    (balanced : ∀ reader, stream = some reader → Balanced history reader)
    (late :
      stream.isSome = true →
        history.finAccepted = true →
          TcpState.closeWait.code ≤ before.state.code)
    (untouched : before.state = .synRcvd → Untouched history) :
    (∀ reader, later = some reader →
        Balanced (history.record recv outcome) reader) ∧
      (later.isSome = true →
        (history.record recv outcome).finAccepted = true →
          TcpState.closeWait.code ≤ after.state.code) ∧
      (after.state = .synRcvd →
        Untouched (history.record recv outcome)) := by
  have owner := attached.owner
  have nothing {recv : RecvOut} {rcv : RcvVars}
      (received :
        Received
          (fun out _ => TcpState.closeWait.code ≤ before.state.code → out = {})
          before.toRcvVars recv rcv)
      (past : TcpState.closeWait.code ≤ before.state.code) :
      recv.bytes = [] ∧ recv.gotFin = false := by
    have empty : recv = {} := by
      rcases received with ⟨empty, _⟩ | ⟨_, empty, _⟩
      · exact empty
      · exact empty past
    rw [empty]
    exact ⟨rfl, rfl⟩
  cases receives with
  | idle state rcv unread noRead =>
      obtain ⟨-, returned, accepted, finAccepted⟩ :=
        history.record_quiet noRead
      refine ⟨?_, ?_, fun still => ?_⟩
      · rintro reader present
        rcases unread with rfl | ⟨known, closed, waker, rfl, rfl⟩
        · exact (balanced reader present).congr returned accepted finAccepted
            rfl rfl rfl
        · cases present
          exact (balanced known rfl).congr returned accepted finAccepted rfl
            rfl rfl
      · rw [unread.isSome, finAccepted]
        intro present fin
        rcases state with same | shuts
        · rw [same]
          exact late present fin
        · exact shuts.late (late present fin)
      · refine Untouched.congr (untouched ?_) returned accepted finAccepted
        rcases state with same | shuts
        · exact same ▸ still
        · exact absurd still shuts.ne_synRcvd
  | stale state rcv =>
      obtain ⟨-, returned, accepted, finAccepted⟩ :=
        @History.record_quiet history .silent (by simp [Outcome.NoRead])
      refine ⟨fun reader present =>
        (balanced reader present).congr returned accepted finAccepted rfl rfl
          rfl, ?_, fun still =>
        (untouched (state ▸ still)).congr returned accepted finAccepted⟩
      rw [finAccepted, state]
      exact late
  | read recvs remaining known present state rcv =>
      subst present
      obtain ⟨streaming, of⟩ := owner.streaming
      refine ⟨?_, ?_, fun still => absurd (state ▸ still) streaming.state⟩
      · rintro _ ⟨⟩
        exact (balanced known rfl).read of.readTx recvs remaining
      · rw [state]
        intro _ fin
        exact late rfl (by simpa [History.record] using fin)
  | segment packet recv moves waits waiting received =>
      cases stream with
      | some reader =>
          obtain ⟨streaming, of⟩ := owner.streaming
          have taken := received streaming.recv
          refine ⟨?_, fun _ fin => late_of_moves (late rfl) moves fin,
            fun still => absurd still (moves.synRcvd streaming.state)⟩
          unfold heard
          rw [if_pos streaming.recv]
          rintro _ ⟨⟩
          exact (balanced reader rfl).hear of.readTx rfl fun fin =>
            nothing taken (late rfl fin)
      | none =>
          have nobody : heard before recv none = none := by
            unfold heard
            split <;> rfl
          rw [nobody]
          refine ⟨by simp, by simp, fun still => ?_⟩
          obtain ⟨rfl, _⟩ := waiting still
          have first : before.state = .synRcvd := by
            by_contra synchronized
            exact moves.synRcvd synchronized still
          exact (untouched first).congr rfl (List.append_nil _)
            (Bool.or_false _)
  | accepted packet recv addr id synRcvd moves synchronized received =>
      have fresh := untouched synRcvd
      refine ⟨?_, fun _ fin => late_of_moves (fun bad => ?_) moves fin,
        fun still => absurd still synchronized⟩
      · rintro _ ⟨⟩
        exact (Balanced.new fresh addr id before).hear rfl rfl fun bad =>
          absurd bad (by simp [fresh.finAccepted])
      · exact absurd bad (by simp [fresh.finAccepted])
  | dropped state rcv =>
      exact ⟨by simp, by simp, fun still =>
        (untouched (state ▸ still)).congr rfl (List.append_nil _)
          (Bool.or_false _)⟩

theorem Conn.Served.initial
    {conn : Conn}
    (initial : conn.Initial) :
    conn.Served := by
  have silent := (Conn.initial_windowed initial).1
  obtain ⟨packet, listener, iss, world, -, -, -, -, -, -, -, history⟩ :=
    id initial
  refine ⟨.start initial, ?_, ?_, ?_, fun _ _ _ => ?_⟩
  · rw [silent]
    simp
  · rw [silent]
    simp
  · rw [silent]
    simp
  · rw [history]
    exact ⟨rfl, rfl, rfl⟩

/-- A stream that has not been dropped is there after an orderly step only with
its pcb. -/
theorem Freed.unread
    {conn : Conn}
    {pcb : TcpPcb}
    {label : Label}
    {after : Conn}
    (current : conn.pcb = some pcb)
    (attached : Attached conn.world.pcbAddr pcb conn.world.stream)
    (undisturbed : Undisturbed conn label)
    (unheard : EndsUnheard conn label)
    (taken : conn.step label = .ok after)
    (gone : after.pcb = none)
    (freed : Freed pcb conn.world.stream label.event after.world.stream) :
    after.world.stream = none := by
  generalize event : label.event = happened at freed
  generalize after.world.stream = later at freed
  have kept (tick : happened = .slowtmr) : False := by
    have left :=
      undisturbed.noTimeout after (event.trans tick) taken
        (by rw [current]; rfl)
    rw [gone] at left
    cases left
  cases freed with
  | ended packet ends =>
      cases present : conn.world.stream with
      | none =>
          unfold told
          split <;> rfl
      | some reader =>
          exfalso
          have owner := attached.owner
          rw [present] at owner
          obtain ⟨streaming, -⟩ := owner.streaming
          cases ends with
          | reset rst inPlace =>
              have noRst := undisturbed.noRst packet event
              have rst : packet.flags.rst = true := rst
              rw [rst] at noRst
              cases noRst
          | closed state plain rests =>
              exact unheard packet pcb event current (by rw [present]; rfl)
                state plain.2 rests
          | unaccepted state => exact streaming.state state
  | expired => exact (kept rfl).elim
  | timedOut => exact (kept rfl).elim
  | aborted => rfl
  | killed => exact absurd event undisturbed.noKill

theorem Conn.Served.step
    {before after : Conn}
    {label : Label}
    (served : before.Served)
    (undisturbed : Undisturbed before label)
    (unheard : EndsUnheard before label)
    (taken : before.step label = .ok after) :
    after.Served := by
  have reached : connMachine.Reached after :=
    .next served.reached trivial taken
  cases current : before.pcb with
  | none =>
      have silent : before.world.stream = none := by
        cases present : before.world.stream with
        | none => rfl
        | some reader =>
            have kept := served.present (by rw [present]; rfl)
            rw [current] at kept
            cases kept
      have quiet :=
        perform_none_stream label.event (label.enter before.world)
      rw [← current] at quiet
      obtain ⟨_, -, stream⟩ := Conn.step_returned quiet taken
      have stream : after.world.stream = none := by
        have silent : (label.enter before.world).stream = none := silent
        rw [silent] at stream
        generalize after.world.stream = later at stream
        cases stream with
        | stays => rfl
        | goes => rfl
        | read _ _ known present => cases present
      have performed :=
        perform_none label.event before.history.sendLog
          (label.enter before.world)
      rw [← current] at performed
      obtain ⟨outcome, -, gone, -⟩ := Conn.step_returned performed taken
      have gone : after.pcb = none := gone.trans current
      refine ⟨reached, ?_, ?_, ?_, ?_⟩ <;> simp [gone, stream]
  | some pcb =>
      obtain ⟨attached, inUse⟩ := attached_of_reached served.reached current
      have performed :=
        @Conn.step_receives (fun _ => True)
          (fun _ out _ =>
            TcpState.closeWait.code ≤ pcb.state.code → out = {})
          (fun _ _ => trivial) trivial before pcb current attached inUse label
          (by
            intro packet event _ _ acked world rcv state
            by_cases past : TcpState.closeWait.code ≤ pcb.state.code
            · have late : TcpState.closeWait.code ≤ acked.state.code := by
                rcases state with same | ⟨synRcvd, -⟩
                · rw [same]
                  exact past
                · rw [synRcvd] at past
                  exact absurd past (by decide)
              exact wp_weaken (tcpReceiveData_late _ _ late)
                fun _ _ nothing _ => nothing
            · exact wp_of_outcomes
                (fun _ _ _ bad => absurd bad past) fun _ _ => trivial)
      rw [taken] at performed
      obtain ⟨outcome, history, moved⟩ := performed
      unfold ReceivesOrFreed at moved
      cases left : after.pcb with
      | none =>
          rw [left] at moved
          have stream :=
            Freed.unread current attached undisturbed unheard taken left moved
          refine ⟨reached, ?_, ?_, ?_, ?_⟩ <;> simp [left, stream]
      | some next =>
          rw [left] at moved
          obtain ⟨balanced, late, untouched⟩ :=
            Receives.served moved attached
              (fun reader => served.balanced pcb reader current)
              (served.late pcb current) (served.untouched pcb current)
          refine ⟨reached, ?_, ?_, ?_, ?_⟩ <;> rw [left]
          · exact fun _ => rfl
          · rintro _ reader ⟨⟩
            rw [history]
            exact balanced reader
          · rintro _ ⟨⟩
            rw [history]
            exact late
          · rintro _ ⟨⟩
            rw [history]
            exact untouched

theorem Conn.served_of_reached
    {admitted : Conn → Label → Prop}
    {conn : Conn}
    (reached : connMachine.ReachedUnder admitted conn)
    (undisturbed : ∀ before label, admitted before label → Undisturbed before label)
    (unheard :
      ∀ before label, admitted before label → EndsUnheard before label) :
    conn.Served :=
  reached.invariant
    (fun first initial =>
      (Conn.Served.initial initial : Conn.Served first))
    fun _ _ _ before may taken =>
      before.step (undisturbed _ _ may) (unheard _ _ may) taken

/-- In an orderly run in which no ACK of the local FIN ends the connection
under a live stream, and the announced window keeps up, every read with room
returns, if its first look into the channel is served: the next bytes that have
come, the end once they are all read, or nothing yet. -/
theorem orderly_close_reads
    {conn : Conn}
    (reached :
      connMachine.ReachedUnder
        (fun before label =>
          Undisturbed before label ∧ EndsUnheard before label ∧ CaughtUp before)
        conn)
    (caughtUp : CaughtUp conn)
    (present : conn.world.stream.isSome = true)
    {label : Label}
    {remaining : Nat}
    (event : label.event = .pollRead remaining)
    (served : label.recvs.headD true = true)
    (room : 0 < remaining) :
    ∃ after result,
      conn.step label = .ok after ∧
        after.history.outcome = .read remaining result ∧
        Answers conn.history remaining result := by
  have serves :=
    Conn.served_of_reached reached (fun _ _ may => may.1)
      fun _ _ may => may.2.1
  obtain ⟨advertises, -⟩ :=
    advertises_reached (reached.mono fun _ _ may => may.2.2)
  obtain ⟨stream, isStream⟩ := Option.isSome_iff_exists.mp present
  obtain ⟨pcb, current⟩ := Option.isSome_iff_exists.mp (serves.present present)
  obtain ⟨attached, formed⟩ := formed_of_reached serves.reached current
  have owner := attached.owner
  rw [isStream] at owner
  obtain ⟨-, of⟩ := owner.streaming
  have announced := step_advertised serves.reached advertises caughtUp label
  have answers :
      wp (perform conn.pcb label.event)
        (fun result _ =>
          result.2 =
            .read remaining (readStream label.recvs remaining stream).result)
        (fun fault => fault = .newRcvAnnWnd) (label.enter conn.world) := by
    rw [current, event]
    exact performPollRead_answers remaining isStream of.errored formed
  cases taken : conn.step label with
  | error fault =>
      exfalso
      rw [taken] at announced
      have overflows := Conn.step_faulted answers taken
      exact announced overflows
  | ok after =>
      obtain ⟨outcome, history, result⟩ := Conn.step_returned answers taken
      have recorded : after.history.outcome = outcome := by
        rw [history]
        rfl
      exact ⟨after, _, rfl, recorded.trans result,
        (serves.balanced pcb stream current isStream).answers of.readTx served
          room⟩

/-- `Undisturbed` where no slow timer runs. -/
def Label.isUndisturbed (label : Label) : Bool :=
  match label.event with
  | .segment packet => !packet.flags.rst
  | .slowtmr => false
  | .kill => false
  | _ => true

theorem Label.undisturbed_of_check
    {label : Label}
    (conn : Conn)
    (checked : label.isUndisturbed = true) :
    Undisturbed conn label := by
  unfold isUndisturbed at checked
  refine ⟨fun packet event => ?_, fun _ event => ?_, fun event => ?_⟩ <;>
    rw [event] at checked
  · simpa using checked
  · cases checked
  · cases checked

/-- The peer sends three bytes and its FIN; then the local side shuts down. -/
def closesBoth : List Label :=
  [{ event := .segment (exampleSegment { ack := true } 100 6511 1000 [] []) },
    { event :=
        .segment
          (exampleSegment { ack := true, fin := true } 100 6511 1000
            [1, 2, 3] []) },
    { event := .pollShutdown }]

/-- In LAST_ACK the bytes are still there to be read. -/
theorem orderly_close_reads_last_ack :
    ∃ conn after,
      connMachine.ReachedUnder
          (fun before label =>
            Undisturbed before label ∧ EndsUnheard before label ∧
              CaughtUp before)
          conn ∧
        conn.pcb.any (fun pcb => pcb.state == .lastAck) = true ∧
        conn.step { event := .pollRead 8 } = .ok after ∧
        ∃ result,
          after.history.outcome = .read 8 result ∧
            Answers conn.history 8 result := by
  obtain ⟨conn, reached, holds⟩ :=
    exists_reachedUnder
      (fun before label =>
        Undisturbed before label ∧ EndsUnheard before label ∧ CaughtUp before)
      (fun before label =>
        label.isUndisturbed &&
          before.pcb.all (fun pcb => pcb.state != .lastAck) &&
          checkCaughtUp before)
      (by
        intro before label checked
        rw [Bool.and_eq_true, Bool.and_eq_true] at checked
        obtain ⟨⟨undisturbed, served⟩, caughtUp⟩ := checked
        refine ⟨label.undisturbed_of_check before undisturbed, ?_,
          caughtUp_of_check caughtUp⟩
        intro packet pcb _ current _ state
        rw [current, Option.all_some, state] at served
        cases served)
      (exampleSyn 1000 []) 0 6510 exampleWorld closesBoth
      (fun conn =>
        conn.pcb.any (fun pcb => pcb.state == .lastAck) &&
          conn.world.stream.isSome && checkCaughtUp conn)
      rfl rfl rfl (by decide +kernel)
  rw [Bool.and_eq_true, Bool.and_eq_true] at holds
  obtain ⟨⟨lastAck, present⟩, caughtUp⟩ := holds
  obtain ⟨after, result, taken, outcome, answers⟩ :=
    @orderly_close_reads conn reached (caughtUp_of_check caughtUp) present
      { event := .pollRead 8 } 8 rfl rfl (by decide)
  exact ⟨conn, after, reached, lastAck, taken, result, outcome, answers⟩

/-- Whether the next read of eight bytes fails with a broken pipe. -/
def Conn.breaksRead (conn : Conn) : Bool :=
  (conn.step { event := .pollRead 8 }).toOption.any fun after =>
    decide (after.history.outcome = .read 8 .brokenPipe)

theorem Conn.step_of_breaksRead {conn : Conn} (broken : conn.breaksRead = true) :
    ∃ after,
      conn.step { event := .pollRead 8 } = .ok after ∧
        after.history.outcome = .read 8 .brokenPipe := by
  unfold Conn.breaksRead at broken
  cases taken : conn.step { event := .pollRead 8 } with
  | error _ =>
    rw [taken] at broken
    cases broken
  | ok after =>
    rw [taken] at broken
    exact ⟨after, rfl, of_decide_eq_true broken⟩

/-- The ACK of the local FIN takes three unread bytes and the end with it. -/
theorem orderly_close_breaks_read :
    ∃ conn after,
      connMachine.ReachedUnder Undisturbed conn ∧
        conn.world.stream.isSome = true ∧
        conn.history.accepted = [1, 2, 3] ∧
        conn.history.returned = [] ∧
        conn.history.finAccepted = true ∧
        conn.step { event := .pollRead 8 } = .ok after ∧
        after.history.outcome = .read 8 .brokenPipe := by
  obtain ⟨conn, reached, holds⟩ :=
    exists_reachedUnder Undisturbed (fun _ label => label.isUndisturbed)
      (fun before label checked => label.undisturbed_of_check before checked)
      (exampleSyn 1000 []) 0 6510 exampleWorld
      (closesBoth ++
        [{ event :=
            .segment (exampleSegment { ack := true } 104 6512 1000 [] []) }])
      (fun conn =>
        conn.world.stream.isSome &&
          decide
            (conn.history.accepted = [1, 2, 3] ∧
              conn.history.returned = [] ∧
              conn.history.finAccepted = true) &&
          conn.breaksRead)
      rfl rfl rfl (by decide +kernel)
  rw [Bool.and_eq_true, Bool.and_eq_true] at holds
  obtain ⟨⟨present, known⟩, broken⟩ := holds
  obtain ⟨accepted, returned, fin⟩ := of_decide_eq_true known
  obtain ⟨after, taken, outcome⟩ := Conn.step_of_breaksRead broken
  exact ⟨conn, after, reached, present, accepted, returned, fin, taken, outcome⟩

end NetstackLwip

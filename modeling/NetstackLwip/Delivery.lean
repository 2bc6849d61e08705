import NetstackLwip.InputRules

namespace NetstackLwip

/-!
# From `tcp_process` to the application

What `tcp_input` hands to the stream, and the pcb it leaves. A pcb belongs to
a stream, to a listener that has not accepted it yet, or to nobody.
-/

open FaultState

variable {allowed : Fault → Prop} {world : World}

/-! ## Whom a pcb belongs to -/

/-- The pcb carries the callbacks of a stream. -/
structure Streaming (pcb : TcpPcb) : Prop where
  state : pcb.state ≠ .synRcvd
  arg : ∃ id, pcb.callbackArg = .stream id
  recv : pcb.recv = .tcpRecvCb
  sent : pcb.sent = true
  errf : pcb.errf = true
  poll : pcb.poll = true

/-- The pcb waits to be accepted. -/
structure Fresh (pcb : TcpPcb) : Prop where
  state : pcb.state = .synRcvd
  closepend : pcb.flags.closepend = false
  arg : ∃ listener, pcb.callbackArg = .listener listener
  recv : pcb.recv = .tcpRecvNull
  sent : pcb.sent = false
  errf : pcb.errf = false
  poll : pcb.poll = false

/-- The stream of the pcb was dropped. -/
structure Orphaned (pcb : TcpPcb) : Prop where
  state : pcb.state ≠ .synRcvd
  arg : pcb.callbackArg = .null
  recv : pcb.recv = .none
  sent : pcb.sent = false
  errf : pcb.errf = false
  poll : pcb.poll = false

/-! ## Handing over -/

/-- `tcp_recv_cb` with the data of a segment. -/
def TcpStream.hear (recv : RecvOut) (stream : TcpStream) : TcpStream :=
  match recv.recvData with
  | none => stream
  | some data => if data.data.isEmpty then stream else stream.send data.data

/-- `tcp_recv_cb` at the end of the data. -/
def TcpStream.hearFin (recv : RecvOut) (stream : TcpStream) : TcpStream :=
  if recv.gotFin then stream.send [] else stream

/-- What the segment hands to the stream of `pcb`, if it has one. -/
def heard (pcb : TcpPcb) (recv : RecvOut) (stream : Option TcpStream) :
    Option TcpStream :=
  if pcb.recv = .tcpRecvCb then
    stream.map fun stream => (stream.hear recv).hearFin recv
  else
    stream

theorem tcpRecved_inInput
    (pcb : TcpPcb)
    (len : Nat)
    (faults : allowed .newRcvAnnWnd) :
    wp (tcpRecved true pcb len)
      (fun result later =>
        DataFrame pcb false result ∧ later = world)
      allowed world := by
  unfold tcpRecved
  rw [wp_bind]
  refine wp_weaken (tcpUpdateRcvAnnWnd_spec _ faults) ?_
  rintro ⟨inflation, after⟩ later ⟨rfl, wnd, rfl⟩
  rw [wp_ite]
  refine ⟨fun _ => ?_, fun _ => ?_⟩
  · exact ⟨.of_rcv pcb _ _ _ _ _ _ _, rfl⟩
  · exact ⟨.of_rcv pcb _ _ _ _ _ _ _, rfl⟩

section Deliver

variable
  (callbacks : ∀ fault : Fault, fault.origin = .callback → allowed fault)
  (refused : ∀ fault : Fault, fault.origin = .refused → allowed fault)
  (window : allowed .newRcvAnnWnd)
include callbacks refused window

theorem deliverData_spec
    (recv : RecvOut)
    (pcb : TcpPcb)
    (owner : pcb.recv = .tcpRecvCb → pcb.callbackArg ≠ .null) :
    wp (deliverData recv pcb)
      (fun after later =>
        DataFrame pcb false after ∧
          (pcb.recv = .tcpRecvCb ∨ recv.recvData = none → after = pcb) ∧
          later =
            { world with
              stream :=
                if pcb.recv = .tcpRecvCb then
                  world.stream.map (TcpStream.hear recv)
                else
                  world.stream })
      allowed world := by
  unfold deliverData
  split
  · rename_i nothing
    refine ⟨DataFrame.refl pcb false, fun _ => rfl, ?_⟩
    have silent : TcpStream.hear recv = id := by
      funext stream
      simp [TcpStream.hear, nothing]
    simp [silent]
  · rename_i data delivered
    rw [wp_bind, wp_ensure]
    refine ⟨fun _ => ?_, fun _ => refused _ rfl⟩
    rw [wp_bind]
    unfold tcpEventRecv
    cases function : pcb.recv with
    | tcpRecvCb =>
        have notNull := owner function
        simp only
        unfold tcpRecvCb
        rw [wp_bind, if_neg notNull]
        simp only
        rw [wp_bind]
        refine wp_weaken (withContext_spec callbacks _ _) ?_
        rintro _ later rfl
        simp only [wp_pure, if_true]
        refine ⟨DataFrame.refl pcb false, fun _ => trivial, ?_⟩
        have same :
            (fun stream : TcpStream =>
              if data.data.isEmpty = true then stream
              else stream.send data.data) = TcpStream.hear recv := by
          funext stream
          simp [TcpStream.hear, delivered]
        rw [same]
    | _ =>
        simp only
        rw [wp_bind]
        refine wp_weaken (tcpRecved_inInput _ _ window) ?_
        rintro after later ⟨frame, rfl⟩
        simp only [wp_pure, if_true]
        exact ⟨frame, by simp [delivered], by simp⟩

omit refused window in
theorem deliverFin_spec
    (recv : RecvOut)
    (pcb : TcpPcb)
    (taken : pcb.refusedData = none)
    (owner : pcb.recv = .tcpRecvCb → pcb.callbackArg ≠ .null) :
    wp (deliverFin recv pcb)
      (fun after later =>
        after = (if recv.gotFin then returnFinByte pcb else pcb) ∧
          later =
            { world with
              stream :=
                if pcb.recv = .tcpRecvCb then
                  world.stream.map (TcpStream.hearFin recv)
                else
                  world.stream })
      allowed world := by
  have silent (nothing : recv.gotFin = false) :
      TcpStream.hearFin recv = id := by
    funext stream
    simp [TcpStream.hearFin, nothing]
  unfold deliverFin
  rw [wp_ite]
  refine ⟨fun fin => ?_, fun noFin => ?_⟩
  · rw [taken]
    have sameRecv : (returnFinByte pcb).recv = pcb.recv := by
      unfold returnFinByte
      split <;> rfl
    have sameArg : (returnFinByte pcb).callbackArg = pcb.callbackArg := by
      unfold returnFinByte
      split <;> rfl
    simp only
    rw [wp_bind, if_pos fin]
    unfold tcpEventClosed
    rw [sameRecv]
    cases function : pcb.recv with
    | tcpRecvCb =>
        have notNull := owner function
        simp only
        unfold tcpRecvCb
        rw [sameArg, if_neg notNull]
        simp only
        rw [wp_bind]
        refine wp_weaken (withContext_spec callbacks _ _) ?_
        rintro _ later rfl
        simp only [wp_pure, if_true]
        refine ⟨trivial, ?_⟩
        have same : TcpStream.send [] = TcpStream.hearFin recv := by
          funext stream
          simp [TcpStream.hearFin, fin]
        rw [same]
    | none =>
        simp
    | tcpRecvNull =>
        exact callbacks _ rfl
  · rw [if_neg noFin]
    refine ⟨rfl, ?_⟩
    rw [silent (by simpa using noFin)]
    simp

end Deliver

/-! ## `tcp_input` -/

/-- The receive variables once the FIN, if any, has been handed over. -/
def finRcv (fin : Bool) (rcv : RcvVars) : RcvVars :=
  if fin ∧ rcv.rcvWnd ≠ tcpWnd then
    { rcv with rcvWnd := (rcv.rcvWnd + 1) % 65536 }
  else
    rcv

theorem returnFinByte_rcv
    (fin : Bool)
    (pcb : TcpPcb) :
    (if fin then returnFinByte pcb else pcb).toRcvVars =
      finRcv fin pcb.toRcvVars := by
  unfold returnFinByte finRcv
  cases fin with
  | false =>
      simp
  | true =>
      simp only [if_true, true_and]
      split <;> rfl

/-- What has become of the receive variables of a pcb with a stream. -/
def Received
    (data : RecvOut → RcvVars → Prop)
    (before : RcvVars)
    (recv : RecvOut)
    (after : RcvVars) : Prop :=
  recv = {} ∧ after = before ∨
    ∃ rcv,
      data recv rcv ∧
        (after = finRcv recv.gotFin rcv ∨
          after =
            finRcv recv.gotFin { rcv with ooseq := [], refusedData := none })

/-- Who is told what: the stream of before hears of the segment, or a new
stream does. -/
inductive AppArrived
    (carried : Packet → Prop)
    (before : TcpPcb)
    (world : World)
    (recv : RecvOut)
    (after : TcpPcb)
    (later : World) : Prop where
  | kept
      (waits : before.state = .synRcvd → after.state = .synRcvd)
      (app : after.toAppVars = before.toAppVars)
      (emits :
        Emits carried
          { world with stream := heard before recv world.stream } later)
  | accepted
      (listener : Nat)
      (state : before.state = .synRcvd)
      (synchronized : after.state ≠ .synRcvd)
      (arg : before.callbackArg = .listener listener)
      (live : listener ∈ world.listeners)
      (app :
        after.toAppVars =
          (newStream world.pcbAddr world.nextStream before).2.toAppVars)
      (emits :
        Emits carried
          { acceptWorld world listener before with
            stream :=
              (acceptWorld world listener before).stream.map fun stream =>
                (stream.hear recv).hearFin recv }
          later)

/-- The pcb that `tcp_input` leaves after a segment from which `recv` was
taken. -/
structure Arrived
    (carried : Packet → Prop)
    (inv : TcpPcb → Prop)
    (data : RecvOut → RcvVars → Prop)
    (before : TcpPcb)
    (world : World)
    (recv : RecvOut)
    (after : TcpPcb)
    (later : World) : Prop where
  inv : inv after
  state : InputMoves before.state recv.gotFin after.state
  remoteIp : after.remoteIp = before.remoteIp
  remotePort : after.remotePort = before.remotePort
  localPort : after.localPort = before.localPort
  localIp : before.localIp.isAny = false → after.localIp = before.localIp
  prio : after.prio = before.prio
  rxclosed : after.flags.rxclosed = before.flags.rxclosed
  closepend : after.flags.closepend = before.flags.closepend
  refusedData : after.refusedData = none
  app : AppArrived carried before world recv after later
  waiting :
    after.state = .synRcvd →
      recv = {} ∧ after.toRcvVars = before.toRcvVars
  streamed :
    after.recv = .tcpRecvCb →
      Received data before.toRcvVars recv after.toRcvVars

/-- Why a segment ends the connection. -/
inductive Ends (packet : Packet) (pcb : TcpPcb) : Prop where
  | reset
      (rst : packet.flags.rst = true)
      (inPlace : packet.seqno = pcb.rcvNxt)
  | closed
      (state : pcb.state = .lastAck)
      (plain : packet.flags.rst = false ∧ packet.flags.syn = false)
      (rests : AcksRest packet pcb)
  | unaccepted
      (state : pcb.state = .synRcvd)

/-- `Arrived`, for a pcb that may be gone; its stream is told then. -/
def ArrivedOrGone
    (carried : Packet → Prop)
    (inv : TcpPcb → Prop)
    (data : RecvOut → RcvVars → Prop)
    (packet : Packet)
    (before : TcpPcb)
    (world : World)
    (result : Option TcpPcb)
    (later : World) : Prop :=
  match result with
  | some after =>
      Arrived carried inv data before world (takenFrom packet before world)
        after later
  | none =>
      Ends packet before ∧
        Emits carried { world with stream := told before.errf world.stream }
          later

theorem finByte_frame
    (fin : Bool)
    (pcb : TcpPcb) :
    DataFrame pcb false (if fin then returnFinByte pcb else pcb) := by
  unfold returnFinByte
  split
  · split
    · exact .of_rcv pcb _ _ _ _ _ _ _
    · exact DataFrame.refl pcb false
  · exact DataFrame.refl pcb false

namespace DataFrame

variable {before after : TcpPcb}

theorem sameState
    (frame : DataFrame before false after) :
    after.state = before.state := by
  rcases frame.state with same | ⟨_, _, fin⟩
  · exact same
  · cases fin

theorem sameSend
    (frame : DataFrame before false after) :
    SameSend before after where
  remoteIp := congrArg EndpointVars.remoteIp frame.endpoint
  snd := frame.snd
  queue := frame.queue
  persist := congrArg PersistVars.persistBackoff frame.persist
  state := frame.sameState
  fin := PcbFlags.fin_of_lasting frame.lasting

theorem localFrame
    (frame : DataFrame before false after) :
    LocalFrame false { before with toRcvVars := after.toRcvVars } after where
  app := frame.app
  rcv := rfl
  state :=
    .inl ⟨frame.sameState, PcbFlags.closepend_of_lasting frame.lasting⟩
  prio := frame.prio
  tmr := frame.tmr
  remoteIp := congrArg EndpointVars.remoteIp frame.endpoint
  remotePort := congrArg EndpointVars.remotePort frame.endpoint
  localPort := congrArg EndpointVars.localPort frame.endpoint
  localIp _ := congrArg EndpointVars.localIp frame.endpoint
  rxclosed := PcbFlags.rxclosed_of_lasting frame.lasting

end DataFrame

/-- First a step that leaves the stream, then one that changes it. -/
theorem Emits.thenStream
    {carried : Packet → Prop}
    {before middle after : World}
    (change : Option TcpStream → Option TcpStream)
    (first : Emits carried before middle)
    (second :
      Emits carried { middle with stream := change middle.stream } after) :
    Emits carried { before with stream := change before.stream } after := by
  have same := first.stream
  rw [same] at second
  exact (first.withStream _).trans second

section Finish

variable
  {carried : Packet → Prop}
  {inv finOk : TcpPcb → Prop}
  {fireOk : TcpPcb → List Err → Prop}
  {data : RecvOut → RcvVars → Prop}
  {packet : Packet}
  {before : TcpPcb}
  (rules : SendRules allowed carried inv finOk fireOk)
include rules

/-- `finishInput` hands over what was taken, or ends the connection. -/
theorem finishInput_spec
    (window : allowed .newRcvAnnWnd)
    (result : InResult)
    (pcb : TcpPcb)
    (holds : inv pcb)
    (rxOpen : pcb.flags.rxclosed = false)
    (taken : pcb.refusedData = none)
    (owner : pcb.recv = .tcpRecvCb → pcb.callbackArg ≠ .null) :
    wp (finishInput result pcb)
      (fun final later =>
        match final with
        | some after =>
            inv after ∧
              LocalFrame false { pcb with toRcvVars := after.toRcvVars } after ∧
              after.state = pcb.state ∧
              after.flags.closepend = pcb.flags.closepend ∧
              after.refusedData = none ∧
              (pcb.recv = .tcpRecvCb ∨ result.recv.recvData = none →
                after.toRcvVars = finRcv result.recv.gotFin pcb.toRcvVars) ∧
              Emits carried
                { world with stream := heard pcb result.recv world.stream }
                later
        | none =>
            (result.reset = true ∨ result.closed = true) ∧
              Emits carried
                { world with stream := told pcb.errf world.stream } later)
      allowed world := by
  have callbacks (fault : Fault) (same : fault.origin = .callback) :
      allowed fault :=
    rules.origin same (by decide)
  have removes (middle : World) :
      wp (tcpPcbRemove true pcb)
        (fun _ after => Emits carried middle after) allowed middle :=
    wp_weaken
      (tcpPcbRemove_spec (fun fault same => rules.origin same (by decide))
        true pcb (rules.live pcb holds) (rules.waiting pcb holds))
      fun _ _ gone => gone.2.mono rules.bare
  unfold finishInput
  rw [wp_ite]
  refine ⟨fun reset => ?_, fun _ => ?_⟩
  · rw [wp_bind]
    refine wp_weaken (tcpEventErr_spec callbacks carried _ _) ?_
    intro _ middle tells
    rw [wp_bind]
    refine wp_weaken (removes middle) fun _ later gone => ?_
    exact ⟨.inl reset, tells.trans gone⟩
  rw [wp_bind]
  have reported :
      wp (reportSent result.recvAcked pcb)
        (fun _ after => Emits carried world after) allowed world := by
    unfold reportSent
    rw [wp_ite]
    exact ⟨fun _ => tcpEventSent_spec callbacks carried pcb,
      fun _ => Emits.refl world⟩
  refine wp_weaken reported fun _ middle sent => ?_
  rw [wp_ite]
  refine ⟨fun closed => ?_, fun _ => ?_⟩
  · unfold tcpInputDelayedClose
    rw [wp_bind, wp_bind]
    refine wp_weaken (tcpEventErr_spec callbacks carried _ _) ?_
    intro _ later tells
    rw [wp_bind]
    refine wp_weaken (removes later) fun _ last gone => ?_
    simp only [rxOpen, Bool.not_false, Bool.and_true] at tells
    exact ⟨.inr closed, (sent.thenStream (told pcb.errf) tells).trans gone⟩
  rw [wp_ite]
  refine ⟨fun both => absurd both (by simp [rxOpen]), fun _ => ?_⟩
  rw [wp_bind]
  refine wp_weaken (deliverData_spec callbacks
    (fun fault same => rules.origin same (by decide)) window result.recv pcb
    owner) ?_
  rintro fed later ⟨frame, streamed, rfl⟩
  have stillTaken : fed.refusedData = none := frame.refusedData.trans taken
  have sameRecv : fed.recv = pcb.recv := congrArg AppVars.recv frame.app
  have sameArg : fed.callbackArg = pcb.callbackArg :=
    congrArg AppVars.callbackArg frame.app
  rw [wp_bind]
  refine wp_weaken (deliverFin_spec callbacks result.recv fed stillTaken
    (by rw [sameRecv, sameArg]; exact owner)) ?_
  rintro done last ⟨isDone, rfl⟩
  have doneRcv : done.toRcvVars = finRcv result.recv.gotFin fed.toRcvVars := by
    rw [isDone]
    exact returnFinByte_rcv _ fed
  have delivered : DataFrame pcb false done :=
    frame.trans (isDone ▸ finByte_frame _ fed) id
  have keeps : inv done := rules.view pcb done delivered.sameSend holds
  rw [wp_bind]
  refine wp_weaken (rules.output done _ keeps) ?_
  rintro ⟨_, after⟩ final ⟨output, kept, _, emits⟩
  have moved :
      LocalFrame false { pcb with toRcvVars := after.toRcvVars } after := by
    rw [output.rcv]
    exact delivered.localFrame.trans (.of_output output)
  refine ⟨kept, moved, output.state.trans delivered.sameState,
    output.closepend.trans
      (PcbFlags.closepend_of_lasting delivered.lasting), ?_, ?_, ?_⟩
  · rw [output.rcv, delivered.refusedData]
    exact taken
  · intro streaming
    rw [output.rcv, doneRcv, streamed streaming]
  · refine sent.thenStream (heard pcb result.recv) ?_
    have sameStream :
        heard pcb result.recv middle.stream =
          if fed.recv = .tcpRecvCb then
            (if pcb.recv = .tcpRecvCb then
              middle.stream.map (TcpStream.hear result.recv)
            else
              middle.stream).map (TcpStream.hearFin result.recv)
          else if pcb.recv = .tcpRecvCb then
            middle.stream.map (TcpStream.hear result.recv)
          else
            middle.stream := by
      unfold heard
      rw [sameRecv]
      split
      · rw [Option.map_map]
        rfl
      · rfl
    rw [sameStream]
    exact emits

/-- A segment for an active pcb: `tcp_process` takes what it takes, and the
stream of the pcb hears of it. -/
theorem tcpInputPcb_kept
    (data : RecvOut → RcvVars → Prop)
    {ackOk : Packet → TcpPcb → Prop}
    (inputs : InputRules inv ackOk)
    (window : allowed .newRcvAnnWnd)
    (holds : inv before)
    (admitted : packet.Heeded before → ackOk packet before)
    (active : before.state ≠ .timeWait)
    (rxOpen : before.flags.rxclosed = false)
    (taken : before.refusedData = none)
    (owner : before.recv = .tcpRecvCb → before.callbackArg ≠ .null)
    (received :
      packet.Reaches before →
        ∀ acked world,
          acked.toRcvVars = before.toRcvVars →
            (acked.state = before.state ∨
              before.state = .synRcvd ∧ acked.state = .established) →
              wp (tcpReceiveData (inputSeg packet) acked)
                (fun result _ => data result.1 result.2.toRcvVars)
                allowed world) :
    wp (tcpInputPcb packet before)
      (ArrivedOrGone carried inv data packet before world)
      allowed world := by
  unfold tcpInputPcb
  simp only
  rw [wp_bind, tcpProcessRefusedData_none _ _ taken, wp_pure, wp_ite]
  refine ⟨fun both => absurd both.1 (by simp [taken]), fun _ => ?_⟩
  rw [wp_bind]
  refine wp_weaken
    (wp_outcome
      (tcpProcess_kept rules inputs holds admitted active received)) ?_
  rintro processed middle ⟨kept, outcome⟩
  rcases processed with _ | ⟨result, pcb⟩
  · exact ⟨.unaccepted kept.1, kept.2⟩
  obtain ⟨processed, app⟩ := kept
  have recv : takenFrom packet before world = result.recv := by
    unfold takenFrom
    rw [outcome]
  have isOpen : pcb.flags.rxclosed = false := processed.rxclosed.trans rxOpen
  have stillTaken : pcb.refusedData = none := processed.refusedData taken
  have stillOwned : pcb.recv = .tcpRecvCb → pcb.callbackArg ≠ .null := by
    intro streaming
    cases app with
    | kept _ app _ =>
        rw [app] at streaming ⊢
        exact owner streaming
    | accepted listener _ _ _ _ _ app _ =>
        rw [app]
        exact nofun
  refine wp_weaken
    (finishInput_spec rules window result pcb processed.inv isOpen stillTaken
      stillOwned) ?_
  rintro (_ | after) later final
  · obtain ⟨why, emits⟩ := final
    have ends : Ends packet before := by
      rcases why with reset | closed
      · obtain ⟨rst, inPlace⟩ := processed.reset reset
        exact .reset rst inPlace
      · obtain ⟨state, rst, syn, rests⟩ := processed.closed closed
        exact .closed state ⟨rst, syn⟩ rests
    cases app with
    | kept _ app listened =>
        refine ⟨ends, ?_⟩
        have errf : pcb.errf = before.errf := congrArg AppVars.errf app
        rw [← errf]
        exact listened.thenStream (told pcb.errf) emits
    | accepted listener plain state _ _ _ _ _ =>
        -- A completed handshake neither resets nor closes.
        rcases why with reset | closed
        · have rst := (processed.reset reset).1
          rw [plain] at rst
          cases rst
        · have last := (processed.closed closed).1
          rw [state] at last
          cases last
  · obtain ⟨keeps, frame, state, pending, refused, streamed, emits⟩ := final
    have endpoint := processed.endpoint
    show Arrived carried inv data before world _ after later
    rw [recv]
    refine {
      inv := keeps
      state := state ▸ processed.state
      remoteIp :=
        frame.remoteIp.trans (congrArg EndpointVars.remoteIp endpoint)
      remotePort :=
        frame.remotePort.trans (congrArg EndpointVars.remotePort endpoint)
      localPort :=
        frame.localPort.trans (congrArg EndpointVars.localPort endpoint)
      localIp := ?_
      prio := frame.prio.trans processed.prio
      rxclosed := frame.rxclosed.trans processed.rxclosed
      closepend := pending.trans processed.closepend
      refusedData := refused
      app := ?_
      waiting := ?_
      streamed := ?_ }
    · intro fixed
      have same : pcb.localIp = before.localIp :=
        congrArg EndpointVars.localIp endpoint
      exact (frame.localIp (same ▸ fixed)).trans same
    · cases app with
      | kept waits app listened =>
          have function : pcb.recv = before.recv :=
            congrArg AppVars.recv app
          refine .kept (fun same => state.trans (waits same))
            (frame.app.trans app) ?_
          have sameHeard :
              heard before result.recv world.stream =
                heard pcb result.recv world.stream := by
            unfold heard
            rw [function]
          rw [sameHeard]
          exact listened.thenStream (heard pcb result.recv) emits
      | accepted listener plain synRcvd synchronized arg live app listened =>
          have function : pcb.recv = .tcpRecvCb := congrArg AppVars.recv app
          refine .accepted listener synRcvd (state ▸ synchronized) arg live
            (frame.app.trans app) ?_
          have hears := listened.thenStream (heard pcb result.recv) emits
          unfold heard at hears
          rw [if_pos function] at hears
          exact hears
    · intro synRcvd
      obtain ⟨nothing, same⟩ := processed.waiting (state ▸ synRcvd)
      refine ⟨nothing, ?_⟩
      rw [streamed (.inr (by rw [nothing])), nothing, same]
      simp [finRcv]
    · intro streaming
      have function : pcb.recv = .tcpRecvCb := by
        have same : after.recv = pcb.recv := congrArg AppVars.recv frame.app
        rwa [same] at streaming
      rw [streamed (.inl function)]
      rcases processed.received with ⟨nothing, same⟩ | ⟨rcv, isRcv, final⟩
      · refine .inl ⟨nothing, ?_⟩
        rw [nothing, same]
        simp [finRcv]
      · refine .inr ⟨rcv, isRcv, ?_⟩
        rcases final with same | purged
        · exact .inl (same ▸ rfl)
        · exact .inr (purged ▸ rfl)

end Finish

end NetstackLwip

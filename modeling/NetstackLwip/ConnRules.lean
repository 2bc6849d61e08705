import NetstackLwip.StreamRules

namespace NetstackLwip

/-!
# A connection, event by event

A pcb and the stream of its world belong together in one of three ways, and
every event keeps it so. One theorem carries an invariant of the sender
through all events but `poll_write`.
-/

open FaultState

/-! ## The pcb and its stream -/

/-- The stream was created for this pcb and is in use. -/
structure StreamOf (addr : Nat) (pcb : TcpPcb) (stream : TcpStream) :
    Prop where
  errored : stream.errored = false
  readTx : stream.readTx = true
  srcAddr : stream.srcAddr = ⟨pcb.remoteIp, pcb.remotePort⟩
  destAddr : stream.destAddr = ⟨pcb.localIp, pcb.localPort⟩
  pcb : stream.pcb = addr

/-- Whom the pcb belongs to, and the stream that knows it. -/
inductive Owner (addr : Nat) (pcb : TcpPcb) : Option TcpStream → Prop where
  | stream
      (stream : TcpStream)
      (streaming : Streaming pcb)
      (of : StreamOf addr pcb stream) :
      Owner addr pcb (some stream)
  | listener
      (fresh : Fresh pcb) :
      Owner addr pcb none
  | nobody
      (orphaned : Orphaned pcb) :
      Owner addr pcb none

/-- A pcb in use by `tcp_input`, the timers and its owner. -/
structure Attached
    (addr : Nat)
    (pcb : TcpPcb)
    (stream : Option TcpStream) : Prop where
  bound : pcb.localIp.isAny = false
  rxOpen : pcb.flags.rxclosed = false
  taken : pcb.refusedData = none
  owner : Owner addr pcb stream

theorem Owner.notNull
    {addr : Nat}
    {pcb : TcpPcb}
    {stream : Option TcpStream}
    (owner : Owner addr pcb stream)
    (streaming : pcb.recv = .tcpRecvCb) :
    pcb.callbackArg ≠ .null := by
  cases owner with
  | stream _ function _ =>
      obtain ⟨id, arg⟩ := function.arg
      simp [arg]
  | listener fresh =>
      obtain ⟨listener, arg⟩ := fresh.arg
      simp [arg]
  | nobody orphaned =>
      rw [orphaned.recv] at streaming
      cases streaming

/-- A live stream means that the pcb carries its callbacks. -/
theorem Owner.streaming
    {addr : Nat}
    {pcb : TcpPcb}
    {stream : TcpStream}
    (owner : Owner addr pcb (some stream)) :
    Streaming pcb ∧ StreamOf addr pcb stream := by
  cases owner with
  | stream _ streaming of =>
      exact ⟨streaming, of⟩

theorem Streaming.of_app
    {before after : TcpPcb}
    (streaming : Streaming before)
    (app : after.toAppVars = before.toAppVars)
    (state : after.state ≠ .synRcvd) :
    Streaming after where
  state := state
  arg := by
    rw [app]
    exact streaming.arg
  recv := by
    rw [app]
    exact streaming.recv
  sent := by
    rw [app]
    exact streaming.sent
  errf := by
    rw [app]
    exact streaming.errf
  poll := by
    rw [app]
    exact streaming.poll

theorem Fresh.of_app
    {before after : TcpPcb}
    (fresh : Fresh before)
    (app : after.toAppVars = before.toAppVars)
    (state : after.state = .synRcvd)
    (closepend : after.flags.closepend = before.flags.closepend) :
    Fresh after where
  state := state
  closepend := closepend.trans fresh.closepend
  arg := by
    rw [app]
    exact fresh.arg
  recv := by
    rw [app]
    exact fresh.recv
  sent := by
    rw [app]
    exact fresh.sent
  errf := by
    rw [app]
    exact fresh.errf
  poll := by
    rw [app]
    exact fresh.poll

theorem Orphaned.of_app
    {before after : TcpPcb}
    (orphaned : Orphaned before)
    (app : after.toAppVars = before.toAppVars)
    (state : after.state ≠ .synRcvd) :
    Orphaned after where
  state := state
  arg := by
    rw [app]
    exact orphaned.arg
  recv := by
    rw [app]
    exact orphaned.recv
  sent := by
    rw [app]
    exact orphaned.sent
  errf := by
    rw [app]
    exact orphaned.errf
  poll := by
    rw [app]
    exact orphaned.poll

/-- The two streams differ only in what they hold and whether they are
closed. -/
structure Alike (before after : TcpStream) : Prop where
  errored : after.errored = before.errored
  readTx : after.readTx = before.readTx
  srcAddr : after.srcAddr = before.srcAddr
  destAddr : after.destAddr = before.destAddr
  pcb : after.pcb = before.pcb

theorem Alike.refl (stream : TcpStream) : Alike stream stream := by
  constructor <;> rfl

theorem Alike.trans
    {first second third : TcpStream}
    (alike : Alike first second)
    (next : Alike second third) :
    Alike first third where
  errored := next.errored.trans alike.errored
  readTx := next.readTx.trans alike.readTx
  srcAddr := next.srcAddr.trans alike.srcAddr
  destAddr := next.destAddr.trans alike.destAddr
  pcb := next.pcb.trans alike.pcb

theorem TcpStream.send_alike
    (chunk : Bytes)
    (stream : TcpStream) :
    Alike stream (stream.send chunk) := by
  unfold TcpStream.send
  split <;> constructor <;> rfl

theorem TcpStream.hear_alike
    (recv : RecvOut)
    (stream : TcpStream) :
    Alike stream ((stream.hear recv).hearFin recv) := by
  have first : Alike stream (stream.hear recv) := by
    unfold TcpStream.hear
    split
    · exact Alike.refl stream
    · split
      · exact Alike.refl stream
      · exact stream.send_alike _
  refine first.trans ?_
  unfold TcpStream.hearFin
  split
  · exact TcpStream.send_alike _ _
  · exact Alike.refl _

theorem readChunks_alike
    (chunks : List Bytes)
    (recvs : List Bool)
    (remaining : Nat)
    (taken : Bytes)
    (stream : TcpStream) :
    Alike stream (readChunks chunks recvs remaining taken stream).stream := by
  induction chunks generalizing recvs remaining taken with
  | nil =>
      constructor <;> rfl
  | cons data rest inductionHypothesis =>
      unfold readChunks
      split
      · constructor <;> rfl
      · split
        · constructor <;> rfl
        · simp only
          split
          · constructor <;> rfl
          · exact inductionHypothesis _ _ _

theorem readStream_alike
    (recvs : List Bool)
    (remaining : Nat)
    (stream : TcpStream) :
    Alike stream (readStream recvs remaining stream).stream := by
  unfold readStream
  split
  · constructor <;> rfl
  · exact readChunks_alike _ _ _ _ _

/-- The addresses of a stream are those of its pcb as long as these stay. -/
theorem StreamOf.of_endpoint
    {addr : Nat}
    {before after : TcpPcb}
    {stream next : TcpStream}
    (of : StreamOf addr before stream)
    (remoteIp : after.remoteIp = before.remoteIp)
    (remotePort : after.remotePort = before.remotePort)
    (localIp : after.localIp = before.localIp)
    (localPort : after.localPort = before.localPort)
    (alike : Alike stream next) :
    StreamOf addr after next where
  errored := alike.errored.trans of.errored
  readTx := alike.readTx.trans of.readTx
  pcb := alike.pcb.trans of.pcb
  srcAddr := by
    rw [alike.srcAddr, of.srcAddr, remoteIp, remotePort]
  destAddr := by
    rw [alike.destAddr, of.destAddr, localIp, localPort]

namespace Attached

variable {addr : Nat} {before after : TcpPcb} {stream : Option TcpStream}

/-- A local step in which no fresh pcb queues a FIN. -/
theorem of_local
    {shut : Bool}
    {rcv : RcvVars}
    (attached : Attached addr before stream)
    (frame : LocalFrame shut { before with toRcvVars := rcv } after)
    (taken : rcv.refusedData = none)
    (quiet : Fresh before → shut = false) :
    Attached addr after stream where
  bound := by
    rw [frame.localIp attached.bound]
    exact attached.bound
  rxOpen := frame.rxclosed.trans attached.rxOpen
  taken := by
    rw [frame.rcv]
    exact taken
  owner := by
    have localIp : after.localIp = before.localIp :=
      frame.localIp attached.bound
    have state : before.state ≠ .synRcvd → after.state ≠ .synRcvd := by
      intro synchronized
      rcases frame.state with ⟨same, _⟩ | ⟨_, same | shuts⟩
      · rw [same]
        exact synchronized
      · rw [same]
        exact synchronized
      · exact shuts.ne_synRcvd
    cases attached.owner with
    | stream stream streaming of =>
        exact .stream stream (streaming.of_app frame.app (state streaming.state))
          (of.of_endpoint frame.remoteIp frame.remotePort localIp
            frame.localPort (Alike.refl stream))
    | listener fresh =>
        have still := quiet fresh
        rcases frame.state with ⟨same, pending⟩ | ⟨may, _⟩
        · exact .listener
            (fresh.of_app frame.app (same.trans fresh.state) pending)
        · rw [still] at may
          cases may
    | nobody orphaned =>
        exact .nobody (orphaned.of_app frame.app (state orphaned.state))

/-- The stream has changed, but not whom it belongs to. -/
theorem of_stream
    {stream next : TcpStream}
    (attached : Attached addr before (some stream))
    (alike : Alike stream next) :
    Attached addr before (some next) where
  bound := attached.bound
  rxOpen := attached.rxOpen
  taken := attached.taken
  owner := by
    obtain ⟨streaming, of⟩ := attached.owner.streaming
    exact .stream next streaming
      (of.of_endpoint rfl rfl rfl rfl alike)

end Attached

/-! ## A segment -/

section Arrival

variable
  {carried : Packet → Prop}
  {inv : TcpPcb → Prop}
  {data : RecvOut → RcvVars → Prop}
  {before after : TcpPcb}
  {world later : World}
  {recv : RecvOut}

/-- A pcb and its stream still belong together after a segment. -/
theorem Arrived.attached
    (arrived : Arrived carried inv data before world recv after later)
    (attached : Attached world.pcbAddr before world.stream) :
    Attached world.pcbAddr after later.stream := by
  have localIp : after.localIp = before.localIp :=
    arrived.localIp attached.bound
  refine {
    bound := localIp ▸ attached.bound
    rxOpen := arrived.rxclosed.trans attached.rxOpen
    taken := arrived.refusedData
    owner := ?_ }
  cases arrived.app with
  | kept waits app emits =>
      have stream : later.stream = heard before recv world.stream :=
        emits.stream
      rw [stream]
      cases owner : world.stream with
      | none =>
          have silent : heard before recv none = none := by
            unfold heard
            split <;> rfl
          rw [silent]
          have known := attached.owner
          rw [owner] at known
          cases known with
          | listener fresh =>
              exact .listener
                (fresh.of_app app (waits fresh.state) arrived.closepend)
          | nobody orphaned =>
              exact .nobody
                (orphaned.of_app app (arrived.state.synRcvd orphaned.state))
      | some stream =>
          have known := attached.owner
          rw [owner] at known
          obtain ⟨streaming, of⟩ := known.streaming
          unfold heard
          rw [if_pos streaming.recv]
          exact .stream _
            (streaming.of_app app (arrived.state.synRcvd streaming.state))
            (of.of_endpoint arrived.remoteIp arrived.remotePort localIp
              arrived.localPort (stream.hear_alike recv))
  | accepted listener synRcvd synchronized arg live app emits =>
      rw [emits.stream]
      refine .stream _ ?_ ?_
      · exact {
          state := synchronized
          arg := ⟨world.nextStream, congrArg AppVars.callbackArg app⟩
          recv := congrArg AppVars.recv app
          sent := congrArg AppVars.sent app
          errf := congrArg AppVars.errf app
          poll := congrArg AppVars.poll app }
      · have fresh :
            StreamOf world.pcbAddr before
              (newStream world.pcbAddr world.nextStream before).1 := by
          constructor <;> rfl
        exact fresh.of_endpoint arrived.remoteIp arrived.remotePort localIp
          arrived.localPort (TcpStream.hear_alike recv _)

end Arrival

/-! ## Every event but a write -/

section Events

variable {allowed : Fault → Prop} {world : World}

theorem Attached.retimed
    {addr : Nat}
    {pcb : TcpPcb}
    {stream : Option TcpStream}
    (attached : Attached addr pcb stream)
    (tmr : BitVec 32) :
    Attached addr { pcb with tmr := tmr } stream where
  bound := attached.bound
  rxOpen := attached.rxOpen
  taken := attached.taken
  owner := by
    cases attached.owner with
    | stream stream streaming of =>
        exact .stream stream (streaming.of_app rfl streaming.state)
          (of.of_endpoint rfl rfl rfl rfl (Alike.refl stream))
    | listener fresh =>
        exact .listener (fresh.of_app rfl fresh.state rfl)
    | nobody orphaned =>
        exact .nobody (orphaned.of_app rfl orphaned.state)

theorem Attached.withListener
    {addr : Nat}
    {pcb : TcpPcb}
    {stream : Option TcpStream}
    (attached : Attached addr pcb stream)
    (listener : Option Nat) :
    Attached addr { pcb with listener := listener } stream where
  bound := attached.bound
  rxOpen := attached.rxOpen
  taken := attached.taken
  owner := by
    cases attached.owner with
    | stream stream streaming of =>
        exact .stream stream {
          state := streaming.state
          arg := streaming.arg
          recv := streaming.recv
          sent := streaming.sent
          errf := streaming.errf
          poll := streaming.poll }
          (of.of_endpoint rfl rfl rfl rfl (Alike.refl stream))
    | listener fresh =>
        exact .listener {
          state := fresh.state
          closepend := fresh.closepend
          arg := fresh.arg
          recv := fresh.recv
          sent := fresh.sent
          errf := fresh.errf
          poll := fresh.poll }
    | nobody orphaned =>
        exact .nobody {
          state := orphaned.state
          arg := orphaned.arg
          recv := orphaned.recv
          sent := orphaned.sent
          errf := orphaned.errf
          poll := orphaned.poll }

/-- A call on the stream of a pcb in use reaches the pcb. -/
theorem onStream_attached
    {pcb : TcpPcb}
    {broken : Outcome}
    {freed : TcpStream → Lwip Outcome}
    {call : TcpStream → TcpPcb → Lwip (Option TcpPcb × Outcome)}
    {post : Option TcpPcb × Outcome → World → Prop}
    (attached : Attached world.pcbAddr pcb world.stream)
    (silent : world.stream = none → post (some pcb, .silent) world)
    (called :
      ∀ stream, world.stream = some stream →
        wp (call stream pcb) post allowed world) :
    wp (onStream (some pcb) broken freed call) post allowed world := by
  unfold onStream
  rw [wp_bind, wp_get]
  cases present : world.stream with
  | none =>
      exact silent present
  | some stream =>
      have known := attached.owner
      rw [present] at known
      have working : stream.errored = false := known.streaming.2.errored
      simp only
      rw [if_neg (by simp [working])]
      exact called stream present

/-- What an event may rely on besides the invariant. -/
def EventOk
    (finOk : TcpPcb → Prop)
    (fireOk : TcpPcb → List Err → Prop)
    (ackOk : Packet → TcpPcb → Prop)
    (writeOk : TcpPcb → Prop)
    (pcb : TcpPcb)
    (outputs : List Err) :
    Event → Prop
  | .segment packet =>
      pcb.state ≠ .timeWait → packet.Heeded pcb → ackOk packet.toPacket pcb
  | .pollWrite _ => writeOk pcb
  | .slowtmr =>
      pcb.state ≠ .timeWait → PersistDue pcb → fireOk pcb outputs
  | .fasttmr =>
      pcb.state ≠ .timeWait → pcb.flags.closepend = true → finOk pcb
  | .handleClosepend =>
      pcb.state ≠ .timeWait → pcb.flags.closepend = true → finOk pcb
  | .pollShutdown => Streaming pcb → finOk pcb
  | _ => True

/-- After an event the pcb, if it is still there, is attached to its stream
and keeps the invariant, and all new packets are `carried`. -/
structure EventKept
    (carried : Packet → Prop)
    (inv : TcpPcb → Prop)
    (world : World)
    (result : Option TcpPcb × Outcome)
    (later : World) : Prop where
  pcbAddr : later.pcbAddr = world.pcbAddr
  sent :
    ∃ more,
      later.sent = world.sent ++ more ∧ ∀ packet ∈ more, carried packet
  pcb :
    ∀ after, result.1 = some after →
      Attached world.pcbAddr after later.stream ∧ inv after

variable
  {carried : Packet → Prop}
  {inv finOk : TcpPcb → Prop}
  {fireOk : TcpPcb → List Err → Prop}

/-- The pcb is gone. -/
theorem EventKept.gone
    {before later : World}
    {outcome : Outcome}
    (emits : Emits carried before later)
    (pcbAddr : before.pcbAddr = world.pcbAddr)
    (sent : before.sent = world.sent) :
    EventKept carried inv world (none, outcome) later where
  pcbAddr := emits.pcbAddr.trans pcbAddr
  sent := by
    rw [← sent]
    exact emits.sent
  pcb := by
    rintro _ ⟨⟩

/-- The pcb has taken a local step, its stream at most an inner one. -/
theorem EventKept.stepped
    {shut : Bool}
    {base after : TcpPcb}
    {before later : World}
    {outcome : Outcome}
    (kept : SendRules.Kept shut carried inv base before after later)
    (attached : Attached world.pcbAddr base later.stream)
    (quiet : Fresh base → shut = false)
    (pcbAddr : before.pcbAddr = world.pcbAddr)
    (sent : before.sent = world.sent) :
    EventKept carried inv world (some after, outcome) later where
  pcbAddr := kept.emits.pcbAddr.trans pcbAddr
  sent := by
    rw [← sent]
    exact kept.emits.sent
  pcb := by
    rintro _ ⟨⟩
    have frame : LocalFrame shut { base with toRcvVars := base.toRcvVars }
        after := kept.frame
    exact ⟨attached.of_local frame attached.taken quiet, kept.inv⟩

section Kept

variable
  (rules : SendRules allowed carried inv finOk fireOk)
include rules

/-- A segment, to an active pcb or to one in TIME_WAIT. -/
theorem performSegment_kept
    {ackOk : Packet → TcpPcb → Prop}
    (inputs : InputRules inv ackOk)
    (dataFaults :
      ∀ fault : Fault, fault.origin = .receiveData → allowed fault)
    (packet : InPacket)
    (pcb : TcpPcb)
    (holds : inv pcb)
    (attached : Attached world.pcbAddr pcb world.stream)
    (admitted :
      pcb.state ≠ .timeWait →
        packet.Heeded pcb → ackOk packet.toPacket pcb) :
    wp (perform (some pcb) (.segment packet))
      (EventKept carried inv world) allowed world := by
  unfold perform
  simp only
  rw [wp_ite]
  refine ⟨fun waiting => ?_, fun active => ?_⟩
  · rw [wp_bind]
    refine wp_weaken (rules.tcpTimewaitInput_kept packet.toPacket pcb world
      holds) fun after later kept => ?_
    refine .stepped kept ?_ (fun fresh => ?_) rfl rfl
    · rw [kept.emits.stream]
      exact attached.retimed after.tmr
    · have state := fresh.state
      simp only [waiting] at state
      cases state
  · rw [wp_bind]
    have received (acked : TcpPcb) (world : World) :
        wp (tcpReceiveData (inputSeg packet.toPacket) acked)
          (fun _ _ => True) allowed world :=
      wp_weaken
        (tcpReceiveData_frame (fun fault same _ _ => dataFaults fault same) _
          acked fun _ _ => .inr ⟨dataFaults _ rfl, dataFaults _ rfl⟩)
        fun _ _ _ => trivial
    refine wp_weaken
      (tcpInputPcb_kept rules (fun _ _ => True) inputs
        (dataFaults _ rfl) holds (admitted active) active attached.rxOpen
        attached.taken attached.owner.notNull
        fun _ acked world _ _ => received acked world) ?_
    rintro (_ | after) later arrived
    · exact .gone arrived.2 rfl rfl
    · have arrives : Arrived carried inv (fun _ _ => True) pcb world
          (takenFrom packet.toPacket pcb world) after later := arrived
      obtain ⟨pcbAddr, sent⟩ :
          later.pcbAddr = world.pcbAddr ∧
            ∃ more,
              later.sent = world.sent ++ more ∧
                ∀ packet ∈ more, carried packet := by
        cases arrives.app with
        | kept _ _ emits =>
            exact ⟨emits.pcbAddr, emits.sent⟩
        | accepted _ _ _ _ _ _ emits =>
            exact ⟨emits.pcbAddr, emits.sent⟩
      refine ⟨pcbAddr, sent, ?_⟩
      rintro _ ⟨⟩
      exact ⟨arrives.attached attached, arrives.inv⟩

/-- A slow tick, on either list. -/
theorem performSlowtmr_kept
    (pcb : TcpPcb)
    (holds : inv pcb)
    (attached : Attached world.pcbAddr pcb world.stream)
    (mayFire :
      pcb.state ≠ .timeWait → PersistDue pcb → fireOk pcb world.outputs) :
    wp (perform (some pcb) .slowtmr)
      (EventKept carried inv world) allowed world := by
  unfold perform
  rw [wp_bind, wp_modify]
  simp only
  rw [wp_ite]
  refine ⟨fun waiting => ?_, fun active => ?_⟩
  · rw [wp_bind, wp_get]
    unfold slowtmrTimewait
    split
    · exact .gone (Emits.refl _) rfl rfl
    · refine ⟨rfl, ⟨[], by simp, by simp⟩, ?_⟩
      rintro _ ⟨⟩
      exact ⟨attached, holds⟩
  · rw [wp_bind]
    refine wp_weaken
      (rules.slowtmrPcb_kept pcb _ holds active (mayFire active)) ?_
    rintro (_ | after) later kept
    · exact .gone kept rfl rfl
    · obtain ⟨-, stepped⟩ := kept
      have emits := stepped.emits
      refine ⟨emits.pcbAddr, emits.sent, ?_⟩
      rintro _ ⟨⟩
      rw [emits.stream]
      exact ⟨attached.of_local stepped.frame attached.taken fun _ => rfl,
        stepped.inv⟩

theorem performFasttmr_kept
    (pcb : TcpPcb)
    (holds : inv pcb)
    (attached : Attached world.pcbAddr pcb world.stream)
    (mayFin :
      pcb.state ≠ .timeWait → pcb.flags.closepend = true → finOk pcb) :
    wp (perform (some pcb) .fasttmr)
      (EventKept carried inv world) allowed world := by
  unfold perform
  simp only
  rw [wp_ite]
  refine ⟨fun _ => ?_, fun active => ?_⟩
  · refine ⟨rfl, ⟨[], by simp, by simp⟩, ?_⟩
    rintro _ ⟨⟩
    exact ⟨attached, holds⟩
  · rw [wp_bind]
    refine wp_weaken
      (rules.fasttmrPcb_kept pcb world holds attached.taken (mayFin active)) ?_
    intro after later kept
    exact .stepped kept (kept.emits.stream ▸ attached) Fresh.closepend rfl rfl

theorem performHandleClosepend_kept
    (pcb : TcpPcb)
    (holds : inv pcb)
    (attached : Attached world.pcbAddr pcb world.stream)
    (mayFin :
      pcb.state ≠ .timeWait → pcb.flags.closepend = true → finOk pcb) :
    wp (perform (some pcb) .handleClosepend)
      (EventKept carried inv world) allowed world := by
  unfold perform
  simp only
  rw [wp_ite]
  refine ⟨fun _ => ?_, fun active => ?_⟩
  · refine ⟨rfl, ⟨[], by simp, by simp⟩, ?_⟩
    rintro _ ⟨⟩
    exact ⟨attached, holds⟩
  · rw [wp_bind]
    refine wp_weaken
      (rules.retryClosepend_kept pcb world holds (mayFin active)) ?_
    intro after later kept
    exact .stepped kept (kept.emits.stream ▸ attached) Fresh.closepend rfl rfl

omit rules in
/-- The world after a call has stored its stream. -/
theorem EventKept.stored
    {shut : Bool}
    {base after : TcpPcb}
    {stream next : TcpStream}
    {later : World}
    {outcome : Outcome}
    (kept : SendRules.Kept shut carried inv base world after later)
    (present : world.stream = some stream)
    (attached : Attached world.pcbAddr base world.stream)
    (alike : Alike stream next)
    (quiet : Fresh base → shut = false) :
    EventKept carried inv world (some after, outcome)
      { later with stream := some next } where
  pcbAddr := kept.emits.pcbAddr
  sent := kept.emits.sent
  pcb := by
    rintro _ ⟨⟩
    rw [present] at attached
    have frame : LocalFrame shut { base with toRcvVars := base.toRcvVars }
        after := kept.frame
    exact ⟨(attached.of_stream alike).of_local frame attached.taken quiet,
      kept.inv⟩

omit rules in
theorem Attached.withRcv
    {addr : Nat}
    {pcb : TcpPcb}
    {stream : Option TcpStream}
    (attached : Attached addr pcb stream)
    (rcv : RcvVars)
    (taken : rcv.refusedData = none) :
    Attached addr { pcb with toRcvVars := rcv } stream := by
  have frame :
      LocalFrame false { pcb with toRcvVars := rcv }
        { pcb with toRcvVars := rcv } :=
    LocalFrame.refl _ _
  exact attached.of_local frame taken fun _ => rfl

theorem performPollRead_kept
    (window : allowed .newRcvAnnWnd)
    (remaining : Nat)
    (pcb : TcpPcb)
    (holds : inv pcb)
    (attached : Attached world.pcbAddr pcb world.stream) :
    wp (perform (some pcb) (.pollRead remaining))
      (EventKept carried inv world) allowed world := by
  unfold perform
  refine onStream_attached attached (fun _ => ?_) fun stream present => ?_
  · exact .stepped ⟨LocalFrame.refl false pcb, holds, Emits.refl world⟩
      attached (fun _ => rfl) rfl rfl
  · rw [wp_bind, wp_get, wp_bind]
    refine wp_weaken
      (rules.pollReadPcb_kept window world.recvs remaining stream pcb world
        holds) ?_
    rintro ⟨result, next, after⟩ later ⟨rfl, rfl, kept⟩
    unfold putStream
    simp only [wp_bind, wp_modify, wp_pure]
    refine .stored kept present ?_
      (readStream_alike world.recvs remaining stream) fun _ => rfl
    exact attached.withRcv _ attached.taken

theorem performPollFlush_kept
    (pcb : TcpPcb)
    (holds : inv pcb)
    (attached : Attached world.pcbAddr pcb world.stream) :
    wp (perform (some pcb) .pollFlush)
      (EventKept carried inv world) allowed world := by
  unfold perform
  refine onStream_attached attached (fun _ => ?_) fun stream present => ?_
  · exact .stepped ⟨LocalFrame.refl false pcb, holds, Emits.refl world⟩
      attached (fun _ => rfl) rfl rfl
  · rw [wp_bind]
    refine wp_weaken (rules.pollFlushPcb_kept pcb world holds) ?_
    rintro ⟨result, after⟩ later kept
    exact .stepped kept (kept.emits.stream ▸ attached) (fun _ => rfl) rfl rfl

theorem performPollShutdown_kept
    (pcb : TcpPcb)
    (holds : inv pcb)
    (attached : Attached world.pcbAddr pcb world.stream)
    (mayFin : Streaming pcb → finOk pcb) :
    wp (perform (some pcb) .pollShutdown)
      (EventKept carried inv world) allowed world := by
  unfold perform
  refine onStream_attached attached (fun _ => ?_) fun stream present => ?_
  · exact .stepped ⟨LocalFrame.refl false pcb, holds, Emits.refl world⟩
      attached (fun _ => rfl) rfl rfl
  · have known := attached.owner
    rw [present] at known
    have streaming := known.streaming.1
    rw [wp_bind]
    refine wp_weaken
      (rules.pollShutdownPcb_kept stream pcb world holds (mayFin streaming)) ?_
    rintro ⟨result, next, after⟩ later ⟨⟨closed, rfl⟩, kept⟩
    unfold putStream
    simp only [wp_bind, wp_modify, wp_pure]
    exact .stored kept present attached (by constructor <;> rfl) fun fresh =>
      absurd fresh.state streaming.state

/-- A pcb that has forgotten its stream belongs to nobody. -/
theorem performDropStream_kept
    (pcb : TcpPcb)
    (holds : inv pcb)
    (attached : Attached world.pcbAddr pcb world.stream) :
    wp (perform (some pcb) .dropStream)
      (EventKept carried inv world) allowed world := by
  unfold perform
  rw [wp_bind]
  refine onStream_attached attached (fun absent => ?_) fun stream present => ?_
  · simp only [wp_bind, wp_modify, wp_pure]
    refine ⟨rfl, ⟨[], by simp, by simp⟩, ?_⟩
    rintro _ ⟨⟩
    rw [absent] at attached
    exact ⟨attached, holds⟩
  · rw [wp_bind]
    refine wp_weaken (rules.dropPcb_kept stream pcb world holds) ?_
    rintro left later ⟨emits, shut, aborted, keeps⟩
    simp only [wp_bind, wp_modify, wp_pure]
    have known := attached.owner
    rw [present] at known
    have streaming := known.streaming.1
    refine ⟨emits.pcbAddr, emits.sent, ?_⟩
    rintro after isLeft
    cases closed : stream.closed with
    | false =>
        rw [aborted closed] at isLeft
        cases isLeft
    | true =>
        rw [shut closed] at isLeft
        cases isLeft
        refine ⟨?_, keeps⟩
        exact {
          bound := attached.bound
          rxOpen := attached.rxOpen
          taken := attached.taken
          owner := .nobody {
            state := streaming.state
            arg := rfl
            recv := rfl
            sent := rfl
            errf := rfl
            poll := rfl } }

theorem performDropListener_kept
    (pcb : TcpPcb)
    (holds : inv pcb)
    (attached : Attached world.pcbAddr pcb world.stream) :
    wp (perform (some pcb) .dropListener)
      (EventKept carried inv world) allowed world := by
  unfold perform
  simp only [wp_bind, wp_modify, wp_pure]
  refine ⟨rfl, ⟨[], by simp, by simp⟩, ?_⟩
  rintro _ ⟨⟩
  exact ⟨attached.withListener none,
    rules.view pcb _ (by constructor <;> rfl) holds⟩

theorem performKill_kept
    (pcb : TcpPcb)
    (holds : inv pcb)
    (attached : Attached world.pcbAddr pcb world.stream) :
    wp (perform (some pcb) .kill)
      (EventKept carried inv world) allowed world := by
  unfold perform
  simp only
  rw [wp_bind]
  refine wp_weaken (rules.killPcb_kept pcb world holds) ?_
  rintro (_ | after) later kept
  · exact .gone kept.2 rfl rfl
  · obtain ⟨rfl, rfl⟩ := kept
    exact .stepped ⟨LocalFrame.refl false after, holds, Emits.refl _⟩
      attached (fun _ => rfl) rfl rfl

/-- Every event but `poll_write` keeps the invariant. -/
theorem perform_kept
    {ackOk : Packet → TcpPcb → Prop}
    {writeOk : TcpPcb → Prop}
    (inputs : InputRules inv ackOk)
    (dataFaults :
      ∀ fault : Fault, fault.origin = .receiveData → allowed fault)
    (pcb : TcpPcb)
    (event : Event)
    (holds : inv pcb)
    (attached : Attached world.pcbAddr pcb world.stream)
    (admitted : EventOk finOk fireOk ackOk writeOk pcb world.outputs event)
    (noWrite : ∀ buf, event ≠ .pollWrite buf) :
    wp (perform (some pcb) event)
      (EventKept carried inv world) allowed world := by
  cases event with
  | segment packet =>
      exact performSegment_kept rules inputs dataFaults packet pcb holds
        attached admitted
  | slowtmr =>
      exact performSlowtmr_kept rules pcb holds attached admitted
  | fasttmr =>
      exact performFasttmr_kept rules pcb holds attached admitted
  | pollRead remaining =>
      exact performPollRead_kept rules (dataFaults _ rfl) remaining pcb holds
        attached
  | pollWrite buf =>
      exact absurd rfl (noWrite buf)
  | pollFlush =>
      exact performPollFlush_kept rules pcb holds attached
  | pollShutdown =>
      exact performPollShutdown_kept rules pcb holds attached admitted
  | dropStream =>
      exact performDropStream_kept rules pcb holds attached
  | dropListener =>
      exact performDropListener_kept rules pcb holds attached
  | handleClosepend =>
      exact performHandleClosepend_kept rules pcb holds attached admitted
  | kill =>
      exact performKill_kept rules pcb holds attached

end Kept

end Events

end NetstackLwip

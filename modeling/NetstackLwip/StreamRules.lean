import NetstackLwip.Delivery

namespace NetstackLwip

/-!
# The calls on a stream

What `poll_read` takes from the channel, and what the other calls and a
segment for a pcb in TIME_WAIT leave alone.
-/

open FaultState

/-! ## Reading -/

/-- What a read has taken: the result, the stream left behind, and the lengths
of the chunks it has returned to the window. -/
structure ReadOut where
  result : PollRead
  stream : TcpStream
  credited : List Nat := []

/-- `pollReadLoop` without its pcb. -/
def readChunks :
    List Bytes → List Bool → Nat → Bytes → TcpStream → ReadOut
  | [], recvs, _, taken, stream =>
      { result :=
          if recvs.headD true && !stream.readTx then .brokenPipe
          else readPending taken stream
        stream := { stream with readRx := [] } }
  | data :: rest, recvs, remaining, taken, stream =>
      if !recvs.headD true then
        { result := readPending taken stream
          stream := { stream with readRx := data :: rest } }
      else if data.isEmpty then
        { result := .ready taken
          stream := { stream with readRx := rest, isEof := true } }
      else
        let toRead := min remaining data.length
        if toRead < data.length then
          { result := .ready (taken ++ data.take toRead)
            stream := {
              stream with
              readRx := rest
              writeBuf := stream.writeBuf ++ data.drop toRead }
            credited := [data.length] }
        else
          let out :=
            readChunks rest recvs.tail (remaining - toRead)
              (taken ++ data.take toRead) stream
          { out with credited := data.length :: out.credited }

/-- `pollReadPcb` without its pcb. -/
def readStream
    (recvs : List Bool)
    (remaining : Nat)
    (stream : TcpStream) : ReadOut :=
  if !stream.writeBuf.isEmpty then
    let toRead := min remaining stream.writeBuf.length
    { result := .ready (stream.writeBuf.take toRead)
      stream := { stream with writeBuf := stream.writeBuf.drop toRead } }
  else
    readChunks stream.readRx recvs remaining [] stream

/-- A read without its pcb either returns what it reads, no chunk being given
back to the window, or comes upon the freed pcb. -/
theorem pollReadFreed_spec
    (recvs : List Bool)
    (remaining : Nat)
    (stream : TcpStream)
    (world : World) :
    wp (pollReadFreed recvs remaining stream)
      (fun result later =>
        let out := readStream recvs remaining stream
        result = (out.result, out.stream) ∧ out.credited = [] ∧
          later = world)
      (fun fault => fault = .danglingPcb) world := by
  have returned :
      wp
        (pollReadOn (fun (_ : Unit) _ => throw .danglingPcb) recvs remaining
          stream ())
        (fun result later =>
          let out := readStream recvs remaining stream
          result = (out.result, out.stream, ()) ∧ out.credited = [] ∧
            later = world)
        (fun fault => fault = .danglingPcb) world := by
    unfold pollReadOn readStream
    rw [wp_ite]
    refine ⟨fun left => ?_, fun drained => ?_⟩
    · rw [if_pos left]
      exact ⟨rfl, rfl, rfl⟩
    rw [if_neg drained]
    cases stream.readRx with
    | nil => exact ⟨rfl, rfl, rfl⟩
    | cons data rest =>
        unfold pollReadLoop readChunks
        rw [wp_ite]
        refine ⟨fun waits => ?_, fun ready => ?_⟩
        · rw [if_pos waits]
          exact ⟨rfl, rfl, rfl⟩
        rw [if_neg ready, wp_ite]
        refine ⟨fun ended => ?_, fun _ => rfl⟩
        rw [if_pos ended]
        exact ⟨rfl, rfl, rfl⟩
  unfold pollReadFreed
  rw [wp_bind]
  refine wp_weaken returned ?_
  rintro _ later ⟨rfl, credited, same⟩
  exact ⟨rfl, credited, same⟩

/-- The window after chunks of these lengths have been read. -/
def creditedWnd (rcvWnd : Nat) (credited : List Nat) : Nat :=
  credited.foldl (fun wnd len => recvedWnd wnd (len % 65536)) rcvWnd

namespace SendRules

variable
  {allowed : Fault → Prop}
  {carried : Packet → Prop}
  {inv finOk : TcpPcb → Prop}
  {fireOk : TcpPcb → List Err → Prop}
  (rules : SendRules allowed carried inv finOk fireOk)
  (window : allowed .newRcvAnnWnd)
include rules

theorem sentAck_kept
    (pcb : TcpPcb)
    (world : World)
    (holds : inv pcb) :
    wp (tcpOutput false { pcb with flags.ackNow := true })
      (fun result later => Kept false carried inv pcb world result.2 later)
      allowed world := by
  refine wp_weaken (rules.tcpOutput_kept _ world ?_) ?_
  · exact rules.view pcb _ (by constructor <;> rfl) holds
  · rintro ⟨_, after⟩ later kept
    refine ⟨LocalFrame.trans ?_ kept.frame, kept.inv, kept.emits⟩
    constructor
    case state => exact .inl ⟨rfl, rfl⟩
    all_goals intros; rfl

include window

theorem tcpRecved_kept
    (pcb : TcpPcb)
    (world : World)
    (len : Nat)
    (holds : inv pcb) :
    wp (tcpRecved false pcb len)
      (fun result later =>
        Kept false carried inv { pcb with rcvWnd := recvedWnd pcb.rcvWnd len }
          world result later)
      allowed world := by
  unfold tcpRecved
  rw [wp_bind]
  refine wp_weaken (tcpUpdateRcvAnnWnd_spec _ window) ?_
  rintro ⟨inflation, grown⟩ later ⟨rfl, wnd, rfl⟩
  have updated (now : Bool) :
      Kept false carried inv { pcb with rcvWnd := recvedWnd pcb.rcvWnd len } later
        { pcb with
          rcvWnd := recvedWnd pcb.rcvWnd len
          rcvAnnWnd := wnd } later := by
    refine ⟨?_, rules.view pcb _ (by constructor <;> rfl) holds, Emits.refl _⟩
    constructor
    case state => exact .inl ⟨rfl, rfl⟩
    all_goals intros; rfl
  rw [wp_ite]
  refine ⟨fun _ => ?_, fun _ => updated false⟩
  rw [wp_bind]
  refine wp_weaken (rules.sentAck_kept _ _ (updated false).inv) ?_
  rintro ⟨_, after⟩ last kept
  exact (updated false).trans kept

theorem pollReadLoop_kept
    (chunks : List Bytes)
    (recvs : List Bool)
    (remaining : Nat)
    (taken : Bytes)
    (stream : TcpStream)
    (pcb : TcpPcb)
    (world : World)
    (holds : inv pcb) :
    wp (pollReadLoop (tcpRecved false) chunks recvs remaining taken stream pcb)
      (fun result later =>
        let out := readChunks chunks recvs remaining taken stream
        result.1 = out.result ∧
          result.2.1 = out.stream ∧
          Kept false carried inv
            { pcb with rcvWnd := creditedWnd pcb.rcvWnd out.credited }
            world result.2.2 later)
      allowed world := by
  have idle : Kept false carried inv pcb world pcb world :=
    ⟨LocalFrame.refl _ pcb, holds, Emits.refl world⟩
  induction chunks generalizing recvs remaining taken pcb world with
  | nil =>
      exact ⟨rfl, rfl, idle⟩
  | cons data rest inductionHypothesis =>
      unfold pollReadLoop
      rw [wp_ite]
      refine ⟨fun waits => ?_, fun ready => ?_⟩
      · simp only [readChunks, if_pos waits]
        exact ⟨rfl, rfl, idle⟩
      rw [wp_ite]
      refine ⟨fun ended => ?_, fun filled => ?_⟩
      · simp only [readChunks, if_neg ready, if_pos ended]
        exact ⟨rfl, rfl, idle⟩
      rw [wp_bind]
      refine wp_weaken (rules.tcpRecved_kept window pcb world _ holds) ?_
      intro credited middle kept
      simp only
      rw [wp_ite]
      refine ⟨fun short => ?_, fun whole => ?_⟩
      · simp only [readChunks, if_neg ready, if_neg filled, if_pos short]
        exact ⟨rfl, rfl, kept⟩
      · have next := inductionHypothesis recvs.tail
          (remaining - min remaining data.length)
          (taken ++ data.take (min remaining data.length)) credited middle
          kept.inv ⟨LocalFrame.refl _ _, kept.inv, Emits.refl _⟩
        refine wp_weaken next ?_
        rintro ⟨result, left, after⟩ later ⟨rfl, rfl, keeps⟩
        simp only [readChunks, if_neg ready, if_neg filled, if_neg whole]
        refine ⟨trivial, trivial, ?_, keeps.inv, kept.emits.trans keeps.emits⟩
        have wnd :
            credited.rcvWnd = recvedWnd pcb.rcvWnd (data.length % 65536) := by
          rw [kept.frame.rcv]
        have first := kept.frame.withRcv fun rcv =>
          { rcv with
            rcvWnd :=
              creditedWnd credited.rcvWnd
                (readChunks rest recvs.tail
                  (remaining - min remaining data.length)
                  (taken ++ data.take (min remaining data.length))
                  stream).credited }
        have both := first.trans keeps.frame
        rw [wnd] at both
        exact both

theorem pollReadPcb_kept
    (recvs : List Bool)
    (remaining : Nat)
    (stream : TcpStream)
    (pcb : TcpPcb)
    (world : World)
    (holds : inv pcb) :
    wp (pollReadPcb recvs remaining stream pcb)
      (fun result later =>
        let out := readStream recvs remaining stream
        result.1 = out.result ∧
          result.2.1 = out.stream ∧
          Kept false carried inv
            { pcb with rcvWnd := creditedWnd pcb.rcvWnd out.credited }
            world result.2.2 later)
      allowed world := by
  unfold pollReadPcb pollReadOn readStream
  rw [wp_ite]
  refine ⟨fun left => ?_, fun empty => ?_⟩
  · simp only [if_pos left]
    exact ⟨rfl, rfl, LocalFrame.refl _ pcb, holds, Emits.refl world⟩
  · simp only [if_neg empty]
    exact rules.pollReadLoop_kept window _ _ _ _ _ pcb world holds

omit window

/-! ## The other calls -/

theorem pollFlushPcb_kept
    (pcb : TcpPcb)
    (world : World)
    (holds : inv pcb) :
    wp (pollFlushPcb pcb)
      (fun result later => Kept false carried inv pcb world result.2 later)
      allowed world := by
  unfold pollFlushPcb
  rw [wp_bind]
  refine wp_weaken (rules.tcpOutput_kept pcb world holds) ?_
  rintro ⟨err, after⟩ later kept
  rw [wp_ite]
  exact ⟨fun _ => kept, fun _ => kept⟩

theorem pollShutdownPcb_kept
    (stream : TcpStream)
    (pcb : TcpPcb)
    (world : World)
    (holds : inv pcb)
    (mayFin : finOk pcb) :
    wp (pollShutdownPcb stream pcb)
      (fun result later =>
        (∃ closed, result.2.1 = { stream with closed := closed }) ∧
          Kept true carried inv pcb world result.2.2 later)
      allowed world := by
  unfold pollShutdownPcb
  rw [wp_bind]
  refine wp_weaken (rules.tcpShutdownTx_kept pcb world holds mayFin) ?_
  rintro ⟨err, after⟩ later kept
  rw [wp_ite]
  exact ⟨fun _ => ⟨⟨true, rfl⟩, kept⟩, fun _ => ⟨⟨stream.closed, rfl⟩, kept⟩⟩

/-- The pcb once it has forgotten its stream. -/
def detached (pcb : TcpPcb) : TcpPcb :=
  { pcb with
    callbackArg := .null
    recv := .none
    sent := false
    errf := false
    poll := false
    pollinterval := 0 }

/-- `Drop` detaches the pcb, and aborts it unless it was shut down. -/
theorem dropPcb_kept
    (stream : TcpStream)
    (pcb : TcpPcb)
    (world : World)
    (holds : inv pcb) :
    wp (dropPcb stream pcb)
      (fun result later =>
        Emits carried world later ∧
          (stream.closed = true → result = some (detached pcb)) ∧
          (stream.closed = false → result = none) ∧
          inv (detached pcb))
      allowed world := by
  have keeps : inv (detached pcb) :=
    rules.view pcb _ (by constructor <;> rfl) holds
  unfold dropPcb
  rw [wp_ite]
  refine ⟨fun closed => ?_, fun unclosed => ?_⟩
  · exact ⟨Emits.refl world, fun _ => rfl, by simp [closed], keeps⟩
  · rw [wp_bind]
    refine wp_weaken
      (tcpAbandon_spec (fun fault same => rules.origin same (by decide))
        (fun fault same => rules.origin same (by decide)) false
        (detached pcb) true (rules.live _ keeps) (rules.waiting _ keeps)) ?_
    intro _ later gone
    have silent : endTold (detached pcb) world.stream = world.stream := by
      unfold endTold told detached
      simp
    rw [silent] at gone
    exact ⟨gone.mono rules.bare, fun closed => absurd closed unclosed,
      fun _ => rfl, keeps⟩

/-- `tcp_timewait_input` at most restarts the timer and acknowledges. -/
theorem tcpTimewaitInput_kept
    (packet : Packet)
    (pcb : TcpPcb)
    (world : World)
    (holds : inv pcb) :
    wp (tcpTimewaitInput packet pcb)
      (fun after later =>
        Kept false carried inv { pcb with tmr := after.tmr } world after later)
      allowed world := by
  have ticked (tmr : BitVec 32) : inv { pcb with tmr := tmr } :=
    rules.view pcb _ (by constructor <;> rfl) holds
  have idle : Kept false carried inv { pcb with tmr := pcb.tmr } world pcb world :=
    ⟨LocalFrame.refl _ pcb, holds, Emits.refl world⟩
  unfold tcpTimewaitInput
  simp only
  rw [wp_ite]
  refine ⟨fun _ => idle, fun _ => ?_⟩
  rw [wp_ite]
  refine ⟨fun _ => ?_, fun _ => ?_⟩
  · rw [wp_bind]
    refine wp_weaken (tcpRst_spec _ _ _ _ _ _) fun _ later emits => ?_
    exact ⟨idle.frame, idle.inv, emits.mono rules.bare⟩
  rw [wp_bind, wp_get]
  have restarted :
      ∃ tmr,
        (if !packet.flags.syn && packet.flags.fin then
          { pcb with tmr := world.tcpTicks }
        else
          pcb) = { pcb with tmr := tmr } := by
    split
    · exact ⟨world.tcpTicks, rfl⟩
    · exact ⟨pcb.tmr, rfl⟩
  obtain ⟨tmr, equal⟩ := restarted
  rw [equal, wp_ite]
  refine ⟨fun _ => ?_, fun _ => ?_⟩
  · rw [wp_bind]
    refine wp_weaken (rules.sentAck_kept _ world (ticked tmr)) ?_
    rintro ⟨_, after⟩ later kept
    have same : after.tmr = tmr := kept.frame.tmr
    rw [wp_pure, same]
    exact kept
  · exact ⟨LocalFrame.refl _ _, ticked tmr, Emits.refl world⟩

/-- `tcp_kill_state` and `tcp_kill_timewait` take the pcb or leave it. -/
theorem killPcb_kept
    (pcb : TcpPcb)
    (world : World)
    (holds : inv pcb) :
    wp (killPcb pcb)
      (fun result later =>
        match result with
        | some after => after = pcb ∧ later = world
        | none =>
            (pcb.state = .lastAck ∨ pcb.state = .closing ∨
                pcb.state = .timeWait) ∧
              Emits carried
                { world with stream := endTold pcb world.stream } later)
      allowed world := by
  have abandoned (reset : Bool) :=
    wp_weaken
      (@tcpAbandon_spec allowed world
        (fun fault same => rules.origin same (by decide))
        (fun fault same => rules.origin same (by decide)) false pcb reset
        (rules.live _ holds) (rules.waiting _ holds))
      fun _ _ gone => gone.mono rules.bare
  unfold killPcb
  cases state : pcb.state with
  | lastAck =>
      rw [wp_bind]
      exact wp_weaken (abandoned false) fun _ later gone => ⟨by simp, gone⟩
  | closing =>
      rw [wp_bind]
      exact wp_weaken (abandoned false) fun _ later gone => ⟨by simp, gone⟩
  | timeWait =>
      rw [wp_bind]
      exact wp_weaken (abandoned true) fun _ later gone => ⟨by simp, gone⟩
  | _ =>
      exact ⟨rfl, rfl⟩

end SendRules

end NetstackLwip

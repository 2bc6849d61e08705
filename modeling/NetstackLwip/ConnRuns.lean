import NetstackLwip.ConnRules

namespace NetstackLwip

/-!
# Runs of a connection

An invariant of the sender, given by what opens a connection, by what a write
does, and by the rules for everything else, holds in every reachable state of
the connection, and no step from such a state stops with a fault that it rules
out.
-/

open FaultState FaultMachine

/-! ## How a connection opens -/

/-- The pcb `tcp_listen_input` sets up, with the peer's options and window
noted. -/
def offeredPcb
    (packet : Packet)
    (listener : Nat)
    (iss : SeqNo)
    (world : World) : TcpPcb :=
  let pcb :=
    tcpParseopt packet.options
      (listenPcb packet (.listener listener) listener iss world.tcpTicks)
  { pcb with
    sndWnd := packet.wnd.toNat
    sndWndMax := packet.wnd.toNat
    mss := tcpEffSendMssNetif pcb.mss world.mtu6 pcb.remoteIp }

/-- The pcb with its SYN|ACK queued, when `tcp_output` looks at it. -/
def openingPcb
    (packet : Packet)
    (listener : Nat)
    (iss : SeqNo)
    (world : World) : TcpPcb :=
  let pcb := offeredPcb packet listener iss world
  bindLocalIp (enqueueSeg pcb (flagsSeg pcb { syn := true, ack := true }))

theorem bindLocalIp_bound
    (pcb : TcpPcb) :
    (bindLocalIp pcb).localIp.isAny = false := by
  unfold bindLocalIp
  simp only
  split
  · cases pcb.remoteIp <;> rfl
  · rename_i bound
    simpa using bound

theorem bindLocalIp_idem
    (pcb : TcpPcb) :
    bindLocalIp (bindLocalIp pcb) = bindLocalIp pcb := by
  have bound := bindLocalIp_bound pcb
  unfold bindLocalIp at bound ⊢
  simp only at bound ⊢
  rw [if_neg (by rw [bound]; simp)]

/-- `tcp_output` binds the address first when there is something to send. -/
theorem tcpOutput_bindLocalIp
    (pcb : TcpPcb)
    (waiting : pcb.unsent ≠ []) :
    tcpOutput false (bindLocalIp pcb) = tcpOutput false pcb := by
  cases unsent : pcb.unsent with
  | nil =>
      exact absurd unsent waiting
  | cons seg rest =>
      have same : (bindLocalIp pcb).unsent = seg :: rest := unsent
      unfold tcpOutput
      rw [unsent, same, bindLocalIp_idem]
      rfl

/-- A pcb that a SYN has opened. -/
theorem openingPcb_attached
    (packet : Packet)
    (listener : Nat)
    (iss : SeqNo)
    (world : World) :
    Attached world.pcbAddr (openingPcb packet listener iss world) none where
  bound := bindLocalIp_bound _
  rxOpen := rfl
  taken := rfl
  owner := .listener {
    state := rfl
    closepend := rfl
    arg := ⟨listener, rfl⟩
    recv := rfl
    sent := rfl
    errf := rfl
    poll := rfl }

/-- `tcp_listen_input` leaves what `tcp_output` makes of the opening pcb. -/
theorem SendRules.tcpListenInputSyn_kept
    {allowed : Fault → Prop}
    {carried : Packet → Prop}
    {inv finOk : TcpPcb → Prop}
    {fireOk : TcpPcb → List Err → Prop}
    (rules : SendRules allowed carried inv finOk fireOk)
    (packet : Packet)
    (listener : Nat)
    (iss : SeqNo)
    (world : World)
    (holds : inv (openingPcb packet listener iss world)) :
    wp (tcpListenInputSyn packet (.listener listener) listener iss)
      (fun result later =>
        match result with
        | none => Emits carried world later
        | some pcb =>
            Kept false carried inv (openingPcb packet listener iss world)
              world pcb later)
      allowed world := by
  unfold tcpListenInputSyn
  rw [wp_bind, wp_get, wp_bind]
  refine wp_weaken
    (tcpEnqueueFlags_spec (fun _ same => rules.origin same (by decide))
      (offeredPcb packet listener iss world) _) ?_
  rintro ⟨err, queued⟩ middle ⟨emits, refused, done⟩
  rw [wp_ite]
  refine ⟨fun bad => ?_, fun ok => ?_⟩
  · have same := (refused bad).2.frame
    have waits : queued.state = .synRcvd := same.state
    have mute : queued.errf = false := congrArg AppVars.errf same.app
    rw [wp_bind]
    refine wp_weaken
      (tcpAbandon_spec (fun _ same => rules.origin same (by decide))
        (fun _ same => rules.origin same (by decide)) false queued false
        (by simp [waits]) (by simp [waits])) ?_
    rintro _ later gone
    have silent : endTold queued middle.stream = middle.stream := by
      simp [endTold, told, waits, mute]
    rw [silent] at gone
    exact (emits.mono rules.bare).trans (gone.mono rules.bare)
  · rw [not_not] at ok
    have isQueued := done ok
    simp only at isQueued
    have waiting : queued.unsent ≠ [] := by
      rw [isQueued]
      simp [enqueueSeg]
    rw [wp_bind, ← tcpOutput_bindLocalIp queued waiting]
    have opening : bindLocalIp queued = openingPcb packet listener iss world :=
      congrArg bindLocalIp isQueued
    rw [opening]
    refine wp_weaken (rules.tcpOutput_kept _ middle holds) ?_
    rintro ⟨_, after⟩ later kept
    exact ⟨kept.frame, kept.inv, (emits.mono rules.bare).trans kept.emits⟩

/-! ## Invariants of the sender -/

/-- The part of the history that is about sending. -/
structure SendLog where
  iss : SeqNo
  written : Bytes
  outputFailed : Bool

/-- The log of a connection. -/
def History.sendLog (history : History) : SendLog where
  iss := history.iss
  written := history.written
  outputFailed := history.outputFailed

/-- The log after a call that returned `outcome`. -/
def SendLog.record (log : SendLog) (outcome : Outcome) : SendLog where
  iss := log.iss
  written :=
    match outcome with
    | .write buf (.ready written) => log.written ++ buf.take written
    | _ => log.written
  outputFailed :=
    match outcome with
    | .write _ (.outputError _) => true
    | _ => log.outputFailed

theorem History.sendLog_record
    (history : History)
    (received : RecvOut)
    (outcome : Outcome) :
    (history.record received outcome).sendLog =
      history.sendLog.record outcome := rfl

/-- An outcome that is no write leaves the log as it is. -/
theorem SendLog.record_other
    (log : SendLog)
    {outcome : Outcome}
    (other : ∀ buf result, outcome ≠ .write buf result) :
    log.record outcome = log := by
  cases outcome with
  | write buf result =>
      exact absurd rfl (other buf result)
  | _ =>
      rfl

/-- What holds of the event holds of the connection after its step. -/
theorem Conn.step_returned
    {allowed : Fault → Prop}
    {post : Option TcpPcb × Outcome → World → Prop}
    {before after : Conn}
    {label : Label}
    (performed :
      wp (perform before.pcb label.event) post allowed
        (label.enter before.world))
    (taken : before.step label = .ok after) :
    ∃ outcome,
      after.history =
          before.history.record (acceptedBy before.pcb label before.world)
            outcome ∧
        post (after.pcb, outcome) after.world := by
  unfold Conn.step at taken
  split at taken
  · rename_i pcb outcome world ran
    cases taken
    have known := wp_returned performed ran
    exact ⟨outcome, rfl, known⟩
  · cases taken

/-- A step stops only where its event may. -/
theorem Conn.step_faulted
    {allowed : Fault → Prop}
    {post : Option TcpPcb × Outcome → World → Prop}
    {conn : Conn}
    {label : Label}
    {fault : Fault}
    (performed :
      wp (perform conn.pcb label.event) post allowed (label.enter conn.world))
    (stopped : conn.step label = .error fault) :
    allowed fault := by
  unfold Conn.step at stopped
  split at stopped
  · cases stopped
  · rename_i other ran
    cases stopped
    exact wp_faulted performed ran

/-- A read of a stream whose pcb is freed changes the stream alone, and gives
nothing back to the window. -/
theorem readFreed_spec
    (remaining : Nat)
    (stream : TcpStream)
    (world : World) :
    wp (readFreed remaining stream)
      (fun outcome later =>
        let out := readStream world.recvs remaining stream
        outcome = .read remaining out.result ∧ out.credited = [] ∧
          later = { world with stream := some out.stream })
      (fun fault => fault = .danglingPcb) world := by
  unfold readFreed putStream
  rw [wp_bind, wp_get, wp_bind]
  refine wp_weaken (pollReadFreed_spec world.recvs remaining stream world) ?_
  rintro _ _ ⟨rfl, credited, rfl⟩
  rw [wp_bind, wp_modify]
  exact ⟨rfl, credited, rfl⟩

/-- A freed pcb stays freed, and nothing is sent in its name. -/
theorem perform_none
    (event : Event)
    (log : SendLog)
    (world : World) :
    wp (perform none event)
      (fun result later =>
        result.1 = none ∧ later.sent = world.sent ∧
          log.record result.2 = log)
      (fun fault => fault = .danglingPcb) world := by
  have called (broken : Outcome)
      (freed : TcpStream → Lwip Outcome)
      (call : TcpStream → TcpPcb → Lwip (Option TcpPcb × Outcome))
      (quiet : log.record broken = log)
      (reads :
        ∀ stream,
          wp (freed stream)
            (fun outcome later =>
              later.sent = world.sent ∧ log.record outcome = log)
            (fun fault => fault = .danglingPcb) world) :
      wp (onStream none broken freed call)
        (fun result later =>
          result.1 = none ∧ later.sent = world.sent ∧
            log.record result.2 = log)
        (fun fault => fault = .danglingPcb) world := by
    unfold onStream
    rw [wp_bind, wp_get]
    cases world.stream with
    | none =>
        exact ⟨rfl, rfl, rfl⟩
    | some stream =>
        simp only
        rw [wp_ite]
        refine ⟨fun _ => ⟨rfl, rfl, quiet⟩, fun _ => ?_⟩
        rw [wp_bind]
        exact wp_weaken (reads stream) fun _ _ same => ⟨rfl, same⟩
  cases event with
  | dropStream =>
      unfold perform
      rw [wp_bind]
      exact wp_weaken (called .silent _ _ rfl fun _ => rfl)
        fun _ _ same => same
  | pollRead remaining =>
      unfold perform
      refine called _ _ _ rfl fun stream => ?_
      refine wp_weaken (readFreed_spec remaining stream world) ?_
      rintro _ _ ⟨rfl, -, rfl⟩
      exact ⟨rfl, rfl⟩
  | pollWrite buf =>
      unfold perform
      exact called _ _ _ rfl fun _ => rfl
  | pollFlush =>
      unfold perform
      exact called _ _ _ rfl fun _ => rfl
  | pollShutdown =>
      unfold perform
      exact called _ _ _ rfl fun _ => rfl
  | _ =>
      exact ⟨rfl, rfl, rfl⟩

/-- The outcome is not that of a write. -/
def Outcome.NoWrite (outcome : Outcome) : Prop :=
  ∀ buf result, outcome ≠ .write buf result

/-- Only `poll_write` has the outcome of a write. -/
theorem perform_noWrite
    (pcb : Option TcpPcb)
    (event : Event)
    (noWrite : ∀ buf, event ≠ .pollWrite buf)
    (world : World) :
    wp (perform pcb event) (fun result _ => result.2.NoWrite)
      (fun _ => True) world := by
  have silent : Outcome.silent.NoWrite := by
    simp [Outcome.NoWrite]
  have after {α : Type}
      (computation : Lwip α)
      (result : α → Lwip (Option TcpPcb × Outcome))
      (world : World)
      (quiet :
        ∀ value later,
          wp (result value) (fun result _ => result.2.NoWrite)
            (fun _ => True) later) :
      wp (computation >>= result) (fun result _ => result.2.NoWrite)
        (fun _ => True) world := by
    rw [wp_bind]
    exact wp_of_outcomes (fun value later _ => quiet value later)
      fun _ _ => trivial
  have called (broken : Outcome)
      (freed : TcpStream → Lwip Outcome)
      (call : TcpStream → TcpPcb → Lwip (Option TcpPcb × Outcome))
      (quiet : broken.NoWrite)
      (reads :
        ∀ stream later,
          wp (freed stream) (fun outcome _ => outcome.NoWrite)
            (fun _ => True) later)
      (answers :
        ∀ stream pcb later,
          wp (call stream pcb) (fun result _ => result.2.NoWrite)
            (fun _ => True) later) :
      wp (onStream pcb broken freed call) (fun result _ => result.2.NoWrite)
        (fun _ => True) world := by
    unfold onStream
    refine after _ _ _ fun entered later => ?_
    cases entered.stream with
    | none =>
        exact silent
    | some stream =>
        simp only
        rw [wp_ite]
        refine ⟨fun _ => quiet, fun _ => ?_⟩
        cases pcb with
        | none =>
            rw [wp_bind]
            exact wp_weaken (reads stream later) fun _ _ noWrite => noWrite
        | some pcb => exact answers stream pcb later
  cases event with
  | segment packet =>
      cases pcb with
      | none => exact silent
      | some pcb =>
          unfold perform
          simp only
          rw [wp_ite]
          exact ⟨fun _ => after _ _ _ fun _ _ => silent,
            fun _ => after _ _ _ fun _ _ => silent⟩
  | slowtmr =>
      unfold perform
      refine after _ _ _ fun _ later => ?_
      cases pcb with
      | none => exact silent
      | some pcb =>
          simp only
          rw [wp_ite]
          exact ⟨fun _ => after _ _ _ fun _ _ => silent,
            fun _ => after _ _ _ fun _ _ => silent⟩
  | fasttmr =>
      cases pcb with
      | none => exact silent
      | some pcb =>
          unfold perform
          simp only
          rw [wp_ite]
          exact ⟨fun _ => silent, fun _ => after _ _ _ fun _ _ => silent⟩
  | pollRead remaining =>
      refine called _ _ _ (by simp [Outcome.NoWrite]) (fun _ _ => ?_)
        fun _ _ _ => ?_
      · refine wp_mono (readFreed_spec remaining _ _) ?_ fun _ _ => trivial
        rintro _ _ ⟨rfl, -⟩
        simp [Outcome.NoWrite]
      · refine after _ _ _ fun _ _ => after _ _ _ fun _ _ =>
          after _ _ _ fun _ _ => ?_
        simp [Outcome.NoWrite]
  | pollWrite buf =>
      exact absurd rfl (noWrite buf)
  | pollFlush =>
      refine called _ _ _ (by simp [Outcome.NoWrite]) (fun _ _ => trivial)
        fun _ _ _ => ?_
      refine after _ _ _ fun _ _ => ?_
      simp [Outcome.NoWrite]
  | pollShutdown =>
      refine called _ _ _ (by simp [Outcome.NoWrite]) (fun _ _ => trivial)
        fun _ _ _ => ?_
      refine after _ _ _ fun _ _ => after _ _ _ fun _ _ => ?_
      simp [Outcome.NoWrite]
  | dropStream =>
      unfold perform
      rw [wp_bind]
      have quiet :=
        called .silent useFreed
          (fun stream pcb => do
            let pcb ← dropPcb stream pcb
            pure (pcb, .silent))
          silent (fun _ _ => trivial) fun _ _ _ => after _ _ _ fun _ _ => silent
      exact wp_weaken quiet fun _ _ same => same
  | dropListener =>
      exact silent
  | handleClosepend =>
      cases pcb with
      | none => exact silent
      | some pcb =>
          unfold perform
          simp only
          rw [wp_ite]
          exact ⟨fun _ => silent, fun _ => after _ _ _ fun _ _ => silent⟩
  | kill =>
      cases pcb with
      | none => exact silent
      | some pcb =>
          exact after _ _ _ fun _ _ => silent

/-- Before the first write nothing is known of the stream but its start. -/
theorem Conn.Initial.sendLog
    {conn : Conn}
    (initial : conn.Initial) :
    conn.history.sendLog = ⟨conn.history.iss, [], false⟩ := by
  obtain ⟨_, _, _, _, _, _, _, _, _, _, _, history⟩ := initial
  rw [history]
  rfl

/-- What opens a connection keeps to the rules. -/
theorem SendRules.initial_kept
    {allowed : Fault → Prop}
    {carried : Packet → Prop}
    {inv finOk : TcpPcb → Prop}
    {fireOk : TcpPcb → List Err → Prop}
    {conn : Conn}
    (rules : SendRules allowed carried inv finOk fireOk)
    (initial : conn.Initial)
    (opening :
      conn.history.sendLog = ⟨conn.history.iss, [], false⟩ →
        ∀ packet listener world,
          inv (openingPcb packet listener conn.history.iss world)) :
    (∀ packet ∈ conn.world.sent, carried packet) ∧
      ∀ pcb, conn.pcb = some pcb →
        Attached conn.world.pcbAddr pcb conn.world.stream ∧ inv pcb := by
  have known := opening initial.sendLog
  obtain ⟨packet, listener, iss, world, syn, ack, rst, sent, stream, opened,
    _, history⟩ := initial
  have sameIss : conn.history.iss = iss := by
    rw [history]
  rw [sameIss] at known
  have kept :=
    wp_returned
      (rules.tcpListenInputSyn_kept packet.toPacket listener iss world
        (known _ _ _))
      opened
  have emits : Emits carried world conn.world := by
    cases opened : conn.pcb with
    | none =>
        simp only [opened] at kept
        exact kept
    | some pcb =>
        simp only [opened] at kept
        exact kept.emits
  refine ⟨?_, fun pcb current => ?_⟩
  · intro packet member
    obtain ⟨more, all, each⟩ := emits.sent
    rw [sent, List.nil_append] at all
    exact each packet (all ▸ member)
  · simp only [current] at kept
    rw [emits.pcbAddr, emits.stream, stream]
    refine ⟨?_, kept.inv⟩
    have attached :=
      openingPcb_attached packet.toPacket listener iss world
    have frame :
        LocalFrame false
          { openingPcb packet.toPacket listener iss world with
            toRcvVars :=
              (openingPcb packet.toPacket listener iss world).toRcvVars }
          pcb := kept.frame
    exact attached.of_local frame attached.taken fun _ => rfl

/-- A FIN is never queued before the handshake is complete. -/
def MayFin (finOk : TcpPcb → Prop) (pcb : TcpPcb) : Prop :=
  finOk pcb ∧ pcb.state ≠ .synRcvd

/-- A fresh pcb has no stream and no FIN pending, so no event asks it to queue
one. -/
theorem EventOk.mayFin
    {finOk : TcpPcb → Prop}
    {fireOk : TcpPcb → List Err → Prop}
    {ackOk : Packet → TcpPcb → Prop}
    {writeOk : TcpPcb → Prop}
    {pcb : TcpPcb}
    {outputs : List Err}
    {event : Event}
    {addr : Nat}
    {stream : Option TcpStream}
    (admitted : EventOk finOk fireOk ackOk writeOk pcb outputs event)
    (attached : Attached addr pcb stream) :
    EventOk (MayFin finOk) fireOk ackOk writeOk pcb outputs event := by
  have synchronized (pending : pcb.flags.closepend = true) :
      pcb.state ≠ .synRcvd := by
    cases attached.owner with
    | stream _ streaming _ =>
        exact streaming.state
    | listener fresh =>
        rw [fresh.closepend] at pending
        cases pending
    | nobody orphaned =>
        exact orphaned.state
  cases event with
  | fasttmr =>
      exact fun notTimeWait pending =>
        ⟨admitted notTimeWait pending, synchronized pending⟩
  | handleClosepend =>
      exact fun notTimeWait pending =>
        ⟨admitted notTimeWait pending, synchronized pending⟩
  | pollShutdown =>
      exact fun streaming => ⟨admitted streaming, streaming.state⟩
  | _ =>
      exact admitted

/--
An invariant of the sender with the steps it survives: the faults it allows,
what packets it lets out, and what it asks of the steps that queue a FIN, let
the persist timer fire, bring an ACK, or write.
-/
structure ConnInvariant where
  allowed : Fault → Prop
  carried : SendLog → Packet → Prop
  inv : SendLog → TcpPcb → Prop
  finOk : TcpPcb → Prop
  fireOk : TcpPcb → List Err → Prop
  ackOk : Packet → TcpPcb → Prop
  writeOk : TcpPcb → Prop
  rules :
    ∀ log, SendRules allowed (carried log) (inv log) (MayFin finOk) fireOk
  inputs : ∀ log, InputRules (inv log) ackOk
  dataFaults : ∀ fault : Fault, fault.origin = .receiveData → allowed fault
  opening :
    ∀ packet listener iss world,
      inv ⟨iss, [], false⟩ (openingPcb packet listener iss world)
  grows :
    ∀ log outcome packet, carried log packet → carried (log.record outcome) packet
  write :
    ∀ log buf stream pcb world,
      inv log pcb →
        Streaming pcb →
          writeOk pcb →
            wp (pollWritePcb buf stream pcb)
              (fun result later =>
                Alike stream result.2.1 ∧
                  SendRules.Kept false
                    (carried (log.record (.write buf result.1)))
                    (inv (log.record (.write buf result.1)))
                    pcb world result.2.2 later)
              allowed world

namespace ConnInvariant

variable (invariant : ConnInvariant)

/-- The steps the invariant survives. -/
def Admits (conn : Conn) (label : Label) : Prop :=
  ∀ pcb, conn.pcb = some pcb →
    EventOk invariant.finOk invariant.fireOk invariant.ackOk invariant.writeOk
      pcb label.outputs label.event

/-- The connection has the invariant, and so has all it has sent. -/
structure Keeps (conn : Conn) : Prop where
  sent :
    ∀ packet ∈ conn.world.sent, invariant.carried conn.history.sendLog packet
  pcb :
    ∀ pcb, conn.pcb = some pcb →
      Attached conn.world.pcbAddr pcb conn.world.stream ∧
        invariant.inv conn.history.sendLog pcb

variable {invariant}

theorem keeps_initial
    {conn : Conn}
    (initial : conn.Initial) :
    invariant.Keeps conn := by
  obtain ⟨sent, pcb⟩ :=
    (invariant.rules conn.history.sendLog).initial_kept initial
      fun log packet listener world => log ▸ invariant.opening _ _ _ _
  exact ⟨sent, pcb⟩

/-- One event on a pcb in use. -/
theorem perform_keeps
    {log : SendLog}
    {pcb : TcpPcb}
    {world : World}
    (event : Event)
    (holds : invariant.inv log pcb)
    (attached : Attached world.pcbAddr pcb world.stream)
    (admitted :
      EventOk invariant.finOk invariant.fireOk invariant.ackOk
        invariant.writeOk pcb world.outputs event) :
    wp (perform (some pcb) event)
      (fun result later =>
        EventKept (invariant.carried (log.record result.2))
          (invariant.inv (log.record result.2)) world result later)
      invariant.allowed world := by
  by_cases write : ∃ buf, event = .pollWrite buf
  · obtain ⟨buf, rfl⟩ := write
    unfold perform
    refine onStream_attached attached (fun _ => ?_) fun stream present => ?_
    · exact .stepped ⟨LocalFrame.refl false pcb, holds, Emits.refl world⟩
        attached (fun _ => rfl) rfl rfl
    · have owner := attached.owner
      rw [present] at owner
      rw [wp_bind]
      refine wp_weaken
        (invariant.write log buf stream pcb world holds owner.streaming.1
          admitted) ?_
      rintro ⟨result, next, after⟩ later ⟨alike, kept⟩
      unfold putStream
      simp only [wp_bind, wp_modify, wp_pure]
      exact .stored kept present attached alike fun _ => rfl
  · have noWrite (buf : Bytes) : event ≠ .pollWrite buf :=
      fun same => write ⟨buf, same⟩
    have kept :=
      perform_kept (invariant.rules log) (invariant.inputs log)
        invariant.dataFaults pcb event holds attached
        (EventOk.mayFin admitted attached) noWrite
    refine wp_weaken
      (wp_also kept (perform_noWrite (some pcb) event noWrite world)) ?_
    rintro result later ⟨kept, other⟩
    rw [log.record_other other]
    exact kept

/-- What one step of the connection does to an invariant. -/
theorem step_keeps
    {conn : Conn}
    {label : Label}
    (keeps : invariant.Keeps conn)
    (admits : invariant.Admits conn label) :
    match conn.step label with
    | .ok after => invariant.Keeps after
    | .error fault => invariant.allowed fault := by
  have performed :
      wp (perform conn.pcb label.event)
        (fun result later =>
          (∃ more,
              later.sent = conn.world.sent ++ more ∧
                ∀ packet ∈ more,
                  invariant.carried (conn.history.sendLog.record result.2)
                    packet) ∧
            ∀ after, result.1 = some after →
              Attached later.pcbAddr after later.stream ∧
                invariant.inv (conn.history.sendLog.record result.2) after)
        invariant.allowed (label.enter conn.world) := by
    cases current : conn.pcb with
    | none =>
        refine wp_mono (perform_none label.event conn.history.sendLog _) ?_ ?_
        · rintro ⟨pcb, outcome⟩ later ⟨rfl, sent, _⟩
          exact ⟨⟨[], by simp [sent, Label.enter], by simp⟩, by simp⟩
        · rintro fault rfl
          exact (invariant.rules conn.history.sendLog).faults _ (by decide)
            (by decide) (by decide) (by decide)
    | some pcb =>
        obtain ⟨attached, holds⟩ := keeps.pcb pcb current
        have entered :
            Attached (label.enter conn.world).pcbAddr pcb
              (label.enter conn.world).stream := attached
        refine wp_weaken
          (perform_keeps label.event holds entered (admits pcb current)) ?_
        rintro result later kept
        refine ⟨kept.sent, fun after isSome => ?_⟩
        rw [kept.pcbAddr]
        exact kept.pcb after isSome
  unfold wp at performed
  unfold Conn.step
  split at performed
  · rename_i result later outcome
    obtain ⟨pcb, outcome⟩ := result
    simp only [*]
    obtain ⟨⟨more, sent, new⟩, left⟩ := performed
    refine ⟨?_, fun after isSome => ?_⟩
    · intro packet member
      simp only [sent, List.mem_append] at member
      rw [History.sendLog_record]
      rcases member with old | member
      · exact invariant.grows _ _ _ (keeps.sent packet old)
      · exact new packet member
    · rw [History.sendLog_record]
      exact left after isSome
  · simp only [*]

/-- The invariant holds in every state that the steps it admits reach. -/
theorem keeps_reached
    {conn : Conn}
    (reached : connMachine.ReachedUnder invariant.Admits conn) :
    invariant.Keeps conn := by
  refine reached.invariant (fun _ => keeps_initial) ?_
  intro before label after keeps admits taken
  have kept := step_keeps keeps admits
  simp only [show before.step label = .ok after from taken] at kept
  exact kept

/-- A step that the invariant admits stops with no fault it rules out. -/
theorem step_allowed
    {conn : Conn}
    {label : Label}
    {fault : Fault}
    (keeps : invariant.Keeps conn)
    (admits : invariant.Admits conn label)
    (stopped : conn.step label = .error fault) :
    invariant.allowed fault := by
  have kept := step_keeps keeps admits
  simpa only [stopped] using kept

end ConnInvariant

/-! ## Runs that can be evaluated -/

/-- The connection that a SYN opens, if memory lasts. -/
def Conn.opened
    (packet : InPacket)
    (listener : Nat)
    (iss : SeqNo)
    (world : World) : Option Conn :=
  match tcpListenInputSyn packet.toPacket (.listener listener) listener iss
      world with
  | .ok (some pcb, later) =>
      some {
        world := later
        pcb := some pcb
        history := { irs := packet.seqno, iss } }
  | _ => none

theorem Conn.initial_of_opened
    {packet : InPacket}
    {listener : Nat}
    {iss : SeqNo}
    {world : World}
    {conn : Conn}
    (plain : packet.flags = { syn := true })
    (sent : world.sent = [])
    (stream : world.stream = none)
    (opened : Conn.opened packet listener iss world = some conn) :
    conn.Initial := by
  refine ⟨packet, listener, iss, world, by rw [plain], by rw [plain],
    by rw [plain], sent, stream, ?_⟩
  unfold Conn.opened at opened
  split at opened
  · rename_i taken
    cases opened
    exact ⟨taken, rfl, rfl⟩
  · cases opened

/-- A checked run from a SYN shows that a state is reached. -/
theorem exists_reachedUnder
    (admitted : Conn → Label → Prop)
    (check : Conn → Label → Bool)
    (sound : ∀ conn label, check conn label = true → admitted conn label)
    (packet : InPacket)
    (listener : Nat)
    (iss : SeqNo)
    (world : World)
    (labels : List Label)
    (holds : Conn → Bool)
    (plain : packet.flags = { syn := true })
    (sent : world.sent = [])
    (stream : world.stream = none)
    (ran :
      ((Conn.opened packet listener iss world).bind fun conn =>
          connMachine.runUnder check conn labels).any holds = true) :
    ∃ conn, connMachine.ReachedUnder admitted conn ∧ holds conn = true := by
  cases opened : Conn.opened packet listener iss world with
  | none =>
      simp [opened] at ran
  | some first =>
      rw [opened, Option.bind_some] at ran
      cases last : connMachine.runUnder check first labels with
      | none =>
          simp [last] at ran
      | some conn =>
          rw [last, Option.any_some] at ran
          have initial := Conn.initial_of_opened plain sent stream opened
          exact ⟨conn, .of_run sound (.start initial) last, ran⟩

/-- `exists_reachedUnder` for runs without a side condition. -/
theorem exists_reached
    (packet : InPacket)
    (listener : Nat)
    (iss : SeqNo)
    (world : World)
    (labels : List Label)
    (holds : Conn → Bool)
    (plain : packet.flags = { syn := true })
    (sent : world.sent = [])
    (stream : world.stream = none)
    (ran :
      ((Conn.opened packet listener iss world).bind fun conn =>
          connMachine.runUnder (fun _ _ => true) conn labels).any holds =
        true) :
    ∃ conn, connMachine.Reached conn ∧ holds conn = true :=
  exists_reachedUnder _ (fun _ _ => true) (fun _ _ _ => trivial) packet listener
    iss world labels holds plain sent stream ran

/-- The fault, if any, that an event stops with. -/
def Conn.faultOf (conn : Conn) (label : Label) : Option Fault :=
  match conn.step label with
  | .ok _ => none
  | .error fault => some fault

theorem Conn.step_of_faultOf
    {conn : Conn}
    {label : Label}
    {fault : Fault}
    (stopped : conn.faultOf label = some fault) :
    conn.step label = .error fault := by
  unfold Conn.faultOf at stopped
  split at stopped
  · cases stopped
  · rename_i other taken
    cases stopped
    exact taken

/-- A segment from port 1000 of 10.0.0.1 to port 80 of 1.1.1.1. -/
def exampleSegment
    (flags : HdrFlags)
    (seqno ackno : SeqNo)
    (wnd : BitVec 16)
    (payload : Bytes)
    (options : Bytes) : InPacket where
  srcIp := .v4 0x0a000001
  destIp := .v4 0x01010101
  src := 1000
  dest := 80
  seqno := seqno
  ackno := ackno
  flags := flags
  wnd := wnd
  options := options.take 40
  payload := payload.take 65515
  payload_le := List.length_take_le _ _
  options_le := List.length_take_le _ _

/-- The SYN of the example connection: sequence number 99. -/
def exampleSyn (wnd : BitVec 16) (options : Bytes) : InPacket :=
  exampleSegment { syn := true } 99 0 wnd [] options

/-- The world of the example connection: one listener. -/
def exampleWorld : World where
  tcpTicks := 0
  listeners := [0]

end NetstackLwip

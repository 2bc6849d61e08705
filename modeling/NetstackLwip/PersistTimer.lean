import Mathlib.Data.List.TakeWhile
import NetstackLwip.QueueRules

namespace NetstackLwip

/-!
# The persist timer

While the persist timer runs, nothing is in flight and something waits to be
sent. Two things break this: an ACK for all of the data that was sent by
probes alone, and an output that fails after another has succeeded in the tick
that lets the timer go off.
-/

open FaultState FaultMachine

/-! ## The invariant -/

/-- While the persist timer runs, a queue head that does not fit is all there
is. -/
structure PersistSafe (pcb : TcpPcb) : Prop where
  live : pcb.state ≠ .closed
  drained : Drained pcb
  idle : pcb.state ≠ .timeWait → PersistIdle pcb

/-- The segment acknowledges all that waits in front of a closed window. -/
def AcksProbed (packet : Packet) (pcb : TcpPcb) : Prop :=
  packet.AcksNew pcb ∧
    0 < pcb.persistBackoff ∧
    ∀ seg ∈ pcb.unsent, SerialNumber.leq seg.endSeq packet.ackno = true

theorem PersistSafe.congr
    {before after : TcpPcb}
    (safe : PersistSafe before)
    (queue : after.toQueueVars = before.toQueueVars)
    (persist : after.persistBackoff = before.persistBackoff)
    (state : after.state = before.state) :
    PersistSafe after where
  live := state ▸ safe.live
  drained := .of_state (safe.drained.of_queue queue) state
  idle notTimeWait := by
    unfold PersistIdle
    rw [queue, persist]
    exact safe.idle (state ▸ notTimeWait)

/-- What the sender itself does. -/
theorem persistRules
    (carried : Packet → Prop)
    (every : ∀ packet, carried packet) :
    SendRules (fun fault => fault.origin ≠ .persist) carried PersistSafe
      (MayFin fun _ => True) FiresSteadily where
  faults _ _ _ _ other := other
  bare packet _ := every packet
  live _ safe := safe.live
  waiting _ safe := safe.drained.empty
  view _ _ same safe := safe.congr same.queue same.persist same.state
  finView _ _ same may := ⟨trivial, same.state ▸ may.2⟩
  fireView pcb count outputs steady _open := by
    have fires := steady _open
    unfold SteadyOutputs at fires ⊢
    rw [fitting_congr]
    · exact fires
    · rfl
  output pcb world safe := by
    refine wp_weaken
      (tcpOutput_spec (.const _) (fun fault same => by simp [same]) false pcb
        safe.drained) ?_
    rintro ⟨err, after⟩ later ⟨frame, drained, idle, emits⟩
    refine ⟨frame, ⟨frame.state ▸ safe.live, .of_state drained frame.state,
      fun notTimeWait => idle (safe.idle (frame.state ▸ notTimeWait))⟩,
      fun may => ⟨trivial, frame.state ▸ may.2⟩,
      emits.mono fun packet _ => every packet⟩
  fin pcb next world safe _ shuts := by
    refine wp_weaken
      (tcpSendFin_queued (fun fault same => by simp [same]) pcb) ?_
    rintro ⟨err, after⟩ later ⟨frame, refused, queued, emits⟩
    have notTimeWait := shuts.from_open
    refine ⟨frame, fun ok => ?_, fun bad => ?_,
      emits.mono fun packet _ => every packet⟩
    · refine ⟨shuts.ne_closed, ⟨fun _ _ => shuts.ne_timeWait,
        fun _ _ => shuts.ne_timeWait⟩, fun _ running => ?_⟩
      have running : 0 < pcb.persistBackoff := frame.persist ▸ running
      exact ⟨frame.unacked.trans (safe.idle notTimeWait running).1,
        (queued ok).waiting⟩
    · exact safe.congr (refused bad).queue
        (congrArg PersistVars.persistBackoff frame.persist) frame.state
  fires pcb world safe notTimeWait running steady := by
    refine wp_weaken
      (persistFires_spec carried (.const _)
        (fun fault same => by simp [same]) (fun fault same _ => by simp [same])
        pcb (fun packet _ => every packet) safe.drained (fun _ _ _ _ => every _)
        (fun _ _ _ _ => .inr (by decide))
        fun _ _ _ _ _ => ⟨notTimeWait, notTimeWait⟩) ?_
    rintro after later ⟨fired, drained, idle, emits⟩
    refine ⟨fired.frame, ⟨fired.state ▸ safe.live,
      .of_state drained fired.state, fun _ => ?_⟩, emits⟩
    exact idle running (safe.idle notTimeWait) steady
  rto pcb safe stopped := by
    obtain ⟨_, persist, state⟩ := tcpRexmitRtoPrepare_same pcb
    refine ⟨state ▸ safe.live, .of_state safe.drained.rto state,
      fun _ running => ?_⟩
    rw [persist, stopped] at running
    exact absurd running (Nat.lt_irrefl 0)
  persist pcb safe notTimeWait running := by
    obtain ⟨inFlight, waiting⟩ := safe.idle notTimeWait running
    exact ⟨.inl inFlight, .inl waiting⟩

/-- What a segment does, unless it acknowledges all that was probed. -/
theorem persistInputs :
    InputRules PersistSafe fun packet pcb => ¬AcksProbed packet pcb where
  noted packet before after safe _ noted state :=
    safe.congr noted.queue noted.persist state
  handshakeRexmit pcb safe synRcvd := by
    obtain ⟨frame, _⟩ := tcpRexmit_frame pcb
    refine ⟨frame.state ▸ safe.live, .of_state safe.drained.rexmit frame.state,
      fun notTimeWait => ?_⟩
    have idle := safe.idle (frame.state ▸ notTimeWait)
    intro running
    rw [frame.persist] at running
    obtain ⟨inFlight, waiting⟩ := idle running
    unfold tcpRexmit
    rw [inFlight]
    exact ⟨inFlight, waiting⟩
  acked packet before middle after safe unprobed noted _ established judged _
      queues := by
    have state : after.state = middle.state := judged.state
    have drained : AllQueued (fun _ => before.state ≠ .timeWait) after :=
      (safe.drained.of_queue noted.queue).acked queues
    have wasOpen (notTimeWait : after.state ≠ .timeWait) :
        before.state ≠ .timeWait := by
      rcases noted.state with same | ⟨synRcvd, _⟩
      · exact same ▸ state ▸ notTimeWait
      · rw [synRcvd]
        exact nofun
    refine ⟨?_, ?_, fun notTimeWait running => ?_⟩
    · intro closed
      rw [← state, closed] at established
      exact absurd established (by decide)
    · rcases noted.state with same | ⟨_, moved⟩
      · exact .of_state drained (state.trans same)
      · refine drained.mono fun _ _ => ?_
        rw [state, moved]
        exact nofun
    · have persist : after.persistBackoff = before.persistBackoff :=
        (congrArg PersistVars.persistBackoff judged.persist).trans noted.persist
      rw [persist] at running
      have known := safe.idle (wasOpen notTimeWait) running
      have lastack : middle.lastack = before.lastack := by
        rw [noted.snd]
      have same : middle.toQueueVars = before.toQueueVars := noted.queue
      cases queues with
      | kept old queues =>
          cases queues with
          | same unacked unsent =>
              rw [unacked, unsent, same]
              exact known
          | rexmit seg inFlight _ =>
              rw [same, known.1] at inFlight
              cases inFlight
      | freed new unacked unsent =>
          rw [unacked, same, known.1]
          refine ⟨rfl, fun empty => unprobed ⟨?_, running, ?_⟩⟩
          · exact (Packet.acksNew_congr lastack (by rw [same])).mp new
          · rw [unsent, same, List.dropWhile_eq_nil_iff] at empty
            exact empty
  moved pcb fin state safe moves _ notTimeWait := by
    exact ⟨moves.ne_closed safe.live,
      ⟨fun _ _ => notTimeWait, fun _ _ => notTimeWait⟩,
      fun _ => safe.idle (moves.from_open notTimeWait)⟩
  timeWait pcb safe :=
    ⟨nofun, safe.drained.enterTimeWait safe.live _,
      fun notTimeWait => absurd rfl notTimeWait⟩

/-- A write neither empties the unsent queue nor puts anything in flight. -/
theorem pollWritePcb_persist
    (log : SendLog)
    (buf : Bytes)
    (stream : TcpStream)
    (pcb : TcpPcb)
    (world : World)
    (safe : PersistSafe pcb) :
    wp (pollWritePcb buf stream pcb)
      (fun result later =>
        Alike stream result.2.1 ∧
          SendRules.Kept false (fun _ => True) PersistSafe pcb world
            result.2.2 later)
      (fun fault => fault.origin ≠ .persist) world := by
  refine pollWritePcb_kept
    (fun _ : SendLog => persistRules (fun _ => True) fun _ => trivial) log buf
    stream pcb world safe
    (fun _ _ => ⟨fun _ kept => kept, fun _ _ => trivial⟩) fun toWrite _ _ => ?_
  refine wp_weaken
    (tcpWrite_spec (.const (pcb.state ≠ .timeWait))
      (fun fault same _ => by simp [same]) pcb _ false
      (fun _ _ => .inr (by decide)) ?_) ?_
  · intro writable
    have notTimeWait := writable.ne_timeWait
    exact ⟨safe.drained.1, fun _ _ _ _ _ _ _ _ _ => notTimeWait,
      fun _ _ _ _ _ => notTimeWait⟩
  · rintro ⟨err, after⟩ later ⟨emits, frame, refused, done⟩
    have persist : after.persistBackoff = pcb.persistBackoff :=
      congrArg PersistVars.persistBackoff frame.persist
    refine ⟨emits, frame, fun bad =>
      safe.congr (refused bad).queue persist frame.state, fun ok => ?_⟩
    have written := done ok
    refine ⟨frame.state ▸ safe.live,
      .of_state ⟨written.unsent, ?_⟩ frame.state, fun notTimeWait running => ?_⟩
    · rw [frame.unacked]
      exact safe.drained.2
    · obtain ⟨inFlight, waiting⟩ :=
        safe.idle (frame.state ▸ notTimeWait) (persist ▸ running)
      exact ⟨frame.unacked.trans inFlight, written.kept waiting⟩

/-- `PersistSafe` as an invariant of the connection. -/
def persistInvariant : ConnInvariant where
  allowed fault := fault.origin ≠ .persist
  carried _ _ := True
  inv _ := PersistSafe
  finOk _ := True
  fireOk := FiresSteadily
  ackOk packet pcb := ¬AcksProbed packet pcb
  writeOk _ := True
  rules _ := persistRules (fun _ => True) fun _ => trivial
  inputs _ := persistInputs
  dataFaults fault same := by
    simp [same]
  opening packet listener iss world := by
    refine ⟨nofun, ⟨fun _ _ => nofun, fun _ _ => nofun⟩, fun _ => nofun⟩
  grows _ _ _ _ := trivial
  write log buf stream pcb world safe _ _ :=
    pollWritePcb_persist log buf stream pcb world safe

/-! ## Runs -/

/-- The steps that keep the persist timer in order: no ACK for all that was
only probed, and no late output failure when the timer goes off. -/
def PersistAdmits (conn : Conn) (label : Label) : Prop :=
  ∀ pcb, conn.pcb = some pcb → pcb.state ≠ .timeWait →
    match label.event with
    | .segment packet => packet.Heeded pcb → ¬AcksProbed packet.toPacket pcb
    | .slowtmr => PersistDue pcb → FiresSteadily pcb label.outputs
    | _ => True

theorem PersistAdmits.admits
    {conn : Conn}
    {label : Label}
    (admits : PersistAdmits conn label) :
    persistInvariant.Admits conn label := by
  intro pcb current
  have known := admits pcb current
  cases event : label.event with
  | segment packet =>
      rw [event] at known
      exact known
  | slowtmr =>
      rw [event] at known
      exact known
  | fasttmr =>
      exact fun _ _ => trivial
  | handleClosepend =>
      exact fun _ _ => trivial
  | pollShutdown =>
      exact fun _ => trivial
  | _ =>
      exact trivial

/-- In a run without such steps the persist timer never ticks with data in
flight or without data to send. -/
theorem persist_timer_in_order
    {conn : Conn}
    (reached : connMachine.ReachedUnder PersistAdmits conn) :
    (∀ pcb, conn.pcb = some pcb → pcb.state ≠ .timeWait →
        0 < pcb.persistBackoff → pcb.unacked = [] ∧ pcb.unsent ≠ []) ∧
      ∀ label fault,
        PersistAdmits conn label →
          conn.step label = .error fault →
            fault ≠ .persistInFlight ∧ fault ≠ .persistEmpty := by
  have keeps : persistInvariant.Keeps conn :=
    ConnInvariant.keeps_reached
      (reached.mono fun _ _ => PersistAdmits.admits)
  refine ⟨fun pcb current notTimeWait =>
    (keeps.pcb pcb current).2.idle notTimeWait, ?_⟩
  intro label fault admits stopped
  have allowed : fault.origin ≠ .persist :=
    ConnInvariant.step_allowed keeps admits.admits stopped
  constructor
  · rintro rfl
    exact allowed rfl
  · rintro rfl
    exact allowed rfl

/-- The steps of a connection with a closed window and one byte to send. -/
def closedWindowLabels : List Label :=
  [{ event := .segment (exampleSegment { ack := true } 100 6511 0 [] []) },
    { event := .pollWrite [1] }]

/-- With the window closed one byte waits, and the persist timer runs. -/
theorem persist_timer_in_order_closed_window :
    ∃ conn, connMachine.ReachedUnder PersistAdmits conn ∧
      (∃ pcb, conn.pcb = some pcb ∧ 0 < pcb.persistBackoff) ∧
      (∀ pcb, conn.pcb = some pcb → pcb.state ≠ .timeWait →
          0 < pcb.persistBackoff → pcb.unacked = [] ∧ pcb.unsent ≠ []) ∧
        ∀ label fault,
          PersistAdmits conn label →
            conn.step label = .error fault →
              fault ≠ .persistInFlight ∧ fault ≠ .persistEmpty := by
  obtain ⟨conn, reached, runs⟩ :=
    exists_reachedUnder PersistAdmits
      (fun conn _ => conn.pcb.all fun pcb => pcb.persistBackoff == 0) (by
        intro conn label stopped pcb current _
        have idle : pcb.persistBackoff = 0 := by
          simpa [current] using stopped
        split
        · intro _ probed
          exact absurd probed.2.1 (by omega)
        · intro due
          exact absurd due.running (by omega)
        · trivial)
      (exampleSyn 0 []) 0 6510 exampleWorld closedWindowLabels
      (fun conn => conn.pcb.any fun pcb => 0 < pcb.persistBackoff)
      rfl rfl rfl (by decide +kernel)
  refine ⟨conn, reached, ?_, persist_timer_in_order reached⟩
  simpa [Option.any_eq_true] using runs

/-- Three slow ticks probe the byte, and the peer's ACK of it empties the
queue under the running timer: the next tick stops the program. -/
theorem persist_timer_empty_after_probe :
    ∃ conn, connMachine.Reached conn ∧
      conn.step { event := .slowtmr } = .error .persistEmpty := by
  obtain ⟨conn, reached, stops⟩ :=
    exists_reached (exampleSyn 0 []) 0 6510 exampleWorld
      (closedWindowLabels ++
        [{ event := .slowtmr }, { event := .slowtmr }, { event := .slowtmr },
          { event :=
              .segment (exampleSegment { ack := true } 100 6512 0 [] []) }])
      (fun conn =>
        conn.faultOf { event := .slowtmr } == some .persistEmpty)
      rfl rfl rfl (by decide +kernel)
  exact ⟨conn, reached, Conn.step_of_faultOf (by simpa using stops)⟩

end NetstackLwip

import NetstackLwip.ConnRuns

namespace NetstackLwip

/-!
# Properties of all queued segments

How retransmission, acknowledgement, the persist timer and a write treat a
property of every queued segment, for the invariants that are built on one.
-/

open FaultState

/-! ## Moving between the queues -/

namespace AllQueued

variable
  {holds : TcpSeg → Prop}
  {before after : TcpPcb}

theorem rto
    (all : AllQueued holds before) :
    AllQueued holds (tcpRexmitRtoPrepare before).2 := by
  unfold tcpRexmitRtoPrepare
  split
  · exact all
  · refine ⟨?_, List.forall_mem_nil _⟩
    intro seg member
    rcases List.mem_append.mp member with member | member
    · exact all.2 seg member
    · exact all.1 seg member

theorem requeued
    (all : AllQueued holds before)
    (queues : Requeued before after) :
    AllQueued holds after := by
  cases queues with
  | same unacked unsent =>
      unfold AllQueued
      rw [unacked, unsent]
      exact all
  | rexmit seg inFlight unsent =>
      have moved := all.2
      rw [inFlight, List.forall_mem_cons] at moved
      refine ⟨?_, moved.2⟩
      intro other member
      rw [unsent, mem_insertSorted] at member
      rcases member with rfl | member
      · exact moved.1
      · exact all.1 other member

/-- The queues after a packet hold only what they held before. -/
theorem acked
    {packet : Packet}
    (all : AllQueued holds before)
    (queues : AckQueues packet before after) :
    AllQueued holds after := by
  cases queues with
  | kept old queues =>
      exact all.requeued queues
  | freed new unacked unsent =>
      refine ⟨?_, ?_⟩
      · rw [unsent]
        exact fun seg member =>
          all.1 seg ((List.dropWhile_sublist _).mem member)
      · rw [unacked]
        exact fun seg member =>
          all.2 seg ((List.dropWhile_sublist _).mem member)

theorem rexmit
    (all : AllQueued holds before) :
    AllQueued holds (tcpRexmit before).2 :=
  all.requeued (tcpRexmit_frame before).2

/-- Two properties of all queued segments are one. -/
theorem and
    {other : TcpSeg → Prop}
    (first : AllQueued holds before)
    (second : AllQueued other before) :
    AllQueued (fun seg => holds seg ∧ other seg) before :=
  ⟨fun seg member => ⟨first.1 seg member, second.1 seg member⟩,
    fun seg member => ⟨first.2 seg member, second.2 seg member⟩⟩

theorem mono
    {weaker : TcpSeg → Prop}
    (all : AllQueued holds before)
    (implies : ∀ seg, holds seg → weaker seg) :
    AllQueued weaker before :=
  ⟨fun seg member => implies seg (all.1 seg member),
    fun seg member => implies seg (all.2 seg member)⟩

end AllQueued

/-! ## TIME_WAIT -/

/-- In TIME_WAIT nothing is queued. -/
def Drained (pcb : TcpPcb) : Prop :=
  AllQueued (fun _ => pcb.state ≠ .timeWait) pcb

theorem SendClosed.const
    (always : Prop) :
    SendClosed fun _ => always where
  ack _ holds := holds
  push _ holds := holds
  same _ _ holds _ := holds

theorem Drained.of_state
    {before after : TcpPcb}
    (all : AllQueued (fun _ => before.state ≠ .timeWait) after)
    (state : after.state = before.state) :
    Drained after := by
  unfold Drained
  rw [state]
  exact all

theorem Drained.empty
    {pcb : TcpPcb}
    (drained : Drained pcb)
    (timeWait : pcb.state = .timeWait) :
    pcb.unsent = [] :=
  List.eq_nil_iff_forall_not_mem.mpr fun seg member =>
    drained.1 seg member timeWait

/-- On its way to TIME_WAIT a pcb loses what it has queued. -/
theorem Drained.enterTimeWait
    {pcb : TcpPcb}
    (drained : Drained pcb)
    (live : pcb.state ≠ .closed)
    (holds : TcpSeg → Prop) :
    AllQueued holds (enterTimeWait pcb) := by
  unfold NetstackLwip.enterTimeWait tcpPcbPurge
  split
  · exact ⟨List.forall_mem_nil _, List.forall_mem_nil _⟩
  · rename_i waiting
    have timeWait : pcb.state = .timeWait := by
      simpa [live] using waiting
    exact drained.mono fun _ notTimeWait => absurd timeWait notTimeWait

/-- Preparing a retransmission moves segments and nothing else that matters. -/
theorem tcpRexmitRtoPrepare_same
    (pcb : TcpPcb) :
    (tcpRexmitRtoPrepare pcb).2.toSndVars = pcb.toSndVars ∧
      (tcpRexmitRtoPrepare pcb).2.toPersistVars = pcb.toPersistVars ∧
      (tcpRexmitRtoPrepare pcb).2.state = pcb.state := by
  unfold tcpRexmitRtoPrepare
  split <;> exact ⟨rfl, rfl, rfl⟩

/-! ## The segment size -/

/-- `tcp_parseopt` obeys no MSS option above `TCP_MSS`. -/
theorem tcpParseoptFrom_le
    (options : Bytes)
    (rounds optidx mss : Nat)
    (small : mss ≤ tcpMss) :
    tcpParseoptFrom options rounds optidx mss ≤ tcpMss := by
  induction rounds generalizing optidx mss with
  | zero =>
      exact small
  | succ rounds inductionHypothesis =>
      simp only [tcpParseoptFrom]
      split
      · split
        · exact small
        · split
          · exact inductionHypothesis _ _ small
          · split
            · split
              · exact small
              · refine inductionHypothesis _ _ ?_
                split
                · exact Nat.le_refl _
                · rename_i within
                  omega
            · split
              · exact small
              · exact inductionHypothesis _ _ small
      · exact small

theorem enterTimeWait_mss
    (pcb : TcpPcb) :
    (enterTimeWait pcb).mss = pcb.mss := by
  unfold enterTimeWait tcpPcbPurge
  split <;> rfl

/-- The MSS of a new connection is at most `TCP_MSS`. -/
theorem openingPcb_mss_le
    (packet : Packet)
    (listener : Nat)
    (iss : SeqNo)
    (world : World) :
    (openingPcb packet listener iss world).mss ≤ tcpMss := by
  have parsed := tcpParseoptFrom_le packet.options packet.options.length 0
    initialMss (by decide)
  unfold openingPcb offeredPcb
  dsimp only [bindLocalIp, enqueueSeg, tcpEffSendMssNetif]
  split
  · exact Nat.le_trans (Nat.min_le_left _ _) parsed
  · split
    · exact parsed
    · exact Nat.le_trans (Nat.min_le_left _ _) parsed

/-! ## Queueing a FIN -/

/-- The two ways `tcp_send_fin` queues a FIN. -/
inductive FinQueued (before after : TcpPcb) : Prop where
  | separate
      (enqueued :
        after = enqueueSeg before (flagsSeg before { fin := true }))
  | piggyback
      (last : TcpSeg)
      (isLast : before.unsent.getLast? = some last)
      (plain : last.hdr.fin = false ∧ last.hdr.syn = false)
      (queued : after = piggybackFin before)

namespace FinQueued

variable {before after : TcpPcb}

theorem frame
    (queued : FinQueued before after) :
    QueueFrame before after := by
  cases queued with
  | separate enqueued =>
      rw [enqueued]
      constructor <;> rfl
  | piggyback last isLast plain queued =>
      rw [queued]
      constructor <;> rfl

theorem waiting
    (queued : FinQueued before after) :
    after.unsent ≠ [] := by
  cases queued with
  | separate enqueued =>
      rw [enqueued]
      simp [enqueueSeg]
  | piggyback last isLast plain queued =>
      rw [queued]
      refine mapLast_ne_nil fun empty => ?_
      rw [empty] at isLast
      cases isLast

/-- A FIN is set by itself or on the last segment, so a property of all queued
segments must bear either. -/
theorem all
    {holds : TcpSeg → Prop}
    (queued : FinQueued before after)
    (all : AllQueued holds before)
    (separate : holds (flagsSeg before { fin := true }))
    (piggyback :
      ∀ last, before.unsent.getLast? = some last →
        last.hdr.fin = false → last.hdr.syn = false →
          holds { last with hdr.fin := true }) :
    AllQueued holds after := by
  cases queued with
  | separate enqueued =>
      rw [enqueued]
      refine ⟨?_, all.2⟩
      intro seg member
      rcases List.mem_append.mp member with member | member
      · exact all.1 seg member
      · rw [List.mem_singleton.mp member]
        exact separate
  | piggyback last isLast plain queued =>
      rw [queued]
      refine ⟨forall_mapLast all.1 fun seg found => ?_, all.2⟩
      have same : seg = last := Option.some.inj (found.symm.trans isLast)
      rw [same]
      exact piggyback last isLast plain.1 plain.2

end FinQueued

theorem tcpSendFin_queued
    {allowed : Fault → Prop}
    {world : World}
    (faults : ∀ fault : Fault, fault.origin = .enqueue → allowed fault)
    (pcb : TcpPcb) :
    wp (tcpSendFin pcb)
      (fun result after =>
        QueueFrame pcb result.2 ∧
          (result.1 ≠ .ok → Refused pcb result.2) ∧
          (result.1 = .ok → FinQueued pcb result.2) ∧
          Emits Bare world after)
      allowed world := by
  refine wp_weaken (tcpSendFin_spec faults pcb) ?_
  rintro ⟨err, after⟩ later ⟨emits, refused, done⟩
  have queued (ok : err = .ok) : FinQueued pcb after := by
    rcases done ok with enqueued | ⟨onLast, last, isLast, fin, syn⟩
    · exact .separate enqueued
    · exact .piggyback last isLast ⟨fin, syn⟩ onLast
  refine ⟨?_, fun bad => (refused bad).2, queued, emits⟩
  by_cases ok : err = .ok
  · exact (queued ok).frame
  · exact (refused ok).2.frame

/-! ## How far `tcp_output` gets -/

/-- How many segments at the front of the queue the window lets through. -/
def fitting (wnd : Nat) (pcb : TcpPcb) : List TcpSeg → Nat
  | [] => 0
  | seg :: rest =>
      if reach pcb seg ≤ wnd then fitting wnd pcb rest + 1 else 0

theorem fitting_congr
    {wnd : Nat}
    {before after : TcpPcb}
    (lastack : after.lastack = before.lastack)
    (queue : List TcpSeg) :
    fitting wnd after queue = fitting wnd before queue := by
  induction queue with
  | nil =>
      rfl
  | cons seg rest inductionHypothesis =>
      have same : reach after seg = reach before seg := by
        unfold reach
        rw [lastack]
      simp only [fitting]
      rw [same, inductionHypothesis]

/-- The outputs that `tcp_output` asks for either fail at once or all
succeed. -/
def SteadyOutputs
    (wnd : Nat)
    (pcb : TcpPcb)
    (queue : List TcpSeg)
    (outputs : List Err) : Prop :=
  outputs.getD 0 .ok ≠ .ok ∨
    ∀ index < fitting wnd pcb queue, outputs.getD index .ok = .ok

section Outputs

variable {allowed : Fault → Prop} {world : World}

theorem ipOutputIf_outcome
    (packet : Packet) :
    wp (ipOutputIf packet)
      (fun err after =>
        err = world.outputs.getD 0 .ok ∧ after.outputs = world.outputs.tail)
      allowed world := by
  unfold ipOutputIf
  rw [wp_modifyGet]
  rcases world.outputs with _ | ⟨err, rest⟩
  · exact ⟨rfl, rfl⟩
  · cases err <;> exact ⟨rfl, rfl⟩

theorem tcpOutputSegment_outcome
    (seg : TcpSeg)
    (pcb : TcpPcb) :
    wp (tcpOutputSegment seg pcb)
      (fun result after =>
        result.1 = world.outputs.getD 0 .ok ∧
          after.outputs = world.outputs.tail ∧
          result.2.lastack = pcb.lastack ∧
          result.2.unacked = pcb.unacked)
      allowed world := by
  unfold tcpOutputSegment
  rw [wp_bind, wp_get, wp_bind]
  refine wp_weaken (ipOutputIf_outcome _) ?_
  rintro err after ⟨outcome, rest⟩
  exact ⟨outcome, rest, rfl, rfl⟩

/-- No output fails, so the loop reports success. -/
theorem tcpOutputLoop_ok
    (faults : ∀ fault : Fault, fault.origin = .output → allowed fault)
    (wnd : Nat)
    (queue : List TcpSeg)
    (pcb : TcpPcb)
    (outputs :
      ∀ index < fitting wnd pcb queue, world.outputs.getD index .ok = .ok) :
    wp (tcpOutputLoop wnd queue pcb)
      (fun result _ => result.1 = .ok) allowed world := by
  induction queue generalizing pcb world with
  | nil =>
      exact rfl
  | cons seg rest inductionHypothesis =>
      unfold tcpOutputLoop
      rw [wp_ite]
      refine ⟨fun fits => ?_, fun _ => rfl⟩
      rw [wp_bind, wp_ensure]
      refine ⟨fun _ => ?_, fun _ => faults _ rfl⟩
      rw [wp_ite]
      refine ⟨fun _ => rfl, fun _ => ?_⟩
      have count : fitting wnd pcb (seg :: rest) = fitting wnd pcb rest + 1 :=
        if_pos fits
      rw [count] at outputs
      rw [wp_bind]
      refine wp_weaken (tcpOutputSegment_outcome _ pcb) ?_
      rintro ⟨err, after⟩ middle ⟨outcome, tail, lastack, _⟩
      have sent : err = .ok := outcome.trans (outputs 0 (Nat.succ_pos _))
      rw [wp_ite]
      refine ⟨fun failed => absurd sent failed, fun _ => ?_⟩
      refine inductionHypothesis _ fun index inside => ?_
      have sameAck :
          (segmentSent after { seg with hdr.ack := true } rest).lastack =
            pcb.lastack := lastack
      rw [fitting_congr sameAck] at inside
      have next := outputs (index + 1) (Nat.succ_lt_succ inside)
      rw [tail]
      cases all : world.outputs with
      | nil =>
          rfl
      | cons first others =>
          rw [all] at next
          simpa using next

/-- When `tcp_output` fails, its first output has, and nothing has moved. -/
theorem tcpOutput_failed
    (faults : ∀ fault : Fault, fault.origin = .output → allowed fault)
    (pcb : TcpPcb)
    (waiting : pcb.unsent ≠ [])
    (steady :
      SteadyOutputs (min pcb.sndWnd pcb.cwnd) pcb pcb.unsent world.outputs) :
    wp (tcpOutput false pcb)
      (fun result _ =>
        result.1 ≠ .ok →
          result.2.unacked = pcb.unacked ∧ result.2.unsent ≠ [])
      allowed world := by
  have acknowledged (middle : TcpPcb)
      (queue : middle.toQueueVars = pcb.toQueueVars) :
      wp
        (if middle.flags.ackNow then
          tcpSendEmptyAck middle
        else
          pure (outputDone middle))
        (fun result _ =>
          result.1 ≠ .ok →
            result.2.unacked = pcb.unacked ∧ result.2.unsent ≠ [])
        allowed world := by
    rw [wp_ite]
    refine ⟨fun _ => ?_, fun _ failed => absurd rfl failed⟩
    refine wp_weaken (tcpSendEmptyAck_spec middle) ?_
    rintro ⟨err, after⟩ final ⟨acked, _⟩ _
    have same : after.toQueueVars = pcb.toQueueVars := acked.queue.trans queue
    refine ⟨congrArg QueueVars.unacked same, fun empty => ?_⟩
    exact waiting ((congrArg QueueVars.unsent same).symm.trans empty)
  unfold tcpOutput
  rw [wp_ite]
  refine ⟨fun impossible => absurd impossible Bool.false_ne_true,
    fun _ => ?_⟩
  rcases unsent : pcb.unsent with _ | ⟨seg, rest⟩
  · exact absurd unsent waiting
  rw [wp_ite]
  refine ⟨fun _ => ?_, fun fits => ?_⟩
  · refine acknowledged _ ?_
    unfold startPersist
    split <;> rfl
  · unfold SteadyOutputs at steady
    rw [unsent] at steady
    rcases steady with failing | ok
    · -- The first output fails: the loop stops before it moves a segment.
      unfold tcpOutputLoop
      rw [wp_ite]
      refine ⟨fun _ => ?_, fun _ bad => absurd rfl bad⟩
      rw [wp_bind, wp_ensure]
      refine ⟨fun _ => ?_, fun _ => faults _ rfl⟩
      rw [wp_ite]
      refine ⟨fun _ bad => absurd rfl bad, fun _ => ?_⟩
      rw [wp_bind]
      refine wp_weaken (tcpOutputSegment_outcome _ _) ?_
      rintro ⟨err, after⟩ middle ⟨outcome, _, _, unacked⟩
      rw [wp_ite]
      refine ⟨fun _ _ => ⟨unacked, List.cons_ne_nil _ _⟩, fun sent => ?_⟩
      exact absurd (outcome.symm.trans (not_not.mp sent)) failing
    · refine wp_weaken (tcpOutputLoop_ok faults _ _ _ ?_) ?_
      · intro index inside
        have same :
            fitting (min pcb.sndWnd pcb.cwnd)
                { bindLocalIp pcb with persistBackoff := 0 } (seg :: rest) =
              fitting (min pcb.sndWnd pcb.cwnd) pcb (seg :: rest) := by
          apply fitting_congr
          rfl
        rw [same] at inside
        exact ok index inside
      · intro result _ succeeded failed
        exact absurd succeeded failed

/-! ## The persist timer goes off -/

/-- The queue once its first segment is cut to `split` bytes. -/
def splitQueue (split : Nat) : List TcpSeg → List TcpSeg
  | [] => []
  | useg :: rest =>
      if split < useg.len then
        splitHead useg split :: splitTail useg split :: rest
      else
        useg :: rest

theorem tcpSplitUnsentSeg_queue
    (pcb : TcpPcb)
    (split : Nat) :
    wp (tcpSplitUnsentSeg pcb split)
      (fun result later =>
        later.outputs = world.outputs ∧
          (result.1 = .ok → result.2.unsent = splitQueue split pcb.unsent))
      (fun _ => True) world := by
  unfold tcpSplitUnsentSeg
  rcases unsent : pcb.unsent with _ | ⟨useg, rest⟩
  · exact ⟨rfl, by simp⟩
  rw [wp_ite]
  refine ⟨fun _ => trivial, fun _ => ?_⟩
  rw [wp_ite]
  refine ⟨fun short => ⟨rfl, fun _ => ?_⟩, fun long => ?_⟩
  · rw [splitQueue, if_neg (Nat.not_lt.mpr short)]
    exact unsent
  rw [wp_bind, wp_ensure]
  refine ⟨fun _ => ?_, fun _ => trivial⟩
  rw [wp_bind, wp_ensure]
  refine ⟨fun _ => ?_, fun _ => trivial⟩
  rw [wp_bind]
  refine wp_allocate fun outcome left => ?_
  rw [wp_ite]
  refine ⟨fun _ => ?_, fun _ => ⟨rfl, by simp⟩⟩
  unfold tcpCreateSegment
  rw [wp_bind, wp_bind]
  refine wp_allocate fun outcome left => ?_
  rw [wp_ite]
  refine ⟨fun _ => ?_, fun _ => ⟨rfl, by simp⟩⟩
  rw [wp_pure, wp_bind, wp_ensure]
  refine ⟨fun _ => ⟨rfl, fun _ => ?_⟩, fun _ => trivial⟩
  rw [splitQueue, if_pos (Nat.not_le.mp long)]
  simp only [splitDone, splitTail, Pbuf.totLen, Pbuf.data, SerialNumber.place,
    List.flatten_singleton]

/-- What is left alone when the persist timer goes off. -/
structure Fired (before after : TcpPcb) : Prop where
  frame : LocalFrame false before after
  mss : after.mss = before.mss
  sndWndMax : after.sndWndMax = before.sndWndMax
  sndLbb : after.sndLbb = before.sndLbb
  fin : after.flags.fin = before.flags.fin

namespace Fired

variable {before middle after : TcpPcb}

theorem refl (pcb : TcpPcb) : Fired pcb pcb where
  frame := LocalFrame.refl false pcb
  mss := rfl
  sndWndMax := rfl
  sndLbb := rfl
  fin := rfl

theorem trans
    (first : Fired before middle)
    (second : Fired middle after) :
    Fired before after where
  frame := first.frame.trans second.frame
  mss := second.mss.trans first.mss
  sndWndMax := second.sndWndMax.trans first.sndWndMax
  sndLbb := second.sndLbb.trans first.sndLbb
  fin := second.fin.trans first.fin

theorem of_output
    (frame : OutputFrame before after) :
    Fired before after where
  frame := .of_output frame
  mss := congrArg SndVars.mss frame.snd
  sndWndMax := congrArg SndVars.sndWndMax frame.snd
  sndLbb := congrArg SndVars.sndLbb frame.snd
  fin := frame.fin

/-- The state does not move. -/
theorem state
    (fired : Fired before after) :
    after.state = before.state := by
  rcases fired.frame.state with ⟨same, _⟩ | ⟨impossible, _⟩
  · exact same
  · cases impossible

end Fired

theorem nextPersistSlot_fired
    (pcb : TcpPcb) :
    Fired pcb (nextPersistSlot pcb) := by
  constructor
  case frame =>
    constructor
    case state => exact .inl ⟨rfl, rfl⟩
    all_goals intros; rfl
  all_goals rfl

theorem tcpZeroWindowProbe_spec
    {carried : Packet → Prop}
    (pcb : TcpPcb)
    (probes :
      ∀ seg rest other,
        pcb.unsent = seg :: rest → carried (probePacket other seg).summed) :
    wp (tcpZeroWindowProbe pcb)
      (fun result later =>
        Fired pcb result.2 ∧
          result.2.unsent = pcb.unsent ∧
          result.2.unacked = pcb.unacked ∧
          result.2.persistBackoff = pcb.persistBackoff ∧
          Emits carried world later)
      allowed world := by
  have counted (edge nxt : SeqNo) :
      Fired pcb
        { countProbe pcb with rcvAnnRightEdge := edge, sndNxt := nxt } := by
    constructor
    case frame =>
      constructor
      case state => exact .inl ⟨rfl, rfl⟩
      all_goals intros; rfl
    all_goals rfl
  unfold tcpZeroWindowProbe
  rcases unsent : pcb.unsent with _ | ⟨seg, rest⟩
  · exact ⟨Fired.refl pcb, unsent, rfl, rfl, Emits.refl world⟩
  · rw [wp_bind]
    refine wp_weaken (allocate_emits carried) fun _ middle emits => ?_
    rw [wp_ite]
    refine ⟨fun _ => ?_, fun _ => ⟨counted _ _, unsent, rfl, rfl, emits⟩⟩
    rw [wp_bind]
    refine wp_weaken (ipOutputIf_emits (probes seg rest _ unsent)) ?_
    intro err later sent
    exact ⟨counted _ _, unsent, rfl, rfl, emits.trans sent⟩

/-- If the window is open when the persist timer goes off, the outputs of that
moment either fail at once or all succeed. -/
def FiresSteadily (pcb : TcpPcb) (outputs : List Err) : Prop :=
  pcb.sndWnd ≠ 0 →
    SteadyOutputs (min pcb.sndWnd pcb.cwnd) pcb
      (splitQueue pcb.sndWnd pcb.unsent) outputs

theorem splitQueue_ne_nil
    {split : Nat}
    {queue : List TcpSeg}
    (waiting : queue ≠ []) :
    splitQueue split queue ≠ [] := by
  cases queue with
  | nil =>
      exact absurd rfl waiting
  | cons useg rest =>
      rw [splitQueue]
      split <;> exact List.cons_ne_nil _ _

/-- A property of all queued segments when the persist timer goes off: the
first segment may be probed or cut. -/
theorem persistFires_spec
    {holds : TcpSeg → Prop}
    (carried : Packet → Prop)
    (closed : SendClosed holds)
    (faults : ∀ fault : Fault, fault.origin = .output → allowed fault)
    (splits :
      ∀ fault : Fault,
        fault.origin = .split → fault ≠ .splitMss → allowed fault)
    (pcb : TcpPcb)
    (sends : ∀ packet, BareOr pcb.remoteIp holds packet → carried packet)
    (all : AllQueued holds pcb)
    (probes :
      ∀ seg rest other,
        pcb.unsent = seg :: rest → carried (probePacket other seg).summed)
    (small :
      ∀ useg rest, pcb.unsent = useg :: rest → pcb.sndWnd < useg.len →
        pcb.sndWnd ≤ pcb.mss ∨ allowed .splitMss)
    (pieces :
      ∀ useg rest,
        pcb.unsent = useg :: rest → 0 < pcb.sndWnd → pcb.sndWnd < useg.len →
          holds (splitHead useg pcb.sndWnd) ∧
            holds (splitTail useg pcb.sndWnd)) :
    wp (persistFires pcb)
      (fun after later =>
        Fired pcb after ∧
          AllQueued holds after ∧
          (0 < pcb.persistBackoff →
            PersistIdle pcb →
              FiresSteadily pcb world.outputs → PersistIdle after) ∧
          Emits carried world later)
      allowed world := by
  unfold persistFires
  rw [wp_ite]
  refine ⟨fun _ => ?_, fun _open => ?_⟩
  · rw [wp_bind]
    refine wp_weaken (tcpZeroWindowProbe_spec pcb probes) ?_
    rintro ⟨err, after⟩ later ⟨fired, unsent, unacked, backoff, emits⟩
    have kept : AllQueued holds after := by
      unfold AllQueued
      rw [unsent, unacked]
      exact all
    have idle (running : 0 < pcb.persistBackoff) (before : PersistIdle pcb) :
        after.unacked = [] ∧ after.unsent ≠ [] := by
      rw [unsent, unacked]
      exact before running
    rw [wp_ite]
    exact ⟨fun _ => ⟨fired.trans (nextPersistSlot_fired after), kept,
      fun running before _ _ => idle running before, emits⟩,
      fun _ => ⟨fired, kept, fun running before _ _ => idle running before,
        emits⟩⟩
  · rw [wp_bind]
    refine wp_weaken
      (wp_also
        (tcpSplitUnsentSeg_spec splits pcb pcb.sndWnd all.1 small pieces)
        (tcpSplitUnsentSeg_queue pcb pcb.sndWnd)) ?_
    rintro ⟨err, cut⟩ middle
      ⟨⟨emits, frame, flags, sndLbb, waiting, unsent⟩, outputs, queue⟩
    have fired : Fired pcb cut := {
      frame := .of_queue frame
      mss := frame.mss
      sndWndMax := frame.sndWndMax
      sndLbb := sndLbb
      fin := by
        rw [flags] }
    have kept : AllQueued holds cut := ⟨unsent, by
      rw [frame.unacked]
      exact all.2⟩
    have sent : Emits carried world middle :=
      emits.mono fun packet bare => sends packet (.inl bare)
    have idle (running : 0 < pcb.persistBackoff) (before : PersistIdle pcb) :
        cut.unacked = [] ∧ cut.unsent ≠ [] := by
      have known := before running
      rw [frame.unacked]
      exact ⟨known.1, waiting known.2⟩
    rw [wp_ite]
    refine ⟨fun ok => ?_, fun _ => ?_⟩
    · rw [wp_bind]
      have failed :
          wp (tcpOutput false cut)
            (fun result _ =>
              result.1 ≠ .ok →
                pcb.unsent ≠ [] →
                  FiresSteadily pcb world.outputs →
                    result.2.unacked = cut.unacked ∧ result.2.unsent ≠ [])
            allowed middle := by
        by_cases steady :
            pcb.unsent ≠ [] ∧ FiresSteadily pcb world.outputs
        · have sndWnd : cut.sndWnd = pcb.sndWnd := by
            rw [frame.snd]
          have cwnd : cut.cwnd = pcb.cwnd :=
            congrArg CongVars.cwnd frame.cong
          have lastack : cut.lastack = pcb.lastack := by
            rw [frame.snd]
          have inOne := steady.2 _open
          unfold SteadyOutputs at inOne
          refine wp_weaken
            (tcpOutput_failed faults cut ?_ ?_)
            fun _ _ moved bad _ _ => moved bad
          · rw [queue ok]
            exact splitQueue_ne_nil steady.1
          · unfold SteadyOutputs
            rw [outputs, sndWnd, cwnd, queue ok, fitting_congr lastack]
            exact inOne
        · refine wp_weaken (tcpOutput_spec closed faults false cut kept) ?_
          intro _ _ _ _ waiting fires
          exact absurd ⟨waiting, fires⟩ steady
      refine wp_weaken
        (wp_and (tcpOutput_spec closed faults false cut kept) failed) ?_
      rintro ⟨err, after⟩ later ⟨⟨out, all, persist, emitted⟩, stuck⟩
      have passed := fired.trans (.of_output out)
      rw [frame.endpoint] at emitted
      have emitsAll := sent.trans (emitted.mono sends)
      rw [wp_ite]
      refine ⟨fun _ => ⟨passed, all, ?_, emitsAll⟩, fun bad =>
        ⟨passed.trans (nextPersistSlot_fired after), all, ?_, emitsAll⟩⟩
      · intro running before _
        exact persist fun _ => idle running before
      · intro running before steady _
        obtain ⟨inFlight, left⟩ := stuck bad (before running).2 steady
        exact ⟨inFlight.trans (idle running before).1, left⟩
    · exact ⟨fired.trans (nextPersistSlot_fired cut), kept,
        fun running before _ _ => idle running before, sent⟩

end Outputs

/-! ## A write -/

theorem mssLocal_le_mss
    (pcb : TcpPcb) :
    mssLocal pcb ≤ pcb.mss := by
  unfold mssLocal
  simp only
  split
  · exact Nat.le_refl _
  · exact Nat.min_le_left _ _

section Write

variable
  {allowed : Fault → Prop}
  {carried : SendLog → Packet → Prop}
  {inv finOk : SendLog → TcpPcb → Prop}
  {fireOk : TcpPcb → List Err → Prop}

/-- What `poll_write` leaves, given what `tcp_write` makes of the invariant and
that a failed output afterwards does not break it. -/
theorem pollWritePcb_kept
    (rules :
      ∀ log, SendRules allowed (carried log) (inv log) (finOk log) fireOk)
    (log : SendLog)
    (buf : Bytes)
    (stream : TcpStream)
    (pcb : TcpPcb)
    (world : World)
    (holds : inv log pcb)
    (failed :
      ∀ toWrite err,
        (∀ pcb,
          inv (log.record (.write buf (.ready toWrite))) pcb →
            inv (log.record (.write buf (.outputError err))) pcb) ∧
          ∀ packet,
            carried (log.record (.write buf (.ready toWrite))) packet →
              carried (log.record (.write buf (.outputError err))) packet)
    (written :
      ∀ toWrite, toWrite = min buf.length pcb.sndBuf → 0 < toWrite →
        wp (tcpWrite pcb (buf.take toWrite) false)
          (fun result later =>
            Emits Bare world later ∧
              QueueFrame pcb result.2 ∧
              (result.1 ≠ .ok → inv log result.2) ∧
              (result.1 = .ok →
                inv (log.record (.write buf (.ready toWrite))) result.2))
          allowed world) :
    wp (pollWritePcb buf stream pcb)
      (fun result later =>
        Alike stream result.2.1 ∧
          SendRules.Kept false
            (carried (log.record (.write buf result.1)))
            (inv (log.record (.write buf result.1)))
            pcb world result.2.2 later)
      allowed world := by
  have waits : Alike stream { stream with writeWaker := true } := by
    constructor <;> rfl
  unfold pollWritePcb
  rw [wp_ite]
  refine ⟨fun _ => ?_, fun positive => ?_⟩
  · exact ⟨waits, LocalFrame.refl false pcb, holds, Emits.refl world⟩
  rw [wp_bind]
  refine wp_weaken
    (written _ rfl (Nat.pos_of_ne_zero positive)) ?_
  rintro ⟨err, queued⟩ middle ⟨emits, frame, refused, done⟩
  have quiet (outcome : Outcome) :
      Emits (carried (log.record outcome)) world middle :=
    emits.mono (rules (log.record outcome)).bare
  rw [wp_ite]
  refine ⟨fun ok => ?_, fun bad => ?_⟩
  · rw [wp_bind]
    refine wp_weaken ((rules _).tcpOutput_kept queued middle (done ok)) ?_
    rintro ⟨err, after⟩ later kept
    rw [wp_ite]
    refine ⟨fun _ => ⟨Alike.refl stream, ?_⟩, fun _ =>
      ⟨Alike.refl stream, ?_⟩⟩
    · exact ⟨(LocalFrame.of_queue frame).trans kept.frame, kept.inv,
        (quiet _).trans kept.emits⟩
    · obtain ⟨keeps, carries⟩ := failed (min buf.length pcb.sndBuf) err
      exact ⟨(LocalFrame.of_queue frame).trans kept.frame, keeps _ kept.inv,
        (quiet _).trans (kept.emits.mono carries)⟩
  · rw [wp_ite]
    exact ⟨fun _ => ⟨waits, .of_queue frame, refused bad, quiet _⟩,
      fun _ => ⟨Alike.refl stream, .of_queue frame, refused bad, quiet _⟩⟩

end Write

end NetstackLwip

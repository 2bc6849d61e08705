import NetstackLwip.QueueRules

namespace NetstackLwip

/-!
# The size of queued segments

`tcp_write` and `tcp_split_unsent_seg` assert that the queued segments respect
the bound that they compute anew. The bound falls when the peer sends a smaller
MSS option on any segment, or when a first non-zero window makes half of it
count; segments queued under the old bound are then too large.
-/

open FaultState FaultMachine

/-! ## The invariant -/

/-- The segment with its options respects the bound of the next `tcp_write`. -/
def Sized (pcb : TcpPcb) (seg : TcpSeg) : Prop :=
  seg.len + seg.optLength ≤ mssLocal pcb

/-- What holds of a queued segment: nothing is queued in TIME_WAIT, nothing
but flags before the connection is accepted, and nothing too large after. -/
structure SizedIn (pcb : TcpPcb) (seg : TcpSeg) : Prop where
  notTimeWait : pcb.state ≠ .timeWait
  bare : pcb.state = .synRcvd → seg.len = 0
  sized : pcb.state ≠ .synRcvd → Sized pcb seg

/-- Every queued segment is small enough. -/
structure SizesKept (pcb : TcpPcb) : Prop where
  live : pcb.state ≠ .closed
  queued : AllQueued (SizedIn pcb) pcb

theorem SizesKept.drained
    {pcb : TcpPcb}
    (kept : SizesKept pcb) :
    Drained pcb :=
  kept.queued.mono fun _ sized => sized.notTimeWait

theorem mssLocal_congr
    {before after : TcpPcb}
    (mss : after.mss = before.mss)
    (sndWndMax : after.sndWndMax = before.sndWndMax) :
    mssLocal after = mssLocal before := by
  unfold mssLocal
  rw [mss, sndWndMax]

/-- A segment stays in order as long as the bound and the state do. -/
theorem SizedIn.congr
    {before after : TcpPcb}
    {seg : TcpSeg}
    (sized : SizedIn before seg)
    (mss : after.mss = before.mss)
    (sndWndMax : after.sndWndMax = before.sndWndMax)
    (state : after.state = before.state) :
    SizedIn after seg where
  notTimeWait := state ▸ sized.notTimeWait
  bare synRcvd := sized.bare (state ▸ synRcvd)
  sized synchronized := by
    unfold Sized
    rw [mssLocal_congr mss sndWndMax]
    exact sized.sized (state ▸ synchronized)

theorem SizesKept.congr
    {before after : TcpPcb}
    (kept : SizesKept before)
    (queue : after.toQueueVars = before.toQueueVars)
    (mss : after.mss = before.mss)
    (sndWndMax : after.sndWndMax = before.sndWndMax)
    (state : after.state = before.state) :
    SizesKept after where
  live := state ▸ kept.live
  queued := (kept.queued.of_queue queue).mono fun _ sized =>
    sized.congr mss sndWndMax state

/-- The size of a segment depends on its data and options alone. -/
theorem SizedIn.resized
    {pcb : TcpPcb}
    {seg other : TcpSeg}
    (sized : SizedIn pcb seg)
    (len : other.len ≤ seg.len)
    (optsMss : other.optsMss = seg.optsMss) :
    SizedIn pcb other where
  notTimeWait := sized.notTimeWait
  bare synRcvd := by
    have empty := sized.bare synRcvd
    omega
  sized synchronized := by
    have fits := sized.sized synchronized
    unfold Sized TcpSeg.optLength at fits ⊢
    rw [optsMss]
    omega

theorem sizedIn_closed
    (pcb : TcpPcb) :
    SendClosed (SizedIn pcb) where
  ack _ sized := sized.resized (Nat.le_refl _) rfl
  push _ sized := sized.resized (Nat.le_refl _) rfl
  same _ _ sized same := sized.resized (by simp [same.len]) same.optsMss

/-! ## What a segment from the peer does -/

/-- The pcb once it has heard the peer's MSS option and window. -/
def heardPcb (packet : Packet) (pcb : TcpPcb) : TcpPcb :=
  if packet.flags.ack then
    updateSndWnd packet (tcpParseopt packet.options pcb)
  else
    tcpParseopt packet.options pcb

/-- The segments that are still queued after the peer's packet. -/
def survivors (packet : Packet) (pcb : TcpPcb) : List TcpSeg :=
  if packet.AcksNew pcb then
    pcb.unsent.dropWhile
        (fun seg => SerialNumber.leq seg.endSeq packet.ackno) ++
      pcb.unacked.dropWhile
        (fun seg => SerialNumber.leq seg.endSeq packet.ackno)
  else
    pcb.unsent ++ pcb.unacked

/-- What stays queued respects the bound that the packet leaves, if the
connection is accepted by then. -/
def LeavesSized (packet : Packet) (pcb : TcpPcb) : Prop :=
  (pcb.state = .synRcvd → packet.AcksSyn pcb) →
    ∀ seg ∈ survivors packet pcb, Sized (heardPcb packet pcb) seg

instance (pcb : TcpPcb) (seg : TcpSeg) : Decidable (Sized pcb seg) :=
  inferInstanceAs (Decidable (_ ≤ _))

instance (packet : Packet) (pcb : TcpPcb) :
    Decidable (LeavesSized packet pcb) :=
  inferInstanceAs (Decidable (_ → _))

theorem survivors_acked
    {packet : Packet}
    {before middle after : TcpPcb}
    (queues : AckQueues packet middle after)
    (queue : middle.toQueueVars = before.toQueueVars)
    (lastack : middle.lastack = before.lastack) :
    AllQueued (fun seg => seg ∈ survivors packet before) after := by
  have sndNxt : middle.sndNxt = before.sndNxt :=
    congrArg QueueVars.sndNxt queue
  have all :
      AllQueued (fun seg => seg ∈ before.unsent ++ before.unacked) middle := by
    unfold AllQueued
    rw [queue]
    exact ⟨fun _ member => List.mem_append_left _ member,
      fun _ member => List.mem_append_right _ member⟩
  unfold survivors
  cases queues with
  | kept old queues =>
      rw [if_neg fun new =>
        old ((Packet.acksNew_congr lastack sndNxt).mpr new)]
      exact all.requeued queues
  | freed new unacked unsent =>
      rw [if_pos ((Packet.acksNew_congr lastack sndNxt).mp new)]
      unfold AllQueued
      rw [unacked, unsent, queue]
      exact ⟨fun _ member => List.mem_append_left _ member,
        fun _ member => List.mem_append_right _ member⟩

theorem updateSndWnd_congr
    (packet : Packet)
    {before after : TcpPcb}
    (snd : after.toSndVars = before.toSndVars) :
    (updateSndWnd packet after).toSndVars =
      (updateSndWnd packet before).toSndVars := by
  unfold updateSndWnd
  rw [snd]
  split
  · rfl
  · exact snd

/-- The bound after the acknowledgement part of `tcp_receive`. -/
theorem mssLocal_heard
    {packet : Packet}
    {before middle after : TcpPcb}
    (noted : Noted packet before middle)
    (mss : after.mss = middle.mss)
    (sndWndMax :
      after.sndWndMax =
        (if packet.flags.ack then
          (updateSndWnd packet middle).sndWndMax
        else
          middle.sndWndMax)) :
    mssLocal after = mssLocal (heardPcb packet before) := by
  have snd :
      middle.toSndVars = (tcpParseopt packet.options before).toSndVars :=
    noted.snd
  have heard := updateSndWnd_congr packet snd
  refine mssLocal_congr ?_ ?_
  · rw [mss, snd]
    unfold heardPcb updateSndWnd
    split
    · split <;> rfl
    · rfl
  · rw [sndWndMax]
    unfold heardPcb
    split
    · exact congrArg SndVars.sndWndMax heard
    · rw [snd]

/-! ## The rules -/

/-- Every fault but the two size assertions. -/
def NoSizeFault (fault : Fault) : Prop :=
  fault ≠ .mssLocalTooSmall ∧ fault ≠ .splitMss

theorem noSizeFault_of_origin
    {fault : Fault}
    (write : fault.origin ≠ .write)
    (split : fault.origin ≠ .split) :
    NoSizeFault fault := by
  constructor
  · rintro rfl
    exact write rfl
  · rintro rfl
    exact split rfl

/-- Cutting a segment leaves pieces that are no larger. -/
theorem SizedIn.pieces
    {pcb : TcpPcb}
    {useg : TcpSeg}
    {split : Nat}
    (sized : SizedIn pcb useg)
    (shorter : split < useg.len) :
    SizedIn pcb (splitHead useg split) ∧
      SizedIn pcb (splitTail useg split) := by
  refine ⟨sized.resized (Nat.le_of_lt shorter) rfl, sized.resized ?_ rfl⟩
  simp only [splitTail, splitData, List.length_take]
  omega

theorem sizeRules :
    SendRules NoSizeFault (fun _ => True) SizesKept (MayFin fun _ => True)
      (fun _ _ => True) where
  faults _ _ write split _ := noSizeFault_of_origin write split
  bare _ _ := trivial
  live _ kept := kept.live
  waiting _ kept := kept.drained.empty
  view before after same kept :=
    kept.congr same.queue (congrArg SndVars.mss same.snd)
      (congrArg SndVars.sndWndMax same.snd) same.state
  finView _ _ same may := ⟨trivial, same.state ▸ may.2⟩
  fireView _ _ _ _ := trivial
  output pcb world kept := by
    refine wp_weaken
      (tcpOutput_spec (sizedIn_closed pcb)
        (fun fault same => noSizeFault_of_origin (by simp [same])
          (by simp [same])) false pcb kept.queued) ?_
    rintro ⟨err, after⟩ later ⟨frame, queued, _, emits⟩
    refine ⟨frame, ⟨frame.state ▸ kept.live, queued.mono fun _ sized => ?_⟩,
      fun may => ⟨trivial, frame.state ▸ may.2⟩,
      emits.mono fun _ _ => trivial⟩
    exact sized.congr (congrArg SndVars.mss frame.snd)
      (congrArg SndVars.sndWndMax frame.snd) frame.state
  fin pcb next world kept mayFin shuts := by
    refine wp_weaken
      (tcpSendFin_queued (fun fault same =>
        noSizeFault_of_origin (by simp [same]) (by simp [same])) pcb) ?_
    rintro ⟨err, after⟩ later ⟨frame, refused, queued, emits⟩
    refine ⟨frame, fun ok => ⟨shuts.ne_closed, ?_⟩, fun bad => ?_,
      emits.mono fun _ _ => trivial⟩
    · have all : AllQueued (SizedIn pcb) after :=
        (queued ok).all kept.queued
          ⟨shuts.from_open, fun _ => rfl, fun _ => Nat.zero_le _⟩
          fun last isLast _ _ =>
            (kept.queued.1 last (List.mem_of_getLast? isLast)).resized
              (Nat.le_refl _) rfl
      refine all.mono fun seg sized => ⟨shuts.ne_timeWait,
        fun synRcvd => absurd synRcvd shuts.ne_synRcvd, fun _ => ?_⟩
      have fits := sized.sized mayFin.2
      have bound : mssLocal { after with state := next } = mssLocal pcb :=
        mssLocal_congr frame.mss frame.sndWndMax
      exact Nat.le_trans fits (Nat.le_of_eq bound.symm)
    · exact kept.congr (refused bad).queue frame.mss frame.sndWndMax
        frame.state
  fires pcb world kept notTimeWait running _ := by
    have tooLong (useg : TcpSeg) (rest : List TcpSeg)
        (queue : pcb.unsent = useg :: rest) (longer : pcb.sndWnd < useg.len) :
        pcb.sndWnd ≤ pcb.mss := by
      have sized : SizedIn pcb useg :=
        kept.queued.1 useg (by rw [queue]; exact List.mem_cons_self)
      have synchronized : pcb.state ≠ .synRcvd := by
        intro synRcvd
        have empty := sized.bare synRcvd
        omega
      have fits := sized.sized synchronized
      have bound := mssLocal_le_mss pcb
      unfold Sized at fits
      omega
    refine wp_weaken
      (persistFires_spec (fun _ => True) (sizedIn_closed pcb)
        (fun fault same => noSizeFault_of_origin (by simp [same])
          (by simp [same]))
        (fun fault same other => ⟨fun equal =>
          absurd (equal ▸ same) (by decide), other⟩)
        pcb (fun _ _ => trivial) kept.queued (fun _ _ _ _ => trivial)
        (fun useg rest queue longer => .inl (tooLong useg rest queue longer))
        fun useg rest queue _ longer => ?_) ?_
    · exact (kept.queued.1 useg (by rw [queue]; exact List.mem_cons_self)).pieces
        longer
    · rintro after later ⟨fired, queued, _, emits⟩
      exact ⟨fired.frame, ⟨fired.state ▸ kept.live,
        queued.mono fun _ sized =>
          sized.congr fired.mss fired.sndWndMax fired.state⟩, emits⟩
  rto pcb kept stopped := by
    obtain ⟨snd, _, state⟩ := tcpRexmitRtoPrepare_same pcb
    exact ⟨state ▸ kept.live, kept.queued.rto.mono fun _ sized =>
      sized.congr (congrArg SndVars.mss snd) (congrArg SndVars.sndWndMax snd)
        state⟩
  persist pcb kept notTimeWait running := by
    exact ⟨.inr (noSizeFault_of_origin (by decide) (by decide)),
      .inr (noSizeFault_of_origin (by decide) (by decide))⟩

theorem sizeInputs :
    InputRules SizesKept LeavesSized where
  noted packet before after kept synRcvd noted state := by
    refine ⟨state ▸ kept.live, ?_⟩
    refine (kept.queued.of_queue noted.queue).mono fun seg sized => ?_
    refine ⟨state ▸ sized.notTimeWait, fun _ => sized.bare synRcvd,
      fun synchronized => ?_⟩
    exact absurd (state.trans synRcvd) synchronized
  handshakeRexmit pcb kept synRcvd := by
    obtain ⟨frame, queues⟩ := tcpRexmit_frame pcb
    exact ⟨frame.state ▸ kept.live, (kept.queued.requeued queues).mono
      fun _ sized => sized.congr frame.mss frame.sndWndMax frame.state⟩
  acked packet before middle after kept leaves noted handshake established
      judged sndWndMax queues := by
    have state : after.state = middle.state := judged.state
    have synchronized : after.state ≠ .synRcvd := by
      intro synRcvd
      rw [← state, synRcvd] at established
      exact absurd established (by decide)
    have lastack : middle.lastack = before.lastack := by
      rw [noted.snd]
    have left := survivors_acked queues noted.queue lastack
    have wasOpen : AllQueued (fun _ => after.state ≠ .timeWait) after := by
      have notTimeWait := (kept.queued.of_queue noted.queue).acked queues
      refine notTimeWait.mono fun seg sized => ?_
      rw [state]
      rcases noted.state with same | ⟨_, moved⟩
      · exact same ▸ sized.notTimeWait
      · rw [moved]
        exact nofun
    refine ⟨?_, (left.and wasOpen).mono fun seg ⟨survives, notTimeWait⟩ =>
      ⟨notTimeWait, fun synRcvd => absurd synRcvd synchronized, fun _ => ?_⟩⟩
    · intro closed
      rw [← state, closed] at established
      exact absurd established (by decide)
    · have fits := leaves handshake seg survives
      unfold Sized at fits ⊢
      rw [mssLocal_heard noted judged.mss sndWndMax]
      exact fits
  moved pcb fin state kept moves synchronized notTimeWait := by
    have still : state ≠ .synRcvd := moves.synRcvd synchronized
    exact ⟨moves.ne_closed kept.live, kept.queued.mono fun seg sized =>
      ⟨notTimeWait, fun synRcvd => absurd synRcvd still, fun _ =>
        sized.sized synchronized⟩⟩
  timeWait pcb kept :=
    ⟨nofun, kept.drained.enterTimeWait kept.live _⟩

/-- `tcp_write` cuts its segments to the bound. -/
theorem pollWritePcb_sizes
    (log : SendLog)
    (buf : Bytes)
    (stream : TcpStream)
    (pcb : TcpPcb)
    (world : World)
    (kept : SizesKept pcb)
    (synchronized : pcb.state ≠ .synRcvd) :
    wp (pollWritePcb buf stream pcb)
      (fun result later =>
        Alike stream result.2.1 ∧
          SendRules.Kept false (fun _ => True) SizesKept pcb world result.2.2
            later)
      NoSizeFault world := by
  have fits (seg : TcpSeg) (last : pcb.unsent.getLast? = some seg) :
      Sized pcb seg :=
    (kept.queued.1 seg (List.mem_of_getLast? last)).sized synchronized
  refine pollWritePcb_kept (fun _ : SendLog => sizeRules) log buf stream pcb
    world kept
    (fun _ _ => ⟨fun _ kept => kept, fun _ _ => trivial⟩) fun toWrite _ _ => ?_
  refine wp_weaken
    (tcpWrite_spec (sizedIn_closed pcb)
      (fun fault same other =>
        ⟨other, fun equal => absurd (equal ▸ same) (by decide)⟩) pcb _ false
      (fun last isLast => .inl (fits last isLast)) ?_) ?_
  · intro writable
    have within (seg : TcpSeg) (sized : Sized pcb seg) : SizedIn pcb seg :=
      ⟨writable.ne_timeWait, fun synRcvd => absurd synRcvd synchronized,
        fun _ => sized⟩
    refine ⟨kept.queued.1, ?_, ?_⟩
    · intro last count seg isLast _ inside room _ extended
      refine within seg ?_
      unfold Sized TcpSeg.optLength at *
      rw [extended.len, extended.optsMss, List.length_take]
      omega
    · intro pos len room inside small
      refine within _ ?_
      simp only [Sized, freshSeg, TcpSeg.optLength, List.length_take,
        List.length_drop]
      simp
      omega
  · rintro ⟨err, after⟩ later ⟨emits, frame, refused, done⟩
    refine ⟨emits, frame, fun bad =>
      kept.congr (refused bad).queue frame.mss frame.sndWndMax frame.state,
      fun ok => ⟨frame.state ▸ kept.live, ?_⟩⟩
    have all : AllQueued (SizedIn pcb) after := ⟨(done ok).unsent, by
      rw [frame.unacked]
      exact kept.queued.2⟩
    exact all.mono fun _ sized =>
      sized.congr frame.mss frame.sndWndMax frame.state

/-- `SizesKept` as an invariant of the connection. -/
def sizeInvariant : ConnInvariant where
  allowed := NoSizeFault
  carried _ _ := True
  inv _ := SizesKept
  finOk _ := True
  fireOk _ _ := True
  ackOk := LeavesSized
  writeOk _ := True
  rules _ := sizeRules
  inputs _ := sizeInputs
  dataFaults fault same :=
    noSizeFault_of_origin (by simp [same]) (by simp [same])
  opening packet listener iss world := by
    refine ⟨nofun, ?_, List.forall_mem_nil _⟩
    intro seg member
    rw [List.mem_singleton.mp member]
    exact ⟨nofun, fun _ => rfl, fun synchronized => absurd rfl synchronized⟩
  grows _ _ _ _ := trivial
  write log buf stream pcb world kept streaming _ :=
    pollWritePcb_sizes log buf stream pcb world kept streaming.state

/-! ## Runs -/

/-- The steps that keep the sizes in order: what a segment from the peer
leaves queued respects the bound that it leaves. -/
def SizesAdmit (conn : Conn) (label : Label) : Prop :=
  ∀ pcb packet,
    conn.pcb = some pcb →
      pcb.state ≠ .timeWait →
        label.event = .segment packet →
          packet.Heeded pcb → LeavesSized packet.toPacket pcb

theorem SizesAdmit.admits
    {conn : Conn}
    {label : Label}
    (admits : SizesAdmit conn label) :
    sizeInvariant.Admits conn label := by
  intro pcb current
  cases event : label.event with
  | segment packet =>
      exact fun notTimeWait heeded =>
        admits pcb packet current notTimeWait event heeded
  | slowtmr =>
      exact fun _ _ => trivial
  | fasttmr =>
      exact fun _ _ => trivial
  | handleClosepend =>
      exact fun _ _ => trivial
  | pollShutdown =>
      exact fun _ => trivial
  | _ =>
      exact trivial

/-- In a run of such steps every queued segment of an accepted connection
respects the bound, and neither size assertion fails. -/
theorem queued_sizes_in_bound
    {conn : Conn}
    (reached : connMachine.ReachedUnder SizesAdmit conn) :
    (∀ pcb seg, conn.pcb = some pcb → pcb.state ≠ .synRcvd →
        (seg ∈ pcb.unsent ∨ seg ∈ pcb.unacked) →
          seg.len + seg.optLength ≤ mssLocal pcb) ∧
      ∀ label fault,
        SizesAdmit conn label →
          conn.step label = .error fault →
            fault ≠ .mssLocalTooSmall ∧ fault ≠ .splitMss := by
  have keeps : sizeInvariant.Keeps conn :=
    ConnInvariant.keeps_reached (reached.mono fun _ _ => SizesAdmit.admits)
  refine ⟨?_, fun label fault admits stopped =>
    ConnInvariant.step_allowed keeps admits.admits stopped⟩
  intro pcb seg current synchronized member
  have queued := (keeps.pcb pcb current).2.queued
  rcases member with unsent | unacked
  · exact (queued.1 seg unsent).sized synchronized
  · exact (queued.2 seg unacked).sized synchronized

/-- The condition of an example run on a step, decided. -/
def checkLeavesSized
    (conn : Conn)
    (label : Label) :
    Bool :=
  match conn.pcb, label.event with
  | some pcb, .segment packet => decide (LeavesSized packet.toPacket pcb)
  | _, _ => true

/-- A connection with a closed window and one byte queued. -/
theorem queued_sizes_in_bound_closed_window :
    ∃ conn, connMachine.ReachedUnder SizesAdmit conn ∧
      (∃ pcb seg, conn.pcb = some pcb ∧ seg ∈ pcb.unsent) ∧
      (∀ pcb seg, conn.pcb = some pcb → pcb.state ≠ .synRcvd →
          (seg ∈ pcb.unsent ∨ seg ∈ pcb.unacked) →
            seg.len + seg.optLength ≤ mssLocal pcb) ∧
        ∀ label fault,
          SizesAdmit conn label →
            conn.step label = .error fault →
              fault ≠ .mssLocalTooSmall ∧ fault ≠ .splitMss := by
  obtain ⟨conn, reached, queued⟩ :=
    exists_reachedUnder SizesAdmit checkLeavesSized
      (by
        intro conn label checked pcb packet current _ event _
        simpa [checkLeavesSized, current, event] using checked)
      (exampleSyn 0 []) 0 6510 exampleWorld
      [{ event := .segment (exampleSegment { ack := true } 100 6511 0 [] []) },
        { event := .pollWrite [1] }]
      (fun conn => conn.pcb.any fun pcb => !pcb.unsent.isEmpty)
      rfl rfl rfl (by decide +kernel)
  refine ⟨conn, reached, ?_, queued_sizes_in_bound reached⟩
  cases current : conn.pcb with
  | none =>
      simp [current] at queued
  | some pcb =>
      have waiting : pcb.unsent ≠ [] := by
        simpa [current] using queued
      exact ⟨pcb, pcb.unsent.head waiting, rfl, List.head_mem waiting⟩

/-- Five hundred bytes are queued as one segment while the largest window the
peer has announced is zero. Its first window of 100 bytes halves to a bound of
50, and the next write stops the program. -/
theorem queued_size_above_first_window :
    ∃ conn, connMachine.Reached conn ∧
      conn.step { event := .pollWrite [1] } = .error .mssLocalTooSmall := by
  obtain ⟨conn, reached, stops⟩ :=
    exists_reached (exampleSyn 0 []) 0 6510 exampleWorld
      [{ event := .segment (exampleSegment { ack := true } 100 6511 0 [] []) },
        { event := .pollWrite (List.replicate 500 1) },
        { event :=
            .segment (exampleSegment { ack := true } 100 6511 100 [] []) }]
      (fun conn =>
        conn.faultOf { event := .pollWrite [1] } == some .mssLocalTooSmall)
      rfl rfl rfl (by decide +kernel)
  exact ⟨conn, reached, Conn.step_of_faultOf (by simpa using stops)⟩

end NetstackLwip

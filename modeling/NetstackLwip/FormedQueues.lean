import NetstackLwip.WritePlan

namespace NetstackLwip

/-!
# Formed queues

Every queued segment of a reachable connection is as long as its data and takes
up sequence space, and no segment size is above `TCP_MSS`.
-/

open FaultState FaultMachine

/-! ## Queued segments are well formed -/

/-- Every queued segment is formed, and TIME_WAIT has none. -/
structure AllFormed (pcb : TcpPcb) : Prop where
  live : pcb.state ≠ .closed
  mss : pcb.mss ≤ tcpMss
  queued :
    AllQueued (fun seg => pcb.state ≠ .timeWait ∧ Formed seg) pcb

theorem AllFormed.congr
    {before after : TcpPcb}
    (kept : AllFormed before)
    (queued :
      AllQueued (fun seg => before.state ≠ .timeWait ∧ Formed seg) after)
    (mss : after.mss = before.mss)
    (state : after.state = before.state) :
    AllFormed after where
  live := state ▸ kept.live
  mss := mss ▸ kept.mss
  queued := by
    rw [state]
    exact queued

theorem AllFormed.drained
    {pcb : TcpPcb}
    (kept : AllFormed pcb) :
    Drained pcb :=
  kept.queued.mono fun _ formed => formed.1

theorem AllFormed.formed
    {pcb : TcpPcb}
    (kept : AllFormed pcb) :
    AllQueued Formed pcb :=
  kept.queued.mono fun _ formed => formed.2

theorem openFormed_closed
    (alive : Prop) :
    SendClosed fun seg => alive ∧ Formed seg where
  ack seg holds := ⟨holds.1, formed_closed.ack seg holds.2⟩
  push seg holds := ⟨holds.1, formed_closed.push seg holds.2⟩
  same seg other holds same :=
    ⟨holds.1, formed_closed.same seg other holds.2 same⟩

/-- Both pieces of a cut segment are formed. -/
theorem Formed.pieces
    {useg : TcpSeg}
    {split : Nat}
    (formed : Formed useg)
    (positive : 0 < split)
    (shorter : split < useg.len) :
    Formed (splitHead useg split) ∧ Formed (splitTail useg split) := by
  have whole := formed.whole
  unfold Pbuf.totLen at whole
  refine ⟨⟨splitPbuf_totLen formed.whole shorter, ?_, ?_⟩, ⟨?_, ?_, rfl⟩⟩
  · exact Nat.lt_of_lt_of_le positive (Nat.le_add_right _ _)
  · simp [splitHead, HdrFlags.set, formed.noRst]
  · simp [splitTail, Pbuf.totLen, Pbuf.data]
  · refine Nat.lt_of_lt_of_le ?_ (Nat.le_add_right _ _)
    simp only [splitTail, splitData, Pbuf.totLen, List.length_take,
      List.length_drop, whole]
    omega

theorem formedRules :
    SendRules (fun _ => True) (fun _ => True) AllFormed
      (MayFin fun _ => True) (fun _ _ => True) where
  faults _ _ _ _ _ := trivial
  bare _ _ := trivial
  live _ kept := kept.live
  waiting _ kept := kept.drained.empty
  view before after same kept :=
    kept.congr (kept.queued.of_queue same.queue)
      (congrArg SndVars.mss same.snd) same.state
  finView _ _ same may := ⟨trivial, same.state ▸ may.2⟩
  fireView _ _ _ _ := trivial
  output pcb world kept := by
    refine wp_weaken
      (tcpOutput_spec (openFormed_closed _) (fun _ _ => trivial) false pcb
        kept.queued) ?_
    rintro ⟨err, after⟩ later ⟨frame, queued, _, emits⟩
    exact ⟨frame, kept.congr queued (congrArg SndVars.mss frame.snd) frame.state,
      fun may => ⟨trivial, frame.state ▸ may.2⟩,
      emits.mono fun _ _ => trivial⟩
  fin pcb next world kept mayFin shuts := by
    refine wp_weaken (tcpSendFin_queued (fun _ _ => trivial) pcb) ?_
    rintro ⟨err, after⟩ later ⟨frame, refused, queued, emits⟩
    refine ⟨frame, fun ok => ⟨shuts.ne_closed, frame.mss ▸ kept.mss, ?_⟩,
      fun bad => ?_,
      emits.mono fun _ _ => trivial⟩
    · have all : AllQueued Formed after :=
        (queued ok).all kept.formed ⟨rfl, Nat.succ_pos _, rfl⟩
          fun last isLast _ _ => by
            have formed := kept.formed.1 last (List.mem_of_getLast? isLast)
            refine ⟨formed.whole, ?_, formed.noRst⟩
            simp [TcpSeg.tcplen]
      exact all.mono fun _ formed => ⟨shuts.ne_timeWait, formed⟩
    · exact kept.congr (kept.queued.of_queue (refused bad).queue) frame.mss
        frame.state
  fires pcb world kept notTimeWait running _ := by
    refine wp_weaken
      (persistFires_spec (fun _ => True) (openFormed_closed _)
        (fun _ _ => trivial) (fun _ _ _ => trivial) pcb
        (fun _ _ => trivial) kept.queued (fun _ _ _ _ => trivial)
        (fun _ _ _ _ => .inr trivial)
        fun useg rest queue positive longer => ?_) ?_
    · obtain ⟨live, formed⟩ :=
        kept.queued.1 useg (by rw [queue]; exact List.mem_cons_self)
      obtain ⟨head, tail⟩ := formed.pieces positive longer
      exact ⟨⟨live, head⟩, ⟨live, tail⟩⟩
    · rintro after later ⟨fired, queued, _, emits⟩
      exact ⟨fired.frame, kept.congr queued fired.mss fired.state, emits⟩
  rto pcb kept _ := by
    obtain ⟨snd, _, state⟩ := tcpRexmitRtoPrepare_same pcb
    exact kept.congr kept.queued.rto (congrArg SndVars.mss snd) state
  persist _ _ _ _ := ⟨.inr trivial, .inr trivial⟩

theorem formedInputs :
    InputRules AllFormed (fun _ _ => True) where
  noted packet before after kept _ noted state := by
    refine ⟨state ▸ kept.live, ?_, ?_⟩
    · rw [noted.snd]
      exact tcpParseoptFrom_le _ _ _ _ kept.mss
    · rw [state]
      exact kept.queued.of_queue noted.queue
  handshakeRexmit pcb kept _ := by
    obtain ⟨frame, queues⟩ := tcpRexmit_frame pcb
    exact kept.congr (kept.queued.requeued queues) frame.mss frame.state
  acked packet before middle after kept _ noted _ established judged _
      queues := by
    have state : after.state = middle.state := judged.state
    have all : AllQueued Formed after :=
      (kept.formed.of_queue noted.queue).acked queues
    have drained : AllQueued (fun _ => before.state ≠ .timeWait) after :=
      (kept.drained.of_queue noted.queue).acked queues
    refine ⟨?_, ?_, ?_⟩
    · intro closed
      rw [← state, closed] at established
      exact absurd established (by decide)
    · have mss : after.mss = middle.mss := judged.mss
      rw [mss, noted.snd]
      exact tcpParseoptFrom_le _ _ _ _ kept.mss
    · refine (drained.and all).mono fun seg both => ⟨?_, both.2⟩
      rw [state]
      rcases noted.state with same | ⟨_, moved⟩
      · rw [same]
        exact both.1
      · rw [moved]
        exact nofun
  moved pcb fin state kept moves _ notTimeWait :=
    ⟨moves.ne_closed kept.live, kept.mss,
      kept.formed.mono fun _ formed => ⟨notTimeWait, formed⟩⟩
  timeWait pcb kept :=
    ⟨nofun, (enterTimeWait_mss pcb).symm ▸ kept.mss,
      kept.drained.enterTimeWait kept.live _⟩

/-! ## What a write queues is well formed -/

theorem formed_plain
    {seg : TcpSeg} :
    Formed seg.plain ↔ Formed seg :=
  ⟨fun formed => ⟨formed.whole, formed.nonempty, formed.noRst⟩,
    fun formed => ⟨formed.whole, formed.nonempty, formed.noRst⟩⟩

/-- Queues that are plainly the same share what sending does not change. -/
theorem forall_plain_congr
    {holds : TcpSeg → Prop}
    (look : ∀ seg, holds seg.plain ↔ holds seg)
    {queue others : List TcpSeg}
    (plain : others.map TcpSeg.plain = queue.map TcpSeg.plain)
    (all : ∀ seg ∈ queue, holds seg) :
    ∀ seg ∈ others, holds seg := by
  intro seg member
  have image : seg.plain ∈ queue.map TcpSeg.plain := by
    rw [← plain]
    exact List.mem_map_of_mem member
  obtain ⟨other, inQueue, same⟩ := List.mem_map.mp image
  rw [← look, ← same, look]
  exact all other inQueue

/-- The data an extended segment gets. -/
theorem data_extendTail
    (pcb : TcpPcb)
    (arg : Bytes)
    (seg : TcpSeg) :
    (extendTail (tailPlan pcb arg.length) arg seg).p.data =
      seg.p.data ++ arg.take (tailPlan pcb arg.length).bytes := by
  unfold extendTail TailPlan.bytes
  rw [Pbuf.data_cat, Pbuf.data_extendLast, List.append_assoc, List.take_add]
  congr 2
  split
  · rename_i unchained
    rw [unchained, List.take_zero]
    rfl
  · simp [Pbuf.data]

theorem formed_extendTail
    {pcb : TcpPcb}
    {arg : Bytes}
    {seg : TcpSeg}
    (formed : Formed seg) :
    Formed (extendTail (tailPlan pcb arg.length) arg seg) := by
  have inside := tailPlan_le pcb arg.length
  have whole := formed.whole
  have nonempty := formed.nonempty
  refine ⟨?_, ?_, formed.noRst⟩
  · unfold Pbuf.totLen at whole ⊢
    rw [data_extendTail, List.length_append, List.length_take, whole,
      Nat.min_eq_left inside]
    rfl
  · refine Nat.lt_of_lt_of_le nonempty ?_
    unfold TcpSeg.tcplen extendTail
    dsimp only
    omega

theorem formed_chunkSegs
    {mss : Nat}
    (seqno : SeqNo)
    (data : Bytes)
    (cut : data.length = 0 ∨ 0 < mss) :
    ∀ seg ∈ chunkSegs mss (segsFor mss data.length) seqno data,
      Formed seg := by
  induction length : data.length using Nat.strongRecOn
    generalizing seqno data with
  | ind left inductionHypothesis =>
      rcases Nat.eq_zero_or_pos left with rfl | nonzero
      · rw [segsFor_zero]
        exact List.forall_mem_nil _
      have positive := cut.resolve_left (by omega)
      rw [chunkSegs_succ positive nonzero _ _ length, List.forall_mem_cons]
      refine ⟨⟨?_, ?_, rfl⟩, ?_⟩
      · simp [freshSeg, Pbuf.totLen, Pbuf.data]
      · refine Nat.lt_of_lt_of_le ?_ (Nat.le_add_right _ _)
        simp only [freshSeg, List.length_take]
        omega
      · refine inductionHypothesis _ ?_ _ _ (.inr positive) ?_
        · omega
        · rw [List.length_drop, length]

theorem formed_plannedUnsent
    {pcb : TcpPcb}
    {arg : Bytes}
    (formed : ∀ seg ∈ pcb.unsent, Formed seg)
    (cut : leftOver pcb arg.length = 0 ∨ 0 < mssLocal pcb) :
    ∀ seg ∈ plannedUnsent pcb arg, Formed seg := by
  intro seg member
  rcases List.mem_append.mp member with member | member
  · exact forall_mapLast formed
      (fun last isLast =>
        formed_extendTail (formed last (List.mem_of_getLast? isLast)))
      seg member
  · have left :
        (arg.drop (tailPlan pcb arg.length).bytes).length =
          leftOver pcb arg.length := List.length_drop
    refine formed_chunkSegs _ _ ?_ seg (by rw [left]; exact member)
    rw [left]
    exact cut

section Write

variable {world : World}

/-- What `tcp_write` leaves alone, and what it refuses for want of room. -/
theorem tcpWrite_frame
    (pcb : TcpPcb)
    (arg : Bytes)
    (more : Bool) :
    wp (tcpWrite pcb arg more)
      (fun result later =>
        Emits Bare world later ∧
          QueueFrame pcb result.2 ∧
          (result.1 ≠ .ok → Refused pcb result.2) ∧
          (result.1 = .ok → arg.length ≤ pcb.sndBuf))
      (fun _ => True) world := by
  refine wp_weaken
    (tcpWrite_spec (SendClosed.const True) (fun _ _ _ => trivial) pcb arg
      more (fun _ _ => .inr trivial)
      fun _ =>
        ⟨fun _ _ => trivial, fun _ _ _ _ _ _ _ _ _ => trivial,
          fun _ _ _ _ _ => trivial⟩) ?_
  rintro result later ⟨emits, frame, refused, done⟩
  exact ⟨emits, frame, refused, fun ok => (done ok).room⟩

/-- What an accepted write queues is formed. -/
theorem AllFormed.written
    {pcb after : TcpPcb}
    {arg : Bytes}
    {later : World}
    (kept : AllFormed pcb)
    (accepts : Accepts pcb arg.length world.allocs)
    (frame : QueueFrame pcb after)
    (done : WritePlanned pcb arg world after later) :
    AllFormed after := by
  have formed : ∀ seg ∈ after.unsent, Formed seg :=
    forall_plain_congr (fun _ => formed_plain) done.unsent
      (formed_plannedUnsent kept.formed.1 accepts.segs.mss)
  have notTimeWait := accepts.writable.ne_timeWait
  refine ⟨?_, frame.mss ▸ kept.mss, ?_, ?_⟩
  · rw [frame.state]
    exact kept.live
  · intro seg member
    rw [frame.state]
    exact ⟨notTimeWait, formed seg member⟩
  · rw [frame.state, frame.unacked]
    exact kept.queued.2

theorem pollWritePcb_formed
    (log : SendLog)
    (buf : Bytes)
    (stream : TcpStream)
    (pcb : TcpPcb)
    (kept : AllFormed pcb) :
    wp (pollWritePcb buf stream pcb)
      (fun result later =>
        Alike stream result.2.1 ∧
          SendRules.Kept false (fun _ => True) AllFormed pcb world
            result.2.2 later)
      (fun _ => True) world := by
  refine pollWritePcb_kept (fun _ : SendLog => formedRules) log buf stream pcb
    world kept
    (fun _ _ => ⟨fun _ kept => kept, fun _ always => always⟩)
    fun toWrite size positive => ?_
  have length : (buf.take toWrite).length = toWrite := by
    rw [List.length_take, size]
    omega
  refine wp_weaken
    (wp_and (tcpWrite_frame pcb _ false)
      (tcpWrite_plan pcb _ false (by omega) (by omega))) ?_
  rintro ⟨err, after⟩ later ⟨⟨emits, frame, refused, -⟩, unfit, planned⟩
  refine ⟨emits, frame, fun bad => ?_, fun ok => ?_⟩
  · exact kept.congr (kept.queued.of_queue (refused bad).queue) frame.mss
      frame.state
  · have accepts :
        Accepts pcb (buf.take toWrite).length world.allocs := by
      by_contra no
      exact unfit no ok
    exact kept.written accepts frame (planned accepts).2

end Write

/-- `AllFormed` as an invariant of the connection. -/
def formedInvariant : ConnInvariant where
  allowed _ := True
  carried _ _ := True
  inv _ := AllFormed
  finOk _ := True
  fireOk _ _ := True
  ackOk _ _ := True
  writeOk _ := True
  rules _ := formedRules
  inputs _ := formedInputs
  dataFaults _ _ := trivial
  opening packet listener iss world := by
    refine ⟨nofun, openingPcb_mss_le packet listener iss world, ?_,
      List.forall_mem_nil _⟩
    intro seg member
    rw [List.mem_singleton.mp member]
    exact ⟨nofun, rfl, Nat.succ_pos _, rfl⟩
  grows _ _ _ _ := trivial
  write log buf stream pcb _ kept _ _ :=
    pollWritePcb_formed log buf stream pcb kept

/-- A pcb of a reachable connection has its stream, and formed queues. -/
theorem formed_of_reached
    {conn : Conn}
    {pcb : TcpPcb}
    (reached : connMachine.Reached conn)
    (current : conn.pcb = some pcb) :
    Attached conn.world.pcbAddr pcb conn.world.stream ∧ AllFormed pcb := by
  have keeps : formedInvariant.Keeps conn := by
    refine ConnInvariant.keeps_reached (reached.mono ?_)
    intro before label _ pcb _
    cases label.event with
    | segment packet => exact fun _ _ => trivial
    | slowtmr => exact fun _ _ => trivial
    | fasttmr => exact fun _ _ => trivial
    | handleClosepend => exact fun _ _ => trivial
    | pollShutdown => exact fun _ => trivial
    | _ => exact trivial
  exact keeps.pcb pcb current

end NetstackLwip

import NetstackLwip.QueueRules

namespace NetstackLwip

/-!
# The segments of a connection

Whatever the MSS option and the window of the peer, no segment of a connection
has more than `TCP_MSS` bytes of options and data, and its options are none or
the MSS option alone. However its data was written, joined and cut, it is sent
with the checksum of that data.
-/

open FaultState FaultMachine
open InetChksum (Buf splitHeadChksum chainBytes chainBytes_map)

/-! ## The sender's queues -/

/-- The segment is as long as its data, not above `TCP_MSS`, and keeps the
checksum of that data. -/
structure Sound (seg : TcpSeg) : Prop where
  whole : seg.p.totLen = seg.len
  fits : seg.len + seg.optLength ≤ tcpMss
  chksum : Queued seg.p.data seg.chksum

/-- Every queued segment is sound, and TIME_WAIT has none. -/
structure AllSound (pcb : TcpPcb) : Prop where
  live : pcb.state ≠ .closed
  mss : pcb.mss ≤ tcpMss
  queued : AllQueued (fun seg => pcb.state ≠ .timeWait ∧ Sound seg) pcb

/-- At most one option of four bytes, and with the data no more than
`TCP_MSS`. -/
structure SmallPacket (packet : Packet) : Prop where
  options : packet.options.length = 0 ∨ packet.options.length = 4
  fits : packet.options.length + packet.payload.length ≤ tcpMss

/-- The checksum is taken over the whole packet, or over its header and added
to the one that was kept for its data. -/
def Packet.Summed (packet : Packet) : Prop :=
  packet.chksum = packet.controlChksum ∨
    ∃ chksum,
      Queued packet.payload chksum ∧
        packet.chksum = packet.segmentChksum chksum

/-- What a connection sends. -/
structure SoundPacket (packet : Packet) : Prop
    extends SmallPacket packet where
  summed : packet.Summed

theorem AllSound.congr
    {before after : TcpPcb}
    (kept : AllSound before)
    (queued : AllQueued (fun seg => before.state ≠ .timeWait ∧ Sound seg) after)
    (mss : after.mss = before.mss)
    (state : after.state = before.state) :
    AllSound after where
  live := state ▸ kept.live
  mss := mss ▸ kept.mss
  queued := by
    rw [state]
    exact queued

theorem AllSound.drained
    {pcb : TcpPcb}
    (kept : AllSound pcb) :
    Drained pcb :=
  kept.queued.mono fun _ sound => sound.1

theorem AllSound.sound
    {pcb : TcpPcb}
    (kept : AllSound pcb) :
    AllQueued Sound pcb :=
  kept.queued.mono fun _ sound => sound.2

/-- A segment with no more data, the checksum of it and the same options is
sound too. -/
theorem Sound.resized
    {seg other : TcpSeg}
    (sound : Sound seg)
    (whole : other.p.totLen = other.len)
    (len : other.len ≤ seg.len)
    (optsMss : other.optsMss = seg.optsMss)
    (chksum : Queued other.p.data other.chksum) :
    Sound other where
  whole := whole
  chksum := chksum
  fits := by
    have fits := sound.fits
    unfold TcpSeg.optLength at fits ⊢
    rw [optsMss]
    omega

theorem openSound_closed
    (alive : Prop) :
    SendClosed fun seg => alive ∧ Sound seg where
  ack _ holds :=
    ⟨holds.1,
      holds.2.resized holds.2.whole (Nat.le_refl _) rfl holds.2.chksum⟩
  push _ holds :=
    ⟨holds.1,
      holds.2.resized holds.2.whole (Nat.le_refl _) rfl holds.2.chksum⟩
  same seg other holds same := by
    have data := same.data
    have len := same.len
    have whole := holds.2.whole
    simp only [List.append_nil, List.length_nil, Nat.add_zero] at data len
    refine ⟨holds.1,
      holds.2.resized ?_ (Nat.le_of_eq len) same.optsMss
        (same.chksum holds.2.chksum)⟩
    unfold Pbuf.totLen at whole ⊢
    rw [data, len, whole]

/-- The data of the first segment is found, so its checksum is taken anew. -/
theorem Sound.splitHead_queued
    {useg : TcpSeg}
    {split : Nat}
    (sound : Sound useg)
    (positive : 0 < split)
    (shorter : split < useg.len) :
    Queued (useg.p.data.take split) (splitHead useg split).chksum := by
  have totLen := splitPbuf_totLen sound.whole shorter
  have data := splitPbuf_data sound.whole shorter
  have found : ∃ after,
      splitHeadChksum ((splitPbuf useg split).map (Buf.mk 0)) 0 =
        some after := by
    cases bufs : splitPbuf useg split with
    | nil =>
        rw [bufs] at totLen
        exact absurd totLen (Nat.ne_of_lt positive)
    | cons buffer rest => exact ⟨_, rfl⟩
  obtain ⟨after, summed⟩ := found
  have chain :
      chainBytes ((splitPbuf useg split).map (Buf.mk 0)) =
        [] ++ useg.p.data.take split := by
    rw [chainBytes_map, data, List.nil_append]
  have head : (splitHead useg split).chksum = after := by
    rw [splitHead, splitChksum, totLen, Nat.sub_self, summed,
      Option.getD_some]
  rw [head]
  exact sound.chksum.trimmed split _ chain summed

/-- Cutting a segment leaves sound pieces. -/
theorem Sound.pieces
    {useg : TcpSeg}
    {split : Nat}
    (sound : Sound useg)
    (positive : 0 < split)
    (shorter : split < useg.len) :
    Sound (splitHead useg split) ∧ Sound (splitTail useg split) := by
  have headChksum := sound.splitHead_queued positive shorter
  rw [← splitPbuf_data sound.whole shorter] at headChksum
  have tailData : (splitTail useg split).p.data = splitData useg split :=
    List.flatten_singleton
  refine ⟨sound.resized (splitPbuf_totLen sound.whole shorter)
    (Nat.le_of_lt shorter) rfl headChksum, sound.resized ?_ ?_ rfl ?_⟩
  · rw [Pbuf.totLen, tailData]
    rfl
  · simp only [splitTail, splitData, List.length_take]
    omega
  · rw [tailData]
    exact .remainder 0 _

theorem soundPacket_of_bare
    {packet : Packet}
    (bare : Bare packet) :
    SoundPacket packet := by
  obtain ⟨payload, _, _, options, chksum⟩ := bare
  refine ⟨⟨.inl ?_, ?_⟩, .inl chksum⟩
  · rw [options]
    rfl
  · rw [options, payload]
    exact Nat.zero_le _

/-- What is sent for a sound segment is sound. -/
theorem soundPacket_of_bareOr
    {remoteIp : IpAddr}
    {alive : Prop}
    {packet : Packet}
    (sent : BareOr remoteIp (fun seg => alive ∧ Sound seg) packet) :
    SoundPacket packet := by
  rcases sent with
    bare | ⟨seg, ⟨_, sound⟩, ⟨_, payload, _, options, chksum⟩, _⟩
  · exact soundPacket_of_bare bare
  · have whole := sound.whole
    have fits := sound.fits
    unfold Pbuf.totLen at whole
    refine ⟨⟨?_, ?_⟩, .inr ⟨seg.chksum, payload ▸ sound.chksum, chksum⟩⟩
    · rw [options, TcpSeg.optLength]
      cases seg.optsMss
      · exact .inl rfl
      · exact .inr rfl
    · rw [options, payload, whole]
      omega

/-! ## The rules -/

theorem soundRules :
    SendRules (fun _ => True) SoundPacket AllSound (MayFin fun _ => True)
      (fun _ _ => True) where
  faults _ _ _ _ _ := trivial
  bare _ bare := soundPacket_of_bare bare
  live _ kept := kept.live
  waiting _ kept := kept.drained.empty
  view before after same kept :=
    kept.congr (kept.queued.of_queue same.queue)
      (congrArg SndVars.mss same.snd) same.state
  finView _ _ same may := ⟨trivial, same.state ▸ may.2⟩
  fireView _ _ _ _ := trivial
  output pcb world kept := by
    refine wp_weaken
      (tcpOutput_spec (openSound_closed _) (fun _ _ => trivial) false pcb
        kept.queued) ?_
    rintro ⟨err, after⟩ later ⟨frame, queued, _, emits⟩
    exact ⟨frame,
      kept.congr queued (congrArg SndVars.mss frame.snd) frame.state,
      fun may => ⟨trivial, frame.state ▸ may.2⟩,
      emits.mono fun _ => soundPacket_of_bareOr⟩
  fin pcb next world kept mayFin shuts := by
    refine wp_weaken (tcpSendFin_queued (fun _ _ => trivial) pcb) ?_
    rintro ⟨err, after⟩ later ⟨frame, refused, queued, emits⟩
    refine ⟨frame, fun ok => ⟨shuts.ne_closed, frame.mss ▸ kept.mss, ?_⟩,
      fun bad => ?_, emits.mono fun _ => soundPacket_of_bare⟩
    · have all : AllQueued Sound after :=
        (queued ok).all kept.sound ⟨rfl, Nat.zero_le _, .created⟩
          fun last isLast _ _ => by
            have sound := kept.sound.1 last (List.mem_of_getLast? isLast)
            exact sound.resized sound.whole (Nat.le_refl _) rfl sound.chksum
      exact all.mono fun _ sound => ⟨shuts.ne_timeWait, sound⟩
    · exact kept.congr (kept.queued.of_queue (refused bad).queue) frame.mss
        frame.state
  fires pcb world kept notTimeWait running _ := by
    refine wp_weaken
      (persistFires_spec SoundPacket (openSound_closed _) (fun _ _ => trivial)
        (fun _ _ _ => trivial) pcb (fun _ => soundPacket_of_bareOr) kept.queued
        (fun seg rest other _ => ?_) (fun _ _ _ _ => .inr trivial)
        fun useg rest queue positive longer => ?_) ?_
    · refine ⟨⟨.inl rfl, ?_⟩,
        .inl (Packet.controlChksum_with _ _).symm⟩
      have one : 1 ≤ tcpMss := by decide
      unfold Packet.summed probePacket controlPacket
      dsimp only
      split
      · exact Nat.zero_le _
      · simp only [List.length_nil, List.length_take]
        omega
    · obtain ⟨live, sound⟩ :=
        kept.queued.1 useg (by rw [queue]; exact List.mem_cons_self)
      obtain ⟨head, tail⟩ := sound.pieces positive longer
      exact ⟨⟨live, head⟩, ⟨live, tail⟩⟩
    · rintro after later ⟨fired, queued, _, emits⟩
      exact ⟨fired.frame, kept.congr queued fired.mss fired.state, emits⟩
  rto pcb kept _ := by
    obtain ⟨snd, _, state⟩ := tcpRexmitRtoPrepare_same pcb
    exact kept.congr kept.queued.rto (congrArg SndVars.mss snd) state
  persist _ _ _ _ := ⟨.inr trivial, .inr trivial⟩

theorem soundInputs :
    InputRules AllSound (fun _ _ => True) where
  noted packet before after kept _ noted state := by
    refine ⟨state ▸ kept.live, ?_, ?_⟩
    · rw [noted.snd]
      exact tcpParseoptFrom_le _ _ _ _ kept.mss
    · rw [state]
      exact kept.queued.of_queue noted.queue
  handshakeRexmit pcb kept _ := by
    obtain ⟨frame, queues⟩ := tcpRexmit_frame pcb
    exact kept.congr (kept.queued.requeued queues) frame.mss frame.state
  acked packet before middle after kept _ noted _ established judged _
      queues := by
    have state : after.state = middle.state := judged.state
    have all : AllQueued Sound after :=
      (kept.sound.of_queue noted.queue).acked queues
    have drained : AllQueued (fun _ => before.state ≠ .timeWait) after :=
      (kept.drained.of_queue noted.queue).acked queues
    refine ⟨?_, ?_, ?_⟩
    · intro closed
      rw [← state, closed] at established
      exact absurd established (by decide)
    · have mss : after.mss = middle.mss := judged.mss
      rw [mss, noted.snd]
      exact tcpParseoptFrom_le _ _ _ _ kept.mss
    · refine (drained.and all).mono fun seg both => ⟨?_, both.2⟩
      rw [state]
      rcases noted.state with same | ⟨_, moved⟩
      · rw [same]
        exact both.1
      · rw [moved]
        exact nofun
  moved pcb fin state kept moves _ notTimeWait :=
    ⟨moves.ne_closed kept.live, kept.mss,
      kept.sound.mono fun _ sound => ⟨notTimeWait, sound⟩⟩
  timeWait pcb kept :=
    ⟨nofun, (enterTimeWait_mss pcb).symm ▸ kept.mss,
      kept.drained.enterTimeWait kept.live _⟩

/-- `tcp_write` cuts its segments to the MSS in force. -/
theorem pollWritePcb_sound
    (log : SendLog)
    (buf : Bytes)
    (stream : TcpStream)
    (pcb : TcpPcb)
    (world : World)
    (kept : AllSound pcb) :
    wp (pollWritePcb buf stream pcb)
      (fun result later =>
        Alike stream result.2.1 ∧
          SendRules.Kept false SoundPacket AllSound pcb world result.2.2 later)
      (fun _ => True) world := by
  have bound := mssLocal_le_mss pcb
  have mss := kept.mss
  refine pollWritePcb_kept (fun _ : SendLog => soundRules) log buf stream pcb
    world kept
    (fun _ _ => ⟨fun _ kept => kept, fun _ fits => fits⟩) fun toWrite _ _ => ?_
  refine wp_weaken
    (tcpWrite_spec (openSound_closed (pcb.state ≠ .timeWait))
      (fun _ _ _ => trivial) pcb _ false (fun _ _ => .inr trivial) ?_) ?_
  · intro writable
    have notTimeWait := writable.ne_timeWait
    refine ⟨kept.queued.1, ?_, ?_⟩
    · intro last count seg isLast _ inside room _ extended
      have sound := kept.sound.1 last (List.mem_of_getLast? isLast)
      have whole := sound.whole
      have data := extended.data
      have len := extended.len
      refine ⟨notTimeWait, ?_, ?_, extended.chksum sound.chksum⟩
      · unfold Pbuf.totLen at whole ⊢
        rw [data, len, List.length_append, whole]
      · unfold TcpSeg.optLength at *
        rw [len, extended.optsMss, List.length_take]
        omega
    · intro pos len free inside within
      have chunk (seqno : SeqNo) (bytes : Bytes) (room : Nat) :
          (freshSeg seqno bytes room).p.data = bytes :=
        List.flatten_singleton
      refine ⟨notTimeWait, ?_, ?_, ?_⟩
      · rw [Pbuf.totLen, chunk]
        rfl
      · simp only [freshSeg, TcpSeg.optLength, List.length_take,
          List.length_drop]
        simp
        omega
      · rw [chunk]
        exact .written 0 _
  · rintro ⟨err, after⟩ later ⟨emits, frame, refused, done⟩
    refine ⟨emits, frame, fun bad =>
      kept.congr (kept.queued.of_queue (refused bad).queue) frame.mss
        frame.state,
      fun ok => kept.congr ⟨(done ok).unsent, ?_⟩ frame.mss frame.state⟩
    rw [frame.unacked]
    exact kept.queued.2

/-- `AllSound` as an invariant of the connection. -/
def soundInvariant : ConnInvariant where
  allowed _ := True
  carried _ := SoundPacket
  inv _ := AllSound
  finOk _ := True
  fireOk _ _ := True
  ackOk _ _ := True
  writeOk _ := True
  rules _ := soundRules
  inputs _ := soundInputs
  dataFaults _ _ := trivial
  opening packet listener iss world := by
    refine ⟨nofun, openingPcb_mss_le packet listener iss world, ?_,
      List.forall_mem_nil _⟩
    intro seg member
    rw [List.mem_singleton.mp member]
    exact ⟨nofun, rfl, show (0 + 4 : Nat) ≤ tcpMss by decide, .created⟩
  grows _ _ _ sound := sound
  write log buf stream pcb world kept _ _ :=
    pollWritePcb_sound log buf stream pcb world kept

/-- All that a connection sends is sound. -/
theorem sound_of_reached
    {conn : Conn}
    (reached : connMachine.Reached conn) :
    ∀ packet ∈ conn.world.sent, SoundPacket packet := by
  have keeps : soundInvariant.Keeps conn := by
    refine ConnInvariant.keeps_reached (reached.mono ?_)
    intro before label _ pcb _
    cases label.event with
    | segment packet => exact fun _ _ => trivial
    | slowtmr => exact fun _ _ => trivial
    | fasttmr => exact fun _ _ => trivial
    | handleClosepend => exact fun _ _ => trivial
    | pollShutdown => exact fun _ => trivial
    | _ => exact trivial
  exact keeps.sent

end NetstackLwip

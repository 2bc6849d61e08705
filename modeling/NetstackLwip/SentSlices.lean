import NetstackLwip.FormedQueues
import NetstackLwip.HalfClose

namespace NetstackLwip

/-!
# The bytes that are queued

Every queued segment holds the bytes that were written, at the place its
sequence number says, and a FIN only where they end. Sending, acknowledging,
retransmitting, cutting and probing keep that; a write does if the last unsent
segment, when it is filled up, is also the last of the stream.
-/

open FaultState FaultMachine SerialNumber

/-! ## Slices of what was written -/

/-- The stream is no longer known: a write failed after its data was queued. -/
def SendLog.Lost (log : SendLog) : Prop :=
  log.outputFailed = true

/-- `data` is what was written from `position` on. -/
structure SendLog.Placed
    (log : SendLog)
    (position : Nat)
    (seqno : SeqNo)
    (data : Bytes) : Prop where
  seqno : seqno = place (log.iss + 1) position
  inside : position + data.length ≤ log.written.length
  data : data = (log.written.drop position).take data.length

namespace SendLog.Placed

variable
  {log : SendLog}
  {position : Nat}
  {seqno : SeqNo}
  {data : Bytes}

theorem take
    (placed : log.Placed position seqno data)
    (size : Nat) :
    log.Placed position seqno (data.take size) where
  seqno := placed.seqno
  inside := by
    have inside := placed.inside
    have short := List.length_take_le' size data
    omega
  data := by
    conv => lhs; rw [placed.data]
    rw [List.take_take, List.length_take]

theorem drop
    (placed : log.Placed position seqno data)
    {size : Nat}
    (within : size ≤ data.length) :
    log.Placed (position + size) (place seqno size) (data.drop size) where
  seqno := by
    rw [placed.seqno, place_place]
  inside := by
    have inside := placed.inside
    rw [List.length_drop]
    omega
  data := by
    conv => lhs; rw [placed.data]
    rw [List.drop_take, List.drop_drop, List.length_drop]

/-- What is written later stands behind. -/
theorem grow
    {other : SendLog}
    (placed : log.Placed position seqno data)
    (iss : other.iss = log.iss)
    (more : Bytes)
    (written : other.written = log.written ++ more) :
    other.Placed position seqno data where
  seqno := by
    rw [iss]
    exact placed.seqno
  inside := by
    have inside := placed.inside
    rw [written, List.length_append]
    omega
  data := by
    have inside := placed.inside
    rw [written, List.drop_append_of_le_length (by omega),
      List.take_append_of_le_length (by rw [List.length_drop]; omega)]
    exact placed.data

/-- Data at the end of the stream goes on with what is written next. -/
theorem extend
    {other : SendLog}
    (placed : log.Placed position seqno data)
    (last : position + data.length = log.written.length)
    (iss : other.iss = log.iss)
    (more : Bytes)
    (written : other.written = log.written ++ more) :
    other.Placed position seqno (data ++ more) where
  seqno := by
    rw [iss]
    exact placed.seqno
  inside := by
    rw [written, List.length_append, List.length_append]
    omega
  data := by
    have whole : data = log.written.drop position := by
      conv => lhs; rw [placed.data]
      apply List.take_of_length_le
      rw [List.length_drop]
      omega
    rw [written, List.drop_append_of_le_length (by omega), ← whole]
    exact List.take_length.symm

end SendLog.Placed

/-- What was written last stands at the end. -/
theorem SendLog.placed_last
    (log : SendLog)
    {start more : Bytes}
    (written : log.written = start ++ more) :
    log.Placed start.length (place (log.iss + 1) start.length) more where
  seqno := rfl
  inside := by
    rw [written, List.length_append]
  data := by
    rw [written, List.drop_left, List.take_length]

/-- As long as the stream is known, data stands in it at the place that `seqno`
says, and a FIN only where it ends. -/
def SendLog.Holds
    (log : SendLog)
    (seqno : SeqNo)
    (data : Bytes)
    (fin : Bool) : Prop :=
  ¬log.Lost →
    data ≠ [] ∨ fin = true →
      ∃ position,
        log.Placed position seqno data ∧
          (fin = true → position + data.length = log.written.length)

theorem SendLog.holds_empty
    (log : SendLog)
    (seqno : SeqNo) :
    log.Holds seqno [] false := by
  rintro - (nonempty | fin)
  · exact absurd rfl nonempty
  · cases fin

/-- The front of what stands in the stream. -/
theorem SendLog.Holds.take
    {log : SendLog}
    {seqno : SeqNo}
    {data : Bytes}
    {fin : Bool}
    (holds : log.Holds seqno data fin)
    (size : Nat) :
    log.Holds seqno (data.take size) false := by
  rintro known (nonempty | fin)
  · have whole : data ≠ [] := by
      rintro rfl
      exact nonempty List.take_nil
    obtain ⟨position, placed, -⟩ := holds known (.inl whole)
    exact ⟨position, placed.take size, nofun⟩
  · cases fin

/-- The packet carries what was written, at its place; `shut` says that it may
be a FIN. -/
structure SendLog.Sends
    (log : SendLog)
    (shut : Prop)
    (packet : Packet) : Prop where
  shut : packet.flags.fin = true → shut
  holds : log.Holds packet.seqno packet.payload packet.flags.fin

/-- The segment holds what was written, at its place, and a FIN is queued only
once no more is taken. -/
structure OnStream
    (log : SendLog)
    (shut : Prop)
    (state : TcpState)
    (seg : TcpSeg) : Prop where
  closing : seg.hdr.fin = true → ¬state.Writable ∧ shut
  holds : log.Holds seg.seqno seg.p.data seg.hdr.fin

theorem onStream_closed
    (log : SendLog)
    (shut : Prop)
    (state : TcpState) :
    SendClosed (OnStream log shut state) where
  ack _ onStream := ⟨onStream.closing, onStream.holds⟩
  push _ onStream := ⟨onStream.closing, onStream.holds⟩
  same seg other onStream same := by
    have data := same.data
    rw [List.append_nil] at data
    refine ⟨?_, ?_⟩
    · rw [same.hdr]
      exact onStream.closing
    · rw [same.seqno, data, same.hdr]
      exact onStream.holds

namespace OnStream

variable
  {log : SendLog}
  {shut : Prop}
  {state : TcpState}
  {seg : TcpSeg}

theorem plain
    (onStream : OnStream log shut state seg)
    (writable : state.Writable) :
    seg.hdr.fin = false :=
  Bool.eq_false_iff.mpr fun fin => (onStream.closing fin).1 writable

theorem sends
    {packet : Packet}
    (onStream : OnStream log shut state seg)
    (carries : Carries seg packet) :
    log.Sends shut packet := by
  obtain ⟨seqno, payload, flags, -⟩ := carries
  refine ⟨?_, ?_⟩
  · rw [flags]
    exact fun fin => (onStream.closing fin).2
  · rw [seqno, payload, flags]
    exact onStream.holds

/-- Both pieces of a segment without FIN, cut where `tcp_split_unsent_seg` cuts
it. -/
theorem pieces
    {split : Nat}
    (onStream : OnStream log shut state seg)
    (formed : Formed seg)
    (plain : seg.hdr.fin = false)
    (shorter : split < seg.len) :
    OnStream log shut state (splitHead seg split) ∧
      OnStream log shut state (splitTail seg split) := by
  have whole := formed.whole
  have length : seg.p.data.length = seg.len := whole
  have headData : (splitHead seg split).p.data = seg.p.data.take split :=
    splitPbuf_data whole shorter
  have headFin : (splitHead seg split).hdr.fin = false := by
    simp [splitHead, HdrFlags.set, plain]
  have tailData : (splitTail seg split).p.data = seg.p.data.drop split := by
    have data : (splitTail seg split).p.data = splitData seg split := by
      simp [splitTail, Pbuf.data]
    rw [data, splitData, whole, Nat.sub_self, Nat.zero_add]
    apply List.take_of_length_le
    rw [List.length_drop, length]
  have tailFin : (splitTail seg split).hdr.fin = false := plain
  refine ⟨⟨?_, ?_⟩, ⟨?_, ?_⟩⟩
  · rw [headFin]
    exact fun fin => absurd fin Bool.false_ne_true
  · rw [headData, headFin]
    exact onStream.holds.take split
  · rw [tailFin]
    exact fun fin => absurd fin Bool.false_ne_true
  · rw [tailData, tailFin]
    intro known _
    have nonempty : seg.p.data ≠ [] := by
      intro empty
      rw [empty] at length
      exact absurd length.symm (by
        have positive : 0 < seg.len := Nat.zero_lt_of_lt shorter
        exact Nat.ne_of_gt positive)
    obtain ⟨position, placed, -⟩ := onStream.holds known (.inl nonempty)
    exact ⟨position + split, placed.drop (by omega),
      fun fin => absurd fin Bool.false_ne_true⟩

/-- The zero-window probe. -/
theorem probe
    (onStream : OnStream log shut state seg)
    (formed : Formed seg)
    (pcb : TcpPcb) :
    log.Sends shut (probePacket pcb seg).summed := by
  have whole := formed.whole
  have length : seg.p.data.length = seg.len := whole
  unfold Packet.summed probePacket
  cases isFin : probeIsFin seg with
  | true =>
      have both : seg.hdr.fin = true ∧ seg.len = 0 := by
        simpa [probeIsFin] using isFin
      have empty : seg.p.data = [] :=
        List.eq_nil_of_length_eq_zero (length.trans both.2)
      have holds := onStream.holds
      rw [empty, both.1] at holds
      exact ⟨fun _ => (onStream.closing both.1).2, holds⟩
  | false =>
      have front := onStream.holds.take 1
      exact ⟨nofun, by simpa [whole, controlPacket] using front⟩

end OnStream

/-! ## The invariant -/

/-- All that is queued stands in the stream, and the next byte to be queued
follows it. -/
structure QueuedStream
    (log : SendLog)
    (shut : Prop)
    (pcb : TcpPcb) : Prop where
  formed : AllFormed pcb
  queued : AllQueued (OnStream log shut pcb.state) pcb
  last :
    ¬log.Lost →
      pcb.state.Writable →
        pcb.sndLbb = place (log.iss + 1) log.written.length

theorem QueuedStream.congr
    {log : SendLog}
    {shut : Prop}
    {before after : TcpPcb}
    (kept : QueuedStream log shut before)
    (formed : AllFormed after)
    (queued : AllQueued (OnStream log shut before.state) after)
    (sndLbb : after.sndLbb = before.sndLbb)
    (state : after.state = before.state) :
    QueuedStream log shut after where
  formed := formed
  queued := by
    rw [state]
    exact queued
  last known writable := by
    rw [sndLbb]
    exact kept.last known (state ▸ writable)

/-- The segment is the last of the stream: it holds the bytes that were
accepted last, and the next byte follows it. -/
structure LastOfStream
    (log : SendLog)
    (pcb : TcpPcb)
    (seg : TcpSeg) : Prop where
  data : seg.p.data <:+ log.written
  ends : place seg.seqno seg.len = pcb.sndLbb

/-- A FIN may be queued, and the segment that it is set on, if any, is the last
of the stream. -/
def ShutsAtEnd (log : SendLog) (shut : Prop) (pcb : TcpPcb) : Prop :=
  pcb.state.Writable →
    shut ∧
      ∀ last,
        pcb.unsent.getLast? = some last →
          last.hdr.fin = false →
            last.hdr.syn = false → LastOfStream log pcb last

/-- The segment that a write fills up, if any, is the last of the stream. -/
def WritesAtEnd
    (log : SendLog)
    (pcb : TcpPcb)
    (size : Nat)
    (allocs : List Bool) : Prop :=
  Accepts pcb size allocs →
    0 < (tailPlan pcb size).bytes →
      ∀ last,
        pcb.unsent.getLast? = some last → LastOfStream log pcb last

/-- The persist timer does not cut a segment that has the FIN. -/
def CutsNoFin (pcb : TcpPcb) (_outputs : List Err) : Prop :=
  0 < pcb.sndWnd →
    ∀ useg,
      pcb.unsent.head? = some useg →
        useg.hdr.fin = true → useg.len ≤ pcb.sndWnd

instance (pcb : TcpPcb) (outputs : List Err) :
    Decidable (CutsNoFin pcb outputs) :=
  inferInstanceAs
    (Decidable (0 < pcb.sndWnd → ∀ useg ∈ pcb.unsent.head?, _ → _))

/-- Where `tcp_output` stops, the last unsent segment is the one from
before. -/
theorem OutputMoves.last
    {unacked unsent unacked' unsent' : List TcpSeg}
    (moves : OutputMoves unacked unsent unacked' unsent')
    {last : TcpSeg}
    (isLast : unsent'.getLast? = some last) :
    ∃ before,
      unsent.getLast? = some before ∧ last.plain = before.plain := by
  induction moves with
  | stop unacked unsent =>
      exact ⟨last, isLast, rfl⟩
  | failed unacked seg rest =>
      cases rest with
      | nil =>
          cases isLast
          exact ⟨seg, rfl, rfl⟩
      | cons next rest =>
          exact ⟨last, isLast, rfl⟩
  | @sent unacked rest unacked' unsent' seg moves inductionHypothesis =>
      obtain ⟨before, found, plain⟩ := inductionHypothesis isLast
      refine ⟨before, ?_, plain⟩
      rw [List.getLast?_cons, found]
      rfl

theorem Shuts.writable
    {before after : TcpState}
    (shuts : Shuts before after) :
    before.Writable := by
  cases shuts <;> simp [TcpState.Writable]

/-- The place of the last segment of the stream. -/
theorem LastOfStream.placed
    {log : SendLog}
    {pcb : TcpPcb}
    {seg : TcpSeg}
    (last : LastOfStream log pcb seg)
    (formed : Formed seg)
    (sndLbb : pcb.sndLbb = place (log.iss + 1) log.written.length) :
    ∃ position,
      log.Placed position seg.seqno seg.p.data ∧
        position + seg.p.data.length = log.written.length := by
  have length : seg.p.data.length = seg.len := formed.whole
  have data := List.suffix_iff_eq_drop.mp last.data
  have inside := last.data.length_le
  have ends := last.ends
  refine ⟨log.written.length - seg.p.data.length, ⟨?_, by omega, ?_⟩, by omega⟩
  · rw [sndLbb, ← length] at ends
    rw [← place_sub_ofNat _ inside, ← ends, place, BitVec.add_sub_cancel]
  · rw [← data, List.take_length]

theorem LastOfStream.congr
    {log : SendLog}
    {before after : TcpPcb}
    {seg other : TcpSeg}
    (last : LastOfStream log before seg)
    (plain : other.plain = seg.plain)
    (sndLbb : after.sndLbb = before.sndLbb) :
    LastOfStream log after other := by
  have seqno : other.plain.seqno = seg.plain.seqno := by rw [plain]
  have len : other.plain.len = seg.plain.len := by rw [plain]
  have p : other.plain.p = seg.plain.p := by rw [plain]
  dsimp only [TcpSeg.plain] at seqno len p
  refine ⟨?_, ?_⟩
  · rw [p]
    exact last.data
  · rw [seqno, len, sndLbb]
    exact last.ends

/-! ## The rules -/

theorem ShutsAtEnd.output
    {log : SendLog}
    {shut : Prop}
    {before after : TcpPcb}
    (may : ShutsAtEnd log shut before)
    (moves :
      OutputMoves before.unacked before.unsent after.unacked after.unsent)
    (sndLbb : after.sndLbb = before.sndLbb)
    (state : after.state = before.state) :
    ShutsAtEnd log shut after := by
  intro writable
  obtain ⟨shut, ends⟩ := may (state ▸ writable)
  refine ⟨shut, fun last isLast fin syn => ?_⟩
  obtain ⟨first, found, plain⟩ := moves.last isLast
  have sameFin : last.plain.hdr.fin = first.plain.hdr.fin := by rw [plain]
  have sameSyn : last.plain.hdr.syn = first.plain.hdr.syn := by rw [plain]
  dsimp only [TcpSeg.plain] at sameFin sameSyn
  exact (ends first found (sameFin ▸ fin) (sameSyn ▸ syn)).congr plain sndLbb

theorem SendLog.sends_of_bare
    {log : SendLog}
    {shut : Prop}
    {packet : Packet}
    (bare : Bare packet) :
    log.Sends shut packet := by
  obtain ⟨payload, fin, -, -⟩ := bare
  refine ⟨?_, ?_⟩
  · rw [fin]
    exact nofun
  · rw [payload, fin]
    exact log.holds_empty _

/-- What is emitted stands in the stream. -/
theorem SendLog.sends_of_bareOr
    {log : SendLog}
    {shut : Prop}
    {state : TcpState}
    {remoteIp : IpAddr}
    {packet : Packet}
    (emitted : BareOr remoteIp (OnStream log shut state) packet) :
    log.Sends shut packet := by
  rcases emitted with bare | ⟨seg, onStream, carries, -⟩
  · exact SendLog.sends_of_bare bare
  · exact onStream.sends carries

/-- The FIN goes where the stream ends. -/
theorem QueuedStream.shut
    {log : SendLog}
    {shut : Prop}
    {before after : TcpPcb}
    {next : TcpState}
    (kept : QueuedStream log shut before)
    (may : ShutsAtEnd log shut before)
    (shuts : Shuts before.state next)
    (queued : FinQueued before after) :
    AllQueued (OnStream log shut next) after := by
  have writable := shuts.writable
  obtain ⟨may, ends⟩ := may writable
  have refuses : ¬next.Writable := shuts.not_writable
  have moved : AllQueued (OnStream log shut next) before :=
    kept.queued.mono fun _ onStream =>
      ⟨fun _ => ⟨refuses, may⟩, onStream.holds⟩
  refine queued.all moved ⟨fun _ => ⟨refuses, may⟩, ?_⟩ ?_
  · intro known _
    refine ⟨log.written.length, ?_, fun _ => rfl⟩
    refine ⟨kept.last known writable, Nat.le_refl _, rfl⟩
  · intro last isLast fin syn
    have member : last ∈ before.unsent := List.mem_of_getLast? isLast
    refine ⟨fun _ => ⟨refuses, may⟩, fun known _ => ?_⟩
    obtain ⟨position, placed, ending⟩ :=
      (ends last isLast fin syn).placed (kept.formed.formed.1 last member)
        (kept.last known writable)
    exact ⟨position, placed, fun _ => ending⟩

theorem streamRules
    (log : SendLog)
    (shut : Prop) :
    SendRules (fun _ => True) (log.Sends shut) (QueuedStream log shut)
      (MayFin (ShutsAtEnd log shut)) CutsNoFin where
  faults _ _ _ _ _ := trivial
  bare _ := SendLog.sends_of_bare
  live _ kept := kept.formed.live
  waiting pcb kept := formedRules.waiting pcb kept.formed
  view before after same kept :=
    kept.congr (formedRules.view before after same kept.formed)
      (kept.queued.of_queue same.queue) (congrArg SndVars.sndLbb same.snd)
      same.state
  finView before after same may := by
    refine ⟨fun writable => ?_, same.state ▸ may.2⟩
    obtain ⟨shut, ends⟩ := may.1 (same.state ▸ writable)
    refine ⟨shut, fun last isLast fin syn => ?_⟩
    rw [same.queue] at isLast
    exact (ends last isLast fin syn).congr rfl
      (congrArg SndVars.sndLbb same.snd)
  fireView _ _ _ cuts := cuts
  output pcb world kept := by
    refine wp_weaken
      (wp_and (formedRules.output pcb world kept.formed)
        (wp_and (tcpOutput_moves (fun _ _ => trivial) false pcb)
          (tcpOutput_spec (onStream_closed log shut pcb.state)
            (fun _ _ => trivial) false pcb kept.queued))) ?_
    rintro ⟨err, after⟩ later
      ⟨⟨-, formed, -, -⟩, moves, frame, queued, -, emits⟩
    have sndLbb : after.sndLbb = pcb.sndLbb :=
      congrArg SndVars.sndLbb frame.snd
    exact ⟨frame, kept.congr formed queued sndLbb frame.state,
      fun may =>
        ⟨may.1.output moves sndLbb frame.state, frame.state ▸ may.2⟩,
      emits.mono fun _ => SendLog.sends_of_bareOr⟩
  fin pcb next world kept may shuts := by
    refine wp_weaken
      (wp_and
        (formedRules.fin pcb next world kept.formed ⟨trivial, may.2⟩ shuts)
        (tcpSendFin_queued (fun _ _ => trivial) pcb)) ?_
    rintro ⟨err, after⟩ later
      ⟨⟨-, formed, formedBad, -⟩, frame, refused, queued, emits⟩
    refine ⟨frame, fun ok => ⟨formed ok, ?_, ?_⟩, fun bad => ?_,
      emits.mono fun _ => SendLog.sends_of_bare⟩
    · have closed := kept.shut may.1 shuts (queued ok)
      exact closed
    · exact fun _ writable => absurd writable shuts.not_writable
    · refine kept.congr (formedBad bad)
        (kept.queued.of_queue (refused bad).queue) ?_ frame.state
      rcases refused bad with same | same <;> rw [same]
  fires pcb world kept notTimeWait running cuts := by
    refine wp_weaken
      (wp_and
        (formedRules.fires pcb world kept.formed notTimeWait running trivial)
        (persistFires_spec (log.Sends shut) (onStream_closed log shut pcb.state)
          (fun _ _ => trivial) (fun _ _ _ => trivial) pcb
          (fun _ => SendLog.sends_of_bareOr) kept.queued
          (fun seg rest other queue => ?_) (fun _ _ _ _ => .inr trivial)
          fun useg rest queue positive longer => ?_)) ?_
    · have member : seg ∈ pcb.unsent := by
        rw [queue]
        exact List.mem_cons_self
      exact (kept.queued.1 seg member).probe
        (kept.formed.formed.1 seg member) other
    · have member : useg ∈ pcb.unsent := by
        rw [queue]
        exact List.mem_cons_self
      refine (kept.queued.1 useg member).pieces
        (kept.formed.formed.1 useg member) ?_ longer
      by_cases fin : useg.hdr.fin = true
      · have within := cuts positive useg (by rw [queue]; rfl) fin
        exact absurd longer (Nat.not_lt.mpr within)
      · exact Bool.eq_false_iff.mpr fin
    · rintro after later ⟨⟨-, formed, -⟩, fired, queued, -, emits⟩
      exact ⟨fired.frame, kept.congr formed queued fired.sndLbb fired.state,
        emits⟩
  rto pcb kept idle := by
    obtain ⟨snd, _, state⟩ := tcpRexmitRtoPrepare_same pcb
    exact kept.congr (formedRules.rto pcb kept.formed idle) kept.queued.rto
      (congrArg SndVars.sndLbb snd) state
  persist _ _ _ _ := ⟨.inr trivial, .inr trivial⟩

theorem streamInputs
    (log : SendLog)
    (shut : Prop) :
    InputRules (QueuedStream log shut) (fun _ _ => True) where
  noted packet before after kept waits noted state := by
    refine kept.congr
      (formedInputs.noted packet before after kept.formed waits noted state)
      (kept.queued.of_queue noted.queue) ?_ state
    rw [noted.snd]
  handshakeRexmit pcb kept waits := by
    obtain ⟨frame, queues⟩ := tcpRexmit_frame pcb
    exact kept.congr (formedInputs.handshakeRexmit pcb kept.formed waits)
      (kept.queued.requeued queues) frame.sndLbb frame.state
  acked packet before middle after kept ok noted acks established judged wnd
      queues := by
    have formed :=
      formedInputs.acked packet before middle after kept.formed ok noted acks
        established judged wnd queues
    have all : AllQueued (OnStream log shut before.state) after :=
      (kept.queued.of_queue noted.queue).acked queues
    have state : after.state = middle.state := judged.state
    have sndLbb : after.sndLbb = before.sndLbb := by
      have judgedLbb : after.sndLbb = middle.sndLbb := judged.sndLbb
      rw [judgedLbb, noted.snd]
    rcases noted.state with same | ⟨waits, moved⟩
    · exact kept.congr formed all sndLbb (state.trans same)
    · -- A completed handshake leaves the pcb as writable as it was.
      have wasWritable : before.state.Writable := .inr (.inr waits)
      refine ⟨formed, all.mono fun seg onStream => ⟨fun fin => ?_,
        onStream.holds⟩, fun known _ => ?_⟩
      · exact absurd wasWritable (onStream.closing fin).1
      · rw [sndLbb]
        exact kept.last known wasWritable
  moved pcb fin state kept moves synchronized stillOpen := by
    refine ⟨formedInputs.moved pcb fin state kept.formed moves synchronized
      stillOpen, ?_, fun known writable => ?_⟩
    · exact kept.queued.mono fun seg onStream =>
        ⟨fun fin =>
            ⟨moves.not_writable (onStream.closing fin).1,
              (onStream.closing fin).2⟩,
          onStream.holds⟩
    · refine kept.last known ?_
      by_cases wasWritable : pcb.state.Writable
      · exact wasWritable
      · exact absurd writable (moves.not_writable wasWritable)
  timeWait pcb kept := by
    refine ⟨formedInputs.timeWait pcb kept.formed, ?_, ?_⟩
    · exact kept.formed.drained.enterTimeWait kept.formed.live _
    · rintro - (state | state | state) <;> cases state

/-! ## A write -/

theorem onStream_plain
    {log : SendLog}
    {shut : Prop}
    {state : TcpState}
    {seg : TcpSeg} :
    OnStream log shut state seg.plain ↔ OnStream log shut state seg :=
  ⟨fun onStream => ⟨onStream.closing, onStream.holds⟩,
    fun onStream => ⟨onStream.closing, onStream.holds⟩⟩

/-- Chunks of data that stands in the stream stand in it. -/
theorem onStream_chunkSegs
    {log : SendLog}
    (shut : Prop)
    (state : TcpState)
    (mss count : Nat)
    (seqno : SeqNo)
    (data : Bytes)
    (holds : log.Holds seqno data false) :
    ∀ seg ∈ chunkSegs mss count seqno data,
      OnStream log shut state seg := by
  induction count generalizing seqno data with
  | zero =>
      exact List.forall_mem_nil _
  | succ count inductionHypothesis =>
      rw [chunkSegs, List.forall_mem_cons]
      refine ⟨⟨fun fin => absurd fin Bool.false_ne_true, ?_⟩,
        inductionHypothesis _ _ ?_⟩
      · have first : (freshSeg seqno (data.take mss) 0).p.data =
            data.take mss := by
          simp [freshSeg, Pbuf.data]
        rw [first]
        exact holds.take mss
      · rintro known (nonempty | fin)
        · have longer : mss < data.length := by
            have rest := List.length_pos_iff.mpr nonempty
            rw [List.length_drop] at rest
            omega
          have whole : data ≠ [] :=
            List.length_pos_iff.mp (Nat.zero_lt_of_lt longer)
          obtain ⟨position, placed, -⟩ := holds known (.inl whole)
          exact ⟨position + mss, placed.drop (Nat.le_of_lt longer),
            fun fin => absurd fin Bool.false_ne_true⟩
        · cases fin

section Write

variable
  {log other : SendLog}
  {shut : Prop}
  {pcb after : TcpPcb}
  {arg : Bytes}
  {world later : World}

/-- The log has grown by what was written. -/
structure Grown (log : SendLog) (arg : Bytes) (other : SendLog) : Prop where
  iss : other.iss = log.iss
  written : other.written = log.written ++ arg
  known : ¬other.Lost → ¬log.Lost

theorem Grown.ready
    (log : SendLog)
    (buf : Bytes)
    (written : Nat) :
    Grown log (buf.take written)
      (log.record (.write buf (.ready written))) := by
  exact ⟨rfl, rfl, fun known failed => known failed⟩

theorem Grown.onStream
    {state : TcpState}
    {seg : TcpSeg}
    (grown : Grown log arg other)
    (writable : state.Writable)
    (onStream : OnStream log shut state seg) :
    OnStream other shut state seg := by
  have plain := onStream.plain writable
  refine ⟨onStream.closing, fun known taken => ?_⟩
  obtain ⟨position, placed, -⟩ := onStream.holds (grown.known known) taken
  refine ⟨position, placed.grow grown.iss arg grown.written, fun fin => ?_⟩
  rw [plain] at fin
  cases fin

/-- The data that is written stands where the next byte goes. -/
theorem QueuedStream.placed
    (kept : QueuedStream log shut pcb)
    (writable : pcb.state.Writable)
    (grown : Grown log arg other)
    (known : ¬other.Lost) :
    other.Placed log.written.length pcb.sndLbb arg := by
  have placed := other.placed_last grown.written
  rw [grown.iss] at placed
  rw [kept.last (grown.known known) writable]
  exact placed

/-- The last unsent segment, with what a write adds to it. -/
theorem QueuedStream.extendTail
    (kept : QueuedStream log shut pcb)
    (writable : pcb.state.Writable)
    (grown : Grown log arg other)
    {last : TcpSeg}
    (isLast : pcb.unsent.getLast? = some last)
    (atEnd :
      0 < (tailPlan pcb arg.length).bytes → LastOfStream log pcb last) :
    OnStream other shut pcb.state
      (NetstackLwip.extendTail (tailPlan pcb arg.length) arg last) := by
  have member : last ∈ pcb.unsent := List.mem_of_getLast? isLast
  have formed := kept.formed.formed.1 last member
  have before := kept.queued.1 last member
  have stays := grown.onStream writable before
  have plain := before.plain writable
  refine ⟨before.closing, ?_⟩
  rw [data_extendTail]
  rcases Nat.eq_zero_or_pos (tailPlan pcb arg.length).bytes with
    nothing | positive
  · rw [nothing, List.take_zero, List.append_nil]
    exact stays.holds
  intro known _
  obtain ⟨position, placed, ending⟩ :=
    (atEnd positive).placed formed (kept.last (grown.known known) writable)
  have whole := placed.extend ending grown.iss arg grown.written
  have front :=
    whole.take (last.p.data.length + (tailPlan pcb arg.length).bytes)
  rw [List.take_length_add_append] at front
  refine ⟨position, front, fun fin => ?_⟩
  have still : last.hdr.fin = true := fin
  rw [plain] at still
  cases still

/-- What an accepted write queues stands in the stream. -/
theorem QueuedStream.written
    (kept : QueuedStream log shut pcb)
    (atEnd : WritesAtEnd log pcb arg.length world.allocs)
    (grown : Grown log arg other)
    (accepts : Accepts pcb arg.length world.allocs)
    (frame : QueueFrame pcb after)
    (done : WritePlanned pcb arg world after later) :
    QueuedStream other shut after := by
  have writable := accepts.writable
  have planned :
      ∀ seg ∈ plannedUnsent pcb arg, OnStream other shut pcb.state seg := by
    intro seg member
    rcases List.mem_append.mp member with member | member
    · refine forall_mapLast
        (fun seg member => grown.onStream writable (kept.queued.1 seg member))
        (fun last isLast => ?_) seg member
      exact kept.extendTail writable grown isLast fun positive =>
        atEnd accepts positive last isLast
    · refine onStream_chunkSegs shut pcb.state _ _ _ _ ?_ seg member
      intro known _
      have placed := kept.placed writable grown known
      have inside := tailPlan_le pcb arg.length
      exact ⟨_, placed.drop inside, nofun⟩
  refine ⟨kept.formed.written accepts frame done, ?_, fun known _ => ?_⟩
  · rw [frame.state]
    refine ⟨?_, ?_⟩
    · exact forall_plain_congr (fun _ => onStream_plain) done.unsent planned
    · rw [frame.unacked]
      exact fun seg member =>
        grown.onStream writable (kept.queued.2 seg member)
  · rw [done.sndLbb, kept.last (grown.known known) writable, place_place,
      grown.iss, grown.written, List.length_append]

/-- `poll_write` goes on with the stream. -/
theorem pollWritePcb_stream
    (log : SendLog)
    (buf : Bytes)
    (stream : TcpStream)
    (pcb : TcpPcb)
    (kept : QueuedStream log shut pcb)
    (atEnd :
      WritesAtEnd log pcb (min buf.length pcb.sndBuf) world.allocs) :
    wp (pollWritePcb buf stream pcb)
      (fun result later =>
        Alike stream result.2.1 ∧
          SendRules.Kept false ((log.record (.write buf result.1)).Sends shut)
            (QueuedStream (log.record (.write buf result.1)) shut) pcb world
            result.2.2 later)
      (fun _ => True) world := by
  have lost (err : Err) :
      (log.record (.write buf (.outputError err))).Lost := rfl
  refine pollWritePcb_kept (streamRules · shut) log buf stream pcb world kept
    (fun toWrite err => ⟨fun after queued => ?_, fun packet sends =>
      ⟨sends.shut, fun known => absurd (lost err) known⟩⟩)
    fun toWrite size positive => ?_
  · refine ⟨queued.formed, ?_, fun known => absurd (lost err) known⟩
    exact queued.queued.mono fun seg onStream =>
      ⟨onStream.closing, fun known => absurd (lost err) known⟩
  · have length : (buf.take toWrite).length = toWrite := by
      rw [List.length_take, size]
      omega
    have grown := Grown.ready log buf toWrite
    have refusedKept
        {err : Err}
        {after : TcpPcb}
        (frame : QueueFrame pcb after)
        (refused : err ≠ .ok → Refused pcb after)
        (bad : err ≠ .ok) :
        QueuedStream log shut after := by
      have queue := (refused bad).queue
      have formed : AllFormed after :=
        kept.formed.congr (kept.formed.queued.of_queue queue) frame.mss
          frame.state
      refine kept.congr formed (kept.queued.of_queue queue) ?_ frame.state
      rcases refused bad with same | same <;> rw [same]
    refine wp_weaken
      (wp_and (tcpWrite_frame pcb _ false)
        (tcpWrite_plan pcb _ false (by omega) (by omega))) ?_
    rintro ⟨err, after⟩ later ⟨⟨emits, frame, refused, -⟩, unfit, planned⟩
    refine ⟨emits, frame, refusedKept frame refused, fun ok => ?_⟩
    by_cases accepts : Accepts pcb (buf.take toWrite).length world.allocs
    · rw [← size, ← length] at atEnd
      exact kept.written atEnd grown accepts frame (planned accepts).2
    · exact absurd ok (unfit accepts)

end Write

end NetstackLwip

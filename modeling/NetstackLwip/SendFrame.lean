import NetstackLwip.OutputFrame

namespace NetstackLwip

/-!
# What queueing changes

`tcp_write`, `tcp_split_unsent_seg` and `tcp_send_fin` work on the unsent queue
and its counters alone. Their specifications are stated for any property of
segments: what a segment must meet so that the property holds of the queue
afterwards.
-/

open FaultState
open InetChksum (SegChksum tcpDataCopy splitRemainderChksum)

/-! ## The frame -/

/-- What is left alone by everything that only queues. -/
structure QueueFrame (before after : TcpPcb) : Prop where
  endpoint : after.toEndpointVars = before.toEndpointVars
  app : after.toAppVars = before.toAppVars
  rcv : after.toRcvVars = before.toRcvVars
  ann : after.toAnnVars = before.toAnnVars
  snd :
    after.toSndVars =
      { before.toSndVars with
        sndLbb := after.sndLbb
        sndBuf := after.sndBuf
        sndQueuelen := after.sndQueuelen }
  queue :
    after.toQueueVars =
      { before.toQueueVars with
        unsent := after.unsent
        unsentOversize := after.unsentOversize }
  cong : after.toCongVars = before.toCongVars
  persist : after.toPersistVars = before.toPersistVars
  state : after.state = before.state
  prio : after.prio = before.prio
  polltmr : after.polltmr = before.polltmr
  tmr : after.tmr = before.tmr
  flags :
    after.flags =
      { before.flags with
        naglememerr := after.flags.naglememerr
        fin := after.flags.fin }

namespace QueueFrame

variable {before middle after : TcpPcb}

theorem refl (pcb : TcpPcb) : QueueFrame pcb pcb := by
  constructor <;> rfl

theorem unacked
    (frame : QueueFrame before after) :
    after.unacked = before.unacked := by
  rw [frame.queue]

theorem mss
    (frame : QueueFrame before after) :
    after.mss = before.mss := by
  rw [frame.snd]

theorem sndWndMax
    (frame : QueueFrame before after) :
    after.sndWndMax = before.sndWndMax := by
  rw [frame.snd]

end QueueFrame

/-- A call that queued nothing: at most `TF_NAGLEMEMERR` is set. -/
def Refused (before after : TcpPcb) : Prop :=
  after = before ∨ after = { before with flags.naglememerr := true }

theorem Refused.frame
    {before after : TcpPcb}
    (refused : Refused before after) :
    QueueFrame before after := by
  rcases refused with rfl | rfl <;> constructor <;> rfl

theorem Refused.queue
    {before after : TcpPcb}
    (refused : Refused before after) :
    after.toQueueVars = before.toQueueVars := by
  rcases refused with rfl | rfl <;> rfl

/-! ## Properties of segments -/

/-- A segment that `tcp_write` has created for `chunk`. -/
def freshSeg (seqno : SeqNo) (chunk : Bytes) (room : Nat) : TcpSeg where
  p := [chunk]
  len := chunk.length
  oversizeLeft := room
  seqno := seqno
  hdr := {}
  chksum := tcpDataCopy 0 chunk {}

theorem forall_mapLast
    {holds : TcpSeg → Prop}
    {change : TcpSeg → TcpSeg}
    {queue : List TcpSeg}
    (all : ∀ seg ∈ queue, holds seg)
    (changed : ∀ seg, queue.getLast? = some seg → holds (change seg)) :
    ∀ seg ∈ mapLast change queue, holds seg := by
  induction queue with
  | nil =>
      simp [mapLast]
  | cons seg rest inductionHypothesis =>
      cases rest with
      | nil =>
          simpa [mapLast] using changed
      | cons next rest =>
          have keeps :=
            inductionHypothesis
              (fun other member => all other (List.mem_cons_of_mem _ member))
              (by simpa using changed)
          simp only [mapLast, List.forall_mem_cons]
          exact ⟨all seg (by simp), keeps⟩

/-! ## `tcp_write` -/

@[simp]
theorem Pbuf.data_extendLast
    (bytes : Bytes)
    (p : Pbuf) :
    (Pbuf.extendLast bytes p).data = p.data ++ bytes := by
  induction p with
  | nil =>
      simp [extendLast, data]
  | cons buffer rest inductionHypothesis =>
      cases rest with
      | nil =>
          simp [extendLast, data]
      | cons next rest =>
          simp only [data] at inductionHypothesis
          simp [extendLast, data, inductionHypothesis]

@[simp]
theorem Pbuf.data_cat
    (head tail : Pbuf) :
    (head.cat tail).data = head.data ++ tail.data := by
  simp [cat, data]

/-- What phases 1 and 2 decide: they put `tail.pos` bytes into the last unsent
segment, and these fit. -/
structure TailFits (pcb : TcpPcb) (arg : Bytes) (tail : WriteTail) : Prop where
  pos_le : tail.pos ≤ arg.length
  used_le : tail.oversizeUsed ≤ tail.pos
  data :
    arg.take tail.oversizeUsed ++ (tail.concatP.getD []).data =
      arg.take tail.pos
  fits :
    ∀ last, pcb.unsent.getLast? = some last →
      last.len + last.optLength + tail.pos ≤ mssLocal pcb
  used :
    ∀ last, pcb.unsent.getLast? = some last →
      0 < tail.pos → 0 < last.len ∨ 0 < pcb.unsentOversize

section Specifications

variable {allowed : Fault → Prop} {world : World}

theorem tcpPbufPrealloc_spec
    (length maxLength : Nat)
    (pcb : TcpPcb)
    (more firstSeg : Bool) :
    wp (tcpPbufPrealloc length maxLength pcb more firstSeg)
      (fun _ after => Emits Bare world after) allowed world := by
  unfold tcpPbufPrealloc
  rw [wp_bind]
  refine wp_weaken (allocate_emits Bare) fun outcome after emits => ?_
  rw [wp_ite]
  exact ⟨fun _ => emits, fun _ => emits⟩

theorem tcpWriteTail_spec
    (faults :
      ∀ fault : Fault,
        fault.origin = .write → fault ≠ .mssLocalTooSmall → allowed fault)
    (pcb : TcpPcb)
    (arg : Bytes)
    (more : Bool)
    (small :
      ∀ last, pcb.unsent.getLast? = some last →
        last.len + last.optLength ≤ mssLocal pcb ∨ allowed .mssLocalTooSmall) :
    wp (tcpWriteTail pcb arg more)
      (fun result after =>
        Emits Bare world after ∧
          ∀ tail, result = some tail → TailFits pcb arg tail)
      allowed world := by
  unfold tcpWriteTail
  cases found : pcb.unsent.getLast? with
  | none =>
      simp only [wp_bind, wp_ensure, wp_pure]
      refine ⟨fun _ => ⟨Emits.refl _, ?_⟩, fun _ => faults _ rfl (by simp)⟩
      rintro tail ⟨⟩
      constructor <;> simp [found, Pbuf.data]
  | some last =>
      have same (other : TcpSeg)
          (isLast : pcb.unsent.getLast? = some other) : other = last :=
        Option.some.inj (isLast.symm.trans found)
      rw [wp_bind, wp_ensure]
      refine ⟨fun filled => ?_, fun filled => ?_⟩
      · rw [wp_bind, wp_ensure]
        refine ⟨fun matching => ?_, fun _ => faults _ rfl (by simp)⟩
        rw [wp_bind, wp_ensure]
        refine ⟨fun room => ?_, fun _ => faults _ rfl (by simp)⟩
        rw [wp_bind, wp_ensure]
        refine ⟨fun whole => ?_, fun _ => faults _ rfl (by simp)⟩
        simp only [decide_eq_true_eq] at filled room
        rw [wp_ite]
        refine ⟨?_, fun _ => ?_⟩
        · rintro ⟨left, space, data⟩
          rw [wp_bind]
          refine wp_weaken (tcpPbufPrealloc_spec _ _ pcb more true) ?_
          rintro (_ | oversizeAdd) after emits
          · exact ⟨emits, by simp⟩
          · refine ⟨emits, ?_⟩
            rintro tail ⟨⟩
            constructor
            · simp only
              omega
            · simp only
              omega
            · simp [Pbuf.data, List.take_add]
            · intro other isLast
              rw [same other isLast]
              simp only
              omega
            · intro other isLast _
              rw [same other isLast]
              exact .inl data
        · refine ⟨Emits.refl _, ?_⟩
          rintro tail ⟨⟩
          constructor
          · simp only
            omega
          · exact Nat.le_refl _
          · simp [Pbuf.data]
          · intro other isLast
            rw [same other isLast]
            simp only
            omega
          · intro _ _ used
            simp only at used
            omega
      · rcases small last found with fits | admitted
        · simp only [decide_eq_false_iff_not] at filled
          exact absurd fits filled
        · exact admitted

/-- What phase 3 has built: segments of the size `mssLocal` allows, each with
the bytes of `arg` at its own position. -/
structure BuiltFrom (pcb : TcpPcb) (arg : Bytes) (built : WriteQueue) :
    Prop where
  pos_le : built.pos ≤ arg.length
  segs :
    ∀ seg ∈ built.queue,
      ∃ pos len room,
        pos + len ≤ arg.length ∧
          len ≤ mssLocal pcb ∧
          seg =
            freshSeg (SerialNumber.place pcb.sndLbb pos)
              ((arg.drop pos).take len) room

theorem tcpCreateSegment_spec
    (p : Pbuf)
    (hdr : HdrFlags)
    (seqno : SeqNo)
    (optsMss : Bool) :
    wp (tcpCreateSegment p hdr seqno optsMss)
      (fun result after =>
        Emits Bare world after ∧
          ∀ seg, result = some seg →
            seg = { p, len := p.totLen, seqno, hdr, optsMss })
      allowed world := by
  unfold tcpCreateSegment
  rw [wp_bind]
  refine wp_weaken (allocate_emits Bare) fun outcome after emits => ?_
  rw [wp_ite]
  refine ⟨fun _ => ⟨emits, ?_⟩, fun _ => ⟨emits, by simp⟩⟩
  rintro seg ⟨⟩
  rfl

theorem tcpWriteSegs_spec
    (pcb : TcpPcb)
    (arg : Bytes)
    (more : Bool)
    (rounds : Nat)
    (built : WriteQueue)
    (builtFrom : BuiltFrom pcb arg built) :
    wp (tcpWriteSegs pcb arg more rounds built)
      (fun result after =>
        Emits Bare world after ∧
          ∀ all, result = some all →
            BuiltFrom pcb arg all ∧ all.pos = arg.length)
      allowed world := by
  induction rounds generalizing built world with
  | zero =>
      unfold tcpWriteSegs
      rw [wp_ite]
      refine ⟨fun _ => ⟨Emits.refl _, by simp⟩, fun reached => ?_⟩
      refine ⟨Emits.refl _, ?_⟩
      rintro all ⟨⟩
      exact ⟨builtFrom,
        Nat.le_antisymm builtFrom.pos_le (Nat.not_lt.mp reached)⟩
  | succ rounds inductionHypothesis =>
      unfold tcpWriteSegs
      rw [wp_ite]
      refine ⟨fun left => ?_, fun reached => ?_⟩
      · rw [wp_bind]
        refine wp_weaken (tcpPbufPrealloc_spec _ _ pcb more _) ?_
        rintro (_ | room) middle emits
        · exact ⟨emits, by simp⟩
        rw [wp_ite]
        refine ⟨fun _ => ⟨emits, by simp⟩, fun _ => ?_⟩
        rw [wp_bind]
        refine wp_weaken (tcpCreateSegment_spec _ _ _ _) ?_
        rintro (_ | seg) later ⟨emitted, created⟩
        · exact ⟨emits.trans emitted, by simp⟩
        refine wp_weaken (inductionHypothesis _ ?_) ?_
        · have here := builtFrom.pos_le
          refine ⟨by simp only; omega, ?_⟩
          intro other member
          rcases List.mem_append.mp member with member | member
          · exact builtFrom.segs other member
          · refine ⟨built.pos, min (arg.length - built.pos) (mssLocal pcb),
              room, by omega, Nat.min_le_right _ _, ?_⟩
            rw [List.mem_singleton.mp member, created seg rfl]
            simp only [freshSeg, Pbuf.totLen, Pbuf.data, SerialNumber.place,
              List.flatten_singleton]
        · rintro result final ⟨last, all⟩
          exact ⟨(emits.trans emitted).trans last, all⟩
      · refine ⟨Emits.refl _, ?_⟩
        rintro all ⟨⟩
        exact ⟨builtFrom,
          Nat.le_antisymm builtFrom.pos_le (Nat.not_lt.mp reached)⟩

/-- The states in which `tcp_write` takes data. -/
def TcpState.Writable (state : TcpState) : Prop :=
  state = .established ∨ state = .closeWait ∨ state = .synRcvd

theorem tcpWriteChecks_spec
    (faults :
      ∀ fault : Fault,
        fault.origin = .write → fault ≠ .mssLocalTooSmall → allowed fault)
    (pcb : TcpPcb)
    (len : Nat) :
    wp (tcpWriteChecks pcb len)
      (fun result after =>
        Emits Bare world after ∧
          Refused pcb result.2 ∧
          (result.1 = .ok →
            pcb.state.Writable ∧ len ≤ pcb.sndBuf ∧ result.2 = pcb))
      allowed world := by
  have refuse : Refused pcb { pcb with flags.naglememerr := true } := .inr rfl
  unfold tcpWriteChecks
  rw [wp_ite]
  refine ⟨fun _ => ⟨Emits.refl _, .inl rfl, by simp⟩, fun state => ?_⟩
  have writable : pcb.state.Writable := by
    unfold TcpState.Writable
    by_contra other
    exact state (by simpa only [not_or] using other)
  rw [wp_ite]
  refine ⟨fun empty => ?_, fun _ => ?_⟩
  · exact ⟨Emits.refl _, .inl rfl, fun _ => ⟨writable, by omega, rfl⟩⟩
  rw [wp_ite]
  refine ⟨fun _ => ⟨Emits.refl _, refuse, by simp⟩, fun room => ?_⟩
  have accepted :
      Emits Bare world world ∧
        Refused pcb pcb ∧
        (Err.ok = .ok → pcb.state.Writable ∧ len ≤ pcb.sndBuf ∧ pcb = pcb) :=
    ⟨Emits.refl _, .inl rfl, fun _ => ⟨writable, by omega, rfl⟩⟩
  rw [wp_ite]
  refine ⟨fun _ => ⟨Emits.refl _, refuse, by simp⟩, fun _ => ?_⟩
  rw [wp_ite]
  refine ⟨fun _ => ?_, fun _ => ?_⟩
  all_goals
    rw [wp_bind, wp_ensure]
    exact ⟨fun _ => accepted, fun _ => faults _ rfl (by simp)⟩

/-- What the segments that `tcp_write` extends or creates must meet for
`holds` to be true of the whole queue. -/
structure WriteKeeps
    (holds : TcpSeg → Prop)
    (pcb : TcpPcb)
    (arg : Bytes) : Prop where
  kept : ∀ seg ∈ pcb.unsent, holds seg
  extended :
    ∀ last count seg,
      pcb.unsent.getLast? = some last →
        0 < count →
          count ≤ arg.length →
            last.len + last.optLength + count ≤ mssLocal pcb →
              0 < last.len ∨ 0 < pcb.unsentOversize →
                Extends last (arg.take count) seg →
                  holds seg
  created :
    ∀ pos len room,
      pos + len ≤ arg.length →
        len ≤ mssLocal pcb →
          holds
            (freshSeg (SerialNumber.place pcb.sndLbb pos)
              ((arg.drop pos).take len) room)

/-- The bytes that a write adds to a segment are added to its checksum. -/
theorem commitChksum_queued
    {pcb : TcpPcb}
    {arg data : Bytes}
    {tail : WriteTail}
    {chksum : SegChksum}
    (fits : TailFits pcb arg tail)
    (queued : Queued data chksum) :
    Queued (data ++ arg.take tail.pos) (commitChksum tail arg chksum) := by
  have filled :
      Queued (data ++ arg.take tail.oversizeUsed)
        (if 0 < tail.oversizeUsed then
          tcpDataCopy 0 (arg.take tail.oversizeUsed) chksum
        else
          chksum) := by
    split
    · exact queued.filled 0 _
    · rename_i unused
      rw [Nat.eq_zero_of_not_pos unused, List.take_zero, List.append_nil]
      exact queued
  have joined := fits.data
  unfold commitChksum
  cases concat : tail.concatP with
  | none =>
      rw [concat, Option.getD_none, Pbuf.data, List.flatten_nil,
        List.append_nil] at joined
      rw [← joined]
      exact filled
  | some concatP =>
      rw [concat, Option.getD_some] at joined
      rw [← joined, ← List.append_assoc]
      exact filled.concatenated 0 concatP.data

theorem commitTail_extends
    {pcb : TcpPcb}
    {arg : Bytes}
    {tail : WriteTail}
    (fits : TailFits pcb arg tail)
    (last : TcpSeg) :
    Extends last (arg.take tail.pos) (commitTail tail arg last) where
  data := by
    simp [commitTail, ← fits.data]
  len := by
    have parts := congrArg List.length fits.data
    have positions := fits.pos_le
    have used := fits.used_le
    simp only [List.length_append, List.length_take] at parts
    simp only [commitTail, List.length_take, Pbuf.totLen]
    omega
  seqno := rfl
  optsMss := rfl
  hdr := rfl
  chksum queued := by
    have data : (commitTail tail arg last).p.data =
        last.p.data ++ arg.take tail.pos := by
      simp [commitTail, ← fits.data]
    rw [data]
    exact commitChksum_queued fits queued

theorem pushLast_keeps
    {holds : TcpSeg → Prop}
    (closed : SendClosed holds)
    {tail : WriteTail}
    {unsent queue : List TcpSeg}
    (old : ∀ seg ∈ unsent, holds seg)
    (new : ∀ seg ∈ queue, holds seg) :
    ∀ seg ∈ pushLast tail unsent queue, holds seg := by
  have all : ∀ seg ∈ unsent ++ queue, holds seg := by
    intro seg member
    rcases List.mem_append.mp member with member | member
    · exact old seg member
    · exact new seg member
  unfold pushLast
  split
  · exact forall_mapLast all fun seg last =>
      closed.push seg (all seg (List.mem_of_getLast? last))
  · exact all

theorem commitTail_keeps
    {holds : TcpSeg → Prop}
    (closed : SendClosed holds)
    {pcb : TcpPcb}
    {arg : Bytes}
    (keeps : WriteKeeps holds pcb arg)
    {tail : WriteTail}
    (fits : TailFits pcb arg tail)
    {last : TcpSeg}
    (isLast : pcb.unsent.getLast? = some last) :
    holds (commitTail tail arg last) := by
  have tailExtends := commitTail_extends fits last
  rcases Nat.eq_zero_or_pos tail.pos with idle | used
  · rw [idle, List.take_zero] at tailExtends
    exact closed.same last _ (keeps.kept last (List.mem_of_getLast? isLast))
      tailExtends
  · exact keeps.extended last tail.pos _ isLast used fits.pos_le
      (fits.fits last isLast) (fits.used last isLast used) tailExtends

theorem TcpState.Writable.ne_timeWait
    {state : TcpState}
    (writable : state.Writable) :
    state ≠ .timeWait := by
  rintro rfl
  rcases writable with impossible | impossible | impossible <;>
    cases impossible

/-- What a successful `tcp_write` does. -/
structure WriteDone
    (holds : TcpSeg → Prop)
    (pcb : TcpPcb)
    (arg : Bytes)
    (after : TcpPcb) : Prop where
  writable : pcb.state.Writable
  room : arg.length ≤ pcb.sndBuf
  sndLbb : after.sndLbb = SerialNumber.place pcb.sndLbb arg.length
  sndBuf : after.sndBuf = pcb.sndBuf - arg.length
  fin : after.flags.fin = pcb.flags.fin
  unsent : ∀ seg ∈ after.unsent, holds seg
  kept : pcb.unsent ≠ [] → after.unsent ≠ []

theorem tcpWriteMemerr_spec
    (faults :
      ∀ fault : Fault,
        fault.origin = .write → fault ≠ .mssLocalTooSmall → allowed fault)
    (pcb : TcpPcb) :
    wp (tcpWriteMemerr pcb)
      (fun result after =>
        Emits Bare world after ∧ Refused pcb result.2 ∧ result.1 = .mem)
      allowed world := by
  unfold tcpWriteMemerr
  simp only [wp_bind, wp_ite, wp_ensure, wp_pure]
  exact ⟨fun _ => ⟨fun _ => ⟨Emits.refl _, .inr rfl, trivial⟩,
    fun _ => faults _ rfl (by simp)⟩,
    fun _ => ⟨Emits.refl _, .inr rfl, trivial⟩⟩

theorem mapLast_ne_nil
    {change : TcpSeg → TcpSeg}
    {queue : List TcpSeg}
    (nonempty : queue ≠ []) :
    mapLast change queue ≠ [] := by
  cases queue with
  | nil =>
      exact absurd rfl nonempty
  | cons seg rest =>
      cases rest <;> simp [mapLast]

theorem tcpWriteCommit_spec
    {holds : TcpSeg → Prop}
    (closed : SendClosed holds)
    (faults :
      ∀ fault : Fault,
        fault.origin = .write → fault ≠ .mssLocalTooSmall → allowed fault)
    {pcb : TcpPcb}
    {arg : Bytes}
    (keeps : WriteKeeps holds pcb arg)
    (writable : pcb.state.Writable)
    (room : arg.length ≤ pcb.sndBuf)
    {tail : WriteTail}
    (fits : TailFits pcb arg tail)
    {built : WriteQueue}
    (builtFrom : BuiltFrom pcb arg built) :
    wp (tcpWriteCommit pcb arg tail built)
      (fun result after =>
        Emits Bare world after ∧
          QueueFrame pcb result.2 ∧
          result.1 = .ok ∧
          WriteDone holds pcb arg result.2)
      allowed world := by
  have old : ∀ seg ∈ mapLast (commitTail tail arg) pcb.unsent, holds seg :=
    forall_mapLast keeps.kept fun last isLast =>
      commitTail_keeps closed keeps fits isLast
  have new : ∀ seg ∈ built.queue, holds seg := by
    intro seg member
    obtain ⟨pos, len, spare, within, small, rfl⟩ := builtFrom.segs seg member
    exact keeps.created pos len spare within small
  have kept (nonempty : pcb.unsent ≠ []) :
      pushLast tail (mapLast (commitTail tail arg) pcb.unsent) built.queue ≠
        [] := by
    have filled :
        mapLast (commitTail tail arg) pcb.unsent ++ built.queue ≠ [] := by
      simp [mapLast_ne_nil nonempty]
    unfold pushLast
    split
    · exact mapLast_ne_nil filled
    · exact filled
  have done : WriteDone holds pcb arg {
      pcb with
      unsentOversize := built.oversize
      unsent :=
        pushLast tail (mapLast (commitTail tail arg) pcb.unsent) built.queue
      sndLbb := pcb.sndLbb + BitVec.ofNat 32 arg.length
      sndBuf := pcb.sndBuf - arg.length
      sndQueuelen := built.queuelen } := by
    refine ⟨writable, room, rfl, rfl, rfl, ?_, kept⟩
    exact pushLast_keeps closed old new
  unfold tcpWriteCommit
  split
  all_goals
    simp only [wp_bind, wp_ite, wp_ensure, wp_pure]
    refine ⟨fun _ => ⟨fun _ => ⟨fun _ => ?_, fun _ => faults _ rfl (by simp)⟩,
      fun _ => ?_⟩, fun _ => faults _ rfl (by simp)⟩
    all_goals
      exact ⟨Emits.refl _, by constructor <;> rfl, trivial, done⟩

/-- `tcp_write` either refuses, or queues all of `arg`. -/
theorem tcpWrite_spec
    {holds : TcpSeg → Prop}
    (closed : SendClosed holds)
    (faults :
      ∀ fault : Fault,
        fault.origin = .write → fault ≠ .mssLocalTooSmall → allowed fault)
    (pcb : TcpPcb)
    (arg : Bytes)
    (more : Bool)
    (small :
      ∀ last, pcb.unsent.getLast? = some last →
        last.len + last.optLength ≤ mssLocal pcb ∨ allowed .mssLocalTooSmall)
    (keeps : pcb.state.Writable → WriteKeeps holds pcb arg) :
    wp (tcpWrite pcb arg more)
      (fun result after =>
        Emits Bare world after ∧
          QueueFrame pcb result.2 ∧
          (result.1 ≠ .ok → Refused pcb result.2) ∧
          (result.1 = .ok → WriteDone holds pcb arg result.2))
      allowed world := by
  have memerr (before : World) (emits : Emits Bare world before) :
      wp (tcpWriteMemerr pcb)
        (fun result after =>
          Emits Bare world after ∧
            QueueFrame pcb result.2 ∧
            (result.1 ≠ .ok → Refused pcb result.2) ∧
            (result.1 = .ok → WriteDone holds pcb arg result.2))
        allowed before := by
    refine wp_weaken (tcpWriteMemerr_spec faults pcb) ?_
    rintro ⟨err, after⟩ later ⟨emitted, refused, mem⟩
    exact ⟨emits.trans emitted, refused.frame, fun _ => refused,
      fun ok => absurd (mem.symm.trans ok) (by simp)⟩
  unfold tcpWrite
  rw [wp_bind]
  refine wp_weaken (tcpWriteChecks_spec faults pcb arg.length) ?_
  rintro ⟨err, checked⟩ middle ⟨emits, refused, accepted⟩
  rw [wp_ite]
  refine ⟨fun bad => ?_, fun good => ?_⟩
  · exact ⟨emits, refused.frame, fun _ => refused, fun ok => absurd ok bad⟩
  obtain ⟨writable, room, rfl⟩ := accepted (not_not.mp good)
  rw [wp_bind]
  refine wp_weaken (tcpWriteTail_spec faults checked arg more small) ?_
  rintro (_ | tail) later ⟨emitted, fits⟩
  · exact memerr later (emits.trans emitted)
  have tailFits := fits tail rfl
  rw [wp_bind]
  refine wp_weaken (tcpWriteSegs_spec checked arg more _ _ ?_) ?_
  · exact ⟨tailFits.pos_le, List.forall_mem_nil _⟩
  rintro (_ | built) last ⟨written, builtFrom⟩
  · exact memerr last ((emits.trans emitted).trans written)
  refine wp_weaken
    (tcpWriteCommit_spec closed faults (keeps writable) writable room tailFits
      (builtFrom built rfl).1) ?_
  rintro ⟨err, after⟩ final ⟨committed, frame, ok, done⟩
  exact ⟨((emits.trans emitted).trans written).trans committed, frame,
    fun bad => absurd ok bad, fun _ => done⟩

/-! ## Splitting and flags -/

@[simp]
theorem Pbuf.data_realloc
    (p : Pbuf)
    (newLen : Nat) :
    (p.realloc newLen).data = p.data.take newLen := by
  induction p generalizing newLen with
  | nil =>
      simp [realloc, data]
  | cons buffer rest inductionHypothesis =>
      simp only [data] at inductionHypothesis
      simp only [realloc]
      split
      · rename_i short
        simp [data, inductionHypothesis, List.take_append,
          List.take_of_length_le (Nat.le_of_lt short)]
      · rename_i enough
        have inside : newLen - buffer.length = 0 := by omega
        simp [data, List.take_append, inside]

/-- What stays with the first segment is the data up to the cut. -/
theorem splitPbuf_data
    {useg : TcpSeg}
    {split : Nat}
    (whole : useg.p.totLen = useg.len)
    (shorter : split < useg.len) :
    (splitPbuf useg split).data = useg.p.data.take split := by
  rw [splitPbuf, Pbuf.data_realloc, whole,
    Nat.sub_sub_self (Nat.le_of_lt shorter)]

theorem splitPbuf_totLen
    {useg : TcpSeg}
    {split : Nat}
    (whole : useg.p.totLen = useg.len)
    (shorter : split < useg.len) :
    (splitPbuf useg split).totLen = split := by
  have data := splitPbuf_data whole shorter
  unfold Pbuf.totLen at whole ⊢
  rw [data, List.length_take, whole]
  omega

/-- The second segment of a split. -/
def splitTail (useg : TcpSeg) (split : Nat) : TcpSeg where
  p := [splitData useg split]
  len := (splitData useg split).length
  optsMss := useg.optsMss
  seqno := SerialNumber.place useg.seqno split
  hdr := { psh := useg.hdr.psh, fin := useg.hdr.fin }
  chksum := splitRemainderChksum 0 (splitData useg split)

/-- `tcp_split_unsent_seg` leaves the queue, or splits its first segment. -/
theorem tcpSplitUnsentSeg_spec
    {holds : TcpSeg → Prop}
    (faults :
      ∀ fault : Fault,
        fault.origin = .split → fault ≠ .splitMss → allowed fault)
    (pcb : TcpPcb)
    (split : Nat)
    (unsent : ∀ seg ∈ pcb.unsent, holds seg)
    (small :
      ∀ useg rest, pcb.unsent = useg :: rest → split < useg.len →
        split ≤ pcb.mss ∨ allowed .splitMss)
    (pieces :
      ∀ useg rest, pcb.unsent = useg :: rest → 0 < split → split < useg.len →
        holds (splitHead useg split) ∧ holds (splitTail useg split)) :
    wp (tcpSplitUnsentSeg pcb split)
      (fun result after =>
        Emits Bare world after ∧
          QueueFrame pcb result.2 ∧
          result.2.flags = pcb.flags ∧
          result.2.sndLbb = pcb.sndLbb ∧
          (pcb.unsent ≠ [] → result.2.unsent ≠ []) ∧
          ∀ seg ∈ result.2.unsent, holds seg)
      allowed world := by
  have idle (after : World) (emits : Emits Bare world after) :
      Emits Bare world after ∧
        QueueFrame pcb pcb ∧
        pcb.flags = pcb.flags ∧
        pcb.sndLbb = pcb.sndLbb ∧
        (pcb.unsent ≠ [] → pcb.unsent ≠ []) ∧
        ∀ seg ∈ pcb.unsent, holds seg :=
    ⟨emits, QueueFrame.refl pcb, rfl, rfl, id, unsent⟩
  unfold tcpSplitUnsentSeg
  split
  · exact idle world (Emits.refl _)
  · rename_i useg rest queue
    rw [wp_ite]
    refine ⟨fun _ => faults _ rfl (by simp), fun positive => ?_⟩
    rw [wp_ite]
    refine ⟨fun _ => idle world (Emits.refl _), fun longer => ?_⟩
    rw [wp_bind, wp_ensure]
    refine ⟨fun _ => ?_, fun big => ?_⟩
    · rw [wp_bind, wp_ensure]
      refine ⟨fun _ => ?_, fun _ => faults _ rfl (by simp)⟩
      rw [wp_bind]
      refine wp_weaken (allocate_emits Bare) fun _ middle emits => ?_
      rw [wp_ite]
      refine ⟨fun _ => ?_, fun _ => idle middle emits⟩
      rw [wp_bind]
      refine wp_weaken (tcpCreateSegment_spec _ _ _ _) ?_
      rintro (_ | seg) later ⟨emitted, created⟩
      · exact idle later (emits.trans emitted)
      obtain ⟨head, tail⟩ :=
        pieces useg rest queue (Nat.pos_of_ne_zero positive)
          (Nat.not_le.mp longer)
      have isTail :
          { seg with
            chksum := splitRemainderChksum 0 (splitData useg split) } =
            splitTail useg split := by
        rw [created seg rfl]
        simp only [splitTail, Pbuf.totLen, Pbuf.data, SerialNumber.place,
          List.flatten_singleton]
      rw [wp_bind, wp_ensure]
      refine ⟨fun _ => ?_, fun _ => faults _ rfl (by simp)⟩
      refine ⟨emits.trans emitted, by constructor <;> rfl, rfl, rfl,
        fun _ => List.cons_ne_nil _ _, ?_⟩
      intro other member
      rcases List.mem_cons.mp member with rfl | member
      · exact head
      rcases List.mem_cons.mp member with rfl | member
      · exact isTail ▸ tail
      · exact unsent other (queue ▸ List.mem_cons_of_mem _ member)
    · rcases small useg rest queue (Nat.not_le.mp longer) with fits | admitted
      · exact absurd fits (by simpa using big)
      · exact admitted

/-- The segment of `tcp_enqueue_flags`: flags and no data. -/
def flagsSeg (pcb : TcpPcb) (hdr : HdrFlags) : TcpSeg where
  p := [[]]
  len := 0
  optsMss := hdr.syn
  seqno := pcb.sndLbb
  hdr := hdr

theorem tcpEnqueueFlags_spec
    (faults : ∀ fault : Fault, fault.origin = .enqueue → allowed fault)
    (pcb : TcpPcb)
    (hdr : HdrFlags) :
    wp (tcpEnqueueFlags pcb hdr)
      (fun result after =>
        Emits Bare world after ∧
          (result.1 ≠ .ok → result.1 = .mem ∧ Refused pcb result.2) ∧
          (result.1 = .ok → result.2 = enqueueSeg pcb (flagsSeg pcb hdr)))
      allowed world := by
  have refused : Refused pcb { pcb with flags.naglememerr := true } := .inr rfl
  unfold tcpEnqueueFlags
  rw [wp_bind]
  refine wp_weaken (allocate_emits Bare) fun _ middle emits => ?_
  rw [wp_ite]
  refine ⟨fun _ => ?_, fun _ => ⟨emits, fun _ => ⟨rfl, refused⟩, by simp⟩⟩
  rw [wp_bind]
  refine wp_weaken (tcpCreateSegment_spec _ _ _ _) ?_
  rintro (_ | seg) later ⟨emitted, created⟩
  · exact ⟨emits.trans emitted, fun _ => ⟨rfl, refused⟩, by simp⟩
  rw [wp_bind, wp_ensure]
  refine ⟨fun _ => ?_, fun _ => faults _ rfl⟩
  have isFlags : seg = flagsSeg pcb hdr := by
    rw [created seg rfl]
    rfl
  exact ⟨emits.trans emitted, fun bad => absurd rfl bad,
    fun _ => congrArg (enqueueSeg pcb) isFlags⟩

/-- `tcp_send_fin` puts the FIN on the last unsent segment when it can, and
queues a segment of its own for it when it cannot. -/
theorem tcpSendFin_spec
    (faults : ∀ fault : Fault, fault.origin = .enqueue → allowed fault)
    (pcb : TcpPcb) :
    wp (tcpSendFin pcb)
      (fun result after =>
        Emits Bare world after ∧
          (result.1 ≠ .ok → result.1 = .mem ∧ Refused pcb result.2) ∧
          (result.1 = .ok →
            result.2 = enqueueSeg pcb (flagsSeg pcb { fin := true }) ∨
              result.2 = piggybackFin pcb ∧
                ∃ last,
                  pcb.unsent.getLast? = some last ∧ last.hdr.fin = false ∧
                    last.hdr.syn = false))
      allowed world := by
  have separate :
      wp (tcpEnqueueFlags pcb { fin := true })
        (fun result after =>
          Emits Bare world after ∧
            (result.1 ≠ .ok → result.1 = .mem ∧ Refused pcb result.2) ∧
            (result.1 = .ok →
              result.2 = enqueueSeg pcb (flagsSeg pcb { fin := true }) ∨
                result.2 = piggybackFin pcb ∧
                  ∃ last,
                    pcb.unsent.getLast? = some last ∧ last.hdr.fin = false ∧
                      last.hdr.syn = false))
        allowed world :=
    wp_weaken (tcpEnqueueFlags_spec faults pcb _)
      fun _ _ ⟨emits, refused, done⟩ =>
        ⟨emits, refused, fun ok => .inl (done ok)⟩
  unfold tcpSendFin
  split
  · rename_i last found
    rw [wp_ite]
    refine ⟨fun _ => separate, fun plain => ?_⟩
    simp only [Bool.or_eq_true, not_or, Bool.not_eq_true] at plain
    exact ⟨Emits.refl _, fun bad => absurd rfl bad,
      fun _ => .inr ⟨rfl, last, found, plain.1.2, plain.1.1⟩⟩
  · exact separate

end Specifications

end NetstackLwip

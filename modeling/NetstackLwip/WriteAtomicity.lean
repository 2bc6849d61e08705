import Mathlib.Data.Multiset.AddSub
import NetstackLwip.FormedQueues

namespace NetstackLwip

/-!
# A write takes effect as a whole or not at all

`poll_write` reports how many bytes it has queued, but when the `tcp_output`
after a successful `tcp_write` fails it reports an error although the bytes are
queued. And if the last unsent segment does not end where the send stream ends,
as after a fast retransmission, `tcp_write` fills it up with bytes that do not
belong there.
-/

open FaultState FaultMachine

/-! ## The send stream -/

/-- Bytes with the sequence numbers they have from `seqno` on. -/
def placed (seqno : SeqNo) : Bytes → List (SeqNo × UInt8)
  | [] => []
  | byte :: rest => (seqno, byte) :: placed (SerialNumber.place seqno 1) rest

/-- The bytes of a segment at their places. -/
def TcpSeg.cells (seg : TcpSeg) : List (SeqNo × UInt8) :=
  placed seg.seqno seg.p.data

/-- The send stream: the queued bytes at their places. -/
def TcpPcb.sendStream (pcb : TcpPcb) : Multiset (SeqNo × UInt8) :=
  ↑(pcb.queued.flatMap TcpSeg.cells)

theorem placed_append
    (seqno : SeqNo)
    (front rest : Bytes) :
    placed seqno (front ++ rest) =
      placed seqno front ++
        placed (SerialNumber.place seqno front.length) rest := by
  induction front generalizing seqno with
  | nil =>
      rw [List.length_nil, SerialNumber.place_zero]
      rfl
  | cons byte front inductionHypothesis =>
      simp only [List.cons_append, placed, List.length_cons]
      rw [inductionHypothesis, SerialNumber.place_place, Nat.add_comm 1]

theorem mem_placed
    {seqno place : SeqNo}
    {byte : UInt8}
    {bytes : Bytes}
    (member : (place, byte) ∈ placed seqno bytes) :
    ∃ index < bytes.length, place = SerialNumber.place seqno index := by
  induction bytes generalizing seqno with
  | nil =>
      cases member
  | cons first rest inductionHypothesis =>
      rcases List.mem_cons.mp member with same | member
      · refine ⟨0, Nat.succ_pos _, ?_⟩
        rw [SerialNumber.place_zero]
        exact congrArg Prod.fst same
      · obtain ⟨index, inside, is⟩ := inductionHypothesis member
        refine ⟨index + 1, Nat.succ_lt_succ inside, ?_⟩
        rw [is, SerialNumber.place_place, Nat.add_comm 1]

/-- The same bytes at two places are different cells. -/
theorem placed_injective
    {first second : SeqNo}
    {bytes : Bytes}
    (nonempty : bytes ≠ [])
    (short : bytes.length < 2 ^ 31)
    (same : (placed first bytes).Perm (placed second bytes)) :
    first = second := by
  obtain ⟨byte, rest, rfl⟩ := List.exists_cons_of_ne_nil nonempty
  obtain ⟨index, inside, behind⟩ :=
    mem_placed (same.mem_iff.mp List.mem_cons_self)
  obtain ⟨other, also, back⟩ :=
    mem_placed (same.mem_iff.mpr List.mem_cons_self)
  have around : SerialNumber.place second (index + other) = second := by
    rw [← SerialNumber.place_place, ← behind, ← back]
  have multiple : (index + other) % 2 ^ 32 = 0 := by
    have zero := congrArg (fun place => (place - second).toNat) around
    have bound := second.isLt
    simp [SerialNumber.place] at zero
    omega
  have isFirst : index = 0 := by
    rw [Nat.mod_eq_of_lt (by omega)] at multiple
    omega
  rw [behind, isFirst, SerialNumber.place_zero]

/-! ### How the queues make it up -/

theorem flatMap_cells_plain
    {queue others : List TcpSeg}
    (plain : (others.map TcpSeg.plain).Perm (queue.map TcpSeg.plain)) :
    (others.flatMap TcpSeg.cells).Perm (queue.flatMap TcpSeg.cells) := by
  have image (queue : List TcpSeg) :
      queue.flatMap TcpSeg.cells =
        (queue.map TcpSeg.plain).flatMap TcpSeg.cells := by
    rw [List.flatMap_map]
    rfl
  rw [image, image queue]
  exact plain.flatMap_right _

/-- Sending moves the bytes and loses none. -/
theorem sendStream_output
    {before after : TcpPcb}
    (moves :
      OutputMoves before.unacked before.unsent after.unacked after.unsent)
    (nonempty : ∀ seg ∈ before.unsent, 0 < seg.tcplen) :
    after.sendStream = before.sendStream :=
  Quotient.sound (flatMap_cells_plain (moves.perm nonempty))

/-- Where the last unsent segment ends. -/
def tailEnd (pcb : TcpPcb) : SeqNo :=
  match pcb.unsent.getLast? with
  | none => pcb.sndLbb
  | some last => SerialNumber.place last.seqno last.len

theorem flatMap_mapLast
    {change : TcpSeg → TcpSeg}
    {queue : List TcpSeg}
    {last : TcpSeg}
    {more : List (SeqNo × UInt8)}
    (isLast : queue.getLast? = some last)
    (changed : (change last).cells = last.cells ++ more) :
    (mapLast change queue).flatMap TcpSeg.cells =
      queue.flatMap TcpSeg.cells ++ more := by
  induction queue with
  | nil =>
      cases isLast
  | cons seg rest inductionHypothesis =>
      cases rest with
      | nil =>
          have same : seg = last := by
            simpa using isLast
          rw [same]
          simpa [mapLast] using changed
      | cons next rest =>
          simp only [mapLast, List.flatMap_cons]
          rw [inductionHypothesis (by simpa using isLast),
            List.flatMap_cons]
          simp only [List.append_assoc]

theorem cells_extendTail
    {pcb : TcpPcb}
    {arg : Bytes}
    {seg : TcpSeg}
    (formed : Formed seg) :
    (extendTail (tailPlan pcb arg.length) arg seg).cells =
      seg.cells ++
        placed (SerialNumber.place seg.seqno seg.len)
          (arg.take (tailPlan pcb arg.length).bytes) := by
  have whole := formed.whole
  unfold Pbuf.totLen at whole
  unfold TcpSeg.cells
  rw [data_extendTail, placed_append, whole]
  rfl

theorem cells_chunkSegs
    {mss : Nat}
    (seqno : SeqNo)
    (data : Bytes)
    (cut : data.length = 0 ∨ 0 < mss) :
    (chunkSegs mss (segsFor mss data.length) seqno data).flatMap
        TcpSeg.cells =
      placed seqno data := by
  induction length : data.length using Nat.strongRecOn
    generalizing seqno data with
  | ind left inductionHypothesis =>
      rcases Nat.eq_zero_or_pos left with rfl | nonzero
      · rw [segsFor_zero, List.length_eq_zero_iff.mp length]
        rfl
      have positive := cut.resolve_left (by omega)
      have first :
          (freshSeg seqno (data.take (min left mss)) 0).cells =
            placed seqno (data.take (min left mss)) := by
        simp [TcpSeg.cells, freshSeg, Pbuf.data]
      rw [chunkSegs_succ positive nonzero _ _ length, List.flatMap_cons, first,
        inductionHypothesis _ (by omega) _ _ (.inr positive)
          (by rw [List.length_drop, length])]
      have size : (data.take (min left mss)).length = min left mss := by
        rw [List.length_take]
        omega
      conv_rhs =>
        rw [← List.take_append_drop (min left mss) data, placed_append, size]

/-- Where an accepted write puts its bytes. -/
theorem sendStream_write
    {pcb after : TcpPcb}
    {arg : Bytes}
    (formed : ∀ seg ∈ pcb.unsent, Formed seg)
    (cut : leftOver pcb arg.length = 0 ∨ 0 < mssLocal pcb)
    (unacked : after.unacked = pcb.unacked)
    (unsent :
      after.unsent.map TcpSeg.plain =
        (plannedUnsent pcb arg).map TcpSeg.plain) :
    after.sendStream =
      pcb.sendStream +
        ↑(placed (tailEnd pcb)
              (arg.take (tailPlan pcb arg.length).bytes) ++
            placed
              (SerialNumber.place pcb.sndLbb
                (tailPlan pcb arg.length).bytes)
              (arg.drop (tailPlan pcb arg.length).bytes)) := by
  have tail :
      (mapLast (extendTail (tailPlan pcb arg.length) arg)
            pcb.unsent).flatMap TcpSeg.cells =
        pcb.unsent.flatMap TcpSeg.cells ++
          placed (tailEnd pcb)
            (arg.take (tailPlan pcb arg.length).bytes) := by
    cases isLast : pcb.unsent.getLast? with
    | none =>
        have bytes : (tailPlan pcb arg.length).bytes = 0 := by
          unfold tailPlan
          rw [isLast]
          rfl
        rw [List.getLast?_eq_none_iff.mp isLast, bytes]
        rfl
    | some last =>
        have ends : tailEnd pcb = SerialNumber.place last.seqno last.len := by
          unfold tailEnd
          rw [isLast]
        rw [ends]
        exact flatMap_mapLast isLast
          (cells_extendTail (formed last (List.mem_of_getLast? isLast)))
  have left :
      (arg.drop (tailPlan pcb arg.length).bytes).length =
        leftOver pcb arg.length := List.length_drop
  have chunks :=
    cells_chunkSegs
      (SerialNumber.place pcb.sndLbb (tailPlan pcb arg.length).bytes)
      (arg.drop (tailPlan pcb arg.length).bytes) (by rw [left]; exact cut)
  have planned :
      (plannedUnsent pcb arg).flatMap TcpSeg.cells =
        pcb.unsent.flatMap TcpSeg.cells ++
          (placed (tailEnd pcb)
              (arg.take (tailPlan pcb arg.length).bytes) ++
            placed
              (SerialNumber.place pcb.sndLbb
                (tailPlan pcb arg.length).bytes)
              (arg.drop (tailPlan pcb arg.length).bytes)) := by
    unfold plannedUnsent newSegs
    rw [List.flatMap_append, tail, ← left, chunks, List.append_assoc]
  unfold TcpPcb.sendStream TcpPcb.queued
  rw [unacked, Multiset.coe_add, Multiset.coe_eq_coe, List.flatMap_append,
    List.flatMap_append, List.append_assoc]
  refine List.Perm.append_left _ ?_
  rw [← planned]
  exact flatMap_cells_plain (unsent ▸ .refl _)

/-! ## What a write owes its caller -/

/-- What the caller of `poll_write` can tell of the sender. -/
structure SendView where
  stream : Multiset (SeqNo × UInt8)
  sndLbb : SeqNo
  sndBuf : Nat

/-- The sender as its caller sees it. -/
def TcpPcb.sendView (pcb : TcpPcb) : SendView :=
  ⟨pcb.sendStream, pcb.sndLbb, pcb.sndBuf⟩

/-- The sender with `bytes` appended to its stream. -/
def SendView.append (view : SendView) (bytes : Bytes) : SendView :=
  ⟨view.stream + ↑(placed view.sndLbb bytes),
    SerialNumber.place view.sndLbb bytes.length,
    view.sndBuf - bytes.length⟩

/-- If `poll_write` reports bytes, exactly these are appended to the stream,
and nothing has happened if it reports anything else. -/
def WriteAtomic
    (buf : Bytes)
    (before : Option TcpPcb)
    (outcome : Outcome)
    (after : Option TcpPcb) : Prop :=
  match outcome with
  | .write _ (.ready written) =>
      0 < written ∧ written ≤ buf.length ∧
        after.map TcpPcb.sendView =
          before.map fun pcb => pcb.sendView.append (buf.take written)
  | _ => after.map TcpPcb.sendView = before.map TcpPcb.sendView

/-- The pcb as an accepted write leaves it to `tcp_output`. -/
def plannedPcb (pcb : TcpPcb) (arg : Bytes) : TcpPcb :=
  { pcb with
    sndLbb := SerialNumber.place pcb.sndLbb arg.length
    sndBuf := pcb.sndBuf - arg.length
    sndQueuelen :=
      pcb.sndQueuelen + (tailPlan pcb arg.length).buffers +
        newSegs pcb arg.length
    unsent := plannedUnsent pcb arg }

/-- What `poll_write` offers to `tcp_write`. -/
def offered (pcb : TcpPcb) (buf : Bytes) : Bytes :=
  buf.take (min buf.length pcb.sndBuf)

/-- If `tcp_write` accepts what is offered, the bytes it puts into the last
unsent segment belong there, and no output fails afterwards. -/
def WriteLands
    (buf : Bytes)
    (pcb : TcpPcb)
    (allocs : List Bool)
    (outputs : List Err) : Prop :=
  offered pcb buf ≠ [] →
    Accepts pcb (offered pcb buf).length allocs →
      (0 < (tailPlan pcb (offered pcb buf).length).bytes →
          tailEnd pcb = pcb.sndLbb) ∧
        OutputSucceeds (plannedPcb pcb (offered pcb buf))
          (plannedUnsent pcb (offered pcb buf))
          (allocs.drop (writeAllocs pcb (offered pcb buf).length)) outputs

theorem sendView_of_refused
    {before after : TcpPcb}
    (refused : Refused before after) :
    after.sendView = before.sendView := by
  rcases refused with rfl | rfl <;> rfl

theorem outputSucceeds_congr
    {before after : TcpPcb}
    (same : SameJudge before after)
    (cwnd : after.cwnd = before.cwnd)
    (ackNow : after.flags.ackNow = before.flags.ackNow)
    (unacked : after.unacked.isEmpty = before.unacked.isEmpty)
    {queue others : List TcpSeg}
    (plain : others.map TcpSeg.plain = queue.map TcpSeg.plain)
    (allocs : List Bool)
    (outputs : List Err) :
    OutputSucceeds after others allocs outputs ↔
      OutputSucceeds before queue allocs outputs := by
  have sndWnd : after.sndWnd = before.sndWnd := congrArg SndVars.sndWnd same.snd
  unfold OutputSucceeds
  rw [sndWnd, cwnd, ackNow, unacked]
  cases queue with
  | nil =>
      rw [List.map_eq_nil_iff.mp plain]
  | cons seg rest =>
      have count (wnd : Nat) (idle : Bool) :
          attempts wnd after idle others =
            attempts wnd before idle (seg :: rest) :=
        attempts_congr same idle plain
      obtain ⟨other, more, rfl, first, -⟩ := List.map_eq_cons_iff.mp plain
      have seqno : other.plain.seqno = seg.plain.seqno := by
        rw [first]
      have len : other.plain.len = seg.plain.len := by
        rw [first]
      have reaches : reach after other = reach before seg := by
        unfold reach
        rw [same.snd]
        exact congrArg₂
          (fun seqno len =>
            (seqno - before.lastack + BitVec.ofNat 32 len).toNat)
          seqno len
      dsimp only
      rw [reaches, count]

theorem tailPlan_small
    (pcb : TcpPcb)
    (len : Nat) :
    (tailPlan pcb len).bytes ≤ mssLocal pcb := by
  unfold tailPlan TailPlan.bytes
  split
  · exact Nat.zero_le _
  · dsimp only
    split <;> dsimp only <;> omega

/-- The bytes are where the caller expects them, if what goes into the last
unsent segment belongs there. -/
theorem placed_iff
    (stream : Multiset (SeqNo × UInt8))
    {last lbb : SeqNo}
    {arg : Bytes}
    {count : Nat}
    (inside : count ≤ arg.length)
    (short : count < 2 ^ 31) :
    stream +
          ↑(placed last (arg.take count) ++
              placed (SerialNumber.place lbb count) (arg.drop count)) =
        stream + ↑(placed lbb arg) ↔
      (0 < count → last = lbb) := by
  have size : (arg.take count).length = count := by
    rw [List.length_take, Nat.min_eq_left inside]
  have whole :
      placed lbb arg =
        placed lbb (arg.take count) ++
          placed (SerialNumber.place lbb count) (arg.drop count) := by
    conv_lhs =>
      rw [← List.take_append_drop count arg, placed_append, size]
  rw [Multiset.add_right_inj, Multiset.coe_eq_coe, whole,
    List.perm_append_right_iff]
  constructor
  · intro same positive
    refine placed_injective ?_ (by rw [size]; exact short) same
    rw [← List.length_pos_iff, size]
    exact positive
  · intro belongs
    rcases Nat.eq_zero_or_pos count with rfl | positive
    · exact .refl _
    · rw [belongs positive]

section Write

variable {world : World}

/-- `poll_write` on a pcb keeps its promise exactly if the write lands. -/
theorem pollWritePcb_atomic_iff
    (buf : Bytes)
    (stream : TcpStream)
    (pcb : TcpPcb)
    (kept : AllFormed pcb) :
    wp (pollWritePcb buf stream pcb)
      (fun result _ =>
        WriteAtomic buf (some pcb) (.write buf result.1) (some result.2.2) ↔
          WriteLands buf pcb world.allocs world.outputs)
      (fun _ => True) world := by
  unfold pollWritePcb
  rw [wp_ite]
  refine ⟨fun zero => ?_, fun positive => ?_⟩
  · refine ⟨fun _ offers => absurd ?_ offers, fun _ => rfl⟩
    unfold offered
    rw [zero, List.take_zero]
  have length : (offered pcb buf).length = min buf.length pcb.sndBuf := by
    unfold offered
    rw [List.length_take]
    omega
  have offers : offered pcb buf ≠ [] := by
    rw [← List.length_pos_iff, length]
    omega
  have room : (offered pcb buf).length ≤ pcb.sndBuf := by
    rw [length]
    exact Nat.min_le_right _ _
  rw [wp_bind]
  refine wp_weaken
    (wp_and (tcpWrite_frame pcb _ false)
      (tcpWrite_plan pcb _ false (List.length_pos_iff.mpr offers) room)) ?_
  rintro ⟨err, queued⟩ middle ⟨⟨-, frame, refused, -⟩, unfit, planned⟩
  by_cases accepts : Accepts pcb (offered pcb buf).length world.allocs
  · obtain ⟨ok, done⟩ := planned accepts
    have formed : ∀ seg ∈ queued.unsent, Formed seg :=
      (kept.written accepts frame done).formed.1
    have queuedStream :=
      sendStream_write kept.formed.1 accepts.segs.mss frame.unacked
        done.unsent
    have judge : SameJudge (plannedPcb pcb (offered pcb buf)) queued := by
      refine ⟨?_, ?_, ?_, ?_, ?_⟩
      · rw [frame.snd, done.sndLbb, done.sndBuf, done.sndQueuelen]
        rfl
      all_goals
        rw [done.flags]
        rfl
    have lands :
        OutputSucceeds queued queued.unsent middle.allocs middle.outputs ↔
          OutputSucceeds (plannedPcb pcb (offered pcb buf))
            (plannedUnsent pcb (offered pcb buf))
            (world.allocs.drop (writeAllocs pcb (offered pcb buf).length))
            world.outputs := by
      rw [done.allocs, done.outputs]
      refine outputSucceeds_congr judge ?_ ?_ ?_ done.unsent _ _
      · exact congrArg CongVars.cwnd frame.cong
      · rw [done.flags]
        rfl
      · rw [frame.unacked]
        rfl
    rw [wp_ite]
    refine ⟨fun _ => ?_, fun bad => absurd ok bad⟩
    rw [wp_bind]
    refine wp_weaken
      (wp_and
        (wp_and (tcpOutput_outcome queued fun seg member =>
            (formed seg member).nonempty)
          (tcpOutput_moves (fun _ _ => trivial) false queued))
        (tcpOutput_spec (SendClosed.const True) (fun _ _ => trivial) false
          queued ⟨fun _ _ => trivial, fun _ _ => trivial⟩)) ?_
    rintro ⟨err, after⟩ later ⟨⟨outcome, moves⟩, out, -⟩
    have stream : after.sendStream = queued.sendStream :=
      sendStream_output moves fun seg member => (formed seg member).nonempty
    have sndLbb : after.sndLbb = queued.sndLbb :=
      congrArg SndVars.sndLbb out.snd
    have sndBuf : after.sndBuf = queued.sndBuf :=
      congrArg SndVars.sndBuf out.snd
    rw [wp_ite]
    refine ⟨fun sent => ?_, fun failed => ?_⟩
    · have succeeds := lands.mp (outcome.mp sent)
      have view :
          after.sendView =
              pcb.sendView.append
                (buf.take (min buf.length pcb.sndBuf)) ↔
            (0 < (tailPlan pcb (offered pcb buf).length).bytes →
              tailEnd pcb = pcb.sndLbb) := by
        have small :
            (tailPlan pcb (offered pcb buf).length).bytes < 2 ^ 31 := by
          have bound := tailPlan_small pcb (offered pcb buf).length
          have limit := (mssLocal_le_mss pcb).trans kept.mss
          have mss : tcpMss = 1460 := rfl
          omega
        rw [← placed_iff pcb.sendStream (tailPlan_le pcb (offered pcb buf).length) small]
        unfold TcpPcb.sendView SendView.append
        rw [SendView.mk.injEq, stream, queuedStream, sndLbb, sndBuf,
          done.sndLbb, done.sndBuf]
        exact ⟨fun all => all.1, fun same => ⟨same, rfl, rfl⟩⟩
      constructor
      · rintro ⟨-, -, same⟩ _ _
        exact ⟨view.mp (Option.some.inj same), succeeds⟩
      · intro holds
        exact ⟨by omega, Nat.min_le_left _ _,
          congrArg some (view.mpr (holds offers accepts).1)⟩
    · constructor
      · intro same
        have sndBuf' := congrArg SendView.sndBuf (Option.some.inj same)
        dsimp only [TcpPcb.sendView] at sndBuf'
        rw [sndBuf, done.sndBuf] at sndBuf'
        change pcb.sndBuf - (offered pcb buf).length = pcb.sndBuf at sndBuf'
        omega
      · intro holds
        exact absurd
          (outcome.mpr (lands.mpr (holds offers accepts).2)) failed
  · have bad := unfit accepts
    have same : some queued.sendView = some pcb.sendView :=
      congrArg some (sendView_of_refused (refused bad))
    have vacuous : WriteLands buf pcb world.allocs world.outputs :=
      fun _ fits => absurd fits accepts
    rw [wp_ite]
    refine ⟨fun ok => absurd ok bad, fun _ => ?_⟩
    rw [wp_ite]
    exact ⟨fun _ => ⟨fun _ => vacuous, fun _ => same⟩,
      fun _ => ⟨fun _ => vacuous, fun _ => same⟩⟩

/-- The same for a call on the stream, whatever there is behind it. -/
theorem performPollWrite_atomic_iff
    (buf : Bytes)
    (pcb : Option TcpPcb)
    (kept :
      ∀ held, pcb = some held →
        Attached world.pcbAddr held world.stream ∧ AllFormed held) :
    wp (perform pcb (.pollWrite buf))
      (fun result _ =>
        WriteAtomic buf pcb result.2 result.1 ↔
          ∀ held, pcb = some held → world.stream ≠ none →
            WriteLands buf held world.allocs world.outputs)
      (fun _ => True) world := by
  unfold perform
  cases pcb with
  | none =>
      have nothing (present : Prop) :
          ∀ held, (none : Option TcpPcb) = some held →
            present → WriteLands buf held world.allocs world.outputs := by
        rintro _ ⟨⟩
      unfold onStream
      rw [wp_bind, wp_get]
      cases world.stream with
      | none =>
          exact ⟨fun _ => nothing _, fun _ => rfl⟩
      | some stream =>
          simp only
          rw [wp_ite]
          exact ⟨fun _ => ⟨fun _ => nothing _, fun _ => rfl⟩, fun _ => trivial⟩
  | some pcb =>
      obtain ⟨attached, formed⟩ := kept pcb rfl
      refine onStream_attached attached (fun absent => ?_)
        fun stream holder => ?_
      · refine ⟨fun _ _ _ present => absurd absent present, fun _ => rfl⟩
      · rw [wp_bind]
        refine wp_weaken (pollWritePcb_atomic_iff buf stream pcb formed) ?_
        rintro ⟨result, next, after⟩ later known
        unfold putStream
        simp only [wp_bind, wp_modify, wp_pure]
        refine known.trans ⟨?_, fun lands => lands pcb rfl (by simp [holder])⟩
        rintro lands _ ⟨⟩ _
        exact lands

end Write

/-- In every reachable state a call of `poll_write` keeps its promise exactly
if the write lands. -/
theorem write_atomic_iff
    {before after : Conn}
    {label : Label}
    {buf : Bytes}
    (reached : connMachine.Reached before)
    (event : label.event = .pollWrite buf)
    (taken : before.step label = .ok after) :
    WriteAtomic buf before.pcb after.history.outcome after.pcb ↔
      ∀ pcb, before.pcb = some pcb → before.world.stream ≠ none →
        WriteLands buf pcb label.allocs label.outputs := by
  have kept (held : TcpPcb) (current : before.pcb = some held) :
      Attached (label.enter before.world).pcbAddr held
          (label.enter before.world).stream ∧
        AllFormed held :=
    formed_of_reached reached current
  have performed := performPollWrite_atomic_iff buf before.pcb kept
  unfold Conn.step at taken
  rw [event] at taken
  split at taken
  · rename_i pcb outcome world ran
    cases taken
    have known := wp_returned performed ran
    exact known
  · cases taken

/-- The example connection with its handshake completed. -/
def openedLabels : List Label :=
  [{ event :=
      .segment (exampleSegment { ack := true } 100 6511 1000 [] []) }]

/-- Whether a write of three bytes leads to the outcome and takes up that much
of the send buffer. -/
def writesThree
    (outputs : List Err)
    (result : PollWrite)
    (conn : Conn) : Bool :=
  (conn.step { event := .pollWrite [1, 2, 3], outputs }).toOption.any
    fun after =>
      after.history.outcome == .write [1, 2, 3] result &&
        (after.pcb.map fun pcb => pcb.sndBuf + 3) ==
          conn.pcb.map fun pcb => pcb.sndBuf

theorem exists_of_writesThree
    {outputs : List Err}
    {result : PollWrite}
    {conn : Conn}
    (writes : writesThree outputs result conn = true) :
    ∃ after,
      conn.step { event := .pollWrite [1, 2, 3], outputs } = .ok after ∧
        after.history.outcome = .write [1, 2, 3] result ∧
          (after.pcb.map fun pcb => pcb.sndBuf + 3) =
            conn.pcb.map fun pcb => pcb.sndBuf := by
  unfold writesThree at writes
  cases taken :
      conn.step { event := .pollWrite [1, 2, 3], outputs } with
  | error fault =>
      rw [taken] at writes
      cases writes
  | ok after =>
      rw [taken] at writes
      simp only [Except.toOption, Option.any_some, Bool.and_eq_true,
        beq_iff_eq] at writes
      exact ⟨after, rfl, writes⟩

/-- Three bytes are written and reported. -/
theorem write_atomic_iff_sent :
    ∃ before after,
      connMachine.Reached before ∧
        before.step { event := .pollWrite [1, 2, 3] } = .ok after ∧
          after.history.outcome = .write [1, 2, 3] (.ready 3) ∧
            (WriteAtomic [1, 2, 3] before.pcb after.history.outcome
                after.pcb ↔
              ∀ pcb, before.pcb = some pcb → before.world.stream ≠ none →
                WriteLands [1, 2, 3] pcb [] []) := by
  obtain ⟨before, reached, writes⟩ :=
    exists_reached (exampleSyn 1000 []) 0 6510 exampleWorld openedLabels
      (writesThree [] (.ready 3)) rfl rfl rfl (by decide +kernel)
  obtain ⟨after, taken, outcome, -⟩ := exists_of_writesThree writes
  exact ⟨before, after, reached, taken, outcome,
    write_atomic_iff reached rfl taken⟩

/-- With no stack to output to the write fails, but the three bytes are
queued. -/
theorem write_error_after_queueing :
    ∃ before after,
      connMachine.Reached before ∧
        before.step
            { event := .pollWrite [1, 2, 3], outputs := [.abrt] } =
          .ok after ∧
          after.history.outcome =
              .write [1, 2, 3] (.outputError .abrt) ∧
            ¬WriteAtomic [1, 2, 3] before.pcb after.history.outcome
                after.pcb := by
  obtain ⟨before, reached, writes⟩ :=
    exists_reached (exampleSyn 1000 []) 0 6510 exampleWorld openedLabels
      (fun conn =>
        writesThree [.abrt] (.outputError .abrt) conn && conn.pcb.isSome)
      rfl rfl rfl (by decide +kernel)
  rw [Bool.and_eq_true] at writes
  obtain ⟨after, taken, outcome, taken3⟩ := exists_of_writesThree writes.1
  obtain ⟨pcb, current⟩ := Option.isSome_iff_exists.mp writes.2
  refine ⟨before, after, reached, taken, outcome, ?_⟩
  rw [outcome]
  intro atomic
  have same :
      (after.pcb.map TcpPcb.sendView).map SendView.sndBuf =
        (before.pcb.map TcpPcb.sendView).map SendView.sndBuf :=
    congrArg (Option.map SendView.sndBuf) atomic
  rw [current] at same taken3
  cases left : after.pcb with
  | none =>
      rw [left] at taken3
      cases taken3
  | some final =>
      rw [left] at same taken3
      have sndBuf : final.sndBuf = pcb.sndBuf := Option.some.inj same
      have grown : final.sndBuf + 3 = pcb.sndBuf := Option.some.inj taken3
      omega

end NetstackLwip

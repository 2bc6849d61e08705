import NetstackLwip.ReceiverRules

namespace NetstackLwip

/-!
# How much a stream holds for its reader

The read channel is unbounded, and the window is credited for a whole chunk as
soon as it leaves the channel. What bounds it is the window itself: a byte in
the channel has been taken off `rcv_wnd` and not been credited yet. What is
left of a chunk moves to `write_buf` only when that is empty.
-/

open FaultState FaultMachine

/-! ## What `tcp_receive` takes -/

/-- A segment without SYN whose data is no longer than its length says. -/
structure Covered (seg : TcpSeg) : Prop where
  within : seg.p.totLen ≤ seg.len
  plain : seg.hdr.syn = false

/-- The sequence numbers of what has been taken. -/
def RecvOut.size (out : RecvOut) : Nat :=
  (out.recvData.getD []).totLen + if out.gotFin then 1 else 0

theorem Pbuf.totLen_realloc
    (p : Pbuf)
    (newLen : Nat) :
    (p.realloc newLen).totLen = min newLen p.totLen := by
  simp [totLen]

theorem Pbuf.data_removeFront
    (p : Pbuf)
    (off : Nat) :
    (p.removeFront off).data = p.data.drop off := by
  induction p generalizing off with
  | nil =>
      simp [removeFront, data]
  | cons buffer rest inductionHypothesis =>
      simp only [data] at inductionHypothesis
      unfold removeFront
      split
      · rename_i short
        simp [data, inductionHypothesis, List.drop_append,
          List.drop_eq_nil_of_le (Nat.le_of_lt short)]
      · rename_i enough
        have inside : off - buffer.length = 0 := by omega
        simp [data, List.drop_append, inside]

theorem Pbuf.totLen_cat
    (head tail : Pbuf) :
    (head.cat tail).totLen = head.totLen + tail.totLen := by
  simp [totLen]

namespace Covered

variable {seg : TcpSeg}

/-- A segment cut at its end is still covered. -/
theorem cut
    (covered : Covered seg)
    (newLen : Nat) :
    Covered { seg with len := newLen, p := seg.p.realloc newLen } where
  within := by
    rw [Pbuf.totLen_realloc]
    exact Nat.min_le_left _ _
  plain := covered.plain

theorem withFin
    (covered : Covered seg)
    (fin : Bool) :
    Covered { seg with hdr.fin := fin } :=
  ⟨covered.within, covered.plain⟩

/-- Its data and its FIN take up what its length says. -/
theorem size_le
    (covered : Covered seg) :
    seg.p.totLen + (if seg.hdr.fin then 1 else 0) ≤ seg.tcplen := by
  have within := covered.within
  unfold TcpSeg.tcplen
  rw [covered.plain, Bool.or_false]
  omega

end Covered

theorem RecvOut.take_size
    (out : RecvOut)
    {seg : TcpSeg}
    (covered : Covered seg) :
    (out.take seg).size ≤ out.size + seg.tcplen := by
  have size := covered.size_le
  have fins :
      (if out.gotFin || seg.hdr.fin then 1 else 0) ≤
        (if out.gotFin then 1 else 0) + if seg.hdr.fin then 1 else 0 := by
    cases out.gotFin <;> cases seg.hdr.fin <;> decide
  unfold RecvOut.size RecvOut.take
  simp only
  split
  · simp only [Option.getD_some, Pbuf.totLen_cat]
    omega
  · omega

/-- What is taken comes off the window, and what stays queued is covered. -/
structure Taken (before : RcvVars) (out : RecvOut) (after : RcvVars) :
    Prop where
  window : after.rcvWnd + out.size ≤ before.rcvWnd
  ooseq : ∀ seg ∈ after.ooseq, Covered seg

section Data

variable {world : World}

theorem trimStart_covered
    (trims : Bool)
    (rcvNxt : SeqNo)
    {inseg : TcpSeg}
    (covered : Covered inseg) :
    wp (trimStart trims rcvNxt inseg) (fun trimmed _ => Covered trimmed)
      (fun _ => True) world := by
  unfold trimStart trimFront
  rw [wp_ite]
  refine ⟨fun _ => ?_, fun _ => covered⟩
  simp only [wp_bind, wp_ensure, wp_pure]
  refine ⟨fun _ => ⟨fun inside => ?_, fun _ => trivial⟩, fun _ => trivial⟩
  have within := covered.within
  refine ⟨?_, covered.plain⟩
  unfold Pbuf.totLen at within ⊢
  simp only [Pbuf.data_removeFront, List.length_drop]
  omega

theorem trimToWnd_covered
    (rcvNxt : SeqNo)
    (rcvWnd : Nat)
    {inseg : TcpSeg}
    (covered : Covered inseg) :
    wp (trimToWnd rcvNxt rcvWnd inseg) (fun trimmed _ => Covered trimmed)
      (fun _ => True) world := by
  unfold trimToWnd
  rw [wp_ite]
  refine ⟨fun _ => ?_, fun _ => covered⟩
  simp only [wp_bind, wp_ensure, wp_pure]
  exact ⟨fun _ => (covered.withFin false).cut _, fun _ => trivial⟩

theorem dropCovered_covered
    {inseg : TcpSeg}
    {ooseq : List TcpSeg}
    (covered : Covered inseg)
    (queued : ∀ seg ∈ ooseq, Covered seg) :
    Covered (dropCovered inseg ooseq).1 ∧
      ∀ seg ∈ (dropCovered inseg ooseq).2, Covered seg := by
  induction ooseq generalizing inseg with
  | nil =>
      exact ⟨covered, queued⟩
  | cons next rest inductionHypothesis =>
      unfold dropCovered
      split
      · exact inductionHypothesis (covered.withFin _)
          fun seg member => queued seg (List.mem_cons_of_mem _ member)
      · exact ⟨covered, queued⟩

theorem mergeOoseq_covered
    {inseg : TcpSeg}
    {ooseq : List TcpSeg}
    (covered : Covered inseg)
    (queued : ∀ seg ∈ ooseq, Covered seg) :
    wp (mergeOoseq inseg ooseq)
      (fun result _ => Covered result.1 ∧ ∀ seg ∈ result.2, Covered seg)
      (fun _ => True) world := by
  unfold mergeOoseq
  rw [wp_ite]
  refine ⟨fun _ => ⟨covered, List.forall_mem_nil _⟩, fun _ => ?_⟩
  obtain ⟨kept, left⟩ := dropCovered_covered covered queued
  split
  · rename_i dropped
    rw [dropped] at kept
    exact ⟨kept, List.forall_mem_nil _⟩
  · rename_i next rest dropped
    rw [dropped] at kept left
    rw [wp_ite]
    refine ⟨fun _ => ?_, fun _ => ⟨kept, left⟩⟩
    simp only [wp_bind, wp_ensure, wp_pure]
    exact ⟨fun _ => ⟨kept.cut _, left⟩, fun _ => trivial⟩

theorem drainOoseq_taken
    (queue : List TcpSeg)
    (out : RecvOut)
    (pcb : TcpPcb)
    (queued : ∀ seg ∈ queue, Covered seg) :
    wp (drainOoseq queue out pcb)
      (fun result _ =>
        result.2.rcvWnd + result.1.size ≤ pcb.rcvWnd + out.size ∧
          ∀ seg ∈ result.2.ooseq, Covered seg)
      (fun _ => True) world := by
  induction queue generalizing out pcb world with
  | nil =>
      exact ⟨Nat.le_refl _, List.forall_mem_nil _⟩
  | cons cseg rest inductionHypothesis =>
      rw [List.forall_mem_cons] at queued
      unfold drainOoseq
      rw [wp_ite]
      refine ⟨fun _ => ?_, fun _ =>
        ⟨Nat.le_refl _, List.forall_mem_cons.mpr queued⟩⟩
      rw [wp_bind]
      refine wp_weaken
        (advanceRcv_spec _ cseg pcb (.inr trivial) trivial) ?_
      rintro _ later ⟨rfl, fits, wnd, rfl⟩
      refine wp_weaken (inductionHypothesis _ _ queued.2) ?_
      rintro ⟨result, after⟩ last ⟨window, left⟩
      have grown := out.take_size queued.1
      refine ⟨?_, left⟩
      simp only at window ⊢
      omega

theorem receiveInOrder_taken
    {inseg : TcpSeg}
    (pcb : TcpPcb)
    (covered : Covered inseg)
    (queued : ∀ seg ∈ pcb.ooseq, Covered seg) :
    wp (receiveInOrder inseg pcb)
      (fun result _ => Taken pcb.toRcvVars result.1 result.2.toRcvVars)
      (fun _ => True) world := by
  unfold receiveInOrder
  rw [wp_bind]
  refine wp_weaken (trimToWnd_covered _ _ covered) fun cut middle trimmed => ?_
  rw [wp_bind]
  refine wp_weaken (mergeOoseq_covered trimmed queued) ?_
  rintro ⟨merged, queue⟩ later ⟨kept, left⟩
  rw [wp_bind]
  refine wp_weaken (advanceRcv_spec _ merged _ (.inr trivial) trivial) ?_
  rintro _ last ⟨rfl, fits, wnd, rfl⟩
  rw [wp_bind]
  refine wp_weaken (drainOoseq_taken queue _ _ left) ?_
  rintro ⟨out, after⟩ final ⟨window, behind⟩
  have first :
      (RecvOut.take {} merged).size ≤ RecvOut.size {} + merged.tcplen :=
    RecvOut.take_size {} kept
  have nothing : RecvOut.size {} = 0 := rfl
  have same : (tcpAck after).toRcvVars = after.toRcvVars := by
    unfold tcpAck
    split <;> rfl
  rw [wp_pure, same]
  refine ⟨?_, behind⟩
  dsimp only at window fits ⊢
  omega

/-! ### Out of order -/

theorem trimBefore_covered
    (seqno : SeqNo)
    {prev : TcpSeg}
    (covered : Covered prev) :
    Covered (trimBefore seqno prev) := by
  unfold trimBefore
  split
  · exact covered.cut _
  · exact covered

theorem oosCovering_covered
    {cseg : TcpSeg}
    {queue : List TcpSeg}
    (covered : Covered cseg)
    (queued : ∀ seg ∈ queue, Covered seg) :
    ∀ seg ∈ oosCovering cseg queue, Covered seg := by
  induction queue generalizing cseg with
  | nil =>
      simpa [oosCovering] using covered
  | cons next rest inductionHypothesis =>
      unfold oosCovering
      split
      · exact inductionHypothesis (covered.withFin _)
          fun seg member => queued seg (List.mem_cons_of_mem _ member)
      · split
        · exact List.forall_mem_cons.mpr ⟨covered.cut _, queued⟩
        · exact List.forall_mem_cons.mpr ⟨covered, queued⟩

theorem tcpOosInsertSegment_covered
    {cseg : TcpSeg}
    {queue : List TcpSeg}
    (covered : Covered cseg)
    (queued : ∀ seg ∈ queue, Covered seg) :
    ∀ seg ∈ tcpOosInsertSegment cseg queue, Covered seg := by
  unfold tcpOosInsertSegment
  split
  · simpa using covered
  · exact oosCovering_covered covered queued

theorem oosInsertBefore_covered
    {inseg : TcpSeg}
    {queue : List TcpSeg}
    (covered : Covered inseg)
    (queued : ∀ seg ∈ queue, Covered seg) :
    wp (oosInsertBefore inseg queue)
      (fun result _ => ∀ seg ∈ result, Covered seg) (fun _ => True) world := by
  unfold oosInsertBefore
  rw [wp_bind]
  refine wp_allocate fun outcome left => ?_
  rw [wp_ite]
  exact ⟨fun _ => tcpOosInsertSegment_covered covered queued, fun _ => queued⟩

theorem oosAppend_covered
    (rightEdge : SeqNo)
    {inseg next : TcpSeg}
    (covered : Covered inseg)
    (nextCovered : Covered next) :
    wp (oosAppend rightEdge inseg next)
      (fun result _ => ∀ seg ∈ result, Covered seg) (fun _ => True) world := by
  have alone : ∀ seg ∈ [next], Covered seg := by
    simpa using nextCovered
  have both (last : TcpSeg) (lastCovered : Covered last) :
      ∀ seg ∈ [trimBefore inseg.seqno next, last], Covered seg := by
    simpa using And.intro (trimBefore_covered inseg.seqno nextCovered)
      lastCovered
  unfold oosAppend
  rw [wp_ite]
  refine ⟨fun _ => alone, fun _ => ?_⟩
  rw [wp_bind]
  refine wp_allocate fun outcome left => ?_
  simp only [wp_ite, wp_bind, wp_ensure, wp_pure]
  exact ⟨fun _ => ⟨fun _ => ⟨fun _ =>
    both _ ((covered.withFin false).cut _), fun _ => trivial⟩,
    fun _ => both _ covered⟩, fun _ => alone⟩

theorem oosPlace_covered
    (rightEdge : SeqNo)
    {inseg : TcpSeg}
    (prev : Option TcpSeg)
    (queue : List TcpSeg)
    (covered : Covered inseg)
    (passed : ∀ seg ∈ prev, Covered seg)
    (queued : ∀ seg ∈ queue, Covered seg) :
    wp (oosPlace rightEdge inseg prev queue)
      (fun result _ => ∀ seg ∈ result, Covered seg) (fun _ => True) world := by
  have before : ∀ seg ∈ prev.toList, Covered seg := by
    simpa using passed
  have joined (rest : List TcpSeg) (restCovered : ∀ seg ∈ rest, Covered seg) :
      ∀ seg ∈ prev.toList ++ rest, Covered seg :=
    List.forall_mem_append.mpr ⟨before, restCovered⟩
  induction queue generalizing prev world with
  | nil =>
      exact before
  | cons next rest inductionHypothesis =>
      obtain ⟨nextCovered, restCovered⟩ := List.forall_mem_cons.mp queued
      have further := @inductionHypothesis world (some next)
        (by simpa using nextCovered) restCovered (by simpa using nextCovered)
        fun more moreCovered => by
          simpa using And.intro nextCovered moreCovered
      unfold oosPlace
      rw [wp_ite]
      refine ⟨fun _ => ?_, fun _ => ?_⟩
      · rw [wp_ite]
        refine ⟨fun _ => ?_, fun _ => joined _ queued⟩
        rw [wp_bind]
        exact wp_weaken (oosInsertBefore_covered covered queued)
          fun result _ all => joined result all
      cases prev with
      | none =>
          simp only
          rw [wp_ite]
          refine ⟨fun _ => oosInsertBefore_covered covered queued, fun _ => ?_⟩
          rw [wp_ite]
          exact ⟨fun _ => oosAppend_covered _ covered nextCovered,
            fun _ => further⟩
      | some prev =>
          have prevCovered : Covered prev := passed prev rfl
          simp only
          rw [wp_ite]
          refine ⟨fun _ => ?_, fun _ => ?_⟩
          · rw [wp_bind]
            refine wp_allocate fun outcome left => ?_
            rw [wp_ite]
            exact ⟨fun _ => List.forall_mem_cons.mpr
              ⟨trimBefore_covered _ prevCovered,
                tcpOosInsertSegment_covered covered queued⟩,
              fun _ => List.forall_mem_cons.mpr ⟨prevCovered, queued⟩⟩
          rw [wp_ite]
          refine ⟨fun _ => ?_, fun _ => ?_⟩
          · rw [wp_bind]
            exact wp_weaken (oosAppend_covered _ covered nextCovered)
              fun result _ all => List.forall_mem_cons.mpr ⟨prevCovered, all⟩
          · rw [wp_bind]
            exact wp_weaken further
              fun result _ all => List.forall_mem_cons.mpr ⟨prevCovered, all⟩

theorem receiveOutOfOrder_taken
    {inseg : TcpSeg}
    (pcb : TcpPcb)
    (covered : Covered inseg)
    (queued : ∀ seg ∈ pcb.ooseq, Covered seg) :
    wp (receiveOutOfOrder inseg pcb)
      (fun result _ => Taken pcb.toRcvVars {} result.toRcvVars)
      (fun _ => True) world := by
  have inserted :
      wp (oosInsert (pcb.rcvNxt + BitVec.ofNat 32 pcb.rcvWnd) inseg pcb.ooseq)
        (fun result _ => ∀ seg ∈ result, Covered seg) (fun _ => True)
        world := by
    unfold oosInsert
    split
    · rw [wp_bind]
      refine wp_allocate fun outcome left => ?_
      rw [wp_ite]
      exact ⟨fun _ => by simpa using covered, fun _ => List.forall_mem_nil _⟩
    · rename_i found
      rw [found] at queued
      exact oosPlace_covered _ none _ covered (by simp) queued
  unfold receiveOutOfOrder
  rw [wp_bind]
  refine wp_weaken inserted fun queue middle all => ?_
  rw [wp_bind]
  refine wp_weaken (tcpSendEmptyAck_spec _) ?_
  rintro ⟨_, after⟩ later ⟨frame, _⟩
  have rcv := frame.rcv
  rw [wp_pure]
  dsimp only at rcv ⊢
  rw [rcv]
  exact ⟨Nat.le_refl _, all⟩

/-- The data part of `tcp_receive` on a segment without SYN. -/
theorem tcpReceiveData_taken
    {inseg : TcpSeg}
    (pcb : TcpPcb)
    (covered : Covered inseg)
    (queued : ∀ seg ∈ pcb.ooseq, Covered seg) :
    wp (tcpReceiveData inseg pcb)
      (fun result _ => Taken pcb.toRcvVars result.1 result.2.toRcvVars)
      (fun _ => True) world := by
  have idle : Taken pcb.toRcvVars {} pcb.toRcvVars :=
    ⟨Nat.le_refl _, queued⟩
  unfold tcpReceiveData
  rw [wp_ite]
  refine ⟨fun _ => ?_, fun _ => ?_⟩
  · have noted (now : TcpPcb)
        (rcv : now.toRcvVars = pcb.toRcvVars) :
        wp
          (trimStart (frontTrims inseg.seqno inseg.tcplen pcb.rcvNxt)
              now.rcvNxt inseg >>= fun inseg =>
            if inWindow inseg.seqno now.rcvNxt now.rcvWnd = true then
              if now.rcvNxt = inseg.seqno then
                receiveInOrder inseg now
              else
                receiveOutOfOrder inseg now >>= fun pcb =>
                  pure (({} : RecvOut), pcb)
            else
              tcpSendEmptyAck now >>= fun result =>
                pure (({} : RecvOut), result.2))
          (fun result _ => Taken pcb.toRcvVars result.1 result.2.toRcvVars)
          (fun _ => True) world := by
      have same : ∀ seg ∈ now.ooseq, Covered seg := by
        rw [rcv]
        exact queued
      rw [wp_bind]
      refine wp_weaken (trimStart_covered _ _ covered) ?_
      intro trimmed middle kept
      rw [wp_ite]
      refine ⟨fun _ => ?_, fun _ => ?_⟩
      · rw [wp_ite, ← rcv]
        refine ⟨fun _ => receiveInOrder_taken now kept same, fun _ => ?_⟩
        rw [wp_bind]
        exact receiveOutOfOrder_taken now kept same
      · rw [wp_bind]
        refine wp_weaken (tcpSendEmptyAck_spec now) ?_
        rintro ⟨_, after⟩ later ⟨frame, _⟩
        have unmoved := frame.rcv.trans rcv
        rw [wp_pure]
        dsimp only at unmoved ⊢
        rw [unmoved]
        exact idle
    simp only
    split
    · exact noted { pcb with flags.ackNow := true } rfl
    · exact noted pcb rfl
  · rw [wp_ite]
    exact ⟨fun _ => idle, fun _ => idle⟩

end Data

theorem Received.mono
    {strong weak : RecvOut → RcvVars → Prop}
    {before after : RcvVars}
    {recv : RecvOut}
    (received : Received strong before recv after)
    (implies : ∀ out rcv, strong out rcv → weak out rcv) :
    Received weak before recv after := by
  rcases received with idle | ⟨rcv, holds, moved⟩
  · exact .inl idle
  · exact .inr ⟨rcv, implies _ _ holds, moved⟩

/-- The window and the queue once the FIN has been handed over as well. -/
theorem Received.taken
    {before after : RcvVars}
    {recv : RecvOut}
    (received : Received (fun out rcv => Taken before out rcv) before recv after)
    (queued : ∀ seg ∈ before.ooseq, Covered seg) :
    after.rcvWnd + (recv.recvData.getD []).totLen ≤ before.rcvWnd ∧
      ∀ seg ∈ after.ooseq, Covered seg := by
  rcases received with ⟨rfl, rfl⟩ | ⟨rcv, taken, either⟩
  · exact ⟨Nat.le_refl _, queued⟩
  have window := taken.window
  unfold RecvOut.size at window
  have fin (vars : RcvVars) (same : vars.rcvWnd = rcv.rcvWnd) :
      (finRcv recv.gotFin vars).rcvWnd +
          (recv.recvData.getD []).totLen ≤ before.rcvWnd := by
    unfold finRcv
    split
    · rename_i got
      rw [if_pos got.1] at window
      have wrapped := Nat.mod_le (vars.rcvWnd + 1) 65536
      simp only
      omega
    · omega
  have finQueue (vars : RcvVars) :
      (finRcv recv.gotFin vars).ooseq = vars.ooseq := by
    unfold finRcv
    split <;> rfl
  rcases either with rfl | rfl
  · exact ⟨fin rcv rfl, by rw [finQueue]; exact taken.ooseq⟩
  · exact ⟨fin _ rfl, by rw [finQueue]; exact List.forall_mem_nil _⟩

/-! ## What the stream holds -/

/-- The bytes of chunks in the channel. -/
def channelBytes (chunks : List Bytes) : Nat :=
  (chunks.map List.length).sum

/-- The received bytes that a stream holds for its reader. -/
def TcpStream.held (stream : TcpStream) : Nat :=
  channelBytes stream.readRx + stream.writeBuf.length

/-- What the channel holds has been handed over, and what is left in
`write_buf` is left of one chunk. -/
structure Buffered (chunks : List Bytes) (stream : TcpStream) : Prop where
  readRx : ∀ chunk ∈ stream.readRx, chunk = [] ∨ chunk ∈ chunks
  writeBuf :
    stream.writeBuf = [] ∨
      ∃ chunk ∈ chunks, stream.writeBuf.length ≤ chunk.length

namespace Buffered

variable {chunks : List Bytes} {stream : TcpStream}

theorem more
    (buffered : Buffered chunks stream)
    (new : List Bytes) :
    Buffered (chunks ++ new) stream where
  readRx chunk member :=
    (buffered.readRx chunk member).imp_right fun known =>
      List.mem_append_left new known
  writeBuf := by
    rcases buffered.writeBuf with empty | ⟨chunk, member, longer⟩
    · exact .inl empty
    · exact .inr ⟨chunk, List.mem_append_left new member, longer⟩

/-- Buffers that are the same hold the same. -/
theorem congr
    {other : TcpStream}
    (buffered : Buffered chunks stream)
    (readRx : other.readRx = stream.readRx)
    (writeBuf : other.writeBuf = stream.writeBuf) :
    Buffered chunks other where
  readRx := by
    rw [readRx]
    exact buffered.readRx
  writeBuf := by
    rw [writeBuf]
    exact buffered.writeBuf

theorem send
    (buffered : Buffered chunks stream)
    {chunk : Bytes}
    (known : chunk = [] ∨ chunk ∈ chunks) :
    Buffered chunks (stream.send chunk) := by
  unfold TcpStream.send
  split
  · refine ⟨?_, buffered.writeBuf⟩
    intro other member
    rcases List.mem_append.mp member with member | member
    · exact buffered.readRx other member
    · rw [List.mem_singleton.mp member]
      exact known
  · exact buffered

end Buffered

theorem TcpStream.send_bytes
    (chunk : Bytes)
    (stream : TcpStream) :
    channelBytes (stream.send chunk).readRx ≤
      channelBytes stream.readRx + chunk.length := by
  unfold TcpStream.send channelBytes
  split <;> simp

/-- The stream after a segment has been handed to it. -/
theorem Buffered.hear
    {chunks : List Bytes}
    {stream : TcpStream}
    (buffered : Buffered chunks stream)
    (recv : RecvOut) :
    Buffered (chunks ++ (recv.recvData.map Pbuf.data).toList)
        ((stream.hear recv).hearFin recv) ∧
      channelBytes ((stream.hear recv).hearFin recv).readRx ≤
        channelBytes stream.readRx + (recv.recvData.getD []).totLen := by
  have first :
      Buffered (chunks ++ (recv.recvData.map Pbuf.data).toList)
          (stream.hear recv) ∧
        channelBytes (stream.hear recv).readRx ≤
          channelBytes stream.readRx + (recv.recvData.getD []).totLen := by
    have kept := buffered.more (recv.recvData.map Pbuf.data).toList
    unfold TcpStream.hear
    split
    · exact ⟨kept, Nat.le_add_right _ _⟩
    · rename_i data delivered
      split
      · exact ⟨kept, Nat.le_add_right _ _⟩
      · rw [delivered] at kept ⊢
        exact ⟨kept.send (.inr (by simp)), stream.send_bytes data.data⟩
  unfold TcpStream.hearFin
  split
  · refine ⟨first.1.send (.inl rfl), ?_⟩
    exact Nat.le_trans (TcpStream.send_bytes [] _) first.2
  · exact first

/-! ## Reading -/

/-- A chunk that fits under the window is credited in full. -/
theorem recvedWnd_fits
    {rcvWnd len : Nat}
    (fits : rcvWnd + len ≤ tcpWnd) :
    recvedWnd rcvWnd (len % 65536) = rcvWnd + len := by
  have value : tcpWnd = 46720 := rfl
  have small : len % 65536 = len := Nat.mod_eq_of_lt (by omega)
  have whole : (rcvWnd + len) % 65536 = rcvWnd + len :=
    Nat.mod_eq_of_lt (by omega)
  unfold recvedWnd
  rw [small]
  simp only
  rw [whole, if_neg (by omega)]

/-- What a read takes out of the channel it returns to the window. -/
theorem readChunks_window
    (queue : List Bytes)
    (recvs : List Bool)
    (remaining : Nat)
    (taken : Bytes)
    (stream : TcpStream)
    (rcvWnd : Nat)
    (fits : rcvWnd + channelBytes queue ≤ tcpWnd) :
    creditedWnd rcvWnd (readChunks queue recvs remaining taken stream).credited +
        channelBytes
          (readChunks queue recvs remaining taken stream).stream.readRx ≤
      tcpWnd := by
  induction queue generalizing recvs remaining taken rcvWnd with
  | nil =>
      exact fits
  | cons data rest inductionHypothesis =>
      have counts : channelBytes (data :: rest) =
          data.length + channelBytes rest := by
        simp [channelBytes]
      have credited := @recvedWnd_fits rcvWnd data.length (by omega)
      unfold readChunks
      split
      · exact fits
      split
      · simp only [creditedWnd, List.foldl_nil]
        omega
      · simp only
        split
        · simp only [creditedWnd, List.foldl_cons, List.foldl_nil, credited]
          omega
        · have further :=
            inductionHypothesis recvs.tail
              (remaining - min remaining data.length)
              (taken ++ data.take (min remaining data.length))
              (rcvWnd + data.length) (by omega)
          simp only [creditedWnd, List.foldl_cons, credited]
          exact further

/-- A read leaves the rest of at most one chunk in an empty `write_buf`. -/
theorem readChunks_buffered
    {chunks : List Bytes}
    (queue : List Bytes)
    (recvs : List Bool)
    (remaining : Nat)
    (taken : Bytes)
    {stream : TcpStream}
    (known : ∀ chunk ∈ queue, chunk = [] ∨ chunk ∈ chunks)
    (empty : stream.writeBuf = []) :
    Buffered chunks (readChunks queue recvs remaining taken stream).stream := by
  induction queue generalizing recvs remaining taken with
  | nil =>
      exact ⟨List.forall_mem_nil _, .inl empty⟩
  | cons data rest inductionHypothesis =>
      obtain ⟨dataKnown, restKnown⟩ := List.forall_mem_cons.mp known
      unfold readChunks
      split
      · exact ⟨known, .inl empty⟩
      split
      · exact ⟨restKnown, .inl empty⟩
      · rename_i nonempty
        simp only
        split
        · refine ⟨restKnown, .inr ⟨data, ?_, ?_⟩⟩
          · exact dataKnown.resolve_left (by simpa using nonempty)
          · simp only [empty, List.nil_append, List.length_drop]
            exact Nat.sub_le _ _
        · exact inductionHypothesis _ _ _ restKnown

/-- A read of any length. -/
theorem Buffered.read
    {chunks : List Bytes}
    {stream : TcpStream}
    (buffered : Buffered chunks stream)
    (recvs : List Bool)
    (remaining rcvWnd : Nat)
    (fits : rcvWnd + channelBytes stream.readRx ≤ tcpWnd) :
    Buffered chunks (readStream recvs remaining stream).stream ∧
      creditedWnd rcvWnd (readStream recvs remaining stream).credited +
          channelBytes (readStream recvs remaining stream).stream.readRx ≤
        tcpWnd := by
  unfold readStream
  split
  · refine ⟨⟨buffered.readRx, ?_⟩, fits⟩
    rcases buffered.writeBuf with empty | ⟨chunk, member, longer⟩
    · exact .inl (by simp [empty])
    · refine .inr ⟨chunk, member, Nat.le_trans ?_ longer⟩
      simp only [List.length_drop]
      exact Nat.sub_le _ _
  · rename_i empty
    exact ⟨readChunks_buffered _ _ _ _ buffered.readRx (by simpa using empty),
      readChunks_window _ _ _ _ _ _ fits⟩

/-! ## Runs -/

/-- A connection and the chunks that its stream has been handed so far. -/
structure Recorded where
  conn : Conn
  chunks : List Bytes

/-- The chunk a step hands to the stream of a pcb that is still there. -/
def handedOver (before : Conn) (label : Label) (after : Conn) : List Bytes :=
  if after.pcb.isSome && after.world.stream.isSome then
    ((acceptedBy before.pcb label before.world).recvData.map
      Pbuf.data).toList
  else
    []

/-- One event of the connection, its chunk recorded. -/
def Recorded.step (recorded : Recorded) (label : Label) :
    Except Fault Recorded :=
  match recorded.conn.step label with
  | .ok conn =>
      .ok {
        conn
        chunks := recorded.chunks ++ handedOver recorded.conn label conn }
  | .error fault => .error fault

/-- The connection with its chunks recorded. -/
def recordedMachine : Machine Fault Recorded Label where
  initial recorded := recorded.conn.Initial ∧ recorded.chunks = []
  step := Recorded.step

/-- The event is not a segment with SYN. -/
def Label.NoSyn (label : Label) : Prop :=
  ∀ packet, label.event = .segment packet → packet.flags.syn = false

/-- The stream of the pcb is, or may yet be, reading. -/
def Reading (pcb : TcpPcb) (stream : Option TcpStream) : Prop :=
  pcb.state = .synRcvd ∨ stream.isSome = true

/-- The receiver of such a pcb: what its channel holds is off the window. -/
structure Windowed (pcb : TcpPcb) (stream : Option TcpStream) : Prop where
  ooseq : ∀ seg ∈ pcb.ooseq, Covered seg
  rcvWnd : pcb.rcvWnd ≤ tcpWnd
  channel :
    ∀ reader, stream = some reader →
      pcb.rcvWnd + channelBytes reader.readRx ≤ tcpWnd

/-- What holds of every run without SYN segments. -/
structure Recorded.Bounded (recorded : Recorded) : Prop where
  reached : connMachine.Reached recorded.conn
  chunks : ∀ chunk ∈ recorded.chunks, chunk.length ≤ tcpWnd
  stream :
    ∀ reader, recorded.conn.world.stream = some reader →
      Buffered recorded.chunks reader ∧ channelBytes reader.readRx ≤ tcpWnd
  pcb :
    ∀ pcb, recorded.conn.pcb = some pcb →
      Reading pcb recorded.conn.world.stream →
        Windowed pcb recorded.conn.world.stream

theorem Windowed.congr
    {before after : TcpPcb}
    {stream later : Option TcpStream}
    (windowed : Windowed before stream)
    (rcv : after.toRcvVars = before.toRcvVars)
    (unread : Unread stream later) :
    Windowed after later := by
  refine ⟨by rw [rcv]; exact windowed.ooseq,
    by rw [rcv]; exact windowed.rcvWnd, ?_⟩
  rw [rcv]
  intro reader present
  rcases unread with rfl | ⟨known, closed, waker, rfl, rfl⟩
  · exact windowed.channel reader present
  · cases present
    exact windowed.channel known rfl

theorem Unread.isSome
    {before after : Option TcpStream}
    (unread : Unread before after) :
    after.isSome = before.isSome := by
  rcases unread with rfl | ⟨known, closed, waker, rfl, rfl⟩ <;> rfl

/-- The chunk of `recv`, for a stream that is there to take it. -/
def chunkFor (later : Option TcpStream) (recv : RecvOut) : List Bytes :=
  if later.isSome then (recv.recvData.map Pbuf.data).toList else []

/-- A segment is handed to the stream of its pcb. -/
theorem Windowed.hear
    {chunks : List Bytes}
    {before after : TcpPcb}
    {reader : TcpStream}
    {recv : RecvOut}
    (windowed : Windowed before (some reader))
    (buffered : Buffered chunks reader)
    (received :
      Received (fun out rcv => Taken before.toRcvVars out rcv)
        before.toRcvVars recv after.toRcvVars) :
    (∀ chunk ∈ (recv.recvData.map Pbuf.data).toList,
        chunk.length ≤ tcpWnd) ∧
      Buffered (chunks ++ (recv.recvData.map Pbuf.data).toList)
        ((reader.hear recv).hearFin recv) ∧
      Windowed after (some ((reader.hear recv).hearFin recv)) := by
  obtain ⟨window, ooseq⟩ := received.taken windowed.ooseq
  obtain ⟨kept, bytes⟩ := buffered.hear recv
  have bounded := windowed.rcvWnd
  have room := windowed.channel reader rfl
  refine ⟨?_, kept, ooseq, by omega, ?_⟩
  · cases recvd : recv.recvData with
    | none =>
        simp
    | some data =>
        have size : data.data.length ≤ tcpWnd := by
          rw [recvd] at window
          exact Nat.le_trans (Nat.le_trans (Nat.le_add_left _ _) window) bounded
        simpa using size
  · rintro _ ⟨⟩
    omega

/-- What an event does to the receiver keeps it within the window. -/
theorem Receives.windowed
    {chunks : List Bytes}
    {before after : TcpPcb}
    {stream later : Option TcpStream}
    {event : Event}
    {recv : RecvOut}
    {outcome : Outcome}
    (receives :
      Receives
        (fun _ out rcv =>
          Reading before stream → Taken before.toRcvVars out rcv)
        before stream event recv outcome after later)
    (windowed : Reading before stream → Windowed before stream)
    (buffered : ∀ reader, stream = some reader → Buffered chunks reader)
    (streaming : stream.isSome = true → before.recv = .tcpRecvCb)
    (single : before.state = .synRcvd → stream = none) :
    (∀ chunk ∈ chunkFor later recv, chunk.length ≤ tcpWnd) ∧
      (∀ reader, later = some reader →
        Buffered (chunks ++ chunkFor later recv) reader) ∧
      (Reading after later → Windowed after later) := by
  have quiet (next : Option TcpStream) : chunkFor next {} = [] := by
    unfold chunkFor
    split <;> rfl
  cases receives with
  | idle state rcv unread _ =>
      have waits (still : after.state = .synRcvd) :
          before.state = .synRcvd := by
        rcases state with same | shuts
        · exact same ▸ still
        · exact absurd still shuts.ne_synRcvd
      rw [quiet, List.append_nil]
      refine ⟨List.forall_mem_nil _, ?_, fun may =>
        (windowed ?_).congr rcv unread⟩
      · intro reader present
        rcases unread with rfl | ⟨known, closed, waker, rfl, rfl⟩
        · exact buffered reader present
        · cases present
          exact (buffered known rfl).congr rfl rfl
      · unfold Reading at may
        rw [unread.isSome] at may
        exact may.imp_left waits
  | stale state rcv =>
      rw [quiet, List.append_nil]
      refine ⟨List.forall_mem_nil _, buffered, fun may => ?_⟩
      unfold Reading at may
      rw [state] at may
      have kept := windowed may
      refine ⟨?_, ?_, ?_⟩
      · rw [rcv]
        exact List.forall_mem_nil _
      · rw [rcv]
        exact kept.rcvWnd
      · rw [rcv]
        exact kept.channel
  | read recvs remaining known present state rcv =>
      subst present
      have kept := windowed (.inr rfl)
      obtain ⟨left, room⟩ :=
        (buffered known rfl).read recvs remaining before.rcvWnd
          (kept.channel known rfl)
      rw [quiet, List.append_nil]
      refine ⟨List.forall_mem_nil _, ?_, fun _ => ⟨?_, ?_, ?_⟩⟩
      · rintro reader ⟨⟩
        exact left
      · rw [rcv]
        exact kept.ooseq
      · rw [rcv]
        exact Nat.le_trans (Nat.le_add_right _ _) room
      · rintro reader ⟨⟩
        rw [rcv]
        exact room
  | segment packet recv moves waits waiting received =>
      unfold heard
      cases stream with
      | none =>
          have nobody :
              (if before.recv = .tcpRecvCb then
                (none : Option TcpStream).map fun stream =>
                  (stream.hear recv).hearFin recv
              else
                none) = none := by
            split <;> rfl
          rw [nobody]
          refine ⟨List.forall_mem_nil _, by simp, fun may => ?_⟩
          have still := may.resolve_right (by simp)
          have first : before.state = .synRcvd := by
            by_contra synchronized
            exact moves.synRcvd synchronized still
          exact (windowed (.inl first)).congr (waiting still).2 (.inl rfl)
      | some reader =>
          have installed := streaming rfl
          obtain ⟨small, kept, within⟩ :=
            (windowed (.inr rfl)).hear (buffered reader rfl)
              ((received installed).mono fun _ _ taken => taken (.inr rfl))
          rw [if_pos installed]
          refine ⟨small, ?_, fun _ => within⟩
          rintro _ ⟨⟩
          exact kept
  | accepted packet recv addr id synRcvd moves synchronized received =>
      have noChunks := single synRcvd
      subst noChunks
      have bounded := windowed (.inl synRcvd)
      have empty : Buffered chunks (newStream addr id before).1 :=
        ⟨List.forall_mem_nil _, .inl rfl⟩
      have first : Windowed before (some (newStream addr id before).1) := by
        refine ⟨bounded.ooseq, bounded.rcvWnd, ?_⟩
        rintro _ ⟨⟩
        exact bounded.rcvWnd
      obtain ⟨small, kept, within⟩ :=
        first.hear empty (received.mono fun _ _ taken => taken (.inl synRcvd))
      refine ⟨small, ?_, fun _ => within⟩
      rintro _ ⟨⟩
      exact kept
  | dropped state rcv =>
      rw [quiet, List.append_nil]
      refine ⟨List.forall_mem_nil _, by simp, fun may => ?_⟩
      have waits := may.resolve_right (by simp)
      rw [state] at waits
      have kept := windowed (.inl waits)
      exact ⟨by rw [rcv]; exact kept.ooseq, by rw [rcv]; exact kept.rcvWnd,
        by simp⟩

/-- The stream of a pcb that is freed keeps what it holds, if it is there. -/
theorem Freed.buffers
    {before : TcpPcb}
    {stream later : Option TcpStream}
    {event : Event}
    (freed : Freed before stream event later)
    {reader : TcpStream}
    (present : later = some reader) :
    ∃ known,
      stream = some known ∧ reader.readRx = known.readRx ∧
        reader.writeBuf = known.writeBuf := by
  have failed (errf : Bool) (same : told errf stream = some reader) :
      ∃ known,
        stream = some known ∧ reader.readRx = known.readRx ∧
          reader.writeBuf = known.writeBuf := by
    unfold told at same
    split at same
    · obtain ⟨known, isSome, rfl⟩ := Option.map_eq_some_iff.mp same
      exact ⟨known, isSome, rfl, rfl⟩
    · exact ⟨reader, same, rfl, rfl⟩
  cases freed with
  | ended packet ends =>
      exact failed _ present
  | expired waiting =>
      exact ⟨reader, present, rfl, rfl⟩
  | timedOut =>
      exact failed _ present
  | aborted =>
      cases present
  | killed state =>
      unfold endTold at present
      split at present
      · exact ⟨reader, present, rfl, rfl⟩
      · exact failed _ present

/-- What becomes of a stream whose pcb is freed: it stays, it goes, or it is
read as far as its pcb is not needed. -/
inductive Left (stream : Option TcpStream) : Option TcpStream → Prop where
  | stays : Left stream stream
  | goes : Left stream none
  | read
      (recvs : List Bool)
      (remaining : Nat)
      (known : TcpStream)
      (present : stream = some known) :
      Left stream (some (readStream recvs remaining known).stream)

/-- Reading such a stream does not make it hold more. -/
theorem Left.buffers
    {chunks : List Bytes}
    {stream later : Option TcpStream}
    (left : Left stream later)
    (bounded :
      ∀ reader, stream = some reader →
        Buffered chunks reader ∧ channelBytes reader.readRx ≤ tcpWnd)
    (reader : TcpStream)
    (present : later = some reader) :
    Buffered chunks reader ∧ channelBytes reader.readRx ≤ tcpWnd := by
  cases left with
  | stays => exact bounded reader present
  | goes => cases present
  | read recvs remaining known before =>
      cases present
      obtain ⟨buffered, fits⟩ := bounded known before
      obtain ⟨kept, room⟩ :=
        buffered.read recvs remaining 0 (by omega)
      exact ⟨kept, Nat.le_trans (Nat.le_add_left _ _) room⟩

theorem perform_none_stream
    (event : Event)
    (world : World) :
    wp (perform none event) (fun _ later => Left world.stream later.stream)
      (fun _ => True) world := by
  have called (broken : Outcome)
      (freed : TcpStream → Lwip Outcome)
      (call : TcpStream → TcpPcb → Lwip (Option TcpPcb × Outcome))
      (reads :
        ∀ stream,
          world.stream = some stream →
            wp (freed stream)
              (fun _ later => Left (some stream) later.stream)
              (fun _ => True) world) :
      wp (onStream none broken freed call)
        (fun _ later => Left world.stream later.stream) (fun _ => True)
        world := by
    unfold onStream
    rw [wp_bind, wp_get]
    cases present : world.stream with
    | none =>
        show Left none world.stream
        rw [present]
        exact .stays
    | some stream =>
        simp only
        rw [wp_ite]
        refine ⟨fun _ => ?_, fun _ => ?_⟩
        · show Left (some stream) world.stream
          rw [present]
          exact .stays
        · rw [wp_bind]
          exact wp_weaken (reads stream present) fun _ _ left => left
  cases event with
  | dropStream =>
      unfold perform
      rw [wp_bind]
      exact wp_weaken (called .silent useFreed _ fun _ _ => trivial)
        fun _ _ _ => .goes
  | pollRead remaining =>
      unfold perform
      refine called _ _ _ fun stream present => ?_
      refine wp_mono (readFreed_spec remaining stream world) ?_
        fun _ _ => trivial
      rintro _ _ ⟨-, -, rfl⟩
      exact .read world.recvs remaining stream rfl
  | pollWrite buf =>
      unfold perform
      exact called _ _ _ fun _ _ => trivial
  | pollFlush =>
      unfold perform
      exact called _ _ _ fun _ _ => trivial
  | pollShutdown =>
      unfold perform
      exact called _ _ _ fun _ _ => trivial
  | _ =>
      exact .stays

theorem inputSeg_covered
    (packet : Packet)
    (noSyn : packet.flags.syn = false) :
    Covered (inputSeg packet) where
  within := by
    simp [inputSeg, Pbuf.totLen, Pbuf.data]
  plain := noSyn

/-- A connection opens with its whole window and no stream. -/
theorem Conn.initial_windowed
    {conn : Conn}
    (initial : conn.Initial) :
    conn.world.stream = none ∧
      ∀ pcb, conn.pcb = some pcb → Windowed pcb none := by
  obtain ⟨packet, listener, iss, world, -, -, -, -, stream, opened, current,
    -⟩ := initial
  have kept :=
    wp_returned
      ((inUseInvariant.rules ⟨iss, [], false⟩).tcpListenInputSyn_kept
        packet.toPacket listener iss world
        (inUseInvariant.opening _ _ _ _))
      opened
  cases pcb : conn.pcb with
  | none =>
      simp [pcb] at current
  | some pcb =>
      rw [pcb] at kept
      refine ⟨kept.emits.stream.trans stream, ?_⟩
      rintro _ ⟨⟩
      have rcv := kept.frame.rcv
      refine ⟨?_, ?_, by simp⟩
      · rw [rcv]
        exact List.forall_mem_nil _
      · rw [rcv]
        exact Nat.le_refl _

/-- A step without SYN keeps what the stream holds within the window. -/
theorem Recorded.step_bounded
    {before after : Recorded}
    {label : Label}
    (bounded : before.Bounded)
    (noSyn : label.NoSyn)
    (taken : before.step label = .ok after) :
    after.Bounded := by
  unfold Recorded.step at taken
  split at taken
  swap
  · cases taken
  rename_i conn stepped
  cases taken
  have reached : connMachine.Reached conn :=
    .next bounded.reached trivial stepped
  cases current : before.conn.pcb with
  | none =>
      have performed :=
        wp_and (perform_none_stream label.event (label.enter before.conn.world))
          (wp_mono
            (perform_none label.event before.conn.history.sendLog
              (label.enter before.conn.world))
            (fun _ _ same => same) fun _ _ => trivial)
      unfold Conn.step at stepped
      rw [current] at stepped
      split at stepped
      swap
      · cases stepped
      rename_i pcb outcome world ran
      cases stepped
      obtain ⟨stream, gone, -⟩ := wp_returned performed ran
      dsimp only at gone
      have nothing :
          handedOver before.conn label
              { world, pcb
                history :=
                  before.conn.history.record
                    (acceptedBy before.conn.pcb label before.conn.world)
                    outcome } = [] := by
        simp [handedOver, gone]
      refine ⟨reached, ?_, ?_, ?_⟩
      · rw [current] at nothing
        simp only [nothing, List.append_nil]
        exact bounded.chunks
      · intro reader present
        rw [current] at nothing
        simp only [nothing, List.append_nil]
        exact stream.buffers bounded.stream reader present
      · intro pcb isSome
        rw [gone] at isSome
        cases isSome
  | some pcb =>
      obtain ⟨attached, inUse⟩ := attached_of_reached bounded.reached current
      have owner := attached.owner
      have performed :=
        @Conn.step_receives (fun _ => True)
          (fun _ out rcv =>
            Reading pcb before.conn.world.stream →
              Taken pcb.toRcvVars out rcv)
          (fun _ _ => trivial) trivial before.conn pcb current attached inUse
          label (by
            intro packet event _ _ acked world rcv _
            by_cases reading : Reading pcb before.conn.world.stream
            · have windowed := bounded.pcb pcb current reading
              rw [← rcv]
              refine wp_weaken
                (tcpReceiveData_taken acked
                  (inputSeg_covered _ (noSyn packet event)) ?_)
                fun _ _ taken _ => taken
              rw [rcv]
              exact windowed.ooseq
            · exact wp_of_outcomes
                (fun _ _ _ may => absurd may reading) fun _ _ => trivial)
      rw [stepped] at performed
      obtain ⟨outcome, -, moved⟩ := performed
      unfold ReceivesOrFreed at moved
      cases left : conn.pcb with
      | none =>
          rw [left] at moved
          have nothing : handedOver before.conn label conn = [] := by
            simp [handedOver, left]
          refine ⟨reached, ?_, ?_, ?_⟩
          · simp only [nothing, List.append_nil]
            exact bounded.chunks
          · intro reader present
            simp only [nothing, List.append_nil]
            obtain ⟨known, present, readRx, writeBuf⟩ := moved.buffers present
            obtain ⟨buffered, room⟩ := bounded.stream known present
            exact ⟨buffered.congr readRx writeBuf, by rw [readRx]; exact room⟩
          · intro pcb isSome
            rw [left] at isSome
            cases isSome
      | some next =>
          rw [left] at moved
          have chunk :
              handedOver before.conn label conn =
                chunkFor conn.world.stream
                  (acceptedBy before.conn.pcb label before.conn.world) := by
            simp [handedOver, chunkFor, left]
          obtain ⟨small, buffered, windowed⟩ :=
            moved.windowed (bounded.pcb pcb current)
              (fun reader present => (bounded.stream reader present).1)
              (fun present => by
                obtain ⟨reader, present⟩ := Option.isSome_iff_exists.mp present
                rw [present] at owner
                exact owner.streaming.1.recv)
              (fun synRcvd => by
                cases present : before.conn.world.stream with
                | none => rfl
                | some reader =>
                    rw [present] at owner
                    exact absurd synRcvd owner.streaming.1.state)
          refine ⟨reached, ?_, ?_, ?_⟩
          · simp only [chunk]
            exact List.forall_mem_append.mpr ⟨bounded.chunks, small⟩
          · intro reader present
            have within :=
              windowed (.inr (Option.isSome_iff_exists.mpr ⟨reader, present⟩))
            simp only [chunk]
            exact ⟨buffered reader present,
              Nat.le_trans (Nat.le_add_left _ _)
                (within.channel reader present)⟩
          · intro pcb isSome reading
            cases left.symm.trans isSome
            exact windowed reading

/-- In every run without SYN segments the stream holds at most `TCP_WND` bytes
more than one chunk, and no chunk is longer than `TCP_WND`. -/
theorem held_bytes_bounded
    {recorded : Recorded}
    (reached :
      recordedMachine.ReachedUnder (fun _ label => label.NoSyn) recorded)
    {stream : TcpStream}
    (present : recorded.conn.world.stream = some stream) :
    (∀ chunk ∈ recorded.chunks, chunk.length ≤ tcpWnd) ∧
      (stream.held ≤ tcpWnd ∨
        ∃ chunk ∈ recorded.chunks, stream.held ≤ tcpWnd + chunk.length) := by
  have bounded : recorded.Bounded := by
    refine reached.invariant
      (fun first initial => (?_ : Recorded.Bounded first))
      fun before label after bounded noSyn taken =>
        Recorded.step_bounded bounded noSyn taken
    obtain ⟨opened, nothing⟩ := initial
    obtain ⟨silent, windowed⟩ := Conn.initial_windowed opened
    refine ⟨.start opened, ?_, ?_, ?_⟩
    · rw [nothing]
      exact List.forall_mem_nil _
    · intro reader isStream
      rw [silent] at isStream
      cases isStream
    · intro pcb isStream _
      rw [silent]
      exact windowed pcb isStream
  obtain ⟨buffered, room⟩ := bounded.stream stream present
  refine ⟨bounded.chunks, ?_⟩
  unfold TcpStream.held
  rcases buffered.writeBuf with empty | ⟨chunk, member, longer⟩
  · exact .inl (by rw [empty]; exact room)
  · exact .inr ⟨chunk, member, Nat.add_le_add room longer⟩

/-- `Label.NoSyn`, as a check. -/
def Label.checkNoSyn (label : Label) : Bool :=
  match label.event with
  | .segment packet => !packet.flags.syn
  | _ => true

theorem Label.noSyn_of_check
    (label : Label)
    (checked : label.checkNoSyn = true) :
    label.NoSyn := by
  intro packet event
  unfold checkNoSyn at checked
  rw [event] at checked
  simpa using checked

/-- Three bytes arrive, one is read, and two more arrive. -/
theorem held_bytes_bounded_short_read :
    ∃ recorded stream,
      recordedMachine.ReachedUnder (fun _ label => label.NoSyn) recorded ∧
        recorded.conn.world.stream = some stream ∧
        recorded.chunks = [[1, 2, 3], [4, 5]] ∧
        stream.writeBuf = [2, 3] ∧
        ((∀ chunk ∈ recorded.chunks, chunk.length ≤ tcpWnd) ∧
          (stream.held ≤ tcpWnd ∨
            ∃ chunk ∈ recorded.chunks,
              stream.held ≤ tcpWnd + chunk.length)) := by
  have ran :
      ((Conn.opened (exampleSyn 1000 []) 0 6510 exampleWorld).bind fun conn =>
          recordedMachine.runUnder (fun _ label => label.checkNoSyn)
            ⟨conn, []⟩
            [{ event :=
                .segment
                  (exampleSegment { ack := true } 100 6511 1000 [] []) },
              { event :=
                .segment
                  (exampleSegment { ack := true } 100 6511 1000 [1, 2, 3]
                    []) },
              { event := .pollRead 1 },
              { event :=
                .segment
                  (exampleSegment { ack := true } 103 6511 1000 [4, 5]
                    []) }]).any
        (fun recorded =>
          recorded.conn.world.stream.any fun stream =>
            decide
              (recorded.chunks = [[1, 2, 3], [4, 5]] ∧
                stream.writeBuf = [2, 3])) =
        true := by
    decide +kernel
  obtain ⟨recorded, run, holds⟩ := (Option.any_eq_true _ _).mp ran
  obtain ⟨first, opened, run⟩ := Option.bind_eq_some_iff.mp run
  obtain ⟨stream, present, known⟩ := (Option.any_eq_true _ _).mp holds
  obtain ⟨chunks, writeBuf⟩ := of_decide_eq_true known
  have initial := Conn.initial_of_opened rfl rfl rfl opened
  have reached :
      recordedMachine.ReachedUnder (fun _ label => label.NoSyn) recorded :=
    .of_run (fun _ label checked => label.noSyn_of_check checked)
      (.start ⟨initial, rfl⟩) run
  exact ⟨recorded, stream, reached, present, chunks, writeBuf,
    held_bytes_bounded reached present⟩

end NetstackLwip

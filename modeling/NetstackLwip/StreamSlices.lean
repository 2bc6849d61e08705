import NetstackLwip.QueueShape

namespace NetstackLwip

/-!
# The bytes of the peer

Every segment holds a slice of what the peer sends, at the place its sequence
number says. Trimming, cutting and splicing keep slices, so what is handed over
continues what was, and a read only moves bytes from the channel to the reader.
-/

open FaultState FaultMachine SerialNumber

/-- What the peer sends: its bytes, and whether a FIN follows them. -/
structure PeerStream where
  bytes : Bytes
  ended : Bool

/-! ## Slices -/

/-- The segment holds the bytes from `position` on, and a FIN only where they
end. -/
structure Slice (peer : PeerStream) (position : Nat) (seg : TcpSeg) :
    Prop where
  inside : position + seg.len ≤ peer.bytes.length
  data : seg.p.data = (peer.bytes.drop position).take seg.len
  fin :
    seg.hdr.fin = true →
      peer.ended = true ∧ position + seg.len = peer.bytes.length

namespace Slice

variable
  {peer : PeerStream}
  {position : Nat}
  {seg : TcpSeg}

theorem cut
    (slice : Slice peer position seg)
    {size : Nat}
    (within : size ≤ seg.len) :
    Slice peer position (seg.cut size) where
  inside := by
    have inside := slice.inside
    unfold TcpSeg.cut
    dsimp only
    omega
  data := by
    unfold TcpSeg.cut
    simp only [Pbuf.data_realloc, slice.data, List.take_take]
    rw [Nat.min_eq_left within]
  fin := nofun

theorem withFin
    (slice : Slice peer position seg)
    (ended : peer.ended = true)
    (last : position + seg.len = peer.bytes.length) :
    Slice peer position seg.withFin :=
  ⟨slice.inside, slice.data, fun _ => ⟨ended, last⟩⟩

/-- Without its first bytes it is a slice further on. -/
theorem behind
    (slice : Slice peer position seg)
    {size : Nat}
    (within : size ≤ seg.len)
    (seqno : SeqNo) :
    Slice peer (position + size)
      { seg with
        len := seg.len - size
        p := seg.p.removeFront size
        seqno := seqno } where
  inside := by
    have inside := slice.inside
    dsimp only
    omega
  data := by
    simp only [Pbuf.data_removeFront, slice.data]
    rw [List.drop_take, List.drop_drop]
  fin fin := by
    obtain ⟨ended, last⟩ := slice.fin fin
    refine ⟨ended, ?_⟩
    dsimp only
    omega

end Slice

/-- Segments that hold the bytes at their places, the first of which is
`offset`. -/
def Slices (peer : PeerStream) (offset start : Nat) (seg : TcpSeg) : Prop :=
  Slice peer (offset + start) seg

theorem slices_cuts
    (peer : PeerStream)
    (offset : Nat) :
    Cuts (Slices peer offset) :=
  fun _ _ _ slice _ inside => slice.cut inside

/-- A segment that covers the end of the bytes ends with them. -/
theorem slices_inherits
    {peer : PeerStream}
    {offset low : Nat}
    {base : SeqNo}
    {queue : List TcpSeg}
    {seg : TcpSeg}
    (slice : Slices peer offset (seg.start base) seg)
    (line : InLine (Slices peer offset) base low queue) :
    Inherits (Slices peer offset) base queue seg := by
  intro _ next member fin _ covers
  obtain ⟨ended, last⟩ := (line.placed next member).good.fin fin
  have inside := slice.inside
  exact slice.withFin ended (by omega)

/-! ## Segments of the peer -/

/-- The segment holds a slice of the peer's bytes, which start at `first`; when
it comes in, `taken` sequence numbers have been taken. It is not far ahead of
them, nor so old that its sequence number is in the window again; with a closed
window the window test also passes one number half of the circle away. -/
structure Consistent
    (peer : PeerStream)
    (first : SeqNo)
    (taken rcvWnd position : Nat)
    (seg : TcpSeg) : Prop where
  seqno : seg.seqno = place first position
  slice : Slice peer position seg
  ahead : position ≤ taken + 2 ^ 30
  behind : taken + rcvWnd ≤ position + 2 ^ 32
  halfway : rcvWnd = 0 → taken ≠ position + 2 ^ 31 + 1

namespace Consistent

variable
  {peer : PeerStream}
  {first : SeqNo}
  {taken rcvWnd position : Nat}
  {seg : TcpSeg}

/-- How far `rcv_nxt` is above the segment. -/
theorem distance_rcvNxt
    (consistent : Consistent peer first taken rcvWnd position seg) :
    distance seg.seqno (place first taken) =
      (taken + 2 ^ 32 - position) % 2 ^ 32 := by
  have ahead := consistent.ahead
  rw [consistent.seqno]
  exact distance_place_place first (by omega)

/-- How far the segment is above `rcv_nxt`. -/
theorem start_eq
    (consistent : Consistent peer first taken rcvWnd position seg) :
    seg.start (place first taken) =
      (position + 2 ^ 32 - taken) % 2 ^ 32 := by
  have behind := consistent.behind
  unfold TcpSeg.start
  rw [consistent.seqno]
  exact distance_place_place first (by omega)

/-- What passes the window test after its start was trimmed is the slice at its
place in the window. -/
theorem passes
    (consistent : Consistent peer first taken rcvWnd position seg)
    (whole : Whole seg)
    (within : rcvWnd ≤ tcpWnd)
    (shorter :
      frontTrims seg.seqno seg.tcplen (place first taken) = true →
        distance seg.seqno (place first taken) < seg.tcplen)
    (passes :
      inWindow (seg.trimmed (place first taken)).seqno (place first taken)
          rcvWnd =
        true) :
    (seg.trimmed (place first taken)).start (place first taken) < rcvWnd ∧
      Slices peer taken
        ((seg.trimmed (place first taken)).start (place first taken))
        (seg.trimmed (place first taken)) := by
  have value : tcpWnd = 46720 := rfl
  have ahead := consistent.ahead
  have behind := consistent.behind
  have bounds := seg.len_le_tcplen
  have short := whole.short
  have either :=
    (inWindow_iff _ _ rcvWnd (by omega)).mp passes
  unfold TcpSeg.trimmed at either ⊢
  split
  · rename_i trims
    have inside := shorter trims
    have positive : 0 < distance seg.seqno (place first taken) := by
      rcases trims_inside whole trims with ⟨positive, _⟩ | opposite
      · exact positive
      · omega
    rw [if_pos trims] at either
    have gap := consistent.distance_rcvNxt
    have reached :
        taken = position + distance seg.seqno (place first taken) := by
      omega
    have slice :=
      consistent.slice.behind
        (show distance seg.seqno (place first taken) ≤ seg.len by omega)
        (place first taken)
    rw [← reached] at slice
    have begins (trimmed : TcpSeg) (same : trimmed.seqno = place first taken) :
        trimmed.start (place first taken) = 0 := by
      unfold TcpSeg.start distance
      rw [same]
      simp
    rw [begins _ rfl]
    simp at either
    exact ⟨either, slice⟩
  · rename_i untrimmed
    rw [if_neg untrimmed] at either
    have begins := consistent.start_eq
    have halfway := consistent.halfway
    have same :
        seg.start (place first taken) =
          (seg.seqno - place first taken).toNat := rfl
    have inside :
        seg.start (place first taken) < rcvWnd ∧
          taken + seg.start (place first taken) = position := by
      omega
    refine ⟨inside.1, ?_⟩
    unfold Slices
    rw [inside.2]
    exact consistent.slice

/-- What comes in of the peer's bytes is admitted to the queue. -/
theorem admitted
    (consistent : Consistent peer first taken rcvWnd position seg)
    {rcv : RcvVars}
    (rcvNxt : rcv.rcvNxt = place first taken)
    (window : rcv.rcvWnd = rcvWnd)
    (whole : Whole seg)
    (within : rcvWnd ≤ tcpWnd)
    (line : InLine (Slices peer taken) rcv.rcvNxt 1 rcv.ooseq)
    (shorter :
      frontTrims seg.seqno seg.tcplen rcv.rcvNxt = true →
        distance seg.seqno rcv.rcvNxt < seg.tcplen)
    (passes :
      inWindow (seg.trimmed rcv.rcvNxt).seqno rcv.rcvNxt rcv.rcvWnd = true) :
    Admitted (Slices peer taken) rcv (seg.trimmed rcv.rcvNxt) := by
  subst window
  have trimmed := whole.trimmed shorter
  rw [rcvNxt] at shorter passes
  obtain ⟨inside, slice⟩ := consistent.passes whole within shorter passes
  rw [← rcvNxt] at inside slice
  have clipped (room : Nat) (positive : 0 < room) :
      Slices peer taken ((seg.trimmed rcv.rcvNxt).start rcv.rcvNxt)
        ((seg.trimmed rcv.rcvNxt).clip room) := by
    have bounds := (seg.trimmed rcv.rcvNxt).len_le_tcplen
    unfold TcpSeg.clip
    split
    · exact slice.cut (by omega)
    · exact slice
  have begins (room : Nat) :
      ((seg.trimmed rcv.rcvNxt).clip room).start rcv.rcvNxt =
        (seg.trimmed rcv.rcvNxt).start rcv.rcvNxt := by
    unfold TcpSeg.clip
    split <;> rfl
  refine ⟨inside, clipped _ (by omega), fun _ _ => slice,
    fun _ => slices_inherits slice line, fun _ => ?_⟩
  refine slices_inherits ?_ line
  rw [begins]
  exact clipped _ (by omega)

end Consistent

/-! ## What is taken -/

/-- The bytes of what has been taken. -/
def RecvOut.bytes (out : RecvOut) : Bytes :=
  (out.recvData.getD []).data

theorem RecvOut.bytes_take
    (out : RecvOut)
    (seg : TcpSeg) :
    (out.take seg).bytes = out.bytes ++ seg.p.data := by
  unfold RecvOut.bytes RecvOut.take
  dsimp only
  split
  · simp
  · rename_i nothing
    have empty : seg.p.data = [] := by
      unfold Pbuf.totLen at nothing
      exact List.eq_nil_of_length_eq_zero (by omega)
    rw [empty, List.append_nil]

/-- A string of slices adds the bytes from its start on, and a FIN only after
the last of them. -/
theorem Strung.bytes
    {peer : PeerStream}
    {offset low high : Nat}
    {base : SeqNo}
    {taken : List TcpSeg}
    (strung : Strung (Slices peer offset) base low taken high)
    (out : RecvOut)
    (noFin : out.gotFin = false) :
    ∃ more,
      (taken.foldl RecvOut.take out).bytes = out.bytes ++ more ∧
        more = (peer.bytes.drop (offset + low)).take more.length ∧
        ((taken.foldl RecvOut.take out).gotFin = true →
          peer.ended = true ∧
            offset + low + more.length = peer.bytes.length) := by
  induction taken generalizing low out with
  | nil =>
      exact ⟨[], by simp, by simp, by simp [noFin]⟩
  | cons seg rest inductionHypothesis =>
      obtain ⟨placed, begins, last, behind⟩ := strung
      have slice := placed.good
      rw [begins] at slice
      have len : seg.len = seg.p.data.length := placed.whole.len
      have data : seg.p.data =
          (peer.bytes.drop (offset + low)).take seg.p.data.length := by
        rw [← len]
        exact slice.data
      rw [List.foldl_cons]
      cases fin : seg.hdr.fin with
      | true =>
          rw [last fin] at behind ⊢
          rw [List.foldl_nil, out.bytes_take]
          refine ⟨seg.p.data, rfl, data, fun _ => ?_⟩
          rw [← len]
          exact slice.fin fin
      | false =>
          have noMore : (out.take seg).gotFin = false := by
            simp [RecvOut.take, noFin, fin]
          have stop : seg.stop base = low + seg.p.data.length := by
            unfold TcpSeg.stop
            rw [begins, TcpSeg.tcplen_of_noFin placed.whole.plain fin, len]
          rw [stop] at behind
          obtain ⟨more, joined, moreRead, done⟩ :=
            inductionHypothesis behind (out.take seg) noMore
          refine ⟨seg.p.data ++ more, ?_, ?_, fun got => ?_⟩
          · rw [joined, out.bytes_take, List.append_assoc]
          · rw [List.length_append, List.take_add, ← data, List.drop_drop,
              Nat.add_assoc, ← moreRead]
          · obtain ⟨ended, final⟩ := done got
            refine ⟨ended, ?_⟩
            rw [List.length_append]
            omega

/-- The peer's bytes from `offset` on have been taken, and the queue continues
behind them. -/
structure Continues
    (peer : PeerStream)
    (offset : Nat)
    (before : RcvVars)
    (out : RecvOut)
    (after : RcvVars) : Prop where
  bytes : out.bytes = (peer.bytes.drop offset).take out.bytes.length
  fin :
    out.gotFin = true →
      peer.ended = true ∧ offset + out.bytes.length = peer.bytes.length
  rcvNxt : after.rcvNxt = place before.rcvNxt out.size
  rcvWnd : after.rcvWnd ≤ before.rcvWnd
  line : InLine (Slices peer (offset + out.size)) after.rcvNxt 1 after.ooseq

theorem Splice.continues
    {peer : PeerStream}
    {offset : Nat}
    {before after : RcvVars}
    {taken : List TcpSeg}
    (splice :
      Splice (Slices peer offset) before.rcvNxt 0 taken before after) :
    Continues peer offset before (taken.foldl RecvOut.take {}) after := by
  obtain ⟨high, strung, rcvNxt, rcvWnd, line⟩ := splice.strung
  obtain ⟨more, joined, moreRead, done⟩ := strung.bytes {} rfl
  have nothing : RecvOut.bytes {} = [] := rfl
  rw [nothing, List.nil_append] at joined
  have ends := strung.size {} rfl
  have empty : RecvOut.size {} = 0 := rfl
  rw [empty, Nat.add_zero, Nat.zero_add] at ends
  subst ends
  refine ⟨?_, ?_, ?_, by omega, ?_⟩
  · rw [joined]
    exact moreRead
  · rw [joined]
    exact done
  · exact rcvNxt
  · rw [rcvNxt]
    refine line.rebase.weaken fun start seg slice => ?_
    unfold Slices at slice ⊢
    rw [Nat.add_assoc]
    exact slice

/-! ## Reading -/

/-- The channel: chunks with data, and behind them the empty chunk that stands
for the FIN, until it has been read. -/
def Marked (fin isEof : Bool) (queue : List Bytes) : Prop :=
  ∃ chunks,
    (∀ chunk ∈ chunks, chunk ≠ []) ∧
      queue = chunks ++ (if fin && !isEof then [[]] else []) ∧
      (isEof = true → fin = true ∧ chunks = [])

/-- What a read has returned, if anything, and what it leaves of `balanced`. -/
structure Reads
    (fin : Bool)
    (remaining : Nat)
    (balanced : Bytes)
    (out : ReadOut)
    (bytes : Bytes) : Prop where
  result : out.result = .ready bytes ∨ out.result = .pending ∧ bytes = []
  joined :
    bytes ++ out.stream.writeBuf ++ out.stream.readRx.flatten = balanced
  marked : Marked fin out.stream.isEof out.stream.readRx
  done :
    out.result = .ready [] →
      0 < remaining →
        fin = true ∧ out.stream.writeBuf = [] ∧
          out.stream.readRx.flatten = []

/-- Where the receiver is Pending a read returns what it has taken, and tells
of the end only once it is known. -/
theorem Marked.reads
    {fin : Bool}
    {queue : List Bytes}
    {stream : TcpStream}
    (marked : Marked fin stream.isEof queue)
    (drained : stream.writeBuf = [])
    (room : Nat)
    (taken : Bytes) :
    Reads fin room (taken ++ queue.flatten)
      { result := readPending taken stream
        stream := { stream with readRx := queue } }
      taken where
  result := by
    unfold readPending
    split
    · exact .inl rfl
    · rename_i nothing
      refine .inr ⟨rfl, ?_⟩
      simp at nothing
      exact nothing.1
  joined := by
    dsimp only
    rw [drained, List.append_nil]
  marked := marked
  done returns _ := by
    dsimp only at returns ⊢
    unfold readPending at returns
    split at returns
    · rename_i either
      cases returns
      obtain ⟨chunks, _, rfl, last⟩ := marked
      have ended : stream.isEof = true := by simpa using either
      obtain ⟨fin, rfl⟩ := last ended
      refine ⟨fin, drained, ?_⟩
      simp [ended]
    · cases returns

theorem Marked.flatten
    {fin isEof : Bool}
    {chunks : List Bytes} :
    (chunks ++ (if fin && !isEof then [[]] else [])).flatten =
      chunks.flatten := by
  rw [List.flatten_append]
  split <;> simp

theorem readChunks_reads
    {fin : Bool}
    (chunks : List Bytes)
    (recvs : List Bool)
    (remaining : Nat)
    (taken : Bytes)
    {stream : TcpStream}
    (nonempty : ∀ chunk ∈ chunks, chunk ≠ [])
    (last : stream.isEof = true → fin = true ∧ chunks = [])
    (listens : stream.readTx = true)
    (empty : stream.writeBuf = []) :
    ∃ bytes,
      Reads fin (remaining + taken.length) (taken ++ chunks.flatten)
        (readChunks
          (chunks ++ (if fin && !stream.isEof then [[]] else []))
          recvs remaining taken stream)
        bytes := by
  induction chunks generalizing recvs remaining taken with
  | nil =>
      have marked :
          Marked fin stream.isEof
            ([] ++ (if fin && !stream.isEof then [[]] else [])) :=
        ⟨[], List.forall_mem_nil _, rfl, last⟩
      have waits := marked.reads empty (remaining + taken.length) taken
      rw [Marked.flatten] at waits
      refine ⟨taken, ?_⟩
      rw [List.nil_append] at waits ⊢
      split
      · rename_i mark
        rw [if_pos mark] at waits
        rw [Bool.and_eq_true, Bool.not_eq_true'] at mark
        unfold readChunks
        split
        · exact waits
        rw [if_pos List.isEmpty_nil]
        refine ⟨.inl rfl, by simp [empty], ?_, fun _ _ => ?_⟩
        · exact ⟨[], List.forall_mem_nil _, by simp,
            fun _ => ⟨mark.1, rfl⟩⟩
        · exact ⟨mark.1, empty, rfl⟩
      · rename_i noMark
        rw [if_neg noMark] at waits
        have served : ¬(recvs.headD true && !stream.readTx) = true := by
          simp [listens]
        unfold readChunks
        rw [if_neg served]
        exact waits
  | cons data rest inductionHypothesis =>
      obtain ⟨dataSome, restSome⟩ := List.forall_mem_cons.mp nonempty
      have notEof : stream.isEof = false := by
        cases eof : stream.isEof with
        | false => rfl
        | true => exact absurd (last eof).2 (by simp)
      have isSome : 0 < data.length := List.length_pos_of_ne_nil dataSome
      rw [List.cons_append]
      unfold readChunks
      split
      · have marked :
            Marked fin stream.isEof
              (data :: rest ++ (if fin && !stream.isEof then [[]] else [])) :=
          ⟨data :: rest, nonempty, rfl, last⟩
        have waits := marked.reads empty (remaining + taken.length) taken
        rw [Marked.flatten] at waits
        exact ⟨taken, waits⟩
      rw [if_neg (by simpa using dataSome)]
      dsimp only
      split
      · rename_i short
        refine ⟨taken ++ data.take (min remaining data.length), .inl rfl, ?_,
          ⟨rest, restSome, rfl, fun eof => absurd eof (by simp [notEof])⟩,
          fun returns nonempty => ?_⟩
        · dsimp only
          rw [empty, List.nil_append, List.append_assoc taken,
            List.take_append_drop, List.flatten_append]
          simp
        · dsimp only at returns
          injection returns with nothing
          rw [List.append_eq_nil_iff] at nothing
          have zero : min remaining data.length = 0 := by
            have lengths := congrArg List.length nothing.2
            rw [List.length_take, List.length_nil] at lengths
            omega
          rw [nothing.1, List.length_nil] at nonempty
          omega
      · rename_i whole
        have all : min remaining data.length = data.length := by
          omega
        have further :=
          inductionHypothesis recvs.tail
            (remaining - min remaining data.length)
            (taken ++ data.take (min remaining data.length)) restSome
            fun eof => absurd eof (by simp [notEof])
        obtain ⟨bytes, reads⟩ := further
        refine ⟨bytes, reads.result, ?_, reads.marked, ?_⟩
        · rw [reads.joined, all, List.take_length]
          simp
        · have same :
              remaining - min remaining data.length +
                  (taken ++ data.take (min remaining data.length)).length =
                remaining + taken.length := by
            rw [List.length_append, List.length_take]
            omega
          rw [← same]
          exact reads.done

/-- A read of any length moves bytes from what is balanced to the reader, and
returns none into a buffer with room only at the end. -/
theorem readStream_reads
    {fin : Bool}
    (recvs : List Bool)
    (remaining : Nat)
    {stream : TcpStream}
    (marked : Marked fin stream.isEof stream.readRx)
    (listens : stream.readTx = true) :
    ∃ bytes,
      Reads fin remaining (stream.writeBuf ++ stream.readRx.flatten)
        (readStream recvs remaining stream) bytes := by
  unfold readStream
  split
  · rename_i nonempty
    refine ⟨stream.writeBuf.take (min remaining stream.writeBuf.length),
      .inl rfl, ?_, marked, fun returns room => ?_⟩
    · dsimp only
      rw [List.take_append_drop]
    · injection returns with nothing
      have isSome : 0 < stream.writeBuf.length :=
        List.length_pos_of_ne_nil (by simpa using nonempty)
      have short := congrArg List.length nothing
      rw [List.length_take, List.length_nil] at short
      omega
  · rename_i empty
    have empty : stream.writeBuf = [] := by
      simpa using empty
    obtain ⟨chunks, nonempty, queue, last⟩ := marked
    rw [queue, empty, List.nil_append, Marked.flatten]
    exact readChunks_reads chunks recvs remaining [] nonempty last listens empty

end NetstackLwip

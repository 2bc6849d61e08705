import NetstackLwip.OutOfOrder

namespace NetstackLwip

/-!
# Splicing the out-of-order queue

A segment in order takes what it covers off the queue, gives way to what it
overlaps, and draws in what follows it without a gap. What `tcp_receive` hands
over is such a string of segments from `rcv_nxt` on, and the queue left starts
beyond it.
-/

open FaultState SerialNumber

/-- Segments from `low` on without a gap; the last, which alone may have a FIN,
ends at `high`. -/
def Strung (good : Nat → TcpSeg → Prop) (base : SeqNo) :
    Nat → List TcpSeg → Nat → Prop
  | low, [], high => low = high
  | low, seg :: rest, high =>
      Placed good base low seg ∧
        seg.start base = low ∧
        (seg.hdr.fin = true → rest = []) ∧
        Strung good base (seg.stop base) rest high

/-- A string of segments is as long as what is taken of it. -/
theorem Strung.size
    {good : Nat → TcpSeg → Prop}
    {base : SeqNo}
    {low high : Nat}
    {taken : List TcpSeg}
    (strung : Strung good base low taken high)
    (out : RecvOut)
    (noFin : out.gotFin = false) :
    low + (taken.foldl RecvOut.take out).size = high + out.size := by
  induction taken generalizing low out with
  | nil =>
      rw [show low = high from strung]
      rfl
  | cons seg rest inductionHypothesis =>
      obtain ⟨placed, begins, last, behind⟩ := strung
      have grown := out.size_take placed.whole noFin
      have ends : seg.stop base = low + seg.tcplen := by
        unfold TcpSeg.stop
        rw [begins]
      rw [ends] at behind
      rw [List.foldl_cons]
      cases fin : seg.hdr.fin with
      | true =>
          rw [last fin] at behind ⊢
          have endsAt : low + seg.tcplen = high := behind
          rw [List.foldl_nil]
          omega
      | false =>
          have further :=
            inductionHypothesis behind (out.take seg)
              (by unfold RecvOut.take; rw [noFin, fin]; rfl)
          omega

/-- `taken` has been taken from `low` on, and `after` continues behind it. -/
structure Splice
    (good : Nat → TcpSeg → Prop)
    (base : SeqNo)
    (low : Nat)
    (taken : List TcpSeg)
    (before after : RcvVars) :
    Prop where
  strung :
    ∃ high,
      Strung good base low taken high ∧
        after.rcvNxt = place base high ∧
        low + before.rcvWnd = high + after.rcvWnd ∧
        InLine good base (high + 1) after.ooseq
  refusedData : after.refusedData = before.refusedData

section Splice

variable
  {allowed : Fault → Prop}
  {world : World}
  {good : Nat → TcpSeg → Prop}
  {base : SeqNo}

/-- A segment that starts at `rcv_nxt` is cut to the window. -/
theorem trimToWnd_clip
    (rcvWnd : Nat)
    {inseg : TcpSeg}
    (plain : inseg.hdr.syn = false) :
    wp (trimToWnd inseg.seqno rcvWnd inseg)
      (fun trimmed later => trimmed = inseg.clip rcvWnd ∧ later = world)
      allowed world := by
  have cutAt : cutLen inseg rcvWnd = rcvWnd := by
    simp [cutLen, plain]
  have ends :
      (inseg.cut rcvWnd).endSeq = inseg.seqno + BitVec.ofNat 32 rcvWnd := by
    rw [TcpSeg.endSeq, TcpSeg.tcplen_cut plain]
    rfl
  have same :
      { inseg with
        hdr.fin := false
        len := rcvWnd
        p := inseg.p.realloc rcvWnd } = inseg.cut rcvWnd := rfl
  unfold trimToWnd TcpSeg.clip
  rw [wp_ite]
  refine ⟨fun overruns => ?_, fun fits => ?_⟩
  · simp only [wp_bind, wp_ensure, wp_pure]
    rw [cutAt, same, ends, if_pos overruns]
    exact ⟨fun _ => ⟨rfl, trivial⟩, fun bad => absurd bad (by simp)⟩
  · rw [if_neg fits]
    exact ⟨rfl, rfl⟩

theorem Whole.clip
    {seg : TcpSeg}
    (whole : Whole seg)
    {room : Nat}
    (positive : 0 < room) :
    Whole (seg.clip room) := by
  have bounds := seg.len_le_tcplen
  unfold TcpSeg.clip
  split
  · exact whole.cut positive (by omega)
  · exact whole

/-- A segment at `rcv_nxt` and the queue left when it has taken off what it
covers. -/
structure Merged
    (good : Nat → TcpSeg → Prop)
    (base : SeqNo)
    (low : Nat)
    (inseg : TcpSeg)
    (queue : List TcpSeg) :
    Prop where
  placed : Placed good base 0 inseg
  first : inseg.start base = 0
  last : inseg.hdr.fin = true → queue = []
  line : InLine good base low queue

theorem dropCovered_merged
    {inseg : TcpSeg}
    {queue : List TcpSeg}
    (merged : Merged good base 1 inseg queue)
    (inherits : Inherits good base queue inseg) :
    Merged good base 1 (dropCovered inseg queue).1
        (dropCovered inseg queue).2 ∧
      ∀ next rest,
        (dropCovered inseg queue).2 = next :: rest →
          (dropCovered inseg queue).1.len < next.start base + next.len := by
  induction queue generalizing inseg with
  | nil =>
      exact ⟨merged, fun _ _ left => absurd left (by simp [dropCovered])⟩
  | cons next rest inductionHypothesis =>
      have placed := merged.placed
      obtain ⟨nextPlaced, nextLast, restLine⟩ := merged.line
      have noFin : inseg.hdr.fin = false := by
        cases fin : inseg.hdr.fin with
        | false => rfl
        | true => exact absurd (merged.last fin) (by simp)
      have ends := placed.near nextPlaced (Nat.le_of_lt placed.whole.short)
        (Nat.le_of_lt nextPlaced.whole.short)
      unfold dropCovered
      rw [TcpSeg.endSeq, TcpSeg.tcplen_of_noFin placed.whole.plain noFin,
        inseg.place_end base, next.place_end base, geq_place base ends,
        merged.first, Nat.zero_add, noFin, placed.whole.plain, Bool.not_false,
        Bool.and_true, Bool.false_or]
      split
      · rename_i covers
        simp only [decide_eq_true_eq] at covers
        have further : InLine good base 1 rest := by
          have above := nextPlaced.above
          exact restLine.mono (by unfold TcpSeg.stop; omega)
        cases nextFin : next.hdr.fin with
        | false =>
            have same : { inseg with hdr.fin := false } = inseg := by
              rw [← noFin]
            rw [same]
            exact inductionHypothesis
              ⟨placed, merged.first, fun fin => absurd fin (by simp [noFin]),
                further⟩
              (inherits.subset (List.subset_cons_self _ _))
        | true =>
            rw [nextLast nextFin]
            have stays :=
              inherits noFin next List.mem_cons_self nextFin
                (by rw [merged.first]; exact Nat.zero_le _)
                (by rw [merged.first]; omega)
            refine ⟨⟨⟨placed.whole.withFin, Nat.zero_le _, placed.close,
              stays⟩, merged.first, fun _ => rfl, trivial⟩,
              fun _ _ left => absurd left (by simp [dropCovered])⟩
      · rename_i reaches
        simp only [decide_eq_true_eq] at reaches
        refine ⟨merged, ?_⟩
        rintro _ _ ⟨⟩
        simp only
        omega

/-- The segment ends where the queue goes on. -/
theorem mergeOoseq_merged
    (cuts : Cuts good)
    {inseg : TcpSeg}
    {queue : List TcpSeg}
    (placed : Placed good base 0 inseg)
    (first : inseg.start base = 0)
    (line : InLine good base 1 queue)
    (inherits : Inherits good base queue inseg) :
    wp (mergeOoseq inseg queue)
      (fun result later =>
        Merged good base (result.1.stop base) result.1 result.2 ∧
          later = world)
      allowed world := by
  unfold mergeOoseq
  rw [wp_ite]
  refine ⟨fun _ => ⟨⟨placed, first, fun _ => rfl, trivial⟩, rfl⟩,
    fun noFin => ?_⟩
  obtain ⟨merged, uncovered⟩ :=
    dropCovered_merged ⟨placed, first, fun fin => absurd fin noFin, line⟩
      inherits
  revert merged uncovered
  generalize dropCovered inseg queue = dropped
  obtain ⟨kept, left⟩ := dropped
  intro merged uncovered
  dsimp only at merged uncovered
  have placed := merged.placed
  cases left with
  | nil =>
      exact ⟨⟨placed, merged.first, fun _ => rfl, trivial⟩, rfl⟩
  | cons next rest =>
      obtain ⟨nextPlaced, nextLast, restLine⟩ := merged.line
      have noFin : kept.hdr.fin = false := by
        cases fin : kept.hdr.fin with
        | false => rfl
        | true => exact absurd (merged.last fin) (by simp)
      have plain := placed.whole.plain
      have above := nextPlaced.above
      have begins := placed.near nextPlaced (Nat.le_of_lt placed.whole.short)
        (Nat.zero_le 65536)
      have gap :=
        nextPlaced.gap_eq
          (show kept.start base ≤ next.start base by
            rw [merged.first]
            exact Nat.zero_le _)
      rw [Nat.add_zero] at begins
      rw [merged.first, Nat.sub_zero] at gap
      have overlap :
          gt kept.endSeq next.seqno =
            decide (next.start base < kept.len) := by
        rw [TcpSeg.endSeq, TcpSeg.tcplen_of_noFin plain noFin,
          kept.place_end base, next.place_start base, gt_place base begins,
          merged.first, Nat.zero_add]
      simp only
      rw [wp_ite, overlap, decide_eq_true_eq, gap]
      refine ⟨fun overlaps => ?_, fun apart => ?_⟩
      · have cutAt : cutLen kept (next.start base) = next.start base := by
          simp [cutLen, plain]
        have ends :
            (kept.cut (next.start base)).endSeq = next.seqno := by
          rw [TcpSeg.endSeq, TcpSeg.place_end base, TcpSeg.tcplen_cut plain,
            TcpSeg.start_cut, merged.first, Nat.zero_add,
            ← next.place_start base]
        simp only [wp_bind, wp_ensure, wp_pure]
        rw [cutAt, TcpSeg.cut_eq noFin, ends]
        refine ⟨fun _ => ?_, fun bad => absurd bad (by simp)⟩
        have stop :
            (kept.cut (next.start base)).stop base = next.start base := by
          rw [placed.stop_cut, merged.first, Nat.zero_add]
        refine ⟨⟨placed.cut cuts (by omega) (by omega), merged.first,
          fun fin => absurd fin Bool.false_ne_true, ?_⟩, trivial⟩
        rw [stop]
        have follows : Placed good base (next.start base) next :=
          { nextPlaced with above := Nat.le_refl _ }
        exact ⟨follows, nextLast, restLine⟩
      · refine ⟨⟨placed, merged.first, merged.last, ?_⟩, rfl⟩
        have stop : kept.stop base = kept.len := by
          unfold TcpSeg.stop
          rw [TcpSeg.tcplen_of_noFin plain noFin, merged.first, Nat.zero_add]
        have follows : Placed good base (kept.stop base) next :=
          { nextPlaced with above := by omega }
        exact ⟨follows, nextLast, restLine⟩

/-- The window has room for every good segment, or running out of it is
allowed for. -/
def Roomy
    (allowed : Fault → Prop)
    (good : Nat → TcpSeg → Prop)
    (limit : Nat) :
    Prop :=
  (∀ start seg, good start seg → start + seg.tcplen ≤ limit) ∨
    (allowed .tcplenRcvWnd ∧ allowed .ooseqTcplenRcvWnd)

/-- The queue is drained as far as it is in sequence. -/
theorem drainOoseq_splice
    (queue : List TcpSeg)
    (out : RecvOut)
    (pcb : TcpPcb)
    {low : Nat}
    (line : InLine good base low queue)
    (startsAt : pcb.rcvNxt = place base low)
    (roomy : Roomy allowed good (low + pcb.rcvWnd))
    (window : allowed .newRcvAnnWnd) :
    wp (drainOoseq queue out pcb)
      (fun result later =>
        (∃ taken,
          result.1 = taken.foldl RecvOut.take out ∧
            (queue = [] → taken = []) ∧
            Splice good base low taken pcb.toRcvVars result.2.toRcvVars) ∧
          later = world)
      allowed world := by
  induction queue generalizing out pcb low world with
  | nil =>
      exact ⟨⟨[], rfl, fun _ => rfl, ⟨low, rfl, startsAt, rfl, trivial⟩, rfl⟩,
        rfl⟩
  | cons cseg rest inductionHypothesis =>
      obtain ⟨placed, last, restLine⟩ := line
      have close := placed.close
      have above := placed.above
      have near : Near 32 (cseg.start base) low :=
        near_of_close (Nat.le_add_right_of_le close)
          (Nat.le_add_right_of_le (Nat.le_trans above close))
      have inSequence :
          cseg.seqno = pcb.rcvNxt ↔ cseg.start base = low := by
        rw [startsAt, cseg.place_start base]
        exact place_inj base near
      unfold drainOoseq
      rw [wp_ite, inSequence]
      refine ⟨fun same => ?_, fun beyond => ?_⟩
      · rw [wp_bind]
        have fits :
            cseg.tcplen ≤ pcb.rcvWnd ∨ allowed .ooseqTcplenRcvWnd := by
          refine roomy.imp (fun room => ?_) fun both => both.2
          have ends := room _ _ placed.good
          omega
        refine wp_weaken (advanceRcv_spec _ cseg pcb fits window) ?_
        rintro _ later ⟨rfl, inside, wnd, rfl⟩
        have stop : cseg.stop base = low + cseg.tcplen := by
          unfold TcpSeg.stop
          rw [same]
        have ends : cseg.endSeq = place base (cseg.stop base) :=
          cseg.place_end base cseg.tcplen
        have total :
            cseg.stop base + (pcb.rcvWnd - cseg.tcplen) =
              low + pcb.rcvWnd := by
          omega
        refine wp_weaken
          (inductionHypothesis (out.take cseg) _ restLine ends
            (by simpa only [total] using roomy)) ?_
        rintro ⟨result, after⟩ final ⟨⟨taken, rfl, noData, splice⟩, rfl⟩
        obtain ⟨high, strung, rcvNxt, rcvWnd, left⟩ := splice.strung
        refine ⟨⟨cseg :: taken, rfl, fun noData => absurd noData (by simp),
          ⟨high, ?_, rcvNxt, ?_, left⟩, splice.refusedData⟩, rfl⟩
        · exact ⟨{ placed with }, same, fun fin => noData (last fin), strung⟩
        · dsimp only at rcvWnd ⊢
          omega
      · refine ⟨⟨[], rfl, fun _ => rfl, ⟨low, rfl, startsAt, rfl, ?_⟩, rfl⟩,
          rfl⟩
        have beyond : low + 1 ≤ cseg.start base := by
          omega
        have follows : Placed good base (low + 1) cseg :=
          { placed with above := beyond }
        exact ⟨follows, last, restLine⟩

/-- A segment in order is handed over with what it brings into sequence. -/
theorem receiveInOrder_splice
    (cuts : Cuts good)
    {inseg : TcpSeg}
    (pcb : TcpPcb)
    (whole : Whole inseg)
    (same : pcb.rcvNxt = inseg.seqno)
    (positive : 0 < pcb.rcvWnd)
    (clipped : good 0 (inseg.clip pcb.rcvWnd))
    (inherits :
      Inherits good pcb.rcvNxt pcb.ooseq (inseg.clip pcb.rcvWnd))
    (line : InLine good pcb.rcvNxt 1 pcb.ooseq)
    (roomy : Roomy allowed good pcb.rcvWnd)
    (window : allowed .newRcvAnnWnd) :
    wp (receiveInOrder inseg pcb)
      (fun result later =>
        (∃ taken,
          result.1 = taken.foldl RecvOut.take {} ∧
            Splice good pcb.rcvNxt 0 taken pcb.toRcvVars
              result.2.toRcvVars) ∧
          later = world)
      allowed world := by
  have trims :
      wp (trimToWnd pcb.rcvNxt pcb.rcvWnd inseg)
        (fun trimmed later =>
          trimmed = inseg.clip pcb.rcvWnd ∧ later = world)
        allowed world := by
    rw [same]
    exact trimToWnd_clip pcb.rcvWnd whole.plain
  unfold receiveInOrder
  rw [wp_bind]
  refine wp_weaken trims ?_
  rintro _ middle ⟨rfl, rfl⟩
  have first : (inseg.clip pcb.rcvWnd).start pcb.rcvNxt = 0 := by
    have seqno : (inseg.clip pcb.rcvWnd).seqno = inseg.seqno := by
      unfold TcpSeg.clip
      split <;> rfl
    unfold TcpSeg.start distance
    rw [seqno, same]
    simp
  have placed : Placed good pcb.rcvNxt 0 (inseg.clip pcb.rcvWnd) :=
    ⟨whole.clip positive, Nat.zero_le _, by rw [first]; exact Nat.zero_le _,
      by rw [first]; exact clipped⟩
  rw [wp_bind]
  refine wp_weaken (mergeOoseq_merged cuts placed first line inherits) ?_
  rintro ⟨inseg, queue⟩ later ⟨merged, rfl⟩
  dsimp only at merged
  have mergedFits : inseg.tcplen ≤ pcb.rcvWnd ∨ allowed .tcplenRcvWnd := by
    refine roomy.imp (fun room => ?_) fun both => both.1
    have ends := room _ _ merged.placed.good
    rw [merged.first] at ends
    omega
  rw [wp_bind]
  refine wp_weaken (advanceRcv_spec _ inseg _ mergedFits window) ?_
  rintro _ last ⟨rfl, inside, wnd, rfl⟩
  dsimp only at inside
  have stop : inseg.stop pcb.rcvNxt = inseg.tcplen := by
    unfold TcpSeg.stop
    rw [merged.first, Nat.zero_add]
  have ends : inseg.endSeq = place pcb.rcvNxt (inseg.stop pcb.rcvNxt) :=
    inseg.place_end pcb.rcvNxt inseg.tcplen
  have total :
      inseg.stop pcb.rcvNxt + (pcb.rcvWnd - inseg.tcplen) = pcb.rcvWnd := by
    omega
  rw [wp_bind]
  refine wp_weaken
    (drainOoseq_splice queue _ _ merged.line ends
      (by simpa only [total] using roomy) window) ?_
  rintro ⟨result, after⟩ final ⟨⟨taken, rfl, noData, splice⟩, rfl⟩
  obtain ⟨high, strung, rcvNxt, rcvWnd, left⟩ := splice.strung
  have only (fin : inseg.hdr.fin = true) : taken = [] :=
    noData (merged.last fin)
  have sameRcv : (tcpAck after).toRcvVars = after.toRcvVars := by
    unfold tcpAck
    split <;> rfl
  rw [wp_pure]
  refine ⟨⟨inseg :: taken, rfl, ?_⟩, rfl⟩
  rw [sameRcv]
  refine ⟨⟨high, ⟨merged.placed, merged.first, only, strung⟩, rcvNxt, ?_,
    left⟩, splice.refusedData⟩
  dsimp only at rcvWnd ⊢
  omega

/-! ## The data part of `tcp_receive` -/

/-- The sequence number lies within a quarter of the circle of `rcvNxt`. -/
def Nearby (seqno rcvNxt : SeqNo) : Prop :=
  distance rcvNxt seqno ≤ 2 ^ 30 ∨ distance seqno rcvNxt ≤ 2 ^ 30

instance (seqno rcvNxt : SeqNo) : Decidable (Nearby seqno rcvNxt) :=
  inferInstanceAs (Decidable (_ ∨ _))

/-- The segment as the window test finds it. -/
def TcpSeg.trimmed (rcvNxt : SeqNo) (inseg : TcpSeg) : TcpSeg :=
  if frontTrims inseg.seqno inseg.tcplen rcvNxt then
    { inseg with
      len := inseg.len - distance inseg.seqno rcvNxt
      p := inseg.p.removeFront (distance inseg.seqno rcvNxt)
      seqno := rcvNxt }
  else
    inseg

/-- What is trimmed is shorter than the segment, but for a segment half of the
circle away. -/
theorem trims_inside
    {rcvNxt : SeqNo}
    {inseg : TcpSeg}
    (whole : Whole inseg)
    (trims : frontTrims inseg.seqno inseg.tcplen rcvNxt = true) :
    0 < distance inseg.seqno rcvNxt ∧
        distance inseg.seqno rcvNxt < inseg.tcplen ∨
      distance inseg.seqno rcvNxt = 2 ^ 31 := by
  have bounds := inseg.len_le_tcplen
  have short := whole.short
  have either :=
    (frontTrims_iff inseg.seqno rcvNxt inseg.tcplen whole.occupies
      (by omega)).mp trims
  exact either.imp id fun both => both.2

theorem Nearby.notOpposite
    {seqno rcvNxt : SeqNo}
    (nearby : Nearby seqno rcvNxt) :
    distance seqno rcvNxt ≠ 2 ^ 31 := by
  unfold Nearby distance at nearby
  unfold distance
  intro opposite
  have other : (seqno - rcvNxt).toNat = 2 ^ 31 := by
    bv_omega
  omega

theorem Whole.trimmed
    {rcvNxt : SeqNo}
    {inseg : TcpSeg}
    (whole : Whole inseg)
    (inside :
      frontTrims inseg.seqno inseg.tcplen rcvNxt = true →
        distance inseg.seqno rcvNxt < inseg.tcplen) :
    Whole (inseg.trimmed rcvNxt) := by
  have len := whole.len
  have short := whole.short
  unfold TcpSeg.trimmed
  split
  · rename_i trims
    have inside := inside trims
    refine ⟨?_, whole.plain, ?_, ?_⟩
    · unfold Pbuf.totLen at len ⊢
      simp only [Pbuf.data_removeFront, List.length_drop]
      omega
    · unfold TcpSeg.tcplen at inside ⊢
      dsimp only
      omega
    · dsimp only
      omega
  · exact whole

/-- The start of a segment is trimmed, or it is half of the circle away and
the offset insane. -/
theorem trimStart_trimmed
    {rcvNxt : SeqNo}
    {inseg : TcpSeg}
    (whole : Whole inseg)
    (short : inseg.len < 65535)
    (near : Nearby inseg.seqno rcvNxt ∨ allowed .insaneOffset) :
    wp
      (trimStart (frontTrims inseg.seqno inseg.tcplen rcvNxt) rcvNxt inseg)
      (fun seg later =>
        seg = inseg.trimmed rcvNxt ∧
          Whole seg ∧
          (frontTrims inseg.seqno inseg.tcplen rcvNxt = true →
            distance inseg.seqno rcvNxt < inseg.tcplen) ∧
          later = world)
      allowed world := by
  have bounds := inseg.len_le_tcplen
  have len := whole.len
  unfold trimStart
  rw [wp_ite]
  refine ⟨fun trims => ?_, fun untrimmed => ?_⟩
  · have same :
        { inseg with
          len := inseg.len - (rcvNxt - inseg.seqno).toNat
          p := inseg.p.removeFront (rcvNxt - inseg.seqno).toNat
          seqno := rcvNxt } = inseg.trimmed rcvNxt := by
      unfold TcpSeg.trimmed
      rw [if_pos trims]
      rfl
    have either := trims_inside whole trims
    unfold trimFront
    simp only [wp_bind, wp_ensure, wp_pure]
    rw [same]
    rcases either with ⟨_, inside⟩ | opposite
    · have trimmed := whole.trimmed fun _ => inside
      refine ⟨fun _ => ⟨fun _ => ⟨rfl, trimmed, fun _ => inside, trivial⟩,
        fun bad => ?_⟩, fun bad => ?_⟩
      all_goals unfold distance at inside
      · exact absurd (of_decide_eq_false bad) (by omega)
      · exact absurd (of_decide_eq_false bad) (by omega)
    · have insane : allowed .insaneOffset :=
        near.resolve_left fun nearby => nearby.notOpposite opposite
      unfold distance at opposite
      refine ⟨fun fits => ?_, fun _ => insane⟩
      exact absurd (of_decide_eq_true fits) (by omega)
  · have same : inseg.trimmed rcvNxt = inseg :=
      if_neg untrimmed
    rw [wp_pure, same]
    exact ⟨rfl, whole, fun trims => absurd trims untrimmed, rfl⟩

/-- What passes the window test lies in the window. -/
theorem trimmed_inside
    {rcvNxt : SeqNo}
    {rcvWnd : Nat}
    {inseg : TcpSeg}
    (nearby : Nearby inseg.seqno rcvNxt)
    (within : rcvWnd ≤ tcpWnd)
    (passes : inWindow (inseg.trimmed rcvNxt).seqno rcvNxt rcvWnd = true) :
    (inseg.trimmed rcvNxt).start rcvNxt < rcvWnd := by
  have value : tcpWnd = 46720 := rfl
  have either :=
    (inWindow_iff (inseg.trimmed rcvNxt).seqno rcvNxt rcvWnd
      (by omega)).mp passes
  rcases either with inside | ⟨_, halfway⟩
  · exact inside
  · exfalso
    unfold Nearby distance at nearby
    unfold TcpSeg.trimmed at halfway
    split at halfway
    · simp at halfway
    · have opposite : (rcvNxt - inseg.seqno).toNat = 2 ^ 31 + 1 := by
        bv_omega
      omega

/-- A segment that comes in, front trimmed, lies in the window, and what is
good of it once it is cut to the window; a segment that is put before others is
not cut. -/
structure Admitted
    (good : Nat → TcpSeg → Prop)
    (rcv : RcvVars)
    (seg : TcpSeg) :
    Prop where
  inside : seg.start rcv.rcvNxt < rcv.rcvWnd
  clipped :
    good (seg.start rcv.rcvNxt)
      (seg.clip (rcv.rcvWnd - seg.start rcv.rcvNxt))
  fits :
    0 < seg.start rcv.rcvNxt →
      (rcv.ooseq = [] ∨ ∃ next ∈ rcv.ooseq, seg.Precedes rcv.rcvNxt next) →
        good (seg.start rcv.rcvNxt) seg
  inherits :
    0 < seg.start rcv.rcvNxt → Inherits good rcv.rcvNxt rcv.ooseq seg
  merges :
    seg.start rcv.rcvNxt = 0 →
      Inherits good rcv.rcvNxt rcv.ooseq (seg.clip rcv.rcvWnd)

/-- `tcp_receive` hands over a string of segments from `rcv_nxt` on, and keeps
the queue in line behind it. -/
theorem tcpReceiveData_splice
    (cuts : Cuts good)
    {inseg : TcpSeg}
    (pcb : TcpPcb)
    (len : inseg.len = inseg.p.totLen)
    (plain : inseg.hdr.syn = false)
    (short : inseg.len < 65535)
    (near : Nearby inseg.seqno pcb.rcvNxt ∨ allowed .insaneOffset)
    (passing :
      Whole inseg →
        (frontTrims inseg.seqno inseg.tcplen pcb.rcvNxt = true →
            distance inseg.seqno pcb.rcvNxt < inseg.tcplen) →
          inWindow (inseg.trimmed pcb.rcvNxt).seqno pcb.rcvNxt pcb.rcvWnd =
              true →
            Admitted good pcb.toRcvVars (inseg.trimmed pcb.rcvNxt))
    (line : InLine good pcb.rcvNxt 1 pcb.ooseq)
    (within : pcb.rcvWnd ≤ tcpWnd)
    (roomy : Roomy allowed good pcb.rcvWnd)
    (window : allowed .newRcvAnnWnd) :
    wp (tcpReceiveData inseg pcb)
      (fun result _ =>
        ∃ taken,
          result.1 = taken.foldl RecvOut.take {} ∧
            Splice good pcb.rcvNxt 0 taken pcb.toRcvVars
              result.2.toRcvVars)
      allowed world := by
  have idle : Splice good pcb.rcvNxt 0 [] pcb.toRcvVars pcb.toRcvVars :=
    ⟨⟨0, rfl, (place_zero _).symm, rfl, line⟩, rfl⟩
  unfold tcpReceiveData
  rw [wp_ite]
  refine ⟨fun inside => ?_, fun _ => ?_⟩
  swap
  · rw [wp_ite]
    exact ⟨fun _ => ⟨[], rfl, idle⟩, fun _ => ⟨[], rfl, idle⟩⟩
  have whole : Whole inseg :=
    ⟨len, plain, inside.1, Nat.lt_succ_of_lt short⟩
  have noted (now : TcpPcb) (rcv : now.toRcvVars = pcb.toRcvVars) :
      wp
        (trimStart (frontTrims inseg.seqno inseg.tcplen pcb.rcvNxt)
            now.rcvNxt inseg >>= fun inseg =>
          if inWindow inseg.seqno now.rcvNxt now.rcvWnd = true then
            if now.rcvNxt = inseg.seqno then
              receiveInOrder inseg now
            else
              receiveOutOfOrder inseg now >>= fun pcb =>
                pure (({} : RecvOut), pcb)
          else
            tcpSendEmptyAck now >>= fun result =>
              pure (({} : RecvOut), result.2))
        (fun result _ =>
          ∃ taken,
            result.1 = taken.foldl RecvOut.take {} ∧
              Splice good pcb.rcvNxt 0 taken pcb.toRcvVars
                result.2.toRcvVars)
        allowed world := by
    rw [rcv, wp_bind]
    refine wp_weaken (trimStart_trimmed whole short near) ?_
    rintro seg middle ⟨rfl, trimmed, shorter, rfl⟩
    rw [wp_ite]
    refine ⟨fun passes => ?_, fun _ => ?_⟩
    swap
    · rw [wp_bind]
      refine wp_weaken (tcpSendEmptyAck_spec now) ?_
      rintro ⟨_, after⟩ later ⟨frame, _⟩
      have unmoved := frame.rcv.trans rcv
      rw [wp_pure]
      dsimp only at unmoved ⊢
      rw [unmoved]
      exact ⟨[], rfl, idle⟩
    have admitted := passing whole shorter passes
    have inside := admitted.inside
    have clipped := admitted.clipped
    rw [wp_ite]
    refine ⟨fun same => ?_, fun differs => ?_⟩
    · have first :
          (inseg.trimmed pcb.rcvNxt).start pcb.rcvNxt = 0 := by
        unfold TcpSeg.start distance
        rw [← same]
        simp
      rw [first, Nat.sub_zero] at clipped
      have merges := admitted.merges first
      have kept :=
        @receiveInOrder_splice allowed middle good cuts
          (inseg.trimmed pcb.rcvNxt) now trimmed (by rw [rcv]; exact same)
          (by rw [rcv]; omega) (by rw [rcv]; exact clipped)
          (by rw [rcv]; exact merges) (by rw [rcv]; exact line)
          (by rw [rcv]; exact roomy) window
      rw [rcv] at kept
      exact wp_weaken kept fun _ _ both => both.1
    · have beyond : 0 < (inseg.trimmed pcb.rcvNxt).start pcb.rcvNxt := by
        refine Nat.pos_of_ne_zero fun first => differs ?_
        rw [(inseg.trimmed pcb.rcvNxt).place_start pcb.rcvNxt, first,
          place_zero]
      have arriving :
          Arriving good pcb.rcvNxt pcb.rcvWnd (inseg.trimmed pcb.rcvNxt) :=
        ⟨trimmed, inside, within, clipped⟩
      have placed :=
        @oosInsert_inLine allowed middle good pcb.rcvNxt pcb.rcvWnd 1
          (inseg.trimmed pcb.rcvNxt) cuts arriving pcb.ooseq line beyond
          (admitted.fits beyond) (admitted.inherits beyond)
      unfold receiveOutOfOrder
      rw [wp_bind, wp_bind, rcv]
      refine wp_weaken placed fun queue middle inserted => ?_
      rw [wp_bind]
      refine wp_weaken (tcpSendEmptyAck_spec _) ?_
      rintro ⟨_, after⟩ later ⟨frame, _⟩
      have unmoved := frame.rcv
      rw [wp_pure, wp_pure]
      dsimp only at unmoved ⊢
      rw [unmoved]
      exact ⟨[], rfl, ⟨0, rfl, (place_zero _).symm, rfl, inserted⟩, rfl⟩
  simp only
  split
  · exact noted { pcb with flags.ackNow := true } rfl
  · exact noted pcb rfl

end Splice

/-! ## Seen from the new `rcv_nxt` -/

/-- Seen from `amount` places higher, a place beyond them is that much
lower. -/
theorem TcpSeg.start_place
    {base : SeqNo}
    {amount : Nat}
    {seg : TcpSeg}
    (above : amount ≤ seg.start base) :
    seg.start (place base amount) = seg.start base - amount := by
  have bound := distance_lt base seg.seqno
  unfold TcpSeg.start at above ⊢
  rw [← place_distance base seg.seqno] at above ⊢
  rw [place_distance] at above ⊢
  have gap :=
    distance_place_of_le base above (by omega)
  rw [place_distance] at gap
  exact gap

/-- The queue behind `amount` places, seen from there. -/
theorem InLine.rebase
    {good : Nat → TcpSeg → Prop}
    {base : SeqNo}
    {amount low : Nat}
    {queue : List TcpSeg}
    (line : InLine good base (amount + low) queue) :
    InLine (fun start => good (amount + start)) (place base amount) low
      queue := by
  induction queue generalizing low with
  | nil =>
      trivial
  | cons seg rest inductionHypothesis =>
      obtain ⟨placed, last, restLine⟩ := line
      have above := placed.above
      have close := placed.close
      have start :=
        @TcpSeg.start_place base amount seg (by omega)
      have stop :
          amount + seg.stop (place base amount) = seg.stop base := by
        unfold TcpSeg.stop
        omega
      refine ⟨⟨placed.whole, by omega, by omega, ?_⟩, last, ?_⟩
      · rw [start, Nat.add_sub_cancel' (by omega)]
        exact placed.good
      · rw [← stop] at restLine
        exact inductionHypothesis restLine

theorem InLine.weaken
    {good other : Nat → TcpSeg → Prop}
    {base : SeqNo}
    {low : Nat}
    {queue : List TcpSeg}
    (line : InLine good base low queue)
    (implies : ∀ start seg, good start seg → other start seg) :
    InLine other base low queue := by
  induction queue generalizing low with
  | nil =>
      trivial
  | cons seg rest inductionHypothesis =>
      obtain ⟨placed, last, restLine⟩ := line
      exact ⟨{ placed with good := implies _ _ placed.good }, last,
        inductionHypothesis restLine⟩

end NetstackLwip

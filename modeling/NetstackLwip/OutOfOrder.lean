import NetstackLwip.ReadBuffer
import NetstackLwip.SequenceTests

namespace NetstackLwip

/-!
# Putting a segment on the out-of-order queue

The queue seen from `rcv_nxt`: each segment starts some places above it, where
the one before has ended. The receive window keeps all of them so close that
the comparisons of sequence numbers are those of the places. What else a
property asks of a segment in its place is a predicate, which has to survive
the cutting of segments and, for the one that is put on the queue, the FIN of
what it covers.
-/

open FaultState SerialNumber

/-! ## Segments and their places -/

namespace TcpSeg

/-- How far above `base` the segment starts. -/
def start (base : SeqNo) (seg : TcpSeg) : Nat :=
  distance base seg.seqno

/-- How far above `base` the segment has ended. -/
def stop (base : SeqNo) (seg : TcpSeg) : Nat :=
  seg.start base + seg.tcplen

/-- The first `size` bytes of the segment, without its FIN. -/
def cut (seg : TcpSeg) (size : Nat) : TcpSeg :=
  { seg with hdr.fin := false, len := size, p := seg.p.realloc size }

/-- The segment with a FIN at its end. -/
def withFin (seg : TcpSeg) : TcpSeg :=
  { seg with hdr.fin := true }

/-- The segment as far as there is room for it. -/
def clip (room : Nat) (seg : TcpSeg) : TcpSeg :=
  if room < seg.tcplen then seg.cut room else seg

/-- The segment goes before a queued one, or takes its place. -/
def Precedes (base : SeqNo) (seg next : TcpSeg) : Prop :=
  seg.start base < next.start base ∨
    seg.start base = next.start base ∧ next.len < seg.len

end TcpSeg

/-- A segment without SYN that has data or a FIN, and all of its data. -/
structure Whole (seg : TcpSeg) : Prop where
  len : seg.len = seg.p.totLen
  plain : seg.hdr.syn = false
  occupies : 0 < seg.tcplen
  short : seg.len < 65536

/-- A whole segment at least `low` places above `base`, and close to it. -/
structure Placed
    (good : Nat → TcpSeg → Prop)
    (base : SeqNo)
    (low : Nat)
    (seg : TcpSeg) :
    Prop where
  whole : Whole seg
  above : low ≤ seg.start base
  close : seg.start base ≤ tcpWnd
  good : good (seg.start base) seg

/-- Segments in order from `low` on; only the last may have a FIN. -/
def InLine (good : Nat → TcpSeg → Prop) (base : SeqNo) :
    Nat → List TcpSeg → Prop
  | _, [] => True
  | low, seg :: rest =>
      Placed good base low seg ∧
        (seg.hdr.fin = true → rest = []) ∧
        InLine good base (seg.stop base) rest

/-- What is good of a segment survives cutting off its end. -/
def Cuts (good : Nat → TcpSeg → Prop) : Prop :=
  ∀ start seg size,
    good start seg → 0 < size → size ≤ seg.len → good start (seg.cut size)

/-- What is good of the segment survives the FIN of a queued one that it
covers. -/
def Inherits
    (good : Nat → TcpSeg → Prop)
    (base : SeqNo)
    (queue : List TcpSeg)
    (seg : TcpSeg) :
    Prop :=
  seg.hdr.fin = false →
    ∀ next ∈ queue,
      next.hdr.fin = true →
        seg.start base ≤ next.start base →
          next.start base + next.len ≤ seg.start base + seg.len →
            good (seg.start base) seg.withFin

theorem Inherits.subset
    {good : Nat → TcpSeg → Prop}
    {base : SeqNo}
    {queue rest : List TcpSeg}
    {seg : TcpSeg}
    (inherits : Inherits good base queue seg)
    (subset : rest ⊆ queue) :
    Inherits good base rest seg :=
  fun noFin next member => inherits noFin next (subset member)

namespace TcpSeg

variable {seg : TcpSeg}

@[simp]
theorem start_cut
    (base : SeqNo)
    (seg : TcpSeg)
    (size : Nat) :
    (seg.cut size).start base = seg.start base :=
  rfl

@[simp]
theorem start_withFin
    (base : SeqNo)
    (seg : TcpSeg) :
    seg.withFin.start base = seg.start base :=
  rfl

theorem place_start
    (base : SeqNo)
    (seg : TcpSeg) :
    seg.seqno = place base (seg.start base) :=
  (place_distance base seg.seqno).symm

theorem place_end
    (base : SeqNo)
    (seg : TcpSeg)
    (size : Nat) :
    seg.seqno + BitVec.ofNat 32 size = place base (seg.start base + size) := by
  rw [seg.place_start base, place_add_ofNat]

theorem tcplen_of_fin
    (plain : seg.hdr.syn = false)
    (fin : seg.hdr.fin = true) :
    seg.tcplen = seg.len + 1 := by
  simp [tcplen, plain, fin]

theorem tcplen_of_noFin
    (plain : seg.hdr.syn = false)
    (noFin : seg.hdr.fin = false) :
    seg.tcplen = seg.len := by
  simp [tcplen, plain, noFin]

theorem len_le_tcplen
    (seg : TcpSeg) :
    seg.len ≤ seg.tcplen ∧ seg.tcplen ≤ seg.len + 1 := by
  unfold tcplen
  split <;> omega

theorem tcplen_cut
    (plain : seg.hdr.syn = false)
    (size : Nat) :
    (seg.cut size).tcplen = size := by
  simp [cut, tcplen, plain]

/-- Cutting a segment that has no FIN leaves its header alone. -/
theorem cut_eq
    (noFin : seg.hdr.fin = false)
    (size : Nat) :
    { seg with len := size, p := seg.p.realloc size } = seg.cut size := by
  unfold cut
  rw [← noFin]

end TcpSeg

namespace Whole

variable {seg : TcpSeg}

theorem cut
    (whole : Whole seg)
    {size : Nat}
    (positive : 0 < size)
    (inside : size ≤ seg.len) :
    Whole (seg.cut size) where
  len := by
    have len := whole.len
    unfold TcpSeg.cut
    simp only [Pbuf.totLen_realloc]
    omega
  plain := whole.plain
  occupies := by
    rw [TcpSeg.tcplen_cut whole.plain]
    exact positive
  short := Nat.lt_of_le_of_lt inside whole.short

theorem withFin
    (whole : Whole seg) :
    Whole seg.withFin where
  len := whole.len
  plain := whole.plain
  occupies := by
    have plain : seg.withFin.hdr.syn = false := whole.plain
    rw [TcpSeg.tcplen_of_fin plain rfl]
    omega
  short := whole.short

end Whole

/-- All of a whole segment is taken. -/
theorem RecvOut.size_take
    (out : RecvOut)
    {seg : TcpSeg}
    (whole : Whole seg)
    (noFin : out.gotFin = false) :
    (out.take seg).size = out.size + seg.tcplen := by
  have len := whole.len
  unfold RecvOut.size RecvOut.take TcpSeg.tcplen
  rw [whole.plain, noFin, Bool.or_false, Bool.false_or]
  simp only [Bool.false_eq_true, if_false]
  split
  · simp only [Option.getD_some, Pbuf.totLen_cat]
    omega
  · omega

/-- Places a little above the window are near each other. -/
theorem near_of_close
    {first second : Nat}
    (firstClose : first ≤ tcpWnd + 2 ^ 18)
    (secondClose : second ≤ tcpWnd + 2 ^ 18) :
    Near 32 first second := by
  have value : tcpWnd = 46720 := rfl
  unfold Near
  omega

namespace Placed

variable
  {good : Nat → TcpSeg → Prop}
  {base : SeqNo}
  {low : Nat}
  {seg next : TcpSeg}

theorem mono
    (placed : Placed good base low seg)
    {lower : Nat}
    (weaker : lower ≤ low) :
    Placed good base lower seg :=
  { placed with above := Nat.le_trans weaker placed.above }

theorem cut
    (cuts : Cuts good)
    (placed : Placed good base low seg)
    {size : Nat}
    (positive : 0 < size)
    (inside : size ≤ seg.len) :
    Placed good base low (seg.cut size) where
  whole := placed.whole.cut positive inside
  above := placed.above
  close := placed.close
  good := cuts _ _ _ placed.good positive inside

theorem stop_cut
    (placed : Placed good base low seg)
    (size : Nat) :
    (seg.cut size).stop base = seg.start base + size := by
  unfold TcpSeg.stop
  rw [TcpSeg.tcplen_cut placed.whole.plain, TcpSeg.start_cut]

/-- The ends of two segments compare like their places. -/
theorem near
    {other : Nat}
    (placed : Placed good base low seg)
    (nextPlaced : Placed good base other next)
    {size longer : Nat}
    (sizeShort : size ≤ 65536)
    (longerShort : longer ≤ 65536) :
    Near 32 (seg.start base + size) (next.start base + longer) := by
  have first := placed.close
  have second := nextPlaced.close
  exact near_of_close (by omega) (by omega)

/-- How far the segment starts above another. -/
theorem gap_eq
    (placed : Placed good base low seg)
    {before : TcpSeg}
    (ordered : before.start base ≤ seg.start base) :
    (seg.seqno - before.seqno).toNat % 65536 =
      seg.start base - before.start base := by
  have value : tcpWnd = 46720 := rfl
  have close := placed.close
  rw [seg.place_start base, before.place_start base,
    place_sub_place base ordered, BitVec.toNat_ofNat]
  omega

end Placed

theorem InLine.mono
    {good : Nat → TcpSeg → Prop}
    {base : SeqNo}
    {low lower : Nat}
    {queue : List TcpSeg}
    (line : InLine good base low queue)
    (weaker : lower ≤ low) :
    InLine good base lower queue := by
  cases queue with
  | nil =>
      trivial
  | cons seg rest =>
      exact ⟨line.1.mono weaker, line.2⟩

/-- What follows `prev` may be exchanged. -/
theorem InLine.exchange
    {good : Nat → TcpSeg → Prop}
    {base : SeqNo}
    {low : Nat}
    {prev : Option TcpSeg}
    {queue result : List TcpSeg}
    (line : InLine good base low (prev.toList ++ queue))
    (nonempty : queue ≠ [])
    (exchanged :
      ∀ other,
        (prev = none → other = low) →
          InLine good base other queue → InLine good base other result) :
    InLine good base low (prev.toList ++ result) := by
  cases prev with
  | none =>
      exact exchanged low (fun _ => rfl) line
  | some prev =>
      obtain ⟨placed, last, rest⟩ := line
      exact ⟨placed, fun fin => absurd (last fin) nonempty,
        exchanged _ (fun empty => absurd empty (by simp)) rest⟩

/-! ## Insertion -/

section Insert

variable
  {good : Nat → TcpSeg → Prop}
  {base : SeqNo}
  {low : Nat}
  (cuts : Cuts good)
include cuts

/-- A segment put before segments that start after it. -/
theorem oosCovering_inLine
    {cseg : TcpSeg}
    {queue : List TcpSeg}
    (placed : Placed good base low cseg)
    (line : InLine good base (cseg.start base + 1) queue)
    (last : cseg.hdr.fin = true → queue = [])
    (inherits : Inherits good base queue cseg) :
    InLine good base low (oosCovering cseg queue) := by
  induction queue generalizing cseg with
  | nil =>
      exact ⟨placed, fun _ => rfl, trivial⟩
  | cons next rest inductionHypothesis =>
      obtain ⟨nextPlaced, nextLast, restLine⟩ := line
      have noFin : cseg.hdr.fin = false := by
        cases fin : cseg.hdr.fin with
        | false => rfl
        | true => exact absurd (last fin) (by simp)
      have above := nextPlaced.above
      have csegShort := placed.whole.short
      have nextShort := nextPlaced.whole.short
      have ends := placed.near nextPlaced (Nat.le_of_lt csegShort)
        (Nat.le_of_lt nextShort)
      have begins := placed.near nextPlaced (Nat.le_of_lt csegShort)
        (Nat.zero_le 65536)
      rw [Nat.add_zero] at begins
      unfold oosCovering
      rw [cseg.place_end base, next.place_end base, geq_place base ends]
      split
      · rename_i covers
        have further :
            InLine good base (cseg.start base + 1) rest :=
          restLine.mono (by unfold TcpSeg.stop; omega)
        cases nextFin : next.hdr.fin with
        | false =>
            rw [Bool.or_false]
            exact inductionHypothesis placed further
              (fun fin => absurd fin (by simp [noFin]))
              (inherits.subset (List.subset_cons_self _ _))
        | true =>
            rw [nextLast nextFin, Bool.or_true]
            simp only [decide_eq_true_eq] at covers
            have stays :=
              inherits noFin next List.mem_cons_self nextFin (by omega) covers
            exact ⟨⟨placed.whole.withFin, placed.above, placed.close, stays⟩,
              fun _ => rfl, trivial⟩
      · rename_i reaches
        rw [next.place_start base, gt_place base begins]
        split
        · rename_i overlaps
          simp only [decide_eq_true_eq] at overlaps
          have inside : next.start base - cseg.start base ≤ cseg.len := by
            omega
          dsimp only
          rw [← next.place_start base, nextPlaced.gap_eq (by omega),
            TcpSeg.cut_eq noFin]
          refine ⟨placed.cut cuts (by omega) inside,
            fun fin => absurd fin Bool.false_ne_true, ?_⟩
          rw [placed.stop_cut]
          have follows :
              Placed good base
                (cseg.start base + (next.start base - cseg.start base)) next :=
            { nextPlaced with above := by omega }
          exact ⟨follows, nextLast, restLine⟩
        · rename_i apart
          refine ⟨placed, fun fin => absurd fin (by simp [noFin]), ?_⟩
          have ended : cseg.stop base ≤ next.start base := by
            simp only [decide_eq_true_eq] at apart
            unfold TcpSeg.stop
            rw [TcpSeg.tcplen_of_noFin placed.whole.plain noFin]
            omega
          have follows : Placed good base (cseg.stop base) next :=
            { nextPlaced with above := ended }
          exact ⟨follows, nextLast, restLine⟩

theorem tcpOosInsertSegment_inLine
    {cseg : TcpSeg}
    {queue : List TcpSeg}
    (placed : Placed good base low cseg)
    (line : InLine good base (cseg.start base + 1) queue)
    (inherits : Inherits good base queue cseg) :
    InLine good base low (tcpOosInsertSegment cseg queue) := by
  unfold tcpOosInsertSegment
  split
  · exact ⟨placed, fun _ => rfl, trivial⟩
  · rename_i noFin
    exact oosCovering_inLine cuts placed line
      (fun fin => absurd fin noFin) inherits

/-- A longer segment replaces the one that starts where it does. -/
theorem tcpOosInsertSegment_replaces
    {cseg next : TcpSeg}
    {rest : List TcpSeg}
    (placed : Placed good base low cseg)
    (line : InLine good base low (next :: rest))
    (same : cseg.start base = next.start base)
    (longer : next.len < cseg.len)
    (inherits : Inherits good base (next :: rest) cseg) :
    InLine good base low (tcpOosInsertSegment cseg (next :: rest)) := by
  obtain ⟨nextPlaced, nextLast, restLine⟩ := line
  unfold tcpOosInsertSegment
  split
  · exact ⟨placed, fun _ => rfl, trivial⟩
  rename_i fin
  have noFin : cseg.hdr.fin = false := by
    simpa using fin
  have ends := placed.near nextPlaced (Nat.le_of_lt placed.whole.short)
    (Nat.le_of_lt nextPlaced.whole.short)
  have covers :
      geq (cseg.seqno + BitVec.ofNat 32 cseg.len)
          (next.seqno + BitVec.ofNat 32 next.len) = true := by
    rw [cseg.place_end base, next.place_end base, geq_place base ends]
    exact decide_eq_true (by omega)
  unfold oosCovering
  rw [if_pos covers]
  have occupies := nextPlaced.whole.occupies
  have further : InLine good base (cseg.start base + 1) rest :=
    restLine.mono (by unfold TcpSeg.stop; omega)
  cases nextFin : next.hdr.fin with
  | false =>
      rw [Bool.or_false]
      exact oosCovering_inLine cuts placed further
        (fun fin => absurd fin (by simp [noFin]))
        (inherits.subset (List.subset_cons_self _ _))
  | true =>
      rw [nextLast nextFin, Bool.or_true]
      have stays :=
        inherits noFin next List.mem_cons_self nextFin (by omega) (by omega)
      exact ⟨⟨placed.whole.withFin, placed.above, placed.close, stays⟩,
        fun _ => rfl, trivial⟩

/-- A queued segment gives way to one that starts inside it. -/
theorem trimBefore_placed
    {prev inseg : TcpSeg}
    (placed : Placed good base low prev)
    (noFin : prev.hdr.fin = false)
    (after : prev.start base < inseg.start base)
    (close : inseg.start base ≤ tcpWnd) :
    Placed good base low (trimBefore inseg.seqno prev) ∧
      (trimBefore inseg.seqno prev).hdr.fin = false ∧
      (trimBefore inseg.seqno prev).stop base ≤ inseg.start base := by
  have value : tcpWnd = 46720 := rfl
  have prevClose := placed.close
  have prevShort := placed.whole.short
  have ends :
      Near 32 (prev.start base + prev.len) (inseg.start base) := by
    refine near_of_close ?_ (Nat.le_add_right_of_le close)
    omega
  have gap :
      (inseg.seqno - prev.seqno).toNat % 65536 =
        inseg.start base - prev.start base := by
    rw [inseg.place_start base, prev.place_start base,
      place_sub_place base (Nat.le_of_lt after), BitVec.toNat_ofNat]
    omega
  unfold trimBefore
  rw [gap]
  rw [prev.place_end base, inseg.place_start base, gt_place base ends]
  split
  · rename_i reaches
    simp only [decide_eq_true_eq] at reaches
    dsimp only
    rw [TcpSeg.cut_eq noFin]
    refine ⟨placed.cut cuts (by omega) (by omega), noFin, ?_⟩
    rw [placed.stop_cut]
    omega
  · rename_i apart
    simp only [decide_eq_true_eq] at apart
    refine ⟨placed, noFin, ?_⟩
    unfold TcpSeg.stop
    rw [TcpSeg.tcplen_of_noFin placed.whole.plain noFin]
    omega

end Insert

/-- A segment inside the receive window, after what comes next in order. -/
structure Arriving
    (good : Nat → TcpSeg → Prop)
    (base : SeqNo)
    (rcvWnd : Nat)
    (inseg : TcpSeg) :
    Prop where
  whole : Whole inseg
  inside : inseg.start base < rcvWnd
  within : rcvWnd ≤ tcpWnd
  clipped :
    good (inseg.start base) (inseg.clip (rcvWnd - inseg.start base))

namespace Arriving

variable
  {good : Nat → TcpSeg → Prop}
  {base : SeqNo}
  {rcvWnd low : Nat}
  {inseg : TcpSeg}

theorem close
    (arriving : Arriving good base rcvWnd inseg) :
    inseg.start base ≤ tcpWnd :=
  Nat.le_of_lt (Nat.lt_of_lt_of_le arriving.inside arriving.within)

theorem placed
    (arriving : Arriving good base rcvWnd inseg)
    (above : low ≤ inseg.start base)
    (fits : good (inseg.start base) inseg) :
    Placed good base low inseg :=
  ⟨arriving.whole, above, arriving.close, fits⟩

/-- Whether the segment overruns the window. -/
theorem overruns
    (arriving : Arriving good base rcvWnd inseg) :
    gt inseg.endSeq (base + BitVec.ofNat 32 rcvWnd) =
      decide (rcvWnd - inseg.start base < inseg.tcplen) := by
  have close := arriving.close
  have inside := arriving.inside
  have short := arriving.whole.short
  have bounds := inseg.len_le_tcplen
  have ends :
      Near 32 (inseg.start base + inseg.tcplen) rcvWnd := by
    refine near_of_close ?_ (Nat.le_add_right_of_le arriving.within)
    omega
  have places := gt_place base ends
  unfold place at places
  rw [TcpSeg.endSeq, inseg.place_end base]
  unfold place
  rw [places]
  exact decide_eq_decide.mpr (by omega)

/-- How much of the window lies above the segment's start. -/
theorem room
    (arriving : Arriving good base rcvWnd inseg) :
    (base + BitVec.ofNat 32 rcvWnd - inseg.seqno).toNat % 65536 =
      rcvWnd - inseg.start base := by
  have value : tcpWnd = 46720 := rfl
  have within := arriving.within
  have gap := place_sub_place base (Nat.le_of_lt arriving.inside)
  unfold place at gap
  rw [inseg.place_start base]
  unfold place
  rw [gap, BitVec.toNat_ofNat]
  omega

end Arriving

section Place

variable
  {allowed : Fault → Prop}
  {world : World}
  {good : Nat → TcpSeg → Prop}
  {base : SeqNo}
  {rcvWnd low : Nat}
  {inseg : TcpSeg}
  (cuts : Cuts good)
  (arriving : Arriving good base rcvWnd inseg)
include cuts arriving

theorem oosAppend_inLine
    {next : TcpSeg}
    (placed : Placed good base low next)
    (after : next.start base < inseg.start base) :
    wp (oosAppend (base + BitVec.ofNat 32 rcvWnd) inseg next)
      (fun queue _ => InLine good base low queue) allowed world := by
  have alone : InLine good base low [next] :=
    ⟨placed, fun _ => rfl, trivial⟩
  have clipped := arriving.clipped
  have inside := arriving.inside
  have plain := arriving.whole.plain
  unfold oosAppend
  rw [wp_ite]
  refine ⟨fun _ => alone, fun noFin => ?_⟩
  obtain ⟨trimmed, trimmedFin, gives⟩ :=
    trimBefore_placed cuts placed (by simpa using noFin) after arriving.close
  rw [wp_bind]
  refine wp_allocate fun outcome left => ?_
  rw [wp_ite]
  refine ⟨fun _ => ?_, fun _ => alone⟩
  rw [wp_ite, arriving.overruns]
  simp only [decide_eq_true_eq]
  refine ⟨fun overruns => ?_, fun fits => ?_⟩
  · have bounds := inseg.len_le_tcplen
    have cut : TcpSeg.clip (rcvWnd - inseg.start base) inseg =
        inseg.cut (rcvWnd - inseg.start base) := if_pos overruns
    rw [cut] at clipped
    have whole : Whole (inseg.cut (rcvWnd - inseg.start base)) :=
      arriving.whole.cut (by omega) (by omega)
    have ends :
        (inseg.cut (rcvWnd - inseg.start base)).endSeq =
          base + BitVec.ofNat 32 rcvWnd := by
      rw [TcpSeg.endSeq, TcpSeg.place_end base, TcpSeg.tcplen_cut plain,
        TcpSeg.start_cut,
        show inseg.start base + (rcvWnd - inseg.start base) = rcvWnd by omega]
      rfl
    have same :
        { inseg with
          hdr.fin := false
          len := rcvWnd - inseg.start base
          p := inseg.p.realloc (rcvWnd - inseg.start base) } =
          inseg.cut (rcvWnd - inseg.start base) := rfl
    simp only [wp_bind, wp_ensure, wp_pure]
    rw [arriving.room, same, ends]
    refine ⟨fun _ => ?_, fun bad => absurd bad (by simp)⟩
    exact ⟨trimmed, fun fin => absurd fin (by simp [trimmedFin]),
      ⟨whole, gives, arriving.close, clipped⟩, fun _ => rfl, trivial⟩
  · have kept : TcpSeg.clip (rcvWnd - inseg.start base) inseg = inseg :=
      if_neg fits
    rw [kept] at clipped
    exact ⟨trimmed, fun fin => absurd fin (by simp [trimmedFin]),
      arriving.placed gives clipped, fun _ => rfl, trivial⟩

omit cuts arriving in
theorem oosInsertBefore_inLine
    {queue : List TcpSeg}
    (kept : InLine good base low queue)
    (inserted : InLine good base low (tcpOosInsertSegment inseg queue)) :
    wp (oosInsertBefore inseg queue)
      (fun result _ => InLine good base low result) allowed world := by
  unfold oosInsertBefore
  rw [wp_bind]
  refine wp_allocate fun outcome left => ?_
  rw [wp_ite]
  exact ⟨fun _ => inserted, fun _ => kept⟩

omit cuts in
/-- The test for the place between two queued segments. -/
theorem between_eq
    {prev next : TcpSeg}
    (prevPlaced : Placed good base low prev)
    (nextPlaced : Placed good base (prev.stop base) next) :
    between inseg.seqno (prev.seqno + 1) (next.seqno - 1) =
      decide
        (prev.start base < inseg.start base ∧
          inseg.start base < next.start base) := by
  have close := arriving.close
  have prevClose := prevPlaced.close
  have nextClose := nextPlaced.close
  have occupies := prevPlaced.whole.occupies
  have apart : prev.start base + 1 ≤ next.start base := by
    have above := nextPlaced.above
    unfold TcpSeg.stop at above
    omega
  have lower :
      Near 32 (inseg.start base) (prev.start base + 1) :=
    near_of_close (Nat.le_add_right_of_le close)
      (Nat.add_le_add prevClose (by decide))
  have upper :
      Near 32 (inseg.start base) (next.start base - 1) :=
    near_of_close (Nat.le_add_right_of_le close) (by omega)
  have after : prev.seqno + 1 = place base (prev.start base + 1) :=
    prev.place_end base 1
  have positive : 1 ≤ next.start base := by
    omega
  have before : next.seqno - 1 = place base (next.start base - 1) := by
    rw [next.place_start base]
    exact place_sub_ofNat base positive
  unfold between
  rw [after, before, inseg.place_start base, geq_place base lower,
    leq_place base upper, ← Bool.decide_and]
  exact decide_eq_decide.mpr (by omega)

/-- The walk over the queue finds the segment a place in line. -/
theorem oosPlace_inLine
    (prev : Option TcpSeg)
    (queue : List TcpSeg)
    (line : InLine good base low (prev.toList ++ queue))
    (passed : ∀ seg ∈ prev, seg.start base < inseg.start base)
    (above : prev = none → low ≤ inseg.start base)
    (fits :
      (∃ next ∈ queue, inseg.Precedes base next) →
        good (inseg.start base) inseg)
    (inherits : Inherits good base queue inseg) :
    wp (oosPlace (base + BitVec.ofNat 32 rcvWnd) inseg prev queue)
      (fun result _ => InLine good base low result) allowed world := by
  induction queue generalizing prev low world with
  | nil =>
      unfold oosPlace
      rw [List.append_nil] at line
      exact line
  | cons next rest inductionHypothesis =>
      have close := arriving.close
      have fitsHere :
          inseg.Precedes base next → good (inseg.start base) inseg :=
        fun before => fits ⟨next, List.mem_cons_self, before⟩
      have fitsLater :
          (∃ seg ∈ rest, inseg.Precedes base seg) →
            good (inseg.start base) inseg := by
        rintro ⟨seg, member, before⟩
        exact fits ⟨seg, List.mem_cons_of_mem _ member, before⟩
      unfold oosPlace
      rw [wp_ite]
      refine ⟨fun same => ?_, fun differs => ?_⟩
      · have sameStart : inseg.start base = next.start base := by
          unfold TcpSeg.start
          rw [same]
        rw [wp_ite]
        refine ⟨fun longer => ?_, fun _ => line⟩
        rw [wp_bind]
        have inserted (outcome : List TcpSeg)
            (either :
              outcome = tcpOosInsertSegment inseg (next :: rest) ∨
                outcome = next :: rest) :
            InLine good base low (prev.toList ++ outcome) := by
          rcases either with rfl | rfl
          · refine line.exchange (by simp) fun other _ reachedAt => ?_
            have reached : other ≤ inseg.start base :=
              sameStart ▸ reachedAt.1.above
            exact tcpOosInsertSegment_replaces cuts
              (arriving.placed reached (fitsHere (.inr ⟨sameStart, longer⟩)))
              reachedAt sameStart longer inherits
          · exact line
        unfold oosInsertBefore
        rw [wp_bind]
        refine wp_allocate fun outcome left => ?_
        rw [wp_ite]
        exact ⟨fun _ => inserted _ (.inl rfl), fun _ => inserted _ (.inr rfl)⟩
      have differ : inseg.start base ≠ next.start base := by
        intro same
        refine differs ?_
        rw [inseg.place_start base, next.place_start base, same]
      have inserts {other : Nat}
          (reachedAt : InLine good base other (next :: rest))
          {new : Nat}
          (reached : new ≤ inseg.start base)
          (before : inseg.start base < next.start base) :
          InLine good base new (tcpOosInsertSegment inseg (next :: rest)) :=
        tcpOosInsertSegment_inLine cuts
          (arriving.placed reached (fitsHere (.inl before)))
          ⟨{ reachedAt.1 with above := before }, reachedAt.2⟩ inherits
      have inheritsLater : Inherits good base rest inseg :=
        inherits.subset (List.subset_cons_self _ _)
      have nextPlaced : Placed good base 0 next := by
        cases prev with
        | none =>
            exact line.1.mono (Nat.zero_le _)
        | some prev =>
            exact line.2.2.1.mono (Nat.zero_le _)
      have begins : Near 32 (inseg.start base) (next.start base) :=
        near_of_close (Nat.le_add_right_of_le close)
          (Nat.le_add_right_of_le nextPlaced.close)
      have isBefore :
          lt inseg.seqno next.seqno =
            decide (inseg.start base < next.start base) := by
        rw [inseg.place_start base, next.place_start base]
        exact lt_place base begins
      cases prev with
      | none =>
          simp only
          rw [wp_ite, isBefore, decide_eq_true_eq]
          refine ⟨fun before => ?_, fun notBefore => ?_⟩
          · exact oosInsertBefore_inLine line
              (inserts line (above rfl) before)
          have after : next.start base < inseg.start base := by
            omega
          rw [wp_ite]
          refine ⟨fun _ => ?_, fun _ => ?_⟩
          · exact oosAppend_inLine cuts arriving line.1 after
          · exact inductionHypothesis (some next) line (by simpa using after)
              (fun empty => absurd empty (by simp)) fitsLater inheritsLater
      | some prev =>
          obtain ⟨prevPlaced, prevLast, restLine⟩ := line
          have noFin : prev.hdr.fin = false := by
            cases fin : prev.hdr.fin with
            | false => rfl
            | true => exact absurd (prevLast fin) (by simp)
          have follows (queue : List TcpSeg)
              (line : InLine good base (prev.stop base) queue) :
              InLine good base low (prev :: queue) :=
            ⟨prevPlaced, fun fin => absurd fin (by simp [noFin]), line⟩
          have prevBefore := passed prev rfl
          simp only
          rw [wp_ite, between_eq arriving prevPlaced restLine.1,
            decide_eq_true_eq]
          refine ⟨fun both => ?_, fun neither => ?_⟩
          · obtain ⟨trimmed, trimmedFin, gives⟩ :=
              trimBefore_placed cuts prevPlaced noFin prevBefore close
            rw [wp_bind]
            refine wp_allocate fun outcome left => ?_
            rw [wp_ite]
            refine ⟨fun _ => ?_, fun _ => follows _ restLine⟩
            exact ⟨trimmed, fun fin => absurd fin (by simp [trimmedFin]),
              inserts restLine gives both.2⟩
          have after : next.start base < inseg.start base := by
            omega
          rw [wp_ite]
          refine ⟨fun _ => ?_, fun _ => ?_⟩
          · rw [wp_bind]
            exact wp_weaken (oosAppend_inLine cuts arriving restLine.1 after)
              fun queue _ line => follows queue line
          · rw [wp_bind]
            exact wp_weaken
              (inductionHypothesis (some next) restLine (by simpa using after)
                (fun empty => absurd empty (by simp)) fitsLater
                inheritsLater)
              fun queue _ line => follows queue line

/-- The queue once the segment has been put on it. -/
theorem oosInsert_inLine
    (queue : List TcpSeg)
    (line : InLine good base low queue)
    (above : low ≤ inseg.start base)
    (fits :
      (queue = [] ∨ ∃ next ∈ queue, inseg.Precedes base next) →
        good (inseg.start base) inseg)
    (inherits : Inherits good base queue inseg) :
    wp (oosInsert (base + BitVec.ofNat 32 rcvWnd) inseg queue)
      (fun result _ => InLine good base low result) allowed world := by
  unfold oosInsert
  split
  · rw [wp_bind]
    refine wp_allocate fun outcome left => ?_
    rw [wp_ite]
    exact ⟨fun _ =>
      ⟨arriving.placed above (fits (.inl rfl)), fun _ => rfl, trivial⟩,
      fun _ => trivial⟩
  · exact oosPlace_inLine cuts arriving none _ line (by simp)
      (fun _ => above) (fun before => fits (.inr before)) inherits

end Place

end NetstackLwip

import NetstackLwip.SendQueues

namespace NetstackLwip

/-!
# What `tcp_write` will do

Whether `tcp_write` accepts a buffer, and where it puts the bytes, said in
advance from the pcb and from the outcomes of the allocations.
-/

open FaultState

/-! ## Allocations -/

section Allocate

variable {allowed : Fault → Prop} {world : World}

theorem tcpPbufPrealloc_outcome
    (length maxLength : Nat)
    (pcb : TcpPcb)
    (more firstSeg : Bool) :
    wp (tcpPbufPrealloc length maxLength pcb more firstSeg)
      (fun result later =>
        (result.isSome = world.allocs.getD 0 true) ∧
          later = { world with allocs := world.allocs.tail })
      allowed world := by
  unfold tcpPbufPrealloc
  rw [wp_bind]
  refine wp_weaken allocate_outcome ?_
  rintro outcome later ⟨same, after⟩
  rw [wp_ite]
  refine ⟨fun taken => ⟨?_, after⟩, fun refused => ⟨?_, after⟩⟩
  · rw [← same, taken]
    rfl
  · rw [← same, Bool.eq_false_iff.mpr refused]
    rfl

theorem tcpCreateSegment_outcome
    (p : Pbuf)
    (hdr : HdrFlags)
    (seqno : SeqNo)
    (optsMss : Bool) :
    wp (tcpCreateSegment p hdr seqno optsMss)
      (fun result later =>
        (result =
            if world.allocs.getD 0 true then
              some { p, len := p.totLen, seqno, hdr, optsMss }
            else
              none) ∧
          later = { world with allocs := world.allocs.tail })
      allowed world := by
  unfold tcpCreateSegment
  rw [wp_bind]
  refine wp_weaken allocate_outcome ?_
  rintro outcome later ⟨same, after⟩
  rw [wp_ite]
  refine ⟨fun taken => ⟨?_, after⟩, fun refused => ⟨?_, after⟩⟩
  · rw [← same, taken]
    rfl
  · rw [← same, Bool.eq_false_iff.mpr refused]
    rfl

end Allocate

/-! ## The plan of a write -/

/-- How many bytes phases 1 and 2 of `tcp_write` put into the last buffer of
the last unsent segment, and how many into a new buffer behind it. -/
structure TailPlan where
  used : Nat := 0
  chained : Nat := 0
  deriving DecidableEq, Repr

/-- What phases 1 and 2 do with the front of `len` bytes. -/
def tailPlan (pcb : TcpPcb) (len : Nat) : TailPlan :=
  match pcb.unsent.getLast? with
  | none => {}
  | some last =>
      let space := mssLocal pcb - (last.len + last.optLength)
      let used := min space (min pcb.unsentOversize len)
      if used < len ∧ 0 < space - used ∧ 0 < last.len then
        { used, chained := min (space - used) (len - used) }
      else
        { used }

/-- The bytes that go into the last unsent segment. -/
def TailPlan.bytes (plan : TailPlan) : Nat :=
  plan.used + plan.chained

/-- The buffers that these take. -/
def TailPlan.buffers (plan : TailPlan) : Nat :=
  if plan.chained = 0 then 0 else 1

/-- How many segments `left` bytes make. -/
def segsFor (mss left : Nat) : Nat :=
  (left + mss - 1) / mss

/-- The bytes phase 3 is left with. -/
def leftOver (pcb : TcpPcb) (len : Nat) : Nat :=
  len - (tailPlan pcb len).bytes

/-- The segments phase 3 is to make. -/
def newSegs (pcb : TcpPcb) (len : Nat) : Nat :=
  segsFor (mssLocal pcb) (leftOver pcb len)

/-- What it takes for phase 3 to make segments of `left` bytes, with `queuelen`
buffers on the queues. -/
structure SegsFit
    (pcb : TcpPcb)
    (left queuelen : Nat)
    (allocs : List Bool) : Prop where
  mss : left = 0 ∨ 0 < mssLocal pcb
  queuelen :
    left = 0 ∨
      queuelen + segsFor (mssLocal pcb) left ≤ tcpSndQueuelen
  granted : Granted (2 * segsFor (mssLocal pcb) left) allocs

/-- What it takes for `tcp_write` to accept `len` bytes, for which there is
room in the send buffer. -/
structure Accepts (pcb : TcpPcb) (len : Nat) (allocs : List Bool) : Prop where
  writable : pcb.state.Writable
  queue : pcb.sndQueuelen < tcpSndQueuelen
  tail : Granted (tailPlan pcb len).buffers allocs
  segs :
    SegsFit pcb (leftOver pcb len)
      (pcb.sndQueuelen + (tailPlan pcb len).buffers)
      (allocs.drop (tailPlan pcb len).buffers)

/-- How many allocations an accepted `tcp_write` of `len` bytes has asked
for. -/
def writeAllocs (pcb : TcpPcb) (len : Nat) : Nat :=
  (tailPlan pcb len).buffers + 2 * newSegs pcb len

/-- The last unsent segment with its share of the data. -/
def extendTail (plan : TailPlan) (arg : Bytes) (seg : TcpSeg) : TcpSeg :=
  { seg with
    p :=
      (Pbuf.extendLast (arg.take plan.used) seg.p).cat
        (if plan.chained = 0 then []
        else [(arg.drop plan.used).take plan.chained])
    len := seg.len + plan.bytes }

/-- The data from `seqno` on in `count` segments of the size `mss`. -/
def chunkSegs (mss : Nat) : Nat → SeqNo → Bytes → List TcpSeg
  | 0, _, _ => []
  | count + 1, seqno, data =>
      freshSeg seqno (data.take mss) 0 ::
        chunkSegs mss count (SerialNumber.place seqno mss) (data.drop mss)

/-- The unsent queue after an accepted write, as far as its segments are
plain. -/
def plannedUnsent (pcb : TcpPcb) (arg : Bytes) : List TcpSeg :=
  let plan := tailPlan pcb arg.length
  mapLast (extendTail plan arg) pcb.unsent ++
    chunkSegs (mssLocal pcb) (newSegs pcb arg.length)
      (SerialNumber.place pcb.sndLbb plan.bytes) (arg.drop plan.bytes)

theorem segsFor_zero
    (mss : Nat) :
    segsFor mss 0 = 0 := by
  unfold segsFor
  rcases Nat.eq_zero_or_pos mss with rfl | positive
  · rfl
  · exact Nat.div_eq_of_lt (by omega)

theorem segsFor_succ
    {mss left : Nat}
    (positive : 0 < mss)
    (nonzero : 0 < left) :
    segsFor mss left = segsFor mss (left - min left mss) + 1 := by
  unfold segsFor
  rcases Nat.le_total left mss with small | large
  · rw [Nat.min_eq_left small, Nat.sub_self,
      Nat.div_eq_of_lt (show 0 + mss - 1 < mss by omega)]
    rw [show left + mss - 1 = (left - 1) + mss by omega,
      Nat.add_div_right _ positive, Nat.div_eq_of_lt (by omega)]
  · rw [Nat.min_eq_right large, ← Nat.add_div_right _ positive]
    congr 1
    omega

/-- What phases 1 and 2 give, by their plan. -/
structure PlannedTail
    (pcb : TcpPcb)
    (arg : Bytes)
    (plan : TailPlan)
    (world : World)
    (result : Option WriteTail)
    (later : World) : Prop where
  consumed :
    later = { world with allocs := world.allocs.drop plan.buffers }
  refused : ¬Granted plan.buffers world.allocs → result = none
  planned :
    Granted plan.buffers world.allocs →
      ∃ tail,
        result = some tail ∧
          tail.oversizeUsed = plan.used ∧
          tail.concatP.getD [] =
            (if plan.chained = 0 then []
            else [(arg.drop plan.used).take plan.chained]) ∧
          tail.pos = plan.bytes ∧
          tail.queuelen = pcb.sndQueuelen + plan.buffers

section Write

variable {world : World}

/-- Phases 1 and 2, if they get as far as their result. -/
theorem tcpWriteTail_plan
    (pcb : TcpPcb)
    (arg : Bytes)
    (more : Bool) :
    wp (tcpWriteTail pcb arg more)
      (PlannedTail pcb arg (tailPlan pcb arg.length) world)
      (fun _ => True) world := by
  unfold tcpWriteTail tailPlan
  cases found : pcb.unsent.getLast? with
  | none =>
      rw [wp_bind, wp_ensure]
      refine ⟨fun _ => ⟨rfl, ?_, fun _ => ⟨_, rfl, rfl, rfl, rfl, rfl⟩⟩,
        fun _ => trivial⟩
      exact fun refused => absurd (granted_zero _) refused
  | some last =>
      rw [wp_bind, wp_ensure]
      refine ⟨fun _ => ?_, fun _ => trivial⟩
      rw [wp_bind, wp_ensure]
      refine ⟨fun _ => ?_, fun _ => trivial⟩
      rw [wp_bind, wp_ensure]
      refine ⟨fun _ => ?_, fun _ => trivial⟩
      rw [wp_bind, wp_ensure]
      refine ⟨fun _ => ?_, fun _ => trivial⟩
      dsimp only
      generalize mssLocal pcb - (last.len + last.optLength) = space
      generalize min space (min pcb.unsentOversize arg.length) = used
      rw [wp_ite]
      refine ⟨fun chains => ?_, fun fills => ?_⟩
      · have short := chains.1
        have room := chains.2.1
        have nonzero : min (space - used) (arg.length - used) ≠ 0 := by
          omega
        have buffers :
            TailPlan.buffers
                ⟨used, min (space - used) (arg.length - used)⟩ = 1 :=
          if_neg nonzero
        have one : Granted 1 world.allocs ↔ world.allocs.getD 0 true = true :=
          (granted_succ 0 world.allocs).trans
            ⟨And.left, fun first => ⟨first, granted_zero _⟩⟩
        rw [if_pos chains, wp_bind]
        refine wp_weaken (tcpPbufPrealloc_outcome _ _ pcb more true) ?_
        rintro (_ | oversizeAdd) later ⟨outcome, after⟩
        · constructor
          · rw [buffers, List.drop_one]
            exact after
          · exact fun _ => rfl
          · rw [buffers, one, ← outcome]
            rintro ⟨⟩
        · constructor
          · rw [buffers, List.drop_one]
            exact after
          · rw [buffers, one]
            exact fun refused => absurd outcome.symm refused
          · intro _
            refine ⟨_, rfl, rfl, ?_, rfl, ?_⟩
            · rw [if_neg nonzero]
              rfl
            · rw [buffers]
      · rw [if_neg fills]
        exact ⟨rfl, fun refused => absurd (granted_zero _) refused,
          fun _ => ⟨_, rfl, rfl, rfl, rfl, rfl⟩⟩

/-- What phase 3 makes of the bytes behind `built.pos`. -/
structure PlannedSegs
    (pcb : TcpPcb)
    (arg : Bytes)
    (built : WriteQueue)
    (world : World)
    (result : Option WriteQueue)
    (later : World) : Prop where
  outputs : later.outputs = world.outputs
  refused :
    ¬SegsFit pcb (arg.length - built.pos) built.queuelen world.allocs →
      result = none
  planned :
    SegsFit pcb (arg.length - built.pos) built.queuelen world.allocs →
      later.allocs =
          world.allocs.drop
            (2 * segsFor (mssLocal pcb) (arg.length - built.pos)) ∧
        ∃ all,
          result = some all ∧
            all.queue.map TcpSeg.plain =
              built.queue.map TcpSeg.plain ++
                (chunkSegs (mssLocal pcb)
                  (segsFor (mssLocal pcb) (arg.length - built.pos))
                  (SerialNumber.place pcb.sndLbb built.pos)
                  (arg.drop built.pos)).map TcpSeg.plain ∧
            all.queuelen =
              built.queuelen +
                segsFor (mssLocal pcb) (arg.length - built.pos)

theorem segsFit_none
    (pcb : TcpPcb)
    (queuelen : Nat)
    (allocs : List Bool) :
    SegsFit pcb 0 queuelen allocs := by
  refine ⟨.inl rfl, .inl rfl, ?_⟩
  rw [segsFor_zero]
  exact granted_zero allocs

/-- One more segment. -/
theorem segsFit_some
    {pcb : TcpPcb}
    {left queuelen : Nat}
    {allocs : List Bool}
    (nonzero : 0 < left) :
    SegsFit pcb left queuelen allocs ↔
      0 < mssLocal pcb ∧
        allocs.getD 0 true = true ∧
          queuelen + 1 ≤ tcpSndQueuelen ∧
            allocs.getD 1 true = true ∧
              SegsFit pcb (left - min left (mssLocal pcb)) (queuelen + 1)
                (allocs.drop 2) := by
  have step (positive : 0 < mssLocal pcb) :
      Granted (2 * segsFor (mssLocal pcb) left) allocs ↔
        allocs.getD 0 true = true ∧ allocs.getD 1 true = true ∧
          Granted
            (2 * segsFor (mssLocal pcb) (left - min left (mssLocal pcb)))
            (allocs.drop 2) := by
    rw [segsFor_succ positive nonzero, Nat.mul_add, granted_succ, granted_succ,
      getD_tail, tail_tail]
  constructor
  · intro fit
    have positive := fit.mss.resolve_left (by omega)
    have queuelen := fit.queuelen.resolve_left (by omega)
    obtain ⟨first, second, others⟩ := (step positive).mp fit.granted
    rw [segsFor_succ positive nonzero] at queuelen
    exact ⟨positive, first, by omega, second, .inr positive,
      .inr (by omega), others⟩
  · rintro ⟨positive, first, one, second, fit⟩
    refine ⟨.inr positive, .inr ?_, (step positive).mpr
      ⟨first, second, fit.granted⟩⟩
    rw [segsFor_succ positive nonzero]
    rcases fit.queuelen with zero | more
    · rw [zero, segsFor_zero]
      omega
    · omega

theorem chunkSegs_succ
    {mss left : Nat}
    (positive : 0 < mss)
    (nonzero : 0 < left)
    (seqno : SeqNo)
    (data : Bytes)
    (length : data.length = left) :
    chunkSegs mss (segsFor mss left) seqno data =
      freshSeg seqno (data.take (min left mss)) 0 ::
        chunkSegs mss (segsFor mss (left - min left mss))
          (SerialNumber.place seqno (min left mss))
          (data.drop (min left mss)) := by
  rw [segsFor_succ positive nonzero]
  rcases Nat.le_total left mss with small | large
  · rw [Nat.min_eq_left small, Nat.sub_self, segsFor_zero]
    simp only [chunkSegs]
    rw [List.take_of_length_le (by omega), List.take_of_length_le (by omega)]
  · rw [Nat.min_eq_right large]
    rfl

theorem tcpWriteSegs_plan
    (pcb : TcpPcb)
    (arg : Bytes)
    (more : Bool)
    (rounds : Nat)
    (built : WriteQueue)
    (enough : tcpSndQueuelen < built.queuelen + rounds) :
    wp (tcpWriteSegs pcb arg more rounds built)
      (PlannedSegs pcb arg built world) (fun _ => True) world := by
  have finished (world : World) (built : WriteQueue)
      (nothingLeft : arg.length - built.pos = 0) :
      PlannedSegs pcb arg built world (some built) world := by
    refine ⟨rfl, fun refused => ?_, fun _ => ⟨?_, _, rfl, ?_, ?_⟩⟩
    · rw [nothingLeft] at refused
      exact absurd (segsFit_none pcb _ _) refused
    · rw [nothingLeft, segsFor_zero]
      rfl
    · rw [nothingLeft, segsFor_zero]
      exact (List.append_nil _).symm
    · rw [nothingLeft, segsFor_zero]
      rfl
  induction rounds generalizing built world with
  | zero =>
      unfold tcpWriteSegs
      rw [wp_ite]
      refine ⟨fun left => ⟨rfl, fun _ => rfl, fun fit => ?_⟩,
        fun reached => finished world built (by omega)⟩
      obtain ⟨-, -, one, -⟩ := (segsFit_some (by omega)).mp fit
      omega
  | succ rounds inductionHypothesis =>
      unfold tcpWriteSegs
      rw [wp_ite]
      refine ⟨fun left => ?_, fun reached => finished world built (by omega)⟩
      have nonzero : 0 < arg.length - built.pos := by omega
      rw [wp_bind]
      refine wp_weaken (tcpPbufPrealloc_outcome _ _ pcb more _) ?_
      rintro (_ | room) middle ⟨first, rfl⟩
      · refine ⟨rfl, fun _ => rfl, fun fit => ?_⟩
        obtain ⟨-, granted, -⟩ := (segsFit_some nonzero).mp fit
        rw [granted] at first
        cases first
      rw [wp_ite]
      refine ⟨fun full => ⟨rfl, fun _ => rfl, fun fit => ?_⟩, fun free => ?_⟩
      · obtain ⟨-, -, one, -⟩ := (segsFit_some nonzero).mp fit
        have limit : min tcpSndQueuelen tcpSndQueuelenOverflow =
            tcpSndQueuelen := by decide
        omega
      rw [wp_bind]
      refine wp_weaken (tcpCreateSegment_outcome _ _ _ _) ?_
      rintro result later ⟨created, rfl⟩
      rw [getD_tail] at created
      cases second : world.allocs.getD 1 true with
      | false =>
          rw [second, if_neg (by simp)] at created
          rw [created]
          refine ⟨rfl, fun _ => rfl, fun fit => ?_⟩
          obtain ⟨-, -, -, granted, -⟩ := (segsFit_some nonzero).mp fit
          rw [second] at granted
          cases granted
      | true =>
          rw [second, if_pos rfl] at created
          rw [created]
          refine wp_weaken (inductionHypothesis _ ?_) ?_
          · dsimp only
            omega
          rintro result last ⟨outputs, refused, planned⟩
          dsimp only at outputs refused planned
          have next :
              arg.length -
                  (built.pos +
                    min (arg.length - built.pos) (mssLocal pcb)) =
                arg.length - built.pos -
                  min (arg.length - built.pos) (mssLocal pcb) := by
            omega
          rw [next, tail_tail] at refused planned
          have granted : world.allocs.getD 0 true = true := first.symm
          have fits : built.queuelen + 1 ≤ tcpSndQueuelen := by
            have limit : min tcpSndQueuelen tcpSndQueuelenOverflow =
                tcpSndQueuelen := by decide
            omega
          refine ⟨outputs, fun unfit => refused fun fit => ?_, fun fit => ?_⟩
          · refine unfit ((segsFit_some nonzero).mpr
              ⟨?_, granted, fits, second, fit⟩)
            rcases fit.mss with nothingLeft | positive
            · omega
            · exact positive
          · obtain ⟨positive, -, -, -, others⟩ := (segsFit_some nonzero).mp fit
            obtain ⟨left, all, done, queue, queuelen⟩ := planned others
            rw [segsFor_succ positive nonzero]
            refine ⟨?_, all, done, ?_, ?_⟩
            · rw [left, List.drop_drop]
              congr 1
              omega
            · rw [queue, ← segsFor_succ positive nonzero,
                chunkSegs_succ positive nonzero _ _ (List.length_drop),
                List.map_append, List.append_assoc, List.map_cons,
                List.drop_drop, SerialNumber.place_place]
              simp [freshSeg, TcpSeg.plain, Pbuf.totLen, Pbuf.data,
                SerialNumber.place]
            · rw [queuelen]
              omega

/-! ## The whole of `tcp_write` -/

theorem tailPlan_le
    (pcb : TcpPcb)
    (len : Nat) :
    (tailPlan pcb len).bytes ≤ len := by
  unfold tailPlan TailPlan.bytes
  split
  · exact Nat.zero_le len
  · dsimp only
    split <;> dsimp only <;> omega

theorem map_mapLast
    {α : Type}
    {view : TcpSeg → α}
    {change other : TcpSeg → TcpSeg}
    (same : ∀ seg, view (change seg) = view (other seg))
    (queue : List TcpSeg) :
    (mapLast change queue).map view = (mapLast other queue).map view := by
  induction queue with
  | nil =>
      rfl
  | cons seg rest inductionHypothesis =>
      cases rest with
      | nil =>
          simp only [mapLast, List.map_cons, List.map_nil, same]
      | cons next rest =>
          simp only [mapLast, List.map_cons] at inductionHypothesis ⊢
          rw [inductionHypothesis]

theorem mapLast_id
    (queue : List TcpSeg) :
    mapLast id queue = queue := by
  induction queue with
  | nil =>
      rfl
  | cons seg rest inductionHypothesis =>
      cases rest with
      | nil =>
          rfl
      | cons next rest =>
          simp only [mapLast, inductionHypothesis]

theorem pushLast_plain
    (tail : WriteTail)
    (unsent queue : List TcpSeg) :
    (pushLast tail unsent queue).map TcpSeg.plain =
      (unsent ++ queue).map TcpSeg.plain := by
  unfold pushLast
  split
  · refine (map_mapLast (fun seg => ?_) _).trans
      (congrArg _ (mapLast_id (unsent ++ queue)))
    rfl
  · rfl

/-- The checks of `tcp_write`, for data that the send buffer has room for. -/
theorem tcpWriteChecks_plan
    (pcb : TcpPcb)
    (len : Nat)
    (nonzero : 0 < len)
    (room : len ≤ pcb.sndBuf) :
    wp (tcpWriteChecks pcb len)
      (fun result later =>
        (result.1 = .ok ↔
            pcb.state.Writable ∧ pcb.sndQueuelen < tcpSndQueuelen) ∧
          (result.1 = .ok → result.2 = pcb) ∧
          later = world)
      (fun _ => True) world := by
  have limit :
      min tcpSndQueuelen (tcpSndQueuelenOverflow + 1) = tcpSndQueuelen := by
    decide
  unfold tcpWriteChecks
  rw [limit, wp_ite]
  refine ⟨fun closed => ?_, fun state => ?_⟩
  · refine ⟨⟨nofun, ?_⟩, nofun, rfl⟩
    rintro ⟨writable, -⟩
    rcases writable with same | same | same
    · exact absurd same closed.1
    · exact absurd same closed.2.1
    · exact absurd same closed.2.2
  have writable : pcb.state.Writable := by
    unfold TcpState.Writable
    by_contra other
    exact state (by simpa only [not_or] using other)
  rw [wp_ite]
  refine ⟨fun zero => absurd zero (by omega), fun _ => ?_⟩
  rw [wp_ite]
  refine ⟨fun short => absurd short (by omega), fun _ => ?_⟩
  rw [wp_ite]
  refine ⟨fun full => ⟨⟨nofun, fun fits => ?_⟩, nofun, rfl⟩, fun free => ?_⟩
  · exact absurd fits.2 (by omega)
  have accepted : pcb.state.Writable ∧ pcb.sndQueuelen < tcpSndQueuelen :=
    ⟨writable, by omega⟩
  rw [wp_ite]
  refine ⟨fun _ => ?_, fun _ => ?_⟩
  · rw [wp_bind, wp_ensure]
    exact ⟨fun _ => ⟨⟨fun _ => accepted, fun _ => rfl⟩, fun _ => rfl, rfl⟩,
      fun _ => trivial⟩
  · rw [wp_bind, wp_ensure]
    exact ⟨fun _ => ⟨⟨fun _ => accepted, fun _ => rfl⟩, fun _ => rfl, rfl⟩,
      fun _ => trivial⟩

/-- What an accepted write leaves. -/
structure WritePlanned
    (pcb : TcpPcb)
    (arg : Bytes)
    (world : World)
    (after : TcpPcb)
    (later : World) : Prop where
  outputs : later.outputs = world.outputs
  allocs : later.allocs = world.allocs.drop (writeAllocs pcb arg.length)
  unsent :
    after.unsent.map TcpSeg.plain =
      (plannedUnsent pcb arg).map TcpSeg.plain
  sndLbb : after.sndLbb = SerialNumber.place pcb.sndLbb arg.length
  sndBuf : after.sndBuf = pcb.sndBuf - arg.length
  sndQueuelen :
    after.sndQueuelen =
      pcb.sndQueuelen + (tailPlan pcb arg.length).buffers +
        newSegs pcb arg.length
  flags : after.flags = pcb.flags

/-- The segment that is extended comes out as planned. -/
theorem commitTail_plan
    {pcb : TcpPcb}
    {arg : Bytes}
    {tail : WriteTail}
    (used : tail.oversizeUsed = (tailPlan pcb arg.length).used)
    (concatP :
      tail.concatP.getD [] =
        (if (tailPlan pcb arg.length).chained = 0 then []
        else
          [(arg.drop (tailPlan pcb arg.length).used).take
            (tailPlan pcb arg.length).chained]))
    (seg : TcpSeg) :
    (commitTail tail arg seg).plain =
      (extendTail (tailPlan pcb arg.length) arg seg).plain := by
  have inside := tailPlan_le pcb arg.length
  have added :
      (tail.concatP.getD []).totLen = (tailPlan pcb arg.length).chained := by
    unfold TailPlan.bytes at inside
    rw [concatP]
    split
    · rename_i zero
      rw [zero]
      rfl
    · simp only [Pbuf.totLen, Pbuf.data, List.flatten_cons, List.flatten_nil,
        List.append_nil, List.length_take, List.length_drop]
      omega
  unfold commitTail extendTail TailPlan.bytes TcpSeg.plain
  dsimp only
  rw [added, used, concatP, Nat.add_assoc]

theorem tcpWrite_plan
    (pcb : TcpPcb)
    (arg : Bytes)
    (more : Bool)
    (nonzero : 0 < arg.length)
    (room : arg.length ≤ pcb.sndBuf) :
    wp (tcpWrite pcb arg more)
      (fun result later =>
        (¬Accepts pcb arg.length world.allocs → result.1 ≠ .ok) ∧
          (Accepts pcb arg.length world.allocs →
            result.1 = .ok ∧ WritePlanned pcb arg world result.2 later))
      (fun _ => True) world := by
  have memerr (later : World)
      (unfit : ¬Accepts pcb arg.length world.allocs) :
      wp (tcpWriteMemerr pcb)
        (fun result later =>
          (¬Accepts pcb arg.length world.allocs → result.1 ≠ .ok) ∧
            (Accepts pcb arg.length world.allocs →
              result.1 = .ok ∧ WritePlanned pcb arg world result.2 later))
        (fun _ => True) later := by
    refine wp_weaken (tcpWriteMemerr_spec (fun _ _ _ => trivial) pcb) ?_
    rintro ⟨err, after⟩ _ ⟨-, -, mem⟩
    refine ⟨fun _ ok => ?_, fun fit => absurd fit unfit⟩
    rw [mem] at ok
    cases ok
  unfold tcpWrite
  rw [wp_bind]
  refine wp_weaken (tcpWriteChecks_plan pcb arg.length nonzero room) ?_
  rintro ⟨err, checked⟩ middle ⟨passes, same, rfl⟩
  rw [wp_ite]
  refine ⟨fun bad => ⟨fun _ => bad, fun fit => ?_⟩, fun good => ?_⟩
  · exact absurd (passes.mpr ⟨fit.writable, fit.queue⟩) bad
  have ok : err = .ok := not_not.mp good
  obtain ⟨writable, queue⟩ := passes.mp ok
  have unchanged : checked = pcb := same ok
  rw [unchanged, wp_bind]
  refine wp_weaken (tcpWriteTail_plan pcb arg more) ?_
  rintro result later ⟨consumed, refused, planned⟩
  by_cases granted :
      Granted (tailPlan pcb arg.length).buffers middle.allocs
  · obtain ⟨tail, rfl, used, concatP, pos, queuelen⟩ := planned granted
    dsimp only
    rw [wp_bind]
    refine wp_weaken (tcpWriteSegs_plan pcb arg more _ _ ?_) ?_
    · dsimp only
      omega
    rintro result last ⟨outputs, refused, planned⟩
    dsimp only at refused planned
    rw [pos, queuelen] at refused planned
    rw [consumed] at outputs refused planned
    by_cases fit :
        SegsFit pcb (arg.length - (tailPlan pcb arg.length).bytes)
          (pcb.sndQueuelen + (tailPlan pcb arg.length).buffers)
          (middle.allocs.drop (tailPlan pcb arg.length).buffers)
    · obtain ⟨left, built, rfl, queue', queuelen'⟩ := planned fit
      have accepts : Accepts pcb arg.length middle.allocs :=
        ⟨writable, queue, granted, fit⟩
      have done (after : TcpPcb)
          (is :
            after = {
              pcb with
              unsentOversize := built.oversize
              unsent :=
                pushLast tail (mapLast (commitTail tail arg) pcb.unsent)
                  built.queue
              sndLbb := pcb.sndLbb + BitVec.ofNat 32 arg.length
              sndBuf := pcb.sndBuf - arg.length
              sndQueuelen := built.queuelen }) :
          WritePlanned pcb arg middle after last := by
        rw [is]
        refine ⟨outputs, ?_, ?_, rfl, rfl, queuelen', rfl⟩
        · rw [left, List.drop_drop]
          rfl
        · dsimp only
          unfold plannedUnsent
          rw [pushLast_plain, List.map_append, List.map_append, queue',
            map_mapLast (commitTail_plan used concatP)]
          rfl
      dsimp only
      unfold tcpWriteCommit
      split
      all_goals
        simp only [wp_bind, wp_ite, wp_ensure, wp_pure]
        refine ⟨fun _ => ⟨fun _ => ⟨fun _ => ?_, fun _ => trivial⟩,
          fun _ => ?_⟩, fun _ => trivial⟩
        all_goals
          exact ⟨fun unfit => absurd accepts unfit,
            fun _ => ⟨trivial, done _ rfl⟩⟩
    · have failed := refused fit
      rw [failed]
      exact memerr last fun accepts => fit accepts.segs
  · have failed := refused granted
    rw [failed]
    exact memerr later fun accepts => granted accepts.tail

end Write

end NetstackLwip

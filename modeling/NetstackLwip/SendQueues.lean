import Mathlib.Data.List.Perm.Basic
import NetstackLwip.QueueRules

namespace NetstackLwip

/-!
# What is queued to be sent

`tcp_output` moves segments from the unsent to the unacked queue and loses
none. Whether it succeeds is decided by the pcb and by the outcomes of its
allocation and its outputs.
-/

open FaultState

/-! ## Segments as the queues count them -/

/-- A segment without its checksum and what sending changes. -/
def TcpSeg.plain (seg : TcpSeg) : TcpSeg :=
  { seg with
    oversizeLeft := 0
    hdr := { seg.hdr with psh := false, ack := false }
    chksum := {} }

/-- Everything that is not yet acknowledged. -/
def TcpPcb.queued (pcb : TcpPcb) : List TcpSeg :=
  pcb.unacked ++ pcb.unsent

/-- A segment as it stands on a queue: its length is that of its data, it takes
up sequence space, and it is no reset. -/
structure Formed (seg : TcpSeg) : Prop where
  whole : seg.p.totLen = seg.len
  nonempty : 0 < seg.tcplen
  noRst : seg.hdr.rst = false

theorem formed_closed : SendClosed Formed where
  ack _ formed := ⟨formed.whole, formed.nonempty, formed.noRst⟩
  push _ formed := ⟨formed.whole, formed.nonempty, formed.noRst⟩
  same seg other formed same := by
    have data := same.data
    have len := same.len
    have whole := formed.whole
    have nonempty := formed.nonempty
    simp only [List.append_nil, List.length_nil, Nat.add_zero] at data len
    refine ⟨?_, ?_, ?_⟩
    · unfold Pbuf.totLen at whole ⊢
      rw [data, len, whole]
    · unfold TcpSeg.tcplen at nonempty ⊢
      rw [len, same.hdr]
      exact nonempty
    · rw [same.hdr]
      exact formed.noRst

/-! ## `tcp_output` -/

theorem insertSorted_perm
    (seg : TcpSeg)
    (queue : List TcpSeg) :
    (insertSorted seg queue).Perm (seg :: queue) := by
  induction queue with
  | nil =>
      exact .refl _
  | cons cur rest inductionHypothesis =>
      unfold insertSorted
      split
      · exact (inductionHypothesis.cons cur).trans (.swap seg cur rest)
      · exact .refl _

theorem queueUnacked_perm
    {seg : TcpSeg}
    (nonempty : 0 < seg.tcplen)
    (unacked : List TcpSeg) :
    (queueUnacked unacked seg).Perm (seg :: unacked) := by
  unfold queueUnacked
  rw [if_pos nonempty]
  split
  · rename_i empty
    rw [List.getLast?_eq_none_iff.mp empty]
  · split
    · exact insertSorted_perm seg unacked
    · exact List.perm_append_singleton seg unacked

/-- How `tcp_output` moves the queues: one segment after the other goes from
the head of unsent to unacked, and one that fails keeps its place. -/
inductive OutputMoves :
    List TcpSeg → List TcpSeg → List TcpSeg → List TcpSeg → Prop where
  | stop
      (unacked unsent : List TcpSeg) :
      OutputMoves unacked unsent unacked unsent
  | failed
      (unacked : List TcpSeg)
      (seg : TcpSeg)
      (rest : List TcpSeg) :
      OutputMoves unacked (seg :: rest) unacked
        ({ seg with hdr.ack := true } :: rest)
  | sent
      {unacked rest unacked' unsent' : List TcpSeg}
      {seg : TcpSeg}
      (moves :
        OutputMoves
          (queueUnacked unacked { seg with hdr.ack := true, oversizeLeft := 0 })
          rest unacked' unsent') :
      OutputMoves unacked (seg :: rest) unacked' unsent'

/-- Nothing is lost, and nothing is sent twice. -/
theorem OutputMoves.perm
    {unacked unsent unacked' unsent' : List TcpSeg}
    (moves : OutputMoves unacked unsent unacked' unsent')
    (nonempty : ∀ seg ∈ unsent, 0 < seg.tcplen) :
    ((unacked' ++ unsent').map TcpSeg.plain).Perm
      ((unacked ++ unsent).map TcpSeg.plain) := by
  induction moves with
  | stop unacked unsent =>
      exact .refl _
  | failed unacked seg rest =>
      rw [List.map_append, List.map_append]
      exact .refl _
  | @sent unacked rest unacked' unsent' seg moves inductionHypothesis =>
      obtain ⟨first, others⟩ := List.forall_mem_cons.mp nonempty
      have moved :=
        queueUnacked_perm
          (show 0 < TcpSeg.tcplen
            { seg with hdr.ack := true, oversizeLeft := 0 } from first)
          unacked
      have plainly :=
        ((moved.append_right rest).trans List.perm_middle.symm).map
          TcpSeg.plain
      refine (inductionHypothesis others).trans (plainly.trans ?_)
      rw [List.map_append, List.map_append]
      exact .refl _

section Output

variable {allowed : Fault → Prop} {world : World}

theorem tcpOutputLoop_moves
    (faults : ∀ fault : Fault, fault.origin = .output → allowed fault)
    (wnd : Nat)
    (queue : List TcpSeg)
    (pcb : TcpPcb) :
    wp (tcpOutputLoop wnd queue pcb)
      (fun result _ =>
        OutputMoves pcb.unacked queue result.2.unacked result.2.unsent)
      allowed world := by
  induction queue generalizing pcb world with
  | nil =>
      exact .stop _ _
  | cons seg rest inductionHypothesis =>
      unfold tcpOutputLoop
      rw [wp_ite]
      refine ⟨fun _ => ?_, fun _ => .stop _ _⟩
      rw [wp_bind, wp_ensure]
      refine ⟨fun _ => ?_, fun _ => faults _ rfl⟩
      rw [wp_ite]
      refine ⟨fun _ => .stop _ _, fun _ => ?_⟩
      rw [wp_bind]
      refine wp_weaken (tcpOutputSegment_spec _ pcb) ?_
      rintro ⟨err, after⟩ middle ⟨_, queues, _⟩
      have unacked : after.unacked = pcb.unacked :=
        congrArg QueueVars.unacked queues
      rw [wp_ite]
      refine ⟨fun _ => ?_, fun _ => ?_⟩
      · dsimp only
        rw [unacked]
        exact .failed _ _ _
      · refine wp_weaken (inductionHypothesis _) ?_
        rintro ⟨_, final⟩ _ moves
        rw [← unacked]
        exact .sent moves

theorem tcpOutput_moves
    (faults : ∀ fault : Fault, fault.origin = .output → allowed fault)
    (inInput : Bool)
    (pcb : TcpPcb) :
    wp (tcpOutput inInput pcb)
      (fun result _ =>
        OutputMoves pcb.unacked pcb.unsent result.2.unacked result.2.unsent)
      allowed world := by
  have ackOrDone (middle : TcpPcb)
      (queue : middle.toQueueVars = pcb.toQueueVars) :
      wp
        (if middle.flags.ackNow then
          tcpSendEmptyAck middle
        else
          pure (outputDone middle))
        (fun result _ =>
          OutputMoves pcb.unacked pcb.unsent result.2.unacked
            result.2.unsent)
        allowed world := by
    have kept (after : TcpPcb)
        (same : after.toQueueVars = middle.toQueueVars) :
        OutputMoves pcb.unacked pcb.unsent after.unacked after.unsent := by
      rw [same.trans queue]
      exact .stop _ _
    rw [wp_ite]
    refine ⟨fun _ => ?_, fun _ => kept _ rfl⟩
    refine wp_weaken (tcpSendEmptyAck_spec middle) ?_
    rintro ⟨err, after⟩ _ ⟨acked, _⟩
    exact kept after acked.queue
  unfold tcpOutput
  rw [wp_ite]
  refine ⟨fun _ => .stop _ _, fun _ => ?_⟩
  cases unsent : pcb.unsent with
  | nil =>
      rw [unsent] at ackOrDone
      exact ackOrDone pcb rfl
  | cons seg rest =>
      rw [unsent] at ackOrDone
      rw [wp_ite]
      refine ⟨fun _ => ?_, fun _ => ?_⟩
      · refine ackOrDone _ ?_
        unfold startPersist
        split <;> rfl
      · exact tcpOutputLoop_moves faults _ _ _

end Output

/-! ## Allocations -/

/-- The next `count` allocations succeed. -/
def Granted (count : Nat) (allocs : List Bool) : Prop :=
  ∀ index < count, allocs.getD index true = true

instance (count : Nat) (allocs : List Bool) :
    Decidable (Granted count allocs) :=
  inferInstanceAs (Decidable (∀ index < count, _))

theorem granted_zero
    (allocs : List Bool) :
    Granted 0 allocs :=
  fun _ impossible => absurd impossible (Nat.not_lt_zero _)

theorem getD_tail
    {α : Type}
    (outcomes : List α)
    (index : Nat)
    (default : α) :
    outcomes.tail.getD index default =
      outcomes.getD (index + 1) default := by
  cases outcomes <;> rfl

theorem granted_succ
    (count : Nat)
    (allocs : List Bool) :
    Granted (count + 1) allocs ↔
      allocs.getD 0 true = true ∧ Granted count allocs.tail := by
  constructor
  · intro granted
    refine ⟨granted 0 (Nat.succ_pos _), fun index inside => ?_⟩
    rw [getD_tail]
    exact granted _ (Nat.succ_lt_succ inside)
  · rintro ⟨first, others⟩ index inside
    cases index with
    | zero =>
        exact first
    | succ index =>
        rw [← getD_tail]
        exact others index (Nat.lt_of_succ_lt_succ inside)

theorem tail_tail
    {α : Type}
    (outcomes : List α) :
    outcomes.tail.tail = outcomes.drop 2 := by
  rcases outcomes with _ | ⟨_, _ | ⟨_, _⟩⟩ <;> rfl

section Allocate

variable {allowed : Fault → Prop} {world : World}

theorem allocate_outcome :
    wp allocate
      (fun outcome later =>
        outcome = world.allocs.getD 0 true ∧
          later = { world with allocs := world.allocs.tail })
      allowed world := by
  unfold allocate
  rw [wp_modifyGet]
  rcases world with ⟨_, _, _, _ | ⟨outcome, rest⟩⟩
  · exact ⟨rfl, rfl⟩
  · exact ⟨rfl, rfl⟩

end Allocate

/-! ## Whether `tcp_output` succeeds -/

/-- `tcp_output` puts `seg` on the wire, if it stands at the head of unsent;
`idle` says that nothing is in flight. -/
def Passes
    (wnd : Nat)
    (pcb : TcpPcb)
    (idle : Bool)
    (seg : TcpSeg)
    (rest : List TcpSeg) : Prop :=
  reach pcb seg ≤ wnd ∧
    (tcpDoOutputNagle { pcb with unacked := if idle then [] else [seg] } seg
        rest ||
      (pcb.flags.naglememerr || pcb.flags.fin)) = true

instance
    (wnd : Nat)
    (pcb : TcpPcb)
    (idle : Bool)
    (seg : TcpSeg)
    (rest : List TcpSeg) :
    Decidable (Passes wnd pcb idle seg rest) :=
  inferInstanceAs (Decidable (_ ∧ _))

/-- How many segments of the queue the loop of `tcp_output` puts on the wire,
as long as no output fails. -/
def attempts (wnd : Nat) (pcb : TcpPcb) : Bool → List TcpSeg → Nat
  | _, [] => 0
  | idle, seg :: rest =>
      if Passes wnd pcb idle seg rest then
        attempts wnd pcb false rest + 1
      else
        0

/-- No output of `tcp_output` fails, if `queue` is the unsent queue of
`pcb`. -/
def OutputSucceeds
    (pcb : TcpPcb)
    (queue : List TcpSeg)
    (allocs : List Bool)
    (outputs : List Err) : Prop :=
  match queue with
  | [] =>
      pcb.flags.ackNow = true →
        allocs.getD 0 true = true ∧ outputs.getD 0 .ok = .ok
  | seg :: rest =>
      if min pcb.sndWnd pcb.cwnd < reach pcb seg then
        pcb.flags.ackNow = true →
          allocs.getD 0 true = true ∧ outputs.getD 0 .ok = .ok
      else
        ∀ index <
            attempts (min pcb.sndWnd pcb.cwnd) pcb pcb.unacked.isEmpty
              (seg :: rest),
          outputs.getD index .ok = .ok

/-- The parts of the pcb that `tcp_output` judges a segment by. -/
structure SameJudge (before after : TcpPcb) : Prop where
  snd : after.toSndVars = before.toSndVars
  nodelay : after.flags.nodelay = before.flags.nodelay
  infr : after.flags.infr = before.flags.infr
  naglememerr : after.flags.naglememerr = before.flags.naglememerr
  fin : after.flags.fin = before.flags.fin

theorem passes_congr
    {before after : TcpPcb}
    (same : SameJudge before after)
    {wnd : Nat}
    {idle : Bool}
    {seg other : TcpSeg}
    {rest others : List TcpSeg}
    (seqno : other.seqno = seg.seqno)
    (len : other.len = seg.len)
    (empty : others.isEmpty = rest.isEmpty) :
    Passes wnd after idle other others ↔ Passes wnd before idle seg rest := by
  have unacked :
      (if idle then ([] : List TcpSeg) else [other]).isEmpty =
        (if idle then ([] : List TcpSeg) else [seg]).isEmpty := by
    cases idle <;> rfl
  unfold Passes reach tcpDoOutputNagle
  rw [same.snd, same.nodelay, same.infr, same.naglememerr, same.fin, seqno,
    len, empty, unacked]

theorem attempts_congr
    {before after : TcpPcb}
    (same : SameJudge before after)
    {wnd : Nat}
    (idle : Bool)
    {queue others : List TcpSeg}
    (plain : others.map TcpSeg.plain = queue.map TcpSeg.plain) :
    attempts wnd after idle others = attempts wnd before idle queue := by
  induction queue generalizing others idle with
  | nil =>
      rw [List.map_eq_nil_iff.mp plain]
      rfl
  | cons seg rest inductionHypothesis =>
      obtain ⟨other, more, rfl, first, tail⟩ := List.map_eq_cons_iff.mp plain
      have empty : more.isEmpty = rest.isEmpty := by
        have lengths := congrArg List.length tail
        rw [List.length_map, List.length_map] at lengths
        rw [Bool.eq_iff_iff, List.isEmpty_iff_length_eq_zero,
          List.isEmpty_iff_length_eq_zero, lengths]
      have seqno : other.plain.seqno = seg.plain.seqno := by
        rw [first]
      have len : other.plain.len = seg.plain.len := by
        rw [first]
      unfold attempts
      rw [inductionHypothesis false tail]
      have passes :
          Passes wnd after idle other more ↔ Passes wnd before idle seg rest :=
        passes_congr same seqno len empty
      exact if_congr passes rfl rfl

section Outputs

variable {world : World}

theorem queueUnacked_ne_nil
    {seg : TcpSeg}
    (nonempty : 0 < seg.tcplen)
    (unacked : List TcpSeg) :
    (queueUnacked unacked seg).isEmpty = false := by
  have moved := queueUnacked_perm nonempty unacked
  rw [Bool.eq_false_iff]
  intro empty
  rw [List.isEmpty_iff.mp empty] at moved
  exact absurd moved.length_eq (by simp)

theorem tcpOutputLoop_outcome
    (wnd : Nat)
    (queue : List TcpSeg)
    (pcb : TcpPcb)
    (nonempty : ∀ seg ∈ queue, 0 < seg.tcplen) :
    wp (tcpOutputLoop wnd queue pcb)
      (fun result _ =>
        result.1 = .ok ↔
          ∀ index < attempts wnd pcb pcb.unacked.isEmpty queue,
            world.outputs.getD index .ok = .ok)
      (fun _ => True) world := by
  induction queue generalizing pcb world with
  | nil =>
      exact ⟨fun _ _ impossible => absurd impossible (Nat.not_lt_zero _),
        fun _ => rfl⟩
  | cons seg rest inductionHypothesis =>
      obtain ⟨first, others⟩ := List.forall_mem_cons.mp nonempty
      have stops (unfit : ¬Passes wnd pcb pcb.unacked.isEmpty seg rest) :
          ∀ index < attempts wnd pcb pcb.unacked.isEmpty (seg :: rest),
            world.outputs.getD index .ok = .ok := by
        rw [attempts, if_neg unfit]
        exact fun _ impossible => absurd impossible (Nat.not_lt_zero _)
      have nagle :
          tcpDoOutputNagle
              { pcb with
                unacked := if pcb.unacked.isEmpty then [] else [seg] }
              seg rest =
            tcpDoOutputNagle pcb seg rest := by
        unfold tcpDoOutputNagle
        cases pcb.unacked <;> rfl
      unfold tcpOutputLoop
      rw [wp_ite]
      refine ⟨fun fits => ?_, fun beyond => ?_⟩
      · rw [wp_bind, wp_ensure]
        refine ⟨fun _ => ?_, fun _ => trivial⟩
        rw [wp_ite]
        refine ⟨fun waits => ?_, fun goes => ?_⟩
        · refine ⟨fun _ => stops fun passes => ?_, fun _ => rfl⟩
          have passing := passes.2
          rw [nagle] at passing
          simp only [Bool.and_eq_true, Bool.not_eq_true'] at waits
          rw [waits.1, waits.2] at passing
          cases passing
        have passes : Passes wnd pcb pcb.unacked.isEmpty seg rest := by
          refine ⟨fits, ?_⟩
          rw [nagle]
          by_contra refused
          rw [Bool.not_eq_true, Bool.or_eq_false_iff] at refused
          refine goes ?_
          rw [refused.1, refused.2]
          rfl
        rw [wp_bind]
        refine wp_weaken
          (wp_and (tcpOutputSegment_outcome _ pcb)
            (tcpOutputSegment_spec _ pcb)) ?_
        rintro ⟨err, after⟩ middle
          ⟨⟨outcome, tail, -, unacked⟩, frame, -, -, flags, -⟩
        have bound :
            attempts wnd pcb pcb.unacked.isEmpty (seg :: rest) =
              attempts wnd pcb false rest + 1 := by
          rw [attempts, if_pos passes]
        rw [bound]
        rw [wp_ite]
        refine ⟨fun failed => ?_, fun sent => ?_⟩
        · refine ⟨fun ok => absurd ok failed, fun all => ?_⟩
          exact absurd (outcome.trans (all 0 (Nat.succ_pos _))) failed
        · have ok : world.outputs.getD 0 .ok = .ok :=
            outcome.symm.trans (not_not.mp sent)
          have busy :
              (segmentSent after { seg with hdr.ack := true }
                  rest).unacked.isEmpty = false :=
            queueUnacked_ne_nil
              (show 0 < TcpSeg.tcplen
                { seg with hdr.ack := true, oversizeLeft := 0 } from first)
              after.unacked
          have same :
              SameJudge pcb
                (segmentSent after { seg with hdr.ack := true } rest) := by
            have nodelay := congrArg PcbFlags.nodelay flags
            have infr := congrArg PcbFlags.infr flags
            have naglememerr := congrArg PcbFlags.naglememerr flags
            have fin := congrArg PcbFlags.fin flags
            exact ⟨frame.snd, nodelay, infr, naglememerr, fin⟩
          refine wp_weaken (inductionHypothesis _ others) ?_
          rintro ⟨_, final⟩ _ known
          rw [busy, attempts_congr same false rfl, tail] at known
          rw [known]
          constructor
          · intro all index inside
            cases index with
            | zero =>
                exact ok
            | succ index =>
                rw [← getD_tail]
                exact all index (Nat.lt_of_succ_lt_succ inside)
          · intro all index inside
            rw [getD_tail]
            exact all _ (Nat.succ_lt_succ inside)
      · exact ⟨fun _ => stops fun passes => beyond passes.1, fun _ => rfl⟩

theorem tcpSendEmptyAck_outcome
    (pcb : TcpPcb) :
    wp (tcpSendEmptyAck pcb)
      (fun result _ =>
        result.1 = .ok ↔
          world.allocs.getD 0 true = true ∧
            world.outputs.getD 0 .ok = .ok)
      (fun _ => True) world := by
  unfold tcpSendEmptyAck
  rw [wp_bind]
  refine wp_weaken allocate_outcome ?_
  rintro outcome later ⟨same, after⟩
  rw [wp_ite]
  refine ⟨fun taken => ?_, fun refused => ?_⟩
  · rw [wp_bind]
    refine wp_weaken (ipOutputIf_outcome _) ?_
    rintro err last ⟨sent, -⟩
    rw [after] at sent
    rw [← same, ← sent]
    split
    · exact ⟨fun _ => ⟨taken, rfl⟩, fun _ => rfl⟩
    · rename_i bad
      exact ⟨fun ok => absurd ok bad, fun both => absurd both.2 bad⟩
  · refine ⟨nofun, fun both => ?_⟩
    exact absurd (same.trans both.1) refused

theorem tcpOutput_outcome
    (pcb : TcpPcb)
    (nonempty : ∀ seg ∈ pcb.unsent, 0 < seg.tcplen) :
    wp (tcpOutput false pcb)
      (fun result _ =>
        result.1 = .ok ↔
          OutputSucceeds pcb pcb.unsent world.allocs world.outputs)
      (fun _ => True) world := by
  have acknowledged (middle : TcpPcb)
      (ackNow : middle.flags.ackNow = pcb.flags.ackNow) :
      wp
        (if middle.flags.ackNow then
          tcpSendEmptyAck middle
        else
          pure (outputDone middle))
        (fun result _ =>
          result.1 = .ok ↔
            (pcb.flags.ackNow = true →
              world.allocs.getD 0 true = true ∧
                world.outputs.getD 0 .ok = .ok))
        (fun _ => True) world := by
    rw [wp_ite, ackNow]
    refine ⟨fun due => ?_, fun idle => ?_⟩
    · refine wp_weaken (tcpSendEmptyAck_outcome middle) ?_
      intro result _ known
      rw [known]
      exact ⟨fun both _ => both, fun both => both due⟩
    · exact ⟨fun _ due => absurd due idle, fun _ => rfl⟩
  unfold tcpOutput
  rw [wp_ite]
  refine ⟨fun impossible => absurd impossible Bool.false_ne_true,
    fun _ => ?_⟩
  unfold OutputSucceeds
  rcases unsent : pcb.unsent with _ | ⟨seg, rest⟩
  · exact acknowledged pcb rfl
  dsimp only
  rw [unsent] at nonempty
  have same : reach (bindLocalIp pcb) seg = reach pcb seg := rfl
  rw [wp_ite, same]
  refine ⟨fun beyond => ?_, fun fits => ?_⟩
  · rw [if_pos beyond]
    refine acknowledged _ ?_
    unfold startPersist
    split <;> rfl
  · rw [if_neg fits]
    refine wp_weaken (tcpOutputLoop_outcome _ _ _ nonempty) ?_
    intro result _ known
    rw [known]
    have judge :
        SameJudge pcb { bindLocalIp pcb with persistBackoff := 0 } := by
      constructor <;> rfl
    rw [attempts_congr judge _ rfl]
    rfl

end Outputs

end NetstackLwip

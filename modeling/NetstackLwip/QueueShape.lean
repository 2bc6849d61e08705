import NetstackLwip.Splicing
import NetstackLwip.WindowEdge

namespace NetstackLwip

/-!
# The shape of the out-of-order queue

Whatever the peer sends without SYN and not too far from `rcv_nxt`, the queue
stays a row of disjoint segments beyond `rcv_nxt`. Nothing but the data part of
`tcp_receive` puts anything on it, whoever the pcb belongs to.
-/

open FaultState FaultMachine

/-! ## What else moves the receive variables -/

/-- The receive variables come from `data`, or from before; then the window
may be credited, up to its maximum, and the queue emptied. -/
def Moved
    (data : RecvOut → RcvVars → Prop)
    (before : RcvVars)
    (recv : RecvOut)
    (after : RcvVars) : Prop :=
  ∃ rcv,
    (rcv = before ∨ data recv rcv) ∧
      after.rcvNxt = rcv.rcvNxt ∧
      (after.ooseq = rcv.ooseq ∨ after.ooseq = []) ∧
      (rcv.rcvWnd ≤ tcpWnd →
        rcv.rcvWnd ≤ after.rcvWnd ∧ after.rcvWnd ≤ tcpWnd)

theorem Moved.of_eq
    {data : RecvOut → RcvVars → Prop}
    {before after : RcvVars}
    {recv : RecvOut}
    (same : after = before) :
    Moved data before recv after := by
  subst same
  exact ⟨_, .inl rfl, rfl, .inl rfl, fun top => ⟨Nat.le_refl _, top⟩⟩

/-- Handing over leaves the queues and `rcv_nxt`, and at most credits the
window. -/
structure Handed (before after : TcpPcb) : Prop where
  rcvNxt : after.rcvNxt = before.rcvNxt
  ooseq : after.ooseq = before.ooseq
  rcvWnd :
    before.rcvWnd ≤ tcpWnd →
      before.rcvWnd ≤ after.rcvWnd ∧ after.rcvWnd ≤ tcpWnd
  queue : after.toQueueVars = before.toQueueVars
  state : after.state = before.state

theorem Handed.of_rcv
    {before after : TcpPcb}
    (rcv :
      (after.rcvNxt, after.ooseq, after.rcvWnd) =
        (before.rcvNxt, before.ooseq, before.rcvWnd))
    (queue : after.toQueueVars = before.toQueueVars)
    (state : after.state = before.state) :
    Handed before after := by
  simp only [Prod.mk.injEq] at rcv
  obtain ⟨rcvNxt, ooseq, rcvWnd⟩ := rcv
  exact ⟨rcvNxt, ooseq, fun top => by rw [rcvWnd]; exact ⟨Nat.le_refl _, top⟩,
    queue, state⟩

theorem Handed.refl
    (pcb : TcpPcb) :
    Handed pcb pcb :=
  .of_rcv rfl rfl rfl

theorem Handed.trans
    {before middle after : TcpPcb}
    (first : Handed before middle)
    (second : Handed middle after) :
    Handed before after where
  rcvNxt := second.rcvNxt.trans first.rcvNxt
  ooseq := second.ooseq.trans first.ooseq
  rcvWnd top := by
    obtain ⟨grows, under⟩ := first.rcvWnd top
    obtain ⟨further, below⟩ := second.rcvWnd under
    exact ⟨Nat.le_trans grows further, below⟩
  queue := second.queue.trans first.queue
  state := second.state.trans first.state

section Handed

variable {world : World}

theorem tcpRecved_handed
    (pcb : TcpPcb)
    (len : Nat) :
    wp (tcpRecved true pcb len) (fun after _ => Handed pcb after)
      (fun _ => True) world := by
  have credited (wnd : Nat) (now : Bool) :
      Handed pcb
        { pcb with
          rcvWnd := recvedWnd pcb.rcvWnd len
          rcvAnnWnd := wnd
          flags.ackNow := now } :=
    ⟨rfl, rfl, fun top => recvedWnd_bounds top len, rfl, rfl⟩
  unfold tcpRecved
  rw [wp_bind]
  refine wp_weaken (tcpUpdateRcvAnnWnd_spec _ trivial) ?_
  rintro ⟨inflation, after⟩ later ⟨rfl, wnd, rfl⟩
  rw [wp_ite]
  exact ⟨fun _ => credited wnd true, fun _ => credited wnd _⟩

theorem deliverData_handed
    (recv : RecvOut)
    (pcb : TcpPcb) :
    wp (deliverData recv pcb) (fun after _ => Handed pcb after)
      (fun _ => True) world := by
  unfold deliverData
  split
  · exact .refl pcb
  · rename_i data _
    rw [wp_bind, wp_ensure]
    refine ⟨fun _ => ?_, fun _ => trivial⟩
    have credited :
        wp (tcpRecved true pcb (data.totLen % 65536) >>= fun pcb =>
            pure (Err.ok, pcb))
          (fun result _ => Handed pcb result.2) (fun _ => True) world := by
      rw [wp_bind]
      exact wp_weaken (tcpRecved_handed pcb _) fun _ _ handed => handed
    have taken :
        wp (tcpEventRecv true pcb data)
          (fun result _ => Handed pcb result.2) (fun _ => True) world := by
      unfold tcpEventRecv
      cases pcb.recv with
      | tcpRecvCb =>
          simp only
          rw [wp_bind]
          exact wp_of_outcomes (fun _ _ _ => .refl pcb) fun _ _ => trivial
      | _ =>
          exact credited
    rw [wp_bind]
    refine wp_weaken taken fun result later handed => ?_
    rw [wp_ite]
    exact ⟨fun _ => handed, fun _ => handed.trans (.of_rcv rfl rfl rfl)⟩

theorem returnFinByte_handed
    (pcb : TcpPcb) :
    Handed pcb (returnFinByte pcb) := by
  have value : tcpWnd = 46720 := rfl
  unfold returnFinByte
  split
  · exact ⟨rfl, rfl, fun top => by dsimp only; omega, rfl, rfl⟩
  · exact .refl pcb

theorem deliverFin_handed
    (recv : RecvOut)
    (pcb : TcpPcb) :
    wp (deliverFin recv pcb) (fun after _ => Handed pcb after)
      (fun _ => True) world := by
  unfold deliverFin
  rw [wp_ite]
  refine ⟨fun _ => ?_, fun _ => .refl pcb⟩
  split
  · exact .of_rcv rfl rfl rfl
  · simp only
    rw [wp_bind]
    refine wp_of_outcomes (fun _ _ _ => ?_) fun _ _ => trivial
    rw [wp_pure]
    exact returnFinByte_handed pcb

theorem wp_noPcb
    {post : TcpPcb → Prop} :
    wp (pure none : Lwip (Option TcpPcb))
      (fun final _ => ∀ after, final = some after → post after)
      (fun _ => True) world := by
  rw [wp_pure]
  rintro after ⟨⟩

/-- What `tcp_input` does after `tcp_process` leaves the queue as it is. -/
theorem finishInput_handed
    (result : InResult)
    (pcb : TcpPcb)
    (inUse : InUse pcb) :
    wp (finishInput result pcb)
      (fun final _ =>
        ∀ after,
          final = some after →
            after.rcvNxt = pcb.rcvNxt ∧
              after.ooseq = pcb.ooseq ∧
              (pcb.rcvWnd ≤ tcpWnd →
                pcb.rcvWnd ≤ after.rcvWnd ∧ after.rcvWnd ≤ tcpWnd))
      (fun _ => True) world := by
  unfold finishInput
  rw [wp_ite]
  refine ⟨fun _ => ?_, fun _ => ?_⟩
  · rw [wp_bind]
    refine wp_of_outcomes (fun _ _ _ => ?_) fun _ _ => trivial
    rw [wp_bind]
    exact wp_of_outcomes (fun _ _ _ => wp_noPcb) fun _ _ => trivial
  rw [wp_bind]
  refine wp_of_outcomes (fun _ _ _ => ?_) fun _ _ => trivial
  rw [wp_ite]
  refine ⟨fun _ => ?_, fun _ => ?_⟩
  · rw [wp_bind]
    exact wp_of_outcomes (fun _ _ _ => wp_noPcb) fun _ _ => trivial
  rw [wp_ite]
  refine ⟨fun _ => ?_, fun _ => ?_⟩
  · rw [wp_bind]
    exact wp_of_outcomes (fun _ _ _ => wp_noPcb) fun _ _ => trivial
  rw [wp_bind]
  refine wp_weaken (deliverData_handed result.recv pcb) fun fed _ first => ?_
  rw [wp_bind]
  refine wp_weaken (deliverFin_handed result.recv fed) fun done _ second => ?_
  have handed := first.trans second
  rw [wp_bind]
  refine wp_weaken
    ((inUseRules fun _ _ => trivial).output done _
      (inUse.congr handed.queue handed.state)) ?_
  rintro ⟨_, sent⟩ later ⟨output, _⟩
  rintro after ⟨⟩
  have rcv := output.rcv
  dsimp only at rcv ⊢
  rw [rcv]
  exact ⟨handed.rcvNxt, handed.ooseq, handed.rcvWnd⟩

/-- A segment moves the receive variables by its data only. -/
theorem tcpInputPcb_moved
    {data : RecvOut → RcvVars → Prop}
    {packet : Packet}
    {pcb : TcpPcb}
    (inUse : InUse pcb)
    (active : pcb.state ≠ .timeWait)
    (taken : pcb.refusedData = none)
    (received :
      packet.Reaches pcb →
        ∀ acked world,
          acked.toRcvVars = pcb.toRcvVars →
            (acked.state = pcb.state ∨
              pcb.state = .synRcvd ∧ acked.state = .established) →
              wp (tcpReceiveData (inputSeg packet) acked)
                (fun result _ => data result.1 result.2.toRcvVars)
                (fun _ => True) world) :
    wp (tcpInputPcb packet pcb)
      (fun final _ =>
        ∀ after,
          final = some after →
            ∃ recv, Moved data pcb.toRcvVars recv after.toRcvVars)
      (fun _ => True) world := by
  unfold tcpInputPcb
  simp only
  rw [wp_bind, tcpProcessRefusedData_none _ _ taken, wp_pure, wp_ite]
  refine ⟨fun both => absurd both.1 (by simp [taken]), fun _ => ?_⟩
  rw [wp_bind]
  refine wp_weaken
    (tcpProcess_kept (inUseRules fun _ _ => trivial) inUseInputs inUse
      (fun _ => trivial) active received) ?_
  rintro processed middle kept
  rcases processed with _ | ⟨result, processed⟩
  · exact wp_noPcb
  obtain ⟨known, -⟩ := kept
  refine wp_weaken (finishInput_handed result processed known.inv) ?_
  rintro final later finished after isAfter
  obtain ⟨rcvNxt, ooseq, rcvWnd⟩ := finished after isAfter
  refine ⟨result.recv, ?_⟩
  rcases known.received with ⟨_, same⟩ | ⟨rcv, holds, same | purged⟩
  · rw [same] at rcvNxt ooseq rcvWnd
    exact ⟨pcb.toRcvVars, .inl rfl, rcvNxt, .inl ooseq, rcvWnd⟩
  · rw [same] at rcvNxt ooseq rcvWnd
    exact ⟨rcv, .inr holds, rcvNxt, .inl ooseq, rcvWnd⟩
  · rw [purged] at rcvNxt ooseq rcvWnd
    exact ⟨rcv, .inr holds, rcvNxt, .inr ooseq, rcvWnd⟩

end Handed

theorem creditedWnd_bounds
    (credited : List Nat)
    {rcvWnd : Nat}
    (top : rcvWnd ≤ tcpWnd) :
    rcvWnd ≤ creditedWnd rcvWnd credited ∧
      creditedWnd rcvWnd credited ≤ tcpWnd := by
  induction credited generalizing rcvWnd with
  | nil =>
      exact ⟨Nat.le_refl _, top⟩
  | cons len rest inductionHypothesis =>
      obtain ⟨grows, below⟩ := recvedWnd_bounds top (len % 65536)
      have further := inductionHypothesis below
      exact ⟨Nat.le_trans grows further.1, further.2⟩

/-- Other events at most credit the window or empty the queue. -/
theorem Receives.moved
    {data : InPacket → RecvOut → RcvVars → Prop}
    {comes : RecvOut → RcvVars → Prop}
    {before after : TcpPcb}
    {stream later : Option TcpStream}
    {event : Event}
    {recv : RecvOut}
    {outcome : Outcome}
    (receives : Receives data before stream event recv outcome after later)
    (other : ∀ packet, event ≠ .segment packet) :
    Moved comes before.toRcvVars {} after.toRcvVars := by
  cases receives with
  | idle state rcv unread _ =>
      exact .of_eq rcv
  | stale state rcv =>
      rw [rcv]
      exact ⟨_, .inl rfl, rfl, .inr rfl, fun top => ⟨Nat.le_refl _, top⟩⟩
  | read recvs remaining known present state rcv =>
      rw [rcv]
      exact ⟨_, .inl rfl, rfl, .inl rfl, creditedWnd_bounds _⟩
  | segment packet =>
      exact absurd rfl (other packet)
  | accepted packet =>
      exact absurd rfl (other packet)
  | dropped state rcv =>
      exact .of_eq rcv

/-- Whatever happens to a pcb, its receive variables move by the data of a
segment only. -/
theorem perform_moved
    {world : World}
    {data : RecvOut → RcvVars → Prop}
    (event : Event)
    {pcb : TcpPcb}
    (inUse : InUse pcb)
    (attached : Attached world.pcbAddr pcb world.stream)
    (received :
      ∀ packet,
        event = .segment packet →
          pcb.state ≠ .timeWait →
            packet.Reaches pcb →
              ∀ acked world,
                acked.toRcvVars = pcb.toRcvVars →
                  (acked.state = pcb.state ∨
                    pcb.state = .synRcvd ∧ acked.state = .established) →
                    wp (tcpReceiveData (inputSeg packet.toPacket) acked)
                      (fun result _ => data result.1 result.2.toRcvVars)
                      (fun _ => True) world) :
    wp (perform (some pcb) event)
      (fun result _ =>
        ∀ after,
          result.1 = some after →
            ∃ recv, Moved data pcb.toRcvVars recv after.toRcvVars)
      (fun _ => True) world := by
  have performed :=
    @perform_receives (fun _ => True) world
      (fun _ out rcv => data out rcv) (fun _ _ => trivial) trivial event pcb
      inUse attached
      received
  have others (other : ∀ packet, event ≠ .segment packet) :
      wp (perform (some pcb) event)
        (fun result _ =>
          ∀ after,
            result.1 = some after →
              ∃ recv, Moved data pcb.toRcvVars recv after.toRcvVars)
        (fun _ => True) world := by
    refine wp_weaken performed ?_
    rintro ⟨left, outcome⟩ later receives after isAfter
    have leaves : left = some after := isAfter
    rw [leaves] at receives
    exact ⟨{}, Receives.moved receives other⟩
  cases event with
  | segment packet =>
      unfold perform
      simp only
      rw [wp_ite]
      refine ⟨fun waiting => ?_, fun active => ?_⟩
      · rw [wp_bind]
        refine wp_weaken
          ((inUseRules fun _ _ => trivial).tcpTimewaitInput_kept
            packet.toPacket pcb world inUse) fun left later kept => ?_
        rintro after ⟨⟩
        exact ⟨{}, .of_eq kept.frame.rcv⟩
      · rw [wp_bind]
        refine wp_weaken
          (tcpInputPcb_moved inUse active attached.taken
            (received packet rfl active))
          fun final later moved after isAfter => moved after isAfter
  | _ =>
      exact others (by simp)

/-! ## The shape -/

/-- The segment takes up the sequence number. -/
def TcpSeg.Occupies (seg : TcpSeg) (seqno : SeqNo) : Prop :=
  SerialNumber.distance seg.seqno seqno < seg.tcplen

/-- Disjoint segments in order, each with data or a FIN, the FIN at the very
end, and all beyond `rcv_nxt`. -/
structure QueueShape (rcvNxt : SeqNo) (ooseq : List TcpSeg) : Prop where
  sorted :
    ooseq.Pairwise fun first second =>
      SerialNumber.lt first.seqno second.seqno = true
  disjoint :
    ooseq.Pairwise fun first second =>
      ∀ seqno, ¬(first.Occupies seqno ∧ second.Occupies seqno)
  beyond : ∀ seg ∈ ooseq, SerialNumber.gt seg.seqno rcvNxt = true
  occupies : ∀ seg ∈ ooseq, 0 < seg.len ∨ seg.hdr.fin = true
  len : ∀ seg ∈ ooseq, seg.len = seg.p.totLen
  finLast : ∀ seg ∈ ooseq.dropLast, seg.hdr.fin = false

section Shape

variable
  {good : Nat → TcpSeg → Prop}
  {base : SeqNo}
  {low : Nat}

theorem InLine.placed
    {queue : List TcpSeg}
    (line : InLine good base low queue) :
    ∀ seg ∈ queue, Placed good base low seg := by
  induction queue generalizing low with
  | nil =>
      exact List.forall_mem_nil _
  | cons seg rest inductionHypothesis =>
      obtain ⟨placed, last, restLine⟩ := line
      have above := placed.above
      refine List.forall_mem_cons.mpr ⟨placed, fun other member => ?_⟩
      exact (inductionHypothesis restLine other member).mono
        (by unfold TcpSeg.stop; omega)

/-- A segment comes before one that starts where it has ended, and shares no
sequence number with it. -/
theorem Placed.apart
    {seg other : TcpSeg}
    (placed : Placed good base low seg)
    (follows : Placed good base (seg.stop base) other) :
    SerialNumber.lt seg.seqno other.seqno = true ∧
      ∀ seqno, ¬(seg.Occupies seqno ∧ other.Occupies seqno) := by
  have occupies := placed.whole.occupies
  have short := placed.whole.short
  have otherShort := follows.whole.short
  have bounds := seg.len_le_tcplen
  have otherBounds := other.len_le_tcplen
  have above := follows.above
  unfold TcpSeg.stop at above
  constructor
  · have begins :=
      placed.near follows (Nat.zero_le 65536) (Nat.zero_le 65536)
    rw [Nat.add_zero, Nat.add_zero] at begins
    rw [seg.place_start base, other.place_start base,
      SerialNumber.lt_place base begins]
    exact decide_eq_true (by omega)
  · rintro seqno ⟨first, second⟩
    unfold TcpSeg.Occupies at first second
    have near :=
      @Placed.near good base low seg other _ placed follows
        (SerialNumber.distance seg.seqno seqno)
        (SerialNumber.distance other.seqno seqno) (by omega) (by omega)
    have reached (start : TcpSeg) :
        SerialNumber.place base
            (start.start base + SerialNumber.distance start.seqno seqno) =
          seqno := by
      rw [← SerialNumber.place_place, ← start.place_start base,
        SerialNumber.place_distance]
    have same :=
      (SerialNumber.place_inj base near).mp
        ((reached seg).trans (reached other).symm)
    omega

theorem InLine.shape
    {queue : List TcpSeg}
    (line : InLine good base (low + 1) queue) :
    QueueShape base queue := by
  induction queue generalizing low with
  | nil =>
      exact ⟨.nil, .nil, List.forall_mem_nil _, List.forall_mem_nil _,
        List.forall_mem_nil _, List.forall_mem_nil _⟩
  | cons seg rest inductionHypothesis =>
      obtain ⟨placed, last, restLine⟩ := line
      have above := placed.above
      have occupies := placed.whole.occupies
      have behind : InLine good base (seg.start base + 1) rest :=
        restLine.mono (by unfold TcpSeg.stop; omega)
      have shape := inductionHypothesis behind
      have apart (other : TcpSeg) (member : other ∈ rest) :=
        placed.apart (restLine.placed other member)
      refine ⟨?_, ?_, ?_, ?_, ?_, ?_⟩
      · exact .cons (fun other member => (apart other member).1) shape.sorted
      · exact .cons (fun other member => (apart other member).2)
          shape.disjoint
      · refine List.forall_mem_cons.mpr ⟨?_, shape.beyond⟩
        have near : SerialNumber.Near 32 (seg.start base) 0 :=
          near_of_close (Nat.le_add_right_of_le placed.close)
            (Nat.zero_le _)
        have placeZero := SerialNumber.gt_place base near
        rw [SerialNumber.place_zero] at placeZero
        rw [seg.place_start base, placeZero]
        exact decide_eq_true (by omega)
      · refine List.forall_mem_cons.mpr ⟨?_, shape.occupies⟩
        cases fin : seg.hdr.fin with
        | true => exact .inr rfl
        | false =>
            rw [TcpSeg.tcplen_of_noFin placed.whole.plain fin] at occupies
            exact .inl occupies
      · exact List.forall_mem_cons.mpr ⟨placed.whole.len, shape.len⟩
      · cases rest with
        | nil =>
            exact List.forall_mem_nil _
        | cons next more =>
            rw [List.dropLast_cons_cons]
            refine List.forall_mem_cons.mpr ⟨?_, shape.finLast⟩
            cases fin : seg.hdr.fin with
            | false => rfl
            | true => exact absurd (last fin) (by simp)

end Shape

/-! ## Runs -/

/-- The event is no segment with SYN, and none further than a quarter of the
circle from `rcv_nxt`. -/
def Label.PlainNearby (conn : Conn) (label : Label) : Prop :=
  ∀ packet,
    label.event = .segment packet →
      packet.flags.syn = false ∧
        ∀ pcb, conn.pcb = some pcb → Nearby packet.seqno pcb.rcvNxt

/-- The pcb's queue is in line behind `rcv_nxt`, and its window no larger than
it may be. -/
structure Lined (pcb : TcpPcb) : Prop where
  line : InLine (fun _ _ => True) pcb.rcvNxt 1 pcb.ooseq
  within : pcb.rcvWnd ≤ tcpWnd

/-- What the data part of `tcp_receive` leaves is in line. -/
theorem tcpReceiveData_lined
    {world : World}
    {packet : InPacket}
    {pcb acked : TcpPcb}
    (lined : Lined pcb)
    (plain : packet.flags.syn = false)
    (nearby : Nearby packet.seqno pcb.rcvNxt)
    (same : acked.toRcvVars = pcb.toRcvVars) :
    wp (tcpReceiveData (inputSeg packet.toPacket) acked)
      (fun result _ =>
        InLine (fun _ _ => True) result.2.rcvNxt 1 result.2.ooseq ∧
          result.2.rcvWnd ≤ tcpWnd)
      (fun _ => True) world := by
  have size := packet.payload_le
  have len : (inputSeg packet.toPacket).len = packet.payload.length := rfl
  refine wp_weaken
    (@tcpReceiveData_splice (fun _ => True) world (fun _ _ => True)
      (fun _ _ _ _ _ _ => trivial) (inputSeg packet.toPacket) acked
      (inputSeg_totLen packet.toPacket).symm plain (by omega)
      (by rw [same]; exact .inl nearby)
      (by
        rw [same]
        exact fun _ _ passes =>
          ⟨trimmed_inside nearby lined.within passes, trivial,
            fun _ _ => trivial, fun _ _ _ _ _ _ _ => trivial,
            fun _ _ _ _ _ _ _ => trivial⟩)
      (by rw [same]; exact lined.line) (by rw [same]; exact lined.within)
      (.inr ⟨trivial, trivial⟩) trivial) ?_
  rintro ⟨out, after⟩ later ⟨taken, -, splice⟩
  obtain ⟨high, strung, rcvNxt, rcvWnd, line⟩ := splice.strung
  have within := lined.within
  dsimp only at rcvNxt rcvWnd line ⊢
  rw [same] at rcvWnd
  rw [rcvNxt]
  exact ⟨line.rebase, by omega⟩

/-- A step keeps the queue in line. -/
theorem Conn.step_lined
    {before after : Conn}
    {label : Label}
    (reached : connMachine.Reached before)
    (lined : ∀ pcb, before.pcb = some pcb → Lined pcb)
    (near : label.PlainNearby before)
    (taken : before.step label = .ok after) :
    ∀ pcb, after.pcb = some pcb → Lined pcb := by
  unfold Conn.step at taken
  split at taken
  swap
  · cases taken
  rename_i left outcome world ran
  cases taken
  rintro next rfl
  cases current : before.pcb with
  | none =>
      rw [current] at ran
      have gone :=
        wp_returned
          (perform_none label.event before.history.sendLog
            (label.enter before.world))
          ran
      exact absurd gone.1 (by simp)
  | some pcb =>
      rw [current] at ran
      obtain ⟨attached, inUse⟩ := attached_of_reached reached current
      have entered :
          Attached (label.enter before.world).pcbAddr pcb
            (label.enter before.world).stream := attached
      have stands := lined pcb current
      have moved :=
        wp_returned
          (@perform_moved (label.enter before.world)
            (fun _ rcv =>
              InLine (fun _ _ => True) rcv.rcvNxt 1 rcv.ooseq ∧
                rcv.rcvWnd ≤ tcpWnd)
            label.event pcb inUse entered
            (fun packet same _ _ acked world rcv _ => by
              obtain ⟨plain, nearby⟩ := near packet same
              exact tcpReceiveData_lined stands plain (nearby pcb current) rcv))
          ran
      obtain ⟨recv, rcv, comes, rcvNxt, ooseq, rcvWnd⟩ := moved next rfl
      have known :
          InLine (fun _ _ => True) rcv.rcvNxt 1 rcv.ooseq ∧
            rcv.rcvWnd ≤ tcpWnd := by
        rcases comes with rfl | known
        · exact ⟨stands.line, stands.within⟩
        · exact known
      refine ⟨?_, (rcvWnd known.2).2⟩
      rw [rcvNxt]
      rcases ooseq with same | empty
      · rw [same]
        exact known.1
      · rw [empty]
        trivial

/-- A connection opens with `rcv_nxt` behind the SYN and all else as
`tcp_alloc` leaves it. -/
theorem Conn.initial_rcv
    {conn : Conn}
    (initial : conn.Initial)
    {pcb : TcpPcb}
    (current : conn.pcb = some pcb) :
    pcb.toRcvVars = { rcvNxt := conn.history.irs + 1 } := by
  obtain ⟨packet, listener, iss, world, -, -, -, -, -, opened, -, history⟩ :=
    initial
  have kept :=
    wp_returned
      ((inUseInvariant.rules ⟨iss, [], false⟩).tcpListenInputSyn_kept
        packet.toPacket listener iss world
        (inUseInvariant.opening _ _ _ _))
      opened
  rw [current] at kept
  have rcv := kept.frame.rcv
  rw [rcv, history]
  rfl

theorem lined_reached
    {conn : Conn}
    (reached :
      connMachine.ReachedUnder (fun before label => label.PlainNearby before)
        conn) :
    ∀ pcb, conn.pcb = some pcb → Lined pcb := by
  induction reached with
  | start initial =>
      intro pcb current
      have rcv := Conn.initial_rcv initial current
      refine ⟨?_, ?_⟩
      · rw [rcv]
        trivial
      · rw [rcv]
  | next before near taken inductionHypothesis =>
      exact Conn.step_lined (before.mono fun _ _ _ => trivial)
        inductionHypothesis near taken

/-- In every run of segments without SYN, none of them further than a quarter
of the circle from `rcv_nxt`, the out-of-order queue keeps its shape, and so
does every such segment that comes next, whatever memory there is. -/
theorem out_of_order_queue_shape
    {conn : Conn}
    (reached :
      connMachine.ReachedUnder (fun before label => label.PlainNearby before)
        conn) :
    (∀ pcb, conn.pcb = some pcb → QueueShape pcb.rcvNxt pcb.ooseq) ∧
      ∀ label after,
        label.PlainNearby conn →
          conn.step label = .ok after →
            ∀ pcb, after.pcb = some pcb → QueueShape pcb.rcvNxt pcb.ooseq := by
  have lined := lined_reached reached
  constructor
  · intro pcb current
    exact (lined pcb current).line.shape
  · intro label after near taken pcb current
    have next :=
      Conn.step_lined (reached.mono fun _ _ _ => trivial) lined near taken
    exact (next pcb current).line.shape

/-- `Label.PlainNearby`, as a check. -/
def Label.checkPlainNearby (conn : Conn) (label : Label) : Bool :=
  match label.event with
  | .segment packet =>
      !packet.flags.syn &&
        conn.pcb.all fun pcb => decide (Nearby packet.seqno pcb.rcvNxt)
  | _ => true

theorem Label.plainNearby_of_check
    (conn : Conn)
    (label : Label)
    (checked : label.checkPlainNearby conn = true) :
    label.PlainNearby conn := by
  intro packet event
  unfold checkPlainNearby at checked
  rw [event] at checked
  simp only [Bool.and_eq_true, Bool.not_eq_true'] at checked
  refine ⟨checked.1, fun pcb current => ?_⟩
  have near := checked.2
  rw [current] at near
  exact of_decide_eq_true near

/-- Ten bytes and then ten with a FIN come early and overlap; what was still
missing before them comes in part. -/
theorem out_of_order_queue_shape_overlap :
    ∃ conn pcb,
      connMachine.ReachedUnder (fun before label => label.PlainNearby before)
          conn ∧
        conn.pcb = some pcb ∧
        pcb.rcvNxt = 103 ∧
        pcb.ooseq.map (fun seg => (seg.seqno, seg.len, seg.hdr.fin)) =
          [(105, 5, false), (110, 10, true)] ∧
        QueueShape pcb.rcvNxt pcb.ooseq := by
  obtain ⟨conn, reached, holds⟩ :=
    exists_reachedUnder (fun before label => label.PlainNearby before)
      (fun before label => label.checkPlainNearby before)
      (fun conn label checked => label.plainNearby_of_check conn checked)
      (exampleSyn 1000 []) 0 6510 exampleWorld
      [{ event :=
          .segment (exampleSegment { ack := true } 100 6511 1000 [] []) },
        { event :=
          .segment
            (exampleSegment { ack := true } 105 6511 1000
              [5, 6, 7, 8, 9, 10, 11, 12, 13, 14] []) },
        { event :=
          .segment
            (exampleSegment { ack := true, fin := true } 110 6511 1000
              [10, 11, 12, 13, 14, 15, 16, 17, 18, 19] []) },
        { event :=
          .segment
            (exampleSegment { ack := true } 100 6511 1000 [0, 1, 2] []) }]
      (fun conn : Conn =>
        conn.pcb.any fun pcb : TcpPcb =>
          decide
            (pcb.rcvNxt = 103 ∧
              pcb.ooseq.map (fun seg => (seg.seqno, seg.len, seg.hdr.fin)) =
                [(105, 5, false), (110, 10, true)]))
      rfl rfl rfl (by decide +kernel)
  obtain ⟨pcb, current, known⟩ := (Option.any_eq_true _ _).mp holds
  obtain ⟨rcvNxt, ooseq⟩ := of_decide_eq_true known
  exact ⟨conn, pcb, reached, current, rcvNxt, ooseq,
    (out_of_order_queue_shape reached).1 pcb current⟩

end NetstackLwip

import Mathlib.Data.List.Chain
import NetstackLwip.CallbackFrame

namespace NetstackLwip

/-!
# The edge of the announced window

How the edge that packets have announced relates to the edge of the receive
window, and how the functions that announce it, or move the window, keep this
relation. `rcv_ann_right_edge` may lag behind `rcv_nxt + rcv_wnd` as long as
the lag is less than half of the sequence space.
-/

open FaultState

/-! ## Edges -/

/-- The right edge that a packet announces: `ackno` and the window. -/
def Packet.rightEdge (packet : Packet) : SeqNo :=
  packet.ackno + packet.wnd.setWidth 32

/-- `rcv_nxt + rcv_wnd`. -/
def TcpPcb.rightEdge (pcb : TcpPcb) : SeqNo :=
  pcb.rcvNxt + BitVec.ofNat 32 pcb.rcvWnd

/-- How far `rcv_nxt + rcv_wnd` lies above an edge. -/
def TcpPcb.lag (pcb : TcpPcb) (edge : SeqNo) : Nat :=
  SerialNumber.distance edge pcb.rightEdge

/-- The edges that the packets without RST announce, in order. -/
def announcedEdges (sent : List Packet) : List SeqNo :=
  (sent.filter fun packet => !packet.flags.rst).map Packet.rightEdge

/-- No announced edge lies to the left of the one before. -/
def EdgesOrdered (sent : List Packet) : Prop :=
  (announcedEdges sent).IsChain fun first second =>
    SerialNumber.leq first second = true

/-- RST, or it announces no edge to the right of `limit`. -/
def Within (limit : SeqNo) (packet : Packet) : Prop :=
  packet.flags.rst = true ∨
    SerialNumber.leq packet.rightEdge limit = true

/-- The packets sent in between are all `carried`. -/
def Adds
    (carried : Packet → Prop)
    (before after : List Packet) : Prop :=
  ∃ more : List Packet,
    after = before ++ more ∧ ∀ packet ∈ more, carried packet

namespace Adds

variable {carried : Packet → Prop} {before middle after : List Packet}

theorem refl (sent : List Packet) : Adds carried sent sent :=
  ⟨[], by simp, by simp⟩

theorem trans
    (first : Adds carried before middle)
    (second : Adds carried middle after) :
    Adds carried before after := by
  obtain ⟨more, sent, all⟩ := first
  obtain ⟨rest, sentRest, allRest⟩ := second
  refine ⟨more ++ rest, by rw [sentRest, sent, List.append_assoc], ?_⟩
  intro packet member
  rcases List.mem_append.mp member with member | member
  · exact all packet member
  · exact allRest packet member

theorem one
    {packet : Packet}
    (holds : carried packet)
    (sent : List Packet) :
    Adds carried sent (sent ++ [packet]) :=
  ⟨[packet], rfl, by simpa using holds⟩

end Adds

theorem announcedEdges_append
    (sent more : List Packet) :
    announcedEdges (sent ++ more) =
      announcedEdges sent ++ announcedEdges more := by
  simp [announcedEdges]

theorem announcedEdges_reset
    {packet : Packet}
    (reset : packet.flags.rst = true)
    (sent : List Packet) :
    announcedEdges (sent ++ [packet]) = announcedEdges sent := by
  simp [announcedEdges, reset]

/-! ## The window and what was announced of it -/

/-- The window slides: it is never wider than `TCP_WND`, the announced edge
and the edge last sent lag behind it by at most `cap`, in this order, and the
edges sent are ordered. -/
structure Sliding
    (cap : Nat → Nat)
    (pcb : TcpPcb)
    (sent : List Packet) : Prop where
  wnd : pcb.rcvWnd ≤ tcpWnd
  slack : pcb.lag pcb.rcvAnnRightEdge ≤ cap pcb.rcvWnd
  ordered : EdgesOrdered sent
  last :
    ∀ edge ∈ (announcedEdges sent).getLast?,
      pcb.lag pcb.rcvAnnRightEdge ≤ pcb.lag edge ∧
        pcb.lag edge ≤ cap pcb.rcvWnd

/-- The window to be announced next ends between the edge last announced and
the end of the receive window. -/
structure Announced
    (cap : Nat → Nat)
    (pcb : TcpPcb)
    (sent : List Packet) : Prop
    extends Sliding cap pcb sent where
  ann : pcb.rcvAnnWnd ≤ pcb.rcvWnd
  covers :
    pcb.rcvWnd ≤ pcb.lag pcb.rcvAnnRightEdge + pcb.rcvAnnWnd

/-- Two pcbs agree on the window. -/
structure SameWindow (before after : TcpPcb) : Prop where
  rcvNxt : after.rcvNxt = before.rcvNxt
  rcvWnd : after.rcvWnd = before.rcvWnd
  ann : after.toAnnVars = before.toAnnVars

section Edges

variable
  {cap : Nat → Nat}
  {before after pcb : TcpPcb}
  {sent : List Packet}

theorem SameWindow.refl (pcb : TcpPcb) : SameWindow pcb pcb :=
  ⟨rfl, rfl, rfl⟩

theorem SameWindow.trans
    {middle : TcpPcb}
    (first : SameWindow before middle)
    (second : SameWindow middle after) :
    SameWindow before after :=
  ⟨second.rcvNxt.trans first.rcvNxt, second.rcvWnd.trans first.rcvWnd,
    second.ann.trans first.ann⟩

theorem SameWindow.lag
    (same : SameWindow before after)
    (edge : SeqNo) :
    after.lag edge = before.lag edge := by
  unfold TcpPcb.lag TcpPcb.rightEdge
  rw [same.rcvNxt, same.rcvWnd]

theorem SameWindow.annEdge
    (same : SameWindow before after) :
    after.rcvAnnRightEdge = before.rcvAnnRightEdge :=
  congrArg AnnVars.rcvAnnRightEdge same.ann

theorem SameWindow.annWnd
    (same : SameWindow before after) :
    after.rcvAnnWnd = before.rcvAnnWnd :=
  congrArg AnnVars.rcvAnnWnd same.ann

theorem Sliding.congr
    (sliding : Sliding cap before sent)
    (same : SameWindow before after) :
    Sliding cap after sent where
  wnd := same.rcvWnd ▸ sliding.wnd
  slack := by
    rw [same.lag, same.annEdge, same.rcvWnd]
    exact sliding.slack
  ordered := sliding.ordered
  last edge isLast := by
    rw [same.lag, same.lag, same.annEdge, same.rcvWnd]
    exact sliding.last edge isLast

theorem Announced.congr
    (announced : Announced cap before sent)
    (same : SameWindow before after) :
    Announced cap after sent where
  toSliding := announced.toSliding.congr same
  ann := by
    rw [same.annWnd, same.rcvWnd]
    exact announced.ann
  covers := by
    rw [same.lag, same.annEdge, same.annWnd, same.rcvWnd]
    exact announced.covers

/-- A reset announces nothing. -/
theorem Announced.reset
    {packet : Packet}
    (announced : Announced cap pcb sent)
    (reset : packet.flags.rst = true) :
    Announced cap pcb (sent ++ [packet]) where
  wnd := announced.wnd
  slack := announced.slack
  ordered := by
    unfold EdgesOrdered
    rw [announcedEdges_reset reset]
    exact announced.ordered
  last := by
    rw [announcedEdges_reset reset]
    exact announced.last
  ann := announced.ann
  covers := announced.covers

/-- Other caps that are no lower. -/
theorem Announced.widen
    {other : Nat → Nat}
    (announced : Announced cap pcb sent)
    (wider : cap pcb.rcvWnd ≤ other pcb.rcvWnd) :
    Announced other pcb sent where
  wnd := announced.wnd
  slack := announced.slack.trans wider
  ordered := announced.ordered
  last edge isLast :=
    ⟨(announced.last edge isLast).1, (announced.last edge isLast).2.trans wider⟩
  ann := announced.ann
  covers := announced.covers

/-! ## Announcing -/

/-- The edge that goes out lies where the window to be announced ends. -/
theorem lag_announceWnd
    (wnd : pcb.rcvWnd ≤ tcpWnd)
    (ann : pcb.rcvAnnWnd ≤ pcb.rcvWnd) :
    (announceWnd pcb).lag (announceWnd pcb).rcvAnnRightEdge =
      pcb.rcvWnd - pcb.rcvAnnWnd := by
  unfold TcpPcb.lag TcpPcb.rightEdge SerialNumber.distance announceWnd tcpWnd
    tcpMss at *
  simp only
  bv_omega

theorem Announced.announce
    (announced : Announced cap pcb sent) :
    Announced cap (announceWnd pcb) sent := by
  have moved := lag_announceWnd announced.wnd announced.ann
  have covers := announced.covers
  have slack := announced.slack
  have ann := announced.ann
  have shorter :
      (announceWnd pcb).lag (announceWnd pcb).rcvAnnRightEdge ≤
        pcb.lag pcb.rcvAnnRightEdge := by
    omega
  constructor
  case toSliding =>
    exact ⟨announced.wnd, shorter.trans slack, announced.ordered,
      fun edge isLast => ⟨shorter.trans (announced.last edge isLast).1,
        (announced.last edge isLast).2⟩⟩
  case ann => exact announced.ann
  case covers =>
    rw [moved]
    show pcb.rcvWnd ≤ pcb.rcvWnd - pcb.rcvAnnWnd + pcb.rcvAnnWnd
    omega

/-- The packet carries the window that is to be announced. -/
structure Announces (pcb : TcpPcb) (packet : Packet) : Prop where
  plain : packet.flags.rst = false
  ackno : packet.ackno = pcb.rcvNxt
  wnd : packet.wnd = BitVec.ofNat 16 pcb.rcvAnnWnd

theorem Announces.rightEdge
    {packet : Packet}
    (carries : Announces pcb packet)
    (wnd : pcb.rcvWnd ≤ tcpWnd)
    (ann : pcb.rcvAnnWnd ≤ pcb.rcvWnd) :
    packet.rightEdge = (announceWnd pcb).rcvAnnRightEdge := by
  unfold Packet.rightEdge announceWnd
  rw [carries.ackno, carries.wnd]
  unfold tcpWnd tcpMss at wnd
  simp only
  bv_omega

/-- What goes out ends inside the receive window. -/
theorem Announces.within
    {packet : Packet}
    (carries : Announces pcb packet)
    (wnd : pcb.rcvWnd ≤ tcpWnd)
    (ann : pcb.rcvAnnWnd ≤ pcb.rcvWnd) :
    Within pcb.rightEdge packet := by
  right
  rw [carries.rightEdge wnd ann, SerialNumber.leq_iff]
  unfold TcpPcb.rightEdge SerialNumber.distance announceWnd tcpWnd tcpMss at *
  simp only
  bv_omega

/-- What goes out is ordered after what went out before. -/
theorem Announced.carry
    {packet : Packet}
    (announced : Announced cap pcb sent)
    (near : cap pcb.rcvWnd < 2 ^ 31)
    (carries : Announces pcb packet) :
    Announced cap (announceWnd pcb) (sent ++ [packet]) := by
  have stored := announced.announce
  have edge := carries.rightEdge announced.wnd announced.ann
  have edges :
      announcedEdges (sent ++ [packet]) =
        announcedEdges sent ++ [(announceWnd pcb).rcvAnnRightEdge] := by
    rw [announcedEdges_append, ← edge]
    simp [announcedEdges, carries.plain]
  constructor
  case toSliding =>
    refine ⟨stored.wnd, stored.slack, ?_, ?_⟩
    · unfold EdgesOrdered
      rw [edges, List.isChain_append]
      refine ⟨announced.ordered, .singleton _, ?_⟩
      rintro last isLast next ⟨⟩
      obtain ⟨above, within⟩ := stored.last last isLast
      have narrow : (announceWnd pcb).rcvWnd = pcb.rcvWnd := rfl
      rw [narrow] at within
      rw [SerialNumber.leq_iff]
      unfold TcpPcb.lag SerialNumber.distance at *
      have size := near
      bv_omega
    · rw [edges, List.getLast?_concat]
      rintro last ⟨⟩
      exact ⟨le_rfl, stored.slack⟩
  case ann => exact stored.ann
  case covers => exact stored.covers

end Edges

/-! ## What sends -/

/-- Every cap is less than half of the sequence space. -/
def Near (cap : Nat → Nat) : Prop :=
  ∀ wnd ≤ tcpWnd, cap wnd < 2 ^ 31

/-- The receive window has stayed, and what was sent meanwhile announces a
part of it. -/
structure Told
    (cap : Nat → Nat)
    (before : TcpPcb)
    (sent : List Packet)
    (after : TcpPcb)
    (later : List Packet) : Prop where
  announced : Announced cap after later
  rcvNxt : after.rcvNxt = before.rcvNxt
  rcvWnd : after.rcvWnd = before.rcvWnd
  adds : Adds (Within before.rightEdge) sent later

namespace Told

variable
  {cap : Nat → Nat}
  {before middle after : TcpPcb}
  {sent between later : List Packet}

/-- Nothing was sent. -/
theorem of_same
    (announced : Announced cap before sent)
    (same : SameWindow before after) :
    Told cap before sent after sent where
  announced := announced.congr same
  rcvNxt := same.rcvNxt
  rcvWnd := same.rcvWnd
  adds := .refl _

theorem refl
    (announced : Announced cap before sent) :
    Told cap before sent before sent :=
  of_same announced (.refl before)

theorem rightEdge
    (told : Told cap before sent after later) :
    after.rightEdge = before.rightEdge := by
  unfold TcpPcb.rightEdge
  rw [told.rcvNxt, told.rcvWnd]

theorem trans
    (first : Told cap before sent middle between)
    (second : Told cap middle between after later) :
    Told cap before sent after later where
  announced := second.announced
  rcvNxt := second.rcvNxt.trans first.rcvNxt
  rcvWnd := second.rcvWnd.trans first.rcvWnd
  adds := first.adds.trans (first.rightEdge ▸ second.adds)

/-- The pcb changes afterwards, but not its window. -/
theorem after_same
    (told : Told cap before sent middle later)
    (same : SameWindow middle after) :
    Told cap before sent after later :=
  told.trans (of_same told.announced same)

/-- The pcb has changed before, but not its window. -/
theorem before_same
    (told : Told cap middle sent after later)
    (same : SameWindow before middle) :
    Told cap before sent after later where
  announced := told.announced
  rcvNxt := told.rcvNxt.trans same.rcvNxt
  rcvWnd := told.rcvWnd.trans same.rcvWnd
  adds := by
    have edge : middle.rightEdge = before.rightEdge := by
      unfold TcpPcb.rightEdge
      rw [same.rcvNxt, same.rcvWnd]
    exact edge ▸ told.adds

end Told

section Send

variable
  {allowed : Fault → Prop}
  {world : World}
  {cap : Nat → Nat}
  {pcb : TcpPcb}
  (near : Near cap)
  (others : ∀ fault : Fault, fault ≠ .newRcvAnnWnd → allowed fault)
include near

/-- `ip_output_if` of a packet that announces the window, whose edge the pcb
stores whether or not the packet goes out. -/
theorem ipOutputIf_announced
    (pcb : TcpPcb)
    {packet : Packet}
    (announced : Announced cap pcb world.sent)
    (announces : Announces pcb packet) :
    wp (ipOutputIf packet)
      (fun _ later => Told cap pcb world.sent (announceWnd pcb) later.sent)
      allowed world := by
  apply wp_ipOutputIf
  · intro _
    exact ⟨announced.carry (near _ announced.wnd) announces, rfl, rfl,
      .one (announces.within announced.wnd announced.ann) _⟩
  · intro _ _ _
    exact ⟨announced.announce, rfl, rfl, .refl _⟩

theorem tcpSendEmptyAck_announced
    (announced : Announced cap pcb world.sent) :
    wp (tcpSendEmptyAck pcb)
      (fun result later => Told cap pcb world.sent result.2 later.sent)
      allowed world := by
  unfold tcpSendEmptyAck
  rw [wp_bind]
  refine wp_allocate fun outcome rest => ?_
  rw [wp_ite]
  refine ⟨fun _ => ?_, fun _ => ?_⟩
  · rw [wp_bind]
    refine wp_weaken
      (ipOutputIf_announced near pcb announced ⟨rfl, rfl, rfl⟩) ?_
    intro err later told
    split
    · rw [wp_pure]
      exact told.after_same ⟨rfl, rfl, rfl⟩
    · rw [wp_pure]
      exact told.after_same ⟨rfl, rfl, rfl⟩
  · exact .of_same announced ⟨rfl, rfl, rfl⟩

theorem tcpZeroWindowProbe_announced
    (announced : Announced cap pcb world.sent) :
    wp (tcpZeroWindowProbe pcb)
      (fun result later => Told cap pcb world.sent result.2 later.sent)
      allowed world := by
  unfold tcpZeroWindowProbe
  split
  · exact .refl announced
  · have counted : SameWindow pcb (countProbe pcb) := ⟨rfl, rfl, rfl⟩
    rw [wp_bind]
    refine wp_allocate fun outcome rest => ?_
    rw [wp_ite]
    refine ⟨fun _ => ?_, fun _ => .of_same announced counted⟩
    rw [wp_bind]
    refine wp_weaken
      (ipOutputIf_announced near (countProbe pcb) (announced.congr counted)
        ⟨rfl, rfl, rfl⟩) ?_
    intro err later told
    rw [wp_pure]
    exact (told.before_same counted).after_same ⟨rfl, rfl, rfl⟩

omit near in
theorem tcpRst_announced
    (seqno ackno : SeqNo)
    (localIp remoteIp : IpAddr)
    (localPort remotePort : BitVec 16)
    (announced : Announced cap pcb world.sent) :
    wp (tcpRst seqno ackno localIp remoteIp localPort remotePort)
      (fun _ later => Told cap pcb world.sent pcb later.sent) allowed world := by
  unfold tcpRst
  rw [wp_bind]
  refine wp_allocate fun outcome rest => ?_
  rw [wp_ite]
  refine ⟨fun _ => ?_, fun _ => .of_same announced (.refl pcb)⟩
  rw [wp_bind]
  apply wp_ipOutputIf
  · intro _
    exact ⟨announced.reset rfl, rfl, rfl, .one (.inl rfl) _⟩
  · intro _ _ _
    exact .of_same announced (.refl pcb)

theorem tcpOutputSegment_announced
    (seg : TcpSeg)
    (plain : seg.hdr.rst = false)
    (announced : Announced cap pcb world.sent) :
    wp (tcpOutputSegment seg pcb)
      (fun result later => Told cap pcb world.sent result.2 later.sent)
      allowed world := by
  unfold tcpOutputSegment
  simp only [wp_bind, wp_get]
  refine wp_weaken
    (ipOutputIf_announced near pcb announced ⟨plain, rfl, rfl⟩) ?_
  intro err later told
  rw [wp_pure]
  exact told.after_same ⟨rfl, rfl, rfl⟩

include others

theorem tcpOutputLoop_announced
    (wnd : Nat)
    (queue : List TcpSeg)
    (announced : Announced cap pcb world.sent) :
    wp (tcpOutputLoop wnd queue pcb)
      (fun result later => Told cap pcb world.sent result.2 later.sent)
      allowed world := by
  induction queue generalizing pcb world with
  | nil =>
      exact .of_same announced ⟨rfl, rfl, rfl⟩
  | cons seg rest inductionHypothesis =>
      unfold tcpOutputLoop
      rw [wp_ite]
      refine ⟨fun _ => ?_, fun _ =>
        .of_same announced ⟨rfl, rfl, rfl⟩⟩
      rw [wp_bind, wp_ensure]
      refine ⟨fun plain => ?_, fun _ => others _ (by decide)⟩
      rw [wp_ite]
      refine ⟨fun _ => .of_same announced ⟨rfl, rfl, rfl⟩, fun _ => ?_⟩
      rw [wp_bind]
      refine wp_weaken
        (tcpOutputSegment_announced near { seg with hdr.ack := true }
          (by simpa using plain) announced) ?_
      rintro ⟨err, sent⟩ later told
      rw [wp_ite]
      refine ⟨fun _ => told.after_same ⟨rfl, rfl, rfl⟩, fun _ => ?_⟩
      have queued :
          Told cap pcb world.sent
            (segmentSent sent { seg with hdr.ack := true } rest)
            later.sent :=
        told.after_same ⟨rfl, rfl, rfl⟩
      exact wp_weaken (inductionHypothesis queued.announced) fun _ _ more =>
        queued.trans more

theorem tcpOutput_announced
    (inInput : Bool)
    (announced : Announced cap pcb world.sent) :
    wp (tcpOutput inInput pcb)
      (fun result later => Told cap pcb world.sent result.2 later.sent)
      allowed world := by
  have ackOrDone
      {middle : TcpPcb}
      (same : SameWindow pcb middle) :
      wp
        (if middle.flags.ackNow then
          tcpSendEmptyAck middle
        else
          pure (outputDone middle))
        (fun result later => Told cap pcb world.sent result.2 later.sent)
        allowed world := by
    rw [wp_ite]
    refine ⟨fun _ => ?_, fun _ =>
      .of_same announced (same.trans ⟨rfl, rfl, rfl⟩)⟩
    exact wp_weaken
      (tcpSendEmptyAck_announced near (announced.congr same))
      fun _ _ told => told.before_same same
  unfold tcpOutput
  rw [wp_ite]
  refine ⟨fun _ => .refl announced, fun _ => ?_⟩
  split
  · exact ackOrDone (.refl pcb)
  · rw [wp_ite]
    refine ⟨fun _ => ?_, fun _ => ?_⟩
    · refine ackOrDone ?_
      unfold startPersist
      split <;> exact ⟨rfl, rfl, rfl⟩
    · have bound :
          SameWindow pcb { bindLocalIp pcb with persistBackoff := 0 } :=
        ⟨rfl, rfl, rfl⟩
      exact wp_weaken
        (tcpOutputLoop_announced near others _ _ (announced.congr bound))
        fun _ _ told => told.before_same bound

end Send

/-! ## What moves the window -/

section Move

variable
  {allowed : Fault → Prop}
  {world : World}
  {cap : Nat → Nat}
  {pcb : TcpPcb}
  (near : Near cap)

include near

/-- The window is announced anew; its assertion holds. -/
theorem tcpUpdateRcvAnnWnd_announced
    (sliding : Sliding cap pcb world.sent) :
    wp (tcpUpdateRcvAnnWnd pcb)
      (fun result later =>
        Announced cap result.2 later.sent ∧
          result.2 = { pcb with rcvAnnWnd := result.2.rcvAnnWnd } ∧
          later = world)
      allowed world := by
  have wnd := sliding.wnd
  have size := near _ wnd
  have slack := sliding.slack
  have shown
      (ann : Nat)
      (within : ann ≤ pcb.rcvWnd)
      (covers : pcb.rcvWnd ≤ pcb.lag pcb.rcvAnnRightEdge + ann) :
      Announced cap { pcb with rcvAnnWnd := ann } world.sent :=
    ⟨⟨sliding.wnd, sliding.slack, sliding.ordered, sliding.last⟩, within,
      covers⟩
  unfold tcpUpdateRcvAnnWnd
  rw [wp_ite]
  refine ⟨fun far => ?_, fun close => ?_⟩
  · exact ⟨shown _ le_rfl (Nat.le_add_left _ _), rfl, rfl⟩
  · have lagging :
        pcb.lag pcb.rcvAnnRightEdge < min (tcpWnd / 2) pcb.mss := by
      have halved : min (tcpWnd / 2) pcb.mss ≤ 23360 :=
        (Nat.min_le_left _ _).trans (by decide)
      rw [SerialNumber.geq_iff] at close
      unfold TcpPcb.lag TcpPcb.rightEdge SerialNumber.distance at *
      generalize min (tcpWnd / 2) pcb.mss = step at *
      bv_omega
    have halved : min (tcpWnd / 2) pcb.mss ≤ 23360 :=
      (Nat.min_le_left _ _).trans (by decide)
    have top : pcb.rcvWnd ≤ 46720 := wnd
    rw [wp_ite]
    refine ⟨fun passed => ?_, fun ahead => ?_⟩
    · refine ⟨shown 0 (Nat.zero_le _) ?_, rfl, rfl⟩
      rw [SerialNumber.gt_iff] at passed
      unfold TcpPcb.lag TcpPcb.rightEdge SerialNumber.distance at *
      bv_omega
    · have gap :
          (pcb.rcvAnnRightEdge - pcb.rcvNxt).toNat =
            pcb.rcvWnd - pcb.lag pcb.rcvAnnRightEdge ∧
          pcb.lag pcb.rcvAnnRightEdge ≤ pcb.rcvWnd := by
        rw [SerialNumber.gt_iff] at ahead
        unfold TcpPcb.lag TcpPcb.rightEdge SerialNumber.distance at *
        bv_omega
      rw [wp_bind, wp_ensure, gap.1]
      refine ⟨fun _ => ⟨shown _ (Nat.sub_le _ _) (by omega), rfl, rfl⟩,
        fun wide => ?_⟩
      rw [decide_eq_false_iff_not] at wide
      omega

omit near

/-- The window moves on by what is taken: its right edge stays. -/
theorem Sliding.advance
    {sent : List Packet}
    (flat : ∀ wnd other, cap wnd = cap other)
    (sliding : Sliding cap pcb sent)
    {seqno : SeqNo}
    {len : Nat}
    (starts : seqno = pcb.rcvNxt)
    (fits : len ≤ pcb.rcvWnd) :
    Sliding cap
      { pcb with
        rcvNxt := seqno + BitVec.ofNat 32 len
        rcvWnd := pcb.rcvWnd - len }
      sent := by
  have same (edge : SeqNo) :
      TcpPcb.lag
          { pcb with
            rcvNxt := seqno + BitVec.ofNat 32 len
            rcvWnd := pcb.rcvWnd - len }
          edge =
        pcb.lag edge := by
    have top : pcb.rcvWnd ≤ 46720 := sliding.wnd
    unfold TcpPcb.lag TcpPcb.rightEdge SerialNumber.distance
    rw [starts]
    simp only
    bv_omega
  constructor
  case wnd => exact (Nat.sub_le _ _).trans sliding.wnd
  case slack =>
    rw [same, flat _ pcb.rcvWnd]
    exact sliding.slack
  case ordered => exact sliding.ordered
  case last =>
    intro edge isLast
    rw [same, same, flat _ pcb.rcvWnd]
    exact sliding.last edge isLast

/-- The caps grow with the window. -/
def Growing (cap : Nat → Nat) : Prop :=
  ∀ wnd more, cap (wnd + more) = cap wnd + more

section Grow

variable (growing : Growing cap)
include near growing

/-- The window grows, and its right edge with it. -/
theorem Announced.grow
    {sent : List Packet}
    (announced : Announced cap pcb sent)
    {wnd : Nat}
    (wider : pcb.rcvWnd ≤ wnd)
    (top : wnd ≤ tcpWnd) :
    Announced cap { pcb with rcvWnd := wnd } sent := by
  have size := near _ announced.wnd
  have raised (edge : SeqNo) (below : pcb.lag edge ≤ cap pcb.rcvWnd) :
      TcpPcb.lag { pcb with rcvWnd := wnd } edge =
        pcb.lag edge + (wnd - pcb.rcvWnd) := by
    have most : wnd ≤ 46720 := top
    unfold TcpPcb.lag TcpPcb.rightEdge SerialNumber.distance at *
    simp only
    bv_omega
  have grown : cap wnd = cap pcb.rcvWnd + (wnd - pcb.rcvWnd) := by
    rw [← growing, Nat.add_sub_cancel' wider]
  have slack := announced.slack
  have stored := raised _ slack
  have ann := announced.ann
  have covers := announced.covers
  constructor
  case toSliding =>
    refine ⟨top, ?_, announced.ordered, fun edge isLast => ?_⟩
    · show TcpPcb.lag { pcb with rcvWnd := wnd } pcb.rcvAnnRightEdge ≤ cap wnd
      omega
    · obtain ⟨above, within⟩ := announced.last edge isLast
      have last := raised edge within
      show
        TcpPcb.lag { pcb with rcvWnd := wnd } pcb.rcvAnnRightEdge ≤
            TcpPcb.lag { pcb with rcvWnd := wnd } edge ∧
          TcpPcb.lag { pcb with rcvWnd := wnd } edge ≤ cap wnd
      omega
  case ann => exact ann.trans wider
  case covers =>
    show
      wnd ≤
        TcpPcb.lag { pcb with rcvWnd := wnd } pcb.rcvAnnRightEdge +
          pcb.rcvAnnWnd
    omega

theorem returnFinByte_announced
    {sent : List Packet}
    (announced : Announced cap pcb sent) :
    Announced cap (returnFinByte pcb) sent := by
  unfold returnFinByte
  split
  · rename_i below
    have top := announced.wnd
    refine announced.grow near growing ?_ ?_
    all_goals
      unfold tcpWnd tcpMss at *
      omega
  · exact announced

omit near growing in
theorem recvedWnd_bounds
    {wnd : Nat}
    (top : wnd ≤ tcpWnd)
    (len : Nat) :
    wnd ≤ recvedWnd wnd len ∧ recvedWnd wnd len ≤ tcpWnd := by
  unfold recvedWnd
  simp only
  split
  · exact ⟨top, le_rfl⟩
  · rename_i fits
    omega

/-- `tcp_recved` announces the window once it has grown. -/
theorem tcpRecved_announced
    (others : ∀ fault : Fault, fault ≠ .newRcvAnnWnd → allowed fault)
    (inInput : Bool)
    (len : Nat)
    (announced : Announced cap pcb world.sent) :
    wp (tcpRecved inInput pcb len)
      (fun result later =>
        Told cap { pcb with rcvWnd := recvedWnd pcb.rcvWnd len } world.sent
          result later.sent)
      allowed world := by
  obtain ⟨wider, top⟩ := recvedWnd_bounds announced.wnd len
  have grown := announced.grow near growing wider top
  unfold tcpRecved
  rw [wp_bind]
  refine wp_weaken (tcpUpdateRcvAnnWnd_announced near grown.toSliding) ?_
  rintro ⟨inflation, after⟩ later ⟨shown, same, rfl⟩
  have updated :
      Told cap { pcb with rcvWnd := recvedWnd pcb.rcvWnd len } later.sent
        after later.sent := by
    refine ⟨shown, ?_, ?_, .refl _⟩
    · rw [show after = _ from same]
    · rw [show after = _ from same]
  rw [wp_ite]
  refine ⟨fun _ => ?_, fun _ => updated⟩
  have due : SameWindow after { after with flags.ackNow := true } :=
    ⟨rfl, rfl, rfl⟩
  rw [wp_bind]
  refine wp_weaken
    (tcpOutput_announced near others inInput (shown.congr due)) ?_
  rintro ⟨_, out⟩ last told
  exact updated.trans (told.before_same due)

end Grow

end Move

end NetstackLwip

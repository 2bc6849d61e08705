import NetstackLwip.ReceiverRules
import NetstackLwip.WindowWalk

namespace NetstackLwip

/-!
# The announced window through every event

The end of `tcp_input`, the timers and the calls on a stream. What the
application takes moves the right edge of the window to the right before it is
announced.
-/

open FaultState

variable
  {allowed : Fault → Prop}
  {world : World}
  {cap : Nat → Nat}
  {pcb : TcpPcb}
  (near : Near cap)
  (others : ∀ fault : Fault, fault ≠ .newRcvAnnWnd → allowed fault)
include near others

/-! ## Queueing -/

omit near in
theorem tcpSendFin_window
    (pcb : TcpPcb) :
    wp (tcpSendFin pcb)
      (fun result later => SameWindow pcb result.2 ∧ later.sent = world.sent)
      allowed world := by
  have faults (fault : Fault) (same : fault.origin = .enqueue) :
      allowed fault :=
    ofOrigin others same (by decide)
  refine wp_weaken
    (wp_and (tcpSendFin_spec faults pcb)
      (wp_silent others (tcpSendFin_silent pcb))) ?_
  rintro ⟨err, after⟩ later ⟨⟨-, refused, done⟩, sent⟩
  refine ⟨?_, sent⟩
  by_cases ok : err = .ok
  · rcases done ok with queued | ⟨piggybacked, -⟩
    · rw [show after = _ from queued]
      exact ⟨rfl, rfl, rfl⟩
    · rw [show after = _ from piggybacked]
      exact ⟨rfl, rfl, rfl⟩
  · exact (refused ok).2.frame.window

omit near in
theorem tcpWrite_window
    (pcb : TcpPcb)
    (arg : Bytes)
    (more : Bool) :
    wp (tcpWrite pcb arg more)
      (fun result later => SameWindow pcb result.2 ∧ later.sent = world.sent)
      allowed world := by
  have faults (fault : Fault) (same : fault.origin = .write)
      (_ : fault ≠ .mssLocalTooSmall) : allowed fault :=
    ofOrigin others same (by decide)
  refine wp_weaken
    (wp_and
      (tcpWrite_spec (.const True) faults pcb arg more
        (fun _ _ => .inr (others _ (by decide)))
        fun _ => ⟨fun _ _ => trivial, fun _ _ _ _ _ _ _ _ _ => trivial,
          fun _ _ _ _ _ => trivial⟩)
      (wp_silent others (tcpWrite_silent pcb arg more))) ?_
  rintro ⟨err, after⟩ later ⟨⟨-, frame, -⟩, sent⟩
  exact ⟨frame.window, sent⟩

omit near in
theorem tcpSplitUnsentSeg_window
    (pcb : TcpPcb)
    (split : Nat) :
    wp (tcpSplitUnsentSeg pcb split)
      (fun result later => SameWindow pcb result.2 ∧ later.sent = world.sent)
      allowed world := by
  have faults (fault : Fault) (same : fault.origin = .split)
      (_ : fault ≠ .splitMss) : allowed fault :=
    ofOrigin others same (by decide)
  have spec :=
    @tcpSplitUnsentSeg_spec allowed world (fun _ => True) faults pcb split
      (fun _ _ => trivial) (fun _ _ _ _ => .inr (others _ (by decide)))
      (fun _ _ _ _ _ => ⟨trivial, trivial⟩)
  refine wp_weaken
    (wp_and spec (wp_silent others (tcpSplitUnsentSeg_silent pcb split))) ?_
  rintro ⟨err, after⟩ later ⟨⟨-, frame, -⟩, sent⟩
  exact ⟨frame.window, sent⟩

/-! ## Closing -/

theorem tcpCloseShutdownFin_announced
    (announced : Announced cap pcb world.sent) :
    wp (tcpCloseShutdownFin pcb)
      (fun result later => Told cap pcb world.sent result.2 later.sent)
      allowed world := by
  unfold tcpCloseShutdownFin
  simp only
  split
  · exact .refl announced
  · rename_i state _
    rw [wp_bind]
    refine wp_weaken (tcpSendFin_window others pcb) ?_
    rintro ⟨err, after⟩ middle ⟨same, sent⟩
    have queued : Told cap pcb world.sent after middle.sent := by
      rw [sent]
      exact .of_same announced same
    rw [wp_ite]
    refine ⟨fun _ => ?_, fun _ => ?_⟩
    · have named : Told cap pcb world.sent { after with state := state }
          middle.sent :=
        queued.after_same ⟨rfl, rfl, rfl⟩
      rw [wp_bind]
      exact wp_weaken
        (tcpOutput_announced near others false named.announced)
        fun _ _ told => named.trans told
    · rw [wp_ite]
      exact ⟨fun _ => queued.after_same ⟨rfl, rfl, rfl⟩, fun _ => queued⟩

theorem retryClosepend_announced
    (announced : Announced cap pcb world.sent) :
    wp (retryClosepend pcb)
      (fun result later => Told cap pcb world.sent result later.sent)
      allowed world := by
  have tried : SameWindow pcb { pcb with flags.closepend := false } :=
    ⟨rfl, rfl, rfl⟩
  unfold retryClosepend
  rw [wp_ite]
  refine ⟨fun _ => ?_, fun _ => .refl announced⟩
  rw [wp_bind]
  exact wp_weaken
    (tcpCloseShutdownFin_announced near others (announced.congr tried))
    fun _ _ told => told.before_same tried

/-! ## Timers -/

theorem persistFires_announced
    (announced : Announced cap pcb world.sent) :
    wp (persistFires pcb)
      (fun result later => Told cap pcb world.sent result later.sent)
      allowed world := by
  unfold persistFires
  rw [wp_ite]
  refine ⟨fun _ => ?_, fun _ => ?_⟩
  · rw [wp_bind]
    refine wp_weaken (tcpZeroWindowProbe_announced near announced) ?_
    rintro ⟨err, after⟩ later told
    rw [wp_ite]
    exact ⟨fun _ => told.after_same ⟨rfl, rfl, rfl⟩, fun _ => told⟩
  · rw [wp_bind]
    refine wp_weaken (tcpSplitUnsentSeg_window others pcb _) ?_
    rintro ⟨err, cut⟩ middle ⟨same, sent⟩
    have queued : Told cap pcb world.sent cut middle.sent := by
      rw [sent]
      exact .of_same announced same
    rw [wp_ite]
    refine ⟨fun _ => ?_, fun _ => queued.after_same ⟨rfl, rfl, rfl⟩⟩
    rw [wp_bind]
    refine wp_weaken (tcpOutput_announced near others false queued.announced)
      ?_
    rintro ⟨err, after⟩ later told
    rw [wp_ite]
    exact ⟨fun _ => queued.trans told,
      fun _ => (queued.trans told).after_same ⟨rfl, rfl, rfl⟩⟩

theorem persistTick_announced
    (announced : Announced cap pcb world.sent) :
    wp (persistTick pcb)
      (fun result later => Told cap pcb world.sent result.2 later.sent)
      allowed world := by
  unfold persistTick
  rw [wp_bind, wp_ensure]
  refine ⟨fun _ => ?_, fun _ => others _ (by decide)⟩
  rw [wp_bind, wp_ensure]
  refine ⟨fun _ => ?_, fun _ => others _ (by decide)⟩
  rw [wp_ite]
  refine ⟨fun _ => .refl announced, fun _ => ?_⟩
  simp only
  generalize (if pcb.persistCnt < _ then _ else _) = count
  have counted : SameWindow pcb { pcb with persistCnt := count } :=
    ⟨rfl, rfl, rfl⟩
  rw [wp_ite]
  refine ⟨fun _ => ?_, fun _ => .of_same announced counted⟩
  rw [wp_bind]
  exact wp_weaken
    (persistFires_announced near others (announced.congr counted))
    fun _ _ told => told.before_same counted

theorem rexmitTick_announced
    (announced : Announced cap pcb world.sent) :
    wp (rexmitTick pcb)
      (fun result later => Told cap pcb world.sent result later.sent)
      allowed world := by
  unfold rexmitTick
  simp only
  generalize
    (if 0 ≤ pcb.rtime ∧ pcb.rtime < 0x7fff then pcb.rtime + 1
      else pcb.rtime) = time
  have ticked : SameWindow pcb { pcb with rtime := time } := ⟨rfl, rfl, rfl⟩
  have prepared :=
    ticked.trans (tcpRexmitRtoPrepare_window { pcb with rtime := time })
  rw [wp_ite]
  refine ⟨fun _ => ?_, fun _ => .of_same announced ticked⟩
  rw [wp_ite]
  refine ⟨fun _ => ?_, fun _ => .of_same announced prepared⟩
  unfold tcpRexmitRtoCommit
  have backed :
      SameWindow pcb
        { backOff (tcpRexmitRtoPrepare { pcb with rtime := time }).2 with
          nrtx :=
            if (backOff
                (tcpRexmitRtoPrepare { pcb with rtime := time }).2).nrtx <
                0xff then
              (backOff
                (tcpRexmitRtoPrepare { pcb with rtime := time }).2).nrtx + 1
            else
              (backOff
                (tcpRexmitRtoPrepare { pcb with rtime := time }).2).nrtx } :=
    prepared.trans ⟨rfl, rfl, rfl⟩
  rw [wp_bind]
  exact wp_weaken
    (tcpOutput_announced near others false (announced.congr backed))
    fun _ _ told => told.before_same backed

theorem sendTick_announced
    (announced : Announced cap pcb world.sent) :
    wp (sendTick pcb)
      (fun result later => Told cap pcb world.sent result.2 later.sent)
      allowed world := by
  unfold sendTick
  rw [wp_ite]
  refine ⟨fun _ => .refl announced, fun _ => ?_⟩
  rw [wp_ite]
  refine ⟨fun _ => persistTick_announced near others announced, fun _ => ?_⟩
  rw [wp_bind]
  exact wp_weaken (rexmitTick_announced near others announced)
    fun _ _ told => told

theorem pollTick_announced
    (announced : Announced cap pcb world.sent) :
    wp (pollTick pcb)
      (fun result later => Told cap pcb world.sent result later.sent)
      allowed world := by
  unfold pollTick
  simp only
  rw [wp_ite]
  refine ⟨fun _ => ?_, fun _ => .of_same announced ⟨rfl, rfl, rfl⟩⟩
  have reset : SameWindow pcb { pcb with polltmr := 0 } := ⟨rfl, rfl, rfl⟩
  rw [wp_bind]
  refine wp_weaken (wp_silent others (tcpEventPoll_silent _)) ?_
  intro _ middle sent
  rw [wp_bind]
  refine wp_weaken
    (tcpOutput_announced near others false (sent ▸ announced.congr reset)) ?_
  intro _ later told
  rw [sent] at told
  exact told.before_same reset

/-- What a call leaves of a pcb. -/
def ToldOrGone
    (cap : Nat → Nat)
    (before : TcpPcb)
    (sent : List Packet)
    (result : Option TcpPcb)
    (later : List Packet) : Prop :=
  match result with
  | some after => Told cap before sent after later
  | none => Gone before sent later

theorem slowtmrPcb_announced
    (announced : Announced cap pcb world.sent) :
    wp (slowtmrPcb pcb)
      (fun result later => ToldOrGone cap pcb world.sent result later.sent)
      allowed world := by
  unfold slowtmrPcb
  rw [wp_bind]
  refine wp_weaken (sendTick_announced near others announced) ?_
  rintro ⟨remove, ticked⟩ middle told
  rw [wp_bind, wp_get]
  have dropped : SameWindow ticked (dropStaleOoseq middle.tcpTicks ticked) := by
    unfold dropStaleOoseq
    split <;> exact ⟨rfl, rfl, rfl⟩
  have kept := told.after_same dropped
  rw [wp_ite]
  refine ⟨fun _ => ?_, fun _ => ?_⟩
  · rw [wp_bind]
    refine wp_weaken (wp_silent others (tcpEventErr_silent _ _)) ?_
    intro _ later sent
    show Gone pcb world.sent later.sent
    rw [sent]
    exact kept.held.gone
  · rw [wp_bind]
    exact wp_weaken (pollTick_announced near others kept.announced)
      fun _ _ more => kept.trans more

theorem delayedAck_announced
    (announced : Announced cap pcb world.sent) :
    wp (delayedAck pcb)
      (fun result later => Told cap pcb world.sent result later.sent)
      allowed world := by
  have due : SameWindow pcb { pcb with flags.ackNow := true } :=
    ⟨rfl, rfl, rfl⟩
  unfold delayedAck
  rw [wp_ite]
  refine ⟨fun _ => ?_, fun _ => .refl announced⟩
  rw [wp_bind]
  refine wp_weaken
    (tcpOutput_announced near others false (announced.congr due)) ?_
  rintro ⟨_, after⟩ later told
  exact (told.before_same due).after_same ⟨rfl, rfl, rfl⟩

theorem fasttmrPcb_announced
    (inUse : InUse pcb)
    (taken : pcb.refusedData = none)
    (announced : Announced cap pcb world.sent) :
    wp (fasttmrPcb pcb)
      (fun result later => Told cap pcb world.sent result later.sent)
      allowed world := by
  have rules :=
    inUseRules fun fault origin => others fault fun same => by
      rw [same] at origin
      exact origin rfl
  unfold fasttmrPcb
  rw [wp_bind]
  refine wp_weaken
    (wp_and (delayedAck_announced near others announced)
      (rules.delayedAck_kept pcb world inUse)) ?_
  rintro acked middle ⟨told, kept, -⟩
  rw [wp_bind]
  refine wp_weaken
    (wp_and (retryClosepend_announced near others told.announced)
      (rules.retryClosepend_kept acked middle kept.inv fun _ => trivial)) ?_
  rintro closed later ⟨more, closing⟩
  have stillTaken : closed.refusedData = none := by
    rw [closing.frame.rcv, kept.frame.rcv]
    exact taken
  rw [wp_bind, tcpProcessRefusedData_none _ _ stillTaken]
  exact told.trans more

theorem tcpTimewaitInput_announced
    (packet : Packet)
    (announced : Announced cap pcb world.sent) :
    wp (tcpTimewaitInput packet pcb)
      (fun result later => Told cap pcb world.sent result later.sent)
      allowed world := by
  unfold tcpTimewaitInput
  simp only
  rw [wp_ite]
  refine ⟨fun _ => .refl announced, fun _ => ?_⟩
  rw [wp_ite]
  refine ⟨fun _ => ?_, fun _ => ?_⟩
  · rw [wp_bind]
    exact wp_weaken (tcpRst_announced _ _ _ _ _ _ announced)
      fun _ _ told => told
  rw [wp_bind, wp_get]
  generalize equal :
    (if !packet.flags.syn && packet.flags.fin then
      { pcb with tmr := world.tcpTicks }
    else
      pcb) = timed
  have same : SameWindow pcb timed := by
    rw [← equal]
    split
    · exact ⟨rfl, rfl, rfl⟩
    · exact .refl pcb
  rw [wp_ite]
  refine ⟨fun _ => ?_, fun _ => .of_same announced same⟩
  have due : SameWindow pcb { timed with flags.ackNow := true } :=
    same.trans ⟨rfl, rfl, rfl⟩
  rw [wp_bind]
  exact wp_weaken
    (tcpOutput_announced near others false (announced.congr due))
    fun _ _ told => told.before_same due

/-! ## Calls on the stream -/

theorem pollWritePcb_announced
    (buf : Bytes)
    (stream : TcpStream)
    (announced : Announced cap pcb world.sent) :
    wp (pollWritePcb buf stream pcb)
      (fun result later => Told cap pcb world.sent result.2.2 later.sent)
      allowed world := by
  unfold pollWritePcb
  simp only
  rw [wp_ite]
  refine ⟨fun _ => .refl announced, fun _ => ?_⟩
  rw [wp_bind]
  refine wp_weaken (tcpWrite_window others pcb _ _) ?_
  rintro ⟨err, written⟩ middle ⟨same, sent⟩
  have queued : Told cap pcb world.sent written middle.sent := by
    rw [sent]
    exact .of_same announced same
  rw [wp_ite]
  refine ⟨fun _ => ?_, fun _ => ?_⟩
  · rw [wp_bind]
    refine wp_weaken (tcpOutput_announced near others false queued.announced)
      ?_
    rintro ⟨err, after⟩ later told
    rw [wp_ite]
    exact ⟨fun _ => queued.trans told, fun _ => queued.trans told⟩
  · rw [wp_ite]
    exact ⟨fun _ => queued, fun _ => queued⟩

theorem pollFlushPcb_announced
    (announced : Announced cap pcb world.sent) :
    wp (pollFlushPcb pcb)
      (fun result later => Told cap pcb world.sent result.2 later.sent)
      allowed world := by
  unfold pollFlushPcb
  rw [wp_bind]
  refine wp_weaken (tcpOutput_announced near others false announced) ?_
  rintro ⟨err, after⟩ later told
  rw [wp_ite]
  exact ⟨fun _ => told, fun _ => told⟩

theorem pollShutdownPcb_announced
    (stream : TcpStream)
    (announced : Announced cap pcb world.sent) :
    wp (pollShutdownPcb stream pcb)
      (fun result later => Told cap pcb world.sent result.2.2 later.sent)
      allowed world := by
  have closing := tcpCloseShutdownFin_announced near others announced
  have shut :
      wp (tcpShutdownTx pcb)
        (fun result later => Told cap pcb world.sent result.2 later.sent)
        allowed world := by
    unfold tcpShutdownTx
    split
    · exact closing
    · exact closing
    · exact closing
    · exact .refl announced
  unfold pollShutdownPcb
  rw [wp_bind]
  refine wp_weaken shut ?_
  rintro ⟨err, after⟩ later told
  rw [wp_ite]
  exact ⟨fun _ => told, fun _ => told⟩

theorem dropPcb_announced
    (stream : TcpStream)
    (announced : Announced cap pcb world.sent) :
    wp (dropPcb stream pcb)
      (fun result later => ToldOrGone cap pcb world.sent result later.sent)
      allowed world := by
  have forgot : SameWindow pcb (SendRules.detached pcb) := ⟨rfl, rfl, rfl⟩
  have started := Held.of_same announced forgot
  unfold dropPcb
  rw [wp_ite]
  refine ⟨fun _ => Told.of_same announced forgot, fun _ => ?_⟩
  rw [wp_bind]
  exact wp_weaken
    (tcpAbandon_announced near others false true (announced.congr forgot))
    fun _ _ gone => started.thenGone gone

theorem killPcb_announced
    (announced : Announced cap pcb world.sent) :
    wp (killPcb pcb)
      (fun result later => ToldOrGone cap pcb world.sent result later.sent)
      allowed world := by
  unfold killPcb
  split
  · rw [wp_bind]
    exact wp_weaken (tcpAbandon_announced near others false false announced)
      fun _ _ gone => gone
  · rw [wp_bind]
    exact wp_weaken (tcpAbandon_announced near others false false announced)
      fun _ _ gone => gone
  · rw [wp_bind]
    exact wp_weaken (tcpAbandon_announced near others false true announced)
      fun _ _ gone => gone
  · exact .refl announced

/-! ## The end of `tcp_input` -/

variable (growing : Growing cap)
include growing

theorem deliverData_announced
    (recv : RecvOut)
    (announced : Announced cap pcb world.sent) :
    wp (deliverData recv pcb)
      (fun after later =>
        Announced cap after later.sent ∧ later.sent = world.sent)
      allowed world := by
  unfold deliverData
  split
  · exact ⟨announced, rfl⟩
  rename_i data delivered
  rw [wp_bind, wp_ensure]
  refine ⟨fun _ => ?_, fun _ => others _ (by decide)⟩
  have heard :
      wp (tcpEventRecv true pcb data)
        (fun result later =>
          Announced cap result.2 later.sent ∧ later.sent = world.sent)
        allowed world := by
    unfold tcpEventRecv
    split
    · rw [wp_bind]
      refine wp_weaken (wp_silent others (tcpRecvCb_silent _ _)) ?_
      intro _ later sent
      rw [wp_pure]
      exact ⟨sent ▸ announced, sent⟩
    · rw [wp_bind]
      refine wp_weaken
        (wp_also (tcpRecved_announced near growing others true _ announced)
          (tcpRecved_inInput pcb _ trivial)) ?_
      rintro after later ⟨told, -, same⟩
      exact ⟨told.announced, congrArg World.sent same⟩
  rw [wp_bind]
  refine wp_weaken heard ?_
  rintro ⟨err, after⟩ later ⟨shown, sent⟩
  rw [wp_ite]
  exact ⟨fun _ => ⟨shown, sent⟩,
    fun _ => ⟨shown.congr ⟨rfl, rfl, rfl⟩, sent⟩⟩

theorem deliverFin_announced
    (recv : RecvOut)
    (announced : Announced cap pcb world.sent) :
    wp (deliverFin recv pcb)
      (fun after later =>
        Announced cap after later.sent ∧ later.sent = world.sent)
      allowed world := by
  unfold deliverFin
  rw [wp_ite]
  refine ⟨fun _ => ?_, fun _ => ⟨announced, rfl⟩⟩
  split
  · exact ⟨announced.congr ⟨rfl, rfl, rfl⟩, rfl⟩
  · have grown := returnFinByte_announced near growing announced
    simp only
    rw [wp_bind]
    refine wp_weaken (wp_silent others (tcpEventClosed_silent _)) ?_
    intro _ later sent
    rw [wp_pure]
    exact ⟨sent ▸ grown, sent⟩

/-- `tcp_output` comes last in `tcp_input`, when the window has grown. -/
def FinishedOrGone
    (cap : Nat → Nat)
    (before : TcpPcb)
    (sent : List Packet)
    (result : Option TcpPcb)
    (later : List Packet) : Prop :=
  match result with
  | some after =>
      Announced cap after later ∧ Adds (Within after.rightEdge) sent later
  | none => Gone before sent later

theorem finishInput_announced
    (result : InResult)
    (announced : Announced cap pcb world.sent) :
    wp (finishInput result pcb)
      (fun after later => FinishedOrGone cap pcb world.sent after later.sent)
      allowed world := by
  have removed (between : World) (sent : between.sent = world.sent) :
      wp (tcpPcbRemove true pcb)
        (fun _ later => Gone pcb world.sent later.sent) allowed between := by
    refine wp_weaken
      (tcpPcbRemove_announced near others true (sent ▸ announced)) ?_
    intro _ later told
    rw [sent] at told
    exact told.held.gone
  unfold finishInput
  rw [wp_ite]
  refine ⟨fun _ => ?_, fun _ => ?_⟩
  · rw [wp_bind]
    refine wp_weaken (wp_silent others (tcpEventErr_silent _ _)) ?_
    intro _ between sent
    rw [wp_bind]
    exact removed between sent
  have reported :
      wp (reportSent result.recvAcked pcb)
        (fun _ later => later.sent = world.sent) allowed world := by
    unfold reportSent
    rw [wp_ite]
    exact ⟨fun _ => wp_silent others (tcpEventSent_silent _), fun _ => rfl⟩
  rw [wp_bind]
  refine wp_weaken reported fun _ middle sent => ?_
  rw [wp_ite]
  refine ⟨fun _ => ?_, fun _ => ?_⟩
  · unfold tcpInputDelayedClose
    rw [wp_bind, wp_bind]
    refine wp_weaken (wp_silent others (tcpEventErr_silent _ _)) ?_
    intro _ between same
    rw [wp_bind]
    exact removed between (same.trans sent)
  rw [wp_ite]
  refine ⟨fun _ => ?_, fun _ => ?_⟩
  · rw [wp_bind]
    refine wp_weaken
      (tcpAbandon_announced near others true true (sent ▸ announced)) ?_
    intro _ later gone
    rw [sent] at gone
    exact gone
  rw [wp_bind]
  refine wp_weaken
    (deliverData_announced near others growing _ (sent ▸ announced)) ?_
  rintro taken between ⟨shown, same⟩
  rw [wp_bind]
  refine wp_weaken (deliverFin_announced near others growing _ shown) ?_
  rintro closed last ⟨ready, still⟩
  rw [wp_bind]
  refine wp_weaken (tcpOutput_announced near others false ready) ?_
  rintro ⟨_, after⟩ later told
  refine ⟨told.announced, ?_⟩
  have adds := told.adds
  rw [still, same, sent] at adds
  rw [told.rightEdge]
  exact adds

end NetstackLwip

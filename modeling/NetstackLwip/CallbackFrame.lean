import NetstackLwip.SendFrame

namespace NetstackLwip

/-!
# What the callbacks and the removal of a pcb change

The callbacks touch the stream of the world and wake its writer. Removing a
pcb may emit one bare acknowledgement and one reset, and reports to the stream
unless the pcb is in TIME_WAIT.
-/

open FaultState

variable {allowed : Fault → Prop} {world : World}

/-! ## Callbacks -/

namespace Emits

variable {carried : Packet → Prop} {before after : World}

theorem withStream
    (emits : Emits carried before after)
    (stream : Option TcpStream) :
    Emits carried
      { before with stream := stream }
      { after with stream := stream } where
  quiet := by
    rw [emits.quiet]
  sent := emits.sent

theorem woken
    (world : World)
    (woken : Bool) :
    Emits carried world { world with woken := woken } where
  quiet := rfl
  sent := ⟨[], by simp, by simp⟩

end Emits

theorem withContext_spec
    (faults : ∀ fault : Fault, fault.origin = .callback → allowed fault)
    (arg : CallbackArg)
    (change : TcpStream → TcpStream) :
    wp (withContext arg change)
      (fun _ after =>
        after = { world with stream := world.stream.map change })
      allowed world := by
  unfold withContext
  simp only [wp_bind, wp_get]
  split
  · rename_i found
    rw [wp_set, found]
    rfl
  · exact faults _ rfl

theorem wakeWriter_spec
    (faults : ∀ fault : Fault, fault.origin = .callback → allowed fault)
    (arg : CallbackArg) :
    wp (wakeWriter arg)
      (fun _ after => after = { world with woken := after.woken })
      allowed world := by
  unfold wakeWriter
  rw [wp_bind]
  refine wp_weaken (withContext_spec faults arg id) ?_
  rintro _ middle rfl
  simp only [wp_modify, Option.map_id_fun, id_eq]

/-- The stream after `TCP_EVENT_ERR`. -/
def told (errf : Bool) (stream : Option TcpStream) : Option TcpStream :=
  if errf then stream.map TcpStream.fail else stream

theorem tcpEventErr_spec
    (faults : ∀ fault : Fault, fault.origin = .callback → allowed fault)
    (carried : Packet → Prop)
    (errf : Bool)
    (arg : CallbackArg) :
    wp (tcpEventErr errf arg)
      (fun _ after =>
        Emits carried { world with stream := told errf world.stream } after)
      allowed world := by
  unfold tcpEventErr tcpErrCb
  rw [wp_ite]
  refine ⟨fun installed => ?_, fun missing => ?_⟩
  · rw [wp_bind]
    refine wp_weaken (withContext_spec faults arg _) ?_
    rintro _ middle rfl
    refine wp_weaken (wakeWriter_spec faults arg) fun _ after quiet => ?_
    rw [quiet, told, if_pos installed]
    exact Emits.woken _ _
  · rw [wp_pure, told, if_neg missing]
    exact Emits.refl world

theorem tcpEventSent_spec
    (faults : ∀ fault : Fault, fault.origin = .callback → allowed fault)
    (carried : Packet → Prop)
    (pcb : TcpPcb) :
    wp (tcpEventSent pcb)
      (fun _ after => Emits carried world after) allowed world := by
  unfold tcpEventSent tcpSentCb
  rw [wp_ite]
  refine ⟨fun _ => ?_, fun _ => Emits.refl world⟩
  rw [wp_bind]
  refine wp_weaken (wakeWriter_spec faults _) fun _ after quiet => ?_
  rw [wp_pure, quiet]
  exact Emits.woken _ _

theorem tcpEventPoll_spec
    (faults : ∀ fault : Fault, fault.origin = .callback → allowed fault)
    (carried : Packet → Prop)
    (pcb : TcpPcb) :
    wp (tcpEventPoll pcb)
      (fun _ after => Emits carried world after) allowed world := by
  unfold tcpEventPoll tcpPollCb
  rw [wp_ite]
  refine ⟨fun _ => ?_, fun _ => Emits.refl world⟩
  rw [wp_bind]
  refine wp_weaken (wakeWriter_spec faults _) fun _ after quiet => ?_
  rw [wp_pure, quiet]
  exact Emits.woken _ _

/-! ## Removal -/

/-- With nothing queued `tcp_output` sends an empty acknowledgement at most. -/
theorem tcpOutput_idle
    (inInput : Bool)
    (pcb : TcpPcb)
    (idle : pcb.unsent = []) :
    wp (tcpOutput inInput pcb)
      (fun result after => AckFrame pcb result.2 ∧ Emits Bare world after)
      allowed world := by
  unfold tcpOutput
  rw [wp_ite]
  refine ⟨fun _ => ⟨AckFrame.refl pcb, Emits.refl world⟩, fun _ => ?_⟩
  rw [idle]
  simp only
  rw [wp_ite]
  refine ⟨fun _ => tcpSendEmptyAck_spec pcb, fun _ => ?_⟩
  refine ⟨?_, Emits.refl world⟩
  constructor
  case toOutputFrame =>
    constructor <;> intros <;> rfl
  all_goals rfl

theorem flushDelayedAck_spec
    (inInput : Bool)
    (pcb : TcpPcb)
    (idle : pcb.unsent = []) :
    wp (flushDelayedAck inInput pcb)
      (fun result after => AckFrame pcb result ∧ Emits Bare world after)
      allowed world := by
  unfold flushDelayedAck
  rw [wp_ite]
  refine ⟨fun _ => ?_, fun _ => ⟨AckFrame.refl pcb, Emits.refl world⟩⟩
  rw [wp_bind]
  refine wp_weaken (tcpOutput_idle inInput _ idle) ?_
  rintro ⟨err, result⟩ after ⟨frame, emits⟩
  refine ⟨AckFrame.trans ?_ frame, emits⟩
  constructor
  case toOutputFrame =>
    constructor <;> intros <;> rfl
  all_goals rfl

/-- A pcb is purged before it is removed, unless it was purged on its way to
TIME_WAIT. -/
theorem tcpPcbRemove_spec
    (faults : ∀ fault : Fault, fault.origin = .removal → allowed fault)
    (inInput : Bool)
    (pcb : TcpPcb)
    (live : pcb.state ≠ .closed)
    (waiting : pcb.state = .timeWait → pcb.unsent = []) :
    wp (tcpPcbRemove inInput pcb)
      (fun result after =>
        result.remoteIp = pcb.remoteIp ∧ Emits Bare world after)
      allowed world := by
  have idle : (tcpPcbPurge pcb).unsent = [] := by
    unfold tcpPcbPurge
    split
    · rfl
    · rename_i kept
      exact waiting (by simpa [live] using kept)
  have sameIp : (tcpPcbPurge pcb).remoteIp = pcb.remoteIp := by
    unfold tcpPcbPurge
    split <;> rfl
  unfold tcpPcbRemove
  rw [wp_bind]
  refine wp_weaken (flushDelayedAck_spec inInput _ idle) ?_
  rintro result middle ⟨frame, emits⟩
  rw [wp_bind, wp_ensure]
  exact ⟨fun _ => ⟨frame.remoteIp.trans sameIp, emits⟩,
    fun _ => faults _ rfl⟩

/-- Every connection but one in TIME_WAIT tells its stream that it ends. -/
def endTold (pcb : TcpPcb) (stream : Option TcpStream) : Option TcpStream :=
  if pcb.state = .timeWait then stream else told pcb.errf stream

theorem tcpAbandon_spec
    (removals : ∀ fault : Fault, fault.origin = .removal → allowed fault)
    (callbacks : ∀ fault : Fault, fault.origin = .callback → allowed fault)
    (inInput : Bool)
    (pcb : TcpPcb)
    (reset : Bool)
    (live : pcb.state ≠ .closed)
    (waiting : pcb.state = .timeWait → pcb.unsent = []) :
    wp (tcpAbandon inInput pcb reset)
      (fun _ after =>
        Emits Bare { world with stream := endTold pcb world.stream } after)
      allowed world := by
  unfold tcpAbandon
  rw [wp_ite]
  refine ⟨fun timeWait => ?_, fun notTimeWait => ?_⟩
  · rw [wp_bind]
    refine wp_weaken (tcpPcbRemove_spec removals inInput pcb live waiting) ?_
    rintro removed after ⟨_, emits⟩
    rw [endTold, if_pos timeWait]
    exact emits
  · rw [endTold, if_neg notTimeWait, wp_bind]
    refine wp_weaken (tcpPcbRemove_spec removals inInput pcb live waiting) ?_
    rintro removed middle ⟨_, emits⟩
    have resets :
        wp (resetPeer reset pcb removed)
          (fun _ after => Emits Bare world after) allowed middle := by
      unfold resetPeer
      rw [wp_ite]
      refine ⟨fun _ => ?_, fun _ => emits⟩
      exact wp_weaken (tcpRst_spec _ _ _ _ _ _) fun _ _ sent =>
        emits.trans sent
    rw [wp_bind]
    refine wp_weaken resets fun _ later emitted => ?_
    refine wp_weaken (tcpEventErr_spec callbacks Bare _ _)
      fun _ last tells => ?_
    have sameStream := emitted.stream
    rw [sameStream] at tells
    exact (emitted.withStream _).trans tells

end NetstackLwip

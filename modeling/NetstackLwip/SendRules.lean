import NetstackLwip.CallbackFrame

namespace NetstackLwip

/-!
# Invariants of the sender

Everything but `tcp_write` reaches the send queues through a few primitives.
`SendRules` says that an invariant is kept by these; the theorems here carry it
through the timers and the deferred close, and say at the same time what those
leave alone on the receiving side.
-/

open FaultState

/-! ## What local steps leave alone -/

/-- The application moves the state only by queueing a FIN. -/
inductive Shuts : TcpState → TcpState → Prop where
  | established : Shuts .established .finWait1
  | synRcvd : Shuts .synRcvd .finWait1
  | closeWait : Shuts .closeWait .lastAck

/-- What is left alone by every step that no segment causes; `shut` says that
the step may queue a FIN. -/
structure LocalFrame (shut : Bool) (before after : TcpPcb) : Prop where
  app : after.toAppVars = before.toAppVars
  rcv : after.toRcvVars = before.toRcvVars
  state :
    after.state = before.state ∧
        after.flags.closepend = before.flags.closepend ∨
      shut = true ∧
        (after.state = before.state ∨ Shuts before.state after.state)
  prio : after.prio = before.prio
  tmr : after.tmr = before.tmr
  remoteIp : after.remoteIp = before.remoteIp
  remotePort : after.remotePort = before.remotePort
  localPort : after.localPort = before.localPort
  localIp : before.localIp.isAny = false → after.localIp = before.localIp
  rxclosed : after.flags.rxclosed = before.flags.rxclosed

theorem Shuts.final
    {first second third : TcpState}
    (shuts : Shuts first second) :
    ¬Shuts second third := by
  intro again
  cases shuts <;> cases again

theorem Shuts.ne_synRcvd
    {before after : TcpState}
    (shuts : Shuts before after) :
    after ≠ .synRcvd := by
  cases shuts <;> simp

theorem Shuts.from_open
    {before after : TcpState}
    (shuts : Shuts before after) :
    before ≠ .timeWait := by
  cases shuts <;> simp

theorem Shuts.ne_closed
    {before after : TcpState}
    (shuts : Shuts before after) :
    after ≠ .closed := by
  cases shuts <;> simp

theorem Shuts.ne_timeWait
    {before after : TcpState}
    (shuts : Shuts before after) :
    after ≠ .timeWait := by
  cases shuts <;> simp

namespace LocalFrame

variable {shut : Bool} {before middle after : TcpPcb}

theorem refl (shut : Bool) (pcb : TcpPcb) : LocalFrame shut pcb pcb := by
  constructor
  case state => exact .inl ⟨rfl, rfl⟩
  all_goals intros; rfl

theorem trans
    (first : LocalFrame shut before middle)
    (second : LocalFrame shut middle after) :
    LocalFrame shut before after where
  app := second.app.trans first.app
  rcv := second.rcv.trans first.rcv
  state := by
    rcases first.state with ⟨same, pending⟩ | ⟨may, moved⟩
    · rcases second.state with ⟨kept, still⟩ | ⟨may, moved⟩
      · exact .inl ⟨kept.trans same, still.trans pending⟩
      · exact .inr ⟨may, same ▸ moved⟩
    · refine .inr ⟨may, ?_⟩
      rcases second.state with ⟨kept, _⟩ | ⟨_, kept | shuts⟩
      · rw [kept]
        exact moved
      · rw [kept]
        exact moved
      · rcases moved with same | shut
        · exact .inr (same ▸ shuts)
        · exact absurd shuts shut.final
  prio := second.prio.trans first.prio
  tmr := second.tmr.trans first.tmr
  remoteIp := second.remoteIp.trans first.remoteIp
  remotePort := second.remotePort.trans first.remotePort
  localPort := second.localPort.trans first.localPort
  localIp fixed := by
    have kept := first.localIp fixed
    exact (second.localIp (kept ▸ fixed)).trans kept
  rxclosed := second.rxclosed.trans first.rxclosed

theorem of_output
    (frame : OutputFrame before after) :
    LocalFrame shut before after where
  app := frame.app
  rcv := frame.rcv
  state := .inl ⟨frame.state, frame.closepend⟩
  prio := frame.prio
  tmr := frame.tmr
  remoteIp := frame.remoteIp
  remotePort := frame.remotePort
  localPort := frame.localPort
  localIp := frame.localIp
  rxclosed := frame.rxclosed

theorem of_queue
    (frame : QueueFrame before after) :
    LocalFrame shut before after where
  app := frame.app
  rcv := frame.rcv
  state := .inl ⟨frame.state, by rw [frame.flags]⟩
  prio := frame.prio
  tmr := frame.tmr
  remoteIp := congrArg EndpointVars.remoteIp frame.endpoint
  remotePort := congrArg EndpointVars.remotePort frame.endpoint
  localPort := congrArg EndpointVars.localPort frame.endpoint
  localIp _ := congrArg EndpointVars.localIp frame.endpoint
  rxclosed := by
    rw [frame.flags]

/-- A step that queued a FIN and moved the state. -/
theorem shuts
    (frame : LocalFrame true before after)
    {state : TcpState}
    (shuts : Shuts before.state state) :
    LocalFrame true before { after with state := state } where
  app := frame.app
  rcv := frame.rcv
  state := .inr ⟨rfl, .inr shuts⟩
  prio := frame.prio
  tmr := frame.tmr
  remoteIp := frame.remoteIp
  remotePort := frame.remotePort
  localPort := frame.localPort
  localIp := frame.localIp
  rxclosed := frame.rxclosed

/-- Receive variables that change on both sides in the same way. -/
theorem withRcv
    (frame : LocalFrame shut before after)
    (change : RcvVars → RcvVars) :
    LocalFrame shut { before with toRcvVars := change before.toRcvVars }
      { after with toRcvVars := change after.toRcvVars } where
  app := frame.app
  rcv := congrArg change frame.rcv
  state := frame.state
  prio := frame.prio
  tmr := frame.tmr
  remoteIp := frame.remoteIp
  remotePort := frame.remotePort
  localPort := frame.localPort
  localIp := frame.localIp
  rxclosed := frame.rxclosed

/-- A step that queues no FIN is one that may. -/
theorem weaken
    (frame : LocalFrame false before after)
    (shut : Bool) :
    LocalFrame shut before after where
  app := frame.app
  rcv := frame.rcv
  state := by
    rcases frame.state with same | ⟨impossible, _⟩
    · exact .inl same
    · cases impossible
  prio := frame.prio
  tmr := frame.tmr
  remoteIp := frame.remoteIp
  remotePort := frame.remotePort
  localPort := frame.localPort
  localIp := frame.localIp
  rxclosed := frame.rxclosed

end LocalFrame

/-! ## The rules -/

/-- The part of the pcb that a send invariant looks at is unchanged. -/
structure SameSend (before after : TcpPcb) : Prop where
  remoteIp : after.remoteIp = before.remoteIp
  snd : after.toSndVars = before.toSndVars
  queue : after.toQueueVars = before.toQueueVars
  persist : after.persistBackoff = before.persistBackoff
  state : after.state = before.state
  fin : after.flags.fin = before.flags.fin

/--
`inv` is kept by the primitives of the sender, whose packets are all
`carried`. `finOk` is what queueing a FIN may rely on besides, and `fireOk`
what a firing persist timer may rely on, given the outcomes of the next output
calls.
-/
structure SendRules
    (allowed : Fault → Prop)
    (carried : Packet → Prop)
    (inv finOk : TcpPcb → Prop)
    (fireOk : TcpPcb → List Err → Prop) : Prop where
  faults :
    ∀ fault : Fault,
      fault.origin ≠ .receiveData →
        fault.origin ≠ .write →
          fault.origin ≠ .split → fault.origin ≠ .persist → allowed fault
  bare : ∀ packet, Bare packet → carried packet
  live : ∀ pcb, inv pcb → pcb.state ≠ .closed
  waiting : ∀ pcb, inv pcb → pcb.state = .timeWait → pcb.unsent = []
  view : ∀ before after, SameSend before after → inv before → inv after
  finView : ∀ before after, SameSend before after → finOk before → finOk after
  fireView :
    ∀ pcb count outputs,
      fireOk pcb outputs → fireOk { pcb with persistCnt := count } outputs
  output :
    ∀ pcb world,
      inv pcb →
        wp (tcpOutput false pcb)
          (fun result after =>
            OutputFrame pcb result.2 ∧
              inv result.2 ∧
              (finOk pcb → finOk result.2) ∧
              Emits carried world after)
          allowed world
  fin :
    ∀ pcb next world,
      inv pcb →
        finOk pcb →
          Shuts pcb.state next →
            wp (tcpSendFin pcb)
              (fun result after =>
                QueueFrame pcb result.2 ∧
                  (result.1 = .ok → inv { result.2 with state := next }) ∧
                  (result.1 ≠ .ok → inv result.2) ∧
                  Emits carried world after)
              allowed world
  fires :
    ∀ pcb world,
      inv pcb →
        pcb.state ≠ .timeWait →
          0 < pcb.persistBackoff →
            fireOk pcb world.outputs →
              wp (persistFires pcb)
                (fun result after =>
                  LocalFrame false pcb result ∧ inv result ∧
                    Emits carried world after)
                allowed world
  rto :
    ∀ pcb,
      inv pcb → pcb.persistBackoff = 0 → inv (tcpRexmitRtoPrepare pcb).2
  persist :
    ∀ pcb,
      inv pcb →
        pcb.state ≠ .timeWait →
          0 < pcb.persistBackoff →
            (pcb.unacked = [] ∨ allowed .persistInFlight) ∧
              (pcb.unsent ≠ [] ∨ allowed .persistEmpty)

/-- The next slow tick lets the persist timer go off. -/
structure PersistDue (pcb : TcpPcb) : Prop where
  retries : pcb.nrtx < tcpMaxrtx
  running : 0 < pcb.persistBackoff
  probes : pcb.persistProbe < tcpMaxrtx
  due :
    tcpPersistBackoff.getD (pcb.persistBackoff - 1) 0 ≤ pcb.persistCnt + 1

/-- A pcb without refused data has nothing to hand over again. -/
theorem tcpProcessRefusedData_none
    (inInput : Bool)
    (pcb : TcpPcb)
    (taken : pcb.refusedData = none) :
    tcpProcessRefusedData inInput pcb = pure (.ok, pcb) := by
  unfold tcpProcessRefusedData
  rw [taken]

namespace SendRules

variable
  {allowed : Fault → Prop}
  {carried : Packet → Prop}
  {inv finOk : TcpPcb → Prop}
  {fireOk : TcpPcb → List Err → Prop}

/-- The pcb after a local step keeps the invariant. -/
structure Kept
    (shut : Bool)
    (carried : Packet → Prop)
    (inv : TcpPcb → Prop)
    (before : TcpPcb)
    (world : World)
    (after : TcpPcb)
    (later : World) : Prop where
  frame : LocalFrame shut before after
  inv : inv after
  emits : Emits carried world later

theorem Kept.trans
    {shut : Bool}
    {first second third : TcpPcb}
    {world middle later : World}
    (kept : Kept shut carried inv first world second middle)
    (next : Kept shut carried inv second middle third later) :
    Kept shut carried inv first world third later where
  frame := kept.frame.trans next.frame
  inv := next.inv
  emits := kept.emits.trans next.emits

theorem Kept.weaken
    {before after : TcpPcb}
    {world later : World}
    (kept : Kept false carried inv before world after later)
    (shut : Bool) :
    Kept shut carried inv before world after later where
  frame := kept.frame.weaken shut
  inv := kept.inv
  emits := kept.emits

variable (rules : SendRules allowed carried inv finOk fireOk)
include rules

theorem origin
    {fault : Fault}
    {origin : FaultOrigin}
    (same : fault.origin = origin)
    (other :
      origin ≠ .receiveData ∧ origin ≠ .write ∧ origin ≠ .split ∧
        origin ≠ .persist) :
    allowed fault := by
  subst same
  exact rules.faults fault other.1 other.2.1 other.2.2.1 other.2.2.2

theorem tcpOutput_kept
    (pcb : TcpPcb)
    (world : World)
    (holds : inv pcb) :
    wp (tcpOutput false pcb)
      (fun result later => Kept false carried inv pcb world result.2 later)
      allowed world := by
  refine wp_weaken (rules.output pcb world holds) ?_
  rintro ⟨err, after⟩ later ⟨frame, kept, _, emits⟩
  exact ⟨.of_output frame, kept, emits⟩

/-! ### Closing -/

theorem tcpCloseShutdownFin_kept
    (pcb : TcpPcb)
    (world : World)
    (holds : inv pcb)
    (mayFin : finOk pcb) :
    wp (tcpCloseShutdownFin pcb)
      (fun result later => Kept true carried inv pcb world result.2 later)
      allowed world := by
  have idle : Kept true carried inv pcb world pcb world :=
    ⟨LocalFrame.refl true pcb, holds, Emits.refl world⟩
  have queued (next : TcpState) (shuts : Shuts pcb.state next) :
      wp
        (tcpSendFin pcb >>= fun sent =>
          if sent.1 = .ok then
            tcpOutput false { sent.2 with state := next } >>= fun out =>
              pure (Err.ok, out.2)
          else if sent.1 = .mem then
            pure (.ok, { sent.2 with flags.closepend := true })
          else
            pure (sent.1, sent.2))
        (fun result later => Kept true carried inv pcb world result.2 later)
        allowed world := by
    rw [wp_bind]
    refine wp_weaken (rules.fin pcb next world holds mayFin shuts) ?_
    rintro ⟨err, after⟩ middle ⟨frame, closed, mayRetry, emits⟩
    rw [wp_ite]
    refine ⟨fun ok => ?_, fun bad => ?_⟩
    · rw [wp_bind]
      refine wp_weaken (rules.tcpOutput_kept _ middle (closed ok)) ?_
      rintro ⟨_, final⟩ later kept
      have moved : LocalFrame true pcb { after with state := next } :=
        (LocalFrame.of_queue frame).shuts shuts
      exact ⟨moved.trans (kept.frame.weaken true), kept.inv,
        emits.trans kept.emits⟩
    · rw [wp_ite]
      refine ⟨fun _ => ?_, fun _ => ?_⟩
      · refine ⟨(LocalFrame.of_queue frame).trans ?_,
          rules.view after _ ?_ (mayRetry bad), emits⟩
        · constructor
          case state => exact .inr ⟨rfl, .inl rfl⟩
          all_goals intros; rfl
        · constructor <;> rfl
      · exact ⟨.of_queue frame, mayRetry bad, emits⟩
  unfold tcpCloseShutdownFin
  cases state : pcb.state with
  | synRcvd =>
      exact queued .finWait1 (state ▸ .synRcvd)
  | established =>
      exact queued .finWait1 (state ▸ .established)
  | closeWait =>
      exact queued .lastAck (state ▸ .closeWait)
  | _ =>
      exact idle

theorem tcpShutdownTx_kept
    (pcb : TcpPcb)
    (world : World)
    (holds : inv pcb)
    (mayFin : finOk pcb) :
    wp (tcpShutdownTx pcb)
      (fun result later => Kept true carried inv pcb world result.2 later)
      allowed world := by
  have closing := rules.tcpCloseShutdownFin_kept pcb world holds mayFin
  unfold tcpShutdownTx
  split
  · exact closing
  · exact closing
  · exact closing
  · exact ⟨LocalFrame.refl true pcb, holds, Emits.refl world⟩

theorem retryClosepend_kept
    (pcb : TcpPcb)
    (world : World)
    (holds : inv pcb)
    (mayFin : pcb.flags.closepend = true → finOk pcb) :
    wp (retryClosepend pcb)
      (fun result later => Kept pcb.flags.closepend carried inv pcb world result later)
      allowed world := by
  unfold retryClosepend
  rw [wp_ite]
  refine ⟨fun pending => ?_, fun _ => ?_⟩
  · have same : SameSend pcb { pcb with flags.closepend := false } := by
      constructor <;> rfl
    rw [wp_bind]
    refine wp_weaken
      (rules.tcpCloseShutdownFin_kept _ world (rules.view _ _ same holds)
        (rules.finView _ _ same (mayFin pending))) ?_
    rintro ⟨_, after⟩ later kept
    refine ⟨?_, kept.inv, kept.emits⟩
    rw [pending]
    refine LocalFrame.trans ?_ kept.frame
    constructor
    case state => exact .inr ⟨rfl, .inl rfl⟩
    all_goals intros; rfl
  · exact ⟨LocalFrame.refl _ pcb, holds, Emits.refl world⟩

/-! ### Timers -/

theorem persistTick_kept
    (pcb : TcpPcb)
    (world : World)
    (holds : inv pcb)
    (live : pcb.state ≠ .timeWait)
    (retries : pcb.nrtx < tcpMaxrtx)
    (running : 0 < pcb.persistBackoff)
    (mayFire : PersistDue pcb → fireOk pcb world.outputs) :
    wp (persistTick pcb)
      (fun result later => Kept false carried inv pcb world result.2 later)
      allowed world := by
  obtain ⟨noneInFlight, someWaiting⟩ := rules.persist pcb holds live running
  unfold persistTick
  rw [wp_bind, wp_ensure]
  refine ⟨fun _ => ?_, fun inFlight => ?_⟩
  · rw [wp_bind, wp_ensure]
    refine ⟨fun _ => ?_, fun empty => ?_⟩
    · rw [wp_ite]
      refine ⟨fun _ => ?_, fun _ => ?_⟩
      · exact ⟨LocalFrame.refl _ pcb, holds, Emits.refl world⟩
      rename_i probes
      have counted (count : Nat) :
          SameSend pcb { pcb with persistCnt := count } ∧
            LocalFrame false pcb { pcb with persistCnt := count } := by
        refine ⟨by constructor <;> rfl, ?_⟩
        constructor
        case state => exact .inl ⟨rfl, rfl⟩
        all_goals intros; rfl
      obtain ⟨same, frame⟩ := counted _
      have kept := rules.view _ _ same holds
      rw [wp_ite]
      refine ⟨fun due => ?_, fun _ => ⟨frame, kept, Emits.refl world⟩⟩
      have isDue : PersistDue pcb := by
        refine ⟨retries, running, Nat.not_le.mp probes, ?_⟩
        split at due <;> omega
      rw [wp_bind]
      refine wp_weaken
        (rules.fires _ world kept live running
          (rules.fireView _ _ _ (mayFire isDue))) ?_
      rintro after later ⟨fired, keeps, emits⟩
      exact ⟨frame.trans fired, keeps, emits⟩
    · rcases someWaiting with waiting | admitted
      · exact absurd empty (by simpa using waiting)
      · exact admitted
  · rcases noneInFlight with noneSent | admitted
    · exact absurd inFlight (by simp [noneSent])
    · exact admitted

theorem tcpRexmitRtoCommit_kept
    (pcb : TcpPcb)
    (world : World)
    (holds : inv pcb) :
    wp (tcpRexmitRtoCommit pcb)
      (fun result later => Kept false carried inv pcb world result later)
      allowed world := by
  unfold tcpRexmitRtoCommit
  rw [wp_bind]
  refine wp_weaken (rules.tcpOutput_kept _ world ?_) ?_
  · exact rules.view pcb _ (by constructor <;> rfl) holds
  · rintro ⟨_, after⟩ later kept
    refine ⟨LocalFrame.trans ?_ kept.frame, kept.inv, kept.emits⟩
    constructor
    case state => exact .inl ⟨rfl, rfl⟩
    all_goals intros; rfl

omit rules in
theorem tcpRexmitRtoPrepare_frame
    (pcb : TcpPcb) :
    LocalFrame false pcb (tcpRexmitRtoPrepare pcb).2 := by
  unfold tcpRexmitRtoPrepare
  split
  · exact LocalFrame.refl _ pcb
  · constructor
    case state => exact .inl ⟨rfl, rfl⟩
    all_goals intros; rfl

theorem rexmitTick_kept
    (pcb : TcpPcb)
    (world : World)
    (holds : inv pcb)
    (stopped : pcb.persistBackoff = 0) :
    wp (rexmitTick pcb)
      (fun result later => Kept false carried inv pcb world result later)
      allowed world := by
  have ticked (time : Int) :
      LocalFrame false pcb { pcb with rtime := time } ∧
        inv { pcb with rtime := time } := by
    refine ⟨?_, rules.view pcb _ (by constructor <;> rfl) holds⟩
    constructor
    case state => exact .inl ⟨rfl, rfl⟩
    all_goals intros; rfl
  unfold rexmitTick
  obtain ⟨frame, kept⟩ := ticked
    (if 0 ≤ pcb.rtime ∧ pcb.rtime < 0x7fff then pcb.rtime + 1 else pcb.rtime)
  have prepared := rules.rto _ kept stopped
  have moved := frame.trans (tcpRexmitRtoPrepare_frame _)
  rw [wp_ite]
  refine ⟨fun _ => ?_, fun _ => ⟨frame, kept, Emits.refl world⟩⟩
  rw [wp_ite]
  refine ⟨fun _ => ?_, fun _ => ⟨moved, prepared, Emits.refl world⟩⟩
  refine wp_weaken (rules.tcpRexmitRtoCommit_kept _ world ?_) ?_
  · exact rules.view _ _ (by constructor <;> rfl) prepared
  · intro after later committed
    refine ⟨(moved.trans ?_).trans committed.frame, committed.inv,
      committed.emits⟩
    constructor
    case state => exact .inl ⟨rfl, rfl⟩
    all_goals intros; rfl

theorem sendTick_kept
    (pcb : TcpPcb)
    (world : World)
    (holds : inv pcb)
    (live : pcb.state ≠ .timeWait)
    (mayFire : PersistDue pcb → fireOk pcb world.outputs) :
    wp (sendTick pcb)
      (fun result later => Kept false carried inv pcb world result.2 later)
      allowed world := by
  unfold sendTick
  rw [wp_ite]
  refine ⟨fun _ => ?_, fun retries => ?_⟩
  · exact ⟨LocalFrame.refl _ pcb, holds, Emits.refl world⟩
  rw [wp_ite]
  refine ⟨fun running => ?_, fun stopped => ?_⟩
  · exact rules.persistTick_kept pcb world holds live (Nat.not_le.mp retries)
      running mayFire
  · rw [wp_bind]
    exact rules.rexmitTick_kept pcb world holds (by omega)

theorem pollTick_kept
    (pcb : TcpPcb)
    (world : World)
    (holds : inv pcb) :
    wp (pollTick pcb)
      (fun result later => Kept false carried inv pcb world result later)
      allowed world := by
  have ticked (count : Nat) :
      LocalFrame false pcb { pcb with polltmr := count } ∧
        inv { pcb with polltmr := count } := by
    refine ⟨?_, rules.view pcb _ (by constructor <;> rfl) holds⟩
    constructor
    case state => exact .inl ⟨rfl, rfl⟩
    all_goals intros; rfl
  unfold pollTick
  rw [wp_ite]
  refine ⟨fun _ => ?_, fun _ => ?_⟩
  · obtain ⟨frame, kept⟩ := ticked 0
    rw [wp_bind]
    refine wp_weaken (tcpEventPoll_spec
      (fun fault same => rules.origin same (by decide)) carried _) ?_
    intro _ middle emits
    rw [wp_bind]
    refine wp_weaken (rules.tcpOutput_kept _ middle kept) ?_
    rintro ⟨_, after⟩ later sent
    exact ⟨frame.trans sent.frame, sent.inv, emits.trans sent.emits⟩
  · obtain ⟨frame, kept⟩ := ticked ((pcb.polltmr + 1) % 256)
    exact ⟨frame, kept, Emits.refl world⟩

/-- A slow tick keeps the pcb, but for stale out-of-order data, or removes it
and tells its stream. -/
theorem slowtmrPcb_kept
    (pcb : TcpPcb)
    (world : World)
    (holds : inv pcb)
    (live : pcb.state ≠ .timeWait)
    (mayFire : PersistDue pcb → fireOk pcb world.outputs) :
    wp (slowtmrPcb pcb)
      (fun result later =>
        match result with
        | some after =>
            (after.ooseq = pcb.ooseq ∨ after.ooseq = []) ∧
              Kept false carried inv { pcb with ooseq := after.ooseq } world
                after later
        | none =>
            Emits carried
              { world with stream := told pcb.errf world.stream } later)
      allowed world := by
  unfold slowtmrPcb
  rw [wp_bind]
  refine wp_weaken (rules.sendTick_kept pcb world holds live mayFire) ?_
  rintro ⟨remove, ticked⟩ middle ⟨frame, kept, emits⟩
  rw [wp_bind, wp_get]
  have dropped :
      ∃ queue,
        (queue = pcb.ooseq ∨ queue = []) ∧
          dropStaleOoseq middle.tcpTicks ticked =
            { ticked with ooseq := queue } := by
    unfold dropStaleOoseq
    split
    · exact ⟨[], .inr rfl, rfl⟩
    · refine ⟨pcb.ooseq, .inl rfl, ?_⟩
      rw [← frame.rcv]
  obtain ⟨queue, either, equal⟩ := dropped
  rw [equal]
  have trimmed := frame.withRcv fun rcv => { rcv with ooseq := queue }
  rw [wp_ite]
  refine ⟨fun _ => ?_, fun _ => ?_⟩
  · rw [wp_bind]
    refine wp_weaken (tcpEventErr_spec
      (fun fault same => rules.origin same (by decide)) carried _ _) ?_
    intro _ later tells
    have sameStream := emits.stream
    have errf : ticked.errf = pcb.errf := congrArg AppVars.errf frame.app
    rw [wp_pure]
    simp only [sameStream, errf] at tells
    exact (emits.withStream _).trans tells
  · have keeps : inv { ticked with ooseq := queue } :=
      rules.view ticked _ (by constructor <;> rfl) kept
    rw [wp_bind]
    refine wp_weaken (rules.pollTick_kept _ middle keeps) ?_
    intro after later polled
    have sameQueue : after.ooseq = queue := by
      rw [polled.frame.rcv]
    rw [wp_pure]
    refine ⟨sameQueue ▸ either, ?_, polled.inv, emits.trans polled.emits⟩
    rw [sameQueue]
    exact trimmed.trans polled.frame

theorem delayedAck_kept
    (pcb : TcpPcb)
    (world : World)
    (holds : inv pcb) :
    wp (delayedAck pcb)
      (fun result later =>
        Kept false carried inv pcb world result later ∧
          result.flags.closepend = pcb.flags.closepend ∧
          (finOk pcb → finOk result))
      allowed world := by
  have acked (flags : PcbFlags) (fin : flags.fin = pcb.flags.fin) :
      SameSend pcb { pcb with flags := flags } := by
    constructor <;> first | rfl | exact fin
  unfold delayedAck
  rw [wp_ite]
  refine ⟨fun _ => ?_, fun _ => ?_⟩
  · rw [wp_bind]
    refine wp_weaken (rules.output _ world (rules.view _ _ (acked _ rfl) holds))
      ?_
    rintro ⟨_, after⟩ later ⟨frame, kept, fin, emits⟩
    have same :
        SameSend after
          { after with flags.ackDelay := false, flags.ackNow := false } := by
      constructor <;> rfl
    refine ⟨⟨?_, rules.view _ _ same kept, emits⟩, frame.closepend,
      fun before => ?_⟩
    · refine (LocalFrame.trans ?_ (.of_output frame)).trans ?_
      all_goals
        constructor
        case state => exact .inl ⟨rfl, rfl⟩
        all_goals intros; rfl
    · exact rules.finView _ _ same
        (fin (rules.finView _ _ (acked _ rfl) before))
  · exact ⟨⟨LocalFrame.refl _ pcb, holds, Emits.refl world⟩, rfl, id⟩

theorem fasttmrPcb_kept
    (pcb : TcpPcb)
    (world : World)
    (holds : inv pcb)
    (taken : pcb.refusedData = none)
    (mayFin : pcb.flags.closepend = true → finOk pcb) :
    wp (fasttmrPcb pcb)
      (fun result later => Kept pcb.flags.closepend carried inv pcb world result later)
      allowed world := by
  unfold fasttmrPcb
  rw [wp_bind]
  refine wp_weaken (rules.delayedAck_kept pcb world holds) ?_
  rintro acked middle ⟨kept, closepend, fin⟩
  rw [wp_bind]
  refine wp_weaken (rules.retryClosepend_kept acked middle kept.inv
    fun pending => fin (mayFin (closepend ▸ pending))) ?_
  intro closed later closing
  have both := (kept.weaken _).trans (closepend ▸ closing)
  have stillTaken : closed.refusedData = none := by
    rw [both.frame.rcv]
    exact taken
  rw [wp_bind, tcpProcessRefusedData_none _ _ stillTaken]
  exact both

end SendRules

end NetstackLwip

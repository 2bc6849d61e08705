import NetstackLwip.ReceiverRules

namespace NetstackLwip

/-!
# Half-close

What a `poll_shutdown` that has returned `Ok` leaves behind: either the pcb is
in a state in which `tcp_write` refuses data, or `TF_CLOSEPEND` says that the
FIN still waits for memory. No event but a write ever leaves that.
-/

open FaultState FaultMachine

/-- The pcb takes no more data, or would not if its FIN found memory. -/
def Settled (pcb : TcpPcb) : Prop :=
  ¬pcb.state.Writable ∨ pcb.flags.closepend = true

theorem Settled.of_same
    {before after : TcpPcb}
    (settled : Settled before)
    (state : after.state = before.state)
    (closepend : after.flags.closepend = before.flags.closepend) :
    Settled after := by
  unfold Settled
  rw [state, closepend]
  exact settled

theorem Settled.of_local
    {before base after : TcpPcb}
    (settled : Settled before)
    (frame : LocalFrame false base after)
    (state : base.state = before.state)
    (flags : base.flags = before.flags) :
    Settled after := by
  rcases frame.state with ⟨same, pending⟩ | ⟨shut, _⟩
  · exact settled.of_same (same.trans state) (pending.trans (by rw [flags]))
  · cases shut

/-- A queued FIN moves the pcb out of the states that take data. -/
theorem Shuts.not_writable
    {before after : TcpState}
    (shuts : Shuts before after) :
    ¬after.Writable := by
  cases shuts <;> simp [TcpState.Writable]

/-- No segment moves a pcb back to a state that takes data. -/
theorem InputMoves.not_writable
    {before after : TcpState}
    {fin : Bool}
    (moves : InputMoves before fin after)
    (refuses : ¬before.Writable) :
    ¬after.Writable := by
  cases moves with
  | stay => exact refuses
  | handshake => exact absurd (.inr (.inr rfl)) refuses
  | handshakeFin => exact absurd (.inr (.inr rfl)) refuses
  | fin => exact absurd (.inl rfl) refuses
  | _ => simp [TcpState.Writable]

theorem InputMoves.settled
    {before after : TcpPcb}
    {fin : Bool}
    (settled : Settled before)
    (moves : InputMoves before.state fin after.state)
    (closepend : after.flags.closepend = before.flags.closepend) :
    Settled after := by
  rcases settled with refuses | pending
  · exact .inl (moves.not_writable refuses)
  · exact .inr (closepend.trans pending)

/-- The rules of a sender of which nothing is asked, with every fault
allowed. -/
theorem anyRules :
    SendRules (fun _ : Fault => True) (fun _ => True) InUse (fun _ => True)
      (fun _ _ => True) :=
  inUseRules fun _ _ => trivial

section Steps

variable {world : World}

/-- `tcp_close_shutdown_fin` queues a FIN or defers it. -/
theorem tcpCloseShutdownFin_settles
    (pcb : TcpPcb)
    (inUse : InUse pcb) :
    wp (tcpCloseShutdownFin pcb)
      (fun result _ => result.1 = .ok ∧ Settled result.2)
      (fun _ => True) world := by
  have queued (next : TcpState) (shuts : Shuts pcb.state next) :
      wp
        (tcpSendFin pcb >>= fun sent =>
          if sent.1 = .ok then
            tcpOutput false { sent.2 with state := next } >>= fun out =>
              pure (Err.ok, out.2)
          else if sent.1 = .mem then
            pure (.ok, { sent.2 with flags.closepend := true })
          else
            pure (sent.1, sent.2))
        (fun result _ => result.1 = .ok ∧ Settled result.2)
        (fun _ => True) world := by
    rw [wp_bind]
    refine wp_weaken
      (wp_and (anyRules.fin pcb next world inUse trivial shuts)
        (tcpSendFin_spec (fun _ _ => trivial) pcb)) ?_
    rintro ⟨err, after⟩ middle ⟨⟨_, closed, _, _⟩, _, refused, _⟩
    rw [wp_ite]
    refine ⟨fun ok => ?_, fun bad => ?_⟩
    · rw [wp_bind]
      refine wp_weaken (anyRules.tcpOutput_kept _ middle (closed ok)) ?_
      rintro ⟨_, final⟩ later kept
      refine ⟨rfl, .inl ?_⟩
      rcases kept.frame.state with ⟨same, _⟩ | ⟨shut, _⟩
      · have moved : final.state = next := same
        rw [moved]
        exact shuts.not_writable
      · cases shut
    · rw [wp_ite]
      refine ⟨fun _ => ⟨rfl, .inr rfl⟩, fun other => ?_⟩
      exact absurd (refused bad).1 other
  unfold tcpCloseShutdownFin
  cases state : pcb.state with
  | synRcvd =>
      exact queued .finWait1 (state ▸ .synRcvd)
  | established =>
      exact queued .finWait1 (state ▸ .established)
  | closeWait =>
      exact queued .lastAck (state ▸ .closeWait)
  | _ =>
      exact ⟨rfl, .inl (by simp [TcpState.Writable, state])⟩

theorem retryClosepend_settled
    (pcb : TcpPcb)
    (inUse : InUse pcb)
    (settled : Settled pcb) :
    wp (retryClosepend pcb) (fun result _ => Settled result)
      (fun _ => True) world := by
  unfold retryClosepend
  rw [wp_ite]
  refine ⟨fun _ => ?_, fun _ => settled⟩
  rw [wp_bind]
  refine wp_weaken
    (tcpCloseShutdownFin_settles _ (inUse.congr rfl rfl)) ?_
  rintro ⟨_, after⟩ later ⟨_, closed⟩
  exact closed

theorem tcpShutdownTx_settled
    (pcb : TcpPcb)
    (inUse : InUse pcb) :
    wp (tcpShutdownTx pcb) (fun result _ => Settled result.2)
      (fun _ => True) world := by
  have closing :
      wp (tcpCloseShutdownFin pcb) (fun result _ => Settled result.2)
        (fun _ => True) world :=
    wp_weaken (tcpCloseShutdownFin_settles pcb inUse)
      fun _ _ settles => settles.2
  unfold tcpShutdownTx
  split
  · exact closing
  · exact closing
  · exact closing
  · rename_i notSynRcvd notEstablished notCloseWait
    refine .inl ?_
    rintro (state | state | state)
    · exact notEstablished state
    · exact notCloseWait state
    · exact notSynRcvd state

/-- `poll_shutdown` that succeeds settles the pcb; one that fails found it
settled. -/
theorem pollShutdownPcb_settled
    (stream : TcpStream)
    (pcb : TcpPcb)
    (inUse : InUse pcb) :
    wp (pollShutdownPcb stream pcb) (fun result _ => Settled result.2.2)
      (fun _ => True) world := by
  unfold pollShutdownPcb
  rw [wp_bind]
  refine wp_weaken (tcpShutdownTx_settled pcb inUse) ?_
  rintro ⟨err, after⟩ later settled
  rw [wp_ite]
  exact ⟨fun _ => settled, fun _ => settled⟩

theorem fasttmrPcb_settled
    (pcb : TcpPcb)
    (inUse : InUse pcb)
    (taken : pcb.refusedData = none)
    (settled : Settled pcb) :
    wp (fasttmrPcb pcb) (fun result _ => Settled result)
      (fun _ => True) world := by
  unfold fasttmrPcb
  rw [wp_bind]
  refine wp_weaken (anyRules.delayedAck_kept pcb world inUse) ?_
  rintro acked middle ⟨kept, _, _⟩
  have stillSettled : Settled acked := settled.of_local kept.frame rfl rfl
  have stillTaken : acked.refusedData = none := by
    rw [kept.frame.rcv]
    exact taken
  rw [wp_bind]
  refine wp_weaken
    (wp_and (retryClosepend_settled acked kept.inv stillSettled)
      (anyRules.retryClosepend_kept acked middle kept.inv fun _ => trivial)) ?_
  rintro closed later ⟨settles, closing⟩
  have untouched : closed.refusedData = none := by
    rw [closing.frame.rcv]
    exact stillTaken
  rw [wp_bind, tcpProcessRefusedData_none _ _ untouched]
  exact settles

/-- Every event but a write keeps a settled pcb settled. -/
theorem perform_settled
    (event : Event)
    (pcb : TcpPcb)
    (inUse : InUse pcb)
    (attached : Attached world.pcbAddr pcb world.stream)
    (settled : Settled pcb)
    (noWrite : ∀ buf, event ≠ .pollWrite buf) :
    wp (perform (some pcb) event)
      (fun result _ => ∀ after, result.1 = some after → Settled after)
      (fun _ => True) world := by
  have same (after : TcpPcb) (left : some pcb = some after) :
      Settled after := by
    rw [← Option.some.inj left]
    exact settled
  have stays (after next : TcpPcb) (left : some next = some after)
      (known : Settled next) : Settled after := by
    rw [← Option.some.inj left]
    exact known
  cases event with
  | segment packet =>
      unfold perform
      simp only
      rw [wp_ite]
      refine ⟨fun _ => ?_, fun active => ?_⟩
      · rw [wp_bind]
        refine wp_weaken (anyRules.tcpTimewaitInput_kept packet.toPacket pcb
          world inUse) fun after later kept => ?_
        exact fun final left => stays final after left
          (settled.of_local kept.frame rfl rfl)
      · rw [wp_bind]
        refine wp_weaken
          (tcpInputPcb_kept anyRules (fun _ _ => True) inUseInputs trivial
            inUse (fun _ => trivial) active attached.rxOpen attached.taken
            attached.owner.notNull
            fun _ acked world _ _ =>
              wp_of_outcomes (fun _ _ _ => trivial) fun _ _ => trivial) ?_
        rintro (_ | after) later arrived
        · rintro _ ⟨⟩
        · have known : Arrived (fun _ => True) InUse (fun _ _ => True) pcb world
              (takenFrom packet.toPacket pcb world) after later := arrived
          exact fun final left => stays final after left
            (known.state.settled settled known.closepend)
  | slowtmr =>
      unfold perform
      rw [wp_bind, wp_modify]
      simp only
      rw [wp_ite]
      refine ⟨fun _ => ?_, fun active => ?_⟩
      · rw [wp_bind, wp_get]
        unfold slowtmrTimewait
        split
        · rintro _ ⟨⟩
        · exact same
      · rw [wp_bind]
        refine wp_weaken
          (anyRules.slowtmrPcb_kept pcb _ inUse active fun _ => trivial) ?_
        rintro (_ | after) later kept
        · rintro _ ⟨⟩
        · exact fun final left => stays final after left
            (settled.of_local kept.2.frame rfl rfl)
  | fasttmr =>
      unfold perform
      simp only
      rw [wp_ite]
      refine ⟨fun _ => same, fun _ => ?_⟩
      rw [wp_bind]
      refine wp_weaken
        (fasttmrPcb_settled pcb inUse attached.taken settled) ?_
      exact fun after _ known final left => stays final after left known
  | pollRead remaining =>
      unfold perform
      refine onStream_attached attached (fun _ => same) fun stream _ => ?_
      rw [wp_bind, wp_get, wp_bind]
      refine wp_weaken
        (anyRules.pollReadPcb_kept trivial world.recvs remaining stream pcb
          world inUse) ?_
      rintro ⟨result, next, after⟩ later ⟨_, _, kept⟩
      exact fun final left => stays final after left
        (settled.of_local kept.frame rfl rfl)
  | pollWrite buf =>
      exact absurd rfl (noWrite buf)
  | pollFlush =>
      unfold perform
      refine onStream_attached attached (fun _ => same) fun stream _ => ?_
      rw [wp_bind]
      refine wp_weaken (anyRules.pollFlushPcb_kept pcb world inUse) ?_
      rintro ⟨result, after⟩ later kept
      exact fun final left => stays final after left
        (settled.of_local kept.frame rfl rfl)
  | pollShutdown =>
      unfold perform
      refine onStream_attached attached (fun _ => same) fun stream _ => ?_
      rw [wp_bind]
      refine wp_weaken (pollShutdownPcb_settled stream pcb inUse) ?_
      rintro ⟨result, next, after⟩ later known
      exact fun final left => stays final after left known
  | dropStream =>
      unfold perform
      rw [wp_bind]
      refine onStream_attached attached (fun _ => same) fun stream _ => ?_
      rw [wp_bind]
      refine wp_weaken (anyRules.dropPcb_kept stream pcb world inUse) ?_
      rintro left later ⟨_, shut, aborted, _⟩
      simp only [wp_bind, wp_modify, wp_pure]
      intro final isLeft
      cases closed : stream.closed with
      | false =>
          rw [aborted closed] at isLeft
          cases isLeft
      | true =>
          rw [shut closed] at isLeft
          exact stays final _ isLeft (settled.of_same rfl rfl)
  | dropListener =>
      exact fun final left => stays final _ left (settled.of_same rfl rfl)
  | handleClosepend =>
      unfold perform
      simp only
      rw [wp_ite]
      refine ⟨fun _ => same, fun _ => ?_⟩
      rw [wp_bind]
      refine wp_weaken (retryClosepend_settled pcb inUse settled) ?_
      exact fun after _ known final left => stays final after left known
  | kill =>
      unfold perform
      simp only
      rw [wp_bind]
      refine wp_weaken (anyRules.killPcb_kept pcb world inUse) ?_
      rintro (_ | after) later kept
      · rintro _ ⟨⟩
      · obtain ⟨rfl, _⟩ := kept
        exact same

/-! ## Writes that are refused -/

theorem tcpWrite_refused
    (pcb : TcpPcb)
    (arg : Bytes)
    (more : Bool)
    (refuses : ¬pcb.state.Writable) :
    tcpWrite pcb arg more = pure (.conn, pcb) := by
  have checks : tcpWriteChecks pcb arg.length = pure (.conn, pcb) := by
    unfold tcpWriteChecks
    refine if_pos ⟨fun state => ?_, fun state => ?_, fun state => ?_⟩
    · exact refuses (.inl state)
    · exact refuses (.inr (.inl state))
    · exact refuses (.inr (.inr state))
  unfold tcpWrite
  rw [checks]
  rfl

/-- The outcome reports no accepted byte, and no failed `tcp_output`. -/
def Outcome.NothingWritten (outcome : Outcome) : Prop :=
  ∀ buf result, outcome = .write buf result →
    (∀ written, result ≠ .ready written) ∧ ∀ err, result ≠ .outputError err

theorem Outcome.NoWrite.nothingWritten
    {outcome : Outcome}
    (noWrite : outcome.NoWrite) :
    outcome.NothingWritten :=
  fun buf result same => absurd same (noWrite buf result)

theorem SendLog.record_nothing
    (log : SendLog)
    {outcome : Outcome}
    (nothing : outcome.NothingWritten) :
    log.record outcome = log := by
  cases outcome with
  | write buf result =>
      obtain ⟨notReady, notFailed⟩ := nothing buf result rfl
      cases result with
      | ready written => exact absurd rfl (notReady written)
      | outputError err => exact absurd rfl (notFailed err)
      | _ => rfl
  | _ =>
      rfl

/-- A write to a pcb that takes no data is refused, and leaves the pcb. -/
theorem performPollWrite_refused
    (buf : Bytes)
    (pcb : Option TcpPcb)
    (refuses : ∀ known, pcb = some known → ¬known.state.Writable) :
    wp (perform pcb (.pollWrite buf))
      (fun result _ => result.1 = pcb ∧ result.2.NothingWritten)
      (fun _ => True) world := by
  have answer (result : PollWrite)
      (notReady : ∀ written, result ≠ .ready written)
      (notFailed : ∀ err, result ≠ .outputError err) :
      (Outcome.write buf result).NothingWritten := by
    rintro _ _ ⟨⟩
    exact ⟨notReady, notFailed⟩
  unfold perform onStream
  rw [wp_bind, wp_get]
  cases world.stream with
  | none =>
      exact ⟨rfl, by simp [Outcome.NothingWritten]⟩
  | some stream =>
      simp only
      rw [wp_ite]
      refine ⟨fun _ => ⟨rfl, answer _ (by simp) (by simp)⟩, fun _ => ?_⟩
      cases pcb with
      | none =>
          exact trivial
      | some known =>
          simp only
          unfold pollWritePcb
          rw [wp_bind, wp_ite]
          refine ⟨fun _ => ⟨rfl, answer _ (by simp) (by simp)⟩, fun _ => ?_⟩
          rw [wp_bind, tcpWrite_refused known _ _ (refuses known rfl)]
          exact ⟨rfl, answer _ (by simp) (by simp)⟩

end Steps

/-! ## After a shutdown -/

/-- The step is no write while a deferred FIN still waits for memory. -/
def NoWriteWhileFinWaits (conn : Conn) (label : Label) : Prop :=
  ∀ buf pcb,
    label.event = .pollWrite buf →
      conn.pcb = some pcb → pcb.flags.closepend = false

/-- A write on a live stream finds its pcb. A pcb in TIME_WAIT is freed without
a word to the stream, whose pointer then leads to the next owner of the
memory. -/
def WriteFindsPcb (conn : Conn) (label : Label) : Prop :=
  ∀ buf stream,
    label.event = .pollWrite buf →
      conn.world.stream = some stream →
        stream.errored = false → conn.pcb.isSome = true

/-- The log of the sender is what it was, the last call has added nothing, and
the pcb is settled. -/
structure Frozen (log : SendLog) (conn : Conn) : Prop where
  reached : connMachine.Reached conn
  log : conn.history.sendLog = log
  outcome : conn.history.outcome.NothingWritten
  pcb : ∀ pcb, conn.pcb = some pcb → Settled pcb

/-- What an admitted event does after a shutdown. -/
theorem Frozen.performed
    {log : SendLog}
    {conn : Conn}
    (frozen : Frozen log conn)
    (label : Label)
    (admitted : NoWriteWhileFinWaits conn label) :
    wp (perform conn.pcb label.event)
      (fun result _ =>
        result.2.NothingWritten ∧
          ∀ after, result.1 = some after → Settled after)
      (fun _ => True) (label.enter conn.world) := by
  by_cases write : ∃ buf, label.event = .pollWrite buf
  · obtain ⟨buf, isWrite⟩ := write
    rw [isWrite]
    refine wp_weaken (performPollWrite_refused buf conn.pcb ?_) ?_
    · intro pcb current
      rcases frozen.pcb pcb current with refuses | pending
      · exact refuses
      · rw [admitted buf pcb isWrite current] at pending
        cases pending
    · rintro ⟨left, outcome⟩ later ⟨same, nothing⟩
      exact ⟨nothing, fun after isLeft =>
        frozen.pcb after (same.symm.trans isLeft)⟩
  · have noWrite (buf : Bytes) : label.event ≠ .pollWrite buf :=
      fun same => write ⟨buf, same⟩
    refine wp_weaken
      (wp_and (perform_noWrite conn.pcb label.event noWrite _)
        (?_ :
          wp (perform conn.pcb label.event)
            (fun result _ => ∀ after, result.1 = some after → Settled after)
            (fun _ => True) (label.enter conn.world)))
      fun _ _ both => ⟨both.1.nothingWritten, both.2⟩
    cases current : conn.pcb with
    | none =>
        refine wp_mono (perform_none label.event log _) ?_ fun _ _ => trivial
        rintro ⟨left, outcome⟩ later ⟨gone, _, _⟩ after isLeft
        rw [gone] at isLeft
        cases isLeft
    | some pcb =>
        obtain ⟨attached, inUse⟩ := attached_of_reached frozen.reached current
        exact perform_settled label.event pcb inUse attached
          (frozen.pcb pcb current) noWrite

theorem Frozen.step
    {log : SendLog}
    {conn after : Conn}
    {label : Label}
    (frozen : Frozen log conn)
    (admitted : NoWriteWhileFinWaits conn label)
    (taken : conn.step label = .ok after) :
    Frozen log after := by
  have performed := frozen.performed label admitted
  have reached : connMachine.Reached after :=
    .next frozen.reached trivial taken
  unfold wp at performed
  unfold Conn.step at taken
  split at taken
  · rename_i pcb outcome later ran
    rw [ran] at performed
    obtain ⟨nothing, settled⟩ := performed
    cases taken
    refine ⟨reached, ?_, nothing, settled⟩
    exact (SendLog.record_nothing _ nothing).trans frozen.log
  · cases taken

/-- A `poll_shutdown` that returns `Ok` leaves a settled pcb, if any. -/
theorem performPollShutdown_settles
    {conn : Conn}
    (reached : connMachine.Reached conn)
    (label : Label) :
    wp (perform conn.pcb .pollShutdown)
      (fun result _ =>
        result.2 = .unit .ready →
          ∀ after, result.1 = some after → Settled after)
      (fun _ => True) (label.enter conn.world) := by
  cases current : conn.pcb with
  | none =>
      refine wp_mono (perform_none .pollShutdown ⟨0, [], false⟩ _) ?_
        fun _ _ => trivial
      rintro ⟨left, outcome⟩ later ⟨gone, _, _⟩ _ after isLeft
      rw [gone] at isLeft
      cases isLeft
  | some pcb =>
      obtain ⟨attached, inUse⟩ := attached_of_reached reached current
      have entered :
          Attached (label.enter conn.world).pcbAddr pcb
            (label.enter conn.world).stream := attached
      unfold perform
      refine onStream_attached entered (by simp) fun stream _ => ?_
      rw [wp_bind]
      refine wp_weaken (pollShutdownPcb_settled stream pcb inUse) ?_
      rintro ⟨result, next, after⟩ later settled _ final isLeft
      rw [← Option.some.inj isLeft]
      exact settled

/-- After a `poll_shutdown` that returned `Ok`, and as long as no write is made
while the FIN of that shutdown still waits for memory or after the pcb was
freed, no write returns `Ok`, nor does one fail after its data was queued: the
send stream stays what it was. -/
theorem shutdown_freezes_writes
    {before conn later : Conn}
    {label : Label}
    (reached : connMachine.Reached before)
    (shuts : label.event = .pollShutdown)
    (taken : before.step label = .ok conn)
    (ready : conn.history.outcome = .unit .ready)
    (continued :
      (connMachine.startedAt conn).ReachedUnder
        (fun middle label =>
          NoWriteWhileFinWaits middle label ∧ WriteFindsPcb middle label)
        later) :
    later.history.sendLog = conn.history.sendLog ∧
      ∀ buf written, later.history.outcome ≠ .write buf (.ready written) := by
  have settled : ∀ pcb, conn.pcb = some pcb → Settled pcb := by
    have performed := performPollShutdown_settles reached label
    rw [← shuts] at performed
    unfold wp at performed
    unfold Conn.step at taken
    split at taken
    · rename_i pcb outcome world ran
      rw [ran] at performed
      cases taken
      exact performed ready
    · cases taken
  have frozen : Frozen conn.history.sendLog later := by
    refine continued.invariant ?_ ?_
    · rintro _ rfl
      refine ⟨.next reached trivial taken, rfl, ?_, settled⟩
      rw [ready]
      simp [Outcome.NothingWritten]
    · intro middle step after known admitted stepped
      exact known.step admitted.1 stepped
  refine ⟨frozen.log, fun buf written same => ?_⟩
  exact (frozen.outcome buf _ same).1 written rfl

/-- The example connection once its handshake is complete. -/
def exampleHandshake : Label where
  event := .segment (exampleSegment { ack := true } 100 1 1000 [] [])

/-- The outcomes of a `poll_shutdown` and of a write of one byte after it. -/
def shutdownThenWrite (conn : Conn) (allocs : List Bool) :
    Option (Outcome × Outcome) :=
  (conn.step { event := .pollShutdown, allocs }).toOption.bind fun shut =>
    (shut.step { event := .pollWrite [7] }).toOption.map fun written =>
      (shut.history.outcome, written.history.outcome)

theorem exists_shutdownThenWrite
    {conn : Conn}
    {allocs : List Bool}
    {first second : Outcome}
    (outcomes : shutdownThenWrite conn allocs = some (first, second)) :
    ∃ shut written,
      conn.step { event := .pollShutdown, allocs } = .ok shut ∧
        shut.step { event := .pollWrite [7] } = .ok written ∧
          shut.history.outcome = first ∧ written.history.outcome = second := by
  unfold shutdownThenWrite at outcomes
  cases shutdown : conn.step { event := .pollShutdown, allocs } with
  | error fault =>
      rw [shutdown] at outcomes
      cases outcomes
  | ok shut =>
      rw [shutdown] at outcomes
      cases write : shut.step { event := .pollWrite [7] } with
      | error fault =>
          simp [Except.toOption, write] at outcomes
      | ok written =>
          simp only [Except.toOption, write, Option.bind_some, Option.map_some,
            Option.some.injEq, Prod.mk.injEq] at outcomes
          exact ⟨shut, written, rfl, write, outcomes.1, outcomes.2⟩

/-- Memory lasts: the write after the shutdown is refused. -/
theorem shutdown_freezes_writes_queued :
    ∃ conn later,
      (connMachine.startedAt conn).ReachedUnder
          (fun middle label =>
            NoWriteWhileFinWaits middle label ∧ WriteFindsPcb middle label)
          later ∧
        later.history.outcome = .write [7] (.writeError .conn) ∧
        later.history.sendLog = conn.history.sendLog ∧
          ∀ buf written,
            later.history.outcome ≠ .write buf (.ready written) := by
  obtain ⟨before, reached, outcomes⟩ :=
    exists_reached (exampleSyn 1000 []) 0 0 exampleWorld [exampleHandshake]
      (fun conn =>
        shutdownThenWrite conn [] =
            some (.unit .ready, .write [7] (.writeError .conn)) &&
          ((conn.step { event := .pollShutdown }).toOption.bind Conn.pcb).any
            fun pcb => !pcb.flags.closepend)
      rfl rfl rfl (by decide +kernel)
  rw [Bool.and_eq_true, decide_eq_true_iff] at outcomes
  obtain ⟨conn, later, shuts, writes, ready, refused⟩ :=
    exists_shutdownThenWrite outcomes.1
  have queued := outcomes.2
  rw [shuts] at queued
  obtain ⟨held, isHeld, settled⟩ := (Option.any_eq_true _ _).mp queued
  have isHeld : conn.pcb = some held := isHeld
  have continued :
      (connMachine.startedAt conn).ReachedUnder
        (fun middle label =>
          NoWriteWhileFinWaits middle label ∧ WriteFindsPcb middle label)
        later := by
    refine .next (.start rfl) ⟨?_, ?_⟩ writes
    · rintro buf pcb _ same
      rw [isHeld, Option.some.injEq] at same
      simpa [same] using settled
    · intro buf stream _ _ _
      rw [isHeld]
      rfl
  exact ⟨conn, later, continued, refused,
    shutdown_freezes_writes reached rfl shuts ready continued⟩

/-- The FIN finds no memory: the shutdown returns `Ok`, and so does the next
write. -/
theorem write_accepted_after_shutdown :
    ∃ before conn later,
      connMachine.Reached before ∧
        before.step { event := .pollShutdown, allocs := [false] } =
          .ok conn ∧
        conn.history.outcome = .unit .ready ∧
          (connMachine.startedAt conn).Reached later ∧
            later.history.outcome = .write [7] (.ready 1) := by
  obtain ⟨before, reached, outcomes⟩ :=
    exists_reached (exampleSyn 1000 []) 0 0 exampleWorld [exampleHandshake]
      (fun conn =>
        shutdownThenWrite conn [false] =
          some (.unit .ready, .write [7] (.ready 1)))
      rfl rfl rfl (by decide +kernel)
  obtain ⟨conn, later, shuts, writes, ready, accepted⟩ :=
    exists_shutdownThenWrite (of_decide_eq_true outcomes)
  exact ⟨before, conn, later, reached, shuts, ready,
    .next (.start rfl) trivial writes, accepted⟩

end NetstackLwip

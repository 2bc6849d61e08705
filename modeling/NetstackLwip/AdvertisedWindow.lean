import NetstackLwip.WindowFlood

namespace NetstackLwip

/-!
# The advertised window over whole runs

The right edges that a connection announces never move to the left, and none
lies beyond `rcv_nxt + rcv_wnd` when it is sent, as long as the edge announced
last stays within half of the sequence space of the receive window. The code
does not see to that: when no header can be allocated, or no packet gets out,
the peer may fill window after window without an announcement.
-/

open FaultState FaultMachine

/-! ## Moments -/

/-- The packets that an event emits while `rcv_nxt + rcv_wnd` is at `edge`. -/
structure Moment where
  edge : SeqNo
  packets : List Packet

/-- What was emitted between two worlds. -/
def newPackets (before after : World) : List Packet :=
  after.sent.drop before.sent.length

/-- A read gives one chunk after the other back to the window. -/
def readMoments : List Nat → TcpPcb → World → List Moment
  | [], _, _ => []
  | len :: rest, pcb, world =>
      match tcpRecved false pcb (len % 65536) world with
      | .ok (grown, later) =>
          ⟨grown.rightEdge, newPackets world later⟩ ::
            readMoments rest grown later
      | .error _ => []

theorem readMoments_cons
    {len : Nat}
    {pcb grown : TcpPcb}
    {world later : World}
    (returned :
      tcpRecved false pcb (len % 65536) world = .ok (grown, later))
    (rest : List Nat) :
    readMoments (len :: rest) pcb world =
      ⟨grown.rightEdge, newPackets world later⟩ ::
        readMoments rest grown later := by
  show
    (match tcpRecved false pcb (len % 65536) world with
    | .ok (grown, later) =>
        (⟨grown.rightEdge, newPackets world later⟩ : Moment) ::
          readMoments rest grown later
    | .error _ => []) = _
  rw [returned]

/-- `tcp_process` keeps the right edge of the window. What the application
takes moves it, and `tcp_output` comes after that. -/
def inputMoments
    (packet : Packet)
    (pcb : TcpPcb)
    (world : World)
    (after : Option TcpPcb)
    (later : World) : List Moment :=
  match tcpProcess packet (inputSeg packet) pcb world with
  | .ok (_, middle) =>
      [⟨pcb.rightEdge, newPackets world middle⟩,
        ⟨(after.getD pcb).rightEdge, newPackets middle later⟩]
  | .error _ => []

/-- What an event emits on its way from `pcb` in `world` to `after` in
`later`. Timers and the other calls leave `rcv_nxt` and `rcv_wnd` alone. -/
def momentsOf
    (event : Event)
    (pcb : TcpPcb)
    (world : World)
    (after : Option TcpPcb)
    (later : World) : List Moment :=
  match event with
  | .segment packet =>
      if pcb.state = .timeWait then
        [⟨pcb.rightEdge, newPackets world later⟩]
      else
        inputMoments packet.toPacket pcb world after later
  | .pollRead remaining =>
      match world.stream with
      | none => []
      | some stream =>
          if stream.errored then []
          else
            readMoments (readStream world.recvs remaining stream).credited pcb
              world
  | _ => [⟨pcb.rightEdge, newPackets world later⟩]

/-- What a step emits, moment by moment. -/
def Conn.moments (conn : Conn) (label : Label) (after : Conn) : List Moment :=
  match conn.pcb with
  | none => []
  | some pcb =>
      momentsOf label.event pcb (label.enter conn.world) after.pcb after.world

/-- The moments account for all packets sent meanwhile, and none of them
announces an edge beyond that of its moment. -/
structure Explained
    (moments : List Moment)
    (sent later : List Packet) : Prop where
  sent : later = sent ++ moments.flatMap Moment.packets
  inside :
    ∀ moment ∈ moments, ∀ packet ∈ moment.packets, Within moment.edge packet

theorem Explained.none (sent : List Packet) : Explained [] sent sent :=
  ⟨by simp, by simp⟩

theorem Explained.cons
    {edge : SeqNo}
    {rest : List Moment}
    {sent later : List Packet}
    {between : List Packet}
    (adds : Adds (Within edge) sent between)
    (explained : Explained rest between later) :
    Explained (⟨edge, between.drop sent.length⟩ :: rest) sent later := by
  obtain ⟨more, rfl, within⟩ := adds
  constructor
  · rw [explained.sent]
    simp
  · rw [List.forall_mem_cons]
    exact ⟨by simpa using within, explained.inside⟩

theorem Explained.one
    {edge : SeqNo}
    {sent later : List Packet}
    (adds : Adds (Within edge) sent later) :
    Explained [⟨edge, later.drop sent.length⟩] sent later :=
  .cons adds (.none later)

/-! ## Caps -/

/-- The announced edge is so close that one window more keeps it within half
of the sequence space. -/
def closeCap : Nat → Nat :=
  fun _ => 2 ^ 31 - 1 - tcpWnd

/-- `closeCap`, raised by what the window has grown. -/
def grownCap : Nat → Nat :=
  fun wnd => 2 ^ 31 - 1 - tcpWnd + wnd

theorem closeCap_near : Near closeCap := by
  intro wnd _
  show 2 ^ 31 - 1 - tcpWnd < 2 ^ 31
  decide

theorem grownCap_near : Near grownCap := by
  intro wnd top
  show 2 ^ 31 - 1 - tcpWnd + wnd < 2 ^ 31
  unfold tcpWnd tcpMss at *
  omega

theorem grownCap_growing : Growing grownCap :=
  fun _ _ => (Nat.add_assoc _ _ _).symm

theorem Announced.grown
    {pcb : TcpPcb}
    {sent : List Packet}
    (announced : Announced closeCap pcb sent) :
    Announced grownCap pcb sent :=
  announced.widen (Nat.le_add_right _ _)

/-! ## Events -/

section Events

variable
  {allowed : Fault → Prop}
  {world : World}
  {pcb : TcpPcb}
  (others : ∀ fault : Fault, fault ≠ .newRcvAnnWnd → allowed fault)

/-- What an event leaves, with the moments that it went through. -/
structure Advertised
    (moments : List Moment)
    (sent : List Packet)
    (after : Option TcpPcb)
    (later : List Packet) : Prop where
  ordered : EdgesOrdered later
  announced : ∀ pcb, after = some pcb → Announced grownCap pcb later
  explained : Explained moments sent later

theorem Told.advertised
    {before after : TcpPcb}
    {sent later : List Packet}
    (told : Told closeCap before sent after later) :
    Advertised [⟨before.rightEdge, later.drop sent.length⟩] sent (some after)
      later where
  ordered := told.announced.ordered
  announced := by
    rintro _ ⟨⟩
    exact told.announced.grown
  explained := .one told.adds

theorem ToldOrGone.advertised
    {before : TcpPcb}
    {after : Option TcpPcb}
    {sent later : List Packet}
    (told : ToldOrGone closeCap before sent after later) :
    Advertised [⟨before.rightEdge, later.drop sent.length⟩] sent after
      later := by
  cases after with
  | none =>
      have gone : Gone before sent later := told
      exact ⟨gone.ordered, by simp, .one gone.adds⟩
  | some after =>
      exact Told.advertised told

include others

theorem tcpInputPcb_advertised
    (packet : Packet)
    (taken : pcb.refusedData = none)
    (announced : Announced closeCap pcb world.sent) :
    wp (tcpInputPcb packet pcb)
      (fun after later =>
        Advertised (inputMoments packet pcb world after later) world.sent
          after later.sent)
      allowed world := by
  unfold tcpInputPcb
  simp only
  rw [wp_bind, tcpProcessRefusedData_none _ _ taken, wp_pure]
  simp only
  rw [wp_ite]
  refine ⟨fun refused => ?_, fun _ => ?_⟩
  · simp [taken] at refused
  rw [wp_bind]
  refine wp_weaken
    (wp_outcome (tcpProcess_announced closeCap_near others (fun _ _ => rfl)
      packet (inputSeg packet) announced)) ?_
  rintro processed middle ⟨known, outcome⟩
  have moments (after : Option TcpPcb) (later : World) :
      inputMoments packet pcb world after later =
        [⟨pcb.rightEdge, newPackets world middle⟩,
          ⟨(after.getD pcb).rightEdge, newPackets middle later⟩] := by
    unfold inputMoments
    rw [outcome]
  simp only [moments]
  cases processed with
  | none =>
      have gone : Gone pcb world.sent middle.sent := known
      exact ⟨gone.ordered, by simp, .cons gone.adds (.one (.refl _))⟩
  | some processed =>
      obtain ⟨result, held⟩ := processed
      have told : Held closeCap pcb world.sent held middle.sent := known
      refine wp_weaken
        (finishInput_announced grownCap_near others grownCap_growing result
          told.announced.grown) ?_
      rintro (_ | after) later finished
      · have gone : Gone held middle.sent later.sent := finished
        have inside := gone.adds
        rw [told.rightEdge] at inside
        exact ⟨gone.ordered, by simp, .cons told.adds (.one inside)⟩
      · obtain ⟨shown, adds⟩ := finished
        refine ⟨shown.ordered, ?_, .cons told.adds (.one adds)⟩
        rintro _ ⟨⟩
        exact shown

/-- A read gives the window back chunk by chunk. -/
theorem pollReadLoop_advertised
    (chunks : List Bytes)
    (recvs : List Bool)
    (remaining : Nat)
    (taken : Bytes)
    (stream : TcpStream)
    (announced : Announced grownCap pcb world.sent) :
    wp (pollReadLoop (tcpRecved false) chunks recvs remaining taken stream pcb)
      (fun result later =>
        Advertised
          (readMoments
            (readChunks chunks recvs remaining taken stream).credited pcb world)
          world.sent (some result.2.2) later.sent)
      allowed world := by
  have idle :
      Advertised [] world.sent (some pcb) world.sent := by
    refine ⟨announced.ordered, ?_, .none _⟩
    rintro _ ⟨⟩
    exact announced
  induction chunks generalizing recvs remaining taken pcb world with
  | nil =>
      exact idle
  | cons data rest inductionHypothesis =>
      unfold pollReadLoop
      rw [wp_ite]
      refine ⟨fun waits => ?_, fun ready => ?_⟩
      · simp only [readChunks, if_pos waits]
        exact idle
      rw [wp_ite]
      refine ⟨fun ended => ?_, fun filled => ?_⟩
      · simp only [readChunks, if_neg ready, if_pos ended]
        exact idle
      rw [wp_bind]
      refine wp_weaken
        (wp_outcome (tcpRecved_announced grownCap_near grownCap_growing others
          false (data.length % 65536) announced)) ?_
      rintro grown middle ⟨told, outcome⟩
      have edge : grown.rightEdge = _ := told.rightEdge
      have moments (lens : List Nat) :
          readMoments (data.length :: lens) pcb world =
            ⟨grown.rightEdge, newPackets world middle⟩ ::
              readMoments lens grown middle := by
        exact readMoments_cons outcome lens
      have adds : Adds (Within grown.rightEdge) world.sent middle.sent := by
        rw [edge]
        exact told.adds
      have shown := told.announced
      have idleNext :
          Advertised [] middle.sent (some grown) middle.sent := by
        refine ⟨shown.ordered, ?_, .none _⟩
        rintro _ ⟨⟩
        exact shown
      simp only
      rw [wp_ite]
      refine ⟨fun short => ?_, fun whole => ?_⟩
      · simp only [readChunks, if_neg ready, if_neg filled, if_pos short]
        rw [wp_pure, moments]
        exact ⟨shown.ordered, idleNext.announced, .cons adds (.none _)⟩
      · refine wp_weaken (inductionHypothesis _ _ _ shown idleNext) ?_
        rintro ⟨result, left, after⟩ later next
        simp only [readChunks, if_neg ready, if_neg filled, if_neg whole]
        rw [moments]
        exact ⟨next.ordered, next.announced, .cons adds next.explained⟩

/-- Every event announces inside the window, and nothing to the left. -/
theorem perform_advertised
    (event : Event)
    (inUse : InUse pcb)
    (attached : Attached world.pcbAddr pcb world.stream)
    (announced : Announced closeCap pcb world.sent) :
    wp (perform (some pcb) event)
      (fun result later =>
        Advertised (momentsOf event pcb world result.1 later) world.sent
          result.1 later.sent)
      allowed world := by
  have idle : Told closeCap pcb world.sent pcb world.sent := .refl announced
  cases event with
  | segment packet =>
      unfold perform momentsOf
      simp only
      rw [wp_ite]
      refine ⟨fun waiting => ?_, fun active => ?_⟩
      · simp only [if_pos waiting]
        rw [wp_bind]
        exact wp_weaken
          (tcpTimewaitInput_announced closeCap_near others packet.toPacket
            announced)
          fun _ _ told => told.advertised
      · simp only [if_neg active]
        rw [wp_bind]
        exact wp_weaken
          (tcpInputPcb_advertised others packet.toPacket attached.taken
            announced)
          fun _ _ advertised => advertised
  | slowtmr =>
      unfold perform momentsOf
      rw [wp_bind, wp_modify]
      simp only
      rw [wp_ite]
      refine ⟨fun _ => ?_, fun _ => ?_⟩
      · rw [wp_bind, wp_get]
        unfold slowtmrTimewait
        split
        · exact ⟨announced.ordered, by simp, .one (.refl _)⟩
        · exact idle.advertised
      · rw [wp_bind]
        exact wp_weaken (slowtmrPcb_announced closeCap_near others announced)
          fun _ _ told => told.advertised
  | fasttmr =>
      unfold perform momentsOf
      simp only
      rw [wp_ite]
      refine ⟨fun _ => idle.advertised, fun _ => ?_⟩
      rw [wp_bind]
      exact wp_weaken
        (fasttmrPcb_announced closeCap_near others inUse attached.taken
          announced)
        fun _ _ told => told.advertised
  | pollRead remaining =>
      unfold perform momentsOf
      refine onStream_attached attached (fun absent => ?_)
        fun stream present => ?_
      · simp only [absent]
        refine ⟨announced.ordered, ?_, .none _⟩
        rintro _ ⟨⟩
        exact announced.grown
      · have owner := attached.owner
        rw [present] at owner
        have working : stream.errored = false := owner.streaming.2.errored
        simp only [present, working]
        rw [if_neg Bool.false_ne_true]
        unfold pollReadPcb pollReadOn readStream
        rw [wp_bind, wp_get, wp_bind, wp_ite]
        refine ⟨fun left => ?_, fun empty => ?_⟩
        · rw [if_pos left]
          refine ⟨announced.ordered, ?_, .none _⟩
          rintro _ ⟨⟩
          exact announced.grown
        · rw [if_neg empty]
          exact wp_weaken
            (pollReadLoop_advertised others stream.readRx world.recvs remaining
              [] stream announced.grown)
            fun _ _ advertised => advertised
  | pollWrite buf =>
      unfold perform momentsOf
      refine onStream_attached attached (fun _ => idle.advertised)
        fun stream _ => ?_
      rw [wp_bind]
      exact wp_weaken
        (pollWritePcb_announced closeCap_near others buf stream announced)
        fun _ _ told => told.advertised
  | pollFlush =>
      unfold perform momentsOf
      refine onStream_attached attached (fun _ => idle.advertised)
        fun stream _ => ?_
      rw [wp_bind]
      exact wp_weaken (pollFlushPcb_announced closeCap_near others announced)
        fun _ _ told => told.advertised
  | pollShutdown =>
      unfold perform momentsOf
      refine onStream_attached attached (fun _ => idle.advertised)
        fun stream _ => ?_
      rw [wp_bind]
      exact wp_weaken
        (pollShutdownPcb_announced closeCap_near others stream announced)
        fun _ _ told => told.advertised
  | dropStream =>
      unfold perform momentsOf
      rw [wp_bind]
      have dropped :
          wp
            (onStream (some pcb) .silent useFreed fun stream pcb => do
              let pcb ← dropPcb stream pcb
              pure (pcb, .silent))
            (fun result later =>
              ToldOrGone closeCap pcb world.sent result.1 later.sent)
            allowed world := by
        refine onStream_attached attached (fun _ => idle) fun stream _ => ?_
        rw [wp_bind]
        exact wp_weaken
          (dropPcb_announced closeCap_near others stream announced)
          fun _ _ told => told
      exact wp_weaken dropped fun _ _ told => told.advertised
  | dropListener =>
      unfold perform momentsOf
      rw [wp_bind, wp_modify, wp_pure]
      have forgot : SameWindow pcb { pcb with listener := none } :=
        ⟨rfl, rfl, rfl⟩
      exact (idle.after_same forgot).advertised
  | handleClosepend =>
      unfold perform momentsOf
      simp only
      rw [wp_ite]
      refine ⟨fun _ => idle.advertised, fun _ => ?_⟩
      rw [wp_bind]
      exact wp_weaken (retryClosepend_announced closeCap_near others announced)
        fun _ _ told => told.advertised
  | kill =>
      unfold perform momentsOf
      simp only
      rw [wp_bind]
      exact wp_weaken (killPcb_announced closeCap_near others announced)
        fun _ _ told => told.advertised

end Events

/-! ## Runs -/

/-- `rcv_nxt + rcv_wnd` is at least a window short of half of the sequence
space above the edge that the pcb has announced last and above the edge that
was sent last. -/
def CaughtUp (conn : Conn) : Prop :=
  ∀ pcb,
    conn.pcb = some pcb →
      pcb.lag pcb.rcvAnnRightEdge + tcpWnd < 2 ^ 31 ∧
        ∀ edge ∈ (announcedEdges conn.world.sent).getLast?,
          pcb.lag edge + tcpWnd < 2 ^ 31

theorem Announced.close
    {pcb : TcpPcb}
    {sent : List Packet}
    (announced : Announced grownCap pcb sent)
    (stored : pcb.lag pcb.rcvAnnRightEdge + tcpWnd < 2 ^ 31)
    (last :
      ∀ edge ∈ (announcedEdges sent).getLast?,
        pcb.lag edge + tcpWnd < 2 ^ 31) :
    Announced closeCap pcb sent := by
  have near {lag : Nat} (below : lag + tcpWnd < 2 ^ 31) :
      lag ≤ closeCap pcb.rcvWnd := by
    show lag ≤ 2 ^ 31 - 1 - tcpWnd
    omega
  exact ⟨⟨announced.wnd, near stored, announced.ordered,
    fun edge isLast => ⟨(announced.last edge isLast).1,
      near (last edge isLast)⟩⟩, announced.ann, announced.covers⟩

/-- The edges that a connection announces are ordered, and its next window is
announced between the last one and the end of the receive window. -/
structure Conn.Advertises (conn : Conn) : Prop where
  ordered : EdgesOrdered conn.world.sent
  announced :
    ∀ pcb, conn.pcb = some pcb → Announced grownCap pcb conn.world.sent

/-- The first window that a pcb announces is all of its receive window. -/
theorem listenPcb_announced
    {pcb : TcpPcb}
    (wnd : pcb.rcvWnd = tcpWnd)
    (ann : pcb.rcvAnnWnd = tcpWnd)
    (edge : pcb.rcvAnnRightEdge = pcb.rcvNxt) :
    Announced grownCap pcb [] := by
  have lag : pcb.lag pcb.rcvAnnRightEdge = tcpWnd := by
    unfold TcpPcb.lag TcpPcb.rightEdge SerialNumber.distance
    rw [edge, wnd]
    unfold tcpWnd tcpMss
    bv_omega
  have slack : pcb.lag pcb.rcvAnnRightEdge ≤ grownCap pcb.rcvWnd := by
    rw [lag, wnd]
    decide
  refine ⟨⟨wnd.le, slack, .nil, by simp [announcedEdges]⟩, ?_, ?_⟩
  · rw [ann, wnd]
  · rw [ann, wnd]
    exact Nat.le_add_left _ _

theorem advertises_initial
    {conn : Conn}
    (initial : connMachine.initial conn) :
    conn.Advertises := by
  obtain ⟨packet, listener, iss, world, -, -, -, sent, -, opened, current, -⟩ :=
    initial
  have opens :
      wp
        (tcpListenInputSyn packet.toPacket (.listener listener) listener iss)
        (fun result later =>
          ∀ pcb,
            result = some pcb →
              Announced grownCap pcb later.sent)
        (fun _ => True) world := by
    unfold tcpListenInputSyn
    rw [wp_bind, wp_get]
    simp only
    generalize equal :
      ({ tcpParseopt packet.options
            (listenPcb packet.toPacket (.listener listener) listener iss
              world.tcpTicks) with
          sndWnd := packet.wnd.toNat
          sndWndMax := packet.wnd.toNat
          mss := _ } : TcpPcb) = fresh
    have first : Announced grownCap fresh world.sent := by
      rw [sent, ← equal]
      exact listenPcb_announced rfl rfl rfl
    rw [wp_bind]
    refine wp_weaken
      (wp_and
        (tcpEnqueueFlags_spec (fun _ _ => trivial) fresh
          { syn := true, ack := true })
        (wp_silent (fun _ _ => trivial) (tcpEnqueueFlags_silent _ _))) ?_
    rintro ⟨err, queued⟩ middle ⟨⟨-, refused, done⟩, same⟩
    rw [wp_ite]
    refine ⟨fun _ => ?_, fun ok => ?_⟩
    · rw [wp_bind]
      exact wp_of_outcomes (fun _ _ _ => by simp) (fun _ _ => trivial)
    · have window : SameWindow fresh queued := by
        rw [show queued = _ from done (not_not.mp ok)]
        exact ⟨rfl, rfl, rfl⟩
      rw [wp_bind]
      refine wp_weaken
        (tcpOutput_announced grownCap_near (fun _ _ => trivial) false
          (same ▸ first.congr window)) ?_
      rintro ⟨_, after⟩ later told pcb ⟨⟩
      exact told.announced
  have known := wp_returned opens opened
  obtain ⟨pcb, isPcb⟩ := Option.isSome_iff_exists.mp current
  exact ⟨(known pcb isPcb).ordered, known⟩

/-- One step of a connection that has caught up. -/
theorem step_advertised
    {conn : Conn}
    (reached : connMachine.Reached conn)
    (advertises : conn.Advertises)
    (caughtUp : CaughtUp conn)
    (label : Label) :
    match conn.step label with
    | .ok after =>
        after.Advertises ∧
          Explained (conn.moments label after) conn.world.sent
            after.world.sent
    | .error fault => fault ≠ .newRcvAnnWnd := by
  have performed :
      wp (perform conn.pcb label.event)
        (fun result later =>
          EdgesOrdered later.sent ∧
            (∀ pcb,
              result.1 = some pcb → Announced grownCap pcb later.sent) ∧
            Explained
              (match conn.pcb with
              | none => []
              | some pcb =>
                  momentsOf label.event pcb (label.enter conn.world) result.1
                    later)
              conn.world.sent later.sent)
        (fun fault => fault ≠ .newRcvAnnWnd) (label.enter conn.world) := by
    cases current : conn.pcb with
    | none =>
        refine wp_mono
          (perform_none label.event conn.history.sendLog _) ?_ ?_
        · rintro ⟨pcb, outcome⟩ later ⟨rfl, sent, -⟩
          rw [sent]
          exact ⟨advertises.ordered, by simp, .none _⟩
        · rintro fault rfl
          decide
    | some pcb =>
        obtain ⟨attached, inUse⟩ := attached_of_reached reached current
        obtain ⟨stored, last⟩ := caughtUp pcb current
        have announced := (advertises.announced pcb current).close stored last
        have entered :
            Attached (label.enter conn.world).pcbAddr pcb
              (label.enter conn.world).stream := attached
        exact wp_weaken
          (perform_advertised (fun _ other => other) label.event inUse entered
            announced)
          fun _ _ advertised =>
            ⟨advertised.ordered, advertised.announced, advertised.explained⟩
  unfold wp at performed
  unfold Conn.step
  split at performed
  · rename_i result later outcome
    obtain ⟨pcb, outcome⟩ := result
    simp only [*]
    exact ⟨⟨performed.1, performed.2.1⟩, performed.2.2⟩
  · simp only [*]
    exact performed

theorem advertises_reached
    {conn : Conn}
    (reached : connMachine.ReachedUnder (fun before _ => CaughtUp before) conn) :
    conn.Advertises ∧ connMachine.Reached conn := by
  induction reached with
  | start initial =>
      exact ⟨advertises_initial initial, .start initial⟩
  | next _ caughtUp taken inductionHypothesis =>
      rename_i before after label _
      obtain ⟨advertises, reached⟩ := inductionHypothesis
      have stepped := step_advertised reached advertises caughtUp label
      simp only [show before.step label = .ok after from taken] at stepped
      exact ⟨stepped.1, .next reached trivial taken⟩

/-- While a connection keeps its announcements within half of the sequence
space of the receive window, the right edges it announces never move to the
left, none exceeds `rcv_nxt + rcv_wnd` when it goes out, and the window to be
announced fits its 16 bits. -/
theorem advertised_window_kept
    {conn : Conn}
    (reached : connMachine.ReachedUnder (fun before _ => CaughtUp before) conn) :
    EdgesOrdered conn.world.sent ∧
      (CaughtUp conn →
        ∀ label,
          conn.step label ≠ .error .newRcvAnnWnd ∧
            ∀ after,
              conn.step label = .ok after →
                after.world.sent =
                    conn.world.sent ++
                      (conn.moments label after).flatMap Moment.packets ∧
                  ∀ moment ∈ conn.moments label after,
                    ∀ packet ∈ moment.packets,
                      packet.flags.rst = false →
                        SerialNumber.leq packet.rightEdge moment.edge =
                          true) := by
  obtain ⟨advertises, anyhow⟩ := advertises_reached reached
  refine ⟨advertises.ordered, fun caughtUp label => ?_⟩
  have stepped := step_advertised anyhow advertises caughtUp label
  refine ⟨fun stopped => ?_, fun after taken => ?_⟩
  · simp only [stopped] at stepped
    exact stepped rfl
  · simp only [taken] at stepped
    obtain ⟨-, explained⟩ := stepped
    refine ⟨explained.sent, fun moment member packet isIn plain => ?_⟩
    rcases explained.inside moment member packet isIn with reset | inside
    · rw [plain] at reset
      cases reset
    · exact inside

/-- `CaughtUp`, checked. -/
def checkCaughtUp (conn : Conn) : Bool :=
  conn.pcb.all fun pcb =>
    decide (pcb.lag pcb.rcvAnnRightEdge + tcpWnd < 2 ^ 31) &&
      (announcedEdges conn.world.sent).getLast?.all fun edge =>
        decide (pcb.lag edge + tcpWnd < 2 ^ 31)

theorem caughtUp_of_check
    {conn : Conn}
    (checked : checkCaughtUp conn = true) :
    CaughtUp conn := by
  intro pcb current
  unfold checkCaughtUp at checked
  rw [current] at checked
  simpa [Option.all_eq_true] using checked

/-- The ACK that completes the handshake of the example connection. -/
def openingAck : Label where
  event := .segment (exampleSegment { ack := true } 100 1 1000 [] [])

/-- Three bytes arrive, are read and are acknowledged. -/
def threeBytes : List Label :=
  [openingAck,
    { event :=
        .segment (exampleSegment { ack := true } 100 1 1000 [1, 2, 3] []) },
    { event := .pollRead 8 }, { event := .fasttmr }]

/-- The SYN|ACK and one acknowledgement have announced the same edge. -/
theorem advertised_window_kept_acked :
    ∃ conn,
      connMachine.ReachedUnder (fun before _ => CaughtUp before) conn ∧
        (announcedEdges conn.world.sent).length = 2 ∧
        EdgesOrdered conn.world.sent ∧
        ∀ label, conn.step label ≠ .error .newRcvAnnWnd := by
  obtain ⟨conn, reached, holds⟩ :=
    exists_reachedUnder (fun before _ => CaughtUp before)
      (fun before _ => checkCaughtUp before)
      (fun _ _ checked => caughtUp_of_check checked)
      (exampleSyn 1000 []) 0 0 exampleWorld threeBytes
      (fun conn =>
        decide ((announcedEdges conn.world.sent).length = 2) &&
          checkCaughtUp conn)
      rfl rfl rfl (by decide +kernel)
  rw [Bool.and_eq_true, decide_eq_true_iff] at holds
  have caughtUp := caughtUp_of_check holds.2
  obtain ⟨ordered, steps⟩ := advertised_window_kept reached
  exact ⟨conn, reached, holds.1, ordered,
    fun label => (steps caughtUp label).1⟩

/-- A segment without SYN, a read or a timer. -/
def Label.isPlain (label : Label) : Bool :=
  match label.event with
  | .segment packet => !packet.flags.syn
  | .pollRead _ => true
  | .slowtmr => true
  | .fasttmr => true
  | _ => false

theorem exists_stalls
    {rounds : Nat}
    (few : rounds ≤ 65537) :
    ∃ conn,
      connMachine.ReachedUnder (fun _ label => label.isPlain = true) conn ∧
        conn.Stalls rounds := by
  induction rounds with
  | zero =>
      obtain ⟨conn, reached, holds⟩ :=
        exists_reachedUnder (fun _ label => label.isPlain = true)
          (fun _ label => label.isPlain) (fun _ _ checked => checked)
          (exampleSyn 1000 []) 0 0 exampleWorld [openingAck]
          (fun conn =>
            conn.pcb.any fun pcb =>
              conn.world.stream.any fun stream =>
                decide (Stalled 0 tcpWnd [] pcb stream))
          rfl rfl rfl (by decide +kernel)
      obtain ⟨pcb, isPcb, known⟩ := (Option.any_eq_true _ _).mp holds
      obtain ⟨stream, isStream, stalled⟩ := (Option.any_eq_true _ _).mp known
      exact ⟨conn, reached, pcb, stream, isPcb, isStream,
        of_decide_eq_true stalled⟩
  | succ rounds inductionHypothesis =>
      obtain ⟨conn, reached, stalls⟩ := inductionHypothesis (by omega)
      obtain ⟨seqno, middle, after, floods, drains, next⟩ :=
        stalls.round (by omega)
      exact ⟨after, .next (.next reached rfl floods) rfl drains, next⟩

/-- A peer that fills window after window of a connection without memory for
acknowledgements makes the assertion on the announced window fail. -/
theorem announced_window_overflows :
    ∃ conn label,
      connMachine.ReachedUnder (fun _ label => label.isPlain = true) conn ∧
        label.isPlain = true ∧ conn.step label = .error .newRcvAnnWnd := by
  obtain ⟨conn, reached, stalls⟩ := exists_stalls (Nat.le_refl 65537)
  obtain ⟨seqno, stops⟩ := stalls.overflow
  exact ⟨conn, floodLabel seqno, reached, rfl, stops⟩

end NetstackLwip

import NetstackLwip.SequenceTests
import NetstackLwip.WindowCalls

namespace NetstackLwip

/-!
# A peer that floods a connection without memory

Segments of 2^15 bytes, each read at once, while no acknowledgement can be
allocated: the window slides on, and the edge that was announced stays behind.
-/

open FaultState FaultMachine

/-- The connection has taken and read `rounds` floods since it last announced
its window; `wnd` is left of the window and `chunks` wait to be read. -/
structure Stalled
    (rounds wnd : Nat)
    (chunks : List Bytes)
    (pcb : TcpPcb)
    (stream : TcpStream) : Prop where
  established : pcb.state = .established
  arg : pcb.callbackArg = .stream 0
  recv : pcb.recv = .tcpRecvCb
  rxopen : pcb.flags.rxclosed = false
  taken : pcb.refusedData = none
  ordered : pcb.ooseq = []
  idle : pcb.unsent = []
  mss : 0 < pcb.mss ∧ pcb.mss ≤ tcpMss
  wnd : pcb.rcvWnd = wnd
  lag : pcb.lag pcb.rcvAnnRightEdge = rounds * 2 ^ 15
  working : stream.errored = false
  readTx : stream.readTx = true
  drained : stream.writeBuf = []
  chunks : stream.readRx = chunks

instance
    (rounds wnd : Nat)
    (chunks : List Bytes)
    (pcb : TcpPcb)
    (stream : TcpStream) :
    Decidable (Stalled rounds wnd chunks pcb stream) :=
  decidable_of_iff
    (pcb.state = .established ∧ pcb.callbackArg = .stream 0 ∧
      pcb.recv = .tcpRecvCb ∧ pcb.flags.rxclosed = false ∧
      pcb.refusedData = none ∧ pcb.ooseq = [] ∧ pcb.unsent = [] ∧
      (0 < pcb.mss ∧ pcb.mss ≤ tcpMss) ∧ pcb.rcvWnd = wnd ∧
      pcb.lag pcb.rcvAnnRightEdge = rounds * 2 ^ 15 ∧
      stream.errored = false ∧ stream.readTx = true ∧
      stream.writeBuf = [] ∧ stream.readRx = chunks)
    (by
      constructor
      · rintro ⟨a, b, c, d, e, f, g, h, i, j, k, l, m, n⟩
        exact ⟨a, b, c, d, e, f, g, h, i, j, k, l, m, n⟩
      · rintro ⟨a, b, c, d, e, f, g, h, i, j, k, l, m, n⟩
        exact ⟨a, b, c, d, e, f, g, h, i, j, k, l, m, n⟩)

/-- The bytes of one flood. -/
@[irreducible]
def floodBytes : Bytes :=
  List.replicate (2 ^ 15) 0

/-- A segment with them, without ACK. -/
def floodSegment (seqno : SeqNo) : InPacket where
  srcIp := .v4 0x0a000001
  destIp := .v4 0x01010101
  src := 1000
  dest := 80
  seqno := seqno
  ackno := 0
  flags := {}
  wnd := 0
  options := []
  payload := floodBytes
  payload_le := by
    rw [floodBytes, List.length_replicate]
    decide
  options_le := Nat.zero_le _

variable
  {allowed : Fault → Prop}
  {world : World}
  {pcb : TcpPcb}
  {stream : TcpStream}
  {rounds : Nat}

/-- Up to half of the sequence space, and just beyond it for an open window,
the announced window stays within its 16 bits. -/
theorem tcpUpdateRcvAnnWnd_fits
    (mss : 0 < pcb.mss ∧ pcb.mss ≤ tcpMss)
    (wnd : pcb.rcvWnd ≤ tcpWnd)
    (close :
      pcb.lag pcb.rcvAnnRightEdge ≤ 2 ^ 31 ∨
        pcb.rcvWnd = tcpWnd ∧
          pcb.lag pcb.rcvAnnRightEdge = 65537 * 2 ^ 15) :
    wp (tcpUpdateRcvAnnWnd pcb)
      (fun result later =>
        later = world ∧
          ∃ wnd, result.2 = { pcb with rcvAnnWnd := wnd })
      allowed world := by
  unfold tcpUpdateRcvAnnWnd
  rw [wp_ite]
  refine ⟨fun _ => ⟨rfl, _, rfl⟩, fun behind => ?_⟩
  rw [wp_ite]
  refine ⟨fun _ => ⟨rfl, _, rfl⟩, fun ahead => ?_⟩
  rw [wp_bind, wp_ensure]
  refine ⟨fun _ => ⟨rfl, _, rfl⟩, fun wide => ?_⟩
  exfalso
  rw [decide_eq_false_iff_not] at wide
  apply wide
  have step : 0 < min (tcpWnd / 2) pcb.mss ∧
      min (tcpWnd / 2) pcb.mss ≤ 1460 :=
    ⟨Nat.lt_min.mpr ⟨by decide, mss.1⟩, (Nat.min_le_right _ _).trans mss.2⟩
  generalize min (tcpWnd / 2) pcb.mss = size at *
  rw [SerialNumber.geq_iff] at behind
  rw [SerialNumber.gt_iff] at ahead
  have top : pcb.rcvWnd ≤ 46720 := wnd
  rcases close with near | ⟨full, far⟩
  · unfold TcpPcb.lag TcpPcb.rightEdge SerialNumber.distance at *
    bv_omega
  · have all : pcb.rcvWnd = 46720 := full
    unfold TcpPcb.lag TcpPcb.rightEdge SerialNumber.distance at *
    bv_omega

/-- The edge lags so far behind a window with room for one flood less that
its distance no longer fits. -/
theorem tcpUpdateRcvAnnWnd_overflows
    (mss : pcb.mss ≤ tcpMss)
    (wnd : pcb.rcvWnd = tcpWnd - 2 ^ 15)
    (far : pcb.lag pcb.rcvAnnRightEdge = 65537 * 2 ^ 15) :
    wp (tcpUpdateRcvAnnWnd pcb)
      (fun _ _ => False) (fun fault => fault = .newRcvAnnWnd) world := by
  have step : min (tcpWnd / 2) pcb.mss ≤ 1460 :=
    (Nat.min_le_right _ _).trans mss
  unfold tcpUpdateRcvAnnWnd
  generalize min (tcpWnd / 2) pcb.mss = size at *
  have left : pcb.rcvWnd = 13952 := wnd
  rw [wp_ite]
  refine ⟨fun ahead => ?_, fun _ => ?_⟩
  · rw [SerialNumber.geq_iff] at ahead
    unfold TcpPcb.lag TcpPcb.rightEdge SerialNumber.distance at *
    bv_omega
  rw [wp_ite]
  refine ⟨fun passed => ?_, fun _ => ?_⟩
  · rw [SerialNumber.gt_iff] at passed
    unfold TcpPcb.lag TcpPcb.rightEdge SerialNumber.distance at *
    bv_omega
  rw [wp_bind, wp_ensure]
  refine ⟨fun fits => ?_, fun _ => rfl⟩
  rw [decide_eq_true_eq] at fits
  unfold TcpPcb.lag TcpPcb.rightEdge SerialNumber.distance at *
  bv_omega

/-! ## The segment -/

/-- The segment as `tcp_input` sets it up. -/
abbrev floodSeg (seqno : SeqNo) : TcpSeg :=
  inputSeg (floodSegment seqno).toPacket

theorem floodBytes_length : floodBytes.length = 2 ^ 15 := by
  rw [floodBytes, List.length_replicate]

theorem floodSeg_tcplen (seqno : SeqNo) :
    (floodSeg seqno).tcplen = 2 ^ 15 := by
  have len : (floodSeg seqno).len = 2 ^ 15 := floodBytes_length
  unfold TcpSeg.tcplen
  rw [len]
  rfl

/-- The receive variables past one flood. -/
@[irreducible]
def advanced (pcb : TcpPcb) : TcpPcb :=
  { pcb with
    ooseq := []
    rcvNxt := (floodSeg pcb.rcvNxt).endSeq
    rcvWnd := tcpWnd - 2 ^ 15 }

theorem advanced_lag
    (full : pcb.rcvWnd = tcpWnd)
    (edge : SeqNo) :
    (advanced pcb).lag edge = pcb.lag edge := by
  have same : (advanced pcb).rightEdge = pcb.rightEdge := by
    unfold TcpPcb.rightEdge advanced TcpSeg.endSeq
    rw [floodSeg_tcplen, full]
    show
      pcb.rcvNxt + BitVec.ofNat 32 (2 ^ 15) +
          BitVec.ofNat 32 (tcpWnd - 2 ^ 15) =
        pcb.rcvNxt + BitVec.ofNat 32 tcpWnd
    unfold tcpWnd tcpMss
    bv_omega
  unfold TcpPcb.lag
  rw [same]

/-- In sequence and inside the open window, the segment is taken whole. -/
theorem tcpReceiveData_flood
    (stalled : Stalled rounds tcpWnd [] pcb stream) :
    tcpReceiveData (floodSeg pcb.rcvNxt) pcb =
      tcpUpdateRcvAnnWnd (advanced pcb) >>= fun updated =>
        pure ({ recvData := some [floodBytes] },
          tcpAck { updated.2 with ooseq := [] }) := by
  have tcplen := floodSeg_tcplen pcb.rcvNxt
  have starts : (floodSeg pcb.rcvNxt).seqno = pcb.rcvNxt := rfl
  have trims :
      frontTrims (floodSeg pcb.rcvNxt).seqno (floodSeg pcb.rcvNxt).tcplen
        pcb.rcvNxt = false := by
    rw [← Bool.not_eq_true, tcplen, starts,
      frontTrims_iff _ _ _ (by decide) (by decide), BitVec.sub_self]
    decide
  have early :
      SerialNumber.lt (floodSeg pcb.rcvNxt).seqno pcb.rcvNxt = false := by
    rw [starts, ← Bool.not_eq_true, SerialNumber.lt_iff]
    unfold SerialNumber.distance
    rw [BitVec.sub_self]
    decide
  have inside :
      inWindow (floodSeg pcb.rcvNxt).seqno pcb.rcvNxt pcb.rcvWnd = true := by
    rw [starts, stalled.wnd, inWindow_iff _ _ _ (by decide), BitVec.sub_self]
    decide
  have fitsWindow :
      0 < (floodSeg pcb.rcvNxt).tcplen ∧
        pcb.state.code < TcpState.closeWait.code := by
    rw [tcplen, stalled.established]
    decide
  have fits : (floodSeg pcb.rcvNxt).tcplen ≤ pcb.rcvWnd := by
    rw [tcplen, stalled.wnd]
    decide
  have taken : RecvOut.take {} (floodSeg pcb.rcvNxt) =
      { recvData := some [floodBytes] } := by
    have positive : 0 < (floodSeg pcb.rcvNxt).p.totLen := by
      show 0 < [floodBytes].flatten.length
      rw [List.flatten_singleton, floodBytes_length]
      decide
    unfold RecvOut.take
    rw [if_pos positive]
    rfl
  have inOrder :
      receiveInOrder (floodSeg pcb.rcvNxt) pcb =
        tcpUpdateRcvAnnWnd (advanced pcb) >>= fun updated =>
          pure ({ recvData := some [floodBytes] },
            tcpAck { updated.2 with ooseq := [] }) := by
    have merged :
        mergeOoseq (floodSeg pcb.rcvNxt) pcb.ooseq =
          pure (floodSeg pcb.rcvNxt, []) := by
      rw [stalled.ordered]
      rfl
    unfold receiveInOrder trimToWnd
    rw [if_neg (Nat.not_lt.mpr fits), pure_bind, merged, pure_bind]
    have left : pcb.rcvWnd - (floodSeg pcb.rcvNxt).tcplen = tcpWnd - 2 ^ 15 := by
      rw [stalled.wnd, tcplen]
    unfold advanceRcv ensure advanced
    simp only [fits, decide_true, if_true, pure_bind, bind_assoc, left, taken,
      drainOoseq]
  unfold tcpReceiveData
  rw [if_pos fitsWindow]
  simp only [trims, early, Bool.not_false, Bool.and_false,
    Bool.false_eq_true, if_false, trimStart, pure_bind, inside, if_true]
  rw [if_pos starts.symm]
  exact inOrder

theorem Stalled.congr
    {wnd : Nat}
    {chunks : List Bytes}
    {after : TcpPcb}
    (stalled : Stalled rounds wnd chunks pcb stream)
    (app : after.toAppVars = pcb.toAppVars)
    (rcv : after.toRcvVars = pcb.toRcvVars)
    (edge : after.rcvAnnRightEdge = pcb.rcvAnnRightEdge)
    (mss : after.mss = pcb.mss)
    (unsent : after.unsent = pcb.unsent)
    (state : after.state = pcb.state)
    (rxclosed : after.flags.rxclosed = pcb.flags.rxclosed) :
    Stalled rounds wnd chunks after stream where
  established := state.trans stalled.established
  arg := by
    rw [app]
    exact stalled.arg
  recv := by
    rw [app]
    exact stalled.recv
  rxopen := rxclosed.trans stalled.rxopen
  taken := by
    rw [rcv]
    exact stalled.taken
  ordered := by
    rw [rcv]
    exact stalled.ordered
  idle := unsent.trans stalled.idle
  mss := mss ▸ stalled.mss
  wnd := by
    rw [rcv]
    exact stalled.wnd
  lag := by
    rw [edge]
    unfold TcpPcb.lag TcpPcb.rightEdge
    rw [rcv]
    exact stalled.lag
  working := stalled.working
  readTx := stalled.readTx
  drained := stalled.drained
  chunks := stalled.chunks

/-- `tcp_receive` takes the segment as far as the announced window lets it. -/
theorem tcpReceive_flood
    {post : InResult × TcpPcb → World → Prop}
    {seqno : SeqNo}
    (stalled : Stalled rounds tcpWnd [] pcb stream)
    (starts : pcb.rcvNxt = seqno)
    (updates :
      wp (tcpUpdateRcvAnnWnd (advanced pcb))
        (fun updated later =>
          post
            ({ recv := { recvData := some [floodBytes] } },
              tcpAck { updated.2 with ooseq := [] })
            later)
        allowed world) :
    wp
      (tcpReceive (floodSegment seqno).toPacket (floodSeg seqno) pcb)
      post allowed world := by
  have noAck : ¬(floodSegment seqno).flags.ack = true :=
    Bool.false_ne_true
  have received := tcpReceiveData_flood stalled
  rw [starts] at received
  unfold tcpReceive
  rw [wp_bind, wp_ensure]
  refine ⟨fun _ => ?_, fun wrong => ?_⟩
  · unfold tcpReceiveAck
    rw [wp_bind, if_neg noAck, wp_pure]
    simp only
    rw [wp_bind, received, wp_bind]
    exact updates
  · rw [stalled.established] at wrong
    exact absurd wrong (by decide)

/-- `tcp_process` hands what it takes to `tcp_input`. -/
theorem tcpProcess_flood
    {post : Option (InResult × TcpPcb) → World → Prop}
    (stalled : Stalled rounds tcpWnd [] pcb stream)
    (updates :
      ∀ noted : TcpPcb,
        Stalled rounds tcpWnd [] noted stream →
          wp (tcpUpdateRcvAnnWnd (advanced noted))
            (fun updated later =>
              post
                (some ({ recv := { recvData := some [floodBytes] } },
                  tcpAck { updated.2 with ooseq := [] }))
                later)
            allowed world) :
    wp
      (tcpProcess (floodSegment pcb.rcvNxt).toPacket (floodSeg pcb.rcvNxt)
        pcb)
      post allowed world := by
  have noRst : ¬(floodSegment pcb.rcvNxt).flags.rst = true :=
    Bool.false_ne_true
  have noSyn : ¬(floodSegment pcb.rcvNxt).flags.syn = true :=
    Bool.false_ne_true
  generalize equal :
    noteActivity (floodSegment pcb.rcvNxt).toPacket world.tcpTicks pcb = noted
  have known : Stalled rounds tcpWnd [] noted stream := by
    rw [← equal]
    exact stalled.congr rfl rfl rfl rfl rfl rfl rfl
  have starts : noted.rcvNxt = pcb.rcvNxt := by
    rw [← equal]
    rfl
  unfold tcpProcess
  rw [if_neg noRst, if_neg fun both => noSyn both.1, wp_bind, wp_get]
  simp only [equal, known.established]
  rw [wp_bind]
  unfold processSynchronized
  simp only [known.established]
  rw [wp_bind]
  refine tcpReceive_flood known starts ?_
  refine wp_weaken (updates noted known) fun updated later holds => ?_
  exact holds

/-- Without memory for an acknowledgement nothing goes out. -/
theorem tcpOutput_starved
    (idle : pcb.unsent = [])
    (starved : world.allocs = [false]) :
    wp (tcpOutput false pcb)
      (fun result later =>
        later.stream = world.stream ∧
          ∃ flags : PcbFlags,
            flags.rxclosed = pcb.flags.rxclosed ∧
              result.2 = { pcb with flags := flags })
      (fun _ => False) world := by
  unfold tcpOutput
  rw [if_neg Bool.false_ne_true]
  simp only [idle]
  rw [wp_ite]
  refine ⟨fun _ => ?_, fun _ =>
    ⟨rfl, { pcb.flags with naglememerr := false }, rfl, rfl⟩⟩
  unfold tcpSendEmptyAck allocate
  rw [wp_bind, wp_modifyGet, starved]
  simp only
  rw [if_neg Bool.false_ne_true]
  exact ⟨rfl, { pcb.flags with ackDelay := true, ackNow := true }, rfl, rfl⟩

theorem advanced_stalled
    (stalled : Stalled rounds tcpWnd [] pcb stream) :
    Stalled rounds (tcpWnd - 2 ^ 15) [] (advanced pcb) stream where
  established := by
    unfold advanced
    exact stalled.established
  arg := by
    unfold advanced
    exact stalled.arg
  recv := by
    unfold advanced
    exact stalled.recv
  rxopen := by
    unfold advanced
    exact stalled.rxopen
  taken := by
    unfold advanced
    exact stalled.taken
  ordered := by
    unfold advanced
    rfl
  idle := by
    unfold advanced
    exact stalled.idle
  mss := by
    unfold advanced
    exact stalled.mss
  wnd := by
    unfold advanced
    rfl
  lag := by
    have edge : (advanced pcb).rcvAnnRightEdge = pcb.rcvAnnRightEdge := by
      unfold advanced
      rfl
    rw [edge, advanced_lag stalled.wnd]
    exact stalled.lag
  working := stalled.working
  readTx := stalled.readTx
  drained := stalled.drained
  chunks := stalled.chunks

/-- The stream of the flooded connection once the bytes have arrived. -/
def floodedStream (stream : TcpStream) : TcpStream :=
  { stream with readRx := [floodBytes] }

/-- The application is given the bytes, and no acknowledgement goes out. -/
theorem finishInput_flood
    {wnd : Nat}
    (stalled : Stalled rounds wnd [] pcb stream)
    (held : world.stream = some stream)
    (starved : world.allocs = [false]) :
    wp (finishInput { recv := { recvData := some [floodBytes] } } pcb)
      (fun result later =>
        ∃ after,
          result = some after ∧
            later.stream = some (floodedStream stream) ∧
            Stalled rounds wnd [floodBytes] after (floodedStream stream))
      (fun _ => False) world := by
  have rxOpen : ¬(Option.isSome (some [floodBytes]) &&
      pcb.flags.rxclosed) = true := by
    rw [stalled.rxopen]
    decide
  have data : Pbuf.data [floodBytes] = floodBytes :=
    List.flatten_singleton
  have bytes : ¬(Pbuf.data [floodBytes]).isEmpty = true := by
    rw [data, List.isEmpty_iff_length_eq_zero, floodBytes_length]
    decide
  have pushed :
      TcpStream.send (Pbuf.data [floodBytes]) stream =
        floodedStream stream := by
    unfold TcpStream.send floodedStream
    rw [if_pos stalled.readTx, stalled.chunks, data]
    rfl
  unfold finishInput reportSent
  rw [if_neg Bool.false_ne_true, wp_bind, if_neg (Nat.lt_irrefl 0), wp_pure,
    if_neg Bool.false_ne_true, if_neg rxOpen, wp_bind]
  unfold deliverData tcpEventRecv tcpRecvCb withContext
  simp only [stalled.taken, stalled.recv, stalled.arg]
  rw [wp_bind, wp_ensure]
  refine ⟨fun _ => ?_, fun wrong => absurd wrong (by decide)⟩
  have named : ¬CallbackArg.stream 0 = CallbackArg.null := by
    decide
  rw [wp_bind, wp_bind, if_neg named, wp_bind, wp_bind, wp_get]
  simp only [held]
  rw [wp_set, wp_pure, wp_pure, if_pos rfl, wp_pure, if_neg bytes, pushed,
    wp_bind]
  unfold deliverFin
  rw [if_neg Bool.false_ne_true, wp_pure, wp_bind]
  refine wp_weaken (tcpOutput_starved stalled.idle starved) ?_
  rintro ⟨_, after⟩ later ⟨sameStream, flags, rxclosed, same⟩
  rw [wp_pure]
  refine ⟨after, rfl, sameStream, ?_⟩
  have kept : Stalled rounds wnd [] after stream := by
    rw [show after = _ from same]
    exact stalled.congr rfl rfl rfl rfl rfl rfl rxclosed
  exact { kept with chunks := rfl }

theorem tcpInputPcb_flood
    (stalled : Stalled rounds tcpWnd [] pcb stream)
    (few : rounds ≤ 65536)
    (held : world.stream = some stream)
    (starved : world.allocs = [false]) :
    wp (tcpInputPcb (floodSegment pcb.rcvNxt).toPacket pcb)
      (fun result later =>
        ∃ after,
          result = some after ∧
            later.stream = some (floodedStream stream) ∧
            Stalled rounds (tcpWnd - 2 ^ 15) [floodBytes] after
              (floodedStream stream))
      (fun _ => False) world := by
  unfold tcpInputPcb
  simp only
  rw [wp_bind, tcpProcessRefusedData_none _ _ stalled.taken, wp_pure]
  simp only
  rw [wp_ite]
  refine ⟨fun refused => ?_, fun _ => ?_⟩
  · simp [stalled.taken] at refused
  rw [wp_bind]
  refine tcpProcess_flood stalled fun noted known => ?_
  have next := advanced_stalled known
  have small : tcpWnd - 2 ^ 15 ≤ tcpWnd := Nat.sub_le _ _
  refine wp_weaken
    (tcpUpdateRcvAnnWnd_fits next.mss (next.wnd ▸ small)
      (.inl ?_)) ?_
  · rw [next.lag]
    omega
  rintro ⟨_, updated⟩ later ⟨rfl, wnd, same⟩
  have acked :
      Stalled rounds (tcpWnd - 2 ^ 15) [] (tcpAck { updated with ooseq := [] })
        stream := by
    have shown : Stalled rounds (tcpWnd - 2 ^ 15) [] updated stream := by
      rw [show updated = _ from same]
      exact next.congr rfl rfl rfl rfl rfl rfl rfl
    have emptied :
        Stalled rounds (tcpWnd - 2 ^ 15) [] { updated with ooseq := [] }
          stream :=
      { shown with ordered := rfl }
    unfold tcpAck
    split
    · exact emptied.congr rfl rfl rfl rfl rfl rfl rfl
    · exact emptied.congr rfl rfl rfl rfl rfl rfl rfl
  exact finishInput_flood acked held starved

/-- The announced window of the next segment no longer fits. -/
theorem tcpInputPcb_overflow
    (stalled : Stalled 65537 tcpWnd [] pcb stream) :
    wp (tcpInputPcb (floodSegment pcb.rcvNxt).toPacket pcb)
      (fun _ _ => False) (fun fault => fault = .newRcvAnnWnd) world := by
  unfold tcpInputPcb
  simp only
  rw [wp_bind, tcpProcessRefusedData_none _ _ stalled.taken, wp_pure]
  simp only
  rw [wp_ite]
  refine ⟨fun refused => ?_, fun _ => ?_⟩
  · simp [stalled.taken] at refused
  rw [wp_bind]
  refine tcpProcess_flood stalled fun noted known => ?_
  have next := advanced_stalled known
  exact wp_weaken (tcpUpdateRcvAnnWnd_overflows next.mss.2 next.wnd next.lag)
    fun _ _ impossible => impossible.elim

/-! ## The read -/

/-- A read with room for the flood takes all of it. -/
theorem pollReadPcb_opened
    {wnd next : Nat}
    (stalled : Stalled rounds (tcpWnd - 2 ^ 15) [floodBytes] pcb stream)
    (opened :
      wp (tcpRecved false pcb (floodBytes.length % 65536))
        (fun after _ => Stalled next wnd [floodBytes] after stream)
        (fun _ => False) world) :
    wp (pollReadPcb [] (2 ^ 15) stream pcb)
      (fun result _ =>
        result.1 = .ready floodBytes ∧
          Stalled next wnd [] result.2.2 result.2.1)
      (fun _ => False) world := by
  have nonempty : ¬floodBytes.isEmpty = true := by
    rw [List.isEmpty_iff_length_eq_zero, floodBytes_length]
    decide
  have all : min (2 ^ 15) floodBytes.length = floodBytes.length := by
    rw [floodBytes_length]
    decide
  unfold pollReadPcb pollReadOn
  rw [stalled.drained, stalled.chunks, if_neg (by decide)]
  unfold pollReadLoop
  rw [if_neg (by decide), if_neg nonempty, wp_bind]
  refine wp_weaken opened fun after later kept => ?_
  simp only
  rw [all, if_neg (Nat.lt_irrefl _), List.take_length, List.nil_append]
  unfold pollReadLoop
  rw [wp_pure]
  refine ⟨?_, { kept with chunks := rfl }⟩
  rw [Bool.not_eq_true] at nonempty
  simp [stalled.readTx, readPending, nonempty]

/-- The bytes are read: the window is open again, and the announced edge lies
one flood further behind. -/
theorem pollReadPcb_flood
    (stalled :
      Stalled rounds (tcpWnd - 2 ^ 15) [floodBytes] pcb stream)
    (few : rounds ≤ 65536)
    (starved : world.allocs = [false]) :
    wp (pollReadPcb [] (2 ^ 15) stream pcb)
      (fun result _ =>
        result.1 = .ready floodBytes ∧
          Stalled (rounds + 1) tcpWnd [] result.2.2 result.2.1)
      (fun _ => False) world := by
  have returned : recvedWnd pcb.rcvWnd (floodBytes.length % 65536) = tcpWnd := by
    rw [stalled.wnd, floodBytes_length]
    decide
  have behind (edge : SeqNo) (lag : pcb.lag edge = rounds * 2 ^ 15) :
      TcpPcb.lag { pcb with rcvWnd := tcpWnd } edge =
        (rounds + 1) * 2 ^ 15 := by
    have small : pcb.rcvWnd = 13952 := stalled.wnd
    unfold TcpPcb.lag TcpPcb.rightEdge SerialNumber.distance tcpWnd tcpMss at *
    simp only
    rw [small] at lag
    bv_omega
  have grown := behind _ stalled.lag
  have opened :
      wp (tcpRecved false pcb (floodBytes.length % 65536))
        (fun after _ => Stalled (rounds + 1) tcpWnd [floodBytes] after stream)
        (fun _ => False) world := by
    unfold tcpRecved
    rw [wp_bind, returned]
    generalize equal : ({ pcb with rcvWnd := tcpWnd } : TcpPcb) = wide
    have widened :
        Stalled (rounds + 1) tcpWnd [floodBytes] wide stream := by
      rw [← equal]
      exact { stalled with wnd := rfl, lag := grown }
    have fits :
        wide.lag wide.rcvAnnRightEdge ≤ 2 ^ 31 ∨
          wide.rcvWnd = tcpWnd ∧
            wide.lag wide.rcvAnnRightEdge = 65537 * 2 ^ 15 := by
      rw [widened.lag]
      rcases Nat.lt_or_ge rounds 65536 with fewer | most
      · left
        omega
      · right
        refine ⟨widened.wnd, ?_⟩
        omega
    refine wp_weaken
      (tcpUpdateRcvAnnWnd_fits widened.mss widened.wnd.le fits) ?_
    rintro ⟨inflation, updated⟩ later ⟨rfl, wnd, same⟩
    have kept :
        Stalled (rounds + 1) tcpWnd [floodBytes] updated stream := by
      rw [show updated = _ from same]
      exact widened.congr rfl rfl rfl rfl rfl rfl rfl
    rw [wp_ite]
    refine ⟨fun _ => ?_, fun _ => kept⟩
    rw [wp_bind]
    refine wp_weaken (tcpOutput_starved kept.idle starved) ?_
    rintro ⟨_, after⟩ _ ⟨-, flags, rxclosed, left⟩
    rw [wp_pure, show after = _ from left]
    exact kept.congr rfl rfl rfl rfl rfl rfl rxclosed
  exact pollReadPcb_opened stalled opened

/-! ## Rounds -/

/-- The connection waits for the next flood. -/
def Conn.Stalls (conn : Conn) (rounds : Nat) : Prop :=
  ∃ pcb stream,
    conn.pcb = some pcb ∧ conn.world.stream = some stream ∧
      Stalled rounds tcpWnd [] pcb stream

/-- The flood arrives, and there is no memory for an acknowledgement. -/
def floodLabel (seqno : SeqNo) : Label where
  event := .segment (floodSegment seqno)
  allocs := [false]

/-- The application reads it. -/
def drainLabel : Label where
  event := .pollRead (2 ^ 15)
  allocs := [false]

theorem Conn.step_of_perform
    {conn : Conn}
    {label : Label}
    {pcb : Option TcpPcb}
    {outcome : Outcome}
    {later : World}
    (performed :
      perform conn.pcb label.event (label.enter conn.world) =
        .ok ((pcb, outcome), later)) :
    conn.step label =
      .ok {
        world := later
        pcb := pcb
        history :=
          conn.history.record (acceptedBy conn.pcb label conn.world)
            outcome } := by
  unfold Conn.step
  rw [performed]

/-- The flood has arrived, and waits to be read. -/
def Conn.Filled (conn : Conn) (rounds : Nat) : Prop :=
  ∃ pcb stream,
    conn.pcb = some pcb ∧ conn.world.stream = some stream ∧
      Stalled rounds (tcpWnd - 2 ^ 15) [floodBytes] pcb stream

/-- A flood fills a stalled connection. -/
theorem Conn.Stalls.flood
    {conn : Conn}
    (stalls : conn.Stalls rounds)
    (few : rounds ≤ 65536) :
    ∃ pcb middle,
      conn.pcb = some pcb ∧
        conn.step (floodLabel pcb.rcvNxt) = .ok middle ∧
        middle.Filled rounds ∧
        middle.history.returned = conn.history.returned := by
  obtain ⟨pcb, stream, isPcb, isStream, stalled⟩ := stalls
  have active : pcb.state ≠ .timeWait := by
    rw [stalled.established]
    decide
  have floods :
      wp (perform (some pcb) (floodLabel pcb.rcvNxt).event)
        (fun result later =>
          ∃ taken,
            result = (some taken, .silent) ∧
              later.stream = some (floodedStream stream) ∧
              Stalled rounds (tcpWnd - 2 ^ 15) [floodBytes] taken
                (floodedStream stream))
        (fun _ => False) ((floodLabel pcb.rcvNxt).enter conn.world) := by
    unfold floodLabel perform
    simp only
    rw [if_neg active, wp_bind]
    refine wp_weaken (tcpInputPcb_flood stalled few isStream rfl) ?_
    rintro result later ⟨taken, rfl, known⟩
    exact ⟨taken, rfl, known⟩
  obtain ⟨_, flooded, arrived, taken, rfl, given, filled⟩ := wp_total floods
  rw [← isPcb] at arrived
  exact ⟨pcb, _, isPcb, Conn.step_of_perform arrived,
    ⟨taken, _, rfl, given, filled⟩, rfl⟩

/-- A read of the whole flood, whatever becomes of its acknowledgement. -/
theorem Conn.Filled.drain
    {wnd next : Nat}
    {conn : Conn}
    {label : Label}
    (filled : conn.Filled rounds)
    (reads : label.event = .pollRead (2 ^ 15))
    (prompt : label.recvs = [])
    (opens :
      ∀ pcb stream,
        Stalled rounds (tcpWnd - 2 ^ 15) [floodBytes] pcb stream →
          wp (pollReadPcb [] (2 ^ 15) stream pcb)
            (fun result _ =>
              result.1 = .ready floodBytes ∧
                Stalled next wnd [] result.2.2 result.2.1)
            (fun _ => False) (label.enter conn.world)) :
    ∃ after pcb stream,
      conn.step label = .ok after ∧
        after.pcb = some pcb ∧
        after.world.stream = some stream ∧
        Stalled next wnd [] pcb stream ∧
        after.history.returned = conn.history.returned ++ floodBytes := by
  obtain ⟨pcb, stream, isPcb, isStream, stalled⟩ := filled
  have streaming : (label.enter conn.world).stream = some stream := isStream
  have drains :
      wp (perform (some pcb) label.event)
        (fun result later =>
          ∃ drained left,
            result = (some drained, .read (2 ^ 15) (.ready floodBytes)) ∧
              later.stream = some left ∧ Stalled next wnd [] drained left)
        (fun _ => False) (label.enter conn.world) := by
    have working : ¬stream.errored = true := by
      rw [stalled.working]
      exact Bool.false_ne_true
    rw [reads]
    unfold perform onStream
    simp only
    rw [wp_bind, wp_get, streaming]
    simp only
    have serves : (label.enter conn.world).recvs = [] := prompt
    rw [if_neg working, wp_bind, wp_get, wp_bind, serves]
    refine wp_weaken (opens pcb stream stalled) ?_
    rintro ⟨_, left, drained⟩ later ⟨rfl, known⟩
    unfold putStream
    rw [wp_bind, wp_modify, wp_pure]
    exact ⟨drained, left, rfl, rfl, known⟩
  obtain ⟨_, read, performed, drained, left, rfl, held, known⟩ :=
    wp_total drains
  rw [← isPcb] at performed
  exact ⟨_, drained, left, Conn.step_of_perform performed, rfl, held, known,
    rfl⟩

/-- A flood and a read leave the announced edge where it was. -/
theorem Conn.Stalls.round
    {conn : Conn}
    (stalls : conn.Stalls rounds)
    (few : rounds ≤ 65536) :
    ∃ seqno middle after,
      conn.step (floodLabel seqno) = .ok middle ∧
        middle.step drainLabel = .ok after ∧ after.Stalls (rounds + 1) := by
  obtain ⟨pcb, middle, -, flooded, filled, -⟩ := stalls.flood few
  obtain ⟨after, drained, left, read, isPcb, isStream, known, -⟩ :=
    @Conn.Filled.drain rounds tcpWnd (rounds + 1) middle drainLabel filled rfl
      rfl fun pcb stream stalled => pollReadPcb_flood stalled few rfl
  exact ⟨pcb.rcvNxt, middle, after, flooded, read, drained, left, isPcb,
    isStream, known⟩

/-- The flood that makes half of the sequence space full is one too many. -/
theorem Conn.Stalls.overflow
    {conn : Conn}
    (stalls : conn.Stalls 65537) :
    ∃ seqno, conn.step (floodLabel seqno) = .error .newRcvAnnWnd := by
  obtain ⟨pcb, stream, isPcb, isStream, stalled⟩ := stalls
  have active : ¬pcb.state = .timeWait := by
    rw [stalled.established]
    decide
  have floods :
      wp (perform (some pcb) (floodLabel pcb.rcvNxt).event)
        (fun _ _ => False) (fun fault => fault = .newRcvAnnWnd)
        ((floodLabel pcb.rcvNxt).enter conn.world) := by
    unfold floodLabel perform
    simp only
    rw [if_neg active, wp_bind]
    exact wp_weaken (tcpInputPcb_overflow stalled)
      fun _ _ impossible => impossible.elim
  refine ⟨pcb.rcvNxt, ?_⟩
  unfold Conn.step
  unfold wp at floods
  rw [isPcb]
  split at floods
  · exact floods.elim
  · simp only [*]

end NetstackLwip

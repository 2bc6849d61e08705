import NetstackLwip.QueueShape

namespace NetstackLwip

/-!
# What the window has lent

A byte taken off `rcv_wnd` is in the channel until a read credits it. A segment
in order and one put at the end of the queue are cut to the window, but not one
put on an empty queue or before a queued segment, and a segment that inherits a
FIN is longer than it was when it was cut.
-/

open FaultState FaultMachine

/-! ## Which segments stay inside the window -/

/-- The segment ends inside the window. -/
def EndsWithin (rcvWnd start : Nat) (seg : TcpSeg) : Prop :=
  start + seg.tcplen ≤ rcvWnd

theorem endsWithin_cuts
    (rcvWnd : Nat) :
    Cuts (EndsWithin rcvWnd) := by
  intro start seg size ends _ inside
  have shorter : (seg.cut size).tcplen ≤ seg.tcplen := by
    unfold TcpSeg.cut TcpSeg.tcplen
    cases seg.hdr.fin <;> cases seg.hdr.syn <;>
      simp <;> omega
  unfold EndsWithin at ends ⊢
  omega

/-- The data part of `tcp_receive` finds the segment in its window. -/
structure TakesOn (pcb : TcpPcb) (inseg : TcpSeg) : Prop where
  occupies : 0 < inseg.tcplen
  notClosing : pcb.state.code < TcpState.closeWait.code
  passes :
    inWindow (inseg.trimmed pcb.rcvNxt).seqno pcb.rcvNxt pcb.rcvWnd = true

/-- What is taken of the segment, trimmed at its front, stays inside the
window: it is cut where it overruns, or does not overrun, and no queued FIN
follows data that fills the window. -/
structure Accountable (rcv : RcvVars) (seg : TcpSeg) : Prop where
  plain : seg.hdr.syn = false
  inside : seg.start rcv.rcvNxt < rcv.rcvWnd
  fits :
    0 < seg.start rcv.rcvNxt →
      (rcv.ooseq = [] ∨ ∃ next ∈ rcv.ooseq, seg.Precedes rcv.rcvNxt next) →
        seg.stop rcv.rcvNxt ≤ rcv.rcvWnd
  fin :
    rcv.rcvWnd ≤ seg.start rcv.rcvNxt + seg.len →
      ∀ next ∈ rcv.ooseq,
        next.hdr.fin = true →
          next.start rcv.rcvNxt < seg.start rcv.rcvNxt

instance (base : SeqNo) (seg next : TcpSeg) :
    Decidable (seg.Precedes base next) :=
  inferInstanceAs (Decidable (_ ∨ _))

instance (rcv : RcvVars) (seg : TcpSeg) : Decidable (Accountable rcv seg) :=
  decidable_of_iff
    (seg.hdr.syn = false ∧ seg.start rcv.rcvNxt < rcv.rcvWnd ∧
      (0 < seg.start rcv.rcvNxt →
        (rcv.ooseq = [] ∨
            ∃ next ∈ rcv.ooseq, seg.Precedes rcv.rcvNxt next) →
          seg.stop rcv.rcvNxt ≤ rcv.rcvWnd) ∧
      (rcv.rcvWnd ≤ seg.start rcv.rcvNxt + seg.len →
        ∀ next ∈ rcv.ooseq,
          next.hdr.fin = true →
            next.start rcv.rcvNxt < seg.start rcv.rcvNxt))
    ⟨fun holds => ⟨holds.1, holds.2.1, holds.2.2.1, holds.2.2.2⟩,
      fun holds => ⟨holds.plain, holds.inside, holds.fits, holds.fin⟩⟩

theorem Accountable.admitted
    {rcv : RcvVars}
    {seg : TcpSeg}
    (accountable : Accountable rcv seg) :
    Admitted (EndsWithin rcv.rcvWnd) rcv seg := by
  have inside := accountable.inside
  have bounds := seg.len_le_tcplen
  -- A segment with a queued FIN behind it leaves room for the FIN.
  have inherits (next : TcpSeg)
      (member : next ∈ rcv.ooseq)
      (fin : next.hdr.fin = true)
      (before : seg.start rcv.rcvNxt ≤ next.start rcv.rcvNxt) :
      seg.start rcv.rcvNxt + seg.len < rcv.rcvWnd ∧
        EndsWithin rcv.rcvWnd (seg.start rcv.rcvNxt) seg.withFin := by
    have room : seg.start rcv.rcvNxt + seg.len < rcv.rcvWnd := by
      by_contra fills
      have passed := accountable.fin (by omega) next member fin
      omega
    have longer : seg.withFin.tcplen ≤ seg.len + 1 :=
      seg.withFin.len_le_tcplen.2
    refine ⟨room, ?_⟩
    unfold EndsWithin
    omega
  refine ⟨inside, ?_, accountable.fits,
    fun _ _ next member fin before _ => (inherits next member fin before).2,
    fun first _ next member fin _ _ => ?_⟩
  · unfold TcpSeg.clip EndsWithin
    split
    · rw [TcpSeg.tcplen_cut accountable.plain]
      omega
    · omega
  · obtain ⟨room, ends⟩ :=
      inherits next member fin (by rw [first]; exact Nat.zero_le _)
    have whole : seg.clip rcv.rcvWnd = seg :=
      if_neg (by omega)
    rw [whole]
    exact ends

/-! ## What is taken -/

/-- What is taken comes off the window, and the queue stays inside it. -/
structure Accounted (before : RcvVars) (out : RecvOut) (after : RcvVars) :
    Prop where
  window : after.rcvWnd + out.size = before.rcvWnd
  line : InLine (EndsWithin after.rcvWnd) after.rcvNxt 1 after.ooseq

theorem Splice.accounted
    {before after : RcvVars}
    {taken : List TcpSeg}
    (splice :
      Splice (EndsWithin before.rcvWnd) before.rcvNxt 0 taken before after) :
    Accounted before (taken.foldl RecvOut.take {}) after := by
  obtain ⟨high, strung, rcvNxt, rcvWnd, line⟩ := splice.strung
  have size := strung.size {} rfl
  have nothing : RecvOut.size {} = 0 := rfl
  refine ⟨by omega, ?_⟩
  rw [rcvNxt]
  refine line.rebase.weaken fun start seg ends => ?_
  unfold EndsWithin at ends ⊢
  omega

section Data

variable {allowed : Fault → Prop} {world : World}

/-- The start of any segment is trimmed, or the trimming stops. -/
theorem trimStart_any
    (rcvNxt : SeqNo)
    (inseg : TcpSeg)
    (insane : allowed .insaneOffset)
    (short : allowed .pbufTooShort) :
    wp
      (trimStart (frontTrims inseg.seqno inseg.tcplen rcvNxt) rcvNxt inseg)
      (fun seg later => seg = inseg.trimmed rcvNxt ∧ later = world)
      allowed world := by
  unfold trimStart TcpSeg.trimmed
  rw [wp_ite]
  refine ⟨fun trims => ?_, fun untrimmed => ?_⟩
  · rw [if_pos trims]
    unfold trimFront
    simp only [wp_bind, wp_ensure, wp_pure]
    exact ⟨fun _ => ⟨fun _ => ⟨rfl, trivial⟩, fun _ => short⟩,
      fun _ => insane⟩
  · rw [if_neg untrimmed]
    exact ⟨rfl, rfl⟩

/-- Nothing is taken of a segment that the window test does not pass. -/
theorem tcpReceiveData_outside
    (inseg : TcpSeg)
    (pcb : TcpPcb)
    (outside : ¬TakesOn pcb inseg)
    (insane : allowed .insaneOffset)
    (short : allowed .pbufTooShort) :
    wp (tcpReceiveData inseg pcb)
      (fun result _ => result.1 = {} ∧ result.2.toRcvVars = pcb.toRcvVars)
      allowed world := by
  unfold tcpReceiveData
  rw [wp_ite]
  refine ⟨fun inside => ?_, fun _ => ?_⟩
  swap
  · rw [wp_ite]
    exact ⟨fun _ => ⟨rfl, rfl⟩, fun _ => ⟨rfl, rfl⟩⟩
  have noted (now : TcpPcb) (rcv : now.toRcvVars = pcb.toRcvVars) :
      wp
        (trimStart (frontTrims inseg.seqno inseg.tcplen pcb.rcvNxt)
            now.rcvNxt inseg >>= fun inseg =>
          if inWindow inseg.seqno now.rcvNxt now.rcvWnd = true then
            if now.rcvNxt = inseg.seqno then
              receiveInOrder inseg now
            else
              receiveOutOfOrder inseg now >>= fun pcb =>
                pure (({} : RecvOut), pcb)
          else
            tcpSendEmptyAck now >>= fun result =>
              pure (({} : RecvOut), result.2))
        (fun result _ => result.1 = {} ∧ result.2.toRcvVars = pcb.toRcvVars)
        allowed world := by
    rw [rcv, wp_bind]
    refine wp_weaken (trimStart_any pcb.rcvNxt inseg insane short) ?_
    rintro seg middle ⟨rfl, rfl⟩
    rw [wp_ite]
    refine ⟨fun passes => absurd ⟨inside.1, inside.2, passes⟩ outside,
      fun _ => ?_⟩
    rw [wp_bind]
    refine wp_weaken (tcpSendEmptyAck_spec now) ?_
    rintro ⟨_, after⟩ later ⟨frame, _⟩
    rw [wp_pure]
    exact ⟨rfl, frame.rcv.trans rcv⟩
  simp only
  split
  · exact noted { pcb with flags.ackNow := true } rfl
  · exact noted pcb rfl

/-- The assertions that the window is never overrun. -/
def WindowHolds (fault : Fault) : Prop :=
  fault ≠ .tcplenRcvWnd ∧ fault ≠ .ooseqTcplenRcvWnd

instance (fault : Fault) : Decidable (WindowHolds fault) :=
  inferInstanceAs (Decidable (_ ∧ _))

/-- The data part of `tcp_receive` on a segment that is accounted for. -/
theorem tcpReceiveData_accounted
    {packet : InPacket}
    (pcb : TcpPcb)
    (line : InLine (EndsWithin pcb.rcvWnd) pcb.rcvNxt 1 pcb.ooseq)
    (within : pcb.rcvWnd ≤ tcpWnd)
    (accountable :
      TakesOn pcb (inputSeg packet.toPacket) →
        Accountable pcb.toRcvVars
          ((inputSeg packet.toPacket).trimmed pcb.rcvNxt)) :
    wp (tcpReceiveData (inputSeg packet.toPacket) pcb)
      (fun result _ => Accounted pcb.toRcvVars result.1 result.2.toRcvVars)
      WindowHolds world := by
  have value : tcpWnd = 46720 := rfl
  have size := packet.payload_le
  have len : (inputSeg packet.toPacket).len = packet.payload.length := rfl
  by_cases takesOn : TakesOn pcb (inputSeg packet.toPacket)
  swap
  · refine wp_weaken
      (tcpReceiveData_outside _ pcb takesOn (by decide) (by decide)) ?_
    rintro ⟨out, after⟩ later ⟨rfl, rcv⟩
    dsimp only at rcv ⊢
    rw [rcv]
    exact ⟨rfl, line⟩
  have accountable := accountable takesOn
  have plain : (inputSeg packet.toPacket).hdr.syn = false := by
    have trimmed := accountable.plain
    unfold TcpSeg.trimmed at trimmed
    split at trimmed
    · exact trimmed
    · exact trimmed
  refine wp_weaken
    (@tcpReceiveData_splice WindowHolds world (EndsWithin pcb.rcvWnd)
      (endsWithin_cuts _) (inputSeg packet.toPacket) pcb
      (inputSeg_totLen packet.toPacket).symm plain (by omega)
      (.inr (by decide)) (fun _ _ _ => accountable.admitted) line within
      (.inl fun _ _ ends => ends) (by decide)) ?_
  rintro ⟨_, after⟩ later ⟨taken, rfl, splice⟩
  exact splice.accounted

end Data

/-! ## What the stream is handed, and what it reads -/

/-- What has been taken stays off the window, once the FIN has been handed over
as well. -/
theorem Received.accounted
    {before after : RcvVars}
    {recv : RecvOut}
    (received :
      Received (fun out rcv => Accounted before out rcv) before recv after)
    (within : before.rcvWnd ≤ tcpWnd) :
    after.rcvWnd + (recv.recvData.getD []).totLen = before.rcvWnd := by
  have value : tcpWnd = 46720 := rfl
  rcases received with ⟨rfl, rfl⟩ | ⟨rcv, accounted, either⟩
  · rfl
  have window := accounted.window
  unfold RecvOut.size at window
  have fin (vars : RcvVars) (same : vars.rcvWnd = rcv.rcvWnd) :
      (finRcv recv.gotFin vars).rcvWnd + (recv.recvData.getD []).totLen =
        before.rcvWnd := by
    unfold finRcv
    cases got : recv.gotFin with
    | false =>
        rw [got] at window
        simp only [Bool.false_eq_true, false_and, if_false] at window ⊢
        omega
    | true =>
        rw [got] at window
        simp only [if_true, true_and] at window ⊢
        rw [if_pos (by omega)]
        dsimp only
        omega
  rcases either with rfl | rfl
  · exact fin rcv rfl
  · exact fin _ rfl

theorem TcpStream.send_channel
    (chunk : Bytes)
    {stream : TcpStream}
    (listens : stream.readTx = true) :
    channelBytes (stream.send chunk).readRx =
        channelBytes stream.readRx + chunk.length ∧
      (stream.send chunk).readTx = true := by
  unfold TcpStream.send channelBytes
  rw [if_pos listens]
  exact ⟨by simp, listens⟩

/-- A stream that can still receive takes all of a segment's data. -/
theorem TcpStream.hear_channel
    (recv : RecvOut)
    {stream : TcpStream}
    (listens : stream.readTx = true) :
    channelBytes ((stream.hear recv).hearFin recv).readRx =
      channelBytes stream.readRx + (recv.recvData.getD []).totLen := by
  have data :
      channelBytes (stream.hear recv).readRx =
          channelBytes stream.readRx + (recv.recvData.getD []).totLen ∧
        (stream.hear recv).readTx = true := by
    unfold TcpStream.hear
    split
    · rename_i noData
      rw [noData]
      exact ⟨rfl, listens⟩
    · rename_i data delivered
      rw [delivered]
      split
      · rename_i empty
        have nothing : (Option.getD (some data) []).totLen = 0 := by
          simpa [Pbuf.totLen] using empty
        rw [nothing]
        exact ⟨rfl, listens⟩
      · exact send_channel data.data listens
  unfold TcpStream.hearFin
  split
  · rw [(send_channel [] data.2).1, data.1]
    rfl
  · exact data.1

/-- A read returns exactly what it takes out of the channel. -/
theorem readChunks_credits
    (queue : List Bytes)
    (recvs : List Bool)
    (remaining : Nat)
    (taken : Bytes)
    (stream : TcpStream)
    (rcvWnd : Nat)
    (fits : rcvWnd + channelBytes queue ≤ tcpWnd) :
    creditedWnd rcvWnd (readChunks queue recvs remaining taken stream).credited =
        rcvWnd + (readChunks queue recvs remaining taken stream).credited.sum ∧
      (readChunks queue recvs remaining taken stream).credited.sum +
          channelBytes
            (readChunks queue recvs remaining taken stream).stream.readRx =
        channelBytes queue := by
  induction queue generalizing recvs remaining taken rcvWnd with
  | nil =>
      exact ⟨rfl, rfl⟩
  | cons data rest inductionHypothesis =>
      have counts : channelBytes (data :: rest) =
          data.length + channelBytes rest := by
        simp [channelBytes]
      have credited := @recvedWnd_fits rcvWnd data.length (by omega)
      unfold readChunks
      split
      · exact ⟨rfl, Nat.zero_add _⟩
      split
      · rename_i empty
        have nothing : data.length = 0 := by
          simpa using empty
        simp only [creditedWnd, List.foldl_nil, List.sum_nil]
        omega
      · simp only
        split
        · simp only [creditedWnd, List.foldl_cons, List.foldl_nil, credited,
            List.sum_cons, List.sum_nil]
          omega
        · have further :=
            inductionHypothesis recvs.tail
              (remaining - min remaining data.length)
              (taken ++ data.take (min remaining data.length))
              (rcvWnd + data.length) (by omega)
          simp only [creditedWnd, List.foldl_cons, credited, List.sum_cons]
          simp only [creditedWnd] at further
          omega

theorem readStream_credits
    (recvs : List Bool)
    (remaining : Nat)
    (stream : TcpStream)
    {rcvWnd : Nat}
    (fits : rcvWnd + channelBytes stream.readRx ≤ tcpWnd) :
    creditedWnd rcvWnd (readStream recvs remaining stream).credited =
        rcvWnd + (readStream recvs remaining stream).credited.sum ∧
      (readStream recvs remaining stream).credited.sum +
          channelBytes (readStream recvs remaining stream).stream.readRx =
        channelBytes stream.readRx := by
  unfold readStream
  split
  · exact ⟨rfl, Nat.zero_add _⟩
  · exact readChunks_credits _ _ _ _ _ _ fits

/-! ## Runs -/

/-- The event is no segment that the window loses track of. -/
def Label.Accountable (conn : Conn) (label : Label) : Prop :=
  ∀ packet pcb,
    label.event = .segment packet →
      conn.pcb = some pcb →
        packet.Reaches pcb →
          TakesOn pcb (inputSeg packet.toPacket) →
            NetstackLwip.Accountable pcb.toRcvVars
              ((inputSeg packet.toPacket).trimmed pcb.rcvNxt)

/-- The window of a pcb and what its stream has borrowed from it. -/
structure Lent (pcb : TcpPcb) (stream : Option TcpStream) : Prop where
  waiting : pcb.state = .synRcvd → pcb.rcvWnd = tcpWnd
  channel :
    ∀ reader, stream = some reader →
      pcb.rcvWnd + channelBytes reader.readRx = tcpWnd

/-- What an event does to the receiver keeps the account. -/
theorem Receives.lent
    {addr : Nat}
    {before after : TcpPcb}
    {stream later : Option TcpStream}
    {event : Event}
    {recv : RecvOut}
    {outcome : Outcome}
    (receives :
      Receives (fun _ out rcv => Accounted before.toRcvVars out rcv) before
        stream event recv outcome after later)
    (attached : Attached addr before stream)
    (within : before.rcvWnd ≤ tcpWnd)
    (lent : Lent before stream) :
    Lent after later := by
  have owner := attached.owner
  cases receives with
  | idle state rcv unread _ =>
      have waits (still : after.state = .synRcvd) :
          before.state = .synRcvd := by
        rcases state with same | shuts
        · exact same ▸ still
        · exact absurd still shuts.ne_synRcvd
      refine ⟨fun still => by rw [rcv]; exact lent.waiting (waits still), ?_⟩
      rw [rcv]
      rintro reader present
      rcases unread with rfl | ⟨known, closed, waker, rfl, rfl⟩
      · exact lent.channel reader present
      · cases present
        exact lent.channel known rfl
  | stale state rcv =>
      refine ⟨fun still => ?_, ?_⟩
      · rw [rcv]
        exact lent.waiting (state ▸ still)
      · rw [rcv]
        exact lent.channel
  | read recvs remaining known present state rcv =>
      subst present
      cases owner with
      | stream _ streaming _ =>
      have account := lent.channel known rfl
      obtain ⟨credited, left⟩ :=
        readStream_credits recvs remaining known (Nat.le_of_eq account)
      refine ⟨fun still => absurd (state ▸ still) streaming.state, ?_⟩
      rintro _ ⟨⟩
      rw [rcv]
      dsimp only
      omega
  | segment packet recv moves waits waiting received =>
      refine ⟨fun still => ?_, ?_⟩
      · have first : before.state = .synRcvd := by
          by_contra synchronized
          exact moves.synRcvd synchronized still
        rw [(waiting still).2]
        exact lent.waiting first
      · cases owner with
        | stream reader streaming of =>
            unfold heard
            rw [if_pos streaming.recv]
            rintro _ ⟨⟩
            have account := lent.channel reader rfl
            have taken := (received streaming.recv).accounted within
            have hears := TcpStream.hear_channel recv of.readTx
            dsimp only
            omega
        | _ =>
            unfold heard
            split <;> simp
  | accepted packet recv addr id synRcvd moves synchronized received =>
      refine ⟨fun still => absurd still synchronized, ?_⟩
      rintro _ ⟨⟩
      have account := lent.waiting synRcvd
      have taken := received.accounted within
      have hears :=
        TcpStream.hear_channel recv
          (show (newStream addr id before).1.readTx = true from rfl)
      have empty : channelBytes (newStream addr id before).1.readRx = 0 := rfl
      omega
  | dropped state rcv =>
      refine ⟨fun still => ?_, by simp⟩
      rw [rcv]
      exact lent.waiting (state ▸ still)

/-- What holds of the receiver in every run that keeps the account. -/
structure Credited (pcb : TcpPcb) (stream : Option TcpStream) : Prop where
  line : InLine (EndsWithin pcb.rcvWnd) pcb.rcvNxt 1 pcb.ooseq
  within : pcb.rcvWnd ≤ tcpWnd
  lent : Lent pcb stream

/-- Where a segment is accounted for by the pcb it reaches, so it is by the pcb
that has looked at its acknowledgement. -/
theorem Label.Accountable.takes
    {conn : Conn}
    {label : Label}
    {packet : InPacket}
    {pcb acked : TcpPcb}
    (accountable : label.Accountable conn)
    (event : label.event = .segment packet)
    (current : conn.pcb = some pcb)
    (reaches : packet.Reaches pcb)
    (rcv : acked.toRcvVars = pcb.toRcvVars)
    (state :
      acked.state = pcb.state ∨
        pcb.state = .synRcvd ∧ acked.state = .established)
    (takesOn : TakesOn acked (inputSeg packet.toPacket)) :
    NetstackLwip.Accountable acked.toRcvVars
      ((inputSeg packet.toPacket).trimmed acked.rcvNxt) := by
  rw [rcv]
  refine accountable packet pcb event current reaches ?_
  have passes := takesOn.passes
  rw [rcv] at passes
  refine ⟨takesOn.occupies, ?_, passes⟩
  rcases state with same | ⟨first, _⟩
  · rw [← same]
    exact takesOn.notClosing
  · rw [first]
    decide

/-- An event keeps the account of its pcb, and the window is never overrun. -/
theorem perform_credited
    {conn : Conn}
    {label : Label}
    (reached : connMachine.Reached conn)
    (credited :
      ∀ pcb, conn.pcb = some pcb → Credited pcb conn.world.stream)
    (accountable : label.Accountable conn) :
    wp (perform conn.pcb label.event)
      (fun result later =>
        ∀ next, result.1 = some next → Credited next later.stream)
      WindowHolds (label.enter conn.world) := by
  cases current : conn.pcb with
  | none =>
      refine wp_mono
        (perform_none label.event conn.history.sendLog
          (label.enter conn.world)) ?_ ?_
      · rintro ⟨_, outcome⟩ later ⟨rfl, _⟩
        simp
      · rintro fault rfl
        decide
  | some pcb =>
      obtain ⟨attached, inUse⟩ := attached_of_reached reached current
      have entered :
          Attached (label.enter conn.world).pcbAddr pcb
            (label.enter conn.world).stream := attached
      have stands := credited pcb current
      have data (packet : InPacket)
          (event : label.event = .segment packet)
          (_ : pcb.state ≠ .timeWait)
          (reaches : packet.Reaches pcb)
          (acked : TcpPcb)
          (world : World)
          (rcv : acked.toRcvVars = pcb.toRcvVars)
          (state :
            acked.state = pcb.state ∨
              pcb.state = .synRcvd ∧ acked.state = .established) :
          wp (tcpReceiveData (inputSeg packet.toPacket) acked)
            (fun result _ =>
              Accounted pcb.toRcvVars result.1 result.2.toRcvVars)
            WindowHolds world := by
        rw [← rcv]
        exact tcpReceiveData_accounted acked (by rw [rcv]; exact stands.line)
          (by rw [rcv]; exact stands.within)
          (accountable.takes event current reaches rcv state)
      have others (fault : Fault) (other : fault.origin ≠ .receiveData) :
          WindowHolds fault := by
        constructor <;> (rintro rfl; exact other rfl)
      have received :=
        perform_receives others (by decide) label.event pcb inUse entered data
      have moved :=
        @perform_moved (label.enter conn.world)
          (fun out rcv => Accounted pcb.toRcvVars out rcv) label.event pcb
          inUse entered
          fun packet event notTimeWait reaches acked world rcv state =>
            wp_mono
              (data packet event notTimeWait reaches acked world rcv state)
              (fun _ _ same => same) fun _ _ => trivial
      refine wp_weaken (wp_also received moved) ?_
      rintro ⟨left, outcome⟩ later ⟨receives, moves⟩ next isSome
      have same : left = some next := isSome
      unfold ReceivesOrFreed at receives
      rw [same] at receives
      obtain ⟨recv, rcv, comes, rcvNxt, ooseq, rcvWnd⟩ := moves next isSome
      have known :
          InLine (EndsWithin rcv.rcvWnd) rcv.rcvNxt 1 rcv.ooseq ∧
            rcv.rcvWnd ≤ tcpWnd := by
        rcases comes with rfl | accounted
        · exact ⟨stands.line, stands.within⟩
        · have window := accounted.window
          have within := stands.within
          exact ⟨accounted.line, by omega⟩
      obtain ⟨grows, top⟩ := rcvWnd known.2
      refine ⟨?_, top,
        Receives.lent receives attached stands.within stands.lent⟩
      rw [rcvNxt]
      rcases ooseq with same | empty
      · rw [same]
        exact known.1.weaken fun _ _ ends => Nat.le_trans ends grows
      · rw [empty]
        trivial

theorem credited_reached
    {conn : Conn}
    (reached :
      connMachine.ReachedUnder (fun before label => label.Accountable before)
        conn) :
    ∀ pcb, conn.pcb = some pcb → Credited pcb conn.world.stream := by
  induction reached with
  | start initial =>
      intro pcb current
      have rcv := Conn.initial_rcv initial current
      have silent := (Conn.initial_windowed initial).1
      refine ⟨?_, ?_, ?_, ?_⟩
      · rw [rcv]
        trivial
      · rw [rcv]
      · intro _
        rw [rcv]
      · rw [silent]
        simp
  | next before near taken inductionHypothesis =>
      obtain ⟨outcome, -, credited⟩ :=
        Conn.step_returned
          (perform_credited (before.mono fun _ _ _ => trivial)
            inductionHypothesis near)
          taken
      exact credited

/-- In every run in which each segment stays inside the window, `rcv_wnd` and
the bytes in the channel make up `TCP_WND`, a read returns to the window all
that it takes, and the window is never overrun. -/
theorem receive_window_conserved
    {conn : Conn}
    (reached :
      connMachine.ReachedUnder (fun before label => label.Accountable before)
        conn) :
    (∀ stream pcb,
        conn.world.stream = some stream →
          conn.pcb = some pcb →
            pcb.rcvWnd + channelBytes stream.readRx = tcpWnd ∧
              ∀ recvs remaining,
                creditedWnd pcb.rcvWnd
                    (readStream recvs remaining stream).credited =
                  pcb.rcvWnd +
                    (readStream recvs remaining stream).credited.sum) ∧
      ∀ label fault,
        label.Accountable conn →
          conn.step label = .error fault →
            fault ≠ .tcplenRcvWnd ∧ fault ≠ .ooseqTcplenRcvWnd := by
  have credited := credited_reached reached
  constructor
  · intro stream pcb present current
    have account := (credited pcb current).lent.channel stream present
    exact ⟨account, fun recvs remaining =>
      (readStream_credits recvs remaining stream (Nat.le_of_eq account)).1⟩
  · intro label fault accountable stopped
    exact Conn.step_faulted
      (perform_credited (reached.mono fun _ _ _ => trivial) credited
        accountable)
      stopped

/-- Every segment that may reach the pcb is accounted for. -/
def Label.checkAccountable (conn : Conn) (label : Label) : Bool :=
  match label.event with
  | .segment packet =>
      conn.pcb.all fun pcb =>
        decide
          (NetstackLwip.Accountable pcb.toRcvVars
            ((inputSeg packet.toPacket).trimmed pcb.rcvNxt))
  | _ => true

theorem Label.accountable_of_check
    (conn : Conn)
    (label : Label)
    (checked : label.checkAccountable conn = true) :
    label.Accountable conn := by
  intro packet pcb event current _ _
  unfold checkAccountable at checked
  rw [event, current] at checked
  exact of_decide_eq_true checked

/-- Two bytes come early, and then three with the byte before them; one of the
five is read. -/
theorem receive_window_conserved_short_read :
    ∃ conn stream pcb,
      connMachine.ReachedUnder (fun before label => label.Accountable before)
          conn ∧
        conn.world.stream = some stream ∧
        conn.pcb = some pcb ∧
        pcb.rcvNxt = 105 ∧
        stream.readRx = [] ∧
        stream.writeBuf = [2, 3, 4, 5] ∧
        pcb.rcvWnd + channelBytes stream.readRx = tcpWnd := by
  obtain ⟨conn, reached, holds⟩ :=
    exists_reachedUnder (fun before label => label.Accountable before)
      (fun before label => label.checkAccountable before)
      (fun conn label checked => label.accountable_of_check conn checked)
      (exampleSyn 1000 []) 0 6510 exampleWorld
      [{ event :=
          .segment (exampleSegment { ack := true } 100 6511 1000 [] []) },
        { event :=
          .segment (exampleSegment { ack := true } 103 6511 1000 [4, 5] []) },
        { event :=
          .segment
            (exampleSegment { ack := true } 100 6511 1000 [1, 2, 3] []) },
        { event := .pollRead 1 }]
      (fun conn : Conn =>
        conn.world.stream.any fun stream : TcpStream =>
          conn.pcb.any fun pcb : TcpPcb =>
            decide
              (pcb.rcvNxt = 105 ∧ stream.readRx = [] ∧
                stream.writeBuf = [2, 3, 4, 5]))
      rfl rfl rfl (by decide +kernel)
  obtain ⟨stream, present, current⟩ := (Option.any_eq_true _ _).mp holds
  obtain ⟨pcb, current, known⟩ := (Option.any_eq_true _ _).mp current
  obtain ⟨rcvNxt, readRx, writeBuf⟩ := of_decide_eq_true known
  exact ⟨conn, stream, pcb, reached, present, current, rcvNxt, readRx, writeBuf,
    ((receive_window_conserved reached).1 stream pcb present current).1⟩

/-- As many bytes as the window holds, from one place after `rcv_nxt` on, are
queued whole. -/
def overrunLabels : List Label :=
  [{ event := .segment (exampleSegment { ack := true } 100 6511 1000 [] []) },
    { event :=
      .segment
        (exampleSegment { ack := true } 101 6511 1000
          (List.replicate 46720 0) []) }]

/-- The byte that was missing. -/
def missingByte : Label :=
  { event := .segment (exampleSegment { ack := true } 100 6511 1000 [0] []) }

/-- A segment that overruns the window on an empty queue stops the program once
it is in sequence, and a SYN with data makes the window forget a byte. -/
theorem receive_window_overrun :
    (∃ conn, connMachine.Reached conn ∧ conn.world.stream.isSome = true ∧
        conn.history.finAccepted = false ∧
        conn.step missingByte = .error .ooseqTcplenRcvWnd) ∧
      ∃ conn stream pcb, connMachine.Reached conn ∧
        conn.world.stream = some stream ∧
        conn.pcb = some pcb ∧
        conn.history.finAccepted = false ∧
        pcb.rcvWnd + channelBytes stream.readRx ≠ tcpWnd := by
  constructor
  · obtain ⟨conn, reached, stops⟩ :=
      exists_reached (exampleSyn 1000 []) 0 6510 exampleWorld overrunLabels
        (fun conn : Conn =>
          conn.world.stream.isSome && !conn.history.finAccepted &&
            conn.faultOf missingByte == some .ooseqTcplenRcvWnd)
        rfl rfl rfl (by decide +kernel)
    simp only [Bool.and_eq_true, Bool.not_eq_true', beq_iff_eq] at stops
    exact ⟨conn, reached, stops.1.1, stops.1.2, Conn.step_of_faultOf stops.2⟩
  · obtain ⟨conn, reached, holds⟩ :=
      exists_reached (exampleSyn 1000 []) 0 6510 exampleWorld
        [{ event :=
            .segment
              (exampleSegment { syn := true, ack := true } 99 6511 1000
                [1, 2, 3] []) }]
        (fun conn : Conn =>
          conn.world.stream.any fun stream : TcpStream =>
            conn.pcb.any fun pcb : TcpPcb =>
              decide
                (conn.history.finAccepted = false ∧
                  pcb.rcvWnd + channelBytes stream.readRx ≠ tcpWnd))
        rfl rfl rfl (by decide +kernel)
    obtain ⟨stream, present, current⟩ := (Option.any_eq_true _ _).mp holds
    obtain ⟨pcb, current, known⟩ := (Option.any_eq_true _ _).mp current
    obtain ⟨opened, differs⟩ := of_decide_eq_true known
    exact ⟨conn, stream, pcb, reached, present, current, opened, differs⟩

end NetstackLwip

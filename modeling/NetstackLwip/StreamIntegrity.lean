import NetstackLwip.StreamSlices
import NetstackLwip.WindowFlood

namespace NetstackLwip

/-!
# The byte stream of the peer

What a connection has taken is how the peer's bytes begin, and the reader, the
leftover buffer and the channel hold it in order. A segment from one circle of
sequence numbers ago is not recognised as old.
-/

open FaultState FaultMachine SerialNumber

/-! ## What a connection has taken of the peer -/

/-- The sequence numbers taken from the peer: its bytes, and its FIN. -/
def History.position (history : History) : Nat :=
  history.accepted.length + if history.finAccepted then 1 else 0

/-- What has been taken is how the peer's bytes begin, all of them once its FIN
is there. -/
structure History.Prefix (history : History) (peer : PeerStream) :
    Prop where
  accepted :
    history.accepted = peer.bytes.take history.accepted.length
  fin :
    history.finAccepted = true →
      peer.ended = true ∧ history.accepted.length = peer.bytes.length

namespace History.Prefix

variable
  {peer : PeerStream}
  {history : History}
  {recv : RecvOut}
  {before after : RcvVars}

/-- Nothing comes after the FIN. -/
theorem nothing_after
    (pre : history.Prefix peer)
    (continues : Continues peer history.position before recv after)
    (fin : history.finAccepted = true) :
    recv.bytes = [] ∧ recv.gotFin = false := by
  obtain ⟨ended, all⟩ := pre.fin fin
  have position : history.position = peer.bytes.length + 1 := by
    unfold History.position
    rw [if_pos fin, all]
  have nothing : recv.bytes = [] := by
    rw [continues.bytes, position, List.drop_eq_nil_of_le (Nat.le_succ _),
      List.take_nil]
  refine ⟨nothing, ?_⟩
  cases got : recv.gotFin with
  | false => rfl
  | true =>
      have last := (continues.fin got).2
      omega

theorem record
    (pre : history.Prefix peer)
    (continues : Continues peer history.position before recv after)
    (outcome : Outcome) :
    (history.record recv outcome).Prefix peer ∧
      (history.record recv outcome).position =
        history.position + recv.size := by
  have accepted :
      (history.record recv outcome).accepted =
        history.accepted ++ recv.bytes := rfl
  have finAccepted :
      (history.record recv outcome).finAccepted =
        (history.finAccepted || recv.gotFin) := rfl
  have size :
      recv.size = recv.bytes.length + if recv.gotFin then 1 else 0 := rfl
  cases fin : history.finAccepted with
  | true =>
      obtain ⟨nothing, noFin⟩ := pre.nothing_after continues fin
      rw [nothing, List.append_nil] at accepted
      rw [fin, Bool.true_or] at finAccepted
      refine ⟨⟨?_, fun _ => ?_⟩, ?_⟩
      · rw [accepted]
        exact pre.accepted
      · rw [accepted]
        exact pre.fin fin
      · unfold History.position
        rw [accepted, finAccepted, fin, size, nothing, noFin]
        rfl
  | false =>
      have position : history.position = history.accepted.length := by
        unfold History.position
        rw [fin]
        rfl
      rw [fin, Bool.false_or] at finAccepted
      refine ⟨⟨?_, fun got => ?_⟩, ?_⟩
      · have bytes := continues.bytes
        rw [position] at bytes
        rw [accepted, List.length_append, List.take_add, ← pre.accepted,
          ← bytes]
      · rw [finAccepted] at got
        obtain ⟨ended, last⟩ := continues.fin got
        refine ⟨ended, ?_⟩
        rw [accepted, List.length_append, ← position]
        exact last
      · rw [position, size]
        unfold History.position
        rw [accepted, finAccepted, List.length_append, Nat.add_assoc]

end History.Prefix

/-! ## What a pcb and its stream hold -/

/-- The receiver stands where the history says, and queues only slices. -/
structure Intact (peer : PeerStream) (history : History) (pcb : TcpPcb) :
    Prop where
  pre : history.Prefix peer
  rcvNxt : pcb.rcvNxt = place (history.irs + 1) history.position
  within : pcb.rcvWnd ≤ tcpWnd
  line : InLine (Slices peer history.position) pcb.rcvNxt 1 pcb.ooseq

/-- What has been returned and what the stream still holds make up all that has
been taken. -/
structure Balanced (history : History) (stream : TcpStream) : Prop where
  bytes :
    history.returned ++ stream.writeBuf ++ stream.readRx.flatten =
      history.accepted
  marked : Marked history.finAccepted stream.isEof stream.readRx

/-- Nothing has been taken yet. -/
structure Untouched (history : History) : Prop where
  returned : history.returned = []
  accepted : history.accepted = []
  finAccepted : history.finAccepted = false

/-- An event that takes nothing and reads nothing. -/
theorem History.record_quiet
    (history : History)
    {outcome : Outcome}
    (noRead : outcome.NoRead) :
    (history.record {} outcome).irs = history.irs ∧
      (history.record {} outcome).returned = history.returned ∧
      (history.record {} outcome).accepted = history.accepted ∧
      (history.record {} outcome).finAccepted = history.finAccepted := by
  refine ⟨rfl, ?_, List.append_nil _, Bool.or_false _⟩
  cases outcome with
  | read remaining result =>
      exact absurd rfl (noRead remaining result)
  | _ =>
      rfl

theorem Balanced.congr
    {history later : History}
    {stream other : TcpStream}
    (balanced : Balanced history stream)
    (returned : later.returned = history.returned)
    (accepted : later.accepted = history.accepted)
    (finAccepted : later.finAccepted = history.finAccepted)
    (writeBuf : other.writeBuf = stream.writeBuf)
    (readRx : other.readRx = stream.readRx)
    (isEof : other.isEof = stream.isEof) :
    Balanced later other where
  bytes := by
    rw [returned, accepted, writeBuf, readRx]
    exact balanced.bytes
  marked := by
    rw [finAccepted, readRx, isEof]
    exact balanced.marked

theorem Untouched.congr
    {history later : History}
    (untouched : Untouched history)
    (returned : later.returned = history.returned)
    (accepted : later.accepted = history.accepted)
    (finAccepted : later.finAccepted = history.finAccepted) :
    Untouched later where
  returned := returned.trans untouched.returned
  accepted := accepted.trans untouched.accepted
  finAccepted := finAccepted.trans untouched.finAccepted

theorem Intact.congr
    {peer : PeerStream}
    {history later : History}
    {before after : TcpPcb}
    (intact : Intact peer history before)
    (irs : later.irs = history.irs)
    (accepted : later.accepted = history.accepted)
    (finAccepted : later.finAccepted = history.finAccepted)
    (rcvNxt : after.rcvNxt = before.rcvNxt)
    (within : after.rcvWnd ≤ tcpWnd)
    (ooseq : after.ooseq = before.ooseq ∨ after.ooseq = []) :
    Intact peer later after := by
  have position : later.position = history.position := by
    unfold History.position
    rw [accepted, finAccepted]
  refine ⟨⟨?_, ?_⟩, ?_, within, ?_⟩
  · rw [accepted]
    exact intact.pre.accepted
  · rw [accepted, finAccepted]
    exact intact.pre.fin
  · rw [rcvNxt, irs, position]
    exact intact.rcvNxt
  · rw [rcvNxt, position]
    rcases ooseq with same | empty
    · rw [same]
      exact intact.line
    · rw [empty]
      trivial

/-- The receiver once a segment's data and FIN have been handed over. -/
theorem Intact.received
    {peer : PeerStream}
    {history : History}
    {before after : TcpPcb}
    {recv : RecvOut}
    (intact : Intact peer history before)
    (received :
      Received
        (fun out rcv =>
          Continues peer history.position before.toRcvVars out rcv)
        before.toRcvVars recv after.toRcvVars)
    (outcome : Outcome) :
    Intact peer (history.record recv outcome) after := by
  have value : tcpWnd = 46720 := rfl
  have within := intact.within
  have finKeeps (fin : Bool) (rcv : RcvVars) :
      (finRcv fin rcv).rcvNxt = rcv.rcvNxt ∧
        (finRcv fin rcv).ooseq = rcv.ooseq ∧
        (rcv.rcvWnd ≤ tcpWnd → (finRcv fin rcv).rcvWnd ≤ tcpWnd) := by
    unfold finRcv
    split
    · refine ⟨rfl, rfl, fun top => ?_⟩
      dsimp only
      omega
    · exact ⟨rfl, rfl, id⟩
  rcases received with ⟨rfl, same⟩ | ⟨rcv, continues, either⟩
  · have rcvNxt : after.rcvNxt = before.rcvNxt := by rw [same]
    have rcvWnd : after.rcvWnd = before.rcvWnd := by rw [same]
    have ooseq : after.ooseq = before.ooseq := by rw [same]
    exact intact.congr rfl (List.append_nil _) (Bool.or_false _) rcvNxt
      (by rw [rcvWnd]; exact within) (.inl ooseq)
  · obtain ⟨pre, position⟩ := intact.pre.record continues outcome
    have room := continues.rcvWnd
    have moved :
        after.rcvNxt = rcv.rcvNxt ∧
          (after.ooseq = rcv.ooseq ∨ after.ooseq = []) ∧
          after.rcvWnd ≤ tcpWnd := by
      rcases either with same | purged
      · obtain ⟨rcvNxt, ooseq, top⟩ := finKeeps recv.gotFin rcv
        rw [same]
        exact ⟨rcvNxt, .inl ooseq, top (by omega)⟩
      · obtain ⟨rcvNxt, ooseq, top⟩ :=
          finKeeps recv.gotFin { rcv with ooseq := [], refusedData := none }
        rw [purged]
        exact ⟨rcvNxt, .inr ooseq, top (by dsimp only; omega)⟩
    obtain ⟨rcvNxt, ooseq, top⟩ := moved
    refine ⟨pre, ?_, top, ?_⟩
    · have irs : (history.record recv outcome).irs = history.irs := rfl
      rw [rcvNxt, continues.rcvNxt, intact.rcvNxt, place_place, position, irs]
    · rw [position, rcvNxt]
      rcases ooseq with same | empty
      · rw [same]
        exact continues.line
      · rw [empty]
        trivial

/-- Nothing is taken after the FIN. -/
theorem Intact.nothing_after
    {peer : PeerStream}
    {history : History}
    {before : TcpPcb}
    {after : RcvVars}
    {recv : RecvOut}
    (intact : Intact peer history before)
    (received :
      Received
        (fun out rcv =>
          Continues peer history.position before.toRcvVars out rcv)
        before.toRcvVars recv after)
    (fin : history.finAccepted = true) :
    recv.bytes = [] ∧ recv.gotFin = false := by
  rcases received with ⟨rfl, _⟩ | ⟨rcv, continues, _⟩
  · exact ⟨rfl, rfl⟩
  · exact intact.pre.nothing_after continues fin

/-- What hearing a segment puts in the channel: its bytes as one chunk, and the
mark of its FIN. -/
theorem TcpStream.hear_readRx
    (recv : RecvOut)
    {stream : TcpStream}
    (listens : stream.readTx = true) :
    (stream.hear recv).hearFin recv =
      { stream with
        readRx :=
          stream.readRx ++ (if recv.bytes.isEmpty then [] else [recv.bytes]) ++
            if recv.gotFin then [[]] else [] } := by
  have data :
      stream.hear recv =
        { stream with
          readRx :=
            stream.readRx ++
              if recv.bytes.isEmpty then [] else [recv.bytes] } := by
    unfold TcpStream.hear RecvOut.bytes
    split
    · rename_i noData
      simp [noData, Pbuf.data]
    · rename_i data delivered
      rw [delivered, Option.getD_some]
      split
      · simp
      · unfold TcpStream.send
        rw [if_pos listens]
  rw [data]
  unfold TcpStream.hearFin
  split
  · unfold TcpStream.send
    rw [if_pos (by exact listens)]
  · simp

/-- A stream that hears a segment holds its bytes, and the mark of its FIN. -/
theorem Balanced.hear
    {history : History}
    {stream : TcpStream}
    {recv : RecvOut}
    (balanced : Balanced history stream)
    (listens : stream.readTx = true)
    {outcome : Outcome}
    (returned :
      (history.record recv outcome).returned = history.returned)
    (nothingAfter :
      history.finAccepted = true → recv.bytes = [] ∧ recv.gotFin = false) :
    Balanced (history.record recv outcome)
      ((stream.hear recv).hearFin recv) := by
  have accepted :
      (history.record recv outcome).accepted =
        history.accepted ++ recv.bytes := rfl
  have finAccepted :
      (history.record recv outcome).finAccepted =
        (history.finAccepted || recv.gotFin) := rfl
  obtain ⟨chunks, nonempty, queue, last⟩ := balanced.marked
  rw [TcpStream.hear_readRx recv listens]
  refine ⟨?_, ?_⟩
  · rw [returned, accepted, ← balanced.bytes]
    dsimp only
    have data :
        (if recv.bytes.isEmpty = true then [] else [recv.bytes]).flatten =
          recv.bytes := by
      split
      · rename_i empty
        rw [List.isEmpty_iff.mp empty]
        rfl
      · simp
    have mark :
        (if recv.gotFin = true then [[]] else ([] : List Bytes)).flatten =
          [] := by
      split <;> rfl
    rw [List.flatten_append, List.flatten_append, data, mark,
      List.append_nil, ← List.append_assoc]
  · rw [finAccepted]
    dsimp only
    cases fin : history.finAccepted with
    | true =>
        obtain ⟨nothing, noFin⟩ := nothingAfter fin
        rw [fin] at queue last
        rw [nothing, noFin]
        exact ⟨chunks, nonempty, by simpa using queue, last⟩
    | false =>
        rw [fin] at queue last
        have notEof : stream.isEof = false := by
          cases eof : stream.isEof with
          | false => rfl
          | true => exact absurd (last eof).1 (by simp)
        refine ⟨chunks ++ if recv.bytes.isEmpty then [] else [recv.bytes],
          ?_, ?_, fun eof => absurd eof (by simp [notEof])⟩
        · refine List.forall_mem_append.mpr ⟨nonempty, ?_⟩
          split
          · exact List.forall_mem_nil _
          · rename_i isSome
            simpa using isSome
        · rw [queue, notEof]
          simp

/-- A new stream holds nothing. -/
theorem Balanced.new
    {history : History}
    (untouched : Untouched history)
    (addr id : Nat)
    (pcb : TcpPcb) :
    Balanced history (newStream addr id pcb).1 where
  bytes := by
    rw [untouched.returned, untouched.accepted]
    rfl
  marked := by
    rw [untouched.finAccepted]
    exact ⟨[], List.forall_mem_nil _, rfl, nofun⟩

/-- A read moves bytes of what the stream holds to what has been returned. -/
theorem Balanced.read
    {history : History}
    {stream : TcpStream}
    (balanced : Balanced history stream)
    (listens : stream.readTx = true)
    (recvs : List Bool)
    (remaining : Nat) :
    Balanced
      (history.record {}
        (.read remaining (readStream recvs remaining stream).result))
      (readStream recvs remaining stream).stream := by
  obtain ⟨bytes, reads⟩ :=
    readStream_reads recvs remaining balanced.marked listens
  have joined := reads.joined
  have returned :
      (history.record {}
          (.read remaining (readStream recvs remaining stream).result)).returned =
        history.returned ++ bytes := by
    rcases reads.result with ready | ⟨pending, nothing⟩
    · rw [ready]
      rfl
    · rw [pending, nothing, List.append_nil]
      rfl
  have accepted :
      (history.record {}
          (.read remaining (readStream recvs remaining stream).result)).accepted =
        history.accepted := List.append_nil _
  have finAccepted :
      (history.record {}
          (.read remaining (readStream recvs remaining stream).result)).finAccepted =
        history.finAccepted := Bool.or_false _
  refine ⟨?_, ?_⟩
  · rw [returned, accepted, ← balanced.bytes,
      List.append_assoc history.returned stream.writeBuf, ← joined]
    simp only [List.append_assoc]
  · rw [finAccepted]
    exact reads.marked

/-- The reader is told of the end only when it has had all the bytes. -/
theorem Balanced.end
    {history : History}
    {stream : TcpStream}
    (balanced : Balanced history stream)
    (listens : stream.readTx = true)
    {recvs : List Bool}
    {remaining : Nat}
    (room : 0 < remaining)
    (returns : (readStream recvs remaining stream).result = .ready []) :
    history.finAccepted = true ∧ history.returned = history.accepted := by
  obtain ⟨bytes, reads⟩ :=
    readStream_reads recvs remaining balanced.marked listens
  obtain ⟨fin, writeBuf, readRx⟩ := reads.done returns room
  refine ⟨fin, ?_⟩
  have nothing : bytes = [] := by
    rcases reads.result with ready | ⟨pending, nothing⟩
    · rw [returns] at ready
      injection ready with same
      exact same.symm
    · exact nothing
  have joined := reads.joined
  rw [nothing, writeBuf, readRx] at joined
  rw [← balanced.bytes, List.append_assoc, ← joined]
  simp

/-! ## Runs -/

/-- The event is no segment with SYN, and none but with bytes of the peer. -/
def Label.Of (peer : PeerStream) (conn : Conn) (label : Label) : Prop :=
  ∀ packet pcb,
    label.event = .segment packet →
      conn.pcb = some pcb →
        packet.flags.syn = false ∧
          ∃ position,
            Consistent peer (conn.history.irs + 1) conn.history.position
              pcb.rcvWnd position (inputSeg packet.toPacket)

/-- The data part of `tcp_receive` continues with the peer's bytes. -/
theorem tcpReceiveData_continues
    {peer : PeerStream}
    {world : World}
    {history : History}
    {packet : InPacket}
    {pcb acked : TcpPcb}
    {position : Nat}
    (intact : Intact peer history pcb)
    (plain : packet.flags.syn = false)
    (consistent :
      Consistent peer (history.irs + 1) history.position pcb.rcvWnd position
        (inputSeg packet.toPacket))
    (rcv : acked.toRcvVars = pcb.toRcvVars) :
    wp (tcpReceiveData (inputSeg packet.toPacket) acked)
      (fun result _ =>
        Continues peer history.position pcb.toRcvVars result.1
          result.2.toRcvVars)
      (fun _ => True) world := by
  have size := packet.payload_le
  have len : (inputSeg packet.toPacket).len = packet.payload.length := rfl
  have within := intact.within
  refine wp_weaken
    (@tcpReceiveData_splice (fun _ => True) world
      (Slices peer history.position) (slices_cuts _ _)
      (inputSeg packet.toPacket) acked
      (inputSeg_totLen packet.toPacket).symm plain (by omega) (.inr trivial)
      (by
        rw [rcv]
        exact consistent.admitted intact.rcvNxt rfl · within intact.line)
      (by rw [rcv]; exact intact.line) (by rw [rcv]; exact within)
      (.inr ⟨trivial, trivial⟩) trivial) ?_
  rintro ⟨_, after⟩ later ⟨taken, rfl, splice⟩
  dsimp only at splice ⊢
  rw [rcv] at splice
  exact splice.continues

/-- What an event does to the receiver keeps the peer's bytes together. -/
theorem Receives.intact
    {peer : PeerStream}
    {history : History}
    {addr : Nat}
    {before after : TcpPcb}
    {stream later : Option TcpStream}
    {event : Event}
    {recv : RecvOut}
    {outcome : Outcome}
    (receives :
      Receives
        (fun _ out rcv =>
          Reading before stream →
            Continues peer history.position before.toRcvVars out rcv)
        before stream event recv outcome after later)
    (attached : Attached addr before stream)
    (intact : Reading before stream → Intact peer history before)
    (balanced : ∀ reader, stream = some reader → Balanced history reader)
    (untouched : before.state = .synRcvd → Untouched history) :
    (Reading after later → Intact peer (history.record recv outcome) after) ∧
      (∀ reader, later = some reader →
        Balanced (history.record recv outcome) reader) ∧
      (after.state = .synRcvd →
        Untouched (history.record recv outcome)) := by
  have owner := attached.owner
  cases receives with
  | idle state rcv unread noRead =>
      obtain ⟨irs, returned, accepted, finAccepted⟩ :=
        history.record_quiet noRead
      have waits (still : after.state = .synRcvd) :
          before.state = .synRcvd := by
        rcases state with same | shuts
        · exact same ▸ still
        · exact absurd still shuts.ne_synRcvd
      refine ⟨fun may => ?_, ?_, fun still =>
        (untouched (waits still)).congr returned accepted finAccepted⟩
      · unfold Reading at may
        rw [unread.isSome] at may
        have kept := intact (may.imp_left waits)
        have rcvNxt : after.rcvNxt = before.rcvNxt := by rw [rcv]
        have ooseq : after.ooseq = before.ooseq := by rw [rcv]
        exact kept.congr irs accepted finAccepted rcvNxt
          (by rw [rcv]; exact kept.within) (.inl ooseq)
      · rintro reader present
        rcases unread with rfl | ⟨known, closed, waker, rfl, rfl⟩
        · exact (balanced reader present).congr returned accepted finAccepted rfl
            rfl rfl
        · cases present
          exact (balanced known rfl).congr returned accepted finAccepted rfl rfl
            rfl
  | stale state rcv =>
      obtain ⟨irs, returned, accepted, finAccepted⟩ :=
        @History.record_quiet history .silent (by simp [Outcome.NoRead])
      have rcvNxt : after.rcvNxt = before.rcvNxt := by rw [rcv]
      have ooseq : after.ooseq = [] := by rw [rcv]
      refine ⟨fun may => ?_, fun reader present =>
        (balanced reader present).congr returned accepted finAccepted rfl rfl rfl,
        fun still =>
          (untouched (state ▸ still)).congr returned accepted finAccepted⟩
      unfold Reading at may
      rw [state] at may
      have kept := intact may
      exact kept.congr irs accepted finAccepted rcvNxt
        (by rw [rcv]; exact kept.within) (.inr ooseq)
  | read recvs remaining known present state rcv =>
      subst present
      cases owner with
      | stream _ streaming of =>
      have kept := intact (.inr rfl)
      have rcvNxt : after.rcvNxt = before.rcvNxt := by rw [rcv]
      have ooseq : after.ooseq = before.ooseq := by rw [rcv]
      have credited := (creditedWnd_bounds
        (readStream recvs remaining known).credited kept.within).2
      refine ⟨fun _ => ?_, ?_, fun still =>
        absurd (state ▸ still) streaming.state⟩
      · exact kept.congr rfl (List.append_nil _) (Bool.or_false _) rcvNxt
          (by rw [rcv]; exact credited) (.inl ooseq)
      · rintro _ ⟨⟩
        exact (balanced known rfl).read of.readTx recvs remaining
  | segment packet recv moves waits waiting received =>
      cases owner with
      | stream reader streaming of =>
          have kept := intact (.inr rfl)
          have taken :=
            (received streaming.recv).mono fun _ _ continues =>
              continues (.inr rfl)
          refine ⟨fun _ => kept.received taken _, ?_, fun still =>
            absurd still (moves.synRcvd streaming.state)⟩
          unfold heard
          rw [if_pos streaming.recv]
          rintro _ ⟨⟩
          exact (balanced reader rfl).hear of.readTx rfl (kept.nothing_after taken)
      | _ =>
          have nobody : heard before recv none = none := by
            unfold heard
            split <;> rfl
          rw [nobody]
          have first (still : after.state = .synRcvd) :
              before.state = .synRcvd := by
            by_contra synchronized
            exact moves.synRcvd synchronized still
          refine ⟨fun may => ?_, by simp, fun still => ?_⟩
          · have still := may.resolve_right (by simp)
            obtain ⟨rfl, rcv⟩ := waiting still
            have kept := intact (.inl (first still))
            have rcvNxt : after.rcvNxt = before.rcvNxt := by rw [rcv]
            have ooseq : after.ooseq = before.ooseq := by rw [rcv]
            exact kept.congr rfl (List.append_nil _) (Bool.or_false _) rcvNxt
              (by rw [rcv]; exact kept.within) (.inl ooseq)
          · obtain ⟨rfl, _⟩ := waiting still
            exact (untouched (first still)).congr rfl (List.append_nil _)
              (Bool.or_false _)
  | accepted packet recv addr id synRcvd moves synchronized received =>
      have kept := intact (.inl synRcvd)
      have taken :=
        received.mono fun _ _ continues => continues (.inl synRcvd)
      refine ⟨fun _ => kept.received taken _, ?_, fun still =>
        absurd still synchronized⟩
      rintro _ ⟨⟩
      exact (Balanced.new (untouched synRcvd) addr id before).hear rfl rfl
        (kept.nothing_after taken)
  | dropped state rcv =>
      have rcvNxt : after.rcvNxt = before.rcvNxt := by rw [rcv]
      have ooseq : after.ooseq = before.ooseq := by rw [rcv]
      refine ⟨fun may => ?_, by simp, fun still =>
        (untouched (state ▸ still)).congr rfl (List.append_nil _)
          (Bool.or_false _)⟩
      have still := may.resolve_right (by simp)
      rw [state] at still
      have kept := intact (.inl still)
      exact kept.congr rfl (List.append_nil _) (Bool.or_false _) rcvNxt
        (by rw [rcv]; exact kept.within) (.inl ooseq)

/-- What holds of every run of segments with the peer's bytes. -/
structure Conn.Receiving (peer : PeerStream) (conn : Conn) : Prop where
  reached : connMachine.Reached conn
  intact :
    ∀ pcb, conn.pcb = some pcb →
      Reading pcb conn.world.stream → Intact peer conn.history pcb
  balanced :
    ∀ pcb reader, conn.pcb = some pcb →
      conn.world.stream = some reader → Balanced conn.history reader
  untouched :
    ∀ pcb, conn.pcb = some pcb →
      pcb.state = .synRcvd → Untouched conn.history

theorem Conn.Receiving.initial
    (peer : PeerStream)
    {conn : Conn}
    (initial : conn.Initial) :
    conn.Receiving peer := by
  have silent := (Conn.initial_windowed initial).1
  have rcv (pcb : TcpPcb) (current : conn.pcb = some pcb) :=
    Conn.initial_rcv initial current
  obtain ⟨packet, listener, iss, world, -, -, -, -, -, -, -, history⟩ :=
    id initial
  refine ⟨.start initial, fun pcb current _ => ?_, fun _ _ _ present => ?_,
    fun _ _ _ => ?_⟩
  · have rcv := rcv pcb current
    have rcvNxt : pcb.rcvNxt = conn.history.irs + 1 := by rw [rcv]
    have ooseq : pcb.ooseq = [] := by rw [rcv]
    have position : conn.history.position = 0 := by
      rw [history]
      rfl
    refine ⟨⟨?_, ?_⟩, ?_, ?_, ?_⟩
    · rw [history]
      rfl
    · rw [history]
      nofun
    · rw [position, place_zero]
      exact rcvNxt
    · rw [rcv]
    · rw [ooseq]
      trivial
  · rw [silent] at present
    cases present
  · rw [history]
    exact ⟨rfl, rfl, rfl⟩

/-- A step of a segment with the peer's bytes, or of any other event. -/
theorem Conn.Receiving.step
    {peer : PeerStream}
    {before after : Conn}
    {label : Label}
    (receiving : before.Receiving peer)
    (of : label.Of peer before)
    (taken : before.step label = .ok after) :
    after.Receiving peer := by
  have reached : connMachine.Reached after :=
    .next receiving.reached trivial taken
  cases current : before.pcb with
  | none =>
      have performed :=
        perform_none label.event before.history.sendLog
          (label.enter before.world)
      rw [← current] at performed
      obtain ⟨outcome, -, gone, -⟩ := Conn.step_returned performed taken
      have gone : after.pcb = none := gone.trans current
      refine ⟨reached, ?_, ?_, ?_⟩ <;> simp [gone]
  | some pcb =>
      obtain ⟨attached, inUse⟩ := attached_of_reached receiving.reached current
      have performed :=
        @Conn.step_receives (fun _ => True)
          (fun _ out rcv =>
            Reading pcb before.world.stream →
              Continues peer before.history.position pcb.toRcvVars out rcv)
          (fun _ _ => trivial) trivial before pcb current attached inUse label
          (by
            intro packet event _ _ acked world rcv _
            obtain ⟨plain, position, consistent⟩ := of packet pcb event current
            by_cases reading : Reading pcb before.world.stream
            · exact wp_weaken
                (tcpReceiveData_continues (receiving.intact pcb current reading)
                  plain consistent rcv)
                fun _ _ continues _ => continues
            · exact wp_of_outcomes
                (fun _ _ _ may => absurd may reading) fun _ _ => trivial)
      rw [taken] at performed
      obtain ⟨outcome, history, moved⟩ := performed
      unfold ReceivesOrFreed at moved
      cases left : after.pcb with
      | none =>
          refine ⟨reached, ?_, ?_, ?_⟩ <;> simp [left]
      | some next =>
          rw [left] at moved
          obtain ⟨intact, balanced, untouched⟩ :=
            Receives.intact moved attached (receiving.intact pcb current)
              (fun reader => receiving.balanced pcb reader current)
              (receiving.untouched pcb current)
          refine ⟨reached, ?_, ?_, ?_⟩ <;> rw [left, history]
          · rintro _ ⟨⟩
            exact intact
          · rintro _ reader ⟨⟩
            exact balanced reader
          · rintro _ ⟨⟩
            exact untouched

theorem Conn.receiving_of_reached
    {peer : PeerStream}
    {conn : Conn}
    (reached :
      connMachine.ReachedUnder (fun before label => label.Of peer before)
        conn) :
    conn.Receiving peer :=
  reached.invariant
    (fun first initial =>
      (Conn.Receiving.initial peer initial : Conn.Receiving peer first))
    fun _ _ _ before of taken => before.step of taken

/-- In every run of segments with the peer's bytes, what has been read and what
the stream still holds are how these bytes begin, as far as `rcv_nxt` says; and
a read into a buffer with room returns nothing only once the FIN and all of the
bytes have come. -/
theorem received_stream_intact
    (peer : PeerStream)
    {conn : Conn}
    (reached :
      connMachine.ReachedUnder (fun before label => label.Of peer before) conn)
    {stream : TcpStream}
    {pcb : TcpPcb}
    (present : conn.world.stream = some stream)
    (current : conn.pcb = some pcb) :
    (∃ length,
        length ≤ peer.bytes.length ∧
          pcb.rcvNxt =
            conn.history.irs + 1 +
              BitVec.ofNat 32
                (length + if conn.history.finAccepted then 1 else 0) ∧
          conn.history.returned ++ stream.writeBuf ++ stream.readRx.flatten =
            peer.bytes.take length ∧
          (conn.history.finAccepted = true →
            peer.ended = true ∧ length = peer.bytes.length)) ∧
      ∀ label after remaining,
        label.event = .pollRead remaining →
          0 < remaining →
            conn.step label = .ok after →
              after.history.outcome = .read remaining (.ready []) →
                conn.history.finAccepted = true ∧
                  peer.ended = true ∧
                  conn.history.returned = peer.bytes := by
  have receiving := Conn.receiving_of_reached reached
  have reading : Reading pcb conn.world.stream :=
    .inr (by rw [present]; rfl)
  have intact := receiving.intact pcb current reading
  have balanced := receiving.balanced pcb stream current present
  have accepted := intact.pre.accepted
  have all (fin : conn.history.finAccepted = true) :
      conn.history.accepted = peer.bytes := by
    rw [accepted, (intact.pre.fin fin).2, List.take_length]
  constructor
  · refine ⟨conn.history.accepted.length, ?_, intact.rcvNxt, ?_,
      intact.pre.fin⟩
    · rw [accepted, List.length_take]
      exact Nat.min_le_right _ _
    · rw [balanced.bytes]
      exact accepted
  · intro label after remaining event room taken returns
    obtain ⟨attached, inUse⟩ := attached_of_reached receiving.reached current
    have performed :=
      @Conn.step_receives (fun _ => True) (fun _ _ _ => True)
        (fun _ _ => trivial) trivial conn pcb current attached inUse label
        fun _ _ _ _ _ _ _ _ =>
          wp_of_outcomes (fun _ _ _ => trivial) fun _ _ => trivial
    rw [taken] at performed
    obtain ⟨outcome, history, moved⟩ := performed
    have result : outcome = .read remaining (.ready []) := by
      rw [history] at returns
      exact returns
    have listens : stream.readTx = true := by
      have owner := attached.owner
      rw [present] at owner
      cases owner with
      | stream _ _ of => exact of.readTx
    unfold ReceivesOrFreed at moved
    rw [event, present] at moved
    cases left : after.pcb with
    | none =>
        rw [left] at moved
        cases moved
    | some next =>
        rw [left] at moved
        generalize acceptedBy conn.pcb label conn.world = recv,
          after.world.stream = later at moved
        cases moved with
        | idle _ _ _ noRead =>
            exact absurd result (noRead remaining (.ready []))
        | read _ _ known same _ _ =>
            cases same
            injection result with _ ready
            obtain ⟨fin, returned⟩ := balanced.end listens room ready
            exact ⟨fin, (intact.pre.fin fin).1, returned.trans (all fin)⟩

instance (peer : PeerStream) (position : Nat) (seg : TcpSeg) :
    Decidable (Slice peer position seg) :=
  decidable_of_iff
    (position + seg.len ≤ peer.bytes.length ∧
      seg.p.data = (peer.bytes.drop position).take seg.len ∧
      (seg.hdr.fin = true →
        peer.ended = true ∧ position + seg.len = peer.bytes.length))
    ⟨fun holds => ⟨holds.1, holds.2.1, holds.2.2⟩,
      fun slice => ⟨slice.inside, slice.data, slice.fin⟩⟩

instance
    (peer : PeerStream)
    (first : SeqNo)
    (taken rcvWnd position : Nat)
    (seg : TcpSeg) :
    Decidable (Consistent peer first taken rcvWnd position seg) :=
  decidable_of_iff
    (seg.seqno = place first position ∧ Slice peer position seg ∧
      position ≤ taken + 2 ^ 30 ∧ taken + rcvWnd ≤ position + 2 ^ 32 ∧
      (rcvWnd = 0 → taken ≠ position + 2 ^ 31 + 1))
    ⟨fun holds =>
        ⟨holds.1, holds.2.1, holds.2.2.1, holds.2.2.2.1, holds.2.2.2.2⟩,
      fun consistent =>
        ⟨consistent.seqno, consistent.slice, consistent.ahead,
          consistent.behind, consistent.halfway⟩⟩

/-- `Label.Of` at the place nearest to `rcv_nxt`, as a check. -/
def Label.checkOf (peer : PeerStream) (conn : Conn) (label : Label) : Bool :=
  match label.event with
  | .segment packet =>
      conn.pcb.all fun pcb =>
        !packet.flags.syn &&
          (decide
              (Consistent peer (conn.history.irs + 1) conn.history.position
                pcb.rcvWnd
                (conn.history.position + distance pcb.rcvNxt packet.seqno)
                (inputSeg packet.toPacket)) ||
            decide
              (Consistent peer (conn.history.irs + 1) conn.history.position
                pcb.rcvWnd
                (conn.history.position - distance packet.seqno pcb.rcvNxt)
                (inputSeg packet.toPacket)))
  | _ => true

theorem Label.of_of_check
    (peer : PeerStream)
    (conn : Conn)
    (label : Label)
    (checked : label.checkOf peer conn = true) :
    label.Of peer conn := by
  intro packet pcb event current
  unfold checkOf at checked
  rw [event, current] at checked
  simp only [Option.all_some, Bool.and_eq_true, Bool.not_eq_true',
    Bool.or_eq_true, decide_eq_true_eq] at checked
  exact ⟨checked.1,
    checked.2.elim (fun atEdge => ⟨_, atEdge⟩) fun atEdge => ⟨_, atEdge⟩⟩

/-- Six bytes and a FIN: the last three come early, then the first four, of
which two more come again; four are read. -/
theorem received_stream_intact_overlap :
    ∃ conn stream pcb,
      connMachine.ReachedUnder
          (fun before label => label.Of ⟨[1, 2, 3, 4, 5, 6], true⟩ before)
          conn ∧
        conn.world.stream = some stream ∧
        conn.pcb = some pcb ∧
        conn.history.returned = [1, 2, 3, 4] ∧
        stream.writeBuf = [5, 6] ∧
        stream.readRx = [[]] ∧
        ∃ length,
          length ≤ 6 ∧
            pcb.rcvNxt =
              conn.history.irs + 1 +
                BitVec.ofNat 32
                  (length + if conn.history.finAccepted then 1 else 0) ∧
            conn.history.returned ++ stream.writeBuf ++
                stream.readRx.flatten =
              [1, 2, 3, 4, 5, 6].take length := by
  obtain ⟨conn, reached, holds⟩ :=
    exists_reachedUnder
      (fun before label => label.Of ⟨[1, 2, 3, 4, 5, 6], true⟩ before)
      (fun before label => label.checkOf ⟨[1, 2, 3, 4, 5, 6], true⟩ before)
      (fun conn label checked => label.of_of_check _ conn checked)
      (exampleSyn 1000 []) 0 6510 exampleWorld
      [{ event :=
          .segment (exampleSegment { ack := true } 100 6511 1000 [] []) },
        { event :=
          .segment
            (exampleSegment { ack := true, fin := true } 103 6511 1000
              [4, 5, 6] []) },
        { event :=
          .segment
            (exampleSegment { ack := true } 100 6511 1000 [1, 2, 3, 4] []) },
        { event :=
          .segment (exampleSegment { ack := true } 102 6511 1000 [3, 4] []) },
        { event := .pollRead 4 }]
      (fun conn : Conn =>
        conn.world.stream.any fun stream : TcpStream =>
          conn.pcb.isSome &&
            decide
              (conn.history.returned = [1, 2, 3, 4] ∧
                stream.writeBuf = [5, 6] ∧ stream.readRx = [[]]))
      rfl rfl rfl (by decide +kernel)
  obtain ⟨stream, present, both⟩ := (Option.any_eq_true _ _).mp holds
  rw [Bool.and_eq_true] at both
  obtain ⟨pcb, current⟩ := Option.isSome_iff_exists.mp both.1
  obtain ⟨returned, writeBuf, readRx⟩ := of_decide_eq_true both.2
  obtain ⟨length, inside, rcvNxt, bytes, _⟩ :=
    (received_stream_intact ⟨[1, 2, 3, 4, 5, 6], true⟩ reached present
      current).1
  exact ⟨conn, stream, pcb, reached, present, current, returned, writeBuf,
    readRx, length, inside, rcvNxt, bytes⟩

/-! ## Sequence numbers that come again -/

/-- With memory, an acknowledgement of its own announces the window. -/
theorem tcpOutput_announces
    {allowed : Fault → Prop}
    {world : World}
    {pcb : TcpPcb}
    (idle : pcb.unsent = [])
    (now : pcb.flags.ackNow = true)
    (memory : world.allocs = [])
    (link : world.outputs = []) :
    wp (tcpOutput false pcb)
      (fun result _ =>
        ∃ flags : PcbFlags,
          flags.rxclosed = pcb.flags.rxclosed ∧
            result.2 = { announceWnd pcb with flags := flags })
      allowed world := by
  unfold tcpOutput
  rw [if_neg Bool.false_ne_true]
  simp only [idle, now, if_true]
  unfold tcpSendEmptyAck allocate tcpOutputControlSegment ipOutputIf
  rw [wp_bind, wp_modifyGet, memory]
  simp only
  rw [if_pos trivial, wp_bind, wp_modifyGet, link]
  simp only
  rw [wp_pure]
  exact ⟨{ pcb.flags with ackDelay := false, ackNow := false }, rfl, rfl⟩

/-- With memory, a read of the flood announces the whole window again. -/
theorem tcpRecved_announces
    {world : World}
    {pcb : TcpPcb}
    {stream : TcpStream}
    (stalled : Stalled 0 (tcpWnd - 2 ^ 15) [floodBytes] pcb stream)
    (memory : world.allocs = [])
    (link : world.outputs = []) :
    wp (tcpRecved false pcb (floodBytes.length % 65536))
      (fun after _ => Stalled 0 tcpWnd [floodBytes] after stream)
      (fun _ => False) world := by
  have returned : recvedWnd pcb.rcvWnd (floodBytes.length % 65536) = tcpWnd := by
    rw [stalled.wnd, floodBytes_length]
    decide
  have small : pcb.rcvWnd = 13952 := stalled.wnd
  have edge : pcb.rcvAnnRightEdge = pcb.rcvNxt + BitVec.ofNat 32 13952 := by
    have lag := stalled.lag
    unfold TcpPcb.lag TcpPcb.rightEdge SerialNumber.distance at lag
    rw [small] at lag
    bv_omega
  have mss := stalled.mss
  have step : min (tcpWnd / 2) pcb.mss ≤ 1460 :=
    (Nat.min_le_right _ _).trans mss.2
  have value : tcpWnd = 46720 := rfl
  unfold tcpRecved
  rw [wp_bind, returned]
  unfold tcpUpdateRcvAnnWnd
  rw [wp_ite]
  refine ⟨fun _ => ?_, fun behind => ?_⟩
  · rw [wp_pure]
    simp only
    rw [wp_ite]
    refine ⟨fun _ => ?_, fun small => ?_⟩
    · rw [wp_bind]
      refine wp_weaken (tcpOutput_announces stalled.idle rfl memory link) ?_
      rintro ⟨_, after⟩ later ⟨flags, rxclosed, same⟩
      rw [wp_pure, show after = _ from same]
      exact {
        stalled with
        rxopen := rxclosed.trans stalled.rxopen
        wnd := rfl
        lag := by
          unfold announceWnd TcpPcb.lag TcpPcb.rightEdge SerialNumber.distance
          simp }
    · exfalso
      apply small
      have inflation :
          (pcb.rcvNxt + BitVec.ofNat 32 tcpWnd - pcb.rcvAnnRightEdge).toNat =
            2 ^ 15 := by
        rw [edge, value]
        bv_omega
      rw [inflation]
      decide
  · exfalso
    apply behind
    dsimp only
    rw [edge, value, SerialNumber.geq_iff]
    unfold SerialNumber.distance
    rw [value] at step
    generalize min (46720 / 2) pcb.mss = size at *
    bv_omega

/-- The application reads, with memory for an acknowledgement. -/
def readLabel : Label where
  event := .pollRead (2 ^ 15)

/-- Zeros all around the circle of sequence numbers, and then a one. -/
@[irreducible]
def circleBytes : Bytes :=
  List.replicate (2 ^ 32) 0 ++ [1]

/-- A peer that sends them, and does not end. -/
def circlePeer : PeerStream where
  bytes := circleBytes
  ended := false

theorem circleBytes_length :
    circleBytes.length = 2 ^ 32 + 1 := by
  rw [circleBytes, List.length_append, List.length_replicate]
  rfl

/-- Up to the end of the circle, every flood is a slice. -/
theorem floodSeg_slice
    (seqno : SeqNo)
    {position : Nat}
    (inside : position + 2 ^ 15 ≤ 2 ^ 32) :
    Slice circlePeer position (floodSeg seqno) where
  inside := by
    have len : (floodSeg seqno).len = 2 ^ 15 := floodBytes_length
    have all : circlePeer.bytes.length = 2 ^ 32 + 1 := circleBytes_length
    omega
  data := by
    have len : (floodSeg seqno).len = 2 ^ 15 := floodBytes_length
    have data : (floodSeg seqno).p.data = floodBytes :=
      List.flatten_singleton
    have bytes : circlePeer.bytes = List.replicate (2 ^ 32) 0 ++ [1] := by
      unfold circlePeer circleBytes
      rfl
    rw [len, data, bytes, floodBytes,
      List.drop_append_of_le_length
        (by rw [List.length_replicate]; omega),
      List.drop_replicate, List.take_append_of_le_length
        (by rw [List.length_replicate]; omega),
      List.take_replicate, Nat.min_eq_left (by omega)]
  fin := nofun

/-- A segment with a slice of the peer's bytes, however old, that ends before
the right edge of the window, or any other event. -/
def Label.OfAnyAge
    (peer : PeerStream)
    (conn : Conn)
    (label : Label) : Prop :=
  ∀ packet pcb,
    label.event = .segment packet →
      conn.pcb = some pcb →
        packet.flags.syn = false ∧ packet.flags.rst = false ∧
          leq (inputSeg packet.toPacket).endSeq pcb.rightEdge = true ∧
          ∃ position,
            packet.seqno = place (conn.history.irs + 1) position ∧
              Slice peer position (inputSeg packet.toPacket)

/-- The event is one of the peer's, at its place and in the window. -/
def Label.InPlace (conn : Conn) (label : Label) : Prop :=
  label.Of circlePeer conn ∧ label.OfAnyAge circlePeer conn

/-- A segment without data at the start of the peer's bytes. -/
def Label.isOpening (conn : Conn) (label : Label) : Bool :=
  match label.event with
  | .segment packet =>
      conn.pcb.all fun pcb =>
        decide
          (packet.payload = [] ∧ packet.flags = { ack := true } ∧
            packet.seqno = conn.history.irs + 1 ∧
            conn.history.position = 0 ∧ pcb.rcvWnd = tcpWnd ∧
            leq packet.seqno pcb.rightEdge = true)
  | _ => false

theorem Label.inPlace_of_opening
    (conn : Conn)
    (label : Label)
    (opening : label.isOpening conn = true) :
    label.InPlace conn := by
  have known (packet : InPacket) (pcb : TcpPcb)
      (event : label.event = .segment packet)
      (current : conn.pcb = some pcb) :
      packet.payload = [] ∧ packet.flags = { ack := true } ∧
        packet.seqno = conn.history.irs + 1 ∧
        conn.history.position = 0 ∧ pcb.rcvWnd = tcpWnd ∧
        leq packet.seqno pcb.rightEdge = true := by
    unfold isOpening at opening
    rw [event, current] at opening
    exact of_decide_eq_true opening
  have slice (packet : InPacket) (empty : packet.payload = [])
      (flags : packet.flags = { ack := true }) :
      Slice circlePeer 0 (inputSeg packet.toPacket) := by
    have len : (inputSeg packet.toPacket).len = 0 := by
      show packet.payload.length = 0
      rw [empty]
      rfl
    refine ⟨by omega, ?_, fun fin => ?_⟩
    · rw [len, List.take_zero]
      show [packet.payload].flatten = []
      rw [empty]
      rfl
    · have noFin : packet.flags.fin = true := fin
      rw [flags] at noFin
      cases noFin
  refine ⟨fun packet pcb event current => ?_,
    fun packet pcb event current => ?_⟩
  · obtain ⟨empty, flags, seqno, position, wnd, -⟩ :=
      known packet pcb event current
    have value : tcpWnd = 46720 := rfl
    refine ⟨by rw [flags], 0, ?_, slice packet empty flags, by omega,
      by omega, by omega⟩
    rw [place_zero]
    exact seqno
  · obtain ⟨empty, flags, seqno, -, -, inside⟩ := known packet pcb event current
    refine ⟨by rw [flags], by rw [flags], ?_, 0, ?_, slice packet empty flags⟩
    · have ends : (inputSeg packet.toPacket).endSeq = packet.seqno := by
        have tcplen : (inputSeg packet.toPacket).tcplen = 0 := by
          show packet.payload.length +
            (if packet.flags.fin || packet.flags.syn then 1 else 0) = 0
          rw [empty, flags]
          rfl
        unfold TcpSeg.endSeq
        rw [tcplen]
        exact BitVec.add_zero _
      rw [ends]
      exact inside
    · rw [place_zero]
      exact seqno

/-- Where a stalled connection stands: all that was taken has been read. -/
theorem Conn.Stalls.position
    {rounds : Nat}
    {conn : Conn}
    (stalls : conn.Stalls rounds)
    (reached :
      connMachine.ReachedUnder
        (fun before label => label.Of circlePeer before) conn) :
    conn.history.position = conn.history.returned.length ∧
      ∀ pcb, conn.pcb = some pcb →
        pcb.rcvNxt =
          place (conn.history.irs + 1) conn.history.returned.length := by
  obtain ⟨pcb, stream, isPcb, isStream, stalled⟩ := stalls
  have receiving := Conn.receiving_of_reached reached
  have intact :=
    receiving.intact pcb isPcb (.inr (by rw [isStream]; rfl))
  have balanced := receiving.balanced pcb stream isPcb isStream
  have unfinished : conn.history.finAccepted = false := by
    cases fin : conn.history.finAccepted with
    | false => rfl
    | true => exact absurd (intact.pre.fin fin).1 Bool.false_ne_true
  have bytes := balanced.bytes
  rw [stalled.drained, stalled.chunks, List.append_nil, List.flatten_nil,
    List.append_nil] at bytes
  have position : conn.history.position = conn.history.returned.length := by
    unfold History.position
    rw [unfinished, ← bytes]
    rfl
  refine ⟨position, fun other isOther => ?_⟩
  cases isPcb.symm.trans isOther
  rw [← position]
  exact intact.rcvNxt

/-- A flood is a segment of the peer, where the bytes are still zeros. -/
theorem Conn.Stalls.floodOfAnyAge
    {rounds position : Nat}
    {conn : Conn}
    {pcb : TcpPcb}
    (stalls : conn.Stalls rounds)
    (isPcb : conn.pcb = some pcb)
    (rcvNxt : pcb.rcvNxt = place (conn.history.irs + 1) position)
    (inside : position + 2 ^ 15 ≤ 2 ^ 32) :
    (floodLabel pcb.rcvNxt).OfAnyAge circlePeer conn := by
  obtain ⟨known, stream, isKnown, -, stalled⟩ := stalls
  cases isPcb.symm.trans isKnown
  rintro packet other ⟨⟩ isOther
  cases isPcb.symm.trans isOther
  refine ⟨rfl, rfl, ?_, position, rcvNxt, floodSeg_slice _ inside⟩
  unfold TcpSeg.endSeq TcpPcb.rightEdge
  rw [floodSeg_tcplen, stalled.wnd]
  have starts : (floodSeg pcb.rcvNxt).seqno = pcb.rcvNxt := rfl
  have value : tcpWnd = 46720 := rfl
  rw [starts, value, SerialNumber.leq_iff]
  unfold SerialNumber.distance
  bv_omega

/-- One flood and its read, with memory for the acknowledgement. -/
theorem Conn.Stalls.read
    {conn : Conn}
    (stalls : conn.Stalls 0) :
    ∃ pcb middle after,
      conn.pcb = some pcb ∧
        conn.step (floodLabel pcb.rcvNxt) = .ok middle ∧
        middle.step readLabel = .ok after ∧
        middle.Filled 0 ∧
        middle.history.returned = conn.history.returned ∧
        after.Stalls 0 ∧
        after.history.returned = conn.history.returned ++ floodBytes := by
  obtain ⟨pcb, middle, isPcb, flooded, filled, same⟩ :=
    stalls.flood (Nat.zero_le _)
  obtain ⟨after, drained, left, read, isDrained, isStream, known, returned⟩ :=
    @Conn.Filled.drain 0 tcpWnd 0 middle readLabel filled rfl rfl
      fun pcb stream stalled =>
        pollReadPcb_opened stalled (tcpRecved_announces stalled rfl rfl)
  exact ⟨pcb, middle, after, isPcb, flooded, read, filled, same,
    ⟨drained, left, isDrained, isStream, known⟩, by rw [returned, same]⟩

theorem exists_circled
    {rounds : Nat}
    (few : rounds ≤ 2 ^ 17) :
    ∃ conn,
      connMachine.ReachedUnder (fun before label => label.InPlace before)
          conn ∧
        conn.Stalls 0 ∧
        conn.history.returned.length = rounds * 2 ^ 15 := by
  induction rounds with
  | zero =>
      obtain ⟨conn, reached, holds⟩ :=
        exists_reachedUnder (fun before label => label.InPlace before)
          (fun before label => label.isOpening before)
          (fun conn label opening => label.inPlace_of_opening conn opening)
          (exampleSyn 1000 []) 0 0 exampleWorld
          [{ event :=
            .segment (exampleSegment { ack := true } 100 1 1000 [] []) }]
          (fun conn =>
            conn.pcb.any fun pcb =>
              conn.world.stream.any fun stream =>
                decide
                  (Stalled 0 tcpWnd [] pcb stream ∧
                    conn.history.returned.length = 0))
          rfl rfl rfl (by decide +kernel)
      obtain ⟨pcb, isPcb, known⟩ := (Option.any_eq_true _ _).mp holds
      obtain ⟨stream, isStream, both⟩ := (Option.any_eq_true _ _).mp known
      obtain ⟨stalled, nothing⟩ := of_decide_eq_true both
      exact ⟨conn, reached, ⟨pcb, stream, isPcb, isStream, stalled⟩, by
        rw [nothing, Nat.zero_mul]⟩
  | succ rounds inductionHypothesis =>
      obtain ⟨conn, reached, stalls, length⟩ := inductionHypothesis (by omega)
      obtain ⟨pcb, middle, after, isPcb, flooded, read, -, -, next, returned⟩ :=
        stalls.read
      obtain ⟨position, rcvNxt⟩ :=
        stalls.position (reached.mono fun _ _ both => both.1)
      have inside : conn.history.returned.length + 2 ^ 15 ≤ 2 ^ 32 := by
        omega
      have of : (floodLabel pcb.rcvNxt).Of circlePeer conn := by
        obtain ⟨known, stream, isKnown, -, stalled⟩ := id stalls
        cases isPcb.symm.trans isKnown
        rintro packet other ⟨⟩ isOther
        cases isPcb.symm.trans isOther
        have value : tcpWnd = 46720 := rfl
        have wnd := stalled.wnd
        rw [position]
        exact ⟨rfl, _, rcvNxt pcb isPcb, floodSeg_slice _ inside, by omega,
          by omega, by omega⟩
      have anyAge :=
        stalls.floodOfAnyAge isPcb (rcvNxt pcb isPcb) inside
      have reads : readLabel.InPlace middle := by
        constructor <;> (rintro _ _ ⟨⟩)
      refine ⟨after, .next (.next reached ⟨of, anyAge⟩ flooded) reads read,
        next, ?_⟩
      rw [returned, List.length_append, length, floodBytes_length]
      omega

/-- A segment from one circle ago is taken for new data. -/
theorem received_stream_broken :
    ∃ conn stream pcb,
      connMachine.ReachedUnder
          (fun before label => label.OfAnyAge circlePeer before) conn ∧
        conn.world.stream = some stream ∧
        conn.pcb = some pcb ∧
        ∀ length,
          conn.history.returned ++ stream.writeBuf ++
              stream.readRx.flatten ≠
            circlePeer.bytes.take length := by
  obtain ⟨conn, reached, stalls, length⟩ := exists_circled (Nat.le_refl _)
  obtain ⟨pcb, middle, after, isPcb, flooded, read, filled, same, -⟩ :=
    stalls.read
  obtain ⟨-, rcvNxt⟩ := stalls.position (reached.mono fun _ _ both => both.1)
  have again :
      pcb.rcvNxt = place (conn.history.irs + 1) 0 := by
    rw [rcvNxt pcb isPcb, length, place_zero]
    exact BitVec.add_zero _
  have anyAge := stalls.floodOfAnyAge isPcb again (by omega)
  obtain ⟨taken, stream, isTaken, isStream, stalled⟩ := filled
  refine ⟨middle, stream, taken,
    .next (reached.mono fun _ _ both => both.2) anyAge flooded, isStream,
    isTaken, fun short equal => ?_⟩
  have lengths := congrArg List.length equal
  have all : circlePeer.bytes.length = 2 ^ 32 + 1 := circleBytes_length
  rw [stalled.drained, stalled.chunks, List.append_nil,
    List.flatten_singleton, same, List.length_append, length,
    floodBytes_length, List.length_take, all] at lengths
  omega

end NetstackLwip

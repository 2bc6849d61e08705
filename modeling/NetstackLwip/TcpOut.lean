import NetstackLwip.Checksum

namespace NetstackLwip

/-!
# `tcp_out.c`

Queueing, splitting and emitting segments. The one netif always routes, its
output callback copies the packet, so no queued segment is ever busy, and the
crate never clears `TCP_WRITE_FLAG_COPY`. Where bytes lie in memory makes no
difference to their checksum, so the sums are taken here at address 0.
-/

open FaultState
open InetChksum (SegChksum Buf tcpDataCopy tcpConcatChksum splitHeadChksum
  splitRemainderChksum outputSegmentChksum)

/-! ## Memory and the IP layer -/

/-- The outcome of the next memory allocation. -/
def allocate : Lwip Bool :=
  modifyGet fun world =>
    match world.allocs with
    | [] => (true, world)
    | outcome :: rest => (outcome, { world with allocs := rest })

/-- `ip_output_if`: the packet counts as sent when the call succeeds. -/
def ipOutputIf (packet : Packet) : Lwip Err :=
  modifyGet fun world =>
    match world.outputs with
    | [] => (.ok, { world with sent := world.sent ++ [packet] })
    | .ok :: rest =>
        (.ok, { world with outputs := rest, sent := world.sent ++ [packet] })
    | err :: rest => (err, { world with outputs := rest })

/-- `ip_netif_get_local_ip` on the loop netif. -/
def ipNetifGetLocalIp : IpAddr → IpAddr
  | .v4 _ => .v4 0x7f000001
  | .v6 _ => .v6 1

/-- `tcp_eff_send_mss_netif`. -/
def tcpEffSendMssNetif (sendmss : Nat) (mtu6 : Mtu6) : IpAddr → Nat
  | .v4 _ =>
      min sendmss (if 40 < netifMtu then netifMtu - 40 else 0)
  | .v6 _ =>
      if mtu6.val = 0 then
        sendmss
      else
        min sendmss (if 60 < mtu6.val then mtu6.val - 60 else 0)

/-- `TCP_BUILD_MSS_OPTION`. -/
def tcpBuildMssOption (mss : Nat) : Bytes :=
  [2, 4, UInt8.ofNat (mss / 256), UInt8.ofNat (mss % 256)]

/-! ## Segments -/

/-- Apply `change` to the last segment. -/
def mapLast (change : TcpSeg → TcpSeg) : List TcpSeg → List TcpSeg
  | [] => []
  | [seg] => [change seg]
  | seg :: next :: rest => seg :: mapLast change (next :: rest)

/-- Insert before the first segment that does not come earlier. -/
def insertSorted (seg : TcpSeg) : List TcpSeg → List TcpSeg
  | [] => [seg]
  | cur :: rest =>
      if SerialNumber.lt cur.seqno seg.seqno then
        cur :: insertSorted seg rest
      else
        seg :: cur :: rest

/-- `tcp_create_segment`; `p` is freed on failure. -/
def tcpCreateSegment
    (p : Pbuf)
    (hdr : HdrFlags)
    (seqno : SeqNo)
    (optsMss : Bool) :
    Lwip (Option TcpSeg) := do
  if ← allocate then
    pure (some { p, len := p.totLen, seqno, hdr, optsMss })
  else
    pure none

/-- `tcp_pbuf_prealloc`: the number of usable tail bytes, if memory lasts. -/
def tcpPbufPrealloc
    (length maxLength : Nat)
    (pcb : TcpPcb)
    (more firstSeg : Bool) :
    Lwip (Option Nat) := do
  let deferred :=
    !pcb.flags.nodelay &&
      (!firstSeg || !pcb.unsent.isEmpty || !pcb.unacked.isEmpty)
  let size :=
    if length < maxLength && (more || deferred) then
      min maxLength (length + tcpOversize)
    else
      length
  if ← allocate then
    pure (some (size - length))
  else
    pure none

/-! ## `tcp_write` -/

/-- `tcp_write_checks`. -/
def tcpWriteChecks (pcb : TcpPcb) (len : Nat) : Lwip (Err × TcpPcb) := do
  if pcb.state ≠ .established ∧ pcb.state ≠ .closeWait ∧
      pcb.state ≠ .synRcvd then
    pure (.conn, pcb)
  else if len = 0 then
    pure (.ok, pcb)
  else if pcb.sndBuf < len then
    pure (.mem, { pcb with flags.naglememerr := true })
  else if
      min tcpSndQueuelen (tcpSndQueuelenOverflow + 1) ≤ pcb.sndQueuelen then
    pure (.mem, { pcb with flags.naglememerr := true })
  else if pcb.sndQueuelen ≠ 0 then do
    ensure (!pcb.unacked.isEmpty || !pcb.unsent.isEmpty) .writeQueueNonEmpty
    pure (.ok, pcb)
  else do
    ensure (pcb.unacked.isEmpty && pcb.unsent.isEmpty) .writeQueueEmpty
    pure (.ok, pcb)

/-- `mss_local` of `tcp_write`: half the largest window ever announced, when
that is not zero, bounds the segment size. -/
def mssLocal (pcb : TcpPcb) : Nat :=
  let bounded := min pcb.mss (pcb.sndWndMax / 2)
  if bounded = 0 then pcb.mss else bounded

/-- What phases 1 and 2 of `tcp_write` decide about the last unsent segment. -/
structure WriteTail where
  touched : Bool := false
  oversizeUsed : Nat := 0
  oversize : Nat := 0
  oversizeAdd : Nat := 0
  concatP : Option Pbuf := none
  pos : Nat := 0
  queuelen : Nat
  deriving DecidableEq, Repr

/-- Phases 1 and 2 of `tcp_write`: fill the tail of the last unsent segment. -/
def tcpWriteTail
    (pcb : TcpPcb)
    (arg : Bytes)
    (more : Bool) :
    Lwip (Option WriteTail) := do
  match pcb.unsent.getLast? with
  | none => do
      ensure (pcb.unsentOversize == 0) .oversizeMismatchNull
      pure (some { queuelen := pcb.sndQueuelen })
  | some lastUnsent => do
      let filled := lastUnsent.len + lastUnsent.optLength
      ensure (filled ≤ mssLocal pcb) .mssLocalTooSmall
      let space := mssLocal pcb - filled
      ensure (pcb.unsentOversize == lastUnsent.oversizeLeft) .oversizeMismatch
      ensure (pcb.unsentOversize ≤ space) .oversizeSpace
      -- Phase 1: copy into the room left in the last buffer.
      let used := min space (min pcb.unsentOversize arg.length)
      let oversize := pcb.unsentOversize - used
      ensure (oversize == 0 || used == arg.length) .oversizeLen
      -- Phase 2: chain one more buffer, unless the segment is a bare flag.
      if used < arg.length ∧ 0 < space - used ∧ 0 < lastUnsent.len then do
        let seglen := min (space - used) (arg.length - used)
        match ← tcpPbufPrealloc seglen (space - used) pcb more true with
        | none => pure none
        | some oversizeAdd =>
            pure (some {
              touched := true
              oversizeUsed := used
              oversize := oversizeAdd
              oversizeAdd
              concatP := some [(arg.drop used).take seglen]
              pos := used + seglen
              queuelen := pcb.sndQueuelen + 1 })
      else
        pure (some {
          touched := 0 < pcb.unsentOversize
          oversizeUsed := used
          oversize
          pos := used
          queuelen := pcb.sndQueuelen })

/-- What phase 3 of `tcp_write` has built. -/
structure WriteQueue where
  queue : List TcpSeg := []
  oversize : Nat
  pos : Nat
  queuelen : Nat
  deriving DecidableEq, Repr

/--
Phase 3 of `tcp_write`: segments for the data left after `built.pos`. Each
round adds a buffer to a queue that may hold `TCP_SND_QUEUELEN` of them, which
bounds the number of rounds.
-/
def tcpWriteSegs
    (pcb : TcpPcb)
    (arg : Bytes)
    (more : Bool) :
    Nat → WriteQueue → Lwip (Option WriteQueue)
  | 0, built =>
      if built.pos < arg.length then pure none else pure (some built)
  | rounds + 1, built =>
      if built.pos < arg.length then do
        let seglen := min (arg.length - built.pos) (mssLocal pcb)
        match
            ← tcpPbufPrealloc seglen (mssLocal pcb) pcb more
              built.queue.isEmpty with
        | none => pure none
        | some oversize =>
            if min tcpSndQueuelen tcpSndQueuelenOverflow <
                built.queuelen + 1 then
              pure none
            else do
              match
                  ← tcpCreateSegment [(arg.drop built.pos).take seglen] {}
                    (pcb.sndLbb + BitVec.ofNat 32 built.pos) false with
              | none => pure none
              | some seg =>
                  tcpWriteSegs pcb arg more rounds {
                    queue := built.queue ++
                      [{ seg with
                        oversizeLeft := oversize
                        chksum :=
                          tcpDataCopy 0 ((arg.drop built.pos).take seglen)
                            {} }]
                    oversize
                    pos := built.pos + seglen
                    queuelen := built.queuelen + 1 }
      else
        pure (some built)

/-- Append the bytes to the last buffer of the chain; a chain has one. -/
def Pbuf.extendLast (bytes : Bytes) : Pbuf → Pbuf
  | [] => [bytes]
  | [buffer] => [buffer ++ bytes]
  | buffer :: next :: rest => buffer :: Pbuf.extendLast bytes (next :: rest)

/-- The checksum of the last unsent segment after phases 1 and 2 are
committed. -/
def commitChksum (tail : WriteTail) (arg : Bytes) (chksum : SegChksum) :
    SegChksum :=
  let chksum :=
    if 0 < tail.oversizeUsed then
      tcpDataCopy 0 (arg.take tail.oversizeUsed) chksum
    else
      chksum
  match tail.concatP with
  | none => chksum
  | some concatP => tcpConcatChksum 0 concatP.data chksum

/-- The last unsent segment after phases 1 and 2 are committed. -/
def commitTail (tail : WriteTail) (arg : Bytes) (seg : TcpSeg) : TcpSeg :=
  let added := (tail.concatP.getD []).totLen
  { seg with
    p :=
      (Pbuf.extendLast (arg.take tail.oversizeUsed) seg.p).cat
        (tail.concatP.getD [])
    len := seg.len + tail.oversizeUsed + added
    chksum := commitChksum tail arg seg.chksum
    oversizeLeft := seg.oversizeLeft + tail.oversizeAdd - tail.oversizeUsed }

/-- Set the PSH flag on the last segment `tcp_write` has touched. -/
def pushLast (tail : WriteTail) (unsent queue : List TcpSeg) : List TcpSeg :=
  let push := fun seg : TcpSeg => { seg with hdr.psh := true }
  if !queue.isEmpty || tail.touched then
    mapLast push (unsent ++ queue)
  else
    unsent ++ queue

/-- The `memerr` exit of `tcp_write`. -/
def tcpWriteMemerr (pcb : TcpPcb) : Lwip (Err × TcpPcb) := do
  if pcb.sndQueuelen ≠ 0 then
    ensure (!pcb.unacked.isEmpty || !pcb.unsent.isEmpty) .writeQueueLength
  pure (.mem, { pcb with flags.naglememerr := true })

/-- The end of `tcp_write`, once all three phases have succeeded. -/
def tcpWriteCommit
    (pcb : TcpPcb)
    (arg : Bytes)
    (tail : WriteTail)
    (built : WriteQueue) :
    Lwip (Err × TcpPcb) := do
  match pcb.unsent.getLast? with
  | none => ensure tail.concatP.isNone .concatEmpty
  | some lastUnsent =>
      ensure
        (tail.oversizeUsed ≤ lastUnsent.oversizeLeft + tail.oversizeAdd)
        .oversizeLeft
  let unsent :=
    pushLast tail (mapLast (commitTail tail arg) pcb.unsent) built.queue
  let pcb := {
    pcb with
    unsentOversize := built.oversize
    unsent
    sndLbb := pcb.sndLbb + BitVec.ofNat 32 arg.length
    sndBuf := pcb.sndBuf - arg.length
    sndQueuelen := built.queuelen }
  if pcb.sndQueuelen ≠ 0 then
    ensure (!pcb.unacked.isEmpty || !pcb.unsent.isEmpty) .writeQueueLength
  pure (.ok, pcb)

/-- `tcp_write` with `TCP_WRITE_FLAG_COPY`. -/
def tcpWrite
    (pcb : TcpPcb)
    (arg : Bytes)
    (more : Bool) :
    Lwip (Err × TcpPcb) := do
  let (err, pcb) ← tcpWriteChecks pcb arg.length
  if err ≠ .ok then
    pure (err, pcb)
  else do
    match ← tcpWriteTail pcb arg more with
    | none => tcpWriteMemerr pcb
    | some tail => do
        match
            ← tcpWriteSegs pcb arg more (tcpSndQueuelen + 1)
              { oversize := tail.oversize
                pos := tail.pos
                queuelen := tail.queuelen } with
        | none => tcpWriteMemerr pcb
        | some built => tcpWriteCommit pcb arg tail built

/-! ## Splitting and flags -/

/-- The bytes that `tcp_split_unsent_seg` moves to the second segment. -/
def splitData (useg : TcpSeg) (split : Nat) : Bytes :=
  (useg.p.data.drop (useg.p.totLen - useg.len + split)).take (useg.len - split)

/-- The buffers that stay with the first segment of a split. -/
def splitPbuf (useg : TcpSeg) (split : Nat) : Pbuf :=
  useg.p.realloc (useg.p.totLen - (useg.len - split))

/-- The checksum over what stays, if the data starts in one of its buffers. -/
def splitChksum (useg : TcpSeg) (split : Nat) : Option SegChksum :=
  splitHeadChksum ((splitPbuf useg split).map (Buf.mk 0))
    ((splitPbuf useg split).totLen - split)

/-- The first segment of a split. The flags it is to keep are or-ed back into
its header, so `TCPH_SET_FLAG` takes none of them away. -/
def splitHead (useg : TcpSeg) (split : Nat) : TcpSeg :=
  { useg with
    p := splitPbuf useg split
    len := split
    chksum := (splitChksum useg split).getD {}
    hdr := useg.hdr.set { useg.hdr with psh := false, fin := false }
    oversizeLeft := 0 }

/-- The pcb once its first unsent segment is split. -/
def splitDone
    (pcb : TcpPcb)
    (useg seg : TcpSeg)
    (rest : List TcpSeg)
    (split : Nat) : TcpPcb :=
  { pcb with
    sndQueuelen :=
      pcb.sndQueuelen - useg.p.clen + (splitHead useg split).p.clen +
        seg.p.clen
    unsent :=
      splitHead useg split ::
        { seg with chksum := splitRemainderChksum 0 (splitData useg split) } ::
          rest
    unsentOversize := if rest.isEmpty then 0 else pcb.unsentOversize }

/-- `tcp_split_unsent_seg`. -/
def tcpSplitUnsentSeg (pcb : TcpPcb) (split : Nat) : Lwip (Err × TcpPcb) := do
  match pcb.unsent with
  | [] => pure (.mem, pcb)
  | useg :: rest =>
      if split = 0 then
        throw .splitLengthZero
      else if useg.len ≤ split then
        pure (.ok, pcb)
      else do
        ensure (split ≤ pcb.mss) .splitMss
        ensure (0 < useg.len) .splitUsegLen
        if ← allocate then do
          match
              ← tcpCreateSegment [splitData useg split]
                { psh := useg.hdr.psh, fin := useg.hdr.fin }
                (useg.seqno + BitVec.ofNat 32 split) useg.optsMss with
          | none => pure (.mem, pcb)
          | some seg => do
              ensure (splitChksum useg split).isSome .splitPayload
              pure (.ok, splitDone pcb useg seg rest split)
        else
          pure (.mem, pcb)

/-- The pcb once `seg` is appended to its unsent queue. -/
def enqueueSeg (pcb : TcpPcb) (seg : TcpSeg) : TcpPcb :=
  { pcb with
    unsent := pcb.unsent ++ [seg]
    unsentOversize := 0
    sndLbb := pcb.sndLbb + 1
    flags.fin := pcb.flags.fin || seg.hdr.fin
    sndQueuelen := pcb.sndQueuelen + seg.p.clen }

/-- `tcp_enqueue_flags`. -/
def tcpEnqueueFlags (pcb : TcpPcb) (hdr : HdrFlags) : Lwip (Err × TcpPcb) := do
  if ← allocate then do
    match ← tcpCreateSegment [[]] hdr pcb.sndLbb hdr.syn with
    | none => pure (.mem, { pcb with flags.naglememerr := true })
    | some seg => do
        let pcb := enqueueSeg pcb seg
        ensure (!pcb.unacked.isEmpty || !pcb.unsent.isEmpty)
          .enqueueFlagsLength
        pure (.ok, pcb)
  else
    pure (.mem, { pcb with flags.naglememerr := true })

/-- The FIN goes out with the last unsent segment. -/
def piggybackFin (pcb : TcpPcb) : TcpPcb :=
  { pcb with
    unsent := mapLast (fun seg => { seg with hdr.fin := true }) pcb.unsent
    flags.fin := true }

/-- `tcp_send_fin`. -/
def tcpSendFin (pcb : TcpPcb) : Lwip (Err × TcpPcb) := do
  match pcb.unsent.getLast? with
  | some lastUnsent =>
      if lastUnsent.hdr.syn || lastUnsent.hdr.fin || lastUnsent.hdr.rst then
        tcpEnqueueFlags pcb { fin := true }
      else
        pure (.ok, piggybackFin pcb)
  | none => tcpEnqueueFlags pcb { fin := true }

/-! ## Control segments -/

/-- A segment of `pcb` without data, as `tcp_output_alloc_header` builds it. -/
def controlPacket (pcb : TcpPcb) (seqno : SeqNo) : Packet where
  srcIp := pcb.localIp
  destIp := pcb.remoteIp
  src := pcb.localPort
  dest := pcb.remotePort
  seqno := seqno
  ackno := pcb.rcvNxt
  flags := { ack := true }
  wnd := BitVec.ofNat 16 pcb.rcvAnnWnd
  options := []
  payload := []

/-- `rcv_ann_right_edge` after `pcb` has put its window on the wire. -/
def announceWnd (pcb : TcpPcb) : TcpPcb :=
  { pcb with
    rcvAnnRightEdge := pcb.rcvNxt + BitVec.ofNat 32 pcb.rcvAnnWnd }

/-- The checksum of a segment that is not queued, over header and data. -/
def Packet.controlChksum (packet : Packet) : BitVec 16 :=
  InetChksum.ipChksumPseudo [⟨0, packet.segmentWith 0⟩] ipProtoTcp
    (BitVec.ofNat 16 (packet.segmentWith 0).length)
    (toIpAddrT 0 packet.srcIp) (toIpAddrT 0 packet.destIp)

/-- The packet with that checksum in its header. -/
def Packet.summed (packet : Packet) : Packet :=
  { packet with chksum := packet.controlChksum }

/-- `tcp_output_control_segment`. -/
def tcpOutputControlSegment (packet : Packet) : Lwip Err :=
  ipOutputIf packet.summed

/-- `tcp_rst`. Its window is in network byte order before
`tcp_output_alloc_header_common` swaps it. -/
def tcpRst
    (seqno ackno : SeqNo)
    (localIp remoteIp : IpAddr)
    (localPort remotePort : BitVec 16) :
    Lwip Unit := do
  if ← allocate then do
    let _ ← tcpOutputControlSegment {
      srcIp := localIp
      destIp := remoteIp
      src := localPort
      dest := remotePort
      seqno
      ackno
      flags := { rst := true, ack := true }
      wnd := lwipHtons (BitVec.ofNat 16 tcpWnd)
      options := []
      payload := [] }

/-- `tcp_send_empty_ack`. -/
def tcpSendEmptyAck (pcb : TcpPcb) : Lwip (Err × TcpPcb) := do
  if ← allocate then do
    let packet := controlPacket pcb pcb.sndNxt
    let pcb := announceWnd pcb
    match ← tcpOutputControlSegment packet with
    | .ok =>
        pure (.ok, { pcb with flags.ackDelay := false, flags.ackNow := false })
    | err =>
        pure (err, { pcb with flags.ackDelay := true, flags.ackNow := true })
  else
    pure (.buf, { pcb with flags.ackDelay := true, flags.ackNow := true })

/-- Whether a zero-window probe for `seg` sends its FIN. -/
def probeIsFin (seg : TcpSeg) : Bool :=
  seg.hdr.fin && seg.len == 0

/-- The zero-window probe: the first byte of `seg`, or its FIN. -/
def probePacket (pcb : TcpPcb) (seg : TcpSeg) : Packet :=
  { controlPacket pcb seg.seqno with
    flags := { ack := true, fin := probeIsFin seg }
    payload :=
      if probeIsFin seg then []
      else (seg.p.data.drop (seg.p.totLen - seg.len)).take 1 }

/-- `snd_nxt` moves up to `seqno`, never down. -/
def raiseSndNxt (seqno : SeqNo) (pcb : TcpPcb) : TcpPcb :=
  { pcb with
    sndNxt := if SerialNumber.lt pcb.sndNxt seqno then seqno else pcb.sndNxt }

/-- One more probe is counted. -/
def countProbe (pcb : TcpPcb) : TcpPcb :=
  { pcb with
    persistProbe :=
      if pcb.persistProbe < 0xff then pcb.persistProbe + 1
      else pcb.persistProbe }

/-- `tcp_zero_window_probe`. -/
def tcpZeroWindowProbe (pcb : TcpPcb) : Lwip (Err × TcpPcb) := do
  match pcb.unsent with
  | [] => pure (.ok, pcb)
  | seg :: _ => do
      let pcb := countProbe pcb
      if ← allocate then do
        let err ← tcpOutputControlSegment (probePacket pcb seg)
        pure (err, raiseSndNxt (seg.seqno + 1) (announceWnd pcb))
      else
        pure (.mem, pcb)

/-! ## `tcp_output` -/

/-- The checksum of a queued segment, of which only the header is summed
here. -/
def Packet.segmentChksum (packet : Packet) (seg : SegChksum) : BitVec 16 :=
  -- the assertion on what is left of the header cannot fail
  (outputSegmentChksum [⟨0, packet.segmentWith 0⟩]
    (BitVec.ofNat 16 (packet.segmentWith 0).length)
    (20 + packet.options.length) (toIpAddrT 0 packet.srcIp)
    (toIpAddrT 0 packet.destIp) seg).elim 0 Prod.fst

/-- The packet that carries `seg`. -/
def segmentPacket (mtu6 : Mtu6) (pcb : TcpPcb) (seg : TcpSeg) : Packet :=
  { controlPacket pcb seg.seqno with
    flags := seg.hdr
    options :=
      if seg.optsMss then
        tcpBuildMssOption (tcpEffSendMssNetif tcpMss mtu6 pcb.remoteIp)
      else
        []
    payload := seg.p.data }

/-- The retransmission timer and the round-trip measurement start, unless they
are running. -/
def startTimers (tcpTicks : BitVec 32) (seqno : SeqNo) (pcb : TcpPcb) :
    TcpPcb :=
  { pcb with
    rtime := if pcb.rtime < 0 then 0 else pcb.rtime
    rttest := if pcb.rttest = 0 then tcpTicks else pcb.rttest
    rtseq := if pcb.rttest = 0 then seqno else pcb.rtseq }

/-- `tcp_output_segment`. The checksum fields of `seg` are swapped there and
back. -/
def tcpOutputSegment (seg : TcpSeg) (pcb : TcpPcb) : Lwip (Err × TcpPcb) := do
  let world ← get
  let packet := segmentPacket world.mtu6 pcb seg
  let err ← ipOutputIf
    { packet with chksum := packet.segmentChksum seg.chksum }
  pure (err, startTimers world.tcpTicks seg.seqno (announceWnd pcb))

/-- `tcp_do_output_nagle`, with `seg` and `rest` on the unsent queue. -/
def tcpDoOutputNagle (pcb : TcpPcb) (seg : TcpSeg) (rest : List TcpSeg) :
    Bool :=
  pcb.unacked.isEmpty || pcb.flags.nodelay || pcb.flags.infr ||
    !rest.isEmpty || decide (pcb.mss ≤ seg.len) ||
    decide (pcb.sndBuf = 0) || decide (tcpSndQueuelen ≤ pcb.sndQueuelen)

/-- How far past `lastack` the data of `seg` reaches. -/
def reach (pcb : TcpPcb) (seg : TcpSeg) : Nat :=
  (seg.seqno - pcb.lastack + BitVec.ofNat 32 seg.len).toNat

/-- Put an emitted segment on the unacked queue. -/
def queueUnacked (unacked : List TcpSeg) (seg : TcpSeg) : List TcpSeg :=
  if 0 < seg.tcplen then
    match unacked.getLast? with
    | none => [seg]
    | some useg =>
        if SerialNumber.lt seg.seqno useg.seqno then
          insertSorted seg unacked
        else
          unacked ++ [seg]
  else
    unacked

/-- What `tcp_output` does to the pcb once `seg` has been emitted. -/
def segmentSent (pcb : TcpPcb) (seg : TcpSeg) (rest : List TcpSeg) : TcpPcb :=
  raiseSndNxt seg.endSeq {
    pcb with
    unsent := rest
    unacked := queueUnacked pcb.unacked { seg with oversizeLeft := 0 }
    flags.ackDelay := false
    flags.ackNow := false }

/-- The `output_done` exit of `tcp_output`. -/
def outputDone (pcb : TcpPcb) : Err × TcpPcb :=
  (.ok, { pcb with flags.naglememerr := false })

/-- The loop of `tcp_output` over the unsent queue, under the window `wnd`. -/
def tcpOutputLoop (wnd : Nat) :
    List TcpSeg → TcpPcb → Lwip (Err × TcpPcb)
  | [], pcb => pure (outputDone { pcb with unsent := [], unsentOversize := 0 })
  | seg :: rest, pcb =>
      if reach pcb seg ≤ wnd then do
        ensure (!seg.hdr.rst) .rstNotExpected
        if !tcpDoOutputNagle pcb seg rest &&
            !(pcb.flags.naglememerr || pcb.flags.fin) then
          pure (outputDone { pcb with unsent := seg :: rest })
        else do
          let seg := { seg with hdr.ack := true }
          let (err, pcb) ← tcpOutputSegment seg pcb
          if err ≠ .ok then
            pure (err, {
              pcb with
              unsent := seg :: rest
              flags.naglememerr := true })
          else
            tcpOutputLoop wnd rest (segmentSent pcb seg rest)
      else
        pure (outputDone { pcb with unsent := seg :: rest })

/-- Start the persist timer when the head of unsent does not fit and nothing
is in flight. -/
def startPersist (wnd : Nat) (pcb : TcpPcb) : TcpPcb :=
  if wnd = pcb.sndWnd ∧ pcb.unacked.isEmpty ∧ pcb.persistBackoff = 0 then
    { pcb with persistCnt := 0, persistBackoff := 1, persistProbe := 0 }
  else
    pcb

/-- A pcb bound to the any-address takes the address of the netif. -/
def bindLocalIp (pcb : TcpPcb) : TcpPcb :=
  { pcb with
    localIp :=
      if pcb.localIp.isAny then ipNetifGetLocalIp pcb.remoteIp
      else pcb.localIp }

/-- `tcp_output`; `inInput` says that `tcp_input_pcb` is this pcb. -/
def tcpOutput (inInput : Bool) (pcb : TcpPcb) : Lwip (Err × TcpPcb) := do
  if inInput then
    pure (.ok, pcb)
  else
    let wnd := min pcb.sndWnd pcb.cwnd
    match pcb.unsent with
    | [] =>
        if pcb.flags.ackNow then tcpSendEmptyAck pcb else pure (outputDone pcb)
    | seg :: rest => do
        let pcb := bindLocalIp pcb
        if wnd < reach pcb seg then
          let pcb := startPersist wnd pcb
          if pcb.flags.ackNow then
            tcpSendEmptyAck pcb
          else
            pure (outputDone pcb)
        else
          tcpOutputLoop wnd (seg :: rest) { pcb with persistBackoff := 0 }

/-! ## Retransmission -/

/-- `tcp_rexmit_rto_prepare`. -/
def tcpRexmitRtoPrepare (pcb : TcpPcb) : Err × TcpPcb :=
  match pcb.unacked.getLast? with
  | none => (.val, pcb)
  | some seg =>
      (.ok, {
        pcb with
        unsent := pcb.unacked ++ pcb.unsent
        unsentOversize :=
          if pcb.unsent.isEmpty then seg.oversizeLeft else pcb.unsentOversize
        unacked := []
        flags.rto := true
        rtoEnd := seg.endSeq
        rttest := 0 })

/-- `tcp_rexmit_rto_commit`. -/
def tcpRexmitRtoCommit (pcb : TcpPcb) : Lwip TcpPcb := do
  let (_, pcb) ← tcpOutput false {
    pcb with nrtx := if pcb.nrtx < 0xff then pcb.nrtx + 1 else pcb.nrtx }
  pure pcb

/-- `tcp_rexmit`: move the first unacked segment back to unsent. -/
def tcpRexmit (pcb : TcpPcb) : Err × TcpPcb :=
  match pcb.unacked with
  | [] => (.val, pcb)
  | seg :: rest =>
      let unsent := insertSorted seg pcb.unsent
      (.ok, {
        pcb with
        unacked := rest
        unsent
        -- The moved segment is last: its oversize information is lost.
        unsentOversize :=
          if pcb.unsent.all (fun cur => SerialNumber.lt cur.seqno seg.seqno)
          then 0 else pcb.unsentOversize
        nrtx := if pcb.nrtx < 0xff then pcb.nrtx + 1 else pcb.nrtx
        rttest := 0 })

/-- `tcp_rexmit_fast`. -/
def tcpRexmitFast (pcb : TcpPcb) : TcpPcb :=
  if !pcb.unacked.isEmpty && !pcb.flags.infr then
    let (err, pcb) := tcpRexmit pcb
    if err = .ok then
      let ssthresh := max (min pcb.cwnd pcb.sndWnd / 2) (2 * pcb.mss)
      { pcb with
        ssthresh
        cwnd := (ssthresh + 3 * pcb.mss) % 65536
        flags.infr := true
        rtime := 0 }
    else
      pcb
  else
    pcb

end NetstackLwip

import NetstackLwip.IpOutput
import NetstackLwip.IpTypes

namespace NetstackLwip

/-!
# `ip6_frag.c`: reassembly

On a 64-bit target the helper structure has 12 bytes: it covers the Fragment
header and the 4 bytes in front of it, which belong to another header. Its
content is the `Frag` of the chain; the bytes under it are zero here until
they are restored or hidden.
-/

open FaultState FragmentChain

/-- `IPV6_FRAG_REQROOM`. -/
def ipv6FragReqroom : Nat := 4

/-- `sizeof(struct ip6_reass_helper)`. -/
def ip6ReassHelperSize : Nat := 12

/-- The difference between a place in a packet and a header, which only means
something when both lie in one buffer. -/
def headerDifference (p : PBuf) (hdr : Ip6HdrPtr) : IpM Int := do
  ensure (p.addr == hdr.addr) .foreignHeader
  pure ((p.payload : Int) - hdr.off)

/-- Count the freed buffers of a datagram. -/
def countFreed6 : Nat → List (Frag Chain) → IpM Nat
  | freed, [] => pure freed
  | freed, frag :: rest => do
      ensure (freed + frag.buffer.clen ≤ 0xffff) .freedOverflow
      countFreed6 (freed + frag.buffer.clen) rest

/-- Before the first fragment is freed, `payload` goes back to its IPv6
header, for the time-exceeded message. -/
def returnFirst (ipr : Ip6Reassdata) : IpM Unit := do
  match ipr.frags with
  | [] => throw .nullPbuf
  | first :: _ =>
      if first.start = 0 then do
        let difference ← headerDifference first.buffer.head ipr.iphdr
        let moved ← pbufHeaderForce first.buffer difference
        ensure moved.isSome .freeHeader
      else
        pure ()

/-- `ip6_reass_free_complete_datagram`. -/
def ip6ReassFreeCompleteDatagram (ipr : Nat) : IpM Unit := do
  let input ← get
  match input.datagrams6[ipr]? with
  | none => throw .nullPbuf
  | some datagram => do
      returnFirst datagram
      let freed ← countFreed6 0 datagram.frags
      modify fun input =>
        { input with datagrams6 := input.datagrams6.eraseIdx ipr }
      ensure (freed ≤ input.pbufcount6) .pbufcountClen
      modify fun input => { input with pbufcount6 := input.pbufcount6 - freed }

/-- `ip6_reass_tmr` from the datagram at index `r` on. -/
def ip6ReassTmrFrom : Nat → Nat → IpM Unit
  | 0, _ => pure ()
  | rounds + 1, r => do
      let input ← get
      match input.datagrams6[r]? with
      | none => pure ()
      | some ipr =>
          if 0 < ipr.timer then do
            set {
              input with
              datagrams6 :=
                input.datagrams6.set r { ipr with timer := ipr.timer - 1 } }
            ip6ReassTmrFrom rounds (r + 1)
          else do
            ip6ReassFreeCompleteDatagram r
            ip6ReassTmrFrom rounds r

/-- `ip6_reass_tmr`. -/
def ip6ReassTmr : IpM Unit := do
  let input ← get
  ip6ReassTmrFrom input.datagrams6.length 0

/-- The search of `ip6_reass_remove_oldest_datagram` from index `r` on:
`oldest` is an index with its timer. -/
def findOldest (ipr : Option Nat) :
    Nat → Nat × Nat → List Ip6Reassdata → Nat × Nat
  | _, oldest, [] => oldest
  | r, oldest, datagram :: rest =>
      findOldest ipr (r + 1)
        (if some r ≠ ipr ∧ datagram.timer ≤ oldest.2 then
          (r, datagram.timer)
        else
          oldest)
        rest

/-- The loop of `ip6_reass_remove_oldest_datagram`; the result is where the
spared datagram is then. -/
def removeOldestRounds6 (pbufsNeeded : Nat) :
    Nat → Option Nat → IpM (Option Nat)
  | 0, _ => throw .hang
  | rounds + 1, ipr => do
      let input ← get
      match input.datagrams6 with
      | [] => pure ipr
      | first :: rest => do
          let oldest := (findOldest ipr 0 (0, first.timer) (first :: rest)).1
          if some oldest = ipr then
            pure ipr
          else do
            ip6ReassFreeCompleteDatagram oldest
            let ipr := ipr.map fun r => if oldest < r then r - 1 else r
            let input ← get
            if ipReassMaxPbufs < input.pbufcount6 + pbufsNeeded ∧
                !input.datagrams6.isEmpty then
              removeOldestRounds6 pbufsNeeded rounds ipr
            else
              pure ipr

/-- `ip6_reass_remove_oldest_datagram`: every round frees a datagram. -/
def ip6ReassRemoveOldestDatagram (ipr : Option Nat) (pbufsNeeded : Nat) :
    IpM (Option Nat) := do
  let input ← get
  removeOldestRounds6 pbufsNeeded (input.datagrams6.length + 1) ipr

/-- `memp_malloc` from the pool of `ip6_reassdata`, room made if necessary. -/
def ip6ReassdataAlloc (clen : Nat) : IpM Bool := do
  let input ← get
  if input.datagrams6.length < mempNumReassdata then
    pure true
  else do
    let _ ← ip6ReassRemoveOldestDatagram none clen
    let input ← get
    pure (input.datagrams6.length < mempNumReassdata)

/-- A fragment before it is put on a datagram. `hdrSrc` and `hdrDest` are the
addresses in the current header. -/
structure Fragment6 where
  src : BitVec 128
  dest : BitVec 128
  hdrSrc : BitVec 128
  hdrDest : BitVec 128
  identification : BitVec 32
  nexth : UInt8
  start : Nat
  len : Nat
  more : Bool
  deriving DecidableEq, Repr

/-- Whether a fragment belongs to a datagram. -/
def Ip6Reassdata.matchesFragment (ipr : Ip6Reassdata) (frag : Fragment6) :
    Bool :=
  frag.identification == ipr.identification && frag.src == ipr.src &&
    frag.dest == ipr.dest

/-- The datagram a fragment belongs to, a new one at the front if need be. -/
def findDatagram6 (frag : Fragment6) (clen : Nat) : IpM (Option Nat) := do
  let input ← get
  match input.datagrams6.findIdx? (·.matchesFragment frag) with
  | some r => pure (some r)
  | none => do
      if ← ip6ReassdataAlloc clen then do
        modify fun input => {
          input with
          datagrams6 :=
            { iphdr := input.currentIp6Header
              src := frag.hdrSrc
              dest := frag.hdrDest
              identification := frag.identification
              nexth := frag.nexth
              timer := ipv6ReassMaxage } :: input.datagrams6 }
        pure (some 0)
      else
        pure none

/-- The overflow check of `ip6_reass`: the datagram's index if the fragment
may be kept. -/
def roomForFragment6 (ipr clen : Nat) : IpM (Option Nat) := do
  let input ← get
  if ipReassMaxPbufs < input.pbufcount6 + clen then do
    let ipr ← ip6ReassRemoveOldestDatagram (some ipr) clen
    let input ← get
    if input.pbufcount6 + clen ≤ ipReassMaxPbufs then
      pure ipr
    else
      pure none
  else
    pure (some ipr)

/-- Chain the buffers of a datagram, helper and Fragment header hidden but for
the first. -/
def chainFrags6 : Chain → List (Frag Chain) → IpM Chain
  | p, [] => pure p
  | p, frag :: rest => do
      let r ← pbufRemoveHeader frag.buffer ip6FragHlen
      let r ← pbufRemoveHeader r ipv6FragReqroom
      chainFrags6 (p.cat r) rest

/-- The search for the header in front of the Fragment header: where the
next-header byte stands that is to be patched. Every round passes 8 bytes. -/
def findFragmentNexth (mem : Bytes) : Nat → Nat → IpM Nat
  | 0, _ => throw .hang
  | rounds + 1, ptr =>
      if mem.length ≤ ptr then
        throw .outsidePacket
      else if byteAt mem ptr = .ofBitVec ip6NexthFragment then
        pure ptr
      else if mem.length ≤ ptr + 1 then
        throw .outsidePacket
      else
        findFragmentNexth mem rounds
          (ptr + 8 * (1 + (byteAt mem (ptr + 1)).toNat))

/-- The place of the next-header byte that named the Fragment header. -/
def fragmentNexthAt (mem : Bytes) (iphdr : Nat) : IpM Nat :=
  if byteAt mem (iphdr + 6) = .ofBitVec ip6NexthFragment then
    pure (iphdr + 6)
  else
    findFragmentNexth mem (mem.length + 1) (iphdr + ip6Hlen)

/-- The first buffer of a complete datagram: the headers move over the
Fragment header, and payload length and next header are set. The result says
where the IPv6 header is then. -/
def rebuildHeaders (ipr : Ip6Reassdata) (p : Chain) : IpM (Chain × Nat) := do
  let difference ← headerDifference p.head ipr.iphdr
  let iphdr := ipr.iphdr.off
  let mem := p.head.mem
  let mem :=
    overwrite mem (iphdr + ip6FragHlen)
      ((mem.drop iphdr).take difference.toNat)
  let iphdrPtr := iphdr + ip6FragHlen
  let datagramLen :=
    BitVec.ofInt 16
      (ipr.datagramLen + ((p.head.payload : Int) - iphdrPtr) - ip6Hlen)
  let mem := overwrite mem (iphdrPtr + 4) (wordBytes datagramLen)
  let nexthAt ← fragmentNexthAt mem iphdrPtr
  pure
    ({ p with head := { p.head with mem := overwrite mem nexthAt [ipr.nexth] } },
      iphdrPtr)

/-- The last part of `ip6_reass`: the datagram at index `r` is complete, and
`payload` moves to its IPv6 header. -/
def finishDatagram6 (r : Nat) (ipr : Ip6Reassdata) : IpM Chain := do
  match ipr.frags with
  | [] => throw .nullPbuf
  | first :: rest => do
      let p ← chainFrags6 first.buffer rest
      let head := {
        p.head with
        mem :=
          overwrite p.head.mem p.head.payload
            (ipr.origHdr.take ipv6FragReqroom) }
      let p ← pbufRemoveHeader { p with head } ipv6FragReqroom
      let (p, iphdrPtr) ← rebuildHeaders ipr p
      modify fun input =>
        { input with datagrams6 := input.datagrams6.eraseIdx r }
      let input ← get
      ensure (p.clen ≤ input.pbufcount6) .pbufcountClen
      set { input with pbufcount6 := input.pbufcount6 - p.clen }
      match ← pbufHeaderForce p ((p.head.payload : Int) - iphdrPtr) with
      | none => throw .reassHeader
      | some p => pure p

/-- The fragment with the helper structure in place, and what the helper
covers. -/
def putHelper (p : Chain) : IpM (Chain × Bytes) := do
  match p.addHeader ipv6FragReqroom with
  | none => throw .noRoomHelper
  | some p =>
      let head := {
        p.head with
        mem :=
          overwrite p.head.mem p.head.payload
            (List.replicate ip6ReassHelperSize 0) }
      pure ({ p with head }, p.head.front ip6ReassHelperSize)

/-- Put a fragment on the datagram at index `r`: the chain of buffers if that
completes it. -/
def enqueueFragment6 (frag : Fragment6) (p : Chain) (r : Nat) :
    IpM (Option Chain) := do
  let input ← get
  match input.datagrams6[r]? with
  | none => throw .nullPbuf
  | some ipr => do
      let (kept, covered) ← putHelper p
      let new : Frag Chain :=
        ⟨frag.start, (frag.start + frag.len) % 65536, kept⟩
      match place false new none true ipr.frags with
      | none => pure none
      | some placement => do
          ensure placement.ordered .fragmentsOverlap
          let ipr := { ipr with frags := placement.chain }
          let ipr :=
            if frag.start = 0 then
              { ipr with iphdr := input.currentIp6Header, origHdr := covered }
            else
              ipr
          let ipr :=
            if frag.more then ipr else { ipr with datagramLen := new.stop }
          modify fun input => {
            input with
            datagrams6 := input.datagrams6.set r ipr
            pbufcount6 := input.pbufcount6 + p.clen }
          let valid :=
            placement.gapless &&
              (placement.chain.head?.any fun first => first.start == 0) &&
              ipr.datagramLen != 0 &&
              gaplessFrom new placement.behind
          if valid then do
            let p ← finishDatagram6 r ipr
            pure (some p)
          else
            pure none

/-- `ip6_reass`, with `payload` at the Fragment header. -/
def ip6Reass (src dest : BitVec 128) (p : Chain) : IpM (Option Chain) := do
  ensure (ip6FragHlen ≤ p.head.len) .fragHeaderFit
  let fragHdr := p.head.front ip6FragHlen
  let input ← get
  let hdrdiff ← headerDifference p.head input.currentIp6Header
  let len := (wordAt p.head.mem (input.currentIp6Header.off + 4)).toNat
  ensure (hdrdiff ≤ 0xffff) .notValidPbuf
  ensure (ip6Hlen ≤ hdrdiff) .notValidPbuf
  let hdrdiff := hdrdiff.toNat - ip6Hlen + ip6FragHlen
  let offset := wordAt fragHdr 2
  let frag : Fragment6 := {
    src
    dest
    hdrSrc := addrAt p.head.mem (input.currentIp6Header.off + 8)
    hdrDest := addrAt p.head.mem (input.currentIp6Header.off + 24)
    identification := longAt fragHdr 4
    nexth := byteAt fragHdr 0
    start := (offset &&& 0xfff8).toNat
    len := len - hdrdiff
    more := offset &&& 1 != 0 }
  if len < hdrdiff ∨ 0xffff - frag.len < frag.start then
    pure none
  else
    match ← findDatagram6 frag p.clen with
    | none => pure none
    | some r => do
        match ← roomForFragment6 r p.clen with
        | none => pure none
        | some r => enqueueFragment6 frag p r

end NetstackLwip

import NetstackLwip.IpOutput
import NetstackLwip.IpTypes

namespace NetstackLwip

/-!
# `ip4_frag.c`: reassembly

A fragment that is kept stays in its buffer; the helper structure that
replaces its IP header is the `Frag` of the chain. A fragment comes straight
from the netif, so it is one buffer and its `pbuf_clen` is 1. The datagrams
form a linked list, whose pointers are indices here.
-/

open FaultState FragmentChain

/-- `IP_ADDRESSES_AND_ID_MATCH`. -/
def ipAddressesAndIdMatch (first second : Bytes) : Bool :=
  longAt first 12 == longAt second 12 &&
    longAt first 16 == longAt second 16 &&
    wordAt first 4 == wordAt second 4

/-- `IPH_HL_BYTES`. -/
def iphHlBytes (hdr : Bytes) : Nat :=
  (byteAt hdr 0 &&& 0xf).toNat * 4

/-- `IPH_OFFSET_BYTES`. -/
def iphOffsetBytes (hdr : Bytes) : Nat :=
  (wordAt hdr 6 &&& 0x1fff).toNat * 8

/-- The flag `IP_MF`. -/
def iphMf (hdr : Bytes) : Bool :=
  wordAt hdr 6 &&& 0x2000 != 0

/-- Count the freed buffers of a datagram. -/
def countFreed : Nat → Nat → IpM Nat
  | freed, 0 => pure freed
  | freed, left + 1 => do
      ensure (freed + 1 ≤ 0xffff) .freedOverflow
      countFreed (freed + 1) left

/-- `ip_reass_dequeue_datagram`. -/
def ipReassDequeueDatagram (ipr : Nat) (prev : Option Nat) : IpM Unit := do
  if ipr ≠ 0 then ensure prev.isSome .linkedList
  modify fun input =>
    { input with datagrams4 := input.datagrams4.eraseIdx ipr }

/-- `ip_reass_free_complete_datagram`. -/
def ipReassFreeCompleteDatagram (ipr : Nat) (prev : Option Nat) :
    IpM Nat := do
  ensure (prev ≠ some ipr) .prevIsIpr
  ensure (prev.all (· + 1 == ipr)) .prevNext
  let input ← get
  let frags := (input.datagrams4[ipr]?.map Ip4Reassdata.frags).getD []
  let freed ← countFreed 0 frags.length
  ipReassDequeueDatagram ipr prev
  ensure (freed ≤ input.pbufcount4) .pbufsFreed
  modify fun input => { input with pbufcount4 := input.pbufcount4 - freed }
  pure freed

/-- `ip_reass_tmr` from the datagram at index `r` on. -/
def ipReassTmrFrom : Nat → Nat → Option Nat → IpM Unit
  | 0, _, _ => pure ()
  | rounds + 1, r, prev => do
      let input ← get
      match input.datagrams4[r]? with
      | none => pure ()
      | some ipr =>
          if 0 < ipr.timer then do
            set {
              input with
              datagrams4 :=
                input.datagrams4.set r { ipr with timer := ipr.timer - 1 } }
            ipReassTmrFrom rounds (r + 1) (some r)
          else do
            let _ ← ipReassFreeCompleteDatagram r prev
            ipReassTmrFrom rounds r prev

/-- `ip_reass_tmr`. -/
def ipReassTmr : IpM Unit := do
  let input ← get
  ipReassTmrFrom input.datagrams4.length 0 none

/-- The oldest datagram that is not the one of a fragment, with the one before
it, and how many such datagrams there are. -/
structure OldestOther where
  oldest : Option (Nat × Nat) := none
  oldestPrev : Option Nat := none
  others : Nat := 0
  deriving DecidableEq, Repr

/-- The search of `ip_reass_remove_oldest_datagram`; `oldest` holds an index
and its timer. -/
def findOldestOther (fraghdr : Bytes) :
    Nat → Option Nat → OldestOther → List Ip4Reassdata → OldestOther
  | _, _, found, [] => found
  | r, prev, found, ipr :: rest =>
      let found :=
        if ipAddressesAndIdMatch ipr.iphdr fraghdr then
          found
        else if
            found.oldest.all fun oldest => decide (ipr.timer ≤ oldest.2) then
          { oldest := some (r, ipr.timer)
            oldestPrev := prev
            others := found.others + 1 }
        else
          { found with others := found.others + 1 }
      findOldestOther fraghdr (r + 1)
        (if rest.isEmpty then prev else some r) found rest

/-- The loop of `ip_reass_remove_oldest_datagram`. -/
def removeOldestRounds (fraghdr : Bytes) (pbufsNeeded : Nat) :
    Nat → Nat → IpM Nat
  | 0, _ => throw .hang
  | rounds + 1, freed => do
      let input ← get
      let found := findOldestOther fraghdr 0 none {} input.datagrams4
      let freed ←
        match found.oldest with
        | none => pure freed
        | some (oldest, _) => do
            let current ←
              ipReassFreeCompleteDatagram oldest found.oldestPrev
            pure (freed + current)
      if freed < pbufsNeeded ∧ 1 < found.others then
        removeOldestRounds fraghdr pbufsNeeded rounds freed
      else
        pure freed

/-- `ip_reass_remove_oldest_datagram`. Each round but the last one frees a
datagram. -/
def ipReassRemoveOldestDatagram (fraghdr : Bytes) (pbufsNeeded : Nat) :
    IpM Nat := do
  let input ← get
  removeOldestRounds fraghdr pbufsNeeded (input.datagrams4.length + 1) 0

/-- The overflow check of `ip4_reass`: whether one more buffer may be kept. -/
def roomForFragment (fraghdr : Bytes) : IpM Bool := do
  let input ← get
  if ipReassMaxPbufs < input.pbufcount4 + 1 then do
    let freed ← ipReassRemoveOldestDatagram fraghdr 1
    let input ← get
    pure (freed ≠ 0 ∧ input.pbufcount4 + 1 ≤ ipReassMaxPbufs)
  else
    pure true

/-- `memp_malloc` from the pool of `ip_reassdata`. -/
def reassdataFree : IpM Bool := do
  let input ← get
  pure (input.datagrams4.length < mempNumReassdata)

/-- `ip_reass_enqueue_new_datagram`; the new datagram is the first one. -/
def ipReassEnqueueNewDatagram (fraghdr : Bytes) : IpM Bool := do
  let room ←
    if ← reassdataFree then
      pure true
    else do
      let freed ← ipReassRemoveOldestDatagram fraghdr 1
      if 1 ≤ freed then reassdataFree else pure false
  if room then do
    modify fun input => {
      input with
      datagrams4 :=
        { iphdr := fraghdr, timer := ipReassMaxage } :: input.datagrams4 }
    pure true
  else
    pure false

/-- The datagram a fragment belongs to, whose header copy is replaced by that
of the first fragment. -/
def findDatagram (fraghdr : Bytes) : IpM (Option Nat) := do
  let input ← get
  match
      input.datagrams4.findIdx? fun ipr =>
        ipAddressesAndIdMatch ipr.iphdr fraghdr with
  | none => do
      if ← ipReassEnqueueNewDatagram fraghdr then
        pure (some 0)
      else
        pure none
  | some r => do
      modify fun input => {
        input with
        datagrams4 := input.datagrams4.modify r fun ipr =>
          if iphOffsetBytes fraghdr = 0 ∧ iphOffsetBytes ipr.iphdr ≠ 0 then
            { ipr with iphdr := fraghdr }
          else
            ipr }
      pure (some r)

/-- The results of the validation. -/
inductive Validate where
  | telegramFinished
  | pbufQueued
  | pbufDropped
  deriving DecidableEq, Repr

/-- `ip_reass_chain_frag_into_datagram_and_validate`: the datagram with the
fragment in its chain. -/
def ipReassChainFragIntoDatagramAndValidate (ipr : Ip4Reassdata) (newP : PBuf)
    (isLast : Bool) : IpM (Validate × Ip4Reassdata) := do
  let fraghdr := newP.front 20
  let len := (wordAt fraghdr 2).toNat
  let hlen := iphHlBytes fraghdr
  if len < hlen then
    pure (.pbufDropped, ipr)
  else
    let start := iphOffsetBytes fraghdr
    let stop := (start + (len - hlen)) % 65536
    if stop < start then
      pure (.pbufDropped, ipr)
    else
      match place true ⟨start, stop, newP⟩ none true ipr.frags with
      | none => pure (.pbufDropped, ipr)
      | some placement => do
          ensure placement.ordered .fragmentsOverlap
          let next := { ipr with frags := placement.chain }
          let complete :=
            (isLast || ipr.lastFrag) && placement.gapless &&
              (placement.chain.head?.any fun frag => frag.start == 0) &&
              gaplessFrom ⟨start, stop, newP⟩ placement.behind
          if complete then do
            -- The last fragment is not the first one.
            ensure (1 < placement.chain.length) .sanityCheck
            pure (.telegramFinished, next)
          else
            pure (.pbufQueued, next)

/-- The header that a reassembled datagram gets. -/
def reassembledHdr (iphdr : Bytes) (datagramLen : Nat) : Bytes :=
  let hdr := overwrite iphdr 2 (wordBytes (.ofNat 16 (datagramLen + 20)))
  let hdr := overwrite hdr 6 (wordBytes 0)
  let hdr := overwrite hdr 10 (wordBytes 0)
  overwrite hdr 10 (wordBytes (inetChksum hdr))

/-- Chain the buffers of a datagram, the IP headers hidden but for the first. -/
def chainFrags : Chain → List (Frag PBuf) → IpM Chain
  | p, [] => pure p
  | p, frag :: rest => do
      let r ← pbufRemoveHeader { head := frag.buffer } 20
      chainFrags (p.cat r) rest

/-- The entry at index `r` goes, and with it the buffers of `p`, which is
returned, from the count. -/
def releaseDatagram (r : Nat) (p : Chain) : IpM (Option Chain) := do
  ipReassDequeueDatagram r (if r = 0 then none else some (r - 1))
  let input ← get
  ensure (p.clen ≤ input.pbufcount4) .pbufcountClen
  set { input with pbufcount4 := input.pbufcount4 - p.clen }
  pure (some p)

/-- The last part of `ip4_reass`: the datagram at index `r` is complete. -/
def finishDatagram (r : Nat) (ipr : Ip4Reassdata) : IpM (Option Chain) := do
  match ipr.frags with
  | [] => throw .nullPbuf
  | first :: rest => do
      let hdr := reassembledHdr ipr.iphdr ipr.datagramLen
      let p := first.buffer
      let p ←
        chainFrags
          { head := { p with mem := overwrite p.mem p.payload hdr } } rest
      releaseDatagram r p

/-- `nullreturn_ipr`: a datagram without a fragment goes. -/
def dropFragment (r : Nat) : IpM (Option Chain) := do
  let input ← get
  if (input.datagrams4[r]?.map Ip4Reassdata.frags) = some [] then do
    ensure (r == 0) .notFirst
    ipReassDequeueDatagram r none
  pure none

/-- The part of `ip4_reass` behind the search: the fragment `p` is put into the
datagram at index `r`. -/
def enqueueFragment (r : Nat) (p : PBuf) : IpM (Option Chain) := do
  let fraghdr := p.front 20
  let len := (wordAt fraghdr 2).toNat
  let isLast := !iphMf fraghdr
  let datagramLen := (iphOffsetBytes fraghdr + (len - 20)) % 65536
  if isLast ∧
      (datagramLen < iphOffsetBytes fraghdr ∨ 0xffff - 20 < datagramLen) then
    dropFragment r
  else do
    let input ← get
    match input.datagrams4[r]? with
    | none => throw .nullPbuf
    | some ipr => do
        let (valid, ipr) ←
          ipReassChainFragIntoDatagramAndValidate ipr p isLast
        if valid = .pbufDropped then
          dropFragment r
        else do
          let ipr :=
            if isLast then { ipr with datagramLen, lastFrag := true }
            else ipr
          modify fun input => {
            input with
            datagrams4 := input.datagrams4.set r ipr
            pbufcount4 := input.pbufcount4 + 1 }
          if valid = .telegramFinished then
            finishDatagram r ipr
          else
            pure none

/-- `ip4_reass`, for a fragment whose header is inside its buffer. -/
def ip4Reass (p : PBuf) : IpM (Option Chain) := do
  let fraghdr := p.front 20
  let len := (wordAt fraghdr 2).toNat
  if iphHlBytes fraghdr ≠ 20 ∨ len < 20 then
    pure none
  else if ← roomForFragment fraghdr then do
    match ← findDatagram fraghdr with
    | none => pure none
    | some r => enqueueFragment r p
  else
    pure none

end NetstackLwip

import NetstackLwip.ChecksumRules

namespace NetstackLwip

/-!
# The checksum of a queued segment

A queued segment keeps a checksum of its data, which the functions that change
the data add to or take again. Whatever they have done to it, it stands for the
data the segment holds now, so the header's part is all that is missing when
the segment is sent.
-/

open OnesComplement InetChksum

/--
The data of a segment in `unsent` or `unacked` and its checksum fields, after
any sequence of the steps that change them: `tcp_create_segment` makes it empty
or `tcp_write` with data, `tcp_write` fills its last buffer or chains another
one to it, `tcp_split_unsent_seg` makes it of a remainder or trims it, and
`tcp_output_segment` sends it. `dst` is where bytes are copied to, and `p` its
chain from some header bytes on.
-/
inductive Queued : Bytes → SegChksum → Prop where
  | created : Queued [] {}
  | written (dst : Nat) (data : Bytes) : Queued data (tcpDataCopy dst data {})
  | remainder (dst : Nat) (data : Bytes) : Queued data (splitRemainderChksum dst data)
  | filled
      {data : Bytes}
      {seg : SegChksum}
      (queued : Queued data seg)
      (dst : Nat)
      (more : Bytes) :
      Queued (data ++ more) (tcpDataCopy dst more seg)
  | concatenated
      {data : Bytes}
      {seg : SegChksum}
      (queued : Queued data seg)
      (dst : Nat)
      (more : Bytes) :
      Queued (data ++ more) (tcpConcatChksum dst more seg)
  | trimmed
      {data headers : Bytes}
      {seg after : SegChksum}
      (queued : Queued data seg)
      (split : Nat)
      (p : List Buf)
      (chain : chainBytes p = headers ++ data.take split)
      (summed : splitHeadChksum p headers.length = some after) :
      Queued (data.take split) after
  | sent
      {data : Bytes}
      {seg after : SegChksum}
      {protoLen chksum : BitVec 16}
      (queued : Queued data seg)
      (p : List Buf)
      (hdrlen : Nat)
      (src dest : IpAddrT)
      (out : outputSegmentChksum p protoLen hdrlen src dest seg = some (chksum, after)) :
      Queued data after

/-- The checksum is that of the data, with its bytes exchanged behind an odd
length. -/
structure Checked (data : Bytes) (seg : SegChksum) : Prop where
  swapped : seg.chksumSwapped = decide (data.length % 2 = 1)
  same : SameSum seg.chksum.toNat (turned data.length (hostSum data))

theorem checked_nil : Checked [] {} :=
  ⟨rfl, OnesEq.refl _ _⟩

theorem swapU16_eq (chksum : BitVec 16) : swapU16 chksum = lwipHtons chksum := by
  rw [swapU16, swapBytesInWord_eq, BitVec.setWidth_setWidth_of_le _ (by omega),
    BitVec.setWidth_setWidth_of_le _ (by omega), BitVec.setWidth_eq, BitVec.setWidth_eq]

theorem swapU16_swapU16 (chksum : BitVec 16) : swapU16 (swapU16 chksum) = chksum := by
  rw [swapU16_eq, swapU16_eq, lwipHtons_lwipHtons]

/-- The sum of two words, folded once. -/
theorem foldU32T_add (first second : BitVec 16) :
    SameSum
        ((InetChksum.foldU32T (first.setWidth 32 + second.setWidth 32)).setWidth 16).toNat
        (first.toNat + second.toNat) := by
  have firstLt := first.isLt
  have secondLt := second.isLt
  have added : (first.setWidth 32 + second.setWidth 32).toNat =
      first.toNat + second.toNat := by
    rw [BitVec.toNat_add, BitVec.toNat_setWidth, BitVec.toNat_setWidth]
    omega
  have small := @foldU32T_lt (first.setWidth 32 + second.setWidth 32) (by omega)
  rw [BitVec.toNat_setWidth, Nat.mod_eq_of_lt (by omega), ← added]
  exact foldU32T_sameSum _

theorem Checked.add
    {data more : Bytes}
    {seg : SegChksum}
    {chksum : BitVec 16}
    (checked : Checked data seg)
    (same : SameSum chksum.toNat (hostSum more)) :
    Checked (data ++ more) (tcpSegAddChksum chksum more.length seg) := by
  have folded :
      SameSum
        ((InetChksum.foldU32T (chksum.setWidth 32 + seg.chksum.setWidth 32)).setWidth
          16).toNat
        (turned data.length (hostSum data) + hostSum more) := by
    apply (foldU32T_add chksum seg.chksum).trans
    rw [Nat.add_comm]
    exact checked.same.add same
  have behind := turned_append data more 0
  rw [Nat.zero_add, Nat.zero_add] at behind
  have length : (data ++ more).length = data.length + more.length :=
    List.length_append
  unfold tcpSegAddChksum
  by_cases odd : more.length % 2 ≠ 0
  · rw [if_pos odd]
    constructor
    · simp only [checked.swapped, ← decide_not, decide_eq_decide]
      omega
    · rw [swapU16_eq]
      apply (lwipHtons_sameSum _).trans
      apply (folded.mul_left 256).trans
      rw [← turned_of_odd odd]
      exact behind.symm
  · rw [if_neg odd]
    constructor
    · simp only [checked.swapped, decide_eq_decide]
      omega
    · rw [turned_of_even (show more.length % 2 = 0 by omega)] at behind
      exact folded.trans behind.symm

theorem Checked.copied
    {data : Bytes}
    {seg : SegChksum}
    (checked : Checked data seg)
    (dst : Nat)
    (more : Bytes) :
    Checked (data ++ more) (tcpDataCopy dst more seg) :=
  checked.add (lwipStandardChksum_sameSum dst more)

/-- The checksum of a segment with its bytes in their places. -/
theorem Checked.restored
    {data : Bytes}
    {seg : SegChksum}
    (checked : Checked data seg) :
    SameSum
      (if seg.chksumSwapped then swapU16 seg.chksum else seg.chksum).toNat
      (hostSum data) := by
  have back := turned_turned data.length (hostSum data)
  rw [checked.swapped]
  by_cases odd : data.length % 2 = 1
  · rw [if_pos (decide_eq_true odd), swapU16_eq]
    apply (lwipHtons_sameSum _).trans
    apply (checked.same.mul_left 256).trans
    rwa [turned_of_odd (by omega) (turned data.length (hostSum data))] at back
  · rw [if_neg (by simpa using odd)]
    have same := checked.same
    rwa [turned_of_even (by omega)] at same

theorem Checked.concatenated
    {data : Bytes}
    {seg : SegChksum}
    (checked : Checked data seg)
    (dst : Nat)
    (more : Bytes) :
    Checked (data ++ more) (tcpConcatChksum dst more seg) := by
  have alone := checked_nil.copied dst more
  rw [List.nil_append] at alone
  exact checked.add alone.restored

theorem sumPayload_checked
    {data : Bytes}
    {seg : SegChksum}
    (checked : Checked data seg)
    (p : List Buf) :
    Checked (data ++ chainBytes p) (sumPayload p 0 seg) := by
  induction p generalizing data seg with
  | nil =>
      rw [chainBytes, List.flatMap_nil, List.append_nil]
      exact checked
  | cons q rest inductionHypothesis =>
      have first := checked.copied (q.payload + 0) q.data
      have behind := inductionHypothesis first
      rw [List.append_assoc] at behind
      rw [sumPayload, InetChksum.inetChksum, BitVec.not_not, List.drop_zero,
        Nat.sub_zero]
      exact behind

/-- Where the data is found to start, it starts. -/
theorem payloadStart_bytes
    {p rest : List Buf}
    {q : Buf}
    {offset inside : Nat}
    (starts : payloadStart p offset = (q :: rest, inside)) :
    q.data.drop inside ++ chainBytes rest = (chainBytes p).drop offset := by
  induction p generalizing offset with
  | nil => cases starts
  | cons first others inductionHypothesis =>
      rw [payloadStart] at starts
      rw [chainBytes_cons, List.drop_append]
      by_cases behind : first.data.length < offset
      · rw [if_pos behind] at starts
        rw [List.drop_of_length_le (show first.data.length ≤ offset by omega),
          List.nil_append]
        exact inductionHypothesis starts
      · have here : offset - first.data.length = 0 := by omega
        rw [if_neg behind] at starts
        rw [here, List.drop_zero]
        cases starts
        rfl

theorem splitHeadChksum_checked
    {p : List Buf}
    {headers data : Bytes}
    {after : SegChksum}
    (chain : chainBytes p = headers ++ data)
    (summed : splitHeadChksum p headers.length = some after) :
    Checked data after := by
  unfold splitHeadChksum at summed
  generalize starts : payloadStart p headers.length = start at summed
  obtain ⟨found, inside⟩ := start
  cases found with
  | nil => cases summed
  | cons q rest =>
      cases summed
      have bytes := payloadStart_bytes starts
      rw [chain, List.drop_left] at bytes
      have first := checked_nil.copied (q.payload + inside) (q.data.drop inside)
      have whole := sumPayload_checked first rest
      rw [List.nil_append, bytes] at whole
      rw [sumPayload, InetChksum.inetChksum, BitVec.not_not, ← List.length_drop]
      exact whole

theorem splitRemainderChksum_checked (dst : Nat) (remainder : Bytes) :
    Checked remainder (splitRemainderChksum dst remainder) := by
  have copied := checked_nil.copied dst remainder
  rw [List.nil_append] at copied
  rw [splitRemainderChksum, InetChksum.inetChksum, BitVec.not_not]
  exact copied

/-- Sending a segment gives its checksum fields back as they were. -/
theorem outputSegmentChksum_kept
    {p : List Buf}
    {protoLen chksum : BitVec 16}
    {hdrlen : Nat}
    {src dest : IpAddrT}
    {seg after : SegChksum}
    (out : outputSegmentChksum p protoLen hdrlen src dest seg = some (chksum, after)) :
    after = seg := by
  rw [outputSegmentChksum, Option.map_eq_some_iff] at out
  obtain ⟨acc, _, made⟩ := out
  obtain ⟨_, rfl⟩ := Prod.mk.inj made
  obtain ⟨word, swapped⟩ := seg
  cases swapped with
  | false => rfl
  | true =>
      simp only [if_true]
      rw [swapU16_swapU16]

/-- Whatever has happened to a queued segment, its checksum is that of the data
it holds now. -/
theorem Queued.checked
    {data : Bytes}
    {seg : SegChksum}
    (queued : Queued data seg) :
    Checked data seg := by
  induction queued with
  | created => exact checked_nil
  | written dst data =>
      have copied := checked_nil.copied dst data
      rwa [List.nil_append] at copied
  | remainder dst data => exact splitRemainderChksum_checked dst data
  | filled _ dst more inductionHypothesis => exact inductionHypothesis.copied dst more
  | concatenated _ dst more inductionHypothesis =>
      exact inductionHypothesis.concatenated dst more
  | trimmed _ split p chain summed _ => exact splitHeadChksum_checked chain summed
  | sent _ p hdrlen src dest out inductionHypothesis =>
      rw [outputSegmentChksum_kept out]
      exact inductionHypothesis

/-- The checksum that is put together from the header's part and the data's. -/
theorem outputSegmentChksum_eq
    {data header : Bytes}
    {seg : SegChksum}
    (checked : Checked data seg)
    {p : List Buf}
    (chain : chainBytes p = header ++ data)
    (even : header.length % 2 = 0)
    (small : header.length < 0x7fff)
    (protoLen : BitVec 16)
    (src dest : IpAddrT) :
    outputSegmentChksum p protoLen header.length src dest seg =
      some
        (lwipHtons
          (internetChecksum
            (pseudoHeader src dest ipProtoTcp protoLen ++ (header ++ data))),
          seg) := by
  obtain ⟨made, after, out⟩ : ∃ made after,
      outputSegmentChksum p protoLen header.length src dest seg = some (made, after) := by
    rw [outputSegmentChksum, ipChksumPseudoPartial_eq p ipProtoTcp protoLen src dest small]
    exact ⟨_, _, rfl⟩
  have kept := outputSegmentChksum_kept out
  rw [out, kept]
  rw [outputSegmentChksum, ipChksumPseudoPartial_eq p ipProtoTcp protoLen src dest small,
    chain, List.take_left, Option.map_some, Option.some.injEq, Prod.mk.injEq] at out
  rw [← out.1, internetChecksum, lwipHtons_not, BitVec.not_not, internetChecksum,
    lwipHtons_not, BitVec.setWidth_not (by omega)]
  have folded := foldU32T_add
    (lwipHtons (internetSum (pseudoHeader src dest ipProtoTcp protoLen ++ header)))
    (if seg.chksumSwapped then swapU16 seg.chksum else seg.chksum)
  have whole := folded.trans
    ((lwipHtons_internetSum _).add checked.restored)
  rw [eq_lwipHtons_internetSum (whole.trans (OnesEq.of_eq ?_))]
  rw [hostSum_pseudoHeader, hostSum_pseudoHeader, hostSum_even_append even]
  omega

end NetstackLwip

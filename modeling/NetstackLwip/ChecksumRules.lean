import NetstackLwip.Checksum
import NetstackLwip.OnesComplement
import Mathlib.Tactic.IntervalCases

namespace NetstackLwip

/-!
# What the checksum routines compute

The Internet checksum is the complement of the one's-complement sum of the
16-bit words in network byte order. The routines sum words in host byte order,
split by the alignment of each buffer, and exchange the two bytes of the sum
behind every odd length. Counted modulo 65535 an exchange is a factor of 256,
which gives what each of them holds after any number of bytes.
-/

open OnesComplement

/-! ## The checksum of RFC 1071 -/

/-- The 16-bit words of some bytes in network byte order, a last odd byte
being padded with zero. -/
def netWords : Bytes → List Nat
  | [] => []
  | [high] => [high.toNat * 256]
  | high :: low :: rest => (high.toNat * 256 + low.toNat) :: netWords rest

/-- The one's-complement sum of the words. -/
def internetSum (bytes : Bytes) : BitVec 16 :=
  BitVec.ofNat 16 (onesSum 65536 (netWords bytes))

/-- The Internet checksum. -/
def internetChecksum (bytes : Bytes) : BitVec 16 :=
  ~~~ internetSum bytes

/-- The pseudo header of TCP and UDP; the destination's type decides. -/
def pseudoHeader (src dest : IpAddrT) (proto : BitVec 8) (len : BitVec 16) :
    Bytes :=
  if dest.isV6 then
    addrBytes src.ip6 ++ addrBytes dest.ip6 ++ longBytes (len.setWidth 32) ++
      [0, 0, 0, .ofBitVec proto]
  else
    longBytes src.ip4 ++ longBytes dest.ip4 ++ [0, .ofBitVec proto] ++
      wordBytes len

/-! ## Bytes with their weights -/

/-- The digits that some bytes are. -/
def digits (bytes : Bytes) : List Nat :=
  bytes.map UInt8.toNat

/-- The sum of the bytes' words in network byte order. -/
def netSum (bytes : Bytes) : Nat :=
  altSum 256 1 (digits bytes)

/-- The sum of the bytes' words in host byte order. -/
def hostSum (bytes : Bytes) : Nat :=
  altSum 1 256 (digits bytes)

/-- A sum whose words have been moved by some bytes. -/
def turned (moved total : Nat) : Nat :=
  if moved % 2 = 0 then total else 256 * total

/-- Numbers that fold to the same 16-bit word. -/
abbrev SameSum (first second : Nat) : Prop :=
  OnesEq 65536 first second

@[simp]
theorem netSum_nil : netSum [] = 0 :=
  rfl

@[simp]
theorem hostSum_nil : hostSum [] = 0 :=
  rfl

@[simp]
theorem netSum_cons (byte : UInt8) (rest : Bytes) :
    netSum (byte :: rest) = 256 * byte.toNat + hostSum rest :=
  rfl

@[simp]
theorem hostSum_cons (byte : UInt8) (rest : Bytes) :
    hostSum (byte :: rest) = byte.toNat + netSum rest := by
  rw [hostSum, digits, List.map_cons, altSum_cons, Nat.one_mul]
  rfl

theorem netSum_append (front back : Bytes) :
    netSum (front ++ back) =
      netSum front + if front.length % 2 = 0 then netSum back else hostSum back := by
  rw [netSum, digits, List.map_append, altSum_append, List.length_map]
  rfl

theorem hostSum_append (front back : Bytes) :
    hostSum (front ++ back) =
      hostSum front + if front.length % 2 = 0 then hostSum back else netSum back := by
  rw [hostSum, digits, List.map_append, altSum_append, List.length_map]
  rfl

/-- Exchanging the bytes of every word is a factor of 256. -/
theorem netSum_swapped (bytes : Bytes) :
    SameSum (256 * netSum bytes) (hostSum bytes) :=
  (@altSum_shift 256 (by omega) (digits bytes)).1

theorem hostSum_swapped (bytes : Bytes) :
    SameSum (256 * hostSum bytes) (netSum bytes) :=
  (@altSum_shift 256 (by omega) (digits bytes)).2

theorem sameSum_twice (total : Nat) : SameSum (256 * (256 * total)) total := by
  have once := @weight_base 65536 (by omega) total 0
  rw [Nat.add_zero, Nat.add_zero] at once
  exact (OnesEq.of_eq (by omega)).trans once

theorem turned_of_even
    {moved : Nat}
    (even : moved % 2 = 0)
    (total : Nat) :
    turned moved total = total := by
  rw [turned, if_pos even]

theorem turned_of_odd
    {moved : Nat}
    (odd : moved % 2 ≠ 0)
    (total : Nat) :
    turned moved total = 256 * total := by
  rw [turned, if_neg odd]

/-- Bytes put behind others: the sum so far and theirs are added, and both are
moved by them. -/
theorem turned_append (front back : Bytes) (start : Nat) :
    SameSum
      (turned (front ++ back).length (start + hostSum (front ++ back)))
      (turned back.length
        (turned front.length (start + hostSum front) + hostSum back)) := by
  rw [List.length_append, hostSum_append]
  unfold turned
  by_cases frontEven : front.length % 2 = 0
  · rw [if_pos frontEven, if_pos frontEven, Nat.add_assoc]
    by_cases backEven : back.length % 2 = 0
    · rw [if_pos backEven, if_pos (by omega)]
    · rw [if_neg backEven, if_neg (by omega)]
  · rw [if_neg frontEven, if_neg frontEven, ← Nat.add_assoc]
    have moved :
        SameSum (256 * (start + hostSum front + netSum back))
          (256 * (start + hostSum front) + hostSum back) := by
      rw [Nat.mul_add]
      exact (OnesEq.refl _ _).add (netSum_swapped back)
    by_cases backEven : back.length % 2 = 0
    · rw [if_pos backEven, if_neg (by omega)]
      exact moved
    · rw [if_neg backEven, if_pos (by omega)]
      exact (sameSum_twice _).symm.trans (moved.mul_left 256)

theorem turned_turned (moved total : Nat) :
    SameSum (turned moved (turned moved total)) total := by
  unfold turned
  by_cases even : moved % 2 = 0
  · rw [if_pos even, if_pos even]
  · rw [if_neg even, if_neg even]
    exact sameSum_twice total

/-- Moved back behind `front`, a sum has the bytes of `back` where they stand in
the whole. -/
theorem turned_back (front back : Bytes) (start : Nat) :
    SameSum
      (turned front.length (turned front.length (start + hostSum front) + hostSum back))
      (start + hostSum (front ++ back)) := by
  rw [hostSum_append, ← Nat.add_assoc]
  unfold turned
  by_cases even : front.length % 2 = 0
  · rw [if_pos even, if_pos even, if_pos even]
  · rw [if_neg even, if_neg even, if_neg even, Nat.mul_add]
    exact (sameSum_twice _).add (hostSum_swapped back)

/-- Moving on by some bytes, and then by these and others. -/
theorem turned_add (first second total : Nat) :
    SameSum (turned (first + second) (turned second total)) (turned first total) := by
  unfold turned
  by_cases firstEven : first % 2 = 0
  · by_cases secondEven : second % 2 = 0
    · rw [if_pos firstEven, if_pos secondEven, if_pos (by omega)]
    · rw [if_pos firstEven, if_neg secondEven, if_neg (by omega)]
      exact sameSum_twice total
  · by_cases secondEven : second % 2 = 0
    · rw [if_neg firstEven, if_pos secondEven, if_neg (by omega)]
    · rw [if_neg firstEven, if_neg secondEven, if_pos (by omega)]

theorem netWords_sum (bytes : Bytes) : (netWords bytes).sum = netSum bytes := by
  induction bytes using netWords.induct with
  | case1 => rfl
  | case2 high =>
      rw [netWords, List.sum_singleton, netSum_cons, hostSum_nil]
      omega
  | case3 high low rest inductionHypothesis =>
      rw [netWords, List.sum_cons, netSum_cons, hostSum_cons, inductionHypothesis]
      omega

theorem netWords_lt (bytes : Bytes) : ∀ word ∈ netWords bytes, word < 65536 := by
  induction bytes using netWords.induct with
  | case1 => simp [netWords]
  | case2 high =>
      have highLt := high.toNat_lt
      simp only [netWords, List.mem_singleton, forall_eq]
      omega
  | case3 high low rest inductionHypothesis =>
      have highLt := high.toNat_lt
      have lowLt := low.toNat_lt
      rw [netWords, List.forall_mem_cons]
      exact ⟨by omega, inductionHypothesis⟩

theorem internetSum_sameSum (bytes : Bytes) :
    SameSum (internetSum bytes).toNat (netSum bytes) := by
  have below := onesSum_lt (by omega) (netWords_lt bytes)
  rw [internetSum, BitVec.toNat_ofNat, Nat.mod_eq_of_lt (by omega),
    ← netWords_sum]
  exact onesSum_onesEq (by omega) (netWords_lt bytes)

/-- A word is the sum of some bytes once it counts as much. -/
theorem eq_internetSum
    {word : BitVec 16}
    {bytes : Bytes}
    (same : SameSum word.toNat (netSum bytes)) :
    word = internetSum bytes :=
  BitVec.eq_of_toNat_eq <|
    (same.trans (internetSum_sameSum bytes).symm).eq_of_lt
      (by omega) (by omega)

namespace InetChksum

/-! ## Words -/

@[simp]
theorem loadU16_toNat (low high : UInt8) :
    (loadU16 low high).toNat = low.toNat + 256 * high.toNat := by
  rw [loadU16, BitVec.toNat_append, ← Nat.shiftLeft_add_eq_or_of_lt low.toBitVec.isLt,
    Nat.shiftLeft_eq]
  simp only [UInt8.toNat_toBitVec]
  omega

theorem loadU16_lt (low high : UInt8) : (loadU16 low high).toNat < 65536 :=
  (loadU16 low high).isLt

theorem loadU32_toNat (first second third fourth : UInt8) :
    (loadU32 first second third fourth).toNat =
      (loadU16 first second).toNat + 65536 * (loadU16 third fourth).toNat := by
  rw [loadU32, BitVec.toNat_append,
    ← Nat.shiftLeft_add_eq_or_of_lt (loadU16 first second).isLt, Nat.shiftLeft_eq]
  omega

theorem lwipHtons_eq (n : BitVec 16) :
    lwipHtons n = n.extractLsb' 0 8 ++ n.extractLsb' 8 8 := by
  unfold lwipHtons
  apply BitVec.eq_of_getLsbD_eq
  intro i below
  rw [BitVec.getLsbD_append]
  interval_cases i <;> simp [BitVec.getLsbD_eq_getElem]

theorem lwipHtonl_eq (n : BitVec 32) :
    lwipHtonl n =
      n.extractLsb' 0 8 ++ n.extractLsb' 8 8 ++
        (n.extractLsb' 16 8 ++ n.extractLsb' 24 8) := by
  unfold lwipHtonl
  apply BitVec.eq_of_getLsbD_eq
  intro i below
  rw [BitVec.getLsbD_append, BitVec.getLsbD_append, BitVec.getLsbD_append]
  have inside : i < 32 := below
  clear below
  interval_cases i <;> simp

theorem lwipHtons_toNat (n : BitVec 16) :
    (lwipHtons n).toNat = n.toNat % 256 * 256 + n.toNat / 256 := by
  have below := n.isLt
  rw [lwipHtons_eq, BitVec.toNat_append,
    ← Nat.shiftLeft_add_eq_or_of_lt (n.extractLsb' 8 8).isLt, Nat.shiftLeft_eq,
    BitVec.extractLsb'_toNat, BitVec.extractLsb'_toNat, Nat.shiftRight_zero,
    Nat.shiftRight_eq_div_pow]
  omega

theorem lwipHtons_lwipHtons (n : BitVec 16) : lwipHtons (lwipHtons n) = n := by
  apply BitVec.eq_of_toNat_eq
  have below := n.isLt
  rw [lwipHtons_toNat, lwipHtons_toNat]
  omega

theorem lowHalf_toNat (u : BitVec 32) :
    (lowHalf u).toNat = u.toNat % 65536 := by
  rw [lowHalf, BitVec.toNat_and]
  exact Nat.and_two_pow_sub_one_eq_mod u.toNat 16

theorem foldU32T_toNat (u : BitVec 32) :
    (foldU32T u).toNat = u.toNat / 65536 + u.toNat % 65536 := by
  have below := u.isLt
  rw [foldU32T, BitVec.toNat_add, lowHalf_toNat, BitVec.toNat_ushiftRight,
    Nat.shiftRight_eq_div_pow]
  omega

theorem swapBytesInWord_eq (w : BitVec 32) :
    swapBytesInWord w = (lwipHtons (w.setWidth 16)).setWidth 32 := by
  unfold swapBytesInWord lwipHtons
  apply BitVec.eq_of_getLsbD_eq
  intro i below
  interval_cases i <;> simp [BitVec.getLsbD_eq_getElem]

theorem foldU32T_sameSum (u : BitVec 32) :
    SameSum (foldU32T u).toNat u.toNat := by
  rw [foldU32T_toNat]
  exact fold_onesEq (by omega) u.toNat

theorem foldU32T_lt {u : BitVec 32} (small : u.toNat < 131071) :
    (foldU32T u).toNat < 65536 := by
  rw [foldU32T_toNat]
  omega

theorem foldU32T_twice_lt {u : BitVec 32} (small : u.toNat < 4294901760) :
    (foldU32T (foldU32T u)).toNat < 65536 := by
  apply foldU32T_lt
  rw [foldU32T_toNat]
  omega

theorem lwipHtons_sameSum (n : BitVec 16) :
    SameSum (lwipHtons n).toNat (256 * n.toNat) := by
  have carried := @weight_base 65536 (by omega) (n.toNat / 256) (n.toNat % 256 * 256)
  rw [lwipHtons_toNat, Nat.add_comm (n.toNat % 256 * 256)]
  exact carried.symm.trans (OnesEq.of_eq (by omega))

theorem swapBytesInWord_sameSum {w : BitVec 32} (below : w.toNat < 65536) :
    SameSum (swapBytesInWord w).toNat (256 * w.toNat) ∧
      (swapBytesInWord w).toNat < 65536 := by
  have swapped := lwipHtons_sameSum (w.setWidth 16)
  rw [BitVec.toNat_setWidth, Nat.mod_eq_of_lt below] at swapped
  have swappedLt := (lwipHtons (w.setWidth 16)).isLt
  rw [swapBytesInWord_eq, BitVec.toNat_setWidth, Nat.mod_eq_of_lt (by omega)]
  exact ⟨swapped, swappedLt⟩

/-! ## One stretch of memory -/

theorem addCarry_sameSum (sum word : BitVec 32) :
    SameSum (addCarry sum word).toNat (sum.toNat + word.toNat) := by
  have carried : (addCarry sum word).toNat = carryAdd 4294967296 sum.toNat word.toNat := by
    have sumLt := sum.isLt
    have wordLt := word.isLt
    unfold addCarry carryAdd
    by_cases below : sum.toNat + word.toNat < 4294967296
    · rw [if_pos below, if_neg (by bv_omega), BitVec.toNat_add]
      omega
    · rw [if_neg below, if_pos (by bv_omega), BitVec.toNat_add, BitVec.toNat_add]
      have one : (1 : BitVec 32).toNat = 1 := rfl
      omega
  rw [carried]
  exact (carryAdd_onesEq (by omega)).of_dvd (by omega)

/-- Bytes and the words of them taken so far count together. -/
theorem loadU16_sameSum (low high : UInt8) (rest : Bytes) :
    (loadU16 low high).toNat + hostSum rest = hostSum (low :: high :: rest) := by
  rw [loadU16_toNat, hostSum_cons, netSum_cons]
  omega

theorem loadU32_sameSum (first second third fourth : UInt8) (rest : Bytes) :
    SameSum ((loadU32 first second third fourth).toNat + hostSum rest)
      (hostSum (first :: second :: third :: fourth :: rest)) := by
  have carried :=
    @weight_base 65536 (by omega) (loadU16 third fourth).toNat
      ((loadU16 first second).toNat + hostSum rest)
  rw [← loadU16_sameSum, ← loadU16_sameSum, loadU32_toNat]
  exact (OnesEq.of_eq (by omega)).trans (carried.trans (OnesEq.of_eq (by omega)))

theorem exists_cons_eight {data : Bytes} (long : 8 ≤ data.length) :
    ∃ b0 b1 b2 b3 b4 b5 b6 b7 rest,
      data = b0 :: b1 :: b2 :: b3 :: b4 :: b5 :: b6 :: b7 :: rest := by
  rcases data with
    _ | ⟨b0, _ | ⟨b1, _ | ⟨b2, _ | ⟨b3, _ | ⟨b4, _ | ⟨b5, _ | ⟨b6, _ | ⟨b7, rest⟩⟩⟩⟩⟩⟩⟩⟩
  case cons.cons.cons.cons.cons.cons.cons.cons =>
    exact ⟨b0, b1, b2, b3, b4, b5, b6, b7, rest, rfl⟩
  all_goals simp at long

theorem sumLongs_sameSum (sum : BitVec 32) (data : Bytes) :
    SameSum ((sumLongs sum data).1.toNat + hostSum (sumLongs sum data).2)
        (sum.toNat + hostSum data) ∧
      (sumLongs sum data).2.length < 8 := by
  induction sum, data using sumLongs.induct with
  | case1 sum b0 b1 b2 b3 b4 b5 b6 b7 rest tmp inductionHypothesis =>
      obtain ⟨same, short⟩ := inductionHypothesis
      rw [sumLongs]
      refine ⟨same.trans ?_, short⟩
      have pong :
          SameSum ((addCarry tmp (loadU32 b4 b5 b6 b7)).toNat + hostSum rest)
            (tmp.toNat + hostSum (b4 :: b5 :: b6 :: b7 :: rest)) := by
        apply OnesEq.trans ((addCarry_sameSum _ _).add (OnesEq.refl _ _))
        rw [Nat.add_assoc]
        exact (OnesEq.refl _ _).add (loadU32_sameSum b4 b5 b6 b7 rest)
      apply pong.trans
      apply OnesEq.trans ((addCarry_sameSum _ _).add (OnesEq.refl _ _))
      rw [Nat.add_assoc]
      exact (OnesEq.refl _ _).add (loadU32_sameSum b0 b1 b2 b3 _)
  | case2 sum data short =>
      have stops : sumLongs sum data = (sum, data) := by
        rw [sumLongs]
        exact short
      rw [stops]
      refine ⟨OnesEq.refl _ _, Nat.lt_of_not_le ?_⟩
      intro long
      obtain ⟨b0, b1, b2, b3, b4, b5, b6, b7, rest, rfl⟩ := exists_cons_eight long
      exact short b0 b1 b2 b3 b4 b5 b6 b7 rest rfl

theorem sumWords_sum (sum : BitVec 32) (data : Bytes)
    (small : sum.toNat + 65536 * data.length < 4294967296) :
    (sumWords sum data).1.toNat + (sumWords sum data).2.toNat =
        sum.toNat + hostSum data ∧
      (sumWords sum data).1.toNat ≤ sum.toNat + 32768 * data.length := by
  induction sum, data using sumWords.induct with
  | case1 sum low high rest inductionHypothesis =>
      have word := loadU16_sameSum low high rest
      have wordLt := (loadU16 low high).isLt
      have added : (sum + (loadU16 low high).setWidth 32).toNat =
          sum.toNat + (loadU16 low high).toNat := by
        rw [List.length_cons, List.length_cons] at small
        rw [BitVec.toNat_add, BitVec.toNat_setWidth]
        omega
      rw [List.length_cons, List.length_cons] at small
      rw [sumWords, List.length_cons, List.length_cons]
      obtain ⟨total, bound⟩ := inductionHypothesis (by omega)
      omega
  | case2 sum tail =>
      rw [sumWords, hostSum_cons, netSum_nil]
      exact ⟨rfl, Nat.le_add_right _ _⟩
  | case3 sum =>
      rw [sumWords, hostSum_nil]
      exact ⟨rfl, Nat.le_refl _⟩

/-- What is summed behind the first byte of an odd address: `t`, which that
byte is the upper half of, and the rest. -/
theorem oddByte_sum (dataptr : Nat) (data : Bytes) :
    256 * (oddByte dataptr data).1.toNat + hostSum (oddByte dataptr data).2.2 =
      if dataptr % 2 = 1 then netSum data else hostSum data := by
  cases data with
  | nil => simp [oddByte]
  | cons first rest =>
      unfold oddByte
      by_cases odd : dataptr % 2 = 1
      · simp only [odd, if_true, netSum_cons]
      · simp [odd]

theorem alignWord_sum (ps : Nat) (data : Bytes) :
    (alignWord ps data).1.toNat + hostSum (alignWord ps data).2 = hostSum data := by
  unfold alignWord
  split
  · rename_i low high rest
    by_cases misaligned : ps % 4 ≠ 0
    · rw [if_pos misaligned, BitVec.toNat_setWidth,
        Nat.mod_eq_of_lt (Nat.lt_trans (loadU16 low high).isLt (by omega))]
      exact loadU16_sameSum low high rest
    · rw [if_neg misaligned]
      exact Nat.zero_add _
  · exact Nat.zero_add _

theorem lwipStandardChksum_sameSum (dataptr : Nat) (data : Bytes) :
    SameSum (lwipStandardChksum dataptr data).toNat (hostSum data) := by
  have odd := oddByte_sum dataptr data
  unfold lwipStandardChksum
  generalize oddByte dataptr data = headed at odd ⊢
  obtain ⟨head, ps, behind⟩ := headed
  dsimp only at odd ⊢
  have aligned := alignWord_sum ps behind
  generalize alignWord ps behind = worded at aligned ⊢
  obtain ⟨word, rest⟩ := worded
  dsimp only at aligned ⊢
  obtain ⟨longs, short⟩ := sumLongs_sameSum word rest
  generalize sumLongs word rest = longed at longs short ⊢
  obtain ⟨sum, words⟩ := longed
  dsimp only at longs short ⊢
  have folded := foldU32T_sameSum sum
  have foldedLe : (foldU32T sum).toNat ≤ 131070 := by
    have sumLt := sum.isLt
    rw [foldU32T_toNat]
    omega
  obtain ⟨counted, bound⟩ := sumWords_sum (foldU32T sum) words (by omega)
  generalize sumWords (foldU32T sum) words = summed at counted bound ⊢
  obtain ⟨sum', tail⟩ := summed
  dsimp only at counted bound ⊢
  have tailLt := tail.toNat_lt
  have headLt := head.toNat_lt
  have ends : (sum' + (loadU16 tail head).setWidth 32).toNat =
      sum'.toNat + tail.toNat + 256 * head.toNat := by
    rw [BitVec.toNat_add, BitVec.toNat_setWidth, loadU16_toNat]
    omega
  have small := @foldU32T_twice_lt (sum' + (loadU16 tail head).setWidth 32) (by omega)
  have total :
      SameSum (foldU32T (foldU32T (sum' + (loadU16 tail head).setWidth 32))).toNat
        (if dataptr % 2 = 1 then netSum data else hostSum data) := by
    apply (foldU32T_sameSum _).trans
    apply (foldU32T_sameSum _).trans
    rw [ends, ← odd, ← aligned]
    have behindSum : sum'.toNat + tail.toNat + 256 * head.toNat =
        (foldU32T sum).toNat + hostSum words + 256 * head.toNat := by
      omega
    rw [behindSum, Nat.add_comm (256 * head.toNat)]
    exact ((folded.add (OnesEq.refl _ _)).trans longs).add (OnesEq.refl _ _)
  rw [BitVec.toNat_setWidth]
  by_cases odd : dataptr % 2 = 1
  · rw [if_pos odd] at total ⊢
    obtain ⟨swapped, swappedLt⟩ := swapBytesInWord_sameSum small
    rw [Nat.mod_eq_of_lt (by omega)]
    exact (swapped.trans (total.mul_left 256)).trans (netSum_swapped data)
  · rw [if_neg odd] at total ⊢
    rwa [Nat.mod_eq_of_lt (by omega)]

theorem storeU16_lwipHtons (n : BitVec 16) :
    storeU16 (lwipHtons n) = wordBytes n := by
  have low : (n.extractLsb' 0 8 ++ n.extractLsb' 8 8).extractLsb' 0 8 =
      n.extractLsb' 8 8 :=
    BitVec.extractLsb'_append_eq_right
  have high : (n.extractLsb' 0 8 ++ n.extractLsb' 8 8).extractLsb' 8 8 =
      n.extractLsb' 0 8 :=
    BitVec.extractLsb'_append_eq_left
  rw [storeU16, wordBytes, lwipHtons_eq, low, high]

theorem lwipHtons_not (n : BitVec 16) : lwipHtons (~~~ n) = ~~~ lwipHtons n := by
  apply BitVec.eq_of_toNat_eq
  have below := n.isLt
  rw [lwipHtons_toNat, BitVec.toNat_not, BitVec.toNat_not, lwipHtons_toNat]
  omega

theorem lwipHtons_internetSum (bytes : Bytes) :
    SameSum (lwipHtons (internetSum bytes)).toNat (hostSum bytes) :=
  (lwipHtons_sameSum (internetSum bytes)).trans
    (((internetSum_sameSum bytes).mul_left 256).trans (netSum_swapped bytes))

/-- A word that counts as much as some bytes is their sum in host byte order. -/
theorem eq_lwipHtons_internetSum
    {word : BitVec 16}
    {bytes : Bytes}
    (same : SameSum word.toNat (hostSum bytes)) :
    word = lwipHtons (internetSum bytes) :=
  BitVec.eq_of_toNat_eq <|
    (same.trans (lwipHtons_internetSum bytes).symm).eq_of_lt word.isLt
      (lwipHtons (internetSum bytes)).isLt

/-! ## Chains of buffers -/

/-- The bytes of a chain. -/
def chainBytes (p : List Buf) : Bytes :=
  p.flatMap Buf.data

@[simp]
theorem chainBytes_cons (q : Buf) (rest : List Buf) :
    chainBytes (q :: rest) = q.data ++ chainBytes rest :=
  List.flatMap_cons

theorem chainBytes_map (payload : Nat) (p : Pbuf) :
    chainBytes (p.map (Buf.mk payload)) = p.data := by
  rw [chainBytes, List.flatMap_map, Pbuf.data]
  exact List.flatMap_id

/-- The bytes `done` have been summed, on top of `start`. -/
structure ChainSum.Counts (sum : ChainSum) (start : Nat) (done : Bytes) : Prop where
  swapped : sum.swapped = decide (done.length % 2 = 1)
  below : sum.acc.toNat < 65536
  same : SameSum sum.acc.toNat (turned done.length (start + hostSum done))

theorem ChainSum.Counts.init
    {acc : BitVec 32}
    {start : Nat}
    (below : acc.toNat < 65536)
    (same : SameSum acc.toNat start) :
    ChainSum.Counts ⟨acc, false⟩ start [] := by
  refine ⟨rfl, below, ?_⟩
  rw [hostSum_nil, Nat.add_zero, turned, List.length_nil, Nat.zero_mod, if_pos rfl]
  exact same

/-- What one round adds, before the bytes of the sum are exchanged. -/
theorem addChksum_sameSum
    {acc : BitVec 32}
    {total : Nat}
    (below : acc.toNat < 65536)
    (same : SameSum acc.toNat total)
    (payload : Nat)
    (more : Bytes) :
    SameSum
        (foldU32T (acc + (lwipStandardChksum payload more).setWidth 32)).toNat
        (total + hostSum more) ∧
      (foldU32T (acc + (lwipStandardChksum payload more).setWidth 32)).toNat <
        65536 := by
  have chksumLt := (lwipStandardChksum payload more).isLt
  have added :
      (acc + (lwipStandardChksum payload more).setWidth 32).toNat =
        acc.toNat + (lwipStandardChksum payload more).toNat := by
    rw [BitVec.toNat_add, BitVec.toNat_setWidth]
    omega
  refine ⟨(foldU32T_sameSum _).trans ?_, foldU32T_lt (by omega)⟩
  rw [added]
  exact same.add (lwipStandardChksum_sameSum payload more)

/-- A sum whose bytes are exchanged behind an odd length. -/
theorem exchanged_sameSum
    {acc : BitVec 32}
    {total : Nat}
    (below : acc.toNat < 65536)
    (same : SameSum acc.toNat total)
    (moved : Nat) :
    SameSum (if moved % 2 ≠ 0 then swapBytesInWord acc else acc).toNat
        (turned moved total) ∧
      (if moved % 2 ≠ 0 then swapBytesInWord acc else acc).toNat < 65536 := by
  unfold turned
  by_cases even : moved % 2 = 0
  · rw [if_neg (by omega), if_pos even]
    exact ⟨same, below⟩
  · obtain ⟨swapped, swappedLt⟩ := swapBytesInWord_sameSum below
    rw [if_pos even, if_neg even]
    exact ⟨swapped.trans (same.mul_left 256), swappedLt⟩

theorem ChainSum.Counts.add
    {sum : ChainSum}
    {start : Nat}
    {done : Bytes}
    (counts : sum.Counts start done)
    (q : Buf) :
    (sum.add q q.data.length).Counts start (done ++ q.data) := by
  obtain ⟨added, addedLt⟩ :=
    addChksum_sameSum counts.below counts.same q.payload q.data
  obtain ⟨exchanged, exchangedLt⟩ := exchanged_sameSum addedLt added q.data.length
  have behind := (turned_append done q.data start).symm
  unfold ChainSum.add
  rw [List.take_length]
  have parity : (done ++ q.data).length = done.length + q.data.length :=
    List.length_append
  by_cases odd : q.data.length % 2 ≠ 0
  · rw [if_pos odd] at exchanged exchangedLt
    rw [if_pos odd]
    refine ⟨?_, exchangedLt, exchanged.trans behind⟩
    simp only [counts.swapped, ← decide_not, decide_eq_decide]
    omega
  · rw [if_neg odd] at exchanged exchangedLt
    rw [if_neg odd]
    refine ⟨?_, exchangedLt, exchanged.trans behind⟩
    simp only [counts.swapped, decide_eq_decide]
    omega

theorem ChainSum.Counts.addAll
    {sum : ChainSum}
    {start : Nat}
    {done : Bytes}
    (counts : sum.Counts start done)
    (p : List Buf) :
    (sum.addAll p).Counts start (done ++ chainBytes p) := by
  induction p generalizing sum done with
  | nil =>
      rw [chainBytes, List.flatMap_nil, List.append_nil]
      exact counts
  | cons q rest inductionHypothesis =>
      have behind := inductionHypothesis (counts.add q)
      rwa [List.append_assoc] at behind

theorem ChainSum.restored_sameSum
    {sum : ChainSum}
    {moved total : Nat}
    (swapped : sum.swapped = decide (moved % 2 = 1))
    (below : sum.acc.toNat < 65536)
    (same : SameSum sum.acc.toNat total) :
    SameSum sum.restored.toNat (turned moved total) ∧
      sum.restored.toNat < 65536 := by
  have exchanged := exchanged_sameSum below same moved
  unfold ChainSum.restored
  rw [swapped]
  by_cases odd : moved % 2 = 1
  · rw [if_pos (decide_eq_true odd)]
    rwa [if_pos (by omega)] at exchanged
  · rw [if_neg (by simpa using odd)]
    rwa [if_neg (by omega)] at exchanged

/-- With its bytes back in their places the sum is that of all the bytes. -/
theorem ChainSum.Counts.restored
    {sum : ChainSum}
    {start : Nat}
    {done : Bytes}
    (counts : sum.Counts start done) :
    SameSum sum.restored.toNat (start + hostSum done) ∧
      sum.restored.toNat < 65536 := by
  obtain ⟨same, below⟩ :=
    ChainSum.restored_sameSum counts.swapped counts.below counts.same
  exact ⟨same.trans (turned_turned done.length _), below⟩

/-- It is so too when only a part of the last buffer has been summed. -/
theorem ChainSum.Counts.restored_add
    {sum : ChainSum}
    {start : Nat}
    {done : Bytes}
    (counts : sum.Counts start done)
    (q : Buf)
    (chklen : Nat) :
    SameSum (sum.add q chklen).restored.toNat
        (start + hostSum (done ++ q.data.take chklen)) ∧
      (sum.add q chklen).restored.toNat < 65536 := by
  obtain ⟨added, addedLt⟩ :=
    addChksum_sameSum counts.below counts.same q.payload (q.data.take chklen)
  obtain ⟨exchanged, exchangedLt⟩ := exchanged_sameSum addedLt added q.data.length
  have parity : (sum.add q chklen).swapped =
      decide ((done.length + q.data.length) % 2 = 1) := by
    unfold ChainSum.add
    by_cases odd : q.data.length % 2 ≠ 0
    · rw [if_pos odd]
      simp only [counts.swapped, ← decide_not, decide_eq_decide]
      omega
    · rw [if_neg odd]
      simp only [counts.swapped, decide_eq_decide]
      omega
  have acc : (sum.add q chklen).acc =
      if q.data.length % 2 ≠ 0 then
        swapBytesInWord
          (foldU32T (sum.acc +
            (lwipStandardChksum q.payload (q.data.take chklen)).setWidth 32))
      else
        foldU32T (sum.acc +
          (lwipStandardChksum q.payload (q.data.take chklen)).setWidth 32) := by
    unfold ChainSum.add
    by_cases odd : q.data.length % 2 ≠ 0
    · rw [if_pos odd, if_pos odd]
    · rw [if_neg odd, if_neg odd]
  rw [← acc] at exchanged exchangedLt
  obtain ⟨same, below⟩ :=
    ChainSum.restored_sameSum parity exchangedLt exchanged
  refine ⟨same.trans ?_, below⟩
  exact (turned_add done.length q.data.length _).trans
    (turned_back done (q.data.take chklen) start)

theorem addPartial_counts
    {sum : ChainSum}
    {start : Nat}
    {done : Bytes}
    (counts : sum.Counts start done)
    (p : List Buf)
    (chksumLen : Nat)
    (small : chksumLen < 0x7fff) :
    ∃ after,
      addPartial p chksumLen sum = some after ∧
        SameSum after.restored.toNat
          (start + hostSum (done ++ (chainBytes p).take chksumLen)) ∧
        after.restored.toNat < 65536 := by
  induction p generalizing sum done chksumLen with
  | nil =>
      refine ⟨sum, rfl, ?_⟩
      rw [chainBytes, List.flatMap_nil, List.take_nil, List.append_nil]
      exact counts.restored
  | cons q rest inductionHypothesis =>
      rw [addPartial, chainBytes, List.flatMap_cons]
      by_cases noneLeft : chksumLen = 0
      · refine ⟨sum, if_pos noneLeft, ?_⟩
        rw [noneLeft, List.take_zero, List.append_nil]
        exact counts.restored
      · rw [if_neg noneLeft]
        dsimp only
        rw [if_pos (by omega)]
        by_cases whole : q.data.length ≤ chksumLen
        · rw [Nat.min_eq_left whole, List.take_append, List.take_of_length_le whole,
            ← List.append_assoc]
          exact inductionHypothesis (counts.add q) (chksumLen - q.data.length) (by omega)
        · -- the last buffer that is summed, after which nothing is left
          have last : chksumLen - min q.data.length chksumLen = 0 := by omega
          rw [last, Nat.min_eq_right (by omega), List.take_append_of_le_length (by omega)]
          refine ⟨_, ?_, counts.restored_add q chksumLen⟩
          cases rest with
          | nil => rfl
          | cons next others =>
              rw [addPartial, if_pos rfl]

/-! ## Pseudo headers -/

theorem lwipHtons_append (high low : BitVec 8) :
    (lwipHtons (high ++ low)).toNat = hostSum [.ofBitVec high, .ofBitVec low] := by
  have highLt := high.isLt
  have lowLt := low.isLt
  rw [lwipHtons_toNat, BitVec.toNat_append,
    ← Nat.shiftLeft_add_eq_or_of_lt low.isLt, Nat.shiftLeft_eq]
  simp only [hostSum_cons, netSum_cons, hostSum_nil, UInt8.toNat_ofBitVec]
  omega

theorem lwipHtons_hostSum (word : BitVec 16) :
    (lwipHtons word).toNat = hostSum (wordBytes word) := by
  have split : word.extractLsb' 8 8 ++ word.extractLsb' 0 8 = word :=
    BitVec.extractLsb'_append_extractLsb'
  rw [wordBytes, ← lwipHtons_append, split]

theorem closePseudo_sameSum
    {sum : ChainSum}
    {total : Nat}
    (same : SameSum sum.restored.toNat total)
    (below : sum.restored.toNat < 65536)
    (proto : BitVec 8)
    (protoLen : BitVec 16) :
    SameSum (~~~ closePseudo sum proto protoLen).toNat
      (total + hostSum ([0, .ofBitVec proto] ++ wordBytes protoLen)) := by
  have protoLt := (lwipHtons (proto.setWidth 16)).isLt
  have lenLt := (lwipHtons protoLen).isLt
  have added :
      (sum.restored + (lwipHtons (proto.setWidth 16)).setWidth 32 +
          (lwipHtons protoLen).setWidth 32).toNat =
        sum.restored.toNat + (lwipHtons (proto.setWidth 16)).toNat +
          (lwipHtons protoLen).toNat := by
    rw [BitVec.toNat_add, BitVec.toNat_add, BitVec.toNat_setWidth,
      BitVec.toNat_setWidth]
    omega
  have small := foldU32T_twice_lt (by omega :
    (sum.restored + (lwipHtons (proto.setWidth 16)).setWidth 32 +
      (lwipHtons protoLen).setWidth 32).toNat < 4294901760)
  unfold closePseudo
  rw [BitVec.not_not, BitVec.toNat_setWidth, Nat.mod_eq_of_lt (by omega)]
  apply (foldU32T_sameSum _).trans
  apply (foldU32T_sameSum _).trans
  have protoByte : (lwipHtons (proto.setWidth 16)).toNat = 256 * proto.toNat := by
    have protoLt := proto.isLt
    rw [lwipHtons_toNat, BitVec.toNat_setWidth]
    omega
  have trailer : hostSum ([0, .ofBitVec proto] ++ wordBytes protoLen) =
      256 * proto.toNat + hostSum (wordBytes protoLen) := by
    rw [hostSum_append]
    simp
  rw [added, trailer, protoByte, Nat.add_assoc]
  exact same.add ((OnesEq.refl _ _).add (OnesEq.of_eq (lwipHtons_hostSum protoLen)))

theorem lwipHtonl_load (n : BitVec 32) :
    lwipHtonl n =
      loadU32 (.ofBitVec (n.extractLsb' 24 8)) (.ofBitVec (n.extractLsb' 16 8))
        (.ofBitVec (n.extractLsb' 8 8)) (.ofBitVec (n.extractLsb' 0 8)) := by
  rw [lwipHtonl_eq]
  rfl

theorem longBytes_eq (long : BitVec 32) :
    longBytes long =
      [.ofBitVec (long.extractLsb' 24 8), .ofBitVec (long.extractLsb' 16 8),
        .ofBitVec (long.extractLsb' 8 8), .ofBitVec (long.extractLsb' 0 8)] := by
  have first : (long.extractLsb' 16 16).extractLsb' 8 8 = long.extractLsb' 24 8 := by
    apply BitVec.eq_of_toNat_eq
    simp only [BitVec.extractLsb'_toNat, Nat.shiftRight_eq_div_pow]
    omega
  have second : (long.extractLsb' 16 16).extractLsb' 0 8 = long.extractLsb' 16 8 := by
    apply BitVec.eq_of_toNat_eq
    simp only [BitVec.extractLsb'_toNat, Nat.shiftRight_eq_div_pow]
    omega
  rw [longBytes, wordBytes, first, second, wordBytes,
    BitVec.extractLsb'_extractLsb'_of_le (by omega),
    BitVec.extractLsb'_extractLsb'_of_le (by omega)]
  rfl

theorem halves_lwipHtonl (addr : BitVec 32) :
    (halves (lwipHtonl addr)).toNat = hostSum (longBytes addr) := by
  have loaded := congrArg BitVec.toNat (lwipHtonl_load addr)
  rw [loadU32_toNat] at loaded
  have lowLt :=
    loadU16_lt (.ofBitVec (addr.extractLsb' 24 8)) (.ofBitVec (addr.extractLsb' 16 8))
  have highLt :=
    loadU16_lt (.ofBitVec (addr.extractLsb' 8 8)) (.ofBitVec (addr.extractLsb' 0 8))
  rw [longBytes_eq, ← loadU16_sameSum, ← loadU16_sameSum, hostSum_nil, halves,
    BitVec.toNat_add, lowHalf_toNat, lowHalf_toNat, BitVec.toNat_ushiftRight, loaded,
    Nat.shiftRight_eq_div_pow, Nat.add_mul_mod_self_left,
    Nat.add_mul_div_left _ _ (by omega), Nat.div_eq_of_lt lowLt,
    Nat.mod_eq_of_lt lowLt, Nat.zero_add, Nat.mod_eq_of_lt highLt]
  omega

theorem hostSum_even_append
    {front : Bytes}
    (even : front.length % 2 = 0)
    (back : Bytes) :
    hostSum (front ++ back) = hostSum front + hostSum back := by
  rw [hostSum_append, if_pos even]

theorem hostSum_longBytes_le (long : BitVec 32) :
    hostSum (longBytes long) ≤ 131070 := by
  rw [← halves_lwipHtonl, halves, BitVec.toNat_add, lowHalf_toNat, lowHalf_toNat]
  omega

theorem ip4Addresses_sameSum (src dest : BitVec 32) :
    SameSum (ip4Addresses src dest).toNat (hostSum (longBytes src ++ longBytes dest)) ∧
      (ip4Addresses src dest).toNat < 65536 := by
  have srcLe := hostSum_longBytes_le src
  have destLe := hostSum_longBytes_le dest
  have total :
      (halves (lwipHtonl src) + halves (lwipHtonl dest)).toNat =
        hostSum (longBytes src ++ longBytes dest) := by
    rw [hostSum_even_append (by rw [longBytes_length]), BitVec.toNat_add, halves_lwipHtonl, halves_lwipHtonl]
    omega
  have below : hostSum (longBytes src ++ longBytes dest) ≤ 262140 := by
    rw [hostSum_even_append (by rw [longBytes_length])]
    omega
  refine ⟨?_, foldU32T_twice_lt (by omega)⟩
  rw [← total]
  exact (foldU32T_sameSum _).trans (foldU32T_sameSum _)

theorem hostSum_addrBytes (addr : BitVec 128) :
    hostSum (addrBytes addr) =
      ([96, 64, 32, 0].map fun low => hostSum (longBytes (addr.extractLsb' low 32))).sum := by
  have front :
      (longBytes (addr.extractLsb' 96 32) ++ longBytes (addr.extractLsb' 64 32)).length % 2 =
        0 := by
    rw [List.length_append, longBytes_length, longBytes_length]
  rw [addrBytes, hostSum_even_append front,
    hostSum_even_append (by rw [longBytes_length]),
    hostSum_even_append (by rw [longBytes_length])]
  simp only [List.map_cons, List.map_nil, List.sum_cons, List.sum_nil]
  omega

/-- The words of two addresses, added in turn. -/
theorem addWords_toNat (src dest : BitVec 128) (lows : List Nat) (acc : BitVec 32)
    (small : acc.toNat + 262140 * lows.length < 4294967296) :
    (lows.foldl
        (fun acc low =>
          acc + halves (lwipHtonl (src.extractLsb' low 32)) +
            halves (lwipHtonl (dest.extractLsb' low 32)))
        acc).toNat =
      acc.toNat +
        ((lows.map fun low => hostSum (longBytes (src.extractLsb' low 32))).sum +
          (lows.map fun low => hostSum (longBytes (dest.extractLsb' low 32))).sum) := by
  induction lows generalizing acc with
  | nil => rfl
  | cons low rest inductionHypothesis =>
      have srcLe := hostSum_longBytes_le (src.extractLsb' low 32)
      have destLe := hostSum_longBytes_le (dest.extractLsb' low 32)
      rw [List.length_cons] at small
      have added :
          (acc + halves (lwipHtonl (src.extractLsb' low 32)) +
              halves (lwipHtonl (dest.extractLsb' low 32))).toNat =
            acc.toNat + hostSum (longBytes (src.extractLsb' low 32)) +
              hostSum (longBytes (dest.extractLsb' low 32)) := by
        rw [BitVec.toNat_add, BitVec.toNat_add, halves_lwipHtonl, halves_lwipHtonl]
        omega
      rw [List.foldl_cons, inductionHypothesis _ (by omega), added, List.map_cons,
        List.map_cons, List.sum_cons, List.sum_cons]
      omega

theorem ip6Addresses_sameSum (src dest : BitVec 128) :
    SameSum (ip6Addresses src dest).toNat (hostSum (addrBytes src ++ addrBytes dest)) ∧
      (ip6Addresses src dest).toNat < 65536 := by
  have total := addWords_toNat src dest [96, 64, 32, 0] 0 (by decide)
  rw [← hostSum_addrBytes, ← hostSum_addrBytes,
    ← hostSum_even_append (by rw [addrBytes_length]),
    show (0 : BitVec 32).toNat = 0 from rfl, Nat.zero_add] at total
  have below : hostSum (addrBytes src ++ addrBytes dest) ≤ 1048560 := by
    rw [hostSum_even_append (by rw [addrBytes_length]), hostSum_addrBytes,
      hostSum_addrBytes]
    have bounds (low : Nat) :=
      And.intro (hostSum_longBytes_le (src.extractLsb' low 32))
        (hostSum_longBytes_le (dest.extractLsb' low 32))
    have first := bounds 96
    have second := bounds 64
    have third := bounds 32
    have fourth := bounds 0
    simp only [List.map_cons, List.map_nil, List.sum_cons, List.sum_nil]
    omega
  refine ⟨?_, foldU32T_twice_lt (by omega)⟩
  rw [← total]
  exact (foldU32T_sameSum _).trans (foldU32T_sameSum _)

/-- The bytes of the addresses in the pseudo header. -/
def addressBytes (src dest : IpAddrT) : Bytes :=
  if dest.isV6 then
    addrBytes src.ip6 ++ addrBytes dest.ip6
  else
    longBytes src.ip4 ++ longBytes dest.ip4

theorem ipAddresses_counts (src dest : IpAddrT) :
    ChainSum.Counts ⟨ipAddresses src dest, false⟩
      (hostSum (addressBytes src dest)) [] := by
  unfold ipAddresses addressBytes
  by_cases v6 : dest.isV6 = true
  · obtain ⟨same, below⟩ := ip6Addresses_sameSum src.ip6 dest.ip6
    rw [if_pos v6, if_pos v6]
    exact .init below same
  · obtain ⟨same, below⟩ := ip4Addresses_sameSum src.ip4 dest.ip4
    rw [if_neg v6, if_neg v6]
    exact .init below same

theorem longBytes_setWidth (len : BitVec 16) :
    longBytes (len.setWidth 32) = [0, 0] ++ wordBytes len := by
  have below := len.isLt
  have high : (len.setWidth 32).extractLsb' 16 16 = 0 := by
    apply BitVec.eq_of_toNat_eq
    rw [BitVec.extractLsb'_toNat, BitVec.toNat_setWidth, Nat.shiftRight_eq_div_pow]
    have zero : (0 : BitVec 16).toNat = 0 := rfl
    omega
  have low : (len.setWidth 32).extractLsb' 0 16 = len := by
    apply BitVec.eq_of_toNat_eq
    rw [BitVec.extractLsb'_toNat, BitVec.toNat_setWidth, Nat.shiftRight_zero]
    omega
  rw [longBytes, high, low]
  rfl

theorem pseudoHeader_even
    (src dest : IpAddrT)
    (proto : BitVec 8)
    (len : BitVec 16) :
    (pseudoHeader src dest proto len).length % 2 = 0 := by
  unfold pseudoHeader
  cases dest.isV6 with
  | true => simp
  | false => simp

/-- The pseudo header counts as the addresses, the protocol and the length. -/
theorem hostSum_pseudoHeader
    (src dest : IpAddrT)
    (proto : BitVec 8)
    (len : BitVec 16)
    (data : Bytes) :
    hostSum (pseudoHeader src dest proto len ++ data) =
      hostSum (addressBytes src dest) + hostSum data +
        hostSum ([0, .ofBitVec proto] ++ wordBytes len) := by
  have header : hostSum (pseudoHeader src dest proto len) =
      hostSum (addressBytes src dest) +
        hostSum ([0, .ofBitVec proto] ++ wordBytes len) := by
    unfold pseudoHeader addressBytes
    by_cases v6 : dest.isV6 = true
    · have length : (wordBytes len).length % 2 = 0 := by
        rw [wordBytes_length]
      have trailer : hostSum [0, 0, 0, .ofBitVec proto] = hostSum [0, .ofBitVec proto] := by
        rw [hostSum_cons, netSum_cons]
        simp
      rw [if_pos v6, if_pos v6, longBytes_setWidth, List.append_assoc,
        hostSum_even_append (by simp), List.append_assoc,
        @hostSum_even_append [0, 0] rfl, hostSum_even_append length,
        @hostSum_even_append [0, .ofBitVec proto] (by simp), trailer]
      have zeros : hostSum [0, 0] = 0 := rfl
      omega
    · rw [if_neg v6, if_neg v6, List.append_assoc, hostSum_even_append (by simp)]
  rw [hostSum_even_append (pseudoHeader_even src dest proto len), header]
  omega

/-- What the sum over a chain and its pseudo header comes to. -/
theorem closePseudo_eq
    {sum : ChainSum}
    {src dest : IpAddrT}
    {data : Bytes}
    (proto : BitVec 8)
    (protoLen : BitVec 16)
    (same : SameSum sum.restored.toNat (hostSum (addressBytes src dest) + hostSum data))
    (below : sum.restored.toNat < 65536) :
    closePseudo sum proto protoLen =
      lwipHtons (internetChecksum (pseudoHeader src dest proto protoLen ++ data)) := by
  have closed := closePseudo_sameSum same below proto protoLen
  rw [← hostSum_pseudoHeader] at closed
  rw [internetChecksum, lwipHtons_not, ← eq_lwipHtons_internetSum closed,
    BitVec.not_not]

theorem ipChksumPseudo_eq
    (p : List Buf)
    (proto : BitVec 8)
    (protoLen : BitVec 16)
    (src dest : IpAddrT) :
    ipChksumPseudo p proto protoLen src dest =
      lwipHtons
        (internetChecksum (pseudoHeader src dest proto protoLen ++ chainBytes p)) := by
  obtain ⟨same, below⟩ := ((ipAddresses_counts src dest).addAll p).restored
  rw [List.nil_append] at same
  exact closePseudo_eq proto protoLen same below

/-- The checksum over the pseudo header and the first bytes of a chain. -/
theorem ipChksumPseudoPartial_eq
    (p : List Buf)
    (proto : BitVec 8)
    (protoLen : BitVec 16)
    (src dest : IpAddrT)
    {chksumLen : Nat}
    (small : chksumLen < 0x7fff) :
    ipChksumPseudoPartial p proto protoLen chksumLen src dest =
      some (lwipHtons
        (internetChecksum
          (pseudoHeader src dest proto protoLen ++ (chainBytes p).take chksumLen))) := by
  obtain ⟨after, summed, same, below⟩ :=
    addPartial_counts (ipAddresses_counts src dest) p chksumLen small
  rw [List.nil_append] at same
  rw [ipChksumPseudoPartial, inetCksumPseudoPartialBase, summed, Option.map_some,
    closePseudo_eq proto protoLen same below]

theorem inetChksumPbuf_eq (p : List Buf) :
    inetChksumPbuf p = lwipHtons (internetChecksum (chainBytes p)) := by
  have counts : ChainSum.Counts ⟨0, false⟩ 0 [] :=
    .init (by decide) (OnesEq.refl _ _)
  obtain ⟨same, below⟩ := (counts.addAll p).restored
  rw [List.nil_append, Nat.zero_add] at same
  unfold inetChksumPbuf
  rw [internetChecksum, lwipHtons_not, ← eq_lwipHtons_internetSum]
  rwa [BitVec.toNat_setWidth, Nat.mod_eq_of_lt below]

end InetChksum

end NetstackLwip

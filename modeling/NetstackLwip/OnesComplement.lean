import Mathlib.Algebra.Ring.Nat
import Mathlib.Data.Nat.ModEq

namespace OnesComplement

/-!
# One's-complement sums

Words below a base are added with the carry going back in at the bottom. Such
a sum is known by its residue modulo `base - 1` together with whether it is
zero, so two computations of it agree once both of these do. This module gives
that relation, what it is closed under, and the sums of the digits of a list
with alternating weights, which it needs to move a sum by one digit.
-/

/-! ## Sums that stand for the same word -/

/-- Two numbers that fold to the same word below `base`. -/
structure OnesEq (base first second : Nat) : Prop where
  residue : first ≡ second [MOD base - 1]
  zero : first = 0 ↔ second = 0

namespace OnesEq

variable {base first second third fourth : Nat}

@[refl]
theorem refl (base first : Nat) : OnesEq base first first :=
  ⟨Nat.ModEq.refl first, Iff.rfl⟩

theorem of_eq (same : first = second) : OnesEq base first second :=
  same ▸ refl base first

@[symm]
theorem symm (same : OnesEq base first second) : OnesEq base second first :=
  ⟨same.residue.symm, same.zero.symm⟩

@[trans]
theorem trans
    (left : OnesEq base first second)
    (right : OnesEq base second third) :
    OnesEq base first third :=
  ⟨left.residue.trans right.residue, left.zero.trans right.zero⟩

theorem add
    (left : OnesEq base first second)
    (right : OnesEq base third fourth) :
    OnesEq base (first + third) (second + fourth) := by
  refine ⟨left.residue.add right.residue, ?_⟩
  have leftZero := left.zero
  have rightZero := right.zero
  omega

theorem mul_left
    (factor : Nat)
    (same : OnesEq base first second) :
    OnesEq base (factor * first) (factor * second) := by
  refine ⟨same.residue.mul_left factor, ?_⟩
  rw [Nat.mul_eq_zero, Nat.mul_eq_zero, same.zero]

/-- A carry out of the wider base is worth as much as one out of the narrower
base when the narrower digits fill the wider ones. -/
theorem of_dvd
    {wider : Nat}
    (fills : base - 1 ∣ wider - 1)
    (same : OnesEq wider first second) :
    OnesEq base first second :=
  ⟨same.residue.of_dvd fills, same.zero⟩

/-- A word below the base is the only one for its sum. -/
theorem eq_of_lt
    (same : OnesEq base first second)
    (firstLt : first < base)
    (secondLt : second < base) :
    first = second := by
  have residue : first % (base - 1) = second % (base - 1) := same.residue
  have zero := same.zero
  by_cases firstTop : first = base - 1
  · by_cases secondTop : second = base - 1
    · omega
    · rw [firstTop, Nat.mod_self, Nat.mod_eq_of_lt (by omega)] at residue
      omega
  · rw [Nat.mod_eq_of_lt (show first < base - 1 by omega)] at residue
    by_cases secondTop : second = base - 1
    · rw [secondTop, Nat.mod_self] at residue
      omega
    · rwa [Nat.mod_eq_of_lt (by omega)] at residue

end OnesEq

/-- A digit that stands at the weight `base` may stand at the weight 1. -/
theorem weight_base
    {base : Nat}
    (wide : 2 ≤ base)
    (digit rest : Nat) :
    OnesEq base (base * digit + rest) (digit + rest) := by
  constructor
  · have split : base * digit + rest = (base - 1) * digit + (digit + rest) := by
      obtain ⟨below, rfl⟩ : ∃ below, base = below + 1 := ⟨base - 1, by omega⟩
      rw [Nat.add_sub_cancel, Nat.add_one_mul]
      omega
    rw [split]
    exact Nat.ModEq.modulus_mul_add
  · rw [Nat.add_eq_zero_iff, Nat.add_eq_zero_iff, Nat.mul_eq_zero]
    omega

/-- Adding the upper part of a number to its lower part keeps its sum. -/
theorem fold_onesEq
    {base : Nat}
    (wide : 2 ≤ base)
    (total : Nat) :
    OnesEq base (total / base + total % base) total := by
  have split := weight_base wide (total / base) (total % base)
  rw [Nat.div_add_mod] at split
  exact split.symm

/-! ## Addition with the carry put back -/

/-- One's-complement addition of two words below `base`. -/
def carryAdd (base first second : Nat) : Nat :=
  if first + second < base then
    first + second
  else
    first + second - base + 1

theorem carryAdd_lt
    {base first second : Nat}
    (firstLt : first < base)
    (secondLt : second < base) :
    carryAdd base first second < base := by
  unfold carryAdd
  split <;> omega

theorem carryAdd_onesEq
    {base first second : Nat}
    (wide : 2 ≤ base) :
    OnesEq base (carryAdd base first second) (first + second) := by
  unfold carryAdd
  by_cases below : first + second < base
  · rw [if_pos below]
  · rw [if_neg below]
    have carried := weight_base wide 1 (first + second - base)
    have whole : base * 1 + (first + second - base) = first + second := by omega
    rw [whole, Nat.add_comm 1] at carried
    exact carried.symm

/-- The one's-complement sum of some words. -/
def onesSum (base : Nat) (words : List Nat) : Nat :=
  words.foldl (carryAdd base) 0

theorem foldl_carryAdd
    {base : Nat}
    (wide : 2 ≤ base)
    (words : List Nat)
    (total : Nat)
    (totalLt : total < base)
    (wordsLt : ∀ word ∈ words, word < base) :
    OnesEq base (words.foldl (carryAdd base) total) (total + words.sum) ∧
      words.foldl (carryAdd base) total < base := by
  induction words generalizing total with
  | nil => exact ⟨OnesEq.refl base total, totalLt⟩
  | cons word rest inductionHypothesis =>
      rw [List.forall_mem_cons] at wordsLt
      obtain ⟨same, below⟩ :=
        inductionHypothesis (carryAdd base total word)
          (carryAdd_lt totalLt wordsLt.1) wordsLt.2
      rw [List.foldl_cons, List.sum_cons, ← Nat.add_assoc]
      exact ⟨same.trans ((carryAdd_onesEq wide).add (OnesEq.refl base rest.sum)),
        below⟩

theorem onesSum_onesEq
    {base : Nat}
    (wide : 2 ≤ base)
    {words : List Nat}
    (wordsLt : ∀ word ∈ words, word < base) :
    OnesEq base (onesSum base words) words.sum := by
  have sum := (foldl_carryAdd wide words 0 (by omega) wordsLt).1
  rwa [Nat.zero_add] at sum

theorem onesSum_lt
    {base : Nat}
    (wide : 2 ≤ base)
    {words : List Nat}
    (wordsLt : ∀ word ∈ words, word < base) :
    onesSum base words < base :=
  (foldl_carryAdd wide words 0 (by omega) wordsLt).2

/-! ## Digits with alternating weights -/

/-- The sum of some digits, the first of them at the weight `even`, the next
one at `odd`, and so on in turn. -/
def altSum (even odd : Nat) : List Nat → Nat
  | [] => 0
  | digit :: rest => even * digit + altSum odd even rest

@[simp]
theorem altSum_nil (even odd : Nat) : altSum even odd [] = 0 :=
  rfl

@[simp]
theorem altSum_cons
    (even odd digit : Nat)
    (rest : List Nat) :
    altSum even odd (digit :: rest) = even * digit + altSum odd even rest :=
  rfl

/-- Digits behind an even number of others keep the weights; behind an odd
number they have them the other way around. -/
theorem altSum_append
    (even odd : Nat)
    (front back : List Nat) :
    altSum even odd (front ++ back) =
      altSum even odd front +
        if front.length % 2 = 0 then
          altSum even odd back
        else
          altSum odd even back := by
  induction front generalizing even odd with
  | nil => simp
  | cons digit rest inductionHypothesis =>
      rw [List.cons_append, altSum_cons, inductionHypothesis, altSum_cons,
        List.length_cons, Nat.add_assoc]
      by_cases parity : rest.length % 2 = 0
      · rw [if_pos parity, if_neg (by omega)]
      · rw [if_neg parity, if_pos (by omega)]

theorem altSum_mul
    (factor even odd : Nat)
    (digits : List Nat) :
    factor * altSum even odd digits =
      altSum (factor * even) (factor * odd) digits := by
  induction digits generalizing even odd with
  | nil => rfl
  | cons digit rest inductionHypothesis =>
      rw [altSum_cons, altSum_cons, Nat.mul_add, inductionHypothesis,
        Nat.mul_assoc]

/-- A weight of `base` counts as a weight of 1. -/
theorem altSum_base
    {base : Nat}
    (wide : 2 ≤ base)
    (other : Nat)
    (digits : List Nat) :
    OnesEq base (altSum base other digits) (altSum 1 other digits) ∧
      OnesEq base (altSum other base digits) (altSum other 1 digits) := by
  induction digits with
  | nil => exact ⟨OnesEq.refl base 0, OnesEq.refl base 0⟩
  | cons digit rest inductionHypothesis =>
      obtain ⟨first, second⟩ := inductionHypothesis
      constructor
      · rw [altSum_cons, altSum_cons, Nat.one_mul]
        exact (weight_base wide digit _).trans ((OnesEq.refl base digit).add second)
      · rw [altSum_cons, altSum_cons]
        exact (OnesEq.refl base (other * digit)).add first

/-- One digit further on: with two digits to a word, a factor of `digit`
exchanges the two weights. -/
theorem altSum_shift
    {digit : Nat}
    (wide : 2 ≤ digit)
    (digits : List Nat) :
    OnesEq (digit * digit)
        (digit * altSum digit 1 digits)
        (altSum 1 digit digits) ∧
      OnesEq (digit * digit)
        (digit * altSum 1 digit digits)
        (altSum digit 1 digits) := by
  have wideBase : 2 ≤ digit * digit :=
    le_trans wide (Nat.le_mul_of_pos_left digit (by omega))
  obtain ⟨first, second⟩ := altSum_base wideBase digit digits
  rw [altSum_mul, altSum_mul, Nat.mul_one]
  exact ⟨first, second⟩

end OnesComplement

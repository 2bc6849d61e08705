import Mathlib.Algebra.Order.Ring.Int
import Mathlib.Algebra.Ring.Nat

namespace SerialNumber

/-!
# Serial numbers on a circle

Sequence numbers of a sliding-window protocol are compared by the sign of
their wrapped difference. This module gives those comparisons on bit vectors
of any width, and says what they mean for positions counted from a common
base: within half of the circle they agree with the order on `Nat`, and
outside it they do not.
-/

variable {width : Nat}

/-- `first` comes before `second`: their difference is negative. -/
def lt (first second : BitVec width) : Bool :=
  decide ((first - second).toInt < 0)

/-- `first` comes before `second` or equals it. -/
def leq (first second : BitVec width) : Bool :=
  decide ((first - second).toInt ≤ 0)

/-- `first` comes after `second`. -/
def gt (first second : BitVec width) : Bool :=
  decide (0 < (first - second).toInt)

/-- `first` comes after `second` or equals it. -/
def geq (first second : BitVec width) : Bool :=
  decide (0 ≤ (first - second).toInt)

/-- `middle` comes at or after `lower` and at or before `upper`. -/
def between (middle lower upper : BitVec width) : Bool :=
  geq middle lower && leq middle upper

/-- The serial number `offset` places above `base`. -/
def place (base : BitVec width) (offset : Nat) : BitVec width :=
  base + BitVec.ofNat width offset

/-- How far `target` lies above `base`, going upwards around the circle. -/
def distance (base target : BitVec width) : Nat :=
  (target - base).toNat

theorem distance_lt
    (base target : BitVec width) :
    distance base target < 2 ^ width :=
  (target - base).isLt

theorem place_distance
    (base target : BitVec width) :
    place base (distance base target) = target := by
  rw [place, distance, BitVec.ofNat_toNat, BitVec.setWidth_eq,
    BitVec.add_comm, BitVec.sub_add_cancel]

@[simp]
theorem place_zero
    (base : BitVec width) :
    place base 0 = base := by
  simp [place]

theorem place_place
    (base : BitVec width)
    (first second : Nat) :
    place (place base first) second = place base (first + second) := by
  simp [place, BitVec.ofNat_add, BitVec.add_assoc]

theorem place_add_ofNat
    (base : BitVec width)
    (first second : Nat) :
    place base first + BitVec.ofNat width second =
      place base (first + second) :=
  place_place base first second

/-- Stepping back inside the offset stays a place of the same base. -/
theorem place_sub_ofNat
    (base : BitVec width)
    {first second : Nat}
    (inside : second ≤ first) :
    place base first - BitVec.ofNat width second =
      place base (first - second) := by
  have split : first = (first - second) + second := by omega
  have back :
      place base first =
        place base (first - second) + BitVec.ofNat width second := by
    rw [place_add_ofNat, ← split]
  rw [back, BitVec.add_sub_cancel]

/-- The wrapped difference of two places is the difference of their offsets. -/
theorem place_sub_place
    (base : BitVec width)
    {first second : Nat}
    (ordered : second ≤ first) :
    place base first - place base second =
      BitVec.ofNat width (first - second) := by
  have split : first = second + (first - second) := by omega
  rw [split, ← place_add_ofNat, Nat.add_sub_cancel_left,
    BitVec.add_comm, BitVec.add_sub_cancel]

/-- A negative difference is one of at least half of the circle. -/
theorem lt_iff
    {first second : BitVec width} :
    lt first second = true ↔ 2 ^ width ≤ 2 * distance second first := by
  have bound := distance_lt second first
  have difference : distance second first = (first - second).toNat := rfl
  simp only [lt, decide_eq_true_eq, BitVec.toInt]
  split <;> omega

theorem geq_iff
    {first second : BitVec width} :
    geq first second = true ↔ 2 * distance second first < 2 ^ width := by
  have bound := distance_lt second first
  have difference : distance second first = (first - second).toNat := rfl
  simp only [geq, decide_eq_true_eq, BitVec.toInt]
  split <;> omega

theorem leq_iff
    {first second : BitVec width} :
    leq first second = true ↔
      distance second first = 0 ∨ 2 ^ width ≤ 2 * distance second first := by
  have bound := distance_lt second first
  have difference : distance second first = (first - second).toNat := rfl
  simp only [leq, decide_eq_true_eq, BitVec.toInt]
  split <;> omega

theorem gt_iff
    {first second : BitVec width} :
    gt first second = true ↔
      0 < distance second first ∧ 2 * distance second first < 2 ^ width := by
  have bound := distance_lt second first
  have difference : distance second first = (first - second).toNat := rfl
  simp only [gt, decide_eq_true_eq, BitVec.toInt]
  split <;> omega

theorem lt_eq_not_geq
    (first second : BitVec width) :
    lt first second = !geq first second := by
  rw [Bool.eq_iff_iff, Bool.not_eq_true', ← Bool.not_eq_true, lt_iff, geq_iff]
  omega

theorem gt_eq_not_leq
    (first second : BitVec width) :
    gt first second = !leq first second := by
  have bound := distance_lt second first
  rw [Bool.eq_iff_iff, Bool.not_eq_true', ← Bool.not_eq_true, gt_iff, leq_iff]
  omega

/-- The distance between two places, the first at most one circle ahead. -/
theorem distance_place_place
    (base : BitVec width)
    {first second : Nat}
    (ordered : first ≤ second + 2 ^ width) :
    distance (place base first) (place base second) =
      (second + 2 ^ width - first) % 2 ^ width := by
  have circle : BitVec.ofNat width (2 ^ width) = BitVec.ofNat width 0 := by
    apply BitVec.eq_of_toNat_eq
    rw [BitVec.toNat_ofNat, Nat.mod_self, BitVec.toNat_ofNat, Nat.zero_mod]
  have around : place base second = place base (second + 2 ^ width) := by
    rw [← place_add_ofNat, circle, BitVec.add_zero]
  rw [around, distance, place_sub_place base ordered, BitVec.toNat_ofNat]

/-- Above a place the distance to a higher place is the gap of the offsets. -/
theorem distance_place_of_le
    (base : BitVec width)
    {lower upper : Nat}
    (ordered : lower ≤ upper)
    (close : upper - lower < 2 ^ width) :
    distance (place base lower) (place base upper) = upper - lower := by
  rw [distance, place_sub_place base ordered, BitVec.toNat_ofNat,
    Nat.mod_eq_of_lt close]

/-- Going up from a place to a lower one leads around the circle. -/
theorem distance_place_of_gt
    (base : BitVec width)
    {lower upper : Nat}
    (ordered : lower < upper)
    (close : upper - lower < 2 ^ width) :
    distance (place base upper) (place base lower) =
      2 ^ width - (upper - lower) := by
  have wrapped :
      place base lower - place base upper =
        -(place base upper - place base lower) := by
    rw [BitVec.neg_sub, BitVec.add_comm, ← BitVec.sub_eq_add_neg]
  have positive : 0 < upper - lower := by omega
  have size : 0 < 2 ^ width := Nat.two_pow_pos width
  rw [distance, wrapped, place_sub_place base (Nat.le_of_lt ordered),
    BitVec.toNat_neg, BitVec.toNat_ofNat, Nat.mod_eq_of_lt close,
    Nat.mod_eq_of_lt (by omega)]

/-- Two offsets lie within half of the circle of each other. -/
def Near (width first second : Nat) : Prop :=
  2 * (first - second) < 2 ^ width ∧ 2 * (second - first) < 2 ^ width

theorem Near.symm
    {first second : Nat}
    (near : Near width first second) :
    Near width second first :=
  ⟨near.2, near.1⟩

/-- Within half of the circle `lt` is the order of the offsets. -/
theorem lt_place
    (base : BitVec width)
    {first second : Nat}
    (near : Near width first second) :
    lt (place base first) (place base second) = decide (first < second) := by
  obtain ⟨below, above⟩ := near
  rw [Bool.eq_iff_iff, lt_iff, decide_eq_true_eq]
  rcases Nat.lt_or_ge first second with ordered | ordered
  · rw [distance_place_of_gt base ordered (by omega)]
    omega
  · rw [distance_place_of_le base ordered (by omega)]
    omega

theorem geq_place
    (base : BitVec width)
    {first second : Nat}
    (near : Near width first second) :
    geq (place base first) (place base second) = decide (second ≤ first) := by
  have complement := lt_eq_not_geq (place base first) (place base second)
  rw [lt_place base near] at complement
  rw [Bool.eq_iff_iff, decide_eq_true_eq]
  cases answer : geq (place base first) (place base second) with
  | false =>
      simp [answer] at complement
      simp; omega
  | true =>
      simp [answer] at complement
      simp; omega

theorem leq_place
    (base : BitVec width)
    {first second : Nat}
    (near : Near width first second) :
    leq (place base first) (place base second) = decide (first ≤ second) := by
  obtain ⟨below, above⟩ := near
  rw [Bool.eq_iff_iff, leq_iff, decide_eq_true_eq]
  rcases Nat.lt_or_ge first second with ordered | ordered
  · rw [distance_place_of_gt base ordered (by omega)]
    omega
  · rw [distance_place_of_le base ordered (by omega)]
    omega

theorem gt_place
    (base : BitVec width)
    {first second : Nat}
    (near : Near width first second) :
    gt (place base first) (place base second) = decide (second < first) := by
  have complement := gt_eq_not_leq (place base first) (place base second)
  rw [leq_place base near] at complement
  rw [complement, Bool.eq_iff_iff]
  simp

/-- Offsets closer than the whole circle name different places. -/
theorem place_inj
    (base : BitVec width)
    {first second : Nat}
    (near : Near width first second) :
    place base first = place base second ↔ first = second := by
  constructor
  · intro same
    have below := lt_place base near
    have above := lt_place base near.symm
    rw [same] at below above
    have irreflexive : lt (place base second) (place base second) = false := by
      rw [lt_eq_not_geq]
      simp [geq]
    rw [irreflexive] at below above
    simp at below above
    omega
  · rintro rfl
    rfl

end SerialNumber

import Mathlib.Algebra.Ring.Nat
import Mathlib.Data.List.Basic
import Mathlib.Data.List.Pairwise

namespace DatagramCut

/-!
# Datagrams cut into pieces

A datagram that is too long for a link is sent as consecutive pieces, each
with the place where it starts and a mark that tells the last one. All pieces
but the last end at a multiple of a unit.
-/

/-- One piece: where it starts, whether more follow, and its data. -/
structure Piece (α : Type) where
  offset : Nat
  more : Bool
  data : List α
  deriving DecidableEq, Repr

variable {α : Type}

/-- `pieces` is a cut of `whole`, whose first element stands at `offset`. -/
inductive Cut (unit : Nat) : Nat → List α → List (Piece α) → Prop where
  | last
      {offset : Nat}
      {data : List α} :
      data ≠ [] →
      Cut unit offset data [⟨offset, false, data⟩]
  | more
      {offset : Nat}
      {data rest : List α}
      {pieces : List (Piece α)} :
      data ≠ [] →
      unit ∣ data.length →
      Cut unit (offset + data.length) rest pieces →
      Cut unit offset (data ++ rest) (⟨offset, true, data⟩ :: pieces)

/-- Cut the data into pieces of `size` elements, the last one shorter. -/
def chop (size offset : Nat) (data : List α) : List (Piece α) :=
  if _ : data.length ≤ size ∨ size = 0 then
    [⟨offset, false, data⟩]
  else
    ⟨offset, true, data.take size⟩ ::
      chop size (offset + size) (data.drop size)
termination_by data.length
decreasing_by
  rw [List.length_drop]
  omega

section Chop

variable {size offset : Nat} {data : List α}

theorem chop_small
    (small : data.length ≤ size) :
    chop size offset data = [⟨offset, false, data⟩] := by
  rw [chop, dif_pos (.inl small)]

theorem chop_large
    (positive : 0 < size)
    (large : size < data.length) :
    chop size offset data =
      ⟨offset, true, data.take size⟩ ::
        chop size (offset + size) (data.drop size) := by
  rw [chop, dif_neg (by omega)]

/-- Chopping at a multiple of the unit cuts the data. -/
theorem chop_cut
    {unit : Nat}
    (positive : 0 < size)
    (aligned : unit ∣ size)
    (nonEmpty : data ≠ []) :
    Cut unit offset data (chop size offset data) := by
  induction whole : data.length using Nat.strongRecOn
    generalizing data offset with
  | ind length inductionHypothesis =>
      by_cases small : data.length ≤ size
      · rw [chop_small small]
        exact .last nonEmpty
      · have large : size < data.length := by omega
        have taken : (data.take size).length = size :=
          List.length_take_of_le (Nat.le_of_lt large)
        have left : (data.drop size).length = data.length - size :=
          List.length_drop
        have rest : Cut unit (offset + (data.take size).length)
            (data.drop size)
            (chop size (offset + size) (data.drop size)) := by
          rw [taken]
          refine inductionHypothesis (data.length - size) (by omega) ?_ left
          intro nothing
          rw [nothing, List.length_nil] at left
          omega
        have cut : Cut unit offset (data.take size ++ data.drop size)
            (⟨offset, true, data.take size⟩ ::
              chop size (offset + size) (data.drop size)) := by
          refine .more ?_ (taken.symm ▸ aligned) rest
          intro nothing
          rw [nothing, List.length_nil] at taken
          omega
        rw [List.take_append_drop] at cut
        rw [chop_large positive large]
        exact cut

end Chop

namespace Cut

variable {unit offset : Nat} {whole : List α} {pieces : List (Piece α)}

/-- The data of the pieces, in order, is the datagram. -/
theorem data_eq
    (cut : Cut unit offset whole pieces) :
    pieces.flatMap Piece.data = whole := by
  induction cut with
  | last _ =>
      simp
  | more _ _ _ inductionHypothesis =>
      simp [inductionHypothesis]

/-- Every piece starts at a multiple of the unit if the first one does. -/
theorem aligned
    (cut : Cut unit offset whole pieces)
    (start : unit ∣ offset) :
    ∀ piece ∈ pieces, unit ∣ piece.offset := by
  induction cut with
  | last _ =>
      simpa using start
  | more _ divides _ inductionHypothesis =>
      intro piece member
      rcases List.mem_cons.mp member with same | later
      · subst same
        exact start
      · exact inductionHypothesis (Nat.dvd_add start divides) piece later

/-- Every piece ends inside the datagram. -/
theorem inside
    (cut : Cut unit offset whole pieces) :
    ∀ piece ∈ pieces,
      piece.offset + piece.data.length ≤ offset + whole.length := by
  induction cut with
  | last _ =>
      simp
  | @more offset data rest pieces _ _ _ inductionHypothesis =>
      intro piece member
      rw [List.length_append]
      rcases List.mem_cons.mp member with same | later
      · subst same
        dsimp only
        omega
      · have bound := inductionHypothesis piece later
        omega

/-- No piece starts before the datagram. -/
theorem starts
    (cut : Cut unit offset whole pieces) :
    ∀ piece ∈ pieces, offset ≤ piece.offset := by
  induction cut with
  | last _ =>
      simp
  | more _ _ _ inductionHypothesis =>
      intro piece member
      rcases List.mem_cons.mp member with same | later
      · subst same
        exact Nat.le_refl _
      · have bound := inductionHypothesis piece later
        omega

/-- No piece is empty. -/
theorem filled
    (cut : Cut unit offset whole pieces) :
    ∀ piece ∈ pieces, 0 < piece.data.length := by
  induction cut with
  | last nonEmpty =>
      simpa [List.length_pos_iff] using nonEmpty
  | more nonEmpty _ _ inductionHypothesis =>
      intro piece member
      rcases List.mem_cons.mp member with same | later
      · rw [same]
        exact List.length_pos_iff.mpr nonEmpty
      · exact inductionHypothesis piece later

/-- The pieces lie one behind the other. -/
theorem ascending
    (cut : Cut unit offset whole pieces) :
    pieces.Pairwise fun first second =>
      first.offset + first.data.length ≤ second.offset := by
  induction cut with
  | last _ =>
      exact List.pairwise_singleton _ _
  | more _ _ rest inductionHypothesis =>
      refine List.pairwise_cons.mpr ⟨?_, inductionHypothesis⟩
      intro piece member
      exact rest.starts piece member

/-- Two different pieces do not overlap. -/
theorem beside
    (cut : Cut unit offset whole pieces)
    {first second : Piece α}
    (firstMember : first ∈ pieces)
    (secondMember : second ∈ pieces)
    (differ : first ≠ second) :
    first.offset + first.data.length ≤ second.offset ∨
      second.offset + second.data.length ≤ first.offset := by
  have symmetric :
      Std.Symm fun first second : Piece α =>
        first.offset + first.data.length ≤ second.offset ∨
          second.offset + second.data.length ≤ first.offset :=
    ⟨fun _ _ => Or.symm⟩
  have eitherWay :
      pieces.Pairwise fun first second =>
        first.offset + first.data.length ≤ second.offset ∨
          second.offset + second.data.length ≤ first.offset :=
    cut.ascending.imp Or.inl
  exact eitherWay.forall firstMember secondMember differ

/-- Only a datagram with data is cut. -/
theorem whole_length_pos
    (cut : Cut unit offset whole pieces) :
    0 < whole.length := by
  cases cut with
  | last nonEmpty =>
      exact List.length_pos_iff.mpr nonEmpty
  | more nonEmpty _ _ =>
      rw [List.length_append]
      have filled := List.length_pos_iff.mpr nonEmpty
      omega

/-- A cut has a last piece. -/
theorem exists_last
    (cut : Cut unit offset whole pieces) :
    ∃ piece ∈ pieces, piece.more = false := by
  induction cut with
  | last _ =>
      exact ⟨_, List.mem_cons_self, rfl⟩
  | more _ _ _ inductionHypothesis =>
      obtain ⟨piece, member, last⟩ := inductionHypothesis
      exact ⟨piece, List.mem_cons_of_mem _ member, last⟩

/-- A cut of one piece is that of the whole datagram. -/
theorem eq_of_singleton
    {piece : Piece α}
    (cut : Cut unit offset whole [piece]) :
    piece = ⟨offset, false, whole⟩ := by
  cases cut with
  | last _ => rfl
  | more _ _ rest => cases rest

/-- A piece that starts the datagram and ends it is the only one. -/
theorem eq_singleton
    (cut : Cut unit offset whole pieces)
    {piece : Piece α}
    (member : piece ∈ pieces)
    (first : piece.offset = offset)
    (last : piece.more = false) :
    pieces = [piece] := by
  cases cut with
  | last _ =>
      rw [List.mem_singleton.mp member]
  | more nonEmpty _ rest =>
      rcases List.mem_cons.mp member with same | later
      · rw [same] at last
        cases last
      · have start := rest.starts piece later
        have filled := List.length_pos_iff.mpr nonEmpty
        omega

/-- The last piece is the one that ends where the datagram does. -/
theorem more_eq_false_iff
    (cut : Cut unit offset whole pieces) :
    ∀ piece ∈ pieces,
      piece.more = false ↔
        piece.offset + piece.data.length = offset + whole.length := by
  induction cut with
  | last _ =>
      simp
  | @more offset data rest pieces nonEmpty _ cut inductionHypothesis =>
      intro piece member
      rw [List.length_append]
      rcases List.mem_cons.mp member with same | later
      · have left := cut.whole_length_pos
        subst same
        dsimp only
        constructor
        · intro last
          cases last
        · omega
      · rw [inductionHypothesis piece later, Nat.add_assoc]

end Cut

end DatagramCut

import Mathlib.Data.List.Forall2
import Mathlib.Data.List.Perm.Subperm
import NetstackLwip.DatagramCut
import NetstackLwip.FragmentChain

namespace FragmentChain

/-!
# Chains that collect a cut

The pieces of one cut arrive as fragments, in any order and possibly several
times. The chain then holds exactly those that have arrived, and it is whole,
from the first place on, exactly when all have.
-/

open DatagramCut

variable {α β : Type}

/-- `frag` is the fragment of `piece`, in a buffer that `holds` it. -/
structure CarriesPiece
    (holds : Piece β → α → Prop)
    (piece : Piece β)
    (frag : Frag α) :
    Prop where
  start : frag.start = piece.offset
  stop : frag.stop = piece.offset + piece.data.length
  buffer : holds piece frag.buffer

/-- The chain has one fragment for each piece that has arrived. -/
structure Collects
    (holds : Piece β → α → Prop)
    (pieces : List (Piece β))
    (arrived : Piece β → Prop)
    (chain : List (Frag α)) :
    Prop where
  apart : Apart chain
  carried :
    ∀ frag ∈ chain, ∃ piece ∈ pieces, arrived piece ∧ CarriesPiece holds piece frag
  kept :
    ∀ piece ∈ pieces, arrived piece → ∃ frag ∈ chain, CarriesPiece holds piece frag

section Collect

variable {holds : Piece β → α → Prop} {unit : Nat} {whole : List β}
  {pieces : List (Piece β)} {arrived : Piece β → Prop}
  {chain : List (Frag α)} {piece : Piece β} {new : Frag α} {checksGap : Bool}

theorem Collects.nil
    (nothing : ∀ piece ∈ pieces, ¬arrived piece) :
    Collects holds pieces arrived [] where
  apart := List.Pairwise.nil
  carried := fun _ member => by cases member
  kept := fun piece member has => absurd has (nothing piece member)

/-- Only what has arrived matters. -/
theorem Collects.congr
    {other : Piece β → Prop}
    (collects : Collects holds pieces arrived chain)
    (same : ∀ piece ∈ pieces, arrived piece ↔ other piece) :
    Collects holds pieces other chain where
  apart := collects.apart
  carried := by
    intro frag member
    obtain ⟨piece, among, has, carries⟩ := collects.carried frag member
    exact ⟨piece, among, (same piece among).mp has, carries⟩
  kept := fun piece member has =>
    collects.kept piece member ((same piece member).mpr has)

/-- A piece that comes again is dropped. -/
theorem Collects.place_again
    (collects : Collects holds pieces arrived chain)
    (member : piece ∈ pieces)
    (has : arrived piece)
    (carries : CarriesPiece holds piece new) :
    place checksGap new none true chain = none := by
  obtain ⟨frag, among, already⟩ := collects.kept piece member has
  exact place_of_same_start collects.apart among
    (already.start.trans carries.start.symm)

/-- A piece that has not come yet is put into its place. -/
theorem Collects.place_new
    (collects : Collects holds pieces arrived chain)
    (cut : Cut unit 0 whole pieces)
    (member : piece ∈ pieces)
    (missing : ¬arrived piece)
    (carries : CarriesPiece holds piece new) :
    ∃ placement,
      place checksGap new none true chain = some placement ∧
        placement.ordered = true ∧
        Collects holds pieces (fun other => arrived other ∨ other = piece)
          placement.chain := by
  have beside :
      ∀ frag ∈ chain,
        frag.start < new.start ∧ frag.stop ≤ new.start ∨
          new.start < frag.start ∧ new.stop ≤ frag.start := by
    intro frag among
    obtain ⟨other, otherMember, has, otherCarries⟩ := collects.carried frag among
    have differ : other ≠ piece := fun same => missing (same ▸ has)
    have filled := cut.filled piece member
    have otherFilled := cut.filled other otherMember
    rw [otherCarries.start, otherCarries.stop, carries.start, carries.stop]
    rcases cut.beside otherMember member differ with ahead | behind
    · exact .inl ⟨by omega, ahead⟩
    · exact .inr ⟨by omega, behind⟩
  obtain ⟨placement, placed⟩ :
      ∃ placement, place checksGap new none true chain = some placement :=
    place_of_beside beside fun _ same => by cases same
  refine ⟨placement, placed, place_ordered placed (fun _ same => by cases same),
    place_apart placed collects.apart, ?_, ?_⟩
  · intro frag among
    rcases (mem_place placed).mp among with isNew | old
    · exact ⟨piece, member, .inr rfl, isNew ▸ carries⟩
    · obtain ⟨other, otherMember, has, otherCarries⟩ :=
        collects.carried frag old
      exact ⟨other, otherMember, .inl has, otherCarries⟩
  · rintro other otherMember (has | rfl)
    · obtain ⟨frag, among, otherCarries⟩ := collects.kept other otherMember has
      exact ⟨frag, (mem_place placed).mpr (.inr among), otherCarries⟩
    · exact ⟨new, (mem_place placed).mpr (.inl rfl), carries⟩

/-- The pieces covered by a whole chain have all arrived. -/
theorem Collects.all_arrived
    (collects : Collects holds pieces arrived chain)
    (cut : Cut unit 0 whole pieces)
    (last : ∃ piece ∈ pieces, piece.more = false ∧ arrived piece)
    (head : (chain.head?.any fun frag => frag.start == 0) = true)
    (gapless : gaplessAfter none chain = true) :
    ∀ piece ∈ pieces, arrived piece := by
  intro piece member
  cases chain with
  | nil =>
      cases head
  | cons first rest =>
      simp only [List.head?_cons, Option.any_some, beq_iff_eq] at head
      obtain ⟨final, finalMember, noMore, has⟩ := last
      obtain ⟨frag, among, carries⟩ := collects.kept final finalMember has
      have ends := (cut.more_eq_false_iff final finalMember).mp noMore
      have inside := cut.inside piece member
      have filled := cut.filled piece member
      obtain ⟨covering, coveringAmong, start, stop⟩ :=
        gaplessFrom_covers gapless (head.trans_le (Nat.zero_le piece.offset))
          among (by rw [carries.stop]; omega)
      obtain ⟨other, otherMember, otherHas, otherCarries⟩ :=
        collects.carried covering coveringAmong
      rw [otherCarries.start] at start
      rw [otherCarries.stop] at stop
      by_cases same : other = piece
      · exact same ▸ otherHas
      · rcases cut.beside otherMember member same with ahead | behind <;> omega

/-- Two ascending lists that match both ways match one by one. -/
theorem forall₂_of_ascending
    (ascending :
      pieces.Pairwise fun first second =>
        first.offset + first.data.length ≤ second.offset)
    (filled : ∀ piece ∈ pieces, 0 < piece.data.length)
    (apart : Apart chain)
    (carried : ∀ frag ∈ chain, ∃ piece ∈ pieces, CarriesPiece holds piece frag)
    (kept : ∀ piece ∈ pieces, ∃ frag ∈ chain, CarriesPiece holds piece frag) :
    List.Forall₂ (CarriesPiece holds) pieces chain := by
  induction pieces generalizing chain with
  | nil =>
      cases chain with
      | nil => exact .nil
      | cons frag rest =>
          obtain ⟨piece, member, _⟩ := carried frag List.mem_cons_self
          cases member
  | cons piece rest inductionHypothesis =>
      obtain ⟨ahead, restAscending⟩ := List.pairwise_cons.mp ascending
      obtain ⟨frag, among, carries⟩ := kept piece List.mem_cons_self
      have size := filled piece List.mem_cons_self
      have start := carries.start
      cases chain with
      | nil => cases among
      | cons first others =>
          obtain ⟨before, othersApart⟩ := List.pairwise_cons.mp apart
          obtain ⟨other, otherMember, otherCarries⟩ :=
            carried first List.mem_cons_self
          have otherStart := otherCarries.start
          -- The first fragment is that of the first piece.
          have firstPiece : other = piece := by
            rcases List.mem_cons.mp otherMember with same | later
            · exact same
            · have offset := ahead other later
              rcases List.mem_cons.mp among with isFirst | further
              · rw [isFirst] at start
                omega
              · have start := (before frag further).1
                omega
          subst firstPiece
          refine .cons otherCarries (inductionHypothesis restAscending
            (fun piece member => filled piece (List.mem_cons_of_mem _ member))
            othersApart ?_ ?_)
          · intro next further
            obtain ⟨piece, member, nextCarries⟩ :=
              carried next (List.mem_cons_of_mem _ further)
            refine ⟨piece, ?_, nextCarries⟩
            rcases List.mem_cons.mp member with same | later
            · have nextStart := nextCarries.start
              have start := (before next further).1
              rw [same] at nextStart
              omega
            · exact later
          · intro piece later
            obtain ⟨next, further, nextCarries⟩ :=
              kept piece (List.mem_cons_of_mem _ later)
            refine ⟨next, ?_, nextCarries⟩
            rcases List.mem_cons.mp further with isFirst | further
            · have offset := ahead piece later
              have nextStart := nextCarries.start
              rw [isFirst] at nextStart
              omega
            · exact further

/-- When all pieces have arrived, the chain holds them one by one. -/
theorem Collects.forall₂
    (collects : Collects holds pieces arrived chain)
    (cut : Cut unit 0 whole pieces)
    (all : ∀ piece ∈ pieces, arrived piece) :
    List.Forall₂ (CarriesPiece holds) pieces chain := by
  refine forall₂_of_ascending cut.ascending cut.filled collects.apart ?_ ?_
  · intro frag among
    obtain ⟨piece, member, _, carries⟩ := collects.carried frag among
    exact ⟨piece, member, carries⟩
  · exact fun piece member => collects.kept piece member (all piece member)

/-- A chain that holds a cut piece by piece has no gap. -/
theorem gaplessAfter_of_forall₂
    {offset : Nat}
    (cut : Cut unit offset whole pieces)
    (carried : List.Forall₂ (CarriesPiece holds) pieces chain) :
    (chain.head?.any fun frag => frag.start == offset) = true ∧
      gaplessAfter none chain = true := by
  induction cut generalizing chain with
  | last _ =>
      cases carried with
      | cons first none =>
          cases none
          exact ⟨beq_iff_eq.mpr first.start, rfl⟩
  | more _ _ _ inductionHypothesis =>
      cases carried with
      | cons first others =>
          obtain ⟨head, gapless⟩ := inductionHypothesis others
          refine ⟨beq_iff_eq.mpr first.start, ?_⟩
          cases others with
          | nil => cases head
          | cons _ _ =>
              simp only [List.head?_cons, Option.any_some, beq_iff_eq] at head
              simp only [gaplessAfter, gaplessFrom, Bool.and_eq_true,
                beq_iff_eq]
              exact ⟨first.stop.trans head.symm, gapless⟩

theorem Collects.length_le
    (collects : Collects holds pieces arrived chain) :
    chain.length ≤ pieces.length := by
  have starts : (chain.map Frag.start).Nodup := by
    rw [List.Nodup, List.pairwise_map]
    exact collects.apart.imp fun ahead => Nat.ne_of_lt ahead.1
  have among : chain.map Frag.start ⊆ pieces.map Piece.offset := by
    intro start member
    obtain ⟨frag, fragMember, rfl⟩ := List.mem_map.mp member
    obtain ⟨piece, pieceMember, _, carries⟩ := collects.carried frag fragMember
    exact List.mem_map.mpr ⟨piece, pieceMember, carries.start.symm⟩
  have fewer := (List.subperm_of_subset starts among).length_le
  rwa [List.length_map, List.length_map] at fewer

/-- While a piece is missing, the chain is shorter than the cut. -/
theorem Collects.length_lt
    (collects : Collects holds pieces arrived chain)
    (cut : Cut unit 0 whole pieces)
    (member : piece ∈ pieces)
    (missing : ¬arrived piece)
    (carries : CarriesPiece holds piece new) :
    chain.length < pieces.length := by
  obtain ⟨placement, placed, _, more⟩ :
      ∃ placement, place true new none true chain = some placement ∧ _ ∧ _ :=
    collects.place_new cut member missing carries
  have longer := place_length placed
  have bound := more.length_le
  omega

/-- A walk that checks every gap finds the chain whole exactly when all pieces
have arrived, the last one among them. -/
theorem Collects.whole_iff
    {placement : Placement α}
    (collects : Collects holds pieces arrived placement.chain)
    (cut : Cut unit 0 whole pieces)
    (placed : place true new none true chain = some placement)
    (last : ∃ piece ∈ pieces, piece.more = false ∧ arrived piece) :
    (placement.gapless &&
        (placement.chain.head?.any fun frag => frag.start == 0) &&
        gaplessFrom new placement.behind) = true ↔
      ∀ piece ∈ pieces, arrived piece := by
  have gaps := place_gapless placed
  rw [Bool.true_and] at gaps
  rw [Bool.and_right_comm, gaps, Bool.and_eq_true]
  constructor
  · rintro ⟨gapless, head⟩
    exact collects.all_arrived cut last head gapless
  · intro all
    exact (gaplessAfter_of_forall₂ cut (collects.forall₂ cut all)).symm

end Collect

end FragmentChain

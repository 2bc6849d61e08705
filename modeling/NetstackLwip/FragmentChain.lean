import Mathlib.Algebra.Ring.Nat
import Mathlib.Data.List.Basic
import Mathlib.Data.List.Perm.Basic
import Mathlib.Order.Lattice

namespace FragmentChain

/-!
# Chains of fragments

The pieces of one datagram that have arrived, kept in the order of their
offsets. A new piece is walked into the chain; one that starts where another
does, or overlaps a neighbour, is dropped. During the walk it is noted whether
the pieces passed leave a gap, which with the pieces behind the new one tells
whether the chain is complete.
-/

/-- A fragment: the range of the datagram it covers, and what holds it. -/
structure Frag (α : Type) where
  start : Nat
  stop : Nat
  buffer : α
  deriving DecidableEq, Repr

/-- A fragment put into its place: the new chain, the part of it behind the
fragment, whether the walk saw no gap, and whether a fragment put at the end
starts after the one before it. -/
structure Placement (α : Type) where
  chain : List (Frag α)
  behind : List (Frag α)
  gapless : Bool
  ordered : Bool
  deriving DecidableEq, Repr

variable {α : Type}

/--
The walk of `new` along a chain, `prev` being the fragment just passed.
`checksGap` says whether a gap in front of a fragment that is put between two
others is noted.
-/
def place (checksGap : Bool) (new : Frag α) :
    Option (Frag α) → Bool → List (Frag α) → Option (Placement α)
  | prev, gapless, [] =>
      some {
        chain := [new]
        behind := []
        gapless := gapless && prev.all fun prev => prev.stop == new.start
        ordered := prev.all fun prev => decide (prev.stop ≤ new.start) }
  | prev, gapless, next :: rest =>
      if new.start < next.start then
        if next.start < new.stop ∨
            (prev.any fun prev => decide (new.start < prev.stop)) then
          none
        else
          some {
            chain := new :: next :: rest
            behind := next :: rest
            gapless := gapless &&
              (!checksGap || prev.all fun prev => prev.stop == new.start)
            ordered := true }
      else if new.start = next.start ∨ new.start < next.stop then
        none
      else
        (place checksGap new (some next)
          (gapless && prev.all fun prev => prev.stop == next.start) rest).map
            fun placement =>
              { placement with chain := next :: placement.chain }

/-- No gap follows `frag` in the rest of the chain. -/
def gaplessFrom (frag : Frag α) : List (Frag α) → Bool
  | [] => true
  | next :: rest => frag.stop == next.start && gaplessFrom next rest

/-- The fragments lie in order and do not overlap. -/
def Apart (chain : List (Frag α)) : Prop :=
  chain.Pairwise fun first second =>
    first.start < second.start ∧ first.stop ≤ second.start

section Place

variable {checksGap gapless : Bool} {new : Frag α} {prev : Option (Frag α)}
  {chain : List (Frag α)} {placement : Placement α}

/-- What is placed joins the chain: no fragment is lost or doubled. -/
theorem place_perm
    (placed : place checksGap new prev gapless chain = some placement) :
    placement.chain.Perm (new :: chain) := by
  induction chain generalizing prev gapless placement with
  | nil =>
      obtain rfl := Option.some.inj placed
      exact .refl _
  | cons next rest inductionHypothesis =>
      rw [place] at placed
      split at placed
      · split at placed
        · cases placed
        · obtain rfl := Option.some.inj placed
          exact .refl _
      · split at placed
        · cases placed
        · obtain ⟨inner, innerPlaced, rfl⟩ := Option.map_eq_some_iff.mp placed
          exact ((inductionHypothesis innerPlaced).cons next).trans
            (.swap new next rest)

theorem place_length
    (placed : place checksGap new prev gapless chain = some placement) :
    placement.chain.length = chain.length + 1 :=
  (place_perm placed).length_eq

theorem mem_place
    (placed : place checksGap new prev gapless chain = some placement)
    {frag : Frag α} :
    frag ∈ placement.chain ↔ frag = new ∨ frag ∈ chain := by
  rw [(place_perm placed).mem_iff, List.mem_cons]

/-- A fragment that starts where one of the chain does is dropped. -/
theorem place_of_same_start
    (apart : Apart chain)
    {frag : Frag α}
    (member : frag ∈ chain)
    (same : frag.start = new.start) :
    place checksGap new prev gapless chain = none := by
  induction chain generalizing prev gapless with
  | nil =>
      cases member
  | cons next rest inductionHypothesis =>
      obtain ⟨before, restApart⟩ := List.pairwise_cons.mp apart
      rw [place]
      rcases List.mem_cons.mp member with isNext | later
      · rw [if_neg (by rw [← isNext, same]; exact lt_irrefl _),
          if_pos (.inl (by rw [← isNext, same]))]
      · have ahead := (before frag later).1
        rw [if_neg (by omega)]
        split
        · rfl
        · rw [inductionHypothesis restApart later]
          rfl

/-- A fragment beside all those of the chain is put into it. -/
theorem place_of_beside
    (beside :
      ∀ frag ∈ chain,
        frag.start < new.start ∧ frag.stop ≤ new.start ∨
          new.start < frag.start ∧ new.stop ≤ frag.start)
    (passed : ∀ frag, prev = some frag → frag.stop ≤ new.start) :
    ∃ placement, place checksGap new prev gapless chain = some placement := by
  induction chain generalizing prev gapless with
  | nil =>
      exact ⟨_, rfl⟩
  | cons next rest inductionHypothesis =>
      rw [place]
      rcases beside next List.mem_cons_self with ahead | behind
      · obtain ⟨placement, placed⟩ :
            ∃ placement,
              place checksGap new (some next)
                  (gapless && prev.all fun prev => prev.stop == next.start)
                  rest = some placement :=
          inductionHypothesis
            (fun frag member => beside frag (List.mem_cons_of_mem _ member))
            (fun frag same => Option.some.inj same ▸ ahead.2)
        rw [if_neg (by omega), if_neg (by omega), placed]
        exact ⟨_, rfl⟩
      · have noOverlap :
            ¬(next.start < new.stop ∨
              (prev.any fun prev => decide (new.start < prev.stop)) = true) := by
          rintro (overlap | overlap)
          · omega
          · cases prev with
            | none => cases overlap
            | some frag =>
                have ahead := passed frag rfl
                simp only [Option.any_some, decide_eq_true_eq] at overlap
                omega
        rw [if_pos behind.1, if_neg noOverlap]
        exact ⟨_, rfl⟩

/-- Placing keeps the chain in order and free of overlaps. -/
theorem place_apart
    (placed : place checksGap new prev gapless chain = some placement)
    (apart : Apart chain) :
    Apart placement.chain := by
  induction chain generalizing prev gapless placement with
  | nil =>
      obtain rfl := Option.some.inj placed
      exact List.pairwise_singleton _ _
  | cons next rest inductionHypothesis =>
      obtain ⟨before, restApart⟩ := List.pairwise_cons.mp apart
      rw [place] at placed
      split at placed
      · rename_i ahead
        split at placed
        · cases placed
        · rename_i noOverlap
          obtain rfl := Option.some.inj placed
          refine List.pairwise_cons.mpr ⟨?_, apart⟩
          intro frag member
          rcases List.mem_cons.mp member with isNext | later
          · subst isNext
            exact ⟨ahead, by omega⟩
          · have further := before frag later
            exact ⟨by omega, by omega⟩
      · split at placed
        · cases placed
        · obtain ⟨inner, innerPlaced, rfl⟩ := Option.map_eq_some_iff.mp placed
          have innerApart := inductionHypothesis innerPlaced restApart
          refine List.pairwise_cons.mpr ⟨?_, innerApart⟩
          intro frag member
          rcases (mem_place innerPlaced).mp member with isNew | later
          · subst isNew
            exact ⟨by omega, by omega⟩
          · exact before frag later

/-- A fragment put at the end starts after the one before it. -/
theorem place_ordered
    (placed : place checksGap new prev gapless chain = some placement)
    (passed : ∀ frag, prev = some frag → frag.stop ≤ new.start) :
    placement.ordered = true := by
  induction chain generalizing prev gapless placement with
  | nil =>
      obtain rfl := Option.some.inj placed
      cases prev with
      | none => rfl
      | some frag => exact decide_eq_true (passed frag rfl)
  | cons next rest inductionHypothesis =>
      rw [place] at placed
      split at placed
      · split at placed
        · cases placed
        · obtain rfl := Option.some.inj placed
          rfl
      · split at placed
        · cases placed
        · obtain ⟨inner, innerPlaced, rfl⟩ := Option.map_eq_some_iff.mp placed
          have innerOrdered : inner.ordered = true := by
            apply inductionHypothesis innerPlaced
            intro frag same
            obtain rfl := Option.some.inj same
            omega
          exact innerOrdered

/-- No gap lies in the chain, nor between it and the fragment before it. -/
def gaplessAfter : Option (Frag α) → List (Frag α) → Bool
  | some prev, chain => gaplessFrom prev chain
  | none, [] => true
  | none, frag :: rest => gaplessFrom frag rest

/-- The walk that checks every gap finds whether the chain is whole. -/
theorem place_gapless
    (placed : place true new prev gapless chain = some placement) :
    (placement.gapless && gaplessFrom new placement.behind) =
      (gapless && gaplessAfter prev placement.chain) := by
  induction chain generalizing prev gapless placement with
  | nil =>
      obtain rfl := Option.some.inj placed
      cases prev <;> simp [gaplessAfter, gaplessFrom]
  | cons next rest inductionHypothesis =>
      rw [place] at placed
      split at placed
      · split at placed
        · cases placed
        · obtain rfl := Option.some.inj placed
          cases prev <;> simp [gaplessAfter, gaplessFrom, Bool.and_assoc]
      · split at placed
        · cases placed
        · obtain ⟨inner, innerPlaced, rfl⟩ := Option.map_eq_some_iff.mp placed
          rw [inductionHypothesis innerPlaced]
          cases prev <;> simp [gaplessAfter, gaplessFrom, Bool.and_assoc]

end Place

section Cover

variable {chain : List (Frag α)} {frag : Frag α}

/-- A whole chain covers every place up to where one of its fragments stops. -/
theorem gaplessFrom_covers
    (whole : gaplessFrom frag chain = true)
    {place : Nat}
    (start : frag.start ≤ place)
    {last : Frag α}
    (member : last ∈ frag :: chain)
    (stop : place < last.stop) :
    ∃ covering ∈ frag :: chain,
      covering.start ≤ place ∧ place < covering.stop := by
  induction chain generalizing frag with
  | nil =>
      obtain rfl := List.mem_singleton.mp member
      exact ⟨last, member, start, stop⟩
  | cons next rest inductionHypothesis =>
      by_cases inFrag : place < frag.stop
      · exact ⟨frag, List.mem_cons_self, start, inFrag⟩
      · simp only [gaplessFrom, Bool.and_eq_true, beq_iff_eq] at whole
        rcases List.mem_cons.mp member with isFrag | later
        · exact absurd (isFrag ▸ stop) inFrag
        · obtain ⟨covering, among, covers⟩ :=
            inductionHypothesis whole.2 (by omega) later
          exact ⟨covering, List.mem_cons_of_mem _ among, covers⟩

end Cover

end FragmentChain

import NetstackLwip.FaultMachine

namespace NetstackLwip

/-!
# The output cell

`OUTPUT_CB_PTR` is one cell of the process: `NetStack::_new` stores the address
of the new stack in it, and `Drop` clears it, whichever stack it points to.
-/

open FaultMachine

/-- The stacks that are alive, oldest first, and `OUTPUT_CB_PTR`. -/
structure OutputCell where
  alive : List Nat := []
  outputCbPtr : Nat := 0
  deriving DecidableEq, Repr

/-- A successful constructor call, with the address of the box it returns, or
the drop of a stack. -/
inductive StackEvent where
  | new (addr : Nat)
  | drop (addr : Nat)
  deriving DecidableEq, Repr

/-- The end of `NetStack::_new`. -/
def OutputCell.new (cell : OutputCell) (addr : Nat) : OutputCell where
  alive := cell.alive ++ [addr]
  outputCbPtr := addr

/-- `Drop` for `NetStack`. -/
def OutputCell.drop (cell : OutputCell) (addr : Nat) : OutputCell where
  alive := cell.alive.erase addr
  outputCbPtr := 0

/-- The stack that `output` hands a packet to; without one it returns
`ERR_ABRT`. -/
def OutputCell.output (cell : OutputCell) : Option Nat :=
  if cell.outputCbPtr = 0 then none else some cell.outputCbPtr

/-- A box is not null, and not where another live box is. Other events do not
happen. -/
def OutputCell.step (cell : OutputCell) :
    StackEvent → Except Unit OutputCell
  | .new addr =>
      if addr = 0 ∨ addr ∈ cell.alive then .error () else .ok (cell.new addr)
  | .drop addr =>
      if addr ∈ cell.alive then .ok (cell.drop addr) else .error ()

/-- The process from its start. -/
def cellMachine : Machine Unit OutputCell StackEvent where
  initial cell := cell = {}
  step := OutputCell.step

/-- The cell holds the address of the newest live stack, or 0. -/
def OutputCell.Newest (cell : OutputCell) : Prop :=
  cell.outputCbPtr = cell.alive.getLast?.getD 0

instance (cell : OutputCell) : Decidable cell.Newest :=
  inferInstanceAs (Decidable (_ = _))

/-- No stack is dropped while another one is alive. -/
def DropsAlone (cell : OutputCell) (event : StackEvent) : Prop :=
  ∀ addr, event = .drop addr → cell.alive = [addr]

/-- A live stack has an address, and the cell points to a live stack or to
none. -/
structure OutputCell.Sound (cell : OutputCell) : Prop where
  addr : ∀ addr ∈ cell.alive, addr ≠ 0
  live : cell.outputCbPtr ≠ 0 → cell.outputCbPtr ∈ cell.alive

theorem OutputCell.sound_step
    {cell after : OutputCell}
    {event : StackEvent}
    (sound : cell.Sound)
    (taken : cell.step event = .ok after) :
    after.Sound := by
  cases event with
  | new addr =>
      simp only [step] at taken
      split at taken
      · cases taken
      · rename_i fresh
        cases taken
        refine ⟨fun other member => ?_, fun _ => by simp [new]⟩
        rcases List.mem_append.mp member with old | isNew
        · exact sound.addr other old
        · rw [List.mem_singleton.mp isNew]
          exact fun null => fresh (.inl null)
  | drop addr =>
      simp only [step] at taken
      split at taken
      · cases taken
        exact ⟨fun other member => sound.addr other
          (List.mem_of_mem_erase member), fun stored => absurd rfl stored⟩
      · cases taken

/-- `output` never goes through a dangling pointer. -/
theorem OutputCell.sound_reached
    {cell : OutputCell}
    (reached : cellMachine.Reached cell) :
    cell.Sound := by
  refine Machine.ReachedUnder.invariant ?_ ?_ reached
  · rintro _ rfl
    exact ⟨by simp, fun stored => absurd rfl stored⟩
  · intro before event after sound _ taken
    exact OutputCell.sound_step sound taken

/-- A step leaves the newest stack in the cell exactly if it drops no stack
beside another. -/
theorem OutputCell.newest_step_iff
    {cell after : OutputCell}
    {event : StackEvent}
    (sound : cell.Sound)
    (taken : cell.step event = .ok after) :
    after.Newest ↔ DropsAlone cell event := by
  cases event with
  | new addr =>
      simp only [step] at taken
      split at taken
      · cases taken
      · cases taken
        simp [Newest, new, DropsAlone]
  | drop addr =>
      simp only [step] at taken
      split at taken
      · rename_i alive
        cases taken
        have alone : cell.alive.erase addr = [] ↔ cell.alive = [addr] := by
          constructor
          · intro empty
            have count := List.length_erase_of_mem alive
            rw [empty, List.length_nil] at count
            have positive := List.length_pos_of_mem alive
            obtain ⟨only, single⟩ :=
              List.length_eq_one_iff.mp (by omega : cell.alive.length = 1)
            rw [single, List.mem_singleton] at alive
            rw [single, alive]
          · intro single
            rw [single]
            simp
        have drops : DropsAlone cell (.drop addr) ↔ cell.alive = [addr] := by
          simp [DropsAlone]
        rw [drops, ← alone]
        constructor
        · intro newest
          by_contra nonempty
          have member := List.getLast_mem nonempty
          have stored :
              (0 : Nat) = (cell.alive.erase addr).getLast nonempty := by
            have known : (cell.drop addr).Newest := newest
            simpa [Newest, drop, List.getLast?_eq_some_getLast nonempty]
              using known
          rw [← stored] at member
          exact sound.addr 0 (List.mem_of_mem_erase member) rfl
        · intro empty
          simp [Newest, drop, empty]
      · cases taken

/-- With the newest stack in the cell, `output` finds it. -/
theorem OutputCell.output_eq
    {cell : OutputCell}
    (sound : cell.Sound)
    (newest : cell.Newest) :
    cell.output = cell.alive.getLast? := by
  rw [output, newest]
  cases last : cell.alive.getLast? with
  | none =>
      rfl
  | some addr =>
      have null : addr ≠ 0 :=
        sound.addr addr (List.mem_of_getLast? last)
      simp [null]

/-- As long as no stack is dropped beside another one, packets go to the
newest live stack; the first such drop takes it out of the cell. -/
theorem output_cell_newest
    {cell : OutputCell}
    (reached : cellMachine.ReachedUnder DropsAlone cell) :
    cell.Newest ∧ cell.output = cell.alive.getLast? ∧
      ∀ event after,
        cell.step event = .ok after →
          (after.Newest ↔ DropsAlone cell event) := by
  have sound : cell.Sound :=
    OutputCell.sound_reached (reached.mono fun _ _ _ => trivial)
  have newest : cell.Sound ∧ cell.Newest := by
    refine Machine.ReachedUnder.invariant
      (?_ : ∀ first, cellMachine.initial first → first.Sound ∧ first.Newest)
      ?_ reached
    · rintro _ rfl
      exact ⟨⟨by simp, fun stored => absurd rfl stored⟩, rfl⟩
    · intro before event after known alone taken
      exact ⟨OutputCell.sound_step known.1 taken,
        (OutputCell.newest_step_iff known.1 taken).mpr alone⟩
  exact ⟨newest.2, OutputCell.output_eq sound newest.2,
    fun event after taken => OutputCell.newest_step_iff sound taken⟩

/-- One tunnel after the other: the second stack gets the packets. -/
theorem output_cell_newest_restarted :
    ∃ cell, cellMachine.ReachedUnder DropsAlone cell ∧
      cell.alive = [2] ∧ cell.Newest ∧ cell.output = cell.alive.getLast? ∧
        ∀ event after,
          cell.step event = .ok after →
            (after.Newest ↔ DropsAlone cell event) := by
  have first : cellMachine.ReachedUnder DropsAlone ⟨[1], 1⟩ :=
    .next (.start rfl) (by rintro _ ⟨⟩)
      (show cellMachine.step {} (.new 1) = _ from rfl)
  have gone : cellMachine.ReachedUnder DropsAlone ⟨[], 0⟩ :=
    .next first (by rintro _ ⟨⟩; rfl)
      (show cellMachine.step _ (.drop 1) = _ from rfl)
  have second : cellMachine.ReachedUnder DropsAlone ⟨[2], 2⟩ :=
    .next gone (by rintro _ ⟨⟩)
      (show cellMachine.step _ (.new 2) = _ from rfl)
  exact ⟨⟨[2], 2⟩, second, rfl, output_cell_newest second⟩

/-- A restart that overlaps: dropping the old stack takes the new one out of
the cell, and its packets are lost. -/
theorem output_cell_cleared_by_older_drop :
    ∃ cell, cellMachine.Reached cell ∧
      cell.alive = [2] ∧ ¬ cell.Newest ∧ cell.output = none := by
  have first : cellMachine.Reached ⟨[1], 1⟩ :=
    .next (.start rfl) trivial (show cellMachine.step {} (.new 1) = _ from rfl)
  have both : cellMachine.Reached ⟨[1, 2], 2⟩ :=
    .next first trivial (show cellMachine.step _ (.new 2) = _ from rfl)
  have older : cellMachine.Reached ⟨[2], 0⟩ :=
    .next both trivial (show cellMachine.step _ (.drop 1) = _ from rfl)
  exact ⟨⟨[2], 0⟩, older, rfl, by decide, rfl⟩

end NetstackLwip

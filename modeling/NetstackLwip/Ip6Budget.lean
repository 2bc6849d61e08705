import NetstackLwip.BudgetedPool
import NetstackLwip.IpRuns

namespace NetstackLwip

/-!
# IPv6 reassembly within its budget

IPv6 has its own pool and its own count, which every function keeps exact and
within the same limits. What can stop it are only the reads and moves that go
through a pointer to a header: no list is walked out of its bounds, no count
runs over, and every loop ends.
-/

open FaultState FragmentChain BudgetedPool

/-- What a wrong pointer to a header can cause. -/
abbrev headerFault (fault : IpFault) : Prop :=
  fault ∈ [
    .outsidePacket, .foreignHeader, .incrementMagnitude, .notValidPbuf, .noRoomHelper,
    .freeHeader, .reassHeader]

/-- How many buffers a datagram holds. -/
def Ip6Reassdata.clen (ipr : Ip6Reassdata) : Nat :=
  (ipr.frags.map fun frag => frag.buffer.clen).sum

/-- A datagram holds no buffer only when it has no fragment. -/
theorem Ip6Reassdata.clen_eq_zero_iff
    {ipr : Ip6Reassdata} :
    ipr.clen = 0 ↔ ipr.frags = [] := by
  constructor
  · intro unset
    cases frags : ipr.frags with
    | nil => rfl
    | cons first rest =>
        rw [Ip6Reassdata.clen, frags, List.map_cons, List.sum_cons,
          Chain.clen] at unset
        omega
  · intro empty
    rw [Ip6Reassdata.clen, empty]
    rfl

/-- What holds of every datagram being reassembled. -/
structure Ip6Reassdata.Kept (ipr : Ip6Reassdata) : Prop where
  apart : Apart ipr.frags
  held : ∀ frag ∈ ipr.frags, frag.buffer.head.Held
  small : ∀ frag ∈ ipr.frags, frag.buffer.head.len < 65536
  timer : ipr.timer ≤ ipv6ReassMaxage
  fresh : ipr.frags = [] → ipr.timer = ipv6ReassMaxage ∧ ipr.datagramLen = 0

/-- The datagrams and their count; while a fragment is put into its datagram
the first one may hold none. -/
abbrev Held6 (vacant : Prop) (datagrams : List Ip6Reassdata) (count : Nat) : Prop :=
  Pool Ip6Reassdata.clen Ip6Reassdata.Kept ipReassMaxPbufs mempNumReassdata vacant
    datagrams count

/-- Only the IPv6 reassembly has changed since `start`, and it is in order. -/
structure Reass6 (start : IpInput) (vacant : Prop) (next : IpInput) : Prop where
  only :
    next = {
      start with
      datagrams6 := next.datagrams6
      pbufcount6 := next.pbufcount6 }
  held : Held6 vacant next.datagrams6 next.pbufcount6

theorem Reass6.refl
    {input : IpInput}
    {vacant : Prop}
    (held : Held6 vacant input.datagrams6 input.pbufcount6) :
    Reass6 input vacant input :=
  ⟨rfl, held⟩

theorem Reass6.trans
    {start middle next : IpInput}
    {before after : Prop}
    (first : Reass6 start before middle)
    (second : Reass6 middle after next) :
    Reass6 start after next := by
  refine ⟨?_, second.held⟩
  rw [second.only, first.only]

theorem Reass6.weaken
    {start next : IpInput}
    {vacant weaker : Prop}
    (reass : Reass6 start vacant next)
    (implies : vacant → weaker) :
    Reass6 start weaker next :=
  ⟨reass.only, reass.held.weaken implies⟩

/-! ## Moving `payload` -/

section Move

variable {input : IpInput}

theorem headerDifference_stops
    {p : PBuf}
    {hdr : Ip6HdrPtr} :
    wp (headerDifference p hdr) (fun _ next => next = input) headerFault input := by
  rw [headerDifference, wp_bind, wp_ensure]
  exact ⟨fun _ => rfl, fun _ => by decide⟩

theorem pbufRemoveHeader_stops
    {p : Chain}
    {size : Nat} :
    wp (pbufRemoveHeader p size)
      (fun q next => next = input ∧ size ≤ p.head.len ∧ q = p.skip size)
      headerFault input := by
  rw [pbufRemoveHeader, wp_bind, wp_ensure]
  exact ⟨fun fits => ⟨rfl, of_decide_eq_true fits, rfl⟩, fun _ => by decide⟩

/-- A buffer whose front has moved ends inside its memory as before. -/
theorem Chain.addHeader_moved
    {p q : Chain}
    {size : Nat}
    (held : p.head.Held)
    (added : p.addHeader size = some q) :
    q.tail = p.tail ∧ q.head.mem = p.head.mem ∧ q.head.Held ∧ q.head.len < 65536 := by
  rw [Chain.addHeader] at added
  split at added
  · cases added
  · rename_i room
    obtain rfl := Option.some.inj added
    unfold PBuf.Held at held ⊢
    have shorter := Nat.mod_le (p.head.len + size) 65536
    have bound := Nat.mod_lt (p.head.len + size) (by decide : 65536 > 0)
    exact ⟨rfl, rfl, by dsimp only; omega, bound⟩

theorem pbufHeaderForce_stops
    {p : Chain}
    {difference : Int}
    (held : p.head.Held)
    (small : p.head.len < 65536) :
    wp (pbufHeaderForce p difference)
      (fun moved next =>
        next = input ∧
          ∀ q, moved = some q → q.tail = p.tail ∧ q.head.Held ∧ q.head.len < 65536)
      headerFault input := by
  unfold pbufHeaderForce
  rw [wp_ite]
  refine ⟨fun _ => ?_, fun _ => ?_⟩
  · rw [wp_bind]
    refine wp_weaken pbufRemoveHeader_stops ?_
    rintro _ _ ⟨rfl, fits, rfl⟩
    refine ⟨rfl, fun q same => ?_⟩
    obtain rfl := Option.some.inj same
    exact ⟨rfl, held.skip fits, by rw [Chain.skip_head, PBuf.skip_len]; omega⟩
  · refine ⟨rfl, fun q same => ?_⟩
    obtain ⟨tail, -, heldNext, smallNext⟩ := Chain.addHeader_moved held same
    exact ⟨tail, heldNext, smallNext⟩

end Move

/-! ## Freeing a datagram -/

section Free

variable {input : IpInput} {vacant : Prop}

theorem countFreed6_counts
    {freed : Nat}
    {frags : List (Frag Chain)}
    (small : freed + (frags.map fun frag => frag.buffer.clen).sum ≤ 0xffff) :
    wp (countFreed6 freed frags)
      (fun total next =>
        total = freed + (frags.map fun frag => frag.buffer.clen).sum ∧ next = input)
      headerFault input := by
  induction frags generalizing freed with
  | nil => exact ⟨rfl, rfl⟩
  | cons frag rest inductionHypothesis =>
      rw [List.map_cons, List.sum_cons] at small
      rw [countFreed6, wp_bind, wp_ensure]
      refine ⟨fun _ => ?_, fun large => absurd large (by simp; omega)⟩
      refine wp_weaken (inductionHypothesis (by omega)) ?_
      rintro total next ⟨rfl, rfl⟩
      exact ⟨by rw [List.map_cons, List.sum_cons, Nat.add_assoc], rfl⟩

theorem returnFirst_stops
    {ipr : Ip6Reassdata}
    (kept : ipr.Kept)
    (full : ipr.frags ≠ []) :
    wp (returnFirst ipr) (fun _ next => next = input) headerFault input := by
  unfold returnFirst
  cases frags : ipr.frags with
  | nil => exact absurd frags full
  | cons first rest =>
      have held := kept.held
      have small := kept.small
      rw [frags] at held small
      dsimp only
      rw [wp_ite]
      refine ⟨fun _ => ?_, fun _ => rfl⟩
      rw [wp_bind]
      refine wp_weaken headerDifference_stops ?_
      rintro difference _ rfl
      rw [wp_bind]
      refine wp_weaken
        (pbufHeaderForce_stops (held _ List.mem_cons_self) (small _ List.mem_cons_self)) ?_
      rintro moved _ ⟨rfl, -⟩
      rw [wp_ensure]
      exact ⟨fun _ => rfl, fun _ => by decide⟩

theorem ip6ReassFreeCompleteDatagram_frees
    (held : Held6 vacant input.datagrams6 input.pbufcount6)
    {ipr : Nat}
    (inside : ipr < input.datagrams6.length)
    (full : input.datagrams6[ipr].frags ≠ []) :
    wp (ip6ReassFreeCompleteDatagram ipr)
      (fun _ next =>
        next = {
          input with
          datagrams6 := input.datagrams6.eraseIdx ipr
          pbufcount6 := input.pbufcount6 - input.datagrams6[ipr].clen })
      headerFault input := by
  have cost := held.cost_le inside
  have budget := held.budget
  have limit : ipReassMaxPbufs = 10 := rfl
  have kept := held.sound _ (List.getElem_mem inside)
  rw [ip6ReassFreeCompleteDatagram, wp_bind, wp_get, List.getElem?_eq_getElem inside]
  dsimp only
  rw [wp_bind]
  refine wp_weaken (returnFirst_stops kept full) ?_
  rintro _ input rfl
  rw [wp_bind]
  refine wp_weaken (countFreed6_counts ?_) ?_
  · change 0 + input.datagrams6[ipr].clen ≤ 0xffff
    omega
  · rintro _ input ⟨rfl, rfl⟩
    rw [Nat.zero_add, wp_bind, wp_modify, wp_bind, wp_ensure]
    exact ⟨fun _ => rfl, fun less => absurd cost (of_decide_eq_false less)⟩

end Free

/-! ## The timer -/

theorem ip6ReassTmrFrom_held
    {input : IpInput}
    (held : Held6 False input.datagrams6 input.pbufcount6)
    (rounds r : Nat) :
    wp (ip6ReassTmrFrom rounds r) (fun _ next => Reass6 input False next) headerFault
      input := by
  induction rounds generalizing r input with
  | zero => exact .refl held
  | succ rounds inductionHypothesis =>
      rw [ip6ReassTmrFrom, wp_bind, wp_get]
      cases found : input.datagrams6[r]? with
      | none => exact .refl held
      | some ipr =>
          obtain ⟨inside, isIpr⟩ := List.getElem?_eq_some_iff.mp found
          have kept := held.sound ipr (isIpr ▸ List.getElem_mem inside)
          have full : ipr.frags ≠ [] := by
            intro empty
            exact (held.paid r ipr found (ipr.clen_eq_zero_iff.mpr empty)).2
          dsimp only
          rw [wp_ite]
          refine ⟨fun _ => ?_, fun _ => ?_⟩
          · have timer := kept.timer
            have aged :
                Held6 False
                  (input.datagrams6.set r { ipr with timer := ipr.timer - 1 })
                  input.pbufcount6 := by
              apply held.replace inside
              · exact ⟨kept.apart, kept.held, kept.small, by dsimp only; omega,
                  fun empty => absurd empty full⟩
              · rw [isIpr]
                rfl
            rw [wp_bind, wp_set]
            refine wp_weaken
              (@inductionHypothesis
                { input with
                  datagrams6 :=
                    input.datagrams6.set r { ipr with timer := ipr.timer - 1 } }
                aged (r + 1)) ?_
            exact fun _ next reass => Reass6.trans ⟨rfl, aged⟩ reass
          · rw [wp_bind]
            refine wp_weaken
              (ip6ReassFreeCompleteDatagram_frees held inside (by rwa [isIpr])) ?_
            rintro _ _ rfl
            have erased := (held.erase inside).weaken And.left
            refine wp_weaken
              (@inductionHypothesis
                { input with
                  datagrams6 := input.datagrams6.eraseIdx r
                  pbufcount6 := input.pbufcount6 - input.datagrams6[r].clen }
                erased r) ?_
            exact fun _ next reass => Reass6.trans ⟨rfl, erased⟩ reass

theorem ip6ReassTmr_held
    {input : IpInput}
    (held : Held6 False input.datagrams6 input.pbufcount6) :
    wp ip6ReassTmr (fun _ next => Reass6 input False next) headerFault input := by
  rw [ip6ReassTmr, wp_bind, wp_get]
  exact ip6ReassTmrFrom_held held input.datagrams6.length 0

/-! ## Making room -/

/-- The search ends at the datagram it began with or at one it has passed. -/
theorem findOldest_index
    {ipr : Option Nat}
    {r : Nat}
    {oldest : Nat × Nat}
    {rest : List Ip6Reassdata} :
    (findOldest ipr r oldest rest).1 = oldest.1 ∨
      r ≤ (findOldest ipr r oldest rest).1 ∧
        (findOldest ipr r oldest rest).1 < r + rest.length := by
  induction rest generalizing r oldest with
  | nil => exact .inl rfl
  | cons datagram rest inductionHypothesis =>
      rw [findOldest, List.length_cons]
      rcases @inductionHypothesis (r + 1)
        (if some r ≠ ipr ∧ datagram.timer ≤ oldest.2 then (r, datagram.timer) else oldest)
        with same | passed
      · by_cases taken : some r ≠ ipr ∧ datagram.timer ≤ oldest.2
        · rw [if_pos taken] at same ⊢
          exact .inr ⟨by omega, by omega⟩
        · rw [if_neg taken] at same ⊢
          exact .inl same
      · exact .inr ⟨by omega, by omega⟩

/-- A datagram that may go is preferred to one that is not older. -/
theorem findOldest_takes
    {ipr : Option Nat}
    {r : Nat}
    {oldest : Nat × Nat}
    {datagram : Ip6Reassdata}
    {rest : List Ip6Reassdata}
    (other : some r ≠ ipr)
    (older : datagram.timer ≤ oldest.2) :
    r ≤ (findOldest ipr r oldest (datagram :: rest)).1 := by
  rw [findOldest, if_pos ⟨other, older⟩]
  rcases @findOldest_index ipr (r + 1) (r, datagram.timer) rest with same | passed
  · omega
  · omega

/--
What making room for `needed` buffers leaves: the spared datagram, which is at
`spared` now, and, if that one was new and holds nothing, the room.
-/
structure Removed
    (start : IpInput)
    (vacant : Prop)
    (ipr : Option Nat)
    (needed : Nat)
    (spared : Option Nat)
    (next : IpInput) : Prop where
  reass : Reass6 start vacant next
  shrinks : next.datagrams6.length ≤ start.datagrams6.length
  spares :
    ∀ r, ipr = some r → r < start.datagrams6.length →
      ∃ place, spared = some place ∧ next.datagrams6[place]? = start.datagrams6[r]? ∧
        (r = 0 → place = 0)
  room : vacant → needed ≤ ipReassMaxPbufs → next.pbufcount6 + needed ≤ ipReassMaxPbufs

/-- Room is made in several rounds. -/
theorem Removed.trans
    {start middle next : IpInput}
    {vacant : Prop}
    {ipr between spared : Option Nat}
    {first needed : Nat}
    (before : Removed start vacant ipr first between middle)
    (after : Removed middle vacant between needed spared next) :
    Removed start vacant ipr needed spared next where
  reass := before.reass.trans after.reass
  shrinks := Nat.le_trans after.shrinks before.shrinks
  room := after.room
  spares r isR inside := by
    obtain ⟨place, isPlace, found, front⟩ := before.spares r isR inside
    have within : place < middle.datagrams6.length := by
      apply List.getElem?_eq_some_iff.mp (found.trans (List.getElem?_eq_getElem inside)) |>.1
    obtain ⟨later, isLater, foundLater, frontLater⟩ := after.spares place isPlace within
    exact ⟨later, isLater, foundLater.trans found, fun zero => frontLater (front zero)⟩

/-- Where an entry is when another one has gone. -/
theorem getElem?_eraseIdx_moved
    {α : Type}
    {entries : List α}
    {index gone : Nat}
    (other : gone ≠ index) :
    (entries.eraseIdx gone)[if gone < index then index - 1 else index]? =
      entries[index]? := by
  split
  · rw [List.getElem?_eraseIdx_of_ge (by omega), Nat.sub_add_cancel (by omega)]
  · rw [List.getElem?_eraseIdx_of_lt (by omega)]

theorem removeOldestRounds6_held
    {input : IpInput}
    {vacant : Prop}
    {ipr : Option Nat}
    {needed rounds : Nat}
    (held : Held6 vacant input.datagrams6 input.pbufcount6)
    (fresh :
      vacant → ipr = some 0 ∧ ∃ first rest,
        input.datagrams6 = first :: rest ∧ first.frags = [])
    (enough : input.datagrams6.length < rounds) :
    wp (removeOldestRounds6 needed rounds ipr) (Removed input vacant ipr needed)
      headerFault input := by
  induction rounds generalizing input ipr with
  | zero => omega
  | succ rounds inductionHypothesis =>
      rw [removeOldestRounds6, wp_bind, wp_get]
      cases datagrams : input.datagrams6 with
      | nil =>
          refine ⟨.refl held, Nat.le_refl _, ?_, ?_⟩
          · intro r _ inside
            rw [datagrams] at inside
            cases inside
          · intro isVacant
            obtain ⟨-, first, rest, listed, -⟩ := fresh isVacant
            rw [datagrams] at listed
            cases listed
      | cons first rest =>
          have inside :
              (findOldest ipr 0 (0, first.timer) (first :: rest)).1 <
                input.datagrams6.length := by
            rw [datagrams]
            rcases @findOldest_index ipr 0 (0, first.timer) (first :: rest) with same | passed
            · rw [same]
              exact Nat.succ_pos _
            · omega
          -- a new datagram is the youngest: it is met only when it is alone
          have alone :
              vacant → some (findOldest ipr 0 (0, first.timer) (first :: rest)).1 = ipr →
                rest = [] := by
            intro isVacant met
            obtain ⟨isFirst, other, others, same, empty⟩ := fresh isVacant
            obtain ⟨rfl, rfl⟩ := List.cons.inj (datagrams.symm.trans same)
            cases rest with
            | nil => rfl
            | cons second more =>
                have young := (held.sound first (by rw [datagrams]; exact List.mem_cons_self)).fresh
                  empty
                have age := (held.sound second (by rw [datagrams]; simp)).timer
                rw [isFirst, findOldest, if_neg (by simp), Nat.zero_add] at met
                have later := @findOldest_takes (some 0) 1 (0, first.timer) second more
                  (by simp) (by dsimp only; omega)
                have := Option.some.inj met
                omega
          dsimp only
          generalize (findOldest ipr 0 (0, first.timer) (first :: rest)).1 = oldest
            at inside alone ⊢
          rw [wp_ite]
          refine ⟨fun met => ?_, fun other => ?_⟩
          · refine ⟨.refl held, Nat.le_refl _, fun r same _ => ⟨r, same, rfl, id⟩, ?_⟩
            intro isVacant small
            obtain ⟨-, other, others, same, empty⟩ := fresh isVacant
            obtain ⟨rfl, rfl⟩ := List.cons.inj (datagrams.symm.trans same)
            have count := held.counted
            rw [datagrams, alone isVacant met, List.map_cons, List.map_nil, List.sum_cons,
              List.sum_nil, first.clen_eq_zero_iff.mpr empty] at count
            omega
          · have behind : vacant → oldest ≠ 0 := by
              intro isVacant atFirst
              rw [atFirst, (fresh isVacant).1] at other
              exact other rfl
            have full : input.datagrams6[oldest].frags ≠ [] := by
              intro empty
              have free := held.paid oldest _ (List.getElem?_eq_getElem inside)
                (Ip6Reassdata.clen_eq_zero_iff.mpr empty)
              exact behind free.2 free.1
            rw [wp_bind]
            refine wp_weaken (ip6ReassFreeCompleteDatagram_frees held inside full) ?_
            rintro _ _ rfl
            have erased := (held.erase inside).weaken And.left
            have shorter := List.length_eraseIdx_of_lt inside
            -- what holds once this datagram is gone
            have freed :
                Removed input vacant ipr 0 (ipr.map fun r => if oldest < r then r - 1 else r)
                  { input with
                    datagrams6 := input.datagrams6.eraseIdx oldest
                    pbufcount6 := input.pbufcount6 - input.datagrams6[oldest].clen } := by
              refine ⟨⟨rfl, erased⟩, by dsimp only; omega, ?_, fun _ _ => erased.budget⟩
              intro r isR _
              have differs : oldest ≠ r := fun same => other (by rw [isR, same])
              refine ⟨_, by rw [isR, Option.map_some],
                getElem?_eraseIdx_moved differs, ?_⟩
              intro atFirst
              rw [atFirst, if_neg (by omega)]
            rw [wp_bind, wp_get, wp_ite]
            refine ⟨fun more => ?_, fun enoughRoom => ?_⟩
            · refine wp_weaken (inductionHypothesis erased ?_ (by dsimp only; omega)) ?_
              · intro isVacant
                obtain ⟨isFirst, first', rest', same, empty⟩ := fresh isVacant
                obtain ⟨place, isPlace⟩ :=
                  Nat.exists_eq_succ_of_ne_zero (behind isVacant)
                refine ⟨?_, first', rest'.eraseIdx place, ?_, empty⟩
                · rw [isFirst, Option.map_some, if_neg (by omega)]
                · dsimp only
                  rw [same, isPlace, Nat.succ_eq_add_one, List.eraseIdx_cons_succ]
              · exact fun spared next removed => freed.trans removed
            · refine ⟨freed.reass, freed.shrinks, freed.spares, ?_⟩
              intro isVacant small
              have behindFirst := behind isVacant
              have more :
                  (!(input.datagrams6.eraseIdx oldest).isEmpty) = true := by
                rw [Bool.not_eq_true', List.isEmpty_eq_false_iff, ← List.length_pos_iff]
                omega
              refine Nat.not_lt.mp fun tooMany => enoughRoom ⟨tooMany, more⟩

theorem ip6ReassRemoveOldestDatagram_held
    {input : IpInput}
    {vacant : Prop}
    {ipr : Option Nat}
    {needed : Nat}
    (held : Held6 vacant input.datagrams6 input.pbufcount6)
    (fresh :
      vacant → ipr = some 0 ∧ ∃ first rest,
        input.datagrams6 = first :: rest ∧ first.frags = []) :
    wp (ip6ReassRemoveOldestDatagram ipr needed) (Removed input vacant ipr needed)
      headerFault input := by
  rw [ip6ReassRemoveOldestDatagram, wp_bind, wp_get]
  exact removeOldestRounds6_held held fresh (Nat.lt_succ_self _)

/-! ## Finding the datagram of a fragment -/

/-- The datagram of a fragment is `ipr`, at `r`, which may be new. -/
structure Found6
    (start : IpInput)
    (ipr : Ip6Reassdata)
    (r : Nat)
    (next : IpInput) : Prop where
  reass : Reass6 start (ipr.frags = []) next
  found : next.datagrams6[r]? = some ipr
  first : ipr.frags = [] → r = 0
  known : ipr.frags ≠ [] → next.datagrams6.length ≤ start.datagrams6.length

theorem ip6ReassdataAlloc_held
    {input : IpInput}
    (held : Held6 False input.datagrams6 input.pbufcount6)
    (clen : Nat) :
    wp (ip6ReassdataAlloc clen)
      (fun room next =>
        Reass6 input False next ∧
          (room = true → next.datagrams6.length < mempNumReassdata))
      headerFault input := by
  rw [ip6ReassdataAlloc, wp_bind, wp_get, wp_ite]
  refine ⟨fun free => ⟨.refl held, fun _ => free⟩, fun _ => ?_⟩
  rw [wp_bind]
  refine wp_weaken (ip6ReassRemoveOldestDatagram_held held False.elim) ?_
  intro spared next removed
  rw [wp_bind, wp_get, wp_pure]
  exact ⟨removed.reass, of_decide_eq_true⟩

theorem findDatagram6_held
    {input : IpInput}
    (held : Held6 False input.datagrams6 input.pbufcount6)
    (frag : Fragment6)
    (clen : Nat) :
    wp (findDatagram6 frag clen)
      (fun found next =>
        found.elim (Reass6 input False next) fun r => ∃ ipr, Found6 input ipr r next)
      headerFault input := by
  rw [findDatagram6, wp_bind, wp_get]
  cases isAt : input.datagrams6.findIdx? fun ipr => ipr.matchesFragment frag with
  | some r =>
      have inside := (List.findIdx?_eq_some_iff_getElem.mp isAt).1
      have full : input.datagrams6[r].frags ≠ [] := by
        intro empty
        exact (held.paid r _ (List.getElem?_eq_getElem inside)
          (Ip6Reassdata.clen_eq_zero_iff.mpr empty)).2
      exact ⟨input.datagrams6[r], .weaken (.refl held) False.elim,
        List.getElem?_eq_getElem inside, fun empty => absurd empty full,
        fun _ => Nat.le_refl _⟩
  | none =>
      dsimp only
      rw [wp_bind]
      refine wp_weaken (ip6ReassdataAlloc_held held clen) ?_
      rintro room middle ⟨reass, free⟩
      rw [wp_ite]
      refine ⟨fun isRoom => ?_, fun _ => reass⟩
      rw [wp_bind, wp_modify, wp_pure]
      refine ⟨_, ⟨?_, ?_⟩, rfl, fun _ => rfl, fun full => absurd rfl full⟩
      · rw [reass.only]
      · refine (reass.held.push ?_ rfl (free isRoom)).weaken fun _ => rfl
        exact ⟨List.Pairwise.nil, by simp, by simp, Nat.le_refl _, fun _ => ⟨rfl, rfl⟩⟩

theorem roomForFragment6_held
    {start input : IpInput}
    {ipr : Ip6Reassdata}
    {r clen : Nat}
    (found : Found6 start ipr r input)
    (small : clen ≤ ipReassMaxPbufs) :
    wp (roomForFragment6 r clen)
      (fun room next =>
        room.elim (Reass6 start False next) fun r =>
          Found6 start ipr r next ∧ next.pbufcount6 + clen ≤ ipReassMaxPbufs)
      headerFault input := by
  obtain ⟨inside, isIpr⟩ := List.getElem?_eq_some_iff.mp found.found
  rw [roomForFragment6, wp_bind, wp_get, wp_ite]
  refine ⟨fun _ => ?_, fun fits => ⟨found, by omega⟩⟩
  rw [wp_bind]
  refine wp_weaken (ip6ReassRemoveOldestDatagram_held found.reass.held ?_) ?_
  · intro empty
    have isFirst := found.first empty
    subst isFirst
    refine ⟨rfl, ipr, input.datagrams6.tail, ?_, empty⟩
    rw [← List.drop_one, ← isIpr, List.getElem_cons_drop, List.drop_zero]
  · intro spared next removed
    obtain ⟨place, rfl, isPlace, front⟩ := removed.spares r rfl inside
    rw [wp_bind, wp_get, wp_ite]
    have reass := found.reass.trans removed.reass
    refine ⟨fun fits => ⟨⟨reass, isPlace.trans found.found, ?_, ?_⟩, fits⟩, fun tooMany => ?_⟩
    · exact fun empty => front (found.first empty)
    · exact fun full => Nat.le_trans removed.shrinks (found.known full)
    · exact reass.weaken fun empty => tooMany (removed.room empty small)

/-! ## Putting a fragment into its datagram -/

/-- A chain that reassembly can take in, or has returned. -/
structure Chain.Small (p : Chain) : Prop where
  held : p.head.Held
  len : p.head.len < 65536
  clen : p.clen ≤ ipReassMaxPbufs

theorem putHelper_puts
    {input : IpInput}
    {p : Chain}
    (small : p.Small) :
    wp (putHelper p)
      (fun result next =>
        next = input ∧ result.1.clen = p.clen ∧ result.1.head.Held ∧
          result.1.head.len < 65536)
      headerFault input := by
  unfold putHelper
  cases added : p.addHeader ipv6FragReqroom with
  | none => exact show headerFault .noRoomHelper by decide
  | some q =>
      obtain ⟨tail, -, held, len⟩ := Chain.addHeader_moved small.held added
      refine ⟨rfl, congrArg (fun buffers => 1 + buffers.length) tail, ?_, len⟩
      exact Nat.le_trans held (length_le_overwrite _)

theorem chainFrags6_chains
    {input : IpInput}
    {p : Chain}
    {rest : List (Frag Chain)} :
    wp (chainFrags6 p rest)
      (fun q next =>
        next = input ∧ q.head = p.head ∧
          q.clen = p.clen + (rest.map fun frag => frag.buffer.clen).sum)
      headerFault input := by
  induction rest generalizing p with
  | nil => exact ⟨rfl, rfl, rfl⟩
  | cons frag rest inductionHypothesis =>
      rw [chainFrags6, wp_bind]
      refine wp_weaken pbufRemoveHeader_stops ?_
      rintro _ input ⟨rfl, -, rfl⟩
      rw [wp_bind]
      refine wp_weaken pbufRemoveHeader_stops ?_
      rintro _ input ⟨rfl, -, rfl⟩
      refine wp_weaken inductionHypothesis ?_
      rintro q next ⟨rfl, head, clen⟩
      refine ⟨rfl, head, ?_⟩
      rw [clen, List.map_cons, List.sum_cons]
      simp only [Chain.cat, Chain.clen, Chain.skip_tail, List.length_append, List.length_cons]
      omega

/-- The search ends: it passes bytes in every round, and stops behind the last. -/
theorem findFragmentNexth_stops
    {input : IpInput}
    {mem : Bytes}
    {rounds ptr : Nat}
    (more : 0 < rounds)
    (enough : mem.length < ptr + rounds) :
    wp (findFragmentNexth mem rounds ptr) (fun _ next => next = input) headerFault
      input := by
  induction rounds generalizing ptr with
  | zero => omega
  | succ rounds inductionHypothesis =>
      rw [findFragmentNexth, wp_ite]
      refine ⟨fun _ => show headerFault .outsidePacket by decide, fun _ => ?_⟩
      rw [wp_ite]
      refine ⟨fun _ => rfl, fun _ => ?_⟩
      rw [wp_ite]
      exact ⟨fun _ => show headerFault .outsidePacket by decide,
        fun _ => inductionHypothesis (by omega) (by omega)⟩

theorem rebuildHeaders_stops
    {input : IpInput}
    {ipr : Ip6Reassdata}
    {p : Chain}
    (held : p.head.Held) :
    wp (rebuildHeaders ipr p)
      (fun result next =>
        next = input ∧ result.1.tail = p.tail ∧ result.1.head.len = p.head.len ∧
          result.1.head.Held)
      headerFault input := by
  unfold rebuildHeaders
  rw [wp_bind]
  refine wp_weaken headerDifference_stops ?_
  rintro difference input rfl
  dsimp only
  rw [wp_bind]
  refine @wp_weaken _ _ _ _ _ _ _ (fun _ next => next = input) ?_ ?_
  · unfold fragmentNexthAt
    rw [wp_ite]
    exact ⟨fun _ => rfl, fun _ => findFragmentNexth_stops (Nat.succ_pos _) (by omega)⟩
  · rintro nexthAt _ rfl
    refine ⟨rfl, rfl, rfl, ?_⟩
    exact Nat.le_trans held
      ((length_le_overwrite _).trans
        ((length_le_overwrite _).trans (length_le_overwrite _)))

/-- A datagram that is complete leaves the list with all its buffers. -/
theorem finishDatagram6_held
    {start input : IpInput}
    {r : Nat}
    {ipr : Ip6Reassdata}
    (reass : Reass6 start False input)
    (found : input.datagrams6[r]? = some ipr) :
    wp (finishDatagram6 r ipr)
      (fun p next =>
        Reass6 start False next ∧ p.Small ∧
          next.datagrams6.length < input.datagrams6.length)
      headerFault input := by
  obtain ⟨inside, isIpr⟩ := List.getElem?_eq_some_iff.mp found
  have kept := reass.held.sound ipr (isIpr ▸ List.getElem_mem inside)
  have cost := reass.held.cost_le inside
  have budget := reass.held.budget
  have erased := (reass.held.erase inside).weaken And.left
  have shorter := List.length_eraseIdx_of_lt inside
  rw [isIpr] at cost erased
  unfold finishDatagram6
  cases frags : ipr.frags with
  | nil =>
      exact (reass.held.paid r ipr found (ipr.clen_eq_zero_iff.mpr frags)).2.elim
  | cons first rest =>
      have clen : ipr.clen = first.buffer.clen +
          (rest.map fun frag => frag.buffer.clen).sum := by
        rw [Ip6Reassdata.clen, frags, List.map_cons, List.sum_cons]
      have held := kept.held first (by rw [frags]; exact List.mem_cons_self)
      have small := kept.small first (by rw [frags]; exact List.mem_cons_self)
      dsimp only
      rw [wp_bind]
      refine wp_weaken chainFrags6_chains ?_
      rintro p input ⟨rfl, head, clenP⟩
      rw [← clen] at clenP
      rw [wp_bind]
      refine wp_weaken pbufRemoveHeader_stops ?_
      rintro _ input ⟨rfl, fits, rfl⟩
      rw [wp_bind]
      refine wp_weaken (rebuildHeaders_stops ?_) ?_
      · apply PBuf.Held.skip _ fits
        rw [← head] at held
        exact Nat.le_trans held (length_le_overwrite _)
      · rintro ⟨q, iphdrPtr⟩ input ⟨rfl, tail, len, heldQ⟩
        have clenQ : q.clen = ipr.clen := by
          rw [← clenP]
          exact congrArg (fun buffers => 1 + buffers.length) tail
        have smallQ : q.head.len < 65536 := by
          rw [len, Chain.skip_head, PBuf.skip_len]
          rw [← head] at small
          dsimp only
          omega
        dsimp only
        rw [wp_bind, wp_modify, wp_bind, wp_get, wp_bind, wp_ensure, clenQ]
        refine ⟨fun _ => ?_, fun less => absurd cost (of_decide_eq_false less)⟩
        rw [wp_bind, wp_set, wp_bind]
        refine wp_weaken (pbufHeaderForce_stops heldQ smallQ) ?_
        rintro moved _ ⟨rfl, moves⟩
        cases moved with
        | none => exact show headerFault .reassHeader by decide
        | some last =>
            obtain ⟨tailLast, heldLast, smallLast⟩ := moves last rfl
            refine ⟨⟨?_, erased⟩, ⟨heldLast, smallLast, ?_⟩, by dsimp only; omega⟩
            · rw [reass.only]
            · have clenLast : last.clen = q.clen :=
                congrArg (fun buffers => 1 + buffers.length) tailLast
              omega

/-- A chain that reassembly has returned for a fragment: the datagram it
completed was known before. -/
structure Returned6 (start : IpInput) (p : Chain) (next : IpInput) : Prop where
  small : p.Small
  fewer : next.datagrams6.length < start.datagrams6.length

theorem enqueueFragment6_held
    {start input : IpInput}
    {ipr : Ip6Reassdata}
    {frag : Fragment6}
    {p : Chain}
    {r : Nat}
    (found : Found6 start ipr r input)
    (room : input.pbufcount6 + p.clen ≤ ipReassMaxPbufs)
    (small : p.Small)
    (notWhole : frag.start = 0 → frag.more = true) :
    wp (enqueueFragment6 frag p r)
      (fun result next =>
        Reass6 start False next ∧ ∀ q, result = some q → Returned6 start q next)
      headerFault input := by
  obtain ⟨inside, isIpr⟩ := List.getElem?_eq_some_iff.mp found.found
  have held := found.reass.held
  have kept := held.sound ipr (isIpr ▸ List.getElem_mem inside)
  rw [enqueueFragment6, wp_bind, wp_get, found.found]
  dsimp only
  rw [wp_bind]
  refine wp_weaken (putHelper_puts small) ?_
  rintro ⟨buffer, covered⟩ input ⟨rfl, clen, heldBuffer, smallBuffer⟩
  dsimp only at clen heldBuffer smallBuffer ⊢
  generalize (frag.start + frag.len) % 65536 = stop
  cases placed : place false ⟨frag.start, stop, buffer⟩ none true ipr.frags with
  | none =>
      refine ⟨found.reass.weaken fun empty => ?_, by simp⟩
      rw [empty] at placed
      cases placed
  | some placement =>
      have ordered : placement.ordered = true := place_ordered placed (by simp)
      dsimp only
      rw [wp_bind, wp_ensure]
      refine ⟨fun _ => ?_, fun disordered => ?_⟩
      · generalize stored : (if frag.more = true then _ else _ : Ip6Reassdata) = next
        have shape :
            next.frags = placement.chain ∧ next.timer = ipr.timer ∧
              (frag.more = true → next.datagramLen = ipr.datagramLen) := by
          rw [← stored]
          by_cases more : frag.more = true
          · rw [if_pos more]
            by_cases first : frag.start = 0
            · rw [if_pos first]
              exact ⟨rfl, rfl, fun _ => rfl⟩
            · rw [if_neg first]
              exact ⟨rfl, rfl, fun _ => rfl⟩
          · rw [if_neg more]
            by_cases first : frag.start = 0
            · rw [if_pos first]
              exact ⟨rfl, rfl, fun goesOn => absurd goesOn more⟩
            · rw [if_neg first]
              exact ⟨rfl, rfl, fun goesOn => absurd goesOn more⟩
        clear stored
        obtain ⟨frags, timer, datagramLen⟩ := shape
        have members := fun other => @mem_place _ _ _ _ _ _ _ placed other
        have clenNext : next.clen = ipr.clen + p.clen := by
          have sums := ((place_perm placed).map fun frag => frag.buffer.clen).sum_nat
          rw [Ip6Reassdata.clen, frags, sums, List.map_cons, List.sum_cons, clen,
            Nat.add_comm]
          rfl
        have full : next.frags ≠ [] := by
          rw [frags, ← List.length_pos_iff, place_length placed]
          exact Nat.succ_pos _
        have keptNext : next.Kept := by
          refine ⟨?_, ?_, ?_, by rw [timer]; exact kept.timer, fun empty => absurd empty full⟩
          · rw [frags]
            exact place_apart placed kept.apart
          · rw [frags]
            intro other member
            rcases (members other).mp member with isNew | before
            · rw [isNew]
              exact heldBuffer
            · exact kept.held other before
          · rw [frags]
            intro other member
            rcases (members other).mp member with isNew | before
            · rw [isNew]
              exact smallBuffer
            · exact kept.small other before
        have charged :
            Held6 False (input.datagrams6.set r next) (input.pbufcount6 + p.clen) := by
          apply held.charge inside found.first keptNext
          · rw [clenNext, isIpr]
          · rw [Ne, Ip6Reassdata.clen_eq_zero_iff]
            exact full
          · exact room
        have reass :
            Reass6 start False {
              input with
              datagrams6 := input.datagrams6.set r next
              pbufcount6 := input.pbufcount6 + p.clen } := by
          refine ⟨?_, charged⟩
          rw [found.reass.only]
        rw [wp_bind, wp_modify, wp_ite]
        refine ⟨fun valid => ?_, fun _ => ⟨reass, by simp⟩⟩
        -- the first fragment of a datagram never completes it
        have known : ipr.frags ≠ [] := by
          intro empty
          rw [empty] at placed
          obtain rfl := Option.some.inj placed
          simp only [List.head?_cons, Option.any_some, Bool.and_eq_true, beq_iff_eq,
            bne_iff_ne] at valid
          apply valid.1.2
          rw [datagramLen (notWhole valid.1.1.2), (kept.fresh empty).2]
        rw [wp_bind]
        refine wp_weaken (finishDatagram6_held reass (List.getElem?_set_self inside)) ?_
        rintro q last ⟨later, smallQ, fewer⟩
        refine ⟨later, fun other same => ?_⟩
        obtain rfl := Option.some.inj same
        dsimp only at fewer
        rw [List.length_set] at fewer
        exact ⟨smallQ, Nat.lt_of_lt_of_le fewer (found.known known)⟩
      · rw [ordered] at disordered
        cases disordered

/-- Reassembly is in order after a fragment that is not a whole datagram. -/
theorem ip6Reass_held
    {input : IpInput}
    {src dest : BitVec 128}
    {p : Chain}
    (held : Held6 False input.datagrams6 input.pbufcount6)
    (small : p.Small)
    (header : ip6FragHlen ≤ p.head.len)
    (fragment : wordAt (p.head.front ip6FragHlen) 2 &&& 0xfff9 ≠ 0) :
    wp (ip6Reass src dest p)
      (fun result next =>
        Reass6 input False next ∧ ∀ q, result = some q → Returned6 input q next)
      headerFault input := by
  unfold ip6Reass
  rw [wp_bind, wp_ensure]
  refine ⟨fun _ => ?_, fun short => absurd header (of_decide_eq_false short)⟩
  dsimp only
  rw [wp_bind, wp_get, wp_bind]
  refine wp_weaken headerDifference_stops ?_
  rintro hdrdiff input rfl
  rw [wp_bind, wp_ensure]
  refine ⟨fun _ => ?_, fun _ => show headerFault .notValidPbuf by decide⟩
  rw [wp_bind, wp_ensure]
  refine ⟨fun _ => ?_, fun _ => show headerFault .notValidPbuf by decide⟩
  rw [wp_ite]
  refine ⟨fun _ => ⟨.refl held, by simp⟩, fun _ => ?_⟩
  rw [wp_bind]
  refine wp_weaken (findDatagram6_held held _ p.clen) ?_
  intro found middle foundHeld
  cases found with
  | none => exact ⟨foundHeld, by simp⟩
  | some r =>
      obtain ⟨ipr, isFound⟩ := foundHeld
      dsimp only
      rw [wp_bind]
      refine wp_weaken (roomForFragment6_held isFound small.clen) ?_
      intro room next roomHeld
      cases room with
      | none => exact ⟨roomHeld, by simp⟩
      | some r =>
          apply enqueueFragment6_held roomHeld.1 roomHeld.2 small
          intro zero
          dsimp only at zero ⊢
          rw [← Bool.not_eq_false, bne_eq_false_iff_eq]
          intro last
          apply fragment
          have both : (0xfff9 : BitVec 16) = 0xfff8 ||| 1 := rfl
          rw [both, BitVec.and_or_distrib_left]
          exact BitVec.or_eq_zero_iff.mpr ⟨BitVec.eq_of_toNat_eq zero, last⟩

/-! ## The extension headers -/

/-- Only what IPv6 input may change has changed since `start`, and its
reassembly is in order. -/
structure Input6 (start next : IpInput) : Prop where
  only :
    next = {
      start with
      datagrams6 := next.datagrams6
      pbufcount6 := next.pbufcount6
      currentIp6Header := next.currentIp6Header
      reassembled := next.reassembled }
  held : Held6 False next.datagrams6 next.pbufcount6

theorem Input6.refl
    {input : IpInput}
    (held : Held6 False input.datagrams6 input.pbufcount6) :
    Input6 input input :=
  ⟨rfl, held⟩

theorem Input6.trans
    {start middle next : IpInput}
    (first : Input6 start middle)
    (second : Input6 middle next) :
    Input6 start next := by
  refine ⟨?_, second.held⟩
  rw [second.only, first.only]

theorem Input6.of_reass
    {start next : IpInput}
    (reass : Reass6 start False next) :
    Input6 start next := by
  refine ⟨?_, reass.held⟩
  rw [reass.only]

theorem Input6.slack
    {start next : IpInput}
    (input : Input6 start next) :
    next.slack = start.slack := by
  rw [input.only]

section Headers

variable {input : IpInput}

theorem readOption_reads
    {p : PBuf}
    {hlen index : Nat}
    (memory : input.slack.isSome) :
    wp (readOption p hlen index) (fun _ next => next = input) headerFault input := by
  rw [readOption, wp_bind, wp_get, wp_ite]
  refine ⟨fun outside => ?_, fun _ => wp_readByte_anywhere memory fun _ _ => rfl⟩
  rw [Option.isNone_iff_eq_none] at outside
  rw [outside.2] at memory
  cases memory

theorem walkOptions_stops
    {known : List UInt8}
    {multicast : Bool}
    {p : PBuf}
    {hlen rounds optOffset : Nat}
    (memory : input.slack.isSome)
    (enough : hlen < optOffset + rounds)
    (more : 0 < rounds) :
    wp (walkOptions known multicast p hlen rounds optOffset)
      (fun _ next => next = input) headerFault input := by
  induction rounds generalizing optOffset with
  | zero => omega
  | succ rounds inductionHypothesis =>
      unfold walkOptions
      rw [wp_ite]
      refine ⟨fun inside => ?_, fun _ => rfl⟩
      rw [wp_bind]
      refine wp_weaken (readOption_reads memory) ?_
      rintro type input rfl
      rw [wp_ite]
      refine ⟨fun _ => inductionHypothesis (by omega) (by omega), fun _ => ?_⟩
      rw [wp_ite]
      refine ⟨fun _ => ?_, fun _ => ?_⟩
      · rw [wp_bind]
        refine wp_weaken (readOption_reads memory) ?_
        rintro dlen input rfl
        exact inductionHypothesis (by omega) (by omega)
      · rw [wp_ite]
        exact ⟨fun _ => rfl, fun _ => rfl⟩

/-- A header that was passed: the packet now begins behind it. -/
structure Passed (walk next : Ip6Walk) (size : Nat) : Prop where
  atLeast : 8 ≤ size
  fits : size ≤ walk.p.head.len
  packet : next.p = walk.p.skip size

theorem optionsHeader_stops
    {known : List UInt8}
    {dest : BitVec 128}
    {walk : Ip6Walk}
    (memory : input.slack.isSome) :
    wp (optionsHeader known dest walk)
      (fun result next =>
        next = input ∧ ∀ later, result = some later → ∃ size, Passed walk later size)
      headerFault input := by
  unfold optionsHeader
  dsimp only
  rw [wp_bind]
  refine wp_readByte_anywhere memory fun ext _ => ?_
  rw [wp_ite]
  refine ⟨fun _ => ⟨rfl, by simp⟩, fun fits => ?_⟩
  rw [wp_bind]
  refine wp_weaken (walkOptions_stops memory (by omega) (by omega)) ?_
  rintro kept input rfl
  rw [wp_ite]
  refine ⟨fun _ => ?_, fun _ => ⟨rfl, by simp⟩⟩
  rw [wp_bind]
  refine wp_readByte_anywhere memory fun nexth _ => ?_
  rw [wp_bind]
  refine wp_weaken pbufRemoveHeader_stops ?_
  rintro _ input ⟨rfl, enough, rfl⟩
  refine ⟨rfl, fun later same => ⟨8 * (1 + ext.toNat), by omega, enough, ?_⟩⟩
  rw [← Option.some.inj same]

theorem routingHeader_stops
    {walk : Ip6Walk}
    (memory : input.slack.isSome) :
    wp (routingHeader walk)
      (fun result next =>
        next = input ∧ ∀ later, result = some later → ∃ size, Passed walk later size)
      headerFault input := by
  unfold routingHeader
  dsimp only
  rw [wp_bind]
  refine wp_readByte_anywhere memory fun ext _ => ?_
  rw [wp_ite]
  refine ⟨fun _ => ⟨rfl, by simp⟩, fun fits => ?_⟩
  rw [wp_bind]
  refine wp_readByte_anywhere memory fun segmentsLeft _ => ?_
  rw [wp_bind]
  refine wp_readByte_anywhere memory fun type _ => ?_
  rw [wp_ite]
  refine ⟨fun _ => ?_, fun _ => ?_⟩
  · rw [wp_bind]
    exact ⟨rfl, by simp⟩
  · rw [wp_bind]
    refine wp_readByte_anywhere memory fun nexth _ => ?_
    rw [wp_bind]
    refine wp_weaken pbufRemoveHeader_stops ?_
    rintro _ input ⟨rfl, enough, rfl⟩
    refine ⟨rfl, fun later same => ⟨8 * (1 + ext.toNat), by omega, enough, ?_⟩⟩
    rw [← Option.some.inj same]

/-- How many headers may still be passed: 8192 for each datagram that can be
completed, and one for every 8 bytes of the packet. -/
def walkMeasure (input : IpInput) (walk : Ip6Walk) : Nat :=
  input.datagrams6.length * 8192 + walk.p.head.len / 8

/-- A header was processed, and less remains to be done. -/
structure Stepped (start : IpInput) (walk later : Ip6Walk) (next : IpInput) : Prop where
  small : later.p.Small
  less : walkMeasure next later < walkMeasure start walk

theorem Passed.stepped
    {walk later : Ip6Walk}
    {size : Nat}
    (passed : Passed walk later size)
    (small : walk.p.Small) :
    Stepped input walk later input := by
  obtain ⟨atLeast, fits, packet⟩ := passed
  have len := small.len
  refine ⟨?_, ?_⟩
  · rw [packet]
    refine ⟨small.held.skip fits, ?_, small.clen⟩
    rw [Chain.skip_head, PBuf.skip_len]
    omega
  · rw [walkMeasure, walkMeasure, packet, Chain.skip_head, PBuf.skip_len]
    omega

theorem fragmentHeader_stops
    {src dest : BitVec 128}
    {walk : Ip6Walk}
    (memory : input.slack.isSome)
    (held : Held6 False input.datagrams6 input.pbufcount6)
    (small : walk.p.Small) :
    wp (fragmentHeader src dest walk)
      (fun result next =>
        Input6 input next ∧ ∀ later, result = some later → Stepped input walk later next)
      headerFault input := by
  have hlen : ip6FragHlen = 8 := rfl
  unfold fragmentHeader
  dsimp only
  rw [wp_ite]
  refine ⟨fun _ => ⟨.refl held, by simp⟩, fun fits => ?_⟩
  rw [wp_bind]
  refine wp_readWord_anywhere memory fun offset offsetAt => ?_
  have isOffset : offset = wordAt (walk.p.head.front ip6FragHlen) 2 := by
    have bound : walk.p.head.payload + walk.p.head.len ≤ walk.p.head.mem.length :=
      small.held
    rw [offsetAt (by omega), PBuf.front, wordAt_take (by decide), wordAt_drop]
  rw [wp_ite]
  refine ⟨fun _ => ?_, fun _ => ?_⟩
  · rw [wp_bind]
    exact ⟨.refl held, by simp⟩
  · rw [wp_ite]
    refine ⟨fun _ => ?_, fun fragment => ?_⟩
    · rw [wp_bind]
      refine wp_readByte_anywhere memory fun nexth _ => ?_
      rw [wp_bind]
      refine wp_weaken pbufRemoveHeader_stops ?_
      rintro _ input ⟨rfl, enough, rfl⟩
      refine ⟨.refl held, fun later same => ?_⟩
      have passed : Passed walk later ip6FragHlen :=
        ⟨Nat.le_refl _, enough, by rw [← Option.some.inj same]⟩
      exact passed.stepped small
    · rw [wp_bind]
      refine wp_weaken
        (ip6Reass_held held small (by omega) (by rwa [← isOffset])) ?_
      rintro result next ⟨reass, returns⟩
      cases result with
      | none => exact ⟨.of_reass reass, by simp⟩
      | some p =>
          obtain ⟨smallP, fewer⟩ := returns p rfl
          have memoryNext : next.slack.isSome := by
            rw [reass.only]
            exact memory
          dsimp only
          rw [wp_bind]
          refine wp_readWord_anywhere memoryNext fun plen _ => ?_
          rw [wp_bind]
          refine wp_readByte_anywhere memoryNext fun nexth _ => ?_
          rw [wp_bind, wp_modify, wp_bind]
          refine wp_weaken pbufRemoveHeader_stops ?_
          rintro _ _ ⟨rfl, enough, rfl⟩
          refine ⟨⟨?_, reass.held⟩, fun later same => ?_⟩
          · rw [reass.only]
          · obtain rfl := Option.some.inj same
            have len := smallP.len
            refine ⟨⟨smallP.held.skip enough, ?_, smallP.clen⟩, ?_⟩
            · rw [Chain.skip_head, PBuf.skip_len]
              omega
            · rw [walkMeasure, walkMeasure, Chain.skip_head, PBuf.skip_len]
              dsimp only
              omega

theorem extensionHeader_stops
    {src dest : BitVec 128}
    {walk : Ip6Walk}
    (memory : input.slack.isSome)
    (held : Held6 False input.datagrams6 input.pbufcount6)
    (small : walk.p.Small) :
    wp (extensionHeader src dest walk)
      (fun result next =>
        Input6 input next ∧ ∀ later, result = some later → Stepped input walk later next)
      headerFault input := by
  -- a header that is only passed
  have passes
      {computation : IpM (Option Ip6Walk)}
      (stops :
        wp computation
          (fun result next =>
            next = input ∧ ∀ later, result = some later → ∃ size, Passed walk later size)
          headerFault input) :
      wp computation
        (fun result next =>
          Input6 input next ∧ ∀ later, result = some later → Stepped input walk later next)
        headerFault input := by
    refine wp_weaken stops ?_
    rintro result next ⟨rfl, passed⟩
    refine ⟨.refl held, fun later same => ?_⟩
    obtain ⟨size, isPassed⟩ := passed later same
    exact isPassed.stepped small
  unfold extensionHeader
  rw [wp_ite]
  refine ⟨fun _ => passes (optionsHeader_stops memory), fun _ => ?_⟩
  rw [wp_ite]
  refine ⟨fun _ => passes (optionsHeader_stops memory), fun _ => ?_⟩
  rw [wp_ite]
  exact ⟨fun _ => passes (routingHeader_stops memory),
    fun _ => fragmentHeader_stops memory held small⟩

/-- The loop ends: every header passed leaves less to be done. -/
theorem walkHeaders_stops
    {src dest : BitVec 128}
    {rounds : Nat}
    {walk : Ip6Walk}
    (memory : input.slack.isSome)
    (held : Held6 False input.datagrams6 input.pbufcount6)
    (small : walk.p.Small)
    (enough : walkMeasure input walk < rounds) :
    wp (walkHeaders src dest rounds walk) (fun _ next => Input6 input next) headerFault
      input := by
  induction rounds generalizing input walk with
  | zero => omega
  | succ rounds inductionHypothesis =>
      rw [walkHeaders, wp_ite]
      refine ⟨fun _ => ?_, fun _ => .refl held⟩
      rw [wp_bind]
      refine wp_weaken (extensionHeader_stops memory held small) ?_
      rintro result next ⟨changed, steps⟩
      cases result with
      | none => exact changed
      | some later =>
          obtain ⟨smallLater, less⟩ := steps later rfl
          dsimp only
          rw [wp_ite]
          refine ⟨fun _ => ?_, fun _ => ?_⟩
          · rw [wp_bind]
            exact changed
          · have memoryNext : next.slack.isSome := by
              rw [changed.slack]
              exact memory
            exact wp_weaken
              (inductionHypothesis memoryNext changed.held smallLater (by omega))
              fun _ last later => changed.trans later

/-! ## `ip6_input` -/

theorem ip6Deliver_stops
    {src dest : BitVec 128}
    {walk : Ip6Walk} :
    wp (ip6Deliver src dest walk) (fun _ next => next = input) headerFault input := by
  unfold ip6Deliver showHeaders
  rw [wp_bind]
  refine wp_weaken pbufRemoveHeader_stops ?_
  rintro p input ⟨rfl, -, -⟩
  simp only [icmp6ParamProblem, wp_ite, wp_pure, wp_bind, implies_true,
    true_and]

theorem wp_readAddr_anywhere
    {p : PBuf}
    {index : Nat}
    {post : BitVec 128 → IpInput → Prop}
    {allowed : IpFault → Prop}
    (memory : input.slack.isSome)
    (read : ∀ addr, post addr input) :
    wp (readAddr p index) post allowed input := by
  simp only [readAddr, wp_bind]
  refine wp_readLong_anywhere memory fun first _ => ?_
  refine wp_readLong_anywhere memory fun second _ => ?_
  refine wp_readLong_anywhere memory fun third _ => ?_
  refine wp_readLong_anywhere memory fun fourth _ => ?_
  exact read _

theorem ip6Input_stops
    {p : PBuf}
    (memory : input.slack.isSome)
    (held : Held6 False input.datagrams6 input.pbufcount6)
    (bounds : p.Held)
    (small : p.len < 65536) :
    wp (ip6Input p) (fun _ next => Input6 input next) headerFault input := by
  have nothing :
      wp (pure none : IpM (Option Upward)) (fun _ next => Input6 input next) headerFault
        input :=
    .refl held
  rw [ip6Input, wp_bind]
  refine wp_readLong_anywhere memory fun vTcFl _ => ?_
  rw [wp_ite]
  refine ⟨fun _ => nothing, fun _ => ?_⟩
  rw [wp_bind]
  refine wp_readWord_anywhere memory fun plen _ => ?_
  rw [wp_ite]
  refine ⟨fun _ => nothing, fun whole => ?_⟩
  have cutHeld : (p.realloc (ip6Hlen + plen.toNat)).Held := by
    unfold PBuf.Held PBuf.realloc at *
    split
    · exact bounds
    · dsimp only
      omega
  have cutSmall : (p.realloc (ip6Hlen + plen.toNat)).len < 65536 := by
    rw [PBuf.realloc]
    split
    · exact small
    · dsimp only
      omega
  dsimp only
  generalize p.realloc (ip6Hlen + plen.toNat) = cut at cutHeld cutSmall ⊢
  rw [wp_bind]
  refine wp_readAddr_anywhere memory fun dest => ?_
  rw [wp_bind]
  refine wp_readAddr_anywhere memory fun src => ?_
  rw [wp_ite]
  refine ⟨fun _ => nothing, fun _ => ?_⟩
  have current (hdr : Ip6HdrPtr) :
      Input6 input { input with currentIp6Header := hdr } :=
    ⟨rfl, held⟩
  rw [wp_bind, wp_modify, wp_bind, wp_get, wp_ite]
  refine ⟨fun _ => current _, fun _ => ?_⟩
  rw [wp_bind]
  refine wp_readByte_anywhere memory fun nexth _ => ?_
  rw [wp_bind]
  refine wp_weaken pbufRemoveHeader_stops ?_
  rintro _ _ ⟨rfl, fits, rfl⟩
  rw [wp_bind]
  refine wp_weaken (walkHeaders_stops memory held ?_ ?_) ?_
  · refine ⟨cutHeld.skip fits, ?_, show 1 ≤ ipReassMaxPbufs by decide⟩
    rw [Chain.skip_head, PBuf.skip_len]
    exact Nat.lt_of_le_of_lt (Nat.sub_le _ _) cutSmall
  · have pool := held.pool
    have slots : mempNumReassdata = 5 := rfl
    rw [walkMeasure, walkRounds, Chain.skip_head, PBuf.skip_len]
    dsimp only
    omega
  · intro result next walked
    have changed := (current _).trans walked
    cases result with
    | none => exact changed
    | some walk =>
        refine wp_weaken ip6Deliver_stops ?_
        rintro _ next rfl
        exact changed

end Headers

end NetstackLwip

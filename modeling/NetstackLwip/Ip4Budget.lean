import NetstackLwip.BudgetedPool
import NetstackLwip.Ip4RoundTrip

namespace NetstackLwip

/-!
# IPv4 reassembly within its budget

The datagrams being reassembled are entries of the pool of `ip_reassdata`, and
`ip_reass_pbufcount` counts the buffers they hold. Every function of the
reassembly keeps the count exact and within `IP_REASS_MAX_PBUFS`, and none of
its assertions fails.
-/

open FaultState FragmentChain BudgetedPool

/-- No fault is allowed. -/
def noFault (_ : IpFault) : Prop :=
  False

/-- What holds of every datagram being reassembled. -/
structure Ip4Reassdata.Kept (ipr : Ip4Reassdata) : Prop where
  apart : Apart ipr.frags
  headers : ∀ frag ∈ ipr.frags, frag.buffer.Held ∧ ipHlen ≤ frag.buffer.len
  timer : ipr.timer ≤ ipReassMaxage
  fresh : ipr.frags = [] → ipr.lastFrag = false

/-- The datagrams and their count; while a fragment is put into its datagram
the first one may hold none. -/
abbrev Held4 (vacant : Prop) (datagrams : List Ip4Reassdata) (count : Nat) : Prop :=
  Pool (fun ipr => ipr.frags.length) Ip4Reassdata.Kept ipReassMaxPbufs
    mempNumReassdata vacant datagrams count

/-- Only the IPv4 reassembly has changed since `start`, and it is in order. -/
structure Reass4 (start : IpInput) (vacant : Prop) (next : IpInput) : Prop where
  only :
    next = {
      start with
      datagrams4 := next.datagrams4
      pbufcount4 := next.pbufcount4 }
  held : Held4 vacant next.datagrams4 next.pbufcount4

theorem Reass4.refl
    {input : IpInput}
    {vacant : Prop}
    (held : Held4 vacant input.datagrams4 input.pbufcount4) :
    Reass4 input vacant input :=
  ⟨rfl, held⟩

theorem Reass4.trans
    {start middle next : IpInput}
    {before after : Prop}
    (first : Reass4 start before middle)
    (second : Reass4 middle after next) :
    Reass4 start after next := by
  refine ⟨?_, second.held⟩
  rw [second.only, first.only]

theorem Reass4.weaken
    {start next : IpInput}
    {vacant weaker : Prop}
    (reass : Reass4 start vacant next)
    (implies : vacant → weaker) :
    Reass4 start weaker next :=
  ⟨reass.only, reass.held.weaken implies⟩

/-! ## Freeing a datagram -/

/-- The datagram before the one at an index. -/
def prevIndex (ipr : Nat) : Option Nat :=
  if ipr = 0 then none else some (ipr - 1)

theorem prevIndex_succ (ipr : Nat) : prevIndex (ipr + 1) = some ipr := by
  rw [prevIndex, if_neg (by omega), Nat.add_sub_cancel]

section Free

variable {input : IpInput} {vacant : Prop}

theorem countFreed_counts
    {freed left : Nat}
    (small : freed + left ≤ 0xffff) :
    wp (countFreed freed left) (fun total next => total = freed + left ∧ next = input)
      noFault input := by
  induction left generalizing freed with
  | zero => exact ⟨rfl, rfl⟩
  | succ left inductionHypothesis =>
      rw [countFreed, wp_bind, wp_ensure]
      refine ⟨fun _ => ?_, fun large => absurd large (by simp; omega)⟩
      refine wp_weaken (inductionHypothesis (by omega)) ?_
      rintro total next ⟨rfl, rfl⟩
      exact ⟨by omega, rfl⟩

theorem ipReassDequeueDatagram_erases
    {ipr : Nat}
    {prev : Option Nat}
    (linked : ipr ≠ 0 → prev.isSome) :
    wp (ipReassDequeueDatagram ipr prev)
      (fun _ next => next = { input with datagrams4 := input.datagrams4.eraseIdx ipr })
      noFault input := by
  unfold ipReassDequeueDatagram
  by_cases first : ipr = 0
  · subst first
    simp
  · simp [first, linked first]

theorem ipReassFreeCompleteDatagram_frees
    (held : Held4 vacant input.datagrams4 input.pbufcount4)
    {ipr : Nat}
    (inside : ipr < input.datagrams4.length) :
    wp (ipReassFreeCompleteDatagram ipr (prevIndex ipr))
      (fun freed next =>
        freed = input.datagrams4[ipr].frags.length ∧
          next.pbufcount4 = input.pbufcount4 - freed ∧
          Reass4 input (vacant ∧ ipr ≠ 0) next)
      noFault input := by
  have cost := held.cost_le inside
  have budget := held.budget
  have limit : ipReassMaxPbufs = 10 := rfl
  have linked : ipr ≠ 0 → (prevIndex ipr).isSome := by
    intro behind
    rw [prevIndex, if_neg behind]
    rfl
  have different : (prevIndex ipr ≠ some ipr) := by
    unfold prevIndex
    split
    · simp
    · simp
      omega
  have follows : (prevIndex ipr).all (· + 1 == ipr) = true := by
    unfold prevIndex
    split
    · rfl
    · simp
      omega
  have frags : ((input.datagrams4[ipr]?.map Ip4Reassdata.frags).getD []) =
      input.datagrams4[ipr].frags := by
    rw [List.getElem?_eq_getElem inside]
    rfl
  unfold ipReassFreeCompleteDatagram
  rw [wp_bind, wp_ensure]
  refine ⟨fun _ => ?_, fun same => absurd same (by simpa using different)⟩
  rw [wp_bind, wp_ensure]
  refine ⟨fun _ => ?_, fun other => absurd other (by rw [follows]; simp)⟩
  rw [wp_bind, wp_get, frags, wp_bind]
  refine wp_weaken (countFreed_counts (by omega)) ?_
  rintro _ input ⟨rfl, rfl⟩
  rw [Nat.zero_add, wp_bind]
  refine wp_weaken (ipReassDequeueDatagram_erases linked) ?_
  rintro _ _ rfl
  rw [wp_bind, wp_ensure]
  refine ⟨fun _ => ?_, fun less => absurd less (by simpa using cost)⟩
  exact ⟨rfl, rfl, rfl, held.erase inside⟩

end Free

/-! ## The timer -/

theorem ipReassTmrFrom_held
    {input : IpInput}
    (held : Held4 False input.datagrams4 input.pbufcount4)
    (rounds r : Nat) :
    wp (ipReassTmrFrom rounds r (prevIndex r)) (fun _ next => Reass4 input False next)
      noFault input := by
  induction rounds generalizing r input with
  | zero => exact .refl held
  | succ rounds inductionHypothesis =>
      rw [ipReassTmrFrom, wp_bind, wp_get]
      cases found : input.datagrams4[r]? with
      | none => exact .refl held
      | some ipr =>
          obtain ⟨inside, isIpr⟩ := List.getElem?_eq_some_iff.mp found
          dsimp only
          rw [wp_ite]
          refine ⟨fun _ => ?_, fun _ => ?_⟩
          · -- the datagram keeps its fragments and ages
            have kept := held.sound ipr (isIpr ▸ List.getElem_mem inside)
            have timer := kept.timer
            have aged :
                Held4 False
                  (input.datagrams4.set r { ipr with timer := ipr.timer - 1 })
                  input.pbufcount4 := by
              apply held.replace inside
              · exact ⟨kept.apart, kept.headers, by dsimp only; omega, kept.fresh⟩
              · rw [isIpr]
            rw [wp_bind, wp_set, ← prevIndex_succ]
            refine wp_weaken
              (@inductionHypothesis
                { input with
                  datagrams4 :=
                    input.datagrams4.set r { ipr with timer := ipr.timer - 1 } }
                aged (r + 1)) ?_
            exact fun _ next reass => Reass4.trans ⟨rfl, aged⟩ reass
          · rw [wp_bind]
            refine wp_weaken (ipReassFreeCompleteDatagram_frees held inside) ?_
            rintro freed middle ⟨-, -, reass⟩
            have reass := reass.weaken And.left
            exact wp_weaken (inductionHypothesis reass.held r) fun _ next later =>
              reass.trans later

theorem ipReassTmr_held
    {input : IpInput}
    (held : Held4 False input.datagrams4 input.pbufcount4) :
    wp ipReassTmr (fun _ next => Reass4 input False next) noFault input := by
  rw [ipReassTmr, wp_bind, wp_get]
  exact ipReassTmrFrom_held held input.datagrams4.length 0

/-! ## Making room -/

/-- What the search for the oldest datagram finds among `total` of them. -/
structure OldestOther.Found (found : OldestOther) (total : Nat) : Prop where
  place :
    ∀ index timer, found.oldest = some (index, timer) →
      index < total ∧ found.oldestPrev = prevIndex index
  others : found.oldest = none → found.others = 0

theorem findOldestOther_found
    (fraghdr : Bytes)
    {total r : Nat}
    {prev : Option Nat}
    {found : OldestOther}
    {rest : List Ip4Reassdata}
    (before : found.Found total)
    (here : rest ≠ [] → prev = prevIndex r)
    (room : r + rest.length ≤ total) :
    (findOldestOther fraghdr r prev found rest).Found total := by
  induction rest generalizing r prev found with
  | nil => exact before
  | cons ipr rest inductionHypothesis =>
      rw [List.length_cons] at room
      have prevHere := here (List.cons_ne_nil _ _)
      rw [findOldestOther]
      apply inductionHypothesis
      · split
        · exact before
        · split
          · refine ⟨?_, nofun⟩
            rintro index timer isOldest
            cases isOldest
            exact ⟨by omega, prevHere⟩
          · rename_i older
            refine ⟨before.place, ?_⟩
            intro absent
            rw [show found.oldest = none from absent] at older
            exact absurd rfl older
      · intro more
        rw [if_neg (by simpa using more), prevIndex_succ]
      · omega

theorem ipReassRemoveOldestDatagram_held
    {input : IpInput}
    (held : Held4 False input.datagrams4 input.pbufcount4)
    (fraghdr : Bytes) :
    wp (ipReassRemoveOldestDatagram fraghdr 1)
      (fun _ next => Reass4 input False next ∧ next.pbufcount4 ≤ input.pbufcount4)
      noFault input := by
  have found := @findOldestOther_found fraghdr input.datagrams4.length 0 none {}
    input.datagrams4 ⟨nofun, fun _ => rfl⟩ (fun _ => rfl) (by omega)
  rw [ipReassRemoveOldestDatagram, wp_bind, wp_get, removeOldestRounds, wp_bind, wp_get]
  generalize findOldestOther fraghdr 0 none {} input.datagrams4 = search at found
  obtain ⟨oldest, oldestPrev, others⟩ := search
  cases oldest with
  | none =>
      have alone : others = 0 := found.others rfl
      subst alone
      simp only [wp_bind, wp_pure, wp_ite]
      exact ⟨fun more => absurd more.2 (by omega), fun _ => ⟨.refl held, Nat.le_refl _⟩⟩
  | some oldest =>
      obtain ⟨index, timer⟩ := oldest
      obtain ⟨inside, isPrev⟩ := found.place index timer rfl
      have paid : input.datagrams4[index].frags.length ≠ 0 := by
        intro free
        exact (held.paid index _ (List.getElem?_eq_getElem inside) free).2
      dsimp only at isPrev ⊢
      rw [isPrev, wp_bind]
      refine wp_weaken (ipReassFreeCompleteDatagram_frees held inside) ?_
      rintro freed next ⟨rfl, count, reass⟩
      rw [wp_bind, wp_pure, wp_ite]
      -- every datagram holds a fragment, so one round frees enough
      refine ⟨fun more => absurd more.1 (by omega), fun _ => ?_⟩
      rw [wp_pure]
      exact ⟨reass.weaken And.left, by omega⟩

theorem roomForFragment_held
    {input : IpInput}
    (held : Held4 False input.datagrams4 input.pbufcount4)
    (fraghdr : Bytes) :
    wp (roomForFragment fraghdr)
      (fun room next =>
        Reass4 input False next ∧
          (room = true → next.pbufcount4 + 1 ≤ ipReassMaxPbufs))
      noFault input := by
  rw [roomForFragment, wp_bind, wp_get, wp_ite]
  refine ⟨fun _ => ?_, fun fits => ⟨.refl held, fun _ => by omega⟩⟩
  rw [wp_bind]
  refine wp_weaken (ipReassRemoveOldestDatagram_held held fraghdr) ?_
  rintro freed next ⟨reass, -⟩
  rw [wp_bind, wp_get, wp_pure]
  refine ⟨reass, fun room => ?_⟩
  exact (of_decide_eq_true room).2

/-! ## Finding the datagram of a fragment -/

/-- The datagram of a fragment is at `r`, where it may be new. -/
structure Found4 (start : IpInput) (r : Nat) (next : IpInput) : Prop where
  reass : Reass4 start (r = 0) next
  inside : r < next.datagrams4.length
  count : next.pbufcount4 ≤ start.pbufcount4

theorem ipReassEnqueueNewDatagram_held
    {input : IpInput}
    (held : Held4 False input.datagrams4 input.pbufcount4)
    (fraghdr : Bytes) :
    wp (ipReassEnqueueNewDatagram fraghdr)
      (fun room next =>
        if room then Found4 input 0 next else Reass4 input False next)
      noFault input := by
  -- the new datagram, once there is room for it
  have enqueues
      {middle : IpInput}
      (reass : Reass4 input False middle)
      (count : middle.pbufcount4 ≤ input.pbufcount4)
      (room : middle.datagrams4.length < mempNumReassdata) :
      Found4 input 0
        { middle with
          datagrams4 := { iphdr := fraghdr, timer := ipReassMaxage } :: middle.datagrams4 } := by
    refine ⟨⟨?_, ?_⟩, Nat.succ_pos _, count⟩
    · rw [reass.only]
    · refine (reass.held.push ?_ rfl room).weaken fun _ => rfl
      exact ⟨List.Pairwise.nil, by simp, Nat.le_refl _, fun _ => rfl⟩
  rw [ipReassEnqueueNewDatagram, reassdataFree]
  simp only [wp_bind, wp_get, wp_pure, wp_ite]
  refine ⟨fun free => ⟨fun _ => ?_, fun no => absurd trivial no⟩, fun _ => ?_⟩
  · exact enqueues (.refl held) (Nat.le_refl _) (of_decide_eq_true free)
  · refine wp_weaken (ipReassRemoveOldestDatagram_held held fraghdr) ?_
    rintro freed middle ⟨reass, count⟩
    refine ⟨fun _ => ⟨fun free => ?_, fun _ => reass⟩, fun _ =>
      ⟨fun yes => Bool.noConfusion yes, fun _ => reass⟩⟩
    exact enqueues reass count (of_decide_eq_true free)

theorem findDatagram_held
    {input : IpInput}
    (held : Held4 False input.datagrams4 input.pbufcount4)
    (fraghdr : Bytes) :
    wp (findDatagram fraghdr)
      (fun found next =>
        found.elim (Reass4 input False next) fun r => Found4 input r next)
      noFault input := by
  rw [findDatagram, wp_bind, wp_get]
  cases isAt : input.datagrams4.findIdx? fun ipr => ipAddressesAndIdMatch ipr.iphdr fraghdr with
  | none =>
      dsimp only
      rw [wp_bind]
      refine wp_weaken (ipReassEnqueueNewDatagram_held held fraghdr) ?_
      intro room next found
      cases room with
      | true => exact found
      | false => exact found
  | some r =>
      have inside := (List.findIdx?_eq_some_iff_getElem.mp isAt).1
      dsimp only
      rw [wp_bind, wp_modify, wp_pure]
      refine ⟨⟨rfl, ?_⟩, ?_, Nat.le_refl _⟩
      · -- only the copy of the header may change
        refine (held.modify r ?_ ?_).weaken False.elim
        · intro ipr kept
          split
          · exact ⟨kept.apart, kept.headers, kept.timer, kept.fresh⟩
          · exact kept
        · intro ipr
          split
          · rfl
          · rfl
      · rw [List.length_modify]
        exact inside

/-! ## Putting a fragment into its datagram -/

/-- What the validation leaves of a datagram to which a fragment was given. -/
structure Validated
    (ipr : Ip4Reassdata)
    (p : PBuf)
    (isLast : Bool)
    (next : Ip4Reassdata) : Prop where
  apart : Apart next.frags
  members : ∀ frag ∈ next.frags, frag.buffer = p ∨ frag ∈ ipr.frags
  length : next.frags.length = ipr.frags.length + 1
  timer : next.timer = ipr.timer

theorem validate_validated
    {input : IpInput}
    {ipr : Ip4Reassdata}
    {p : PBuf}
    {isLast : Bool}
    (kept : ipr.Kept)
    (fragment : wordAt (p.front 20) 6 &&& 0x3fff ≠ 0)
    (last : isLast = !iphMf (p.front 20)) :
    wp (ipReassChainFragIntoDatagramAndValidate ipr p isLast)
      (fun result next =>
        next = input ∧
          (result.1 ≠ .pbufDropped → Validated ipr p isLast result.2))
      noFault input := by
  have dropped :
      wp (pure (Validate.pbufDropped, ipr) : IpM (Validate × Ip4Reassdata))
        (fun result next =>
          next = input ∧
            (result.1 ≠ .pbufDropped → Validated ipr p isLast result.2))
        noFault input :=
    ⟨rfl, fun kept => absurd rfl kept⟩
  unfold ipReassChainFragIntoDatagramAndValidate
  rw [wp_ite]
  refine ⟨fun _ => dropped, fun _ => ?_⟩
  dsimp only
  rw [wp_ite]
  refine ⟨fun _ => dropped, fun _ => ?_⟩
  generalize stopped : (iphOffsetBytes (p.front 20) +
    ((wordAt (p.front 20) 2).toNat - iphHlBytes (p.front 20))) % 65536 = stop
  cases placed : place true ⟨iphOffsetBytes (p.front 20), stop, p⟩ none true ipr.frags with
  | none => exact dropped
  | some placement =>
      have validated :
          Validated ipr p isLast { ipr with frags := placement.chain } := by
        refine ⟨place_apart placed kept.apart, ?_, place_length placed, rfl⟩
        intro frag member
        rcases (mem_place placed).mp member with isNew | before
        · exact .inl (by rw [isNew])
        · exact .inr before
      have ordered : placement.ordered = true :=
        place_ordered placed (by simp)
      dsimp only
      rw [wp_bind, wp_ensure]
      refine ⟨fun _ => ?_, fun disordered => ?_⟩
      · rw [wp_ite]
        refine ⟨fun complete => ?_, fun _ => ⟨rfl, fun _ => validated⟩⟩
        rw [wp_bind, wp_ensure]
        refine ⟨fun _ => ⟨rfl, fun _ => validated⟩, fun single => ?_⟩
        -- a datagram of one fragment would not be a fragment
        have one : placement.chain.length = 1 + ipr.frags.length := by
          rw [place_length placed, Nat.add_comm]
        have empty : ipr.frags = [] := by
          rw [← List.length_eq_zero_iff]
          have := of_decide_eq_false single
          omega
        rw [empty] at placed
        obtain rfl := Option.some.inj placed
        simp only [kept.fresh empty, last, List.head?_cons, Option.any_some, Bool.and_eq_true,
          Bool.or_false, Bool.not_eq_true', beq_iff_eq, iphMf, iphOffsetBytes, bne_eq_false_iff_eq]
          at complete
        apply fragment
        rw [offsetField_eq_zero_iff]
        refine ⟨?_, complete.1.1.1⟩
        apply BitVec.eq_of_toNat_eq
        exact (Nat.mul_eq_zero.mp complete.1.2).resolve_right (by decide)
      · rw [ordered] at disordered
        cases disordered

theorem dropFragment_held
    {start input : IpInput}
    {r : Nat}
    (found : Found4 start r input) :
    wp (dropFragment r)
      (fun result next => result = none ∧ Reass4 start False next) noFault input := by
  have inside := found.inside
  have held := found.reass.held
  rw [dropFragment, wp_bind, wp_get, List.getElem?_eq_getElem inside, wp_ite]
  refine ⟨fun empty => ?_, fun full => ?_⟩
  · have fragless : input.datagrams4[r].frags.length = 0 := by
      rw [Option.some.inj empty]
      rfl
    have first : r = 0 :=
      (held.paid r _ (List.getElem?_eq_getElem inside) fragless).1
    subst first
    have unfilled (vacant : 0 = 0 ∧ 0 ≠ 0) : False := vacant.2 rfl
    have erased := (held.erase inside).weaken unfilled
    rw [fragless, Nat.sub_zero] at erased
    simp only [wp_bind, wp_ensure, ipReassDequeueDatagram, wp_ite, wp_modify, wp_pure]
    refine ⟨fun _ => ⟨fun other => absurd rfl other, fun _ => ⟨trivial, ?_, erased⟩⟩, ?_⟩
    · rw [found.reass.only]
    · intro other
      cases other
  · refine ⟨rfl, found.reass.only, ?_⟩
    apply held.settle id (List.getElem?_eq_getElem inside)
    intro fragless
    exact full (congrArg some (List.length_eq_zero_iff.mp fragless))

theorem releaseDatagram_held
    {start input : IpInput}
    {r : Nat}
    {p : Chain}
    (reass : Reass4 start False input)
    (inside : r < input.datagrams4.length)
    (clen : p.clen = input.datagrams4[r].frags.length) :
    wp (releaseDatagram r p)
      (fun result next => result = some p ∧ Reass4 start False next) noFault input := by
  have cost := reass.held.cost_le inside
  have linked : r ≠ 0 → (if r = 0 then none else some (r - 1)).isSome := by
    intro behind
    rw [if_neg behind]
    rfl
  rw [releaseDatagram, wp_bind]
  refine wp_weaken (ipReassDequeueDatagram_erases linked) ?_
  rintro _ _ rfl
  rw [wp_bind, wp_get, wp_bind, wp_ensure]
  refine ⟨fun _ => ?_, fun less => absurd less (by simpa [clen] using cost)⟩
  rw [wp_bind, wp_set, wp_pure]
  refine ⟨rfl, ?_, ?_⟩
  · rw [reass.only]
  · dsimp only
    rw [clen]
    exact (reass.held.erase inside).weaken And.left

theorem finishDatagram_held
    {start input : IpInput}
    {r : Nat}
    {ipr : Ip4Reassdata}
    (reass : Reass4 start False input)
    (found : input.datagrams4[r]? = some ipr) :
    wp (finishDatagram r ipr)
      (fun result next =>
        Reass4 start False next ∧
          ∀ p, result = some p → p.head.Held ∧ ipHlen ≤ p.head.len)
      noFault input := by
  obtain ⟨inside, isIpr⟩ := List.getElem?_eq_some_iff.mp found
  have kept := reass.held.sound ipr (isIpr ▸ List.getElem_mem inside)
  cases frags : ipr.frags with
  | nil =>
      have paid := (reass.held.paid r ipr found (by rw [frags]; rfl)).2
      exact paid.elim
  | cons first rest =>
      have headers := kept.headers
      rw [frags] at headers
      simp only [finishDatagram, frags, wp_bind]
      refine wp_chainFrags
        (fun frag member => (headers frag (List.mem_cons_of_mem _ member)).2) ?_
      refine wp_weaken (releaseDatagram_held reass inside ?_) ?_
      · rw [isIpr, frags, Chain.clen, List.nil_append, List.length_map, List.length_cons,
          Nat.add_comm]
      · rintro result next ⟨rfl, later⟩
        refine ⟨later, fun p same => ?_⟩
        obtain rfl := Option.some.inj same
        obtain ⟨held, long⟩ := headers first List.mem_cons_self
        exact ⟨Nat.le_trans held (length_le_overwrite _), long⟩

theorem enqueueFragment_held
    {start input : IpInput}
    {r : Nat}
    {p : PBuf}
    (found : Found4 start r input)
    (room : input.pbufcount4 + 1 ≤ ipReassMaxPbufs)
    (header : p.Held ∧ ipHlen ≤ p.len)
    (fragment : wordAt (p.front 20) 6 &&& 0x3fff ≠ 0) :
    wp (enqueueFragment r p)
      (fun result next =>
        Reass4 start False next ∧
          ∀ p, result = some p → p.head.Held ∧ ipHlen ≤ p.head.len)
      noFault input := by
  have inside := found.inside
  have held := found.reass.held
  have drops :
      wp (dropFragment r)
        (fun result next =>
          Reass4 start False next ∧
            ∀ p, result = some p → p.head.Held ∧ ipHlen ≤ p.head.len)
        noFault input := by
    refine wp_weaken (dropFragment_held found) ?_
    rintro result next ⟨rfl, later⟩
    exact ⟨later, by simp⟩
  have kept := held.sound _ (List.getElem_mem inside)
  unfold enqueueFragment
  rw [wp_ite]
  refine ⟨fun _ => drops, fun _ => ?_⟩
  rw [wp_bind, wp_get, List.getElem?_eq_getElem inside]
  dsimp only
  rw [wp_bind]
  refine wp_weaken (validate_validated kept fragment rfl) ?_
  rintro ⟨valid, ipr⟩ input ⟨rfl, validated⟩
  dsimp only
  rw [wp_ite]
  refine ⟨fun _ => drops, fun enqueued => ?_⟩
  obtain ⟨apart, members, length, timer⟩ := validated enqueued
  -- the datagram as it is stored
  generalize stored : (if (!iphMf (p.front 20)) = true then _ else ipr) = next
  have frags : next.frags = ipr.frags := by
    rw [← stored]
    split
    · rfl
    · rfl
  have soundNext : next.Kept := by
    refine ⟨by rwa [frags], ?_, ?_, ?_⟩
    · rw [frags]
      intro frag member
      rcases members frag member with isNew | before
      · rw [isNew]
        exact header
      · exact kept.headers frag before
    · have same : next.timer = ipr.timer := by
        rw [← stored]
        split
        · rfl
        · rfl
      rw [same, timer]
      exact kept.timer
    · intro empty
      rw [frags] at empty
      rw [empty] at length
      cases length
  have charged :
      Held4 False (input.datagrams4.set r next) (input.pbufcount4 + 1) := by
    apply held.charge inside id soundNext
    · rw [frags, length]
    · rw [frags, length]
      exact Nat.succ_ne_zero _
    · exact room
  have reass :
      Reass4 start False {
        input with
        datagrams4 := input.datagrams4.set r next
        pbufcount4 := input.pbufcount4 + 1 } := by
    refine ⟨?_, charged⟩
    rw [found.reass.only]
  rw [wp_bind, wp_modify, wp_ite]
  refine ⟨fun _ => finishDatagram_held reass ?_, fun _ => ⟨reass, by simp⟩⟩
  rw [List.getElem?_set_self inside]

/-! ## `ip4_input` -/

/-- Reassembly is in order after a fragment, and a datagram it returns begins
with a header. -/
theorem ip4Reass_held
    {input : IpInput}
    {p : PBuf}
    (held : Held4 False input.datagrams4 input.pbufcount4)
    (header : p.Held ∧ ipHlen ≤ p.len)
    (fragment : wordAt (p.front 20) 6 &&& 0x3fff ≠ 0) :
    wp (ip4Reass p)
      (fun result next =>
        Reass4 input False next ∧
          ∀ chain, result = some chain →
            iphHlBytes (p.front 20) = 20 ∧ chain.head.Held ∧ ipHlen ≤ chain.head.len)
      noFault input := by
  unfold ip4Reass
  rw [wp_ite]
  refine ⟨fun _ => ⟨.refl held, by simp⟩, fun plain => ?_⟩
  rw [not_or, not_not] at plain
  rw [wp_bind]
  refine wp_weaken (roomForFragment_held held (p.front 20)) ?_
  rintro room middle ⟨reass, fits⟩
  rw [wp_ite]
  refine ⟨fun enough => ?_, fun _ => ⟨reass, by simp⟩⟩
  rw [wp_bind]
  refine wp_weaken (findDatagram_held reass.held (p.front 20)) ?_
  intro found next foundHeld
  cases found with
  | none => exact ⟨reass.trans foundHeld, by simp⟩
  | some r =>
      have count := foundHeld.count
      have enough := fits enough
      refine wp_weaken
        (enqueueFragment_held foundHeld (by omega) header fragment) ?_
      rintro result last ⟨later, headers⟩
      exact ⟨reass.trans later, fun chain same => ⟨plain.1, headers chain same⟩⟩

section Reads

variable {p : PBuf} {index : Nat} {allowed : IpFault → Prop} {input : IpInput}

/-- A read returns if there is some memory behind the vector or it stays
inside the packet. -/
theorem wp_readByte_either
    {post : UInt8 → IpInput → Prop}
    (readable : input.slack.isSome ∨ p.payload + index < p.mem.length)
    (read :
      ∀ byte,
        (p.payload + index < p.mem.length →
          byte = byteAt p.mem (p.payload + index)) →
        post byte input) :
    wp (readByte p index) post allowed input := by
  rcases readable with memory | inside
  · exact wp_readByte_anywhere memory read
  · rw [wp_readByte inside]
    exact read _ fun _ => rfl

theorem wp_readWord_either
    {post : BitVec 16 → IpInput → Prop}
    (readable : input.slack.isSome ∨ p.payload + index + 1 < p.mem.length)
    (read :
      ∀ word,
        (p.payload + index + 1 < p.mem.length →
          word = wordAt p.mem (p.payload + index)) →
        post word input) :
    wp (readWord p index) post allowed input := by
  rcases readable with memory | inside
  · exact wp_readWord_anywhere memory read
  · rw [wp_readWord inside]
    exact read _ fun _ => rfl

end Reads

section Input

variable {input : IpInput}

theorem ip4Deliver_total
    {src dest : BitVec 32}
    {iphdrHlen : Nat}
    {p : Chain}
    (bounds : p.head.Held)
    (header : ipHlen ≤ p.head.len)
    (fits : iphdrHlen ≤ p.head.len) :
    wp (ip4Deliver src dest iphdrHlen p)
      (fun result next => next = input ∧ ∀ up, result = some up → up.p.head.Held)
      noFault input := by
  have hlen : ipHlen = 20 := rfl
  have within : p.head.payload + p.head.len ≤ p.head.mem.length := bounds
  have held : (p.skip iphdrHlen).head.Held := bounds.skip fits
  have upward (proto : UpperProto) (up : Upward)
      (same :
        some (⟨proto, .v4 src, .v4 dest, p.skip iphdrHlen⟩ : Upward) = some up) :
      up.p.head.Held := by
    rw [← Option.some.inj same]
    exact held
  rw [ip4Deliver, wp_bind, wp_readByte (by omega), wp_bind, wp_pbufRemoveHeader fits]
  rw [wp_ite]
  refine ⟨fun _ => ⟨rfl, upward _⟩, fun _ => ?_⟩
  rw [wp_ite]
  exact ⟨fun _ => ⟨rfl, upward _⟩, fun _ => ⟨rfl, by simp⟩⟩

theorem ip4Input_held
    {p : PBuf}
    (readable : input.slack.isSome ∨ p.payload + 3 < p.mem.length)
    (bounds : p.Held)
    (held : Held4 False input.datagrams4 input.pbufcount4) :
    wp (ip4Input p)
      (fun result next =>
        Reass4 input False next ∧ ∀ up, result = some up → up.p.head.Held)
      noFault input := by
  have nothing :
      wp (pure none : IpM (Option Upward))
        (fun result next =>
          Reass4 input False next ∧ ∀ up, result = some up → up.p.head.Held)
        noFault input :=
    ⟨.refl held, by simp⟩
  rw [ip4Input, wp_bind]
  refine wp_readByte_either (readable.imp_right fun _ => by omega) fun vhl vhlAt => ?_
  rw [wp_ite]
  refine ⟨fun _ => nothing, fun _ => ?_⟩
  rw [wp_bind]
  refine wp_readWord_either readable fun iphdrLen _ => ?_
  -- the buffer that is left when what lies behind the datagram is cut off
  have cutMem : (p.realloc iphdrLen.toNat).mem = p.mem := by
    rw [PBuf.realloc]
    split
    · rfl
    · rfl
  have cutPayload : (p.realloc iphdrLen.toNat).payload = p.payload := by
    rw [PBuf.realloc]
    split
    · rfl
    · rfl
  have cutLen : (p.realloc iphdrLen.toNat).len ≤ p.len := by
    rw [PBuf.realloc]
    split
    · exact Nat.le_refl _
    · dsimp only
      omega
  generalize p.realloc iphdrLen.toNat = cut at cutMem cutPayload cutLen ⊢
  dsimp only
  rw [wp_ite]
  refine ⟨fun _ => nothing, fun whole => ?_⟩
  simp only [not_or, Nat.not_lt] at whole
  obtain ⟨header, -, minimum⟩ := whole
  have hlen : ipHlen = 20 := rfl
  have within : p.payload + p.len ≤ p.mem.length := bounds
  have cutHeld : cut.payload + cut.len ≤ cut.mem.length := by
    rw [cutMem, cutPayload]
    omega
  rw [wp_bind, wp_readLong (by omega), wp_bind, wp_readLong (by omega), wp_ite]
  refine ⟨fun _ => nothing, fun _ => ?_⟩
  rw [wp_bind, wp_readWord (by omega), wp_ite]
  refine ⟨fun fragment => ?_, fun _ => ?_⟩
  · rw [wp_bind]
    have isOffset : wordAt cut.mem (cut.payload + 6) = wordAt (cut.front 20) 6 := by
      rw [PBuf.front, wordAt_take (by decide), wordAt_drop]
    have isHlen : (vhl &&& 0xf).toNat * 4 = iphHlBytes (cut.front 20) := by
      rw [vhlAt (by omega), iphHlBytes, PBuf.front, byteAt_take (by decide), byteAt_drop,
        cutMem, cutPayload]
    refine wp_weaken
      (ip4Reass_held held ⟨cutHeld, by omega⟩ (isOffset ▸ fragment)) ?_
    rintro result next ⟨reass, headers⟩
    cases result with
    | none => exact ⟨reass, by simp⟩
    | some chain =>
        obtain ⟨isTwenty, chainHeld, long⟩ := headers chain rfl
        refine wp_weaken (ip4Deliver_total chainHeld long ?_) ?_
        · rw [isHlen, isTwenty]
          exact long
        · rintro up _ ⟨rfl, upHeld⟩
          exact ⟨reass, upHeld⟩
  · refine wp_weaken (ip4Deliver_total cutHeld ?_ header) ?_
    · dsimp only
      omega
    · rintro up _ ⟨rfl, upHeld⟩
      exact ⟨.refl held, upHeld⟩

end Input

end NetstackLwip

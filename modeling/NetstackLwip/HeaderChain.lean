import NetstackLwip.IpRuns

namespace NetstackLwip

/-!
# Chains of extension headers

Which chains of Hop-by-Hop, Destination-Options and Routing headers the loop
of `ip6_input` accepts, as a function of their bytes alone, and that the loop
computes this function. A header whose last option claims more bytes than the
header has is accepted.
-/

open FaultState

/-! ## Accepted headers -/

/-- The walk over the options of a header behind `skip` more bytes: whether
every option met is to be skipped. -/
def optionsKept (known : List UInt8) : Nat → Bytes → Bool
  | _, [] => true
  | skip + 1, _ :: rest => optionsKept known skip rest
  | 0, [type] => type == 0 || decide (type ∈ known) || type >>> 6 == 0
  | 0, type :: dlen :: rest =>
      if type = 0 then
        optionsKept known 0 (dlen :: rest)
      else if type ∈ known ∨ type >>> 6 = 0 then
        optionsKept known dlen.toNat rest
      else
        false

/-- An extension header without its first byte, which is the type of the
header behind it. -/
structure ExtHdr where
  type : UInt8
  body : Bytes
  kind : type = 0 ∨ type = 43 ∨ type = 60
  size : body.length + 1 = 8 * (1 + (byteAt body 0).toNat)

/-- The options that a header type has beside padding. -/
def knownOptions (type : UInt8) : List UInt8 :=
  if type = 60 then [1, 5, 194, 201] else [1, 5, 194]

/-- Whether the loop goes on behind a header. -/
def ExtHdr.kept (hdr : ExtHdr) : Bool :=
  if hdr.type = 43 then
    byteAt hdr.body 2 == 0 ||
      (byteAt hdr.body 0 &&& 1 == 0 &&
        (byteAt hdr.body 1 == 2 || byteAt hdr.body 1 == 3))
  else
    optionsKept (knownOptions hdr.type) 0 (hdr.body.drop 1)

/-- The type of the first header of a chain in front of a header of type
`last`. -/
def firstType (last : UInt8) : List ExtHdr → UInt8
  | [] => last
  | hdr :: _ => hdr.type

/-- The bytes of a chain. -/
def encodeChain (last : UInt8) : List ExtHdr → Bytes
  | [] => []
  | hdr :: rest => firstType last rest :: hdr.body ++ encodeChain last rest

/-- Whether the loop passes a chain: a Hop-by-Hop header may only be the
first. -/
def chainKept (last : UInt8) : List ExtHdr → Bool
  | [] => true
  | hdr :: rest => hdr.kept && firstType last rest != 0 && chainKept last rest

theorem optionsKept_skip
    (known : List UInt8)
    (skip : Nat)
    (options : Bytes) :
    optionsKept known skip options =
      optionsKept known 0 (options.drop skip) := by
  induction skip generalizing options with
  | zero =>
      rfl
  | succ skip inductionHypothesis =>
      cases options with
      | nil => simp [optionsKept]
      | cons _ rest =>
          rw [optionsKept, inductionHypothesis, List.drop_succ_cons]

theorem length_encodeChain
    (last : UInt8)
    (chain : List ExtHdr) :
    8 ∣ (encodeChain last chain).length ∧
      chain.length ≤ (encodeChain last chain).length := by
  induction chain with
  | nil =>
      exact ⟨Nat.dvd_zero 8, le_refl _⟩
  | cons hdr rest inductionHypothesis =>
      have size := hdr.size
      simp only [encodeChain, List.cons_append, List.length_cons,
        List.length_append]
      omega

theorem length_encodeChain_append
    (middle last : UInt8)
    (front back : List ExtHdr) :
    (encodeChain last (front ++ back)).length =
      (encodeChain middle front).length + (encodeChain last back).length := by
  induction front with
  | nil =>
      simp [encodeChain]
  | cons hdr front inductionHypothesis =>
      simp only [encodeChain, List.cons_append, List.length_cons,
        List.length_append, inductionHypothesis]
      omega

theorem chainKept_append
    {middle last : UInt8}
    {front back : List ExtHdr}
    (starts : firstType last back ≠ 0)
    (other : middle ≠ 0) :
    chainKept last (front ++ back) =
      (chainKept middle front && chainKept last back) := by
  induction front with
  | nil =>
      rfl
  | cons hdr front inductionHypothesis =>
      have type :
          (firstType last (front ++ back) != 0) = (firstType middle front != 0) := by
        cases front with
        | nil =>
            exact (bne_iff_ne.mpr starts).trans (bne_iff_ne.mpr other).symm
        | cons _ _ => rfl
      simp only [List.cons_append, chainKept, inductionHypothesis, type,
        Bool.and_assoc]

/-! ## The loop -/

section Walk

variable {allowed : IpFault → Prop} {input : IpInput}

/-- The loop over the options computes `optionsKept`. -/
theorem walkOptions_kept
    {known : List UInt8}
    {multicast : Bool}
    {p : PBuf}
    {hdr : Bytes}
    {rounds optOffset : Nat}
    {post : Bool → IpInput → Prop}
    (memory : input.slack.isSome)
    (inside : p.payload + hdr.length ≤ p.mem.length)
    (holds : ∀ index < hdr.length,
      byteAt p.mem (p.payload + index) = byteAt hdr index)
    (enough : hdr.length - optOffset < rounds)
    (kept : post (optionsKept known 0 (hdr.drop optOffset)) input) :
    wp (walkOptions known multicast p hdr.length rounds optOffset) post allowed
      input := by
  induction rounds generalizing optOffset with
  | zero =>
      omega
  | succ rounds inductionHypothesis =>
      rw [walkOptions]
      by_cases within : optOffset < hdr.length
      · have notStrict : ¬(hdr.length ≤ optOffset + 1 ∧ input.slack.isNone = true) := by
          rintro ⟨_, strict⟩
          rw [Option.isNone_iff_eq_none] at strict
          rw [strict] at memory
          cases memory
        rw [if_pos within, wp_bind, wp_readOption within (by omega),
          holds optOffset within]
        rw [drop_eq_byteAt_cons within] at kept
        by_cases pad : byteAt hdr optOffset = 0
        · rw [if_pos pad]
          refine inductionHypothesis (by omega) ?_
          cases left : hdr.drop (optOffset + 1) with
          | nil => simpa [left, optionsKept, pad] using kept
          | cons _ _ =>
              rw [left, optionsKept, if_pos pad] at kept
              exact kept
        · rw [if_neg pad]
          by_cases skipped :
              byteAt hdr optOffset ∈ known ∨ byteAt hdr optOffset >>> 6 = 0
          · rw [if_pos skipped, wp_bind]
            by_cases more : optOffset + 1 < hdr.length
            · rw [wp_readOption more (by omega), holds _ more]
              refine inductionHypothesis (by omega) ?_
              rw [drop_eq_byteAt_cons more, optionsKept, if_neg pad,
                if_pos skipped, optionsKept_skip, List.drop_drop] at kept
              exact kept
            · simp only [readOption, wp_bind, wp_get]
              rw [if_neg notStrict]
              refine wp_readByte_anywhere memory fun dlen _ => ?_
              refine inductionHypothesis (by omega) ?_
              rw [List.drop_eq_nil_of_le (by omega)]
              rw [List.drop_eq_nil_of_le (by omega)] at kept
              rcases skipped with isKnown | low
              · simpa [optionsKept, isKnown] using kept
              · simpa [optionsKept, low] using kept
          · rw [if_neg skipped]
            have refused : post false input := by
              rw [not_or] at skipped
              cases left : hdr.drop (optOffset + 1) with
              | nil =>
                  have notKept :
                      optionsKept known 0 [byteAt hdr optOffset] = false := by
                    simp only [optionsKept, beq_eq_false_iff_ne.mpr pad,
                      decide_eq_false skipped.1,
                      beq_eq_false_iff_ne.mpr skipped.2, Bool.or_false]
                  rwa [left, notKept] at kept
              | cons _ _ =>
                  rw [left, optionsKept, if_neg pad,
                    if_neg (not_or.mpr skipped)] at kept
                  exact kept
            rw [wp_ite]
            refine ⟨fun _ => ?_, fun _ => refused⟩
            rw [wp_bind]
            exact refused
      · rw [if_neg within]
        rwa [List.drop_eq_nil_of_le (by omega)] at kept

theorem optionsHeader_kept
    {known : List UInt8}
    {dest : BitVec 128}
    {walk : Ip6Walk}
    {hdr rest : Bytes}
    {post : Option Ip6Walk → IpInput → Prop}
    (memory : input.slack.isSome)
    (held : walk.p.head.Held)
    (data : walk.p.head.data = hdr ++ rest)
    (size : hdr.length = 8 * (1 + (byteAt hdr 1).toNat))
    (passed :
      post
        (if optionsKept known 0 (hdr.drop 2) then
          some (walk.advance hdr.length (byteAt hdr 0))
        else
          none)
        input) :
    wp (optionsHeader known dest walk) post allowed input := by
  have whole := PBuf.data_length held
  rw [data, List.length_append] at whole
  have within := held
  unfold PBuf.Held at within
  have holds : ∀ index < hdr.length,
      byteAt walk.p.head.mem (walk.p.head.payload + index) = byteAt hdr index :=
    fun index small => PBuf.byteAt_front held data small
  simp only [optionsHeader, wp_bind]
  rw [wp_readByte (by omega), holds 1 (by omega), ← size, if_neg (by omega),
    wp_bind]
  refine walkOptions_kept memory (by omega) holds (by omega) ?_
  rw [wp_ite]
  refine ⟨fun kept => ?_, fun refused => ?_⟩
  · rw [if_pos kept] at passed
    rw [wp_bind, wp_readByte (by omega), holds 0 (by omega), wp_bind,
      wp_pbufRemoveHeader (by omega)]
    exact passed
  · rw [if_neg refused] at passed
    exact passed

theorem routingHeader_kept
    {walk : Ip6Walk}
    {hdr rest : Bytes}
    {post : Option Ip6Walk → IpInput → Prop}
    (held : walk.p.head.Held)
    (data : walk.p.head.data = hdr ++ rest)
    (size : hdr.length = 8 * (1 + (byteAt hdr 1).toNat))
    (passed :
      post
        (if byteAt hdr 3 = 0 ∨
            (byteAt hdr 1 &&& 1 = 0 ∧ (byteAt hdr 2 = 2 ∨ byteAt hdr 2 = 3)) then
          some (walk.advance hdr.length (byteAt hdr 0))
        else
          none)
        input) :
    wp (routingHeader walk) post allowed input := by
  have whole := PBuf.data_length held
  rw [data, List.length_append] at whole
  have within := held
  unfold PBuf.Held at within
  have holds : ∀ index < hdr.length,
      byteAt walk.p.head.mem (walk.p.head.payload + index) = byteAt hdr index :=
    fun index small => PBuf.byteAt_front held data small
  simp only [routingHeader, wp_bind]
  rw [wp_readByte (by omega), holds 1 (by omega), ← size, if_neg (by omega),
    wp_bind, wp_readByte (by omega), holds 3 (by omega), wp_bind,
    wp_readByte (by omega), holds 2 (by omega), wp_ite]
  refine ⟨fun bad => ?_, fun good => ?_⟩
  · rw [if_neg (by tauto)] at passed
    rw [wp_bind]
    exact passed
  · rw [if_pos (by tauto)] at passed
    rw [wp_bind, wp_readByte (by omega), holds 0 (by omega), wp_bind,
      wp_pbufRemoveHeader (by omega)]
    exact passed

/-- The `switch` passes a header exactly if it is kept. -/
theorem extensionHeader_kept
    {src dest : BitVec 128}
    {walk : Ip6Walk}
    {hdr : ExtHdr}
    {nexth : UInt8}
    {rest : Bytes}
    {post : Option Ip6Walk → IpInput → Prop}
    (memory : input.slack.isSome)
    (starts : walk.nexth = hdr.type)
    (held : walk.p.head.Held)
    (data : walk.p.head.data = nexth :: hdr.body ++ rest)
    (passed :
      post
        (if hdr.kept then some (walk.advance (hdr.body.length + 1) nexth)
        else none)
        input) :
    wp (extensionHeader src dest walk) post allowed input := by
  have size : (nexth :: hdr.body).length =
      8 * (1 + (byteAt (nexth :: hdr.body) 1).toNat) := hdr.size
  rw [extensionHeader, starts]
  rcases hdr.kind with hopByHop | routing | destOpts
  · rw [if_pos hopByHop]
    refine optionsHeader_kept memory held data size ?_
    have options : hdr.kept = optionsKept [1, 5, 194] 0 (hdr.body.drop 1) := by
      rw [ExtHdr.kept, hopByHop]
      rfl
    rw [options] at passed
    exact passed
  · rw [routing, if_neg (by decide), if_neg (by decide), if_pos rfl]
    refine routingHeader_kept held data size ?_
    rw [ExtHdr.kept, if_pos routing] at passed
    simp only [Bool.or_eq_true, Bool.and_eq_true, beq_iff_eq] at passed
    exact passed
  · rw [destOpts, if_neg (by decide), if_pos rfl]
    refine optionsHeader_kept memory held data size ?_
    have options :
        hdr.kept = optionsKept [1, 5, 194, 201] 0 (hdr.body.drop 1) := by
      rw [ExtHdr.kept, destOpts]
      rfl
    rw [options] at passed
    exact passed

/-- The loop goes on behind a chain if all of it is accepted, and otherwise
drops the packet. -/
theorem walkHeaders_chain
    {src dest : BitVec 128}
    {left : Nat}
    {walk : Ip6Walk}
    {chain : List ExtHdr}
    {last : UInt8}
    {rest : Bytes}
    {post : Option Ip6Walk → IpInput → Prop}
    (memory : input.slack.isSome)
    (starts : walk.nexth = firstType last chain)
    (held : walk.p.head.Held)
    (data : walk.p.head.data = encodeChain last chain ++ rest)
    (small : walk.hlenTot < 65536)
    (passed :
      chainKept last chain = true →
        wp
          (walkHeaders src dest left
            (walk.advance (encodeChain last chain).length last))
          post allowed input)
    (refused : chainKept last chain = false → post none input) :
    wp (walkHeaders src dest (chain.length + left) walk) post allowed input := by
  induction chain generalizing walk with
  | nil =>
      have stays := Ip6Walk.advance_zero small
      rw [starts] at stays
      simp only [encodeChain, List.length_nil] at passed
      rw [List.length_nil, Nat.zero_add, ← stays]
      exact passed rfl
  | cons hdr chain inductionHypothesis =>
      rw [encodeChain, List.append_assoc] at data
      rw [List.length_cons, Nat.succ_add, walkHeaders, if_pos, wp_bind]
      · refine extensionHeader_kept memory starts held data ?_
        have long := PBuf.data_length held
        rw [data, List.length_append, List.length_cons] at long
        simp only [chainKept] at passed refused
        cases keeps : hdr.kept with
        | false =>
            exact refused (by rw [keeps]; rfl)
        | true =>
            rw [if_pos rfl]
            dsimp only
            rw [wp_ite]
            refine ⟨fun hopByHop => ?_, fun other => ?_⟩
            · rw [wp_bind]
              refine refused ?_
              have type : firstType last chain = 0 := hopByHop
              rw [type, keeps]
              rfl
            · have later : (firstType last chain != 0) = true :=
                bne_iff_ne.mpr other
              rw [keeps, later] at passed refused
              have length :
                  hdr.body.length + 1 + (encodeChain last chain).length =
                    (encodeChain last (hdr :: chain)).length := by
                simp only [encodeChain, List.cons_append, List.length_cons,
                  List.length_append]
                omega
              refine inductionHypothesis rfl ?_ ?_ ?_ ?_ ?_
              · exact held.skip (by omega)
              · exact Ip6Walk.advance_data data
              · exact Nat.mod_lt _ (by decide)
              · intro behind
                rw [Ip6Walk.advance_advance, length]
                exact passed behind
              · exact fun not => refused not
      · rw [starts, firstType]
        rcases hdr.kind with type | type | type <;> rw [type] <;> rfl

end Walk

end NetstackLwip

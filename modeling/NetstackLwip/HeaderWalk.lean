import NetstackLwip.IpInput

namespace NetstackLwip

/-!
# Walking IPv6 extension headers

Chains of extension headers that a node without any of the options has to
accept, and what the loop of `ip6_input` does with them: it ends at the
upper-layer header with nothing else changed.
-/

open FaultState

/-- Options that are skipped: padding, those in `known`, and those whose type
says so. -/
inductive SkippedOptions (known : List UInt8) : Bytes → Prop where
  | nil : SkippedOptions known []
  | pad1
      {rest : Bytes} :
      SkippedOptions known rest →
      SkippedOptions known (0 :: rest)
  | skip
      {type dlen : UInt8}
      {data rest : Bytes} :
      type ≠ 0 →
      type ∈ known ∨ type >>> 6 = 0 →
      data.length = dlen.toNat →
      SkippedOptions known rest →
      SkippedOptions known (type :: dlen :: (data ++ rest))

/-- An extension header of a type, with the type of the next header. -/
inductive ExtHeader : UInt8 → UInt8 → Bytes → Prop where
  | hopByHop
      {nexth ext : UInt8}
      {options : Bytes} :
      options.length + 2 = 8 * (1 + ext.toNat) →
      SkippedOptions [1, 5, 194] options →
      ExtHeader 0 nexth (nexth :: ext :: options)
  | destOpts
      {nexth ext : UInt8}
      {options : Bytes} :
      options.length + 2 = 8 * (1 + ext.toNat) →
      SkippedOptions [1, 5, 194, 201] options →
      ExtHeader 60 nexth (nexth :: ext :: options)
  | routing
      {nexth ext type segmentsLeft : UInt8}
      {data : Bytes} :
      data.length + 4 = 8 * (1 + ext.toNat) →
      segmentsLeft = 0 ∨ (ext &&& 1 = 0 ∧ (type = 2 ∨ type = 3)) →
      ExtHeader 43 nexth (nexth :: ext :: type :: segmentsLeft :: data)

/-- A chain of extension headers in front of a header of type `last`; only the
first may be a Hop-by-Hop header. -/
inductive ExtHeaders : UInt8 → Bytes → UInt8 → Prop where
  | none
      {last : UInt8} :
      ExtHeaders last [] last
  | header
      {type nexth last : UInt8}
      {hdr rest : Bytes} :
      ExtHeader type nexth hdr →
      nexth ≠ 0 →
      ExtHeaders nexth rest last →
      ExtHeaders type (hdr ++ rest) last

section Walk

variable {allowed : IpFault → Prop} {input : IpInput}

/-- Skipped options are walked to the end of their header. -/
theorem walkOptions_skipped
    {known : List UInt8}
    {multicast : Bool}
    {p : PBuf}
    {hlen optOffset rounds : Nat}
    {options : Bytes}
    {post : Bool → IpInput → Prop}
    (skipped : SkippedOptions known options)
    (held : p.Held)
    (fits : hlen ≤ p.len)
    (size : optOffset + options.length = hlen)
    (holds : ∀ index < options.length,
      byteAt p.mem (p.payload + (optOffset + index)) = byteAt options index)
    (enough : options.length < rounds)
    (kept : post true input) :
    wp (walkOptions known multicast p hlen rounds optOffset) post allowed
      input := by
  unfold PBuf.Held at held
  induction skipped generalizing optOffset rounds with
  | nil =>
      obtain ⟨rounds, rfl⟩ := Nat.exists_eq_succ_of_ne_zero (by omega : rounds ≠ 0)
      simp only [List.length_nil, Nat.add_zero] at size
      rw [walkOptions, if_neg (by omega)]
      exact kept
  | @pad1 rest _ inductionHypothesis =>
      obtain ⟨rounds, rfl⟩ := Nat.exists_eq_succ_of_ne_zero (by omega : rounds ≠ 0)
      simp only [List.length_cons] at size enough holds
      have type := holds 0 (by omega)
      rw [walkOptions, if_pos (by omega), wp_bind,
        wp_readOption (by omega) (by omega)]
      simp only [Nat.add_zero] at type
      rw [type, if_pos (by rfl)]
      refine inductionHypothesis (by omega) ?_ (by omega)
      intro index within
      have next := holds (index + 1) (by omega)
      rw [show optOffset + 1 + index = optOffset + (index + 1) by omega, next]
      rfl
  | @skip type dlen data rest nonzero skip sized _ inductionHypothesis =>
      obtain ⟨rounds, rfl⟩ := Nat.exists_eq_succ_of_ne_zero (by omega : rounds ≠ 0)
      simp only [List.length_cons, List.length_append] at size enough holds
      have first := holds 0 (by omega)
      have second := holds 1 (by omega)
      simp only [Nat.add_zero] at first
      rw [walkOptions, if_pos (by omega), wp_bind,
        wp_readOption (by omega) (by omega), first, if_neg (by exact nonzero),
        if_pos (by exact skip), wp_bind, wp_readOption (by omega) (by omega),
        second]
      refine inductionHypothesis ?_ ?_ ?_
      · simp only [byteAt, List.getD_cons_succ, List.getD_cons_zero]
        omega
      · intro index within
        have next := holds (index + data.length + 2) (by omega)
        simp only [byteAt, List.getD_cons_succ, List.getD_cons_zero] at next ⊢
        rw [show optOffset + 2 + dlen.toNat + index =
          optOffset + (index + data.length + 2) by omega, next]
        rw [show index + data.length = data.length + index by omega,
          List.getD_eq_getElem?_getD, List.getElem?_append_right (by omega)]
        simp
      · omega

/-- The walk with a header of `size` bytes behind it. -/
def Ip6Walk.advance (walk : Ip6Walk) (size : Nat) (nexth : UInt8) : Ip6Walk :=
  { walk with
    p := walk.p.skip size
    nexth
    hlenTot := (walk.hlenTot + size) % 65536 }

/-- The first bytes of a buffer's data, read in its memory. -/
theorem PBuf.byteAt_front
    {p : PBuf}
    {front rest : Bytes}
    (held : p.Held)
    (data : p.data = front ++ rest)
    {index : Nat}
    (within : index < front.length) :
    byteAt p.mem (p.payload + index) = byteAt front index := by
  have size := PBuf.data_length held
  rw [data, List.length_append] at size
  rw [PBuf.byteAt_data (by omega), data, byteAt_append_left within]

theorem optionsHeader_passed
    {known : List UInt8}
    {dest : BitVec 128}
    {walk : Ip6Walk}
    {nexth ext : UInt8}
    {options rest : Bytes}
    {post : Option Ip6Walk → IpInput → Prop}
    (held : walk.p.head.Held)
    (data : walk.p.head.data = nexth :: ext :: options ++ rest)
    (size : options.length + 2 = 8 * (1 + ext.toNat))
    (skipped : SkippedOptions known options)
    (passed : post (some (walk.advance (options.length + 2) nexth)) input) :
    wp (optionsHeader known dest walk) post allowed input := by
  have whole := PBuf.data_length held
  rw [data] at whole
  simp only [List.length_append, List.length_cons] at whole
  have within := held
  unfold PBuf.Held at within
  have hdr :
      ∀ index < options.length + 2,
        byteAt walk.p.head.mem (walk.p.head.payload + index) =
          byteAt (nexth :: ext :: options) index :=
    fun index small => PBuf.byteAt_front held data small
  have length := hdr 1 (by omega)
  have next := hdr 0 (by omega)
  simp only [byteAt, List.getD_cons_succ, List.getD_cons_zero] at length next
  simp only [optionsHeader, wp_bind]
  rw [wp_readByte (by omega), byteAt, length, wp_ite]
  refine ⟨fun short => absurd short (by omega), fun _ => ?_⟩
  rw [wp_bind, ← size]
  refine walkOptions_skipped skipped held (by omega) (by omega) ?_ (by omega) ?_
  · intro index small
    rw [hdr (2 + index) (by omega), Nat.add_comm 2 index]
    rfl
  · rw [if_pos rfl, wp_bind, wp_readByte (by omega), byteAt, next, wp_bind,
      wp_pbufRemoveHeader (by omega)]
    exact passed

theorem routingHeader_passed
    {walk : Ip6Walk}
    {nexth ext type segmentsLeft : UInt8}
    {bytes rest : Bytes}
    {post : Option Ip6Walk → IpInput → Prop}
    (held : walk.p.head.Held)
    (data :
      walk.p.head.data = nexth :: ext :: type :: segmentsLeft :: bytes ++ rest)
    (size : bytes.length + 4 = 8 * (1 + ext.toNat))
    (routed : segmentsLeft = 0 ∨ (ext &&& 1 = 0 ∧ (type = 2 ∨ type = 3)))
    (passed : post (some (walk.advance (bytes.length + 4) nexth)) input) :
    wp (routingHeader walk) post allowed input := by
  have whole := PBuf.data_length held
  rw [data] at whole
  simp only [List.length_append, List.length_cons] at whole
  have within := held
  unfold PBuf.Held at within
  have hdr :
      ∀ index < bytes.length + 4,
        byteAt walk.p.head.mem (walk.p.head.payload + index) =
          byteAt (nexth :: ext :: type :: segmentsLeft :: bytes) index :=
    fun index small => PBuf.byteAt_front held data small
  have length := hdr 1 (by omega)
  have next := hdr 0 (by omega)
  have left := hdr 3 (by omega)
  have kind := hdr 2 (by omega)
  simp only [byteAt, List.getD_cons_succ, List.getD_cons_zero]
    at length next left kind
  simp only [routingHeader, wp_bind]
  rw [wp_readByte (by omega), byteAt, length, wp_ite]
  refine ⟨fun short => absurd short (by omega), fun _ => ?_⟩
  rw [wp_bind, wp_readByte (by omega), byteAt, left, wp_bind,
    wp_readByte (by omega), byteAt, kind, wp_ite]
  refine ⟨fun bad => ?_, fun _ => ?_⟩
  · rcases routed with none | ⟨even, two | three⟩
    · exact absurd none bad.1
    · exact absurd bad.2 (by simp [even, two])
    · exact absurd bad.2 (by simp [even, three])
  · rw [wp_bind, wp_readByte (by omega), byteAt, next, wp_bind,
      wp_pbufRemoveHeader (by omega), ← size]
    exact passed

/-- The data behind a header is the data of the advanced walk. -/
theorem Ip6Walk.advance_data
    {walk : Ip6Walk}
    {hdr rest : Bytes}
    {nexth : UInt8}
    (data : walk.p.head.data = hdr ++ rest) :
    (walk.advance hdr.length nexth).p.head.data = rest := by
  simp [advance, data]

theorem Ip6Walk.advance_advance
    (walk : Ip6Walk)
    (first second : Nat)
    (middle last : UInt8) :
    (walk.advance first middle).advance second last =
      walk.advance (first + second) last := by
  simp [advance, Chain.skip_skip, Nat.add_assoc]

theorem Ip6Walk.advance_zero
    {walk : Ip6Walk}
    (small : walk.hlenTot < 65536) :
    walk.advance 0 walk.nexth = walk := by
  simp [advance, Chain.skip, PBuf.skip, Nat.mod_eq_of_lt small]

/-- One accepted header is passed, and the loop goes on behind it. -/
theorem walkHeaders_header
    {src dest : BitVec 128}
    {rounds : Nat}
    {walk : Ip6Walk}
    {nexth : UInt8}
    {hdr rest : Bytes}
    {post : Option Ip6Walk → IpInput → Prop}
    (header : ExtHeader walk.nexth nexth hdr)
    (later : nexth ≠ 0)
    (held : walk.p.head.Held)
    (data : walk.p.head.data = hdr ++ rest)
    (continues :
      wp (walkHeaders src dest rounds (walk.advance hdr.length nexth)) post
        allowed input) :
    wp (walkHeaders src dest (rounds + 1) walk) post allowed input := by
  have goesOn :
      wp (extensionHeader src dest walk)
        (fun next input =>
          wp
            (next.elim (pure none) fun walk =>
              if walk.nexth = 0 then do
                icmp6ParamProblem walk.p.head
                pure none
              else
                walkHeaders src dest rounds walk)
            post allowed input)
        allowed input := by
    have stays :
        wp
          (if (walk.advance hdr.length nexth).nexth = 0 then do
            icmp6ParamProblem (walk.advance hdr.length nexth).p.head
            pure none
          else
            walkHeaders src dest rounds (walk.advance hdr.length nexth))
          post allowed input := by
      rw [if_neg (by exact later)]
      exact continues
    obtain ⟨p, type, hlenTot, plen, hdrNexth⟩ := walk
    cases header with
    | hopByHop size skipped =>
        exact optionsHeader_passed held data size skipped stays
    | destOpts size skipped =>
        exact optionsHeader_passed held data size skipped stays
    | routing size routed =>
        exact routingHeader_passed held data size routed stays
  rw [walkHeaders, if_pos, wp_bind]
  · refine wp_weaken goesOn ?_
    rintro (_ | walk) _ rest
    · exact rest
    · exact rest
  · revert header
    generalize walk.nexth = type
    rintro (_ | _ | _) <;> rfl

/-- The loop passes a chain of accepted headers and ends behind it. -/
theorem walkHeaders_passed
    {src dest : BitVec 128}
    {rounds : Nat}
    {walk : Ip6Walk}
    {type last : UInt8}
    {exts rest : Bytes}
    {post : Option Ip6Walk → IpInput → Prop}
    (chain : ExtHeaders type exts last)
    (starts : walk.nexth = type)
    (ends : isExtension last = false)
    (held : walk.p.head.Held)
    (data : walk.p.head.data = exts ++ rest)
    (small : walk.hlenTot < 65536)
    (enough : exts.length < rounds)
    (passed : post (some (walk.advance exts.length last)) input) :
    wp (walkHeaders src dest rounds walk) post allowed input := by
  induction chain generalizing walk rounds with
  | @none last =>
      obtain ⟨rounds, rfl⟩ := Nat.exists_eq_succ_of_ne_zero (by omega : rounds ≠ 0)
      rw [walkHeaders, starts, if_neg (by simp [ends])]
      have stays := Ip6Walk.advance_zero small
      rw [starts] at stays
      simp only [List.length_nil, stays] at passed
      exact passed
  | @header type nexth last hdr tail header later _ inductionHypothesis =>
      obtain ⟨rounds, rfl⟩ := Nat.exists_eq_succ_of_ne_zero (by omega : rounds ≠ 0)
      subst starts
      rw [List.append_assoc] at data
      have whole := PBuf.data_length held
      rw [data] at whole
      simp only [List.length_append] at whole enough
      have positive : 0 < hdr.length := by
        generalize walk.nexth = type at header
        cases header <;> simp
      refine walkHeaders_header header later held data ?_
      refine inductionHypothesis rfl ends ?_ (Ip6Walk.advance_data data) ?_
        (by omega) ?_
      · exact held.skip (by omega)
      · exact Nat.mod_lt _ (by decide)
      · rw [Ip6Walk.advance_advance, ← List.length_append]
        exact passed

/-- The detour to the IPv6 header for `raw_input` leaves the packet as it is,
as long as the total length has room for the headers. -/
theorem showHeaders_back
    {walk : Ip6Walk}
    {post : Chain → IpInput → Prop}
    (behind : walk.hlenTot ≤ walk.p.head.payload)
    (small :
      walk.hlenTot + (walk.p.head.len + (walk.p.tail.map PBuf.len).sum) <
        65536)
    (shown : post walk.p input) :
    wp (showHeaders walk) post allowed input := by
  have fits : walk.p.totLen =
      walk.p.head.len + (walk.p.tail.map PBuf.len).sum :=
    Nat.mod_eq_of_lt (by omega)
  have added :
      walk.p.addHeader walk.hlenTot =
        some {
          walk.p with
          head := {
            walk.p.head with
            payload := walk.p.head.payload - walk.hlenTot
            len := walk.p.head.len + walk.hlenTot } } := by
    rw [Chain.addHeader, if_neg, Nat.mod_eq_of_lt (by omega)]
    rw [fits, Nat.mod_eq_of_lt (by omega)]
    omega
  rw [showHeaders, added, Option.getD_some, wp_pbufRemoveHeader (by simp)]
  have same :
      ({ walk.p with
          head := {
            walk.p.head with
            payload := walk.p.head.payload - walk.hlenTot
            len := walk.p.head.len + walk.hlenTot } } : Chain).skip
        walk.hlenTot = walk.p := by
    simp only [Chain.skip, PBuf.skip, Nat.add_sub_cancel]
    rw [Nat.sub_add_cancel behind]
  rw [same]
  exact shown

end Walk

end NetstackLwip

import NetstackLwip.IpOutput
import NetstackLwip.PacketBuffers
import NetstackLwip.TcpIn

namespace NetstackLwip

/-!
# The header of an arriving segment

The first half of `tcp_input`: it checks the header, finds the options in the
one or two buffers that hold them, and passes over both. However the segment
is cut into buffers, what it finds is what the bytes say, and `tcp_parseopt`,
which reads the options where they lie, learns no more from memory.
-/

/-! ## Reading the header -/

/-- `TCP_HLEN`. -/
def tcpHlen : Nat := 20

/-- The assertions about the buffer behind the header. -/
inductive HeaderFault where
  | nextNull
  | lenNotZero
  | totLenDiffers
  deriving DecidableEq, Repr

/-- Where the options lie: `hdr` starts with the TCP header, and `opt2` with
the options behind the first `opt1len`. -/
structure TcpOptions where
  hdr : PBuf
  optlen : Nat
  opt1len : Nat
  opt2 : Option PBuf := none
  deriving DecidableEq, Repr

/-- `tcp_get_next_optbyte`. -/
def TcpOptions.byte (options : TcpOptions) (optidx : Nat) : UInt8 :=
  match options.opt2 with
  | none => byteAt options.hdr.mem (options.hdr.payload + tcpHlen + optidx)
  | some opt2 =>
      if optidx < options.opt1len then
        byteAt options.hdr.mem (options.hdr.payload + tcpHlen + optidx)
      else
        byteAt opt2.mem (opt2.payload + (optidx - options.opt1len) % 256)

/-- `TCPH_HDRLEN_BYTES` of the word with the header length. -/
def hdrlenBytes (word : BitVec 16) : Nat :=
  (word >>> 12).toNat * 4

/-- The flags that are ever tested. -/
def HdrFlags.ofBits (word : BitVec 16) : HdrFlags where
  fin := word.getLsbD 0
  syn := word.getLsbD 1
  rst := word.getLsbD 2
  psh := word.getLsbD 3
  ack := word.getLsbD 4

/-- Pass over `hdrlen` bytes of header and options; `none` when the options
reach beyond the second buffer. -/
def passOptions (p : Chain) (hdrlen : Nat) :
    Except HeaderFault (Option (TcpOptions × Chain)) :=
  if hdrlen ≤ p.head.len then
    .ok (some
      ({ hdr := p.head
         optlen := hdrlen - tcpHlen
         opt1len := hdrlen - tcpHlen },
        p.skip hdrlen))
  else
    match p.tail with
    | [] => .error .nextNull
    | next :: rest =>
        let opt1len := p.head.len - tcpHlen
        let opt2len := hdrlen - tcpHlen - opt1len
        let head := (p.head.skip tcpHlen).skip opt1len
        if next.len < opt2len then
          .ok none
        else if head.len ≠ 0 then
          .error .lenNotZero
        else if
            Chain.totLen ⟨head, next.skip opt2len :: rest⟩ ≠
              Chain.totLen ⟨next.skip opt2len, rest⟩ then
          .error .totLenDiffers
        else
          .ok (some
            ({ hdr := p.head, optlen := hdrlen - tcpHlen, opt1len,
               opt2 := some next },
              ⟨head, next.skip opt2len :: rest⟩))

/-- The fields of the header in host byte order, the checksum as it is stored;
`none` when the segment takes more sequence numbers than `tcplen` can count. -/
def hostOrder
    (src dest : IpAddr)
    (hdr : PBuf)
    (options : TcpOptions)
    (p : Chain) : Option (Packet × TcpOptions) :=
  let flags := HdrFlags.ofBits (wordAt hdr.mem (hdr.payload + 12))
  let tcplen :=
    if flags.fin || flags.syn then (p.totLen + 1) % 65536 else p.totLen
  if tcplen < p.totLen then
    none
  else
    some
      ({ srcIp := src
         destIp := dest
         src := wordAt hdr.mem hdr.payload
         dest := wordAt hdr.mem (hdr.payload + 2)
         seqno := longAt hdr.mem (hdr.payload + 4)
         ackno := longAt hdr.mem (hdr.payload + 8)
         flags
         wnd := wordAt hdr.mem (hdr.payload + 14)
         options := (List.range options.optlen).map options.byte
         payload := p.data
         chksum := lwipHtons (wordAt hdr.mem (hdr.payload + 16)) },
        options)

/-- `tcp_input` up to the search for a pcb: the segment and where its options
lie, or `none` when it is dropped. -/
def tcpInputHeader (src dest : IpAddr) (p : Chain) :
    Except HeaderFault (Option (Packet × TcpOptions)) := do
  let word := wordAt p.head.mem (p.head.payload + 12)
  if p.head.len < tcpHlen then
    pure none
  else if dest.isBroadcast || dest.isMulticast then
    pure none
  else if hdrlenBytes word < tcpHlen ∨ p.totLen < hdrlenBytes word then
    pure none
  else
    let passed ← passOptions p (hdrlenBytes word)
    pure (passed.bind fun found => hostOrder src dest p.head found.1 found.2)

/-- The loop of `tcp_parseopt` over options read where they lie. -/
def parseoptFrom (byte : Nat → UInt8) (optlen : Nat) :
    Nat → Nat → Nat → Nat
  | 0, _, mss => mss
  | rounds + 1, optidx, mss =>
      if optidx < optlen then
        if byte optidx = 0 then
          mss
        else if byte optidx = 1 then
          parseoptFrom byte optlen rounds (optidx + 1) mss
        else if byte optidx = 2 then
          if byte (optidx + 1) ≠ 4 ∨ optlen < optidx + 4 then
            mss
          else
            let offered :=
              (byte (optidx + 2)).toNat * 256 + (byte (optidx + 3)).toNat
            parseoptFrom byte optlen rounds (optidx + 4)
              (if tcpMss < offered ∨ offered = 0 then tcpMss else offered)
        else if byte (optidx + 1) < 2 then
          mss
        else
          parseoptFrom byte optlen rounds (optidx + (byte (optidx + 1)).toNat)
            mss
      else
        mss

/-- `tcp_parseopt`, the options read where they lie. -/
def TcpOptions.parseopt (options : TcpOptions) (rounds : Nat) (pcb : TcpPcb) :
    TcpPcb :=
  { pcb with
    mss := parseoptFrom options.byte options.optlen rounds 0 pcb.mss }

/-- The option bytes that `tcp_parseopt` reads. -/
def parseoptReads (byte : Nat → UInt8) (optlen : Nat) : Nat → Nat → List Nat
  | 0, _ => []
  | rounds + 1, optidx =>
      if optidx < optlen then
        optidx ::
          if byte optidx = 0 then
            []
          else if byte optidx = 1 then
            parseoptReads byte optlen rounds (optidx + 1)
          else if byte optidx = 2 then
            if byte (optidx + 1) ≠ 4 ∨ optlen < optidx + 4 then
              [optidx + 1]
            else
              (optidx + 1) :: (optidx + 2) :: (optidx + 3) ::
                parseoptReads byte optlen rounds (optidx + 4)
          else if byte (optidx + 1) < 2 then
            [optidx + 1]
          else
            (optidx + 1) ::
              parseoptReads byte optlen rounds
                (optidx + (byte (optidx + 1)).toNat)
      else
        []

/-! ## What the bytes say -/

/-- The length of header and options of a segment. -/
def hdrlenOf (data : Bytes) : Nat :=
  hdrlenBytes (wordAt data 12)

/-- The segment that is written in `data`. -/
def segmentOf (src dest : IpAddr) (data : Bytes) : Packet where
  srcIp := src
  destIp := dest
  src := wordAt data 0
  dest := wordAt data 2
  seqno := longAt data 4
  ackno := longAt data 8
  flags := .ofBits (wordAt data 12)
  wnd := wordAt data 14
  options := (data.drop tcpHlen).take (hdrlenOf data - tcpHlen)
  payload := data.drop (hdrlenOf data)
  chksum := lwipHtons (wordAt data 16)

/-- The header lies in the first buffer, the options in the first two, and the
segment was sent to one host. -/
structure HeaderTaken (dest : IpAddr) (p : Chain) : Prop where
  first : tcpHlen ≤ p.head.len
  one : dest.isBroadcast = false ∧ dest.isMulticast = false
  least : tcpHlen ≤ hdrlenOf p.data
  inside : hdrlenOf p.data ≤ p.data.length
  second : hdrlenOf p.data ≤ p.head.len + (p.tail.head?.elim 0 PBuf.len)

/-! ## Buffers -/

namespace Chain

variable {p : Chain}

theorem byteAt_data
    (held : p.Held)
    {index : Nat}
    (within : index < p.head.len) :
    byteAt p.head.mem (p.head.payload + index) = byteAt p.data index := by
  rw [PBuf.byteAt_data within, data, byteAt_append_left]
  rw [PBuf.data_length held.1]
  exact within

theorem longAt_data
    (held : p.Held)
    {index : Nat}
    (within : index + 3 < p.head.len) :
    longAt p.head.mem (p.head.payload + index) = longAt p.data index := by
  have low : index + 2 + 1 < p.head.len := by omega
  rw [longAt, longAt, wordAt_data held (by omega), Nat.add_assoc,
    wordAt_data held low]

theorem Held.next
    {next : PBuf}
    {rest : List PBuf}
    (held : p.Held)
    (tail : p.tail = next :: rest) :
    next.Held :=
  held.2 next (by rw [tail]; exact List.mem_cons_self)

/-- A byte of the data that lies in the second buffer. -/
theorem byteAt_second
    {next : PBuf}
    {rest : List PBuf}
    (held : p.Held)
    (tail : p.tail = next :: rest)
    {index : Nat}
    (within : index < next.len) :
    byteAt next.mem (next.payload + index) =
      byteAt p.data (p.head.len + index) := by
  rw [PBuf.byteAt_data within, data, tail, List.flatMap_cons,
    ← PBuf.data_length held.1, byteAt_append_right, byteAt_append_left]
  rw [PBuf.data_length (held.next tail)]
  exact within

theorem totLen_eq
    (held : p.Held)
    (fits : p.data.length ≤ 65535) :
    p.totLen = p.data.length := by
  rw [data_length held] at fits ⊢
  exact Nat.mod_eq_of_lt (by omega)

end Chain

/-- A list read byte by byte. -/
theorem map_range_bytes
    {byte : Nat → UInt8}
    {data : Bytes}
    {start size : Nat}
    (inside : start + size ≤ data.length)
    (reads : ∀ index < size, byte index = byteAt data (start + index)) :
    (List.range size).map byte = (data.drop start).take size := by
  apply List.ext_getElem
  · simp only [List.length_map, List.length_range, List.length_take,
      List.length_drop]
    omega
  · intro index within _
    have small : index < size := by simpa using within
    have present : start + index < data.length := by omega
    rw [List.getElem_map, List.getElem_range, reads index small,
      List.getElem_take, List.getElem_drop]
    simp [byteAt, present]

/-! ## Passing over the options -/

/-- The options are found, and what is left is the data behind them. -/
structure OptionsPassed
    (bytes : Bytes)
    (hdrlen : Nat)
    (options : TcpOptions)
    (left : Chain) : Prop where
  optlen : options.optlen = hdrlen - tcpHlen
  byte :
    ∀ index < options.optlen,
      options.byte index = byteAt bytes (tcpHlen + index)
  data : left.data = bytes.drop hdrlen
  totLen : left.totLen = (bytes.drop hdrlen).length

/-- The options end in the first or in the second buffer. -/
def OptionsReached (p : Chain) (hdrlen : Nat) : Prop :=
  hdrlen ≤ p.head.len + p.tail.head?.elim 0 PBuf.len

section Passing

variable {p : Chain} {hdrlen : Nat}

theorem passOptions_first
    (held : p.Held)
    (fits : p.data.length ≤ 65535)
    (least : tcpHlen ≤ hdrlen)
    (first : hdrlen ≤ p.head.len) :
    ∃ options left,
      passOptions p hdrlen = .ok (some (options, left)) ∧
        OptionsPassed p.data hdrlen options left := by
  refine ⟨_, _, if_pos first, ?_⟩
  have skipped := Chain.skip_data held first
  refine ⟨rfl, ?_, skipped, ?_⟩
  · intro index within
    dsimp only at within
    rw [TcpOptions.byte, Nat.add_assoc]
    exact Chain.byteAt_data held (by omega)
  · have small : (p.skip hdrlen).data.length ≤ 65535 := by
      rw [skipped, List.length_drop]
      omega
    rw [← skipped]
    exact Chain.totLen_eq (held.skip first) small

/-- The buffers once the header and `size` bytes of options behind the first
buffer are passed over. -/
def Chain.passed (p : Chain) (next : PBuf) (rest : List PBuf) (size : Nat) :
    Chain :=
  ⟨(p.head.skip tcpHlen).skip (p.head.len - tcpHlen), next.skip size :: rest⟩

variable {next : PBuf} {rest : List PBuf}

theorem Chain.passed_head_len :
    (p.passed next rest hdrlen).head.len = 0 := by
  simp [passed]

theorem Chain.passed_data
    (held : p.Held)
    (tail : p.tail = next :: rest)
    {size : Nat}
    (second : size ≤ next.len) :
    (p.passed next rest size).data = p.data.drop (p.head.len + size) := by
  have reach : size ≤ next.data.length := by
    rw [PBuf.data_length (held.next tail)]
    exact second
  have empty :
      ((p.head.skip tcpHlen).skip (p.head.len - tcpHlen)).data = [] := by
    rw [PBuf.data, PBuf.skip_len, PBuf.skip_len, Nat.sub_self, List.take_zero]
  rw [data, passed]
  dsimp only
  rw [empty, List.nil_append, List.flatMap_cons, PBuf.skip_data, data, tail,
    List.flatMap_cons, ← List.drop_drop,
    List.drop_left' (PBuf.data_length held.1),
    List.drop_append_of_le_length reach]

theorem Chain.passed_held
    (held : p.Held)
    (tail : p.tail = next :: rest)
    (first : tcpHlen ≤ p.head.len)
    {size : Nat}
    (second : size ≤ next.len) :
    (p.passed next rest size).Held := by
  refine ⟨?_, ?_⟩
  · have start : (p.head.skip tcpHlen).Held := held.1.skip first
    exact start.skip (by simp)
  · intro q member
    rcases List.mem_cons.mp member with rfl | later
    · exact (held.next tail).skip second
    · exact held.2 q (by rw [tail]; exact List.mem_cons_of_mem _ later)

theorem Chain.passed_totLen
    {size : Nat} :
    (p.passed next rest size).totLen =
      Chain.totLen ⟨next.skip size, rest⟩ := by
  simp [totLen, passed]

/-- Options that end in the second buffer. -/
theorem passOptions_second
    (held : p.Held)
    (fits : p.data.length ≤ 65535)
    (most : hdrlen ≤ 60)
    (least : tcpHlen ≤ p.head.len)
    (first : p.head.len < hdrlen)
    (tail : p.tail = next :: rest)
    (second : hdrlen ≤ p.head.len + next.len) :
    ∃ options left,
      passOptions p hdrlen = .ok (some (options, left)) ∧
        OptionsPassed p.data hdrlen options left := by
  have behind :
      hdrlen - tcpHlen - (p.head.len - tcpHlen) = hdrlen - p.head.len := by
    omega
  have reach : hdrlen - p.head.len ≤ next.len := by omega
  have data := Chain.passed_data held tail reach
  rw [show p.head.len + (hdrlen - p.head.len) = hdrlen by omega] at data
  have length : (p.data.drop hdrlen).length ≤ 65535 := by
    rw [List.length_drop]
    omega
  refine ⟨⟨p.head, hdrlen - tcpHlen, p.head.len - tcpHlen, some next⟩,
    p.passed next rest (hdrlen - p.head.len), ?_, rfl, ?_, data, ?_⟩
  · have empty : (p.passed next rest (hdrlen - p.head.len)).head.len = 0 :=
      Chain.passed_head_len
    have total :
        (p.passed next rest (hdrlen - p.head.len)).totLen =
          Chain.totLen ⟨next.skip (hdrlen - p.head.len), rest⟩ :=
      Chain.passed_totLen
    rw [passOptions, if_neg (by omega), tail]
    dsimp only
    rw [behind, if_neg (by omega), if_neg (fun differs => differs empty),
      if_neg (fun differs => differs total)]
    rfl
  · intro index within
    dsimp only at within
    simp only [TcpOptions.byte]
    split
    · rw [Nat.add_assoc]
      exact Chain.byteAt_data held (by omega)
    · have near : index - (p.head.len - tcpHlen) < next.len := by omega
      rw [Nat.mod_eq_of_lt (by omega), Chain.byteAt_second held tail near]
      congr 1
      omega
  · rw [← data]
    exact Chain.totLen_eq (Chain.passed_held held tail least reach)
      (by rw [data]; exact length)

/-- However the segment is cut into buffers, its options are found unless they
reach beyond the second buffer, and no assertion fails. -/
theorem passOptions_returned
    (held : p.Held)
    (fits : p.data.length ≤ 65535)
    (most : hdrlen ≤ 60)
    (header : tcpHlen ≤ p.head.len)
    (least : tcpHlen ≤ hdrlen)
    (inside : hdrlen ≤ p.data.length) :
    (OptionsReached p hdrlen ∧
      ∃ options left,
        passOptions p hdrlen = .ok (some (options, left)) ∧
          OptionsPassed p.data hdrlen options left) ∨
    (¬ OptionsReached p hdrlen ∧ passOptions p hdrlen = .ok none) := by
  by_cases first : hdrlen ≤ p.head.len
  · exact .inl ⟨Nat.le_add_right_of_le first,
      passOptions_first held fits least first⟩
  · cases tail : p.tail with
    | nil =>
        rw [Chain.data_length held, tail] at inside
        exact absurd inside (by simpa using first)
    | cons next rest =>
        have reached :
            OptionsReached p hdrlen ↔ hdrlen ≤ p.head.len + next.len := by
          rw [OptionsReached, tail]
          rfl
        by_cases second : hdrlen ≤ p.head.len + next.len
        · exact .inl ⟨reached.mpr second,
            passOptions_second held fits most header (by omega) tail second⟩
        · refine .inr ⟨fun reach => second (reached.mp reach), ?_⟩
          rw [passOptions, if_neg first, tail]
          dsimp only
          rw [if_pos (by omega)]

end Passing

/-! ## Reading the options where they lie -/

section Options

variable {byte byte' : Nat → UInt8} {optlen : Nat}

theorem two_le_toNat
    {found : UInt8}
    (high : ¬ found < 2) :
    2 ≤ found.toNat :=
  UInt8.le_iff_toNat_le.mp (UInt8.not_lt.mp high)

theorem toNat_eq_iff
    {found : UInt8}
    {value : Nat}
    (small : value < 256) :
    found.toNat = value ↔ found = UInt8.ofNat value := by
  rw [← UInt8.toNat_inj, UInt8.toNat_ofNat', Nat.mod_eq_of_lt small]

/-- The options of a packet are read as options that lie together. -/
theorem tcpParseoptFrom_eq
    (options : Bytes)
    (rounds optidx mss : Nat) :
    tcpParseoptFrom options rounds optidx mss =
      parseoptFrom (byteAt options) options.length rounds optidx mss := by
  induction rounds generalizing optidx mss with
  | zero => rfl
  | succ rounds ih =>
      have low (found : UInt8) : found.toNat < 2 ↔ found < 2 := by
        rw [UInt8.lt_iff_toNat_lt]
        rfl
      have read (index : Nat) : options.getD index 0 = byteAt options index :=
        rfl
      rw [tcpParseoptFrom, parseoptFrom]
      simp only [read, ih, low, toNat_eq_iff (show 0 < 256 by decide),
        toNat_eq_iff (show 1 < 256 by decide),
        toNat_eq_iff (show 2 < 256 by decide),
        toNat_eq_iff (show 4 < 256 by decide), ne_eq]
      rfl

/-- Behind the options the search ends. -/
theorem parseoptFrom_end
    (rounds optidx mss : Nat)
    (behind : optlen ≤ optidx) :
    parseoptFrom byte optlen rounds optidx mss = mss := by
  cases rounds with
  | zero => rfl
  | succ rounds => rw [parseoptFrom, if_neg (by omega)]

/-- An option that begins with the last byte ends the search, whatever the
byte behind the options. -/
theorem parseoptFrom_last
    {optidx : Nat}
    (rounds mss : Nat)
    (last : optlen ≤ optidx + 1) :
    (if byte (optidx + 1) < 2 then
      mss
    else
      parseoptFrom byte optlen rounds (optidx + (byte (optidx + 1)).toNat)
        mss) = mss := by
  by_cases low : byte (optidx + 1) < 2
  · rw [if_pos low]
  · have least := two_le_toNat low
    rw [if_neg low, parseoptFrom_end _ _ _ (by omega)]

/-- A byte behind the options does not matter: the option it belongs to is
left out, or it ends the search. -/
theorem parseoptFrom_congr
    (agrees : ∀ index < optlen, byte index = byte' index)
    (rounds optidx mss : Nat) :
    parseoptFrom byte optlen rounds optidx mss =
      parseoptFrom byte' optlen rounds optidx mss := by
  induction rounds generalizing optidx mss with
  | zero => rfl
  | succ rounds ih =>
      rw [parseoptFrom, parseoptFrom]
      by_cases within : optidx < optlen
      · rw [if_pos within, if_pos within, agrees optidx within, ih (optidx + 1)]
        by_cases whole : optlen < optidx + 4
        · have short (found : UInt8) : found ≠ 4 ∨ optlen < optidx + 4 :=
            Or.inr whole
          rw [if_pos (short _), if_pos (short _)]
          by_cases next : optidx + 1 < optlen
          · rw [agrees (optidx + 1) next, ih]
          · rw [parseoptFrom_last rounds mss (by omega),
              parseoptFrom_last rounds mss (by omega)]
        · rw [agrees (optidx + 1) (by omega), agrees (optidx + 2) (by omega),
            agrees (optidx + 3) (by omega), ih (optidx + 4), ih]
      · rw [if_neg within, if_neg within]

/-- More rounds than there are option bytes change nothing. -/
theorem parseoptFrom_rounds
    (first second optidx mss : Nat)
    (enough : optlen ≤ optidx + first)
    (enough' : optlen ≤ optidx + second) :
    parseoptFrom byte optlen first optidx mss =
      parseoptFrom byte optlen second optidx mss := by
  induction first generalizing second optidx mss with
  | zero =>
      have behind : optlen ≤ optidx := enough
      rw [parseoptFrom_end _ _ _ behind, parseoptFrom_end _ _ _ behind]
  | succ first ih =>
      cases second with
      | zero =>
          have behind : optlen ≤ optidx := enough'
          rw [parseoptFrom_end _ _ _ behind, parseoptFrom_end _ _ _ behind]
      | succ second =>
          rw [parseoptFrom, parseoptFrom, ih second (optidx + 1) mss (by omega)
            (by omega)]
          by_cases low : byte (optidx + 1) < 2
          · rw [if_pos low, if_pos low]
            simp only [ih second (optidx + 4) _ (by omega) (by omega)]
          · have least := two_le_toNat low
            simp only [ih second (optidx + 4) _ (by omega) (by omega),
              ih second (optidx + (byte (optidx + 1)).toNat) _ (by omega)
                (by omega)]

/-- At most one byte behind the options is read. -/
theorem parseoptReads_le
    (rounds optidx : Nat) :
    ∀ index ∈ parseoptReads byte optlen rounds optidx, index ≤ optlen := by
  induction rounds generalizing optidx with
  | zero =>
      intro index member
      exact absurd member List.not_mem_nil
  | succ rounds ih =>
      intro index member
      rw [parseoptReads] at member
      by_cases within : optidx < optlen
      · rw [if_pos within, List.mem_cons] at member
        rcases member with rfl | member
        · exact within.le
        · split at member
          · exact absurd member List.not_mem_nil
          · split at member
            · exact ih _ index member
            · split at member
              · split at member
                · rw [List.mem_singleton.mp member]
                  exact within
                · next whole =>
                    have room := not_lt.mp (not_or.mp whole).2
                    simp only [List.mem_cons] at member
                    rcases member with rfl | rfl | rfl | member
                    · omega
                    · omega
                    · omega
                    · exact ih _ index member
              · split at member
                · rw [List.mem_singleton.mp member]
                  exact within
                · rcases List.mem_cons.mp member with rfl | member
                  · exact within
                  · exact ih _ index member
      · rw [if_neg within] at member
        exact absurd member List.not_mem_nil

end Options

/-! ## The header of a segment of any layout -/

theorem hdrlenBytes_le (word : BitVec 16) : hdrlenBytes word ≤ 60 := by
  have small := (word >>> 12).isLt
  rw [hdrlenBytes]
  rw [BitVec.toNat_ushiftRight, Nat.shiftRight_eq_div_pow] at *
  omega

/-- What `tcp_input` knows of a segment before it looks for a pcb. -/
structure HeaderFound
    (src dest : IpAddr)
    (data : Bytes)
    (packet : Packet)
    (options : TcpOptions) : Prop where
  reading : packet = segmentOf src dest data
  parsed :
    ∀ rounds ≥ options.optlen, ∀ pcb,
      options.parseopt rounds pcb = tcpParseopt packet.options pcb
  reads :
    ∀ rounds,
      ∀ index ∈ parseoptReads options.byte options.optlen rounds 0,
        index ≤ options.optlen

section Header

variable {src dest : IpAddr} {p : Chain}

/-- A header that is passed over is found. -/
theorem OptionsPassed.found
    {bytes : Bytes}
    {options : TcpOptions}
    {left : Chain}
    (passed : OptionsPassed bytes (hdrlenOf bytes) options left)
    (least : tcpHlen ≤ hdrlenOf bytes)
    (inside : hdrlenOf bytes ≤ bytes.length) :
    HeaderFound src dest bytes (segmentOf src dest bytes) options := by
  have length :
      ((bytes.drop tcpHlen).take (hdrlenOf bytes - tcpHlen)).length =
        options.optlen := by
    rw [List.length_take, List.length_drop, passed.optlen]
    omega
  refine ⟨rfl, ?_, fun rounds => parseoptReads_le rounds 0⟩
  intro rounds enough pcb
  have read :
      ∀ index < options.optlen,
        options.byte index =
          byteAt (segmentOf src dest bytes).options index := by
    intro index within
    rw [passed.byte index within, segmentOf,
      byteAt_take (by rw [passed.optlen] at within; exact within), byteAt_drop]
  rw [TcpOptions.parseopt, tcpParseopt, tcpParseoptFrom_eq,
    parseoptFrom_rounds rounds options.optlen 0 _ (by omega) (by omega),
    parseoptFrom_congr read]
  rw [segmentOf, length]

/-- The segment is what the bytes say, and its length does not wrap. -/
theorem OptionsPassed.hostOrder
    {options : TcpOptions}
    {left : Chain}
    (passed : OptionsPassed p.data (hdrlenOf p.data) options left)
    (held : p.Held)
    (fits : p.data.length ≤ 65535)
    (first : tcpHlen ≤ p.head.len)
    (least : tcpHlen ≤ hdrlenOf p.data)
    (inside : hdrlenOf p.data ≤ p.data.length) :
    hostOrder src dest p.head options left =
      some (segmentOf src dest p.data, options) := by
  have header : 20 ≤ p.head.len := first
  have start : wordAt p.head.mem p.head.payload = wordAt p.data 0 :=
    @Chain.wordAt_data p held 0 (by omega)
  have read :
      (List.range options.optlen).map options.byte =
        (p.data.drop tcpHlen).take (hdrlenOf p.data - tcpHlen) := by
    rw [map_range_bytes (by rw [passed.optlen]; omega) passed.byte,
      passed.optlen]
  have short : left.totLen < 65535 := by
    rw [passed.totLen, List.length_drop]
    unfold tcpHlen at least
    omega
  rw [NetstackLwip.hostOrder, if_neg]
  · rw [start, read, passed.data, Chain.wordAt_data held (by omega),
      Chain.wordAt_data held (by omega), Chain.wordAt_data held (by omega),
      Chain.wordAt_data held (by omega), Chain.longAt_data held (by omega), Chain.longAt_data held (by omega)]
    rfl
  · split <;> omega

/-- Behind the first checks the header length decides. -/
theorem tcpInputHeader_eq
    (held : p.Held)
    (fits : p.data.length ≤ 65535)
    (first : tcpHlen ≤ p.head.len)
    (one : dest.isBroadcast = false ∧ dest.isMulticast = false) :
    tcpInputHeader src dest p =
      if hdrlenOf p.data < tcpHlen ∨ p.data.length < hdrlenOf p.data then
        .ok none
      else
        passOptions p (hdrlenOf p.data) >>= fun passed =>
          pure (passed.bind fun found =>
            hostOrder src dest p.head found.1 found.2) := by
  have word : wordAt p.head.mem (p.head.payload + 12) = wordAt p.data 12 :=
    Chain.wordAt_data held (Nat.lt_of_lt_of_le (by decide) first)
  have host : ¬ (dest.isBroadcast || dest.isMulticast) = true := by
    rw [one.1, one.2]
    decide
  rw [tcpInputHeader, if_neg (by omega), if_neg host, word,
    Chain.totLen_eq held fits]
  rfl

/-- A header that is taken is found. -/
theorem tcpInputHeader_taken
    (held : p.Held)
    (fits : p.data.length ≤ 65535)
    (taken : HeaderTaken dest p) :
    ∃ options,
      tcpInputHeader src dest p =
          .ok (some (segmentOf src dest p.data, options)) ∧
        HeaderFound src dest p.data (segmentOf src dest p.data) options := by
  obtain ⟨first, one, least, inside, second⟩ := taken
  have most : hdrlenOf p.data ≤ 60 := hdrlenBytes_le _
  rcases passOptions_returned held fits most first least inside with
    ⟨_, options, left, passes, passed⟩ | ⟨unreached, _⟩
  · refine ⟨options, ?_, passed.found least inside⟩
    rw [tcpInputHeader_eq held fits first one, if_neg (by omega), passes]
    exact congrArg Except.ok (passed.hostOrder held fits first least inside)
  · exact absurd second unreached

/-- Any other is dropped. -/
theorem tcpInputHeader_dropped
    (held : p.Held)
    (fits : p.data.length ≤ 65535)
    (untaken : ¬ HeaderTaken dest p) :
    tcpInputHeader src dest p = .ok none := by
  by_cases first : tcpHlen ≤ p.head.len
  · by_cases one : dest.isBroadcast = false ∧ dest.isMulticast = false
    · rw [tcpInputHeader_eq held fits first one]
      by_cases sane :
          tcpHlen ≤ hdrlenOf p.data ∧ hdrlenOf p.data ≤ p.data.length
      · have most : hdrlenOf p.data ≤ 60 := hdrlenBytes_le _
        rcases passOptions_returned held fits most first sane.1 sane.2 with
          ⟨reached, _⟩ | ⟨_, passes⟩
        · exact absurd ⟨first, one, sane.1, sane.2, reached⟩ untaken
        · rw [if_neg (by omega), passes]
          rfl
      · rw [if_pos (by omega)]
    · rw [tcpInputHeader, if_neg (by omega), if_pos]
      · rfl
      · rw [← Bool.not_eq_false, Bool.or_eq_false_iff]
        exact one
  · rw [tcpInputHeader, if_pos (by omega)]
    rfl

end Header

/-- However a segment is cut into buffers, `tcp_input` takes it exactly if its
header lies in the first buffer and its options in the first two, and finds
what the bytes say. No assertion fails. -/
theorem tcp_header_of_any_layout
    (src dest : IpAddr)
    (p : Chain)
    (held : p.Held)
    (fits : p.data.length ≤ 65535) :
    ∃ found,
      tcpInputHeader src dest p = .ok found ∧
        (found.isSome ↔ HeaderTaken dest p) ∧
        ∀ packet options,
          found = some (packet, options) →
            HeaderFound src dest p.data packet options := by
  by_cases taken : HeaderTaken dest p
  · obtain ⟨options, parsed, found⟩ :=
      @tcpInputHeader_taken src dest p held fits taken
    refine ⟨_, parsed, iff_of_true rfl taken, ?_⟩
    intro packet other same
    obtain ⟨rfl, rfl⟩ := Prod.mk.inj (Option.some.inj same)
    exact found
  · refine ⟨none, tcpInputHeader_dropped held fits taken,
      iff_of_false Bool.false_ne_true taken, ?_⟩
    intro packet options found
    exact absurd found (Option.some_ne_none _).symm

/-- A SYN whose MSS option is cut in the middle. -/
def cutSyn : Chain where
  head :=
    { addr := 0
      mem :=
        [0x04, 0xd2, 0, 80, 0, 0, 0, 1, 0, 0, 0, 0, 0x60, 2, 0x10, 0, 0, 0, 0,
          0, 2, 4]
      len := 22 }
  tail := [{ addr := 1, mem := [0x03, 0xe8], len := 2 }]

theorem tcp_header_of_any_layout_cutSyn :
    (tcpInputHeader (.v4 0x0a000001) (.v4 0x0a000002) cutSyn =
      .ok (some
        ({ srcIp := .v4 0x0a000001
           destIp := .v4 0x0a000002
           src := 1234
           dest := 80
           seqno := 1
           ackno := 0
           flags := { syn := true }
           wnd := 4096
           options := [2, 4, 3, 0xe8]
           payload := [] },
          { hdr := cutSyn.head
            optlen := 4
            opt1len := 2
            opt2 := cutSyn.tail.head? }))) ∧
      ∃ found,
        tcpInputHeader (.v4 0x0a000001) (.v4 0x0a000002) cutSyn = .ok found ∧
          (found.isSome ↔ HeaderTaken (.v4 0x0a000002) cutSyn) ∧
          ∀ packet options,
            found = some (packet, options) →
              HeaderFound (.v4 0x0a000001) (.v4 0x0a000002) cutSyn.data packet
                options :=
  ⟨by decide,
    tcp_header_of_any_layout (.v4 0x0a000001) (.v4 0x0a000002) cutSyn
      ⟨by unfold PBuf.Held; decide,
        List.forall_mem_singleton.mpr (by unfold PBuf.Held; decide)⟩
      (by decide)⟩

end NetstackLwip

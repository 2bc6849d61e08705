import NetstackLwip.TcpTypes

namespace NetstackLwip

/-!
# Incoming packet buffers

`NetStack::poll_flush` copies each vector into one pbuf of type `PBUF_RAM`;
reassembly chains such pbufs. A buffer keeps the bytes it was given, those
before `payload` included, since IPv6 reassembly moves headers inside it.
The `tot_len` of a chain is a `u16_t` that every operation keeps equal to the
sum of the lengths modulo 2^16, so it is computed.
-/

/-! ## Bytes at an index -/

/-- The byte at `index`. -/
def byteAt (bytes : Bytes) (index : Nat) : UInt8 :=
  bytes.getD index 0

/-- The 16-bit word in network byte order at `index`. -/
def wordAt (bytes : Bytes) (index : Nat) : BitVec 16 :=
  (byteAt bytes index).toBitVec ++ (byteAt bytes (index + 1)).toBitVec

/-- The 32-bit word in network byte order at `index`. -/
def longAt (bytes : Bytes) (index : Nat) : BitVec 32 :=
  wordAt bytes index ++ wordAt bytes (index + 2)

/-- The 128-bit address in network byte order at `index`. -/
def addrAt (bytes : Bytes) (index : Nat) : BitVec 128 :=
  longAt bytes index ++ longAt bytes (index + 4) ++
    (longAt bytes (index + 8) ++ longAt bytes (index + 12))

/-- `bytes` with `new` written over it from `index` on. -/
def overwrite (bytes : Bytes) (index : Nat) (new : Bytes) : Bytes :=
  bytes.take index ++ new ++ bytes.drop (index + new.length)

section Index

variable {bytes : Bytes} {index size : Nat}

theorem byteAt_take
    (within : index < size) :
    byteAt (bytes.take size) index = byteAt bytes index := by
  simp [byteAt, within]

@[simp]
theorem byteAt_drop :
    byteAt (bytes.drop size) index = byteAt bytes (size + index) := by
  simp [byteAt, List.getElem?_drop]

theorem drop_eq_byteAt_cons
    (within : index < bytes.length) :
    bytes.drop index = byteAt bytes index :: bytes.drop (index + 1) := by
  rw [List.drop_eq_getElem_cons within]
  simp [byteAt, within]

theorem byteAt_append_left
    {more : Bytes}
    (within : index < bytes.length) :
    byteAt (bytes ++ more) index = byteAt bytes index := by
  simp [byteAt, List.getElem?_append_left within]

theorem byteAt_append_right
    {more : Bytes} :
    byteAt (bytes ++ more) (bytes.length + index) = byteAt more index := by
  simp [byteAt, List.getElem?_append_right]

theorem wordAt_append_left
    {more : Bytes}
    (within : index + 1 < bytes.length) :
    wordAt (bytes ++ more) index = wordAt bytes index := by
  rw [wordAt, byteAt_append_left (by omega), byteAt_append_left within, wordAt]

theorem wordAt_take
    (within : index + 1 < size) :
    wordAt (bytes.take size) index = wordAt bytes index := by
  simp only [wordAt]
  rw [byteAt_take (by omega), byteAt_take within]

@[simp]
theorem wordAt_drop :
    wordAt (bytes.drop size) index = wordAt bytes (size + index) := by
  simp [wordAt, Nat.add_assoc]

theorem longAt_take
    (within : index + 3 < size) :
    longAt (bytes.take size) index = longAt bytes index := by
  simp only [longAt]
  rw [wordAt_take (by omega), wordAt_take (by omega)]

theorem wordAt_toNat :
    (wordAt bytes index).toNat =
      (byteAt bytes index).toNat * 256 + (byteAt bytes (index + 1)).toNat := by
  rw [wordAt, BitVec.toNat_append, UInt8.toNat_toBitVec, UInt8.toNat_toBitVec,
    ← Nat.shiftLeft_add_eq_or_of_lt (byteAt bytes (index + 1)).toNat_lt,
    Nat.shiftLeft_eq]

theorem longAt_toNat :
    (longAt bytes index).toNat =
      (wordAt bytes index).toNat * 65536 +
        (wordAt bytes (index + 2)).toNat := by
  rw [longAt, BitVec.toNat_append,
    ← Nat.shiftLeft_add_eq_or_of_lt (wordAt bytes (index + 2)).isLt,
    Nat.shiftLeft_eq]

/-- The upper half of the first byte is that of the word. -/
theorem longAt_version :
    (longAt bytes index >>> 28).toNat =
      (byteAt bytes index >>> 4).toNat := by
  have second := (byteAt bytes (index + 1)).toNat_lt
  have low := (wordAt bytes (index + 2)).isLt
  rw [BitVec.toNat_ushiftRight, longAt_toNat, wordAt_toNat,
    UInt8.toNat_shiftRight, Nat.shiftRight_eq_div_pow,
    Nat.shiftRight_eq_div_pow, show UInt8.toNat 4 % 8 = 4 from rfl]
  omega

theorem addrAt_take
    (within : index + 15 < size) :
    addrAt (bytes.take size) index = addrAt bytes index := by
  simp only [addrAt]
  rw [longAt_take (by omega), longAt_take (by omega), longAt_take (by omega),
    longAt_take (by omega)]

theorem overwrite_length
    {new : Bytes}
    (fits : index + new.length ≤ bytes.length) :
    (overwrite bytes index new).length = bytes.length := by
  simp only [overwrite, List.length_append, List.length_take, List.length_drop]
  omega

/-- Writing does not shorten. -/
theorem length_le_overwrite
    (new : Bytes) :
    bytes.length ≤ (overwrite bytes index new).length := by
  simp only [overwrite, List.length_append, List.length_take, List.length_drop]
  omega

/-- What lies beside the bytes written is kept. -/
theorem byteAt_overwrite
    {new : Bytes}
    {other : Nat}
    (fits : index + new.length ≤ bytes.length)
    (beside : other < index ∨ index + new.length ≤ other) :
    byteAt (overwrite bytes index new) other = byteAt bytes other := by
  have front : (bytes.take index ++ new).length = index + new.length := by
    rw [List.length_append, List.length_take]
    omega
  rw [overwrite]
  rcases beside with before | after
  · rw [byteAt_append_left (by omega), byteAt_append_left, byteAt_take before]
    rw [List.length_take]
    omega
  · obtain ⟨gap, rfl⟩ := Nat.exists_eq_add_of_le after
    rw [← front, byteAt_append_right, byteAt_drop, front]

end Index

/-! ## Buffers -/

/-- A `struct pbuf` of type `PBUF_RAM`: `addr` tells buffers apart, and
`payload` is an index into `mem`. -/
structure PBuf where
  addr : Nat
  mem : Bytes
  payload : Nat := 0
  len : Nat
  deriving DecidableEq, Repr

namespace PBuf

/-- The data of the buffer. -/
def data (p : PBuf) : Bytes :=
  (p.mem.drop p.payload).take p.len

/-- The first `size` bytes from `payload` on. -/
def front (p : PBuf) (size : Nat) : Bytes :=
  (p.mem.drop p.payload).take size

/-- `pbuf_realloc` of a chain of one buffer. -/
def realloc (p : PBuf) (newLen : Nat) : PBuf :=
  if p.len ≤ newLen then p else { p with len := newLen }

/-- `pbuf_remove_header` once its check has passed. -/
def skip (p : PBuf) (size : Nat) : PBuf :=
  { p with payload := p.payload + size, len := p.len - size }

/-- The buffer ends inside its memory. -/
def Held (p : PBuf) : Prop :=
  p.payload + p.len ≤ p.mem.length

@[simp]
theorem skip_mem (p : PBuf) (size : Nat) : (p.skip size).mem = p.mem :=
  rfl

@[simp]
theorem skip_payload (p : PBuf) (size : Nat) :
    (p.skip size).payload = p.payload + size :=
  rfl

@[simp]
theorem skip_len (p : PBuf) (size : Nat) :
    (p.skip size).len = p.len - size :=
  rfl

theorem data_length {p : PBuf} (held : p.Held) : p.data.length = p.len := by
  unfold Held at held
  simp only [data, List.length_take, List.length_drop]
  omega

@[simp]
theorem skip_data (p : PBuf) (size : Nat) :
    (p.skip size).data = p.data.drop size := by
  simp [data, skip, List.drop_take, Nat.add_comm]

theorem Held.skip {p : PBuf} (held : p.Held) {size : Nat}
    (fits : size ≤ p.len) : (p.skip size).Held := by
  unfold Held at held ⊢
  simp only [skip_payload, skip_len, skip_mem]
  omega

theorem skip_skip (p : PBuf) (first second : Nat) :
    (p.skip first).skip second = p.skip (first + second) := by
  simp [skip, Nat.add_assoc, Nat.sub_sub]

/-- A byte of the data, read in the memory. -/
theorem byteAt_data {p : PBuf} {index : Nat} (within : index < p.len) :
    byteAt p.mem (p.payload + index) = byteAt p.data index := by
  rw [data, byteAt_take within, byteAt_drop]

theorem wordAt_data {p : PBuf} {index : Nat} (within : index + 1 < p.len) :
    wordAt p.mem (p.payload + index) = wordAt p.data index := by
  rw [data, wordAt_take within, wordAt_drop]

end PBuf

/-- A chain of buffers. -/
structure Chain where
  head : PBuf
  tail : List PBuf := []
  deriving DecidableEq, Repr

namespace Chain

/-- `tot_len`. -/
def totLen (p : Chain) : Nat :=
  (p.head.len + (p.tail.map PBuf.len).sum) % 65536

/-- `pbuf_clen`. -/
def clen (p : Chain) : Nat :=
  1 + p.tail.length

/-- The data of the chain. -/
def data (p : Chain) : Bytes :=
  p.head.data ++ p.tail.flatMap PBuf.data

/-- `pbuf_cat`. -/
def cat (p t : Chain) : Chain :=
  { p with tail := p.tail ++ t.head :: t.tail }

/-- `pbuf_remove_header` once its check has passed. -/
def skip (p : Chain) (size : Nat) : Chain :=
  { p with head := p.head.skip size }

@[simp]
theorem skip_head (p : Chain) (size : Nat) :
    (p.skip size).head = p.head.skip size :=
  rfl

@[simp]
theorem skip_tail (p : Chain) (size : Nat) : (p.skip size).tail = p.tail :=
  rfl

theorem skip_skip (p : Chain) (first second : Nat) :
    (p.skip first).skip second = p.skip (first + second) := by
  simp [skip, PBuf.skip_skip]

/-- Every buffer ends inside its memory. -/
def Held (p : Chain) : Prop :=
  p.head.Held ∧ ∀ q ∈ p.tail, q.Held

theorem data_length {p : Chain} (held : p.Held) :
    p.data.length = p.head.len + (p.tail.map PBuf.len).sum := by
  have tail : p.tail.map (List.length ∘ PBuf.data) = p.tail.map PBuf.len :=
    List.map_congr_left fun q member => PBuf.data_length (held.2 q member)
  rw [data, List.length_append, PBuf.data_length held.1, List.length_flatMap]
  exact congrArg (fun lens => p.head.len + List.sum lens) tail

theorem skip_data {p : Chain} (held : p.Held) {size : Nat}
    (fits : size ≤ p.head.len) : (p.skip size).data = p.data.drop size := by
  rw [data, data, skip_head, skip_tail, PBuf.skip_data,
    List.drop_append_of_le_length (by rw [PBuf.data_length held.1]; exact fits)]

theorem Held.skip {p : Chain} (held : p.Held) {size : Nat}
    (fits : size ≤ p.head.len) : (p.skip size).Held :=
  ⟨held.1.skip fits, held.2⟩

/-- A word of the data that lies in the first buffer, read in its memory. -/
theorem wordAt_data {p : Chain} (held : p.Held) {index : Nat}
    (within : index + 1 < p.head.len) :
    wordAt p.head.mem (p.head.payload + index) = wordAt p.data index := by
  rw [PBuf.wordAt_data within, data, wordAt_append_left]
  rw [PBuf.data_length held.1]
  exact within

/-- `pbuf_add_header_impl`: nothing when `tot_len` would wrap, or the buffer
does not begin that far ahead. -/
def addHeader (p : Chain) (size : Nat) : Option Chain :=
  if (size + p.totLen) % 65536 < size ∨ p.head.payload < size then
    none
  else
    some {
      p with
      head := {
        p.head with
        payload := p.head.payload - size
        len := (p.head.len + size) % 65536 } }

end Chain

end NetstackLwip

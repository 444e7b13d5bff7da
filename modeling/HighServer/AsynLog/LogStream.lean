import HighServer.AsynLog.Convert
import HighServer.AsynLog.FixedBuffer

/-!
# Streaming into a small buffer

`LogStream` writes into an array of 4000 bytes. The paths for numbers look at `avail()` once, write
with a terminator, and advance `cur_` afterwards; the paths for strings compare `avail()` with a
length that has been converted to `size_t`.

* `FixedBuffer.store`, `FixedBuffer.add`: what is not checked; `OutOfBounds` if it leaves the array;
* `Insertion`: a value for one of the `operator<<` or for `LogStream::append`, with its `text`, and
  `Insertion.Rejected`, the state of the buffer in which it is dropped;
* `perform_spec`: one insertion; **`insertions_bounded`**: every sequence of them.
-/

namespace HighServer

open Storage

def kSmallBuffer : ℕ := 4000

/-- A byte is written, or `cur_` is set, outside of the array. -/
inductive OutOfBounds where
  | store
  | add
  deriving DecidableEq, Repr

namespace FixedBuffer

variable {SIZE : ℕ}

/-- Bytes written through `current()`. -/
def store (b : FixedBuffer SIZE) (bytes : List UInt8) : Except OutOfBounds (FixedBuffer SIZE) :=
  if h : b.cur_ + bytes.length ≤ SIZE then
    .ok { b with data_ := ⟨blit b.data_.val b.cur_ bytes, by
      rw [length_blit (by rw [b.data_.property]; exact h), b.data_.property]⟩ }
  else .error .store

def add (b : FixedBuffer SIZE) (len : ℕ) : Except OutOfBounds (FixedBuffer SIZE) :=
  if h : b.cur_ + len ≤ SIZE then .ok { b with cur_ := b.cur_ + len, cur_le := h }
  else .error .add

variable {b : FixedBuffer SIZE}

/-- Text and a terminator are written, and `cur_` is advanced behind the text. -/
theorem store_add {text : List UInt8} (h : b.cur_ + text.length < SIZE) :
    ∃ b', (b.store (text ++ [0]) >>= fun b => b.add text.length) = .ok b' ∧
      b'.toString = b.toString ++ text ∧ b'.length = b.length + text.length := by
  have hfit : b.cur_ + (text ++ [0]).length ≤ b.data_.val.length := by
    rw [b.data_.property, List.length_append, List.length_singleton]
    omega
  have hself := slice_blit_self hfit
  have hstore : b.cur_ + (text ++ [0]).length ≤ SIZE := by
    rw [b.data_.property] at hfit
    exact hfit
  have hadd : b.cur_ + text.length ≤ SIZE := h.le
  have hmem : (blit b.data_.val b.cur_ (text ++ [0])).length = SIZE := by
    rw [length_blit hfit, b.data_.property]
  refine ⟨⟨⟨blit b.data_.val b.cur_ (text ++ [0]), hmem⟩, b.cur_ + text.length, hadd⟩, ?_, ?_, rfl⟩
  · unfold store
    rw [dif_pos hstore]
    exact dif_pos hadd
  · have htext : slice (blit b.data_.val b.cur_ (text ++ [0])) b.cur_ (b.cur_ + text.length) =
        text := by
      have htake := congrArg (List.take text.length) hself
      rwa [take_slice (by rw [List.length_append]; omega), List.take_left' rfl] at htake
    have hold : slice (blit b.data_.val b.cur_ (text ++ [0])) 0 b.cur_ =
        slice b.data_.val 0 b.cur_ :=
      slice_blit_left hfit le_rfl
    calc (blit b.data_.val b.cur_ (text ++ [0])).take (b.cur_ + text.length)
        = slice (blit b.data_.val b.cur_ (text ++ [0])) 0 (b.cur_ + text.length) := by
          rw [slice, List.drop_zero]
      _ = slice b.data_.val 0 b.cur_ ++ text := by
          rw [← slice_append_slice (Nat.zero_le b.cur_) (Nat.le_add_right _ _), hold, htext]
      _ = b.toString ++ text := by
          rw [slice, List.drop_zero]
          rfl

theorem append_of_le {buf : List UInt8} (h : b.avail ≤ buf.length) : b.append buf = b := by
  rw [append, dif_neg (not_lt.mpr h)]

theorem length_append {buf : List UInt8} (h : buf.length < b.avail) :
    (b.append buf).length = b.length + buf.length := by
  rw [append, dif_pos h]
  rfl

end FixedBuffer

structure LogStream where
  buffer_ : FixedBuffer kSmallBuffer

namespace LogStream

def kMaxNumericSize : ℕ := 48

/-- The constructor. -/
def new (memory : Memory kSmallBuffer) : LogStream := ⟨FixedBuffer.new memory⟩

/-- What stands in the buffer. -/
def text (s : LogStream) : Bytes := s.buffer_.toString

/-! ## Arguments -/

/-- A pointer and an `int` length, as `StringPiece`, `SourceFile` and the arguments of
`LogStream::append` have them. -/
structure Chars where
  data : Bytes
  len : ℤ
  int : -2 ^ 31 ≤ len ∧ len < 2 ^ 31
  fits : 0 ≤ len → (data.length : ℤ) = len

/-- `static_cast<size_t>(len)` -/
def Chars.size (c : Chars) : ℕ := (c.len % 2 ^ 64).toNat

/-- The floating-point types, with `static_cast<double>` and the characters of `"%.12g"`. -/
structure Printf where
  Float : Type
  Double : Type
  widen : Float → Double
  format : Double → Bytes

/-- A `short`, converted to `int`. -/
def ofShort (v : ℤ) (h : -2 ^ 15 ≤ v ∧ v ≤ 2 ^ 15 - 1) : Value .int :=
  ⟨v, by
    have hmin : IntegerType.int.min = -2 ^ 31 := by decide
    have hmax : IntegerType.int.max = 2 ^ 31 - 1 := by decide
    omega⟩

/-- An `unsigned short`, converted to `unsigned int`. -/
def ofUnsignedShort (v : ℤ) (h : 0 ≤ v ∧ v ≤ 2 ^ 16 - 1) : Value .unsignedInt :=
  ⟨v, by
    have hmin : IntegerType.unsignedInt.min = 0 := by decide
    have hmax : IntegerType.unsignedInt.max = 2 ^ 32 - 1 := by decide
    omega⟩

/-- A call of `operator<<` or of `append`. -/
inductive Insertion (P : Printf) where
  | bool (v : Bool)
  | short (v : ℤ) (h : -2 ^ 15 ≤ v ∧ v ≤ 2 ^ 15 - 1)
  | unsignedShort (v : ℤ) (h : 0 ≤ v ∧ v ≤ 2 ^ 16 - 1)
  | integer (T : IntegerType) (v : Value T)
  /-- `const void*` -/
  | pointer (v : Value .unsignedLong)
  | float (v : P.Float)
  | double (v : P.Double)
  | char (v : UInt8)
  /-- `const char*` and `const unsigned char*` -/
  | chars (str : Option Bytes)
  | string (v : Bytes)
  | stringPiece (v : Chars)
  | buffer (v : FixedBuffer kSmallBuffer)
  | sourceFile (v : Chars)
  | append (v : Chars)

/-! ## The operators -/

variable {P : Printf}

def formatInteger {T : IntegerType} (s : LogStream) (v : Value T) :
    Except OutOfBounds LogStream :=
  if kMaxNumericSize ≤ s.buffer_.avail then do
    let (bytes, len) := convert v
    let b ← s.buffer_.store bytes >>= fun b => b.add len
    pure ⟨b⟩
  else pure s

/-- `operator<<(const void*)` -/
def formatPointer (s : LogStream) (v : Value .unsignedLong) : Except OutOfBounds LogStream :=
  if kMaxNumericSize ≤ s.buffer_.avail then do
    let (bytes, len) := convertHex v
    let b ← s.buffer_.store (ascii "0x" ++ bytes) >>= fun b => b.add (len + 2)
    pure ⟨b⟩
  else pure s

/-- `operator<<(double)`; `snprintf` cuts its output at `kMaxNumericSize`, and returns how long it
would have been. -/
def formatDouble (s : LogStream) (v : P.Double) : Except OutOfBounds LogStream :=
  if kMaxNumericSize ≤ s.buffer_.avail then do
    let text := P.format v
    let b ← s.buffer_.store (text.take (kMaxNumericSize - 1) ++ [0]) >>= fun b => b.add text.length
    pure ⟨b⟩
  else pure s

/-- `buffer_.append(str, len)`, with a `size_t` length. -/
def appendString (s : LogStream) (str : Bytes) : LogStream := ⟨s.buffer_.append str⟩

/-- `buffer_.append(data, len)`, with an `int` length. -/
def appendChars (s : LogStream) (c : Chars) : LogStream :=
  if c.size < s.buffer_.avail then ⟨s.buffer_.append (c.data.take c.size)⟩ else s

namespace Insertion

def perform (s : LogStream) : Insertion P → Except OutOfBounds LogStream
  | .bool v => .ok (s.appendString (ascii (if v then "1" else "0")))
  | .short v h => s.formatInteger (ofShort v h)
  | .unsignedShort v h => s.formatInteger (ofUnsignedShort v h)
  | .integer _ v => s.formatInteger v
  | .pointer v => s.formatPointer v
  | .float v => s.formatDouble (P.widen v)
  | .double v => s.formatDouble v
  | .char v => .ok (s.appendString [v])
  | .chars (some str) => .ok (s.appendString str)
  | .chars none => .ok (s.appendString (ascii "(null)"))
  | .string v => .ok (s.appendString v)
  | .stringPiece v => .ok (s.appendChars v)
  | .buffer v => .ok (s.appendString v.toString)
  | .sourceFile v => .ok (s.appendChars v)
  | .append v => .ok (s.appendChars v)

/-- The complete rendering. -/
def text : Insertion P → Bytes
  | .bool v => ascii (if v then "1" else "0")
  | .short v _ => decimal v
  | .unsignedShort v _ => decimal v
  | .integer _ v => decimal v.val
  | .pointer v => ascii "0x" ++ hexadecimal v.val.natAbs
  | .float v => P.format (P.widen v)
  | .double v => P.format v
  | .char v => [v]
  | .chars (some str) => str
  | .chars none => ascii "(null)"
  | .string v => v
  | .stringPiece v => v.data
  | .buffer v => v.toString
  | .sourceFile v => v.data
  | .append v => v.data

/-- The length of a string; a number or a pointer has none. -/
def len : Insertion P → Option ℤ
  | .short _ _ | .unsignedShort _ _ | .integer _ _ | .pointer _ | .float _ | .double _ => none
  | .stringPiece v => some v.len
  | .sourceFile v => some v.len
  | .append v => some v.len
  | e => some e.text.length

/-- Fewer than 48 bytes are free for a number or a pointer, or not more than `len` for a string of
`len` bytes, or `len` is negative. -/
def Rejected (s : LogStream) (e : Insertion P) : Prop :=
  match e.len with
  | none => s.buffer_.avail < kMaxNumericSize
  | some len => len < 0 ∨ (s.buffer_.avail : ℤ) ≤ len

end Insertion

/-! ## One insertion -/

variable {s : LogStream}

/-- What becomes of the buffer: nothing, or `text` behind its contents. -/
structure Inserted (s s' : LogStream) (rejected : Prop) (text : Bytes) : Prop where
  dropped : rejected → s' = s
  appended : ¬ rejected → s'.text = s.text ++ text
  grown : ¬ rejected → s'.buffer_.length = s.buffer_.length + text.length
  below : s.buffer_.length < kSmallBuffer → s'.buffer_.length < kSmallBuffer

/-- The paths for numbers: `text`, of fewer than 48 bytes, is stored with a terminator. -/
theorem number_inserted {text : Bytes} (h : text.length < kMaxNumericSize) :
    ∃ s', (if kMaxNumericSize ≤ s.buffer_.avail then do
        let b ← s.buffer_.store (text ++ [0]) >>= fun b => b.add text.length
        pure ⟨b⟩
      else pure s : Except OutOfBounds LogStream) = .ok s' ∧
      Inserted s s' (s.buffer_.avail < kMaxNumericSize) text := by
  split_ifs with hroom
  · have havail : s.buffer_.avail = kSmallBuffer - s.buffer_.cur_ := rfl
    have hfit : s.buffer_.cur_ + text.length < kSmallBuffer := by omega
    obtain ⟨b, hb, htext, hlen⟩ := FixedBuffer.store_add hfit
    rw [hb]
    refine ⟨⟨b⟩, rfl, fun hr => absurd hroom (not_le.mpr hr), fun _ => htext, fun _ => hlen,
      fun _ => ?_⟩
    have hcur : s.buffer_.length = s.buffer_.cur_ := rfl
    dsimp only
    omega
  · exact ⟨s, rfl, fun _ => rfl, fun hr => absurd (not_le.mp hroom) hr,
      fun hr => absurd (not_le.mp hroom) hr, id⟩

theorem appendString_inserted (s : LogStream) (str : Bytes) :
    Inserted s (s.appendString str) (s.buffer_.avail ≤ str.length) str where
  dropped h := by rw [appendString, FixedBuffer.append_of_le h]
  appended h := FixedBuffer.toString_append (not_le.mp h)
  grown h := FixedBuffer.length_append (not_le.mp h)
  below h := by
    by_cases hle : s.buffer_.avail ≤ str.length
    · rw [appendString, FixedBuffer.append_of_le hle]
      exact h
    · have havail : s.buffer_.avail = kSmallBuffer - s.buffer_.length := rfl
      rw [appendString, FixedBuffer.length_append (not_le.mp hle)]
      omega

/-- A negative length is converted to one that does not fit. -/
theorem size_of_neg {c : Chars} (h : c.len < 0) : kSmallBuffer ≤ c.size := by
  have := c.int
  rw [Chars.size, kSmallBuffer]
  omega

theorem size_of_nonneg {c : Chars} (h : 0 ≤ c.len) : c.size = c.data.length := by
  have := c.int
  have := c.fits h
  rw [Chars.size]
  omega

theorem appendChars_inserted (s : LogStream) (c : Chars) :
    Inserted s (s.appendChars c) (c.len < 0 ∨ (s.buffer_.avail : ℤ) ≤ c.len) c.data := by
  have havail : s.buffer_.avail ≤ kSmallBuffer := Nat.sub_le _ _
  unfold appendChars
  rcases lt_or_ge c.len 0 with hneg | hpos
  · have hsize := size_of_neg hneg
    rw [if_neg (by omega)]
    exact ⟨fun _ => rfl, fun hr => absurd (Or.inl hneg) hr, fun hr => absurd (Or.inl hneg) hr,
      id⟩
  · have hlen := c.fits hpos
    have hout := appendString_inserted s c.data
    rw [size_of_nonneg hpos, List.take_length]
    refine ⟨fun hr => ?_, fun hr => ?_, fun hr => ?_, fun h => ?_⟩
    · rw [if_neg (by omega)]
    · rw [if_pos (by omega)]
      exact hout.appended (by omega)
    · rw [if_pos (by omega)]
      exact hout.grown (by omega)
    · split_ifs
      · exact hout.below h
      · exact h

def insertAll (s : LogStream) (es : List (Insertion P)) : Except OutOfBounds LogStream :=
  es.foldlM Insertion.perform s

theorem formatInteger_inserted (s : LogStream) {T : IntegerType} (v : Value T) :
    ∃ s', s.formatInteger v = .ok s' ∧
      Inserted s s' (s.buffer_.avail < kMaxNumericSize) (decimal v.val) := by
  have hlen := length_decimal_le (IntegerType.natAbs_lt v.property)
  unfold formatInteger
  rw [convert_eq]
  apply number_inserted
  rw [kMaxNumericSize]
  omega

theorem formatPointer_inserted (s : LogStream) (v : Value .unsignedLong) :
    ∃ s', s.formatPointer v = .ok s' ∧ Inserted s s' (s.buffer_.avail < kMaxNumericSize)
      (ascii "0x" ++ hexadecimal v.val.natAbs) := by
  have hlen := length_hexadecimal_le (IntegerType.natAbs_lt v.property)
  have htext : (ascii "0x" ++ hexadecimal v.val.natAbs).length =
      (hexadecimal v.val.natAbs).length + 2 := by
    rw [List.length_append, show (ascii "0x").length = 2 from rfl, add_comm]
  unfold formatPointer
  rw [convertHex_eq]
  dsimp only
  rw [← List.append_assoc, ← htext]
  apply number_inserted
  rw [kMaxNumericSize]
  omega

/-- Nothing of a text with fewer than 48 characters is cut off. -/
theorem formatDouble_inserted (s : LogStream) {v : P.Double}
    (h : (P.format v).length < kMaxNumericSize) : ∃ s', s.formatDouble v = .ok s' ∧
      Inserted s s' (s.buffer_.avail < kMaxNumericSize) (P.format v) := by
  unfold formatDouble
  dsimp only
  rw [List.take_of_length_le (by omega)]
  exact number_inserted h

theorem string_inserted (s : LogStream) (str : Bytes) :
    Inserted s (s.appendString str)
      ((str.length : ℤ) < 0 ∨ (s.buffer_.avail : ℤ) ≤ str.length) str := by
  have hiff : ((str.length : ℤ) < 0 ∨ (s.buffer_.avail : ℤ) ≤ str.length) ↔
      s.buffer_.avail ≤ str.length := by omega
  rw [hiff]
  exact appendString_inserted s str

/-- **One insertion** stays within the array, and is all or nothing. -/
theorem perform_spec (hP : ∀ v, (P.format v).length < kMaxNumericSize) (s : LogStream)
    (e : Insertion P) : ∃ s', e.perform s = .ok s' ∧ Inserted s s' (e.Rejected s) e.text := by
  cases e with
  | short v h => exact s.formatInteger_inserted (ofShort v h)
  | unsignedShort v h => exact s.formatInteger_inserted (ofUnsignedShort v h)
  | integer T v => exact s.formatInteger_inserted v
  | pointer v => exact s.formatPointer_inserted v
  | float v => exact s.formatDouble_inserted (hP (P.widen v))
  | double v => exact s.formatDouble_inserted (hP v)
  | bool v => exact ⟨_, rfl, s.string_inserted _⟩
  | char v => exact ⟨_, rfl, s.string_inserted _⟩
  | chars str =>
    cases str with
    | none => exact ⟨_, rfl, s.string_inserted _⟩
    | some str => exact ⟨_, rfl, s.string_inserted _⟩
  | string v => exact ⟨_, rfl, s.string_inserted _⟩
  | stringPiece v => exact ⟨_, rfl, appendChars_inserted s v⟩
  | buffer v => exact ⟨_, rfl, s.string_inserted _⟩
  | sourceFile v => exact ⟨_, rfl, appendChars_inserted s v⟩
  | append v => exact ⟨_, rfl, appendChars_inserted s v⟩

/-! ## Any sequence -/

theorem insertAll_below (hP : ∀ v, (P.format v).length < kMaxNumericSize)
    (es : List (Insertion P)) : ∀ {s : LogStream}, s.buffer_.length < kSmallBuffer →
    ∃ s', s.insertAll es = .ok s' ∧ s'.buffer_.length < kSmallBuffer := by
  induction es with
  | nil => exact fun h => ⟨_, rfl, h⟩
  | cons e es ih =>
    intro s h
    obtain ⟨t, ht, hins⟩ := perform_spec hP s e
    obtain ⟨s', hs', hlt⟩ := ih (hins.below h)
    refine ⟨s', ?_, hlt⟩
    rw [insertAll, List.foldlM_cons, ht]
    exact hs'

/-- **Streaming** any values into an empty stream: no byte is written and `cur_` is never set
outside of the array; the length stays below 4000; and each further insertion leaves the stream as
it is, if it is rejected in its state, and appends its complete text otherwise. -/
theorem insertions_bounded (hP : ∀ v, (P.format v).length < kMaxNumericSize)
    (memory : Memory kSmallBuffer) (es : List (Insertion P)) :
    ∃ s, (new memory).insertAll es = .ok s ∧ s.buffer_.length < kSmallBuffer ∧
      ∀ e : Insertion P, ∃ s', e.perform s = .ok s' ∧
        (e.Rejected s → s' = s) ∧
        (¬ e.Rejected s → s'.text = s.text ++ e.text ∧
          s'.buffer_.length = s.buffer_.length + e.text.length) := by
  obtain ⟨s, hs, hlt⟩ := insertAll_below hP es (s := new memory)
    (show 0 < kSmallBuffer by decide)
  refine ⟨s, hs, hlt, fun e => ?_⟩
  obtain ⟨s', hs', hins⟩ := perform_spec hP s e
  exact ⟨s', hs', hins.dropped, fun hr => ⟨hins.appended hr, hins.grown hr⟩⟩

/-- A library whose floating-point numbers are integers below 100. -/
def centimal : Printf where
  Float := Fin 10
  Double := Fin 100
  widen v := ⟨v.val, by omega⟩
  format v := decimal v.val

def zeroed : Memory kSmallBuffer := ⟨List.replicate kSmallBuffer 0, List.length_replicate⟩

/-- Two numbers, a string with a negative length, and one that does not fit. -/
def nearlyFull : List (Insertion centimal) :=
  [.string (List.replicate 3950 120), .integer .int ⟨-5, by decide⟩, .double ⟨42, by decide⟩,
    .append ⟨[], -1, by decide, by decide⟩, .string (List.replicate 47 121)]

theorem length_format_centimal : ∀ v : Fin 100, (decimal v.val).length < kMaxNumericSize := by
  decide +kernel

theorem nearlyFull_bounded : ∃ s, (new zeroed).insertAll nearlyFull = .ok s ∧
    s.buffer_.length = 3954 ∧
    ∃ s', Insertion.perform s (.integer .int ⟨7, by decide⟩ : Insertion centimal) = .ok s' ∧
      s' = s := by
  have h : ((new zeroed).insertAll nearlyFull).map (fun s => s.buffer_.length) = .ok 3954 := by
    decide +kernel
  obtain ⟨s, hs, -, hnext⟩ := insertions_bounded (P := centimal) length_format_centimal
    zeroed nearlyFull
  rw [hs] at h
  have hlen : s.buffer_.length = 3954 := Except.ok.inj h
  obtain ⟨s', hs', hsame, -⟩ := hnext (.integer .int ⟨7, by decide⟩)
  refine ⟨s, hs, hlen, s', hs', hsame ?_⟩
  change kSmallBuffer - s.buffer_.length < kMaxNumericSize
  rw [hlen]
  decide

end LogStream

end HighServer

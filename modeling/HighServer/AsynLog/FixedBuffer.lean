import HighServer.Lib.Storage

/-!
# Buffers of fixed size

`FixedBuffer SIZE` is the class template of `FixedBuffer.h`: an array and the offset of the
pointer `cur_` in it. What `reset` leaves behind `cur_` stays in the array.

* `FixedBuffer.toString`: the bytes at `data()`, of which there are `length()`;
* `toString_append`, `toString_reset`: what is visible of an append and a reset.
-/

namespace HighServer

open Storage

def kLargeBuffer : ℕ := 4000 * 1000

/-- What an allocation of `SIZE` bytes returns. -/
abbrev Memory (SIZE : ℕ) := {data : List UInt8 // data.length = SIZE}

structure FixedBuffer (SIZE : ℕ) where
  data_ : Memory SIZE
  cur_ : ℕ
  cur_le : cur_ ≤ SIZE

namespace FixedBuffer

variable {SIZE : ℕ}

/-- The constructor; the array is not initialised. -/
def new (data_ : Memory SIZE) : FixedBuffer SIZE where
  data_
  cur_ := 0
  cur_le := Nat.zero_le _

def bzero (b : FixedBuffer SIZE) : FixedBuffer SIZE :=
  { b with data_ := ⟨List.replicate SIZE 0, List.length_replicate⟩ }

def avail (b : FixedBuffer SIZE) : ℕ := SIZE - b.cur_

def length (b : FixedBuffer SIZE) : ℕ := b.cur_

def toString (b : FixedBuffer SIZE) : List UInt8 := b.data_.val.take b.length

/-- `append`, with the `len` bytes at `buf`. -/
def append (b : FixedBuffer SIZE) (buf : List UInt8) : FixedBuffer SIZE :=
  if h : buf.length < b.avail then
    { data_ := ⟨blit b.data_.val b.cur_ buf, by
        rw [length_blit (by rw [b.data_.property]; unfold avail at h; omega), b.data_.property]⟩
      cur_ := b.cur_ + buf.length
      cur_le := by unfold avail at h; omega }
  else b

def reset (b : FixedBuffer SIZE) : FixedBuffer SIZE :=
  { b with cur_ := 0, cur_le := Nat.zero_le _ }

@[simp] theorem toString_new (data_ : Memory SIZE) : (new data_).toString = [] := List.take_zero

@[simp] theorem toString_reset (b : FixedBuffer SIZE) : b.reset.toString = [] := List.take_zero

@[simp] theorem toString_bzero_new (data_ : Memory SIZE) : (new data_).bzero.toString = [] :=
  List.take_zero

theorem cur_eq_zero_of_toString {b : FixedBuffer SIZE} (h : b.toString = []) : b.cur_ = 0 := by
  have hlen := congrArg List.length h
  rw [toString, List.length_take, b.data_.property, List.length_nil] at hlen
  have := b.cur_le
  unfold length at hlen
  omega

/-- An append that fits adds its bytes, whatever the array holds behind `cur_`. -/
theorem toString_append {b : FixedBuffer SIZE} {buf : List UInt8} (h : buf.length < b.avail) :
    (b.append buf).toString = b.toString ++ buf := by
  have hfit : b.cur_ + buf.length ≤ b.data_.val.length := by
    rw [b.data_.property]; unfold avail at h; omega
  have hsplit : ∀ l : List UInt8, l.take (b.cur_ + buf.length) =
      slice l 0 b.cur_ ++ slice l b.cur_ (b.cur_ + buf.length) := fun l => by
    rw [slice_append_slice (Nat.zero_le _) (Nat.le_add_right _ _), slice, List.drop_zero]
  rw [append, dif_pos h]
  change (blit b.data_.val b.cur_ buf).take (b.cur_ + buf.length) = _
  rw [hsplit, slice_blit_self hfit, slice_blit_left hfit le_rfl, slice, List.drop_zero]
  rfl

end FixedBuffer

end HighServer

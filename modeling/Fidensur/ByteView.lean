import Fidensur.ByteWords

set_option autoImplicit false

namespace ByteView

open ByteWords

/-- A window onto a buffer that may be larger. -/
structure View where
  buffer : Bytes
  byteOffset : ℕ
  length : ℕ
  fits : byteOffset + length ≤ buffer.length

namespace View

variable (v : View)

def bytes : Bytes := (v.buffer.drop v.byteOffset).take v.length

@[simp] theorem length_bytes : v.bytes.length = v.length := by
  have := v.fits
  simp only [bytes, List.length_take, List.length_drop]
  omega

def ofBytes (b : Bytes) : View := ⟨b, 0, b.length, (Nat.zero_add _).le⟩

@[simp] theorem bytes_ofBytes (b : Bytes) : (ofBytes b).bytes = b := by simp [bytes, ofBytes]

@[simp] theorem length_ofBytes (b : Bytes) : (ofBytes b).length = b.length := rfl

def subarray (start stop : ℕ) : View where
  buffer := v.buffer
  byteOffset := v.byteOffset + min start v.length
  length := min stop v.length - min start v.length
  fits := by
    have := v.fits
    omega

@[simp] theorem length_subarray (start stop : ℕ) :
    (v.subarray start stop).length = min stop v.length - min start v.length := rfl

theorem bytes_subarray (start stop : ℕ) : (v.subarray start stop).bytes = (v.bytes.take stop).drop start := by
  simp only [bytes, subarray, List.take_take, List.drop_take, List.drop_drop]
  rcases le_total start v.length with h | h
  · rw [min_eq_left h]
  · have hzero : min stop v.length - min start v.length = 0 := by omega
    have hzero' : min stop v.length - start = 0 := by omega
    rw [hzero, hzero', List.take_zero, List.take_zero]

end View

def zeros (n : ℕ) : Bytes := List.replicate n 0

@[simp] theorem length_zeros (n : ℕ) : (zeros n).length = n := List.length_replicate

/-- `out.set(source, offset)` on an array with a buffer of its own. -/
def set (out : Bytes) (source : View) (offset : ℕ) : Except String Bytes :=
  if offset + source.length ≤ out.length then
    .ok (out.take offset ++ source.bytes ++ out.drop (offset + source.length))
  else .error "offset is out of bounds"

section Filling

variable {before : Bytes} {source : View} {n m offset : ℕ}

theorem set_next (ho : offset = before.length) (hn : n = source.length + m) :
    set (before ++ zeros n) source offset = .ok (before ++ source.bytes ++ zeros m) := by
  subst ho hn
  have hle : before.length + source.length ≤ (before ++ zeros (source.length + m)).length := by
    simp
  rw [set, if_pos hle, List.take_left, List.drop_append]
  simp [zeros]

theorem set_first (hn : n = source.length + m) :
    set (zeros n) source 0 = .ok (source.bytes ++ zeros m) :=
  @set_next [] source n m 0 rfl hn

theorem set_last (ho : offset = before.length) (hn : n = source.length) :
    set (before ++ zeros n) source offset = .ok (before ++ source.bytes) := by
  rw [set_next ho (m := 0) hn, zeros, List.replicate_zero, List.append_nil]

theorem set_whole (hn : n = source.length) : set (zeros n) source 0 = .ok source.bytes :=
  @set_last [] source n 0 rfl hn

end Filling

end ByteView

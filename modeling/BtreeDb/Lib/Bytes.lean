import Mathlib.Data.List.Basic
import Mathlib.Tactic.Ring

/-!
# Byte buffers

A buffer is a list of bytes.  `slice` and `splice` are the bounded forms of a
`memcpy` out of and into a buffer, and `le32`/`u32At` are the little-endian
32-bit accesses.  The lemmas say what a read sees after a write, for the two
ranges equal or disjoint.
-/

namespace Bytes

/-- The `count` bytes starting at `offset`. -/
def slice (buffer : List UInt8) (offset count : Nat) : List UInt8 :=
  (buffer.drop offset).take count

/-- Overwrite the bytes at `offset` with `data`. -/
def splice (buffer : List UInt8) (offset : Nat) (data : List UInt8) :
    List UInt8 :=
  buffer.take offset ++ data ++ buffer.drop (offset + data.length)

/-- Little-endian value of a byte list. -/
def fromLe : List UInt8 → Nat
  | [] => 0
  | byte :: rest => byte.toNat + 256 * fromLe rest

/-- The four little-endian bytes of `value` modulo `2 ^ 32`. -/
def le32 (value : Nat) : List UInt8 :=
  [UInt8.ofNat value, UInt8.ofNat (value / 256),
    UInt8.ofNat (value / 65536), UInt8.ofNat (value / 16777216)]

/-- The 32-bit little-endian word at `offset`. -/
def u32At (buffer : List UInt8) (offset : Nat) : Nat :=
  fromLe (slice buffer offset 4)

/-- Overwrite the 32-bit little-endian word at `offset`. -/
def u32Set (buffer : List UInt8) (offset value : Nat) : List UInt8 :=
  splice buffer offset (le32 value)

@[simp]
theorem le32_length (value : Nat) : (le32 value).length = 4 := rfl

theorem fromLe_lt : ∀ bytes : List UInt8, fromLe bytes < 256 ^ bytes.length
  | [] => by simp [fromLe]
  | byte :: rest => by
      have tailBound := fromLe_lt rest
      have headBound := byte.toNat_lt
      simp only [fromLe, List.length_cons, Nat.pow_succ]
      omega

theorem fromLe_le32 (value : Nat) :
    fromLe (le32 value) = value % 2 ^ 32 := by
  simp only [le32, fromLe, UInt8.toNat_ofNat']
  omega

theorem slice_length {buffer : List UInt8} {offset count : Nat}
    (bound : offset + count ≤ buffer.length) :
    (slice buffer offset count).length = count := by
  simp only [slice, List.length_take, List.length_drop]
  omega

theorem slice_length_le (buffer : List UInt8) (offset count : Nat) :
    (slice buffer offset count).length ≤ count := by
  simp only [slice, List.length_take, List.length_drop]
  omega

@[simp]
theorem slice_zero (buffer : List UInt8) (offset : Nat) :
    slice buffer offset 0 = [] := by
  simp [slice]

theorem splice_length {buffer : List UInt8} {offset : Nat}
    {data : List UInt8} (bound : offset + data.length ≤ buffer.length) :
    (splice buffer offset data).length = buffer.length := by
  simp only [splice, List.length_append, List.length_take, List.length_drop]
  omega

/-- What a splice leaves at each index. -/
theorem splice_getElem? {buffer : List UInt8} {offset : Nat}
    {data : List UInt8} (bound : offset + data.length ≤ buffer.length)
    (index : Nat) :
    (splice buffer offset data)[index]? =
      if index < offset then buffer[index]?
      else if index < offset + data.length then data[index - offset]?
      else buffer[index]? := by
  unfold splice
  have takeLength : (buffer.take offset).length = offset := by
    rw [List.length_take]
    omega
  split
  · rename_i before
    rw [List.append_assoc, List.getElem?_append_left (by omega),
      List.getElem?_take_of_lt before]
  · rename_i notBefore
    rw [List.append_assoc, List.getElem?_append_right (by omega), takeLength]
    split
    · rw [List.getElem?_append_left (by omega)]
    · rw [List.getElem?_append_right (by omega), List.getElem?_drop]
      congr 1
      omega

theorem slice_getElem? (buffer : List UInt8) (offset count index : Nat) :
    (slice buffer offset count)[index]? =
      if index < count then buffer[offset + index]? else none := by
  unfold slice
  rw [List.getElem?_take]
  split
  · rw [List.getElem?_drop]
  · rfl

/-- Reading back exactly the bytes that were written. -/
theorem slice_splice_same {buffer : List UInt8} {offset : Nat}
    {data : List UInt8} (bound : offset + data.length ≤ buffer.length) :
    slice (splice buffer offset data) offset data.length = data := by
  apply List.ext_getElem?
  intro index
  rw [slice_getElem?, splice_getElem? bound]
  by_cases inside : index < data.length
  · rw [if_pos inside, if_neg (by omega), if_pos (by omega)]
    congr 1
    omega
  · rw [if_neg inside, List.getElem?_eq_none (by omega)]

/-- A read that ends before the write is unaffected. -/
theorem slice_splice_before {buffer : List UInt8} {offset start count : Nat}
    {data : List UInt8} (bound : offset + data.length ≤ buffer.length)
    (before : start + count ≤ offset) :
    slice (splice buffer offset data) start count =
      slice buffer start count := by
  apply List.ext_getElem?
  intro index
  rw [slice_getElem?, slice_getElem?, splice_getElem? bound]
  split
  · rw [if_pos (by omega)]
  · rfl

/-- A read that starts after the write is unaffected. -/
theorem slice_splice_after {buffer : List UInt8} {offset start count : Nat}
    {data : List UInt8} (bound : offset + data.length ≤ buffer.length)
    (after : offset + data.length ≤ start) :
    slice (splice buffer offset data) start count =
      slice buffer start count := by
  apply List.ext_getElem?
  intro index
  rw [slice_getElem?, slice_getElem?, splice_getElem? bound]
  split
  · rw [if_neg (by omega), if_neg (by omega)]
  · rfl

/-- A read inside the written range reads the written data. -/
theorem slice_splice_inside {buffer : List UInt8} {offset start count : Nat}
    {data : List UInt8} (bound : offset + data.length ≤ buffer.length)
    (low : offset ≤ start) (high : start + count ≤ offset + data.length) :
    slice (splice buffer offset data) start count =
      slice data (start - offset) count := by
  apply List.ext_getElem?
  intro index
  rw [slice_getElem?, slice_getElem?, splice_getElem? bound]
  split
  · rw [if_neg (by omega), if_pos (by omega)]
    congr 1
    omega
  · rfl

theorem slice_slice {buffer : List UInt8} {offset count start size : Nat}
    (bound : start + size ≤ count) :
    slice (slice buffer offset count) start size =
      slice buffer (offset + start) size := by
  apply List.ext_getElem?
  intro index
  rw [slice_getElem?, slice_getElem?, slice_getElem?]
  split
  · rw [if_pos (by omega), Nat.add_assoc]
  · rfl

/-- Writing back what is already there changes nothing. -/
theorem splice_slice_self {buffer : List UInt8} {offset count : Nat}
    (bound : offset + count ≤ buffer.length) :
    splice buffer offset (slice buffer offset count) = buffer := by
  have sliceLength := slice_length bound
  apply List.ext_getElem?
  intro index
  rw [splice_getElem? (by omega), sliceLength]
  split
  · rfl
  · split
    · rw [slice_getElem?, if_pos (by omega)]
      congr 1
      omega
    · rfl

theorem slice_append_left {front back : List UInt8} {offset count : Nat}
    (bound : offset + count ≤ front.length) :
    slice (front ++ back) offset count = slice front offset count := by
  apply List.ext_getElem?
  intro index
  rw [slice_getElem?, slice_getElem?]
  split
  · rw [List.getElem?_append_left (by omega)]
  · rfl

theorem slice_append_right {front back : List UInt8} {offset count : Nat}
    (low : front.length ≤ offset) :
    slice (front ++ back) offset count =
      slice back (offset - front.length) count := by
  apply List.ext_getElem?
  intro index
  rw [slice_getElem?, slice_getElem?]
  split
  · rw [List.getElem?_append_right (by omega)]
    congr 1
    omega
  · rfl

theorem slice_all {buffer : List UInt8} {count : Nat}
    (bound : buffer.length ≤ count) : slice buffer 0 count = buffer := by
  simp [slice, List.take_of_length_le bound]

/-- Consecutive slices concatenate. -/
theorem slice_append_slice (buffer : List UInt8) (offset first second : Nat) :
    slice buffer offset first ++ slice buffer (offset + first) second =
      slice buffer offset (first + second) := by
  simp only [slice, ← List.drop_drop]
  rw [List.take_add]

theorem slice_drop (buffer : List UInt8) (count offset size : Nat) :
    slice (buffer.drop count) offset size =
      slice buffer (count + offset) size := by
  unfold slice
  rw [List.drop_drop]

theorem slice_append_drop (front back : List UInt8) (offset size : Nat) :
    slice (front ++ back) (front.length + offset) size =
      slice back offset size := by
  rw [slice_append_right (Nat.le_add_right _ _), Nat.add_sub_cancel_left]

/-- Reading the parts of a concatenation that was read as a whole. -/
theorem slice_parts {buffer front back : List UInt8} {offset : Nat}
    (whole : slice buffer offset (front.length + back.length) =
      front ++ back) :
    slice buffer offset front.length = front ∧
      slice buffer (offset + front.length) back.length = back := by
  have cut := slice_append_slice buffer offset front.length back.length
  rw [whole] at cut
  have frontLength := congrArg List.length cut
  have first := slice_length_le buffer offset front.length
  have second := slice_length_le buffer (offset + front.length) back.length
  simp only [List.length_append] at frontLength
  exact List.append_inj cut (by omega)

/-- Behind a splice the buffer is what it was. -/
theorem drop_splice {buffer : List UInt8} {offset start : Nat}
    {data : List UInt8} (bound : offset + data.length ≤ buffer.length)
    (after : offset + data.length ≤ start) :
    (splice buffer offset data).drop start = buffer.drop start := by
  apply List.ext_getElem?
  intro index
  rw [List.getElem?_drop, List.getElem?_drop, splice_getElem? bound,
    if_neg (by omega), if_neg (by omega)]

/-! ## 32-bit words -/

theorem u32At_lt (buffer : List UInt8) (offset : Nat) :
    u32At buffer offset < 2 ^ 32 := by
  have bound := fromLe_lt (slice buffer offset 4)
  have short := slice_length_le buffer offset 4
  have grow : 256 ^ (slice buffer offset 4).length ≤ 256 ^ 4 :=
    Nat.pow_le_pow_right (by omega) short
  unfold u32At
  omega

theorem u32Set_length {buffer : List UInt8} {offset value : Nat}
    (bound : offset + 4 ≤ buffer.length) :
    (u32Set buffer offset value).length = buffer.length :=
  splice_length (by simpa using bound)

theorem u32At_u32Set_same {buffer : List UInt8} {offset value : Nat}
    (bound : offset + 4 ≤ buffer.length) :
    u32At (u32Set buffer offset value) offset = value % 2 ^ 32 := by
  unfold u32At u32Set
  have readBack : slice (splice buffer offset (le32 value)) offset
      (le32 value).length = le32 value :=
    slice_splice_same (by simpa using bound)
  rw [le32_length] at readBack
  rw [readBack, fromLe_le32]

theorem u32At_splice_of_disjoint {buffer : List UInt8}
    {offset place : Nat} {data : List UInt8}
    (bound : offset + data.length ≤ buffer.length)
    (disjoint : place + 4 ≤ offset ∨ offset + data.length ≤ place) :
    u32At (splice buffer offset data) place = u32At buffer place := by
  unfold u32At
  rcases disjoint with before | after
  · rw [slice_splice_before bound before]
  · rw [slice_splice_after bound after]

theorem u32At_u32Set_of_disjoint {buffer : List UInt8}
    {offset place value : Nat} (bound : offset + 4 ≤ buffer.length)
    (disjoint : place + 4 ≤ offset ∨ offset + 4 ≤ place) :
    u32At (u32Set buffer offset value) place = u32At buffer place :=
  u32At_splice_of_disjoint (by simpa using bound) (by simpa using disjoint)

/-- A splice seen through a slice that avoids it. -/
theorem slice_splice_of_disjoint {buffer : List UInt8}
    {offset start count : Nat} {data : List UInt8}
    (bound : offset + data.length ≤ buffer.length)
    (disjoint : start + count ≤ offset ∨ offset + data.length ≤ start) :
    slice (splice buffer offset data) start count =
      slice buffer start count := by
  rcases disjoint with before | after
  · exact slice_splice_before bound before
  · exact slice_splice_after bound after

theorem slice_u32Set_of_disjoint {buffer : List UInt8}
    {offset start count value : Nat} (bound : offset + 4 ≤ buffer.length)
    (disjoint : start + count ≤ offset ∨ offset + 4 ≤ start) :
    slice (u32Set buffer offset value) start count =
      slice buffer start count :=
  slice_splice_of_disjoint (by simpa using bound) (by simpa using disjoint)

theorem u32At_le32 (value : Nat) (rest : List UInt8) :
    u32At (le32 value ++ rest) 0 = value % 2 ^ 32 := by
  unfold u32At
  rw [slice_append_left (by simp), slice_all (by simp), fromLe_le32]

theorem le32_fromLe {bytes : List UInt8} (four : bytes.length = 4) :
    le32 (fromLe bytes) = bytes := by
  match bytes, four with
  | [a, b, c, d], _ =>
      have boundA := a.toNat_lt
      have boundB := b.toNat_lt
      have boundC := c.toNat_lt
      have boundD := d.toNat_lt
      have ofToNat : ∀ (byte : UInt8) (value : Nat),
          value % 256 = byte.toNat → UInt8.ofNat value = byte := by
        intro byte value same
        apply UInt8.toNat_inj.mp
        rw [UInt8.toNat_ofNat']
        simpa using same
      simp only [le32, fromLe]
      congr 1
      · exact ofToNat a _ (by omega)
      · congr 1
        · exact ofToNat b _ (by omega)
        · congr 1
          · exact ofToNat c _ (by omega)
          · congr 1
            exact ofToNat d _ (by omega)

theorem u32Set_self {buffer : List UInt8} {offset value : Nat}
    (bound : offset + 4 ≤ buffer.length)
    (same : u32At buffer offset = value) :
    u32Set buffer offset value = buffer := by
  unfold u32Set
  rw [← same, u32At, le32_fromLe (slice_length bound)]
  exact splice_slice_self bound

end Bytes

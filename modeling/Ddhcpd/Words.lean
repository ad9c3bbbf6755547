import Ddhcpd.Bytes

/-!
Words and records in byte strings: what is written is read again at the offset where it was
written, and writing what was read restores the bytes.
-/

namespace Ddhcpd.Words
open Bytes

/-- The two bytes `htons` leaves of a word. -/
def word16Bytes (word : UInt16) : List UInt8 := [(word >>> 8).toUInt8, word.toUInt8]

@[simp] theorem word32_bytes_length (word : UInt32) : (word32Bytes word).length = 4 := rfl

@[simp] theorem word16_bytes_length (word : UInt16) : (word16Bytes word).length = 2 := rfl

theorem big_endian_word32 (word : UInt32) :
    UInt32.ofNat (bigEndian (word32Bytes word)) = word := by
  apply UInt32.toNat_inj.mp
  have bound := word.toNat_lt
  simp only [word32Bytes, bigEndian, List.length_cons, List.length_nil, UInt32.toNat_ofNat',
    UInt32.toNat_toUInt8, UInt32.toNat_shiftRight, Nat.shiftRight_eq_div_pow]
  simp
  omega

theorem big_endian_word16 (word : UInt16) :
    UInt16.ofNat (bigEndian (word16Bytes word)) = word := by
  apply UInt16.toNat_inj.mp
  have bound := word.toNat_lt
  simp only [word16Bytes, bigEndian, List.length_cons, List.length_nil, UInt16.toNat_ofNat',
    UInt16.toNat_toUInt8, UInt16.toNat_shiftRight, Nat.shiftRight_eq_div_pow]
  simp
  omega

theorem word32_bytes_big_endian (byte0 byte1 byte2 byte3 : UInt8) :
    word32Bytes (UInt32.ofNat (bigEndian [byte0, byte1, byte2, byte3])) =
      [byte0, byte1, byte2, byte3] := by
  have bound0 := byte0.toNat_lt
  have bound1 := byte1.toNat_lt
  have bound2 := byte2.toNat_lt
  have bound3 := byte3.toNat_lt
  simp only [word32Bytes, List.cons.injEq, and_true]
  refine ⟨?_, ?_, ?_, ?_⟩ <;> apply UInt8.toNat_inj.mp <;>
    simp [bigEndian, Nat.shiftRight_eq_div_pow] <;> omega

theorem word16_bytes_big_endian (byte0 byte1 : UInt8) :
    word16Bytes (UInt16.ofNat (bigEndian [byte0, byte1])) = [byte0, byte1] := by
  have bound0 := byte0.toNat_lt
  have bound1 := byte1.toNat_lt
  simp only [word16Bytes, List.cons.injEq, and_true]
  constructor
  · apply UInt8.toNat_inj.mp
    simp [bigEndian, Nat.shiftRight_eq_div_pow]
    omega
  · apply UInt8.toNat_inj.mp
    simp [bigEndian]

/-! A word read in the opposite order. -/

theorem word32_bytes_swap (word : UInt32) : word32Bytes (swap32 word) = (word32Bytes word).reverse :=
  word32_bytes_big_endian _ _ _ _

theorem swap32_swap32 (word : UInt32) : swap32 (swap32 word) = word := by
  rw [swap32, word32_bytes_swap, List.reverse_reverse, big_endian_word32]

/-! Words as numbers and as bits. -/

theorem word32_bytes_injective : Function.Injective word32Bytes := by
  intro first second same
  rw [← big_endian_word32 first, same, big_endian_word32]

theorem word32_bytes_or (first second : UInt32) : word32Bytes (first ||| second) =
    List.zipWith (· ||| ·) (word32Bytes first) (word32Bytes second) := by
  simp [word32Bytes, UInt32.shiftRight_or]

/-- The bits below an alignment are added by setting them. -/
theorem aligned_or_mask {bits number : Nat} (aligned : 2 ^ bits ∣ number) :
    number ||| (2 ^ bits - 1) = number + (2 ^ bits - 1) := by
  obtain ⟨count, rfl⟩ := aligned
  exact (Nat.two_pow_add_eq_or_of_lt (Nat.sub_lt (Nat.two_pow_pos bits) Nat.one_pos) count).symm

/-- A word with another last byte. -/
theorem word32_last_byte (word : UInt32) (byte : UInt8) :
    (word32Bytes word).set 3 byte =
      word32Bytes (UInt32.ofNat (word.toNat - word.toNat % 256 + byte.toNat)) := by
  have bound := word.toNat_lt
  have digit := byte.toNat_lt
  simp only [word32Bytes, List.set_cons_succ, List.set_cons_zero, List.cons.injEq, and_true]
  refine ⟨?_, ?_, ?_, ?_⟩ <;> apply UInt8.toNat_inj.mp <;>
    simp [Nat.shiftRight_eq_div_pow] <;> omega

/-! Reading what was written. -/

section Written
variable {front : List UInt8} {start : Nat} (here : front.length = start) (back : List UInt8)
  (offset : Nat)
include here

theorem byte_at_append : byteAt (front ++ back) (start + offset) = byteAt back offset := by
  rw [← byte_at_drop, List.drop_left' here]

theorem word32_at_append : word32At (front ++ back) (start + offset) = word32At back offset := by
  simp only [word32At, Nat.add_assoc, byte_at_append here]

theorem word16_at_append : word16At (front ++ back) (start + offset) = word16At back offset := by
  simp only [word16At, Nat.add_assoc, byte_at_append here]

theorem bytes_at_append (count : Nat) :
    bytesAt (front ++ back) (start + offset) count = bytesAt back offset count := by
  simp only [bytesAt, Nat.add_assoc, byte_at_append here]

end Written

@[simp] theorem word32_at_written (word : UInt32) (back : List UInt8) :
    word32At (word32Bytes word ++ back) 0 = word := by
  exact big_endian_word32 word

@[simp] theorem word16_at_written (word : UInt16) (back : List UInt8) :
    word16At (word16Bytes word ++ back) 0 = word := by
  exact big_endian_word16 word

@[simp] theorem bytes_at_written {count : Nat} (bytes : List.Vector UInt8 count)
    (back : List UInt8) : bytesAt (bytes.toList ++ back) 0 count = bytes := by
  apply List.Vector.ext
  intro k
  have inside : k.val < bytes.toList.length := by simp
  simp only [bytesAt, List.Vector.get_ofFn, Nat.zero_add, byteAt, List.getD_eq_getElem?_getD,
    List.getElem?_append_left inside, List.getElem?_eq_getElem inside, Option.getD_some]
  rw [List.Vector.get_eq_get_toList]
  rfl

/-! Writing what was read. -/

def slice (buffer : List UInt8) (start count : Nat) : List UInt8 :=
  (List.range count).map fun k => byteAt buffer (start + k)

@[simp] theorem slice_length (buffer : List UInt8) (start count : Nat) :
    (slice buffer start count).length = count := by
  simp [slice]

theorem slice_add (buffer : List UInt8) (start count more : Nat) :
    slice buffer start (count + more) =
      slice buffer start count ++ slice buffer (start + count) more := by
  simp [slice, List.range_add, Nat.add_assoc, Function.comp_def]

theorem slice_take {buffer : List UInt8} {count : Nat} (whole : count ≤ buffer.length) :
    slice buffer 0 count = buffer.take count := by
  apply List.ext_getElem
  · simp [whole]
  · intro k left right
    have inside : k < buffer.length := by
      rw [slice_length] at left
      omega
    simp [slice, byteAt, inside]

theorem bytes_at_slice (buffer : List UInt8) (start count : Nat) :
    (bytesAt buffer start count).toList = slice buffer start count := by
  apply List.ext_getElem
  · simp
  · intro k left right
    simp [bytesAt, slice, List.Vector.toList_ofFn]

theorem word32_bytes_slice (buffer : List UInt8) (start : Nat) :
    word32Bytes (word32At buffer start) = slice buffer start 4 :=
  word32_bytes_big_endian _ _ _ _

theorem word16_bytes_slice (buffer : List UInt8) (start : Nat) :
    word16Bytes (word16At buffer start) = slice buffer start 2 :=
  word16_bytes_big_endian _ _

/-! Records of one size, one behind the other. -/

section Records
variable {Item : Type} (write : Item → List UInt8) (size : Nat)

theorem records_length (sized : ∀ item, (write item).length = size) (items : List Item) :
    (items.flatMap write).length = size * items.length := by
  induction items with
  | nil => rfl
  | cons item rest ih =>
      rw [List.flatMap_cons, List.length_append, sized, ih, List.length_cons, Nat.mul_succ,
        Nat.add_comm]

theorem records_split (sized : ∀ item, (write item).length = size) (items : List Item) (k : Nat)
    (inside : k < items.length) :
    ∃ front, items.flatMap write = front ++ (write items[k] ++ (items.drop (k + 1)).flatMap write) ∧
      front.length = size * k := by
  refine ⟨(items.take k).flatMap write, ?_, ?_⟩
  · rw [← List.flatMap_cons, ← List.drop_eq_getElem_cons inside, ← List.flatMap_append,
      List.take_append_drop]
  · rw [records_length write size sized, List.length_take, Nat.min_eq_left (Nat.le_of_lt inside)]

theorem records_slice (buffer : List UInt8) (start : Nat) (read : Nat → Item) (count : Nat)
    (restores : ∀ k, write (read k) = slice buffer (start + size * k) size) :
    ((List.range count).map read).flatMap write = slice buffer start (size * count) := by
  induction count with
  | zero => rfl
  | succ count ih =>
      rw [List.range_succ, List.map_append, List.flatMap_append, ih, Nat.mul_succ, slice_add]
      simp [restores]

end Records

end Ddhcpd.Words

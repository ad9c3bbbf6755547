import Mathlib.Data.Vector.Basic
import Mathlib.Tactic.IntervalCases

/-!
Byte strings as C programs use them: bytewise comparison, big-endian words, and
reads from a buffer at an offset. Reading past the end of a buffer yields zero;
what stands there in memory is not part of the model.
-/

namespace Ddhcpd.Bytes

/-- `memcmp` on two byte strings of one length: the difference at the first byte
that differs, zero when none does. -/
def memcmp : List UInt8 → List UInt8 → Int
  | x :: xs, y :: ys => if x = y then memcmp xs ys else (x.toNat : Int) - y.toNat
  | _, _ => 0

/-- The number a byte string spells, its first byte the most significant. -/
def bigEndian : List UInt8 → Nat
  | [] => 0
  | x :: xs => x.toNat * 256 ^ xs.length + bigEndian xs

theorem big_endian_lt (bytes : List UInt8) : bigEndian bytes < 256 ^ bytes.length := by
  induction bytes with
  | nil => simp [bigEndian]
  | cons x xs ih =>
      have digit : x.toNat + 1 ≤ 256 := x.toNat_lt
      have room := Nat.mul_le_mul_right (256 ^ xs.length) digit
      simp only [bigEndian, List.length_cons, Nat.pow_succ]
      rw [Nat.add_mul] at room
      omega

-- The first byte that differs outweighs everything behind it.
theorem leading_byte_decides (low high weight left right : Nat) (less : low < high)
    (bounded : left < weight) : low * weight + left < high * weight + right := by
  have gap := Nat.mul_le_mul_right weight less
  rw [Nat.succ_mul] at gap
  omega

theorem memcmp_neg_iff (left right : List UInt8) (same : left.length = right.length) :
    memcmp left right < 0 ↔ bigEndian left < bigEndian right := by
  induction left generalizing right with
  | nil => cases right <;> simp_all [memcmp, bigEndian]
  | cons x xs ih =>
      cases right with
      | nil => simp at same
      | cons y ys =>
          have tails : xs.length = ys.length := by simpa using same
          have xsBound := big_endian_lt xs
          have ysBound := big_endian_lt ys
          rw [tails] at xsBound
          simp only [memcmp, bigEndian, tails]
          by_cases head : x = y
          · subst y
            simp [ih ys tails]
          · have differ : x.toNat ≠ y.toNat := fun h => head (UInt8.toNat_inj.mp h)
            rw [if_neg head]
            rcases Nat.lt_or_gt_of_ne differ with less | more
            · have below := leading_byte_decides _ _ _ _ (bigEndian ys) less xsBound
              constructor <;> intro _ <;> omega
            · have above := leading_byte_decides _ _ _ _ (bigEndian xs) more ysBound
              constructor <;> intro _ <;> omega

theorem memcmp_antisymm (left right : List UInt8) : memcmp left right = - memcmp right left := by
  induction left generalizing right with
  | nil => cases right <;> rfl
  | cons x xs ih =>
      cases right with
      | nil => rfl
      | cons y ys =>
          by_cases head : x = y
          · subst y
            simpa [memcmp] using ih ys
          · have mirrored : ¬ y = x := fun h => head h.symm
            simp only [memcmp, head, mirrored, ↓reduceIte]
            omega

theorem big_endian_injective (left right : List UInt8) (same : left.length = right.length)
    (value : bigEndian left = bigEndian right) : left = right := by
  induction left generalizing right with
  | nil => cases right <;> simp_all
  | cons x xs ih =>
      cases right with
      | nil => simp at same
      | cons y ys =>
          have tails : xs.length = ys.length := by simpa using same
          have xsBound := big_endian_lt xs
          have ysBound := big_endian_lt ys
          rw [tails] at xsBound
          simp only [bigEndian, tails] at value
          have heads : x.toNat = y.toNat := by
            rcases Nat.lt_trichotomy x.toNat y.toNat with less | equal | more
            · have below := leading_byte_decides _ _ _ _ (bigEndian ys) less xsBound
              omega
            · exact equal
            · have above := leading_byte_decides _ _ _ _ (bigEndian xs) more ysBound
              omega
          rw [heads] at value
          rw [UInt8.toNat_inj.mp heads, ih ys tails (by omega)]

/-! Reads from a buffer. -/

def byteAt (buffer : List UInt8) (offset : Nat) : UInt8 := buffer.getD offset 0

theorem byte_at_cons {buffer rest : List UInt8} {len offset : Nat} {x : UInt8}
    (here : (buffer.take len).drop offset = x :: rest) :
    offset < len ∧ byteAt buffer offset = x ∧ (buffer.take len).drop (offset + 1) = rest := by
  have found : (buffer.take len)[offset]? = some x := by
    rw [← Nat.add_zero offset, ← List.getElem?_drop, here]
    rfl
  have below : offset < len := by
    have inside := (List.getElem?_eq_some_iff.mp found).1
    rw [List.length_take] at inside
    omega
  rw [List.getElem?_take_of_lt below] at found
  refine ⟨below, ?_, ?_⟩
  · rw [byteAt, List.getD_eq_getElem?_getD, found]
    rfl
  · rw [← List.drop_drop, here]
    rfl

theorem drop_byte_at {buffer : List UInt8} {len offset : Nat} (whole : len ≤ buffer.length)
    (inside : offset < len) : (buffer.take len).drop offset =
      byteAt buffer offset :: (buffer.take len).drop (offset + 1) := by
  have bound : offset < (buffer.take len).length := by
    rw [List.length_take]
    omega
  rw [List.drop_eq_getElem_cons bound, List.getElem_take, byteAt, List.getD_eq_getElem?_getD,
    List.getElem?_eq_getElem (by omega), Option.getD_some]

/-- `memcpy` of `count` bytes out of a buffer. -/
def bytesAt (buffer : List UInt8) (offset count : Nat) : List.Vector UInt8 count :=
  List.Vector.ofFn fun k => byteAt buffer (offset + k)

/-- `ntohs` of the two bytes at an offset. -/
def word16At (buffer : List UInt8) (offset : Nat) : UInt16 :=
  UInt16.ofNat (bigEndian [byteAt buffer offset, byteAt buffer (offset + 1)])

/-- `ntohl` of the four bytes at an offset. -/
def word32At (buffer : List UInt8) (offset : Nat) : UInt32 :=
  UInt32.ofNat (bigEndian [byteAt buffer offset, byteAt buffer (offset + 1),
    byteAt buffer (offset + 2), byteAt buffer (offset + 3)])

/-! Reads that stay within the first `len` bytes see nothing else of a buffer. -/

section Same
variable {first second : List UInt8} {len offset : Nat} (same : first.take len = second.take len)
include same

theorem byte_at_same (inside : offset < len) : byteAt first offset = byteAt second offset := by
  rw [byteAt, byteAt, List.getD_eq_getElem?_getD, List.getD_eq_getElem?_getD,
    ← List.getElem?_take_of_lt inside, same, List.getElem?_take_of_lt inside]

theorem bytes_at_same {count : Nat} (inside : offset + count ≤ len) :
    bytesAt first offset count = bytesAt second offset count := by
  apply List.Vector.ext
  intro k
  rw [bytesAt, bytesAt, List.Vector.get_ofFn, List.Vector.get_ofFn,
    byte_at_same same (Nat.lt_of_lt_of_le (Nat.add_lt_add_left k.isLt offset) inside)]

theorem word16_at_same (inside : offset + 2 ≤ len) :
    word16At first offset = word16At second offset := by
  rw [word16At, word16At, byte_at_same same (by omega), byte_at_same same (by omega)]

theorem word32_at_same (inside : offset + 4 ≤ len) :
    word32At first offset = word32At second offset := by
  rw [word32At, word32At, byte_at_same same (by omega), byte_at_same same (by omega),
    byte_at_same same (by omega), byte_at_same same (by omega)]

end Same

/-- Reading behind an offset is reading from there. -/
theorem byte_at_drop (buffer : List UInt8) (start offset : Nat) :
    byteAt (buffer.drop start) offset = byteAt buffer (start + offset) := by
  rw [byteAt, byteAt, List.getD_eq_getElem?_getD, List.getD_eq_getElem?_getD, List.getElem?_drop]

theorem word32_at_drop (buffer : List UInt8) (start : Nat) :
    word32At (buffer.drop start) 0 = word32At buffer start := by
  simp only [word32At, byte_at_drop]
  rfl

theorem bytes_at_drop (buffer : List UInt8) (start count : Nat) :
    bytesAt (buffer.drop start) 0 count = bytesAt buffer start count := by
  simp only [bytesAt, byte_at_drop, Nat.zero_add]

theorem word32_at_injective {first second : List UInt8} {offset : Nat}
    (same : word32At first offset = word32At second offset) :
    ∀ k < 4, byteAt first (offset + k) = byteAt second (offset + k) := by
  have value := congrArg UInt32.toNat same
  have below : ∀ buffer, bigEndian [byteAt buffer offset, byteAt buffer (offset + 1),
      byteAt buffer (offset + 2), byteAt buffer (offset + 3)] < UInt32.size := by
    intro buffer
    have bound := big_endian_lt [byteAt buffer offset, byteAt buffer (offset + 1),
      byteAt buffer (offset + 2), byteAt buffer (offset + 3)]
    simpa [UInt32.size] using bound
  simp only [word32At, UInt32.toNat_ofNat_of_lt' (below _)] at value
  have bytes := big_endian_injective _ _ (by simp) value
  simp only [List.cons.injEq] at bytes
  rcases bytes with ⟨byte0, byte1, byte2, byte3, -⟩
  intro k small
  interval_cases k <;> assumption

/-- The four bytes `htonl` leaves of a word, the most significant first. -/
def word32Bytes (word : UInt32) : List UInt8 :=
  [(word >>> 24).toUInt8, (word >>> 16).toUInt8, (word >>> 8).toUInt8, word.toUInt8]

/-- The same four bytes read in the opposite order. -/
def swap32 (word : UInt32) : UInt32 :=
  UInt32.ofNat (bigEndian (word32Bytes word).reverse)

end Ddhcpd.Bytes

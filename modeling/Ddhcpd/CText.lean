import Mathlib.Tactic.IntervalCases

/-!
Text as the C library reads it. A string is the list of its characters up to the NUL. `strtol`
and `strtoul` skip white space, take a sign and read digits as long as there are any, and
return the nearest bound where the number does not fit in 64 bits.
-/

namespace Ddhcpd.CText

/-! Searching. -/

/-- What stands before the first `mark`, which a NUL takes the place of, and what behind it. -/
def cut (mark : Char) : List Char → Option (List Char × List Char)
  | [] => none
  | first :: rest =>
      if first = mark then some ([], rest)
      else (cut mark rest).map fun parts => (first :: parts.1, parts.2)

theorem cut_at {mark : Char} (front back : List Char) (unmarked : mark ∉ front) :
    cut mark (front ++ mark :: back) = some (front, back) := by
  induction front with
  | nil => simp [cut]
  | cons first rest ih =>
      simp only [List.mem_cons, not_or] at unmarked
      simp [cut, Ne.symm unmarked.1, ih unmarked.2]

/-! Numbers. -/

def isSpace (c : Char) : Bool := c = ' ' ∨ 9 ≤ c.toNat ∧ c.toNat ≤ 13

def digitOf (c : Char) : Option Nat :=
  if 48 ≤ c.toNat ∧ c.toNat ≤ 57 then some (c.toNat - 48)
  else if 97 ≤ c.toNat ∧ c.toNat ≤ 122 then some (c.toNat - 87)
  else if 65 ≤ c.toNat ∧ c.toNat ≤ 90 then some (c.toNat - 55)
  else none

/-- The digits at the front of the text, behind digits that make up `value` so far. -/
def numeral (base : Nat) (value : Nat) : List Char → Nat
  | [] => value
  | c :: rest =>
      match (digitOf c).filter (· < base) with
      | some digit => numeral base (value * base + digit) rest
      | none => value

def signed : List Char → Bool × List Char
  | [] => (false, [])
  | c :: rest => if c = '-' then (true, rest) else if c = '+' then (false, rest) else (false, c :: rest)

/-- The base a number is written in, and the text behind the mark of base 16. -/
def basedOn : List Char → Nat × List Char
  | '0' :: x :: c :: rest =>
      if (x = 'x' ∨ x = 'X') ∧ (digitOf c).any (· < 16) then (16, c :: rest)
      else (8, '0' :: x :: c :: rest)
  | '0' :: rest => (8, '0' :: rest)
  | text => (10, text)

/-- `strtol` with base 10. -/
def strtol (text : List Char) : Int :=
  let parts := signed (text.dropWhile isSpace)
  let value : Int := numeral 10 0 parts.2
  if parts.1 then max (-value) (-2 ^ 63) else min value (2 ^ 63 - 1)

/-- `atoi`, the conversion of `strtol` to `int`. -/
def atoi (text : List Char) : Int := (strtol text).bmod (2 ^ 32)

/-- `strtoul` with base 0. -/
def strtoul (text : List Char) : Nat :=
  let parts := signed (text.dropWhile isSpace)
  let based := basedOn parts.2
  let value := numeral based.1 0 based.2
  if 2 ^ 64 ≤ value then 2 ^ 64 - 1
  else if parts.1 then (2 ^ 64 - value) % 2 ^ 64
  else value

/-- The conversion to `uint8_t`. -/
def uint8 (value : Int) : UInt8 := UInt8.ofNat (value % 256).toNat

/-! Numbers written in decimal. -/

def decimal (number : Nat) : List Char := Nat.toDigits 10 number

theorem decimal_digit {number : Nat} {c : Char} (member : c ∈ decimal number) : c.isDigit = true :=
  Nat.isDigit_of_mem_toDigits (by decide) (by decide) member

theorem decimal_without {mark : Char} (number : Nat) (no_digit : mark.isDigit = false) :
    mark ∉ decimal number := by
  intro member
  rw [decimal_digit member] at no_digit
  contradiction

theorem decimal_small {number : Nat} (small : number < 10) :
    decimal number = [number.digitChar] :=
  Nat.toDigits_of_lt_base small

theorem decimal_large {number : Nat} (large : 10 ≤ number) :
    decimal number = decimal (number / 10) ++ [(number % 10).digitChar] :=
  Nat.toDigits_of_base_le (by decide) large

theorem digit_of_char {digit : Nat} (small : digit < 10) : digitOf digit.digitChar = some digit := by
  interval_cases digit <;> rfl

theorem digit_read {c : Char} (digit : c.isDigit = true) :
    ∃ value < 10, digitOf c = some value := by
  have bounds : 48 ≤ c.toNat ∧ c.toNat ≤ 57 := by
    simpa [Char.isDigit, UInt32.le_iff_toNat_le] using digit
  exact ⟨c.toNat - 48, by omega, if_pos bounds⟩

theorem numeral_cons {base digit : Nat} {c : Char} (read : digitOf c = some digit)
    (small : digit < base) (value : Nat) (rest : List Char) :
    numeral base value (c :: rest) = numeral base (value * base + digit) rest := by
  rw [numeral, read, Option.filter_some_pos (by simpa using small)]

theorem numeral_append (front back : List Char) (value : Nat)
    (digits : ∀ c ∈ front, c.isDigit = true) :
    numeral 10 value (front ++ back) = numeral 10 (numeral 10 value front) back := by
  induction front generalizing value with
  | nil => rfl
  | cons c rest ih =>
      obtain ⟨digit, small, read⟩ := digit_read (digits c List.mem_cons_self)
      rw [List.cons_append, numeral_cons read small, numeral_cons read small]
      exact ih _ fun other member => digits other (List.mem_cons_of_mem _ member)

theorem numeral_decimal (number : Nat) : numeral 10 0 (decimal number) = number := by
  induction number using Nat.strong_induction_on with
  | _ number ih =>
      by_cases small : number < 10
      · rw [decimal_small small, numeral_cons (digit_of_char small) small, numeral, Nat.zero_mul,
          Nat.zero_add]
      · have low : number % 10 < 10 := Nat.mod_lt _ (by decide)
        rw [decimal_large (Nat.le_of_not_lt small),
          numeral_append _ _ _ fun c member => decimal_digit member, ih _ (by omega),
          numeral_cons (digit_of_char low) low, numeral]
        omega

/-- No leading zeros. -/
theorem decimal_cons (number : Nat) : ∃ first rest, decimal number = first :: rest ∧
    first.isDigit = true ∧ (first = '0' → number = 0) := by
  induction number using Nat.strong_induction_on with
  | _ number ih =>
      by_cases small : number < 10
      · refine ⟨number.digitChar, [], decimal_small small, ?_⟩
        interval_cases number <;> decide
      · obtain ⟨first, rest, digits, digit, zero⟩ := ih (number / 10) (by omega)
        refine ⟨first, rest ++ [(number % 10).digitChar], ?_, digit, fun leading => ?_⟩
        · rw [decimal_large (Nat.le_of_not_lt small), digits, List.cons_append]
        · have none_left := zero leading
          omega

/-- Nothing is skipped before a number in decimal, and it has no sign. -/
theorem decimal_signed (number : Nat) :
    signed ((decimal number).dropWhile isSpace) = (false, decimal number) := by
  obtain ⟨first, rest, digits, digit, -⟩ := decimal_cons number
  have bounds : 48 ≤ first.toNat ∧ first.toNat ≤ 57 := by
    simpa [Char.isDigit, UInt32.le_iff_toNat_le] using digit
  have solid : isSpace first = false := by
    have no_blank : first ≠ ' ' := by
      rintro rfl
      contradiction
    simp only [isSpace, no_blank, false_or, decide_eq_false_iff_not]
    omega
  have plain : first ≠ '-' ∧ first ≠ '+' := by
    constructor <;> rintro rfl <;> contradiction
  rw [digits, List.dropWhile_cons_of_neg (by simp [solid]), signed, if_neg plain.1, if_neg plain.2]

theorem decimal_based {number : Nat} (positive : 0 < number) :
    basedOn (decimal number) = (10, decimal number) := by
  obtain ⟨first, rest, digits, -, zero⟩ := decimal_cons number
  have leading : first ≠ '0' := fun same => by
    have none_left := zero same
    omega
  rw [digits]
  unfold basedOn
  split
  · rename_i same
    exact absurd (List.cons.inj same).1 leading
  · rename_i same
    exact absurd (List.cons.inj same).1 leading
  · rfl

theorem atoi_decimal {number : Nat} (small : number < 2 ^ 31) : atoi (decimal number) = number := by
  rw [atoi, strtol, decimal_signed]
  simp only [numeral_decimal, Bool.false_eq_true, ↓reduceIte]
  rw [min_eq_left (by omega), Int.bmod_eq_of_le (by omega) (by omega)]

theorem uint8_decimal {number : Nat} (small : number < 256) :
    uint8 (atoi (decimal number)) = UInt8.ofNat number := by
  rw [atoi_decimal (by omega), uint8]
  congr 1
  omega

theorem strtoul_decimal {number : Nat} (small : number < 2 ^ 64) :
    strtoul (decimal number) = number := by
  by_cases positive : 0 < number
  · rw [strtoul, decimal_signed]
    simp only [decimal_based positive, numeral_decimal, Bool.false_eq_true, ↓reduceIte]
    rw [if_neg (by omega)]
  · obtain rfl : number = 0 := by omega
    rfl

end Ddhcpd.CText

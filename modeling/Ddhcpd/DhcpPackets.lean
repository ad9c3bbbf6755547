import Ddhcpd.Types
import Ddhcpd.Tlv
import Ddhcpd.While

/-!
`dhcp_packet.c`: how a datagram from a client is parsed. One loop counts the options, a
second one fills the array they are counted for. Payloads stay in the receive buffer; an
entry of the array keeps the offset it points at.
-/

namespace Ddhcpd.DhcpPackets
open Bytes Types Tlv While

/-! The loop that counts. -/

structure Counting where
  option : Nat
  options : Nat
  exit : Bool
  dhcpMessageType : Bool
  deriving DecidableEq

def countPass (buffer : List UInt8) (len : Nat) (s : Counting) :
    Pass Counting (Except Int Counting) :=
  if s.option < len ∧ s.exit = false then
    let code := byteAt buffer s.option
    if code = codePad then .again { s with option := s.option + 1 }
    else if code = codeEnd then .again { s with options := s.options + 1, exit := true }
    else
      let found := s.dhcpMessageType || code = codeMessageType
      if s.option + 1 > len then .done (.error (-4))
      -- the length byte may lie behind the datagram, the option then does as well
      else if s.option + (byteAt buffer (s.option + 1)).toNat + 2 > len then .done (.error (-5))
      else
        .again ⟨s.option + (byteAt buffer (s.option + 1)).toNat + 2, s.options + 1, s.exit, found⟩
  else .done (.ok s)

def counting (buffer : List UInt8) (len : Nat) : While Counting (Except Int Counting) where
  body := countPass buffer len
  measure s := (len - s.option) + if s.exit then 0 else 1
  lowers s t pass := by
    unfold countPass at pass
    split at pass
    · rename_i inside
      simp only [inside.2] at pass ⊢
      split_ifs at pass <;> cases pass <;> simp <;> omega
    · contradiction

def countOptions (buffer : List UInt8) (len : Nat) : Except Int Counting :=
  run (counting buffer len) ⟨240, 0, false, false⟩

/-! The loop that fills. -/

/-- An entry of the option array; `payload` is an offset into the buffer, or NULL. -/
structure OptionSlot where
  code : UInt8
  len : UInt8
  payload : Option Nat
  deriving DecidableEq

def emptySlot : OptionSlot := ⟨0, 0, none⟩

structure Filling where
  option : Nat
  exit : Bool
  i : UInt8
  options : List OptionSlot
  deriving DecidableEq

/-- The result is `none` when an entry behind the array is written. -/
def fillPass (buffer : List UInt8) (len : Nat) (s : Filling) :
    Pass Filling (Option Filling) :=
  if s.option < len ∧ s.exit = false then
    let code := byteAt buffer s.option
    let size := byteAt buffer (s.option + 1)
    if s.options.length ≤ s.i.toNat then .done none
    else if code = codeEnd ∨ code = codePad then
      .again ⟨s.option + 1, code = codeEnd, s.i + 1, s.options.set s.i.toNat ⟨code, 0, none⟩⟩
    else
      .again ⟨s.option + size.toNat + 2, s.exit, s.i + 1,
        s.options.set s.i.toNat ⟨code, size, some (s.option + 2)⟩⟩
  else .done (some s)

def filling (buffer : List UInt8) (len : Nat) : While Filling (Option Filling) where
  body := fillPass buffer len
  measure s := len - s.option
  lowers s t pass := by
    unfold fillPass at pass
    split at pass
    · split at pass
      · contradiction
      · simp only at pass
        split at pass <;> cases pass <;> simp <;> omega
    · contradiction

def fillSlots (buffer : List UInt8) (len options : Nat) : Option Filling :=
  run (filling buffer len) ⟨240, false, 0, List.replicate options emptySlot⟩

/-! The parser. -/

/-- How the parser ends: it returns a negative value, it writes behind the array, its
assertion fails in a build that has assertions, or it returns 0. -/
inductive Parsed where
  | rejected (value : Int)
  | overrun
  | aborted
  | accepted (packet : DhcpPacket) (slots : List OptionSlot)
  deriving DecidableEq

def magicCookie (buffer : List UInt8) : Bool :=
  byteAt buffer 236 = 99 ∧ byteAt buffer 237 = 130 ∧ byteAt buffer 238 = 83 ∧
    byteAt buffer 239 = 99

def slotOption (buffer : List UInt8) (slot : OptionSlot) : DhcpOption :=
  ⟨slot.code, slot.len, (slot.payload.map buffer.drop).getD []⟩

def packetAt (buffer : List UInt8) (optionsLen : UInt8) (slots : List OptionSlot) :
    DhcpPacket where
  op := byteAt buffer 0
  htype := byteAt buffer 1
  hlen := byteAt buffer 2
  hops := byteAt buffer 3
  xid := word32At buffer 4
  secs := word16At buffer 8
  flags := word16At buffer 10
  chaddr := bytesAt buffer 28 16
  sname := bytesAt buffer 44 64
  file := bytesAt buffer 108 128
  optionsLen := optionsLen
  ciaddr := word32At buffer 12
  yiaddr := word32At buffer 16
  siaddr := word32At buffer 20
  giaddr := word32At buffer 24
  options := slots.map (slotOption buffer)

/-- The end of the parser: the array has as many entries as were counted, the number kept
with it is one byte. `assertions` tells whether the build has them. -/
def parsedOptions (assertions : Bool) (buffer : List UInt8) (options : Nat) :
    Option Filling → Parsed
  | none => .overrun
  | some filled =>
      if assertions ∧ filled.i.toNat ≠ options then .aborted
      else .accepted (packetAt buffer (UInt8.ofNat options) filled.options) filled.options

/-- `ntoh_dhcp_packet` -/
def ntohDhcpPacket (assertions : Bool) (env : Env) (buffer : List UInt8) (len : Nat) : Parsed :=
  if len < 240 then .rejected (-1)
  else if ¬ magicCookie buffer then .rejected (-7)
  else
    match countOptions buffer len with
    | .error value => .rejected value
    | .ok counted =>
        if ¬ counted.dhcpMessageType then .rejected (-6)
        else if ¬ env.alloc .parsedOptions then .rejected (-12)
        else parsedOptions assertions buffer counted.options
          (fillSlots buffer len counted.options)

/-- What an accepted datagram has gone through. -/
theorem parsed_filled {assertions : Bool} {env : Env} {buffer : List UInt8} {len : Nat}
    {packet : DhcpPacket} {slots : List OptionSlot}
    (parsed : ntohDhcpPacket assertions env buffer len = .accepted packet slots) :
    ∃ counted filled, 240 ≤ len ∧ magicCookie buffer = true ∧
      countOptions buffer len = .ok counted ∧ counted.dhcpMessageType = true ∧
      env.alloc .parsedOptions = true ∧ fillSlots buffer len counted.options = some filled ∧
      slots = filled.options ∧
      packet = packetAt buffer (UInt8.ofNat counted.options) filled.options := by
  unfold ntohDhcpPacket at parsed
  split at parsed
  · contradiction
  rename_i long
  split at parsed
  · contradiction
  rename_i cookie
  split at parsed
  · contradiction
  rename_i counted counts
  split at parsed
  · contradiction
  rename_i typed
  split at parsed
  · contradiction
  rename_i memory
  cases fills : fillSlots buffer len counted.options with
  | none =>
      rw [fills] at parsed
      contradiction
  | some filled =>
      rw [fills, parsedOptions] at parsed
      split at parsed
      · contradiction
      cases parsed
      exact ⟨counted, filled, Nat.le_of_not_lt long, by simpa using cookie, counts,
        by simpa using typed, by simpa using memory, fills, rfl, rfl⟩

/-! The fields of a datagram, and the entries they leave in the array. -/

def fieldsAt (buffer : List UInt8) (len start : Nat) : List Field → Prop :=
  Splits codePad codeEnd ((buffer.take len).drop start)

def slotsFrom : Nat → List Field → List OptionSlot
  | _, [] => []
  | start, .pad :: rest => slotsFrom (start + 1) rest
  | start, .stop :: rest => ⟨codeEnd, 0, none⟩ :: slotsFrom (start + 1) rest
  | start, .option code value :: rest =>
      ⟨code, UInt8.ofNat value.length, some (start + 2)⟩ :: slotsFrom (start + 2 + value.length) rest

def isMessageType : Field → Bool
  | .option code _ => code = codeMessageType
  | _ => false

section Fields
variable {buffer : List UInt8} {len start : Nat} {code size : UInt8} {value rest : List UInt8}

theorem fields_end (whole : len ≤ buffer.length) (nothing : (buffer.take len).drop start = []) :
    len ≤ start := by
  have short := List.drop_eq_nil_iff.mp nothing
  rw [List.length_take] at short
  omega

/-- Where an option stands, its bytes lie inside the datagram. -/
theorem fields_option (whole : len ≤ buffer.length) (sized : value.length = size.toNat)
    (here : (buffer.take len).drop start = code :: size :: (value ++ rest)) :
    start < len ∧ byteAt buffer start = code ∧ byteAt buffer (start + 1) = size ∧
      start + 2 + value.length ≤ len ∧ (buffer.take len).drop (start + 2 + value.length) = rest := by
  rcases byte_at_cons here with ⟨inside, first, tail⟩
  rcases byte_at_cons tail with ⟨-, second, behind⟩
  have rest_eq : (buffer.take len).drop (start + 2 + value.length) = rest := by
    rw [← List.drop_drop, behind, List.drop_left]
  have total := congrArg List.length here
  simp only [List.length_drop, List.length_take, List.length_cons, List.length_append] at total
  exact ⟨inside, first, second, by omega, rest_eq⟩

end Fields

section Counts
variable {buffer : List UInt8} {len : Nat}

theorem count_ends (s : Counting) (ended : ¬ (s.option < len ∧ s.exit = false)) :
    run (counting buffer len) s = .ok s := by
  apply run_done
  simp only [counting, countPass, if_neg ended]

theorem count_stops (s : Counting) (inside : s.option < len) (further : s.exit = false)
    (code : byteAt buffer s.option = codeEnd) :
    run (counting buffer len) s = .ok { s with options := s.options + 1, exit := true } := by
  have pass : (counting buffer len).body s =
      .again { s with options := s.options + 1, exit := true } := by
    simp [counting, countPass, inside, further, code, codeEnd, codePad]
  rw [run_again _ pass]
  exact count_ends _ (by simp)

theorem count_pads (s : Counting) (inside : s.option < len) (further : s.exit = false)
    (code : byteAt buffer s.option = codePad) :
    run (counting buffer len) s = run (counting buffer len) { s with option := s.option + 1 } := by
  apply run_again
  simp [counting, countPass, inside, further, code]

theorem count_skips (s : Counting) (inside : s.option < len) (further : s.exit = false)
    (noPad : byteAt buffer s.option ≠ codePad) (noEnd : byteAt buffer s.option ≠ codeEnd)
    (fits : s.option + (byteAt buffer (s.option + 1)).toNat + 2 ≤ len) :
    run (counting buffer len) s = run (counting buffer len)
      ⟨s.option + (byteAt buffer (s.option + 1)).toNat + 2, s.options + 1, false,
        s.dhcpMessageType || byteAt buffer s.option = codeMessageType⟩ := by
  apply run_again
  simp only [counting, countPass, inside, further, noPad, noEnd, and_self, ↓reduceIte]
  rw [if_neg (by omega), if_neg (by omega)]

/-- The first loop counts every field but the paddings. -/
theorem count_splits {fields : List Field} (whole : len ≤ buffer.length) (s : Counting)
    (further : s.exit = false) (splits : fieldsAt buffer len s.option fields) :
    ∃ t, run (counting buffer len) s = .ok t ∧
      t.options = s.options + (slotsFrom s.option fields).length ∧
      t.dhcpMessageType = (s.dhcpMessageType || fields.any isMessageType) := by
  unfold fieldsAt at splits
  generalize here : (buffer.take len).drop s.option = bytes at splits
  induction splits generalizing s with
  | done =>
      have ended := fields_end whole here
      exact ⟨s, count_ends s (by omega), rfl, by simp⟩
  | stop rest =>
      rcases byte_at_cons here with ⟨inside, code, -⟩
      exact ⟨_, count_stops s inside further code, rfl, by simp [isMessageType]⟩
  | pad _ ih =>
      rcases byte_at_cons here with ⟨inside, code, tail⟩
      rw [count_pads s inside further code]
      exact ih { s with option := s.option + 1 } further tail
  | @option code size value rest fields noPad noEnd sized _ ih =>
      rcases fields_option whole sized here with ⟨inside, first, second, fits, tail⟩
      have next : s.option + size.toNat + 2 = s.option + 2 + value.length := by omega
      rw [count_skips s inside further (first ▸ noPad) (first ▸ noEnd) (by rw [second]; omega),
        first, second, next]
      rcases ih ⟨s.option + 2 + value.length, s.options + 1, false, _⟩ rfl tail with
        ⟨t, counted, options, found⟩
      refine ⟨t, counted, ?_, ?_⟩
      · simp only [options, slotsFrom, List.length_cons]
        omega
      · rw [found, List.any_cons, Bool.or_assoc]
        rfl

/-- Where the first loop gets through, the bytes split into fields. -/
theorem count_accepts (whole : len ≤ buffer.length) (s t : Counting) (further : s.exit = false)
    (inside : s.option ≤ len) (counted : run (counting buffer len) s = .ok t) :
    ∃ fields, fieldsAt buffer len s.option fields := by
  revert t further inside
  apply run_induction (counting buffer len) (fun s result => ∀ t, s.exit = false →
    s.option ≤ len → result = .ok t → ∃ fields, fieldsAt buffer len s.option fields)
  · intro s result pass t further inside ok
    by_cases more : s.option < len
    · simp only [counting, countPass, more, further, and_self, ↓reduceIte] at pass
      split_ifs at pass <;> cases pass <;> contradiction
    · refine ⟨[], ?_⟩
      rw [fieldsAt, List.drop_eq_nil_iff.mpr (by rw [List.length_take]; omega)]
      exact .done
  · intro s next pass ih t further inside ok
    have more : s.option < len := by
      by_contra ended
      simp [counting, countPass, ended] at pass
    unfold fieldsAt at ih ⊢
    have here := drop_byte_at whole more
    simp only [counting, countPass, more, further, and_self, ↓reduceIte] at pass
    split_ifs at pass with padded stopped outside large
    · cases pass
      rcases ih t rfl more ok with ⟨fields, splits⟩
      exact ⟨.pad :: fields, by rw [here, padded]; exact .pad splits⟩
    · exact ⟨[.stop], by rw [here, stopped]; exact .stop _⟩
    · cases pass
      rcases ih t rfl (Nat.le_of_not_lt large) ok with ⟨fields, splits⟩
      generalize second : byteAt buffer (s.option + 1) = size at large splits
      let value := ((buffer.take len).drop (s.option + 2)).take size.toNat
      refine ⟨.option (byteAt buffer s.option) value :: fields, ?_⟩
      have behind : (buffer.take len).drop (s.option + 2) =
          value ++ (buffer.take len).drop (s.option + size.toNat + 2) := by
        have rest : s.option + size.toNat + 2 = s.option + 2 + size.toNat := by omega
        rw [rest, ← List.drop_drop (i := size.toNat), List.take_append_drop]
      have sized : value.length = size.toNat := by
        have total : (buffer.take len).length = len := List.length_take_of_le whole
        simp only [value, List.length_take, List.length_drop, total]
        omega
      rw [here, drop_byte_at whole (by omega), second, behind]
      exact .option padded stopped sized splits

end Counts

section Fills
variable {buffer : List UInt8} {len : Nat}

theorem fill_ends (s : Filling) (ended : ¬ (s.option < len ∧ s.exit = false)) :
    run (filling buffer len) s = some s := by
  apply run_done
  simp only [filling, fillPass, if_neg ended]

theorem fill_behind (s : Filling) (inside : s.option < len) (further : s.exit = false)
    (full : s.options.length ≤ s.i.toNat) : run (filling buffer len) s = none := by
  apply run_done
  simp only [filling, fillPass, inside, further, full, and_self, ↓reduceIte]

theorem fill_marks (s : Filling) (inside : s.option < len) (further : s.exit = false)
    (room : s.i.toNat < s.options.length)
    (mark : byteAt buffer s.option = codeEnd ∨ byteAt buffer s.option = codePad) :
    run (filling buffer len) s = run (filling buffer len)
      ⟨s.option + 1, byteAt buffer s.option = codeEnd, s.i + 1,
        s.options.set s.i.toNat ⟨byteAt buffer s.option, 0, none⟩⟩ := by
  apply run_again
  simp only [filling, fillPass, inside, further, Nat.not_le_of_lt room, mark, and_self, ↓reduceIte]

theorem fill_skips (s : Filling) (inside : s.option < len) (further : s.exit = false)
    (room : s.i.toNat < s.options.length) (noEnd : byteAt buffer s.option ≠ codeEnd)
    (noPad : byteAt buffer s.option ≠ codePad) :
    run (filling buffer len) s = run (filling buffer len)
      ⟨s.option + (byteAt buffer (s.option + 1)).toNat + 2, false, s.i + 1,
        s.options.set s.i.toNat ⟨byteAt buffer s.option, byteAt buffer (s.option + 1),
          some (s.option + 2)⟩⟩ := by
  apply run_again
  simp only [filling, fillPass, inside, further, Nat.not_le_of_lt room, noEnd, noPad, or_self,
    and_self, ↓reduceIte]

/-! The second loop, field by field. -/

def width : Field → Nat
  | .option _ value => 2 + value.length
  | _ => 1

def slotAt (start : Nat) : Field → OptionSlot
  | .pad => ⟨codePad, 0, none⟩
  | .stop => ⟨codeEnd, 0, none⟩
  | .option code value => ⟨code, UInt8.ofNat value.length, some (start + 2)⟩

def fillField (s : Filling) (field : Field) : Filling :=
  ⟨s.option + width field, field = .stop, s.i + 1,
    s.options.set s.i.toNat (slotAt s.option field)⟩

def fillFields (s : Filling) : List Field → Option Filling
  | [] => some s
  | field :: rest =>
      if s.options.length ≤ s.i.toNat then none else fillFields (fillField s field) rest

theorem fill_fields {fields : List Field} (whole : len ≤ buffer.length) (s : Filling)
    (further : s.exit = false) (splits : fieldsAt buffer len s.option fields) :
    run (filling buffer len) s = fillFields s fields := by
  unfold fieldsAt at splits
  generalize here : (buffer.take len).drop s.option = bytes at splits
  induction splits generalizing s with
  | done =>
      have ended := fields_end whole here
      exact fill_ends s (by omega)
  | stop rest =>
      rcases byte_at_cons here with ⟨inside, code, -⟩
      rw [fillFields]
      split
      · rename_i full
        exact fill_behind s inside further full
      · rename_i room
        rw [fill_marks s inside further (Nat.lt_of_not_le room) (.inl code), code,
          fill_ends _ (by simp)]
        rfl
  | pad _ ih =>
      rcases byte_at_cons here with ⟨inside, code, tail⟩
      rw [fillFields]
      split
      · rename_i full
        exact fill_behind s inside further full
      · rename_i room
        rw [fill_marks s inside further (Nat.lt_of_not_le room) (.inr code), code]
        exact ih (fillField s .pad) rfl tail
  | @option code size value rest fields noPad noEnd sized _ ih =>
      rcases fields_option whole sized here with ⟨inside, first, second, -, tail⟩
      rw [fillFields]
      split
      · rename_i full
        exact fill_behind s inside further full
      · rename_i room
        have next : s.option + size.toNat + 2 = s.option + width (.option code value) := by
          simp only [width]
          omega
        have counted : size = UInt8.ofNat value.length := by simp [sized]
        rw [fill_skips s inside further (Nat.lt_of_not_le room) (first ▸ noEnd) (first ▸ noPad),
          first, second, next, counted]
        exact ih (fillField s (.option code value)) rfl (by rw [← tail, Nat.add_assoc]; rfl)

theorem slots_from_cons {field : Field} (written : field ≠ .pad) (start : Nat)
    (rest : List Field) : slotsFrom start (field :: rest) =
      slotAt start field :: slotsFrom (start + width field) rest := by
  cases field with
  | pad => contradiction
  | stop => rfl
  | option code value => rw [slotsFrom, slotAt, width, Nat.add_assoc]

theorem index_next {i : UInt8} {count : Nat} (room : i.toNat < count) (few : count ≤ 255) :
    (i + 1).toNat = i.toNat + 1 := by
  rw [UInt8.toNat_add]
  exact Nat.mod_eq_of_lt (by simp; omega)

-- The next entry is written behind those already there.
theorem set_next {written rest : List OptionSlot} {slot : OptionSlot} (index : Nat)
    (here : index = written.length) :
    (written ++ emptySlot :: rest).set index slot = (written ++ [slot]) ++ rest := by
  subst here
  simp

/-- Without paddings the second loop writes the entries that were counted. -/
theorem fill_plain {fields : List Field} (s : Filling) (written : List OptionSlot)
    (noPads : .pad ∉ fields) (index : s.i.toNat = written.length)
    (array : s.options = written ++ List.replicate fields.length emptySlot)
    (few : written.length + fields.length ≤ 255) :
    ∃ t, fillFields s fields = some t ∧ t.i.toNat = written.length + fields.length ∧
      t.options = written ++ slotsFrom s.option fields := by
  induction fields generalizing s written with
  | nil => exact ⟨s, rfl, index, array⟩
  | cons field rest ih =>
      have other : field ≠ .pad := fun same => noPads (same ▸ List.mem_cons_self)
      have noPads : .pad ∉ rest := fun member => noPads (List.mem_cons_of_mem _ member)
      have room : s.i.toNat < s.options.length := by simp [array, index]
      rw [List.length_cons] at few
      rw [fillFields, if_neg (Nat.not_le_of_lt room)]
      have array' : (fillField s field).options =
          (written ++ [slotAt s.option field]) ++ List.replicate rest.length emptySlot := by
        rw [fillField, array]
        exact set_next _ index
      have index' : (fillField s field).i.toNat = (written ++ [slotAt s.option field]).length := by
        rw [fillField, index_next room (by simpa [array] using few), index, List.length_append]
        rfl
      rcases ih (fillField s field) (written ++ [slotAt s.option field]) noPads index' array'
        (by simp only [List.length_append, List.length_singleton]; omega) with
        ⟨t, filled, last, entries⟩
      refine ⟨t, filled, ?_, ?_⟩
      · simp only [last, List.length_append, List.length_cons, List.length_nil]
        omega
      · rw [entries, slots_from_cons other, List.append_assoc]
        rfl

/-- With more fields than counted entries the second loop writes behind the array. -/
theorem fill_overruns {fields : List Field} (s : Filling) (index : s.i.toNat ≤ s.options.length)
    (few : s.options.length ≤ 255) (more : s.options.length < s.i.toNat + fields.length) :
    fillFields s fields = none := by
  induction fields generalizing s with
  | nil => exact absurd more (Nat.not_lt_of_le index)
  | cons field rest ih =>
      rw [fillFields]
      split
      · rfl
      · rename_i room
        rw [List.length_cons] at more
        have next := index_next (Nat.lt_of_not_le room) few
        apply ih
        · simp only [fillField, List.length_set, next]
          omega
        · simpa [fillField] using few
        · simp only [fillField, List.length_set, next]
          omega

end Fills

end Ddhcpd.DhcpPackets

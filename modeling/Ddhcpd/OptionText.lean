import Ddhcpd.CText
import Ddhcpd.OptionStore

/-!
An option on its way from a command line into the store: `parse_option` reads it from text,
`ddhcpctl` packs it into a message and `handle_command` unpacks it. The length is told twice,
by the text and by the number of its items, and the message tells it once more.
-/

namespace Ddhcpd.OptionText
open Bytes Words Types Options Node CText OptionStore Announced

/-! `tools.c` and `ddhcpctl.c`. -/

def payloadByte (text : List Char) : UInt8 := UInt8.ofNat (strtoul text)

/-- The loop of `parse_option`. The last item is not cut off from what follows. -/
def parsePayload : Nat → List Char → Option (List UInt8)
  | 0, _ => some []
  | count + 1, text =>
      if count = 0 then some [payloadByte text]
      else (cut '.' text).bind fun parts =>
        (parsePayload count parts.2).map (payloadByte parts.1 :: ·)

/-- `parse_option`; `none` where it leaves the program. The two allocations succeed or not. -/
def parseOption (optionMemory payloadMemory : Bool) (optarg : List Char) : Option DhcpOption := do
  let parts ← cut ':' optarg
  let rest ← cut ':' parts.2
  let len := uint8 (atoi rest.1)
  let code := uint8 (atoi parts.1)
  if ¬ optionMemory then none
  if ¬ payloadMemory then none
  let payload ← parsePayload len.toNat rest.2
  return ⟨code, len, payload⟩

/-- The message of `ddhcpctl -o`. -/
def ctlOptionMessage (option : DhcpOption) : List UInt8 :=
  3 :: option.code :: option.len :: (bytesAt option.payload 0 option.len.toNat).toList

/-! The text of an option. -/

def payloadText : List UInt8 → List Char
  | [] => []
  | [byte] => decimal byte.toNat
  | byte :: rest => decimal byte.toNat ++ '.' :: payloadText rest

def optionText (code : UInt8) (payload : List UInt8) : List Char :=
  decimal code.toNat ++ ':' :: (decimal payload.length ++ ':' :: payloadText payload)

section Parsing
variable {payload : List UInt8}

theorem payload_byte_decimal (byte : UInt8) : payloadByte (decimal byte.toNat) = byte := by
  have bound := byte.toNat_lt
  rw [payloadByte, strtoul_decimal (by omega), UInt8.ofNat_toNat]

theorem payload_parsed (payload : List UInt8) :
    parsePayload payload.length (payloadText payload) = some payload := by
  induction payload with
  | nil => rfl
  | cons byte rest ih =>
      cases rest with
      | nil => simp [parsePayload, payloadText, payload_byte_decimal]
      | cons next rest =>
          have several : (next :: rest).length ≠ 0 := Nat.succ_ne_zero _
          rw [List.length_cons, parsePayload, if_neg several, payloadText,
            cut_at _ _ (decimal_without _ (by decide)), Option.bind_some, ih, Option.map_some,
            payload_byte_decimal]
          exact List.cons_ne_nil _ _

theorem option_parsed (code : UInt8) (short : payload.length ≤ 255) :
    parseOption true true (optionText code payload) =
      some ⟨code, UInt8.ofNat payload.length, payload⟩ := by
  have bound := code.toNat_lt
  have size : (UInt8.ofNat payload.length).toNat = payload.length :=
    UInt8.toNat_ofNat_of_lt' (Nat.lt_of_le_of_lt short (by decide))
  have colon (number : Nat) : ':' ∉ decimal number := decimal_without number (by decide)
  simp only [parseOption, optionText, cut_at _ _ (colon _), Option.bind_eq_bind, Option.bind_some,
    not_true_eq_false, ↓reduceIte, uint8_decimal bound, UInt8.ofNat_toNat]
  rw [uint8_decimal (by omega), size, payload_parsed]
  rfl

end Parsing

/-! The message. -/

section Messages
variable {env : Env} {c : Config} {code size : UInt8} {payload stale : List UInt8}

theorem ctl_message (code : UInt8) (short : payload.length ≤ 255) :
    ctlOptionMessage ⟨code, UInt8.ofNat payload.length, payload⟩ =
      3 :: code :: UInt8.ofNat payload.length :: payload := by
  have size : (UInt8.ofNat payload.length).toNat = payload.length :=
    UInt8.toNat_ofNat_of_lt' (Nat.lt_of_le_of_lt short (by decide))
  rw [ctlOptionMessage, size, bytes_at_slice, slice_take (Nat.le_refl _), List.take_length]

/-- `handle_command` where the message sets an option. -/
theorem handle_option_set {buffer : List UInt8} {len : Nat} (command : byteAt buffer 0 = ctlOptionSet)
    (some_read : len ≠ 0) : handleCommand env buffer len c =
      if len < 3 ∨ (byteAt buffer 2).toNat + 3 > len then (c, -2)
      else if ¬ env.alloc .controlOption ∨ ¬ env.alloc .controlPayload then (c, -1)
      else ({ c with options := setOptionInStore c.options ⟨byteAt buffer 1, byteAt buffer 2,
        (bytesAt buffer 3 (byteAt buffer 2).toNat).toList⟩ }, 0) := by
  have other : ¬ (ctlOptionSet = ctlBlockShow ∨ ctlOptionSet = ctlOptionsShow) := by decide
  simp only [handleCommand, command, other, some_read, ↓reduceIte]

/-- A message that is cut off is refused, whatever stands behind it in the buffer. -/
theorem truncated_refused {message : List UInt8} (whole : message.length = (byteAt message 2).toNat + 3)
    (command : byteAt message 0 = ctlOptionSet) {k : Nat} (truncated : k < message.length)
    (stale : List UInt8) : handleCommand env (message.take k ++ stale) k c = (c, -2) := by
  have kept : (message.take k ++ stale).take k = message.take k := by
    rw [List.take_append_of_le_length (by rw [List.length_take]; omega), List.take_take, Nat.min_self]
  by_cases nothing : k = 0
  · simp [handleCommand, nothing]
  · have first : byteAt (message.take k ++ stale) 0 = ctlOptionSet := by
      rw [byte_at_same kept (Nat.pos_of_ne_zero nothing), command]
    rw [handle_option_set first nothing, if_pos]
    by_cases header : k < 3
    · exact .inl header
    · right
      rw [byte_at_same kept (by omega)]
      omega

theorem message_stored (memory : env.alloc .controlOption = true ∧ env.alloc .controlPayload = true)
    (sized : size.toNat = payload.length) (stale : List UInt8) :
    handleCommand env (3 :: code :: size :: (payload ++ stale)) (payload.length + 3) c =
      ({ c with options := setOptionInStore c.options ⟨code, size, payload⟩ }, 0) := by
  have front : [3, code, size].length = 3 := rfl
  have value : (bytesAt (3 :: code :: size :: (payload ++ stale)) 3 size.toNat).toList = payload := by
    rw [show 3 :: code :: size :: (payload ++ stale) = [3, code, size] ++ (payload ++ stale) from rfl,
      bytes_at_append front _ 0, bytes_at_slice, sized,
      slice_take (by rw [List.length_append]; omega), List.take_left]
  have read : byteAt (3 :: code :: size :: (payload ++ stale)) 2 = size := rfl
  rw [handle_option_set rfl (Nat.succ_ne_zero _), read, value, if_neg (by omega),
    if_neg (by simp [memory])]
  rfl

theorem message_starved (lacking : ¬ (env.alloc .controlOption = true ∧
    env.alloc .controlPayload = true)) (sized : size.toNat = payload.length) (stale : List UInt8) :
    handleCommand env (3 :: code :: size :: (payload ++ stale)) (payload.length + 3) c = (c, -1) := by
  have read : byteAt (3 :: code :: size :: (payload ++ stale)) 2 = size := rfl
  rw [handle_option_set rfl (Nat.succ_ne_zero _), read, if_neg (by omega),
    if_pos (not_and_or.mp lacking)]

end Messages

/-- The message sets exactly this option, and its truncations do nothing. Where there is no memory
for the option, nothing is changed either. -/
structure Delivers (env : Env) (c : Config) (code : UInt8) (payload message : List UInt8) : Prop where
  stored : env.alloc .controlOption = true ∧ env.alloc .controlPayload = true → ∀ stale,
    ∃ after, handleCommand env (message ++ stale) message.length c = (after, 0) ∧
      (∃ option, findInOptionStore after.options code = some option ∧
        option.len.toNat = payload.length ∧ option.payload = payload) ∧
      ∀ other, other ≠ code → findInOptionStore after.options other = findInOptionStore c.options other
  starved : ¬ (env.alloc .controlOption = true ∧ env.alloc .controlPayload = true) → ∀ stale,
    handleCommand env (message ++ stale) message.length c = (c, -1)
  truncated : ∀ k < message.length, ∀ stale, ∃ value,
    handleCommand env (message.take k ++ stale) k c = (c, value) ∧ value < 0

theorem option_text_delivered (env : Env) (c : Config) (code : UInt8) (payload : List UInt8)
    (short : payload.length ≤ 255) :
    ∃ option, parseOption true true (optionText code payload) = some option ∧
      Delivers env c code payload (ctlOptionMessage option) := by
  have size : (UInt8.ofNat payload.length).toNat = payload.length :=
    UInt8.toNat_ofNat_of_lt' (Nat.lt_of_le_of_lt short (by decide))
  refine ⟨_, option_parsed code short, ?_⟩
  rw [ctl_message code short]
  constructor
  case stored =>
    intro memory stale
    refine ⟨_, message_stored memory size stale,
      ⟨⟨code, UInt8.ofNat payload.length, payload⟩, ?_, size, rfl⟩, fun other different => ?_⟩
    · rw [set_in_store_find, if_pos rfl]
    · rw [set_in_store_find, if_neg (Ne.symm different)]
  case starved => exact fun lacking stale => message_starved lacking size stale
  case truncated =>
    intro k less stale
    refine ⟨-2, truncated_refused ?_ rfl less stale, by decide⟩
    change payload.length + 3 = (UInt8.ofNat payload.length).toNat + 3
    rw [size]

theorem option_text_delivered_time : ∃ option,
    parseOption true true (optionText 51 [0, 0, 1, 44]) = some option ∧
      Delivers (calmEnv 1010) smallStart.config 51 [0, 0, 1, 44] (ctlOptionMessage option) :=
  option_text_delivered (calmEnv 1010) smallStart.config 51 [0, 0, 1, 44] (by decide)

example : optionText 51 [0, 0, 1, 44] = "51:4:0.0.1.44".toList := by decide

end Ddhcpd.OptionText

import Ddhcpd.Datagram
import Ddhcpd.Words

/-!
`dhcp_packet_send`: how a reply is written into its buffer. Each write is checked against the
size the buffer was allocated with.
-/

namespace Ddhcpd.Reply
open Bytes Types Tlv While DhcpPackets Parsing Dhcp Words Datagram

/-! Writing into a buffer. -/

/-- A write of `bytes` at an offset; `none` when it leaves the buffer. -/
def store (buffer : List UInt8) (offset : Nat) (bytes : List UInt8) : Option (List UInt8) :=
  if offset + bytes.length ≤ buffer.length then
    some (buffer.take offset ++ bytes ++ buffer.drop (offset + bytes.length))
  else none

def storeAll (buffer : List UInt8) : List (Nat × List UInt8) → Option (List UInt8)
  | [] => some buffer
  | (offset, bytes) :: rest => (store buffer offset bytes).bind fun buffer => storeAll buffer rest

/-! The encoder. -/

def isMark (option : DhcpOption) : Bool := option.code = codePad ∨ option.code = codeEnd

def optionSize (option : DhcpOption) : Nat := if isMark option then 1 else 2 + option.len.toNat

/-- `_dhcp_packet_len` -/
def dhcpPacketLen (packet : DhcpPacket) : Nat :=
  (packet.options.take packet.optionsLen.toNat).foldl (fun len option => len + optionSize option)
    (240 + 1)

def headerWrites (packet : DhcpPacket) : List (Nat × List UInt8) :=
  [(0, [packet.op]), (1, [packet.htype]), (2, [packet.hlen]), (3, [packet.hops]),
    (4, word32Bytes packet.xid), (8, word16Bytes packet.secs), (10, word16Bytes packet.flags),
    (12, word32Bytes packet.ciaddr), (16, word32Bytes packet.yiaddr),
    (20, word32Bytes packet.siaddr), (24, word32Bytes packet.giaddr),
    (28, packet.chaddr.toList), (44, packet.sname.toList), (108, packet.file.toList),
    (236, [99]), (237, [130]), (238, [83]), (239, [99])]

/-- One round of the loop over the options, with the offset `obuf` stands at. -/
def writeOption (work : List UInt8 × Nat) (option : DhcpOption) : Option (List UInt8 × Nat) := do
  let buffer ← store work.1 work.2 [option.code]
  if isMark option then return (buffer, work.2 + 1)
  else
    let buffer ← store buffer (work.2 + 1) [option.len]
    let buffer ← store buffer (work.2 + 2) (bytesAt option.payload 0 option.len.toNat).toList
    return (buffer, work.2 + 2 + option.len.toNat)

/-- The buffer `dhcp_packet_send` hands to `sendto`; `none` when a write leaves it, or when the
assertion fails in a build that has assertions. -/
def dhcpPacketBuffer (assertions : Bool) (packet : DhcpPacket) : Option (List UInt8) := do
  let len := dhcpPacketLen packet
  let buffer ← storeAll (List.replicate len 0) (headerWrites packet)
  let written ← (packet.options.take packet.optionsLen.toNat).foldlM writeOption (buffer, 240)
  let buffer ← store written.1 (len - 1) [codeEnd]
  if assertions ∧ written.2 + 1 ≠ len then none else some buffer

/-! Writes one behind the other fill the buffer from its start. -/

def zeros (count : Nat) : List UInt8 := List.replicate count 0

/-- Each write starts where the one before it ends. -/
def Sequential : Nat → List (Nat × List UInt8) → Prop
  | _, [] => True
  | start, (offset, bytes) :: rest => offset = start ∧ Sequential (start + bytes.length) rest

def optionBytes (option : DhcpOption) : List UInt8 :=
  if isMark option then [option.code]
  else option.code :: option.len :: (bytesAt option.payload 0 option.len.toNat).toList

def headerBytes (packet : DhcpPacket) : List UInt8 := (headerWrites packet).flatMap Prod.snd

/-- The options of the packet as they are sent, without the end. -/
def optionsBytes (packet : DhcpPacket) : List UInt8 :=
  (packet.options.take packet.optionsLen.toNat).flatMap optionBytes

section Writes
variable {written bytes : List UInt8} {rest offset : Nat}

theorem store_next (here : offset = written.length) (room : bytes.length ≤ rest) :
    store (written ++ zeros rest) offset bytes =
      some (written ++ bytes ++ zeros (rest - bytes.length)) := by
  subst here
  have fits : written.length + bytes.length ≤ (written ++ zeros rest).length := by
    simpa [zeros] using room
  have behind : (written ++ zeros rest).drop (written.length + bytes.length) =
      zeros (rest - bytes.length) := by
    rw [← List.drop_drop, List.drop_left, zeros, List.drop_replicate]
    rfl
  rw [store, if_pos fits, behind, List.take_left]

theorem store_all_next (writes : List (Nat × List UInt8))
    (sequential : Sequential written.length writes)
    (room : (writes.flatMap Prod.snd).length ≤ rest) :
    storeAll (written ++ zeros rest) writes = some (written ++ writes.flatMap Prod.snd ++
      zeros (rest - (writes.flatMap Prod.snd).length)) := by
  induction writes generalizing written rest with
  | nil => simp [storeAll]
  | cons write writes ih =>
      rcases write with ⟨offset, bytes⟩
      rcases sequential with ⟨here, further⟩
      simp only [List.flatMap_cons, List.length_append] at room
      rw [storeAll, store_next here (by omega), Option.bind_some, ih
        (by rwa [List.length_append]) (by omega), List.flatMap_cons, List.length_append,
        ← List.append_assoc, Nat.sub_sub]

theorem option_bytes_length (option : DhcpOption) :
    (optionBytes option).length = optionSize option := by
  unfold optionBytes optionSize
  split
  · rfl
  · simp only [List.length_cons, List.Vector.toList_length]
    omega

theorem write_option_next (option : DhcpOption) (here : offset = written.length)
    (room : optionSize option ≤ rest) : writeOption (written ++ zeros rest, offset) option =
      some (written ++ optionBytes option ++ zeros (rest - optionSize option),
        offset + optionSize option) := by
  by_cases mark : isMark option = true
  · have size : optionSize option = 1 := if_pos mark
    have bytes : optionBytes option = [option.code] := if_pos mark
    rw [size] at room ⊢
    rw [writeOption, store_next here (by simpa using room), bytes]
    simp [mark]
  · have size : optionSize option = 2 + option.len.toNat := if_neg mark
    have bytes : optionBytes option = [option.code] ++ ([option.len] ++
        (bytesAt option.payload 0 option.len.toNat).toList) := if_neg mark
    have length : (bytesAt option.payload 0 option.len.toNat).toList.length = option.len.toNat := by
      simp
    rw [size] at room ⊢
    rw [writeOption, store_next here (by simp; omega)]
    simp only [mark, Option.bind_eq_bind, Option.bind_some, Bool.false_eq_true, ↓reduceIte,
      List.length_singleton]
    rw [store_next (by simp [here]) (by simp; omega), Option.bind_some,
      store_next (by simp [here]) (by simp; omega), Option.bind_some, bytes]
    have total : 1 + (1 + option.len.toNat) = 2 + option.len.toNat := by omega
    simp only [Option.pure_def, List.length_singleton, length, List.append_assoc, Nat.sub_sub,
      Nat.add_assoc, total]

theorem options_bytes_length (options : List DhcpOption) (start : Nat) :
    options.foldl (fun len option => len + optionSize option) start =
      start + (options.flatMap optionBytes).length := by
  induction options generalizing start with
  | nil => rfl
  | cons option options ih =>
      rw [List.foldl_cons, ih, List.flatMap_cons, List.length_append, option_bytes_length,
        Nat.add_assoc]

theorem write_options_next (options : List DhcpOption) (here : offset = written.length)
    (room : (options.flatMap optionBytes).length ≤ rest) :
    options.foldlM writeOption (written ++ zeros rest, offset) =
      some (written ++ options.flatMap optionBytes ++
          zeros (rest - (options.flatMap optionBytes).length),
        offset + (options.flatMap optionBytes).length) := by
  induction options generalizing written rest offset with
  | nil => simp
  | cons option options ih =>
      rw [List.flatMap_cons, List.length_append, option_bytes_length] at room
      rw [List.foldlM_cons, write_option_next option here (by omega), Option.bind_eq_bind,
        Option.bind_some, ih (by rw [List.length_append, option_bytes_length, here]) (by omega),
        List.flatMap_cons, List.length_append, option_bytes_length, ← List.append_assoc,
        Nat.sub_sub, Nat.add_assoc]

theorem header_sequential (packet : DhcpPacket) : Sequential 0 (headerWrites packet) := by
  simp [headerWrites, Sequential]

@[simp] theorem header_bytes_length (packet : DhcpPacket) : (headerBytes packet).length = 240 := by
  simp [headerBytes, headerWrites]

theorem dhcp_packet_len_bytes (packet : DhcpPacket) :
    dhcpPacketLen packet = 240 + (optionsBytes packet).length + 1 := by
  rw [dhcpPacketLen, options_bytes_length, optionsBytes]
  omega

/-- The writes fill the buffer, and the assertion holds. -/
theorem buffer_written (assertions : Bool) (packet : DhcpPacket) :
    dhcpPacketBuffer assertions packet =
      some (headerBytes packet ++ optionsBytes packet ++ [codeEnd]) := by
  have len := dhcp_packet_len_bytes packet
  have header : storeAll (List.replicate (dhcpPacketLen packet) 0) (headerWrites packet) =
      some (headerBytes packet ++ zeros (dhcpPacketLen packet - 240)) := by
    have total := header_bytes_length packet
    have stored : storeAll ([] ++ zeros (dhcpPacketLen packet)) (headerWrites packet) =
        some ([] ++ headerBytes packet ++
          zeros (dhcpPacketLen packet - (headerBytes packet).length)) :=
      store_all_next _ (header_sequential packet) (by rw [← headerBytes]; omega)
    rwa [total] at stored
  have options : (packet.options.take packet.optionsLen.toNat).foldlM writeOption
      (headerBytes packet ++ zeros (dhcpPacketLen packet - 240), 240) =
        some (headerBytes packet ++ optionsBytes packet ++ zeros 1, dhcpPacketLen packet - 1) := by
    have room : (optionsBytes packet).length ≤ dhcpPacketLen packet - 240 := by omega
    have written := write_options_next (packet.options.take packet.optionsLen.toNat)
      (header_bytes_length packet).symm room
    have one : dhcpPacketLen packet - 240 - (optionsBytes packet).length = 1 := by omega
    have last : 240 + (optionsBytes packet).length = dhcpPacketLen packet - 1 := by omega
    rw [written, ← optionsBytes, one, last]
  have finish : store (headerBytes packet ++ optionsBytes packet ++ zeros 1)
      (dhcpPacketLen packet - 1) [codeEnd] =
        some (headerBytes packet ++ optionsBytes packet ++ [codeEnd]) := by
    rw [store_next (by simp; omega) (by simp)]
    simp [zeros]
  rw [dhcpPacketBuffer]
  simp only [header, options, finish, Option.bind_eq_bind, Option.bind_some]
  rw [if_neg]
  omega

end Writes

/-! Reading the reply. -/

section Layout
variable (packet : DhcpPacket) (tail : List UInt8)

/-- The header as its fields stand one behind the other. -/
theorem header_layout : headerBytes packet ++ tail =
    [packet.op, packet.htype, packet.hlen, packet.hops] ++ (word32Bytes packet.xid ++
      (word16Bytes packet.secs ++ (word16Bytes packet.flags ++ (word32Bytes packet.ciaddr ++
        (word32Bytes packet.yiaddr ++ (word32Bytes packet.siaddr ++ (word32Bytes packet.giaddr ++
          (packet.chaddr.toList ++ (packet.sname.toList ++ (packet.file.toList ++
            ([99, 130, 83, 99] ++ tail))))))))))) := by
  simp [headerBytes, headerWrites]

theorem drop_next {buffer front back : List UInt8} {start next : Nat}
    (here : buffer.drop start = front ++ back) (sum : next = start + front.length) :
    buffer.drop next = back := by
  rw [sum, ← List.drop_drop, here, List.drop_left]

theorem word32_there {buffer back : List UInt8} {start : Nat} {word : UInt32}
    (here : buffer.drop start = word32Bytes word ++ back) : word32At buffer start = word := by
  rw [← word32_at_drop, here, word32_at_written]

theorem word16_there {buffer back : List UInt8} {start : Nat} {word : UInt16}
    (here : buffer.drop start = word16Bytes word ++ back) : word16At buffer start = word := by
  have read : word16At (buffer.drop start) 0 = word16At buffer start := by
    simp only [word16At, byte_at_drop]
    rfl
  rw [← read, here, word16_at_written]

theorem bytes_there {buffer back : List UInt8} {start count : Nat}
    {bytes : List.Vector UInt8 count} (here : buffer.drop start = bytes.toList ++ back) :
    bytesAt buffer start count = bytes := by
  rw [← bytes_at_drop, here, bytes_at_written]

theorem header_read (optionsLen : UInt8) (slots : List OptionSlot) :
    magicCookie (headerBytes packet ++ tail) = true ∧
      packetAt (headerBytes packet ++ tail) optionsLen slots = { packet with
        optionsLen := optionsLen
        options := slots.map (slotOption (headerBytes packet ++ tail)) } := by
  have at0 : (headerBytes packet ++ tail).drop 0 = _ := header_layout packet tail
  generalize headerBytes packet ++ tail = buffer at *
  have at4 : buffer.drop 4 = _ := drop_next at0 rfl
  have at8 : buffer.drop 8 = _ := drop_next at4 rfl
  have at10 : buffer.drop 10 = _ := drop_next at8 rfl
  have at12 : buffer.drop 12 = _ := drop_next at10 rfl
  have at16 : buffer.drop 16 = _ := drop_next at12 rfl
  have at20 : buffer.drop 20 = _ := drop_next at16 rfl
  have at24 : buffer.drop 24 = _ := drop_next at20 rfl
  have at28 : buffer.drop 28 = _ := drop_next at24 rfl
  have at44 : buffer.drop 44 = _ := drop_next at28 (by simp)
  have at108 : buffer.drop 108 = _ := drop_next at44 (by simp)
  have at236 : buffer.drop 236 = _ := drop_next at108 (by simp)
  have first : ∀ k, byteAt buffer k = byteAt (buffer.drop 0) k := fun _ => rfl
  have cookie : ∀ k, byteAt buffer (236 + k) = byteAt ([99, 130, 83, 99] ++ tail) k := fun k => by
    rw [← byte_at_drop, at236]
  constructor
  · have byte0 : byteAt buffer 236 = 99 := cookie 0
    have byte1 : byteAt buffer 237 = 130 := cookie 1
    have byte2 : byteAt buffer 238 = 83 := cookie 2
    have byte3 : byteAt buffer 239 = 99 := cookie 3
    rw [magicCookie, byte0, byte1, byte2, byte3]
    rfl
  · rw [packetAt, first 0, first 1, first 2, first 3, at0, word32_there at4, word16_there at8,
      word16_there at10, word32_there at12, word32_there at16, word32_there at20,
      word32_there at24, bytes_there at28, bytes_there at44, bytes_there at108]
    rfl

end Layout

/-! The options of a reply, one field behind the other. -/

/-- The entries the parser has to find, their values copied out of the buffer. -/
def fieldEntry : Field → Option DhcpOption
  | .pad => none
  | .stop => some ⟨codeEnd, 0, []⟩
  | .option code value => some ⟨code, UInt8.ofNat value.length, value⟩

/-- A reply that can be sent and read again: the options are those the length tells, no code
marks a padding or the end, each value is as long as its option says, and one carries the
message type. -/
structure Sendable (packet : DhcpPacket) : Prop where
  few : packet.optionsLen.toNat ≤ 254
  counted : packet.options.length = packet.optionsLen.toNat
  codes : ∀ option ∈ packet.options, option.code ≠ codePad ∧ option.code ≠ codeEnd
  values : ∀ option ∈ packet.options, option.payload.length = option.len.toNat
  typed : ∃ option ∈ packet.options, option.code = codeMessageType

def optionField (option : DhcpOption) : Field := .option option.code option.payload

def sentFields (packet : DhcpPacket) : List Field := packet.options.map optionField ++ [.stop]

/-- The packet with the end among its options. -/
def withEnd (packet : DhcpPacket) : DhcpPacket :=
  { packet with
    optionsLen := packet.optionsLen + 1
    options := packet.options ++ [⟨codeEnd, 0, []⟩] }

theorem value_there {buffer value rest : List UInt8} {len start count : Nat}
    (fits : start + value.length ≤ len) (here : (buffer.take len).drop start = value ++ rest)
    (length : count = value.length) :
    (bytesAt (buffer.drop start) 0 count).toList = value := by
  subst length
  have same : (buffer.take len).take len = buffer.take len := by
    rw [List.take_take, Nat.min_self]
  have written : bytesAt (buffer.take len) start value.length = ⟨value, rfl⟩ := bytes_there here
  rw [bytes_at_drop, ← bytes_at_same same fits, written]
  rfl

/-- What the parser leaves in the array, once its values are copied. -/
theorem slots_copied {buffer : List UInt8} {len start : Nat} {fields : List Field}
    (whole : len ≤ buffer.length) (splits : fieldsAt buffer len start fields) :
    (slotsFrom start fields).map (fun slot => copyOption (slotOption buffer slot)) =
      fields.filterMap fieldEntry := by
  unfold fieldsAt at splits
  generalize here : (buffer.take len).drop start = bytes at splits
  induction splits generalizing start with
  | done => rfl
  | stop rest => rfl
  | pad _ ih => exact ih (byte_at_cons here).2.2
  | @option code size value rest fields noPad noEnd sized _ ih =>
      rcases fields_option whole sized here with ⟨-, -, -, fits, tail⟩
      have behind : (buffer.take len).drop (start + 2) = value ++ rest := by
        rw [← List.drop_drop, here]
        rfl
      have small : value.length < 256 := sized ▸ size.toNat_lt
      have length : (UInt8.ofNat value.length).toNat = value.length :=
        UInt8.toNat_ofNat_of_lt' small
      have copied : copyOption (slotOption buffer ⟨code, UInt8.ofNat value.length, some (start + 2)⟩) =
          ⟨code, UInt8.ofNat value.length, value⟩ := by
        simp only [copyOption, slotOption, Option.map_some, Option.getD_some,
          value_there fits behind length]
      rw [slotsFrom, List.map_cons, copied, ih tail]
      rfl

theorem options_split {options : List DhcpOption}
    (codes : ∀ option ∈ options, option.code ≠ codePad ∧ option.code ≠ codeEnd)
    (values : ∀ option ∈ options, option.payload.length = option.len.toNat) :
    Splits codePad codeEnd (options.flatMap optionBytes ++ [codeEnd])
      (options.map optionField ++ [.stop]) := by
  induction options with
  | nil => exact .stop []
  | cons option options ih =>
      rcases codes option List.mem_cons_self with ⟨noPad, noEnd⟩
      have sized := values option List.mem_cons_self
      have mark : ¬ isMark option = true := by simp [isMark, noPad, noEnd]
      have value : (bytesAt option.payload 0 option.len.toNat).toList = option.payload := by
        rw [← sized, bytes_at_slice, slice_take (Nat.le_refl _), List.take_length]
      have bytes : optionBytes option = option.code :: option.len :: option.payload := by
        rw [optionBytes, if_neg mark, value]
      rw [List.flatMap_cons, bytes, List.map_cons, List.append_assoc]
      apply Splits.option noPad noEnd sized
      exact ih (fun other member => codes other (List.mem_cons_of_mem _ member))
        (fun other member => values other (List.mem_cons_of_mem _ member))

section Sent
variable {packet : DhcpPacket} (sendable : Sendable packet)
include sendable

theorem sent_options : packet.options.take packet.optionsLen.toNat = packet.options := by
  rw [← sendable.counted, List.take_length]

theorem sent_split : Splits codePad codeEnd (optionsBytes packet ++ [codeEnd]) (sentFields packet) := by
  rw [optionsBytes, sent_options sendable]
  exact options_split sendable.codes sendable.values

theorem sent_entries :
    (sentFields packet).filterMap fieldEntry = packet.options ++ [⟨codeEnd, 0, []⟩] := by
  have entry : ∀ option ∈ packet.options, fieldEntry (optionField option) = some option := by
    intro option member
    simp [fieldEntry, optionField, sendable.values option member]
  rw [sentFields, List.filterMap_append, List.filterMap_map]
  congr 1
  exact (List.filterMap_congr entry).trans List.filterMap_some

theorem sent_accepts (stale : List UInt8) :
    Accepts (headerBytes packet ++ (optionsBytes packet ++ [codeEnd] ++ stale))
      (dhcpPacketLen packet) (sentFields packet) where
  header := by
    rw [dhcp_packet_len_bytes]
    omega
  cookie := (header_read packet _ 0 []).1
  splits := by
    have len : dhcpPacketLen packet =
        240 + (optionsBytes packet ++ [codeEnd]).length := by
      simp [dhcp_packet_len_bytes, Nat.add_assoc]
    rw [fieldsAt, List.drop_take, List.drop_left' (header_bytes_length packet), len,
      Nat.add_sub_cancel_left, List.take_left]
    exact sent_split sendable
  typed := by
    rcases sendable.typed with ⟨option, member, code⟩
    apply List.any_eq_true.mpr
    refine ⟨optionField option, List.mem_append_left _ (List.mem_map_of_mem member), ?_⟩
    simpa [optionField, isMessageType] using code

theorem sent_number (start : Nat) :
    UInt8.ofNat (slotsFrom start (sentFields packet)).length = packet.optionsLen + 1 := by
  have plain : .pad ∉ sentFields packet := by simp [sentFields, optionField]
  have total := slots_few start (sentFields packet)
  rw [List.count_eq_zero.mpr plain] at total
  have number : (sentFields packet).length = packet.optionsLen.toNat + 1 := by
    simp [sentFields, sendable.counted]
  have length : (slotsFrom start (sentFields packet)).length = packet.optionsLen.toNat + 1 := by
    omega
  rw [length, UInt8.ofNat_add, UInt8.ofNat_toNat]
  rfl

/-- Behind the reply the buffer it is received in may hold anything. -/
theorem sent_received (stale : List UInt8) {assertions : Bool} {env : Env}
    (memory : env.alloc .parsedOptions = true) : ∃ parsed slots,
      ntohDhcpPacket assertions env
        (headerBytes packet ++ (optionsBytes packet ++ [codeEnd] ++ stale))
        (dhcpPacketLen packet) = .accepted parsed slots ∧ copyPacket parsed = withEnd packet := by
  have accepts := sent_accepts sendable stale
  have read := header_read packet (optionsBytes packet ++ [codeEnd] ++ stale)
    (packet.optionsLen + 1) (slotsFrom 240 (sentFields packet))
  have whole : dhcpPacketLen packet ≤
      (headerBytes packet ++ (optionsBytes packet ++ [codeEnd] ++ stale)).length := by
    simp only [dhcp_packet_len_bytes, List.length_append, header_bytes_length, List.length_singleton]
    omega
  generalize headerBytes packet ++ (optionsBytes packet ++ [codeEnd] ++ stale) = buffer at *
  have plain : .pad ∉ sentFields packet := by simp [sentFields, optionField]
  have few : (sentFields packet).length ≤ 255 := by
    have bound := sendable.few
    simp only [sentFields, List.length_append, List.length_map, sendable.counted,
      List.length_singleton]
    omega
  have parsed : ntohDhcpPacket assertions env buffer (dhcpPacketLen packet) = _ :=
    plain_accepted whole accepts memory plain few
  rw [sent_number sendable, read.2] at parsed
  refine ⟨_, _, parsed, ?_⟩
  have entries := slots_copied whole accepts.splits
  rw [sent_entries sendable] at entries
  have length : ((slotsFrom 240 (sentFields packet)).map (slotOption buffer)).length =
      (packet.optionsLen + 1).toNat := by
    have small : packet.optionsLen.toNat + 1 < 256 := by
      have bound := sendable.few
      omega
    have number := congrArg List.length entries
    simp only [List.length_map, List.length_append, sendable.counted,
      List.length_singleton] at number
    rw [List.length_map, number, UInt8.toNat_add]
    exact (Nat.mod_eq_of_lt small).symm
  rw [copyPacket, withEnd]
  simp only [← length, List.take_length, List.map_map, Function.comp_def, entries]

end Sent

/-- A reply keeps inside its buffer and fills it, and who reads it gets the packet back. -/
theorem reply_round_trip {packet : DhcpPacket} (sendable : Sendable packet) :
    ∃ buffer, (∀ assertions, dhcpPacketBuffer assertions packet = some buffer) ∧
      buffer.length = dhcpPacketLen packet ∧
      ∀ assertions env stale, env.alloc .parsedOptions = true → ∃ parsed slots,
        ntohDhcpPacket assertions env (buffer ++ stale) buffer.length = .accepted parsed slots ∧
          copyPacket parsed = withEnd packet := by
  have length : (headerBytes packet ++ optionsBytes packet ++ [codeEnd]).length =
      dhcpPacketLen packet := by
    simp [dhcp_packet_len_bytes, Nat.add_assoc]
  refine ⟨_, fun assertions => buffer_written assertions packet, length, ?_⟩
  intro assertions env stale memory
  rw [length, List.append_assoc, List.append_assoc, ← List.append_assoc (optionsBytes packet)]
  exact sent_received sendable stale memory

/-! An acknowledgement with a lease time. -/

def smallReply : DhcpPacket :=
  { Node.smallPacket 1 7 dhcpAck with
    optionsLen := 2
    options := [⟨codeMessageType, 1, [dhcpAck]⟩, ⟨codeAddressLeaseTime, 4, [0, 0, 1, 44]⟩] }

theorem small_reply_sendable : Sendable smallReply where
  few := by decide
  counted := rfl
  codes := by decide
  values := by decide
  typed := ⟨_, List.mem_cons_self, rfl⟩

theorem reply_round_trip_small :
    ∃ buffer, (∀ assertions, dhcpPacketBuffer assertions smallReply = some buffer) ∧
      buffer.length = dhcpPacketLen smallReply ∧
      ∀ assertions env stale, env.alloc .parsedOptions = true → ∃ parsed slots,
        ntohDhcpPacket assertions env (buffer ++ stale) buffer.length = .accepted parsed slots ∧
          copyPacket parsed = withEnd smallReply :=
  reply_round_trip small_reply_sendable

end Ddhcpd.Reply

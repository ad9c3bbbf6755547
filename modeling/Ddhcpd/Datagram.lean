import Ddhcpd.Parsing

/-!
`dhcp_process` on the receive buffer. The buffer holds the datagram and behind it what
earlier ones left. Two buffers with one datagram are told apart only where a handler reads
the value of an option past its end.
-/

namespace Ddhcpd.Datagram
open Bytes Types Tlv While DhcpPackets Parsing Options Dhcp Leases Blocks Node Loop

/-- `dhcp_process`, with the value it returns; `none` where the parser faults. -/
def dhcpProcessDatagram (assertions : Bool) (cfg : Settings) (env : Env) (buffer : List UInt8)
    (len : Nat) (c : Config) : Option (Config × Nat) :=
  match ntohDhcpPacket assertions env buffer len with
  | .rejected _ => some (c, 0)
  | .overrun => none
  | .aborted => none
  | .accepted packet _ => dhcpProcess cfg env packet c

/-! Handlers read the options of a packet up to their lengths, but for two values. -/

/-- Packets that no handler tells apart. -/
structure Alike (packet other : DhcpPacket) : Prop where
  copy : copyPacket packet = copyPacket other
  type : messageType packet = messageType other
  address : messageType packet = dhcpRequest → requestedAddress packet = requestedAddress other

section Copies
variable (cfg : Settings) (env : Env) (packet : DhcpPacket) (c : Config)

theorem bytes_at_twice (bytes : List UInt8) (count : Nat) :
    bytesAt (bytesAt bytes 0 count).toList 0 count = bytesAt bytes 0 count := by
  apply List.Vector.ext
  intro k
  simp only [bytesAt, List.Vector.get_ofFn, List.Vector.toList_ofFn, byteAt, Nat.zero_add,
    List.getD_eq_getElem?_getD]
  simp

theorem find_option_copied (code : UInt8) :
    findOption (copyPacket packet).options packet.optionsLen code =
      (findOption packet.options packet.optionsLen code).map copyOption := by
  have length : ((packet.options.take packet.optionsLen.toNat).map copyOption).length ≤
      packet.optionsLen.toNat := by simp
  rw [findOption, findOption, copyPacket, List.take_of_length_le length, List.find?_map]
  rfl

theorem default_options_copied (type : UInt8) (reply : DhcpPacket) (leaseTime : Bool) :
    dhcpDefaultOptions env type reply (copyPacket packet) c leaseTime =
      dhcpDefaultOptions env type reply packet c leaseTime := by
  have requested : findOptionParameterRequestList (copyPacket packet).options
      (copyPacket packet).optionsLen =
        findOptionParameterRequestList packet.options packet.optionsLen := by
    have found := find_option_copied packet codeParameterRequestList
    simp only [findOptionParameterRequestList, show (copyPacket packet).optionsLen =
      packet.optionsLen from rfl, found]
    cases findOption packet.options packet.optionsLen codeParameterRequestList with
    | none => rfl
    | some option => simp [copyOption, bytes_at_twice]
  simp only [dhcpDefaultOptions, fillOptions, requested]

theorem ack_copied (position index : Nat) :
    dhcpAckLease cfg env (copyPacket packet) position index c =
      dhcpAckLease cfg env packet position index c := by
  simp only [dhcpAckLease, default_options_copied]
  rfl

theorem discover_copied :
    dhcpHdlDiscover cfg env (copyPacket packet) c = dhcpHdlDiscover cfg env packet c := by
  simp only [dhcpHdlDiscover, default_options_copied]
  rfl

theorem inform_copied : dhcpHdlInform env (copyPacket packet) c = dhcpHdlInform env packet c := by
  simp only [dhcpHdlInform, default_options_copied]
  rfl

theorem packet_copied_twice : copyPacket (copyPacket packet) = copyPacket packet := by
  have copied : ∀ option, copyOption (copyOption option) = copyOption option := by
    intro option
    simp [copyOption, bytes_at_twice]
  simp [copyPacket, List.take_of_length_le, Function.comp_def, copied]

theorem list_add_copied :
    dhcpPacketListAdd env (copyPacket packet) c = dhcpPacketListAdd env packet c := by
  simp only [dhcpPacketListAdd, packet_copied_twice]
  rfl

theorem forward_copied (address : InAddr) (position index : Nat) :
    forwardRequest cfg env (copyPacket packet) address position index c =
      forwardRequest cfg env packet address position index c := by
  simp only [forwardRequest, list_add_copied]
  rfl

theorem nack_copied : dhcpNack env (copyPacket packet) c = dhcpNack env packet c := rfl

theorem find_offered_copied :
    findOfferedLease cfg (copyPacket packet) c = findOfferedLease cfg packet c := rfl

theorem may_acknowledge_copied (lease : Lease) :
    mayAcknowledge (copyPacket packet) lease = mayAcknowledge packet lease := rfl

theorem release_copied :
    dhcpHdlRelease cfg env (copyPacket packet) c = dhcpHdlRelease cfg env packet c := rfl
end Copies

theorem request_alike (cfg : Settings) (env : Env) (c : Config) {packet other : DhcpPacket}
    (copy : copyPacket packet = copyPacket other)
    (address : requestedAddress packet = requestedAddress other) :
    dhcpHdlRequest cfg env packet c = dhcpHdlRequest cfg env other c := by
  have ack : ∀ position index c, dhcpAckLease cfg env packet position index c =
      dhcpAckLease cfg env other position index c := by
    intro position index c
    rw [← ack_copied, copy, ack_copied]
  have forward : ∀ address position index c, forwardRequest cfg env packet address position index c =
      forwardRequest cfg env other address position index c := by
    intro address position index c
    rw [← forward_copied, copy, forward_copied]
  have nack : dhcpNack env packet c = dhcpNack env other c := by
    rw [← nack_copied, copy, nack_copied]
  have acknowledge : ∀ lease, mayAcknowledge packet lease = mayAcknowledge other lease := by
    intro lease
    rw [← may_acknowledge_copied, copy, may_acknowledge_copied]
  have find : findOfferedLease cfg packet c = findOfferedLease cfg other c := by
    rw [← find_offered_copied, copy, find_offered_copied]
  simp only [dhcpHdlRequest, address, ack, forward, nack, acknowledge, find]

theorem process_alike (cfg : Settings) (env : Env) (c : Config) {packet other : DhcpPacket}
    (alike : Alike packet other) : dhcpProcess cfg env packet c = dhcpProcess cfg env other c := by
  have discover : dhcpHdlDiscover cfg env packet c = dhcpHdlDiscover cfg env other c := by
    rw [← discover_copied, alike.copy, discover_copied]
  have inform : dhcpHdlInform env packet c = dhcpHdlInform env other c := by
    rw [← inform_copied, alike.copy, inform_copied]
  have release : dhcpHdlRelease cfg env packet c = dhcpHdlRelease cfg env other c := by
    rw [← release_copied, alike.copy, release_copied]
  by_cases request : messageType packet = dhcpRequest
  · have same := request_alike cfg env c alike.copy (alike.address request)
    simp only [dhcpProcess, ← alike.type, same, discover, inform, release]
  · have different : messageType other ≠ dhcpRequest := alike.type ▸ request
    simp only [dhcpProcess, alike.type, if_neg different, discover, inform, release]

/-! The parser reads nothing behind the datagram that it uses. -/

section Tails
variable {first second : List UInt8} {len : Nat}

/-- A length byte behind the datagram is read, but then the option is rejected anyway. -/
theorem count_same (same : first.take len = second.take len) :
    countOptions first len = countOptions second len := by
  have pass : countPass first len = countPass second len := by
    funext s
    by_cases inside : s.option < len
    · have code := byte_at_same same inside
      by_cases more : s.option + 1 < len
      · simp only [countPass, code, byte_at_same same more]
      · have last : ∀ size : UInt8, s.option + size.toNat + 2 > len := fun size => by omega
        simp only [countPass, code, last, ↓reduceIte]
    · simp [countPass, inside]
  simp only [countOptions, counting, pass]

theorem fields_same (same : first.take len = second.take len) (start : Nat) :
    fieldsAt first len start = fieldsAt second len start := by
  rw [fieldsAt, fieldsAt, same]

theorem fill_same (same : first.take len = second.take len) (whole : len ≤ first.length)
    {fields : List Field} (s : Filling) (further : s.exit = false)
    (splits : fieldsAt first len s.option fields) :
    run (filling first len) s = run (filling second len) s := by
  have sizes := congrArg List.length same
  rw [List.length_take_of_le whole, List.length_take] at sizes
  have wholeToo : len ≤ second.length := by omega
  rw [fill_fields whole s further splits,
    fill_fields wholeToo s further (fields_same same s.option ▸ splits)]

/-- The value the entry points at lies inside the datagram. -/
def Inside (len : Nat) (slot : OptionSlot) : Prop :=
  ∀ start, slot.payload = some start → start + slot.len.toNat ≤ len

theorem set_inside {slots : List OptionSlot} {index : Nat} {slot : OptionSlot}
    (inner : ∀ other ∈ slots, Inside len other) (fits : Inside len slot) :
    ∀ other ∈ slots.set index slot, Inside len other := by
  intro other member
  rcases List.mem_or_eq_of_mem_set member with old | rfl
  · exact inner other old
  · exact fits

theorem slot_inside {start : Nat} {field : Field} (fits : width field ≤ len - start) :
    Inside len (slotAt start field) := by
  intro offset points
  cases field with
  | pad => contradiction
  | stop => contradiction
  | option code value =>
      cases points
      simp only [width] at fits
      have small : (UInt8.ofNat value.length).toNat ≤ value.length := by
        rw [UInt8.toNat_ofNat']
        exact Nat.mod_le _ _
      simp only [slotAt]
      omega

theorem splits_width {bytes : List UInt8} {fields : List Field}
    (splits : Splits codePad codeEnd bytes fields) : (fields.map width).sum ≤ bytes.length := by
  induction splits with
  | done => exact Nat.le_refl _
  | stop rest => simp [width]
  | pad _ ih =>
      simp only [List.map_cons, List.sum_cons, List.length_cons, width]
      omega
  | option _ _ _ _ ih =>
      simp only [List.map_cons, List.sum_cons, List.length_cons, List.length_append, width]
      omega

theorem fields_inside {fields : List Field} (s : Filling)
    (fits : (fields.map width).sum ≤ len - s.option)
    (inner : ∀ slot ∈ s.options, Inside len slot) {t : Filling}
    (filled : fillFields s fields = some t) : ∀ slot ∈ t.options, Inside len slot := by
  induction fields generalizing s with
  | nil =>
      cases filled
      exact inner
  | cons field rest ih =>
      rw [fillFields, Option.ite_none_left_eq_some] at filled
      rw [List.map_cons, List.sum_cons] at fits
      apply ih (fillField s field) _ _ filled.2
      · simp only [fillField]
        omega
      · exact set_inside inner (slot_inside (by omega))

theorem fill_inside {buffer : List UInt8} (whole : len ≤ buffer.length) {fields : List Field}
    (s : Filling) (further : s.exit = false) (splits : fieldsAt buffer len s.option fields)
    (inner : ∀ slot ∈ s.options, Inside len slot) {t : Filling}
    (filled : run (filling buffer len) s = some t) : ∀ slot ∈ t.options, Inside len slot := by
  have fits := splits_width splits
  rw [List.length_drop, List.length_take_of_le whole] at fits
  exact fields_inside s fits inner (fill_fields whole s further splits ▸ filled)

def Parsed.readIn (buffer : List UInt8) : Parsed → Parsed
  | .accepted packet slots => .accepted (packetAt buffer packet.optionsLen slots) slots
  | parsed => parsed

/-- Two buffers with one datagram are parsed alike, but the payloads are read in them. -/
theorem parsed_same {assertions : Bool} {env : Env} (same : first.take len = second.take len)
    (whole : len ≤ first.length) : ntohDhcpPacket assertions env second len =
      Parsed.readIn second (ntohDhcpPacket assertions env first len) := by
  by_cases short : len < 240
  · simp only [ntohDhcpPacket, short, ↓reduceIte, Parsed.readIn]
  have cookie : magicCookie second = magicCookie first := by
    simp only [magicCookie, byte_at_same same (by omega : 236 < len),
      byte_at_same same (by omega : 237 < len), byte_at_same same (by omega : 238 < len),
      byte_at_same same (by omega : 239 < len)]
  by_cases found : magicCookie first
  · cases counts : countOptions first len with
    | error value =>
        have again : countOptions second len = .error value := count_same same ▸ counts
        simp only [ntohDhcpPacket, short, cookie, found, counts, again, not_true_eq_false,
          ↓reduceIte, Parsed.readIn]
    | ok counted =>
        have again : countOptions second len = .ok counted := count_same same ▸ counts
        rcases count_accepts whole _ counted rfl (Nat.le_of_not_lt short) counts with
          ⟨fields, splits⟩
        have fills : fillSlots second len counted.options = fillSlots first len counted.options :=
          (fill_same same whole _ rfl splits).symm
        simp only [ntohDhcpPacket, short, cookie, found, counts, again, fills, not_true_eq_false,
          ↓reduceIte]
        split_ifs
        · cases fillSlots first len counted.options with
          | none => rfl
          | some filled =>
              simp only [parsedOptions]
              split_ifs <;> rfl
        · rfl
        · rfl
  · simp only [ntohDhcpPacket, short, cookie, found, ↓reduceIte]
    rfl

end Tails

/-! What the handlers read of the two options whose length they do not look at. -/

def firstSlot (slots : List OptionSlot) (optionsLen code : UInt8) : Option OptionSlot :=
  (slots.take optionsLen.toNat).find? fun slot => slot.code = code

/-- The message type, and the address of a request, are read inside the datagram. -/
structure ReadsInside (len : Nat) (packet : DhcpPacket) (slots : List OptionSlot) : Prop where
  type : ∀ slot start, firstSlot slots packet.optionsLen codeMessageType = some slot →
    slot.payload = some start → start < len
  address : messageType packet = dhcpRequest → ∀ slot start,
    firstSlot slots packet.optionsLen codeRequestedAddress = some slot →
    slot.payload = some start → start + 4 ≤ len

section Reads
variable (buffer : List UInt8) (optionsLen : UInt8) (slots : List OptionSlot)

theorem find_slot (code : UInt8) :
    findOption (packetAt buffer optionsLen slots).options optionsLen code =
      (firstSlot slots optionsLen code).map (slotOption buffer) := by
  simp only [findOption, packetAt, firstSlot, ← List.map_take, List.find?_map]
  rfl

theorem message_type_read : messageType (packetAt buffer optionsLen slots) =
    match (firstSlot slots optionsLen codeMessageType).bind OptionSlot.payload with
    | some start => byteAt buffer start
    | none => 0 := by
  have found := find_slot buffer optionsLen slots codeMessageType
  simp only [messageType, show (packetAt buffer optionsLen slots).optionsLen = optionsLen from rfl,
    found]
  cases firstSlot slots optionsLen codeMessageType with
  | none => rfl
  | some slot =>
      cases points : slot.payload with
      | none => simp [slotOption, points, byteAt]
      | some start => simp [slotOption, points, byte_at_drop]

theorem requested_address_read : requestedAddress (packetAt buffer optionsLen slots) =
    match firstSlot slots optionsLen codeRequestedAddress with
    | some slot => some (word32At ((slot.payload.map buffer.drop).getD []) 0)
    | none => if word32At buffer 12 ≠ 0 then some (word32At buffer 12) else none := by
  have found := find_slot buffer optionsLen slots codeRequestedAddress
  simp only [requestedAddress, findOptionRequestedAddress,
    show (packetAt buffer optionsLen slots).optionsLen = optionsLen from rfl, found]
  cases firstSlot slots optionsLen codeRequestedAddress with
  | none => rfl
  | some slot => rfl
end Reads

theorem message_type_same {first second : List UInt8} {len : Nat} {optionsLen : UInt8}
    {slots : List OptionSlot} (same : first.take len = second.take len)
    (inside : ∀ slot start, firstSlot slots optionsLen codeMessageType = some slot →
      slot.payload = some start → start < len) :
    messageType (packetAt first optionsLen slots) = messageType (packetAt second optionsLen slots) := by
  rw [message_type_read, message_type_read]
  cases found : firstSlot slots optionsLen codeMessageType with
  | none => rfl
  | some slot =>
      cases points : slot.payload with
      | none => simp only [Option.bind_some, points]
      | some start =>
          simp only [Option.bind_some, points]
          exact byte_at_same same (inside slot start found points)

theorem alike_of_reads {first second : List UInt8} {len : Nat} {optionsLen : UInt8}
    {slots : List OptionSlot} (same : first.take len = second.take len) (header : 240 ≤ len)
    (inner : ∀ slot ∈ slots, Inside len slot)
    (reads : ReadsInside len (packetAt first optionsLen slots) slots) :
    Alike (packetAt first optionsLen slots) (packetAt second optionsLen slots) := by
  constructor
  · have options : ((packetAt first optionsLen slots).options.take optionsLen.toNat).map copyOption =
        ((packetAt second optionsLen slots).options.take optionsLen.toNat).map copyOption := by
      simp only [packetAt, ← List.map_take, List.map_map]
      apply List.map_congr_left
      intro slot member
      have fits := inner slot (List.mem_of_mem_take member)
      cases points : slot.payload with
      | none => simp [slotOption, points]
      | some start =>
          have value := bytes_at_same same (fits start points)
          simp [slotOption, points, copyOption, bytes_at_drop, value]
    have bytes := fun offset (inside : offset < 240) =>
      byte_at_same same (Nat.lt_of_lt_of_le inside header)
    have words := fun offset (inside : offset + 4 ≤ 240) =>
      word32_at_same same (Nat.le_trans inside header)
    have halves := fun offset (inside : offset + 2 ≤ 240) =>
      word16_at_same same (Nat.le_trans inside header)
    have slices := fun offset count (inside : offset + count ≤ 240) =>
      bytes_at_same same (Nat.le_trans inside header)
    unfold copyPacket
    rw [show (packetAt first optionsLen slots).optionsLen = optionsLen from rfl,
      show (packetAt second optionsLen slots).optionsLen = optionsLen from rfl, options]
    simp [packetAt, bytes, words, halves, slices]
  · exact message_type_same same reads.type
  · intro request
    rw [requested_address_read, requested_address_read]
    cases found : firstSlot slots optionsLen codeRequestedAddress with
    | none =>
        have ciaddr : word32At first 12 = word32At second 12 := word32_at_same same (by omega)
        simp only [ciaddr]
    | some slot =>
        cases points : slot.payload with
        | none => simp only [points, Option.map_none]
        | some start =>
            simp only [points, Option.map_some, Option.getD_some, word32_at_drop]
            rw [word32_at_same same (reads.address request slot start found points)]

/-! The theorem: which datagrams are handled without a look at what stands behind them. -/

def bufferSize : Nat := 1500

/-- Whatever stands behind the datagram, `dhcp_process` does the same. -/
def Uninfluenced (assertions : Bool) (datagram : List UInt8) : Prop :=
  ∀ (cfg : Settings) (env : Env) (c : Config) (first second : List UInt8),
    first.length = bufferSize → second.length = bufferSize →
    datagram <+: first → datagram <+: second →
    dhcpProcessDatagram assertions cfg env first datagram.length c =
      dhcpProcessDatagram assertions cfg env second datagram.length c

section Influence
variable {assertions : Bool} {env : Env} {datagram buffer : List UInt8} {packet : DhcpPacket}
  {slots : List OptionSlot}

theorem datagram_taken (holds : datagram <+: buffer) :
    datagram.take datagram.length = buffer.take datagram.length := by
  rw [List.take_length, ← List.prefix_iff_eq_take]
  exact holds

theorem parsed_inside (whole : datagram.length ≤ buffer.length)
    (parsed : ntohDhcpPacket assertions env buffer datagram.length = .accepted packet slots) :
    240 ≤ datagram.length ∧ ∀ slot ∈ slots, Inside datagram.length slot := by
  rcases parsed_filled parsed with ⟨counted, filled, header, -, counts, -, -, fills, rfl, rfl⟩
  rcases count_accepts whole _ counted rfl header counts with ⟨fields, splits⟩
  refine ⟨header, fill_inside whole _ rfl splits ?_ fills⟩
  intro slot member
  rw [List.eq_of_mem_replicate member]
  intro start points
  contradiction

theorem parsed_packet (parsed : ntohDhcpPacket assertions env buffer datagram.length =
    .accepted packet slots) : packet = packetAt buffer packet.optionsLen slots := by
  rcases parsed_filled parsed with ⟨counted, filled, -, -, -, -, -, -, rfl, rfl⟩
  rfl

theorem read_behind (env : Env) (holds : datagram <+: buffer) :
    ntohDhcpPacket assertions env buffer datagram.length =
      Parsed.readIn buffer (ntohDhcpPacket assertions env datagram datagram.length) :=
  parsed_same (datagram_taken holds) (Nat.le_refl _)

theorem reads_uninfluenced (inside : datagram.length < bufferSize → ∀ env packet slots,
      ntohDhcpPacket assertions env datagram datagram.length = .accepted packet slots →
      ReadsInside datagram.length packet slots) : Uninfluenced assertions datagram := by
  intro cfg env c first second firstSize secondSize firstHolds secondHolds
  by_cases shorter : datagram.length < bufferSize
  · simp only [dhcpProcessDatagram, read_behind env firstHolds, read_behind env secondHolds]
    cases parsed : ntohDhcpPacket assertions env datagram datagram.length with
    | rejected value => rfl
    | overrun => rfl
    | aborted => rfl
    | accepted packet slots =>
        have reads := inside shorter env packet slots parsed
        rcases parsed_inside (Nat.le_refl _) parsed with ⟨header, inner⟩
        rw [parsed_packet parsed] at reads
        have firstAlike := alike_of_reads (datagram_taken firstHolds) header inner reads
        have secondAlike := alike_of_reads (datagram_taken secondHolds) header inner reads
        exact (process_alike cfg env c firstAlike).symm.trans (process_alike cfg env c secondAlike)
  · have firstWhole := List.IsPrefix.eq_of_length_le firstHolds (by omega)
    have secondWhole := List.IsPrefix.eq_of_length_le secondHolds (by omega)
    rw [← firstWhole, ← secondWhole]

/-! Otherwise two tails are told apart. -/

/-- The buffer after the datagram was received over one whose next byte was `byte`. -/
def leftOver (datagram : List UInt8) (byte : UInt8) : List UInt8 :=
  datagram ++ byte :: List.replicate (bufferSize - datagram.length - 1) 0

theorem left_over_length (byte : UInt8) (shorter : datagram.length < bufferSize) :
    (leftOver datagram byte).length = bufferSize := by
  simp only [leftOver, List.length_append, List.length_cons, List.length_replicate]
  omega

theorem left_over_holds (byte : UInt8) : datagram <+: leftOver datagram byte :=
  List.prefix_append _ _

theorem left_over_byte (byte : UInt8) :
    byteAt (leftOver datagram byte) datagram.length = byte := by
  simp [byteAt, leftOver]

/-- An environment that never fails parses what any other one does. -/
theorem parsed_calm (parsed : ntohDhcpPacket assertions env buffer datagram.length =
    .accepted packet slots) :
    ntohDhcpPacket assertions (calmEnv 0) buffer datagram.length = .accepted packet slots := by
  rcases parsed_filled parsed with ⟨_, _, -, -, -, -, memory, -, -, -⟩
  have same : (calmEnv 0).alloc .parsedOptions = env.alloc .parsedOptions := memory.symm
  rw [← parsed, ntohDhcpPacket, ntohDhcpPacket, same]

theorem process_left_over (cfg : Settings) (c : Config) (byte : UInt8)
    (parsed : ntohDhcpPacket assertions env datagram datagram.length = .accepted packet slots) :
    dhcpProcessDatagram assertions cfg (calmEnv 0) (leftOver datagram byte) datagram.length c =
      dhcpProcess cfg (calmEnv 0) (packetAt (leftOver datagram byte) packet.optionsLen slots) c := by
  rw [dhcpProcessDatagram, read_behind _ (left_over_holds byte), parsed_calm parsed]
  rfl

theorem inform_sends (request : DhcpPacket) (c : Config) :
    (dhcpHdlInform (calmEnv 0) request c).out.length = c.out.length + 1 := by
  simp [dhcpHdlInform, dhcpDefaultOptions, dhcpPacketSend, calmEnv]

theorem nack_sends (request : DhcpPacket) (c : Config) :
    (dhcpNack (calmEnv 0) request c).1.out.length = c.out.length + 1 := by
  simp [dhcpNack, dhcpPacketSend, calmEnv]

theorem type_inside (shorter : datagram.length < bufferSize)
    (uninfluenced : Uninfluenced assertions datagram)
    (parsed : ntohDhcpPacket assertions env datagram datagram.length = .accepted packet slots) :
    ∀ slot start, firstSlot slots packet.optionsLen codeMessageType = some slot →
      slot.payload = some start → start < datagram.length := by
  intro slot start found points
  by_contra behind
  rcases parsed_inside (Nat.le_refl _) parsed with ⟨-, inner⟩
  have fits := inner slot (List.mem_of_mem_take (List.mem_of_find?_eq_some found)) start points
  have last : start = datagram.length := by omega
  -- the first byte of the tail is the message type
  have type : ∀ byte, messageType (packetAt (leftOver datagram byte) packet.optionsLen slots) =
      byte := by
    intro byte
    simp only [message_type_read, found, Option.bind_some, points, last, left_over_byte]
  have same := uninfluenced (smallNode 1) (calmEnv 0) smallStart.config _ _
    (left_over_length dhcpInform shorter) (left_over_length 0 shorter) (left_over_holds _)
    (left_over_holds _)
  rw [process_left_over _ _ _ parsed, process_left_over _ _ _ parsed] at same
  have informed : dhcpProcess (smallNode 1) (calmEnv 0)
      (packetAt (leftOver datagram dhcpInform) packet.optionsLen slots) smallStart.config =
        some (dhcpHdlInform (calmEnv 0)
          (packetAt (leftOver datagram dhcpInform) packet.optionsLen slots) smallStart.config, 0) := by
    rw [dhcpProcess, type]
    rfl
  have ignored : dhcpProcess (smallNode 1) (calmEnv 0)
      (packetAt (leftOver datagram 0) packet.optionsLen slots) smallStart.config =
        some (smallStart.config, 0) := by
    rw [dhcpProcess, type]
    rfl
  rw [informed, ignored, Option.some.injEq, Prod.mk.injEq] at same
  have length := congrArg (fun c => c.out.length) same.1
  simp only [inform_sends] at length
  omega

/-- A node whose network is one address. -/
def nodeAt (address : InAddr) : Settings := { smallNode 1 with prefixAddr := address }

theorem node_at_inside (address : InAddr) (c : Config) (free : (c.blocks 0).state = .free) :
    findLeaseFromAddress (nodeAt address) c address = ⟨1, 0, 0⟩ := by
  simp [findLeaseFromAddress, nodeAt, smallNode, Settings.blocks, free]

theorem node_at_outside (address other : InAddr) (c : Config) (different : other ≠ address) :
    (findLeaseFromAddress (nodeAt address) c other).status = 2 := by
  have distance : ¬ (other - address).toNat < 1 := by
    intro less
    have nothing : other - address = 0 := UInt32.toNat_inj.mp (Nat.lt_one_iff.mp less)
    exact different (by simpa using congrArg (· + address) nothing)
  have size : (nodeAt address).blockSize.toNat = 1 := rfl
  have blocks : (nodeAt address).blocks = 1 := rfl
  have position : (nodeAt address).prefixAddr = address := rfl
  simp only [findLeaseFromAddress, size, blocks, position, Nat.div_one, if_neg distance]

theorem address_inside (shorter : datagram.length < bufferSize)
    (uninfluenced : Uninfluenced assertions datagram)
    (parsed : ntohDhcpPacket assertions env datagram datagram.length = .accepted packet slots)
    (request : messageType packet = dhcpRequest) :
    ∀ slot start, firstSlot slots packet.optionsLen codeRequestedAddress = some slot →
      slot.payload = some start → start + 4 ≤ datagram.length := by
  intro slot start found points
  by_contra behind
  rcases parsed_inside (Nat.le_refl _) parsed with ⟨-, inner⟩
  have fits := inner slot (List.mem_of_mem_take (List.mem_of_find?_eq_some found)) start points
  have typed := type_inside shorter uninfluenced parsed
  have type : ∀ byte, messageType (packetAt (leftOver datagram byte) packet.optionsLen slots) =
      dhcpRequest := by
    intro byte
    rw [← message_type_same (datagram_taken (left_over_holds byte)) typed, ← parsed_packet parsed,
      request]
  have address : ∀ byte, requestedAddress
      (packetAt (leftOver datagram byte) packet.optionsLen slots) =
        some (word32At (leftOver datagram byte) start) := by
    intro byte
    simp only [requested_address_read, found, points, Option.map_some, Option.getD_some,
      word32_at_drop]
  -- the first byte of the tail is one of the four
  let inNetwork := word32At (leftOver datagram 0) start
  have different : word32At (leftOver datagram 1) start ≠ inNetwork := by
    intro equal
    have bytes := word32_at_injective equal (datagram.length - start) (by omega)
    have here : start + (datagram.length - start) = datagram.length := by omega
    rw [here, left_over_byte, left_over_byte] at bytes
    exact absurd bytes (by decide)
  let c := startConfig (nodeAt inNetwork) 0 []
  have same := uninfluenced (nodeAt inNetwork) (calmEnv 0) c _ _ (left_over_length 0 shorter)
    (left_over_length 1 shorter) (left_over_holds _) (left_over_holds _)
  rw [process_left_over _ _ _ parsed, process_left_over _ _ _ parsed] at same
  have silent : dhcpProcess (nodeAt inNetwork) (calmEnv 0)
      (packetAt (leftOver datagram 0) packet.optionsLen slots) c = some (c, 0) := by
    have lookup := node_at_inside inNetwork c rfl
    simp only [dhcpProcess, type, dhcpHdlRequest, address, inNetwork, lookup]
    rfl
  have refused : dhcpProcess (nodeAt inNetwork) (calmEnv 0)
      (packetAt (leftOver datagram 1) packet.optionsLen slots) c = some ((dhcpNack (calmEnv 0)
        (packetAt (leftOver datagram 1) packet.optionsLen slots) c).1, 0) := by
    have lookup := node_at_outside inNetwork _ c different
    simp only [dhcpProcess, type, dhcpHdlRequest, address, lookup]
    rfl
  rw [silent, refused, Option.some.injEq, Prod.mk.injEq] at same
  have length := congrArg (fun c => c.out.length) same.1
  simp only [nack_sends] at length
  omega
end Influence

/-- Nothing behind the datagram has an influence when it fills the buffer, and otherwise when
the type and the address of an accepted datagram are read inside it. -/
theorem uninfluenced_iff (assertions : Bool) (datagram : List UInt8) :
    Uninfluenced assertions datagram ↔ (datagram.length < bufferSize → ∀ env packet slots,
      ntohDhcpPacket assertions env datagram datagram.length = .accepted packet slots →
      ReadsInside datagram.length packet slots) := by
  constructor
  · intro uninfluenced shorter env packet slots parsed
    constructor
    · exact type_inside shorter uninfluenced parsed
    · exact address_inside shorter uninfluenced parsed
  · exact reads_uninfluenced

-- The last byte of this datagram is the length of its message type: there is none.
theorem stale_type_read : ¬ Uninfluenced true (smallDatagram [53, 0]) := by
  intro uninfluenced
  have length : (smallDatagram [53, 0]).length = 242 := by decide +kernel
  have accepts : Accepts (smallDatagram [53, 0]) 242 [.option 53 []] :=
    ⟨by decide, by decide +kernel, show Splits 0 255 (53 :: 0 :: ([] ++ [])) _ from
      .option (by decide) (by decide) rfl .done, rfl⟩
  have parsed : ntohDhcpPacket true (calmEnv 0) (smallDatagram [53, 0]) 242 = .accepted
      (packetAt (smallDatagram [53, 0]) 1 [⟨53, 0, some 242⟩]) [⟨53, 0, some 242⟩] :=
    plain_accepted (Nat.le_of_eq length.symm) accepts rfl (by decide) (by decide)
  generalize smallDatagram [53, 0] = datagram at *
  rw [← length] at parsed
  have inside := type_inside (by rw [length]; decide) uninfluenced parsed
    ⟨53, 0, some datagram.length⟩ datagram.length rfl rfl
  omega

end Ddhcpd.Datagram

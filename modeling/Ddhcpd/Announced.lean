import Ddhcpd.DefaultOptions
import Ddhcpd.KeyedList
import Ddhcpd.Words
import Mathlib.Data.Nat.Log

/-!
The addresses a node announces. What the command line leaves open `dhcp_options_init` fills
in: the last address of the network for broadcasts, and the address of the network with 1 for
its last byte for the server. A reply has the options of the store that the client asks for
and the server identifier; where the count of the options wraps it has the first of them only.
-/

namespace Ddhcpd.Announced
open Bytes Words Types Leases Options Dhcp Node DefaultOptions

/-! The store at startup. -/

def defaults (cfg : Settings) : List DhcpOption :=
  [⟨codeSubnetMask, 4, subnetMask cfg⟩, ⟨codeTimeOffset, 4, [0, 0, 0, 0]⟩,
    ⟨codeBroadcastAddress, 4, broadcastAddress cfg⟩, ⟨codeAddressLeaseTime, 4, [0, 0, 1, 44]⟩,
    ⟨codeServerIdentifier, 4, serverIdentifier cfg⟩]

section Startup
variable {memory : UInt8 → Bool} {code : UInt8} {payload : List UInt8}
  {store after : List DhcpOption}

/-! The store is a list keyed by the codes. -/

theorem find_in_store (store : List DhcpOption) (code : UInt8) :
    findInOptionStore store code = KeyedList.find DhcpOption.code store code := rfl

theorem find_in_append (front back : List DhcpOption) (code : UInt8) :
    findInOptionStore (front ++ back) code =
      (findInOptionStore front code).or (findInOptionStore back code) :=
  KeyedList.find_append front back

theorem set_in_store_put (store : List DhcpOption) (option : DhcpOption) :
    setOptionInStore store option = KeyedList.put DhcpOption.code store option := by
  induction store with
  | nil => rfl
  | cons current rest ih => rw [setOptionInStore, KeyedList.put, ih]

theorem set_in_store_find (store : List DhcpOption) (option : DhcpOption) (code : UInt8) :
    findInOptionStore (setOptionInStore store option) code =
      if option.code = code then some option else findInOptionStore store code := by
  rw [set_in_store_put]
  exact KeyedList.find_put store option code

/-- An option is added behind those that are there, where it is seen only if it is new. -/
theorem init_option_find (done : initOption memory code payload store = some after) (other : UInt8) :
    findInOptionStore after other = findInOptionStore (store ++ [⟨code, 4, payload⟩]) other := by
  have behind : findInOptionStore [⟨code, 4, payload⟩] other =
      if code = other then some ⟨code, 4, payload⟩ else none := KeyedList.find_cons []
  rw [find_in_append, behind]
  unfold initOption hasInOptionStore at done
  cases stored : findInOptionStore store code with
  | none =>
      simp only [stored, Option.isSome_none, Bool.false_eq_true, ↓reduceIte,
        Option.ite_none_right_eq_some, Option.some.injEq] at done
      rw [← done.2, set_in_store_find]
      split
      · rename_i same
        rw [← same, stored, Option.none_or]
      · rw [Option.or_none]
  | some option =>
      simp only [stored, Option.isSome_some, ↓reduceIte, Option.some.injEq] at done
      rw [← done]
      split
      · rename_i same
        rw [← same, stored, Option.some_or]
      · rw [Option.or_none]

/-- The options of the command line stand, and the defaults are behind them. -/
theorem init_fills (cfg : Settings) (done : dhcpOptionsInit memory cfg store = some after)
    (other : UInt8) :
    findInOptionStore after other = findInOptionStore (store ++ defaults cfg) other := by
  obtain ⟨masked, mask, done⟩ := Option.bind_eq_some_iff.mp done
  obtain ⟨timed, offset, done⟩ := Option.bind_eq_some_iff.mp done
  obtain ⟨cast, broadcast, done⟩ := Option.bind_eq_some_iff.mp done
  obtain ⟨leased, leaseTime, server⟩ := Option.bind_eq_some_iff.mp done
  rw [init_option_find server, find_in_append, init_option_find leaseTime, find_in_append,
    init_option_find broadcast, find_in_append, init_option_find offset, find_in_append,
    init_option_find mask, find_in_append]
  simp only [← find_in_append, List.append_assoc, List.cons_append, List.nil_append, defaults]

end Startup

/-! The network and its addresses. -/

def networkSize (cfg : Settings) : Nat := 2 ^ (32 - cfg.prefixLen.toNat)

/-- An aligned network, with a power of two for the block size and as many blocks as `main`
makes of it. -/
structure Layout (cfg : Settings) : Prop where
  longest : 8 ≤ cfg.prefixLen.toNat
  shortest : cfg.prefixLen.toNat ≤ 30
  aligned : networkSize cfg ∣ cfg.prefixAddr.toNat
  power : ∃ bits, cfg.blockSize.toNat = 2 ^ bits
  fits : cfg.blockSize.toNat ≤ networkSize cfg
  blocks : cfg.blocks = 2 ^ (32 - cfg.prefixLen.toNat - Nat.clog 2 cfg.blockSize.toNat)

section Network
variable {cfg : Settings} {position index offset other : Nat}

/-- The blocks are the network. -/
theorem layout_covers (layout : Layout cfg) :
    cfg.blocks * cfg.blockSize.toNat = networkSize cfg := by
  obtain ⟨bits, size⟩ := layout.power
  have fits := layout.fits
  rw [size, networkSize] at fits
  have less : bits ≤ 32 - cfg.prefixLen.toNat := (Nat.pow_le_pow_iff_right Nat.one_lt_two).mp fits
  rw [layout.blocks, size, Nat.clog_pow 2 bits Nat.one_lt_two, ← Nat.pow_add,
    Nat.sub_add_cancel less, networkSize]

theorem place_below (layout : Layout cfg) (inside : position < cfg.blocks)
    (below : index < cfg.blockSize.toNat) :
    position * cfg.blockSize.toNat + index < networkSize cfg := by
  have last : (position + 1) * cfg.blockSize.toNat ≤ cfg.blocks * cfg.blockSize.toNat :=
    Nat.mul_le_mul_right _ inside
  rw [layout_covers layout, Nat.succ_mul] at last
  omega

/-- An aligned network does not reach beyond the last address there is. -/
theorem network_end (layout : Layout cfg) : cfg.prefixAddr.toNat + networkSize cfg ≤ 2 ^ 32 := by
  obtain ⟨count, number⟩ := layout.aligned
  have whole : networkSize cfg * 2 ^ cfg.prefixLen.toNat = 2 ^ 32 := by
    have shortest := layout.shortest
    rw [networkSize, ← Nat.pow_add, Nat.sub_add_cancel (by omega)]
  have bound := cfg.prefixAddr.toNat_lt
  rw [number, ← whole] at bound
  have next : count + 1 ≤ 2 ^ cfg.prefixLen.toNat := Nat.lt_of_mul_lt_mul_left bound
  calc cfg.prefixAddr.toNat + networkSize cfg = networkSize cfg * (count + 1) := by
        rw [number, Nat.mul_succ]
    _ ≤ networkSize cfg * 2 ^ cfg.prefixLen.toNat := Nat.mul_le_mul_left _ next
    _ = 2 ^ 32 := whole

theorem address_number (layout : Layout cfg) (inside : offset < networkSize cfg) :
    (addrAdd cfg.prefixAddr offset).toNat = cfg.prefixAddr.toNat + offset := by
  have room := network_end layout
  rw [addrAdd, UInt32.toNat_add, UInt32.toNat_ofNat', Nat.mod_eq_of_lt (a := offset) (by omega),
    Nat.mod_eq_of_lt (by omega)]

theorem address_injective (layout : Layout cfg) (inside : offset < networkSize cfg)
    (also : other < networkSize cfg) :
    addrAdd cfg.prefixAddr offset = addrAdd cfg.prefixAddr other ↔ offset = other := by
  rw [← UInt32.toNat_inj, address_number layout inside, address_number layout also]
  omega

theorem network_address (layout : Layout cfg) (inside : offset < networkSize cfg) :
    addrAdd cfg.prefixAddr offset = cfg.prefixAddr ↔ offset = 0 := by
  rw [← UInt32.toNat_inj, address_number layout inside]
  omega

/-- The bytes that `dhcp_options_init` sets are those of the last address of a network. -/
theorem host_mask_bytes {len : Nat} (short : len ≤ 32) :
    word32Bytes (UInt32.ofNat (2 ^ (32 - len) - 1)) =
      [UInt8.ofNat (1 <<< bitsInByte (8 - int8 len) - 1),
        UInt8.ofNat (1 <<< bitsInByte (16 - int8 len) - 1),
        UInt8.ofNat (1 <<< bitsInByte (24 - int8 len) - 1),
        UInt8.ofNat (1 <<< bitsInByte (32 - int8 len) - 1)] := by
  interval_cases len <;> decide +kernel

theorem broadcast_last (layout : Layout cfg) :
    broadcastAddress cfg = word32Bytes (addrAdd cfg.prefixAddr (networkSize cfg - 1)) := by
  have shortest := layout.shortest
  have some_host : 0 < networkSize cfg := Nat.two_pow_pos _
  have room := network_end layout
  have masked : addrAdd cfg.prefixAddr (networkSize cfg - 1) =
      cfg.prefixAddr ||| UInt32.ofNat (networkSize cfg - 1) := by
    rw [← UInt32.toNat_inj, address_number layout (by omega), UInt32.toNat_or,
      UInt32.toNat_ofNat', Nat.mod_eq_of_lt (a := networkSize cfg - 1) (by omega), networkSize,
      aligned_or_mask layout.aligned]
  rw [masked, word32_bytes_or, networkSize, host_mask_bytes (by omega)]
  rfl

theorem announced_broadcast (layout : Layout cfg) (inside : offset < networkSize cfg) :
    broadcastAddress cfg = word32Bytes (addrAdd cfg.prefixAddr offset) ↔
      offset + 1 = networkSize cfg := by
  rw [broadcast_last layout, word32_bytes_injective.eq_iff,
    address_injective layout (by omega) inside]
  omega

/-- The server is given the address 1 of a network, if that starts at a multiple of 256. -/
theorem announced_server (layout : Layout cfg) (inside : offset < networkSize cfg) :
    serverIdentifier cfg = word32Bytes (addrAdd cfg.prefixAddr offset) ↔
      offset = 1 ∧ 256 ∣ cfg.prefixAddr.toNat := by
  have even : 4 ∣ cfg.prefixAddr.toNat := by
    have shortest := layout.shortest
    exact Nat.dvd_trans (Nat.pow_dvd_pow 2 (show 2 ≤ 32 - cfg.prefixLen.toNat by omega))
      layout.aligned
  have bound := cfg.prefixAddr.toNat_lt
  have one : (1 : UInt8).toNat = 1 := rfl
  rw [serverIdentifier, word32_last_byte, word32_bytes_injective.eq_iff, ← UInt32.toNat_inj,
    address_number layout inside, UInt32.toNat_ofNat', one, Nat.mod_eq_of_lt (by omega)]
  omega

end Network

/-! The options of a reply that has more of them than it can count. -/

/-- An option that stands in the array already is set to what it is. -/
theorem set_option_kept {code payloadLen : UInt8} {payload : List UInt8} {count : Nat}
    {options : List DhcpOption}
    (filled : ∀ k < count, (options.getD k emptyOption).code ≠ codePad ∧
      ((options.getD k emptyOption).code = code →
        options.getD k emptyOption = ⟨code, payloadLen, payload⟩)) :
    (setOptionFrom code payloadLen payload count options).1 = options := by
  induction count with
  | zero => rfl
  | succ count ih =>
      have last := filled count (Nat.lt_succ_self count)
      simp only [setOptionFrom]
      split
      · rename_i hit
        have same := last.2 (hit.resolve_right last.1)
        have inside : count < options.length := by
          by_contra outside
          rw [List.getD_eq_getElem?_getD, List.getElem?_eq_none (Nat.le_of_not_lt outside)] at last
          exact last.1 rfl
        rw [List.getD_eq_getElem?_getD, List.getElem?_eq_getElem inside, Option.getD_some] at same
        rw [← same, List.set_getElem_self]
      · exact ih fun k less => filled k (Nat.lt_succ_of_lt less)

section Reply
variable {env : Env} {c : Config} {type : UInt8} {packet request reply : DhcpPacket}
  {store : List DhcpOption} {option : DhcpOption}

/-- The store has no padding and no message type. -/
structure Plain (store : List DhcpOption) : Prop where
  pad : findInOptionStore store codePad = none
  type : findInOptionStore store codeMessageType = none

theorem plain_codes (plain : Plain store)
    (stored : findInOptionStore store option.code = some option) :
    option.code ≠ codePad ∧ option.code ≠ codeMessageType := by
  constructor
  · intro pad
    rw [pad, plain.pad] at stored
    contradiction
  · intro type
    rw [type, plain.type] at stored
    contradiction

theorem found_byte (request : DhcpPacket) (store : List DhcpOption) :
    (foundOptions request store).length ≤ 255 := by
  have fewer : (foundOptions request store).length ≤ (requestedCodes request).length :=
    List.length_filterMap_le _ _
  have listed : (requestedCodes request).length ≤ 255 := by
    unfold requestedCodes findOptionParameterRequestList
    cases findOption request.options request.optionsLen codeParameterRequestList with
    | none => simp
    | some option => simpa using Nat.le_of_lt_succ option.len.toNat_lt
  omega

/-- Within the options that were found every entry is one of the store. -/
theorem found_front {k : Nat} (inside : k < (foundOptions request store).length)
    (spare : List DhcpOption) :
    findInOptionStore store ((foundOptions request store ++ spare).getD k emptyOption).code =
      some ((foundOptions request store ++ spare).getD k emptyOption) := by
  have here : (foundOptions request store ++ spare).getD k emptyOption =
      (foundOptions request store)[k] := by
    rw [List.getD_eq_getElem?_getD, List.getElem?_append_left inside,
      List.getElem?_eq_getElem inside, Option.getD_some]
  rw [here]
  exact (found_stored (List.getElem_mem inside)).2

theorem set_type_kept (plain : Plain store) {len : UInt8}
    (within : len.toNat ≤ (foundOptions request store).length) (spare : List DhcpOption)
    (type : UInt8) : (setOption (foundOptions request store ++ spare) len codeMessageType 1
      [type]).1 = foundOptions request store ++ spare := by
  apply set_option_kept
  intro k less
  have codes := plain_codes plain (found_front (Nat.lt_of_lt_of_le less within) spare)
  exact ⟨codes.1, fun same => absurd same codes.2⟩

theorem set_stored_kept (plain : Plain store) {len : UInt8}
    (within : len.toNat ≤ (foundOptions request store).length) (spare : List DhcpOption)
    (code : UInt8) : (setOptionFromStore store (foundOptions request store ++ spare) len code).1 =
      foundOptions request store ++ spare := by
  unfold setOptionFromStore
  cases stored : findInOptionStore store code with
  | none => rfl
  | some option =>
      apply set_option_kept
      intro k less
      have here := found_front (Nat.lt_of_lt_of_le less within) spare
      refine ⟨(plain_codes plain here).1, fun same => ?_⟩
      rw [same, stored] at here
      rw [← Option.some.inj here, ← (find_in_store_code stored).2]

/-- When the count wraps, no empty slot is within it, and every mandatory option that the
walk meets is there already. -/
theorem default_options_wrapped (plain : Plain c.options)
    (many : 252 < (foundOptions request c.options).length)
    (done : dhcpDefaultOptions env type packet request c true = some reply) :
    counted reply = (foundOptions request c.options).take
      ((foundOptions request c.options).length - 253) := by
  have byte := found_byte request c.options
  have len : (UInt8.ofNat ((foundOptions request c.options).length + 3)).toNat =
      (foundOptions request c.options).length - 253 := by
    rw [UInt8.toNat_ofNat']
    omega
  have within : (UInt8.ofNat ((foundOptions request c.options).length + 3)).toNat ≤
      (foundOptions request c.options).length := by
    rw [len]
    exact Nat.sub_le _ _
  have filled : ∃ spare, fillOptions request.options request.optionsLen c.options 3 =
      (foundOptions request c.options ++ spare, (foundOptions request c.options).length + 3) :=
    ⟨_, rfl⟩
  obtain ⟨spare, filled⟩ := filled
  simp only [dhcpDefaultOptions, Option.ite_none_right_eq_some, Option.some.injEq, filled,
    ↓reduceIte, set_type_kept plain within, set_stored_kept plain within] at done
  obtain ⟨-, rfl⟩ := done
  rw [counted, len, List.take_append_of_le_length (Nat.sub_le _ _)]

/-- The options of the store that a reply to the request has. -/
def announced (request : DhcpPacket) (store : List DhcpOption) : List DhcpOption :=
  if numFound request store ≤ 252 then
    foundOptions request store ++ ((findInOptionStore store codeServerIdentifier).toList ++
      (findInOptionStore store codeAddressLeaseTime).toList)
  else (foundOptions request store).take (numFound request store - 253)

theorem announced_stored (member : option ∈ announced request store) :
    findInOptionStore store option.code = some option := by
  unfold announced at member
  split at member
  · rcases List.mem_append.mp member with found | given
    · exact (found_stored found).2
    rcases List.mem_append.mp given with server | leaseTime
    · rw [stored_code server]
      exact Option.mem_toList.mp server
    · rw [stored_code leaseTime]
      exact Option.mem_toList.mp leaseTime
  · exact (found_stored (List.mem_of_mem_take member)).2

theorem counted_announced (plain : Plain c.options)
    (done : dhcpDefaultOptions env type packet request c true = some reply)
    (filled : option.code ≠ codePad) (untyped : option.code ≠ codeMessageType) :
    option ∈ counted reply ↔ option ∈ announced request c.options := by
  unfold announced
  rw [← found_length]
  split
  · rename_i few
    rw [(default_options_counted few done).2.2]
    have nonempty : option ≠ emptyOption := by
      rintro rfl
      exact filled rfl
    have other : option ≠ typeOption type := by
      rintro rfl
      exact untyped rfl
    simp [mandatory, leaseTimeOption, nonempty, other]
  · rename_i many
    rw [default_options_wrapped plain (by omega) done]

end Reply

end Ddhcpd.Announced

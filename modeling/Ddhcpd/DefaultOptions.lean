import Ddhcpd.Node
import Mathlib.Data.List.Induction

/-!
The options of a reply. `fill_options` leaves the requested options in front and three
empty slots behind them; `set_option` walks down from the end, so it meets an empty slot
before it meets an option that is filled in already.
-/

namespace Ddhcpd.DefaultOptions
open Bytes Types Options Dhcp Node

section Slots
variable {code : UInt8}

/-- The search passes over `back` and stops at the option in front of it. -/
theorem set_option_meets (front back rest : List DhcpOption) (met : DhcpOption)
    (hit : met.code = code ∨ met.code = 0)
    (passed : ∀ option ∈ back, option.code ≠ code ∧ option.code ≠ 0) (payloadLen : UInt8)
    (payload : List UInt8) : setOptionFrom code payloadLen payload (front.length + 1 + back.length)
        (front ++ met :: (back ++ rest)) =
      (front ++ ⟨code, payloadLen, payload⟩ :: (back ++ rest), true) := by
  induction back using List.reverseRecOn generalizing rest with
  | nil =>
      simp only [List.length_nil, Nat.add_zero, setOptionFrom, List.nil_append]
      simp [hit]
  | append_singleton back last ih =>
      obtain ⟨other, filled⟩ := passed last (by simp)
      have here : (front ++ met :: (back ++ [last] ++ rest)).getD
          (front.length + 1 + back.length) emptyOption = last := by
        have split : front ++ met :: (back ++ [last] ++ rest) =
            (front ++ met :: back) ++ last :: rest := by simp
        have place : front.length + 1 + back.length = (front ++ met :: back).length := by
          simp only [List.length_append, List.length_cons]
          omega
        rw [split, place, List.getD_eq_getElem?_getD, List.getElem?_append_right (Nat.le_refl _)]
        simp
      rw [List.length_append, List.length_singleton, ← Nat.add_assoc]
      simp only [setOptionFrom, here, other, filled, or_self, ↓reduceIte]
      have earlier := ih (last :: rest) fun option member => passed option (by simp [member])
      simpa using earlier

end Slots

/-! The mandatory options fill the three slots from the back. -/

/-- The reply after some mandatory options: those `given` stand at the end of the part that
counts, `left` slots in front of them are empty, and `spare` lies beyond. -/
def arranged (found given : List DhcpOption) (left spare : Nat) : List DhcpOption :=
  found ++ (List.replicate left emptyOption ++ given) ++ List.replicate spare emptyOption

theorem set_option_arranged {code payloadLen len : UInt8} {payload : List UInt8}
    {found given : List DhcpOption} {left spare : Nat}
    (counts : len.toNat = found.length + (left + 1) + given.length)
    (passed : ∀ option ∈ given, option.code ≠ code ∧ option.code ≠ 0) :
    setOption (arranged found given (left + 1) spare) len code payloadLen payload =
      (arranged found (⟨code, payloadLen, payload⟩ :: given) left spare, true) := by
  have met := set_option_meets (found ++ List.replicate left emptyOption) given
    (List.replicate spare emptyOption) emptyOption (.inr rfl) passed
  have size : (found ++ List.replicate left emptyOption).length + 1 + given.length = len.toNat := by
    rw [counts, List.length_append, List.length_replicate]
    omega
  rw [size] at met
  simpa [setOption, arranged, List.replicate_succ'] using met payloadLen payload

/-- The options of the store that the client asks for, as often as it does. -/
def foundOptions (request : DhcpPacket) (store : List DhcpOption) : List DhcpOption :=
  (findOptionParameterRequestList request.options request.optionsLen).filterMap
    (findInOptionStore store)

def typeOption (type : UInt8) : DhcpOption := ⟨codeMessageType, 1, [type]⟩

@[simp] theorem type_option_code (type : UInt8) : (typeOption type).code = codeMessageType := rfl

def leaseTimeOption (includeLeaseTime : Bool) (store : List DhcpOption) : List DhcpOption :=
  if includeLeaseTime then (findInOptionStore store codeAddressLeaseTime).toList else []

/-- The options every reply has, in the order in which they stand at its end. -/
def mandatory (type : UInt8) (includeLeaseTime : Bool) (store : List DhcpOption) :
    List DhcpOption :=
  (findInOptionStore store codeServerIdentifier).toList ++
    (leaseTimeOption includeLeaseTime store ++ [typeOption type])

section Store
variable {store : List DhcpOption} {option : DhcpOption} {code : UInt8}

theorem find_in_store_code (found : findInOptionStore store code = some option) :
    option ∈ store ∧ option.code = code :=
  ⟨List.mem_of_find?_eq_some found, by simpa using List.find?_some found⟩

theorem stored_length (store : List DhcpOption) (code : UInt8) :
    (findInOptionStore store code).toList.length ≤ 1 := by
  cases findInOptionStore store code <;> simp

theorem stored_code (member : option ∈ (findInOptionStore store code).toList) :
    option.code = code :=
  (find_in_store_code (Option.mem_toList.mp member)).2

theorem lease_time_length (includeLeaseTime : Bool) (store : List DhcpOption) :
    (leaseTimeOption includeLeaseTime store).length ≤ 1 := by
  unfold leaseTimeOption
  split
  · exact stored_length store _
  · simp

theorem lease_time_code {includeLeaseTime : Bool}
    (member : option ∈ leaseTimeOption includeLeaseTime store) :
    option.code = codeAddressLeaseTime := by
  unfold leaseTimeOption at member
  split at member
  · exact stored_code member
  · contradiction

/-- An option of the store takes the last empty slot, one that is not there takes none. -/
theorem set_from_store_arranged {len : UInt8} {found given : List DhcpOption} {left spare : Nat}
    (counts : len.toNat = found.length + (left + 1) + given.length)
    (passed : ∀ option ∈ given, option.code ≠ code ∧ option.code ≠ 0) :
    (setOptionFromStore store (arranged found given (left + 1) spare) len code).1 =
      arranged found ((findInOptionStore store code).toList ++ given)
        (left + 1 - (findInOptionStore store code).toList.length) spare := by
  unfold setOptionFromStore
  cases stored : findInOptionStore store code with
  | none => rfl
  | some option =>
      have same : (⟨code, option.len, option.payload⟩ : DhcpOption) = option := by
        rw [← (find_in_store_code stored).2]
      simp only [set_option_arranged counts passed, same]
      rfl

theorem lease_time_arranged (type : UInt8) (includeLeaseTime : Bool) {len : UInt8}
    {found : List DhcpOption} {spare : Nat} (counts : len.toNat = found.length + 3) :
    (if includeLeaseTime then (setOptionFromStore store (arranged found [typeOption type] 2 spare)
        len codeAddressLeaseTime).1 else arranged found [typeOption type] 2 spare) =
      arranged found (leaseTimeOption includeLeaseTime store ++ [typeOption type])
        (2 - (leaseTimeOption includeLeaseTime store).length) spare := by
  cases includeLeaseTime with
  | false => rfl
  | true => exact set_from_store_arranged (by simpa using counts) (by simp; decide)

theorem server_arranged (type : UInt8) (includeLeaseTime : Bool) {len : UInt8}
    {found : List DhcpOption} {spare : Nat} (counts : len.toNat = found.length + 3) :
    (setOptionFromStore store (arranged found
        (leaseTimeOption includeLeaseTime store ++ [typeOption type])
        (2 - (leaseTimeOption includeLeaseTime store).length) spare) len codeServerIdentifier).1 =
      arranged found (mandatory type includeLeaseTime store)
        (3 - (mandatory type includeLeaseTime store).length) spare := by
  have size := lease_time_length includeLeaseTime store
  have left : 2 - (leaseTimeOption includeLeaseTime store).length =
      1 - (leaseTimeOption includeLeaseTime store).length + 1 := by omega
  rw [left, set_from_store_arranged]
  · congr 1
    simp only [mandatory, List.length_append, List.length_singleton]
    omega
  · simp only [List.length_append, List.length_singleton]
    omega
  · intro option member
    rcases List.mem_append.mp member with time | last
    · rw [lease_time_code time]
      decide
    · rw [List.mem_singleton.mp last, type_option_code]
      decide

end Store

theorem mandatory_length (type : UInt8) (includeLeaseTime : Bool) (store : List DhcpOption) :
    (mandatory type includeLeaseTime store).length ≤ 3 := by
  have server := stored_length store codeServerIdentifier
  have time := lease_time_length includeLeaseTime store
  simp only [mandatory, List.length_append, List.length_singleton]
  omega

section Reply
variable {env : Env} {c : Config} {type : UInt8} {packet request reply : DhcpPacket}
  {includeLeaseTime : Bool}

/-- `_dhcp_default_options`, unless the count of the options wraps. -/
theorem default_options_arranged (few : (foundOptions request c.options).length ≤ 252)
    (done : dhcpDefaultOptions env type packet request c includeLeaseTime = some reply) :
    reply = { packet with
      optionsLen := UInt8.ofNat ((foundOptions request c.options).length + 3)
      options := arranged (foundOptions request c.options)
        (mandatory type includeLeaseTime c.options)
        (3 - (mandatory type includeLeaseTime c.options).length)
        ((findOptionParameterRequestList request.options request.optionsLen).length -
          (foundOptions request c.options).length) } := by
  simp only [dhcpDefaultOptions, Option.ite_none_right_eq_some, Option.some.injEq] at done
  obtain ⟨-, rfl⟩ := done
  generalize listed : foundOptions request c.options = found at few
  generalize requested : findOptionParameterRequestList request.options request.optionsLen = codes
  have fewer : found.length ≤ codes.length := by
    rw [← listed, ← requested]
    exact List.length_filterMap_le _ _
  have slots : (fillOptions request.options request.optionsLen c.options 3).1 =
      arranged found [] 3 (codes.length - found.length) := by
    have split : codes.length + 3 - found.length = 3 + (codes.length - found.length) := by omega
    simp only [fillOptions, requested, arranged, List.append_nil, List.append_assoc]
    rw [← requested, ← foundOptions, listed, requested, split, List.replicate_add]
  have count : (fillOptions request.options request.optionsLen c.options 3).2 = found.length + 3 := by
    rw [← listed]
    rfl
  have len : (UInt8.ofNat (found.length + 3)).toNat = found.length + 3 := by
    rw [UInt8.toNat_ofNat', Nat.mod_eq_of_lt (by omega)]
  -- the type goes into the last slot, then the lease time if there is one, then the identifier
  have typed : setOption (arranged found [] 3 (codes.length - found.length)) (UInt8.ofNat (found.length + 3))
      codeMessageType 1 [type] = (arranged found [typeOption type] 2 (codes.length - found.length), true) :=
    set_option_arranged (by simpa using len) (by simp)
  rw [count, slots, typed, lease_time_arranged type includeLeaseTime len,
    server_arranged type includeLeaseTime len]

/-- The options of the reply that count. -/
def counted (reply : DhcpPacket) : List DhcpOption := reply.options.take reply.optionsLen.toNat

theorem default_options_counted (few : (foundOptions request c.options).length ≤ 252)
    (done : dhcpDefaultOptions env type packet request c includeLeaseTime = some reply) :
    reply.optionsLen.toNat = (foundOptions request c.options).length + 3 ∧
      reply.optionsLen.toNat ≤ reply.options.length ∧
      counted reply = foundOptions request c.options ++
        (List.replicate (3 - (mandatory type includeLeaseTime c.options).length) emptyOption ++
          mandatory type includeLeaseTime c.options) := by
  obtain rfl := default_options_arranged few done
  have len : (UInt8.ofNat ((foundOptions request c.options).length + 3)).toNat =
      (foundOptions request c.options).length + 3 := by
    rw [UInt8.toNat_ofNat', Nat.mod_eq_of_lt (by omega)]
  have size : (foundOptions request c.options ++
      (List.replicate (3 - (mandatory type includeLeaseTime c.options).length) emptyOption ++
        mandatory type includeLeaseTime c.options)).length =
      (foundOptions request c.options).length + 3 := by
    have given := mandatory_length type includeLeaseTime c.options
    simp only [List.length_append, List.length_replicate]
    omega
  refine ⟨len, ?_, ?_⟩
  · rw [len, ← size]
    simp [arranged]
  · simp only [counted, len, arranged]
    exact List.take_left' size

end Reply

/-! What a reply is. -/

/-- How many of the requested codes the store has, repeated ones counted again. -/
def numFound (request : DhcpPacket) (store : List DhcpOption) : Nat :=
  (findOptionParameterRequestList request.options request.optionsLen).countP fun code =>
    (findInOptionStore store code).isSome

theorem found_length (request : DhcpPacket) (store : List DhcpOption) :
    (foundOptions request store).length = numFound request store :=
  List.length_filterMap_eq_countP

theorem found_stored {request : DhcpPacket} {store : List DhcpOption} {option : DhcpOption}
    (found : option ∈ foundOptions request store) :
    option ∈ store ∧ findInOptionStore store option.code = some option := by
  obtain ⟨code, -, stored⟩ := List.mem_filterMap.mp found
  obtain ⟨member, rfl⟩ := find_in_store_code stored
  exact ⟨member, stored⟩

/-- The reply has all its options in the array, and one of them is its type. -/
structure Typed (type : UInt8) (found : Nat) (reply : DhcpPacket) : Prop where
  count : reply.optionsLen.toNat = found + 3
  inside : reply.optionsLen.toNat ≤ reply.options.length
  type : (counted reply).filter (fun option => option.code = codeMessageType) = [typeOption type]

theorem mandatory_type (type : UInt8) (includeLeaseTime : Bool) (store : List DhcpOption) :
    (mandatory type includeLeaseTime store).filter (fun option => option.code = codeMessageType) =
      [typeOption type] := by
  have server : (findInOptionStore store codeServerIdentifier).toList.filter
      (fun option => option.code = codeMessageType) = [] := by
    apply List.filter_eq_nil_iff.mpr
    intro option member
    simp [stored_code member, codeServerIdentifier, codeMessageType]
  have time : (leaseTimeOption includeLeaseTime store).filter
      (fun option => option.code = codeMessageType) = [] := by
    apply List.filter_eq_nil_iff.mpr
    intro option member
    simp [lease_time_code member, codeAddressLeaseTime, codeMessageType]
  simp [mandatory, server, time]

/-- The count is a byte, so it holds up to 252 options that were found. -/
theorem reply_typed_iff {env : Env} {c : Config} {type : UInt8}
    {packet request reply : DhcpPacket} {includeLeaseTime : Bool}
    (untyped : ∀ option ∈ c.options, option.code ≠ codeMessageType)
    (done : dhcpDefaultOptions env type packet request c includeLeaseTime = some reply) :
    Typed type (numFound request c.options) reply ↔ numFound request c.options ≤ 252 := by
  rw [← found_length]
  constructor
  · intro typed
    have byte := reply.optionsLen.toNat_lt
    rw [typed.count] at byte
    omega
  · intro few
    obtain ⟨count, inside, options⟩ := default_options_counted few done
    refine ⟨count, inside, ?_⟩
    have found : (foundOptions request c.options).filter
        (fun option => option.code = codeMessageType) = [] := by
      apply List.filter_eq_nil_iff.mpr
      intro option member
      simpa using untyped option (found_stored member).1
    rw [options, List.filter_append, List.filter_append, found, mandatory_type]
    simp [emptyOption, codeMessageType]

/-- A client asks for the options with these codes. -/
def asking (codes : List UInt8) : DhcpPacket :=
  { smallPacket 1 7 dhcpDiscover with
    optionsLen := 2
    options := [⟨codeMessageType, 1, [dhcpDiscover]⟩,
      ⟨codeParameterRequestList, UInt8.ofNat codes.length, codes⟩] }

/-- A node whose store has a subnet mask, a lease time and a server identifier. -/
def storeConfig : Config :=
  startConfig (smallNode 1) 1000 [⟨1, 4, [255, 255, 255, 0]⟩, ⟨codeAddressLeaseTime, 4, [0, 0, 1, 44]⟩,
    ⟨codeServerIdentifier, 4, [10, 0, 0, 1]⟩]

theorem default_options_calm (now : Time) (type : UInt8) (packet request : DhcpPacket) (c : Config)
    (includeLeaseTime : Bool) : ∃ reply,
      dhcpDefaultOptions (calmEnv now) type packet request c includeLeaseTime = some reply :=
  ⟨_, rfl⟩

theorem reply_typed_iff_small : ∃ reply,
    dhcpDefaultOptions (calmEnv 1000) dhcpOffer (buildInitialPacket (asking [1, 3]))
      (asking [1, 3]) storeConfig true = some reply ∧ Typed dhcpOffer 1 reply := by
  obtain ⟨reply, done⟩ := default_options_calm 1000 dhcpOffer (buildInitialPacket (asking [1, 3]))
    (asking [1, 3]) storeConfig true
  have one : numFound (asking [1, 3]) storeConfig.options = 1 := by decide +kernel
  have exactly := reply_typed_iff (by decide +kernel) done
  rw [one] at exactly
  exact ⟨reply, done, exactly.mpr (by decide)⟩

def greedy : DhcpPacket := asking (List.replicate 253 1)

-- 253 requested options are found, so 256 options are filled in and the reply counts none.
theorem reply_count_wraps : ∃ reply,
    (storeConfig.options.map DhcpOption.code).Nodup ∧
    (∀ option ∈ storeConfig.options, 1 ≤ option.code ∧ option.code ≤ 254 ∧
      option.code ≠ codeMessageType) ∧
    dhcpDefaultOptions (calmEnv 1000) dhcpOffer (buildInitialPacket greedy) greedy storeConfig
      true = some reply ∧
    numFound greedy storeConfig.options = 253 ∧ reply.optionsLen = 0 ∧
    ¬ Typed dhcpOffer 253 reply := by
  have evaluated : (dhcpDefaultOptions (calmEnv 1000) dhcpOffer (buildInitialPacket greedy) greedy
      storeConfig true).any (fun reply =>
        numFound greedy storeConfig.options = 253 ∧ reply.optionsLen = 0) = true := by
    decide +kernel
  obtain ⟨reply, done, facts⟩ := (Option.any_eq_true _ _).mp evaluated
  obtain ⟨count, wrapped⟩ := of_decide_eq_true facts
  refine ⟨reply, by decide +kernel, by decide +kernel, done, count, wrapped, fun typed => ?_⟩
  have size := typed.count
  rw [wrapped] at size
  exact absurd size (by decide)

/-! No option twice. -/

def requestedCodes (request : DhcpPacket) : List UInt8 :=
  findOptionParameterRequestList request.options request.optionsLen

def mandatoryCodes (includeLeaseTime : Bool) : List UInt8 :=
  codeServerIdentifier :: ((if includeLeaseTime then [codeAddressLeaseTime] else []) ++
    [codeMessageType])

def filledCodes (reply : DhcpPacket) : List UInt8 :=
  ((counted reply).map DhcpOption.code).filter fun code => code ≠ codePad

/-- The reply has the option of the store, and no other with its code. -/
def Carries (store : List DhcpOption) (code : UInt8) (reply : DhcpPacket) : Prop :=
  ∀ option, findInOptionStore store code = some option →
    option ∈ counted reply ∧ ∀ other ∈ counted reply, other.code = code → other = option

structure EachOnce (includeLeaseTime : Bool) (store : List DhcpOption) (reply : DhcpPacket) :
    Prop where
  once : (filledCodes reply).Nodup
  leaseTime : includeLeaseTime = true → Carries store codeAddressLeaseTime reply
  server : Carries store codeServerIdentifier reply

/-- The client asks for a mandatory option, and the store has it. -/
def Clashes (includeLeaseTime : Bool) (request : DhcpPacket) (store : List DhcpOption) : Prop :=
  ∃ code ∈ mandatoryCodes includeLeaseTime, code ∈ requestedCodes request ∧
    (findInOptionStore store code).isSome

theorem found_codes (request : DhcpPacket) (store : List DhcpOption) :
    (foundOptions request store).map DhcpOption.code =
      (requestedCodes request).filter fun code => (findInOptionStore store code).isSome := by
  unfold foundOptions requestedCodes
  induction findOptionParameterRequestList request.options request.optionsLen with
  | nil => rfl
  | cons code rest ih =>
      cases stored : findInOptionStore store code with
      | none => simp [stored, ih]
      | some option => simp [stored, ih, (find_in_store_code stored).2]

section Mandatory
variable {type : UInt8} {includeLeaseTime : Bool} {store : List DhcpOption} {option : DhcpOption}

theorem stored_sublist (store : List DhcpOption) (code : UInt8) :
    ((findInOptionStore store code).toList.map DhcpOption.code).Sublist [code] := by
  cases stored : findInOptionStore store code with
  | none => simp
  | some option => simp [(find_in_store_code stored).2]

theorem mandatory_sublist (type : UInt8) (includeLeaseTime : Bool) (store : List DhcpOption) :
    ((mandatory type includeLeaseTime store).map DhcpOption.code).Sublist
      (mandatoryCodes includeLeaseTime) := by
  have server := stored_sublist store codeServerIdentifier
  have time := stored_sublist store codeAddressLeaseTime
  simp only [mandatory, List.map_append, mandatoryCodes]
  cases includeLeaseTime with
  | false => exact server.append (List.Sublist.refl _)
  | true => exact server.append (time.append (List.Sublist.refl _))

theorem mandatory_codes_once (includeLeaseTime : Bool) : (mandatoryCodes includeLeaseTime).Nodup := by
  cases includeLeaseTime <;> decide

theorem mandatory_codes_filled {code : UInt8} (member : code ∈ mandatoryCodes includeLeaseTime) :
    code ≠ codePad := by
  rintro rfl
  revert member
  cases includeLeaseTime <;> decide

/-- A mandatory code that the store has is in the reply. -/
theorem mandatory_has {code : UInt8} (member : code ∈ mandatoryCodes includeLeaseTime)
    (stored : findInOptionStore store code = some option) :
    code ∈ (mandatory type includeLeaseTime store).map DhcpOption.code ∧
      (code ≠ codeMessageType → option ∈ mandatory type includeLeaseTime store) := by
  have same := (find_in_store_code stored).2
  simp only [mandatoryCodes, List.mem_cons, List.mem_append, List.not_mem_nil, or_false] at member
  rcases member with rfl | time | rfl
  · have here : option ∈ mandatory type includeLeaseTime store :=
      List.mem_append_left _ (Option.mem_toList.mpr stored)
    exact ⟨List.mem_map.mpr ⟨option, here, same⟩, fun _ => here⟩
  · split at time
    · rename_i included
      obtain rfl := List.mem_singleton.mp time
      have here : option ∈ mandatory type includeLeaseTime store := by
        simp [mandatory, leaseTimeOption, included, stored]
      exact ⟨List.mem_map.mpr ⟨option, here, same⟩, fun _ => here⟩
    · contradiction
  · exact ⟨by simp [mandatory], fun different => absurd rfl different⟩

theorem mandatory_stored (member : option ∈ mandatory type includeLeaseTime store)
    (untyped : option.code ≠ codeMessageType) :
    findInOptionStore store option.code = some option := by
  simp only [mandatory, leaseTimeOption, List.mem_append, List.mem_singleton] at member
  rcases member with server | time | rfl
  · rw [stored_code server]
    exact Option.mem_toList.mp server
  · split at time
    · rw [stored_code time]
      exact Option.mem_toList.mp time
    · contradiction
  · exact absurd rfl untyped

end Mandatory

section Once
variable {env : Env} {c : Config} {type : UInt8} {packet request reply : DhcpPacket}
  {includeLeaseTime : Bool}

theorem counted_stored (few : (foundOptions request c.options).length ≤ 252)
    (done : dhcpDefaultOptions env type packet request c includeLeaseTime = some reply)
    {option : DhcpOption} (member : option ∈ counted reply) (filled : option.code ≠ codePad)
    (untyped : option.code ≠ codeMessageType) :
    findInOptionStore c.options option.code = some option := by
  rw [(default_options_counted few done).2.2] at member
  rcases List.mem_append.mp member with found | given
  · exact (found_stored found).2
  rcases List.mem_append.mp given with empty | last
  · rw [(List.mem_replicate.mp empty).2] at filled
    exact absurd rfl filled
  · exact mandatory_stored last untyped

theorem carries_mandatory (few : (foundOptions request c.options).length ≤ 252)
    (done : dhcpDefaultOptions env type packet request c includeLeaseTime = some reply)
    {code : UInt8} (member : code ∈ mandatoryCodes includeLeaseTime)
    (untyped : code ≠ codeMessageType) : Carries c.options code reply := by
  intro option stored
  constructor
  · have there : option ∈ mandatory type includeLeaseTime c.options :=
      (mandatory_has member stored).2 untyped
    rw [(default_options_counted few done).2.2]
    exact List.mem_append_right _ (List.mem_append_right _ there)
  · rintro other counted rfl
    have also := counted_stored few done counted (mandatory_codes_filled member) untyped
    exact Option.some.inj (also.symm.trans stored)

theorem filled_codes (few : (foundOptions request c.options).length ≤ 252)
    (done : dhcpDefaultOptions env type packet request c includeLeaseTime = some reply) :
    filledCodes reply = ((foundOptions request c.options).map DhcpOption.code).filter
        (fun code => code ≠ codePad) ++
      (mandatory type includeLeaseTime c.options).map DhcpOption.code := by
  have given : ((mandatory type includeLeaseTime c.options).map DhcpOption.code).filter
      (fun code => code ≠ codePad) = (mandatory type includeLeaseTime c.options).map DhcpOption.code := by
    apply List.filter_eq_self.mpr
    intro code member
    simpa using mandatory_codes_filled ((mandatory_sublist type includeLeaseTime _).subset member)
  rw [filledCodes, (default_options_counted few done).2.2, List.map_append, List.map_append,
    List.filter_append, List.filter_append, given]
  simp [emptyOption, codePad]

/-- `set_option` adds a mandatory option even where it is filled in already. -/
theorem reply_each_once_iff (distinct : (requestedCodes request).Nodup)
    (few : (requestedCodes request).length ≤ 200)
    (done : dhcpDefaultOptions env type packet request c includeLeaseTime = some reply) :
    EachOnce includeLeaseTime c.options reply ↔ ¬ Clashes includeLeaseTime request c.options := by
  have fits : (foundOptions request c.options).length ≤ 252 := by
    have fewer : (foundOptions request c.options).length ≤ (requestedCodes request).length :=
      List.length_filterMap_le _ _
    omega
  have codes := filled_codes fits done
  rw [found_codes] at codes
  constructor
  · rintro each ⟨code, member, asked, there⟩
    obtain ⟨option, stored⟩ := Option.isSome_iff_exists.mp there
    have once := each.once
    rw [codes] at once
    apply (List.nodup_append.mp once).2.2 code _ code (mandatory_has member stored).1 rfl
    simp [asked, there, mandatory_codes_filled member]
  · intro apart
    refine ⟨?_, ?_, ?_⟩
    · rw [codes]
      refine List.nodup_append.mpr ⟨(distinct.filter _).filter _,
        (mandatory_sublist type includeLeaseTime _).nodup (mandatory_codes_once _), ?_⟩
      rintro code found _ given rfl
      simp only [List.mem_filter] at found
      exact apart ⟨code, (mandatory_sublist type includeLeaseTime _).subset given, found.1⟩
    · intro included
      exact carries_mandatory fits done (by simp [mandatoryCodes, included]) (by decide)
    · exact carries_mandatory fits done (by simp [mandatoryCodes]) (by decide)

end Once

theorem reply_each_once_iff_small : ∃ reply,
    dhcpDefaultOptions (calmEnv 1000) dhcpOffer (buildInitialPacket (asking [1, 3]))
      (asking [1, 3]) storeConfig true = some reply ∧ EachOnce true storeConfig.options reply := by
  obtain ⟨reply, done⟩ := default_options_calm 1000 dhcpOffer (buildInitialPacket (asking [1, 3]))
    (asking [1, 3]) storeConfig true
  have apart : ¬ ∃ code ∈ mandatoryCodes true, code ∈ requestedCodes (asking [1, 3]) ∧
      (findInOptionStore storeConfig.options code).isSome = true := by decide +kernel
  exact ⟨reply, done,
    (reply_each_once_iff (by decide +kernel) (by decide +kernel) done).mpr apart⟩

-- A client that asks for the lease time and the server identifier gets both twice.
theorem reply_repeats_options : ∃ reply,
    (storeConfig.options.map DhcpOption.code).Nodup ∧
    (∀ option ∈ storeConfig.options, 1 ≤ option.code ∧ option.code ≤ 254) ∧
    requestedCodes (asking [51, 54]) = [51, 54] ∧
    dhcpDefaultOptions (calmEnv 1000) dhcpOffer (buildInitialPacket (asking [51, 54]))
      (asking [51, 54]) storeConfig true = some reply ∧
    filledCodes reply = [51, 54, 54, 51, 53] ∧ ¬ EachOnce true storeConfig.options reply := by
  have evaluated : (dhcpDefaultOptions (calmEnv 1000) dhcpOffer
      (buildInitialPacket (asking [51, 54])) (asking [51, 54]) storeConfig true).any
      (fun reply => filledCodes reply = [51, 54, 54, 51, 53]) = true := by decide +kernel
  obtain ⟨reply, done, facts⟩ := (Option.any_eq_true _ _).mp evaluated
  have codes := of_decide_eq_true facts
  refine ⟨reply, by decide +kernel, by decide +kernel, by decide +kernel, done, codes,
    fun each => ?_⟩
  have once := each.once
  rw [codes] at once
  exact absurd once (by decide)

end Ddhcpd.DefaultOptions

import Ddhcpd.DhcpPackets
import Ddhcpd.Node

/-!
What the parser accepts. The grammar of a datagram is stated on its bytes alone; the parser
follows it as long as no padding stands before the end of the options and one byte can
count them.
-/

namespace Ddhcpd.Parsing
open Bytes Types Tlv While DhcpPackets

/-- A header, the magic cookie, and fields of which one carries the message type. -/
structure Accepts (buffer : List UInt8) (len : Nat) (fields : List Field) : Prop where
  header : 240 ≤ len
  cookie : magicCookie buffer = true
  splits : fieldsAt buffer len 240 fields
  typed : fields.any isMessageType = true

/-- What the parser has to do with a datagram: accept it when it has the form above, and
then leave the entries of its fields, each inside the datagram, counted alike by both
loops. -/
structure ParsesRight (assertions : Bool) (env : Env) (buffer : List UInt8) (len : Nat) :
    Prop where
  accepts : (∃ packet slots, ntohDhcpPacket assertions env buffer len = .accepted packet slots) ↔
    ∃ fields, Accepts buffer len fields
  entries : ∀ fields, Accepts buffer len fields → ∀ packet slots,
    ntohDhcpPacket assertions env buffer len = .accepted packet slots →
    slots = slotsFrom 240 fields ∧ packet.options = slots.map (slotOption buffer) ∧
      packet.optionsLen.toNat = slots.length
  inside : ∀ fields, Accepts buffer len fields → ∀ slot ∈ slotsFrom 240 fields, ∀ start,
    slot.payload = some start → start + slot.len.toNat ≤ len
  agree : ∀ fields, Accepts buffer len fields → ∃ counted filled,
    countOptions buffer len = .ok counted ∧ counted.options = (slotsFrom 240 fields).length ∧
      fillSlots buffer len counted.options = some filled ∧ filled.i.toNat = counted.options

section
variable {assertions : Bool} {env : Env} {buffer : List UInt8} {len : Nat} {fields : List Field}

theorem slots_few (start : Nat) (fields : List Field) :
    (slotsFrom start fields).length + fields.count .pad = fields.length := by
  induction fields generalizing start with
  | nil => rfl
  | cons field rest ih =>
      cases field with
      | pad =>
          have tail := ih (start + 1)
          simp only [slotsFrom, List.count_cons_self, List.length_cons]
          omega
      | stop =>
          have tail := ih (start + 1)
          simp only [slotsFrom, List.length_cons, List.count_cons_of_ne (by decide : Field.stop ≠ .pad)]
          omega
      | option code value =>
          have tail := ih (start + 2 + value.length)
          simp [slotsFrom]
          omega

theorem slots_inside (whole : len ≤ buffer.length) {start : Nat}
    (splits : fieldsAt buffer len start fields) : ∀ slot ∈ slotsFrom start fields, ∀ offset,
      slot.payload = some offset → offset + slot.len.toNat ≤ len := by
  unfold fieldsAt at splits
  generalize here : (buffer.take len).drop start = bytes at splits
  induction splits generalizing start with
  | done => simp [slotsFrom]
  | stop rest => simp [slotsFrom]
  | pad _ ih => exact ih (byte_at_cons here).2.2
  | @option code size value rest fields noPad noEnd sized _ ih =>
      rcases fields_option whole sized here with ⟨-, -, -, fits, tail⟩
      intro slot member offset points
      rcases List.mem_cons.mp member with rfl | behind
      · cases points
        simp only [sized, UInt8.ofNat_toNat]
        omega
      · exact ih tail slot behind offset points

theorem accepts_counted (whole : len ≤ buffer.length) (accepts : Accepts buffer len fields) :
    ∃ counted, countOptions buffer len = .ok counted ∧
      counted.options = (slotsFrom 240 fields).length ∧ counted.dhcpMessageType = true := by
  rcases count_splits whole ⟨240, 0, false, false⟩ rfl accepts.splits with ⟨t, counted, options, typed⟩
  exact ⟨t, counted, by simpa using options, by simpa [accepts.typed] using typed⟩

theorem accepts_parsed (accepts : Accepts buffer len fields) {counted : Counting}
    (counts : countOptions buffer len = .ok counted) (typed : counted.dhcpMessageType = true)
    (memory : env.alloc .parsedOptions = true) :
    ntohDhcpPacket assertions env buffer len =
      parsedOptions assertions buffer counted.options (fillSlots buffer len counted.options) := by
  have long : ¬ len < 240 := Nat.not_lt_of_le accepts.header
  simp only [ntohDhcpPacket, long, accepts.cookie, counts, typed, memory, not_true_eq_false,
    ↓reduceIte]

theorem parsed_accepts (whole : len ≤ buffer.length) {packet : DhcpPacket}
    {slots : List OptionSlot}
    (parsed : ntohDhcpPacket assertions env buffer len = .accepted packet slots) :
    ∃ fields, Accepts buffer len fields := by
  rcases parsed_filled parsed with ⟨counted, filled, header, cookie, counts, typed, -⟩
  rcases count_accepts whole _ counted rfl header counts with ⟨fields, splits⟩
  rcases count_splits whole ⟨240, 0, false, false⟩ rfl splits with ⟨t, again, -, found⟩
  cases counts.symm.trans again
  exact ⟨fields, header, cookie, splits, by simpa [found] using typed⟩

theorem accepts_starved (whole : len ≤ buffer.length) (accepts : Accepts buffer len fields)
    (starved : env.alloc .parsedOptions = false) :
    ntohDhcpPacket assertions env buffer len = .rejected (-12) := by
  rcases accepts_counted whole accepts with ⟨counted, counts, -, typed⟩
  have long : ¬ len < 240 := Nat.not_lt_of_le accepts.header
  simp [ntohDhcpPacket, long, accepts.cookie, counts, typed, starved]

/-- A padding among the fields makes the second loop write behind the array, unless the array
has more entries than one byte counts. -/
theorem padded_overruns (whole : len ≤ buffer.length) (accepts : Accepts buffer len fields)
    (padded : .pad ∈ fields) (few : (slotsFrom 240 fields).length ≤ 255) :
    fillSlots buffer len (slotsFrom 240 fields).length = none := by
  have pads := List.count_pos_iff.mpr padded
  have total := slots_few 240 fields
  rw [fillSlots, fill_fields whole _ rfl accepts.splits]
  apply fill_overruns
  · exact Nat.zero_le _
  · simpa using few
  · simp
    omega

/-- Without paddings and overflow both loops agree. -/
theorem plain_filled (whole : len ≤ buffer.length) (accepts : Accepts buffer len fields)
    (plain : .pad ∉ fields) (few : fields.length ≤ 255) :
    ∃ counted filled, countOptions buffer len = .ok counted ∧ counted.dhcpMessageType = true ∧
      counted.options = (slotsFrom 240 fields).length ∧
      fillSlots buffer len counted.options = some filled ∧ filled.i.toNat = counted.options ∧
      filled.options = slotsFrom 240 fields := by
  rcases accepts_counted whole accepts with ⟨counted, counts, options, typed⟩
  have total := slots_few 240 fields
  rw [List.count_eq_zero.mpr plain] at total
  rcases fill_plain ⟨240, false, 0, List.replicate counted.options emptySlot⟩ [] plain rfl
    (by simp [options, ← total]) (by simpa using few) with ⟨filled, fills, last, entries⟩
  rw [← fill_fields whole _ rfl accepts.splits] at fills
  have ended : filled.i.toNat = counted.options := by
    rw [last, options, ← total]
    simp
  exact ⟨counted, filled, counts, typed, options, fills, ended, entries⟩

theorem plain_accepted (whole : len ≤ buffer.length) (accepts : Accepts buffer len fields)
    (memory : env.alloc .parsedOptions = true) (plain : .pad ∉ fields)
    (few : fields.length ≤ 255) :
    ntohDhcpPacket assertions env buffer len = .accepted
      (packetAt buffer (UInt8.ofNat (slotsFrom 240 fields).length) (slotsFrom 240 fields))
      (slotsFrom 240 fields) := by
  rcases plain_filled whole accepts plain few with
    ⟨counted, filled, counts, typed, options, fills, ended, entries⟩
  rw [accepts_parsed accepts counts typed memory, fills, parsedOptions,
    if_neg (by simp [ended]), options, entries]

theorem parses_right_iff (whole : len ≤ buffer.length) :
    ParsesRight assertions env buffer len ↔ ∀ fields, Accepts buffer len fields →
      env.alloc .parsedOptions = true ∧ .pad ∉ fields ∧ fields.length ≤ 255 := by
  constructor
  · intro right fields accepts
    rcases right.accepts.mpr ⟨fields, accepts⟩ with ⟨packet, slots, parsed⟩
    rcases right.entries fields accepts packet slots parsed with ⟨rfl, -, number⟩
    have few : (slotsFrom 240 fields).length ≤ 255 := by
      rw [← number]
      exact Nat.le_of_lt_succ packet.optionsLen.toNat_lt
    have memory : env.alloc .parsedOptions = true := by
      by_contra starved
      rw [accepts_starved whole accepts (by simpa using starved)] at parsed
      contradiction
    have plain : .pad ∉ fields := by
      intro padded
      rcases right.agree fields accepts with ⟨counted, filled, -, options, fills, -⟩
      rw [options, padded_overruns whole accepts padded few] at fills
      contradiction
    have total := slots_few 240 fields
    rw [List.count_eq_zero.mpr plain] at total
    exact ⟨memory, plain, by omega⟩
  · intro condition
    constructor
    · constructor
      · rintro ⟨packet, slots, parsed⟩
        exact parsed_accepts whole parsed
      · rintro ⟨fields, accepts⟩
        rcases condition fields accepts with ⟨memory, plain, few⟩
        exact ⟨_, _, plain_accepted whole accepts memory plain few⟩
    · intro fields accepts packet slots parsed
      rcases condition fields accepts with ⟨memory, plain, few⟩
      cases parsed.symm.trans (plain_accepted whole accepts memory plain few)
      have total := slots_few 240 fields
      refine ⟨rfl, rfl, ?_⟩
      exact UInt8.toNat_ofNat_of_lt' (Nat.lt_of_le_of_lt (by omega) (Nat.lt_succ_self 255))
    · exact fun fields accepts => slots_inside whole accepts.splits
    · intro fields accepts
      rcases condition fields accepts with ⟨-, plain, few⟩
      rcases plain_filled whole accepts plain few with
        ⟨counted, filled, counts, -, options, fills, ended, -⟩
      exact ⟨counted, filled, counts, options, fills, ended⟩

end

/-! A discover message, and the same with a padding before its end. -/

def smallDatagram (options : List UInt8) : List UInt8 :=
  List.replicate 236 0 ++ [99, 130, 83, 99] ++ options

theorem small_discover_accepts :
    Accepts (smallDatagram [53, 1, 1, 255]) 244 [.option 53 [1], .stop] where
  header := by decide
  cookie := by decide +kernel
  splits := show Splits 0 255 (53 :: 1 :: ([1] ++ [255])) _ from
    .option (by decide) (by decide) rfl (.stop [])
  typed := rfl

theorem parses_right_iff_small :
    ParsesRight true (Node.calmEnv 0) (smallDatagram [53, 1, 1, 255]) 244 := by
  have whole : 244 ≤ (smallDatagram [53, 1, 1, 255]).length := by decide +kernel
  apply (parses_right_iff whole).mpr
  intro fields accepts
  rw [splits_unique (by decide) accepts.splits small_discover_accepts.splits]
  decide

theorem padded_discover_overruns : (∃ fields, Accepts (smallDatagram [53, 1, 1, 0, 255]) 245 fields) ∧
    ntohDhcpPacket false (Node.calmEnv 0) (smallDatagram [53, 1, 1, 0, 255]) 245 = .overrun ∧
    ¬ ParsesRight false (Node.calmEnv 0) (smallDatagram [53, 1, 1, 0, 255]) 245 := by
  have accepts : Accepts (smallDatagram [53, 1, 1, 0, 255]) 245 [.option 53 [1], .pad, .stop] :=
    ⟨by decide, by decide +kernel, show Splits 0 255 (53 :: 1 :: ([1] ++ [0, 255])) _ from
      .option (by decide) (by decide) rfl (.pad (.stop [])), rfl⟩
  have overrun : ntohDhcpPacket false (Node.calmEnv 0) (smallDatagram [53, 1, 1, 0, 255]) 245 =
      .overrun := by decide +kernel
  refine ⟨⟨_, accepts⟩, overrun, fun right => ?_⟩
  rcases right.accepts.mpr ⟨_, accepts⟩ with ⟨packet, slots, parsed⟩
  cases overrun.symm.trans parsed

end Ddhcpd.Parsing

import Ddhcpd.Announced

/-!
The option store as a map from codes to values. It is a list that is searched by code; the
control socket sets and removes options, and `dhcp_options_init` adds what is missing. A
history of such calls alone tells what the store answers.
-/

namespace Ddhcpd.OptionStore
open Types Options KeyedList Announced

inductive StoreCall where
  | set (option : DhcpOption)
  | remove (code : UInt8)
  | init (cfg : Settings)

/-- One call, in a world where nothing runs out of memory. -/
def performStore (store : List DhcpOption) : StoreCall → Option (List DhcpOption)
  | .set option => some (setOptionInStore store option)
  | .remove code => some (removeOptionInStore store code)
  | .init cfg => dhcpOptionsInit (fun _ => true) cfg store

def storeAfter (calls : List StoreCall) : Option (List DhcpOption) :=
  calls.foldlM performStore []

/-! What the store is for. -/

/-- The length and the payload of an option. -/
def valueOf (option : DhcpOption) : UInt8 × List UInt8 := (option.len, option.payload)

/-- What `find_in_option_store` tells of a code. -/
def lookupValue (store : List DhcpOption) (code : UInt8) : Option (UInt8 × List UInt8) :=
  (findInOptionStore store code).map valueOf

/-- The value last set and not removed since, over the history of the calls, the last one first.
`dhcp_options_init` sets the codes that are absent. -/
def latest (code : UInt8) : List StoreCall → Option (UInt8 × List UInt8)
  | [] => none
  | .set option :: earlier => if option.code = code then some (valueOf option) else latest code earlier
  | .remove other :: earlier => if code = other then none else latest code earlier
  | .init cfg :: earlier => (latest code earlier).or (lookupValue (defaults cfg) code)

def Unique (store : List DhcpOption) : Prop := Distinct DhcpOption.code store

/-- The codes `dhcp_options_init` provides for. -/
def defaultCodes : List UInt8 :=
  [codeSubnetMask, codeTimeOffset, codeBroadcastAddress, codeAddressLeaseTime,
    codeServerIdentifier]

section Calls
variable {store after : List DhcpOption} {option : DhcpOption} {code : UInt8} {payload : List UInt8}
  {memory : UInt8 → Bool} {cfg : Settings}

theorem remove_in_store_drop (store : List DhcpOption) (code : UInt8) :
    removeOptionInStore store code = drop DhcpOption.code store code := by
  induction store with
  | nil => rfl
  | cons current rest ih => rw [removeOptionInStore, drop, ih]

theorem init_option_unique (unique : Unique store)
    (done : initOption memory code payload store = some after) : Unique after := by
  unfold initOption at done
  split at done
  · cases done
    exact unique
  · rw [Option.ite_none_right_eq_some] at done
    obtain ⟨-, done⟩ := done
    cases done
    rw [set_in_store_put]
    exact put_distinct unique _

theorem init_option_done (code : UInt8) (payload : List UInt8) (store : List DhcpOption) :
    ∃ after, initOption (fun _ => true) code payload store = some after := by
  unfold initOption
  split <;> exact ⟨_, rfl⟩

theorem init_unique (unique : Unique store) (done : dhcpOptionsInit memory cfg store = some after) :
    Unique after := by
  obtain ⟨masked, mask, done⟩ := Option.bind_eq_some_iff.mp done
  obtain ⟨timed, offset, done⟩ := Option.bind_eq_some_iff.mp done
  obtain ⟨cast, broadcast, done⟩ := Option.bind_eq_some_iff.mp done
  obtain ⟨leased, leaseTime, server⟩ := Option.bind_eq_some_iff.mp done
  have first := init_option_unique unique mask
  have second := init_option_unique first offset
  have third := init_option_unique second broadcast
  have fourth := init_option_unique third leaseTime
  exact init_option_unique fourth server

theorem init_done (cfg : Settings) (store : List DhcpOption) :
    ∃ after, dhcpOptionsInit (fun _ => true) cfg store = some after := by
  unfold dhcpOptionsInit
  obtain ⟨masked, mask⟩ := init_option_done codeSubnetMask (subnetMask cfg) store
  obtain ⟨timed, offset⟩ := init_option_done codeTimeOffset [0, 0, 0, 0] masked
  obtain ⟨cast, broadcast⟩ := init_option_done codeBroadcastAddress (broadcastAddress cfg) timed
  obtain ⟨leased, leaseTime⟩ := init_option_done codeAddressLeaseTime [0, 0, 1, 44] cast
  obtain ⟨after, server⟩ := init_option_done codeServerIdentifier (serverIdentifier cfg) leased
  refine ⟨after, ?_⟩
  simp only [mask, offset, broadcast, leaseTime, server, Option.bind_eq_bind, Option.bind_some]

/-- What is there stays, and what is absent is taken from the defaults. -/
theorem init_find (done : dhcpOptionsInit memory cfg store = some after) (code : UInt8) :
    findInOptionStore after code =
      (findInOptionStore store code).or (findInOptionStore (defaults cfg) code) := by
  rw [init_fills cfg done]
  exact find_in_append store (defaults cfg) code

theorem defaults_present (cfg : Settings) (code : UInt8) (member : code ∈ defaultCodes) :
    (findInOptionStore (defaults cfg) code).isSome = true := by
  have codes : (defaults cfg).map DhcpOption.code = defaultCodes := rfl
  rw [find_in_store, Option.isSome_iff_ne_none, ne_eq, find_none_iff, codes]
  exact not_not.mpr member

/-- One call changes the store as it changes the latest values. -/
theorem perform_store_latest {call : StoreCall} {earlier : List StoreCall} (unique : Unique store)
    (told : ∀ code, lookupValue store code = latest code earlier)
    (done : performStore store call = some after) :
    Unique after ∧ ∀ code, lookupValue after code = latest code (call :: earlier) := by
  cases call with
  | set option =>
      cases done
      refine ⟨by rw [set_in_store_put]; exact put_distinct unique option, fun code => ?_⟩
      rw [lookupValue, set_in_store_find, latest, ← told, lookupValue]
      split <;> rfl
  | remove other =>
      cases done
      rw [remove_in_store_drop]
      refine ⟨drop_distinct unique other, fun code => ?_⟩
      rw [lookupValue, find_in_store, find_drop unique, latest, ← told, lookupValue]
      split <;> rfl
  | init cfg =>
      refine ⟨init_unique unique done, fun code => ?_⟩
      rw [lookupValue, init_find done, Option.map_or, latest, ← told]
      rfl

theorem store_after_latest {calls earlier : List StoreCall} (unique : Unique store)
    (told : ∀ code, lookupValue store code = latest code earlier) :
    ∃ after, calls.foldlM performStore store = some after ∧ Unique after ∧
      ∀ code, lookupValue after code = latest code (calls.reverse ++ earlier) := by
  induction calls generalizing store earlier with
  | nil => exact ⟨store, rfl, unique, told⟩
  | cons call rest ih =>
      obtain ⟨next, done⟩ : ∃ next, performStore store call = some next := by
        cases call with
        | set option => exact ⟨_, rfl⟩
        | remove code => exact ⟨_, rfl⟩
        | init cfg => exact init_done cfg store
      obtain ⟨fresh, now⟩ := perform_store_latest unique told done
      obtain ⟨after, folded, last, final⟩ := ih fresh now
      refine ⟨after, ?_, last, fun code => ?_⟩
      · rw [List.foldlM_cons, done]
        exact folded
      · rw [final, List.reverse_cons, List.append_assoc]
        rfl

end Calls

/-- `dhcp_options_init` keeps what it finds and leaves none of its codes open. -/
def Completes (store : List DhcpOption) : Prop :=
  ∀ cfg, ∃ after, dhcpOptionsInit (fun _ => true) cfg store = some after ∧
    (∀ code option, findInOptionStore store code = some option →
      findInOptionStore after code = some option) ∧
    ∀ code ∈ defaultCodes, (findInOptionStore after code).isSome = true

theorem init_completes (store : List DhcpOption) : Completes store := by
  intro cfg
  obtain ⟨after, done⟩ := init_done cfg store
  refine ⟨after, done, fun code option there => ?_, fun code member => ?_⟩
  · rw [init_find done, there, Option.some_or]
  · rw [init_find done, Option.isSome_or, defaults_present cfg code member, Bool.or_true]

/-- The option store is a finite map. -/
theorem option_store_map (calls : List StoreCall) : ∃ store, storeAfter calls = some store ∧
    Unique store ∧ (∀ code, lookupValue store code = latest code calls.reverse) ∧
    Completes store := by
  have empty : Unique [] := List.nodup_nil
  have nothing : ∀ code, lookupValue [] code = latest code [] := fun _ => rfl
  obtain ⟨store, done, unique, told⟩ : ∃ store, storeAfter calls = some store ∧ Unique store ∧
      ∀ code, lookupValue store code = latest code (calls.reverse ++ []) :=
    store_after_latest empty nothing
  rw [List.append_nil] at told
  exact ⟨store, done, unique, told, init_completes store⟩

end Ddhcpd.OptionStore

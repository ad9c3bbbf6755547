import Ddhcpd.Exclusive

/-!
Addresses and leases. The addresses of the network are counted from its prefix, past the last
address there is if need be; the lookup of an address undoes the arithmetic that
`ddhcp_block_init` and the handlers of clients name a lease with.
-/

namespace Ddhcpd.Numbering
open Types Leases Node LeaseMoves Invariant Calls Exclusive

/-- One of the addresses counted from the prefix. -/
def InNetwork (cfg : Settings) (address : InAddr) : Prop :=
  ∃ offset < cfg.blocks * cfg.blockSize.toNat, addrAdd cfg.prefixAddr offset = address

/-- The lease at this place stands for the address, and the lookup tells whether it is ours. -/
structure StandsFor (cfg : Settings) (c : Config) (address : InAddr) (position index : Nat) :
    Prop where
  inside : position < cfg.blocks
  below : index < (c.blocks position).subnetLen.toNat
  counted : addrAdd (c.blocks position).subnet index = address
  ours : (findLeaseFromAddress cfg c address).status = 0 ↔ (c.blocks position).state = .ours

/-- Addresses and leases are in bijection. -/
structure Numbered (cfg : Settings) (c : Config) : Prop where
  outside : ∀ address, (findLeaseFromAddress cfg c address).status = 2 ↔ ¬ InNetwork cfg address
  found : ∀ address, InNetwork cfg address → StandsFor cfg c address
    (findLeaseFromAddress cfg c address).block (findLeaseFromAddress cfg c address).lease
  back : ∀ position < cfg.blocks, ∀ index < cfg.blockSize.toNat,
    findLeaseFromAddress cfg c (addrAdd (c.blocks position).subnet index) =
      ⟨if (c.blocks position).state = .ours then 0 else 1, position, index⟩

section Offsets
variable {cfg : Settings} {c : Config} {address : InAddr}

theorem network_small (cfg : Settings) : cfg.blocks * cfg.blockSize.toNat < 2 ^ 32 :=
  Nat.lt_of_le_of_lt cfg.network_fits (by decide)

theorem offset_of_add (start : InAddr) {offset : Nat} (small : offset < 2 ^ 32) :
    (addrAdd start offset - start).toNat = offset := by
  rw [addrAdd, UInt32.add_comm, UInt32.add_sub_cancel, UInt32.toNat_ofNat', Nat.mod_eq_of_lt small]

theorem add_of_offset (start address : InAddr) :
    addrAdd start (address - start).toNat = address := by
  rw [addrAdd, UInt32.ofNat_toNat, UInt32.add_comm, UInt32.sub_add_cancel]

/-- The offset that the lookup computes, for addresses below the prefix as well. -/
theorem in_network_iff :
    InNetwork cfg address ↔ (address - cfg.prefixAddr).toNat < cfg.blocks * cfg.blockSize.toNat := by
  constructor
  · rintro ⟨offset, below, rfl⟩
    rwa [offset_of_add _ (Nat.lt_trans below (network_small cfg))]
  · exact fun below => ⟨_, below, add_of_offset _ _⟩

theorem lookup_outside_iff (c : Config) :
    (findLeaseFromAddress cfg c address).status = 2 ↔ ¬ InNetwork cfg address := by
  rw [in_network_iff, ← Nat.div_lt_iff_lt_mul cfg.size_pos]
  unfold findLeaseFromAddress
  simp only
  split
  · rename_i inside
    simp only [inside, not_true_eq_false, iff_false]
    split <;> decide
  · rename_i beyond
    simp [beyond]

theorem lookup_stands_for (sound : Sound cfg c) (member : InNetwork cfg address) :
    StandsFor cfg c address (findLeaseFromAddress cfg c address).block
      (findLeaseFromAddress cfg c address).lease := by
  have known : (findLeaseFromAddress cfg c address).status ≠ 2 := fun outside =>
    (lookup_outside_iff c).mp outside member
  refine ⟨find_lease_inside known, ?_, find_lease_address sound known, ?_⟩
  · rw [(sound _).size]
    exact find_lease_index address
  · exact ⟨fun ours => (find_lease_ours ours).2, find_lease_own known⟩

end Offsets

/-- In the state that `ddhcp_block_init` leaves, and in every later one. -/
theorem addresses_numbered {cfg : Settings} {s : NodeState} (reached : Reachable cfg s) :
    Numbered cfg s.config := by
  have sound := (reachable_good reached).sound
  refine ⟨fun _ => lookup_outside_iff s.config, fun _ => lookup_stands_for sound, ?_⟩
  intro position inside index below
  rw [(sound position).subnet]
  exact find_lease_add inside below

theorem addresses_numbered_small : Numbered (smallNode 1) smallStart.config :=
  addresses_numbered ⟨[], 1000, [⟨codeAddressLeaseTime, 4, [0, 0, 1, 44]⟩], .refl _⟩

end Ddhcpd.Numbering

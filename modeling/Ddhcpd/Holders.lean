import Ddhcpd.Exclusive

/-!
The client an address is leased to, and what house keeping makes of it. Only time takes a
lease away there: the end of the lease, or that of the claim on its block.
-/

namespace Ddhcpd.Holders
open Types Leases Blocks Dhcp Node Claim Invariant Calls HouseKeeping LeaseMoves Exclusive

/-- The block an address is in, and its index there. -/
def placeOf (cfg : Settings) (address : InAddr) : Option (Nat × Nat) :=
  let offset := (address - cfg.prefixAddr).toNat
  if offset / cfg.blockSize.toNat < cfg.blocks then
    some (offset / cfg.blockSize.toNat, offset % cfg.blockSize.toNat)
  else none

def holderOf (lease : Lease) : Option HwAddr :=
  if lease.state = .leased then some lease.chaddr else none

def holderAt (block : Block) (index : Nat) : Option HwAddr := (leaseAt block index).bind holderOf

/-- The client that the entry of the address is leased to. -/
def holder (cfg : Settings) (c : Config) (address : InAddr) : Option HwAddr :=
  (placeOf cfg address).bind fun place => holderAt (c.blocks place.1) place.2

/-- The lease or the claim on its block has ended. -/
def Ended (cfg : Settings) (now : Time) (address : InAddr) (c : Config) : Prop :=
  ∃ position index lease, placeOf cfg address = some (position, index) ∧
    leaseAt (c.blocks position) index = some lease ∧
    (lease.leaseEnd < now ∨ (c.blocks position).timeout < now)

section Places
variable {cfg : Settings} {c : Config} {address : InAddr} {position index : Nat}

theorem find_lease_place : findLeaseFromAddress cfg c address =
    match placeOf cfg address with
    | some place => ⟨if (c.blocks place.1).state = .ours then 0 else 1, place.1, place.2⟩
    | none => ⟨2, 0, 0⟩ := by
  unfold findLeaseFromAddress placeOf
  simp only
  split <;> rfl

theorem place_of_find (known : (findLeaseFromAddress cfg c address).status ≠ 2) :
    placeOf cfg address = some ((findLeaseFromAddress cfg c address).block,
      (findLeaseFromAddress cfg c address).lease) := by
  rw [find_lease_place] at known ⊢
  cases here : placeOf cfg address with
  | none =>
      rw [here] at known
      exact absurd rfl known
  | some place => rfl

theorem place_of_found {status : Nat}
    (found : findLeaseFromAddress cfg c address = ⟨status, position, index⟩) (known : status ≠ 2) :
    placeOf cfg address = some (position, index) := by
  have place : placeOf cfg address = _ := place_of_find (c := c) (by rw [found]; exact known)
  rw [place, found]

theorem place_inside (place : placeOf cfg address = some (position, index)) :
    position < cfg.blocks ∧ index < cfg.blockSize.toNat := by
  simp only [placeOf, Option.ite_none_right_eq_some, Option.some.injEq, Prod.mk.injEq] at place
  rcases place with ⟨inside, rfl, rfl⟩
  exact ⟨inside, Nat.mod_lt _ cfg.size_pos⟩

/-- An entry of a table stands for one address. -/
theorem place_of_iff (sound : Sound cfg c) (inside : position < cfg.blocks)
    (below : index < cfg.blockSize.toNat) :
    placeOf cfg address = some (position, index) ↔
      addrAdd (c.blocks position).subnet index = address := by
  constructor
  · intro place
    have found : findLeaseFromAddress cfg c address =
        ⟨if (c.blocks position).state = .ours then 0 else 1, position, index⟩ := by
      rw [find_lease_place, place]
    have known : (findLeaseFromAddress cfg c address).status ≠ 2 := by
      rw [found]
      simp only
      split <;> decide
    have named := find_lease_address sound known
    rwa [found] at named
  · rintro rfl
    have found := find_lease_add (c := c) inside below
    rw [← (sound position).subnet] at found
    have known : (findLeaseFromAddress cfg c (addrAdd (c.blocks position).subnet index)).status ≠ 2 := by
      rw [found]
      simp only
      split <;> decide
    rw [place_of_find known, found]

theorem place_injective {other : InAddr} (sound : Sound cfg c)
    (one : placeOf cfg address = some (position, index))
    (two : placeOf cfg other = some (position, index)) : address = other := by
  have inside := place_inside one
  have named := (place_of_iff sound inside.1 inside.2).mp one
  exact named.symm.trans ((place_of_iff sound inside.1 inside.2).mp two)

end Places

/-! One entry. -/

section Entries
variable {cfg : Settings} {env : Env} {block : Block} {position index : Nat} {lease : Lease}
  {now : Time}

theorem holder_at_none (missing : block.addresses = none) : holderAt block index = none := by
  simp [holderAt, leaseAt, missing]

theorem holder_at_congr {after : Block} (same : after.addresses = block.addresses) :
    holderAt after index = holderAt block index := by
  simp only [holderAt, leaseAt, same]

theorem holder_at_some {client : HwAddr} (held : holderAt block index = some client) :
    ∃ lease, leaseAt block index = some lease ∧ lease.state = .leased ∧ lease.chaddr = client := by
  rcases Option.bind_eq_some_iff.mp held with ⟨lease, entry, leased⟩
  simp only [holderOf, Option.ite_none_right_eq_some, Option.some.injEq] at leased
  exact ⟨lease, entry, leased⟩

theorem holder_at_free {table : List Lease} (here : block.addresses = some table)
    (free : ∀ lease ∈ table, lease.state = .free) : holderAt block index = none := by
  simp only [holderAt, leaseAt, here, Option.bind_some]
  cases entry : table[index]? with
  | none => rfl
  | some lease => simp [holderOf, free lease (List.mem_of_getElem? entry)]

theorem holder_at_alloc : holderAt (blockAlloc env position block).1 index = holderAt block index := by
  unfold blockAlloc
  split
  · rfl
  split
  · rename_i missing _
    have none : block.addresses = none := by simpa using missing
    rw [holder_at_none none]
    exact holder_at_free rfl (by simp [freshLease])
  · rfl

theorem holder_at_promote :
    holderAt (promote cfg env position block) index = holderAt block index := by
  have allocated : holderAt (blockAlloc env position block).1 index = holderAt block index :=
    holder_at_alloc
  rw [← allocated]
  apply holder_at_congr
  unfold promote blockOwn
  simp only
  split_ifs <;> rfl

theorem holder_at_freed (usable : block.state ≠ .blocked) :
    holderAt (blockFree block) index = none := by
  rw [block_free_freed usable]
  exact holder_at_none rfl

theorem holder_of_expired :
    holderOf (Lease.expired now lease) = if lease.leaseEnd < now then none else holderOf lease := by
  by_cases late : lease.leaseEnd < now
  · by_cases free : lease.state = .free
    · simp [Lease.expired, holderOf, free, late]
    · simp [Lease.expired, Lease.released, holderOf, free, late]
  · simp [Lease.expired, late]

/-- `block_check_timeouts` releases what has ended, one entry or the whole table. -/
theorem holder_at_checked (sound : SoundBlock cfg position block)
    (entry : leaseAt block index = some lease) :
    holderAt (checked now block) index =
      if lease.leaseEnd < now ∨ block.timeout < now then none else holderOf lease := by
  rcases Option.bind_eq_some_iff.mp entry with ⟨table, here, inside⟩
  have busy : block.state ≠ .free := by
    intro free
    rw [sound.free free] at here
    contradiction
  have swept : (table.map (Lease.expired now))[index]? = some (Lease.expired now lease) := by
    simp [inside]
  by_cases lapsed : block.timeout < now
  · rw [checked, if_pos ⟨lapsed, busy⟩, holder_at_freed sound.usable, if_pos (.inr lapsed)]
  · rw [checked, if_neg fun ended => lapsed ended.1, here]
    simp only [lapsed, or_false]
    rw [← holder_of_expired]
    split
    · rename_i all
      have free : (Lease.expired now lease).state = .free := by
        have each := List.all_eq_true.mp all.2 _ (List.mem_of_getElem? swept)
        simpa [isFree] using each
      have gone : holderAt (blockFree (sweptBlock now block table)) index = none :=
        holder_at_freed sound.usable
      simp [gone, holderOf, free]
    · simp [holderAt, leaseAt, sweptBlock, swept]

theorem holder_at_checked_missing (sound : SoundBlock cfg position block)
    (missing : leaseAt block index = none) : holderAt (checked now block) index = none := by
  have unheld : holderAt block index = none := by simp [holderAt, missing]
  unfold checked
  split
  · exact holder_at_freed sound.usable
  split
  · exact unheld
  rename_i table here
  have outside : table[index]? = none := by simpa [leaseAt, here] using missing
  split
  · exact holder_at_freed (by exact sound.usable)
  · simp [holderAt, leaseAt, sweptBlock, outside]

end Entries

/-! House keeping. -/

section Passes
variable {cfg : Settings} {env : Env} {c after : Config} {address : InAddr}

theorem holder_congr (tables : ∀ position index,
      holderAt (after.blocks position) index = holderAt (c.blocks position) index) :
    holder cfg after address = holder cfg c address := by
  simp only [holder, tables]

theorem holder_set_block {index : Nat} {block : Block}
    (same : ∀ entry, holderAt block entry = holderAt (c.blocks index) entry) :
    holder cfg (c.setBlock index block) address = holder cfg c address := by
  apply holder_congr
  intro position entry
  rw [set_block_apply]
  split
  · rename_i here
    rw [here, same]
  · rfl

/-- A block is dropped when all of its leases are free. -/
theorem find_unused_free (sound : Sound cfg c) {chosen : Nat}
    (found : findUnused cfg c = some (some chosen)) (index : Nat) :
    holderAt (c.blocks chosen) index = none := by
  rcases find_unused_some found with ⟨-, own, num⟩
  rcases sound_own_full (sound chosen) own with ⟨table, full⟩
  rw [num_free_full full, Option.some.injEq, ← (sound chosen).table table full.1,
    List.countP_eq_length] at num
  exact holder_at_free full.1 fun lease member => by simpa [isFree] using num lease member

theorem drop_unused_holder (sound : Sound cfg c) (done : blockDropUnused cfg env c = some after) :
    holder cfg after address = holder cfg c address := by
  rcases Option.map_eq_some_iff.mp done with ⟨freeable, found, rfl⟩
  cases freeable with
  | none => rfl
  | some chosen =>
      have free : ∀ index, holderAt (c.blocks chosen) index = none := find_unused_free sound found
      simp only
      split
      · exact holder_set_block fun _ => holder_at_congr rfl
      split
      · apply holder_set_block
        intro index
        rw [free, holder_at_freed (sound chosen).usable]
      · rfl

theorem unmarked_holder : holder cfg (unmarked cfg c) address = holder cfg c address := by
  apply holder_congr
  intro position entry
  rcases unmarked_block cfg c position with ⟨since, same⟩
  rw [same]
  exact holder_at_congr rfl

theorem claimed_holder {started : List Nat} {inquiry : Option Bool}
    (done : Claimed cfg env c started inquiry after) :
    holder cfg after address = holder cfg c address := by
  apply holder_congr
  intro position index
  have sifts : holderAt (sifted cfg env c position) index = holderAt (c.blocks position) index := by
    unfold sifted
    split
    · exact holder_at_promote
    · rfl
  rw [← sifts, done.blocks]
  apply holder_at_congr
  simp only
  split_ifs <;> rfl

theorem adjust_holder (good : Good cfg c) (done : adjustBlocks cfg env c = some after) :
    holder cfg after address = holder cfg c address := by
  rcases adjust_cases done with dropped | rfl | ⟨spareLeases, -, -, rfl⟩
  · exact drop_unused_holder good.sound dropped
  · exact unmarked_holder
  · rcases claim_claimed (unmarked_good good) spareLeases with ⟨started, inquiry, claimed⟩
    exact (claimed_holder claimed).trans unmarked_holder

/-- What house keeping does after the timeouts changes no client. -/
theorem house_keeping_passed (good : Good cfg c) (done : houseKeeping cfg env c = some after) :
    ∃ middle, blockCheckTimeouts cfg env.now c = some middle ∧
      holder cfg after address = holder cfg middle address := by
  rcases house_keeping_passes good done with ⟨middle, adjusted, check, checkedGood, -, adjust,
    adjustedGood, blocks, -⟩
  refine ⟨middle, check, ?_⟩
  rw [← adjust_holder checkedGood adjust]
  apply holder_congr
  intro position index
  rw [blocks]
  exact holder_at_congr (update_claims_addresses adjustedGood.sound position)

theorem house_keeping_entry {position index : Nat} (good : Good cfg c)
    (done : houseKeeping cfg env c = some after) (place : placeOf cfg address = some (position, index)) :
    holder cfg after address = holderAt (checked env.now (c.blocks position)) index := by
  rcases house_keeping_passed good done with ⟨middle, check, same⟩
  rw [check_timeouts_checked good.sound] at check
  cases check
  rw [same, holder, place]
  simp [(place_inside place).1]

/-- The client keeps the address until the lease, or the claim on its block, has ended. -/
theorem house_keeping_holder (good : Good cfg c) (done : houseKeeping cfg env c = some after)
    (live : ¬ Ended cfg env.now address c) : holder cfg after address = holder cfg c address := by
  cases place : placeOf cfg address with
  | none => simp [holder, place]
  | some found =>
      rcases found with ⟨position, index⟩
      rw [house_keeping_entry good done place, holder, place, Option.bind_some]
      cases entry : leaseAt (c.blocks position) index with
      | some lease =>
          have unended : ¬ (lease.leaseEnd < env.now ∨ (c.blocks position).timeout < env.now) :=
            fun ended => live ⟨position, index, lease, place, entry, ended⟩
          rw [holder_at_checked (good.sound position) entry, if_neg unended, holderAt, entry]
          rfl
      | none =>
          rw [holder_at_checked_missing (good.sound position) entry, holderAt, entry]
          rfl

theorem house_keeping_ended (good : Good cfg c) (done : houseKeeping cfg env c = some after)
    (ended : Ended cfg env.now address c) : holder cfg after address = none := by
  rcases ended with ⟨position, index, lease, place, entry, late⟩
  rw [house_keeping_entry good done place, holder_at_checked (good.sound position) entry,
    if_pos late]

end Passes

end Ddhcpd.Holders

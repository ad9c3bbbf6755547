import Ddhcpd.Calls
import Ddhcpd.Choice

/-!
What a client that asks for any address is offered: the lowest free lease of the oldest of
our blocks that has one. The search over the blocks and the search over the leases look at
the same tables, so the second finds what the first has seen.
-/

namespace Ddhcpd.Discover
open Types Leases Blocks Dhcp Options Node LeaseMoves Choice Refresh Invariant Calls Handlers

def FreeAt (block : Block) (index : Nat) : Prop :=
  ∃ lease, leaseAt block index = some lease ∧ lease.state = .free

/-- A block of ours with a free lease. -/
def Offering (c : Config) (position : Nat) : Prop :=
  (c.blocks position).state = .ours ∧ ∃ index, FreeAt (c.blocks position) index

def age (c : Config) (position : Nat) : Time := (c.blocks position).firstClaimed

/-- The lease a client is offered. -/
structure Takes (cfg : Settings) (c : Config) (position index : Nat) : Prop where
  block : Chosen (Offering c) (age c) cfg.blocks position
  inside : index < (c.blocks position).subnetLen.toNat
  free : FreeAt (c.blocks position) index
  lowest : ∀ other < index, ¬ FreeAt (c.blocks position) other

section Searches
variable {cfg : Settings} {c : Config} {block : Block} {table : List Lease}

theorem free_at_full (full : Full block table) (index : Nat) :
    FreeAt block index ↔ ∃ inside : index < table.length, isFree table[index] = true := by
  simp only [FreeAt, lease_at_full full, List.getElem?_eq_some_iff, isFree, decide_eq_true_eq]
  constructor
  · rintro ⟨lease, ⟨inside, rfl⟩, free⟩
    exact ⟨inside, free⟩
  · rintro ⟨inside, free⟩
    exact ⟨_, ⟨inside, rfl⟩, free⟩

theorem has_free_iff (full : Full block table) :
    table.any isFree = true ↔ ∃ index, FreeAt block index := by
  simp only [free_at_full full, List.any_eq_true, List.mem_iff_getElem]
  constructor
  · rintro ⟨lease, ⟨index, inside, rfl⟩, free⟩
    exact ⟨index, inside, free⟩
  · rintro ⟨index, inside, free⟩
    exact ⟨_, ⟨index, inside, rfl⟩, free⟩

theorem get_free_lease (full : Full block table) (some_free : ∃ index, FreeAt block index) :
    ∃ index, dhcpGetFreeLease block = some index ∧ index < block.subnetLen.toNat ∧
      FreeAt block index ∧ ∀ other < index, ¬ FreeAt block other := by
  have found : (table.findIdx? isFree).isSome = true := by
    rw [List.findIdx?_isSome]
    exact (has_free_iff full).mpr some_free
  obtain ⟨index, first⟩ := Option.isSome_iff_exists.mp found
  obtain ⟨inside, free, before⟩ := List.findIdx?_eq_some_iff_getElem.mp first
  have scan := first_lease_full full isFree _ 0 (by simpa using full.2.symm)
  refine ⟨index, ?_, full.2 ▸ inside, (free_at_full full index).mpr ⟨inside, free⟩, ?_⟩
  · rw [dhcpGetFreeLease, scan]
    simp [first]
  · intro other less also
    obtain ⟨_, hit⟩ := (free_at_full full other).mp also
    exact absurd hit (before other less)

theorem find_free_leases_selects (sound : Sound cfg c) : ∃ selected,
    blockFindFreeLeases cfg c = some selected ∧
      Selected (Offering c) (age c) cfg.blocks selected := by
  apply loopM_selects
  intro k _ selected
  by_cases own : (c.blocks k).state = .ours
  · obtain ⟨table, full⟩ := sound_own_full (sound k) own
    simp only [own, ↓reduceIte, has_free_full full, Option.map_some]
    by_cases free : table.any isFree = true
    · left
      refine ⟨⟨own, (has_free_iff full).mp free⟩, ?_⟩
      rw [if_pos free]
      rfl
    · right
      refine ⟨fun offering => free ((has_free_iff full).mpr offering.2), ?_⟩
      rw [if_neg free]
  · right
    exact ⟨fun offering => own offering.1, by rw [if_neg own]⟩

/-- The two searches of `dhcp_hdl_discover` together. -/
theorem discover_searches (sound : Sound cfg c) :
    (blockFindFreeLeases cfg c = some none ∧ ∀ position < cfg.blocks, ¬ Offering c position) ∨
      ∃ position index, blockFindFreeLeases cfg c = some (some position) ∧
        dhcpGetFreeLease (c.blocks position) = some index ∧ Takes cfg c position index := by
  obtain ⟨selected, search, held⟩ := find_free_leases_selects sound
  cases selected with
  | none => exact .inl ⟨search, held⟩
  | some position =>
      obtain ⟨table, full⟩ := sound_own_full (sound position) held.fit.1
      obtain ⟨index, first, inside, free, lowest⟩ := get_free_lease full held.fit.2
      exact .inr ⟨position, index, search, first, held, inside, free, lowest⟩

end Searches

section Offer
variable {cfg : Settings} {env : Env} {c : Config} {discover : DhcpPacket} {position index : Nat}
  {lease : Lease}

/-- The reply that makes the offer, once its options are filled in. -/
def offerReply (c : Config) (discover : DhcpPacket) (position index : Nat) : DhcpPacket :=
  { buildInitialPacket discover with yiaddr := addrAdd (c.blocks position).subnet index }

/-! `dhcp_hdl_discover` behind its searches. -/

theorem discover_exhausted (env : Env) (discover : DhcpPacket)
    (search : blockFindFreeLeases cfg c = some none) :
    dhcpHdlDiscover cfg env discover c = some (c, 3) := by
  simp [dhcpHdlDiscover, search]

theorem discover_starved (discover : DhcpPacket)
    (search : blockFindFreeLeases cfg c = some (some position))
    (first : dhcpGetFreeLease (c.blocks position) = some index)
    (starved : ¬ env.alloc .replyPacket = true) :
    dhcpHdlDiscover cfg env discover c = some (c, 1) := by
  simp [dhcpHdlDiscover, search, first, starved]

theorem discover_found (discover : DhcpPacket)
    (search : blockFindFreeLeases cfg c = some (some position))
    (first : dhcpGetFreeLease (c.blocks position) = some index)
    (entry : leaseAt (c.blocks position) index = some lease)
    (memory : env.alloc .replyPacket = true) :
    dhcpHdlDiscover cfg env discover c =
      match dhcpDefaultOptions env dhcpOffer (offerReply c discover position index) discover c true with
      | none => some (offerTo env c discover position index lease, 1)
      | some reply =>
          let sent := dhcpPacketSend env dhcpOffer reply (offerTo env c discover position index lease)
          if sent.2 then some (neededAt sent.1 position, 0) else some (sent.1, 0) := by
  have written : updateLease (c.blocks position) index
      (leaseTo discover .offered (env.now + dhcpOfferTimeout)) = some (putLease (c.blocks position)
        index (leaseTo discover .offered (env.now + dhcpOfferTimeout) lease)) :=
    update_lease_iff.mpr ⟨lease, entry, rfl⟩
  unfold dhcpHdlDiscover
  simp only [search, first, memory, written, Option.bind_eq_bind, Option.bind_some,
    Option.pure_def, not_true_eq_false, ↓reduceIte]
  rfl

/-- The lease is offered to the client, and nothing else of the tables and blocks is
touched but the mark of a block that turned out to be needed. -/
structure Offers (cfg : Settings) (env : Env) (discover : DhcpPacket) (c : Config)
    (position index : Nat) (after : Config) : Prop where
  lease : leaseAt (after.blocks position) index =
    some ⟨discover.chaddr, .offered, discover.xid, env.now + 12⟩
  others : ∀ k i, k ≠ position ∨ i ≠ index → leaseAt (after.blocks k) i = leaseAt (c.blocks k) i
  blocks : ∀ k, claimOf (after.blocks k) = claimOf (c.blocks k)
  marks : ∀ k, (after.blocks k).needlessSince =
    if k = position ∧ env.dhcpSent = true then 0 else (c.blocks k).needlessSince
  reply : ∃ reply, sent c after = [.dhcp dhcpOffer reply env.dhcpSent] ∧
    reply.yiaddr = addrAdd cfg.prefixAddr (position * cfg.blockSize.toNat + index) ∧
    reply.chaddr = discover.chaddr ∧ reply.xid = discover.xid

theorem addr_add_add (subnet : InAddr) (first second : Nat) :
    addrAdd (addrAdd subnet first) second = addrAdd subnet (first + second) := by
  simp [addrAdd, UInt32.add_assoc]

/-- The state after the offer went out, with or without success. -/
def offered (env : Env) (c : Config) (discover : DhcpPacket) (position index : Nat) (lease : Lease)
    (reply : DhcpPacket) : Config :=
  let told := (offerTo env c discover position index lease).emit (.dhcp dhcpOffer reply env.dhcpSent)
  if env.dhcpSent then neededAt told position else told

theorem offered_block (reply : DhcpPacket) (k : Nat) :
    (offered env c discover position index lease reply).blocks k =
      { (offerTo env c discover position index lease).blocks k with
        needlessSince := if k = position ∧ env.dhcpSent = true then 0
          else (c.blocks k).needlessSince } := by
  have mark : ((offerTo env c discover position index lease).blocks k).needlessSince =
      (c.blocks k).needlessSince := by
    rw [offerTo, set_block_apply]
    split
    · rename_i here
      rw [here]
      rfl
    · rfl
  unfold offered
  by_cases got : env.dhcpSent = true
  · simp only [got, ↓reduceIte, and_true, neededAt, set_block_apply]
    split
    · rename_i here
      rw [here]
      rfl
    · rw [← mark]
      rfl
  · simp only [got, Bool.false_eq_true, ↓reduceIte, and_false]
    rw [← mark]
    rfl

theorem offered_offers (sound : Sound cfg c) {reply : DhcpPacket}
    (entry : leaseAt (c.blocks position) index = some lease)
    (address : reply.yiaddr = addrAdd (c.blocks position).subnet index)
    (client : reply.chaddr = discover.chaddr ∧ reply.xid = discover.xid) :
    Offers cfg env discover c position index
      (offered env c discover position index lease reply) := by
  constructor
  case lease =>
    rw [offered_block]
    simp only [offerTo, set_block_same]
    exact lease_at_put entry
  case others =>
    intro k i other
    rw [offered_block]
    simp only [offerTo, set_block_apply]
    split
    · rename_i here
      subst here
      exact lease_at_put_other (other.resolve_left fun different => different rfl) _
    · rfl
  case blocks =>
    intro k
    rw [offered_block]
    simp only [offerTo, set_block_apply]
    split
    · rename_i here
      subst here
      rfl
    · rfl
  case marks =>
    intro k
    rw [offered_block]
  case reply =>
    refine ⟨reply, ?_, ?_, client⟩
    · unfold offered
      split <;> simp [sent, neededAt, offerTo]
    · rw [address, (sound position).subnet, addr_add_add]

end Offer

end Ddhcpd.Discover

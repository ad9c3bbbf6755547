import Ddhcpd.Attempt

/-!
Memory safety of the lease tables. While memory lasts every access finds a table of the
right length, but for one: the answer to a forwarded request is entered in the table of
the block without a look at whether the table is still there.
-/

namespace Ddhcpd.LeaseSafety
open Types Leases Blocks BlockPackets LeasePackets Packet Dhcp Node Path Refresh Claim Invariant
open Calls Attempt LeaseMoves

/-- No entry of the packet cache has lost its options. -/
def Intact (c : Config) : Prop := ∀ cached ∈ c.dhcpPacketCache, cached.intact = true

/-- The event answers a cached request for an address of a block that is not ours and has
no table. -/
def StrayAck (cfg : Settings) (env : Env) (event : Event) (c : Config) : Prop :=
  ∃ buffer len sender packet cached, event = .direct buffer len sender ∧
    ntohMcastPacket env buffer len = some packet ∧ foreign cfg packet = false ∧
    packet.command = msgLeaseAck ∧
    c.dhcpPacketCache.find?
      (cacheMatches packet.renewPayload.xid packet.renewPayload.chaddr) = some cached ∧
    (findLeaseFromAddress cfg c ((requestedAddress cached.packet).getD 0)).status = 1 ∧
    (c.blocks (findLeaseFromAddress cfg c
      ((requestedAddress cached.packet).getD 0)).block).addresses = none

section Accesses
variable {cfg : Settings} {env : Env} {c after : Config} {position index : Nat}

/-! Single accesses. -/

theorem update_lease_there {block : Block} (sound : SoundBlock cfg position block)
    (there : block.addresses.isSome = true) (inside : index < cfg.blockSize.toNat)
    (change : Lease → Lease) : ∃ changed, updateLease block index change = some changed := by
  obtain ⟨lease, entry⟩ := lease_at_there sound there inside
  exact ⟨_, by rw [updateLease, entry]; rfl⟩

theorem update_lease_missing {block : Block} (missing : block.addresses = none)
    (change : Lease → Lease) : updateLease block index change = none := by
  simp [updateLease, leaseAt, missing]

/-! Loops over all blocks. -/

theorem num_free_leases_there (sound : Sound cfg c) :
    ∃ num, blockNumFreeLeases cfg c = some num := by
  apply Loop.loopM_total
  intro k _ num
  split
  · rename_i own
    obtain ⟨table, full⟩ := sound_own_full (sound k) own
    exact ⟨_, by rw [num_free_full full]; rfl⟩
  · exact ⟨num, rfl⟩

theorem find_free_leases_there (sound : Sound cfg c) :
    ∃ selected, blockFindFreeLeases cfg c = some selected := by
  apply Loop.loopM_total
  intro k _ selected
  split
  · rename_i own
    obtain ⟨table, full⟩ := sound_own_full (sound k) own
    exact ⟨_, by rw [has_free_full full]; rfl⟩
  · exact ⟨selected, rfl⟩

theorem find_unused_there (sound : Sound cfg c) :
    ∃ selected, findUnused cfg c = some selected := by
  apply Loop.loopM_total
  intro k _ selected
  split
  · rename_i own
    obtain ⟨table, full⟩ := sound_own_full (sound k) own
    exact ⟨_, by rw [num_free_full full]; rfl⟩
  · exact ⟨selected, rfl⟩

theorem find_offered_there (sound : Sound cfg c) (request : DhcpPacket) :
    ∃ found, findOfferedLease cfg request c = some found := by
  apply Loop.loopM_total
  intro k _ found
  split
  · exact ⟨_, rfl⟩
  split
  · rename_i own
    obtain ⟨table, full⟩ := sound_own_full (sound k) own
    have search := first_lease_full full (isOffered request) (c.blocks k).subnetLen.toNat 0
      (by rw [Nat.zero_add, full.2])
    exact ⟨_, by rw [search]; rfl⟩
  · exact ⟨_, rfl⟩

/-! The handlers. -/

theorem ack_there {lease : Lease} (entry : leaseAt (c.blocks position) index = some lease)
    (request : DhcpPacket) :
    ∃ result, dhcpAckLease cfg env request position index c = some result := by
  unfold dhcpAckLease
  split
  · exact ⟨_, rfl⟩
  simp only [updateLease, entry, Option.map_some, Option.bind_eq_bind, Option.bind_some]
  split <;> exact ⟨_, rfl⟩

theorem discover_there (sound : Sound cfg c) (discover : DhcpPacket) :
    ∃ result, dhcpHdlDiscover cfg env discover c = some result := by
  obtain ⟨selected, search⟩ := find_free_leases_there sound
  unfold dhcpHdlDiscover
  rw [search]
  cases selected with
  | none => exact ⟨_, rfl⟩
  | some position =>
      obtain ⟨-, own, free⟩ := LeaseMoves.find_free_leases_some search
      obtain ⟨hit, scan, isSome⟩ := Option.map_eq_some_iff.mp free
      obtain ⟨index, rfl⟩ := Option.isSome_iff_exists.mp isSome
      obtain ⟨lease, entry, -⟩ := LeaseMoves.first_lease_some scan
      have first : dhcpGetFreeLease (c.blocks position) = some index := by
        simp [dhcpGetFreeLease, scan]
      simp only [Option.bind_eq_bind, Option.bind_some, first]
      split
      · exact ⟨_, rfl⟩
      simp only [updateLease, entry, Option.map_some, Option.bind_some]
      split
      · exact ⟨_, rfl⟩
      · split <;> exact ⟨_, rfl⟩

theorem forward_there (sound : Sound cfg c) (memory : Allocates env)
    (claimed : (c.blocks position).state = .claimed) (inside : index < cfg.blockSize.toNat)
    (request : DhcpPacket) (address : InAddr) :
    ∃ result, forwardRequest cfg env request address position index c = some result := by
  obtain ⟨allocated, lease, entry⟩ := Handlers.opened_entry sound claimed inside (.inr (memory _))
  rw [Handlers.forward_noted request address allocated entry]
  split <;> exact ⟨_, rfl⟩

theorem request_there (sound : Sound cfg c) (memory : Allocates env) (request : DhcpPacket) :
    ∃ result, dhcpHdlRequest cfg env request c = some result := by
  unfold dhcpHdlRequest
  split
  · simp only
    split
    · exact ⟨_, rfl⟩
    split
    · rename_i claimed
      exact forward_there sound memory claimed (find_lease_index _) request _
    split
    · rename_i own
      obtain ⟨lease, entry⟩ := lease_at_there (sound _) ((sound _).own own) (find_lease_index _)
      rw [entry]
      simp only [Option.bind_eq_bind, Option.bind_some]
      split
      · obtain ⟨acked, ack⟩ : ∃ result, dhcpAckLease cfg env request
            (findLeaseFromAddress cfg c _).block (findLeaseFromAddress cfg c _).lease c =
            some result := ack_there entry request
        rw [ack]
        exact ⟨_, rfl⟩
      · exact ⟨_, rfl⟩
    · split <;> exact ⟨_, rfl⟩
  · obtain ⟨found, search⟩ := find_offered_there sound request
    rw [search]
    simp only [Option.bind_eq_bind, Option.bind_some]
    cases found with
    | none => exact ⟨_, rfl⟩
    | some found =>
        obtain ⟨position, index⟩ := found
        obtain ⟨-, -, lease, entry, -⟩ := LeaseMoves.find_offered_some search
        obtain ⟨acked, ack⟩ : ∃ result, dhcpAckLease cfg env request position index c =
            some result := ack_there entry request
        exact ⟨(acked.1, acked.2), by simp only [ack, Option.bind_some]; rfl⟩

theorem release_there (sound : Sound cfg c) (packet : DhcpPacket) :
    ∃ after, dhcpHdlRelease cfg env packet c = some after := by
  unfold dhcpHdlRelease
  simp only
  split
  · rename_i ours
    have own := (LeaseMoves.find_lease_ours ours).2
    obtain ⟨lease, entry⟩ := lease_at_there (sound _) ((sound _).own own)
      (find_lease_index packet.ciaddr)
    rw [entry]
    simp only [releaseLease, updateLease, entry, Option.bind_eq_bind, Option.bind_some,
      Option.map_some]
    split <;> exact ⟨_, rfl⟩
  · exact ⟨_, rfl⟩

theorem client_there (sound : Sound cfg c) (memory : Allocates env) (packet : DhcpPacket) :
    ∃ after, handle cfg env (.client packet) c = some after := by
  have found : ∃ result, dhcpProcess cfg env packet c = some result := by
    unfold dhcpProcess
    split
    · obtain ⟨result, done⟩ : ∃ result, dhcpHdlDiscover cfg env packet c = some result :=
        discover_there sound packet
      exact ⟨_, by rw [done]; rfl⟩
    split
    · obtain ⟨result, done⟩ := request_there sound memory packet
      exact ⟨_, by rw [done]; rfl⟩
    split
    · obtain ⟨result, done⟩ : ∃ after, dhcpHdlRelease cfg env packet c = some after :=
        release_there sound packet
      exact ⟨_, by rw [done]; rfl⟩
    split <;> exact ⟨_, rfl⟩
  obtain ⟨result, done⟩ := found
  exact ⟨result.1, by rw [handle, done]; rfl⟩

theorem renewlease_there (sound : Sound cfg c) (packet : McastPacket) (sender : In6Addr) :
    ∃ after, ddhcpDhcpRenewlease cfg env packet sender c = some after := by
  unfold ddhcpDhcpRenewlease dhcpRhdlRequest
  simp only
  split
  · rename_i ours
    have own := (LeaseMoves.find_lease_ours ours).2
    obtain ⟨block, written⟩ := update_lease_there (sound _) ((sound _).own own)
      (find_lease_index (rawAddress cfg packet.renewPayload.address))
      (fun lease => { lease with leaseEnd := leaseEndFrom env c })
    rw [written]
    simp only [Option.map_some, Option.bind_eq_bind, Option.bind_some]
    split <;> exact ⟨_, rfl⟩
  · simp only [Option.bind_eq_bind, Option.bind_some]
    split <;> exact ⟨_, rfl⟩

theorem list_find_member {xid : UInt32} {chaddr : HwAddr} {cached : CachedPacket}
    (found : dhcpPacketListFind xid chaddr c = some (cached, after)) :
    cached ∈ c.dhcpPacketCache := by
  obtain ⟨entry, search, same⟩ := Option.map_eq_some_iff.mp found
  cases same
  exact List.mem_of_find?_eq_some search

theorem leasenak_there (intact : Intact c) (packet : McastPacket) :
    ∃ after, ddhcpDhcpLeasenak env packet c = some after := by
  unfold ddhcpDhcpLeasenak
  split
  · exact ⟨_, rfl⟩
  · rename_i cached taken found
    rw [if_pos (intact cached (list_find_member found))]
    exact ⟨_, rfl⟩

/-- The one access that no handler guards. -/
theorem rhdl_ack_faults_iff (sound : Sound cfg c) (memory : Allocates env)
    (request : DhcpPacket) :
    dhcpRhdlAck cfg env request c = none ↔
      (findLeaseFromAddress cfg c ((requestedAddress request).getD 0)).status = 1 ∧
      (c.blocks (findLeaseFromAddress cfg c
        ((requestedAddress request).getD 0)).block).addresses = none := by
  unfold dhcpRhdlAck
  simp only
  split
  · rename_i other
    simp [other]
  rename_i known
  have known := not_not.mp known
  simp only [known, true_and]
  constructor
  · intro fault
    by_contra there
    obtain ⟨lease, entry⟩ := lease_at_there (sound _)
      (Option.isSome_iff_ne_none.mpr there) (find_lease_index _)
    obtain ⟨result, ack⟩ : ∃ result, dhcpAckLease cfg env request _ _ c = some result :=
      ack_there entry request
    exact absurd (ack.symm.trans fault) (by simp)
  · intro missing
    unfold dhcpAckLease
    rw [if_neg (not_not.mpr (memory .replyPacket)), update_lease_missing missing]
    rfl

/-- The answer to a cached request faults exactly when the table of its block is gone. -/
theorem leaseack_faults_iff (sound : Sound cfg c) (memory : Allocates env) (intact : Intact c)
    (packet : McastPacket) :
    ddhcpDhcpLeaseack cfg env packet c = none ↔ ∃ cached,
      c.dhcpPacketCache.find?
        (cacheMatches packet.renewPayload.xid packet.renewPayload.chaddr) = some cached ∧
      (findLeaseFromAddress cfg c ((requestedAddress cached.packet).getD 0)).status = 1 ∧
      (c.blocks (findLeaseFromAddress cfg c
        ((requestedAddress cached.packet).getD 0)).block).addresses = none := by
  unfold ddhcpDhcpLeaseack dhcpPacketListFind
  cases search : c.dhcpPacketCache.find?
      (cacheMatches packet.renewPayload.xid packet.renewPayload.chaddr) with
  | none => simp
  | some cached =>
      have whole := intact cached (List.mem_of_find?_eq_some search)
      simp only [Option.map_some, whole, ↓reduceIte, Option.some.injEq, exists_eq_left',
        Option.map_eq_none_iff]
      have taken (entries : List CachedPacket) : Sound cfg { c with dhcpPacketCache := entries } :=
        sound
      exact rhdl_ack_faults_iff (taken _) memory cached.packet

theorem direct_faults_iff (sound : Sound cfg c) (memory : Allocates env) (intact : Intact c)
    (buffer : List UInt8) (len : Nat) (sender : In6Addr) :
    handle cfg env (.direct buffer len sender) c = none ↔
      StrayAck cfg env (.direct buffer len sender) c := by
  have stray : StrayAck cfg env (.direct buffer len sender) c ↔ ∃ packet,
      ntohMcastPacket env buffer len = some packet ∧ foreign cfg packet = false ∧
      packet.command = msgLeaseAck ∧ ddhcpDhcpLeaseack cfg env packet c = none := by
    constructor
    · rintro ⟨_, _, _, packet, cached, same, decoded, ofSwarm, ack, rest⟩
      cases same
      exact ⟨packet, decoded, ofSwarm, ack,
        (leaseack_faults_iff sound memory intact packet).mpr ⟨cached, rest⟩⟩
    · rintro ⟨packet, decoded, ofSwarm, ack, fault⟩
      obtain ⟨cached, rest⟩ := (leaseack_faults_iff sound memory intact packet).mp fault
      exact ⟨buffer, len, sender, packet, cached, rfl, decoded, ofSwarm, ack, rest⟩
  rw [stray]
  simp only [handle, ddhcpDhcpProcess]
  cases decoded : ntohMcastPacket env buffer len with
  | none => simp
  | some packet =>
      simp only [Option.some.injEq, exists_eq_left']
      unfold ddhcpDhcpDispatch
      split
      · rename_i strange
        simp [strange]
      rename_i ofSwarm
      simp only [Bool.not_eq_true] at ofSwarm
      simp only [ofSwarm, true_and]
      split
      · rename_i renew
        obtain ⟨after, done⟩ : ∃ after, ddhcpDhcpRenewlease cfg env packet sender c = some after :=
          renewlease_there sound packet sender
        simp [done, renew, msgRenewLease, msgLeaseAck]
      split
      · rename_i ack
        simp [ack]
      rename_i noAck
      split
      · obtain ⟨after, done⟩ : ∃ after, ddhcpDhcpLeasenak env packet c = some after :=
          leasenak_there intact packet
        simp [done, noAck]
      split
      · rename_i release
        exact absurd release (release_undecoded decoded)
      · simp [noAck]

/-! The cache. -/

theorem copy_succeeds (memory : Allocates env) (packet : DhcpPacket) :
    copySucceeds env packet = true := by
  have all : ((List.range packet.optionsLen.toNat).all fun index =>
      env.alloc (.copyPayload index)) = true :=
    List.all_eq_true.mpr fun index _ => memory (.copyPayload index)
  simp [copySucceeds, memory .copyOptions, memory (.copyPayload _)]

theorem lease_moves_intact {event : Event} (memory : Allocates env) (intact : Intact c)
    (moves : LeaseMoves.Moves cfg env event c after) : Intact after := by
  induction moves with
  | refl => exact intact
  | tail _ move ih =>
      cases move with
      | cache fresh =>
          intro entry member
          rcases fresh entry member with old | ⟨request, -, rfl⟩
          · exact ih entry old
          · exact copy_succeeds memory request
      | write => exact ih
      | allocate => exact ih
      | unmark => exact ih
      | store => exact ih
      | send => exact ih

theorem update_claims_cache (sound : Sound cfg c) :
    (blockUpdateClaims cfg env c).dhcpPacketCache = c.dhcpPacketCache := by
  obtain ⟨groups, done, -⟩ := update_claims_updated cfg env c (sound_indexed sound)
  rw [done.frame]

theorem block_moves_cache {packet : McastPacket} {sender : In6Addr} (sound : Sound cfg c)
    (moves : BlockMoves.Moves cfg env packet sender c after) :
    after.dhcpPacketCache = c.dhcpPacketCache := by
  induction moves with
  | refl => rfl
  | tail front move ih =>
      cases move with
      | concede => exact ih
      | defer => exact ih
      | defend =>
          exact (update_claims_cache (zeroed_sound (block_moves_sound sound front).1 _)).trans ih

theorem unmarked_cache : (unmarked cfg c).dhcpPacketCache = c.dhcpPacketCache := by
  unfold unmarked
  split <;> rfl

theorem adjust_cache (good : Good cfg c) (done : adjustBlocks cfg env c = some after) :
    after.dhcpPacketCache = c.dhcpPacketCache := by
  rcases adjust_cases done with dropped | rfl | ⟨spareLeases, -, -, rfl⟩
  · rcases drop_unused_cases dropped with ⟨rfl, -⟩ | ⟨chosen, -, ⟨-, rfl⟩ | ⟨-, rfl⟩⟩ <;> rfl
  · exact unmarked_cache
  · rcases claim_claimed (unmarked_good good) spareLeases with ⟨started, inquiry, claimed⟩
    rw [claimed.frame]
    exact unmarked_cache

/-! House keeping. -/

theorem adjust_there (sound : Sound cfg c) : ∃ after, adjustBlocks cfg env c = some after := by
  obtain ⟨num, counted⟩ := num_free_leases_there sound
  obtain ⟨unused, search⟩ := find_unused_there sound
  unfold adjustBlocks blockDropUnused
  simp only [counted, search, Option.bind_eq_bind, Option.bind_some, Option.map_some]
  split <;> exact ⟨_, rfl⟩

theorem packet_timeout_there (intact : Intact c) (now : Time) :
    ∃ after, dhcpPacketListTimeout now c = some after := by
  have whole : (c.dhcpPacketCache.filter fun cached => cached.timeout < now).all
      CachedPacket.intact = true :=
    List.all_eq_true.mpr fun cached member => intact cached (List.mem_filter.mp member).1
  exact ⟨_, by rw [dhcpPacketListTimeout, if_pos whole]⟩

theorem checked_cache {now : Time} (check : blockCheckTimeouts cfg now c = some after) :
    after.dhcpPacketCache = c.dhcpPacketCache := by
  obtain ⟨blocks, -, rfl⟩ := Option.map_eq_some_iff.mp check
  rfl

/-- House keeping drops the cached requests that are late. -/
theorem house_keeping_cache (good : Good cfg c) (done : houseKeeping cfg env c = some after) :
    after.dhcpPacketCache =
      c.dhcpPacketCache.filter fun cached => ¬ cached.timeout < env.now := by
  obtain ⟨checkedConfig, adjusted, check, checkedGood, adjust, adjustedGood, rfl⟩ :=
    house_keeping_splits good done
  rw [update_claims_cache adjustedGood.sound, adjust_cache checkedGood adjust, checked_cache check]

theorem house_keeping_there (good : Good cfg c) (intact : Intact c) :
    ∃ after, houseKeeping cfg env c = some after := by
  obtain ⟨checkedConfig, check⟩ : ∃ checkedConfig,
      blockCheckTimeouts cfg env.now c = some checkedConfig :=
    ⟨_, check_timeouts_checked good.sound env.now⟩
  obtain ⟨sound, quiet⟩ := check_timeouts_good good.sound check
  have checkedGood : Good cfg checkedConfig := ⟨sound, quiet_listed quiet good.listed⟩
  obtain ⟨adjusted, adjust⟩ : ∃ adjusted, adjustBlocks cfg env checkedConfig = some adjusted :=
    adjust_there sound
  have whole : Intact (blockUpdateClaims cfg env adjusted) := by
    rw [Intact, update_claims_cache (adjust_good checkedGood adjust).sound,
      adjust_cache checkedGood adjust, checked_cache check]
    exact intact
  obtain ⟨after, done⟩ := packet_timeout_there whole env.now
  refine ⟨after, ?_⟩
  simp only [houseKeeping, check, adjust, Option.bind_eq_bind, Option.bind_some, done]

theorem handle_intact {event : Event} (good : Good cfg c) (memory : Allocates env)
    (intact : Intact c) (done : handle cfg env event c = some after) : Intact after := by
  by_cases house : event = .houseKeeping
  · subst house
    have kept := house_keeping_cache good done
    intro entry member
    rw [kept] at member
    exact intact entry (List.mem_filter.mp member).1
  · rcases received_moves house done with ⟨packet, sender, moves⟩ | moves
    · rw [Intact, block_moves_cache good.sound moves]
      exact intact
    · exact lease_moves_intact memory intact moves

theorem handle_faults_iff (good : Good cfg c) (memory : Allocates env) (intact : Intact c)
    (event : Event) : handle cfg env event c = none ↔ StrayAck cfg env event c := by
  have elsewhere (other : ∀ buffer len sender, event ≠ .direct buffer len sender) :
      ¬ StrayAck cfg env event c := by
    rintro ⟨buffer, len, sender, -, -, same, -⟩
    exact other buffer len sender same
  have whole (other : ∀ buffer len sender, event ≠ .direct buffer len sender)
      (there : ∃ after, handle cfg env event c = some after) :
      handle cfg env event c = none ↔ StrayAck cfg env event c := by
    obtain ⟨after, done⟩ := there
    simp [done, elsewhere other]
  cases event with
  | direct buffer len sender => exact direct_faults_iff good.sound memory intact buffer len sender
  | houseKeeping =>
      have present : ∃ after, houseKeeping cfg env c = some after := house_keeping_there good intact
      exact whole (by simp) present
  | client packet => exact whole (by simp) (client_there good.sound memory packet)
  | mcast buffer len sender => exact whole (by simp) ⟨_, rfl⟩
  | control buffer len => exact whole (by simp) ⟨_, rfl⟩

end Accesses

theorem runs_intact {cfg : Settings} {labels : List (Env × Event)} {s : NodeState}
    (run : Runs cfg Allocates labels s) : Good cfg s.config ∧ Intact s.config := by
  obtain ⟨now, options, path⟩ := run
  refine path_invariant (fun s => Good cfg s.config ∧ Intact s.config) ?_ path
    ⟨start_good cfg now options, by simp [Intact, startConfig]⟩
  rintro s label t ⟨good, intact⟩ ⟨step, memory⟩
  refine ⟨step_good good step, ?_⟩
  cases step with
  | event _ _ _ done => exact handle_intact good memory intact done

/-- In every run the lease tables have their full length, and the next event is handled
without a fault unless it is a stray acknowledgement. -/
theorem leases_accessed_iff {cfg : Settings} {labels : List (Env × Event)} {s : NodeState}
    {env : Env} (run : Runs cfg Allocates labels s) (memory : Allocates env) (event : Event) :
    (∀ position table, (s.config.blocks position).addresses = some table →
      table.length = (s.config.blocks position).subnetLen.toNat) ∧
    (handle cfg env event s.config = none ↔ StrayAck cfg env event s.config) := by
  obtain ⟨good, intact⟩ := runs_intact run
  refine ⟨fun position table here => ?_, handle_faults_iff good memory intact event⟩
  exact (sound_full (good.sound position) here).2

/-! A stray acknowledgement. -/

-- Node 2 holds the block until 1061; the request of a client at 1002 is passed on to it.
-- House keeping at 1062 frees block and table, and the answer comes at 1063.
def strayRun : List (Env × Event) :=
  [(calmEnv 1001, smallClaim 2 60), (calmEnv 1002, .client (smallPacket 9 7 dhcpRequest)),
    (calmEnv 1062, .houseKeeping)]

theorem stray_run_ends : ∃ s : NodeState, Runs (smallNode 1) Allocates strayRun s ∧
    s.clock = 1062 ∧ handle (smallNode 1) (calmEnv 1063) (smallDirect msgLeaseAck 9 7) s.config = none := by
  have evaluated : (runEvents (smallNode 1) smallStart strayRun).any (fun s =>
      s.clock = 1062 ∧
        (handle (smallNode 1) (calmEnv 1063) (smallDirect msgLeaseAck 9 7) s.config).isNone) = true := by
    decide +kernel
  obtain ⟨s, run, facts⟩ := (Option.any_eq_true _ _).mp evaluated
  obtain ⟨clock, fault⟩ := of_decide_eq_true facts
  have memory : ∀ label ∈ strayRun, Allocates label.1 := by simp [strayRun, Allocates, calmEnv]
  exact ⟨s, small_runs memory run, clock, Option.isNone_iff_eq_none.mp fault⟩

theorem leases_accessed_iff_small : ∃ s : NodeState,
    StrayAck (smallNode 1) (calmEnv 1063) (smallDirect msgLeaseAck 9 7) s.config := by
  obtain ⟨s, run, -, fault⟩ := stray_run_ends
  exact ⟨s, (leases_accessed_iff run (fun _ => rfl) (smallDirect msgLeaseAck 9 7)).2.mp fault⟩

theorem stray_ack_faults : ∃ (labels : List (Env × Event)) (s : NodeState) (env : Env)
    (event : Event), Runs (smallNode 1) Allocates labels s ∧ s.clock ≤ env.now ∧ Allocates env ∧
    handle (smallNode 1) env event s.config = none := by
  obtain ⟨s, run, clock, fault⟩ := stray_run_ends
  exact ⟨strayRun, s, calmEnv 1063, smallDirect msgLeaseAck 9 7, run, by rw [clock]; decide, fun _ => rfl, fault⟩

end Ddhcpd.LeaseSafety

import Ddhcpd.HouseKeeping

/-!
Who may have an address. A lease that was acknowledged is bound to its client: it is not
given to another while it lasts, the block stays ours and the client does not release it.
A renewal for another node is not checked against the lease it prolongs, so it binds
only if the lease is registered to the client the renewal is for.
-/

namespace Ddhcpd.Exclusive
open Bytes Types Leases Blocks Options Packet Dhcp LeasePackets Node Path Relation Refresh
open LeaseMoves Invariant Calls HouseKeeping

/-- The lease of an address of a block of ours. -/
def leaseOf (cfg : Settings) (c : Config) (address : InAddr) : Option Lease :=
  let found := findLeaseFromAddress cfg c address
  if found.status = 0 then leaseAt (c.blocks found.block) found.lease else none

/-- The lease is the client's until then: it is leased, or offered under one of these
transactions. -/
def Bound (cfg : Settings) (address : InAddr) (chaddr : HwAddr) (ends : Time)
    (xids : UInt32 → Prop) (c : Config) : Prop :=
  ∃ lease, leaseOf cfg c address = some lease ∧ lease.chaddr = chaddr ∧ ends ≤ lease.leaseEnd ∧
    (lease.state = .leased ∨ lease.state = .offered ∧ xids lease.xid)

/-- The client gives the address back. -/
def GivesBack (address : InAddr) (chaddr : HwAddr) (event : Event) : Prop :=
  ∃ packet, event = .client packet ∧ messageType packet = dhcpRelease ∧
    packet.ciaddr = address ∧ packet.chaddr = chaddr

/-- A request for the address under one of the transactions comes from the client. -/
def Unmixed (address : InAddr) (chaddr : HwAddr) (xids : UInt32 → Prop) (event : Event) : Prop :=
  ∀ request, event = .client request → messageType request = dhcpRequest →
    requestedAddress request = some address → xids request.xid → request.chaddr = chaddr

section Lookup
variable {cfg : Settings} {env : Env} {event : Event} {c after : Config} {address : InAddr}
  {position index : Nat} {lease : Lease}

theorem lease_of_iff : leaseOf cfg c address = some lease ↔ ∃ position index,
    findLeaseFromAddress cfg c address = ⟨0, position, index⟩ ∧
      leaseAt (c.blocks position) index = some lease := by
  unfold leaseOf
  constructor
  · intro known
    simp only [Option.ite_none_right_eq_some] at known
    exact ⟨_, _, by rw [← known.1], known.2⟩
  · rintro ⟨position, index, place, entry⟩
    simp [place, entry]

/-- The lookup tells addresses of the network apart. -/
theorem find_lease_injective {first second : InAddr} {status : Nat} (known : status ≠ 2)
    (one : findLeaseFromAddress cfg c first = ⟨status, position, index⟩)
    (two : findLeaseFromAddress cfg c second = ⟨status, position, index⟩) : first = second := by
  have number (addr : InAddr)
      (place : findLeaseFromAddress cfg c addr = ⟨status, position, index⟩) :
      (addr - cfg.prefixAddr).toNat = cfg.blockSize.toNat * position + index := by
    unfold findLeaseFromAddress at place
    simp only at place
    split at place
    · simp only [LeaseLookup.mk.injEq] at place
      rcases place with ⟨-, rfl, rfl⟩
      exact (Nat.div_add_mod _ _).symm
    · simp only [LeaseLookup.mk.injEq] at place
      exact absurd place.1.symm known
  have offset : first - cfg.prefixAddr = second - cfg.prefixAddr :=
    UInt32.toNat_inj.mp ((number first one).trans (number second two).symm)
  calc first = first - cfg.prefixAddr + cfg.prefixAddr := by rw [UInt32.sub_add_cancel]
    _ = second - cfg.prefixAddr + cfg.prefixAddr := by rw [offset]
    _ = second := by rw [UInt32.sub_add_cancel]

/-- The address of a reply leads back to its lease. -/
theorem find_lease_add (inside : position < cfg.blocks) (below : index < cfg.blockSize.toNat) :
    findLeaseFromAddress cfg c
        (addrAdd (addrAdd cfg.prefixAddr (position * cfg.blockSize.toNat)) index) =
      ⟨if (c.blocks position).state = .ours then 0 else 1, position, index⟩ := by
  have room : position * cfg.blockSize.toNat + index < 2 ^ 32 := by
    have fits := cfg.network_fits
    have step : (position + 1) * cfg.blockSize.toNat ≤ cfg.blocks * cfg.blockSize.toNat :=
      Nat.mul_le_mul_right _ inside
    have next : (position + 1) * cfg.blockSize.toNat =
        position * cfg.blockSize.toNat + cfg.blockSize.toNat := Nat.succ_mul _ _
    have same : cfg.blocks * cfg.blockSize.toNat =
        cfg.numberOfBlocks.toNat * cfg.blockSize.toNat := rfl
    omega
  have offset : (addrAdd (addrAdd cfg.prefixAddr (position * cfg.blockSize.toNat)) index -
      cfg.prefixAddr).toNat = position * cfg.blockSize.toNat + index := by
    have sum : addrAdd (addrAdd cfg.prefixAddr (position * cfg.blockSize.toNat)) index -
        cfg.prefixAddr = UInt32.ofNat (position * cfg.blockSize.toNat + index) := by
      rw [addrAdd, addrAdd, UInt32.add_assoc, UInt32.add_comm cfg.prefixAddr,
        UInt32.add_sub_cancel, UInt32.ofNat_add]
    rw [sum, UInt32.toNat_ofNat', Nat.mod_eq_of_lt room]
  have block : (position * cfg.blockSize.toNat + index) / cfg.blockSize.toNat = position := by
    rw [Nat.add_comm, Nat.add_mul_div_right _ _ cfg.size_pos, Nat.div_eq_of_lt below, Nat.zero_add]
  have rest : (position * cfg.blockSize.toNat + index) % cfg.blockSize.toNat = index := by
    rw [Nat.add_comm, Nat.add_mul_mod_self_right, Nat.mod_eq_of_lt below]
  simp [findLeaseFromAddress, offset, block, rest, inside]

theorem entry_below (sound : Sound cfg c) {lease : Lease}
    (entry : leaseAt (c.blocks position) index = some lease) : index < cfg.blockSize.toNat := by
  rcases Option.bind_eq_some_iff.mp entry with ⟨table, here, inside⟩
  rw [← (sound position).table table here]
  exact (List.getElem?_eq_some_iff.mp inside).1

/-- The entry the lookup finds stands for the address. -/
theorem find_lease_address (sound : Sound cfg c)
    (known : (findLeaseFromAddress cfg c address).status ≠ 2) :
    addrAdd (c.blocks (findLeaseFromAddress cfg c address).block).subnet
      (findLeaseFromAddress cfg c address).lease = address := by
  have inside := find_lease_inside known
  have below : (findLeaseFromAddress cfg c address).lease < cfg.blockSize.toNat :=
    find_lease_index address
  have back := find_lease_add (c := c) inside below
  rw [← (sound _).subnet] at back
  have same : (if (c.blocks (findLeaseFromAddress cfg c address).block).state = .ours then 0 else 1) =
      (findLeaseFromAddress cfg c address).status := by
    unfold findLeaseFromAddress at known ⊢
    simp only at known ⊢
    split at known
    · rename_i member
      simp [member]
    · contradiction
  rw [same] at back
  exact find_lease_injective known back rfl

theorem lease_of_congr (states : ∀ position,
      (after.blocks position).state = (c.blocks position).state)
    (tables : ∀ position, (after.blocks position).state = .ours →
      (after.blocks position).addresses = (c.blocks position).addresses) :
    leaseOf cfg after address = leaseOf cfg c address := by
  unfold leaseOf
  rw [find_lease_congr address states]
  by_cases ours : (findLeaseFromAddress cfg c address).status = 0
  · have own := (find_lease_ours ours).2
    simp only [ours, ↓reduceIte, leaseAt, tables _ ((states _).trans own)]
  · simp [ours]

theorem lease_of_put {old : Lease} (entry : leaseAt (c.blocks position) index = some old)
    (changed : Lease) :
    leaseOf cfg (c.setBlock position (putLease (c.blocks position) index changed)) address =
      if findLeaseFromAddress cfg c address = ⟨0, position, index⟩ then some changed
      else leaseOf cfg c address := by
  unfold leaseOf
  rw [find_lease_congr address fun other => put_lease_state position index other changed]
  rcases place : findLeaseFromAddress cfg c address with ⟨status, block, number⟩
  simp only [LeaseLookup.mk.injEq]
  by_cases ours : status = 0
  · by_cases here : block = position
    · subst here
      by_cases same : number = index
      · subst same
        simp [ours, lease_at_put entry]
      · simp [ours, same, lease_at_put_other same]
    · simp [ours, here, set_block_other]
  · simp [ours]

end Lookup

/-! What one event does to a bound lease. -/

section Events
variable {cfg : Settings} {env : Env} {event : Event} {c after : Config} {address : InAddr}
  {chaddr : HwAddr} {ends : Time} {xids : UInt32 → Prop}

theorem bound_congr (bound : Bound cfg address chaddr ends xids c)
    (same : leaseOf cfg after address = leaseOf cfg c address) :
    Bound cfg address chaddr ends xids after := by
  rw [Bound, same]
  exact bound

/-- A request that is granted a bound lease comes from its client. -/
theorem granted_client {request : DhcpPacket} {position index : Nat} {lease : Lease}
    (held : lease.state = .leased ∨ lease.state = .offered ∧ xids lease.xid)
    (unmixed : Unmixed address lease.chaddr xids (.client request))
    (kind : messageType request = dhcpRequest)
    (place : findLeaseFromAddress cfg c address = ⟨0, position, index⟩)
    (grants : Grants cfg c request position index lease) : request.chaddr = lease.chaddr := by
  rcases grants with offered | ⟨may, named, requested, there⟩
  · simp only [isOffered, decide_eq_true_eq] at offered
    exact offered.2.2
  · rw [find_lease_injective (by decide) there place] at requested
    simp only [mayAcknowledge, decide_eq_true_eq] at may
    rcases may with ⟨offered, same⟩ | client | free
    · rcases held with leased | ⟨-, known⟩
      · rw [leased] at offered
        contradiction
      · exact unmixed request rfl kind requested (same ▸ known)
    · exact client
    · rcases held with leased | ⟨offered, -⟩
      · rw [leased] at free
        contradiction
      · rw [offered] at free
        contradiction

theorem bound_write {position index : Nat} {lease changed : Lease}
    (bound : Bound cfg address chaddr ends xids c)
    (entry : leaseAt (c.blocks position) index = some lease)
    (later : ends ≤ leaseEndFrom env c) (kept : ¬ GivesBack address chaddr event)
    (unmixed : Unmixed address chaddr xids event)
    (write : LeaseWrite cfg env event c position index lease changed) :
    Bound cfg address chaddr ends xids
      (c.setBlock position (putLease (c.blocks position) index changed)) := by
  have written : leaseOf cfg (c.setBlock position (putLease (c.blocks position) index changed))
      address = _ := lease_of_put entry changed
  by_cases here : findLeaseFromAddress cfg c address = ⟨0, position, index⟩
  · rw [if_pos here] at written
    rcases bound with ⟨old, known, rfl, late, held⟩
    rcases lease_of_iff.mp known with ⟨block, number, place, there⟩
    have own : (c.blocks position).state = .ours := by
      have ours := (find_lease_ours (congrArg LeaseLookup.status here)).2
      rwa [here] at ours
    rw [here] at place
    cases place
    obtain rfl : old = lease := Option.some.inj (there.symm.trans entry)
    refine ⟨changed, written, ?_⟩
    cases write with
    | offered _ _ _ free =>
        rcases held with leased | ⟨offered, -⟩
        · rw [leased] at free
          contradiction
        · rw [offered] at free
          contradiction
    | granted is_client kind _ grants =>
        subst is_client
        exact ⟨granted_client held unmixed kind here grants, later, .inl rfl⟩
    | forwarded _ _ claimed =>
        rw [own] at claimed
        contradiction
    | relayed _ foreign => exact absurd own foreign
    | renewed => exact ⟨rfl, later, held⟩
    | released is_client kind there same =>
        exact absurd ⟨_, is_client, kind, find_lease_injective (by decide) there here, same⟩ kept
  · rw [if_neg here] at written
    exact bound_congr bound written

theorem lease_move_options (move : LeaseMove cfg env event c after)
    (other : ∀ buffer len, event ≠ .control buffer len) : after.options = c.options := by
  cases move with
  | store control =>
      rcases control with ⟨buffer, len, same⟩
      exact absurd same (other buffer len)
  | write => rfl
  | allocate => rfl
  | unmark => rfl
  | cache => rfl
  | send => rfl

theorem lease_moves_options (moves : LeaseMoves.Moves cfg env event c after)
    (other : ∀ buffer len, event ≠ .control buffer len) : after.options = c.options := by
  induction moves with
  | refl => rfl
  | tail _ move ih => exact (lease_move_options move other).trans ih

theorem write_uncontrolled {position index : Nat} {lease changed : Lease}
    (write : LeaseWrite cfg env event c position index lease changed) :
    ∀ buffer len, event ≠ .control buffer len := by
  rintro buffer len rfl
  cases write with
  | offered same => cases same
  | granted same => cases same
  | forwarded same => cases same
  | relayed direct =>
      rcases direct with ⟨_, _, _, same⟩
      cases same
  | renewed direct =>
      rcases direct with ⟨_, _, _, same⟩
      cases same
  | released same => cases same

theorem bound_lease_moves (bound : Bound cfg address chaddr ends xids c)
    (later : ends ≤ leaseEndFrom env c) (kept : ¬ GivesBack address chaddr event)
    (unmixed : Unmixed address chaddr xids event)
    (moves : LeaseMoves.Moves cfg env event c after) :
    Bound cfg address chaddr ends xids after := by
  induction moves with
  | refl => exact bound
  | tail front move ih =>
      have states := lease_frame_state (lease_move_frame move)
      cases move with
      | write _ entry write =>
          have options := lease_moves_options front (write_uncontrolled write)
          refine bound_write ih entry ?_ kept unmixed write
          rw [leaseEndFrom, options]
          exact later
      | allocate _ claimed =>
          refine bound_congr ih (lease_of_congr states fun other own => ?_)
          rw [set_block_apply] at own ⊢
          split at own
          · rw [block_alloc_state, claimed] at own
            contradiction
          · rename_i elsewhere
            rw [if_neg elsewhere]
      | unmark =>
          refine bound_congr ih (lease_of_congr states fun other _ => ?_)
          apply set_block_addresses
          rfl
      | cache => exact ih
      | store => exact ih
      | send => exact ih

/-! A whole event. -/

/-- If the lease is offered, a request for its address under the transaction of the offer
comes from its client. -/
def Fair (cfg : Settings) (c : Config) (address : InAddr) (event : Event) : Prop :=
  ∀ lease, leaseOf cfg c address = some lease → lease.state = .offered →
    Unmixed address lease.chaddr (fun xid => xid = lease.xid) event

theorem find_lease_elsewhere {position index : Nat}
    (place : findLeaseFromAddress cfg c address = ⟨0, position, index⟩) (other : Config) :
    findLeaseFromAddress cfg other address =
      ⟨if (other.blocks position).state = .ours then 0 else 1, position, index⟩ := by
  unfold findLeaseFromAddress at place ⊢
  simp only at place ⊢
  split at place
  · rename_i inside
    simp only [LeaseLookup.mk.injEq] at place
    rcases place with ⟨-, rfl, rfl⟩
    rw [if_pos inside]
  · simp at place

theorem bound_mono {wider : UInt32 → Prop} (bound : Bound cfg address chaddr ends xids c)
    (weaken : ∀ xid, xids xid → wider xid) : Bound cfg address chaddr ends wider c := by
  rcases bound with ⟨lease, known, client, late, held⟩
  exact ⟨lease, known, client, late, held.imp_right fun offered =>
    ⟨offered.1, weaken lease.xid offered.2⟩⟩

theorem bound_moves (bound : Bound cfg address chaddr ends xids c)
    (later : ends ≤ leaseEndFrom env c) (kept : ¬ GivesBack address chaddr event)
    (fair : Fair cfg c address event) (moves : LeaseMoves.Moves cfg env event c after) :
    Bound cfg address chaddr ends xids after := by
  rcases bound with ⟨lease, known, rfl, late, leased | offered⟩
  · -- a lease that is leased already is not taken ended under any transaction
    have firm : Bound cfg address lease.chaddr ends (fun _ => False) c :=
      ⟨lease, known, rfl, late, .inl leased⟩
    apply bound_mono (bound_lease_moves firm later kept (fun _ _ _ _ none => none.elim) moves)
    exact fun _ none => none.elim
  · have own : Bound cfg address lease.chaddr ends (fun xid => xid = lease.xid) c :=
      ⟨lease, known, rfl, late, .inr ⟨offered.1, rfl⟩⟩
    apply bound_mono (bound_lease_moves own later kept (fair lease known offered.1) moves)
    rintro xid rfl
    exact offered.2

/-- The lease stays bound while it lasts and the block stays ours. -/
theorem bound_event (good : Good cfg c) (bound : Bound cfg address chaddr ends xids c)
    (live : env.now ≤ ends) (later : ends ≤ leaseEndFrom env c)
    (kept : ¬ GivesBack address chaddr event) (fair : Fair cfg c address event)
    (done : handle cfg env event c = some after)
    (still : (findLeaseFromAddress cfg after address).status = 0) :
    Bound cfg address chaddr ends xids after := by
  by_cases house : event = .houseKeeping
  · subst house
    rcases bound with ⟨lease, known, client, late, held⟩
    rcases lease_of_iff.mp known with ⟨position, index, place, entry⟩
    have ours := find_lease_ours (congrArg LeaseLookup.status place)
    rw [place] at ours
    have own := (find_lease_ours still).2
    rw [find_lease_elsewhere place after] at own still
    have table := house_keeping_table good ours done own
    have unexpired : Lease.expired env.now lease = lease := by
      have early : ¬ lease.leaseEnd < env.now := Nat.not_lt_of_le (Nat.le_trans live late)
      simp [Lease.expired, early]
    refine ⟨lease, lease_of_iff.mpr ⟨position, index, ?_, ?_⟩, client, late, held⟩
    · rw [find_lease_elsewhere place after, if_pos own]
    · rcases Option.bind_eq_some_iff.mp entry with ⟨entries, here, inside⟩
      simp [leaseAt, table, here, inside, unexpired]
  · rcases received_moves house done with ⟨packet, sender, moves⟩ | moves
    · rcases bound with ⟨lease, known, rest⟩
      rcases lease_of_iff.mp known with ⟨position, index, place, entry⟩
      have own := (find_lease_ours still).2
      rw [find_lease_elsewhere place after] at own
      refine ⟨lease, lease_of_iff.mpr ⟨position, index, ?_, ?_⟩, rest⟩
      · rw [find_lease_elsewhere place after, if_pos own]
      · rw [leaseAt, block_moves_addresses good.sound moves]
        exact entry
    · exact bound_moves bound later kept fair moves

/-! What the event sends. -/

theorem sent_during (moves : LeaseMoves.Moves cfg env event c after) {output : Output}
    (member : output ∈ sent c after) :
    ∃ middle, LeaseMoves.Moves cfg env event c middle ∧ Sends cfg env event middle output ∧
      LeaseMoves.Moves cfg env event middle after := by
  suffices traced : Emits (fun output => ∃ middle, LeaseMoves.Moves cfg env event c middle ∧
      Sends cfg env event middle output ∧ LeaseMoves.Moves cfg env event middle after) c after from
    emits_sent traced member
  clear member
  induction moves with
  | refl => exact emits_same rfl
  | @tail middle last front move ih =>
      have further : Emits (fun output => ∃ between, LeaseMoves.Moves cfg env event c between ∧
          Sends cfg env event between output ∧ LeaseMoves.Moves cfg env event between last)
          c middle := by
        apply emits_mono ih
        rintro output ⟨between, before, sends, rest⟩
        exact ⟨between, before, sends, rest.tail move⟩
      apply emits_trans further
      cases move with
      | send sends =>
          refine ⟨[_], rfl, fun output member => ?_⟩
          rw [List.mem_singleton.mp member]
          exact ⟨middle, front, sends, .single (.send sends)⟩
      | write => exact emits_same rfl
      | allocate => exact emits_same rfl
      | unmark => exact emits_same rfl
      | cache => exact emits_same rfl
      | store => exact emits_same rfl

/-- What is sent to one node or client is sent by a move of the lease handlers. -/
theorem private_sent (good : Good cfg c) (done : handle cfg env event c = some after)
    {output : Output} (member : output ∈ sent c after) (personal : ¬ multicast output) :
    ∃ middle, LeaseMoves.Moves cfg env event c middle ∧ Sends cfg env event middle output ∧
      LeaseMoves.Moves cfg env event middle after := by
  by_cases house : event = .houseKeeping
  · subst house
    exact absurd (emits_sent (house_keeping_emits good done) member) personal
  · rcases received_moves house done with ⟨packet, sender, moves⟩ | moves
    · have claim := emits_sent (block_moves_emit good.sound moves) member
      exact absurd (announces_multicast output claim) personal
    · exact sent_during moves member

end Events

/-! Replies and answers, and the leases they are about. -/

/-- In the event the client gets a reply for the address, not as the answer to an inform. -/
def Replies (type : UInt8) (address : InAddr) (chaddr : HwAddr) (event : Event)
    (c after : Config) : Prop :=
  ¬ informs event ∧ ∃ reply got, .dhcp type reply got ∈ sent c after ∧
    reply.yiaddr = address ∧ reply.chaddr = chaddr

/-- In the event a renewal of the address for the client is answered positively. -/
def Acknowledges (cfg : Settings) (env : Env) (address : InAddr) (chaddr : HwAddr)
    (event : Event) (c after : Config) : Prop :=
  ∃ request answer dest, Receives cfg env event request ∧ request.command = msgRenewLease ∧
    rawAddress cfg request.renewPayload.address = address ∧
    request.renewPayload.chaddr = chaddr ∧
    .direct answer dest ∈ sent c after ∧ answer.command = msgLeaseAck

section Answers
variable {cfg : Settings} {env : Env} {event : Event} {c after : Config} {address : InAddr}
  {chaddr other : HwAddr} {ends : Time} {xids : UInt32 → Prop} {type : UInt8}

theorem replies_keep (replies : repliesTo event) : ¬ GivesBack address chaddr event := by
  rintro ⟨packet, same, release, -⟩
  rcases replies with ⟨_, _, _, direct⟩ | ⟨_, client, type⟩
  · rw [direct] at same
    cases same
  · rw [client] at same
    cases same
    exact type release

theorem replies_uncontrolled (replies : repliesTo event) :
    ∀ buffer len, event ≠ .control buffer len := by
  rintro buffer len rfl
  rcases replies with ⟨_, _, _, direct⟩ | ⟨_, client, -⟩
  · cases direct
  · cases client

theorem replied_lease (good : Good cfg c) (done : handle cfg env event c = some after)
    (owns : (findLeaseFromAddress cfg c address).status = 0)
    (kind : type = dhcpOffer ∨ type = dhcpAck)
    (replied : Replies type address chaddr event c after) :
    repliesTo event ∧ ∃ middle lease, LeaseMoves.Moves cfg env event c middle ∧
      LeaseMoves.Moves cfg env event middle after ∧ leaseOf cfg middle address = some lease ∧
      lease.chaddr = chaddr ∧
      (type = dhcpAck → lease.state = .leased ∧ lease.leaseEnd = leaseEndFrom env middle) := by
  rcases replied with ⟨uninformed, reply, got, member, rfl, rfl⟩
  rcases private_sent good done member id with ⟨middle, before, sends, rest⟩
  rcases sends with nak | informed | ⟨replies, registered⟩
  · rcases kind with rfl | rfl <;> exact absurd nak (by decide)
  · exact absurd informed uninformed
  · refine ⟨replies, middle, ?_⟩
    rcases registered with ⟨position, index, lease, inside, entry, named, client, granted⟩
    have sound := lease_moves_sound good.sound before
    have place := find_lease_add (c := middle) inside (entry_below sound entry)
    rw [← (sound position).subnet, ← named] at place
    have states := lease_frame_state (lease_moves_frame before)
    rw [← find_lease_congr _ states] at owns
    have own := (find_lease_ours owns).2
    rw [place] at own
    rw [if_pos own] at place
    refine ⟨lease, before, rest, lease_of_iff.mpr ⟨position, index, place, entry⟩, client, ?_⟩
    intro ack
    rcases granted with ⟨offer, -⟩ | ⟨-, leased⟩
    · rw [ack] at offer
      exact absurd offer (by decide)
    · exact leased

theorem acknowledged_lease (good : Good cfg c) (done : handle cfg env event c = some after)
    (acknowledged : Acknowledges cfg env address chaddr event c after) :
    isDirect event ∧ ∃ middle lease, LeaseMoves.Moves cfg env event c middle ∧
      LeaseMoves.Moves cfg env event middle after ∧ leaseOf cfg middle address = some lease ∧
      lease.leaseEnd = leaseEndFrom env middle := by
  rcases acknowledged with ⟨request, answer, dest, received, -, rfl, -, member, command⟩
  rcases private_sent good done member id with ⟨middle, before, sends, rest⟩
  rcases received with ⟨buffer, len, sender, rfl, decoded, ofSwarm⟩
  refine ⟨⟨buffer, len, sender, rfl⟩, middle, ?_⟩
  rcases sends with renew | nak | ⟨-, renewed, request', ⟨_, _, _, same, decoded', -⟩, -, payload⟩
  · exact absurd (renew.symm.trans command) (by decide)
  · exact absurd (nak.symm.trans command) (by decide)
  · cases same
    obtain rfl : request = request' := Option.some.inj (decoded.symm.trans decoded')
    rcases renewed with ⟨position, index, lease, place, entry, ends⟩
    rw [payload] at place
    exact ⟨lease, before, rest, lease_of_iff.mpr ⟨position, index, place, entry⟩, ends⟩

/-- While the lease is bound nobody else gets a reply for its address. -/
theorem bound_replies (good : Good cfg c) (bound : Bound cfg address chaddr ends xids c)
    (later : ends ≤ leaseEndFrom env c) (fair : Fair cfg c address event)
    (done : handle cfg env event c = some after) (kind : type = dhcpOffer ∨ type = dhcpAck)
    (replied : Replies type address other event c after) : other = chaddr := by
  have owns : (findLeaseFromAddress cfg c address).status = 0 := by
    rcases bound with ⟨_, known, -⟩
    rcases lease_of_iff.mp known with ⟨position, index, place, -⟩
    rw [place]
  rcases replied_lease good done owns kind replied with ⟨replies, middle, lease, before, -, known,
    client, -⟩
  rcases bound_moves bound later (replies_keep replies) fair before with ⟨same, there, owner, -⟩
  obtain rfl : lease = same := Option.some.inj (known.symm.trans there)
  exact client.symm.trans owner

end Answers

/-! Runs in which the block stays ours. -/

/-- Option 51 of the store is present, and this many seconds is how long a lease lasts. -/
def LeaseTime (seconds : UInt32) (c : Config) : Prop :=
  ∃ option, findInOptionStore c.options codeAddressLeaseTime = some option ∧ option.len = 4 ∧
    option.payload.length = 4 ∧ word32At option.payload 0 = seconds

/-- A step that leaves block and lease time as they are and does not release the lease. -/
def HoldingStep (cfg : Settings) (seconds : UInt32) (address : InAddr) (chaddr : HwAddr)
    (s : NodeState) (label : Env × Event) (t : NodeState) : Prop :=
  Step cfg s label t ∧ LeaseTime seconds t.config ∧
    (findLeaseFromAddress cfg t.config address).status = 0 ∧ ¬ GivesBack address chaddr label.2

section Runs
variable {cfg : Settings} {seconds : UInt32} {address : InAddr} {chaddr other : HwAddr}
  {xids : UInt32 → Prop} {granted : Time} {s t last : NodeState} {env : Env} {event : Event}
  {labels : List (Env × Event)}

theorem lease_time_end {c : Config} (lasts : LeaseTime seconds c) (env : Env) :
    leaseEndFrom env c = env.now + seconds.toNat + dhcpLeaseServerDelta := by
  rcases lasts with ⟨option, found, len, size, rfl⟩
  have there : option.payload ≠ [] := by
    intro empty
    simp [empty] at size
  simp [leaseEndFrom, findInOptionStoreAddressLeaseTime, found, len, there]

theorem lease_time_later {c : Config} (lasts : LeaseTime seconds c) (later : granted ≤ env.now) :
    granted + seconds.toNat ≤ leaseEndFrom env c := by
  rw [lease_time_end lasts]
  exact Nat.le_trans (Nat.add_le_add_right later _) (Nat.le_add_right _ _)

theorem step_clock {label : Env × Event} (step : Step cfg s label t) :
    s.clock ≤ t.clock ∧ t.clock = label.1.now := by
  cases step with
  | event _ _ later _ => exact ⟨later, rfl⟩

/-- A bound lease stays bound along a path that holds the block. -/
theorem bound_path {narrow : NodeState → Env × Event → NodeState → Prop}
    (holding : ∀ s l t, narrow s l t → HoldingStep cfg seconds address chaddr s l t)
    (fair : ∀ s l t, narrow s l t →
      Bound cfg address chaddr (granted + seconds.toNat) xids s.config →
      Fair cfg s.config address l.2)
    (path : Path narrow s labels t) (good : Good cfg s.config) (lasts : LeaseTime seconds s.config)
    (start : granted ≤ s.clock) (live : t.clock ≤ granted + seconds.toNat)
    (bound : Bound cfg address chaddr (granted + seconds.toNat) xids s.config) :
    Good cfg t.config ∧ LeaseTime seconds t.config ∧ granted ≤ t.clock ∧
      Bound cfg address chaddr (granted + seconds.toNat) xids t.config := by
  have clock : ∀ {s labels t}, Path narrow s labels t → s.clock ≤ t.clock := by
    intro s labels t path
    induction path with
    | refl => exact Nat.le_refl _
    | next move _ ih => exact Nat.le_trans (step_clock (holding _ _ _ move).1).1 ih
  induction path with
  | refl => exact ⟨good, lasts, start, bound⟩
  | next move rest ih =>
      rcases holding _ _ _ move with ⟨step, lasts', owns, kept⟩
      have fairly := fair _ _ _ move bound
      have middle := clock rest
      refine ih (step_good good step) lasts' (Nat.le_trans start (step_clock step).1) live ?_
      cases step with
      | event env event later done =>
          exact bound_event good bound (Nat.le_trans middle live)
            (lease_time_later lasts (Nat.le_trans start later)) kept fairly done owns

theorem leased_fair {c : Config} {ends : Time}
    (bound : Bound cfg address chaddr ends (fun _ => False) c) : Fair cfg c address event := by
  intro lease known offered
  rcases bound with ⟨same, there, -, -, leased | ⟨-, none⟩⟩
  · obtain rfl : lease = same := Option.some.inj (known.symm.trans there)
    rw [offered] at leased
    contradiction
  · exact none.elim

theorem acknowledged_lease_exclusive {first : NodeState} {env' : Env} {event' : Event}
    {type : UInt8} (reached : Reachable cfg first) (lasts : LeaseTime seconds first.config)
    (owns : (findLeaseFromAddress cfg first.config address).status = 0)
    (granting : Step cfg first (env, event) s)
    (acked : Replies dhcpAck address chaddr event first.config s.config)
    (held : Path (HoldingStep cfg seconds address chaddr) s labels t)
    (later : Step cfg t (env', event') last) (early : env'.now < env.now + seconds.toNat)
    (kind : type = dhcpOffer ∨ type = dhcpAck)
    (replied : Replies type address other event' t.config last.config) : other = chaddr := by
  have good := reachable_good reached
  have reachedGood := step_good good granting
  have clock := (step_clock granting).2
  have bound : LeaseTime seconds s.config ∧
      Bound cfg address chaddr (env.now + seconds.toNat) (fun _ => False) s.config := by
    cases granting with
    | event _ _ _ done =>
        rcases replied_lease good done owns (.inr rfl) acked with ⟨replies, middle, lease, before,
          rest, known, client, granted⟩
        have options := lease_moves_options before (replies_uncontrolled replies)
        have optionsThen := lease_moves_options rest (replies_uncontrolled replies)
        have lastsThen : LeaseTime seconds middle := by
          rw [LeaseTime, options]
          exact lasts
        have ends := lease_time_later lastsThen (Nat.le_refl env.now)
        rcases granted rfl with ⟨leased, lease_end⟩
        have there : Bound cfg address chaddr (env.now + seconds.toNat) (fun _ => False) middle :=
          ⟨lease, known, client, lease_end ▸ ends, .inl leased⟩
        refine ⟨?_, bound_moves there ends (replies_keep replies) (leased_fair there) rest⟩
        rw [LeaseTime, optionsThen]
        exact lastsThen
  have live : t.clock ≤ env.now + seconds.toNat := by
    have before := step_clock later
    exact Nat.le_of_lt (Nat.lt_of_le_of_lt (Nat.le_trans before.1 (Nat.le_of_eq before.2)) early)
  rcases bound_path (fun _ _ _ move => move) (fun _ _ _ _ bound => leased_fair bound) held
    reachedGood bound.1 (Nat.le_of_eq clock.symm) live bound.2 with ⟨good, lasts, passed, bound⟩
  cases later with
  | event _ _ later done =>
      exact bound_replies good bound (lease_time_later lasts (Nat.le_trans passed later))
        (leased_fair bound) done kind replied

/-! Renewals. -/

/-- The step makes up for what the handlers do not check: a renewal for the address is for
the client its lease is registered to, and so is a request that meets an offer of it. -/
structure Vetted (cfg : Settings) (env : Env) (event : Event) (c : Config) (address : InAddr) :
    Prop where
  renewal : ∀ request lease, Receives cfg env event request → request.command = msgRenewLease →
    rawAddress cfg request.renewPayload.address = address →
    leaseOf cfg c address = some lease →
    lease.state ≠ .free ∧ lease.chaddr = request.renewPayload.chaddr
  request : Fair cfg c address event

/-- What a renewal that was answered positively keeps the node from. -/
structure Binding (cfg : Settings) (env : Env) (event : Event) (address : InAddr)
    (chaddr : HwAddr) (c after : Config) : Prop where
  replies : ∀ type other, type = dhcpOffer ∨ type = dhcpAck →
    Replies type address other event c after → other = chaddr
  renewals : ∀ other, Acknowledges cfg env address other event c after → other = chaddr
  taken : ∃ lease, leaseOf cfg c address = some lease ∧ lease.state ≠ .free ∧
    lease.chaddr = chaddr

theorem bound_taken {c : Config} {ends : Time} (bound : Bound cfg address chaddr ends xids c) :
    ∃ lease, leaseOf cfg c address = some lease ∧ lease.state ≠ .free ∧ lease.chaddr = chaddr := by
  rcases bound with ⟨lease, known, client, -, held⟩
  refine ⟨lease, known, fun free => ?_, client⟩
  rcases held with leased | ⟨offered, -⟩
  · rw [free] at leased
    contradiction
  · rw [free] at offered
    contradiction

theorem direct_fair {c : Config} (direct : isDirect event) : Fair cfg c address event := by
  rintro _ _ _ request rfl
  rcases direct with ⟨_, _, _, same⟩
  cases same

/-- The lease a vetted renewal finds is that of the client, and it is bound from then on. -/
theorem acknowledged_bound {c after : Config} (good : Good cfg c) (lasts : LeaseTime seconds c)
    (vetted : Vetted cfg env event c address) (done : handle cfg env event c = some after)
    (answered : Acknowledges cfg env address chaddr event c after) :
    LeaseTime seconds after ∧
      (∃ lease, leaseOf cfg c address = some lease ∧ lease.state ≠ .free ∧ lease.chaddr = chaddr) ∧
      Bound cfg address chaddr (env.now + seconds.toNat) (fun _ => True) after := by
  rcases acknowledged_lease good done answered with ⟨direct, middle, lease, before, rest, known,
    ends⟩
  rcases answered with ⟨request, -, -, received, kind, named, rfl, -⟩
  have replies : repliesTo event := .inl direct
  have options := lease_moves_options before (replies_uncontrolled replies)
  have optionsThen := lease_moves_options rest (replies_uncontrolled replies)
  have first : ∃ old, leaseOf cfg c address = some old := by
    rcases lease_of_iff.mp known with ⟨position, index, place, entry⟩
    rw [find_lease_congr _ (lease_frame_state (lease_moves_frame before))] at place
    have own := find_lease_ours (congrArg LeaseLookup.status place)
    rw [place] at own
    rcases sound_own_full (good.sound position) own.2 with ⟨table, full⟩
    have size : index < table.length := by
      rw [(good.sound position).table table full.1]
      exact entry_below (lease_moves_sound good.sound before) entry
    exact ⟨table[index], lease_of_iff.mpr ⟨position, index, place, by
      rw [lease_at_full full, List.getElem?_eq_getElem size]⟩⟩
  rcases first with ⟨old, there⟩
  rcases vetted.renewal request old received kind named there with ⟨busy, client⟩
  have held : old.state = .leased ∨ old.state = .offered ∧ True := by
    cases state : old.state with
    | free => exact absurd state busy
    | offered => exact .inr ⟨rfl, trivial⟩
    | leased => exact .inl rfl
  have start : Bound cfg address request.renewPayload.chaddr 0 (fun _ => True) c :=
    ⟨old, there, client, Nat.zero_le _, held⟩
  rcases bound_moves start (Nat.zero_le _) (replies_keep replies) (direct_fair direct) before with
    ⟨same, same_known, owner, -, state⟩
  obtain rfl : lease = same := Option.some.inj (known.symm.trans same_known)
  have lastsThen : LeaseTime seconds middle := by
    rw [LeaseTime, options]
    exact lasts
  have later := lease_time_later lastsThen (Nat.le_refl env.now)
  refine ⟨by rw [LeaseTime, optionsThen]; exact lastsThen, ⟨old, there, busy, client⟩, ?_⟩
  exact bound_moves ⟨lease, known, owner, ends ▸ later, state⟩ later (replies_keep replies)
    (direct_fair direct) rest

/-- In a run whose steps are vetted a positive answer to a renewal binds the node. -/
theorem vetted_renewal_binding {first : NodeState} {env' : Env} {event' : Event}
    (reached : Reachable cfg first) (lasts : LeaseTime seconds first.config)
    (renewing : Step cfg first (env, event) s) (vetted : Vetted cfg env event first.config address)
    (answered : Acknowledges cfg env address chaddr event first.config s.config)
    (held : Path (fun s label t => HoldingStep cfg seconds address chaddr s label t ∧
      Vetted cfg label.1 label.2 s.config address) s labels t)
    (later : Step cfg t (env', event') last) (vetted' : Vetted cfg env' event' t.config address)
    (early : env'.now < env.now + seconds.toNat) :
    (∃ lease, leaseOf cfg first.config address = some lease ∧ lease.state ≠ .free ∧
      lease.chaddr = chaddr) ∧
    Binding cfg env' event' address chaddr t.config last.config := by
  have good := reachable_good reached
  have clock := (step_clock renewing).2
  have bound : LeaseTime seconds s.config ∧
      (∃ lease, leaseOf cfg first.config address = some lease ∧ lease.state ≠ .free ∧
        lease.chaddr = chaddr) ∧
      Bound cfg address chaddr (env.now + seconds.toNat) (fun _ => True) s.config := by
    cases renewing with
    | event _ _ _ done => exact acknowledged_bound good lasts vetted done answered
  have live : t.clock ≤ env.now + seconds.toNat := by
    have before := step_clock later
    exact Nat.le_of_lt (Nat.lt_of_le_of_lt (Nat.le_trans before.1 (Nat.le_of_eq before.2)) early)
  rcases bound_path (fun _ _ _ move => move.1) (fun _ _ _ move _ => move.2.request) held
    (step_good good renewing) bound.1 (Nat.le_of_eq clock.symm) live bound.2.2 with
    ⟨goodThen, lastsThen, passed, there⟩
  refine ⟨bound.2.1, ?_, ?_, bound_taken there⟩
  · intro type other kind replied
    cases later with
    | event _ _ later done =>
        exact bound_replies goodThen there (lease_time_later lastsThen (Nat.le_trans passed later))
          vetted'.request done kind replied
  · rintro other ⟨request, answer, dest, received, kind, named, rfl, -⟩
    rcases bound_taken there with ⟨lease, known, -, owner⟩
    exact (vetted'.renewal request lease received kind named known).2.symm.trans owner

end Runs

/-! Runs of the small node, which owns its block from 1003 on. -/

def isReply (type : UInt8) (address : InAddr) (chaddr : HwAddr) : Output → Bool
  | .dhcp kind reply _ => kind = type ∧ reply.yiaddr = address ∧ reply.chaddr = chaddr
  | _ => false

def isAcknowledgement : Output → Bool
  | .direct answer _ => answer.command = msgLeaseAck
  | _ => false

theorem replies_of_any {type client : UInt8} {xid : UInt32} {address : InAddr} {chaddr : HwAddr}
    {c after : Config} (found : (sent c after).any (isReply type address chaddr) = true) :
    Replies type address chaddr (.client (smallPacket client xid dhcpRequest)) c after := by
  constructor
  · rintro ⟨packet, same, kind⟩
    cases same
    have request : messageType (smallPacket client xid dhcpRequest) = dhcpRequest := rfl
    exact absurd (request.symm.trans kind) (by decide)
  · rcases List.any_eq_true.mp found with ⟨output, member, form⟩
    cases output with
    | dhcp kind reply got =>
        simp only [isReply, decide_eq_true_eq] at form
        exact ⟨reply, got, form.1 ▸ member, form.2⟩
    | mcast => simp [isReply] at form
    | direct => simp [isReply] at form
    | hook => simp [isReply] at form

theorem small_lease_time {c : Config} (options : c.options = smallStart.config.options) :
    LeaseTime 300 c := by
  refine ⟨⟨codeAddressLeaseTime, 4, [0, 0, 1, 44]⟩, ?_, rfl, rfl, by decide⟩
  rw [options]
  rfl

def smallAddress : InAddr := 0x0A000000

/-- A request of a client for the address. -/
def smallRequest (client : UInt8) : Event := .client (smallPacket client 7 dhcpRequest)

-- Client 9 gets the address at 1004, client 8 asks for it at 1005, and client 9 again at 1006.
theorem acknowledged_lease_exclusive_small : ∃ t last : NodeState,
    Step (smallNode 1) t (calmEnv 1006, smallRequest 9) last ∧
    Replies dhcpAck smallAddress (smallClient 9) (smallRequest 9) t.config last.config ∧
    ∀ type other, type = dhcpOffer ∨ type = dhcpAck →
      Replies type smallAddress other (smallRequest 9) t.config last.config →
      other = smallClient 9 := by
  have evaluated : (runEvents (smallNode 1) smallStart ownedRun).any (fun first =>
      (handle (smallNode 1) (calmEnv 1004) (smallRequest 9) first.config).any fun c =>
        (handle (smallNode 1) (calmEnv 1005) (smallRequest 8) c).any fun c' =>
          (handle (smallNode 1) (calmEnv 1006) (smallRequest 9) c').any fun after =>
            first.clock = 1003 ∧ first.config.options = smallStart.config.options ∧
            c'.options = smallStart.config.options ∧
            (findLeaseFromAddress (smallNode 1) first.config smallAddress).status = 0 ∧
            (findLeaseFromAddress (smallNode 1) c' smallAddress).status = 0 ∧
            (sent first.config c).any (isReply dhcpAck smallAddress (smallClient 9)) ∧
            (sent c' after).any (isReply dhcpAck smallAddress (smallClient 9))) = true := by
    decide +kernel
  rcases (Option.any_eq_true _ _).mp evaluated with ⟨⟨clock, first⟩, run, rest⟩
  rcases (Option.any_eq_true _ _).mp rest with ⟨c, granting, rest⟩
  rcases (Option.any_eq_true _ _).mp rest with ⟨c', between, rest⟩
  rcases (Option.any_eq_true _ _).mp rest with ⟨after, later, facts⟩
  rcases of_decide_eq_true facts with ⟨rfl, options, options', owns, owns', acked, replied⟩
  have reached : Reachable (smallNode 1) ⟨1003, first⟩ := ⟨_, small_runs (fun _ _ => trivial) run⟩
  have middle : HoldingStep (smallNode 1) 300 smallAddress (smallClient 9) ⟨1004, c⟩
      (calmEnv 1005, smallRequest 8) ⟨1005, c'⟩ := by
    refine ⟨.event (calmEnv 1005) _ (by decide) between, small_lease_time options', owns', ?_⟩
    rintro ⟨packet, same, release, -⟩
    cases same
    exact absurd release (by decide)
  have last : Step (smallNode 1) ⟨1005, c'⟩ (calmEnv 1006, smallRequest 9) ⟨1006, after⟩ :=
    .event (calmEnv 1006) _ (by decide) later
  refine ⟨_, _, last, replies_of_any replied, fun type other kind again => ?_⟩
  exact acknowledged_lease_exclusive reached (small_lease_time options) owns
    (.event (calmEnv 1004) _ (by decide) granting) (replies_of_any acked)
    (.next middle (.refl _)) last (by decide) kind again

/-- Node 2 asks to renew the lease of the address for a client. -/
def smallRenewal (client : UInt8) : Event := smallDirect msgRenewLease client 7

def renewalFor (client : UInt8) (request : McastPacket) : Bool :=
  BlockPackets.foreign (smallNode 1) request = false ∧ request.command = msgRenewLease ∧
    rawAddress (smallNode 1) request.renewPayload.address = smallAddress ∧
    request.renewPayload.chaddr = smallClient client

theorem acknowledges_of_any {now : Time} {client : UInt8} {buffer : List UInt8} {len : Nat}
    {sender : In6Addr} {c after : Config}
    (decoded : (ntohMcastPacket (calmEnv now) buffer len).any (renewalFor client) = true)
    (answered : (sent c after).any isAcknowledgement = true) :
    Acknowledges (smallNode 1) (calmEnv now) smallAddress (smallClient client)
      (.direct buffer len sender) c after := by
  rcases (Option.any_eq_true _ _).mp decoded with ⟨request, same, facts⟩
  rcases of_decide_eq_true facts with ⟨ofSwarm, kind, address, chaddr⟩
  rcases List.any_eq_true.mp answered with ⟨output, member, form⟩
  cases output with
  | direct answer dest =>
      exact ⟨request, answer, dest, ⟨buffer, len, sender, rfl, same, ofSwarm⟩, kind, address,
        chaddr, member, of_decide_eq_true form⟩
  | mcast => simp [isAcknowledgement] at form
  | dhcp => simp [isAcknowledgement] at form
  | hook => simp [isAcknowledgement] at form

/-- A renewal that is for the client of the lease is vetted. -/
theorem small_vetted {now : Time} {client : UInt8} {xid : UInt32} {ends : Time} {c : Config}
    (decoded : (ntohMcastPacket (calmEnv now) (smallHeader 2 msgRenewLease 0 ++
      [0, 0, 0, 10, 0, 0, 0, 7, 0, 0, 0, 0, client] ++ List.replicate 15 0) 44).any
        (renewalFor client) = true)
    (lease : leaseOf (smallNode 1) c smallAddress = some ⟨smallClient client, .leased, xid, ends⟩) :
    Vetted (smallNode 1) (calmEnv now) (smallRenewal client) c smallAddress := by
  refine ⟨?_, direct_fair ⟨_, _, _, rfl⟩⟩
  rintro request old ⟨buffer, len, sender, same, decoded', -⟩ - - known
  cases same
  rcases (Option.any_eq_true _ _).mp decoded with ⟨_, same, facts⟩
  obtain rfl := Option.some.inj (same.symm.trans decoded')
  obtain rfl := Option.some.inj (lease.symm.trans known)
  exact ⟨by simp, (of_decide_eq_true facts).2.2.2.symm⟩

theorem small_leased_fair {client : UInt8} {xid : UInt32} {ends : Time} {c : Config}
    (lease : leaseOf (smallNode 1) c smallAddress = some ⟨smallClient client, .leased, xid, ends⟩)
    (event : Event) : Fair (smallNode 1) c smallAddress event := by
  intro old known offered
  obtain rfl := Option.some.inj (lease.symm.trans known)
  contradiction

theorem vetted_renewal_binding_small : ∃ s last : NodeState,
    Step (smallNode 1) s (calmEnv 1006, smallRequest 9) last ∧
    Binding (smallNode 1) (calmEnv 1006) (smallRequest 9) smallAddress (smallClient 9) s.config
      last.config := by
  have evaluated : (runEvents (smallNode 1) smallStart
      (ownedRun ++ [(calmEnv 1004, smallRequest 9)])).any (fun first =>
        (handle (smallNode 1) (calmEnv 1005) (smallRenewal 9) first.config).any fun c =>
          (handle (smallNode 1) (calmEnv 1006) (smallRequest 9) c).any fun _ =>
            first.clock = 1004 ∧ first.config.options = smallStart.config.options ∧
            leaseOf (smallNode 1) first.config smallAddress =
              some ⟨smallClient 9, .leased, 7, 1314⟩ ∧
            (sent first.config c).any isAcknowledgement ∧
            leaseOf (smallNode 1) c smallAddress =
              some ⟨smallClient 9, .leased, 7, 1315⟩) = true := by
    decide +kernel
  rcases (Option.any_eq_true _ _).mp evaluated with ⟨⟨clock, first⟩, run, rest⟩
  rcases (Option.any_eq_true _ _).mp rest with ⟨c, renewing, rest⟩
  rcases (Option.any_eq_true _ _).mp rest with ⟨after, later, facts⟩
  rcases of_decide_eq_true facts with ⟨rfl, options, lease, answered, lease'⟩
  have decoded : (ntohMcastPacket (calmEnv 1005) (smallHeader 2 msgRenewLease 0 ++
      [0, 0, 0, 10, 0, 0, 0, 7, 0, 0, 0, 0, 9] ++ List.replicate 15 0) 44).any
        (renewalFor 9) = true := by decide +kernel
  have last : Step (smallNode 1) ⟨1005, c⟩ (calmEnv 1006, smallRequest 9) ⟨1006, after⟩ :=
    .event (calmEnv 1006) _ (by decide) later
  have request : Vetted (smallNode 1) (calmEnv 1006) (smallRequest 9) c smallAddress := by
    refine ⟨?_, small_leased_fair lease' _⟩
    rintro request old ⟨_, _, _, same, -⟩
    cases same
  refine ⟨_, _, last, ?_⟩
  exact (vetted_renewal_binding ⟨_, small_runs (fun _ _ => trivial) run⟩
    (small_lease_time options) (.event (calmEnv 1005) _ (by decide) renewing)
    (small_vetted decoded lease) (acknowledges_of_any decoded answered) (.refl _) last request
    (by decide)).2

-- The lease is that of client 9 when it is renewed for client 8; client 9 keeps it.
theorem renewal_not_binding : ∃ first s last : NodeState, Reachable (smallNode 1) first ∧
    LeaseTime 300 first.config ∧
    leaseOf (smallNode 1) first.config smallAddress = some ⟨smallClient 9, .leased, 7, 1314⟩ ∧
    Step (smallNode 1) first (calmEnv 1005, smallRenewal 8) s ∧
    Acknowledges (smallNode 1) (calmEnv 1005) smallAddress (smallClient 8) (smallRenewal 8)
      first.config s.config ∧
    (findLeaseFromAddress (smallNode 1) s.config smallAddress).status = 0 ∧
    Step (smallNode 1) s (calmEnv 1006, smallRequest 9) last ∧
    Replies dhcpAck smallAddress (smallClient 9) (smallRequest 9) s.config last.config := by
  have evaluated : (runEvents (smallNode 1) smallStart
      (ownedRun ++ [(calmEnv 1004, smallRequest 9)])).any (fun first =>
        (handle (smallNode 1) (calmEnv 1005) (smallRenewal 8) first.config).any fun c =>
          (handle (smallNode 1) (calmEnv 1006) (smallRequest 9) c).any fun after =>
            first.clock = 1004 ∧ first.config.options = smallStart.config.options ∧
            leaseOf (smallNode 1) first.config smallAddress =
              some ⟨smallClient 9, .leased, 7, 1314⟩ ∧
            (sent first.config c).any isAcknowledgement ∧
            (findLeaseFromAddress (smallNode 1) c smallAddress).status = 0 ∧
            (sent c after).any (isReply dhcpAck smallAddress (smallClient 9))) = true := by
    decide +kernel
  rcases (Option.any_eq_true _ _).mp evaluated with ⟨⟨clock, first⟩, run, rest⟩
  rcases (Option.any_eq_true _ _).mp rest with ⟨c, renewing, rest⟩
  rcases (Option.any_eq_true _ _).mp rest with ⟨after, later, facts⟩
  rcases of_decide_eq_true facts with ⟨rfl, options, lease, answered, owns, replied⟩
  have decoded : (ntohMcastPacket (calmEnv 1005) (smallHeader 2 msgRenewLease 0 ++
      [0, 0, 0, 10, 0, 0, 0, 7, 0, 0, 0, 0, 8] ++ List.replicate 15 0) 44).any
        (renewalFor 8) = true := by decide +kernel
  exact ⟨⟨1004, first⟩, ⟨1005, c⟩, ⟨1006, after⟩, ⟨_, small_runs (fun _ _ => trivial) run⟩,
    small_lease_time options, lease, .event (calmEnv 1005) _ (by decide) renewing,
    acknowledges_of_any decoded answered, owns,
    .event (calmEnv 1006) _ (by decide) later, replies_of_any replied⟩

end Ddhcpd.Exclusive

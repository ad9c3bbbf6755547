import Ddhcpd.Invariant

/-!
What each handler of client packets and of forwarded requests leaves, case by case: the
lease it writes, the packet it sends and the hook it calls, in this order.
-/

namespace Ddhcpd.Handlers
open Types Leases Blocks Dhcp LeasePackets LeaseMoves Packet Node Invariant

/-- The lease that `dhcp_hdl_request` acknowledges. -/
def grantedTo (cfg : Settings) (request : DhcpPacket) (c : Config) : Option (Nat × Nat) :=
  match requestedAddress request with
  | some address =>
      let found := findLeaseFromAddress cfg c address
      if found.status = 0 ∧
          (leaseAt (c.blocks found.block) found.lease).any (mayAcknowledge request) then
        some (found.block, found.lease)
      else none
  | none => (findOfferedLease cfg request c).join

section Cases
variable (cfg : Settings) (env : Env) (c : Config)

def grantTo (request : DhcpPacket) (position index : Nat) (lease : Lease) : Config :=
  c.setBlock position
    (putLease (c.blocks position) index (leaseTo request .leased (leaseEndFrom env c) lease))

/-- The reply and the hook of an acknowledgement. -/
def answerTo (reply : DhcpPacket) : Config :=
  hookAddress cfg env .lease reply.yiaddr reply.chaddr (dhcpPacketSend env dhcpAck reply c).1

/-- `dhcp_ack`: the lease is written before the memory for the options of the reply is there. -/
inductive Acked (request : DhcpPacket) (position index : Nat) : Config → Prop where
  | starved : env.alloc .replyPacket = false → Acked request position index c
  | unanswered {lease : Lease} : leaseAt (c.blocks position) index = some lease →
      env.alloc .replyPacket = true → env.alloc .replyOptions = false →
      Acked request position index (grantTo env c request position index lease)
  | answered {lease : Lease} {reply : DhcpPacket} :
      leaseAt (c.blocks position) index = some lease → env.alloc .replyOptions = true →
      reply.yiaddr = addrAdd (c.blocks position).subnet index → reply.chaddr = request.chaddr →
      Acked request position index
        (answerTo cfg env (grantTo env c request position index lease) reply)

/-- A lease that can be offered. -/
structure Available (position index : Nat) (lease : Lease) : Prop where
  inside : position < cfg.blocks
  own : (c.blocks position).state = .ours
  entry : leaseAt (c.blocks position) index = some lease
  free : lease.state = .free

def offerTo (discover : DhcpPacket) (position index : Nat) (lease : Lease) : Config :=
  c.setBlock position (putLease (c.blocks position) index
    (leaseTo discover .offered (env.now + dhcpOfferTimeout) lease))

/-- The block is needed again. -/
def neededAt (position : Nat) : Config :=
  c.setBlock position { c.blocks position with needlessSince := 0 }

/-- `dhcp_hdl_discover`, with the value it returns. -/
inductive Offered (discover : DhcpPacket) : Config → Nat → Prop where
  | exhausted : Offered discover c 3
  | starved : env.alloc .replyPacket = false → Offered discover c 1
  | unanswered {position index : Nat} {lease : Lease} : Available cfg c position index lease →
      env.alloc .replyOptions = false →
      Offered discover (offerTo env c discover position index lease) 1
  | unsent {position index : Nat} {lease : Lease} {reply : DhcpPacket} :
      Available cfg c position index lease →
      reply.yiaddr = addrAdd (c.blocks position).subnet index → reply.chaddr = discover.chaddr →
      Offered discover
        (dhcpPacketSend env dhcpOffer reply (offerTo env c discover position index lease)).1 0
  | sent {position index : Nat} {lease : Lease} {reply : DhcpPacket} :
      Available cfg c position index lease →
      reply.yiaddr = addrAdd (c.blocks position).subnet index → reply.chaddr = discover.chaddr →
      Offered discover (neededAt (dhcpPacketSend env dhcpOffer reply
        (offerTo env c discover position index lease)).1 position) 0

/-- `dhcp_nack` -/
inductive Refused : Config → Prop where
  | unsent : Refused c
  | sent (reply : DhcpPacket) : Refused (c.emit (.dhcp dhcpNak reply env.dhcpSent))

def renewPacket (request : DhcpPacket) (address : InAddr) : McastPacket :=
  { newDdhcpPacket cfg msgRenewLease with
    renewPayload := ⟨request.chaddr, rawAddress cfg address, request.xid, 0⟩ }

/-- The block with the table a forwarded request is noted in. -/
def opened (position : Nat) : Config :=
  c.setBlock position (blockAlloc env position (c.blocks position)).1

def noteIn (request : DhcpPacket) (position index : Nat) (lease : Lease) : Config :=
  c.setBlock position
    (putLease (c.blocks position) index (leaseTo request .offered (leaseEndFrom env c) lease))

/-- The request names a lease in a block of another node. -/
structure Elsewhere (request : DhcpPacket) (address : InAddr) (position index : Nat) : Prop where
  requested : requestedAddress request = some address
  inside : position < cfg.blocks
  place : findLeaseFromAddress cfg c address = ⟨1, position, index⟩
  claimed : (c.blocks position).state = .claimed

/-- A request that is passed on. The table is there: a handler that could not allocate it
faults. -/
inductive Forwarded (request : DhcpPacket) (address : InAddr) (position index : Nat) :
    Config → Prop where
  | starved {lease : Lease} : leaseAt ((opened env c position).blocks position) index = some lease →
      Forwarded request address position index
        (noteIn env (opened env c position) request position index lease)
  | passed {lease : Lease} (dest : In6Addr) :
      leaseAt ((opened env c position).blocks position) index = some lease →
      Forwarded request address position index (sendPacketDirect env (renewPacket cfg request address)
        dest (dhcpPacketListAdd env request
          (noteIn env (opened env c position) request position index lease)))

/-- `dhcp_hdl_request` -/
inductive Requested (request : DhcpPacket) : Config → Prop where
  | acked {position index : Nat} {after : Config} :
      grantedTo cfg request c = some (position, index) →
      Acked cfg env c request position index after → Requested request after
  | forwarded {address : InAddr} {position index : Nat} {after : Config} :
      grantedTo cfg request c = none → Elsewhere cfg c request address position index →
      Forwarded cfg env c request address position index after → Requested request after
  | refused {after : Config} : grantedTo cfg request c = none →
      (∀ address position index, ¬ Elsewhere cfg c request address position index) →
      Refused env c after → Requested request after

/-- `dhcp_hdl_release` takes the client's word. -/
structure Releasable (packet : DhcpPacket) (position index : Nat) (lease : Lease) : Prop where
  place : findLeaseFromAddress cfg c packet.ciaddr = ⟨0, position, index⟩
  entry : leaseAt (c.blocks position) index = some lease
  client : packet.chaddr = lease.chaddr

def releaseAt (packet : DhcpPacket) (position index : Nat) (lease : Lease) : Config :=
  hookAddress cfg env .release packet.yiaddr packet.chaddr
    (c.setBlock position (putLease (c.blocks position) index (Lease.released lease)))

/-- `dhcp_hdl_release` -/
inductive Released (packet : DhcpPacket) : Config → Prop where
  | ignored : (∀ position index lease, ¬ Releasable cfg c packet position index lease) →
      Released packet c
  | released {position index : Nat} {lease : Lease} : Releasable cfg c packet position index lease →
      Released packet (releaseAt cfg env c packet position index lease)

/-- `dhcp_hdl_inform` -/
inductive Informed : Config → Prop where
  | starved : Informed c
  | answered (reply : DhcpPacket) : Informed (dhcpPacketSend env dhcpAck reply c).1

/-- `dhcp_process`, with the value it returns. -/
inductive Processed (packet : DhcpPacket) : Config → Nat → Prop where
  | discover {after : Config} {offered value : Nat} : messageType packet = dhcpDiscover →
      Offered cfg env c packet after offered → value = (if offered = 1 then 1 else 0) →
      Processed packet after value
  | request {after : Config} : messageType packet = dhcpRequest →
      Requested cfg env c packet after → Processed packet after 0
  | release {after : Config} : messageType packet = dhcpRelease →
      Released cfg env c packet after → Processed packet after 0
  | inform {after : Config} : messageType packet = dhcpInform →
      Informed env c after → Processed packet after 0
  | other : messageType packet ≠ dhcpRequest → messageType packet ≠ dhcpRelease →
      Processed packet c 0

/-! Packets of other nodes. -/

def prolong (position index : Nat) (lease : Lease) : Config :=
  c.setBlock position
    (putLease (c.blocks position) index { lease with leaseEnd := leaseEndFrom env c })

def renewAnswer (request : McastPacket) (command : UInt8) : McastPacket :=
  { newDdhcpPacket cfg command with renewPayload := request.renewPayload }

/-- `ddhcp_dhcp_renewlease` -/
inductive Renewal (request : McastPacket) (sender : In6Addr) : Config → Prop where
  | ignored : Renewal request sender c
  | declined : Renewal request sender
      (sendPacketDirect env (renewAnswer cfg request msgLeaseNak) sender c)
  | unanswered {position index : Nat} {lease : Lease} :
      findLeaseFromAddress cfg c (rawAddress cfg request.renewPayload.address) =
        ⟨0, position, index⟩ →
      leaseAt (c.blocks position) index = some lease →
      Renewal request sender (prolong env c position index lease)
  | granted {position index : Nat} {lease : Lease} :
      findLeaseFromAddress cfg c (rawAddress cfg request.renewPayload.address) =
        ⟨0, position, index⟩ →
      leaseAt (c.blocks position) index = some lease →
      Renewal request sender (sendPacketDirect env (renewAnswer cfg request msgLeaseAck) sender
        (prolong env c position index lease))

/-- `dhcp_rhdl_ack` -/
inductive Relayed (request : DhcpPacket) : Config → Prop where
  | unknown : (findLeaseFromAddress cfg c ((requestedAddress request).getD 0)).status ≠ 1 →
      Relayed request c
  | acked {position index : Nat} {after : Config} :
      findLeaseFromAddress cfg c ((requestedAddress request).getD 0) = ⟨1, position, index⟩ →
      Acked cfg env c request position index after → Relayed request after

/-- `ddhcp_dhcp_process`. A datagram with a release is never decoded. -/
inductive Dispatched (event : Event) (sender : In6Addr) : Config → Prop where
  | ignored : (∀ packet, Receives cfg env event packet → packet.command ≠ msgRenewLease ∧
      packet.command ≠ msgLeaseAck ∧ packet.command ≠ msgLeaseNak) → Dispatched event sender c
  | renewal {packet : McastPacket} {after : Config} : Receives cfg env event packet →
      packet.command = msgRenewLease → Renewal cfg env c packet sender after →
      Dispatched event sender after
  | ack {packet : McastPacket} {after : Config} : Receives cfg env event packet →
      packet.command = msgLeaseAck → ddhcpDhcpLeaseack cfg env packet c = some after →
      Dispatched event sender after
  | nak {packet : McastPacket} {after : Config} : Receives cfg env event packet →
      packet.command = msgLeaseNak → ddhcpDhcpLeasenak env packet c = some after →
      Dispatched event sender after

end Cases

section Inversions
variable {cfg : Settings} {env : Env} {c after : Config} {position index : Nat}

theorem nack_refused (request : DhcpPacket) : Refused env c (dhcpNack env request c).1 := by
  unfold dhcpNack dhcpPacketSend
  split
  · exact .unsent
  · simp only
    split
    · exact .sent _
    · exact .unsent

theorem block_alloc_failed {block : Block} (failed : (blockAlloc env position block).2 ≠ 0) :
    (blockAlloc env position block).1.addresses = none := by
  unfold blockAlloc at failed ⊢
  split_ifs at failed ⊢ with there
  · exact absurd rfl failed
  · exact absurd rfl failed
  · simpa using there

/-- Both searches of `dhcp_hdl_discover` stop at the same free lease. -/
theorem lease_available {lease : Lease}
    (search : blockFindFreeLeases cfg c = some (some position))
    (first : dhcpGetFreeLease (c.blocks position) = some index)
    (entry : leaseAt (c.blocks position) index = some lease) :
    Available cfg c position index lease := by
  rcases find_free_leases_some search with ⟨inside, own, hasFree⟩
  refine ⟨inside, own, entry, ?_⟩
  rcases Option.map_eq_some_iff.mp hasFree with ⟨hit, scan, found⟩
  rcases Option.isSome_iff_exists.mp found with ⟨number, rfl⟩
  simp only [dhcpGetFreeLease, scan, Option.map_some, Option.getD_some, Option.some.injEq] at first
  subst first
  rcases first_lease_some scan with ⟨other, here, free⟩
  obtain rfl : lease = other := Option.some.inj (entry.symm.trans here)
  simpa [isFree] using free

theorem default_options_none {type : UInt8} {packet request : DhcpPacket} {includeLeaseTime : Bool}
    (unfilled : dhcpDefaultOptions env type packet request c includeLeaseTime = none) :
    env.alloc .replyOptions = false := by
  unfold dhcpDefaultOptions at unfilled
  split at unfilled
  · contradiction
  · rename_i starved
    simpa using starved

theorem default_options_some {type : UInt8} {packet request filled : DhcpPacket}
    {includeLeaseTime : Bool}
    (done : dhcpDefaultOptions env type packet request c includeLeaseTime = some filled) :
    env.alloc .replyOptions = true ∧ filled.yiaddr = packet.yiaddr ∧
      filled.chaddr = packet.chaddr := by
  simp only [dhcpDefaultOptions, Option.ite_none_right_eq_some, Option.some.injEq] at done
  rcases done with ⟨memory, rfl⟩
  exact ⟨memory, rfl, rfl⟩

theorem discover_cases {discover : DhcpPacket} {value : Nat}
    (done : dhcpHdlDiscover cfg env discover c = some (after, value)) :
    Offered cfg env c discover after value := by
  unfold dhcpHdlDiscover at done
  rcases Option.bind_eq_some_iff.mp done with ⟨selected, search, done⟩
  split at done
  · cases done
    exact .exhausted
  rename_i position
  rcases Option.bind_eq_some_iff.mp done with ⟨index, first, done⟩
  split at done
  · rename_i starved
    cases done
    exact .starved (by simpa using starved)
  rcases Option.bind_eq_some_iff.mp done with ⟨block, written, done⟩
  rcases update_lease_iff.mp written with ⟨lease, entry, rfl⟩
  have available := lease_available search first entry
  simp only at done
  split at done
  · rename_i unfilled
    cases done
    exact .unanswered available (default_options_none unfilled)
  · rename_i reply filled
    rcases default_options_some filled with ⟨-, address, chaddr⟩
    split at done
    · cases done
      exact .sent available address chaddr
    · cases done
      exact .unsent available address chaddr

theorem ack_cases {request : DhcpPacket} {value : Nat}
    (done : dhcpAckLease cfg env request position index c = some (after, value)) :
    Acked cfg env c request position index after := by
  unfold dhcpAckLease at done
  split at done
  · rename_i starved
    cases done
    exact .starved (by simpa using starved)
  rename_i memory
  rcases Option.bind_eq_some_iff.mp done with ⟨block, written, done⟩
  rcases update_lease_iff.mp written with ⟨lease, entry, rfl⟩
  simp only at done
  split at done
  · rename_i unfilled
    cases done
    exact .unanswered entry (not_not.mp memory) (default_options_none unfilled)
  · rename_i reply filled
    rcases default_options_some filled with ⟨options, address, chaddr⟩
    cases done
    exact .answered entry options address chaddr

/-- The lease a forwarded request is noted in. -/
theorem opened_entry (sound : Sound cfg c) (claimed : (c.blocks position).state = .claimed)
    (below : index < cfg.blockSize.toNat)
    (table : (c.blocks position).addresses.isSome = true ∨ env.alloc (.leaseTable position) = true) :
    (blockAlloc env position (c.blocks position)).2 = 0 ∧
      ∃ lease, leaseAt ((opened env c position).blocks position) index = some lease := by
  have allocated : (blockAlloc env position (c.blocks position)).2 = 0 ∧
      (blockAlloc env position (c.blocks position)).1.addresses.isSome = true := by
    rcases table with there | memory
    · simp [blockAlloc, there]
    · exact ⟨(block_alloc_there memory).1, (block_alloc_there memory).2.1⟩
  have soundly : SoundBlock cfg position (blockAlloc env position (c.blocks position)).1 :=
    sound_alloc (sound position) (by simp [claimed])
  refine ⟨allocated.1, ?_⟩
  rw [opened, set_block_same]
  exact lease_at_there soundly allocated.2 below

/-- Without a table for the block the function would not come to an end. -/
theorem forward_opened {request : DhcpPacket} {address : InAddr} {value : Int}
    (done : forwardRequest cfg env request address position index c = some (after, value)) :
    (blockAlloc env position (c.blocks position)).2 = 0 ∧
      ∃ lease, leaseAt ((opened env c position).blocks position) index = some lease := by
  unfold forwardRequest at done
  rcases Option.bind_eq_some_iff.mp done with ⟨block, written, -⟩
  rcases update_lease_iff.mp written with ⟨lease, entry, -⟩
  have allocated : (blockAlloc env position (c.blocks position)).2 = 0 := by
    by_contra failed
    rw [if_pos failed, nack_blocks, set_block_same, leaseAt, block_alloc_failed failed] at entry
    contradiction
  simp only [allocated, ne_eq, not_true_eq_false, ↓reduceIte] at entry
  exact ⟨allocated, lease, entry⟩

/-- The request is noted in the lease before there is a packet to send. -/
theorem forward_noted {lease : Lease} (request : DhcpPacket) (address : InAddr)
    (allocated : (blockAlloc env position (c.blocks position)).2 = 0)
    (entry : leaseAt ((opened env c position).blocks position) index = some lease) :
    forwardRequest cfg env request address position index c =
      if env.alloc .renewPacket then
        some (sendPacketDirect env (renewPacket cfg request address)
          ((opened env c position).blocks position).ownerAddress (dhcpPacketListAdd env request
            (noteIn env (opened env c position) request position index lease)), 2)
      else some (noteIn env (opened env c position) request position index lease, -12) := by
  have written : updateLease ((opened env c position).blocks position) index
      (leaseTo request .offered (leaseEndFrom env (opened env c position))) =
        some (putLease ((opened env c position).blocks position) index
          (leaseTo request .offered (leaseEndFrom env (opened env c position)) lease)) :=
    update_lease_iff.mpr ⟨lease, entry, rfl⟩
  simp only [opened] at written
  simp only [forwardRequest, allocated, written, ne_eq, not_true_eq_false, ↓reduceIte,
    Option.bind_eq_bind, Option.bind_some]
  by_cases memory : env.alloc .renewPacket = true
  · simp only [memory, not_true_eq_false, ↓reduceIte]
    rfl
  · simp only [memory, not_false_eq_true, ↓reduceIte, Bool.false_eq_true]
    rfl

theorem forward_cases {request : DhcpPacket} {address : InAddr} {value : Int}
    (done : forwardRequest cfg env request address position index c = some (after, value)) :
    Forwarded cfg env c request address position index after := by
  rcases forward_opened done with ⟨allocated, lease, entry⟩
  rw [forward_noted request address allocated entry] at done
  split at done
  · cases done
    exact .passed _ entry
  · cases done
    exact .starved entry

theorem granted_grants {request : DhcpPacket}
    (granted : grantedTo cfg request c = some (position, index)) :
    position < cfg.blocks ∧ (c.blocks position).state = .ours ∧
      ∃ lease, leaseAt (c.blocks position) index = some lease ∧
        Grants cfg c request position index lease := by
  unfold grantedTo at granted
  split at granted
  · rename_i address requested
    simp only [Option.ite_none_right_eq_some, Option.some.injEq, Prod.mk.injEq] at granted
    rcases granted with ⟨⟨ours, may⟩, rfl, rfl⟩
    rcases (Option.any_eq_true _ _).mp may with ⟨lease, entry, may⟩
    rcases find_lease_ours ours with ⟨inside, own⟩
    exact ⟨inside, own, lease, entry, .inr ⟨may, address, requested, by rw [← ours]⟩⟩
  · rcases find_offered_some (Option.join_eq_some_iff.mp granted) with
      ⟨inside, own, lease, entry, offered⟩
    exact ⟨inside, own, lease, entry, .inl offered⟩

theorem granted_named {request : DhcpPacket} {address : InAddr}
    (requested : requestedAddress request = some address)
    (granted : grantedTo cfg request c = some (position, index)) :
    findLeaseFromAddress cfg c address = ⟨0, position, index⟩ := by
  simp only [grantedTo, requested, Option.ite_none_right_eq_some, Option.some.injEq,
    Prod.mk.injEq] at granted
  rcases granted with ⟨⟨ours, -⟩, rfl, rfl⟩
  rw [← ours]

theorem ungranted_foreign {request : DhcpPacket} {address : InAddr}
    (requested : requestedAddress request = some address)
    (foreign : (findLeaseFromAddress cfg c address).status ≠ 0) : grantedTo cfg request c = none := by
  simp [grantedTo, requested, foreign]

/-- The address of the request decides whether it is about a block of another node. -/
theorem elsewhere_named {request : DhcpPacket} {address named : InAddr}
    (requested : requestedAddress request = some named)
    (elsewhere : Elsewhere cfg c request address position index) :
    findLeaseFromAddress cfg c named = ⟨1, position, index⟩ ∧
      (c.blocks (findLeaseFromAddress cfg c named).block).state = .claimed := by
  obtain rfl : named = address := Option.some.inj (requested.symm.trans elsewhere.requested)
  rw [elsewhere.place]
  exact ⟨rfl, elsewhere.claimed⟩

theorem request_cases {request : DhcpPacket} {value : Int}
    (done : dhcpHdlRequest cfg env request c = some (after, value)) :
    Requested cfg env c request after := by
  unfold dhcpHdlRequest at done
  split at done
  · rename_i address requested
    simp only at done
    split at done
    · rename_i outside
      cases done
      refine .refused (ungranted_foreign requested (by rw [outside]; decide)) ?_ (nack_refused request)
      intro named position index elsewhere
      rw [(elsewhere_named requested elsewhere).1] at outside
      exact absurd outside (Nat.ne_of_lt (Nat.lt_succ_self 1))
    rename_i known
    split at done
    · rename_i claimed
      have foreign := find_lease_other known (by simp [claimed])
      have ungranted := ungranted_foreign requested (by rw [foreign]; exact Nat.one_ne_zero)
      exact .forwarded ungranted ⟨requested, find_lease_inside known, foreign, claimed⟩
        (forward_cases done)
    rename_i unclaimed
    have nowhere (named : InAddr) (position index : Nat) :
        ¬ Elsewhere cfg c request named position index := fun elsewhere =>
      unclaimed (elsewhere_named requested elsewhere).2
    split at done
    · rename_i own
      have ours := find_lease_own known own
      rcases Option.bind_eq_some_iff.mp done with ⟨lease, entry, done⟩
      split at done
      · rename_i may
        rcases Option.bind_eq_some_iff.mp done with ⟨acked, ack, done⟩
        cases done
        exact .acked (by simp [grantedTo, requested, ours, entry, may]) (ack_cases ack)
      · rename_i barred
        cases done
        exact .refused (by simp [grantedTo, requested, entry, barred]) nowhere
          (nack_refused request)
    · rename_i foreign
      -- a lease that is acknowledged is in a block of ours
      have ungranted : grantedTo cfg request c = none :=
        ungranted_foreign requested fun ours => foreign (find_lease_ours ours).2
      split at done
      · cases done
        exact .refused ungranted nowhere (nack_refused request)
      · cases done
        exact .refused ungranted nowhere .unsent
  · rename_i unnamed
    rcases Option.bind_eq_some_iff.mp done with ⟨found, search, done⟩
    split at done
    · rcases Option.bind_eq_some_iff.mp done with ⟨acked, ack, done⟩
      cases done
      exact .acked (by simp [grantedTo, unnamed, search]) (ack_cases ack)
    · cases done
      refine .refused (by simp [grantedTo, unnamed, search]) ?_ (nack_refused request)
      intro named position index elsewhere
      rw [elsewhere.requested] at unnamed
      contradiction

theorem release_cases {packet : DhcpPacket} (done : dhcpHdlRelease cfg env packet c = some after) :
    Released cfg env c packet after := by
  unfold dhcpHdlRelease at done
  simp only at done
  split at done
  · rename_i ours
    have place : findLeaseFromAddress cfg c packet.ciaddr =
        ⟨0, (findLeaseFromAddress cfg c packet.ciaddr).block,
          (findLeaseFromAddress cfg c packet.ciaddr).lease⟩ := by rw [← ours]
    rcases Option.bind_eq_some_iff.mp done with ⟨lease, entry, done⟩
    split at done
    · rename_i same
      rcases Option.bind_eq_some_iff.mp done with ⟨block, written, done⟩
      rcases update_lease_iff.mp written with ⟨lease', entry', rfl⟩
      obtain rfl : lease = lease' := Option.some.inj (entry.symm.trans entry')
      cases done
      exact .released ⟨place, entry, same⟩
    · rename_i different
      cases done
      refine .ignored fun position index other releasable => ?_
      have there := releasable.entry
      rw [releasable.place] at entry
      obtain rfl : lease = other := Option.some.inj (entry.symm.trans there)
      exact different releasable.client
  · rename_i foreign
    cases done
    refine .ignored fun position index lease releasable => ?_
    rw [releasable.place] at foreign
    exact foreign rfl

theorem inform_cases (request : DhcpPacket) : Informed env c (dhcpHdlInform env request c) := by
  unfold dhcpHdlInform
  split
  · exact .starved
  · split
    · exact .starved
    · exact .answered _

theorem process_cases {packet : DhcpPacket} {value : Nat}
    (done : dhcpProcess cfg env packet c = some (after, value)) :
    Processed cfg env c packet after value := by
  unfold dhcpProcess at done
  split at done
  · rename_i kind
    rcases Option.map_eq_some_iff.mp done with ⟨⟨final, result⟩, handled, same⟩
    cases same
    exact .discover kind (discover_cases handled) rfl
  split at done
  · rename_i kind
    rcases Option.map_eq_some_iff.mp done with ⟨⟨final, result⟩, handled, same⟩
    cases same
    exact .request kind (request_cases handled)
  rename_i request
  split at done
  · rename_i kind
    rcases Option.map_eq_some_iff.mp done with ⟨final, handled, same⟩
    cases same
    exact .release kind (release_cases handled)
  rename_i release
  split at done
  · rename_i kind
    cases done
    exact .inform kind (inform_cases packet)
  · cases done
    exact .other request release

/-! Packets of other nodes. -/

theorem renewal_cases {request : McastPacket} {sender : In6Addr}
    (done : ddhcpDhcpRenewlease cfg env request sender c = some after) :
    Renewal cfg env c request sender after := by
  unfold ddhcpDhcpRenewlease dhcpRhdlRequest at done
  rcases Option.bind_eq_some_iff.mp done with ⟨⟨middle, status⟩, handled, done⟩
  simp only at handled done
  split at handled
  · rename_i ours
    have place : findLeaseFromAddress cfg c (rawAddress cfg request.renewPayload.address) =
        ⟨0, (findLeaseFromAddress cfg c (rawAddress cfg request.renewPayload.address)).block,
          (findLeaseFromAddress cfg c (rawAddress cfg request.renewPayload.address)).lease⟩ := by
      rw [← ours]
    rcases Option.map_eq_some_iff.mp handled with ⟨block, written, same⟩
    rcases update_lease_iff.mp written with ⟨lease, entry, rfl⟩
    cases same
    split at done
    · cases done
      exact .unanswered place entry
    · cases done
      exact .granted place entry
  · cases handled
    split at done
    · cases done
      exact .ignored
    · cases done
      exact .declined

theorem relay_cases {request : DhcpPacket} {value : Nat}
    (done : dhcpRhdlAck cfg env request c = some (after, value)) :
    Relayed cfg env c request after := by
  simp only [dhcpRhdlAck] at done
  split at done
  · rename_i unknown
    cases done
    exact .unknown unknown
  · rename_i known
    exact .acked (by rw [← not_not.mp known]) (ack_cases done)

/-- An event carries one packet at most. -/
theorem receives_unique {event : Event} {packet other : McastPacket}
    (received : Receives cfg env event packet) (again : Receives cfg env event other) :
    packet = other := by
  rcases received with ⟨_, _, _, rfl, decoded, -⟩
  rcases again with ⟨_, _, _, same, decoded', -⟩
  cases same
  exact Option.some.inj (decoded.symm.trans decoded')

theorem dispatch_cases {buffer : List UInt8} {len : Nat} {sender : In6Addr}
    (done : ddhcpDhcpProcess cfg env buffer len sender c = some after) :
    Dispatched cfg env c (.direct buffer len sender) sender after := by
  unfold ddhcpDhcpProcess at done
  split at done
  · rename_i packet decoded
    unfold ddhcpDhcpDispatch at done
    split at done
    · rename_i stranger
      cases done
      refine .ignored ?_
      rintro other ⟨_, _, _, same, decoded', ofSwarm⟩
      cases same
      obtain rfl : packet = other := Option.some.inj (decoded.symm.trans decoded')
      rw [stranger] at ofSwarm
      contradiction
    rename_i ofSwarm
    have received : Receives cfg env (.direct buffer len sender) packet :=
      ⟨buffer, len, sender, rfl, decoded, by simpa using ofSwarm⟩
    split at done
    · rename_i kind
      exact .renewal received kind (renewal_cases done)
    rename_i noRenewal
    split at done
    · rename_i kind
      exact .ack received kind done
    rename_i noAck
    split at done
    · rename_i kind
      exact .nak received kind done
    rename_i noNak
    split at done
    · rename_i release
      exact absurd release (release_undecoded decoded)
    · cases done
      exact .ignored fun other again => receives_unique received again ▸ ⟨noRenewal, noAck, noNak⟩
  · rename_i undecoded
    cases done
    refine .ignored ?_
    rintro other ⟨_, _, _, same, decoded, -⟩
    cases same
    rw [undecoded] at decoded
    contradiction

/-! What the handlers send. -/

theorem emits_one {allowed : Output → Prop} {output : Output} (fine : allowed output) :
    Emits allowed c (c.emit output) :=
  ⟨[output], rfl, fun _ member => List.mem_singleton.mp member ▸ fine⟩

theorem refused_emits {allowed : Output → Prop} (refused : Refused env c after)
    (fine : ∀ reply sent, allowed (.dhcp dhcpNak reply sent)) : Emits allowed c after := by
  cases refused with
  | unsent => exact emits_same rfl
  | sent reply => exact emits_one (fine _ _)

theorem answer_emits {allowed : Output → Prop} (reply : DhcpPacket)
    (answers : ∀ sent, allowed (.dhcp dhcpAck reply sent))
    (hooks : allowed (.hook .lease reply.yiaddr reply.chaddr)) :
    Emits allowed c (answerTo cfg env c reply) := by
  have sends : Emits allowed c (dhcpPacketSend env dhcpAck reply c).1 := by
    unfold dhcpPacketSend
    split
    · exact emits_one (answers _)
    · exact emits_same rfl
  have calls : Emits allowed (dhcpPacketSend env dhcpAck reply c).1 (answerTo cfg env c reply) := by
    unfold answerTo hookAddress
    split
    · exact emits_one hooks
    · exact emits_same rfl
  exact emits_trans sends calls

theorem acked_emits {allowed : Output → Prop} {request : DhcpPacket} {position index : Nat}
    (acked : Acked cfg env c request position index after)
    (answers : ∀ reply sent, reply.yiaddr = addrAdd (c.blocks position).subnet index →
      reply.chaddr = request.chaddr → allowed (.dhcp dhcpAck reply sent))
    (hooks : allowed (.hook .lease (addrAdd (c.blocks position).subnet index) request.chaddr)) :
    Emits allowed c after := by
  cases acked with
  | starved => exact emits_same rfl
  | unanswered => exact emits_same rfl
  | @answered lease reply _ _ address chaddr =>
      have granted : Emits allowed c (grantTo env c request position index lease) := emits_same rfl
      apply emits_trans granted
      apply answer_emits
      · exact fun sent => answers reply sent address chaddr
      · rw [address, chaddr]
        exact hooks

theorem forwarded_emits {allowed : Output → Prop} {request : DhcpPacket} {address : InAddr}
    {position index : Nat} (forwarded : Forwarded cfg env c request address position index after)
    (asks : ∀ dest, allowed (.direct (renewPacket cfg request address) dest)) :
    Emits allowed c after := by
  cases forwarded with
  | starved => exact emits_same rfl
  | @passed lease dest _ =>
      have noted : Emits allowed c (dhcpPacketListAdd env request
          (noteIn env (opened env c position) request position index lease)) := by
        unfold dhcpPacketListAdd
        split <;> exact emits_same rfl
      apply emits_trans noted
      unfold sendPacketDirect
      split
      · exact emits_one (asks dest)
      · exact emits_same rfl

theorem requested_emits {allowed : Output → Prop} {request : DhcpPacket}
    (requested : Requested cfg env c request after)
    (refuses : ∀ reply sent, allowed (.dhcp dhcpNak reply sent))
    (asks : ∀ address dest, requestedAddress request = some address →
      allowed (.direct (renewPacket cfg request address) dest))
    (answers : ∀ reply sent, reply.chaddr = request.chaddr → allowed (.dhcp dhcpAck reply sent))
    (hooks : ∀ address, allowed (.hook .lease address request.chaddr)) : Emits allowed c after := by
  cases requested with
  | refused _ _ refused => exact refused_emits refused refuses
  | forwarded _ elsewhere forwarded =>
      exact forwarded_emits forwarded fun dest => asks _ dest elsewhere.requested
  | acked _ acked =>
      exact acked_emits acked (fun reply sent _ chaddr => answers reply sent chaddr) (hooks _)

end Inversions

end Ddhcpd.Handlers

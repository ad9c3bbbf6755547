import Ddhcpd.Handlers

/-!
Every handler of client packets, forwarded requests and control commands is a path of
lease moves.
-/

namespace Ddhcpd.HandlerMoves
open Types Leases Blocks Dhcp LeasePackets LeaseMoves Packet Node Handlers Relation

variable {cfg : Settings} {env : Env} {event : Event} {c after : Config} {position index : Nat}

/-! Sending. -/

theorem refused_moves (refused : Refused env c after) : Moves cfg env event c after := by
  cases refused with
  | unsent => exact .refl
  | sent reply => exact .single (.send (.inl rfl))

theorem hook_moves (action : HookAction) (address : InAddr) (chaddr : HwAddr) :
    Moves cfg env event c (hookAddress cfg env action address chaddr c) := by
  unfold hookAddress
  split
  · exact .single (.send trivial)
  · exact .refl

theorem packet_send_moves {type : UInt8} {reply : DhcpPacket}
    (grounded : informs event ∨ (repliesTo event ∧ Registered cfg env c type reply)) :
    Moves cfg env event c (dhcpPacketSend env type reply c).1 := by
  unfold dhcpPacketSend
  split
  · exact .single (.send (.inr grounded))
  · exact .refl

theorem send_direct_moves {packet : McastPacket} (dest : In6Addr)
    (grounded : Sends cfg env event c (.direct packet dest)) :
    Moves cfg env event c (sendPacketDirect env packet dest c) := by
  unfold sendPacketDirect
  split
  · exact .single (.send grounded)
  · exact .refl

theorem list_add_moves (request : DhcpPacket) :
    Moves cfg env (.client request) c (dhcpPacketListAdd env request c) := by
  unfold dhcpPacketListAdd
  split
  · refine .single (.cache fun entry member => ?_)
    rcases List.mem_append.mp member with old | new
    · exact .inl old
    · exact .inr ⟨request, rfl, List.mem_singleton.mp new⟩
  · exact .refl

/-! Packets of clients. -/

theorem replies_to {packet : DhcpPacket} {kind : UInt8} (type : messageType packet = kind)
    (other : kind ≠ dhcpRelease) : repliesTo (.client packet) :=
  .inr ⟨packet, rfl, type ▸ other⟩

theorem acked_moves {request : DhcpPacket} (replies : repliesTo event)
    (inside : position < cfg.blocks)
    (allowed : ∀ lease, leaseAt (c.blocks position) index = some lease →
      LeaseWrite cfg env event c position index lease
        (leaseTo request .leased (leaseEndFrom env c) lease))
    (acked : Acked cfg env c request position index after) : Moves cfg env event c after := by
  have written {lease : Lease} (entry : leaseAt (c.blocks position) index = some lease) :
      Moves cfg env event c (grantTo env c request position index lease) :=
    .single (.write inside entry (allowed lease entry))
  cases acked with
  | starved => exact .refl
  | unanswered entry => exact written entry
  | @answered lease reply entry _ address chaddr =>
      have registered : Registered cfg env (grantTo env c request position index lease) dhcpAck
          reply := by
        refine ⟨position, index, _, inside, by simpa [grantTo] using lease_at_put entry, ?_,
          chaddr.symm, .inr ⟨rfl, rfl, rfl⟩⟩
        simpa [grantTo, putLease] using address
      have answered : Moves cfg env event (grantTo env c request position index lease)
          (dhcpPacketSend env dhcpAck reply (grantTo env c request position index lease)).1 :=
        packet_send_moves (.inr ⟨replies, registered⟩)
      exact ((written entry).trans answered).trans (hook_moves _ _ _)

theorem discover_moves {discover : DhcpPacket} {value : Nat}
    (kind : messageType discover = dhcpDiscover)
    (offered : Offered cfg env c discover after value) : Moves cfg env (.client discover) c after := by
  have written {position index : Nat} {lease : Lease}
      (available : Available cfg c position index lease) :
      Moves cfg env (.client discover) c (offerTo env c discover position index lease) :=
    .single (.write available.inside available.entry (.offered rfl kind available.own available.free))
  have replied {position index : Nat} {lease : Lease} {reply : DhcpPacket}
      (available : Available cfg c position index lease)
      (address : reply.yiaddr = addrAdd (c.blocks position).subnet index)
      (chaddr : reply.chaddr = discover.chaddr) : Moves cfg env (.client discover) c
        (dhcpPacketSend env dhcpOffer reply (offerTo env c discover position index lease)).1 := by
    have registered : Registered cfg env (offerTo env c discover position index lease) dhcpOffer
        reply := by
      refine ⟨position, index, _, available.inside,
        by simpa [offerTo] using lease_at_put available.entry, ?_, chaddr.symm, .inl ⟨rfl, rfl⟩⟩
      simpa [offerTo, putLease] using address
    exact (written available).trans
      (packet_send_moves (.inr ⟨replies_to kind (by decide), registered⟩))
  cases offered with
  | exhausted => exact .refl
  | starved => exact .refl
  | unanswered available => exact written available
  | unsent available address chaddr => exact replied available address chaddr
  | sent available address chaddr =>
      refine (replied available address chaddr).tail (.unmark available.inside ?_)
      unfold dhcpPacketSend
      split <;> simpa [offerTo, putLease] using available.own

theorem forwarded_moves {request : DhcpPacket} {address : InAddr}
    (kind : messageType request = dhcpRequest)
    (elsewhere : Elsewhere cfg c request address position index)
    (forwarded : Forwarded cfg env c request address position index after) :
    Moves cfg env (.client request) c after := by
  have opens : Moves cfg env (.client request) c (opened env c position) :=
    .single (.allocate elsewhere.inside elsewhere.claimed)
  have claimed : ((opened env c position).blocks position).state = .claimed := by
    rw [opened, set_block_same, block_alloc_state, elsewhere.claimed]
  have noted {lease : Lease}
      (entry : leaseAt ((opened env c position).blocks position) index = some lease) :
      Moves cfg env (.client request) c
        (noteIn env (opened env c position) request position index lease) :=
    opens.tail (.write elsewhere.inside entry (.forwarded rfl kind claimed))
  cases forwarded with
  | starved entry => exact noted entry
  | passed dest entry =>
      exact ((noted entry).trans (list_add_moves request)).trans
        (send_direct_moves dest (.inl rfl))

theorem requested_moves {request : DhcpPacket} (kind : messageType request = dhcpRequest)
    (requested : Requested cfg env c request after) : Moves cfg env (.client request) c after := by
  cases requested with
  | acked granted acked =>
      rcases granted_grants granted with ⟨inside, own, lease, entry, grants⟩
      refine acked_moves (replies_to kind (by decide)) inside (fun other there => ?_) acked
      obtain rfl : lease = other := Option.some.inj (entry.symm.trans there)
      exact .granted rfl kind own grants
  | forwarded _ elsewhere forwarded => exact forwarded_moves kind elsewhere forwarded
  | refused _ _ refused => exact refused_moves refused

theorem released_moves {packet : DhcpPacket} (kind : messageType packet = dhcpRelease)
    (released : Released cfg env c packet after) : Moves cfg env (.client packet) c after := by
  cases released with
  | ignored => exact .refl
  | released releasable =>
      have ours := find_lease_ours (congrArg LeaseLookup.status releasable.place)
      rw [releasable.place] at ours
      exact .trans (.single (.write ours.1 releasable.entry
        (.released rfl kind releasable.place releasable.client))) (hook_moves _ _ _)

/-- A client packet. -/
theorem client_moves {packet : DhcpPacket} {value : Nat}
    (done : dhcpProcess cfg env packet c = some (after, value)) :
    Moves cfg env (.client packet) c after := by
  cases process_cases done with
  | discover kind offered => exact discover_moves kind offered
  | request kind requested => exact requested_moves kind requested
  | release kind released => exact released_moves kind released
  | inform kind informed =>
      cases informed with
      | starved => exact .refl
      | answered reply => exact packet_send_moves (.inl ⟨packet, rfl, kind⟩)
  | other => exact .refl

/-! Packets of other nodes. -/

theorem renewal_moves {packet : McastPacket} {sender : In6Addr} (direct : isDirect event)
    (received : Receives cfg env event packet) (kind : packet.command = msgRenewLease)
    (renewal : Renewal cfg env c packet sender after) : Moves cfg env event c after := by
  have prolonged {position index : Nat} {lease : Lease}
      (place : findLeaseFromAddress cfg c (rawAddress cfg packet.renewPayload.address) =
        ⟨0, position, index⟩)
      (entry : leaseAt (c.blocks position) index = some lease) :
      Moves cfg env event c (prolong env c position index lease) := by
    have ours := find_lease_ours (congrArg LeaseLookup.status place)
    rw [place] at ours
    exact .single (.write ours.1 entry (.renewed direct ours.2))
  cases renewal with
  | ignored => exact .refl
  | declined => exact send_direct_moves sender (.inr (.inl rfl))
  | unanswered place entry => exact prolonged place entry
  | @granted position index lease place entry =>
      have renewed : Renewed cfg env (prolong env c position index lease)
          (renewAnswer cfg packet msgLeaseAck) := by
        refine ⟨position, index, _, ?_, by simpa [prolong] using lease_at_put entry, rfl⟩
        exact (find_lease_congr _ (put_lease_state position index · _)).trans place
      exact (prolonged place entry).trans
        (send_direct_moves sender (.inr (.inr ⟨rfl, renewed, packet, received, kind, rfl⟩)))

theorem list_find_cache {xid : UInt32} {chaddr : HwAddr} {cached : CachedPacket}
    (found : dhcpPacketListFind xid chaddr c = some (cached, after)) :
    Moves cfg env event c after := by
  rcases Option.map_eq_some_iff.mp found with ⟨entry, -, same⟩
  cases same
  exact .single (.cache fun entry member => .inl (List.mem_of_mem_eraseP member))

theorem leaseack_moves {packet : McastPacket} (direct : isDirect event)
    (done : ddhcpDhcpLeaseack cfg env packet c = some after) : Moves cfg env event c after := by
  unfold ddhcpDhcpLeaseack at done
  split at done
  · cases done
    exact .refl
  · rename_i cached taken found
    split at done
    · rcases Option.map_eq_some_iff.mp done with ⟨⟨final, value⟩, handled, rfl⟩
      refine (list_find_cache found).trans ?_
      cases relay_cases handled with
      | unknown => exact .refl
      | acked place acked =>
          have foreign := find_lease_foreign (congrArg LeaseLookup.status place)
          rw [place] at foreign
          exact acked_moves (.inl direct) foreign.1 (fun lease _ => .relayed direct foreign.2) acked
    · contradiction

theorem leasenak_moves {packet : McastPacket}
    (done : ddhcpDhcpLeasenak env packet c = some after) : Moves cfg env event c after := by
  unfold ddhcpDhcpLeasenak at done
  split at done
  · cases done
    exact .refl
  · rename_i cached taken found
    split at done
    · cases done
      exact (list_find_cache found).trans (refused_moves (nack_refused cached.packet))
    · contradiction

/-- A datagram that was sent to this node alone. -/
theorem direct_moves {buffer : List UInt8} {len : Nat} {sender : In6Addr}
    (done : ddhcpDhcpProcess cfg env buffer len sender c = some after) :
    Moves cfg env (.direct buffer len sender) c after := by
  have direct : isDirect (.direct buffer len sender) := ⟨buffer, len, sender, rfl⟩
  cases dispatch_cases done with
  | ignored => exact .refl
  | renewal received kind renewal => exact renewal_moves direct received kind renewal
  | ack _ _ handled => exact leaseack_moves direct handled
  | nak _ _ handled => exact leasenak_moves handled

theorem control_moves (buffer : List UInt8) (len : Nat) :
    Moves cfg env (.control buffer len) c (handleCommand env buffer len c).1 := by
  have stored (options : List DhcpOption) :
      Moves cfg env (.control buffer len) c { c with options := options } :=
    .single (.store ⟨buffer, len, rfl⟩)
  unfold handleCommand
  simp only
  split
  · exact .refl
  split
  · exact .refl
  split
  · split
    · exact .refl
    split
    · exact .refl
    · exact stored _
  split
  · split
    · exact .refl
    · exact stored _
  split <;> exact .refl

end Ddhcpd.HandlerMoves

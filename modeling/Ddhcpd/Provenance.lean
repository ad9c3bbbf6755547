import Ddhcpd.Records
import Ddhcpd.Forwarding
import Ddhcpd.Needless
import Ddhcpd.Datagram

/-!
Where the entries of the tables come from. What is noted as offered or leased, in a block of ours or
in one of another node, was written for a packet the client has sent: under its transaction, for its
hardware address, and for the address it named if it was a request that named one.
-/

namespace Ddhcpd.Provenance
open Types Leases Blocks BlockPackets Dhcp LeasePackets Packet Node Path LeaseMoves Invariant Calls
open Handlers Answers Holders Records HouseKeeping
open Needless (packet_send_blocks answer_blocks)
open Datagram (find_option_copied)

/-- The packet itself, or the copy that is kept of a request that is passed on. -/
def ReadAs (packet read : DhcpPacket) : Prop := read = packet ∨ read = copyPacket packet

/-- The entry at the place was written for this packet of a client. -/
structure WrittenFor (cfg : Settings) (place : Nat × Nat) (lease : Lease) (packet : DhcpPacket) :
    Prop where
  client : lease.chaddr = packet.chaddr
  transaction : lease.xid = packet.xid
  type : messageType packet = dhcpRequest ∨ messageType packet = dhcpDiscover ∧ lease.state = .offered
  address : messageType packet = dhcpRequest → requestedAddress packet = none ∨
    ∃ read address, ReadAs packet read ∧ requestedAddress read = some address ∧
      placeOf cfg address = some place

/-- The packet that is kept is the copy of a request that names an address. -/
def KeptFor (kept request : DhcpPacket) : Prop :=
  messageType request = dhcpRequest ∧ (requestedAddress request).isSome ∧ kept = copyPacket request

section Events
variable {cfg : Settings} {env : Env} {event : Event} {c after : Config} {position index : Nat}
  {lease : Lease}

theorem copied_names {request : DhcpPacket} (named : (requestedAddress request).isSome) :
    (requestedAddress (copyPacket request)).isSome := by
  have found := find_option_copied request codeRequestedAddress
  have same : (copyPacket request).optionsLen = request.optionsLen := rfl
  have client : (copyPacket request).ciaddr = request.ciaddr := rfl
  unfold requestedAddress Options.findOptionRequestedAddress at named ⊢
  rw [same, found, client]
  cases here : Options.findOption request.options request.optionsLen codeRequestedAddress with
  | none => simpa [here] using named
  | some option => simp

/-- An entry is written: what is taken then was so before, or it is what was written. -/
theorem write_taken {place number : Nat} {old changed : Lease}
    (entry : leaseAt (c.blocks place) number = some old)
    (taken : Taken ((c.setBlock place (putLease (c.blocks place) number changed)).blocks position)
      index lease) :
    Taken (c.blocks position) index lease ∨ (position, index) = (place, number) ∧ lease = changed := by
  by_cases here : position = place
  · subst here
    rw [set_block_same] at taken
    rcases put_taken entry taken with before | ⟨rfl, written⟩
    · exact .inl before
    · exact .inr ⟨rfl, written⟩
  · rw [set_block_other _ _ _ _ here] at taken
    exact .inl taken

/-! Packets of clients. -/

theorem offer_taken {discover : DhcpPacket} {place number : Nat} {old : Lease}
    (kind : messageType discover = dhcpDiscover) (available : Available cfg c place number old)
    (taken : Taken ((offerTo env c discover place number old).blocks position) index lease) :
    Taken (c.blocks position) index lease ∨ WrittenFor cfg (position, index) lease discover := by
  rcases write_taken available.entry taken with before | ⟨-, rfl⟩
  · exact .inl before
  · refine .inr ⟨rfl, rfl, .inr ⟨kind, rfl⟩, fun request => ?_⟩
    exact absurd (kind.symm.trans request) (by decide)

theorem needed_taken {place : Nat} (taken : Taken ((neededAt c place).blocks position) index lease) :
    Taken (c.blocks position) index lease := by
  have same : ((neededAt c place).blocks position).addresses = (c.blocks position).addresses := by
    rw [neededAt, set_block_apply]
    split
    · rename_i here
      rw [here]
    · rfl
  exact (taken_congr same).mp taken

theorem offered_taken {discover : DhcpPacket} {value : Nat}
    (kind : messageType discover = dhcpDiscover) (offered : Offered cfg env c discover after value)
    (taken : Taken (after.blocks position) index lease) :
    Taken (c.blocks position) index lease ∨ WrittenFor cfg (position, index) lease discover := by
  cases offered with
  | exhausted => exact .inl taken
  | starved => exact .inl taken
  | unanswered available => exact offer_taken kind available taken
  | unsent available =>
      rw [packet_send_blocks] at taken
      exact offer_taken kind available taken
  | sent available =>
      have before := needed_taken taken
      rw [packet_send_blocks] at before
      exact offer_taken kind available before

/-- What an acknowledgement leaves is what was there, or the lease of the request. -/
theorem acked_taken {request : DhcpPacket} {place number : Nat}
    (acked : Acked cfg env c request place number after)
    (taken : Taken (after.blocks position) index lease) :
    Taken (c.blocks position) index lease ∨ (position, index) = (place, number) ∧
      lease.chaddr = request.chaddr ∧ lease.xid = request.xid := by
  have written {old : Lease} (entry : leaseAt (c.blocks place) number = some old)
      (granted : Taken ((grantTo env c request place number old).blocks position) index lease) :
      Taken (c.blocks position) index lease ∨ (position, index) = (place, number) ∧
        lease.chaddr = request.chaddr ∧ lease.xid = request.xid := by
    rcases write_taken entry granted with before | ⟨here, rfl⟩
    · exact .inl before
    · exact .inr ⟨here, rfl, rfl⟩
  cases acked with
  | starved => exact .inl taken
  | unanswered entry => exact written entry taken
  | answered entry =>
      rw [answer_blocks] at taken
      exact written entry taken

theorem granted_place {request : DhcpPacket} {place number : Nat}
    (granted : grantedTo cfg request c = some (place, number)) : requestedAddress request = none ∨
      ∃ read address, ReadAs request read ∧ requestedAddress read = some address ∧
        placeOf cfg address = some (place, number) := by
  cases named : requestedAddress request with
  | none => exact .inl rfl
  | some address =>
      exact .inr ⟨request, address, .inl rfl, named,
        place_of_found (granted_named named granted) (by decide)⟩

theorem noted_taken {request : DhcpPacket} {place number : Nat} {old : Lease}
    (entry : leaseAt ((opened env c place).blocks place) number = some old)
    (taken : Taken ((noteIn env (opened env c place) request place number old).blocks position)
      index lease) :
    Taken (c.blocks position) index lease ∨ (position, index) = (place, number) ∧
      lease.chaddr = request.chaddr ∧ lease.xid = request.xid := by
  rcases write_taken entry taken with before | ⟨here, rfl⟩
  · left
    rw [opened, set_block_apply] at before
    split at before
    · rename_i same
      subst same
      exact taken_alloc before
    · exact before
  · exact .inr ⟨here, rfl, rfl⟩

theorem requested_taken {request : DhcpPacket} (kind : messageType request = dhcpRequest)
    (requested : Requested cfg env c request after)
    (taken : Taken (after.blocks position) index lease) :
    Taken (c.blocks position) index lease ∨ WrittenFor cfg (position, index) lease request := by
  cases requested with
  | refused _ _ refused =>
      cases refused with
      | unsent => exact .inl taken
      | sent => exact .inl taken
  | acked granted acked =>
      rcases acked_taken acked taken with before | ⟨here, client, transaction⟩
      · exact .inl before
      · rw [here]
        exact .inr ⟨client, transaction, .inl kind, fun _ => granted_place granted⟩
  | @forwarded address place number _ _ elsewhere forwarded =>
      have noted : ∃ old, leaseAt ((opened env c place).blocks place) number = some old ∧
          after.blocks = (noteIn env (opened env c place) request place number old).blocks := by
        cases forwarded with
        | starved entry => exact ⟨_, entry, rfl⟩
        | passed dest entry =>
            refine ⟨_, entry, ?_⟩
            rw [DirectSends.send_direct_blocks, dhcpPacketListAdd]
            split <;> rfl
      obtain ⟨old, entry, same⟩ := noted
      rw [same] at taken
      rcases noted_taken entry taken with before | ⟨here, client, transaction⟩
      · exact .inl before
      · rw [here]
        exact .inr ⟨client, transaction, .inl kind, fun _ => .inr ⟨request, address, .inl rfl,
          elsewhere.requested, place_of_found elsewhere.place (by decide)⟩⟩

theorem released_taken {packet : DhcpPacket} (released : Released cfg env c packet after)
    (taken : Taken (after.blocks position) index lease) : Taken (c.blocks position) index lease := by
  cases released with
  | ignored => exact taken
  | @released place number old releasable =>
      have same : (releaseAt cfg env c packet place number old).blocks =
          (c.setBlock place (putLease (c.blocks place) number (Lease.released old))).blocks := by
        unfold releaseAt hookAddress
        split <;> rfl
      rw [same] at taken
      rcases write_taken releasable.entry taken with before | ⟨-, rfl⟩
      · exact before
      · exact absurd rfl taken.2

theorem client_taken {packet : DhcpPacket} {value : Nat}
    (done : dhcpProcess cfg env packet c = some (after, value))
    (taken : Taken (after.blocks position) index lease) :
    Taken (c.blocks position) index lease ∨ WrittenFor cfg (position, index) lease packet := by
  cases process_cases done with
  | discover kind offered => exact offered_taken kind offered taken
  | request kind requested => exact requested_taken kind requested taken
  | release _ released => exact .inl (released_taken released taken)
  | inform _ informed =>
      cases informed with
      | starved => exact .inl taken
      | answered reply =>
          rw [packet_send_blocks] at taken
          exact .inl taken
  | other => exact .inl taken

theorem client_kept {packet : DhcpPacket} {value : Nat} {cached : CachedPacket}
    (done : dhcpProcess cfg env packet c = some (after, value))
    (member : cached ∈ after.dhcpPacketCache) :
    cached ∈ c.dhcpPacketCache ∨ KeptFor cached.packet packet := by
  cases process_cases done with
  | discover _ offered =>
      rw [offered_cache offered] at member
      exact .inl member
  | release _ released =>
      rw [released_cache released] at member
      exact .inl member
  | inform _ informed =>
      cases informed with
      | starved => exact .inl member
      | answered reply =>
          rw [packet_send_cache] at member
          exact .inl member
  | other => exact .inl member
  | request kind requested =>
      cases requested with
      | refused _ _ refused =>
          rw [refused_cache refused] at member
          exact .inl member
      | acked _ acked =>
          rw [acked_cache acked] at member
          exact .inl member
      | forwarded _ elsewhere forwarded =>
          cases forwarded with
          | starved => exact .inl member
          | passed dest =>
              rw [send_direct_cache, dhcpPacketListAdd] at member
              split at member
              · rcases List.mem_append.mp member with before | entered
                · exact .inl before
                · rw [List.mem_singleton.mp entered]
                  exact .inr ⟨kind, by simp [elsewhere.requested], rfl⟩
              · exact .inl member

/-! Packets of other nodes. -/

/-- The entry was taken before, by the same client under the same transaction. -/
def Continues (c : Config) (position index : Nat) (lease : Lease) : Prop :=
  ∃ before, Taken (c.blocks position) index before ∧ lease.chaddr = before.chaddr ∧
    lease.xid = before.xid ∧ lease.state = before.state

theorem still_continues (taken : Taken (c.blocks position) index lease) : Continues c position index lease :=
  ⟨lease, taken, rfl, rfl, rfl⟩

theorem prolonged_continues {place number : Nat} {old : Lease}
    (entry : leaseAt (c.blocks place) number = some old)
    (taken : Taken ((prolong env c place number old).blocks position) index lease) :
    Continues c position index lease := by
  rcases write_taken entry taken with before | ⟨here, rfl⟩
  · exact still_continues before
  · cases here
    exact ⟨old, ⟨entry, taken.2⟩, rfl, rfl, rfl⟩

theorem renewal_continues {request : McastPacket} {sender : In6Addr}
    (renewal : Renewal cfg env c request sender after)
    (taken : Taken (after.blocks position) index lease) : Continues c position index lease := by
  cases renewal with
  | ignored => exact still_continues taken
  | declined =>
      rw [DirectSends.send_direct_blocks] at taken
      exact still_continues taken
  | unanswered _ entry => exact prolonged_continues entry taken
  | granted _ entry =>
      rw [DirectSends.send_direct_blocks] at taken
      exact prolonged_continues entry taken

/-- The entry is that of a request that was passed on, for the address it names. -/
def Relays (cfg : Settings) (place : Nat × Nat) (lease : Lease) (kept : DhcpPacket) : Prop :=
  lease.chaddr = kept.chaddr ∧ lease.xid = kept.xid ∧ placeOf cfg (addressOf kept) = some place

theorem leaseack_taken {request : McastPacket} (done : ddhcpDhcpLeaseack cfg env request c = some after)
    (taken : Taken (after.blocks position) index lease) : Taken (c.blocks position) index lease ∨
      ∃ cached ∈ c.dhcpPacketCache, Relays cfg (position, index) lease cached.packet := by
  unfold ddhcpDhcpLeaseack at done
  split at done
  · cases done
    exact .inl taken
  · rename_i cached middle found
    have member := LeaseSafety.list_find_member found
    obtain ⟨entry, -, same⟩ := Option.map_eq_some_iff.mp found
    cases same
    split at done
    · obtain ⟨⟨final, value⟩, handled, rfl⟩ := Option.map_eq_some_iff.mp done
      cases relay_cases handled with
      | unknown => exact .inl taken
      | acked found acked =>
          rcases acked_taken acked taken with before | ⟨here, client, transaction⟩
          · exact .inl before
          · rw [here]
            exact .inr ⟨cached, member, client, transaction, place_of_found found (by decide)⟩
    · contradiction

theorem leasenak_blocks {request : McastPacket} (done : ddhcpDhcpLeasenak env request c = some after) :
    after.blocks = c.blocks := by
  unfold ddhcpDhcpLeasenak at done
  split at done
  · cases done
    rfl
  · rename_i cached middle found
    obtain ⟨entry, -, same⟩ := Option.map_eq_some_iff.mp found
    cases same
    split at done
    · cases done
      exact nack_blocks _
    · contradiction

theorem direct_taken {buffer : List UInt8} {len : Nat} {sender : In6Addr}
    (done : ddhcpDhcpProcess cfg env buffer len sender c = some after)
    (taken : Taken (after.blocks position) index lease) : Continues c position index lease ∨
      ∃ cached ∈ c.dhcpPacketCache, Relays cfg (position, index) lease cached.packet := by
  cases dispatch_cases done with
  | ignored => exact .inl (still_continues taken)
  | renewal _ _ renewal => exact .inl (renewal_continues renewal taken)
  | ack _ _ handled => exact (leaseack_taken handled taken).imp_left still_continues
  | nak _ _ handled =>
      rw [leasenak_blocks handled] at taken
      exact .inl (still_continues taken)

/-- What one event may make of what is taken. -/
theorem event_taken (good : Good cfg c) (inside : position < cfg.blocks)
    (done : handle cfg env event c = some after) (taken : Taken (after.blocks position) index lease) :
    Continues c position index lease ∨
      (∃ cached ∈ c.dhcpPacketCache, Relays cfg (position, index) lease cached.packet) ∨
      ∃ packet, event = .client packet ∧ WrittenFor cfg (position, index) lease packet := by
  cases event with
  | houseKeeping => exact .inl (still_continues (house_keeping_taken good done inside taken).1)
  | mcast buffer len sender =>
      cases done
      have same : ((ddhcpBlockProcess cfg env buffer len sender c).blocks position).addresses =
          (c.blocks position).addresses := by
        unfold ddhcpBlockProcess
        split
        · exact block_moves_addresses good.sound BlockMoves.dispatch_moves position
        · rfl
      exact .inl (still_continues ((taken_congr same).mp taken))
  | direct buffer len sender =>
      rcases direct_taken done taken with kept | relayed
      · exact .inl kept
      · exact .inr (.inl relayed)
  | client packet =>
      obtain ⟨⟨final, value⟩, handled, rfl⟩ := Option.map_eq_some_iff.mp done
      rcases client_taken handled taken with before | written
      · exact .inl (still_continues before)
      · exact .inr (.inr ⟨packet, rfl, written⟩)
  | control buffer len =>
      cases done
      have same : (handleCommand env buffer len c).1.blocks = c.blocks := by
        unfold handleCommand
        simp only
        split_ifs <;> rfl
      rw [same] at taken
      exact .inl (still_continues taken)

theorem event_kept {cached : CachedPacket} (good : Good cfg c)
    (done : handle cfg env event c = some after) (member : cached ∈ after.dhcpPacketCache) :
    cached ∈ c.dhcpPacketCache ∨ ∃ packet, event = .client packet ∧ KeptFor cached.packet packet := by
  rcases Forwarding.cached_from good done member with before | ⟨packet, rfl, -⟩
  · exact .inl before
  · obtain ⟨⟨final, value⟩, handled, rfl⟩ := Option.map_eq_some_iff.mp done
    exact (client_kept handled member).imp_right fun kept => ⟨packet, rfl, kept⟩

end Events

/-! Runs. -/

section Runs
variable {cfg : Settings} {allowed : Env → Prop} {labels : List (Env × Event)} {s : NodeState}

/-- The client has sent the packet in the run. -/
def Heard (labels : List (Env × Event)) (packet : DhcpPacket) : Prop :=
  ∃ env, (env, .client packet) ∈ labels

/-- Every entry and every kept request stems from a packet of a client. -/
structure Stemming (cfg : Settings) (labels : List (Env × Event)) (c : Config) : Prop where
  leases : ∀ position < cfg.blocks, ∀ index lease, Taken (c.blocks position) index lease →
    ∃ packet, Heard labels packet ∧ WrittenFor cfg (position, index) lease packet
  requests : ∀ cached ∈ c.dhcpPacketCache, ∃ packet, Heard labels packet ∧ KeptFor cached.packet packet

theorem written_continues {position index : Nat} {before lease : Lease}
    {packet : DhcpPacket} (written : WrittenFor cfg (position, index) before packet)
    (client : lease.chaddr = before.chaddr) (transaction : lease.xid = before.xid)
    (state : lease.state = before.state) : WrittenFor cfg (position, index) lease packet :=
  ⟨client.trans written.client, transaction.trans written.transaction, state ▸ written.type,
    written.address⟩

/-- A lease that another node has acknowledged was written for the request that was kept. -/
theorem relayed_written {place : Nat × Nat} {lease : Lease} {kept packet : DhcpPacket}
    (relays : Relays cfg place lease kept) (keeps : KeptFor kept packet) :
    WrittenFor cfg place lease packet := by
  obtain ⟨client, transaction, here⟩ := relays
  obtain ⟨kind, named, rfl⟩ := keeps
  obtain ⟨address, same⟩ := Option.isSome_iff_exists.mp (copied_names named)
  rw [addressOf, same, Option.getD_some] at here
  exact ⟨client, transaction, .inl kind, fun _ => .inr ⟨_, address, .inr rfl, same, here⟩⟩

theorem heard_later {label : Env × Event} {packet : DhcpPacket} (heard : Heard labels packet) :
    Heard (labels ++ [label]) packet :=
  heard.imp fun _ member => List.mem_append_left _ member

theorem step_stemming {env : Env} {event : Event} {c after : Config} (good : Good cfg c)
    (stems : Stemming cfg labels c) (done : handle cfg env event c = some after) :
    Stemming cfg (labels ++ [(env, event)]) after where
  leases position inside index lease taken := by
    rcases event_taken good inside done taken with
      ⟨before, was, client, transaction, state⟩ | ⟨cached, member, relays⟩ | ⟨packet, rfl, written⟩
    · obtain ⟨packet, heard, written⟩ := stems.leases position inside index before was
      exact ⟨packet, heard_later heard, written_continues written client transaction state⟩
    · obtain ⟨packet, heard, keeps⟩ := stems.requests cached member
      exact ⟨packet, heard_later heard, relayed_written relays keeps⟩
    · exact ⟨packet, ⟨env, by simp⟩, written⟩
  requests cached member := by
    rcases event_kept good done member with before | ⟨packet, rfl, keeps⟩
    · obtain ⟨packet, heard, keeps⟩ := stems.requests cached before
      exact ⟨packet, heard_later heard, keeps⟩
    · exact ⟨packet, ⟨env, by simp⟩, keeps⟩

theorem runs_stemming (run : Runs cfg allowed labels s) : Stemming cfg labels s.config := by
  obtain ⟨now, options, path⟩ := run
  let claim (labels : List (Env × Event)) (s : NodeState) : Prop :=
    Good cfg s.config ∧ Stemming cfg labels s.config
  have start : claim [] ⟨now, startConfig cfg now options⟩ :=
    ⟨start_good cfg now options, fun _ _ _ _ taken => absurd taken (taken_nothing rfl), by
      simp [startConfig]⟩
  refine (path_induction claim start (fun labels s label t _ known step => ?_) path).2
  refine ⟨step_good known.1 step.1, ?_⟩
  cases step.1 with
  | event env event _ done => exact step_stemming known.1 known.2 done

/-- Whatever is offered or leased was asked for by the client it is noted for. -/
theorem leases_stem_from_clients {position index : Nat} {lease : Lease}
    (run : Runs cfg allowed labels s) (inside : position < cfg.blocks)
    (taken : Taken (s.config.blocks position) index lease) :
    ∃ packet, Heard labels packet ∧ WrittenFor cfg (position, index) lease packet :=
  (runs_stemming run).leases position inside index lease taken

def leasedRun : List (Env × Event) :=
  ownedRun ++ [(calmEnv 1004, .client (smallPacket 1 7 dhcpDiscover)),
    (calmEnv 1005, .client (smallPacket 1 7 dhcpRequest))]

theorem leases_stem_from_clients_small : ∃ s lease packet,
    Runs (smallNode 1) (fun _ => True) leasedRun s ∧ Taken (s.config.blocks 0) 0 lease ∧
    lease.state = .leased ∧ Heard leasedRun packet ∧ WrittenFor (smallNode 1) (0, 0) lease packet := by
  have evaluated : ((runEvents (smallNode 1) smallStart leasedRun).any fun s =>
      (leaseAt (s.config.blocks 0) 0).any fun lease => lease.state = .leased) = true := by
    decide +kernel
  obtain ⟨s, done, facts⟩ := (Option.any_eq_true _ _).mp evaluated
  obtain ⟨lease, entry, leased⟩ := (Option.any_eq_true _ _).mp facts
  have state := of_decide_eq_true leased
  have run : Runs (smallNode 1) (fun _ => True) leasedRun s := small_runs (fun _ _ => trivial) done
  have busy : Taken (s.config.blocks 0) 0 lease := by
    refine ⟨entry, ?_⟩
    rw [state]
    exact fun free => absurd free (by decide)
  obtain ⟨packet, heard, written⟩ := leases_stem_from_clients run (by decide) busy
  exact ⟨s, lease, packet, run, busy, state, heard, written⟩

end Runs

end Ddhcpd.Provenance

import Ddhcpd.Needless

/-!
What an offer is worth. Until it runs out, a request of its client for the address is
acknowledged, whatever is handled in between, if the block stays ours, the client does
not give the address back and no other client asks for it under the transaction of the offer.
-/

namespace Ddhcpd.Offers
open Types Leases Blocks Dhcp Node Path LeaseMoves Invariant Calls Handlers Exclusive
open Needless (packet_send_blocks answer_blocks)

/-- A step that leaves the offer of the address to the client as it is, or makes it a lease. -/
def SparingStep (cfg : Settings) (seconds : UInt32) (address : InAddr) (chaddr : HwAddr)
    (xid : UInt32) (s : NodeState) (label : Env × Event) (t : NodeState) : Prop :=
  HoldingStep cfg seconds address chaddr s label t ∧
    Unmixed address chaddr (fun known => known = xid) label.2

section Offers
variable {cfg : Settings} {env : Env} {c after : Config} {address : InAddr} {chaddr : HwAddr}
  {seconds xid : UInt32} {ends : Time} {s t : NodeState} {labels : List (Env × Event)}

/-! An offer. -/

theorem send_outputs {type kind : UInt8} {packet reply : DhcpPacket} {got : Bool}
    (member : .dhcp kind reply got ∈ sent c (dhcpPacketSend env type packet c).1) :
    kind = type ∧ reply = packet := by
  unfold dhcpPacketSend sent at member
  split at member
  · simp only [Config.emit, List.drop_left, List.mem_singleton, Output.dhcp.injEq] at member
    exact ⟨member.1, member.2.1⟩
  · simp at member

theorem lease_of_blocks (same : after.blocks = c.blocks) :
    leaseOf cfg after address = leaseOf cfg c address :=
  lease_of_congr (fun _ => by rw [same]) fun _ _ => by rw [same]

theorem needed_lease (c : Config) (position : Nat) :
    leaseOf cfg (neededAt c position) address = leaseOf cfg c address := by
  apply lease_of_congr
  · intro other
    rw [neededAt, set_block_apply]
    split
    · rename_i here
      rw [here]
    · rfl
  · intro other _
    rw [neededAt]
    apply set_block_addresses
    rfl

/-- What is offered is a lease that is noted for the client. -/
theorem offered_bound {discover reply : DhcpPacket} {got : Bool} (good : Good cfg c)
    (kind : messageType discover = dhcpDiscover)
    (done : handle cfg env (.client discover) c = some after)
    (offered : .dhcp dhcpOffer reply got ∈ sent c after) :
    Bound cfg reply.yiaddr discover.chaddr (env.now + dhcpOfferTimeout)
      (fun xid => xid = discover.xid) after := by
  have written {position index : Nat} {lease : Lease} {packet : DhcpPacket}
      (available : Available cfg c position index lease)
      (named : packet.yiaddr = addrAdd (c.blocks position).subnet index)
      (member : .dhcp dhcpOffer reply got ∈ sent c (dhcpPacketSend env dhcpOffer packet
        (offerTo env c discover position index lease)).1) :
      Bound cfg reply.yiaddr discover.chaddr (env.now + dhcpOfferTimeout) (fun xid => xid = discover.xid)
        (dhcpPacketSend env dhcpOffer packet (offerTo env c discover position index lease)).1 := by
    have same : reply = packet := (send_outputs (c := offerTo env c discover position index lease)
      member).2
    have place := find_lease_add (c := c) available.inside (entry_below good.sound available.entry)
    rw [← (good.sound position).subnet, ← named, ← same, if_pos available.own] at place
    refine ⟨leaseTo discover .offered (env.now + dhcpOfferTimeout) lease, ?_, rfl, Nat.le_refl _,
      .inr ⟨rfl, rfl⟩⟩
    rw [lease_of_blocks (packet_send_blocks dhcpOffer packet), offerTo, lease_of_put available.entry, if_pos place]
  obtain ⟨⟨final, value⟩, handled, rfl⟩ := Option.map_eq_some_iff.mp done
  cases process_cases handled with
  | request other => exact absurd (kind.symm.trans other) (by decide)
  | release other => exact absurd (kind.symm.trans other) (by decide)
  | inform other => exact absurd (kind.symm.trans other) (by decide)
  | other => simp [sent] at offered
  | discover _ offers =>
      cases offers with
      | exhausted => simp [sent] at offered
      | starved => simp [sent] at offered
      | unanswered => simp [sent, offerTo, Config.setBlock] at offered
      | unsent available named => exact written available named offered
      | sent available named =>
          exact bound_congr (written available named offered) (needed_lease _ _)

/-! The request for what was offered. -/

/-- The lease is granted to the request. -/
theorem bound_granted {request : DhcpPacket} {xids : UInt32 → Prop}
    (bound : Bound cfg address chaddr ends xids c) (client : request.chaddr = chaddr)
    (named : requestedAddress request = some address) : ∃ position index lease,
      findLeaseFromAddress cfg c address = ⟨0, position, index⟩ ∧
      leaseAt (c.blocks position) index = some lease ∧
      grantedTo cfg request c = some (position, index) := by
  obtain ⟨lease, known, owner, -⟩ := bound
  obtain ⟨position, index, place, entry⟩ := lease_of_iff.mp known
  have may : mayAcknowledge request lease = true := by simp [mayAcknowledge, client, owner]
  exact ⟨position, index, lease, place, entry, by simp [grantedTo, named, place, entry, may]⟩

/-- The world lets a reply out. -/
def Answering (env : Env) : Prop :=
  env.alloc .replyPacket = true ∧ env.alloc .replyOptions = true ∧ env.alloc .replyBuffer = true

theorem answered_sent {reply : DhcpPacket} {middle : Config} (answering : Answering env)
    (silent : middle.out = c.out) :
    .dhcp dhcpAck reply env.dhcpSent ∈ sent c (answerTo cfg env middle reply) := by
  have sends : (dhcpPacketSend env dhcpAck reply middle).1.out =
      c.out ++ [.dhcp dhcpAck reply env.dhcpSent] := by
    simp [dhcpPacketSend, answering.2.2, Config.emit, silent]
  unfold sent answerTo hookAddress
  split
  · simp only [Config.emit, sends, List.append_assoc, List.drop_left]
    exact List.mem_cons_self
  · simp [sends]

/-- A request of the client a lease is noted for is acknowledged. -/
theorem bound_acknowledged {request : DhcpPacket} {xids : UInt32 → Prop} (good : Good cfg c)
    (bound : Bound cfg address chaddr ends xids c) (kind : messageType request = dhcpRequest)
    (client : request.chaddr = chaddr) (named : requestedAddress request = some address)
    (answering : Answering env) (done : handle cfg env (.client request) c = some after) :
    Replies dhcpAck address chaddr (.client request) c after ∧
      leaseOf cfg after address = some ⟨chaddr, .leased, request.xid, leaseEndFrom env c⟩ := by
  obtain ⟨position, index, lease, place, entry, granted⟩ := bound_granted bound client named
  have asks : ¬ informs (.client request) := by
    rintro ⟨packet, same, other⟩
    cases same
    exact absurd (kind.symm.trans other) (by decide)
  have own := find_lease_ours (congrArg LeaseLookup.status place)
  rw [place] at own
  obtain ⟨⟨final, value⟩, handled, rfl⟩ := Option.map_eq_some_iff.mp done
  cases process_cases handled with
  | discover other => exact absurd (kind.symm.trans other) (by decide)
  | release other => exact absurd (kind.symm.trans other) (by decide)
  | inform other => exact absurd (kind.symm.trans other) (by decide)
  | other unasked => exact absurd kind unasked
  | request _ requested =>
      cases requested with
      | forwarded ungranted => exact absurd (ungranted.symm.trans granted) (by simp)
      | refused ungranted => exact absurd (ungranted.symm.trans granted) (by simp)
      | acked same acked =>
          cases granted.symm.trans same
          cases acked with
          | starved starved => exact absurd (starved.symm.trans answering.1) (by decide)
          | unanswered _ _ starved => exact absurd (starved.symm.trans answering.2.1) (by decide)
          | @answered lease reply there _ address chaddr =>
              have back := find_lease_address good.sound (c := c) (by rw [place]; exact Nat.zero_ne_add_one 1)
              rw [place] at back
              refine ⟨⟨asks, reply, _, answered_sent answering rfl, address.trans back,
                chaddr.trans client⟩, ?_⟩
              rw [lease_of_blocks (answer_blocks reply), grantTo, lease_of_put there, if_pos place,
                leaseTo, client]

/-! From the offer to the request. -/

theorem lease_end_late (lasts : LeaseTime seconds c) (enough : 2 ≤ seconds.toNat)
    (soon : ends ≤ env.now + dhcpOfferTimeout) : ends ≤ leaseEndFrom env c := by
  have margin : dhcpOfferTimeout ≤ seconds.toNat + dhcpLeaseServerDelta := Nat.add_le_add_right enough 10
  rw [lease_time_end lasts, Nat.add_assoc]
  exact Nat.le_trans soon (Nat.add_le_add_left margin env.now)

/-- Along a path that spares it the offer stays, or becomes a lease of the client. -/
theorem offer_path (enough : 2 ≤ seconds.toNat)
    (path : Path (SparingStep cfg seconds address chaddr xid) s labels t) (good : Good cfg s.config)
    (lasts : LeaseTime seconds s.config) (soon : ends ≤ s.clock + dhcpOfferTimeout)
    (live : t.clock ≤ ends)
    (bound : Bound cfg address chaddr ends (fun known => known = xid) s.config) :
    Good cfg t.config ∧ LeaseTime seconds t.config ∧ ends ≤ t.clock + dhcpOfferTimeout ∧
      Bound cfg address chaddr ends (fun known => known = xid) t.config := by
  have clock : ∀ {s labels t}, Path (SparingStep cfg seconds address chaddr xid) s labels t →
      s.clock ≤ t.clock := by
    intro s labels t path
    induction path with
    | refl => exact Nat.le_refl _
    | next move _ ih => exact Nat.le_trans (step_clock move.1.1).1 ih
  induction path with
  | refl => exact ⟨good, lasts, soon, bound⟩
  | next move rest ih =>
      obtain ⟨⟨step, lasts', owns, kept⟩, unmixed⟩ := move
      have onwards := (step_clock step).1
      have passed := clock rest
      refine ih (step_good good step) lasts' (Nat.le_trans soon (Nat.add_le_add_right onwards _))
        live ?_
      cases step with
      | @event _ c _ env event later done =>
          have fair : Fair cfg c address event := by
            intro lease known offered
            obtain ⟨same, there, rfl, -, leased | ⟨-, rfl⟩⟩ := bound
            · obtain rfl : lease = same := Option.some.inj (known.symm.trans there)
              rw [offered] at leased
              contradiction
            · obtain rfl : lease = same := Option.some.inj (known.symm.trans there)
              exact unmixed
          exact bound_event good bound (Nat.le_trans passed live)
            (lease_end_late lasts enough (Nat.le_trans soon (Nat.add_le_add_right later _))) kept
            fair done owns

/-- An offer is kept: a request of the client for the address that comes before the offer runs out is
acknowledged. -/
theorem offers_honoured {first last : NodeState} {env' : Env} {discover request reply : DhcpPacket}
    {got : Bool} (reached : Reachable cfg first) (lasts : LeaseTime seconds first.config)
    (enough : 2 ≤ seconds.toNat) (kind : messageType discover = dhcpDiscover)
    (offering : Step cfg first (env, .client discover) s)
    (offered : .dhcp dhcpOffer reply got ∈ sent first.config s.config)
    (held : Path (SparingStep cfg seconds reply.yiaddr discover.chaddr discover.xid) s labels t)
    (later : Step cfg t (env', .client request) last)
    (early : env'.now ≤ env.now + dhcpOfferTimeout) (answering : Answering env')
    (asks : messageType request = dhcpRequest) (client : request.chaddr = discover.chaddr)
    (named : requestedAddress request = some reply.yiaddr) :
    Replies dhcpAck reply.yiaddr discover.chaddr (.client request) t.config last.config ∧
      leaseOf cfg last.config reply.yiaddr = some ⟨discover.chaddr, .leased, request.xid,
        env'.now + seconds.toNat + dhcpLeaseServerDelta⟩ := by
  have good := reachable_good reached
  have reachedGood := step_good good offering
  have clock := (step_clock offering).2
  have bound : LeaseTime seconds s.config ∧ Bound cfg reply.yiaddr discover.chaddr
      (env.now + dhcpOfferTimeout) (fun known => known = discover.xid) s.config := by
    cases offering with
    | event _ _ _ done =>
        obtain ⟨⟨final, value⟩, handled, rfl⟩ := Option.map_eq_some_iff.mp done
        have options := lease_moves_options (HandlerMoves.client_moves handled) (by simp)
        refine ⟨?_, offered_bound good kind done offered⟩
        rw [LeaseTime, options]
        exact lasts
  have live : t.clock ≤ env.now + dhcpOfferTimeout := by
    have before := step_clock later
    exact Nat.le_trans (Nat.le_trans before.1 (Nat.le_of_eq before.2)) early
  obtain ⟨goodThen, lastsThen, -, bound⟩ := offer_path enough held reachedGood bound.1
    (Nat.add_le_add_right (Nat.le_of_eq clock.symm) _) live bound.2
  cases later with
  | event _ _ _ done =>
      rw [← lease_time_end lastsThen env']
      exact bound_acknowledged goodThen bound asks client named answering done

end Offers

theorem reply_of_any {type : UInt8} {address : InAddr} {chaddr : HwAddr} {c after : Config}
    (found : (sent c after).any (isReply type address chaddr) = true) :
    ∃ reply got, .dhcp type reply got ∈ sent c after ∧ reply.yiaddr = address := by
  obtain ⟨output, member, form⟩ := List.any_eq_true.mp found
  cases output with
  | dhcp kind reply got =>
      simp only [isReply, decide_eq_true_eq] at form
      exact ⟨reply, got, form.1 ▸ member, form.2.1⟩
  | mcast => simp [isReply] at form
  | direct => simp [isReply] at form
  | hook => simp [isReply] at form

-- Client 9 is offered the address at 1004, client 8 asks for it at 1005, and client 9 at 1006.
theorem offers_honoured_small : ∃ t last : NodeState,
    Replies dhcpAck smallAddress (smallClient 9) (smallRequest 9) t.config last.config ∧
    leaseOf (smallNode 1) last.config smallAddress = some ⟨smallClient 9, .leased, 7, 1316⟩ := by
  have evaluated : (runEvents (smallNode 1) smallStart ownedRun).any (fun first =>
      (handle (smallNode 1) (calmEnv 1004) (.client (smallPacket 9 7 dhcpDiscover)) first.config).any
        fun c => (handle (smallNode 1) (calmEnv 1005) (.client (smallPacket 8 5 dhcpRequest)) c).any
          fun c' => (handle (smallNode 1) (calmEnv 1006) (smallRequest 9) c').any fun _ =>
            first.clock = 1003 ∧ first.config.options = smallStart.config.options ∧
            c'.options = smallStart.config.options ∧
            (findLeaseFromAddress (smallNode 1) c' smallAddress).status = 0 ∧
            (sent first.config c).any (isReply dhcpOffer smallAddress (smallClient 9))) = true := by
    decide +kernel
  obtain ⟨⟨clock, first⟩, run, rest⟩ := (Option.any_eq_true _ _).mp evaluated
  obtain ⟨c, offering, rest⟩ := (Option.any_eq_true _ _).mp rest
  obtain ⟨c', between, rest⟩ := (Option.any_eq_true _ _).mp rest
  obtain ⟨after, later, facts⟩ := (Option.any_eq_true _ _).mp rest
  obtain ⟨rfl, options, options', owns', offered⟩ := of_decide_eq_true facts
  obtain ⟨reply, got, member, address⟩ := reply_of_any offered
  have reached : Reachable (smallNode 1) ⟨1003, first⟩ := ⟨_, small_runs (fun _ _ => trivial) run⟩
  have middle : SparingStep (smallNode 1) 300 smallAddress (smallClient 9) 7 ⟨1004, c⟩
      (calmEnv 1005, .client (smallPacket 8 5 dhcpRequest)) ⟨1005, c'⟩ := by
    refine ⟨⟨.event (calmEnv 1005) _ (by decide) between, small_lease_time options', owns', ?_⟩, ?_⟩
    · rintro ⟨packet, same, release, -⟩
      cases same
      exact absurd release (by decide)
    · rintro request same - - other
      cases same
      exact absurd other (by decide)
  have last : Step (smallNode 1) ⟨1005, c'⟩ (calmEnv 1006, smallRequest 9) ⟨1006, after⟩ :=
    .event (calmEnv 1006) _ (by decide) later
  have kept := offers_honoured (t := ⟨1005, c'⟩) reached (small_lease_time options) (by decide) rfl
    (.event (calmEnv 1004) _ (by decide) offering) member (by
      rw [address]
      exact .next middle (.refl _)) last (by decide) ⟨rfl, rfl, rfl⟩ rfl rfl (by
      rw [address]
      decide)
  rw [address] at kept
  exact ⟨_, _, kept⟩

end Ddhcpd.Offers

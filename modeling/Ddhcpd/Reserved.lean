import Ddhcpd.Exclusive
import Ddhcpd.LeaseSafety

/-!
Whom an offered address is kept for. A request is compared with the lease by transaction
or by hardware address, either is enough; so an offer is open to every client that uses
the same transaction number.
-/

namespace Ddhcpd.Reserved
open Types Leases Blocks Dhcp Node LeaseMoves Invariant Calls Handlers Exclusive LeaseSafety

/-- The lease is as it was, and the request was not acknowledged. -/
def Withheld (c : Config) (position index : Nat) (lease : Lease) (after : Config) : Prop :=
  leaseAt (after.blocks position) index = some lease ∧
    ∀ reply got, .dhcp dhcpAck reply got ∉ sent c after

section Requests
variable {cfg : Settings} {env : Env} {c : Config} {request : DhcpPacket} {address : InAddr}
  {position index : Nat} {lease : Lease}

/-- `dhcp_hdl_request` where the address is in a block of ours. -/
theorem request_own (env : Env) (requested : requestedAddress request = some address)
    (place : findLeaseFromAddress cfg c address = ⟨0, position, index⟩)
    (own : (c.blocks position).state = .ours)
    (entry : leaseAt (c.blocks position) index = some lease) :
    dhcpHdlRequest cfg env request c =
      if mayAcknowledge request lease then
        (dhcpAckLease cfg env request position index c).map fun acked => (acked.1, (acked.2 : Int))
      else some ((dhcpNack env request c).1, 2) := by
  have known : 0 ≠ 2 := by decide
  have claimed : BlockState.ours ≠ .claimed := by decide
  unfold dhcpHdlRequest
  simp only [requested, place, known, own, claimed, entry, Option.bind_eq_bind, Option.bind_some,
    ↓reduceIte]
  split
  · cases dhcpAckLease cfg env request position index c <;> rfl
  · rfl

/-- `dhcp_hdl_request` where it acknowledges a lease. -/
theorem request_granted (env : Env) (granted : grantedTo cfg request c = some (position, index)) :
    dhcpHdlRequest cfg env request c =
      (dhcpAckLease cfg env request position index c).map fun acked => (acked.1, (acked.2 : Int)) := by
  cases requested : requestedAddress request with
  | some address =>
      have place := granted_named requested granted
      obtain ⟨-, own, lease, entry, -⟩ := granted_grants granted
      have may : mayAcknowledge request lease = true := by
        simpa [grantedTo, requested, place, entry] using granted
      rw [request_own env requested place own entry, if_pos may]
  | none =>
      have found : findOfferedLease cfg request c = some (some (position, index)) := by
        simpa [grantedTo, requested, Option.join_eq_some_iff] using granted
      simp only [dhcpHdlRequest, requested, found, Option.bind_eq_bind, Option.bind_some]
      cases dhcpAckLease cfg env request position index c <;> rfl

/-- An acknowledgement registers its client. -/
theorem acked_registers {after : Config} (memory : env.alloc .replyPacket = true)
    (entry : leaseAt (c.blocks position) index = some lease)
    (acked : Acked cfg env c request position index after) :
    leaseAt (after.blocks position) index =
      some (leaseTo request .leased (leaseEndFrom env c) lease) := by
  have granted (other : Lease) : leaseAt ((grantTo env c request position index other).blocks
      position) index = some (leaseTo request .leased (leaseEndFrom env c) lease) := by
    rw [grantTo, set_block_same]
    exact lease_at_put entry
  cases acked with
  | starved starved =>
      rw [memory] at starved
      contradiction
  | @unanswered other => exact granted other
  | @answered other =>
      rw [← granted other]
      unfold answerTo hookAddress dhcpPacketSend
      split <;> split <;> rfl

theorem nack_withholds (entry : leaseAt (c.blocks position) index = some lease) :
    Withheld c position index lease (dhcpNack env request c).1 := by
  have refused : Emits (fun output => ∀ reply got, output ≠ .dhcp dhcpAck reply got) c
      (dhcpNack env request c).1 := by
    apply refused_emits (nack_refused request)
    intro _ _ reply got same
    cases same
  refine ⟨by rw [nack_blocks]; exact entry, fun reply got member => ?_⟩
  exact emits_sent refused member reply got rfl

theorem may_acknowledge_taken (taken : lease.state = .offered ∨ lease.state = .leased)
    (other : request.chaddr ≠ lease.chaddr) : mayAcknowledge request lease = true ↔
      lease.state = .offered ∧ lease.xid = request.xid := by
  have used : lease.state ≠ .free := by
    rcases taken with offered | leased
    · simp [offered]
    · simp [leased]
  simp [mayAcknowledge, other, used]

end Requests

/-- Another client gets the lease by using the transaction number of the offer. -/
theorem offer_withheld_iff {cfg : Settings} {s : NodeState} {request : DhcpPacket}
    (env : Env) {position index : Nat} {lease : Lease} (reached : Reachable cfg s)
    (inside : position < cfg.blocks) (own : (s.config.blocks position).state = .ours)
    (entry : leaseAt (s.config.blocks position) index = some lease)
    (taken : lease.state = .offered ∨ lease.state = .leased)
    (other : request.chaddr ≠ lease.chaddr)
    (requested : requestedAddress request =
      some (addrAdd (s.config.blocks position).subnet index)) :
    ∃ after value, dhcpHdlRequest cfg env request s.config = some (after, value) ∧
      (Withheld s.config position index lease after ↔
        ¬ (lease.state = .offered ∧ lease.xid = request.xid ∧ env.alloc .replyPacket = true)) := by
  have sound := (reachable_good reached).sound
  have place : findLeaseFromAddress cfg s.config (addrAdd (s.config.blocks position).subnet index) =
      ⟨0, position, index⟩ := by
    rw [(sound position).subnet, find_lease_add inside (entry_below sound entry), if_pos own]
  have handled := request_own env requested place own entry
  by_cases may : mayAcknowledge request lease = true
  · obtain ⟨offered, same⟩ := (may_acknowledge_taken taken other).mp may
    obtain ⟨⟨after, value⟩, ack⟩ : ∃ result,
        dhcpAckLease cfg env request position index s.config = some result := ack_there entry request
    rw [if_pos may, ack] at handled
    refine ⟨after, value, handled, ?_⟩
    by_cases memory : env.alloc .replyPacket = true
    · have registered := acked_registers memory entry (ack_cases ack)
      simp only [offered, same, memory, and_self, not_true_eq_false, iff_false]
      intro withheld
      rw [withheld.1] at registered
      exact other (congrArg Lease.chaddr (Option.some.inj registered)).symm
    · have nothing : after = s.config := by
        simp only [dhcpAckLease, memory, Bool.false_eq_true, not_false_eq_true, ↓reduceIte,
          Option.some.injEq, Prod.mk.injEq] at ack
        exact ack.1.symm
      simp [Withheld, entry, sent, nothing, memory]
  · rw [if_neg may] at handled
    refine ⟨_, _, handled, ?_⟩
    have barred : ¬ (lease.state = .offered ∧ lease.xid = request.xid ∧
        env.alloc .replyPacket = true) := fun open_to =>
      may ((may_acknowledge_taken taken other).mpr ⟨open_to.1, open_to.2.1⟩)
    simp only [barred, not_false_eq_true, iff_true]
    exact nack_withholds entry

/-- The address of the network is offered to client 7 under transaction 9. -/
theorem offered_small : ∃ s : NodeState, Reachable (smallNode 1) s ∧
    (s.config.blocks 0).state = .ours ∧
    leaseAt (s.config.blocks 0) 0 = some ⟨smallClient 7, .offered, 9, 1022⟩ ∧
    addrAdd (s.config.blocks 0).subnet 0 = 0x0A000000 := by
  have evaluated : (runEvents (smallNode 1) smallStart
      (ownedRun ++ [(calmEnv 1010, .client (smallPacket 7 9 dhcpDiscover))])).any (fun s =>
        (s.config.blocks 0).state = .ours ∧
        leaseAt (s.config.blocks 0) 0 = some ⟨smallClient 7, .offered, 9, 1022⟩ ∧
        addrAdd (s.config.blocks 0).subnet 0 = 0x0A000000) = true := by decide +kernel
  obtain ⟨s, run, facts⟩ := (Option.any_eq_true _ _).mp evaluated
  exact ⟨s, ⟨_, small_runs (fun _ _ => trivial) run⟩, of_decide_eq_true facts⟩

theorem offer_withheld_iff_small : ∃ (s : NodeState) (after : Config) (value : Int),
    dhcpHdlRequest (smallNode 1) (calmEnv 1011) (smallPacket 8 5 dhcpRequest) s.config =
      some (after, value) ∧
    Withheld s.config 0 0 ⟨smallClient 7, .offered, 9, 1022⟩ after := by
  obtain ⟨s, reached, own, entry, address⟩ := offered_small
  have named : requestedAddress (smallPacket 8 5 dhcpRequest) =
      some (addrAdd (s.config.blocks 0).subnet 0) := by
    rw [address]
    rfl
  obtain ⟨after, value, done, exactly⟩ := offer_withheld_iff (calmEnv 1011) reached
    (by decide) own entry (.inl rfl) (by decide +kernel) named
  exact ⟨s, after, value, done, exactly.mpr (by decide +kernel)⟩

def acknowledges : Output → Bool
  | .dhcp type _ _ => type = dhcpAck
  | _ => false

-- Client 8 has no offer, but uses transaction 9 as well.
theorem offer_taken_away : ∃ (s : NodeState) (after : Config),
    Reachable (smallNode 1) s ∧ (s.config.blocks 0).state = .ours ∧
    leaseAt (s.config.blocks 0) 0 = some ⟨smallClient 7, .offered, 9, 1022⟩ ∧
    requestedAddress (smallPacket 8 9 dhcpRequest) = some (addrAdd (s.config.blocks 0).subnet 0) ∧
    dhcpHdlRequest (smallNode 1) (calmEnv 1011) (smallPacket 8 9 dhcpRequest) s.config =
      some (after, 0) ∧
    leaseAt (after.blocks 0) 0 = some ⟨smallClient 8, .leased, 9, 1321⟩ ∧
    ¬ Withheld s.config 0 0 ⟨smallClient 7, .offered, 9, 1022⟩ after ∧
    (sent s.config after).any acknowledges = true := by
  have evaluated : (runEvents (smallNode 1) smallStart
      (ownedRun ++ [(calmEnv 1010, .client (smallPacket 7 9 dhcpDiscover))])).any (fun s =>
        (dhcpHdlRequest (smallNode 1) (calmEnv 1011) (smallPacket 8 9 dhcpRequest) s.config).any
          fun result =>
            (s.config.blocks 0).state = .ours ∧
            leaseAt (s.config.blocks 0) 0 = some ⟨smallClient 7, .offered, 9, 1022⟩ ∧
            requestedAddress (smallPacket 8 9 dhcpRequest) =
              some (addrAdd (s.config.blocks 0).subnet 0) ∧ result.2 = 0 ∧
            leaseAt (result.1.blocks 0) 0 = some ⟨smallClient 8, .leased, 9, 1321⟩ ∧
            (sent s.config result.1).any acknowledges = true) = true := by decide +kernel
  obtain ⟨s, run, rest⟩ := (Option.any_eq_true _ _).mp evaluated
  obtain ⟨⟨after, value⟩, done, facts⟩ := (Option.any_eq_true _ _).mp rest
  obtain ⟨own, entry, named, rfl, granted, told⟩ := of_decide_eq_true facts
  refine ⟨s, after, ⟨_, small_runs (fun _ _ => trivial) run⟩, own, entry, named, done, granted,
    fun withheld => ?_, told⟩
  have clients := congrArg (Option.map Lease.chaddr) (withheld.1.symm.trans granted)
  exact absurd clients (by decide +kernel)

end Ddhcpd.Reserved

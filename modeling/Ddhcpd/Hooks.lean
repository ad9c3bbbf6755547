import Ddhcpd.Answers
import Ddhcpd.Holders

/-!
Hook calls and the lease tables. The calls are made next to some of the writes to a table:
an acknowledgement and a release call the hook, house keeping does not, and a release calls it
with an address of the packet, which is not that of the lease.
-/

namespace Ddhcpd.Hooks
open Types Leases Blocks BlockPackets LeasePackets Packet Dhcp Node Path Relation Refresh Claim
open LeaseMoves Invariant Calls Handlers HouseKeeping Exclusive Answers Holders

/-! What a hook has been told. -/

def naming (address : InAddr) : Output → Option (HookAction × HwAddr)
  | .hook action named chaddr => if named = address then some (action, chaddr) else none
  | _ => none

/-- The last hook call that names the address. -/
def lastCall (address : InAddr) (outs : List Output) : Option (HookAction × HwAddr) :=
  (outs.filterMap (naming address)).getLast?

/-- The last call that names the address is that of a lease to its client. -/
def Mirrored (cfg : Settings) (address : InAddr) (c : Config) : Prop :=
  ∀ chaddr, lastCall address c.out = some (.lease, chaddr) ↔ holder cfg c address = some chaddr

/-- An event, with every fork succeeding. -/
def HookStep (cfg : Settings) (s : NodeState) (label : Env × Event) (t : NodeState) : Prop :=
  Step cfg s label t ∧ label.1.forks = true

/-- A lease that ends is reported with its address and its client. -/
def Reported (cfg : Settings) (address : InAddr) (c after : Config) : Prop :=
  ∀ chaddr, holder cfg c address = some chaddr → holder cfg after address = none →
    .hook .release address chaddr ∈ sent c after

/-! Where the calls fall short. -/

/-- The lease that `dhcp_rhdl_ack` acknowledges. -/
def relayedTo (cfg : Settings) (request : DhcpPacket) (c : Config) : Option (Nat × Nat) :=
  let found := findLeaseFromAddress cfg c (addressOf request)
  if found.status = 1 then some (found.block, found.lease) else none

/-- The request that an event acknowledges, with the lease. -/
def acknowledged (cfg : Settings) (env : Env) (c : Config) :
    Event → Option (DhcpPacket × Nat × Nat)
  | .client request =>
      if messageType request = dhcpRequest then (grantedTo cfg request c).map (Prod.mk request)
      else none
  | .direct buffer len sender =>
      (answerIn cfg env (.direct buffer len sender)).bind fun packet =>
        if packet.command = msgLeaseAck then
          (waiting packet c).bind fun cached =>
            (relayedTo cfg cached.packet c).map (Prod.mk cached.packet)
        else none
  | _ => none

/-- `dhcp_hdl_release` takes the client's word. -/
def Honoured (cfg : Settings) (packet : DhcpPacket) (c : Config) : Prop :=
  (findLeaseFromAddress cfg c packet.ciaddr).status = 0 ∧
    ∃ lease, leaseAt (c.blocks (findLeaseFromAddress cfg c packet.ciaddr).block)
      (findLeaseFromAddress cfg c packet.ciaddr).lease = some lease ∧ packet.chaddr = lease.chaddr

/-- The event changes who has the address, or what the hook is told of it, but not both. -/
inductive Unreported (cfg : Settings) (address : InAddr) (env : Env) (c : Config) :
    Event → Prop where
  | expired {chaddr : HwAddr} : holder cfg c address = some chaddr →
      Ended cfg env.now address c → Unreported cfg address env c .houseKeeping
  | misnamed {chaddr : HwAddr} {packet : DhcpPacket} : holder cfg c address = some chaddr →
      messageType packet = dhcpRelease → Honoured cfg packet c →
      ¬ (packet.ciaddr = address ↔ packet.yiaddr = address) →
      Unreported cfg address env c (.client packet)
  | overwritten {chaddr : HwAddr} {request : DhcpPacket} {position index : Nat} :
      holder cfg c address = some chaddr → messageType request = dhcpRequest →
      requestedAddress request = some address → placeOf cfg address = some (position, index) →
      (c.blocks position).state = .claimed → Unreported cfg address env c (.client request)
  | withheld {event : Event} {request : DhcpPacket} {position index : Nat} :
      acknowledged cfg env c event = some (request, position, index) →
      placeOf cfg address = some (position, index) → env.alloc .replyPacket = true →
      env.alloc .replyOptions = false → holder cfg c address ≠ some request.chaddr →
      Unreported cfg address env c event

def clientTold : HookAction × HwAddr → Option HwAddr
  | (.lease, chaddr) => some chaddr
  | (.release, _) => none

/-- The client the hook believes to have the address. -/
def told (address : InAddr) (c : Config) : Option HwAddr := (lastCall address c.out).bind clientTold

section Calls
variable {cfg : Settings} {env : Env} {c after : Config} {address : InAddr}

theorem mirrored_iff : Mirrored cfg address c ↔ told address c = holder cfg c address := by
  have last (chaddr : HwAddr) :
      lastCall address c.out = some (.lease, chaddr) ↔ told address c = some chaddr := by
    unfold told
    constructor
    · intro call
      rw [call]
      rfl
    · intro known
      rcases Option.bind_eq_some_iff.mp known with ⟨⟨action, client⟩, call, same⟩
      cases action with
      | lease =>
          cases same
          exact call
      | release => contradiction
  simp only [Mirrored, last]
  constructor
  · exact fun same => Option.ext same
  · intro same chaddr
    rw [same]

theorem told_emits (silent : Emits (fun output => naming address output = none) c after) :
    told address after = told address c := by
  rcases silent with ⟨outs, out, each⟩
  have none : outs.filterMap (naming address) = [] := List.filterMap_eq_nil_iff.mpr each
  rw [told, lastCall, out, List.filterMap_append, none, List.append_nil]
  rfl

theorem told_hook (action : HookAction) (named : InAddr) (chaddr : HwAddr) :
    told address (c.emit (.hook action named chaddr)) =
      if named = address then clientTold (action, chaddr) else told address c := by
  rw [told, lastCall, emit_out, List.filterMap_append]
  by_cases here : named = address
  · simp [naming, here]
  · simp [naming, here, told, lastCall]

end Calls

/-! The writes and the calls of one event. -/

/-- Who has the address is as before, and the hook is told nothing of it. -/
structure Kept (cfg : Settings) (address : InAddr) (c after : Config) : Prop where
  told : told address after = told address c
  holder : holder cfg after address = holder cfg c address

/-- The hook stays right about the address. -/
structure Faithful (cfg : Settings) (address : InAddr) (c after : Config) : Prop where
  agrees : told address c = holder cfg c address → told address after = holder cfg after address
  reported : Reported cfg address c after

/-- The hook does not stay right about the address. -/
def Astray (cfg : Settings) (address : InAddr) (c after : Config) : Prop :=
  told address c = holder cfg c address → told address after ≠ holder cfg after address

section Writes
variable {cfg : Settings} {env : Env} {c middle after : Config} {address : InAddr}
  {request : DhcpPacket} {position index value : Nat}

theorem kept_refl : Kept cfg address c c := ⟨rfl, rfl⟩

theorem kept_trans (first : Kept cfg address c middle) (second : Kept cfg address middle after) :
    Kept cfg address c after :=
  ⟨second.told.trans first.told, second.holder.trans first.holder⟩

theorem kept_faithful (kept : Kept cfg address c after) : Faithful cfg address c after where
  agrees same := by rw [kept.told, kept.holder, same]
  reported chaddr held gone := by
    rw [kept.holder, held] at gone
    contradiction

theorem kept_silent (silent : Emits (fun output => naming address output = none) c after)
    (blocks : after.blocks = c.blocks) : Kept cfg address c after :=
  ⟨told_emits silent, by rw [holder, holder, blocks]⟩

theorem holder_put {old : Lease} (entry : leaseAt (c.blocks position) index = some old)
    (changed : Lease) :
    holder cfg (c.setBlock position (putLease (c.blocks position) index changed)) address =
      if placeOf cfg address = some (position, index) then holderOf changed
      else holder cfg c address := by
  unfold holder
  cases place : placeOf cfg address with
  | none => rfl
  | some found =>
      rcases found with ⟨block, number⟩
      simp only [Option.bind_some, Option.some.injEq, Prod.mk.injEq]
      by_cases here : block = position
      · subst here
        by_cases same : number = index
        · subst same
          simp [holderAt, lease_at_put entry]
        · simp [holderAt, same, lease_at_put_other same]
      · simp [here, set_block_other]

theorem refused_kept (refused : Refused env c after) : Kept cfg address c after := by
  cases refused with
  | unsent => exact kept_refl
  | sent reply => exact kept_silent (emits_one rfl) rfl

/-- The reply of an acknowledgement names no address to the hook, the call after it does. -/
theorem answer_told (hooked : cfg.hookCommand.isSome = true) (forks : env.forks = true)
    (reply : DhcpPacket) : told address (answerTo cfg env c reply) =
      if reply.yiaddr = address then some reply.chaddr else told address c := by
  have sends : Emits (fun output => naming address output = none) c
      (dhcpPacketSend env dhcpAck reply c).1 := by
    unfold dhcpPacketSend
    split
    · exact emits_one rfl
    · exact emits_same rfl
  rw [answerTo, hookAddress, if_pos ⟨hooked, forks⟩, told_hook, told_emits sends]
  rfl

theorem answer_holder (reply : DhcpPacket) :
    holder cfg (answerTo cfg env c reply) address = holder cfg c address := by
  have blocks : (answerTo cfg env c reply).blocks = c.blocks := by
    unfold answerTo hookAddress dhcpPacketSend
    split_ifs <;> rfl
  rw [holder, holder, blocks]

/-! `dhcp_ack` -/

theorem grant_holder {lease : Lease} (entry : leaseAt (c.blocks position) index = some lease) :
    holder cfg (grantTo env c request position index lease) address =
      if placeOf cfg address = some (position, index) then some request.chaddr
      else holder cfg c address := by
  have changed : holderOf (leaseTo request .leased (leaseEndFrom env c) lease) =
      some request.chaddr := rfl
  rw [← changed]
  exact holder_put entry _

/-- An acknowledgement of another lease is nothing to the address. -/
theorem acked_elsewhere (sound : Sound cfg c) (hooked : cfg.hookCommand.isSome = true)
    (forks : env.forks = true) (inside : position < cfg.blocks)
    (other : placeOf cfg address ≠ some (position, index))
    (acked : Acked cfg env c request position index after) : Kept cfg address c after := by
  cases acked with
  | starved => exact kept_refl
  | unanswered entry =>
      refine ⟨told_emits (emits_same rfl), ?_⟩
      rw [grant_holder entry, if_neg other]
  | @answered lease reply entry _ named client =>
      have granted : told address (grantTo env c request position index lease) = told address c :=
        told_emits (emits_same rfl)
      have different : reply.yiaddr ≠ address := by
        rw [named]
        exact fun same => other ((place_of_iff sound inside (entry_below sound entry)).mpr same)
      refine ⟨?_, ?_⟩
      · rw [answer_told hooked forks, if_neg different, granted]
      · rw [answer_holder, grant_holder entry, if_neg other]

theorem acked_here (sound : Sound cfg c) (hooked : cfg.hookCommand.isSome = true)
    (forks : env.forks = true) (place : placeOf cfg address = some (position, index))
    (memory : env.alloc .replyOptions = true)
    (acked : Acked cfg env c request position index after) : Faithful cfg address c after := by
  cases acked with
  | starved => exact kept_faithful kept_refl
  | unanswered _ _ starved =>
      rw [memory] at starved
      contradiction
  | @answered lease reply entry _ named client =>
      have inside := place_inside place
      have same : reply.yiaddr = address :=
        named.trans ((place_of_iff sound inside.1 inside.2).mp place)
      have granted : holder cfg (answerTo cfg env (grantTo env c request position index lease) reply)
          address = some request.chaddr := by
        rw [answer_holder, grant_holder entry, if_pos place]
      refine ⟨fun _ => ?_, fun chaddr _ gone => ?_⟩
      · rw [answer_told hooked forks, if_pos same, granted, client]
      · rw [granted] at gone
        contradiction

/-- Without memory for the reply nothing happens. -/
theorem acked_ignored (packet : env.alloc .replyPacket = false)
    (starved : env.alloc .replyOptions = false)
    (acked : Acked cfg env c request position index after) : Kept cfg address c after := by
  cases acked with
  | starved => exact kept_refl
  | unanswered _ memory =>
      rw [packet] at memory
      contradiction
  | answered _ memory =>
      rw [starved] at memory
      contradiction

/-- Without memory for the options of the reply the lease is granted and nobody told. -/
theorem acked_withheld (place : placeOf cfg address = some (position, index))
    (packet : env.alloc .replyPacket = true) (starved : env.alloc .replyOptions = false)
    (acked : Acked cfg env c request position index after) :
    told address after = told address c ∧ holder cfg after address = some request.chaddr := by
  cases acked with
  | starved memory =>
      rw [packet] at memory
      contradiction
  | unanswered entry => exact ⟨told_emits (emits_same rfl), (grant_holder entry).trans (if_pos place)⟩
  | answered _ memory =>
      rw [starved] at memory
      contradiction

end Writes

/-! One event. -/

/-- The condition tells whether the hook stays right. -/
structure Verdict (cfg : Settings) (address : InAddr) (unreported : Prop) (c after : Config) :
    Prop where
  astray : unreported → Astray cfg address c after
  faithful : ¬ unreported → Faithful cfg address c after

section Events
variable {cfg : Settings} {env : Env} {event : Event} {c after : Config} {address : InAddr}
  {request : DhcpPacket} {position index value : Nat}

theorem verdict_kept {unreported : Prop} (kept : Kept cfg address c after) (fine : ¬ unreported) :
    Verdict cfg address unreported c after :=
  ⟨fun unreported => absurd unreported fine, fun _ => kept_faithful kept⟩

theorem acknowledged_unreported
    (granted : acknowledged cfg env c event = some (request, position, index)) :
    Unreported cfg address env c event ↔ placeOf cfg address = some (position, index) ∧
      env.alloc .replyPacket = true ∧ env.alloc .replyOptions = false ∧
      holder cfg c address ≠ some request.chaddr := by
  constructor
  · intro unreported
    cases unreported with
    | expired => contradiction
    | misnamed _ kind =>
        rw [acknowledged, if_neg (by rw [kind]; decide)] at granted
        contradiction
    | @overwritten _ _ block number _ kind requested place claimed =>
        rw [acknowledged, if_pos kind] at granted
        rcases Option.map_eq_some_iff.mp granted with ⟨lease, chosen, -⟩
        have ours := granted_named requested chosen
        rw [find_lease_place, place] at ours
        simp [claimed] at ours
    | withheld other place packet starved differs =>
        rw [granted] at other
        cases other
        exact ⟨place, packet, starved, differs⟩
  · rintro ⟨place, packet, starved, differs⟩
    exact .withheld granted place packet starved differs

theorem ack_verdict {entries : List CachedPacket} (sound : Sound cfg c)
    (hooked : cfg.hookCommand.isSome = true) (forks : env.forks = true)
    (granted : acknowledged cfg env c event = some (request, position, index))
    (inside : position < cfg.blocks)
    (acked : Acked cfg env { c with dhcpPacketCache := entries } request position index after) :
    Verdict cfg address (Unreported cfg address env c event) c after := by
  rw [acknowledged_unreported granted]
  have soundTaken : Sound cfg { c with dhcpPacketCache := entries } := sound
  constructor
  · rintro ⟨place, packet, starved, differs⟩ agrees
    rcases acked_withheld place packet starved acked with ⟨silent, holds⟩
    have before : told address after = told address c := silent
    rw [before, holds, agrees]
    exact differs
  · intro fine
    by_cases place : placeOf cfg address = some (position, index)
    · cases starved : env.alloc .replyOptions with
      | true =>
          have faithful := acked_here soundTaken hooked forks place starved acked
          exact ⟨faithful.agrees, faithful.reported⟩
      | false =>
          cases packet : env.alloc .replyPacket with
          | true =>
              rcases acked_withheld place packet starved acked with ⟨silent, holds⟩
              have same : holder cfg c address = some request.chaddr := by
                by_contra differs
                exact fine ⟨place, packet, starved, differs⟩
              exact kept_faithful ⟨silent, holds.trans same.symm⟩
          | false =>
              have kept : Kept cfg address { c with dhcpPacketCache := entries } after :=
                acked_ignored packet starved acked
              exact kept_faithful ⟨kept.told, kept.holder⟩
    · have kept := acked_elsewhere soundTaken hooked forks inside place acked
      exact kept_faithful ⟨kept.told, kept.holder⟩

/-! Requests of clients. -/

/-- The entry of a forwarded request is nobody's. -/
theorem forwarded_effect {named : InAddr}
    (forwarded : Forwarded cfg env c request named position index after) :
    told address after = told address c ∧ holder cfg after address =
      if placeOf cfg address = some (position, index) then none else holder cfg c address := by
  have opens : holder cfg (opened env c position) address = holder cfg c address :=
    holder_set_block fun _ => holder_at_alloc
  have notes {lease : Lease}
      (entry : leaseAt ((opened env c position).blocks position) index = some lease) :
      holder cfg (noteIn env (opened env c position) request position index lease) address =
        if placeOf cfg address = some (position, index) then none else holder cfg c address := by
    rw [← opens]
    exact holder_put entry _
  refine ⟨told_emits (forwarded_emits forwarded fun _ => rfl), ?_⟩
  cases forwarded with
  | starved entry => exact notes entry
  | @passed lease dest entry =>
      rw [← notes entry]
      apply holder_congr
      intro block number
      unfold sendPacketDirect dhcpPacketListAdd
      split_ifs <;> rfl

/-- A request that is not granted is about the address only where it is forwarded. -/
theorem request_unreported (kind : messageType request = dhcpRequest)
    (ungranted : grantedTo cfg request c = none) :
    Unreported cfg address env c (.client request) ↔ ∃ chaddr position index,
      holder cfg c address = some chaddr ∧ requestedAddress request = some address ∧
      placeOf cfg address = some (position, index) ∧ (c.blocks position).state = .claimed := by
  constructor
  · intro unreported
    cases unreported with
    | misnamed _ release =>
        rw [kind] at release
        contradiction
    | overwritten held _ requested place claimed =>
        exact ⟨_, _, _, held, requested, place, claimed⟩
    | withheld granted =>
        rw [acknowledged, if_pos kind, ungranted] at granted
        contradiction
  · rintro ⟨chaddr, position, index, held, requested, place, claimed⟩
    exact .overwritten held kind requested place claimed

/-- The lookup leads to a claimed block where the address is in one. -/
theorem elsewhere_placed (requested : requestedAddress request = some address)
    (place : placeOf cfg address = some (position, index))
    (claimed : (c.blocks position).state = .claimed) :
    Elsewhere cfg c request address position index where
  requested := requested
  inside := (place_inside place).1
  place := by
    rw [find_lease_place, place]
    simp [claimed]
  claimed := claimed

theorem request_verdict (sound : Sound cfg c)
    (hooked : cfg.hookCommand.isSome = true) (forks : env.forks = true)
    (kind : messageType request = dhcpRequest) (handled : Requested cfg env c request after) :
    Verdict cfg address (Unreported cfg address env c (.client request)) c after := by
  cases handled with
  | @acked position index _ granted acked =>
      have acks : acknowledged cfg env c (.client request) = some (request, position, index) := by
        rw [acknowledged, if_pos kind, granted]
        rfl
      exact ack_verdict sound hooked forks acks (granted_grants granted).1 acked
  | @forwarded named position index _ ungranted elsewhere forwarded =>
      rw [request_unreported kind ungranted]
      have place := place_of_found elsewhere.place (by decide)
      have effect : told address after = told address c ∧ holder cfg after address = _ :=
        forwarded_effect forwarded
      rcases effect with ⟨silent, holds⟩
      by_cases here : placeOf cfg address = some (position, index)
      · rw [if_pos here] at holds
        have same : named = address := place_injective sound place here
        subst same
        constructor
        · rintro ⟨chaddr, _, _, held, -⟩ agrees
          rw [silent, holds, agrees, held]
          exact Option.some_ne_none chaddr
        · intro fine
          have unheld : holder cfg c named = none :=
            Option.eq_none_iff_forall_ne_some.mpr fun chaddr held =>
              fine ⟨chaddr, position, index, held, elsewhere.requested, place, elsewhere.claimed⟩
          exact kept_faithful ⟨silent, holds.trans unheld.symm⟩
      · rw [if_neg here] at holds
        apply verdict_kept ⟨silent, holds⟩
        rintro ⟨chaddr, _, _, -, same, -⟩
        rw [elsewhere.requested] at same
        cases same
        exact here place
  | refused ungranted nowhere refused =>
      apply verdict_kept (refused_kept refused)
      rw [request_unreported kind ungranted]
      rintro ⟨chaddr, position, index, -, requested, place, claimed⟩
      exact nowhere _ _ _ (elsewhere_placed requested place claimed)

/-! Releases. -/

theorem releasable_honoured {packet : DhcpPacket} {lease : Lease}
    (releasable : Releasable cfg c packet position index lease) : Honoured cfg packet c := by
  rw [Honoured, releasable.place]
  exact ⟨rfl, lease, releasable.entry, releasable.client⟩

theorem honoured_releasable {packet : DhcpPacket} (honoured : Honoured cfg packet c) :
    ∃ position index lease, Releasable cfg c packet position index lease := by
  rcases honoured with ⟨ours, lease, entry, client⟩
  exact ⟨_, _, lease, by rw [← ours], entry, client⟩

theorem release_unreported {packet : DhcpPacket} (kind : messageType packet = dhcpRelease) :
    Unreported cfg address env c (.client packet) ↔ ∃ chaddr, holder cfg c address = some chaddr ∧
      Honoured cfg packet c ∧ ¬ (packet.ciaddr = address ↔ packet.yiaddr = address) := by
  constructor
  · intro unreported
    cases unreported with
    | misnamed held _ honoured differs => exact ⟨_, held, honoured, differs⟩
    | overwritten _ request =>
        rw [kind] at request
        contradiction
    | withheld granted =>
        rw [acknowledged, if_neg (by rw [kind]; decide)] at granted
        contradiction
  · rintro ⟨chaddr, held, honoured, differs⟩
    exact .misnamed held kind honoured differs

theorem released_effect {packet : DhcpPacket} {lease : Lease} (sound : Sound cfg c)
    (hooked : cfg.hookCommand.isSome = true) (forks : env.forks = true)
    (place : placeOf cfg packet.ciaddr = some (position, index))
    (entry : leaseAt (c.blocks position) index = some lease) :
    told address (releaseAt cfg env c packet position index lease) =
        (if packet.yiaddr = address then none else told address c) ∧
      holder cfg (releaseAt cfg env c packet position index lease) address =
        (if packet.ciaddr = address then none else holder cfg c address) ∧
      .hook .release packet.yiaddr packet.chaddr ∈
        sent c (releaseAt cfg env c packet position index lease) := by
  rw [releaseAt, hookAddress, if_pos ⟨hooked, forks⟩]
  have here : placeOf cfg address = some (position, index) ↔ packet.ciaddr = address := by
    constructor
    · exact fun same => place_injective sound place same
    · exact fun same => same ▸ place
  refine ⟨?_, ?_, ?_⟩
  · rw [told_hook]
    rfl
  · have written : holder cfg (c.setBlock position (putLease (c.blocks position) index
        (Lease.released lease))) address = _ := holder_put entry _
    simp only [here] at written
    exact written
  · simp [sent]

/-- A release is reported right where both addresses of the packet are, or are not, the
address. -/
theorem release_verdict {packet : DhcpPacket} (sound : Sound cfg c)
    (hooked : cfg.hookCommand.isSome = true) (forks : env.forks = true)
    (kind : messageType packet = dhcpRelease) (handled : Released cfg env c packet after) :
    Verdict cfg address (Unreported cfg address env c (.client packet)) c after := by
  rw [release_unreported kind]
  cases handled with
  | ignored ignored =>
      apply verdict_kept kept_refl
      rintro ⟨_, _, honoured, -⟩
      rcases honoured_releasable honoured with ⟨position, index, lease, releasable⟩
      exact ignored _ _ _ releasable
  | @released position index lease releasable =>
      have entry := releasable.entry
      have place := place_of_found releasable.place (by decide)
      have effect : told address (releaseAt cfg env c packet position index lease) = _ ∧ _ :=
        released_effect sound hooked forks place entry
      rcases effect with ⟨tells, holds, calls⟩
      constructor
      · rintro ⟨chaddr, held, -, differs⟩ agrees
        rw [tells, holds, agrees, held]
        by_cases named : packet.yiaddr = address
        · have other : packet.ciaddr ≠ address := fun here => differs ⟨fun _ => named, fun _ => here⟩
          simp [named, other]
        · have here : packet.ciaddr = address := by
            by_contra other
            exact differs ⟨fun here => absurd here other, fun here => absurd here named⟩
          simp [named, here]
      · intro fine
        by_cases alike : packet.ciaddr = address ↔ packet.yiaddr = address
        · refine ⟨fun agrees => ?_, fun chaddr held gone => ?_⟩
          · rw [tells, holds, agrees]
            simp only [alike]
          · have here : packet.ciaddr = address := by
              by_contra other
              rw [holds, if_neg other, held] at gone
              contradiction
            rw [← here, holder, place] at held
            rcases holder_at_some held with ⟨old, there, -, rfl⟩
            obtain rfl : lease = old := Option.some.inj (entry.symm.trans there)
            rw [← releasable.client]
            exact alike.mp here ▸ calls
        · have unheld : holder cfg c address = none :=
            Option.eq_none_iff_forall_ne_some.mpr fun chaddr held =>
              fine ⟨chaddr, held, releasable_honoured releasable, alike⟩
          refine ⟨fun agrees => ?_, fun chaddr held => ?_⟩
          · rw [tells, holds, agrees, unheld, ite_self, ite_self]
          · rw [unheld] at held
            contradiction

/-! The other packets of clients. -/

theorem packet_send_kept (type : UInt8) (reply : DhcpPacket) :
    Kept cfg address c (dhcpPacketSend env type reply c).1 := by
  unfold dhcpPacketSend
  split
  · exact kept_silent (emits_one rfl) rfl
  · exact kept_refl

theorem offer_kept {discover : DhcpPacket} {lease : Lease}
    (available : Available cfg c position index lease) :
    Kept cfg address c (offerTo env c discover position index lease) := by
  refine ⟨told_emits (emits_same rfl), ?_⟩
  have written : holder cfg (offerTo env c discover position index lease) address = _ :=
    holder_put available.entry _
  rw [written]
  split
  · rename_i place
    simp [holder, place, holderAt, available.entry, holderOf, available.free, leaseTo]
  · rfl

theorem offered_kept {discover : DhcpPacket} (offered : Offered cfg env c discover after value) :
    Kept cfg address c after := by
  cases offered with
  | exhausted => exact kept_refl
  | starved => exact kept_refl
  | unanswered available => exact offer_kept available
  | unsent available => exact kept_trans (offer_kept available) (packet_send_kept _ _)
  | @sent _ _ _ reply available =>
      apply kept_trans (kept_trans (offer_kept available) (packet_send_kept dhcpOffer reply))
      exact ⟨told_emits (emits_same rfl), holder_set_block fun _ => holder_at_congr rfl⟩

theorem informed_kept (informed : Informed env c after) : Kept cfg address c after := by
  cases informed with
  | starved => exact kept_refl
  | answered reply => exact packet_send_kept _ _

theorem other_reported {packet : DhcpPacket} (request : messageType packet ≠ dhcpRequest)
    (release : messageType packet ≠ dhcpRelease) :
    ¬ Unreported cfg address env c (.client packet) := by
  intro unreported
  cases unreported with
  | misnamed _ kind => exact release kind
  | overwritten _ kind => exact request kind
  | withheld granted =>
      rw [acknowledged, if_neg request] at granted
      contradiction

theorem client_verdict {packet : DhcpPacket} (sound : Sound cfg c)
    (hooked : cfg.hookCommand.isSome = true) (forks : env.forks = true)
    (done : dhcpProcess cfg env packet c = some (after, value)) :
    Verdict cfg address (Unreported cfg address env c (.client packet)) c after := by
  cases process_cases done with
  | discover kind offered =>
      exact verdict_kept (offered_kept offered)
        (other_reported (by rw [kind]; decide) (by rw [kind]; decide))
  | request kind requested => exact request_verdict sound hooked forks kind requested
  | release kind released => exact release_verdict sound hooked forks kind released
  | inform kind informed =>
      exact verdict_kept (informed_kept informed)
        (other_reported (by rw [kind]; decide) (by rw [kind]; decide))
  | other request release => exact verdict_kept kept_refl (other_reported request release)

/-! Packets of other nodes. -/

theorem unanswered_reported {buffer : List UInt8} {len : Nat} {sender : In6Addr}
    (none : acknowledged cfg env c (.direct buffer len sender) = none) :
    ¬ Unreported cfg address env c (.direct buffer len sender) := by
  intro unreported
  cases unreported with
  | withheld granted =>
      rw [none] at granted
      contradiction

theorem send_direct_kept (packet : McastPacket) (dest : In6Addr) :
    Kept cfg address c (sendPacketDirect env packet dest c) := by
  unfold sendPacketDirect
  split
  · exact kept_silent (emits_one rfl) rfl
  · exact kept_refl

theorem renewal_kept {packet : McastPacket} {sender : In6Addr}
    (renewal : Renewal cfg env c packet sender after) : Kept cfg address c after := by
  -- the client of the lease stays
  have prolonged {position index : Nat} {lease : Lease}
      (entry : leaseAt (c.blocks position) index = some lease) :
      Kept cfg address c (prolong env c position index lease) := by
    refine ⟨told_emits (emits_same rfl), ?_⟩
    rw [prolong, holder_put entry]
    split
    · rename_i place
      simp [holder, place, holderAt, entry, holderOf]
    · rfl
  cases renewal with
  | ignored => exact kept_refl
  | declined => exact send_direct_kept _ _
  | unanswered _ entry => exact prolonged entry
  | granted _ entry => exact kept_trans (prolonged entry) (send_direct_kept _ _)

/-- A packet that answers a request of this node. -/
theorem leaseack_verdict {buffer : List UInt8} {len : Nat} {sender : In6Addr} {packet : McastPacket}
    (sound : Sound cfg c) (hooked : cfg.hookCommand.isSome = true) (forks : env.forks = true)
    (answer : answerIn cfg env (.direct buffer len sender) = some packet)
    (kind : packet.command = msgLeaseAck)
    (done : ddhcpDhcpLeaseack cfg env packet c = some after) :
    Verdict cfg address (Unreported cfg address env c (.direct buffer len sender)) c after := by
  have acks : acknowledged cfg env c (.direct buffer len sender) =
      (waiting packet c).bind fun cached =>
        (relayedTo cfg cached.packet c).map (Prod.mk cached.packet) := by
    rw [acknowledged, answer, Option.bind_some, if_pos kind]
  rw [ddhcpDhcpLeaseack, find_waiting] at done
  cases waits : waiting packet c with
  | none =>
      rw [waits] at done acks
      cases done
      exact verdict_kept kept_refl (unanswered_reported acks)
  | some cached =>
      rw [waits, Option.bind_some] at acks
      rw [waits] at done
      simp only [Option.map_some, Option.ite_none_right_eq_some] at done
      rcases Option.map_eq_some_iff.mp done.2 with ⟨⟨final, value⟩, handled, rfl⟩
      -- the lookup does not depend on the cache
      have same : findLeaseFromAddress cfg (taken packet c) (addressOf cached.packet) =
          findLeaseFromAddress cfg c (addressOf cached.packet) := rfl
      cases relay_cases handled with
      | unknown other =>
          have none : relayedTo cfg cached.packet c = none := if_neg (same ▸ other)
          rw [none] at acks
          exact verdict_kept ⟨rfl, rfl⟩ (unanswered_reported acks)
      | @acked position index _ place acked =>
          have found : findLeaseFromAddress cfg c (addressOf cached.packet) = ⟨1, position, index⟩ :=
            same.symm.trans place
          have inside := (find_lease_foreign (congrArg LeaseLookup.status found)).1
          have lease : relayedTo cfg cached.packet c = some (position, index) := by
            simp [relayedTo, found]
          rw [found] at inside
          rw [lease] at acks
          exact ack_verdict sound hooked forks acks inside acked

theorem leasenak_kept {packet : McastPacket}
    (done : ddhcpDhcpLeasenak env packet c = some after) : Kept cfg address c after := by
  rw [ddhcpDhcpLeasenak, find_waiting] at done
  cases waits : waiting packet c with
  | none =>
      rw [waits] at done
      cases done
      exact kept_refl
  | some cached =>
      rw [waits] at done
      simp only [Option.map_some, Option.ite_none_right_eq_some, Option.some.injEq] at done
      have refused : Refused env (taken packet c) after := done.2 ▸ nack_refused cached.packet
      have kept : Kept cfg address (taken packet c) after := refused_kept refused
      exact ⟨kept.told, kept.holder⟩

theorem direct_verdict {buffer : List UInt8} {len : Nat} {sender : In6Addr} (sound : Sound cfg c)
    (hooked : cfg.hookCommand.isSome = true) (forks : env.forks = true)
    (done : ddhcpDhcpProcess cfg env buffer len sender c = some after) :
    Verdict cfg address (Unreported cfg address env c (.direct buffer len sender)) c after := by
  have nothing (none : ∀ packet, answerIn cfg env (.direct buffer len sender) ≠ some packet)
      (kept : Kept cfg address c after) :
      Verdict cfg address (Unreported cfg address env c (.direct buffer len sender)) c after := by
    apply verdict_kept kept (unanswered_reported _)
    rw [acknowledged, Option.eq_none_iff_forall_ne_some.mpr none]
    rfl
  cases dispatch_cases done with
  | ignored others =>
      refine nothing (fun packet answer => ?_) kept_refl
      rcases answer_in_iff.mp answer with ⟨received, ack | nak⟩
      · exact (others packet received).2.1 ack
      · exact (others packet received).2.2 nak
  | renewal received kind renewal =>
      refine nothing (fun packet answer => ?_) (renewal_kept renewal)
      rcases answer_in_iff.mp answer with ⟨again, answer⟩
      rw [← receives_unique received again, isAnswer, kind] at answer
      exact absurd answer (by decide)
  | ack received kind handled =>
      exact leaseack_verdict sound hooked forks (answer_in_iff.mpr ⟨received, .inl kind⟩) kind handled
  | nak received kind handled =>
      have none : acknowledged cfg env c (.direct buffer len sender) = none := by
        rw [acknowledged, answer_in_iff.mpr ⟨received, .inr kind⟩, Option.bind_some,
          if_neg (by rw [kind]; decide)]
      exact verdict_kept (leasenak_kept handled) (unanswered_reported none)

/-! Every event. -/

theorem multicast_unnamed (output : Output) (sends : multicast output) :
    naming address output = none := by
  cases output with
  | mcast => rfl
  | direct => exact sends.elim
  | dhcp => exact sends.elim
  | hook => exact sends.elim

theorem mcast_kept {buffer : List UInt8} {len : Nat} {sender : In6Addr} (sound : Sound cfg c) :
    Kept cfg address c (ddhcpBlockProcess cfg env buffer len sender c) := by
  unfold ddhcpBlockProcess
  split
  · rename_i packet _
    have moves : BlockMoves.Moves cfg env packet sender c
        (ddhcpBlockDispatch cfg env packet sender c) := BlockMoves.dispatch_moves
    refine ⟨told_emits (emits_mono (block_moves_emit sound moves) fun output claim =>
      multicast_unnamed output (announces_multicast output claim)), ?_⟩
    exact holder_congr fun position _ => holder_at_congr (block_moves_addresses sound moves position)
  · exact kept_refl

theorem control_kept (buffer : List UInt8) (len : Nat) :
    Kept cfg address c (handleCommand env buffer len c).1 := by
  unfold handleCommand
  simp only
  split_ifs <;> exact ⟨rfl, rfl⟩

theorem house_keeping_told (good : Good cfg c) (done : houseKeeping cfg env c = some after) :
    told address after = told address c :=
  told_emits (emits_mono (house_keeping_emits good done) multicast_unnamed)

theorem house_keeping_verdict (good : Good cfg c) (done : houseKeeping cfg env c = some after) :
    Verdict cfg address (Unreported cfg address env c .houseKeeping) c after := by
  have silent : told address after = told address c := house_keeping_told good done
  constructor
  · intro unreported agrees
    cases unreported with
    | expired held ended =>
        rw [silent, house_keeping_ended good done ended, agrees, held]
        exact Option.some_ne_none _
    | withheld granted => contradiction
  · intro fine
    by_cases ended : Ended cfg env.now address c
    · have unheld : holder cfg c address = none :=
        Option.eq_none_iff_forall_ne_some.mpr fun chaddr held => fine (.expired held ended)
      exact kept_faithful ⟨silent, (house_keeping_ended good done ended).trans unheld.symm⟩
    · exact kept_faithful ⟨silent, house_keeping_holder good done ended⟩

theorem event_verdict (good : Good cfg c) (hooked : cfg.hookCommand.isSome = true)
    (forks : env.forks = true) (done : handle cfg env event c = some after) :
    Verdict cfg address (Unreported cfg address env c event) c after := by
  cases event with
  | houseKeeping => exact house_keeping_verdict good done
  | mcast buffer len sender =>
      cases done
      apply verdict_kept (mcast_kept good.sound)
      intro unreported
      cases unreported with
      | withheld granted => contradiction
  | direct buffer len sender => exact direct_verdict good.sound hooked forks done
  | client packet =>
      rcases Option.map_eq_some_iff.mp done with ⟨⟨final, value⟩, handled, rfl⟩
      exact client_verdict good.sound hooked forks handled
  | control buffer len =>
      cases done
      apply verdict_kept (control_kept buffer len)
      intro unreported
      cases unreported with
      | withheld granted => contradiction

end Events

/-! Runs. -/

section Runs
variable {cfg : Settings} {address : InAddr} {s t : NodeState} {labels : List (Env × Event)}
  {label : Env × Event}

/-- The hook stays right about the address as long as no event changes what it should know
without a call, or calls it in vain. -/
theorem step_mirrored (good : Good cfg s.config) (hooked : cfg.hookCommand.isSome = true)
    (forks : label.1.forks = true) (mirrored : Mirrored cfg address s.config)
    (step : Step cfg s label t) : ¬ Unreported cfg address label.1 s.config label.2 ↔
      Mirrored cfg address t.config ∧ Reported cfg address s.config t.config := by
  cases step with
  | event env event later done =>
      have verdict : Verdict cfg address _ _ _ := event_verdict good hooked forks done
      rw [mirrored_iff] at mirrored ⊢
      constructor
      · intro fine
        exact ⟨(verdict.faithful fine).agrees mirrored, (verdict.faithful fine).reported⟩
      · exact fun right unreported => verdict.astray unreported mirrored right.1

/-- A run in which no event goes unreported is one in which the calls mirror the leases after
every event. -/
theorem hooks_mirror_leases (hooked : cfg.hookCommand.isSome = true) (address : InAddr)
    (now : Time) (options : List DhcpOption) :
    Path (fun s label t => HookStep cfg s label t ∧
        ¬ Unreported cfg address label.1 s.config label.2)
      ⟨now, startConfig cfg now options⟩ labels s ↔
    Path (fun s label t => HookStep cfg s label t ∧
        Mirrored cfg address t.config ∧ Reported cfg address s.config t.config)
      ⟨now, startConfig cfg now options⟩ labels s := by
  let right (s : NodeState) : Prop := Good cfg s.config ∧ Mirrored cfg address s.config
  have start : right ⟨now, startConfig cfg now options⟩ := by
    refine ⟨start_good cfg now options, mirrored_iff.mpr ?_⟩
    cases place : placeOf cfg address with
    | none => simp [holder, place, told, lastCall, startConfig]
    | some found => simp [holder, place, holderAt, leaseAt, told, lastCall, startConfig, freshBlock]
  have same (s : NodeState) (label : Env × Event) (t : NodeState) (known : right s)
      (step : HookStep cfg s label t) : ¬ Unreported cfg address label.1 s.config label.2 ↔
        Mirrored cfg address t.config ∧ Reported cfg address s.config t.config :=
    step_mirrored known.1 hooked step.2 known.2 step.1
  apply path_congr right
  · intro s label t known step
    exact ⟨step_good known.1 step.1.1, step.2.1⟩
  · intro s label t known
    exact and_congr_right fun step => same s label t known step
  · exact start

end Runs

/-! The small node, with a hook. A client leases the address and gives it back. -/

def hookNode : Settings := { smallNode 1 with hookCommand := some "hook" }

def hookStart : NodeState :=
  ⟨1000, startConfig hookNode 1000 [⟨codeAddressLeaseTime, 4, [0, 0, 1, 44]⟩]⟩

/-- A release that has its address in both places. -/
def wellNamed : Event → Bool
  | .client packet => messageType packet = dhcpRelease ∧ packet.ciaddr = packet.yiaddr
  | _ => false

def plain (cfg : Settings) (address : InAddr) (env : Env) (event : Event) (c : Config) : Bool :=
  env.forks ∧ env.alloc .replyOptions = true ∧
    (holder cfg c address = none ∨ wellNamed event = true)

theorem plain_reported {cfg : Settings} {address : InAddr} {env : Env} {event : Event} {c : Config}
    (calm : plain cfg address env event c = true) : ¬ Unreported cfg address env c event := by
  simp only [plain, decide_eq_true_eq] at calm
  rcases calm with ⟨-, memory, unheld | named⟩
  · intro unreported
    cases unreported with
    | expired held => simp [unheld] at held
    | misnamed held => simp [unheld] at held
    | overwritten held => simp [unheld] at held
    | withheld _ _ _ starved => simp [memory] at starved
  · intro unreported
    cases unreported with
    | expired => contradiction
    | misnamed _ _ _ differs =>
        simp only [wellNamed, decide_eq_true_eq] at named
        exact differs (by rw [named.2])
    | overwritten _ kind =>
        simp only [wellNamed, decide_eq_true_eq] at named
        rw [kind] at named
        exact absurd named.1 (by decide)
    | withheld _ _ _ starved => simp [memory] at starved

def plainEvents (s : NodeState) : List (Env × Event) → Option NodeState
  | [] => some s
  | label :: rest =>
      if s.clock ≤ label.1.now ∧ plain hookNode smallAddress label.1 label.2 s.config then
        (handle hookNode label.1 label.2 s.config).bind fun after =>
          plainEvents ⟨label.1.now, after⟩ rest
      else none

theorem plain_events_path {s t : NodeState} {labels : List (Env × Event)}
    (done : plainEvents s labels = some t) :
    Path (fun s label t => HookStep hookNode s label t ∧
      ¬ Unreported hookNode smallAddress label.1 s.config label.2) s labels t := by
  induction labels generalizing s with
  | nil =>
      cases done
      exact .refl _
  | cons label rest ih =>
      simp only [plainEvents, Option.ite_none_right_eq_some] at done
      rcases done with ⟨⟨later, calm⟩, done⟩
      rcases Option.bind_eq_some_iff.mp done with ⟨after, handled, done⟩
      have forks : label.1.forks = true := by
        simp only [plain, decide_eq_true_eq] at calm
        exact calm.1
      exact .next ⟨⟨.event label.1 label.2 later handled, forks⟩, plain_reported calm⟩ (ih done)

def leasedRun : List (Env × Event) :=
  ownedRun ++ [(calmEnv 1004, .client (smallPacket 7 7 dhcpRequest))]

def givenBack (yiaddr : InAddr) : Env × Event :=
  (calmEnv 1005, .client { smallPacket 7 8 dhcpRelease with yiaddr := yiaddr })

theorem hooks_mirror_leases_small : ∃ s : NodeState,
    Path (fun s label t => HookStep hookNode s label t ∧
        Mirrored hookNode smallAddress t.config ∧ Reported hookNode smallAddress s.config t.config)
      hookStart (leasedRun ++ [givenBack smallAddress]) s ∧
    lastCall smallAddress s.config.out = some (.release, smallClient 7) := by
  have evaluated : ((plainEvents hookStart (leasedRun ++ [givenBack smallAddress])).any fun s =>
      lastCall smallAddress s.config.out = some (.release, smallClient 7)) = true := by
    decide +kernel
  rcases (Option.any_eq_true _ _).mp evaluated with ⟨s, done, called⟩
  exact ⟨s, (hooks_mirror_leases rfl smallAddress 1000 _).mp (plain_events_path done),
    of_decide_eq_true called⟩

-- A client leaves `yiaddr` zero when it gives its address back.
theorem release_of_no_address : ∃ s t : NodeState,
    Path (HookStep hookNode) hookStart leasedRun s ∧ HookStep hookNode s (givenBack 0) t ∧
      (s.config.blocks 0).state = .ours ∧ (t.config.blocks 0).state = .ours ∧
      ¬ Mirrored hookNode smallAddress t.config ∧
      ¬ Reported hookNode smallAddress s.config t.config := by
  have evaluated : ((plainEvents hookStart leasedRun).any fun s => s.clock ≤ 1005 ∧
      (s.config.blocks 0).state = .ours ∧
      holder hookNode s.config smallAddress = some (smallClient 7) ∧
      (handle hookNode (givenBack 0).1 (givenBack 0).2 s.config).any fun after =>
        (after.blocks 0).state = .ours ∧ holder hookNode after smallAddress = none ∧
        lastCall smallAddress after.out = some (.lease, smallClient 7) ∧
        .hook .release smallAddress (smallClient 7) ∉ sent s.config after) = true := by
    decide +kernel
  rcases (Option.any_eq_true _ _).mp evaluated with ⟨s, done, facts⟩
  simp only [decide_eq_true_eq] at facts
  rcases facts with ⟨later, before, held, rest⟩
  rcases (Option.any_eq_true _ _).mp rest with ⟨after, handled, outcome⟩
  simp only [decide_eq_true_eq] at outcome
  rcases outcome with ⟨still, gone, called, silent⟩
  refine ⟨s, ⟨1005, after⟩, path_mono (fun _ _ _ step => step.1) (plain_events_path done),
    ⟨.event (givenBack 0).1 (givenBack 0).2 later handled, rfl⟩, before, still, ?_, ?_⟩
  · intro mirrored
    have holds := (mirrored (smallClient 7)).mp called
    exact Option.some_ne_none _ (holds.symm.trans gone)
  · exact fun reported => silent (reported (smallClient 7) held gone)

end Ddhcpd.Hooks

import Ddhcpd.HouseKeeping
import Ddhcpd.Handlers

/-!
What a node sends to one other node. There are two kinds of it: a request that is passed on for a
client goes to the node the block is claimed by, and an answer goes back where the request came from.
-/

namespace Ddhcpd.DirectSends
open Types Leases Blocks BlockPackets Packet Dhcp LeasePackets Node LeaseMoves Invariant Calls
open Handlers HouseKeeping

variable {cfg : Settings} {env : Env} {event : Event} {c after : Config} {position index : Nat}
  {packet : McastPacket} {dest : In6Addr}

def undirected (output : Output) : Prop := ∀ packet dest, output ≠ .direct packet dest

/-- A request is passed on for a client, to the holder of the block. -/
structure PassesOn (cfg : Settings) (event : Event) (c : Config) (packet : McastPacket)
    (dest : In6Addr) (request : DhcpPacket) (address : InAddr) (position index : Nat) : Prop where
  client : event = .client request
  type : messageType request = dhcpRequest
  elsewhere : Elsewhere cfg c request address position index
  written : packet = renewPacket cfg request address
  holder : dest = (c.blocks position).ownerAddress

/-- A request of another node is answered. Only a lease of ours is renewed. -/
structure AnswersTo (cfg : Settings) (env : Env) (event : Event) (c after : Config)
    (packet : McastPacket) (dest : In6Addr) (request : McastPacket) : Prop where
  received : Receives cfg env event request
  source : ∃ buffer len, event = .direct buffer len dest
  asked : request.command = msgRenewLease
  written : packet = renewAnswer cfg request packet.command
  granted : packet.command = msgLeaseNak ∨ packet.command = msgLeaseAck ∧
    ∃ position index lease,
      findLeaseFromAddress cfg c (rawAddress cfg request.renewPayload.address) = ⟨0, position, index⟩ ∧
      leaseAt (c.blocks position) index = some lease ∧
      after.blocks = (prolong env c position index lease).blocks

theorem answers_payload {request : McastPacket}
    (answers : AnswersTo cfg env event c after packet dest request) :
    packet.renewPayload = request.renewPayload := by
  rw [answers.written]
  rfl

theorem ack_renews {request : McastPacket} (answers : AnswersTo cfg env event c after packet dest request)
    (ack : packet.command = msgLeaseAck) : ∃ position index lease,
      findLeaseFromAddress cfg c (rawAddress cfg request.renewPayload.address) = ⟨0, position, index⟩ ∧
      leaseAt (c.blocks position) index = some lease ∧
      after.blocks = (prolong env c position index lease).blocks := by
  rcases answers.granted with nak | ⟨-, granted⟩
  · exact absurd (nak.symm.trans ack) (by decide)
  · exact granted

/-! Replies, hooks and packets to all nodes are not sent to one node. -/

theorem reply_undirected (type : UInt8) (reply : DhcpPacket) (got : Bool) :
    undirected (.dhcp type reply got) := by
  intro packet dest other
  contradiction

theorem hook_undirected (action : HookAction) (address : InAddr) (chaddr : HwAddr) :
    undirected (.hook action address chaddr) := by
  intro packet dest other
  contradiction

theorem multicast_undirected (output : Output) (many : multicast output) : undirected output := by
  rintro packet dest rfl
  exact absurd many id

theorem packet_send_undirected (type : UInt8) (reply : DhcpPacket) (c : Config) :
    Emits undirected c (dhcpPacketSend env type reply c).1 := by
  unfold dhcpPacketSend
  split
  · exact emits_one (reply_undirected _ _ _)
  · exact emits_same rfl

theorem acked_undirected {request : DhcpPacket}
    (acked : Acked cfg env c request position index after) : Emits undirected c after :=
  acked_emits acked (fun _ _ _ _ => reply_undirected _ _ _) (hook_undirected _ _ _)

theorem refused_undirected (refused : Refused env c after) : Emits undirected c after :=
  refused_emits refused fun _ _ => reply_undirected _ _ _

theorem offered_undirected {discover : DhcpPacket} {value : Nat}
    (offered : Offered cfg env c discover after value) : Emits undirected c after := by
  cases offered with
  | exhausted => exact emits_same rfl
  | starved => exact emits_same rfl
  | unanswered => exact emits_same rfl
  | unsent => exact emits_trans (emits_same rfl) (packet_send_undirected _ _ _)
  | @sent place index lease reply =>
      have offers : Emits undirected c
          (dhcpPacketSend env dhcpOffer reply (offerTo env c discover place index lease)).1 :=
        emits_trans (emits_same rfl) (packet_send_undirected _ _ _)
      exact emits_trans offers (emits_same rfl)

theorem released_undirected {packet : DhcpPacket} (released : Released cfg env c packet after) :
    Emits undirected c after := by
  cases released with
  | ignored => exact emits_same rfl
  | released =>
      unfold releaseAt hookAddress
      split
      · exact emits_trans (emits_same rfl) (emits_one (hook_undirected _ _ _))
      · exact emits_same rfl

theorem informed_undirected (informed : Informed env c after) : Emits undirected c after := by
  cases informed with
  | starved => exact emits_same rfl
  | answered reply => exact packet_send_undirected _ _ _

theorem found_emits {allowed : Output → Prop} {xid : UInt32} {chaddr : HwAddr}
    {cached : CachedPacket} (found : dhcpPacketListFind xid chaddr c = some (cached, after)) :
    Emits allowed c after := by
  obtain ⟨entry, -, same⟩ := Option.map_eq_some_iff.mp found
  cases same
  exact emits_same rfl

/-- The answer to a request that was passed on is an acknowledgement. -/
theorem leaseack_emits {allowed : Output → Prop}
    (acks : ∀ request middle position index after,
      Acked cfg env middle request position index after → Emits allowed middle after)
    (done : ddhcpDhcpLeaseack cfg env packet c = some after) : Emits allowed c after := by
  unfold ddhcpDhcpLeaseack at done
  split at done
  · cases done
    exact emits_same rfl
  · rename_i cached taken found
    split at done
    · obtain ⟨⟨final, value⟩, handled, rfl⟩ := Option.map_eq_some_iff.mp done
      refine emits_trans (found_emits found) ?_
      cases relay_cases handled with
      | unknown => exact emits_same rfl
      | acked _ acked => exact acks _ _ _ _ _ acked
    · contradiction

theorem leasenak_emits {allowed : Output → Prop}
    (refuses : ∀ reply sent, allowed (.dhcp dhcpNak reply sent))
    (done : ddhcpDhcpLeasenak env packet c = some after) : Emits allowed c after := by
  unfold ddhcpDhcpLeasenak at done
  split at done
  · cases done
    exact emits_same rfl
  · rename_i cached taken found
    split at done
    · cases done
      exact emits_trans (found_emits found) (refused_emits (nack_refused cached.packet) refuses)
    · contradiction

theorem control_emits {allowed : Output → Prop} (buffer : List UInt8) (len : Nat) :
    Emits allowed c (handleCommand env buffer len c).1 := by
  unfold handleCommand
  simp only
  split_ifs <;> exact emits_same rfl

theorem datagram_emits (good : Good cfg c) (buffer : List UInt8) (len : Nat)
    (sender : In6Addr) : Emits multicast c (ddhcpBlockProcess cfg env buffer len sender c) := by
  unfold ddhcpBlockProcess
  split
  · rename_i packet _
    have moves : BlockMoves.Moves cfg env packet sender c
        (ddhcpBlockDispatch cfg env packet sender c) := BlockMoves.dispatch_moves
    exact emits_mono (block_moves_emit good.sound moves) announces_multicast
  · exact emits_same rfl

/-! Requests that are passed on. -/

/-- If it goes to one node, it is the request, and it goes to the holder. -/
def onBehalf (cfg : Settings) (c : Config) (request : DhcpPacket) (output : Output) : Prop :=
  ∀ packet dest, output = .direct packet dest → ∃ address position index,
    Elsewhere cfg c request address position index ∧ packet = renewPacket cfg request address ∧
    dest = (c.blocks position).ownerAddress

theorem undirected_on_behalf {request : DhcpPacket} (output : Output) (silent : undirected output) :
    onBehalf cfg c request output :=
  fun packet dest same => absurd same (silent packet dest)

theorem send_direct_emits {allowed : Output → Prop} (allows : allowed (.direct packet dest))
    (c : Config) : Emits allowed c (sendPacketDirect env packet dest c) := by
  unfold sendPacketDirect
  split
  · exact emits_one allows
  · exact emits_same rfl

theorem forward_on_behalf {request : DhcpPacket} {address : InAddr} {value : Int}
    (elsewhere : Elsewhere cfg c request address position index)
    (done : forwardRequest cfg env request address position index c = some (after, value)) :
    Emits (onBehalf cfg c request) c after := by
  obtain ⟨allocated, lease, entry⟩ := forward_opened done
  rw [forward_noted request address allocated entry] at done
  have owner : ((opened env c position).blocks position).ownerAddress =
      (c.blocks position).ownerAddress := by
    rw [opened, set_block_same]
    unfold blockAlloc
    split_ifs <;> rfl
  rw [owner] at done
  split at done
  · cases done
    have noted : Emits (onBehalf cfg c request) c (dhcpPacketListAdd env request
        (noteIn env (opened env c position) request position index lease)) := by
      unfold dhcpPacketListAdd
      split <;> exact emits_same rfl
    refine emits_trans noted (send_direct_emits (fun packet dest same => ?_) _)
    cases same
    exact ⟨address, position, index, elsewhere, rfl, rfl⟩
  · cases done
    exact emits_same rfl

theorem elsewhere_forwards {request : DhcpPacket} {address : InAddr}
    (elsewhere : Elsewhere cfg c request address position index) :
    dhcpHdlRequest cfg env request c = forwardRequest cfg env request address position index c := by
  simp [dhcpHdlRequest, elsewhere.requested, elsewhere.place, elsewhere.claimed]

theorem request_on_behalf {request : DhcpPacket} {value : Int}
    (done : dhcpHdlRequest cfg env request c = some (after, value)) :
    Emits (onBehalf cfg c request) c after := by
  cases request_cases done with
  | acked _ acked => exact emits_mono (acked_undirected acked) undirected_on_behalf
  | refused _ _ refused => exact emits_mono (refused_undirected refused) undirected_on_behalf
  | forwarded _ elsewhere =>
      rw [elsewhere_forwards elsewhere] at done
      exact forward_on_behalf elsewhere done

/-- Of the packets of clients only requests are passed on. -/
theorem process_on_behalf {request : DhcpPacket} {value : Nat}
    (done : dhcpProcess cfg env request c = some (after, value)) : Emits undirected c after ∨
      messageType request = dhcpRequest ∧ Emits (onBehalf cfg c request) c after := by
  by_cases type : messageType request = dhcpRequest
  · have other : messageType request ≠ dhcpDiscover := by
      rw [type]
      decide
    rw [dhcpProcess, if_neg other, if_pos type] at done
    obtain ⟨result, handled, same⟩ := Option.map_eq_some_iff.mp done
    cases same
    exact .inr ⟨type, request_on_behalf handled⟩
  · left
    cases process_cases done with
    | discover _ offered => exact offered_undirected offered
    | request kind => contradiction
    | release _ released => exact released_undirected released
    | inform _ informed => exact informed_undirected informed
    | other => exact emits_same rfl

/-! Answers. -/

theorem answer_sent {answer : McastPacket} {sender : In6Addr}
    (member : .direct packet dest ∈ sent c (sendPacketDirect env answer sender c)) :
    packet = answer ∧ dest = sender := by
  have only : Emits (fun output => ∀ packet dest, output = .direct packet dest →
      packet = answer ∧ dest = sender) c (sendPacketDirect env answer sender c) := by
    refine send_direct_emits (fun packet dest same => ?_) c
    cases same
    exact ⟨rfl, rfl⟩
  exact emits_sent only member packet dest rfl

theorem send_direct_blocks (answer : McastPacket) (sender : In6Addr) (c : Config) :
    (sendPacketDirect env answer sender c).blocks = c.blocks := by
  unfold sendPacketDirect
  split <;> rfl

theorem renewal_answers {request : McastPacket} {buffer : List UInt8} {len : Nat} {sender : In6Addr}
    (received : Receives cfg env (.direct buffer len sender) request)
    (asked : request.command = msgRenewLease) (renewal : Renewal cfg env c request sender after)
    (member : .direct packet dest ∈ sent c after) :
    AnswersTo cfg env (.direct buffer len sender) c after packet dest request := by
  cases renewal with
  | ignored => exact absurd member (by simp [sent])
  | declined =>
      obtain ⟨rfl, rfl⟩ := answer_sent member
      exact ⟨received, ⟨buffer, len, rfl⟩, asked, rfl, .inl rfl⟩
  | unanswered => exact absurd member (by simp [sent, prolong, Config.setBlock])
  | @granted position index lease place entry =>
      have same : sent c (sendPacketDirect env (renewAnswer cfg request msgLeaseAck) sender
          (prolong env c position index lease)) = sent (prolong env c position index lease)
          (sendPacketDirect env (renewAnswer cfg request msgLeaseAck) sender
            (prolong env c position index lease)) := rfl
      rw [same] at member
      obtain ⟨rfl, rfl⟩ := answer_sent member
      exact ⟨received, ⟨buffer, len, rfl⟩, asked, rfl,
        .inr ⟨rfl, position, index, lease, place, entry, send_direct_blocks _ _ _⟩⟩

/-- What goes to one node in an event is a request passed on or an answer. -/
theorem direct_sent (good : Good cfg c) (done : handle cfg env event c = some after)
    (member : .direct packet dest ∈ sent c after) :
    (∃ request address position index,
      PassesOn cfg event c packet dest request address position index) ∨
    ∃ request, AnswersTo cfg env event c after packet dest request := by
  have silent (undirected : Emits undirected c after) : False :=
    emits_sent undirected member packet dest rfl
  cases event with
  | houseKeeping =>
      exact (silent (emits_mono (house_keeping_emits good done) multicast_undirected)).elim
  | mcast buffer len sender =>
      cases done
      exact (silent (emits_mono (datagram_emits good buffer len sender) multicast_undirected)).elim
  | direct buffer len sender =>
      cases dispatch_cases done with
      | ignored => exact (silent (emits_same rfl)).elim
      | renewal received asked renewal =>
          exact .inr ⟨_, renewal_answers received asked renewal member⟩
      | ack _ _ handled =>
          exact (silent (leaseack_emits (fun _ _ _ _ _ => acked_undirected) handled)).elim
      | nak _ _ handled =>
          exact (silent (leasenak_emits (fun _ _ => reply_undirected _ _ _) handled)).elim
  | client request =>
      obtain ⟨⟨final, value⟩, handled, rfl⟩ := Option.map_eq_some_iff.mp done
      rcases process_on_behalf handled with undirected | ⟨type, passed⟩
      · exact (silent undirected).elim
      · obtain ⟨address, position, index, elsewhere, written, owner⟩ :=
          emits_sent passed member packet dest rfl
        exact .inl ⟨request, address, position, index, rfl, type, elsewhere, written, owner⟩
  | control buffer len =>
      cases done
      exact (silent (control_emits buffer len)).elim

end Ddhcpd.DirectSends

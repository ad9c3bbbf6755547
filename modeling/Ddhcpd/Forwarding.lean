import Ddhcpd.Answers
import Ddhcpd.DirectSends
import Ddhcpd.ByteOrder

/-!
Requests that are passed on in a swarm. The nodes talk to each other in datagrams, each node to one
other; a datagram that was posted may arrive late, out of order, more than once or never. Packets to
all nodes are not restricted at all. A client that is acknowledged a lease of a foreign block has its
lease renewed by the owner of it.
-/

namespace Ddhcpd.Forwarding
open Types Leases Blocks BlockPackets Packet Dhcp LeasePackets Node Path LeaseMoves Invariant Calls
open Exclusive Handlers HouseKeeping LeaseSafety Answers DirectSends ByteOrder

variable {count : Nat}

/-- Nodes that reach each other under their addresses. -/
structure Peers (count : Nat) where
  settings : Fin count → Settings
  address : Fin count → In6Addr
  distinct : Function.Injective address
  littleEndian : ∀ a b, (settings a).littleEndian = (settings b).littleEndian

/-- What `send_packet_direct` gave to the network. -/
structure Datagram (count : Nat) where
  source : Fin count
  dest : In6Addr
  packet : McastPacket

/-- Every node has its own clock. -/
structure Net (count : Nat) where
  node : Fin count → NodeState
  posted : List (Datagram count)

def posting (source : Fin count) : Output → Option (Datagram count)
  | .direct packet dest => some ⟨source, dest, packet⟩
  | _ => none

def posts (source : Fin count) (before after : Config) : List (Datagram count) :=
  (sent before after).filterMap (posting source)

/-- The datagram is in the receive buffer of the node, in front of what was there before. -/
def ArrivesAs (peers : Peers count) (node : Fin count) (datagram : Datagram count) (event : Event) :
    Prop :=
  ∃ buffer len, event = .direct buffer len (peers.address datagram.source) ∧
    datagram.dest = peers.address node ∧ len = (Wire.htonPacket datagram.packet).length ∧
    buffer.take len = Wire.htonPacket datagram.packet

/-- One node handles an event. Where that is a datagram, it was posted to this node. -/
inductive Step (peers : Peers count) : Net count → Fin count × Env × Event → Net count → Prop where
  | handles {s : Net count} {after : NodeState} {node : Fin count} {env : Env} {event : Event} :
      Node.Step (peers.settings node) (s.node node) (env, event) after →
      (isDirect event → ∃ datagram ∈ s.posted, ArrivesAs peers node datagram event) →
      Step peers s (node, env, event)
        ⟨Function.update s.node node after,
          s.posted ++ posts node (s.node node).config after.config⟩

/-- Every node has just started. -/
structure Began (peers : Peers count) (s : Net count) : Prop where
  nodes : ∀ node, ∃ now options, s.node node = ⟨now, startConfig (peers.settings node) now options⟩
  posted : s.posted = []

/-! What one event does. -/

section Events
variable {cfg : Settings} {env : Env} {event : Event} {c after : Config}

/-- An acknowledgement is for a lease of ours. -/
def acksOwn (cfg : Settings) (c : Config) (output : Output) : Prop :=
  ∀ reply got, output = .dhcp dhcpAck reply got →
    (findLeaseFromAddress cfg c reply.yiaddr).status = 0

theorem other_acks_own {output : Output} (other : ∀ reply got, output ≠ .dhcp dhcpAck reply got) :
    acksOwn cfg c output :=
  fun reply got same => absurd same (other reply got)

theorem nak_acks_own (reply : DhcpPacket) (got : Bool) : acksOwn cfg c (.dhcp dhcpNak reply got) := by
  refine other_acks_own fun other got' same => ?_
  simp only [Output.dhcp.injEq] at same
  exact absurd same.1 (by decide)

theorem offer_acks_own (reply : DhcpPacket) (c' : Config) :
    Emits (acksOwn cfg c) c' (dhcpPacketSend env dhcpOffer reply c').1 := by
  unfold dhcpPacketSend
  split
  · refine emits_one (other_acks_own fun other got same => ?_)
    simp only [Output.dhcp.injEq] at same
    exact absurd same.1 (by decide)
  · exact emits_same rfl

theorem offered_acks_own {discover : DhcpPacket} {value : Nat}
    (offered : Offered cfg env c discover after value) : Emits (acksOwn cfg c) c after := by
  cases offered with
  | exhausted => exact emits_same rfl
  | starved => exact emits_same rfl
  | unanswered => exact emits_same rfl
  | unsent => exact emits_trans (emits_same rfl) (offer_acks_own _ _)
  | @sent place index lease reply =>
      have offers : Emits (acksOwn cfg c) c
          (dhcpPacketSend env dhcpOffer reply (offerTo env c discover place index lease)).1 :=
        emits_trans (emits_same rfl) (offer_acks_own _ _)
      exact emits_trans offers (emits_same rfl)

theorem requested_acks_own {request : DhcpPacket} (sound : Sound cfg c)
    (requested : Requested cfg env c request after) : Emits (acksOwn cfg c) c after := by
  cases requested with
  | refused _ _ refused => exact refused_emits refused nak_acks_own
  | forwarded _ _ forwarded => exact forwarded_emits forwarded fun dest => other_acks_own (by simp)
  | @acked position index _ granted acked =>
      obtain ⟨inside, own, lease, entry, -⟩ := granted_grants granted
      refine acked_emits acked (fun reply got named _ other got' same => ?_) (other_acks_own (by simp))
      cases same
      rw [named, (sound position).subnet, find_lease_add inside (entry_below sound entry), if_pos own]

theorem released_acks_own {packet : DhcpPacket} (released : Released cfg env c packet after) :
    Emits (acksOwn cfg c) c after := by
  cases released with
  | ignored => exact emits_same rfl
  | released =>
      unfold releaseAt hookAddress
      split
      · exact emits_trans (emits_same rfl) (emits_one (other_acks_own (by simp)))
      · exact emits_same rfl

theorem process_acks_own {packet : DhcpPacket} {value : Nat} (sound : Sound cfg c)
    (uninformed : messageType packet ≠ dhcpInform)
    (done : dhcpProcess cfg env packet c = some (after, value)) : Emits (acksOwn cfg c) c after := by
  cases process_cases done with
  | discover _ offered => exact offered_acks_own offered
  | request _ requested => exact requested_acks_own sound requested
  | release _ released => exact released_acks_own released
  | inform type => contradiction
  | other => exact emits_same rfl

theorem multicast_acks_own (output : Output) (many : multicast output) : acksOwn cfg c output := by
  refine other_acks_own ?_
  rintro reply got rfl
  exact absurd many id

theorem renewal_acks_own {request : McastPacket} {sender : In6Addr}
    (renewal : Renewal cfg env c request sender after) : Emits (acksOwn cfg c) c after := by
  cases renewal with
  | ignored => exact emits_same rfl
  | declined => exact send_direct_emits (other_acks_own (by simp)) c
  | unanswered => exact emits_same rfl
  | granted =>
      exact emits_trans (emits_same rfl) (send_direct_emits (other_acks_own (by simp)) _)

/-- A client is acknowledged a foreign lease when an acknowledgement of another node comes back. -/
theorem foreign_ack {reply : DhcpPacket} {got : Bool} (good : Good cfg c)
    (done : handle cfg env event c = some after) (member : .dhcp dhcpAck reply got ∈ sent c after)
    (foreign : (findLeaseFromAddress cfg c reply.yiaddr).status ≠ 0) (uninformed : ¬ informs event) :
    ∃ answer cached, Receives cfg env event answer ∧ answer.command = msgLeaseAck ∧
      waiting answer c = some cached ∧ reply.yiaddr = addressOf cached.packet ∧
      reply.chaddr = cached.packet.chaddr := by
  have ours (own : Emits (acksOwn cfg c) c after) : False :=
    foreign (emits_sent own member reply got rfl)
  have answered {answer : McastPacket} (received : Receives cfg env event answer)
      (kind : isAnswer answer) : ∃ cached, waiting answer c = some cached ∧
        answer.command = msgLeaseAck ∧ reply.yiaddr = addressOf cached.packet ∧
        reply.chaddr = cached.packet.chaddr := by
    rcases answer_cases good.sound received kind done with ⟨-, same⟩ | ⟨cached, waits, -, told⟩
    · rw [same] at member
      exact absurd member (by simp [sent])
    · have inside : .dhcp dhcpAck reply got ∈ replies c after :=
        List.mem_filter.mpr ⟨member, rfl⟩
      obtain ⟨command, -, address, chaddr⟩ := told_acknowledged told inside
      exact ⟨cached, waits, command, address, chaddr⟩
  cases event with
  | houseKeeping =>
      exact (ours (emits_mono (house_keeping_emits good done) multicast_acks_own)).elim
  | mcast buffer len sender =>
      cases done
      exact (ours (emits_mono (datagram_emits good buffer len sender) multicast_acks_own)).elim
  | direct buffer len sender =>
      cases dispatch_cases done with
      | ignored => exact (ours (emits_same rfl)).elim
      | renewal _ _ renewal => exact (ours (renewal_acks_own renewal)).elim
      | ack received kind =>
          obtain ⟨cached, waits, command, named⟩ := answered received (.inl kind)
          exact ⟨_, cached, received, command, waits, named⟩
      | nak received kind =>
          obtain ⟨cached, waits, command, named⟩ := answered received (.inr kind)
          exact ⟨_, cached, received, command, waits, named⟩
  | client packet =>
      obtain ⟨⟨final, value⟩, handled, rfl⟩ := Option.map_eq_some_iff.mp done
      have type : messageType packet ≠ dhcpInform := fun inform =>
        uninformed ⟨packet, rfl, inform⟩
      exact (ours (process_acks_own good.sound type handled)).elim
  | control buffer len =>
      cases done
      exact (ours (control_emits buffer len)).elim

/-- A cached packet was cached before, or it is a copy of the packet of a client. -/
theorem cached_from {cached : CachedPacket} (good : Good cfg c)
    (done : handle cfg env event c = some after) (member : cached ∈ after.dhcpPacketCache) :
    cached ∈ c.dhcpPacketCache ∨ ∃ request, event = .client request ∧
      cached.packet = copyPacket request := by
  by_cases house : event = .houseKeeping
  · subst house
    rw [house_keeping_cache good done] at member
    exact .inl (List.mem_of_mem_filter member)
  rcases received_moves house done with ⟨packet, sender, moves⟩ | moves
  · rw [block_moves_cache good.sound moves] at member
    exact .inl member
  · clear done
    induction moves with
    | refl => exact .inl member
    | tail _ move ih =>
        cases move with
        | cache known =>
            rcases known cached member with before | ⟨request, same, copied⟩
            · exact ih before
            · exact .inr ⟨request, same, congrArg CachedPacket.packet copied⟩
        | _ => exact ih member

end Events

/-- A datagram about a lease is read as it was written, whatever stood in the buffer. -/
theorem arrived_packet {buffer : List UInt8} {packet other : McastPacket}
    (lease : Wire.leaseCommand packet.command)
    (written : buffer.take (Wire.htonPacket packet).length = Wire.htonPacket packet)
    (decoded : ntohMcastPacket env buffer (Wire.htonPacket packet).length = some other) :
    other = Wire.received packet := by
  rw [Wire.ntoh_read, Option.ite_none_right_eq_some, Option.some.injEq] at decoded
  obtain ⟨⟨sized, -⟩, rfl⟩ := decoded
  have same : buffer.take (Wire.htonPacket packet).length =
      (Wire.htonPacket packet).take (Wire.htonPacket packet).length := by
    rw [written, List.take_length]
  rw [Wire.packet_read_same same (Wire.well_formed_iff.mpr sized),
    Wire.packet_read_hton (Wire.lease_encodable lease)]

/-! Runs of the swarm. -/

section Runs
variable {peers : Peers count} {start s t : Net count} {labels : List (Fin count × Env × Event)}
  {node : Fin count} {env : Env} {event : Event}

/-- In the run so far the node has answered the request of another node like this. -/
def Answered (peers : Peers count) (start : Net count) (labels : List (Fin count × Env × Event))
    (datagram : Datagram count) (env : Env) (event : Event) (request : McastPacket) (u v : Net count) :
    Prop :=
  ∃ back front, labels = front ++ (datagram.source, env, event) :: back ∧
    Path (Step peers) start front u ∧ Step peers u (datagram.source, env, event) v ∧
    AnswersTo (peers.settings datagram.source) env event (u.node datagram.source).config
      (v.node datagram.source).config datagram.packet datagram.dest request

/-- Every datagram was posted for a reason, and every cached request was a client's. -/
structure Traced (peers : Peers count) (start : Net count) (labels : List (Fin count × Env × Event))
    (s : Net count) : Prop where
  good : ∀ node, Good (peers.settings node) (s.node node).config
  kinds : ∀ datagram ∈ s.posted, Wire.leaseCommand datagram.packet.command
  asked : ∀ datagram ∈ s.posted, datagram.packet.command = msgRenewLease →
    ∃ env request address, (datagram.source, env, .client request) ∈ labels ∧
      messageType request = dhcpRequest ∧ requestedAddress request = some address ∧
      datagram.packet = renewPacket (peers.settings datagram.source) request address
  answered : ∀ datagram ∈ s.posted, datagram.packet.command = msgLeaseAck →
    ∃ env event request u v, Answered peers start labels datagram env event request u v
  cached : ∀ node, ∀ cached ∈ (s.node node).config.dhcpPacketCache, ∃ env request,
    (node, env, .client request) ∈ labels ∧ cached.packet = copyPacket request

theorem began_traced (began : Began peers start) : Traced peers start [] start where
  good node := by
    obtain ⟨now, options, same⟩ := began.nodes node
    rw [same]
    exact start_good _ now options
  kinds := by simp [began.posted]
  asked := by simp [began.posted]
  answered := by simp [began.posted]
  cached node := by
    obtain ⟨now, options, same⟩ := began.nodes node
    simp [same, startConfig]

/-- What a step of the swarm is for the node that takes it. -/
structure Handles (peers : Peers count) (s : Net count) (node : Fin count) (env : Env) (event : Event)
    (t : Net count) : Prop where
  step : Node.Step (peers.settings node) (s.node node) (env, event) (t.node node)
  posted : t.posted = s.posted ++ posts node (s.node node).config (t.node node).config
  others : ∀ other, other ≠ node → t.node other = s.node other
  arrives : isDirect event → ∃ datagram ∈ s.posted, ArrivesAs peers node datagram event

theorem step_handles (step : Step peers s (node, env, event) t) :
    Handles peers s node env event t := by
  cases step with
  | @handles after _ _ _ moves arrives =>
      refine ⟨?_, ?_, fun other different => ?_, arrives⟩
      · simpa using moves
      · simp
      · simp [different]

theorem mem_posts {before after : Config} {datagram : Datagram count} :
    datagram ∈ posts node before after ↔
      datagram.source = node ∧ .direct datagram.packet datagram.dest ∈ sent before after := by
  simp only [posts, List.mem_filterMap]
  constructor
  · rintro ⟨output, member, posted⟩
    cases output with
    | direct packet dest =>
        cases posted
        exact ⟨rfl, member⟩
    | _ => contradiction
  · rintro ⟨rfl, member⟩
    exact ⟨_, member, rfl⟩

/-- A datagram that a node posts passes a request on or answers one. -/
theorem posts_traced {datagram : Datagram count} (good : Good (peers.settings node) (s.node node).config)
    (step : Node.Step (peers.settings node) (s.node node) (env, event) (t.node node))
    (member : datagram ∈ posts node (s.node node).config (t.node node).config) :
    datagram.source = node ∧
      ((∃ request address position index, PassesOn (peers.settings node) event (s.node node).config
          datagram.packet datagram.dest request address position index) ∨
        ∃ request, AnswersTo (peers.settings node) env event (s.node node).config
          (t.node node).config datagram.packet datagram.dest request) := by
  obtain ⟨source, sends⟩ := mem_posts.mp member
  exact ⟨source, direct_sent good (step_handled step) sends⟩

theorem step_traced (run : Path (Step peers) start labels s) (traced : Traced peers start labels s)
    (step : Step peers s (node, env, event) t) :
    Traced peers start (labels ++ [(node, env, event)]) t := by
  have handles := step_handles step
  have posted {datagram : Datagram count} (member : datagram ∈ t.posted) : datagram ∈ s.posted ∨
      datagram ∈ posts node (s.node node).config (t.node node).config := by
    rw [handles.posted] at member
    exact List.mem_append.mp member
  have last : (node, env, event) ∈ labels ++ [(node, env, event)] := by simp
  refine ⟨fun other => ?_, fun datagram member => ?_, fun datagram member asks => ?_,
    fun datagram member grants => ?_, fun other cached member => ?_⟩
  · by_cases same : other = node
    · subst same
      exact step_good (traced.good other) handles.step
    · rw [handles.others other same]
      exact traced.good other
  · rcases posted member with before | new
    · exact traced.kinds datagram before
    · obtain ⟨-, ⟨request, address, position, index, passes⟩ | ⟨request, answers⟩⟩ :=
        posts_traced (traced.good node) handles.step new
      · rw [passes.written]
        exact .inl rfl
      · rcases answers.granted with nak | ⟨ack, -⟩
        · exact .inr (.inr (.inl nak))
        · exact .inr (.inl ack)
  · rcases posted member with before | new
    · obtain ⟨env, request, address, known, rest⟩ := traced.asked datagram before asks
      exact ⟨env, request, address, List.mem_append_left _ known, rest⟩
    · obtain ⟨rfl, ⟨request, address, position, index, passes⟩ | ⟨request, answers⟩⟩ :=
        posts_traced (traced.good node) handles.step new
      · obtain rfl := passes.client
        exact ⟨env, request, address, last, passes.type, passes.elsewhere.requested, passes.written⟩
      · rcases answers.granted with nak | ⟨ack, -⟩
        · exact absurd (nak.symm.trans asks) (by decide)
        · exact absurd (ack.symm.trans asks) (by decide)
  · rcases posted member with before | new
    · obtain ⟨env, event, request, u, v, back, front, split, rest⟩ :=
        traced.answered datagram before grants
      exact ⟨env, event, request, u, v, back ++ [_], front, by rw [split]; simp; rfl, rest⟩
    · obtain ⟨rfl, ⟨request, address, position, index, passes⟩ | ⟨request, answers⟩⟩ :=
        posts_traced (traced.good node) handles.step new
      · have renewal : datagram.packet.command = msgRenewLease := by rw [passes.written]; rfl
        exact absurd (renewal.symm.trans grants) (by decide)
      · exact ⟨env, event, request, s, t, [], labels, rfl, run, step, answers⟩
  · have known (before : cached ∈ (s.node other).config.dhcpPacketCache) :
        ∃ env' request, (other, env', .client request) ∈ labels ++ [(node, env, event)] ∧
          cached.packet = copyPacket request := by
      obtain ⟨env', request, known, copied⟩ := traced.cached other cached before
      exact ⟨env', request, List.mem_append_left _ known, copied⟩
    by_cases same : other = node
    · subst same
      rcases cached_from (traced.good other) (step_handled handles.step) member with
        before | ⟨request, rfl, copied⟩
      · exact known before
      · exact ⟨env, request, last, copied⟩
    · rw [handles.others other same] at member
      exact known member

theorem run_traced (began : Began peers start) (run : Path (Step peers) start labels s) :
    Traced peers start labels s :=
  path_induction (fun labels s => Traced peers start labels s) (began_traced began)
    (fun _ _ _ _ path traced step => step_traced path traced step) run

/-- What arrives from another node was posted to this node by that node. -/
theorem arrived_posted {answer : McastPacket} (traced : Traced peers start labels s)
    (handles : Handles peers s node env event t)
    (received : Receives (peers.settings node) env event answer) :
    ∃ datagram ∈ s.posted, datagram.dest = peers.address node ∧
      (∃ buffer len, event = .direct buffer len (peers.address datagram.source)) ∧
      datagram.packet.command = answer.command ∧
      datagram.packet.renewPayload = answer.renewPayload := by
  obtain ⟨buffer, len, sender, rfl, decoded, -⟩ := received
  obtain ⟨datagram, member, _, _, same, dest, rfl, written⟩ := handles.arrives ⟨_, _, _, rfl⟩
  cases same
  obtain rfl := arrived_packet (traced.kinds datagram member) written decoded
  have sameMessage := Wire.received_same datagram.packet
  exact ⟨datagram, member, dest, ⟨_, _, rfl⟩, sameMessage.command.symm,
    (sameMessage.renewPayload (sameMessage.command ▸ traced.kinds datagram member)).symm⟩

theorem prolonged_lease {cfg : Settings} {c after : Config} {position index : Nat} {lease : Lease}
    {address : InAddr} (place : findLeaseFromAddress cfg c address = ⟨0, position, index⟩)
    (entry : leaseAt (c.blocks position) index = some lease)
    (same : after.blocks = (prolong env c position index lease).blocks) :
    leaseOf cfg after address = some { lease with leaseEnd := leaseEndFrom env c } := by
  have moved : leaseOf cfg after address = leaseOf cfg (prolong env c position index lease) address :=
    lease_of_congr (fun other => by rw [same]) fun other _ => by rw [same]
  rw [moved, prolong, lease_of_put entry, if_pos place]

/-- A client is acknowledged a lease of a foreign block only after the owner has renewed a lease for
it, one that the client had asked this node for before, under the same transaction. If the client
asked for no other address in it, that is the lease it is acknowledged. -/
theorem foreign_ack_renewed {reply : DhcpPacket} {got : Bool} (began : Began peers start)
    (run : Path (Step peers) start labels s) (step : Step peers s (node, env, event) t)
    (member : .dhcp dhcpAck reply got ∈ sent (s.node node).config (t.node node).config)
    (foreign : (findLeaseFromAddress (peers.settings node) (s.node node).config
      reply.yiaddr).status ≠ 0) (uninformed : ¬ informs event) :
    ∃ front back owner renewedAt renewal u v first asked,
      labels = front ++ (owner, renewedAt, renewal) :: back ∧ Path (Step peers) start front u ∧
      Step peers u (owner, renewedAt, renewal) v ∧
      (findLeaseFromAddress (peers.settings owner) (u.node owner).config asked).status = 0 ∧
      (∃ lease, leaseOf (peers.settings owner) (v.node owner).config asked = some lease ∧
        lease.leaseEnd = leaseEndFrom renewedAt (u.node owner).config) ∧
      (∃ askedAt, (node, askedAt, .client first) ∈ front) ∧ messageType first = dhcpRequest ∧
      requestedAddress first = some asked ∧ first.chaddr = reply.chaddr ∧
      (∃ keptAt kept, (node, keptAt, .client kept) ∈ labels ∧ kept.xid = first.xid ∧
        kept.chaddr = reply.chaddr ∧ reply.yiaddr = addressOf (copyPacket kept)) ∧
      ((∀ otherAt other, (node, otherAt, .client other) ∈ labels → other.xid = first.xid →
        other.chaddr = reply.chaddr → requestedAddress other = some reply.yiaddr) →
        asked = reply.yiaddr) := by
  have traced := run_traced began run
  have handles := step_handles step
  obtain ⟨answer, cached, received, ack, waits, address, chaddr⟩ :=
    foreign_ack (traced.good node) (step_handled handles.step) member foreign uninformed
  obtain ⟨back, posted, dest, -, command, payload⟩ := arrived_posted traced handles received
  obtain ⟨renewedAt, renewal, request, u, v, later, front, split, path, renews, granting⟩ :=
    traced.answered back posted (command.trans ack)
  have earlier := run_traced began path
  obtain ⟨forth, asking, -, ⟨_, _, source⟩, kind, copied⟩ :=
    arrived_posted earlier (step_handles renews) granting.received
  obtain ⟨_, _, returned⟩ := granting.source
  rw [source, Event.direct.injEq] at returned
  obtain rfl : forth.source = node := peers.distinct (returned.2.2.trans dest)
  obtain ⟨askedAt, first, asked, before, type, named, written⟩ :=
    earlier.asked forth asking (kind.trans granting.asked)
  have carried : request.renewPayload = ⟨first.chaddr, rawAddress (peers.settings forth.source) asked,
      first.xid, 0⟩ := by
    rw [← copied, written]
    rfl
  have matching := List.find?_some waits
  simp only [answers, cacheMatches, decide_eq_true_eq, ← payload, answers_payload granting, carried] at matching
  obtain ⟨keptAt, kept, keeps, copy⟩ := traced.cached _ cached (List.mem_of_find?_eq_some waits)
  rw [copy] at matching address chaddr
  obtain ⟨position, index, lease, place, entry, prolonged⟩ :=
    ack_renews granting (command.trans ack)
  rw [carried] at place
  have sameAddress : rawAddress (peers.settings back.source)
      (rawAddress (peers.settings forth.source) asked) = asked :=
    (raw_address_twice _ _ asked).mpr (.inl (peers.littleEndian _ _))
  simp only [sameAddress] at place
  have client : first.chaddr = reply.chaddr := (chaddr.trans matching.2).symm
  refine ⟨front, later, back.source, renewedAt, renewal, u, v, first, asked, split, path, renews, ?_,
    ⟨_, prolonged_lease place entry prolonged, rfl⟩, ⟨askedAt, before⟩, type, named, client,
    ⟨keptAt, kept, keeps, matching.1, chaddr.symm, address⟩, fun only => ?_⟩
  · rw [place]
  · have told : (forth.source, askedAt, .client first) ∈ labels := by
      rw [split]
      exact List.mem_append_left _ before
    exact Option.some.inj (named.symm.trans (only askedAt first told rfl client))

end Runs

/-! Two nodes of the small network, evaluated. -/

def wasPosted (peers : Peers count) (s : Net count) (node : Fin count) : Event → Bool
  | .direct buffer len sender => s.posted.any fun datagram =>
      sender = peers.address datagram.source ∧ datagram.dest = peers.address node ∧
        len = (Wire.htonPacket datagram.packet).length ∧
        buffer.take len = Wire.htonPacket datagram.packet
  | _ => true

def runSwarm (peers : Peers count) (s : Net count) :
    List (Fin count × Env × Event) → Option (Net count)
  | [] => some s
  | (node, env, event) :: rest =>
      if (s.node node).clock ≤ env.now ∧ wasPosted peers s node event then
        (handle (peers.settings node) env event (s.node node).config).bind fun after =>
          runSwarm peers ⟨Function.update s.node node ⟨env.now, after⟩,
            s.posted ++ posts node (s.node node).config after⟩ rest
      else none

theorem was_posted_arrives {peers : Peers count} {s : Net count} {node : Fin count} {event : Event}
    (posted : wasPosted peers s node event = true) (direct : isDirect event) :
    ∃ datagram ∈ s.posted, ArrivesAs peers node datagram event := by
  obtain ⟨buffer, len, sender, rfl⟩ := direct
  obtain ⟨datagram, member, facts⟩ := List.any_eq_true.mp posted
  obtain ⟨rfl, dest, length, written⟩ := of_decide_eq_true facts
  exact ⟨datagram, member, buffer, len, rfl, dest, length, written⟩

theorem run_swarm_path {peers : Peers count} {s t : Net count}
    {labels : List (Fin count × Env × Event)} (done : runSwarm peers s labels = some t) :
    Path (Step peers) s labels t := by
  induction labels generalizing s with
  | nil =>
      cases done
      exact .refl _
  | cons label rest ih =>
      obtain ⟨node, env, event⟩ := label
      simp only [runSwarm, Option.ite_none_right_eq_some] at done
      obtain ⟨⟨later, posted⟩, done⟩ := done
      obtain ⟨after, handled, done⟩ := Option.bind_eq_some_iff.mp done
      exact .next (.handles (.event env event later handled) (was_posted_arrives posted)) (ih done)

abbrev smallOwner : Fin 2 := ⟨0, Nat.two_pos⟩

abbrev smallAsker : Fin 2 := ⟨1, Nat.one_lt_two⟩

def smallPeers : Peers 2 where
  settings node := smallNode (UInt8.ofNat (node.val + 1))
  address node := List.Vector.replicate 16 (UInt8.ofNat node.val)
  distinct := by
    have apart : ∀ a b : Fin 2, List.Vector.replicate 16 (UInt8.ofNat a.val) =
        List.Vector.replicate 16 (UInt8.ofNat b.val) → a = b := by decide
    exact fun a b => apart a b
  littleEndian _ _ := rfl

def smallSwarm : Net 2 where
  node node := ⟨1000, startConfig (smallPeers.settings node) 1000
    [⟨codeAddressLeaseTime, 4, [0, 0, 1, 44]⟩]⟩
  posted := []

theorem small_began : Began smallPeers smallSwarm := ⟨fun _ => ⟨_, _, rfl⟩, rfl⟩

def smallRenew : McastPacket := renewPacket (smallNode 2) (smallPacket 1 7 dhcpRequest) 0x0A000000

-- The owner claims the block, the asker hears so and passes the request of a client on.
def forwardRun : List (Fin 2 × Env × Event) :=
  ownedRun.map (fun label => (smallOwner, label)) ++
    [(smallAsker, calmEnv 1003, smallClaim 1 60),
      (smallAsker, calmEnv 1004, .client (smallPacket 1 7 dhcpRequest)),
      (smallOwner, calmEnv 1005,
        .direct (Wire.htonPacket smallRenew) 44 (smallPeers.address smallAsker))]

def ackBack : Event :=
  .direct (Wire.htonPacket (renewAnswer (smallNode 1) smallRenew msgLeaseAck)) 44
    (smallPeers.address smallOwner)

def isAck : Output → Bool
  | .dhcp type reply _ => type = dhcpAck ∧ reply.yiaddr = 0x0A000000
  | _ => false

theorem is_ack_reply {output : Output} (ack : isAck output = true) :
    ∃ reply got, output = .dhcp dhcpAck reply got ∧ reply.yiaddr = 0x0A000000 := by
  cases output with
  | dhcp type reply got =>
      obtain ⟨rfl, address⟩ := of_decide_eq_true ack
      exact ⟨reply, got, rfl, address⟩
  | _ => contradiction

theorem ack_back_uninformed : ¬ informs ackBack := by
  rintro ⟨packet, client, -⟩
  cases client

theorem small_ack : ∃ s t : Net 2, ∃ reply got, Path (Step smallPeers) smallSwarm forwardRun s ∧
    Step smallPeers s (smallAsker, calmEnv 1006, ackBack) t ∧
    .dhcp dhcpAck reply got ∈ sent (s.node smallAsker).config (t.node smallAsker).config ∧
    (findLeaseFromAddress (smallPeers.settings smallAsker) (s.node smallAsker).config
      reply.yiaddr).status ≠ 0 := by
  have evaluated : (runSwarm smallPeers smallSwarm forwardRun).any (fun s =>
      (s.node smallAsker).clock ≤ 1006 ∧ wasPosted smallPeers s smallAsker ackBack ∧
      (findLeaseFromAddress (smallNode 2) (s.node smallAsker).config 0x0A000000).status ≠ 0 ∧
      (handle (smallNode 2) (calmEnv 1006) ackBack (s.node smallAsker).config).any fun after =>
        (sent (s.node smallAsker).config after).any isAck) = true := by
    decide +kernel
  obtain ⟨s, run, facts⟩ := (Option.any_eq_true _ _).mp evaluated
  obtain ⟨later, posted, foreign, rest⟩ := of_decide_eq_true facts
  obtain ⟨after, handled, acks⟩ := (Option.any_eq_true _ _).mp rest
  obtain ⟨output, member, ack⟩ := List.any_eq_true.mp acks
  obtain ⟨reply, got, rfl, address⟩ := is_ack_reply ack
  rw [← address] at foreign
  obtain ⟨t, step, same⟩ : ∃ t, Step smallPeers s (smallAsker, calmEnv 1006, ackBack) t ∧
      (t.node smallAsker).config = after :=
    ⟨_, .handles (.event (calmEnv 1006) ackBack later handled) (was_posted_arrives posted), by simp⟩
  exact ⟨s, t, reply, got, run_swarm_path run, step, same ▸ member, foreign⟩

theorem foreign_ack_renewed_small : ∃ s : Net 2, ∃ reply : DhcpPacket,
    (findLeaseFromAddress (smallPeers.settings smallAsker) (s.node smallAsker).config
      reply.yiaddr).status ≠ 0 ∧
    ∃ front back owner renewedAt renewal, forwardRun = front ++ (owner, renewedAt, renewal) :: back ∧
      ∃ (u : Net 2) (asked : InAddr),
        (findLeaseFromAddress (smallPeers.settings owner) (u.node owner).config asked).status = 0 := by
  obtain ⟨s, t, reply, got, run, step, member, foreign⟩ := small_ack
  obtain ⟨front, back, owner, renewedAt, renewal, u, -, -, asked, split, -, -, own, -⟩ :=
    foreign_ack_renewed small_began run step member foreign ack_back_uninformed
  exact ⟨s, reply, foreign, front, back, owner, renewedAt, renewal, split, u, asked, own⟩

end Ddhcpd.Forwarding

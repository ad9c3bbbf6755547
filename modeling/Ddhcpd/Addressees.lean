import Ddhcpd.Provenance

/-!
Who gets a reply. Every reply is built from one packet of one client: it carries the transaction and
the addresses of that packet, its kind fits what was asked, and it is sent where the packet asks it
to be sent. The packet is the one that is handled, or a request that was passed on before.
-/

namespace Ddhcpd.Addressees
open Types Leases Blocks BlockPackets Dhcp LeasePackets Packet Node LeaseMoves Invariant Calls Handlers
open Answers HouseKeeping Provenance

def dhcpBroadcastMask : UInt16 := 0x8000

/-- The port is that of the clients in both cases. -/
inductive Destination where
  | broadcast
  | unicast (address : InAddr)
  deriving DecidableEq

/-- Where `dhcp_packet_send` sends a packet. -/
def destination (packet : DhcpPacket) : Destination :=
  if packet.flags &&& dhcpBroadcastMask = 0 ∧ packet.ciaddr ≠ 0 then .unicast packet.ciaddr
  else .broadcast

/-- The kind of a reply fits the kind of the packet. -/
def Fits (type kind : UInt8) : Prop :=
  type = dhcpOffer ∧ kind = dhcpDiscover ∨ type = dhcpAck ∧ (kind = dhcpRequest ∨ kind = dhcpInform) ∨
    type = dhcpNak ∧ kind = dhcpRequest

/-- The reply is built from the packet. -/
structure BuiltFrom (packet reply : DhcpPacket) : Prop where
  op : reply.op = 2
  hardware : reply.htype = packet.htype ∧ reply.hlen = packet.hlen ∧ reply.chaddr = packet.chaddr
  transaction : reply.xid = packet.xid
  relay : reply.hops = packet.hops ∧ reply.giaddr = packet.giaddr
  flags : reply.flags = packet.flags
  client : reply.ciaddr = packet.ciaddr

theorem built_destination {packet reply : DhcpPacket} (built : BuiltFrom packet reply) :
    destination reply = destination packet := by
  rw [destination, destination, built.flags, built.client]

/-- A packet and its copy are built from alike. -/
theorem built_from_copy {packet reply : DhcpPacket} (built : BuiltFrom (copyPacket packet) reply) :
    BuiltFrom packet reply :=
  ⟨built.op, built.hardware, built.transaction, built.relay, built.flags, built.client⟩

section Handlers
variable {cfg : Settings} {env : Env} {event : Event} {c middle after : Config} {packet : DhcpPacket}
  {type : UInt8} {position index : Nat}

/-- At most one reply goes out, of this kind and built from this packet. -/
def Replied (type : UInt8) (packet : DhcpPacket) (c after : Config) : Prop :=
  replies c after = [] ∨ ∃ reply got, replies c after = [.dhcp type reply got] ∧ BuiltFrom packet reply

theorem silent_replied (silent : Emits (fun output => isReply output = false) c after) :
    Replied type packet c after := .inl (replies_none silent)

theorem same_replied (same : after.out = c.out) : Replied type packet c after :=
  .inl (replies_same same)

theorem filled_built {reply filled : DhcpPacket} {leaseTime : Bool} (built : BuiltFrom packet reply)
    (done : dhcpDefaultOptions env type reply packet c leaseTime = some filled) :
    BuiltFrom packet filled := by
  simp only [dhcpDefaultOptions, Option.ite_none_right_eq_some, Option.some.injEq] at done
  obtain ⟨-, rfl⟩ := done
  exact ⟨built.op, built.hardware, built.transaction, built.relay, built.flags, built.client⟩

theorem initial_built (packet : DhcpPacket) (address : InAddr) :
    BuiltFrom packet { buildInitialPacket packet with yiaddr := address } :=
  ⟨rfl, ⟨rfl, rfl, rfl⟩, rfl, ⟨rfl, rfl⟩, rfl, rfl⟩

/-- The one place where a reply leaves. -/
theorem send_replied {reply : DhcpPacket} (silent : middle.out = c.out) (built : BuiltFrom packet reply) :
    Replied type packet c (dhcpPacketSend env type reply middle).1 := by
  unfold dhcpPacketSend
  split
  · right
    exact ⟨reply, env.dhcpSent, by simp [replies, sent, Config.emit, silent, isReply], built⟩
  · exact same_replied silent

theorem hook_replied {action : HookAction} {address : InAddr} {chaddr : HwAddr}
    (grown : ∃ outs, middle.out = c.out ++ outs) (replied : Replied type packet c middle) :
    Replied type packet c (hookAddress cfg env action address chaddr middle) := by
  have same : replies c (hookAddress cfg env action address chaddr middle) = replies c middle := by
    obtain ⟨outs, out⟩ := grown
    unfold hookAddress
    split
    · simp [replies, sent, Config.emit, out, isReply]
    · rfl
  rwa [Replied, same]

theorem send_grown (silent : middle.out = c.out) (type : UInt8) (reply : DhcpPacket) :
    ∃ outs, (dhcpPacketSend env type reply middle).1.out = c.out ++ outs := by
  unfold dhcpPacketSend
  split
  · exact ⟨_, by rw [Config.emit, silent]⟩
  · exact ⟨[], by rw [silent, List.append_nil]⟩

theorem discover_replied {value : Nat} (done : dhcpHdlDiscover cfg env packet c = some (after, value)) :
    Replied dhcpOffer packet c after := by
  unfold dhcpHdlDiscover at done
  obtain ⟨selected, -, done⟩ := Option.bind_eq_some_iff.mp done
  split at done
  · cases done
    exact same_replied rfl
  obtain ⟨number, -, done⟩ := Option.bind_eq_some_iff.mp done
  split at done
  · cases done
    exact same_replied rfl
  obtain ⟨block, -, done⟩ := Option.bind_eq_some_iff.mp done
  simp only at done
  split at done
  · cases done
    exact same_replied rfl
  · rename_i reply filled
    have built := filled_built (initial_built packet _) filled
    split at done <;> cases done <;> exact send_replied rfl built

theorem ack_replied {value : Nat} (done : dhcpAckLease cfg env packet position index c = some (after, value)) :
    Replied dhcpAck packet c after := by
  unfold dhcpAckLease at done
  split at done
  · cases done
    exact same_replied rfl
  obtain ⟨block, -, done⟩ := Option.bind_eq_some_iff.mp done
  simp only at done
  split at done
  · cases done
    exact same_replied rfl
  · rename_i reply filled
    cases done
    exact hook_replied (send_grown rfl _ _) (send_replied rfl (filled_built (initial_built packet _) filled))

theorem nack_replied (packet : DhcpPacket) : Replied dhcpNak packet c (dhcpNack env packet c).1 := by
  unfold dhcpNack
  split
  · exact same_replied rfl
  · have built := initial_built packet 0
    exact send_replied rfl ⟨built.op, built.hardware, built.transaction, built.relay, built.flags, built.client⟩

theorem forward_replied {address : InAddr} {value : Int}
    (done : forwardRequest cfg env packet address position index c = some (after, value)) :
    Replied type packet c after := .inl (forwarded_replies (forward_cases done))

/-- A request is acknowledged or refused, or passed on. -/
theorem request_replied {value : Int} (done : dhcpHdlRequest cfg env packet c = some (after, value)) :
    Replied dhcpAck packet c after ∨ Replied dhcpNak packet c after := by
  have acks {position index : Nat} {result : Config × Int}
      (acked : ((dhcpAckLease cfg env packet position index c).bind fun acked =>
        some (acked.1, (acked.2 : Int))) = some result) : Replied dhcpAck packet c result.1 := by
    obtain ⟨⟨final, status⟩, ack, same⟩ := Option.bind_eq_some_iff.mp acked
    cases same
    exact ack_replied ack
  unfold dhcpHdlRequest at done
  split at done
  · simp only at done
    split at done
    · cases done
      exact .inr (nack_replied packet)
    split at done
    · exact .inl (forward_replied done)
    split at done
    · obtain ⟨lease, -, done⟩ := Option.bind_eq_some_iff.mp done
      split at done
      · exact .inl (acks done)
      · cases done
        exact .inr (nack_replied packet)
    · split at done
      · cases done
        exact .inr (nack_replied packet)
      · cases done
        exact .inr (same_replied rfl)
  · obtain ⟨found, -, done⟩ := Option.bind_eq_some_iff.mp done
    split at done
    · exact .inl (acks done)
    · cases done
      exact .inr (nack_replied packet)

theorem inform_replied : Replied dhcpAck packet c (dhcpHdlInform env packet c) := by
  unfold dhcpHdlInform
  split
  · exact same_replied rfl
  · split
    · exact same_replied rfl
    · rename_i reply filled
      exact send_replied rfl (filled_built (initial_built packet 0) filled)

/-! Events. -/

/-- At most one reply goes out, which fits the packet and is built from it. -/
def Prompted (packet : DhcpPacket) (c after : Config) : Prop :=
  replies c after = [] ∨ ∃ type reply got, replies c after = [.dhcp type reply got] ∧
    Fits type (messageType packet) ∧ BuiltFrom packet reply

theorem replied_prompted (fits : Fits type (messageType packet)) (replied : Replied type packet c after) :
    Prompted packet c after := by
  rcases replied with none | ⟨reply, got, one, built⟩
  · exact .inl none
  · exact .inr ⟨type, reply, got, one, fits, built⟩

theorem released_silent (released : Released cfg env c packet after) : replies c after = [] := by
  apply replies_none
  cases released with
  | ignored => exact emits_same rfl
  | released =>
      unfold releaseAt hookAddress
      split
      · exact emits_trans (emits_same rfl) (emits_one (by rfl))
      · exact emits_same rfl

theorem process_prompted {value : Nat} (done : dhcpProcess cfg env packet c = some (after, value)) :
    Prompted packet c after := by
  unfold dhcpProcess at done
  split at done
  · rename_i kind
    obtain ⟨⟨final, status⟩, handled, same⟩ := Option.map_eq_some_iff.mp done
    cases same
    exact replied_prompted (.inl ⟨rfl, kind⟩) (discover_replied handled)
  split at done
  · rename_i kind
    obtain ⟨⟨final, status⟩, handled, same⟩ := Option.map_eq_some_iff.mp done
    cases same
    rcases request_replied handled with acked | refused
    · exact replied_prompted (.inr (.inl ⟨rfl, .inl kind⟩)) acked
    · exact replied_prompted (.inr (.inr ⟨rfl, kind⟩)) refused
  split at done
  · obtain ⟨final, handled, same⟩ := Option.map_eq_some_iff.mp done
    cases same
    exact .inl (released_silent (release_cases handled))
  split at done
  · rename_i kind
    cases done
    exact replied_prompted (.inr (.inl ⟨rfl, .inr kind⟩)) inform_replied
  · cases done
    exact .inl (replies_same rfl)

theorem renewal_silent {request : McastPacket} {sender : In6Addr}
    (renewal : Renewal cfg env c request sender after) : replies c after = [] := by
  have sends (answer : McastPacket) (c : Config) :
      Emits (fun output => isReply output = false) c (sendPacketDirect env answer sender c) :=
    DirectSends.send_direct_emits (by rfl) c
  apply replies_none
  cases renewal with
  | ignored => exact emits_same rfl
  | declined => exact sends _ c
  | unanswered => exact emits_same rfl
  | granted => exact emits_trans (emits_same rfl) (sends _ _)

/-- An answer of another node is told to the client of a request that was kept. -/
def Relayed (c after : Config) : Prop :=
  replies c after = [] ∨ ∃ cached ∈ c.dhcpPacketCache, ∃ type reply got,
    replies c after = [.dhcp type reply got] ∧ Fits type dhcpRequest ∧ BuiltFrom cached.packet reply

theorem replied_relayed {cached : CachedPacket} (member : cached ∈ c.dhcpPacketCache)
    (fits : Fits type dhcpRequest) (silent : middle.out = c.out)
    (replied : Replied type cached.packet middle after) : Relayed c after := by
  have same : replies c after = replies middle after := by rw [replies, replies, sent, sent, silent]
  rcases replied with none | ⟨reply, got, one, built⟩
  · exact .inl (same.trans none)
  · exact .inr ⟨cached, member, type, reply, got, same.trans one, fits, built⟩

theorem direct_relayed {buffer : List UInt8} {len : Nat} {sender : In6Addr}
    (done : ddhcpDhcpProcess cfg env buffer len sender c = some after) : Relayed c after := by
  cases dispatch_cases done with
  | ignored => exact .inl (replies_same rfl)
  | renewal _ _ renewal => exact .inl (renewal_silent renewal)
  | ack _ _ handled =>
      unfold ddhcpDhcpLeaseack at handled
      split at handled
      · cases handled
        exact .inl (replies_same rfl)
      · rename_i cached middle found
        have member := LeaseSafety.list_find_member found
        obtain ⟨entry, -, same⟩ := Option.map_eq_some_iff.mp found
        cases same
        split at handled
        · obtain ⟨⟨final, value⟩, acked, rfl⟩ := Option.map_eq_some_iff.mp handled
          simp only [dhcpRhdlAck] at acked
          split at acked
          · cases acked
            exact .inl (replies_same rfl)
          · have replied := ack_replied acked
            exact replied_relayed member (.inr (.inl ⟨rfl, .inl rfl⟩)) (by rfl) replied
        · contradiction
  | nak _ _ handled =>
      unfold ddhcpDhcpLeasenak at handled
      split at handled
      · cases handled
        exact .inl (replies_same rfl)
      · rename_i cached middle found
        have member := LeaseSafety.list_find_member found
        obtain ⟨entry, -, same⟩ := Option.map_eq_some_iff.mp found
        cases same
        split at handled
        · cases handled
          exact replied_relayed member (.inr (.inr ⟨rfl, rfl⟩)) (by rfl) (nack_replied cached.packet)
        · contradiction

theorem multicast_silent (output : Output) (many : multicast output) : isReply output = false := by
  cases output with
  | mcast => rfl
  | _ => exact absurd many id

theorem event_prompted (good : Good cfg c) (done : handle cfg env event c = some after) :
    replies c after = [] ∨ (∃ packet, event = .client packet ∧ Prompted packet c after) ∨
      isDirect event ∧ Relayed c after := by
  have multicasts (sends : Emits multicast c after) : replies c after = [] :=
    replies_none (emits_mono sends multicast_silent)
  cases event with
  | houseKeeping => exact .inl (multicasts (house_keeping_emits good done))
  | mcast buffer len sender =>
      cases done
      exact .inl (multicasts (DirectSends.datagram_emits good buffer len sender))
  | direct buffer len sender => exact .inr (.inr ⟨⟨_, _, _, rfl⟩, direct_relayed done⟩)
  | client packet =>
      obtain ⟨⟨final, value⟩, handled, rfl⟩ := Option.map_eq_some_iff.mp done
      exact .inr (.inl ⟨packet, rfl, process_prompted handled⟩)
  | control buffer len =>
      cases done
      exact .inl (replies_none (DirectSends.control_emits buffer len))

end Handlers

/-! Runs. -/

section Runs
variable {cfg : Settings} {allowed : Env → Prop} {labels : List (Env × Event)} {s t : NodeState}
  {env : Env} {event : Event}

/-- The client whose packet is handled, or one whose request was passed on in the run. -/
def Asked (labels : List (Env × Event)) (event : Event) (packet : DhcpPacket) : Prop :=
  event = .client packet ∨ isDirect event ∧ messageType packet = dhcpRequest ∧ Heard labels packet

/-- A reply is for one packet of a client: it fits it, is built from it and goes where it says. -/
structure RepliesTo (labels : List (Env × Event)) (event : Event) (type : UInt8)
    (packet reply : DhcpPacket) : Prop where
  asked : Asked labels event packet
  fits : Fits type (messageType packet)
  built : BuiltFrom packet reply
  sentTo : destination reply = destination packet

/-- Every event of every run sends one reply at most, and none that no client has asked for. -/
theorem replies_answer_clients (run : Runs cfg allowed labels s) (step : Step cfg s (env, event) t) :
    replies s.config t.config = [] ∨ ∃ type packet reply got,
      replies s.config t.config = [.dhcp type reply got] ∧ RepliesTo labels event type packet reply := by
  rcases event_prompted (runs_good run) (step_handled step) with
    none | ⟨packet, same, none | ⟨type, reply, got, one, fits, built⟩⟩ |
      ⟨direct, none | ⟨cached, member, type, reply, got, one, fits, built⟩⟩
  · exact .inl none
  · exact .inl none
  · exact .inr ⟨type, packet, reply, got, one, .inl same, fits, built, built_destination built⟩
  · exact .inl none
  · obtain ⟨packet, heard, kind, -, copied⟩ := (runs_stemming run).requests cached member
    rw [copied] at built
    have original := built_from_copy built
    exact .inr ⟨type, packet, reply, got, one, .inr ⟨direct, kind, heard⟩, kind ▸ fits, original,
      built_destination original⟩

-- Another node has claimed the block, and a request for it was passed on.
def passedRun : List (Env × Event) :=
  [(calmEnv 1001, smallClaim 2 60), (calmEnv 1002, .client (smallPacket 1 7 dhcpRequest))]

theorem replies_answer_clients_small : ∃ s t type packet reply got,
    Runs (smallNode 1) (fun _ => True) passedRun s ∧
    Step (smallNode 1) s (calmEnv 1003, smallDirect msgLeaseAck 1 7) t ∧
    replies s.config t.config = [.dhcp type reply got] ∧
    RepliesTo passedRun (smallDirect msgLeaseAck 1 7) type packet reply := by
  have evaluated : ((runEvents (smallNode 1) smallStart passedRun).any fun s =>
      s.clock ≤ 1003 ∧ ((handle (smallNode 1) (calmEnv 1003) (smallDirect msgLeaseAck 1 7) s.config).any
        fun after => (replies s.config after).length = 1)) = true := by decide +kernel
  obtain ⟨s, done, facts⟩ := (Option.any_eq_true _ _).mp evaluated
  obtain ⟨early, facts⟩ := of_decide_eq_true facts
  obtain ⟨after, handled, one⟩ := (Option.any_eq_true _ _).mp facts
  have run : Runs (smallNode 1) (fun _ => True) passedRun s := small_runs (fun _ _ => trivial) done
  have step : Step (smallNode 1) s (calmEnv 1003, smallDirect msgLeaseAck 1 7) ⟨1003, after⟩ :=
    .event (calmEnv 1003) (smallDirect msgLeaseAck 1 7) early handled
  rcases replies_answer_clients run step with none | ⟨type, packet, reply, got, single, told⟩
  · rw [none] at one
    contradiction
  · exact ⟨s, _, type, packet, reply, got, run, step, single, told⟩

end Runs

end Ddhcpd.Addressees

import Ddhcpd.Exclusive
import Ddhcpd.Handlers
import Ddhcpd.LeaseSafety

/-!
What becomes of a forwarded request. It waits in the cache until an answer with its
transaction and hardware address comes back; the address of the answer is not looked at.
-/

namespace Ddhcpd.Answers
open Types Leases Blocks Packet Dhcp LeasePackets Node Path LeaseMoves Invariant Calls Exclusive
open Handlers LeaseSafety BlockPackets

/-- The packet of a holder that answers a forwarded request. -/
def isAnswer (packet : McastPacket) : Prop :=
  packet.command = msgLeaseAck ∨ packet.command = msgLeaseNak

def answers (packet : McastPacket) : CachedPacket → Bool :=
  cacheMatches packet.renewPayload.xid packet.renewPayload.chaddr

/-- The cached request an answer is taken for. -/
def waiting (packet : McastPacket) (c : Config) : Option CachedPacket :=
  c.dhcpPacketCache.find? (answers packet)

def taken (packet : McastPacket) (c : Config) : Config :=
  { c with dhcpPacketCache := c.dhcpPacketCache.eraseP (answers packet) }

/-- The address `dhcp_rhdl_ack` looks up for a cached request. -/
def addressOf (request : DhcpPacket) : InAddr := (requestedAddress request).getD 0

def isReply : Output → Bool
  | .dhcp _ _ _ => true
  | _ => false

/-- The replies that clients got in between. -/
def replies (before after : Config) : List Output := (sent before after).filter isReply

/-! A table of entries that wait: one is entered at its end, the first that matches is taken
off, late ones are dropped. -/

section Tables
variable {Entry : Type} {entered gone table : List Entry}

theorem enter_subperm (known : (gone ++ table).Subperm entered) (entry : Entry) :
    (gone ++ (table ++ [entry])).Subperm (entered ++ [entry]) := by
  rw [← List.append_assoc]
  exact (List.subperm_append_right [entry]).mpr known

theorem take_subperm {test : Entry → Bool} {entry : Entry} (found : table.find? test = some entry)
    (known : (gone ++ table).Subperm entered) :
    (gone ++ [entry] ++ table.eraseP test).Subperm entered := by
  rcases List.find?_eq_some_iff_append.mp found with ⟨matching, front, back, rfl, others⟩
  have erased : (front ++ entry :: back).eraseP test = front ++ back := by
    rw [List.eraseP_append_right _ (fun other member => by simpa using others other member),
      List.eraseP_cons_of_pos matching]
  rw [erased, List.append_assoc]
  have moved : (entry :: (front ++ back)).Perm (front ++ entry :: back) :=
    List.perm_middle.symm
  exact (List.Perm.subperm (moved.append_left gone)).trans known

theorem drop_subperm {rest : List Entry} (fewer : rest.Sublist table)
    (known : (gone ++ table).Subperm entered) : (gone ++ rest).Subperm entered :=
  (fewer.append_left gone).subperm.trans known

end Tables

section Cases
variable {cfg : Settings} {env : Env} {event : Event} {c after : Config}

/-! The replies of the handlers, and the cache they leave. -/

theorem replies_none (silent : Emits (fun output => isReply output = false) c after) :
    replies c after = [] := by
  rcases silent with ⟨outs, out, each⟩
  rw [replies, sent, out, List.drop_left, List.filter_eq_nil_iff]
  exact fun output member => by simp [each output member]

theorem replies_same (same : after.out = c.out) : replies c after = [] :=
  replies_none (emits_same same)

theorem refused_replies (refused : Refused env c after) :
    replies c after = [] ∨ ∃ reply got, replies c after = [.dhcp dhcpNak reply got] := by
  cases refused with
  | unsent => exact .inl (replies_same rfl)
  | sent reply => exact .inr ⟨reply, env.dhcpSent, by simp [replies, sent, isReply]⟩

theorem answer_replies (reply : DhcpPacket) : replies c (answerTo cfg env c reply) = [] ∨
    ∃ got, replies c (answerTo cfg env c reply) = [.dhcp dhcpAck reply got] := by
  rw [answerTo, hookAddress, dhcpPacketSend]
  cases env.alloc .replyBuffer with
  | false =>
      left
      split <;> simp [replies, sent, isReply]
  | true =>
      right
      refine ⟨env.dhcpSent, ?_⟩
      split <;> simp [replies, sent, isReply, List.filter]

theorem acked_replies {request : DhcpPacket} {position index : Nat}
    (acked : Acked cfg env c request position index after) :
    replies c after = [] ∨ ∃ reply got, replies c after = [.dhcp dhcpAck reply got] ∧
      reply.yiaddr = addrAdd (c.blocks position).subnet index ∧ reply.chaddr = request.chaddr := by
  cases acked with
  | starved => exact .inl (replies_same rfl)
  | unanswered => exact .inl (replies_same rfl)
  | @answered lease reply _ _ address chaddr =>
      let granted := grantTo env c request position index lease
      have told : replies granted (answerTo cfg env granted reply) = [] ∨
          ∃ got, replies granted (answerTo cfg env granted reply) = [.dhcp dhcpAck reply got] :=
        answer_replies reply
      rcases told with none | ⟨got, one⟩
      · exact .inl none
      · exact .inr ⟨reply, got, one, address, chaddr⟩

theorem forwarded_replies {request : DhcpPacket} {address : InAddr} {position index : Nat}
    (forwarded : Forwarded cfg env c request address position index after) :
    replies c after = [] :=
  replies_none (forwarded_emits forwarded fun _ => rfl)

theorem packet_send_cache (type : UInt8) (reply : DhcpPacket) :
    (dhcpPacketSend env type reply c).1.dhcpPacketCache = c.dhcpPacketCache := by
  unfold dhcpPacketSend
  split <;> rfl

theorem hook_cache (action : HookAction) (address : InAddr) (chaddr : HwAddr) :
    (hookAddress cfg env action address chaddr c).dhcpPacketCache = c.dhcpPacketCache := by
  unfold hookAddress
  split <;> rfl

theorem refused_cache (refused : Refused env c after) :
    after.dhcpPacketCache = c.dhcpPacketCache := by
  cases refused <;> rfl

theorem acked_cache {request : DhcpPacket} {position index : Nat}
    (acked : Acked cfg env c request position index after) :
    after.dhcpPacketCache = c.dhcpPacketCache := by
  cases acked with
  | starved => rfl
  | unanswered => rfl
  | answered => exact (hook_cache _ _ _).trans (packet_send_cache _ _)

theorem forwarded_cache {request : DhcpPacket} {address : InAddr} {position index : Nat}
    (forwarded : Forwarded cfg env c request address position index after) :
    after.dhcpPacketCache = c.dhcpPacketCache ∨
      ∃ entry, after.dhcpPacketCache = c.dhcpPacketCache ++ [entry] := by
  cases forwarded with
  | starved => exact .inl rfl
  | @passed lease dest _ =>
      rw [sendPacketDirect, dhcpPacketListAdd]
      split <;> split <;> first | exact .inr ⟨_, rfl⟩ | exact .inl rfl

theorem offered_cache {discover : DhcpPacket} {value : Nat}
    (offered : Offered cfg env c discover after value) :
    after.dhcpPacketCache = c.dhcpPacketCache := by
  cases offered with
  | exhausted => rfl
  | starved => rfl
  | unanswered => rfl
  | unsent => exact packet_send_cache _ _
  | sent => exact packet_send_cache _ _

/-- A request changes the cache only when it is passed on, and then nobody is told. -/
theorem requested_cache {request : DhcpPacket} (requested : Requested cfg env c request after) :
    after.dhcpPacketCache = c.dhcpPacketCache ∨
      (∃ entry, after.dhcpPacketCache = c.dhcpPacketCache ++ [entry]) ∧ replies c after = [] := by
  cases requested with
  | refused _ _ refused => exact .inl (refused_cache refused)
  | acked _ acked => exact .inl (acked_cache acked)
  | forwarded _ _ forwarded =>
      rcases forwarded_cache forwarded with same | entered
      · exact .inl same
      · exact .inr ⟨entered, forwarded_replies forwarded⟩

theorem released_cache {packet : DhcpPacket} (released : Released cfg env c packet after) :
    after.dhcpPacketCache = c.dhcpPacketCache := by
  cases released with
  | ignored => rfl
  | released => exact hook_cache _ _ _

theorem client_cache {packet : DhcpPacket} {value : Nat}
    (done : dhcpProcess cfg env packet c = some (after, value)) :
    after.dhcpPacketCache = c.dhcpPacketCache ∨
      (∃ entry, after.dhcpPacketCache = c.dhcpPacketCache ++ [entry]) ∧ replies c after = [] := by
  cases process_cases done with
  | discover _ offered => exact .inl (offered_cache offered)
  | request _ requested => exact requested_cache requested
  | release _ released => exact .inl (released_cache released)
  | inform _ informed =>
      cases informed with
      | starved => exact .inl rfl
      | answered reply => exact .inl (packet_send_cache _ _)
  | other => exact .inl rfl

theorem send_direct_cache (packet : McastPacket) (dest : In6Addr) :
    (sendPacketDirect env packet dest c).dhcpPacketCache = c.dhcpPacketCache := by
  unfold sendPacketDirect
  split <;> rfl

theorem renewal_cache {packet : McastPacket} {sender : In6Addr}
    (renewal : Renewal cfg env c packet sender after) :
    after.dhcpPacketCache = c.dhcpPacketCache := by
  cases renewal with
  | ignored => rfl
  | declined => exact send_direct_cache _ _
  | unanswered => rfl
  | granted => exact send_direct_cache _ _

/-! An answer takes the first request it matches off the list. -/

/-- What the client whose request was taken is told. -/
inductive Told (cfg : Settings) (c : Config) (packet : McastPacket) (request : DhcpPacket) :
    List Output → Prop where
  | nothing : Told cfg c packet request []
  | refused (reply : DhcpPacket) (got : Bool) : Told cfg c packet request [.dhcp dhcpNak reply got]
  | acknowledged {reply : DhcpPacket} (got : Bool) : packet.command = msgLeaseAck →
      (findLeaseFromAddress cfg c (addressOf request)).status = 1 →
      reply.yiaddr = addressOf request → reply.chaddr = request.chaddr →
      Told cfg c packet request [.dhcp dhcpAck reply got]

theorem told_few {packet : McastPacket} {request : DhcpPacket} {outs : List Output}
    (told : Told cfg c packet request outs) : outs.length ≤ 1 := by
  cases told with
  | nothing => exact Nat.zero_le _
  | refused => exact Nat.le_refl _
  | acknowledged => exact Nat.le_refl _

theorem told_acknowledged {packet : McastPacket} {request reply : DhcpPacket} {got : Bool}
    {outs : List Output} (told : Told cfg c packet request outs)
    (member : .dhcp dhcpAck reply got ∈ outs) : packet.command = msgLeaseAck ∧
      (findLeaseFromAddress cfg c (addressOf request)).status = 1 ∧
      reply.yiaddr = addressOf request ∧ reply.chaddr = request.chaddr := by
  cases told with
  | nothing => contradiction
  | refused other _ =>
      have same := List.mem_singleton.mp member
      simp only [Output.dhcp.injEq] at same
      exact absurd same.1 (by decide)
  | acknowledged _ kind status address chaddr =>
      have same := List.mem_singleton.mp member
      simp only [Output.dhcp.injEq, true_and] at same
      rw [same.1]
      exact ⟨kind, status, address, chaddr⟩

theorem find_waiting {packet : McastPacket} :
    dhcpPacketListFind packet.renewPayload.xid packet.renewPayload.chaddr c =
      (waiting packet c).map fun cached => (cached, taken packet c) := rfl

theorem leaseack_cases {packet : McastPacket} (sound : Sound cfg c)
    (kind : packet.command = msgLeaseAck)
    (done : ddhcpDhcpLeaseack cfg env packet c = some after) :
    (waiting packet c = none ∧ after = c) ∨ ∃ cached, waiting packet c = some cached ∧
      after.dhcpPacketCache = (taken packet c).dhcpPacketCache ∧
      Told cfg c packet cached.packet (replies c after) := by
  rw [ddhcpDhcpLeaseack, find_waiting] at done
  cases waits : waiting packet c with
  | none =>
      rw [waits] at done
      cases done
      exact .inl ⟨rfl, rfl⟩
  | some cached =>
      rw [waits] at done
      simp only [Option.map_some, Option.ite_none_right_eq_some] at done
      rcases Option.map_eq_some_iff.mp done.2 with ⟨⟨final, value⟩, handled, rfl⟩
      refine .inr ⟨cached, rfl, ?_⟩
      cases relay_cases handled with
      | unknown =>
          have silent : replies c (taken packet c) = [] := replies_same rfl
          rw [silent]
          exact ⟨rfl, .nothing⟩
      | @acked position index _ place acked =>
          refine ⟨acked_cache acked, ?_⟩
          have same : replies c final = replies (taken packet c) final := rfl
          rcases acked_replies acked with none | ⟨reply, got, one, address, chaddr⟩
          · rw [same, none]
            exact .nothing
          · have soundTaken : Sound cfg (taken packet c) := sound
            have found : findLeaseFromAddress cfg (taken packet c) (addressOf cached.packet) =
                ⟨1, position, index⟩ := place
            have status : (findLeaseFromAddress cfg (taken packet c) (addressOf cached.packet)).status =
                1 := congrArg LeaseLookup.status found
            have named := find_lease_address soundTaken (by rw [status]; decide)
            rw [found] at named
            rw [same, one]
            exact .acknowledged got kind status (address.trans named) chaddr

theorem leasenak_cases {packet : McastPacket}
    (done : ddhcpDhcpLeasenak env packet c = some after) :
    (waiting packet c = none ∧ after = c) ∨ ∃ cached, waiting packet c = some cached ∧
      after.dhcpPacketCache = (taken packet c).dhcpPacketCache ∧
      Told cfg c packet cached.packet (replies c after) := by
  rw [ddhcpDhcpLeasenak, find_waiting] at done
  cases waits : waiting packet c with
  | none =>
      rw [waits] at done
      cases done
      exact .inl ⟨rfl, rfl⟩
  | some cached =>
      rw [waits] at done
      simp only [Option.map_some, Option.ite_none_right_eq_some, Option.some.injEq] at done
      have refused : Refused env (taken packet c) (dhcpNack env cached.packet (taken packet c)).1 :=
        nack_refused cached.packet
      rw [done.2] at refused
      refine .inr ⟨cached, rfl, refused_cache refused, ?_⟩
      have same : replies c after = replies (taken packet c) after := rfl
      rcases refused_replies refused with none | ⟨reply, got, one⟩
      · rw [same, none]
        exact .nothing
      · rw [same, one]
        exact .refused reply got

theorem answer_cases {packet : McastPacket} (sound : Sound cfg c)
    (received : Receives cfg env event packet) (answer : isAnswer packet)
    (done : handle cfg env event c = some after) :
    (waiting packet c = none ∧ after = c) ∨ ∃ cached, waiting packet c = some cached ∧
      after.dhcpPacketCache = (taken packet c).dhcpPacketCache ∧
      Told cfg c packet cached.packet (replies c after) := by
  rcases received with ⟨buffer, len, sender, rfl, decoded, ofSwarm⟩
  simp only [handle, ddhcpDhcpProcess, decoded, ddhcpDhcpDispatch, ofSwarm] at done
  rcases answer with kind | kind
  · simp only [kind, ↓reduceIte, Bool.false_eq_true] at done
    exact leaseack_cases sound kind done
  · simp only [kind, ↓reduceIte, Bool.false_eq_true] at done
    exact leasenak_cases done

theorem control_cache (buffer : List UInt8) (len : Nat) :
    (handleCommand env buffer len c).1.dhcpPacketCache = c.dhcpPacketCache := by
  unfold handleCommand
  simp only
  split_ifs <;> rfl

theorem direct_cache {buffer : List UInt8} {len : Nat} {sender : In6Addr}
    (other : ∀ packet, Receives cfg env (.direct buffer len sender) packet → ¬ isAnswer packet)
    (done : ddhcpDhcpProcess cfg env buffer len sender c = some after) :
    after.dhcpPacketCache = c.dhcpPacketCache := by
  cases dispatch_cases done with
  | ignored => rfl
  | renewal _ _ renewal => exact renewal_cache renewal
  | ack received kind => exact absurd (.inl kind) (other _ received)
  | nak received kind => exact absurd (.inr kind) (other _ received)

/-- Any other event leaves the cached requests, drops some that are late, or adds one. -/
theorem other_cache (good : Good cfg c)
    (other : ∀ packet, Receives cfg env event packet → ¬ isAnswer packet)
    (done : handle cfg env event c = some after) :
    after.dhcpPacketCache.Sublist c.dhcpPacketCache ∨
      (∃ entry, after.dhcpPacketCache = c.dhcpPacketCache ++ [entry]) ∧ replies c after = [] := by
  have kept (same : after.dhcpPacketCache = c.dhcpPacketCache) :
      after.dhcpPacketCache.Sublist c.dhcpPacketCache := by rw [same]
  cases event with
  | houseKeeping =>
      left
      rw [house_keeping_cache good done]
      exact List.filter_sublist
  | mcast buffer len sender =>
      cases done
      left
      apply kept
      unfold ddhcpBlockProcess
      split
      · exact block_moves_cache good.sound BlockMoves.dispatch_moves
      · rfl
  | direct buffer len sender => exact .inl (kept (direct_cache other done))
  | client packet =>
      rcases Option.map_eq_some_iff.mp done with ⟨⟨final, value⟩, handled, rfl⟩
      rcases client_cache handled with same | entered
      · exact .inl (kept same)
      · exact .inr entered
  | control buffer len =>
      cases done
      exact .inl (kept (control_cache buffer len))

end Cases

/-! The requests of a run and what became of them. -/

/-- A request as it was put into the cache, with the replies that the event sent. -/
structure Stored where
  request : CachedPacket
  replies : List Output

/-- An answer, the request that was taken off the list for it, and the replies it led to. -/
structure Answered where
  answer : McastPacket
  request : Option CachedPacket
  replies : List Output

def entered (before after : Config) : List CachedPacket :=
  after.dhcpPacketCache.drop before.dhcpPacketCache.length

/-- A run from startup with all requests that were stored and all answers that came. -/
inductive Books (cfg : Settings) (allowed : Env → Event → Config → Prop) :
    NodeState → List Stored → List Answered → Prop where
  | start (now : Time) (options : List DhcpOption) :
      Books cfg allowed ⟨now, startConfig cfg now options⟩ [] []
  | answer {s t : NodeState} {env : Env} {event : Event} {packet : McastPacket}
      {stored : List Stored} {answered : List Answered} : Books cfg allowed s stored answered →
      Step cfg s (env, event) t → allowed env event s.config →
      Receives cfg env event packet → isAnswer packet →
      Books cfg allowed t stored
        (answered ++ [⟨packet, waiting packet s.config, replies s.config t.config⟩])
  | other {s t : NodeState} {env : Env} {event : Event} {stored : List Stored}
      {answered : List Answered} : Books cfg allowed s stored answered →
      Step cfg s (env, event) t → allowed env event s.config →
      (∀ packet, Receives cfg env event packet → ¬ isAnswer packet) →
      Books cfg allowed t (stored ++ (entered s.config t.config).map fun request =>
        ⟨request, replies s.config t.config⟩) answered

/-- An acknowledgement goes out for the address and the client of the answer. -/
def Truthful (cfg : Settings) (entry : Answered) : Prop :=
  ∀ reply got, .dhcp dhcpAck reply got ∈ entry.replies →
    entry.answer.command = msgLeaseAck ∧
    reply.yiaddr = rawAddress cfg entry.answer.renewPayload.address ∧
    reply.chaddr = entry.answer.renewPayload.chaddr

/-- Every request that was taken or still waits was stored, and none more often than it was;
storing one sends no reply, and taking it at most one. -/
structure Accounted (s : NodeState) (stored : List Stored) (answered : List Answered) : Prop where
  silent : ∀ entry ∈ stored, entry.replies = []
  once : ∀ entry ∈ answered, entry.replies.length ≤ entry.request.toList.length
  known : ((answered.flatMap fun entry => entry.request.toList) ++
    s.config.dhcpPacketCache).Subperm (stored.map Stored.request)

/-- Where the first cached request that an acknowledgement matches is for an address of a foreign
block, it is for the address that the acknowledgement carries. -/
def Matched (cfg : Settings) (env : Env) (event : Event) (c : Config) : Prop :=
  ∀ packet, Receives cfg env event packet → packet.command = msgLeaseAck →
    ∀ cached, waiting packet c = some cached →
      (findLeaseFromAddress cfg c (addressOf cached.packet)).status = 1 →
      addressOf cached.packet = rawAddress cfg packet.renewPayload.address

section Runs
variable {cfg : Settings} {allowed : Env → Event → Config → Prop} {s t : NodeState}
  {env : Env} {event : Event} {stored : List Stored} {answered : List Answered}

theorem step_handled (step : Step cfg s (env, event) t) :
    handle cfg env event s.config = some t.config := by
  cases step with
  | event _ _ _ done => exact done

theorem books_good (books : Books cfg allowed s stored answered) : Good cfg s.config := by
  induction books with
  | start now options => exact start_good cfg now options
  | answer _ step _ _ _ ih => exact step_good ih step
  | other _ step _ _ ih => exact step_good ih step

theorem waiting_chaddr {packet : McastPacket} {c : Config} {cached : CachedPacket}
    (waits : waiting packet c = some cached) :
    cached.packet.chaddr = packet.renewPayload.chaddr := by
  have matching := List.find?_some waits
  simp only [answers, cacheMatches, decide_eq_true_eq] at matching
  exact matching.2

theorem entered_fewer {before after : Config}
    (fewer : after.dhcpPacketCache.Sublist before.dhcpPacketCache) : entered before after = [] :=
  List.drop_eq_nil_of_le fewer.length_le

theorem answer_accounted {packet : McastPacket} (good : Good cfg s.config)
    (accounted : Accounted s stored answered) (step : Step cfg s (env, event) t)
    (received : Receives cfg env event packet) (answer : isAnswer packet) :
    Accounted t stored
      (answered ++ [⟨packet, waiting packet s.config, replies s.config t.config⟩]) := by
  have silent := accounted.silent
  have known := accounted.known
  rcases answer_cases good.sound received answer (step_handled step) with
    ⟨none, same⟩ | ⟨cached, waits, cache, told⟩
  · rw [none, same]
    refine ⟨silent, fun entry member => ?_, ?_⟩
    · rcases List.mem_append.mp member with old | new
      · exact accounted.once entry old
      · rw [List.mem_singleton.mp new, replies_same rfl]
        exact Nat.zero_le _
    · simpa [same] using known
  · refine ⟨silent, fun entry member => ?_, ?_⟩
    · rcases List.mem_append.mp member with old | new
      · exact accounted.once entry old
      · rw [List.mem_singleton.mp new, waits]
        exact told_few told
    · rw [cache, List.flatMap_append]
      simpa [waits, taken] using take_subperm waits known

theorem other_accounted (good : Good cfg s.config) (accounted : Accounted s stored answered)
    (step : Step cfg s (env, event) t)
    (other : ∀ packet, Receives cfg env event packet → ¬ isAnswer packet) :
    Accounted t (stored ++ (entered s.config t.config).map fun request =>
      ⟨request, replies s.config t.config⟩) answered := by
  rcases other_cache good other (step_handled step) with fewer | ⟨⟨entry, cache⟩, silent⟩
  · rw [entered_fewer fewer, List.map_nil, List.append_nil]
    exact ⟨accounted.silent, accounted.once, drop_subperm fewer accounted.known⟩
  · have new : entered s.config t.config = [entry] := by
      rw [entered, cache, List.drop_left]
    rw [new, silent]
    refine ⟨fun entry member => ?_, accounted.once, ?_⟩
    · rcases List.mem_append.mp member with old | new
      · exact accounted.silent entry old
      · rw [List.mem_singleton.mp new]
    · rw [cache, List.map_append]
      exact enter_subperm accounted.known entry

theorem books_accounted (books : Books cfg allowed s stored answered) :
    Accounted s stored answered := by
  induction books with
  | start now options => exact ⟨by simp, by simp, by simp [startConfig]⟩
  | answer books step _ received answer ih =>
      exact answer_accounted (books_good books) ih step received answer
  | other books step _ other ih => exact other_accounted (books_good books) ih step other

theorem answer_truthful {packet : McastPacket} (good : Good cfg s.config)
    (step : Step cfg s (env, event) t) (matched : Matched cfg env event s.config)
    (received : Receives cfg env event packet) (answer : isAnswer packet) :
    Truthful cfg ⟨packet, waiting packet s.config, replies s.config t.config⟩ := by
  intro reply got member
  rcases answer_cases good.sound received answer (step_handled step) with
    ⟨-, same⟩ | ⟨cached, waits, -, told⟩
  · have silent : replies s.config t.config = [] := replies_same (by rw [same])
    rw [silent] at member
    contradiction
  · rcases told_acknowledged told member with ⟨kind, status, address, chaddr⟩
    rw [address, chaddr]
    exact ⟨kind, matched packet received kind cached waits status, waiting_chaddr waits⟩

end Runs

/-! Runs with their books, evaluated. -/

section Evaluation
variable {cfg : Settings} {env : Env} {event : Event}

instance (packet : McastPacket) : Decidable (isAnswer packet) :=
  inferInstanceAs (Decidable (_ ∨ _))

def answerIn (cfg : Settings) (env : Env) : Event → Option McastPacket
  | .direct buffer len _ => (ntohMcastPacket env buffer len).filter fun packet =>
      foreign cfg packet = false ∧ isAnswer packet
  | _ => none

theorem answer_in_iff {packet : McastPacket} : answerIn cfg env event = some packet ↔
    Receives cfg env event packet ∧ isAnswer packet := by
  constructor
  · intro found
    cases event with
    | direct buffer len sender =>
        rcases Option.filter_eq_some_iff.mp found with ⟨decoded, fits⟩
        simp only [decide_eq_true_eq] at fits
        exact ⟨⟨buffer, len, sender, rfl, decoded, fits.1⟩, fits.2⟩
    | houseKeeping => contradiction
    | mcast => contradiction
    | client => contradiction
    | control => contradiction
  · rintro ⟨⟨buffer, len, sender, rfl, decoded, ofSwarm⟩, answer⟩
    simp [answerIn, decoded, ofSwarm, answer]

instance (c : Config) : Decidable (Matched cfg env event c) :=
  decidable_of_iff (∀ packet ∈ answerIn cfg env event, packet.command = msgLeaseAck →
      ∀ cached ∈ waiting packet c,
        (findLeaseFromAddress cfg c (addressOf cached.packet)).status = 1 →
        addressOf cached.packet = rawAddress cfg packet.renewPayload.address) (by
    constructor
    · intro known packet received kind
      exact known packet (answer_in_iff.mpr ⟨received, .inl kind⟩) kind
    · intro matched packet found
      exact matched packet (answer_in_iff.mp found).1)

def bookEvents (cfg : Settings) (allowed : Env → Event → Config → Prop)
    [∀ env event c, Decidable (allowed env event c)] (s : NodeState) (stored : List Stored)
    (answered : List Answered) :
    List (Env × Event) → Option (NodeState × List Stored × List Answered)
  | [] => some (s, stored, answered)
  | (env, event) :: rest =>
      if s.clock ≤ env.now ∧ allowed env event s.config then
        (handle cfg env event s.config).bind fun after =>
          match answerIn cfg env event with
          | some packet => bookEvents cfg allowed ⟨env.now, after⟩ stored
              (answered ++ [⟨packet, waiting packet s.config, replies s.config after⟩]) rest
          | none => bookEvents cfg allowed ⟨env.now, after⟩
              (stored ++ (entered s.config after).map fun request =>
                ⟨request, replies s.config after⟩) answered rest
      else none

theorem book_events_books {allowed : Env → Event → Config → Prop}
    [∀ env event c, Decidable (allowed env event c)] {s t : NodeState} {stored stored' : List Stored}
    {answered answered' : List Answered} {labels : List (Env × Event)}
    (books : Books cfg allowed s stored answered)
    (done : bookEvents cfg allowed s stored answered labels = some (t, stored', answered')) :
    Books cfg allowed t stored' answered' := by
  induction labels generalizing s stored answered with
  | nil =>
      cases done
      exact books
  | cons label rest ih =>
      rcases label with ⟨env, event⟩
      simp only [bookEvents, Option.ite_none_right_eq_some] at done
      rcases done with ⟨⟨later, permitted⟩, done⟩
      rcases Option.bind_eq_some_iff.mp done with ⟨after, handled, done⟩
      have step : Step cfg s (env, event) ⟨env.now, after⟩ := .event env event later handled
      split at done
      · rename_i packet found
        rcases answer_in_iff.mp found with ⟨received, answer⟩
        exact ih (.answer books step permitted received answer) done
      · rename_i none
        refine ih (.other books step permitted fun packet received answer => ?_) done
        rw [answer_in_iff.mpr ⟨received, answer⟩] at none
        contradiction

end Evaluation

/-! Two blocks of one address each, held by nodes 2 and 3. A client asks node 1 for both. -/

def pairNode : Settings :=
  { smallNode 1 with
    numberOfBlocks := 2
    prefixLen := 31
    network_fits := by decide }

def pairStart : NodeState :=
  ⟨1000, startConfig pairNode 1000 [⟨codeAddressLeaseTime, 4, [0, 0, 1, 44]⟩]⟩

def pairHeader (sender command count : UInt8) : List UInt8 :=
  [0, 0, 0, 0, 0, 0, 0, sender, 10, 0, 0, 0, 31, 1, command, count]

/-- Node `sender` claims block `sender - 2`. -/
def pairClaim (sender : UInt8) : Event :=
  .mcast (pairHeader sender msgUpdateClaim 1 ++ [0, 0, 0, sender - 2, 0, 60, 0]) 23
    (List.Vector.replicate 16 sender)

def pairRequest (address : InAddr) : Event :=
  .client { smallPacket 5 7 dhcpRequest with ciaddr := address }

/-- Node `sender` acknowledges the address of its block for the client. -/
def pairAck (sender : UInt8) : Event :=
  .direct (pairHeader sender msgLeaseAck 0 ++
    [sender - 2, 0, 0, 10, 0, 0, 0, 7, 0, 0, 0, 0, 5] ++ List.replicate 15 0) 44
    (List.Vector.replicate 16 sender)

def pairRun (acks : List Event) : List (Env × Event) :=
  ([pairClaim 2, pairClaim 3, pairRequest 0x0A000000, pairRequest 0x0A000001] ++ acks).map
    fun event => (calmEnv 1001, event)

def Unchecked (_ : Env) (_ : Event) (_ : Config) : Prop := True

instance (env : Env) (event : Event) (c : Config) : Decidable (Unchecked env event c) :=
  inferInstanceAs (Decidable True)

/-- The client is told another address than the one that was acknowledged. -/
def misdirected (cfg : Settings) (answer : McastPacket) : Output → Bool
  | .dhcp type reply _ => type = dhcpAck ∧
      reply.yiaddr ≠ rawAddress cfg answer.renewPayload.address
  | _ => false

/-- What was asked of the holder that answers. -/
def asked (answer : McastPacket) : Output → Bool
  | .direct request _ => request.command = msgRenewLease ∧
      request.renewPayload = answer.renewPayload
  | _ => false

theorem misdirected_untruthful {cfg : Settings} {entry : Answered}
    (misled : entry.replies.any (misdirected cfg entry.answer) = true) : ¬ Truthful cfg entry := by
  intro truthful
  rcases List.any_eq_true.mp misled with ⟨output, member, wrong⟩
  cases output with
  | dhcp type reply got =>
      simp only [misdirected, decide_eq_true_eq] at wrong
      rcases wrong with ⟨rfl, different⟩
      exact different (truthful reply got member).2.1
  | mcast => contradiction
  | direct => contradiction
  | hook => contradiction

end Ddhcpd.Answers

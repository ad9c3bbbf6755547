import Ddhcpd.Announced
import Ddhcpd.Discover
import Ddhcpd.Reserved

/-!
What kind of address a client is given. Any lease of a block of ours can be handed out, the
first and the last of the network included: nothing keeps the addresses that the options
announce out of the tables.
-/

namespace Ddhcpd.HostAddresses
open Bytes Words Types Leases Blocks Options Dhcp Node Invariant Calls Handlers Exclusive
open LeaseMoves LeaseSafety DefaultOptions Announced Discover Reserved

/-- The address of a reply is none that has another use, as far as the reply says. -/
structure Usable (cfg : Settings) (reply : DhcpPacket) : Prop where
  network : reply.yiaddr ≠ cfg.prefixAddr
  broadcast : ∀ option ∈ counted reply, option.code = codeBroadcastAddress →
    option.payload ≠ word32Bytes reply.yiaddr
  server : ∀ option ∈ counted reply, option.code = codeServerIdentifier →
    option.payload ≠ word32Bytes reply.yiaddr

/-- The same of the place of a lease in the network, for a reply with these options. -/
structure Host (cfg : Settings) (options : List DhcpOption) (offset : Nat) : Prop where
  network : offset ≠ 0
  broadcast : codeBroadcastAddress ∈ options.map DhcpOption.code → offset + 1 ≠ networkSize cfg
  server : codeServerIdentifier ∈ options.map DhcpOption.code →
    ¬ (offset = 1 ∧ 256 ∣ cfg.prefixAddr.toNat)

section Reply
variable {cfg : Settings} {env : Env} {c : Config} {type : UInt8}
  {packet request reply : DhcpPacket} {offset : Nat}

theorem defaults_plain (cfg : Settings) : Plain (defaults cfg) := ⟨rfl, rfl⟩

theorem plain_same {store other : List DhcpOption} (plain : Plain store)
    (same : ∀ code, findInOptionStore other code = findInOptionStore store code) : Plain other :=
  ⟨(same _).trans plain.pad, (same _).trans plain.type⟩

/-- An option of the store is announced with the payload that it has there. -/
theorem announced_payload {store : List DhcpOption} {option : DhcpOption} (address : InAddr)
    (stored : findInOptionStore store option.code = some option) :
    (∀ other ∈ announced request store, other.code = option.code →
        other.payload ≠ word32Bytes address) ↔
      (option.code ∈ (announced request store).map DhcpOption.code →
        option.payload ≠ word32Bytes address) := by
  constructor
  · intro each member
    obtain ⟨other, there, same⟩ := List.mem_map.mp member
    have found := announced_stored there
    rw [same, stored] at found
    obtain rfl := Option.some.inj found
    exact each option there rfl
  · intro one other there same
    have found := announced_stored there
    rw [same, stored] at found
    obtain rfl := Option.some.inj found
    exact one (List.mem_map_of_mem there)

theorem usable_iff (layout : Layout cfg)
    (store : ∀ code, findInOptionStore c.options code = findInOptionStore (defaults cfg) code)
    (inside : offset < networkSize cfg)
    (done : dhcpDefaultOptions env type packet request c true = some reply)
    (address : packet.yiaddr = addrAdd cfg.prefixAddr offset) :
    Usable cfg reply ↔ Host cfg (announced request c.options) offset := by
  have plain := plain_same (defaults_plain cfg) store
  have given : reply.yiaddr = addrAdd cfg.prefixAddr offset :=
    (default_options_some done).2.1.trans address
  have announces (code : UInt8) (payload : List UInt8) (filled : code ≠ codePad)
      (untyped : code ≠ codeMessageType)
      (stored : findInOptionStore (defaults cfg) code = some ⟨code, 4, payload⟩) :
      (∀ option ∈ counted reply, option.code = code →
          option.payload ≠ word32Bytes reply.yiaddr) ↔
        (code ∈ (announced request c.options).map DhcpOption.code →
          payload ≠ word32Bytes (addrAdd cfg.prefixAddr offset)) := by
    have known : findInOptionStore c.options (⟨code, 4, payload⟩ : DhcpOption).code =
        some ⟨code, 4, payload⟩ := (store code).trans stored
    rw [given, ← announced_payload _ known]
    constructor
    · intro each option there same
      exact each option ((counted_announced plain done (same ▸ filled) (same ▸ untyped)).mpr there)
        same
    · intro each option there same
      exact each option ((counted_announced plain done (same ▸ filled) (same ▸ untyped)).mp there)
        same
  have broadcast := announces codeBroadcastAddress _ (by decide) (by decide) rfl
  have server := announces codeServerIdentifier _ (by decide) (by decide) rfl
  rw [Ne, announced_broadcast layout inside] at broadcast
  rw [Ne, announced_server layout inside] at server
  have network : reply.yiaddr ≠ cfg.prefixAddr ↔ offset ≠ 0 := by
    rw [given, Ne, network_address layout inside]
  exact ⟨fun usable => ⟨network.mp usable.network, broadcast.mp usable.broadcast,
      server.mp usable.server⟩,
    fun host => ⟨network.mpr host.network, broadcast.mpr host.broadcast, server.mpr host.server⟩⟩

end Reply

/-! The replies of an event. -/

/-- The place of the lease that a client packet is given. -/
def handedOut (cfg : Settings) (packet : DhcpPacket) (c : Config) : Option (Nat × Nat) :=
  if messageType packet = dhcpDiscover then
    (blockFindFreeLeases cfg c).join.bind fun position =>
      (dhcpGetFreeLease (c.blocks position)).map fun index => (position, index)
  else if messageType packet = dhcpRequest then grantedTo cfg packet c
  else none

def grantType (packet : DhcpPacket) : UInt8 :=
  if messageType packet = dhcpDiscover then dhcpOffer else dhcpAck

/-- An offer or an acknowledgement goes out. -/
def Replied (reply : DhcpPacket) (c after : Config) : Prop :=
  ∃ type got, (type = dhcpOffer ∨ type = dhcpAck) ∧ .dhcp type reply got ∈ sent c after

/-- There is memory for the reply. -/
structure Answers (env : Env) : Prop where
  packet : env.alloc .replyPacket = true
  options : env.alloc .replyOptions = true
  buffer : env.alloc .replyBuffer = true

/-- The reply that hands out the lease of this place. -/
structure Granted (cfg : Settings) (env : Env) (packet : DhcpPacket) (c : Config)
    (position index : Nat) (reply : DhcpPacket) : Prop where
  place : handedOut cfg packet c = some (position, index)
  answers : Answers env
  filled : dhcpDefaultOptions env (grantType packet) (offerReply c packet position index) packet c
    true = some reply

section Replies
variable {cfg : Settings} {env : Env} {c after : Config} {packet reply : DhcpPacket}
  {position index : Nat}

theorem replied_one {type : UInt8} {first : DhcpPacket} {got : Bool} {rest : List Output}
    (kind : type = dhcpOffer ∨ type = dhcpAck) (out : after.out = c.out ++ .dhcp type first got :: rest)
    (other : ∀ type reply got, .dhcp type reply got ∉ rest) :
    Replied reply c after ↔ reply = first := by
  have outputs : sent c after = .dhcp type first got :: rest := by simp [sent, out]
  unfold Replied
  rw [outputs]
  constructor
  · rintro ⟨type', got', -, member⟩
    rcases List.mem_cons.mp member with same | later
    · exact (Output.dhcp.inj same).2.1
    · exact absurd later (other _ _ _)
  · rintro rfl
    exact ⟨type, got, kind, List.mem_cons_self⟩

theorem unreplied {allowed : Output → Prop} (emits : Emits allowed c after)
    (other : ∀ type reply got, type = dhcpOffer ∨ type = dhcpAck → ¬ allowed (.dhcp type reply got)) :
    ¬ Replied reply c after := by
  rintro ⟨type, got, kind, member⟩
  exact other type reply got kind (emits_sent emits member)

theorem unreplied_same (same : after.out = c.out) : ¬ Replied reply c after :=
  unreplied (emits_same same : Emits (fun _ => False) c after) fun _ _ _ _ never => never

theorem replied_sent {type : UInt8} {first : DhcpPacket} {middle : Config} {rest : List Output}
    (kind : type = dhcpOffer ∨ type = dhcpAck) (before : middle.out = c.out)
    (out : after.out = (dhcpPacketSend env type first middle).1.out ++ rest)
    (other : ∀ type reply got, .dhcp type reply got ∉ rest) :
    Replied reply c after ↔ env.alloc .replyBuffer = true ∧ reply = first := by
  unfold dhcpPacketSend at out
  split at out
  · rename_i buffer
    rw [emit_out, before, List.append_assoc] at out
    rw [replied_one kind out other, and_iff_right buffer]
  · rename_i full
    rw [before] at out
    have nothing : ¬ Replied reply c after :=
      unreplied ⟨rest, out, fun _ member => member⟩ fun type reply got _ => other type reply got
    simp [nothing, full]

/-- The reply that was filled in goes out if there is memory for all of it. -/
theorem replied_filled {type : UInt8} {initial first : DhcpPacket} {middle : Config}
    {rest : List Output} (kind : type = dhcpOffer ∨ type = dhcpAck)
    (memory : env.alloc .replyPacket = true)
    (filled : dhcpDefaultOptions env type initial packet c true = some first)
    (before : middle.out = c.out)
    (out : after.out = (dhcpPacketSend env type first middle).1.out ++ rest)
    (other : ∀ type reply got, .dhcp type reply got ∉ rest) :
    Replied reply c after ↔ Answers env ∧ some first = some reply := by
  have options := (default_options_some filled).1
  rw [replied_sent kind before out other, Option.some.injEq, eq_comm (a := reply)]
  exact and_congr_left fun _ => ⟨fun buffer => ⟨memory, options, buffer⟩, Answers.buffer⟩

theorem granted_here (handed : handedOut cfg packet c = some (position, index)) :
    (∃ k i, Granted cfg env packet c k i reply) ↔ Answers env ∧
      dhcpDefaultOptions env (grantType packet) (offerReply c packet position index) packet c true =
        some reply := by
  constructor
  · rintro ⟨k, i, granted⟩
    have same := handed.symm.trans granted.place
    cases same
    exact ⟨granted.answers, granted.filled⟩
  · rintro ⟨answers, filled⟩
    exact ⟨position, index, handed, answers, filled⟩

/-- `dhcp_hdl_discover` replies with the lease that its searches find. -/
theorem discover_replied {value : Nat} (sound : Sound cfg c)
    (kind : messageType packet = dhcpDiscover)
    (done : dhcpHdlDiscover cfg env packet c = some (after, value)) :
    Replied reply c after ↔ ∃ k i, Granted cfg env packet c k i reply := by
  have type : grantType packet = dhcpOffer := if_pos kind
  rcases discover_searches sound with ⟨search, -⟩ | ⟨position, index, search, first, takes⟩
  · have handed : handedOut cfg packet c = none := by simp [handedOut, kind, search]
    cases (discover_exhausted env packet search).symm.trans done
    refine iff_of_false (unreplied_same rfl) ?_
    rintro ⟨k, i, granted⟩
    cases handed.symm.trans granted.place
  · have handed : handedOut cfg packet c = some (position, index) := by
      simp [handedOut, kind, search, first]
    rw [granted_here handed, type]
    obtain ⟨lease, entry, -⟩ := takes.free
    by_cases memory : env.alloc .replyPacket = true
    · rw [discover_found packet search first entry memory] at done
      cases filled : dhcpDefaultOptions env dhcpOffer (offerReply c packet position index) packet c
          true with
      | none =>
          rw [filled] at done
          cases done
          exact iff_of_false (unreplied_same rfl) fun granted => nomatch granted.2
      | some offer =>
          have out : after.out = (dhcpPacketSend env dhcpOffer offer
              (offerTo env c packet position index lease)).1.out ++ [] := by
            rw [filled] at done
            simp only at done
            split at done <;> cases done <;> simp [neededAt]
          have before : (offerTo env c packet position index lease).out = c.out := rfl
          exact replied_filled (.inl rfl) memory filled before out (by simp)
    · cases (discover_starved packet search first memory).symm.trans done
      exact iff_of_false (unreplied_same rfl) fun granted => memory granted.1.packet

/-- `dhcp_ack` behind the allocation of the packet. -/
theorem ack_found {lease : Lease} (request : DhcpPacket)
    (entry : leaseAt (c.blocks position) index = some lease)
    (memory : env.alloc .replyPacket = true) :
    dhcpAckLease cfg env request position index c =
      match dhcpDefaultOptions env dhcpAck (offerReply c request position index) request c true with
      | none => some (grantTo env c request position index lease, 1)
      | some reply => some (answerTo cfg env (grantTo env c request position index lease) reply, 0) := by
  have written : updateLease (c.blocks position) index
      (leaseTo request .leased (leaseEndFrom env c)) = some (putLease (c.blocks position) index
        (leaseTo request .leased (leaseEndFrom env c) lease)) :=
    update_lease_iff.mpr ⟨lease, entry, rfl⟩
  simp only [dhcpAckLease, memory, written, Option.bind_eq_bind, Option.bind_some,
    Option.pure_def, not_true_eq_false, ↓reduceIte]
  rfl

theorem answer_out (reply : DhcpPacket) : ∃ rest,
    (answerTo cfg env c reply).out = (dhcpPacketSend env dhcpAck reply c).1.out ++ rest ∧
      ∀ type reply got, .dhcp type reply got ∉ rest := by
  unfold answerTo hookAddress
  split
  · exact ⟨[.hook .lease reply.yiaddr reply.chaddr], rfl, by simp⟩
  · exact ⟨[], by simp, by simp⟩

/-- `dhcp_ack` replies with the lease that it is called for. -/
theorem ack_replied {value : Nat} (handed : handedOut cfg packet c = some (position, index))
    (kind : grantType packet = dhcpAck)
    (done : dhcpAckLease cfg env packet position index c = some (after, value)) :
    Replied reply c after ↔ ∃ k i, Granted cfg env packet c k i reply := by
  rw [granted_here handed, kind]
  by_cases memory : env.alloc .replyPacket = true
  · obtain ⟨lease, entry⟩ : ∃ lease, leaseAt (c.blocks position) index = some lease := by
      cases ack_cases done with
      | starved starved => exact absurd (memory.symm.trans starved) (by decide)
      | unanswered entry => exact ⟨_, entry⟩
      | answered entry => exact ⟨_, entry⟩
    rw [ack_found packet entry memory] at done
    cases filled : dhcpDefaultOptions env dhcpAck (offerReply c packet position index) packet c true with
    | none =>
        rw [filled] at done
        cases done
        exact iff_of_false (unreplied_same rfl) fun granted => nomatch granted.2
    | some first =>
        have before : (grantTo env c packet position index lease).out = c.out := rfl
        rw [filled] at done
        cases done
        obtain ⟨rest, out, other⟩ := answer_out first
        exact replied_filled (.inr rfl) memory filled before out other
  · rw [dhcpAckLease, if_pos memory] at done
    cases done
    exact iff_of_false (unreplied_same rfl) fun granted => memory granted.1.packet

/-- A request that is granted no lease is passed on or refused. -/
theorem ungranted_unreplied {value : Int} (ungranted : grantedTo cfg packet c = none)
    (done : dhcpHdlRequest cfg env packet c = some (after, value)) : ¬ Replied reply c after := by
  have emits : Emits (fun output => ∀ type reply got, type = dhcpOffer ∨ type = dhcpAck →
      output ≠ .dhcp type reply got) c after := by
    cases request_cases done with
    | acked granted =>
        rw [ungranted] at granted
        contradiction
    | forwarded _ _ forwarded => exact forwarded_emits forwarded fun _ _ _ _ _ same => nomatch same
    | refused _ _ refused =>
        apply refused_emits refused
        rintro _ _ type _ _ kind ⟨⟩
        exact absurd kind (by decide)
  exact unreplied emits fun type reply got kind never => never type reply got kind rfl

theorem released_unreplied (released : Released cfg env c packet after) :
    ¬ Replied reply c after := by
  cases released with
  | ignored => exact unreplied_same rfl
  | @released k i lease _ =>
      have emits : Emits (fun output => ∀ type reply got, output ≠ .dhcp type reply got) c
          (releaseAt cfg env c packet k i lease) := by
        unfold releaseAt hookAddress
        split
        · exact emits_trans (emits_same rfl) (emits_one fun _ _ _ same => nomatch same)
        · exact emits_same rfl
      exact unreplied emits fun type reply got _ never => never type reply got rfl

/-- What a client packet is answered, unless it is an inform: the lease that is handed out. -/
theorem client_replied (sound : Sound cfg c) (lasting : messageType packet ≠ dhcpInform)
    (done : handle cfg env (.client packet) c = some after) :
    Replied reply c after ↔ ∃ k i, Granted cfg env packet c k i reply := by
  obtain ⟨⟨final, value⟩, processed, rfl⟩ := Option.map_eq_some_iff.mp done
  unfold dhcpProcess at processed
  split at processed
  · rename_i kind
    obtain ⟨⟨final', value'⟩, handled, same⟩ := Option.map_eq_some_iff.mp processed
    cases same
    exact discover_replied sound kind handled
  rename_i noDiscover
  split at processed
  · rename_i kind
    obtain ⟨⟨final', value'⟩, handled, same⟩ := Option.map_eq_some_iff.mp processed
    cases same
    have handed : handedOut cfg packet c = grantedTo cfg packet c := by
      rw [handedOut, if_neg noDiscover, if_pos kind]
    cases granted : grantedTo cfg packet c with
    | some place =>
        rw [request_granted env granted] at handled
        obtain ⟨⟨acked, value''⟩, ack, same⟩ := Option.map_eq_some_iff.mp handled
        cases same
        exact ack_replied (handed.trans granted) (if_neg noDiscover) ack
    | none =>
        refine iff_of_false (ungranted_unreplied granted handled) ?_
        rintro ⟨k, i, grant⟩
        cases (handed.trans granted).symm.trans grant.place
  rename_i noRequest
  refine iff_of_false ?_ ?_
  · split at processed
    · obtain ⟨released, handled, same⟩ := Option.map_eq_some_iff.mp processed
      cases same
      exact released_unreplied (release_cases handled)
    · cases processed
      exact unreplied_same rfl
  · rintro ⟨k, i, grant⟩
    have place := grant.place
    rw [handedOut, if_neg noDiscover, if_neg noRequest] at place
    contradiction

theorem handed_out_place (sound : Sound cfg c) (handed : handedOut cfg packet c = some (position, index)) :
    messageType packet ≠ dhcpInform ∧ position < cfg.blocks ∧ index < cfg.blockSize.toNat := by
  unfold handedOut at handed
  split at handed
  · rename_i kind
    have lasting : messageType packet ≠ dhcpInform := by
      rw [kind]
      decide
    rcases discover_searches sound with ⟨search, -⟩ | ⟨k, i, search, first, takes⟩
    · simp [search] at handed
    · simp only [search, first, Option.join_some, Option.bind_some, Option.map_some,
        Option.some.injEq, Prod.mk.injEq] at handed
      obtain ⟨rfl, rfl⟩ := handed
      obtain ⟨lease, entry, -⟩ := takes.free
      exact ⟨lasting, takes.block.inside, entry_below sound entry⟩
  split at handed
  · rename_i kind
    have lasting : messageType packet ≠ dhcpInform := by
      rw [kind]
      decide
    obtain ⟨inside, -, lease, entry, -⟩ := granted_grants handed
    exact ⟨lasting, inside, entry_below sound entry⟩
  · contradiction

end Replies

/-- No reply that grants a lease gives its client an address of another use. -/
def HostsOnly (cfg : Settings) (packet : DhcpPacket) (c after : Config) : Prop :=
  messageType packet ≠ dhcpInform → ∀ reply, Replied reply c after → Usable cfg reply

/-- The lease that is handed out, if there is memory for the reply, is that of a host. -/
def HandsOutHosts (cfg : Settings) (env : Env) (packet : DhcpPacket) (c : Config) : Prop :=
  Answers env → ∀ position index, handedOut cfg packet c = some (position, index) →
    Host cfg (announced packet c.options) (position * cfg.blockSize.toNat + index)

theorem hosts_only_iff {cfg : Settings} {env : Env} {memory : UInt8 → Bool} {packet : DhcpPacket}
    {s t : NodeState} (layout : Layout cfg) (reached : Reachable cfg s)
    (filled : dhcpOptionsInit memory cfg [] = some s.config.options)
    (step : Step cfg s (env, .client packet) t) :
    HostsOnly cfg packet s.config t.config ↔ HandsOutHosts cfg env packet s.config := by
  have sound := (reachable_good reached).sound
  have store (code : UInt8) : findInOptionStore s.config.options code =
      findInOptionStore (defaults cfg) code := init_fills cfg filled code
  have usable {position index : Nat} {reply : DhcpPacket}
      (granted : Granted cfg env packet s.config position index reply) : Usable cfg reply ↔
        Host cfg (announced packet s.config.options) (position * cfg.blockSize.toNat + index) := by
    obtain ⟨-, inside, below⟩ := handed_out_place sound granted.place
    apply usable_iff layout store (place_below layout inside below) granted.filled
    show addrAdd (s.config.blocks position).subnet index = _
    rw [(sound position).subnet, addr_add_add]
  cases step with
  | @event _ c after _ _ _ done =>
      constructor
      · intro hosts answers position index handed
        have lasting := (handed_out_place sound handed).1
        obtain ⟨reply, given⟩ : ∃ reply, dhcpDefaultOptions env (grantType packet)
            (offerReply c packet position index) packet c true = some reply :=
          ⟨_, if_pos answers.options⟩
        have granted : Granted cfg env packet c position index reply := ⟨handed, answers, given⟩
        have replied := (client_replied sound lasting done).mpr ⟨position, index, granted⟩
        exact (usable granted).mp (hosts lasting reply replied)
      · intro hosts lasting reply replied
        obtain ⟨position, index, granted⟩ := (client_replied sound lasting done).mp replied
        exact (usable granted).mpr (hosts granted.answers position index granted.place)

/-! A network of one block with four addresses. -/

def fourAddresses : Settings :=
  { smallNode 1 with
    blockSize := 4
    prefixLen := 30
    size_pos := by decide
    network_fits := by decide }

theorem four_layout : Layout fourAddresses where
  longest := by decide
  shortest := by decide
  aligned := by decide
  power := ⟨2, rfl⟩
  fits := by decide
  blocks := by decide

/-- The store as the daemon fills it. -/
def fourStart : NodeState :=
  ⟨1000, startConfig fourAddresses 1000 (defaults fourAddresses)⟩

/-- A client that asks for the broadcast address. -/
def askingBroadcast : DhcpPacket := asking [codeBroadcastAddress]

/-- The block is owned, and so many clients were offered an address. -/
def offeredRun (earlier : Nat) : List (Env × Event) :=
  ownedRun ++ List.replicate earlier (calmEnv 1010, .client askingBroadcast)

theorem four_filled : dhcpOptionsInit (fun _ => true) fourAddresses [] =
    some (defaults fourAddresses) := by
  decide +kernel

theorem four_reachable {s : NodeState} {earlier : Nat}
    (run : runEvents fourAddresses fourStart (offeredRun earlier) = some s) :
    Reachable fourAddresses s :=
  run_reachable run

theorem hosts_only_iff_small : ∃ s t : NodeState,
    Step fourAddresses s (calmEnv 1010, .client askingBroadcast) t ∧
    handedOut fourAddresses askingBroadcast s.config = some (0, 2) ∧
    HostsOnly fourAddresses askingBroadcast s.config t.config := by
  have evaluated : (runEvents fourAddresses fourStart (offeredRun 2)).any (fun s =>
      (handle fourAddresses (calmEnv 1010) (.client askingBroadcast) s.config).any fun _ =>
        s.clock = 1010 ∧ s.config.options = defaults fourAddresses ∧
        handedOut fourAddresses askingBroadcast s.config = some (0, 2)) = true := by decide +kernel
  obtain ⟨⟨clock, c⟩, run, rest⟩ := (Option.any_eq_true _ _).mp evaluated
  obtain ⟨after, done, facts⟩ := (Option.any_eq_true _ _).mp rest
  obtain ⟨rfl, options, handed⟩ := of_decide_eq_true facts
  have filled : dhcpOptionsInit (fun _ => true) fourAddresses [] = some c.options := by
    rw [four_filled, options]
  have step : Step fourAddresses ⟨1010, c⟩ (calmEnv 1010, .client askingBroadcast) ⟨1010, after⟩ :=
    .event (calmEnv 1010) _ (by decide) done
  refine ⟨_, _, step, handed, ?_⟩
  apply (hosts_only_iff four_layout (four_reachable run) filled step).mpr
  intro _ position index here
  cases handed.symm.trans here
  exact ⟨by decide, fun _ => by decide, fun _ => by decide⟩

/-- An offer of the address that has another use as far as its options tell. -/
def misusedAt (cfg : Settings) (address : InAddr) : Output → Bool
  | .dhcp type reply _ => type = dhcpOffer ∧ reply.yiaddr = address ∧ (address = cfg.prefixAddr ∨
      ∃ option ∈ counted reply, (option.code = codeBroadcastAddress ∨
        option.code = codeServerIdentifier) ∧ option.payload = word32Bytes address)
  | _ => false

theorem misused_unusable {cfg : Settings} {address : InAddr} {c after : Config}
    (found : (sent c after).any (misusedAt cfg address) = true) :
    ∃ reply, Replied reply c after ∧ reply.yiaddr = address ∧ ¬ Usable cfg reply := by
  obtain ⟨output, member, form⟩ := List.any_eq_true.mp found
  cases output with
  | dhcp type reply got =>
      obtain ⟨offer, rfl, network | ⟨option, there, kind, payload⟩⟩ := of_decide_eq_true form
      · exact ⟨reply, ⟨type, got, .inl offer, member⟩, rfl, fun usable => usable.network network⟩
      · refine ⟨reply, ⟨type, got, .inl offer, member⟩, rfl, fun usable => ?_⟩
        exact kind.elim (fun code => usable.broadcast option there code payload)
          fun code => usable.server option there code payload
  | mcast => simp [misusedAt] at form
  | direct => simp [misusedAt] at form
  | hook => simp [misusedAt] at form

-- The first client is offered the network address, the second one that of the server, and
-- the fourth one the broadcast address.
theorem other_uses_handed_out : Layout fourAddresses ∧
    ∀ earlier ∈ [0, 1, 3], ∃ (s t : NodeState) (reply : DhcpPacket),
    Reachable fourAddresses s ∧
    dhcpOptionsInit (fun _ => true) fourAddresses [] = some s.config.options ∧
    Step fourAddresses s (calmEnv 1010, .client askingBroadcast) t ∧
    Replied reply s.config t.config ∧
    reply.yiaddr = addrAdd fourAddresses.prefixAddr earlier ∧ ¬ Usable fourAddresses reply ∧
    ¬ HostsOnly fourAddresses askingBroadcast s.config t.config := by
  refine ⟨four_layout, fun earlier member => ?_⟩
  have evaluated : (runEvents fourAddresses fourStart (offeredRun earlier)).any (fun s =>
      (handle fourAddresses (calmEnv 1010) (.client askingBroadcast) s.config).any fun after =>
        s.clock ≤ 1010 ∧ s.config.options = defaults fourAddresses ∧
        (sent s.config after).any
          (misusedAt fourAddresses (addrAdd fourAddresses.prefixAddr earlier))) = true := by
    revert earlier
    decide +kernel
  obtain ⟨s, run, rest⟩ := (Option.any_eq_true _ _).mp evaluated
  obtain ⟨after, done, facts⟩ := (Option.any_eq_true _ _).mp rest
  obtain ⟨later, options, misused⟩ := of_decide_eq_true facts
  obtain ⟨reply, replied, address, unusable⟩ := misused_unusable misused
  refine ⟨s, ⟨1010, after⟩, reply, four_reachable run, by rw [four_filled, options],
    .event (calmEnv 1010) _ later done, replied, address, unusable, fun hosts => ?_⟩
  exact unusable (hosts (by decide +kernel) reply replied)

end Ddhcpd.HostAddresses

import Ddhcpd.Forwarding
import Ddhcpd.LastClaim
import Ddhcpd.Datagram
import Ddhcpd.Holders
import Ddhcpd.Offers

/-!
The way of a request to the holder of its block and back. The node that the client has asked keeps
the request and passes it on; when it gets to a node that owns the block, an acknowledgement goes
back, and when that arrives the client is acknowledged the lease. In between any node may handle
anything: the node that waits must go on waiting, and nothing is asked of the other nodes.
-/

namespace Ddhcpd.RoundTrips
open Bytes Types Leases Blocks BlockPackets Packet Dhcp LeasePackets Node Path Options LeaseMoves
open Invariant Calls Handlers HouseKeeping LeaseSafety Answers Attempt Forwarding DirectSends ByteOrder
open Datagram (find_option_copied ack_copied)
open Needless (claimed_since answer_blocks)
open LastClaim (adjust_claimed checked_claimed)
open Holders (placeOf find_lease_place)
open Claim (Claimed)
open Offers (answered_sent)
open Exclusive (find_lease_address leaseOf lease_of_iff lease_of_put)

/-- A request for the address; the option that names it has room for an address. -/
structure Asks (request : DhcpPacket) (address : InAddr) : Prop where
  type : messageType request = dhcpRequest
  named : requestedAddress request = some address
  whole : ∀ option, findOption request.options request.optionsLen codeRequestedAddress = some option →
    4 ≤ option.len.toNat

theorem copied_byte {option : DhcpOption} {k : Nat} (inside : k < option.len.toNat) :
    byteAt (copyOption option).payload k = byteAt option.payload k := by
  rw [copyOption, Words.bytes_at_slice, byteAt, List.getD_eq_getElem?_getD]
  simp [Words.slice, inside]

/-- The copy that is kept of a request names the same address. -/
theorem copy_named {request : DhcpPacket} {address : InAddr} (asks : Asks request address) :
    addressOf (copyPacket request) = address := by
  have named := asks.named
  have found := find_option_copied request codeRequestedAddress
  have same : (copyPacket request).optionsLen = request.optionsLen := rfl
  have client : (copyPacket request).ciaddr = request.ciaddr := rfl
  unfold addressOf requestedAddress findOptionRequestedAddress at *
  rw [same, found, client]
  cases here : findOption request.options request.optionsLen codeRequestedAddress with
  | none =>
      rw [here] at named
      simp only [Option.map_none] at named ⊢
      rw [named]
      rfl
  | some option =>
      have room := asks.whole option here
      have read : word32At (copyOption option).payload 0 = word32At option.payload 0 := by
        rw [word32At, word32At, copied_byte (by omega), copied_byte (by omega), copied_byte (by omega),
          copied_byte (by omega)]
      simp only [here, Option.map_some, Option.getD_some, Option.some.injEq] at named ⊢
      exact read.trans named

/-! The node that waits. -/

section Node
variable {cfg : Settings} {env : Env} {event : Event} {c after : Config} {position index : Nat}
  {request : DhcpPacket} {address : InAddr} {deadline : Time}

def keptAs (request : DhcpPacket) (deadline : Time) : CachedPacket := ⟨copyPacket request, deadline, true⟩

/-- The request is the first that an answer to it will be taken for, and the block of the address has
the table that it is then entered in. -/
structure Awaits (cfg : Settings) (request : DhcpPacket) (deadline : Time) (position : Nat)
    (c : Config) : Prop where
  good : Good cfg c
  first : c.dhcpPacketCache.find? (cacheMatches request.xid request.chaddr) =
    some (keptAs request deadline)
  claimed : (c.blocks position).state = .claimed
  table : (c.blocks position).addresses.isSome = true

/-- The event is not an answer to the request. -/
def Unanswered (cfg : Settings) (env : Env) (event : Event) (request : DhcpPacket) : Prop :=
  ∀ answer, Receives cfg env event answer → isAnswer answer →
    ¬ (answer.renewPayload.xid = request.xid ∧ answer.renewPayload.chaddr = request.chaddr)

theorem find_erased {Entry : Type} {found gone : Entry → Bool} (list : List Entry)
    (apart : ∀ entry, gone entry = true → found entry = false) :
    (list.eraseP gone).find? found = list.find? found := by
  induction list with
  | nil => rfl
  | cons entry rest ih =>
      by_cases goes : gone entry = true
      · rw [List.eraseP_cons_of_pos goes, List.find?_cons_of_neg (by simp [apart entry goes])]
      · rw [List.eraseP_cons_of_neg goes, List.find?_cons, List.find?_cons, ih]

theorem find_kept {Entry : Type} {found stays : Entry → Bool} {list : List Entry} {entry : Entry}
    (first : list.find? found = some entry) (kept : stays entry = true) :
    (list.filter stays).find? found = some entry := by
  obtain ⟨matching, front, back, rfl, others⟩ := List.find?_eq_some_iff_append.mp first
  rw [List.filter_append, List.filter_cons_of_pos kept, List.find?_append,
    List.find?_eq_none.mpr, Option.none_or, List.find?_cons_of_pos matching]
  intro other member
  simpa using others other (List.mem_of_mem_filter member)

/-- A request that is waited for stays the first to be found. -/
theorem event_first (good : Good cfg c) (intime : env.now ≤ deadline)
    (unanswered : Unanswered cfg env event request)
    (first : c.dhcpPacketCache.find? (cacheMatches request.xid request.chaddr) =
      some (keptAs request deadline))
    (done : handle cfg env event c = some after) :
    after.dhcpPacketCache.find? (cacheMatches request.xid request.chaddr) =
      some (keptAs request deadline) := by
  by_cases answered : ∃ answer, Receives cfg env event answer ∧ isAnswer answer
  · obtain ⟨answer, received, kind⟩ := answered
    rcases answer_cases good.sound received kind done with ⟨-, rfl⟩ | ⟨cached, -, cache, -⟩
    · exact first
    · rw [cache, taken, find_erased, first]
      intro entry goes
      simp only [answers, cacheMatches, decide_eq_true_eq] at goes
      simp only [cacheMatches, decide_eq_false_iff_not, goes.1, goes.2]
      exact unanswered answer received kind
  have other (packet : McastPacket) (received : Receives cfg env event packet) : ¬ isAnswer packet :=
    fun kind => answered ⟨packet, received, kind⟩
  cases event with
  | houseKeeping =>
      rw [house_keeping_cache good done]
      exact find_kept first (by simpa [keptAs] using intime)
  | mcast buffer len sender =>
      cases done
      have same : (ddhcpBlockProcess cfg env buffer len sender c).dhcpPacketCache = c.dhcpPacketCache := by
        unfold ddhcpBlockProcess
        split
        · exact block_moves_cache good.sound BlockMoves.dispatch_moves
        · rfl
      rwa [same]
  | direct buffer len sender => rwa [direct_cache other done]
  | client packet =>
      obtain ⟨⟨final, value⟩, handled, rfl⟩ := Option.map_eq_some_iff.mp done
      rcases client_cache handled with same | ⟨⟨entry, entered⟩, -⟩
      · rwa [same]
      · rw [entered, List.find?_append, first, Option.some_or]
  | control buffer len =>
      cases done
      rwa [control_cache]

/-! The table of a block that stays claimed is not taken away. -/

theorem checked_kept {block : Block} {now : Time} (usable : block.state ≠ .blocked)
    (claimed : (checked now block).state = .claimed) (table : block.addresses.isSome = true) :
    (checked now block).addresses.isSome = true := by
  have frees (block : Block) (usable : block.state ≠ .blocked) : (blockFree block).state = .free := by
    rw [block_free_freed usable]
    rfl
  unfold checked at claimed ⊢
  split at claimed
  · rw [frees block usable] at claimed
    contradiction
  · rename_i live
    rw [if_neg live]
    split at claimed
    · exact table
    · split at claimed
      · rw [frees _ (by exact usable)] at claimed
        contradiction
      · rename_i stays
        rw [if_neg stays]
        rfl

theorem adjust_kept (good : Good cfg c) (done : adjustBlocks cfg env c = some after)
    (claimed : (after.blocks position).state = .claimed)
    (table : (c.blocks position).addresses.isSome = true) :
    (after.blocks position).addresses.isSome = true := by
  rcases adjust_block done position with ⟨since, same⟩ | ⟨-, -, same⟩ | ⟨spareLeases, -, -, rfl⟩
  · rw [same]
    exact table
  · rw [same, block_free_freed (good.sound position).usable] at claimed
    contradiction
  · obtain ⟨since, unmarks⟩ := unmarked_block cfg c position
    obtain ⟨started, inquiry, done⟩ := claim_claimed (unmarked_good good) spareLeases
    exact (claimed_since done position).2 (by rwa [unmarks])

theorem house_keeping_kept (good : Good cfg c) (done : houseKeeping cfg env c = some after)
    (inside : position < cfg.blocks) (claimed : (after.blocks position).state = .claimed)
    (table : (c.blocks position).addresses.isSome = true) :
    (after.blocks position).addresses.isSome = true := by
  obtain ⟨middle, adjusted, check, middleGood, -, adjust, adjustedGood, blocks, -⟩ :=
    house_keeping_passes good done
  rw [blocks, update_claims_state adjustedGood.sound] at claimed
  rw [blocks, update_claims_addresses adjustedGood.sound]
  apply adjust_kept middleGood adjust claimed
  have was := (adjust_claimed middleGood adjust claimed).1
  rw [check_timeouts_checked good.sound] at check
  cases check
  simp only [inside, ↓reduceIte] at was ⊢
  exact checked_kept (good.sound position).usable was table

theorem lease_move_kept (move : LeaseMove cfg env event c after)
    (table : (c.blocks position).addresses.isSome = true) :
    (after.blocks position).addresses.isSome = true := by
  have written {place : Nat} {block : Block} (keeps : (c.blocks place).addresses.isSome = true →
      block.addresses.isSome = true) : ((c.setBlock place block).blocks position).addresses.isSome = true := by
    by_cases here : position = place
    · subst here
      rw [set_block_same]
      exact keeps table
    · rwa [set_block_other _ _ _ _ here]
  cases move with
  | write => exact written fun there => by rwa [putLease, Option.isSome_map]
  | allocate =>
      refine written fun there => ?_
      rw [blockAlloc, if_pos there]
      exact there
  | unmark => exact written id
  | cache => exact table
  | store => exact table
  | send => exact table

theorem event_kept (good : Good cfg c) (inside : position < cfg.blocks)
    (done : handle cfg env event c = some after) (claimed : (after.blocks position).state = .claimed)
    (table : (c.blocks position).addresses.isSome = true) :
    (after.blocks position).addresses.isSome = true := by
  by_cases house : event = .houseKeeping
  · subst house
    exact house_keeping_kept good done inside claimed table
  rcases received_moves house done with ⟨packet, sender, moves⟩ | moves
  · rwa [block_moves_addresses good.sound moves]
  · clear done claimed
    induction moves with
    | refl => exact table
    | tail _ move ih => exact lease_move_kept move ih

theorem handled_good (good : Good cfg c) (done : handle cfg env event c = some after) : Good cfg after := by
  have step : Node.Step cfg ⟨env.now, c⟩ (env, event) ⟨env.now, after⟩ := .event env event (Nat.le_refl _) done
  exact step_good good step

theorem event_awaits (awaits : Awaits cfg request deadline position c) (inside : position < cfg.blocks)
    (intime : env.now ≤ deadline) (unanswered : Unanswered cfg env event request)
    (done : handle cfg env event c = some after) (claimed : (after.blocks position).state = .claimed) :
    Awaits cfg request deadline position after :=
  ⟨handled_good awaits.good done, event_first awaits.good intime unanswered awaits.first done, claimed,
    event_kept awaits.good inside done claimed awaits.table⟩

/-! The three events that carry the request on. -/

theorem packet_send_direct (packet : McastPacket) (dest : In6Addr) (memory : Allocates env) :
    sendPacketDirect env packet dest c = c.emit (.direct packet dest) := if_pos (memory _)

def storing (env : Env) (request : DhcpPacket) (c : Config) : Config :=
  { c with dhcpPacketCache := c.dhcpPacketCache ++ [keptAs request (env.now + 120)] }

/-- The request is noted, kept and passed on. -/
def passingOn (cfg : Settings) (env : Env) (c : Config) (request : DhcpPacket) (address : InAddr)
    (position index : Nat) (lease : Lease) : Config :=
  (storing env request (noteIn env (opened env c position) request position index lease)).emit
    (.direct (renewPacket cfg request address) (c.blocks position).ownerAddress)

/-- A request for a claimed block is kept and passed on to the holder. -/
theorem passed_on (good : Good cfg c) (asks : Asks request address)
    (place : findLeaseFromAddress cfg c address = ⟨1, position, index⟩)
    (claimed : (c.blocks position).state = .claimed)
    (fresh : c.dhcpPacketCache.find? (cacheMatches request.xid request.chaddr) = none)
    (memory : Allocates env) : ∃ after, handle cfg env (.client request) c = some after ∧
      Awaits cfg request (env.now + 120) position after ∧
      .direct (renewPacket cfg request address) (c.blocks position).ownerAddress ∈ sent c after := by
  have below : index < cfg.blockSize.toNat := by
    have bound : (findLeaseFromAddress cfg c address).lease < cfg.blockSize.toNat := find_lease_index address
    rwa [place] at bound
  obtain ⟨allocated, lease, entry⟩ := opened_entry good.sound claimed below (.inr (memory _))
  have forwarded : forwardRequest cfg env request address position index c = _ :=
    forward_noted request address allocated entry
  rw [if_pos (memory _)] at forwarded
  have owner : ((opened env c position).blocks position).ownerAddress = (c.blocks position).ownerAddress := by
    rw [opened, set_block_same]
    exact (block_alloc_there (memory _)).2.2
  have listed : dhcpPacketListAdd env request
      (noteIn env (opened env c position) request position index lease) =
      storing env request (noteIn env (opened env c position) request position index lease) := by
    rw [dhcpPacketListAdd, if_pos (memory _), copy_succeeds memory]
    rfl
  rw [owner, listed, packet_send_direct _ _ memory] at forwarded
  have done : handle cfg env (.client request) c =
      some (passingOn cfg env c request address position index lease) := by
    simp only [handle, dhcpProcess, asks.type, show dhcpRequest ≠ dhcpDiscover by decide, ↓reduceIte,
      dhcpHdlRequest, asks.named, place, claimed, forwarded, show (1 : Nat) ≠ 2 by decide, Option.map_some]
    rfl
  refine ⟨_, done, ⟨handled_good good done, ?_, ?_, ?_⟩, ?_⟩
  · have cache : (passingOn cfg env c request address position index lease).dhcpPacketCache =
        c.dhcpPacketCache ++ [keptAs request (env.now + 120)] := rfl
    rw [cache, List.find?_append, fresh, Option.none_or, List.find?_cons_of_pos]
    simp [cacheMatches, keptAs, copyPacket]
  · simp only [passingOn, storing, emit_blocks, noteIn, set_block_same, putLease, opened, block_alloc_state]
    exact claimed
  · simp only [passingOn, storing, emit_blocks, noteIn, set_block_same, putLease, opened, Option.isSome_map]
    exact (block_alloc_there (memory _)).2.1
  · simp [sent, passingOn, storing, Config.emit, noteIn, opened, Config.setBlock]

/-- A request that reaches the holder of the address is acknowledged to the node it comes from. -/
theorem sent_back {packet : McastPacket} {buffer : List UInt8} {len : Nat} (sender : In6Addr)
    (good : Good cfg c) (decoded : ntohMcastPacket env buffer len = some packet)
    (ofSwarm : foreign cfg packet = false) (kind : packet.command = msgRenewLease)
    (named : rawAddress cfg packet.renewPayload.address = address)
    (own : (findLeaseFromAddress cfg c address).status = 0) (memory : Allocates env) :
    ∃ after lease, handle cfg env (.direct buffer len sender) c = some after ∧
      .direct (renewAnswer cfg packet msgLeaseAck) sender ∈ sent c after ∧
      leaseOf cfg c address = some lease ∧
      leaseOf cfg after address = some { lease with leaseEnd := leaseEndFrom env c } := by
  obtain ⟨position, index, place⟩ : ∃ position index,
      findLeaseFromAddress cfg c address = ⟨0, position, index⟩ := ⟨_, _, by rw [← own]⟩
  have ours := (find_lease_ours own).2
  have below : (findLeaseFromAddress cfg c address).lease < cfg.blockSize.toNat := find_lease_index address
  rw [place] at ours below
  obtain ⟨lease, entry⟩ := lease_at_there (good.sound position) ((good.sound position).own ours) below
  have written : updateLease (c.blocks position) index (fun lease =>
      { lease with leaseEnd := leaseEndFrom env c }) = some (putLease (c.blocks position) index
        { lease with leaseEnd := leaseEndFrom env c }) := update_lease_iff.mpr ⟨lease, entry, rfl⟩
  have done : handle cfg env (.direct buffer len sender) c =
      some ((prolong env c position index lease).emit
        (.direct (renewAnswer cfg packet msgLeaseAck) sender)) := by
    simp only [handle, ddhcpDhcpProcess, decoded, ddhcpDhcpDispatch, ofSwarm, kind, ↓reduceIte,
      Bool.false_eq_true, ddhcpDhcpRenewlease, dhcpRhdlRequest, named, place, written, memory .answerPacket,
      packet_send_direct _ _ memory]
    rfl
  refine ⟨_, lease, done, ?_, lease_of_iff.mpr ⟨position, index, place, entry⟩, ?_⟩
  · simp [sent, Config.emit, prolong, Config.setBlock]
  · have same : leaseOf cfg ((prolong env c position index lease).emit
        (.direct (renewAnswer cfg packet msgLeaseAck) sender)) address =
        leaseOf cfg (prolong env c position index lease) address := rfl
    rw [same, prolong, lease_of_put entry, if_pos place]

theorem ack_answered {lease : Lease} (memory : Allocates env)
    (entry : leaseAt (c.blocks position) index = some lease) : ∃ reply,
      dhcpAckLease cfg env request position index c =
        some (answerTo cfg env (grantTo env c request position index lease) reply, 0) ∧
      reply.yiaddr = addrAdd (c.blocks position).subnet index ∧ reply.chaddr = request.chaddr ∧
      reply.xid = request.xid := by
  let block := putLease (c.blocks position) index (leaseTo request .leased (leaseEndFrom env c) lease)
  have written : updateLease (c.blocks position) index (leaseTo request .leased (leaseEndFrom env c)) =
      some block := update_lease_iff.mpr ⟨lease, entry, rfl⟩
  obtain ⟨reply, filled, named, owner, xid⟩ : ∃ reply, dhcpDefaultOptions env dhcpAck
      { buildInitialPacket request with yiaddr := addrAdd block.subnet index } request
      (c.setBlock position block) true = some reply ∧
      reply.yiaddr = addrAdd (c.blocks position).subnet index ∧ reply.chaddr = request.chaddr ∧
      reply.xid = request.xid := ⟨_, if_pos (memory _), rfl, rfl, rfl⟩
  refine ⟨reply, ?_, named, owner, xid⟩
  rw [dhcpAckLease, if_neg (not_not.mpr (memory _)), written]
  simp only [Option.bind_eq_bind, Option.bind_some, filled]
  rfl

/-- The client of a request that is waited for is acknowledged the lease when the holder has. -/
theorem told_client {answer : McastPacket} {buffer : List UInt8} {len : Nat} (sender : In6Addr)
    (awaits : Awaits cfg request deadline position c) (asks : Asks request address)
    (place : findLeaseFromAddress cfg c address = ⟨1, position, index⟩)
    (decoded : ntohMcastPacket env buffer len = some answer) (ofSwarm : foreign cfg answer = false)
    (kind : answer.command = msgLeaseAck) (transaction : answer.renewPayload.xid = request.xid)
    (client : answer.renewPayload.chaddr = request.chaddr) (memory : Allocates env) :
    ∃ after reply, handle cfg env (.direct buffer len sender) c = some after ∧
      .dhcp dhcpAck reply env.dhcpSent ∈ sent c after ∧ reply.yiaddr = address ∧
      reply.chaddr = request.chaddr ∧ reply.xid = request.xid ∧
      leaseAt (after.blocks position) index =
        some ⟨request.chaddr, .leased, request.xid, leaseEndFrom env c⟩ := by
  have below : index < cfg.blockSize.toNat := by
    have bound : (findLeaseFromAddress cfg c address).lease < cfg.blockSize.toNat := find_lease_index address
    rwa [place] at bound
  have soundTaken : Sound cfg (taken answer c) := awaits.good.sound
  obtain ⟨lease, entry⟩ : ∃ lease, leaseAt ((taken answer c).blocks position) index = some lease :=
    lease_at_there (soundTaken position) awaits.table below
  obtain ⟨reply, acked, named, owner, xid⟩ : ∃ reply : DhcpPacket,
      dhcpAckLease cfg env request position index (taken answer c) =
        some (answerTo cfg env (grantTo env (taken answer c) request position index lease) reply, 0) ∧
      reply.yiaddr = addrAdd (c.blocks position).subnet index ∧ reply.chaddr = request.chaddr ∧
      reply.xid = request.xid := ack_answered memory entry
  have waits : waiting answer c = some (keptAs request deadline) := by
    rw [waiting, answers, transaction, client]
    exact awaits.first
  have found : findLeaseFromAddress cfg (taken answer c) (addressOf (copyPacket request)) =
      ⟨1, position, index⟩ := by
    rw [copy_named asks]
    exact place
  have done : handle cfg env (.direct buffer len sender) c =
      some (answerTo cfg env (grantTo env (taken answer c) request position index lease) reply) := by
    simp only [handle, ddhcpDhcpProcess, decoded, ddhcpDhcpDispatch, ofSwarm, kind, ↓reduceIte,
      Bool.false_eq_true, show msgLeaseAck ≠ msgRenewLease by decide, ddhcpDhcpLeaseack, find_waiting,
      waits, Option.map_some, keptAs, dhcpRhdlAck]
    rw [addressOf] at found
    simp only [found, ne_eq, not_true_eq_false, ↓reduceIte, ack_copied, acked, Option.map_some]
  refine ⟨_, reply, done, ?_, ?_, owner, xid, ?_⟩
  · have answering : Offers.Answering env := ⟨memory _, memory _, memory _⟩
    have silent : (grantTo env (taken answer c) request position index lease).out = c.out := rfl
    exact answered_sent answering silent
  · have status : (findLeaseFromAddress cfg c address).status ≠ 2 := by
      rw [place]
      exact Nat.succ_ne_succ_iff.mpr Nat.zero_ne_one
    have same := find_lease_address awaits.good.sound status
    rw [place] at same
    exact named.trans same
  · rw [answer_blocks, grantTo, set_block_same]
    exact lease_at_put entry

end Node

/-! The swarm. -/

section Swarm
variable {count : Nat} {peers : Peers count} {s t : Net count} {labels : List (Fin count × Env × Event)}
  {asker owner : Fin count} {env : Env} {event : Event} {request : DhcpPacket} {address : InAddr}
  {deadline : Time} {position index : Nat} {datagram : Datagram count}

/-- All nodes serve the same network. -/
def Alike (peers : Peers count) : Prop := ∀ a b,
  (peers.settings a).prefixAddr = (peers.settings b).prefixAddr ∧
  (peers.settings a).prefixLen = (peers.settings b).prefixLen ∧
  (peers.settings a).blockSize = (peers.settings b).blockSize

/-- A step after which the node still waits: it was in time, it was not the answer, and the block is
still that of another node. -/
def Patient (peers : Peers count) (asker : Fin count) (request : DhcpPacket) (deadline : Time)
    (position : Nat) (s : Net count) (label : Fin count × Env × Event) (t : Net count) : Prop :=
  Step peers s label t ∧ (label.1 = asker → label.2.1.now ≤ deadline ∧
    Unanswered (peers.settings asker) label.2.1 label.2.2 request ∧
    ((t.node asker).config.blocks position).state = .claimed)

/-- The node waits for the answer to the request. -/
def Waits (peers : Peers count) (asker : Fin count) (request : DhcpPacket) (deadline : Time)
    (position : Nat) (s : Net count) : Prop :=
  Awaits (peers.settings asker) request deadline position (s.node asker).config

theorem patient_waits (inside : position < (peers.settings asker).blocks)
    (path : Path (Patient peers asker request deadline position) s labels t)
    (waits : Waits peers asker request deadline position s) :
    Waits peers asker request deadline position t := by
  refine path_invariant (Waits peers asker request deadline position) ?_ path waits
  rintro s ⟨node, env, event⟩ t waits ⟨step, patient⟩
  have handles := step_handles step
  by_cases same : node = asker
  · subst same
    obtain ⟨intime, unanswered, claimed⟩ := patient rfl
    exact event_awaits waits inside intime unanswered (step_handled handles.step) claimed
  · rw [Waits, handles.others asker (Ne.symm same)]
    exact waits

theorem patient_good {node : Fin count} (path : Path (Patient peers asker request deadline position) s labels t)
    (good : ∀ node, Good (peers.settings node) (s.node node).config) :
    Good (peers.settings node) (t.node node).config := by
  let sound (s : Net count) : Prop := ∀ node, Good (peers.settings node) (s.node node).config
  have kept (s : Net count) (label : Fin count × Env × Event) (t : Net count) (good : sound s)
      (step : Patient peers asker request deadline position s label t) : sound t := by
    intro other
    obtain ⟨node, env, event⟩ := label
    have handles := step_handles step.1
    by_cases same : other = node
    · subst same
      exact handled_good (good other) (step_handled handles.step)
    · rw [handles.others other same]
      exact good other
  exact path_invariant sound kept path good node

/-- A datagram about a lease that arrives whole is decoded. -/
theorem datagram_read {buffer : List UInt8} {packet : McastPacket}
    (lease : Wire.leaseCommand packet.command) (sized : packet.command ≠ msgRelease)
    (written : buffer.take (Wire.htonPacket packet).length = Wire.htonPacket packet)
    (memory : env.alloc .receivedPayload = true) :
    ntohMcastPacket env buffer (Wire.htonPacket packet).length = some (Wire.received packet) := by
  have encodable := Wire.lease_encodable lease
  have length : (Wire.htonPacket packet).length = 44 := by
    rw [Wire.htonPacket, List.length_append, Wire.header_bytes_length, Wire.payload_lease lease,
      Wire.renew_length]
  have same : buffer.take (Wire.htonPacket packet).length =
      (Wire.htonPacket packet).take (Wire.htonPacket packet).length := by
    rw [written, List.take_length]
  have size := Wire.hton_length encodable sized
  rw [← Wire.header_command packet, ← Wire.header_count packet,
    ← byte_at_same same (by omega), ← byte_at_same same (by omega)] at size
  rw [Wire.ntoh_read, if_pos ⟨size.symm, memory⟩,
    Wire.packet_read_same same (Wire.well_formed_iff.mpr size.symm), Wire.packet_read_hton encodable]

/-- What a node handles that is to do so. -/
theorem handles_step {node : Fin count} {after : Config} (later : (s.node node).clock ≤ env.now)
    (done : handle (peers.settings node) env event (s.node node).config = some after)
    (arrives : isDirect event → ∃ datagram ∈ s.posted, ArrivesAs peers node datagram event) :
    ∃ t, Step peers s (node, env, event) t ∧ (t.node node).config = after ∧
      t.posted = s.posted ++ posts node (s.node node).config after := by
  have step : Node.Step (peers.settings node) (s.node node) (env, event) ⟨env.now, after⟩ :=
    .event env event later done
  exact ⟨_, .handles step arrives, by simp, rfl⟩

theorem step_posted (step : Step peers s (asker, env, event) t) (member : datagram ∈ s.posted) :
    datagram ∈ t.posted := by
  rw [(step_handles step).posted]
  exact List.mem_append_left _ member

theorem patient_posted (path : Path (Patient peers asker request deadline position) s labels t)
    (member : datagram ∈ s.posted) : datagram ∈ t.posted := by
  refine path_invariant (fun s => datagram ∈ s.posted) ?_ path member
  rintro s ⟨node, env, event⟩ t member ⟨step, -⟩
  exact step_posted step member

def forth (peers : Peers count) (asker owner : Fin count) (request : DhcpPacket) (address : InAddr) :
    Datagram count :=
  ⟨asker, peers.address owner, renewPacket (peers.settings asker) request address⟩

def back (peers : Peers count) (asker owner : Fin count) (request : DhcpPacket) (address : InAddr) :
    Datagram count :=
  ⟨owner, peers.address asker, renewAnswer (peers.settings owner)
    (renewPacket (peers.settings asker) request address) msgLeaseAck⟩

/-- Whenever the answer arrives, the client is acknowledged the lease, which is noted for it. -/
def ClientTold (peers : Peers count) (asker owner : Fin count) (request : DhcpPacket) (address : InAddr)
    (position index : Nat) (s : Net count) : Prop :=
  ∀ env event, ArrivesAs peers asker (back peers asker owner request address) event →
    (s.node asker).clock ≤ env.now → Allocates env →
    ∃ t reply, Step peers s (asker, env, event) t ∧
      .dhcp dhcpAck reply env.dhcpSent ∈ sent (s.node asker).config (t.node asker).config ∧
      reply.yiaddr = address ∧ reply.chaddr = request.chaddr ∧ reply.xid = request.xid ∧
      leaseAt ((t.node asker).config.blocks position) index =
        some ⟨request.chaddr, .leased, request.xid, leaseEndFrom env (s.node asker).config⟩

/-- Whenever the request arrives while its address is in a block of the node, the lease is prolonged
and an answer goes back, which the other node waits for. -/
def HolderAnswers (peers : Peers count) (asker owner : Fin count) (request : DhcpPacket)
    (address : InAddr) (deadline : Time) (position index : Nat) (s : Net count) : Prop :=
  ∀ env event, ArrivesAs peers owner (forth peers asker owner request address) event →
    (s.node owner).clock ≤ env.now → Allocates env →
    (findLeaseFromAddress (peers.settings owner) (s.node owner).config address).status = 0 →
    ∃ t lease, Step peers s (owner, env, event) t ∧ back peers asker owner request address ∈ t.posted ∧
      leaseOf (peers.settings owner) (s.node owner).config address = some lease ∧
      leaseOf (peers.settings owner) (t.node owner).config address =
        some { lease with leaseEnd := leaseEndFrom env (s.node owner).config } ∧
      ∀ labels u, Path (Patient peers asker request deadline position) t labels u →
        ClientTold peers asker owner request address position index u

theorem placed_claimed {cfg : Settings} {c : Config} (place : placeOf cfg address = some (position, index))
    (claimed : (c.blocks position).state = .claimed) :
    findLeaseFromAddress cfg c address = ⟨1, position, index⟩ := by
  rw [find_lease_place, place]
  simp [claimed]

theorem alike_ours {a b : Fin count} (alike : Alike peers) {packet : McastPacket}
    (address : packet.prefixAddr = (peers.settings a).prefixAddr)
    (length : packet.prefixLen = (peers.settings a).prefixLen)
    (size : packet.blocksize = (peers.settings a).blockSize) :
    foreign (peers.settings b) packet = false := by
  obtain ⟨sameAddress, sameLength, sameSize⟩ := alike a b
  simp [foreign, address, length, size, sameAddress, sameLength, sameSize]

theorem received_plain {packet : McastPacket} (lease : Wire.leaseCommand packet.command)
    (plain : packet.payload = []) : Wire.received packet = packet := by
  obtain ⟨noClaim, noInquire⟩ := Wire.lease_not_block lease
  rw [Wire.received, if_neg (not_or.mpr ⟨noClaim, noInquire⟩), ← plain]

/-- A datagram about a lease that arrives is what was sent. -/
theorem arrived_read {node : Fin count} (lease : Wire.leaseCommand datagram.packet.command)
    (sized : datagram.packet.command ≠ msgRelease) (plain : datagram.packet.payload = [])
    (arrives : ArrivesAs peers node datagram event) (memory : Allocates env) :
    ∃ buffer len, event = .direct buffer len (peers.address datagram.source) ∧
      ntohMcastPacket env buffer len = some datagram.packet := by
  obtain ⟨buffer, len, same, -, rfl, whole⟩ := arrives
  have read := datagram_read lease sized whole (memory .receivedPayload)
  rw [received_plain lease plain] at read
  exact ⟨buffer, _, same, read⟩

theorem told_when_waiting (alike : Alike peers) (asks : Asks request address)
    (place : placeOf (peers.settings asker) address = some (position, index))
    (posted : back peers asker owner request address ∈ s.posted)
    (waits : Waits peers asker request deadline position s) :
    ClientTold peers asker owner request address position index s := by
  intro env event arrives later memory
  have sized : msgLeaseAck ≠ msgRelease := by decide
  obtain ⟨buffer, len, rfl, read⟩ := arrived_read (.inr (.inl rfl)) sized rfl arrives memory
  have ofSwarm : foreign (peers.settings asker) (back peers asker owner request address).packet = false :=
    alike_ours alike rfl rfl rfl
  obtain ⟨after, reply, done, told, named, client, transaction, noted⟩ :=
    told_client (peers.address owner) waits asks (placed_claimed place waits.claimed) read ofSwarm rfl
      rfl rfl memory
  obtain ⟨t, step, same, -⟩ := handles_step later done fun _ => ⟨_, posted, arrives⟩
  exact ⟨t, reply, step, same ▸ told, named, client, transaction, same ▸ noted⟩

theorem holder_answers (alike : Alike peers) (asks : Asks request address)
    (place : placeOf (peers.settings asker) address = some (position, index))
    (posted : forth peers asker owner request address ∈ s.posted)
    (waits : Waits peers asker request deadline position s)
    (good : Good (peers.settings owner) (s.node owner).config) :
    HolderAnswers peers asker owner request address deadline position index s := by
  intro env event arrives later memory own
  have different : owner ≠ asker := by
    rintro rfl
    rw [placed_claimed place waits.claimed] at own
    exact absurd own Nat.one_ne_zero
  have sized : msgRenewLease ≠ msgRelease := by decide
  have ofSwarm : foreign (peers.settings owner) (forth peers asker owner request address).packet = false :=
    alike_ours alike rfl rfl rfl
  have named : rawAddress (peers.settings owner) (rawAddress (peers.settings asker) address) = address :=
    (raw_address_twice _ _ address).mpr (.inl (peers.littleEndian _ _))
  obtain ⟨buffer, len, rfl, read⟩ := arrived_read (.inl rfl) sized rfl arrives memory
  obtain ⟨after, lease, done, answered, before, renewed⟩ :=
    sent_back (peers.address asker) good read ofSwarm rfl named own memory
  obtain ⟨t, step, same, sends⟩ := handles_step later done fun _ => ⟨_, posted, arrives⟩
  have answers : back peers asker owner request address ∈ t.posted := by
    rw [sends]
    exact List.mem_append_right _ (mem_posts.mpr ⟨rfl, answered⟩)
  have still : Waits peers asker request deadline position t := by
    rw [Waits, (step_handles step).others asker (Ne.symm different)]
    exact waits
  refine ⟨t, lease, step, answers, before, same ▸ renewed, fun labels u path => ?_⟩
  exact told_when_waiting alike asks place (patient_posted path answers)
    (patient_waits (Holders.place_inside place).1 path still)

/-- A request for an address of a block of another node comes back, over whatever the nodes handle in
between: the node passes it on to the node it takes for the holder, a node that owns the block renews
the lease, and the client is acknowledged. -/
theorem requests_come_back {start : Net count} (alike : Alike peers) (began : Began peers start)
    (run : Path (Step peers) start labels s) (asks : Asks request address)
    (place : placeOf (peers.settings asker) address = some (position, index))
    (claimed : ((s.node asker).config.blocks position).state = .claimed)
    (holder : ((s.node asker).config.blocks position).ownerAddress = peers.address owner)
    (fresh : (s.node asker).config.dhcpPacketCache.find?
      (cacheMatches request.xid request.chaddr) = none)
    (later : (s.node asker).clock ≤ env.now) (memory : Allocates env) :
    ∃ t, Step peers s (asker, env, .client request) t ∧
      forth peers asker owner request address ∈ t.posted ∧
      ∀ labels u, Path (Patient peers asker request (env.now + 120) position) t labels u →
        HolderAnswers peers asker owner request address (env.now + 120) position index u := by
  have good := (run_traced began run).good
  obtain ⟨after, done, waits, passes⟩ :=
    passed_on (good asker) asks (placed_claimed place claimed) claimed fresh memory
  have noDirect : ¬ isDirect (.client request) := by
    rintro ⟨_, _, _, same⟩
    contradiction
  obtain ⟨t, step, same, sends⟩ := handles_step later done fun direct => absurd direct noDirect
  have posted : forth peers asker owner request address ∈ t.posted := by
    rw [sends]
    rw [holder] at passes
    exact List.mem_append_right _ (mem_posts.mpr ⟨rfl, passes⟩)
  refine ⟨t, step, posted, fun labels u path => ?_⟩
  have waiting : Waits peers asker request (env.now + 120) position t := by
    rw [Waits, same]
    exact waits
  have goodAfter (node : Fin count) : Good (peers.settings node) (t.node node).config :=
    (run_traced began (path_snoc run step)).good node
  exact holder_answers alike asks place (patient_posted path posted)
    (patient_waits (Holders.place_inside place).1 path waiting) (patient_good path goodAfter)

theorem step_clock {node : Fin count} (step : Step peers s (node, env, event) t) :
    (t.node node).clock = env.now := by
  have moves := (step_handles step).step
  generalize s.node node = before, t.node node = after at moves ⊢
  cases moves with
  | event => rfl

end Swarm

/-! The two nodes of the small swarm: the asker has heard that the block is claimed. -/

def heardRun : List (Fin 2 × Env × Event) :=
  ownedRun.map (fun label => (smallOwner, label)) ++ [(smallAsker, calmEnv 1003, smallClaim 1 60)]

def firstRequest : DhcpPacket := smallPacket 1 7 dhcpRequest

theorem first_request_asks : Asks firstRequest 0x0A000000 where
  type := by decide
  named := by decide
  whole option found := by
    have none : findOption firstRequest.options firstRequest.optionsLen codeRequestedAddress = none := by
      decide
    rw [none] at found
    contradiction

theorem small_alike : Alike smallPeers := fun _ _ => ⟨rfl, rfl, rfl⟩

theorem requests_come_back_small : ∃ s t u v : Net 2, ∃ reply,
    Path (Step smallPeers) smallSwarm heardRun s ∧
    Step smallPeers s (smallAsker, calmEnv 1004, .client firstRequest) t ∧
    Step smallPeers t (smallOwner, calmEnv 1005,
      .direct (Wire.htonPacket smallRenew) 44 (smallPeers.address smallAsker)) u ∧
    Step smallPeers u (smallAsker, calmEnv 1006, ackBack) v ∧
    .dhcp dhcpAck reply true ∈ sent (u.node smallAsker).config (v.node smallAsker).config ∧
    reply.yiaddr = 0x0A000000 := by
  have evaluated : (runSwarm smallPeers smallSwarm heardRun).any (fun s =>
      (s.node smallAsker).clock = 1003 ∧ (s.node smallOwner).clock ≤ 1005 ∧
      ((s.node smallAsker).config.blocks 0).state = .claimed ∧
      ((s.node smallAsker).config.blocks 0).ownerAddress = smallPeers.address smallOwner ∧
      (s.node smallAsker).config.dhcpPacketCache.length = 0 ∧
      (findLeaseFromAddress (smallNode 1) (s.node smallOwner).config 0x0A000000).status = 0) = true := by
    decide +kernel
  obtain ⟨s, run, facts⟩ := (Option.any_eq_true _ _).mp evaluated
  obtain ⟨clock, early, claimed, holder, empty, own⟩ := of_decide_eq_true facts
  have fresh : (s.node smallAsker).config.dhcpPacketCache.find?
      (cacheMatches firstRequest.xid firstRequest.chaddr) = none := by
    rw [List.eq_nil_of_length_eq_zero empty]
    rfl
  have placed : placeOf (smallPeers.settings smallAsker) 0x0A000000 = some (0, 0) := by decide +kernel
  have later : (s.node smallAsker).clock ≤ (calmEnv 1004).now := by
    rw [clock]
    decide
  obtain ⟨t, asked, -, onward⟩ := requests_come_back small_alike small_began (run_swarm_path run)
    first_request_asks placed claimed holder fresh later fun _ => rfl
  have different : smallOwner ≠ smallAsker := by decide
  have same : t.node smallOwner = s.node smallOwner := (step_handles asked).others _ different
  have arrives : ArrivesAs smallPeers smallOwner (forth smallPeers smallAsker smallOwner firstRequest 0x0A000000)
      (.direct (Wire.htonPacket smallRenew) 44 (smallPeers.address smallAsker)) :=
    ⟨_, _, rfl, rfl, by decide +kernel, by decide +kernel⟩
  obtain ⟨u, -, renewed, -, -, -, homeward⟩ := onward [] t (.refl t) (calmEnv 1005) _ arrives
    (same ▸ early) (fun _ => rfl) (same ▸ own)
  have returns : ArrivesAs smallPeers smallAsker (back smallPeers smallAsker smallOwner firstRequest 0x0A000000)
      ackBack := ⟨_, _, rfl, rfl, by decide +kernel, by decide +kernel⟩
  have waited : (u.node smallAsker).clock ≤ (calmEnv 1006).now := by
    rw [(step_handles renewed).others smallAsker (Ne.symm different), step_clock asked]
    decide
  obtain ⟨v, reply, answered, told, named, -⟩ :=
    homeward [] u (.refl u) (calmEnv 1006) ackBack returns waited fun _ => rfl
  exact ⟨s, t, u, v, reply, run_swarm_path run, asked, renewed, answered, told, named⟩

end Ddhcpd.RoundTrips

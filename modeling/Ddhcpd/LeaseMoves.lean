import Ddhcpd.Node
import Mathlib.Logic.Relation

/-!
The writes that the handlers of client packets, forwarded requests and control
commands are made of. Every such handler is a path of these moves, so what each move
keeps is kept by all of them.
-/

namespace Ddhcpd.LeaseMoves
open Types Leases Blocks Dhcp LeasePackets Packet Node Loop Relation

def putLease (block : Block) (index : Nat) (lease : Lease) : Block :=
  { block with addresses := block.addresses.map fun table => table.set index lease }

def isDirect (event : Event) : Prop := ∃ buffer len sender, event = .direct buffer len sender

def informs (event : Event) : Prop :=
  ∃ packet, event = .client packet ∧ messageType packet = dhcpInform

/-- An event that a client may get an offer or an acknowledgement for. -/
def repliesTo (event : Event) : Prop :=
  isDirect event ∨ ∃ packet, event = .client packet ∧ messageType packet ≠ dhcpRelease

/-- The event is this packet, sent to this node alone by a node of the swarm. -/
def Receives (cfg : Settings) (env : Env) (event : Event) (packet : McastPacket) : Prop :=
  ∃ buffer len sender, event = .direct buffer len sender ∧
    ntohMcastPacket env buffer len = some packet ∧ BlockPackets.foreign cfg packet = false

/-- The request is granted the lease: it was offered to it, or it names its address. -/
def Grants (cfg : Settings) (c : Config) (request : DhcpPacket) (position index : Nat)
    (lease : Lease) : Prop :=
  isOffered request lease = true ∨ mayAcknowledge request lease = true ∧
    ∃ address, requestedAddress request = some address ∧
      findLeaseFromAddress cfg c address = ⟨0, position, index⟩

/-- What one event may make of the lease `index` of block `position`. -/
inductive LeaseWrite (cfg : Settings) (env : Env) (event : Event) (c : Config)
    (position index : Nat) (lease : Lease) : Lease → Prop where
  | offered {discover : DhcpPacket} : event = .client discover →
      messageType discover = dhcpDiscover → (c.blocks position).state = .ours →
      lease.state = .free → LeaseWrite cfg env event c position index lease
        (leaseTo discover .offered (env.now + dhcpOfferTimeout) lease)
  | granted {request : DhcpPacket} : event = .client request →
      messageType request = dhcpRequest → (c.blocks position).state = .ours →
      Grants cfg c request position index lease → LeaseWrite cfg env event c position index lease
        (leaseTo request .leased (leaseEndFrom env c) lease)
  | forwarded {request : DhcpPacket} : event = .client request →
      messageType request = dhcpRequest → (c.blocks position).state = .claimed →
      LeaseWrite cfg env event c position index lease
        (leaseTo request .offered (leaseEndFrom env c) lease)
  | relayed {request : DhcpPacket} : isDirect event → (c.blocks position).state ≠ .ours →
      LeaseWrite cfg env event c position index lease
        (leaseTo request .leased (leaseEndFrom env c) lease)
  | renewed : isDirect event → (c.blocks position).state = .ours →
      LeaseWrite cfg env event c position index lease
        { lease with leaseEnd := leaseEndFrom env c }
  | released {packet : DhcpPacket} : event = .client packet →
      messageType packet = dhcpRelease →
      findLeaseFromAddress cfg c packet.ciaddr = ⟨0, position, index⟩ →
      packet.chaddr = lease.chaddr →
      LeaseWrite cfg env event c position index lease (Lease.released lease)

/-- The address of a reply is that of a lease registered to the client it goes to. -/
def Registered (cfg : Settings) (env : Env) (c : Config) (type : UInt8) (reply : DhcpPacket) :
    Prop :=
  ∃ position index lease, position < cfg.blocks ∧
    leaseAt (c.blocks position) index = some lease ∧
    reply.yiaddr = addrAdd (c.blocks position).subnet index ∧ lease.chaddr = reply.chaddr ∧
    ((type = dhcpOffer ∧ lease.state = .offered) ∨
      (type = dhcpAck ∧ lease.state = .leased ∧ lease.leaseEnd = leaseEndFrom env c))

/-- The address of a positive answer is that of a lease of ours, just prolonged. -/
def Renewed (cfg : Settings) (env : Env) (c : Config) (answer : McastPacket) : Prop :=
  ∃ position index lease,
    findLeaseFromAddress cfg c (rawAddress cfg answer.renewPayload.address) =
      ⟨0, position, index⟩ ∧
    leaseAt (c.blocks position) index = some lease ∧ lease.leaseEnd = leaseEndFrom env c

def Sends (cfg : Settings) (env : Env) (event : Event) (c : Config) : Output → Prop
  | .mcast _ _ => False
  | .direct packet _ => packet.command = msgRenewLease ∨ packet.command = msgLeaseNak ∨
      (packet.command = msgLeaseAck ∧ Renewed cfg env c packet ∧ ∃ request,
        Receives cfg env event request ∧ request.command = msgRenewLease ∧
        packet.renewPayload = request.renewPayload)
  | .dhcp type reply _ => type = dhcpNak ∨ informs event ∨
      (repliesTo event ∧ Registered cfg env c type reply)
  | .hook _ _ _ => True

inductive LeaseMove (cfg : Settings) (env : Env) (event : Event) : Config → Config → Prop where
  | write {c : Config} {position index : Nat} {lease changed : Lease} : position < cfg.blocks →
      leaseAt (c.blocks position) index = some lease →
      LeaseWrite cfg env event c position index lease changed →
      LeaseMove cfg env event c
        (c.setBlock position (putLease (c.blocks position) index changed))
  | allocate {c : Config} {position : Nat} : position < cfg.blocks →
      (c.blocks position).state = .claimed →
      LeaseMove cfg env event c
        (c.setBlock position (blockAlloc env position (c.blocks position)).1)
  | unmark {c : Config} {position : Nat} : position < cfg.blocks →
      (c.blocks position).state = .ours →
      LeaseMove cfg env event c
        (c.setBlock position { c.blocks position with needlessSince := 0 })
  | cache {c : Config} {entries : List CachedPacket} :
      (∀ entry ∈ entries, entry ∈ c.dhcpPacketCache ∨ ∃ request, event = .client request ∧
        entry = ⟨copyPacket request, env.now + 120, copySucceeds env request⟩) →
      LeaseMove cfg env event c { c with dhcpPacketCache := entries }
  | store {c : Config} {options : List DhcpOption} :
      (∃ buffer len, event = .control buffer len) →
      LeaseMove cfg env event c { c with options := options }
  | send {c : Config} {output : Output} : Sends cfg env event c output →
      LeaseMove cfg env event c (c.emit output)

def Moves (cfg : Settings) (env : Env) (event : Event) : Config → Config → Prop :=
  ReflTransGen (LeaseMove cfg env event)

section Tables
variable {cfg : Settings} {env : Env} {c : Config}

theorem update_lease_iff {block changed : Block} {index : Nat} {change : Lease → Lease} :
    updateLease block index change = some changed ↔
      ∃ lease, leaseAt block index = some lease ∧ changed = putLease block index (change lease) := by
  simp only [updateLease, Option.map_eq_some_iff, putLease]
  constructor
  · rintro ⟨lease, entry, rfl⟩
    exact ⟨lease, entry, rfl⟩
  · rintro ⟨lease, entry, rfl⟩
    exact ⟨lease, entry, rfl⟩

theorem lease_at_put {block : Block} {index : Nat} {lease changed : Lease}
    (entry : leaseAt block index = some lease) :
    leaseAt (putLease block index changed) index = some changed := by
  obtain ⟨table, here, inside⟩ := Option.bind_eq_some_iff.mp entry
  obtain ⟨bound, -⟩ := List.getElem?_eq_some_iff.mp inside
  simp [leaseAt, putLease, here, bound]

theorem lease_at_put_other {block : Block} {index other : Nat} (different : other ≠ index)
    (changed : Lease) : leaseAt (putLease block index changed) other = leaseAt block other := by
  cases here : block.addresses with
  | none => simp [leaseAt, putLease, here]
  | some table => simp [leaseAt, putLease, here, Ne.symm different]

/-! Searching. -/

theorem first_lease_some {test : Lease → Bool} {block : Block} {count start index : Nat}
    (found : firstLease test block count start = some (some index)) :
    ∃ lease, leaseAt block index = some lease ∧ test lease = true := by
  induction count generalizing start with
  | zero => simp [firstLease] at found
  | succ count ih =>
      obtain ⟨lease, entry, rest⟩ := Option.bind_eq_some_iff.mp found
      split at rest
      · rename_i passed
        simp only [Option.some.injEq] at rest
        exact ⟨lease, rest ▸ entry, passed⟩
      · exact ih rest

theorem find_free_leases_some {position : Nat}
    (found : blockFindFreeLeases cfg c = some (some position)) :
    position < cfg.blocks ∧ (c.blocks position).state = .ours ∧
      dhcpHasFree (c.blocks position) = some true := by
  let holds (_ : Nat) (selected : Option Nat) : Prop := ∀ k, selected = some k →
    k < cfg.blocks ∧ (c.blocks k).state = .ours ∧ dhcpHasFree (c.blocks k) = some true
  refine loopM_invariant holds _ cfg.blocks none (some position) (by simp [holds]) ?_ found
    position rfl
  intro index inside selected next known body
  split at body
  · rename_i own
    obtain ⟨hasFree, free, rfl⟩ := Option.map_eq_some_iff.mp body
    cases hasFree with
    | false => exact known
    | true =>
        have this : index < cfg.blocks ∧ (c.blocks index).state = .ours ∧
            dhcpHasFree (c.blocks index) = some true := ⟨inside, own, free⟩
        intro k chosen
        cases selected with
        | none =>
            obtain rfl : index = k := by simpa using chosen
            exact this
        | some old =>
            simp only [↓reduceIte] at chosen
            split at chosen
            · obtain rfl : index = k := by simpa using chosen
              exact this
            · exact known k chosen
  · obtain rfl : selected = next := by simpa using body
    exact known

theorem find_offered_some {request : DhcpPacket} {position index : Nat}
    (found : findOfferedLease cfg request c = some (some (position, index))) :
    position < cfg.blocks ∧ (c.blocks position).state = .ours ∧
      ∃ lease, leaseAt (c.blocks position) index = some lease ∧ isOffered request lease = true := by
  let holds (_ : Nat) (selected : Option (Nat × Nat)) : Prop := ∀ k i, selected = some (k, i) →
    k < cfg.blocks ∧ (c.blocks k).state = .ours ∧
      ∃ lease, leaseAt (c.blocks k) i = some lease ∧ isOffered request lease = true
  refine loopM_invariant holds _ cfg.blocks none (some (position, index)) (by simp [holds]) ?_
    found position index rfl
  intro k inside selected next known body
  cases selected with
  | some old =>
      obtain rfl : some old = next := by simpa using body
      exact known
  | none =>
      simp only at body
      split at body
      · rename_i own
        obtain ⟨first, search, rfl⟩ := Option.map_eq_some_iff.mp body
        intro k' i chosen
        obtain ⟨i', rfl, pair⟩ := Option.map_eq_some_iff.mp chosen
        simp only [Prod.mk.injEq] at pair
        obtain ⟨rfl, rfl⟩ := pair
        exact ⟨inside, own, first_lease_some search⟩
      · obtain rfl : none = next := by simpa using body
        exact known

/-- What a lookup finds: nothing, or an entry and whether its block is ours. -/
theorem find_lease_cases (cfg : Settings) (c : Config) (addr : InAddr) :
    findLeaseFromAddress cfg c addr = ⟨2, 0, 0⟩ ∨ ∃ position index, position < cfg.blocks ∧
      index < cfg.blockSize.toNat ∧ findLeaseFromAddress cfg c addr =
        ⟨if (c.blocks position).state = .ours then 0 else 1, position, index⟩ := by
  unfold findLeaseFromAddress
  simp only
  split
  · rename_i inside
    exact .inr ⟨_, _, inside, Nat.mod_lt _ cfg.size_pos, rfl⟩
  · exact .inl rfl

theorem find_lease_ours {addr : InAddr} (ours : (findLeaseFromAddress cfg c addr).status = 0) :
    (findLeaseFromAddress cfg c addr).block < cfg.blocks ∧
      (c.blocks (findLeaseFromAddress cfg c addr).block).state = .ours := by
  rcases find_lease_cases cfg c addr with outside | ⟨position, index, inside, -, found⟩
  · rw [outside] at ours
    contradiction
  · rw [found] at ours ⊢
    refine ⟨inside, ?_⟩
    by_contra foreign
    simp [foreign] at ours

theorem find_lease_foreign {addr : InAddr} (known : (findLeaseFromAddress cfg c addr).status = 1) :
    (findLeaseFromAddress cfg c addr).block < cfg.blocks ∧
      (c.blocks (findLeaseFromAddress cfg c addr).block).state ≠ .ours := by
  rcases find_lease_cases cfg c addr with outside | ⟨position, index, inside, -, found⟩
  · rw [outside] at known
    contradiction
  · rw [found] at known ⊢
    refine ⟨inside, fun own => ?_⟩
    simp only at own
    simp [own] at known

theorem find_lease_own {addr : InAddr} (known : (findLeaseFromAddress cfg c addr).status ≠ 2)
    (own : (c.blocks (findLeaseFromAddress cfg c addr).block).state = .ours) :
    (findLeaseFromAddress cfg c addr).status = 0 := by
  rcases find_lease_cases cfg c addr with outside | ⟨position, index, -, -, found⟩
  · rw [outside] at known
    contradiction
  · rw [found] at own ⊢
    exact if_pos own

theorem find_lease_other {addr : InAddr} (known : (findLeaseFromAddress cfg c addr).status ≠ 2)
    (other : (c.blocks (findLeaseFromAddress cfg c addr).block).state ≠ .ours) :
    findLeaseFromAddress cfg c addr = ⟨1, (findLeaseFromAddress cfg c addr).block,
      (findLeaseFromAddress cfg c addr).lease⟩ := by
  rcases find_lease_cases cfg c addr with outside | ⟨position, index, -, -, found⟩
  · rw [outside] at known
    contradiction
  · rw [found] at other ⊢
    simp only at other
    rw [if_neg other]

/-- The lookup depends on nothing but which blocks are ours. -/
theorem find_lease_congr {c' : Config} (addr : InAddr)
    (same : ∀ position, (c'.blocks position).state = (c.blocks position).state) :
    findLeaseFromAddress cfg c' addr = findLeaseFromAddress cfg c addr := by
  simp [findLeaseFromAddress, same]

theorem put_lease_state (position index other : Nat) (lease : Lease) :
    ((c.setBlock position (putLease (c.blocks position) index lease)).blocks other).state =
      (c.blocks other).state := by
  rw [set_block_apply]
  split
  · rename_i here
    rw [here]
    rfl
  · rfl

theorem find_lease_inside {addr : InAddr} (known : (findLeaseFromAddress cfg c addr).status ≠ 2) :
    (findLeaseFromAddress cfg c addr).block < cfg.blocks := by
  rcases find_lease_cases cfg c addr with outside | ⟨position, index, inside, -, found⟩
  · rw [outside] at known
    contradiction
  · rw [found]
    exact inside

theorem find_lease_index (addr : InAddr) :
    (findLeaseFromAddress cfg c addr).lease < cfg.blockSize.toNat := by
  rcases find_lease_cases cfg c addr with outside | ⟨position, index, -, below, found⟩
  · rw [outside]
    exact cfg.size_pos
  · rw [found]
    exact below

theorem nack_blocks (request : DhcpPacket) : (dhcpNack env request c).1.blocks = c.blocks := by
  unfold dhcpNack dhcpPacketSend
  split
  · rfl
  · simp only
    split <;> rfl

theorem block_alloc_state (position : Nat) (block : Block) :
    (blockAlloc env position block).1.state = block.state := by
  unfold blockAlloc
  split
  · rfl
  · split <;> rfl

end Tables

end Ddhcpd.LeaseMoves

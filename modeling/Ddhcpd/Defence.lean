import Ddhcpd.HouseKeeping

/-!
What an inquiry or a claim does to one block: an owner that is challenged defends its
block, any other node takes over what the packet says. Both handlers are followed entry
by entry, with the packets they send.
-/

namespace Ddhcpd.Defence
open Types Leases Blocks BlockPackets BlockMoves Packet Dhcp LeaseMoves Node Path Refresh Claim
open Invariant Calls HouseKeeping

/-- An owner defends its block against this packet. -/
def Challenges (cfg : Settings) (packet : McastPacket) : Prop :=
  packet.command = msgInquire ∨
    packet.command = msgUpdateClaim ∧ nodeIdCmp packet.nodeId cfg.nodeId < 0

/-- What was sent in between has no packet about the block that got through. -/
def Unheard (position : Nat) (c after : Config) : Prop :=
  ∃ outs, after.out = c.out ++ outs ∧
    ∀ packet, .mcast packet true ∈ outs → ¬ Names packet position

section Entries
variable {cfg : Settings} {env : Env} {packet : McastPacket} {sender : In6Addr} {c after : Config}
  {position : Nat}

theorem unheard_iff (more : ∃ outs, after.out = c.out ++ outs) :
    Unheard position c after ↔
      ∀ packet, .mcast packet true ∈ sent c after → ¬ Names packet position := by
  obtain ⟨outs, same⟩ := more
  have tail : sent c after = outs := by simp [sent, same]
  rw [tail]
  constructor
  · rintro ⟨others, also, quiet⟩
    obtain rfl : outs = others := List.append_cancel_left (same.symm.trans also)
    exact quiet
  · intro quiet
    exact ⟨outs, same, quiet⟩

theorem unheard_split {middle : Config} (front : ∃ outs, middle.out = c.out ++ outs)
    (back : ∃ outs, after.out = middle.out ++ outs) (unheard : Unheard position c after) :
    Unheard position c middle ∧ Unheard position middle after := by
  obtain ⟨first, one⟩ := front
  obtain ⟨second, two⟩ := back
  obtain ⟨all, whole, quiet⟩ := unheard
  obtain rfl : first ++ second = all := by
    rw [two, one, List.append_assoc] at whole
    exact List.append_cancel_left whole
  exact ⟨⟨first, one, fun packet member => quiet packet (List.mem_append_left _ member)⟩,
    second, two, fun packet member => quiet packet (List.mem_append_right _ member)⟩

theorem block_moves_extend (sound : Sound cfg c)
    (moves : BlockMoves.Moves cfg env packet sender c after) :
    ∃ outs, after.out = c.out ++ outs := by
  obtain ⟨outs, same, -⟩ := block_moves_emit sound moves
  exact ⟨outs, same⟩

/-! The packets of the update pass name the blocks they renew. -/

/-- The count of the packet is that of its entries. -/
theorem claim_entries {positions : List Nat} (size : positions.length ≤ updateClaimMaxBlocks) :
    entries (updateClaimPacket cfg (positions.map (claimEntry cfg c))) =
      positions.map (claimEntry cfg c) := by
  have fits : positions.length < 256 := by
    simp only [updateClaimMaxBlocks] at size
    omega
  apply List.take_of_length_le
  simp [updateClaimPacket, UInt8.toNat_ofNat', Nat.mod_eq_of_lt fits]

theorem announcement_names (indexed : Indexed cfg c) {group : Group}
    (ours : ∀ k ∈ group.positions, OursAt cfg c k)
    (size : group.positions.length ≤ updateClaimMaxBlocks) :
    ∃ packet, announcement cfg c group = .mcast packet group.sent ∧
      ∀ k, Names packet k ↔ k ∈ group.positions := by
  refine ⟨_, rfl, fun k => ?_⟩
  rw [Names, claim_entries size]
  exact entry_named indexed ours k

theorem update_claims_unheard (sound : Sound cfg c)
    (unheard : Unheard position c (blockUpdateClaims cfg env c)) :
    (blockUpdateClaims cfg env c).blocks position = c.blocks position := by
  have indexed := sound_indexed sound
  obtain ⟨groups, done, -⟩ := update_claims_updated cfg env c indexed
  obtain ⟨outs, same, quiet⟩ := unheard
  have out : outs = groups.map (announcement cfg c) := by
    rw [done.frame] at same
    exact (List.append_cancel_left same).symm
  apply done.kept
  rintro ⟨group, member, got, here⟩
  have ours : ∀ k ∈ group.positions, OursAt cfg c k := fun k inside =>
    done.ours k (List.mem_flatMap.mpr ⟨group, member, inside⟩)
  obtain ⟨told, form, names⟩ := announcement_names indexed ours (done.sizes group member)
  refine quiet told ?_ ((names position).mpr here)
  rw [out, ← got, ← form]
  exact List.mem_map_of_mem member

/-! One entry of a packet. -/

/-- The handler of the packet, for one of its entries. -/
def processEntry (cfg : Settings) (env : Env) (packet : McastPacket) (sender : In6Addr)
    (c : Config) (entry : BlockPayload) : Config :=
  if packet.command = msgUpdateClaim then processClaim cfg env packet sender c entry
  else processInquire cfg env packet c entry

theorem dispatch_entries (ofSwarm : foreign cfg packet = false)
    (kind : packet.command = msgUpdateClaim ∨ packet.command = msgInquire) :
    ddhcpBlockDispatch cfg env packet sender c =
      (entries packet).foldl (processEntry cfg env packet sender) c := by
  unfold ddhcpBlockDispatch processEntry
  rcases kind with claim | inquire
  · simp [ofSwarm, claim, ddhcpBlockProcessClaims, entries]
  · have other : msgInquire ≠ msgUpdateClaim := by decide
    simp [ofSwarm, inquire, other, ddhcpBlockProcessInquire, entries]

theorem process_entry_moves {entry : BlockPayload} (member : entry ∈ entries packet)
    (kind : packet.command = msgUpdateClaim ∨ packet.command = msgInquire) :
    BlockMoves.Moves cfg env packet sender c (processEntry cfg env packet sender c entry) := by
  unfold processEntry
  split
  · rename_i claim
    exact process_claim_moves claim member
  · rename_i other
    exact process_inquire_moves (kind.resolve_left other) member

/-- A block that is ours and challenged by the entry is defended. -/
theorem process_entry_challenge {entry : BlockPayload} (challenge : Challenges cfg packet)
    (own : OursAt cfg c entry.blockIndex.toNat) :
    processEntry cfg env packet sender c entry =
      BlockMoves.defend cfg env entry.blockIndex.toNat c := by
  have inside : ¬ cfg.blocks ≤ entry.blockIndex.toNat := Nat.not_le_of_lt own.1
  have other : msgInquire ≠ msgUpdateClaim := by decide
  rcases challenge with inquire | ⟨claim, less⟩
  · simp [processEntry, inquire, other, processInquire, inside, own.2, BlockMoves.defend]
  · simp [processEntry, claim, processClaim, inside, own.2, less, BlockMoves.defend]

theorem process_entry_cases (entry : BlockPayload) :
    processEntry cfg env packet sender c entry = c ∨
      (∃ block, processEntry cfg env packet sender c entry =
        c.setBlock entry.blockIndex.toNat block) ∨
      processEntry cfg env packet sender c entry =
        BlockMoves.defend cfg env entry.blockIndex.toNat c := by
  unfold processEntry processClaim processInquire
  simp only
  split
  · split
    · exact .inl rfl
    split
    · exact .inr (.inr rfl)
    · exact .inr (.inl ⟨_, rfl⟩)
  · split
    · exact .inl rfl
    split
    · exact .inr (.inr rfl)
    split
    · split
      · exact .inr (.inl ⟨_, rfl⟩)
      · exact .inl rfl
    · exact .inr (.inl ⟨_, rfl⟩)

/-- An entry about another block leaves this one alone but for the deadline of a block
of ours, which the update pass may renew. -/
theorem process_entry_other {entry : BlockPayload} (indexed : Indexed cfg c)
    (different : position ≠ entry.blockIndex.toNat) :
    (processEntry cfg env packet sender c entry).blocks position = c.blocks position ∨
      (c.blocks position).state = .ours ∧
        (processEntry cfg env packet sender c entry).blocks position =
          renewed cfg env (c.blocks position) := by
  rcases process_entry_cases entry with same | ⟨block, set⟩ | defended
  · exact .inl (by rw [same])
  · exact .inl (by rw [set, set_block_other _ _ _ _ different])
  · rw [defended, ← set_block_other c _ position _ different]
    exact update_claims_block (zeroed_indexed indexed entry.blockIndex.toNat) position

/-- If the block is not announced, its deadline is what the entry made of it. -/
theorem process_entry_unheard {entry : BlockPayload} (challenge : Challenges cfg packet)
    (sound : Sound cfg c) (own : OursAt cfg c position)
    (unheard : Unheard position c (processEntry cfg env packet sender c entry)) :
    (processEntry cfg env packet sender c entry).blocks position =
      if entry.blockIndex.toNat = position then { c.blocks position with timeout := 0 }
      else c.blocks position := by
  by_cases here : entry.blockIndex.toNat = position
  · subst here
    rw [process_entry_challenge challenge own] at unheard ⊢
    have kept := update_claims_unheard (zeroed_sound sound entry.blockIndex.toNat) unheard
    rw [BlockMoves.defend, kept]
    simp
  · have different : position ≠ entry.blockIndex.toNat := fun same => here same.symm
    rw [if_neg here]
    rcases process_entry_cases entry with same | ⟨block, set⟩ | defended
    · rw [same]
    · rw [set, set_block_other _ _ _ _ different]
    · rw [defended] at unheard ⊢
      have kept := update_claims_unheard (zeroed_sound sound entry.blockIndex.toNat) unheard
      rw [BlockMoves.defend, kept, set_block_other _ _ _ _ different]

/-- A challenged block of which no announcement gets through has a deadline of 0. -/
theorem challenged_fold {list : List BlockPayload} (challenge : Challenges cfg packet)
    (inside : ∀ entry ∈ list, entry ∈ entries packet) (sound : Sound cfg c)
    (own : OursAt cfg c position)
    (unheard : Unheard position c (list.foldl (processEntry cfg env packet sender) c)) :
    (list.foldl (processEntry cfg env packet sender) c).blocks position =
      if ∃ entry ∈ list, entry.blockIndex.toNat = position
      then { c.blocks position with timeout := 0 } else c.blocks position := by
  have kind : packet.command = msgUpdateClaim ∨ packet.command = msgInquire :=
    challenge.elim .inr fun claim => .inl claim.1
  induction list generalizing c with
  | nil => simp
  | cons entry rest ih =>
      have first : BlockMoves.Moves cfg env packet sender c
          (processEntry cfg env packet sender c entry) :=
        process_entry_moves (inside entry List.mem_cons_self) kind
      have middle := (block_moves_sound sound first).1
      have last : BlockMoves.Moves cfg env packet sender
          (processEntry cfg env packet sender c entry)
          (rest.foldl (processEntry cfg env packet sender)
            (processEntry cfg env packet sender c entry)) :=
        fold_moves _ _ fun other member _ =>
          process_entry_moves (inside other (List.mem_cons_of_mem _ member)) kind
      obtain ⟨front, back⟩ := unheard_split (block_moves_extend sound first)
        (block_moves_extend middle last) unheard
      have block := process_entry_unheard challenge sound own front
      have stays : OursAt cfg (processEntry cfg env packet sender c entry) position := by
        refine ⟨own.1, ?_⟩
        rw [block]
        split <;> exact own.2
      rw [List.foldl_cons, ih (fun other member => inside other (List.mem_cons_of_mem _ member))
        middle stays back, block]
      by_cases here : entry.blockIndex.toNat = position
      · simp [here]
      · simp [here]

end Entries

/-! A defence that is not heard. -/

/-- The block keeps its deadline, and house keeping within it keeps block and table. -/
def KeepsBlock (cfg : Settings) (position : Nat) (c : Config) (reached : NodeState) : Prop :=
  (reached.config.blocks position).timeout = (c.blocks position).timeout ∧
    ∀ env later, reached.clock ≤ env.now → env.now ≤ (c.blocks position).timeout →
      houseKeeping cfg env reached.config = some later →
      (later.blocks position).state = .ours ∧
        (later.blocks position).addresses = (c.blocks position).addresses

section Challenged
variable {cfg : Settings} {env : Env} {s : NodeState} {after : Config} {buffer : List UInt8}
  {len : Nat} {sender : In6Addr} {packet : McastPacket} {position : Nat}

/-- The state after a challenge of which no defence got through. -/
theorem unheard_challenge (sound : Sound cfg s.config) (own : OursAt cfg s.config position)
    (decoded : ntohMcastPacket env buffer len = some packet)
    (ofSwarm : foreign cfg packet = false) (challenge : Challenges cfg packet)
    (naming : Names packet position)
    (handled : handle cfg env (.mcast buffer len sender) s.config = some after)
    (unheard : ∀ told, .mcast told true ∈ sent s.config after → ¬ Names told position) :
    after.blocks position = { s.config.blocks position with timeout := 0 } := by
  have kind : packet.command = msgUpdateClaim ∨ packet.command = msgInquire :=
    challenge.elim .inr fun claim => .inl claim.1
  have result : after = (entries packet).foldl (processEntry cfg env packet sender) s.config := by
    simp only [handle, ddhcpBlockProcess, decoded, Option.some.injEq] at handled
    rw [← handled, dispatch_entries ofSwarm kind]
  have moves : BlockMoves.Moves cfg env packet sender s.config after := by
    rw [result]
    exact fold_moves _ _ fun entry member _ => process_entry_moves member kind
  have quiet := (unheard_iff (block_moves_extend sound moves)).mpr unheard
  rw [result] at quiet ⊢
  exact (challenged_fold challenge (fun _ => id) sound own quiet).trans (if_pos naming)

theorem failed_defence_keeps_iff (reached : Reachable cfg s)
    (own : OursAt cfg s.config position)
    (decoded : ntohMcastPacket env buffer len = some packet)
    (ofSwarm : foreign cfg packet = false) (challenge : Challenges cfg packet)
    (naming : Names packet position)
    (handled : handle cfg env (.mcast buffer len sender) s.config = some after)
    (unheard : ∀ told, .mcast told true ∈ sent s.config after → ¬ Names told position) :
    KeepsBlock cfg position s.config ⟨env.now, after⟩ ↔
      (s.config.blocks position).timeout = 0 := by
  have good := reachable_good reached
  have block := unheard_challenge good.sound own decoded ofSwarm challenge naming handled unheard
  constructor
  · rintro ⟨kept, -⟩
    rw [← kept, block]
  · intro zero
    have same : after.blocks position = s.config.blocks position := by
      rw [block, ← zero]
    refine ⟨by rw [same], fun env' later _ early done => ?_⟩
    -- the clock is still at 0, when nothing has expired and nothing is dropped
    have start : env'.now = 0 := Nat.le_zero.mp (zero ▸ early)
    obtain ⟨sound, quiet⟩ := received_good good.sound (by simp) handled
    have afterGood : Good cfg after := ⟨sound, quiet_listed quiet good.listed⟩
    have needed : ¬ Droppable cfg env'.now (after.blocks position) := by
      rintro ⟨marked, due⟩
      have positive := Nat.pos_of_ne_zero marked
      rw [start] at due
      omega
    obtain ⟨state, addresses⟩ := house_keeping_keeps afterGood ⟨own.1, same ▸ own.2⟩
      (same ▸ early) needed done
    refine ⟨state, ?_⟩
    have nothing (lease : Lease) : Lease.expired env'.now lease = lease := by
      simp [Lease.expired, start]
    rw [addresses, same, funext nothing]
    cases (s.config.blocks position).addresses <;> simp

end Challenged

/-- A world in which multicast sends fail. -/
def deafEnv (now : Time) : Env := { calmEnv now with mcastSent := fun _ => false }

def unsent : Output → Bool
  | .mcast _ true => false
  | _ => true

theorem small_inquire_decoded (env : Env) (memory : env.alloc .receivedPayload = true) :
    ∃ packet, ntohMcastPacket env (smallHeader 2 msgInquire 1 ++ [0, 0, 0, 0]) 20 = some packet ∧
      foreign (smallNode 1) packet = false ∧ packet.command = msgInquire ∧ Names packet 0 := by
  let packet := { newDdhcpPacket (smallNode 2) msgInquire with count := 1, payload := [⟨0, 0, 0⟩] }
  have form : ntohMcastPacket env (smallHeader 2 msgInquire 1 ++ [0, 0, 0, 0]) 20 =
      if env.alloc .receivedPayload then some packet else none := rfl
  exact ⟨packet, by rw [form, if_pos memory], rfl, rfl, ⟨0, 0, 0⟩, List.mem_singleton.mpr rfl, rfl⟩

theorem failed_defence_keeps_iff_small : ∃ (s : NodeState) (after : Config),
    handle (smallNode 1) (deafEnv 1010) (smallInquire 2) s.config = some after ∧
    ¬ KeepsBlock (smallNode 1) 0 s.config ⟨1010, after⟩ := by
  have evaluated : (runEvents (smallNode 1) smallStart ownedRun).any (fun s =>
      (handle (smallNode 1) (deafEnv 1010) (smallInquire 2) s.config).any fun after =>
        (s.config.blocks 0).state = .ours ∧ (s.config.blocks 0).timeout = 1063 ∧
        (sent s.config after).all unsent) = true := by decide +kernel
  obtain ⟨s, run, rest⟩ := (Option.any_eq_true _ _).mp evaluated
  obtain ⟨after, handled, facts⟩ := (Option.any_eq_true _ _).mp rest
  obtain ⟨own, timeout, silent⟩ := of_decide_eq_true facts
  have reached : Reachable (smallNode 1) s := ⟨_, small_runs (fun _ _ => trivial) run⟩
  obtain ⟨packet, decoded, ofSwarm, inquire, naming⟩ := small_inquire_decoded (deafEnv 1010) rfl
  have unheard : ∀ told, .mcast told true ∈ sent s.config after → ¬ Names told 0 :=
    fun told heard => absurd (List.all_eq_true.mp silent _ heard) (by simp [unsent])
  have exactly := failed_defence_keeps_iff reached ⟨by decide, own⟩ decoded ofSwarm
    (.inl inquire) naming handled unheard
  refine ⟨s, after, handled, fun keeps => ?_⟩
  exact absurd (timeout.symm.trans (exactly.mp keeps)) (by decide)

-- The block of this run is refreshed until 1063; an inquiry at 1010 that it cannot answer
-- costs it the block at 1011.
theorem failed_defence_loses_block : ∃ (s : NodeState) (after later : Config),
    Reachable (smallNode 1) s ∧ OursAt (smallNode 1) s.config 0 ∧
    (s.config.blocks 0).timeout = 1063 ∧
    handle (smallNode 1) (deafEnv 1010) (smallInquire 2) s.config = some after ∧
    (∀ told, .mcast told true ∉ sent s.config after) ∧
    houseKeeping (smallNode 1) (calmEnv 1011) after = some later ∧
    (later.blocks 0).state ≠ .ours := by
  have evaluated : (runEvents (smallNode 1) smallStart ownedRun).any (fun s =>
      (handle (smallNode 1) (deafEnv 1010) (smallInquire 2) s.config).any fun after =>
        (houseKeeping (smallNode 1) (calmEnv 1011) after).any fun later =>
          (s.config.blocks 0).state = .ours ∧ (s.config.blocks 0).timeout = 1063 ∧
          (sent s.config after).all unsent ∧
          (later.blocks 0).state ≠ .ours) = true := by decide +kernel
  obtain ⟨s, run, rest⟩ := (Option.any_eq_true _ _).mp evaluated
  obtain ⟨after, handled, rest⟩ := (Option.any_eq_true _ _).mp rest
  obtain ⟨later, kept, facts⟩ := (Option.any_eq_true _ _).mp rest
  obtain ⟨own, timeout, silent, lost⟩ := of_decide_eq_true facts
  refine ⟨s, after, later, ⟨_, small_runs (fun _ _ => trivial) run⟩, ⟨by decide, own⟩, timeout,
    handled, fun told member => ?_, kept, lost⟩
  exact absurd (List.all_eq_true.mp silent _ member) (by simp [unsent])

/-! A block of another node. -/

/-- The request is for an address of the block. -/
def AsksFor (cfg : Settings) (request : DhcpPacket) (position : Nat) : Prop :=
  messageType request = dhcpRequest ∧ ∃ address, requestedAddress request = some address ∧
    (address - cfg.prefixAddr).toNat / cfg.blockSize.toNat = position

/-- A request for an address of the block is answered without asking another node. -/
def ForwardsNothing (cfg : Settings) (position : Nat) (c : Config) : Prop :=
  ∀ env request after value, AsksFor cfg request position →
    dhcpProcess cfg env request c = some (after, value) →
    ∀ packet dest, .direct packet dest ∉ sent c after

/-- A request for an address of the block is passed on to `dest`, memory permitting. -/
def ForwardsTo (cfg : Settings) (position : Nat) (c : Config) (dest : In6Addr) : Prop :=
  ∀ (env : Env) (request : DhcpPacket), (∀ call, env.alloc call = true) →
    AsksFor cfg request position →
    ∃ after value packet, dhcpProcess cfg env request c = some (after, value) ∧
      packet.command = msgRenewLease ∧ .direct packet dest ∈ sent c after

section Foreign
variable {cfg : Settings} {env : Env} {c : Config} {packet : McastPacket} {sender : In6Addr}
  {position : Nat}

theorem process_entry_defer {entry : BlockPayload} (inquire : packet.command = msgInquire)
    (inside : entry.blockIndex.toNat < cfg.blocks)
    (other : (c.blocks entry.blockIndex.toNat).state ≠ .ours)
    (loses : (c.blocks entry.blockIndex.toNat).state = .claiming →
      0 < nodeIdCmp packet.nodeId cfg.nodeId) :
    processEntry cfg env packet sender c entry = c.setBlock entry.blockIndex.toNat
      (deferred cfg env (c.blocks entry.blockIndex.toNat)) := by
  have different : msgInquire ≠ msgUpdateClaim := by decide
  have below : ¬ cfg.blocks ≤ entry.blockIndex.toNat := Nat.not_le_of_lt inside
  unfold processEntry processInquire
  simp only [inquire, different, below, other, ↓reduceIte]
  split
  · rename_i claiming
    rw [if_pos (loses claiming)]
    rfl
  · rfl

theorem process_entry_concede {claim : BlockPayload} (kind : packet.command = msgUpdateClaim)
    (inside : claim.blockIndex.toNat < cfg.blocks)
    (weaker : ¬ ((c.blocks claim.blockIndex.toNat).state = .ours ∧
      nodeIdCmp packet.nodeId cfg.nodeId < 0)) :
    processEntry cfg env packet sender c claim = c.setBlock claim.blockIndex.toNat
      (conceded env packet sender claim (c.blocks claim.blockIndex.toNat)) := by
  have below : ¬ cfg.blocks ≤ claim.blockIndex.toNat := Nat.not_le_of_lt inside
  unfold processEntry processClaim
  simp only [kind, below, weaker, ↓reduceIte]
  rfl

theorem process_entry_foreign {entry : BlockPayload} (sound : Sound cfg c)
    (foreign : (c.blocks position).state ≠ .ours) (different : position ≠ entry.blockIndex.toNat) :
    (processEntry cfg env packet sender c entry).blocks position = c.blocks position :=
  (process_entry_other (sound_indexed sound) different).resolve_right fun own => foreign own.1

theorem process_entry_sound {entry : BlockPayload} (sound : Sound cfg c)
    (member : entry ∈ entries packet)
    (kind : packet.command = msgUpdateClaim ∨ packet.command = msgInquire) :
    Sound cfg (processEntry cfg env packet sender c entry) :=
  (block_moves_sound sound (process_entry_moves member kind)).1

theorem inquired_fold {list : List BlockPayload} (inquire : packet.command = msgInquire)
    (inside : ∀ entry ∈ list, entry ∈ entries packet) (sound : Sound cfg c)
    (below : position < cfg.blocks)
    (other : (c.blocks position).state ≠ .ours ∧ (c.blocks position).state ≠ .claiming) :
    (list.foldl (processEntry cfg env packet sender) c).blocks position =
      if ∃ entry ∈ list, entry.blockIndex.toNat = position
      then deferred cfg env (c.blocks position) else c.blocks position := by
  induction list generalizing c with
  | nil => simp
  | cons entry rest ih =>
      have middle : Sound cfg (processEntry cfg env packet sender c entry) :=
        process_entry_sound sound (inside entry List.mem_cons_self) (.inr inquire)
      have later := fun other member => inside other (List.mem_cons_of_mem _ member)
      by_cases here : entry.blockIndex.toNat = position
      · subst here
        have block : (processEntry cfg env packet sender c entry).blocks
            entry.blockIndex.toNat = deferred cfg env (c.blocks entry.blockIndex.toNat) := by
          rw [process_entry_defer inquire below other.1 fun claiming => absurd claiming other.2,
            set_block_same]
        rw [List.foldl_cons, ih later middle (by rw [block]; simp [deferred]), block]
        simp [deferred]
      · have block : (processEntry cfg env packet sender c entry).blocks position =
            c.blocks position := process_entry_foreign sound other.1 fun same => here same.symm
        rw [List.foldl_cons, ih later middle (by rw [block]; exact other), block]
        simp [here]

/-- The block as it is when the sender of the packet holds it. -/
def heldBy (packet : McastPacket) (sender : In6Addr) (timeout : Time) (block : Block) : Block :=
  { block with
    state := .claimed
    timeout := timeout
    ownerAddress := sender
    nodeId := packet.nodeId }

theorem claimed_fold {list : List BlockPayload} (kind : packet.command = msgUpdateClaim)
    (inside : ∀ entry ∈ list, entry ∈ entries packet) (sound : Sound cfg c)
    (below : position < cfg.blocks) (other : (c.blocks position).state ≠ .ours) :
    (∃ timeout, (list.foldl (processEntry cfg env packet sender) c).blocks position =
        heldBy packet sender timeout (c.blocks position)) ∨
      ((list.foldl (processEntry cfg env packet sender) c).blocks position =
          c.blocks position ∧ ∀ entry ∈ list, entry.blockIndex.toNat ≠ position) := by
  induction list generalizing c with
  | nil => simp
  | cons entry rest ih =>
      have middle : Sound cfg (processEntry cfg env packet sender c entry) :=
        process_entry_sound sound (inside entry List.mem_cons_self) (.inl kind)
      have later := fun other member => inside other (List.mem_cons_of_mem _ member)
      rw [List.foldl_cons]
      by_cases here : entry.blockIndex.toNat = position
      · subst here
        have block : (processEntry cfg env packet sender c entry).blocks
            entry.blockIndex.toNat = conceded env packet sender entry
              (c.blocks entry.blockIndex.toNat) := by
          rw [process_entry_concede kind below fun own => other own.1, set_block_same]
        left
        rcases ih later middle (by rw [block]; simp [conceded]) with ⟨timeout, held⟩ | ⟨kept, -⟩
        · exact ⟨timeout, by rw [held, block]; rfl⟩
        · exact ⟨_, by rw [kept, block]; rfl⟩
      · have block : (processEntry cfg env packet sender c entry).blocks position =
            c.blocks position := process_entry_foreign sound other fun same => here same.symm
        rcases ih later middle (by rw [block]; exact other) with ⟨timeout, held⟩ | ⟨kept, none⟩
        · exact .inl ⟨timeout, by rw [held, block]⟩
        · refine .inr ⟨by rw [kept, block], fun other member => ?_⟩
          rcases List.mem_cons.mp member with rfl | further
          · exact here
          · exact none other further

/-! Requests for an address of such a block. -/

theorem find_lease_block {address : InAddr} (below : position < cfg.blocks)
    (place : (address - cfg.prefixAddr).toNat / cfg.blockSize.toNat = position) :
    findLeaseFromAddress cfg c address =
      ⟨if (c.blocks position).state = .ours then 0 else 1, position,
        (address - cfg.prefixAddr).toNat % cfg.blockSize.toNat⟩ := by
  simp [findLeaseFromAddress, place, below]

theorem request_not_forwarded (below : position < cfg.blocks)
    (tentative : (c.blocks position).state = .tentative) : ForwardsNothing cfg position c := by
  rintro env request after value ⟨kind, address, requested, place⟩ done packet dest
  have other : dhcpRequest ≠ dhcpDiscover := by decide
  have nacked : .direct packet dest ∉ sent c (dhcpNack env request c).1 := by
    unfold dhcpNack dhcpPacketSend
    split
    · simp [sent]
    · simp only
      split <;> simp [sent]
  simp only [dhcpProcess, kind, other, ↓reduceIte] at done
  obtain ⟨result, handled, same⟩ := Option.map_eq_some_iff.mp done
  cases same
  simp [dhcpHdlRequest, requested, find_lease_block below place, tentative] at handled
  split at handled
  · cases handled
    exact nacked
  · cases handled
    simp [sent]

theorem request_forwarded (sound : Sound cfg c) (below : position < cfg.blocks)
    (claimed : (c.blocks position).state = .claimed) :
    ForwardsTo cfg position c (c.blocks position).ownerAddress := by
  rintro env request memory ⟨kind, address, requested, place⟩
  have other : dhcpRequest ≠ dhcpDiscover := by decide
  obtain ⟨-, -, owner⟩ : (blockAlloc env position (c.blocks position)).2 = 0 ∧
      (blockAlloc env position (c.blocks position)).1.addresses.isSome = true ∧
      (blockAlloc env position (c.blocks position)).1.ownerAddress =
        (c.blocks position).ownerAddress := block_alloc_there (memory _)
  obtain ⟨allocated, lease, entry⟩ := Handlers.opened_entry sound claimed
    (Nat.mod_lt (address - cfg.prefixAddr).toNat cfg.size_pos) (.inr (memory _))
  have forwarded : dhcpHdlRequest cfg env request c = forwardRequest cfg env request address
      position ((address - cfg.prefixAddr).toNat % cfg.blockSize.toNat) c := by
    simp [dhcpHdlRequest, requested, find_lease_block below place, claimed]
  have listed (c : Config) : (dhcpPacketListAdd env request c).out = c.out := by
    unfold dhcpPacketListAdd
    split <;> rfl
  let packet := Handlers.renewPacket cfg request address
  obtain ⟨after, result, out⟩ : ∃ after,
      forwardRequest cfg env request address position
        ((address - cfg.prefixAddr).toNat % cfg.blockSize.toNat) c = some (after, 2) ∧
      after.out = c.out ++ [.direct packet (c.blocks position).ownerAddress] := by
    rw [Handlers.forward_noted request address allocated entry, if_pos (memory _)]
    exact ⟨_, rfl, by simp [sendPacketDirect, memory, listed, owner, packet, Handlers.noteIn,
      Handlers.opened]⟩
  refine ⟨after, 0, packet, ?_, rfl, ?_⟩
  · simp [dhcpProcess, kind, other, forwarded, result]
  · simp [sent, out]

end Foreign

/-! An inquiry for a block that is claimed. -/

/-- What an inquiry makes of a block another node holds, and what brings the claim back. -/
structure Deferred (cfg : Settings) (env : Env) (position : Nat) (c after : Config) : Prop where
  block : after.blocks position = deferred cfg env (c.blocks position)
  unasked : ForwardsNothing cfg position after
  reclaimed : ∀ env buffer len sender claim later,
    ntohMcastPacket env buffer len = some claim → foreign cfg claim = false →
    claim.command = msgUpdateClaim → claim.nodeId = (c.blocks position).nodeId →
    Names claim position → handle cfg env (.mcast buffer len sender) after = some later →
    (∃ timeout, later.blocks position = heldBy claim sender timeout (c.blocks position)) ∧
      ForwardsTo cfg position later sender

theorem claimed_small : ∃ s : NodeState, Reachable (smallNode 1) s ∧
    (s.config.blocks 0).state = .claimed ∧ (s.config.blocks 0).nodeId = smallId 3 ∧
    (s.config.blocks 0).timeout = 1256 := by
  have evaluated : (runEvents (smallNode 1) smallStart [(calmEnv 1001, smallClaim 3 255)]).any
      (fun s => (s.config.blocks 0).state = .claimed ∧ (s.config.blocks 0).nodeId = smallId 3 ∧
        (s.config.blocks 0).timeout = 1256) = true := by decide +kernel
  obtain ⟨s, run, facts⟩ := (Option.any_eq_true _ _).mp evaluated
  exact ⟨s, ⟨_, small_runs (fun _ _ => trivial) run⟩, of_decide_eq_true facts⟩

end Ddhcpd.Defence

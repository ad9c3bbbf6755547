import Ddhcpd.DirectSends
import Ddhcpd.Hearing

/-!
Where the record of a foreign block comes from. A block is DDHCP_CLAIMED because of a claim that
was heard, and its record is what the last claim about it told: no packet of the swarm that came
later was about the block. A forwarded request goes to the sender of that claim.
-/

namespace Ddhcpd.LastClaim
open Types Leases Blocks BlockPackets BlockMoves Packet Dhcp LeasePackets Node Path Refresh Claim
open Invariant Calls Defence Hearing DirectSends

variable {cfg : Settings} {env : Env} {event : Event} {c after : Config} {packet : McastPacket}
  {sender : In6Addr} {position : Nat}

/-- The node takes in a packet of its swarm that is about blocks. -/
def Hears (cfg : Settings) (label : Env × Event) (packet : McastPacket) (sender : In6Addr) : Prop :=
  ∃ buffer len, label.2 = .mcast buffer len sender ∧
    ntohMcastPacket label.1 buffer len = some packet ∧ foreign cfg packet = false ∧
    (packet.command = msgUpdateClaim ∨ packet.command = msgInquire)

def Mentions (cfg : Settings) (position : Nat) (label : Env × Event) : Prop :=
  ∃ packet sender, Hears cfg label packet sender ∧ Names packet position

/-- What is known of the holder of a foreign block. -/
def recordOf (block : Block) : NodeId × In6Addr × Time :=
  (block.nodeId, block.ownerAddress, block.timeout)

def claimedRecord (now : Time) (packet : McastPacket) (sender : In6Addr) (claim : BlockPayload) :
    NodeId × In6Addr × Time :=
  (packet.nodeId, sender, now + claim.timeout.toNat)

/-- The event is a claim about the block, and the block has it on record. -/
def Recorded (cfg : Settings) (position : Nat) (label : Env × Event) (block : Block) : Prop :=
  ∃ packet sender, Hears cfg label packet sender ∧ packet.command = msgUpdateClaim ∧
    ∃ claim ∈ entries packet, claim.blockIndex.toNat = position ∧
      recordOf block = claimedRecord label.1.now packet sender claim

/-- The block was claimed before, and its record is the same. -/
def Unchanged (block after : Block) : Prop :=
  block.state = .claimed ∧ recordOf after = recordOf block

/-! One entry of a packet. -/

theorem inquired_cell_unclaimed (now : Time) (cell : Arbitration.Cell) :
    inquiredCell cfg now packet cell ≠ .foreign := by
  cases cell with
  | trying deadline => by_cases greater : 0 < nodeIdCmp packet.nodeId cfg.nodeId <;>
      simp [inquiredCell, greater]
  | _ => simp [inquiredCell]

/-- A block that is claimed after an entry that names it was conceded to the sender. -/
theorem entry_claimed {entry : BlockPayload} (indexed : Indexed cfg c)
    (kind : packet.command = msgUpdateClaim ∨ packet.command = msgInquire)
    (inside : entry.blockIndex.toNat < cfg.blocks)
    (claimed : ((processEntry cfg env packet sender c entry).blocks entry.blockIndex.toNat).state =
      .claimed) :
    packet.command = msgUpdateClaim ∧
      recordOf ((processEntry cfg env packet sender c entry).blocks entry.blockIndex.toNat) =
        claimedRecord env.now packet sender entry := by
  have cell : cellOf ((processEntry cfg env packet sender c entry).blocks entry.blockIndex.toNat) =
      heardCell cfg env.now packet (cellOf (c.blocks entry.blockIndex.toNat)) :=
    process_entry_cell indexed kind inside
  rw [(cell_foreign_iff _).mpr claimed] at cell
  rcases kind with claim | inquire
  · have noInquiry : packet.command ≠ msgInquire := by
      rw [claim]
      decide
    rw [heardCell, if_neg noInquiry] at cell
    split at cell
    · contradiction
    · rename_i weaker
      rw [cell_held_iff] at weaker
      rw [process_entry_concede claim inside weaker, set_block_same]
      exact ⟨claim, rfl⟩
  · rw [heardCell, if_pos inquire] at cell
    exact absurd cell.symm (inquired_cell_unclaimed _ _)

/-- Of the entries of a packet the last one that names the block is the one that counts. -/
theorem entries_claimed {list : List BlockPayload} (indexed : Indexed cfg c)
    (kind : packet.command = msgUpdateClaim ∨ packet.command = msgInquire)
    (members : ∀ entry ∈ list, entry ∈ entries packet) (inside : position < cfg.blocks)
    (claimed : ((list.foldl (processEntry cfg env packet sender) c).blocks position).state = .claimed) :
    (packet.command = msgUpdateClaim ∧ ∃ claim ∈ list, claim.blockIndex.toNat = position ∧
        recordOf ((list.foldl (processEntry cfg env packet sender) c).blocks position) =
          claimedRecord env.now packet sender claim) ∨
      (∀ entry ∈ list, entry.blockIndex.toNat ≠ position) ∧
        (list.foldl (processEntry cfg env packet sender) c).blocks position = c.blocks position := by
  induction list generalizing c with
  | nil => exact .inr ⟨by simp, rfl⟩
  | cons entry rest ih =>
      have middle : Indexed cfg (processEntry cfg env packet sender c entry) :=
        process_entry_indexed indexed kind (members entry List.mem_cons_self)
      rw [List.foldl_cons] at claimed ⊢
      rcases ih middle (fun other member => members other (List.mem_cons_of_mem _ member)) claimed with
        ⟨claim, told, member, names, record⟩ | ⟨others, same⟩
      · exact .inl ⟨claim, told, List.mem_cons_of_mem _ member, names, record⟩
      rw [same] at claimed ⊢
      by_cases here : entry.blockIndex.toNat = position
      · subst here
        obtain ⟨claim, record⟩ := entry_claimed indexed kind inside claimed
        exact .inl ⟨claim, entry, List.mem_cons_self, rfl, record⟩
      · have other : (processEntry cfg env packet sender c entry).blocks position =
            c.blocks position ∨ _ := process_entry_other indexed fun same => here same.symm
        rcases other with kept | ⟨own, changed⟩
        · refine .inr ⟨fun other member => ?_, kept⟩
          rcases List.mem_cons.mp member with rfl | further
          · exact here
          · exact others other further
        · rw [changed] at claimed
          exact absurd (own.symm.trans claimed) (by decide)

/-! One event. -/

theorem unchanged_trans {block middle after : Block} (first : Unchanged block middle)
    (second : Unchanged middle after) : Unchanged block after :=
  ⟨first.1, second.2.trans first.2⟩

theorem checked_claimed {block : Block} {now : Time} (usable : block.state ≠ .blocked)
    (claimed : (checked now block).state = .claimed) :
    Unchanged block (checked now block) ∧ now ≤ block.timeout := by
  have kept : block.state = .claimed :=
    ((checked_quiet now block usable).1.resolve_right fun free => by simp [free] at claimed).symm.trans
      claimed
  have live : ¬ (block.timeout < now ∧ block.state ≠ .free) := by
    intro late
    rw [checked, if_pos late, block_free_freed usable] at claimed
    contradiction
  refine ⟨⟨kept, ?_⟩, Nat.le_of_not_lt fun late => live ⟨late, by simp [kept]⟩⟩
  rw [checked, if_neg live] at claimed ⊢
  cases here : block.addresses with
  | none => rfl
  | some table =>
      rw [here] at claimed
      simp only at claimed ⊢
      split
      · rename_i expired
        rw [if_pos expired, block_free_freed (by exact usable)] at claimed
        contradiction
      · rfl

theorem promote_claimed {block : Block} (claimed : (promote cfg env position block).state = .claimed) :
    Unchanged block (promote cfg env position block) := by
  unfold promote blockOwn blockAlloc at claimed ⊢
  by_cases there : block.addresses.isSome = true
  · simp [there] at claimed
  · by_cases memory : env.alloc (.leaseTable position) = true
    · simp [there, memory] at claimed
    · simp only [there, memory, Bool.false_eq_true, ↓reduceIte, ne_eq, Nat.one_ne_zero,
        not_false_eq_true, gt_iff_lt, Nat.lt_add_one] at claimed ⊢
      exact ⟨claimed, rfl⟩

/-- `block_claim` claims no block for another node. -/
theorem claim_claimed {started : List Nat} {inquiry : Option Bool}
    (done : Claimed cfg env c started inquiry after)
    (claimed : (after.blocks position).state = .claimed) :
    Unchanged (c.blocks position) (after.blocks position) := by
  have block := done.blocks position
  simp only at block
  have uncounted : (after.blocks position).state = (if position ∈ started
      then opened cfg env (sifted cfg env c position) else sifted cfg env c position).state ∧
      recordOf (after.blocks position) = recordOf (if position ∈ started
        then opened cfg env (sifted cfg env c position) else sifted cfg env c position) := by
    rw [block]
    split <;> exact ⟨rfl, rfl⟩
  rw [claimed] at uncounted
  by_cases new : position ∈ started
  · rw [if_pos new] at uncounted
    exact absurd uncounted.1 (by simp [opened])
  · rw [if_neg new] at uncounted
    unfold sifted at uncounted
    split at uncounted
    · have promoted := promote_claimed uncounted.1.symm
      exact ⟨promoted.1, uncounted.2.trans promoted.2⟩
    · exact ⟨uncounted.1.symm, uncounted.2⟩

theorem adjust_claimed (good : Good cfg c) (done : adjustBlocks cfg env c = some after)
    (claimed : (after.blocks position).state = .claimed) :
    Unchanged (c.blocks position) (after.blocks position) := by
  rcases adjust_block done position with ⟨since, same⟩ | ⟨-, -, freed⟩ | ⟨spareLeases, -, -, rfl⟩
  · rw [same] at claimed ⊢
    exact ⟨claimed, rfl⟩
  · rw [freed, block_free_freed (good.sound position).usable] at claimed
    contradiction
  · obtain ⟨started, inquiry, done⟩ : ∃ started inquiry, Claimed cfg env (unmarked cfg c) started
        inquiry (blockClaim cfg env (blocksNeeded cfg spareLeases) (unmarked cfg c)) :=
      Calls.claim_claimed (unmarked_good good) spareLeases
    have kept := claim_claimed done claimed
    obtain ⟨since, same⟩ := unmarked_block cfg c position
    rw [same] at kept
    exact kept

/-- House keeping takes no claim in; what it leaves claimed was claimed before. -/
theorem house_keeping_claimed (good : Good cfg c) (done : houseKeeping cfg env c = some after)
    (inside : position < cfg.blocks) (claimed : (after.blocks position).state = .claimed) :
    Unchanged (c.blocks position) (after.blocks position) ∧
      env.now ≤ (after.blocks position).timeout := by
  obtain ⟨middle, adjusted, check, checkedGood, adjust, adjustedGood, rfl⟩ :=
    house_keeping_splits good done
  have updated : (blockUpdateClaims cfg env adjusted).blocks position = adjusted.blocks position ∨
      (adjusted.blocks position).state = .ours ∧ _ :=
    update_claims_block (sound_indexed adjustedGood.sound) position
  have kept : (blockUpdateClaims cfg env adjusted).blocks position = adjusted.blocks position := by
    refine updated.resolve_right fun ⟨own, renewal⟩ => ?_
    have state : ((blockUpdateClaims cfg env adjusted).blocks position).state = .ours :=
      (congrArg Block.state renewal).trans own
    exact absurd (state.symm.trans claimed) (by decide)
  simp only [kept] at claimed ⊢
  have second := adjust_claimed checkedGood adjust claimed
  rw [check_timeouts_checked good.sound] at check
  cases check
  have first := second.1
  simp only [inside, ↓reduceIte] at first second
  obtain ⟨unchanged, live⟩ := checked_claimed (good.sound position).usable first
  have both := unchanged_trans unchanged second
  have timeout := congrArg (fun record => record.2.2) both.2
  exact ⟨both, (live.trans_eq timeout.symm)⟩

theorem frame_claimed (frame : LeaseFrame c after)
    (claimed : (after.blocks position).state = .claimed) :
    Unchanged (c.blocks position) (after.blocks position) := by
  have same := frame.claims position
  refine ⟨(lease_frame_state frame position).symm.trans claimed, ?_⟩
  have record : recordOf (claimOf (after.blocks position)) = recordOf (claimOf (c.blocks position)) :=
    congrArg recordOf same
  exact record

theorem hears_datagram {buffer : List UInt8} {len : Nat} {source : In6Addr} :
    Hears cfg (env, .mcast buffer len source) packet sender ↔ sender = source ∧
      ntohMcastPacket env buffer len = some packet ∧ foreign cfg packet = false ∧
      (packet.command = msgUpdateClaim ∨ packet.command = msgInquire) := by
  constructor
  · rintro ⟨buffer, len, same, decoded, heard⟩
    cases same
    exact ⟨rfl, decoded, heard⟩
  · rintro ⟨rfl, decoded, heard⟩
    exact ⟨buffer, len, rfl, decoded, heard⟩

/-- A datagram is heard, entry by entry, or nothing comes of it. -/
theorem datagram_cases (cfg : Settings) (env : Env) (buffer : List UInt8) (len : Nat)
    (sender : In6Addr) (c : Config) :
    (∃ packet, Hears cfg (env, .mcast buffer len sender) packet sender ∧
      ddhcpBlockProcess cfg env buffer len sender c =
        (entries packet).foldl (processEntry cfg env packet sender) c) ∨
      (∀ packet source, ¬ Hears cfg (env, .mcast buffer len sender) packet source) ∧
        ddhcpBlockProcess cfg env buffer len sender c = c := by
  by_cases heard : ∃ packet, Hears cfg (env, .mcast buffer len sender) packet sender
  · obtain ⟨packet, hears⟩ := heard
    obtain ⟨-, decoded, ofSwarm, kind⟩ := hears_datagram.mp hears
    refine .inl ⟨packet, hears, ?_⟩
    rw [ddhcpBlockProcess, decoded]
    exact dispatch_entries ofSwarm kind
  · refine .inr ⟨fun packet source told => ?_, ?_⟩
    · obtain ⟨rfl, -⟩ := hears_datagram.mp told
      exact heard ⟨packet, told⟩
    unfold ddhcpBlockProcess
    split
    · rename_i packet decoded
      unfold ddhcpBlockDispatch
      split
      · rfl
      rename_i ofSwarm
      have other (kind : packet.command = msgUpdateClaim ∨ packet.command = msgInquire) : False :=
        heard ⟨packet, hears_datagram.mpr ⟨rfl, decoded, by simpa using ofSwarm, kind⟩⟩
      rw [if_neg fun claim => other (.inl claim), if_neg fun inquire => other (.inr inquire)]
    · rfl

theorem hears_unique {buffer : List UInt8} {len : Nat} {other : McastPacket} {source : In6Addr}
    (hears : Hears cfg (env, .mcast buffer len sender) packet sender)
    (told : Hears cfg (env, .mcast buffer len sender) other source) : packet = other := by
  obtain ⟨-, decoded, -⟩ := hears_datagram.mp hears
  obtain ⟨-, again, -⟩ := hears_datagram.mp told
  exact Option.some.inj (decoded.symm.trans again)

theorem datagram_claimed {buffer : List UInt8} {len : Nat} (good : Good cfg c)
    (inside : position < cfg.blocks)
    (claimed : ((ddhcpBlockProcess cfg env buffer len sender c).blocks position).state = .claimed) :
    Recorded cfg position (env, .mcast buffer len sender)
        ((ddhcpBlockProcess cfg env buffer len sender c).blocks position) ∨
      ¬ Mentions cfg position (env, .mcast buffer len sender) ∧ Unchanged (c.blocks position)
        ((ddhcpBlockProcess cfg env buffer len sender c).blocks position) := by
  rcases datagram_cases cfg env buffer len sender c with ⟨packet, hears, handled⟩ | ⟨unheard, ignored⟩
  · obtain ⟨-, -, -, kind⟩ := hears_datagram.mp hears
    rw [handled] at claimed ⊢
    rcases entries_claimed (sound_indexed good.sound) kind (fun _ member => member) inside claimed with
      ⟨claim, entry, member, names, record⟩ | ⟨others, same⟩
    · exact .inl ⟨packet, sender, hears, claim, entry, member, names, record⟩
    · rw [same] at claimed ⊢
      refine .inr ⟨?_, claimed, rfl⟩
      rintro ⟨other, source, told, entry, member, names⟩
      obtain rfl := hears_unique hears told
      exact others entry member names
  · rw [ignored] at claimed ⊢
    refine .inr ⟨?_, claimed, rfl⟩
    rintro ⟨packet, source, told, -⟩
    exact unheard packet source told

/-- The event does not touch the claim: no packet about the block, no house keeping too late. -/
def Spares (cfg : Settings) (position : Nat) (block : Block) (label : Env × Event) : Prop :=
  ¬ Mentions cfg position label ∧ (label.2 = .houseKeeping → label.1.now ≤ block.timeout)

/-- A block that is claimed after an event was claimed in it, or before with the same record. -/
theorem event_claimed (good : Good cfg c) (done : handle cfg env event c = some after)
    (inside : position < cfg.blocks) (claimed : (after.blocks position).state = .claimed) :
    Recorded cfg position (env, event) (after.blocks position) ∨
      Spares cfg position (after.blocks position) (env, event) ∧
        Unchanged (c.blocks position) (after.blocks position) := by
  have unheard (other : ∀ buffer len sender, event ≠ .mcast buffer len sender) :
      ¬ Mentions cfg position (env, event) := by
    rintro ⟨packet, sender, ⟨buffer, len, same, -⟩, -⟩
    exact other buffer len sender same
  by_cases house : event = .houseKeeping
  · subst house
    obtain ⟨unchanged, live⟩ := house_keeping_claimed good done inside claimed
    exact .inr ⟨⟨unheard (by simp), fun _ => live⟩, unchanged⟩
  cases event with
  | houseKeeping => contradiction
  | mcast buffer len sender =>
      cases done
      refine (datagram_claimed good inside claimed).imp_right fun ⟨unheard, unchanged⟩ => ?_
      exact ⟨⟨unheard, by simp⟩, unchanged⟩
  | direct buffer len sender =>
      have frame := lease_moves_frame (HandlerMoves.direct_moves done)
      exact .inr ⟨⟨unheard (by simp), by simp⟩, frame_claimed frame claimed⟩
  | client packet =>
      obtain ⟨⟨final, value⟩, handled, rfl⟩ := Option.map_eq_some_iff.mp done
      have frame := lease_moves_frame (HandlerMoves.client_moves handled)
      exact .inr ⟨⟨unheard (by simp), by simp⟩, frame_claimed frame claimed⟩
  | control buffer len =>
      cases done
      have moves : LeaseMoves.Moves cfg env (.control buffer len) c (handleCommand env buffer len c).1 :=
        HandlerMoves.control_moves buffer len
      have frame := lease_moves_frame moves
      exact .inr ⟨⟨unheard (by simp), by simp⟩, frame_claimed frame claimed⟩

/-! Runs. -/

/-- Among the events is a claim that the block has on record, and the events after it spare it. -/
def LastRecorded (cfg : Settings) (position : Nat) (labels : List (Env × Event)) (block : Block) :
    Prop :=
  ∃ front label back, labels = front ++ label :: back ∧ Recorded cfg position label block ∧
    ∀ other ∈ back, Spares cfg position block other

theorem last_recorded_kept {labels : List (Env × Event)} {label : Env × Event} {block later : Block}
    (known : LastRecorded cfg position labels block) (spared : Spares cfg position later label)
    (same : recordOf later = recordOf block) :
    LastRecorded cfg position (labels ++ [label]) later := by
  obtain ⟨front, told, back, rfl, ⟨packet, sender, hears, kind, claim, member, names, record⟩,
    others⟩ := known
  refine ⟨front, told, back ++ [label], by simp, ?_, fun other inside => ?_⟩
  · exact ⟨packet, sender, hears, kind, claim, member, names, same.trans record⟩
  · rcases List.mem_append.mp inside with before | last
    · have timeout : later.timeout = block.timeout := congrArg (fun record => record.2.2) same
      exact ⟨(others other before).1, timeout ▸ (others other before).2⟩
    · exact List.mem_singleton.mp last ▸ spared

theorem path_last_recorded {now : Time} {options : List DhcpOption} {labels : List (Env × Event)}
    {s : NodeState} (path : Path (Step cfg) ⟨now, startConfig cfg now options⟩ labels s)
    (inside : position < cfg.blocks) (claimed : (s.config.blocks position).state = .claimed) :
    LastRecorded cfg position labels (s.config.blocks position) := by
  have holding := path_holding (fun s => Good cfg s.config)
    (fun _ _ _ good move => step_good good move) path (start_good cfg now options)
  refine path_induction (fun labels s => (s.config.blocks position).state = .claimed →
    LastRecorded cfg position labels (s.config.blocks position)) ?_ ?_ holding claimed
  · intro fresh
    simp [startConfig, freshBlock] at fresh
  · rintro labels s label t - known ⟨good, step⟩ claimed
    cases step with
    | event env event later done =>
        rcases event_claimed good done inside claimed with recorded | ⟨spared, before, same⟩
        · exact ⟨labels, _, [], rfl, recorded, by simp⟩
        · exact last_recorded_kept (known before) spared same

theorem runs_path {labels : List (Env × Event)} {s : NodeState}
    (run : Runs cfg (fun _ => True) labels s) : ∃ now options,
      Path (Step cfg) ⟨now, startConfig cfg now options⟩ labels s := by
  obtain ⟨now, options, path⟩ := run
  exact ⟨now, options, path_mono (fun _ _ _ move => move.1) path⟩

/-- A block is claimed as long as a claim lasts: what it has on record is what the last packet of the
swarm about it told, a claim, and house keeping has not run since after the deadline of it. -/
theorem claimed_while_claimed {labels : List (Env × Event)} {s : NodeState}
    (run : Runs cfg (fun _ => True) labels s) (inside : position < cfg.blocks)
    (claimed : (s.config.blocks position).state = .claimed) :
    LastRecorded cfg position labels (s.config.blocks position) := by
  obtain ⟨now, options, path⟩ := runs_path run
  exact path_last_recorded path inside claimed

theorem claimed_while_claimed_small : ∃ s : NodeState,
    LastRecorded (smallNode 1) 0 [(calmEnv 1001, smallClaim 3 255)] (s.config.blocks 0) := by
  have evaluated : (runEvents (smallNode 1) smallStart [(calmEnv 1001, smallClaim 3 255)]).any
      (fun s => (s.config.blocks 0).state = .claimed) = true := by decide +kernel
  obtain ⟨s, run, facts⟩ := (Option.any_eq_true _ _).mp evaluated
  have calm : ∀ label ∈ [(calmEnv 1001, smallClaim 3 255)], True := fun _ _ => trivial
  exact ⟨s, claimed_while_claimed (small_runs calm run) (by decide) (of_decide_eq_true facts)⟩

/-! Forwarded requests. -/

/-- The last packet of the swarm about the block was a claim, and it came from there. -/
def LastTold (cfg : Settings) (position : Nat) (dest : In6Addr) (labels : List (Env × Event)) : Prop :=
  ∃ front told back claim, labels = front ++ told :: back ∧ Hears cfg told claim dest ∧
    claim.command = msgUpdateClaim ∧ Names claim position ∧ ∀ other ∈ back, ¬ Mentions cfg position other

theorem recorded_told {labels : List (Env × Event)} {block : Block}
    (known : LastRecorded cfg position labels block) :
    LastTold cfg position block.ownerAddress labels := by
  obtain ⟨front, told, back, rfl, ⟨claim, sender, hears, kind, entry, member, names, record⟩, others⟩ :=
    known
  have owner : block.ownerAddress = sender := congrArg (fun record => record.2.1) record
  exact ⟨front, told, back, claim, rfl, owner ▸ hears, kind, ⟨entry, member, names⟩,
    fun other inside => (others other inside).1⟩

/-- A node asks another node for a lease on behalf of a client's request for the address only, and
it asks the node that was the last to claim the block of the address. -/
theorem requests_follow_claims {labels : List (Env × Event)} {s t : NodeState} {dest : In6Addr}
    (run : Runs cfg (fun _ => True) labels s) (step : Step cfg s (env, event) t)
    (member : .direct packet dest ∈ sent s.config t.config) (kind : packet.command = msgRenewLease) :
    ∃ request address index, event = .client request ∧ messageType request = dhcpRequest ∧
      requestedAddress request = some address ∧ ∃ place < cfg.blocks,
        findLeaseFromAddress cfg s.config address = ⟨1, place, index⟩ ∧
        packet = Handlers.renewPacket cfg request address ∧ LastTold cfg place dest labels := by
  have good : Good cfg s.config := runs_good run
  obtain ⟨now, options, path⟩ := runs_path run
  cases step with
  | event env event later done =>
      rcases direct_sent good done member with
        ⟨request, address, place, index, passes⟩ | ⟨request, answers⟩
      · have elsewhere := passes.elsewhere
        have known := path_last_recorded path elsewhere.inside elsewhere.claimed
        exact ⟨request, address, index, passes.client, passes.type, elsewhere.requested, place,
          elsewhere.inside, elsewhere.place, passes.written, passes.holder ▸ recorded_told known⟩
      · rcases answers.granted with nak | ⟨ack, -⟩
        · exact absurd (nak.symm.trans kind) (by decide)
        · exact absurd (ack.symm.trans kind) (by decide)

def isRenewal : Output → Bool
  | .direct packet _ => packet.command = msgRenewLease
  | _ => false

theorem requests_follow_claims_small : ∃ (s t : NodeState) (packet : McastPacket) (dest : In6Addr),
    .direct packet dest ∈ sent s.config t.config ∧ ∃ request address index,
      .client (smallPacket 1 7 dhcpRequest) = Event.client request ∧
      messageType request = dhcpRequest ∧
      requestedAddress request = some address ∧ ∃ place < (smallNode 1).blocks,
        findLeaseFromAddress (smallNode 1) s.config address = ⟨1, place, index⟩ ∧
        packet = Handlers.renewPacket (smallNode 1) request address ∧
        LastTold (smallNode 1) place dest [(calmEnv 1001, smallClaim 3 255)] := by
  have evaluated : (runEvents (smallNode 1) smallStart [(calmEnv 1001, smallClaim 3 255)]).any
      (fun s => (handle (smallNode 1) (calmEnv 1002) (.client (smallPacket 1 7 dhcpRequest))
        s.config).any fun after => s.clock ≤ 1002 ∧ (sent s.config after).any isRenewal) = true := by
    decide +kernel
  obtain ⟨s, run, rest⟩ := (Option.any_eq_true _ _).mp evaluated
  obtain ⟨after, handled, facts⟩ := (Option.any_eq_true _ _).mp rest
  obtain ⟨later, asks⟩ := of_decide_eq_true facts
  obtain ⟨output, member, renewal⟩ := List.any_eq_true.mp asks
  have calm : ∀ label ∈ [(calmEnv 1001, smallClaim 3 255)], True := fun _ _ => trivial
  cases output with
  | direct packet dest =>
      exact ⟨s, ⟨1002, after⟩, packet, dest, member, requests_follow_claims (small_runs calm run)
        (.event (calmEnv 1002) _ later handled) member (of_decide_eq_true renewal)⟩
  | _ => contradiction

end Ddhcpd.LastClaim

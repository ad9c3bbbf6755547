import Ddhcpd.Attempt
import Ddhcpd.Conflict

/-!
No block is held by two nodes. The swarm is seen as one arbitration for every block, and
each of its steps is a path of steps there, provided that house keeping finds its list of
claims in order. Where a new holder may keep quiet, tentative blocks must also last as
long as the claims of the others.
-/

namespace Ddhcpd.Exclusion
open Types Blocks BlockPackets BlockMoves Packet Node Path Refresh Claim Invariant Calls Attempt
open Defence Deadlines Hearing Network Conflict Relation
open Arbitration (Cell Rules Guarded Turn Fewer put_keeps put_put put_same speak_nothing speak_steps
  tell_speak)

variable {count : Nat} {swarm : Swarm count} {position : Nat}

/-! The view on one block. -/

def Speaks (kind : UInt8) (position : Nat) (packets : List McastPacket) : Prop :=
  ∃ packet ∈ packets, packet.command = kind ∧ Names packet position

def Under (kind : UInt8) (position : Nat) (pool : List (Envelope count)) (x y : Fin count) : Prop :=
  ∃ envelope ∈ pool, envelope.source = x ∧ envelope.dest = y ∧ envelope.packet.command = kind ∧
    Names envelope.packet position

def view (position : Nat) (s : Net count) : Arbitration.State (Fin count) where
  clock := s.clock
  cell node := cellOf ((s.config node).blocks position)
  asks := Under msgInquire position s.inFlight
  tells := Under msgUpdateClaim position s.inFlight

/-- The view when the clock has moved on and `pool` is under way. -/
def pending (position : Nat) (s : Net count) (now : Time) (pool : List (Envelope count)) :
    Arbitration.State (Fin count) where
  clock := now
  cell := (view position s).cell
  asks := Under msgInquire position pool
  tells := Under msgUpdateClaim position pool

/-- A block is announced in the house keeping run that makes it ours. -/
def Prompt (swarm : Swarm count) : Prop :=
  ∀ node, (swarm.settings node).tentativeTimeout.toNat < refreshGap (swarm.settings node)

def rules (swarm : Swarm count) : Rules (Fin count) where
  rank := swarm.rank
  patience node := (swarm.settings node).tentativeTimeout.toNat
  prompt := Prompt swarm

theorem under_broadcast {kind : UInt8} {rest : List (Envelope count)} {node x y : Fin count}
    {packets : List McastPacket} : Under kind position (rest ++ broadcast node packets) x y ↔
      Under kind position rest x y ∨ x = node ∧ y ≠ node ∧ Speaks kind position packets := by
  constructor
  · rintro ⟨envelope, member, rfl, rfl, about⟩
    rcases List.mem_append.mp member with old | new
    · exact .inl ⟨envelope, old, rfl, rfl, about⟩
    · rcases (mem_broadcast envelope).mp new with ⟨source, dest, spoken⟩
      exact .inr ⟨source, dest, envelope.packet, spoken, about⟩
  · rintro (⟨envelope, old, about⟩ | ⟨rfl, dest, packet, spoken, about⟩)
    · exact ⟨envelope, List.mem_append_left _ old, about⟩
    · refine ⟨⟨x, y, packet⟩, List.mem_append_right _ ?_, rfl, rfl, about⟩
      exact (mem_broadcast _).mpr ⟨rfl, dest, spoken⟩

theorem pending_keeps {s : Net count} {now : Time} {pool : List (Envelope count)} {node : Fin count}
    {cell : Cell} (same : cell = (view position s).cell node) :
    (pending position s now pool).put node cell = pending position s now pool := put_keeps same

/-- The view when a node has moved on. -/
theorem view_move (s : Net count) (node : Fin count) (now : Time) (rest : List (Envelope count))
    (after : Config) : view position (s.move node now rest after) =
      ((pending position s now rest).put node (cellOf (after.blocks position))).speak node
        (Speaks msgInquire position (spoken (s.config node) after))
        (Speaks msgUpdateClaim position (spoken (s.config node) after)) := by
  apply Arbitration.State.ext
  · rfl
  · funext other
    by_cases here : other = node
    · subst here
      simp [view, Net.move, Arbitration.State.speak, Arbitration.State.put]
    · simp only [view, Net.move, Arbitration.State.speak, Arbitration.State.put,
        Function.update_of_ne here]
      rfl
  · funext x y
    exact propext under_broadcast
  · funext x y
    exact propext under_broadcast

/-! One house keeping run, for one block. -/

section Passes
variable {cfg : Settings} {env : Env} {c after : Config}

theorem checked_cell (block : Block) (usable : block.state ≠ .blocked) (now : Time) :
    cellOf (checked now block) = .idle ∨
      now ≤ block.timeout ∧ cellOf (checked now block) = cellOf block := by
  have freed_idle (block : Block) : cellOf (freed block) = .idle := rfl
  unfold checked
  split
  · left
    rw [block_free_freed usable]
    exact freed_idle block
  rename_i kept
  by_cases free : block.state = .free
  · left
    split
    · simp [cellOf, free]
    · split
      · rw [block_free_freed (by exact usable)]
        rfl
      · simp [cellOf, sweptBlock, free]
  · have live : now ≤ block.timeout := Nat.le_of_not_lt fun late => kept ⟨late, free⟩
    split
    · exact .inr ⟨live, rfl⟩
    · split
      · left
        rw [block_free_freed (by exact usable)]
        rfl
      · exact .inr ⟨live, rfl⟩

theorem unmarked_cell (cfg : Settings) (c : Config) (position : Nat) :
    cellOf ((unmarked cfg c).blocks position) = cellOf (c.blocks position) ∧
      ((unmarked cfg c).blocks position).timeout = (c.blocks position).timeout := by
  rcases unmarked_block cfg c position with ⟨since, same⟩
  rw [same]
  exact ⟨rfl, rfl⟩

theorem unmarked_ready (ready : Ready c) : Ready (unmarked cfg c) := by
  rintro position ⟨member, full⟩
  rcases unmarked_block cfg c position with ⟨since, same⟩
  rw [same] at full ⊢
  apply ready position ⟨_, full⟩
  unfold unmarked at member
  split at member <;> exact member

theorem promote_timeout (block : Block) :
    (promote cfg env position block).timeout = block.timeout := by
  have allocated : (blockAlloc env position block).1.timeout = block.timeout := by
    unfold blockAlloc
    split
    · rfl
    · split <;> rfl
  unfold promote blockOwn
  simp only
  split <;> split <;> exact allocated

/-- The ways in which house keeping adjusts a block. -/
inductive Adjusts (cfg : Settings) (env : Env) (c after : Config) (position : Nat) : Prop where
  | same : cellOf (after.blocks position) = cellOf (c.blocks position) →
      Adjusts cfg env c after position
  | drop : cellOf (c.blocks position) = .held → cellOf (after.blocks position) = .idle →
      Adjusts cfg env c after position
  | begin : cellOf (c.blocks position) = .idle →
      cellOf (after.blocks position) = .trying (env.now + cfg.tentativeTimeout.toNat) →
      Speaks msgInquire position (spoken c after) → Adjusts cfg env c after position
  | hold : cellOf (c.blocks position) = .trying (c.blocks position).timeout →
      cellOf (after.blocks position) = .held →
      (after.blocks position).timeout = (c.blocks position).timeout →
      Adjusts cfg env c after position

theorem claimed_adjusts {started : List Nat} {inquiry : Option Bool} (flawless : Flawless env)
    (ready : Ready c) (good : Good cfg after) (done : Claimed cfg env c started inquiry after) :
    Adjusts cfg env c after position := by
  have block := done.blocks position
  simp only at block
  have block_cell : cellOf (after.blocks position) = cellOf (if position ∈ started
      then opened cfg env (sifted cfg env c position) else sifted cfg env c position) ∧
      (after.blocks position).timeout = (if position ∈ started
      then opened cfg env (sifted cfg env c position) else sifted cfg env c position).timeout := by
    rw [block]
    split <;> exact ⟨rfl, rfl⟩
  by_cases new : position ∈ started
  · rw [if_pos new] at block_cell
    have free := (done.fresh position new).2
    have idle : cellOf (c.blocks position) = .idle := by
      unfold sifted at free
      split at free
      · simp [promote_ours flawless.1] at free
      · simp [cellOf, free]
    refine .begin idle block_cell.1 ?_
    have list : position ∈ after.claimingBlocks := by
      rw [done.frame]
      exact List.mem_append_right _ new
    cases inquiry with
    | none =>
        have empty := done.tells (flawless.1 _) (flawless.1 _) rfl
        simp [empty] at list
    | some got =>
        have got_true : got = true := (done.answer got rfl).trans (flawless.2 _)
        refine ⟨inquirePacket cfg after, ?_, rfl, (inquire_packet_names good).mpr list⟩
        rw [mem_spoken, sent, congrArg Config.out done.frame]
        simp [got_true]
  · rw [if_neg new] at block_cell
    by_cases full : asked c position
    · have claiming := ready position full
      rw [sifted, if_pos full] at block_cell
      refine .hold (by simp [cellOf, claiming]) ?_ (block_cell.2.trans (promote_timeout _))
      exact block_cell.1.trans (cell_of_own (promote_ours flawless.1 _))
    · rw [sifted, if_neg full] at block_cell
      exact .same block_cell.1

/-- House keeping is about to call `block_claim`. -/
def Wants (cfg : Settings) (c : Config) : Prop :=
  ∃ spareLeases, blockNumFreeLeases cfg c = some spareLeases ∧ 0 < blocksNeeded cfg spareLeases

theorem adjust_adjusts (flawless : Flawless env) (good : Good cfg c)
    (ready : Wants cfg c → Ready c) (done : adjustBlocks cfg env c = some after) :
    Adjusts cfg env c after position := by
  have afterGood := adjust_good good done
  rcases adjust_block done position with ⟨since, same⟩ | ⟨own, -, same⟩ |
    ⟨spareLeases, spare, wanted, rfl⟩
  · apply Adjusts.same
    rw [same]
    rfl
  · refine .drop (cell_of_own own) ?_
    rw [same, block_free_freed (good.sound position).usable]
    rfl
  · rcases claim_claimed (unmarked_good good) spareLeases with ⟨started, inquiry, claimed⟩
    have adjusts : Adjusts cfg env (unmarked cfg c) _ position :=
      claimed_adjusts flawless (unmarked_ready (ready ⟨spareLeases, spare, wanted⟩)) afterGood claimed
    have before := unmarked_cell cfg c position
    have out : (unmarked cfg c).out = c.out := HouseKeeping.unmarked_out
    cases adjusts with
    | same stays => exact .same (stays.trans before.1)
    | drop held idle => exact .drop (before.1 ▸ held) idle
    | begin idle trying speaks =>
        refine .begin (before.1 ▸ idle) trying ?_
        rwa [spoken, sent, out] at speaks
    | hold trying held timeout =>
        rw [before.1, before.2] at trying
        exact .hold trying held (timeout.trans before.2)

/-- What a house keeping run sends: an inquiry, and claims of the blocks it leaves ours. -/
def lawful (cfg : Settings) (c : Config) : Output → Prop
  | .mcast packet _ => OfNode cfg packet ∧ (packet.command = msgInquire ∨
      packet.command = msgUpdateClaim ∧ ∀ position, Names packet position → OursAt cfg c position)
  | _ => False

theorem own_claim_lawful (output : Output) (claim : ownClaim cfg c output) :
    lawful cfg c output := by
  cases output with
  | mcast => exact ⟨claim.1, .inr claim.2⟩
  | direct => exact claim
  | dhcp => exact claim
  | hook => exact claim

theorem adjust_lawful (good : Good cfg c) (done : adjustBlocks cfg env c = some after) :
    Emits (lawful cfg after) c after := by
  apply emits_mono (HouseKeeping.adjust_emits good done)
  rintro _ ⟨got, rfl⟩
  exact ⟨⟨rfl, rfl, rfl, rfl⟩, .inl rfl⟩

/-- The states between the passes of a run, with what the run sends. -/
theorem house_keeping_parts (good : Good cfg c) (done : houseKeeping cfg env c = some after) :
    ∃ middle adjusted, blockCheckTimeouts cfg env.now c = some middle ∧ Good cfg middle ∧
      adjustBlocks cfg env middle = some adjusted ∧ Good cfg adjusted ∧
      after.blocks = (blockUpdateClaims cfg env adjusted).blocks ∧
      Emits (lawful cfg adjusted) c after ∧ spoken c adjusted = spoken middle adjusted ∧
      (∀ packet, packet ∈ spoken c adjusted → packet ∈ spoken c after) ∧
      ∀ position, Told adjusted (blockUpdateClaims cfg env adjusted) position →
        Speaks msgUpdateClaim position (spoken c after) := by
  rcases HouseKeeping.house_keeping_passes good done with
    ⟨middle, adjusted, check, middleGood, -, adjust, adjustedGood, blocks, out⟩
  have silent : middle.out = c.out := by
    rcases Option.map_eq_some_iff.mp check with ⟨checkedBlocks, -, rfl⟩
    rfl
  have front : Emits (lawful cfg adjusted) c adjusted :=
    emits_trans (emits_same silent) (adjust_lawful middleGood adjust)
  have back : Emits (lawful cfg adjusted) adjusted after := by
    rw [Emits, out]
    exact emits_mono (update_claims_own (sound_indexed adjustedGood.sound)) own_claim_lawful
  refine ⟨middle, adjusted, check, middleGood, adjust, adjustedGood, blocks,
    emits_trans front back, by rw [spoken, spoken, sent, sent, silent], ?_, fun position told => ?_⟩
  · intro packet member
    rcases front with ⟨outs, one, -⟩
    rcases back with ⟨more, two, -⟩
    rw [mem_spoken, sent, one, List.drop_left] at member
    rw [mem_spoken, sent, two, one, List.append_assoc, List.drop_left]
    exact List.mem_append_left _ member
  · apply told_spoken
    apply told_back front
    rw [Told, out]
    exact told

end Passes

/-! Orderly house keeping. -/

/-- A step that keeps the arbitration: `block_claim` finds its list in order, and the
node gives up no inquired block early, unless all nodes are prompt. -/
def Orderly (swarm : Swarm count) (s : Net count) : Move count → Prop
  | .act node env .houseKeeping => ∀ middle,
      blockCheckTimeouts (swarm.settings node) env.now (s.config node) = some middle →
      (Wants (swarm.settings node) middle → Ready middle) ∧
      (Prompt swarm ∨ ∀ position < (swarm.settings node).blocks,
        ((s.config node).blocks position).state = .tentative →
        env.now ≤ ((s.config node).blocks position).timeout →
        (middle.blocks position).state = .tentative)
  | _ => True

section Turns
variable {s : Net count} {env : Env} {node : Fin count} {after : Config}

theorem cell_waiting {block : Block} {deadline : Time} (waiting : cellOf block = .waiting deadline) :
    block.state = .tentative ∧ block.timeout = deadline := by
  unfold cellOf at waiting
  split at waiting <;> simp_all

theorem cell_trying {block : Block} {deadline : Time} (trying : cellOf block = .trying deadline) :
    block.state = .claiming ∧ block.timeout = deadline := by
  unfold cellOf at trying
  split at trying <;> simp_all

theorem view_quiet (silent : s.inFlight = []) : (view position s).Quiet := by
  intro x y
  simp [view, Under, silent]

/-- The check of the timeouts frees the block, or it was not yet due. -/
def Swept (position : Nat) (now : Time) (c middle : Config) : Prop :=
  cellOf (middle.blocks position) = .idle ∨ now ≤ (c.blocks position).timeout ∧
    cellOf (middle.blocks position) = cellOf (c.blocks position)

theorem check_swept {cfg : Settings} {c middle : Config} (good : Good cfg c)
    (inside : position < cfg.blocks) (check : blockCheckTimeouts cfg env.now c = some middle) :
    Swept position env.now c middle := by
  rw [check_timeouts_checked good.sound] at check
  cases check
  rw [Swept, show (_ : Config).blocks position = checked env.now (c.blocks position) from
    if_pos inside]
  exact checked_cell _ (good.sound position).usable env.now

/-- First the block times out or not. -/
theorem checked_turn {middle : Config} (swept : Swept position env.now (s.config node) middle)
    (lasting : Prompt swarm ∨ (((s.config node).blocks position).state = .tentative →
      env.now ≤ ((s.config node).blocks position).timeout →
      (middle.blocks position).state = .tentative)) :
    Turn (rules swarm) (pending position s env.now s.inFlight) node (cellOf (middle.blocks position))
      False False := by
  refine ⟨False.elim, ?_⟩
  rcases swept with idle | ⟨-, same⟩
  · right
    left
    refine ⟨idle, fun deadline waiting => ?_⟩
    rcases cell_waiting waiting with ⟨tentative, timeout⟩
    rcases lasting with prompt | lasts
    · exact .inr prompt
    · left
      by_contra late
      have stays := lasts tentative (timeout ▸ Nat.le_of_not_lt late)
      simp [cellOf, stays] at idle
  · exact .inl same

/-- Then it is given up, claimed or owned. -/
theorem adjusted_turn {middle adjusted : Config} {asks tells : Prop}
    (guarded : Guarded (rules swarm) (view position s))
    (inside : position < (swarm.settings node).blocks) (later : s.clock ≤ env.now)
    (flawless : Flawless env) (swept : Swept position env.now (s.config node) middle)
    (adjusts : Adjusts (swarm.settings node) env middle adjusted position)
    (indexed : Indexed (swarm.settings node) adjusted)
    (holder : tells → (adjusted.blocks position).state = .ours)
    (asked : Speaks msgInquire position (spoken middle adjusted) → asks)
    (told : Told adjusted (blockUpdateClaims (swarm.settings node) env adjusted) position → tells) :
    Turn (rules swarm)
      ((pending position s env.now s.inFlight).put node (cellOf (middle.blocks position))) node
      (cellOf (adjusted.blocks position)) asks tells := by
  refine ⟨fun tells => cell_of_own (holder tells), ?_⟩
  rw [put_same]
  cases adjusts with
  | same same => exact .inl same
  | drop held idle =>
      right
      left
      refine ⟨idle, fun deadline waiting => ?_⟩
      rw [held] at waiting
      contradiction
  | begin idle trying speaks =>
      right
      right
      left
      exact ⟨idle, trying, asked speaks⟩
  | hold trying held timeout =>
      right
      right
      right
      rcases swept with idle | ⟨live, same⟩
      · exact absurd (idle.symm.trans trying) (by simp)
      have before : (view position s).cell node = .trying (middle.blocks position).timeout :=
        same.symm.trans trying
      have kept : ((s.config node).blocks position).timeout =
          (middle.blocks position).timeout := (cell_trying before).2
      refine ⟨held, fun prompt => ?_, _, trying, kept ▸ live⟩
      -- the deadline of the attempt is below the baseline
      have patient := guarded.patient node _ before
      have own : OursAt (swarm.settings node) adjusted position :=
        ⟨inside, (cell_held_iff _).mp held⟩
      apply told
      apply update_claims_told (flawless_multicasts flawless) indexed own
      rw [Below, timeout, timeout_factor_gap]
      have short : (rules swarm).patience node < refreshGap (swarm.settings node) := prompt node
      exact Nat.lt_of_le_of_lt patient (Nat.add_lt_add_of_le_of_lt (by exact later) short)

theorem house_keeping_steps (good : Good (swarm.settings node) (s.config node))
    (guarded : Guarded (rules swarm) (view position s))
    (inside : position < (swarm.settings node).blocks) (silent : s.inFlight = [])
    (later : s.clock ≤ env.now) (flawless : Flawless env)
    (orderly : Orderly swarm s (.act node env .houseKeeping))
    (done : houseKeeping (swarm.settings node) env (s.config node) = some after) :
    ReflTransGen (Arbitration.Step (rules swarm)) (view position s)
      (view position (s.move node env.now [] after)) := by
  rcases house_keeping_parts good done with ⟨middle, adjusted, check, middleGood, adjust,
    adjustedGood, blocks, emits, spoken_eq, spoken_sub, told⟩
  rcases orderly middle check with ⟨ready, lasting⟩
  have tick : Arbitration.Step (rules swarm) (view position s)
      (pending position s env.now s.inFlight) := .tick later
  have quiet : (pending position s env.now s.inFlight).Quiet := view_quiet silent
  have swept := check_swept good inside check
  have cell : cellOf (after.blocks position) = cellOf (adjusted.blocks position) := by
    rw [blocks]
    exact update_claims_cell (sound_indexed adjustedGood.sound)
  have holder (speaks : Speaks msgUpdateClaim position (spoken (s.config node) after)) :
      (adjusted.blocks position).state = .ours := by
    rcases speaks with ⟨packet, member, kind, names⟩
    have law : lawful (swarm.settings node) adjusted (.mcast packet true) :=
      emits_sent emits ((mem_spoken packet).mp member)
    rcases law.2 with inquire | ⟨-, own⟩
    · exact absurd (inquire.symm.trans kind) (by decide)
    · exact (own position names).2
  have asked (speaks : Speaks msgInquire position (spoken middle adjusted)) :
      Speaks msgInquire position (spoken (s.config node) after) := by
    rw [← spoken_eq] at speaks
    rcases speaks with ⟨packet, member, about⟩
    exact ⟨packet, spoken_sub packet member, about⟩
  have first := checked_turn swept (lasting.imp_right fun lasts => lasts position inside)
  have second := adjusted_turn guarded inside later flawless swept
    (adjust_adjusts flawless middleGood ready adjust) (sound_indexed adjustedGood.sound) holder
    asked (told position)
  have firstSteps := Arbitration.turn_steps quiet first
  rw [speak_nothing] at firstSteps
  have secondSteps := Arbitration.turn_steps (by exact quiet) second
  rw [put_put, ← cell] at secondSteps
  rw [view_move, ← silent]
  exact .head tick (firstSteps.trans secondSteps)

/-- The other events a node handles by itself change no block and say nothing. -/
theorem own_event_frame {cfg : Settings} {c : Config} {event : Event} (house : event ≠ .houseKeeping)
    (local_ : ∀ buffer len sender, event ≠ .mcast buffer len sender)
    (done : handle cfg env event c = some after) : LeaseFrame c after := by
  cases event with
  | houseKeeping => exact absurd rfl house
  | mcast buffer len sender => exact absurd rfl (local_ buffer len sender)
  | direct buffer len sender => exact lease_moves_frame (HandlerMoves.direct_moves done)
  | client packet =>
      rcases Option.map_eq_some_iff.mp done with ⟨⟨final, value⟩, handled, rfl⟩
      exact lease_moves_frame (HandlerMoves.client_moves handled)
  | control buffer len =>
      cases done
      have moves : LeaseMoves.Moves cfg env (.control buffer len) c (handleCommand env buffer len c).1 :=
        HandlerMoves.control_moves buffer len
      exact lease_moves_frame moves

theorem frame_spoken {c : Config} (frame : LeaseFrame c after) : spoken c after = [] := by
  rcases frame.silent with ⟨outs, out, silent⟩
  apply List.eq_nil_iff_forall_not_mem.mpr
  intro packet member
  rw [mem_spoken, sent, out, List.drop_left] at member
  exact silent packet true member

theorem frame_steps (frame : LeaseFrame (s.config node) after) (silent : s.inFlight = [])
    (later : s.clock ≤ env.now) :
    ReflTransGen (Arbitration.Step (rules swarm)) (view position s)
      (view position (s.move node env.now [] after)) := by
  have same := frame.claims position
  have state : (after.blocks position).state = ((s.config node).blocks position).state :=
    lease_frame_state frame position
  have timeout : (after.blocks position).timeout = ((s.config node).blocks position).timeout :=
    congrArg (·.timeout) same
  have cell : cellOf (after.blocks position) = (view position s).cell node := by
    simp only [view, cellOf, state, timeout]
  have nothing (kind : UInt8) : Speaks kind position (spoken (s.config node) after) = False := by
    rw [frame_spoken frame]
    simp [Speaks]
  rw [view_move, nothing, nothing, speak_nothing, pending_keeps cell, ← silent]
  exact .single (.tick later)

end Turns

/-! The arrival of a packet, for one block. -/

section Arrivals
variable {s : Net count} {front back : List (Envelope count)} {envelope : Envelope count}
  {env : Env} {after : Config} {kind : UInt8}

/-- All that is under way are inquiries and claims of nodes of the swarm. -/
structure Mail (swarm : Swarm count) (s : Net count) : Prop where
  other : ∀ envelope ∈ s.inFlight, envelope.source ≠ envelope.dest
  header : ∀ envelope ∈ s.inFlight, OfNode (swarm.settings envelope.source) envelope.packet
  kind : ∀ envelope ∈ s.inFlight, envelope.packet.command = msgUpdateClaim ∨
    envelope.packet.command = msgInquire

theorem under_fewer (pool : s.inFlight = front ++ envelope :: back) :
    Fewer envelope.source envelope.dest (Under kind position s.inFlight)
      (Under kind position (front ++ back)) := by
  constructor
  · rintro u v ⟨other, member, about⟩
    exact ⟨other, kept_in_flight pool member, about⟩
  · rintro u v different ⟨other, member, source, dest, about⟩
    refine ⟨other, still_in_flight pool member ?_, source, dest, about⟩
    rintro rfl
    exact different.elim (absurd source.symm) (absurd dest.symm)

theorem under_same (pool : s.inFlight = front ++ envelope :: back)
    (unrelated : envelope.packet.command = kind → ¬ Names envelope.packet position) :
    Under kind position (front ++ back) = Under kind position s.inFlight := by
  funext u v
  apply propext
  constructor
  · exact (under_fewer pool).1 u v
  · rintro ⟨other, member, source, dest, about⟩
    refine ⟨other, still_in_flight pool member ?_, source, dest, about⟩
    rintro rfl
    exact unrelated about.1 about.2

theorem heard_rules {a b : Fin count} {packet : McastPacket} (header : OfNode (swarm.settings a) packet)
    (inquire : packet.command = msgInquire) (now : Time) (cell : Cell) :
    heardCell (swarm.settings b) now packet cell = (rules swarm).heard now a b cell := by
  rw [heardCell, if_pos inquire]
  cases cell with
  | trying deadline =>
      simp only [inquiredCell, Rules.heard, of_node_greater header, rules]
      congr
  | _ => rfl

theorem pending_unrelated {now : Time} (pool : s.inFlight = front ++ envelope :: back)
    (unrelated : ¬ Names envelope.packet position) :
    pending position s now (front ++ back) = pending position s now s.inFlight := by
  simp only [pending, under_same pool fun _ => unrelated]

theorem pending_claim {now : Time} (pool : s.inFlight = front ++ envelope :: back)
    (claim : envelope.packet.command = msgUpdateClaim) :
    pending position s now (front ++ back) = { pending position s now s.inFlight with
      tells := Under msgUpdateClaim position (front ++ back) } := by
  have asks : Under msgInquire position (front ++ back) = Under msgInquire position s.inFlight :=
    under_same pool fun inquire => absurd (inquire.symm.trans claim) (by decide)
  simp only [pending, asks]

theorem pending_inquiry {now : Time} (pool : s.inFlight = front ++ envelope :: back)
    (inquire : envelope.packet.command = msgInquire) :
    pending position s now (front ++ back) = { pending position s now s.inFlight with
      asks := Under msgInquire position (front ++ back) } := by
  have tells : Under msgUpdateClaim position (front ++ back) =
      Under msgUpdateClaim position s.inFlight :=
    under_same pool fun claim => absurd (inquire.symm.trans claim) (by decide)
  simp only [pending, tells]

/-- What a receiver makes of a packet, for one block. -/
structure Reaction (swarm : Swarm count) (position : Nat) (s : Net count)
    (envelope : Envelope count) (now : Time) (after : Config) : Prop where
  cell : cellOf (after.blocks position) = if Names envelope.packet position
    then heardCell (swarm.settings envelope.dest) now envelope.packet
      ((view position s).cell envelope.dest)
    else (view position s).cell envelope.dest
  asksNothing : ¬ Speaks msgInquire position (spoken (s.config envelope.dest) after)
  holder : Speaks msgUpdateClaim position (spoken (s.config envelope.dest) after) →
    (view position s).cell envelope.dest = .held
  silent : ¬ Challenges (swarm.settings envelope.dest) envelope.packet →
    spoken (s.config envelope.dest) after = []
  defends : envelope.packet.command = msgInquire → Names envelope.packet position →
    (view position s).cell envelope.dest = .held →
    Speaks msgUpdateClaim position (spoken (s.config envelope.dest) after)

theorem dispatch_reaction (mail : Mail swarm s) (arrives : envelope ∈ s.inFlight)
    (indexed : Indexed (swarm.settings envelope.dest) (s.config envelope.dest))
    (inside : position < (swarm.settings envelope.dest).blocks) (sends : Multicasts env)
    (late : 0 < timeoutFactor (swarm.settings envelope.dest) env.now) :
    Reaction swarm position s envelope env.now
      (received swarm env envelope (s.config envelope.dest)) := by
  have readable := of_node_readable envelope.dest (mail.header envelope arrives)
    (mail.kind envelope arrives)
  have moves : BlockMoves.Moves (swarm.settings envelope.dest) env envelope.packet
      (swarm.address envelope.source) (s.config envelope.dest)
      (received swarm env envelope (s.config envelope.dest)) := dispatch_moves
  have own := block_moves_own indexed moves
  constructor
  case cell => exact dispatch_cell readable indexed inside
  case asksNothing =>
    rintro ⟨packet, member, inquire, -⟩
    exact absurd (inquire.symm.trans (own_spoken own member).2.1) (by decide)
  case holder =>
    rintro ⟨packet, member, -, names⟩
    exact cell_of_own ((own_spoken own member).2.2 position names).2
  case silent => exact fun weaker => silent_spoken (block_moves_silent weaker moves)
  case defends =>
    intro inquire names held
    apply told_spoken
    exact dispatch_told sends readable indexed late (.inl inquire)
      ⟨inside, (cell_held_iff _).mp held⟩ names

theorem claim_steps (reaction : Reaction swarm position s envelope env.now after)
    (different : envelope.source ≠ envelope.dest) (pool : s.inFlight = front ++ envelope :: back)
    (claim : envelope.packet.command = msgUpdateClaim) (names : Names envelope.packet position) :
    ReflTransGen (Arbitration.Step (rules swarm)) (pending position s env.now s.inFlight)
      (((pending position s env.now (front ++ back)).put envelope.dest
        (cellOf (after.blocks position))).speak envelope.dest False
        (Speaks msgUpdateClaim position (spoken (s.config envelope.dest) after))) := by
  have notInquiry : envelope.packet.command ≠ msgInquire := by
    rw [claim]
    decide
  have fewer : Fewer envelope.source envelope.dest (pending position s env.now s.inFlight).tells
      (Under msgUpdateClaim position (front ++ back)) := under_fewer pool
  have cell := reaction.cell
  rw [if_pos names, heardCell, if_neg notInquiry] at cell
  by_cases defended : (view position s).cell envelope.dest = .held ∧
      nodeIdCmp envelope.packet.nodeId (swarm.settings envelope.dest).nodeId < 0
  · -- the receiver keeps the block and answers
    rw [if_pos defended, ← defended.1] at cell
    rw [pending_keeps cell, pending_claim pool claim]
    exact .head (.ignore different fewer defended.1) (speak_steps reaction.holder)
  · rw [if_neg defended] at cell
    have weaker (speaks : Speaks msgUpdateClaim position (spoken (s.config envelope.dest) after)) :
        ¬ Challenges (swarm.settings envelope.dest) envelope.packet := by
      rintro (inquire | ⟨-, less⟩)
      · exact notInquiry inquire
      · exact defended ⟨reaction.holder speaks, less⟩
    have silent : Speaks msgUpdateClaim position (spoken (s.config envelope.dest) after) = False := by
      apply eq_false
      intro speaks
      have nothing := reaction.silent (weaker speaks)
      rcases speaks with ⟨packet, member, -⟩
      simp [nothing] at member
    have told : (pending position s env.now s.inFlight).tells envelope.source envelope.dest :=
      ⟨envelope, arrived_in_flight pool, rfl, rfl, claim, names⟩
    rw [cell, silent, speak_nothing, pending_claim pool claim]
    exact .single (.concede different fewer told)

theorem inquiry_steps (reaction : Reaction swarm position s envelope env.now after)
    (different : envelope.source ≠ envelope.dest)
    (header : OfNode (swarm.settings envelope.source) envelope.packet)
    (pool : s.inFlight = front ++ envelope :: back)
    (inquire : envelope.packet.command = msgInquire) (names : Names envelope.packet position) :
    ReflTransGen (Arbitration.Step (rules swarm)) (pending position s env.now s.inFlight)
      (((pending position s env.now (front ++ back)).put envelope.dest
        (cellOf (after.blocks position))).speak envelope.dest False
        (Speaks msgUpdateClaim position (spoken (s.config envelope.dest) after))) := by
  have fewer : Fewer envelope.source envelope.dest (pending position s env.now s.inFlight).asks
      (Under msgInquire position (front ++ back)) := under_fewer pool
  have cell := reaction.cell
  rw [if_pos names, heard_rules header inquire] at cell
  by_cases held : (view position s).cell envelope.dest = .held
  · have stays : cellOf (after.blocks position) = (view position s).cell envelope.dest := by
      rw [cell, held]
      rfl
    rw [pending_keeps stays, eq_true (reaction.defends inquire names held), ← tell_speak,
      pending_inquiry pool inquire]
    exact .single (.defend different fewer held)
  · rw [cell, eq_false fun speaks => held (reaction.holder speaks), speak_nothing,
      pending_inquiry pool inquire]
    exact .single (.hear different fewer held)

/-- What the arrival of a packet means for one block. -/
theorem arrive_steps (mail : Mail swarm s)
    (indexed : Indexed (swarm.settings envelope.dest) (s.config envelope.dest))
    (inside : position < (swarm.settings envelope.dest).blocks)
    (pool : s.inFlight = front ++ envelope :: back) (later : s.clock ≤ env.now)
    (sends : Multicasts env) (late : 0 < timeoutFactor (swarm.settings envelope.dest) env.now)
    (result : received swarm env envelope (s.config envelope.dest) = after) :
    ReflTransGen (Arbitration.Step (rules swarm)) (view position s)
      (view position (s.move envelope.dest env.now (front ++ back) after)) := by
  have arrives := arrived_in_flight pool
  have different := mail.other envelope arrives
  have reaction := dispatch_reaction mail arrives indexed inside sends late
  rw [result] at reaction
  have tick : Arbitration.Step (rules swarm) (view position s)
      (pending position s env.now s.inFlight) := .tick later
  rw [view_move, eq_false reaction.asksNothing]
  by_cases names : Names envelope.packet position
  · rcases mail.kind envelope arrives with claim | inquire
    · exact .head tick (claim_steps reaction different pool claim names)
    · exact .head tick
        (inquiry_steps reaction different (mail.header envelope arrives) pool inquire names)
  · -- the packet is about other blocks
    have cell := reaction.cell
    rw [if_neg names] at cell
    rw [pending_keeps cell, pending_unrelated pool names]
    exact .head tick (speak_steps reaction.holder)

end Arrivals

/-! Runs of the swarm. -/

/-- What every state of an orderly run satisfies. -/
structure Ordered (swarm : Swarm count) (s : Net count) : Prop where
  good : ∀ node, Good (swarm.settings node) (s.config node)
  mail : Mail swarm s
  guarded : ∀ position, (∀ node, position < (swarm.settings node).blocks) →
    Guarded (rules swarm) (view position s)
  timely : Prompt swarm ∨ 0 < s.clock

/-- Nothing is under way, and every node is in a state it may reach where all its blocks
are free, as they are after the start. -/
structure Idle (swarm : Swarm count) (s : Net count) : Prop where
  silent : s.inFlight = []
  reached : ∀ node, Reachable (swarm.settings node) ⟨s.clock, s.config node⟩
  free : ∀ node, ∀ position < (swarm.settings node).blocks,
    ((s.config node).blocks position).state = .free

theorem idle_ordered {s : Net count} (timely : Prompt swarm ∨ 0 < s.clock) (idle : Idle swarm s) :
    Ordered swarm s where
  good node := reachable_good (idle.reached node)
  mail := by
    constructor <;> simp [idle.silent]
  guarded position inside := by
    apply Arbitration.guarded_idle
    intro node
    simp [view, cellOf, idle.free node position (inside node)]
  timely := timely

section Runs
variable {s t : Net count}

/-- The timing of the start lasts. -/
theorem move_timely {now : Time} {node : Fin count} {rest : List (Envelope count)} {after : Config}
    (timely : Prompt swarm ∨ 0 < s.clock) (later : s.clock ≤ now) :
    Prompt swarm ∨ 0 < (s.move node now rest after).clock :=
  timely.imp_right fun positive => Nat.lt_of_lt_of_le positive later

theorem move_good {now : Time} {node : Fin count} {rest : List (Envelope count)} {after : Config}
    (good : ∀ node, Good (swarm.settings node) (s.config node))
    (moved : Good (swarm.settings node) after) (other : Fin count) :
    Good (swarm.settings other) ((s.move node now rest after).config other) := by
  by_cases here : other = node
  · subst here
    simpa [Net.move] using moved
  · simpa [Net.move, here] using good other

theorem move_mail {now : Time} {node : Fin count} {rest : List (Envelope count)} {after : Config}
    (mail : Mail swarm s) (kept : ∀ envelope ∈ rest, envelope ∈ s.inFlight)
    (sends : ∀ packet ∈ spoken (s.config node) after, OfNode (swarm.settings node) packet ∧
      (packet.command = msgUpdateClaim ∨ packet.command = msgInquire)) :
    Mail swarm (s.move node now rest after) := by
  have sorted (envelope : Envelope count)
      (member : envelope ∈ (s.move node now rest after).inFlight) : envelope ∈ s.inFlight ∨
        envelope.source = node ∧ envelope.dest ≠ node ∧
          envelope.packet ∈ spoken (s.config node) after := by
    rcases List.mem_append.mp member with old | new
    · exact .inl (kept envelope old)
    · exact .inr ((mem_broadcast envelope).mp new)
  constructor
  · intro envelope member
    rcases sorted envelope member with old | ⟨source, dest, -⟩
    · exact mail.other envelope old
    · exact source ▸ dest.symm
  · intro envelope member
    rcases sorted envelope member with old | ⟨source, -, packet⟩
    · exact mail.header envelope old
    · exact source ▸ (sends _ packet).1
  · intro envelope member
    rcases sorted envelope member with old | ⟨-, -, packet⟩
    · exact mail.kind envelope old
    · exact (sends _ packet).2

theorem delivers_ordered {answer : Fin count × List McastPacket} (fair : (rules swarm).Fair)
    (ordered : Ordered swarm s) (delivers : Delivers swarm s answer t) : Ordered swarm t := by
  cases delivers with
  | @arrive front back envelope after env pool later sends result =>
      have timely : Prompt swarm ∨ 0 < (s.move envelope.dest env.now (front ++ back) after).clock :=
        move_timely ordered.timely later
      have good := ordered.good envelope.dest
      have moves : BlockMoves.Moves (swarm.settings envelope.dest) env envelope.packet
          (swarm.address envelope.source) (s.config envelope.dest) after := result ▸ dispatch_moves
      rcases block_moves_sound good.sound moves with ⟨sound, quiet⟩
      refine ⟨move_good ordered.good ⟨sound, quiet_listed quiet good.listed⟩, ?_, ?_, timely⟩
      · apply move_mail ordered.mail fun other member => kept_in_flight pool member
        intro packet member
        rcases own_spoken (block_moves_own (sound_indexed good.sound) moves) member with ⟨header, kind, -⟩
        exact ⟨header, .inl kind⟩
      · intro position inside
        have late : 0 < timeoutFactor (swarm.settings envelope.dest) env.now := by
          rw [timeout_factor_gap]
          rcases timely with prompt | positive
          · exact Nat.lt_of_lt_of_le (Nat.lt_of_le_of_lt (Nat.zero_le _) (prompt envelope.dest))
              (Nat.le_add_left _ _)
          · exact Nat.lt_of_lt_of_le positive (Nat.le_add_right _ _)
        exact Arbitration.steps_guarded fair (ordered.guarded position inside)
          (arrive_steps ordered.mail (sound_indexed good.sound) (inside envelope.dest) pool later
            sends late result)

theorem step_ordered {l : Move count} (fair : (rules swarm).Fair) (ordered : Ordered swarm s)
    (step : Network.Step swarm s l t) (orderly : Orderly swarm s l) : Ordered swarm t := by
  cases step with
  | deliver delivers => exact delivers_ordered fair ordered delivers
  | act node env event silent later flawless own done =>
      rename_i after
      have good : Good (swarm.settings node) after :=
        step_good (s := ⟨s.clock, s.config node⟩) (ordered.good node) (.event env event later done)
      refine ⟨move_good ordered.good good, ?_, ?_, move_timely ordered.timely later⟩
      · apply move_mail ordered.mail (by simp)
        intro packet member
        by_cases house : event = .houseKeeping
        · subst house
          rcases house_keeping_parts (ordered.good node) done with
            ⟨middle, adjusted, -, -, -, -, -, emits, -⟩
          have law : lawful (swarm.settings node) adjusted (.mcast packet true) :=
            emits_sent emits ((mem_spoken packet).mp member)
          rcases law.2 with inquire | ⟨claim, -⟩
          · exact ⟨law.1, .inr inquire⟩
          · exact ⟨law.1, .inl claim⟩
        · rw [frame_spoken (own_event_frame house own done)] at member
          simp at member
      · intro position inside
        apply Arbitration.steps_guarded fair (ordered.guarded position inside)
        by_cases house : event = .houseKeeping
        · subst house
          exact house_keeping_steps (ordered.good node) (ordered.guarded position inside)
            (inside node) silent later flawless orderly done
        · exact frame_steps (own_event_frame house own done) silent later

/-- The nodes may rely on each other's clocks: all are prompt, or they wait equally long. -/
def Timed (swarm : Swarm count) (start : Time) : Prop :=
  Prompt swarm ∨ 0 < start ∧ ∀ a b, (swarm.settings a).tentativeTimeout.toNat =
    (swarm.settings b).tentativeTimeout.toNat

/-- In every state of an orderly run every block has one owner at most. -/
theorem blocks_exclusive {labels : List (Move count)} (timed : Timed swarm s.clock)
    (idle : Idle swarm s)
    (run : Path (fun s l t => Network.Step swarm s l t ∧ Orderly swarm s l) s labels t)
    {a b : Fin count} (holdsA : Holds swarm position t a) (holdsB : Holds swarm position t b) :
    a = b := by
  have fair : (rules swarm).Fair := ⟨rank_injective swarm, timed.imp_right And.right⟩
  have ordered := path_invariant (Ordered swarm)
    (fun _ _ _ ordered step => step_ordered fair ordered step.1 step.2) run
    (idle_ordered (timed.imp_right And.left) idle)
  have inside (node : Fin count) : position < (swarm.settings node).blocks :=
    swarm_blocks swarm a node ▸ holdsA.1
  exact (ordered.guarded position inside).exclusive a b (cell_of_own holdsA.2) (cell_of_own holdsB.2)

end Runs

/-! Runs that can be evaluated: packets arrive in the order they were sent. -/

inductive Command (count : Nat) where
  | run (node : Fin count) (now : Time)
  | arrive (now : Time)

/-- House keeping in a flawless world, if block_claim would find its list in order or
`strict` does not hold. -/
def runHouseKeeping (swarm : Swarm count) (strict : Bool) (s : Net count) (node : Fin count)
    (now : Time) : Option (Net count) :=
  (blockCheckTimeouts (swarm.settings node) now (s.config node)).bind fun middle =>
    if s.inFlight.isEmpty ∧ s.clock ≤ now ∧ (strict → Ready middle) then
      (houseKeeping (swarm.settings node) (calmEnv now) (s.config node)).map (s.move node now [])
    else none

def arriveFirst (swarm : Swarm count) (s : Net count) (now : Time) : Option (Net count) :=
  match s.inFlight with
  | [] => none
  | envelope :: rest =>
      if s.clock ≤ now then
        some (s.move envelope.dest now rest
          (received swarm (calmEnv now) envelope (s.config envelope.dest)))
      else none

def runCommands (swarm : Swarm count) (strict : Bool) (s : Net count) :
    List (Command count) → Option (Net count)
  | [] => some s
  | .run node now :: rest =>
      (runHouseKeeping swarm strict s node now).bind fun t => runCommands swarm strict t rest
  | .arrive now :: rest => (arriveFirst swarm s now).bind fun t => runCommands swarm strict t rest

/-- A step that is orderly where the evaluation is strict. -/
def StrictStep (swarm : Swarm count) (strict : Bool) (s : Net count) (l : Move count)
    (t : Net count) : Prop :=
  Network.Step swarm s l t ∧ (strict = true → Orderly swarm s l)

theorem calm_flawless (now : Time) : Flawless (calmEnv now) := ⟨fun _ => rfl, fun _ => rfl⟩

theorem run_house_keeping_step {strict : Bool} {s t : Net count} {node : Fin count} {now : Time}
    (prompt : Prompt swarm) (done : runHouseKeeping swarm strict s node now = some t) :
    StrictStep swarm strict s (.act node (calmEnv now) .houseKeeping) t := by
  rcases Option.bind_eq_some_iff.mp done with ⟨middle, check, rest⟩
  rw [Option.ite_none_right_eq_some] at rest
  rcases rest with ⟨⟨silent, later, ready⟩, kept⟩
  rcases Option.map_eq_some_iff.mp kept with ⟨after, handled, rfl⟩
  refine ⟨.act node (calmEnv now) .houseKeeping (List.isEmpty_iff.mp silent) later
    (calm_flawless now) (by simp) handled, fun strictly other same => ⟨fun _ => ?_, .inl prompt⟩⟩
  have again : blockCheckTimeouts (swarm.settings node) now (s.config node) = some other := same
  cases check.symm.trans again
  exact ready strictly

theorem arrive_first_step {strict : Bool} {s t : Net count} {now : Time}
    (done : arriveFirst swarm s now = some t) : ∃ l, StrictStep swarm strict s l t := by
  unfold arriveFirst at done
  split at done
  · contradiction
  rename_i envelope rest pool
  rw [Option.ite_none_right_eq_some] at done
  rcases done with ⟨later, same⟩
  cases same
  have split : s.inFlight = [] ++ envelope :: rest := pool
  exact ⟨.deliver _, .deliver (.arrive (calmEnv now) split later
    (flawless_multicasts (calm_flawless now)) rfl), fun _ => trivial⟩

theorem run_commands_path {strict : Bool} {commands : List (Command count)} {s t : Net count}
    (prompt : Prompt swarm) (done : runCommands swarm strict s commands = some t) :
    ∃ labels, Path (StrictStep swarm strict) s labels t := by
  induction commands generalizing s with
  | nil =>
      cases done
      exact ⟨[], .refl _⟩
  | cons command rest ih =>
      cases command with
      | run node now =>
          rcases Option.bind_eq_some_iff.mp done with ⟨middle, first, later⟩
          rcases ih later with ⟨labels, path⟩
          exact ⟨_, .next (run_house_keeping_step prompt first) path⟩
      | arrive now =>
          rcases Option.bind_eq_some_iff.mp done with ⟨middle, first, later⟩
          rcases ih later with ⟨labels, path⟩
          rcases arrive_first_step first with ⟨l, step⟩
          exact ⟨_, .next step path⟩

/-! The small swarm. -/

def smallNet : Net 2 where
  clock := 1000
  config node := startConfig (smallSwarm.settings node) 1000 []
  inFlight := []

theorem small_idle : Idle smallSwarm smallNet where
  silent := rfl
  reached _ := ⟨[], 1000, [], .refl _⟩
  free _ _ _ := rfl

theorem small_prompt : Prompt smallSwarm := by
  intro node
  show 15 < 60 - 60 / 4
  decide

-- The first node asks three times, then the block is its own and nobody else's.
theorem blocks_exclusive_small : ∃ t, Holds smallSwarm 0 t 0 ∧ ¬ Holds smallSwarm 0 t 1 := by
  have evaluated : (runCommands smallSwarm true smallNet [.run 0 1000, .arrive 1000, .run 0 1001,
      .arrive 1001, .run 0 1002, .arrive 1002, .run 0 1003, .arrive 1003]).any
      (fun t => ((t.config 0).blocks 0).state = .ours) = true := by decide +kernel
  rcases (Option.any_eq_true _ _).mp evaluated with ⟨t, done, own⟩
  rcases run_commands_path small_prompt done with ⟨labels, path⟩
  have orderly : Path (fun s l t => Network.Step smallSwarm s l t ∧ Orderly smallSwarm s l)
      smallNet labels t := path_mono (fun _ _ _ step => ⟨step.1, step.2 rfl⟩) path
  have holds : Holds smallSwarm 0 t 0 := ⟨by show 0 < 1; decide, of_decide_eq_true own⟩
  refine ⟨t, holds, fun other => ?_⟩
  exact absurd (blocks_exclusive (.inl small_prompt) small_idle orderly holds other) (by decide)

-- The first node asks three times and then does nothing for a while. The second node asks,
-- owns the block and says so, and the first node sees the block as claimed; in its next
-- run it owns the block as well, and has no reason to say so.
theorem blocks_not_exclusive : ∃ labels t, Path (Network.Step smallSwarm) smallNet labels t ∧
    t.inFlight = [] ∧ Holds smallSwarm 0 t 0 ∧ Holds smallSwarm 0 t 1 := by
  have evaluated : (runCommands smallSwarm false smallNet [.run 0 1000, .arrive 1000, .run 0 1001,
      .arrive 1001, .run 0 1002, .arrive 1002, .run 1 1018, .arrive 1018, .run 1 1019, .arrive 1019,
      .run 1 1020, .arrive 1020, .run 1 1021, .arrive 1021, .run 0 1022]).any
      (fun t => t.inFlight.isEmpty ∧ ((t.config 0).blocks 0).state = .ours ∧
        ((t.config 1).blocks 0).state = .ours) = true := by decide +kernel
  rcases (Option.any_eq_true _ _).mp evaluated with ⟨t, done, facts⟩
  rcases of_decide_eq_true facts with ⟨silent, first, second⟩
  rcases run_commands_path small_prompt done with ⟨labels, path⟩
  exact ⟨labels, t, path_mono (fun _ _ _ step => step.1) path, List.isEmpty_iff.mp silent,
    ⟨by show 0 < 1; decide, first⟩, ⟨by show 0 < 1; decide, second⟩⟩

end Ddhcpd.Exclusion

import Ddhcpd.HandlerMoves

/-!
A run taken call by call. House keeping becomes the calls `house_keeping` makes, so
that the state `block_claim` meets is a state of the run. The calls of a run may come
in any order, which includes every run of the node.
-/

namespace Ddhcpd.Calls
open Types Leases Blocks BlockPackets Dhcp LeasePackets Node Path Claim Invariant

inductive Call where
  | checkTimeouts
  | dropUnused
  | unmarkNeedless
  | claim (spareLeases : Nat)
  | updateClaims
  | timeoutPackets
  | received (event : Event)

def perform (cfg : Settings) (env : Env) : Call → Config → Option Config
  | .checkTimeouts, c => blockCheckTimeouts cfg env.now c
  | .dropUnused, c => blockDropUnused cfg env c
  | .unmarkNeedless, c => some (blockUnmarkNeedless cfg c)
  | .claim spareLeases, c => some (blockClaim cfg env (blocksNeeded cfg spareLeases) c)
  | .updateClaims, c => some (blockUpdateClaims cfg env c)
  | .timeoutPackets, c => dhcpPacketListTimeout env.now c
  | .received event, c => handle cfg env event c

inductive CallStep (cfg : Settings) : NodeState → Env × Call → NodeState → Prop where
  | call {clock : Time} {c after : Config} (env : Env) (call : Call) :
      clock ≤ env.now → call ≠ .received .houseKeeping → perform cfg env call c = some after →
      CallStep cfg ⟨clock, c⟩ (env, call) ⟨env.now, after⟩

structure Good (cfg : Settings) (c : Config) : Prop where
  sound : Sound cfg c
  listed : Listed cfg c

/-- `block_drop_unused` may free the block at this time. -/
def Droppable (cfg : Settings) (now : Time) (block : Block) : Prop :=
  block.needlessSince ≠ 0 ∧ (block.needlessSince : Int) ≤ now - cfg.blockNeedlessTimeout.toNat

/-- The state after the marks were taken back, if there were any. -/
def unmarked (cfg : Settings) (c : Config) : Config :=
  if c.needlessMarks ≠ 0 then blockUnmarkNeedless cfg c else c

section Effects
variable {cfg : Settings} {env : Env} {c after : Config}

/-! What the calls between the timeouts and the update pass come down to. -/

theorem adjust_cases (done : adjustBlocks cfg env c = some after) :
    blockDropUnused cfg env c = some after ∨ after = unmarked cfg c ∨
      ∃ spareLeases, blockNumFreeLeases cfg c = some spareLeases ∧
        0 < blocksNeeded cfg spareLeases ∧
        after = blockClaim cfg env (blocksNeeded cfg spareLeases) (unmarked cfg c) := by
  rcases Option.bind_eq_some_iff.mp done with ⟨spareLeases, spare, adjust⟩
  simp only at adjust
  split at adjust
  · exact .inl adjust
  · right
    cases adjust
    split
    · rename_i wanted
      exact .inr ⟨spareLeases, spare, wanted, rfl⟩
    · exact .inl rfl

/-- The choice of `block_drop_unused` is a block of ours all of whose leases are free. -/
theorem find_unused_some {chosen : Nat} (found : findUnused cfg c = some (some chosen)) :
    chosen < cfg.blocks ∧ (c.blocks chosen).state = .ours ∧
      dhcpNumFree (c.blocks chosen) = some cfg.blockSize.toNat := by
  let unused (k : Nat) : Prop := k < cfg.blocks ∧ (c.blocks k).state = .ours ∧
    dhcpNumFree (c.blocks k) = some cfg.blockSize.toNat
  suffices all : ∀ k, some chosen = some k → unused k from all chosen rfl
  refine Loop.loopM_invariant (fun _ freeable => ∀ k, freeable = some k → unused k) _ cfg.blocks none
    (some chosen) (by simp) ?_ found
  intro index inside freeable next before pass
  split at pass
  · rename_i own
    rcases Option.map_eq_some_iff.mp pass with ⟨num, free, rfl⟩
    split
    · rename_i all
      have here : unused index := ⟨inside, own, all ▸ free⟩
      split
      · split
        · rintro k same
          cases same
          exact here
        · exact before
      · rintro k same
        cases same
        exact here
    · exact before
  · cases pass
    exact before

/-- All that `block_drop_unused` can do: wait, mark a block, or free it. -/
theorem drop_unused_cases (done : blockDropUnused cfg env c = some after) :
    (after = c ∧ ∀ chosen, findUnused cfg c = some (some chosen) →
      ¬ Droppable cfg env.now (c.blocks chosen)) ∨
    ∃ chosen, findUnused cfg c = some (some chosen) ∧
      ((c.blocks chosen).needlessSince = 0 ∧
        after = { c.setBlock chosen { c.blocks chosen with needlessSince := env.now } with
          needlessMarks := 1 } ∨
      Droppable cfg env.now (c.blocks chosen) ∧
        after = { c.setBlock chosen (blockFree (c.blocks chosen)) with needlessMarks := 0 }) := by
  rcases Option.map_eq_some_iff.mp done with ⟨freeable, found, rfl⟩
  cases freeable with
  | none => exact .inl ⟨rfl, by simp [found]⟩
  | some chosen =>
      simp only
      split
      · rename_i fresh
        exact .inr ⟨chosen, found, .inl ⟨fresh, rfl⟩⟩
      rename_i marked
      split
      · rename_i due
        exact .inr ⟨chosen, found, .inr ⟨⟨marked, due⟩, rfl⟩⟩
      · rename_i early
        refine .inl ⟨rfl, fun other same waited => early ?_⟩
        obtain rfl : chosen = other := by simpa [found] using same
        exact waited.2

theorem unmarked_block (cfg : Settings) (c : Config) (position : Nat) : ∃ since, (unmarked cfg c).blocks position =
    { c.blocks position with needlessSince := since } := by
  unfold unmarked
  split
  · simp only [blockUnmarkNeedless, Loop.rewrite_each_apply]
    split
    · exact ⟨0, rfl⟩
    · exact ⟨_, rfl⟩
  · exact ⟨_, rfl⟩

theorem drop_unused_out (done : blockDropUnused cfg env c = some after) : after.out = c.out := by
  rcases drop_unused_cases done with ⟨rfl, -⟩ | ⟨chosen, -, ⟨-, rfl⟩ | ⟨-, rfl⟩⟩
  · rfl
  · rfl
  · rfl

theorem drop_unused_block (done : blockDropUnused cfg env c = some after) (position : Nat) :
    (∃ since, after.blocks position = { c.blocks position with needlessSince := since }) ∨
      (c.blocks position).state = .ours ∧ Droppable cfg env.now (c.blocks position) ∧
        after.blocks position = blockFree (c.blocks position) := by
  rcases drop_unused_cases done with ⟨rfl, -⟩ | ⟨chosen, found, ⟨-, rfl⟩ | ⟨due, rfl⟩⟩
  · exact .inl ⟨_, rfl⟩
  · by_cases here : position = chosen
    · subst here
      exact .inl ⟨env.now, set_block_same _ _ _⟩
    · exact .inl ⟨_, set_block_other _ _ _ _ here⟩
  · by_cases here : position = chosen
    · subst here
      exact .inr ⟨(find_unused_some found).2.1, due, set_block_same _ _ _⟩
    · exact .inl ⟨_, set_block_other _ _ _ _ here⟩

/-- One block between the timeouts and the update pass, unless `block_claim` is called. -/
theorem adjust_block (done : adjustBlocks cfg env c = some after) (position : Nat) :
    (∃ since, after.blocks position = { c.blocks position with needlessSince := since }) ∨
      ((c.blocks position).state = .ours ∧ Droppable cfg env.now (c.blocks position) ∧
        after.blocks position = blockFree (c.blocks position)) ∨
      ∃ spareLeases, blockNumFreeLeases cfg c = some spareLeases ∧
        0 < blocksNeeded cfg spareLeases ∧
        after = blockClaim cfg env (blocksNeeded cfg spareLeases) (unmarked cfg c) := by
  rcases adjust_cases done with dropped | rfl | claims
  · exact (drop_unused_block dropped position).imp_right .inl
  · exact .inl (unmarked_block cfg c position)
  · exact .inr (.inr claims)

theorem packet_timeout_result {now : Time} (done : dhcpPacketListTimeout now c = some after) :
    after = { c with
      dhcpPacketCache := c.dhcpPacketCache.filter fun cached => ¬ cached.timeout < now } := by
  rw [dhcpPacketListTimeout, Option.ite_none_right_eq_some] at done
  exact (Option.some.inj done.2).symm

/-! What each call keeps. -/

theorem checked_quiet (now : Time) (block : Block) (usable : block.state ≠ .blocked) :
    ((checked now block).state = block.state ∨ (checked now block).state = .free) ∧
      (checked now block).claimingCounts = block.claimingCounts := by
  unfold checked
  split
  · rw [block_free_freed usable]
    exact ⟨.inr rfl, rfl⟩
  split
  · exact ⟨.inl rfl, rfl⟩
  split
  · rw [block_free_freed (by exact usable)]
    exact ⟨.inr rfl, rfl⟩
  · exact ⟨.inl rfl, rfl⟩

theorem checked_ours {position : Nat} {block : Block} (sound : SoundBlock cfg position block)
    (now : Time) :
    (checked now block).state = .ours ↔ block.state = .ours ∧ now ≤ block.timeout := by
  by_cases own : block.state = .ours
  · obtain ⟨table, here⟩ := Option.isSome_iff_exists.mp (sound.own own)
    by_cases late : block.timeout < now
    · simp [checked, own, late, block_free_freed sound.usable, freed]
    · simp [checked, own, late, here, sweptBlock, Nat.le_of_not_lt late]
  · have states := (checked_quiet now block sound.usable).1
    constructor
    · intro ours
      rcases states with same | free
      · exact absurd (same.symm.trans ours) own
      · rw [free] at ours
        cases ours
    · exact fun ours => absurd ours.1 own

theorem free_quiet {position : Nat} (usable : (c.blocks position).state ≠ .blocked) :
    Quiet c (c.setBlock position (blockFree (c.blocks position))) := by
  rw [block_free_freed usable]
  exact set_block_quiet (by simp [freed]) (by simp [freed]) rfl

theorem marked_quiet (position : Nat) (since : Time) :
    Quiet c (c.setBlock position { c.blocks position with needlessSince := since }) :=
  set_block_quiet id id rfl

theorem quiet_marks (quiet : Quiet c after) (marks : UInt8) :
    Quiet c { after with needlessMarks := marks } :=
  ⟨quiet.list, quiet.amount, quiet.ours, quiet.claiming, quiet.counts⟩

theorem check_timeouts_good (sound : Sound cfg c)
    (done : blockCheckTimeouts cfg env.now c = some after) : Sound cfg after ∧ Quiet c after := by
  rw [check_timeouts_checked sound] at done
  cases done
  refine ⟨fun position => ?_, rfl, rfl, fun position => ?_, fun position => ?_,
    fun position => ?_⟩
  · simp only
    split
    · exact sound_checked (sound position) env.now
    · exact sound position
  all_goals
    obtain ⟨state, counts⟩ := checked_quiet env.now (c.blocks position) (sound position).usable
    simp only
    split
  · intro own
    rcases state with same | free
    · exact same ▸ own
    · simp [free] at own
  · exact id
  · intro claiming
    rcases state with same | free
    · exact same ▸ claiming
    · simp [free] at claiming
  · exact id
  · exact counts
  · rfl

theorem drop_unused_good (sound : Sound cfg c) (done : blockDropUnused cfg env c = some after) :
    Sound cfg after ∧ Quiet c after := by
  rcases drop_unused_cases done with ⟨rfl, -⟩ | ⟨chosen, -, ⟨-, rfl⟩ | ⟨-, rfl⟩⟩
  · exact ⟨sound, quiet_refl after⟩
  · exact ⟨set_block_sound sound (sound_marked (sound chosen) env.now),
      quiet_marks (marked_quiet chosen env.now) 1⟩
  · exact ⟨set_block_sound sound (sound_free (sound chosen)),
      quiet_marks (free_quiet (sound chosen).usable) 0⟩

theorem unmark_needless_good (sound : Sound cfg c) :
    Sound cfg (blockUnmarkNeedless cfg c) ∧ Quiet c (blockUnmarkNeedless cfg c) := by
  unfold blockUnmarkNeedless
  refine ⟨fun position => ?_, rfl, rfl, fun position => ?_, fun position => ?_,
    fun position => ?_⟩
  all_goals simp only [Loop.rewrite_each_apply]
  · split
    · exact sound_marked (sound position) 0
    · exact sound position
  all_goals split <;> first | exact id | rfl

theorem unmarked_good (good : Good cfg c) : Good cfg (unmarked cfg c) := by
  unfold unmarked
  split
  · rcases unmark_needless_good good.sound with ⟨sound, quiet⟩
    exact ⟨sound, quiet_listed quiet good.listed⟩
  · exact good

theorem sifted_sound (sound : Sound cfg c) (position : Nat) :
    SoundBlock cfg position (sifted cfg env c position) := by
  unfold sifted
  split
  · exact sound_promote (sound position)
  · exact sound position

theorem claimed_good {started : List Nat} {inquiry : Option Bool} (good : Good cfg c)
    (done : Claimed cfg env c started inquiry after) : Good cfg after := by
  have list : after.claimingBlocks = c.claimingBlocks.filter (going c) ++ started := by
    rw [done.frame]
  refine ⟨fun position => ?_, done.once, done.amount, ?_, ?_⟩
  · have base : SoundBlock cfg position (sifted cfg env c position) :=
      sifted_sound good.sound position
    rw [done.blocks]
    simp only
    split <;> split <;> first
      | exact sound_counted (sound_opened base)
      | exact sound_opened base
      | exact sound_counted base
      | exact base
  · intro position member
    rw [list] at member
    rcases List.mem_append.mp member with old | new
    · exact good.listed.inside position (List.mem_filter.mp old).1
    · exact (done.fresh position new).1
  · -- what is on the list afterwards is being claimed
    intro position member
    have claiming : (if position ∈ started then opened cfg env (sifted cfg env c position)
        else sifted cfg env c position).state = .claiming := by
      rw [list] at member
      split
      · rfl
      · rename_i old
        rcases List.mem_append.mp member with stays | new
        · have claims : (c.blocks position).claimingCounts ≠ 3 ∧
              (c.blocks position).state = .claiming := by
            simpa [going] using (List.mem_filter.mp stays).2
          simp [sifted, asked, claims]
        · exact absurd new old
    rw [done.blocks]
    simp only
    split <;> simp [counted, claiming]

/-- The number of spare leases asked for is a byte, so the number of blocks is too. -/
theorem blocks_needed_le (cfg : Settings) (spareLeases : Nat) :
    blocksNeeded cfg spareLeases ≤ 255 := by
  have spare := cfg.spareLeasesNeeded.toNat_lt
  have size : (0 : Int) < cfg.blockSize.toNat := by exact_mod_cast cfg.size_pos
  unfold blocksNeeded
  generalize few : (cfg.spareLeasesNeeded.toNat : Int) - spareLeases = needed
  have bound : needed ≤ 255 := by omega
  simp only
  rcases Int.lt_or_le needed 0 with negative | positive
  · have quotient := Int.tdiv_nonneg (Int.le_of_lt (Int.neg_pos.mpr negative)) (Int.le_of_lt size)
    have rest := Int.tmod_nonneg (cfg.blockSize.toNat : Int) (Int.le_of_lt (Int.neg_pos.mpr negative))
    rw [Int.neg_tdiv] at quotient
    rw [Int.neg_tmod] at rest
    split <;> omega
  · rw [Int.tdiv_eq_ediv_of_nonneg positive, Int.tmod_eq_emod_of_nonneg positive]
    have quotient := Int.ediv_nonneg positive (Int.le_of_lt size)
    have rest := Int.emod_nonneg needed (Int.ne_of_gt size)
    have whole := Int.mul_ediv_add_emod needed cfg.blockSize.toNat
    have smaller : needed / cfg.blockSize.toNat ≤
        cfg.blockSize.toNat * (needed / cfg.blockSize.toNat) := by
      simpa using Int.mul_le_mul_of_nonneg_right (Int.add_one_le_of_lt size) quotient
    split <;> omega

theorem claim_claimed (good : Good cfg c) (spareLeases : Nat) :
    ∃ started inquiry, Claimed cfg env c started inquiry
      (blockClaim cfg env (blocksNeeded cfg spareLeases) c) :=
  block_claim_claimed cfg env _ c good.listed.once good.listed.amount
    (blocks_needed_le cfg spareLeases)

/-! Every call, and with it every event. -/

/-- An event other than house keeping is a path of the moves of one of the two kinds. -/
theorem received_moves {event : Event} (other : event ≠ .houseKeeping)
    (done : handle cfg env event c = some after) :
    (∃ packet sender, BlockMoves.Moves cfg env packet sender c after) ∨
      LeaseMoves.Moves cfg env event c after := by
  cases event with
  | houseKeeping => contradiction
  | mcast buffer len sender =>
      left
      cases done
      unfold ddhcpBlockProcess
      split
      · exact ⟨_, sender, BlockMoves.dispatch_moves⟩
      · exact ⟨⟨cfg.nodeId, 0, 0, 0, 0, 0, [], Packet.noRenewPayload⟩, sender, .refl⟩
  | direct buffer len sender => exact .inr (HandlerMoves.direct_moves done)
  | client packet =>
      obtain ⟨⟨final, value⟩, handled, rfl⟩ := Option.map_eq_some_iff.mp done
      exact .inr (HandlerMoves.client_moves handled)
  | control buffer len =>
      cases done
      exact .inr (HandlerMoves.control_moves buffer len)

theorem received_good {event : Event} (sound : Sound cfg c) (other : event ≠ .houseKeeping)
    (done : handle cfg env event c = some after) : Sound cfg after ∧ Quiet c after := by
  rcases received_moves other done with ⟨packet, sender, moves⟩ | moves
  · exact block_moves_sound sound moves
  · exact ⟨lease_moves_sound sound moves, lease_frame_quiet (lease_moves_frame moves)⟩

/-- Only `block_claim` makes progress in claiming. -/
theorem perform_quiet {call : Call} (sound : Sound cfg c) (call_ne : call ≠ .received .houseKeeping)
    (no_claim : ∀ spareLeases, call ≠ .claim spareLeases)
    (done : perform cfg env call c = some after) : Sound cfg after ∧ Quiet c after := by
  cases call with
  | checkTimeouts => exact check_timeouts_good sound done
  | dropUnused => exact drop_unused_good sound done
  | unmarkNeedless =>
      cases done
      exact unmark_needless_good sound
  | claim spareLeases => exact absurd rfl (no_claim spareLeases)
  | updateClaims =>
      cases done
      exact ⟨update_claims_sound sound, update_claims_quiet sound⟩
  | timeoutPackets =>
      obtain rfl := packet_timeout_result done
      exact ⟨sound, rfl, rfl, fun _ => id, fun _ => id, fun _ => rfl⟩
  | received event => exact received_good sound (fun same => call_ne (same ▸ rfl)) done

theorem perform_good {call : Call} (good : Good cfg c) (call_ne : call ≠ .received .houseKeeping)
    (done : perform cfg env call c = some after) : Good cfg after := by
  by_cases claims : ∃ spareLeases, call = .claim spareLeases
  · obtain ⟨spareLeases, rfl⟩ := claims
    cases done
    obtain ⟨started, inquiry, claimed⟩ := claim_claimed good spareLeases
    exact claimed_good good claimed
  · obtain ⟨sound, quiet⟩ := perform_quiet good.sound call_ne
      (fun spareLeases same => claims ⟨spareLeases, same⟩) done
    exact ⟨sound, quiet_listed quiet good.listed⟩

end Effects

section Runs
variable {cfg : Settings}

theorem fresh_block_sound (cfg : Settings) (now : Time) (position : Nat) :
    SoundBlock cfg position (freshBlock cfg now position) :=
  ⟨rfl, rfl, rfl, by simp [freshBlock], by simp [freshBlock], by simp [freshBlock],
    by simp [freshBlock]⟩

theorem start_good (cfg : Settings) (now : Time) (options : List DhcpOption) :
    Good cfg (startConfig cfg now options) :=
  ⟨fresh_block_sound cfg now, List.nodup_nil, rfl, by simp [startConfig], by simp [startConfig]⟩

theorem call_good {s t : NodeState} {label : Env × Call} (good : Good cfg s.config)
    (step : CallStep cfg s label t) : Good cfg t.config := by
  cases step with
  | call env call _ other done => exact perform_good good other done

theorem call_path {env : Env} {call : Call} {c after : Config}
    (other : call ≠ .received .houseKeeping) (done : perform cfg env call c = some after) :
    Path (CallStep cfg) ⟨env.now, c⟩ [(env, call)] ⟨env.now, after⟩ :=
  .next (.call env call (Nat.le_refl _) other done) (.refl _)

theorem unmark_calls (env : Env) (c : Config) : ∃ calls : List Call,
    Path (CallStep cfg) ⟨env.now, c⟩ (calls.map fun call => (env, call))
      ⟨env.now, unmarked cfg c⟩ := by
  unfold unmarked
  split
  · exact ⟨[.unmarkNeedless], call_path (by simp) rfl⟩
  · exact ⟨[], .refl _⟩

theorem adjust_calls {env : Env} {c after : Config} (done : adjustBlocks cfg env c = some after) :
    ∃ calls : List Call, Path (CallStep cfg) ⟨env.now, c⟩ (calls.map fun call => (env, call))
      ⟨env.now, after⟩ := by
  rcases adjust_cases done with dropped | rfl | ⟨spareLeases, -, -, rfl⟩
  · exact ⟨[.dropUnused], call_path (by simp) dropped⟩
  · exact unmark_calls env c
  · rcases unmark_calls env c with ⟨calls, unmarking⟩
    refine ⟨calls ++ [.claim spareLeases], ?_⟩
    rw [List.map_append]
    exact path_append unmarking (call_path (by simp) rfl)

/-- House keeping is a path of its calls. -/
theorem house_keeping_calls {env : Env} {clock : Time} {c after : Config}
    (later : clock ≤ env.now) (done : houseKeeping cfg env c = some after) :
    ∃ calls : List Call,
      Path (CallStep cfg) ⟨clock, c⟩ (calls.map fun call => (env, call)) ⟨env.now, after⟩ := by
  obtain ⟨checked, check, rest⟩ := Option.bind_eq_some_iff.mp done
  obtain ⟨adjusted, adjust, last⟩ := Option.bind_eq_some_iff.mp rest
  obtain ⟨calls, adjusting⟩ := adjust_calls adjust
  have first : CallStep cfg ⟨clock, c⟩ (env, .checkTimeouts) ⟨env.now, checked⟩ :=
    .call env _ later (by simp) check
  refine ⟨.checkTimeouts :: (calls ++ [.updateClaims, .timeoutPackets]), .next first ?_⟩
  rw [List.map_append]
  exact path_append adjusting (.next (.call env .updateClaims (Nat.le_refl _) (by simp) rfl)
    (call_path (by simp) last))

theorem adjust_good {env : Env} {c after : Config} (good : Good cfg c)
    (done : adjustBlocks cfg env c = some after) : Good cfg after := by
  obtain ⟨calls, path⟩ := adjust_calls done
  exact path_invariant (fun s => Good cfg s.config) (fun _ _ _ good step => call_good good step)
    path good

/-- The states between the passes of a house keeping run. -/
theorem house_keeping_splits {env : Env} {c after : Config} (good : Good cfg c)
    (done : houseKeeping cfg env c = some after) :
    ∃ checked adjusted, blockCheckTimeouts cfg env.now c = some checked ∧ Good cfg checked ∧
      adjustBlocks cfg env checked = some adjusted ∧ Good cfg adjusted ∧
      after = { blockUpdateClaims cfg env adjusted with
        dhcpPacketCache := (blockUpdateClaims cfg env adjusted).dhcpPacketCache.filter
          fun cached => ¬ cached.timeout < env.now } := by
  obtain ⟨checked, check, rest⟩ := Option.bind_eq_some_iff.mp done
  obtain ⟨adjusted, adjust, last⟩ := Option.bind_eq_some_iff.mp rest
  obtain ⟨sound, quiet⟩ := check_timeouts_good good.sound check
  have checkedGood : Good cfg checked := ⟨sound, quiet_listed quiet good.listed⟩
  exact ⟨checked, adjusted, check, checkedGood, adjust, adjust_good checkedGood adjust,
    packet_timeout_result last⟩

theorem step_calls {s t : NodeState} {label : Env × Event} (step : Step cfg s label t) :
    ∃ calls : List Call, Path (CallStep cfg) s (calls.map fun call => (label.1, call)) t := by
  cases step with
  | event env event later done =>
      by_cases house : event = .houseKeeping
      · subst house
        exact house_keeping_calls later done
      · refine ⟨[.received event], .next (.call env _ later ?_ done) (.refl _)⟩
        intro same
        exact house (by simpa using same)

theorem step_good {s t : NodeState} {label : Env × Event} (good : Good cfg s.config)
    (step : Step cfg s label t) : Good cfg t.config := by
  obtain ⟨calls, path⟩ := step_calls step
  exact path_invariant (fun s => Good cfg s.config) (fun _ _ _ good step => call_good good step)
    path good

theorem runs_good {allowed : Env → Prop} {labels : List (Env × Event)} {s : NodeState}
    (run : Runs cfg allowed labels s) : Good cfg s.config := by
  obtain ⟨now, options, path⟩ := run
  exact path_invariant (fun s => Good cfg s.config) (fun _ _ _ good step => step_good good step.1)
    path (start_good cfg now options)

theorem reachable_good {s : NodeState} (reached : Reachable cfg s) : Good cfg s.config := by
  obtain ⟨labels, run⟩ := reached
  exact runs_good run

end Runs

end Ddhcpd.Calls

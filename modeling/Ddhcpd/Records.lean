import Ddhcpd.MainLoop
import Ddhcpd.Holders
import Ddhcpd.Answers
import Ddhcpd.Exclusion
import Ddhcpd.NewlyOwned

/-!
How long a node keeps what it has on record. House keeping leaves nothing that has ended, and what
is noted afterwards ends later, so the event loop bounds how long a lease, a claim of another node
or a request that was passed on is kept after its end.
-/

namespace Ddhcpd.Records
open Types Leases Blocks BlockPackets BlockMoves Packet Dhcp Node Path Refresh Claim Invariant Calls
open Handlers LeaseMoves HouseKeeping Deadlines EventLoop MainLoop
open NewlyOwned (checked_timeout)
open Exclusion (promote_timeout)
open Attempt (promote_state)

/-- The entry is offered or leased to somebody. -/
def Taken (block : Block) (index : Nat) (lease : Lease) : Prop :=
  leaseAt block index = some lease ∧ lease.state ≠ .free

section Entries
variable {cfg : Settings} {env : Env} {block : Block} {position index : Nat} {lease : Lease} {now : Time}

theorem taken_congr {after : Block} (same : after.addresses = block.addresses) :
    Taken after index lease ↔ Taken block index lease := by simp only [Taken, leaseAt, same]

theorem taken_nothing (missing : block.addresses = none) : ¬ Taken block index lease := by
  simp [Taken, leaseAt, missing]

theorem taken_alloc (taken : Taken (blockAlloc env position block).1 index lease) :
    Taken block index lease := by
  unfold blockAlloc at taken
  split at taken
  · exact taken
  split at taken
  · -- nothing in a fresh table is taken
    obtain ⟨entry, busy⟩ := taken
    simp only [leaseAt, Option.bind_some] at entry
    have free := List.eq_of_mem_replicate (List.mem_of_getElem? entry)
    exact absurd (free ▸ rfl) busy
  · exact taken

theorem taken_promote (taken : Taken (promote cfg env position block) index lease) :
    Taken block index lease := by
  have same : (promote cfg env position block).addresses =
      (blockAlloc env position block).1.addresses := by
    unfold promote blockOwn
    simp only
    split_ifs <;> rfl
  exact taken_alloc ((taken_congr same).mp taken)

theorem taken_checked (usable : block.state ≠ .blocked)
    (taken : Taken (checked now block) index lease) :
    Taken block index lease ∧ now ≤ lease.leaseEnd := by
  have gone (block : Block) (usable : block.state ≠ .blocked) : ¬ Taken (blockFree block) index lease := by
    rw [block_free_freed usable]
    exact taken_nothing rfl
  unfold checked at taken
  split at taken
  · exact absurd taken (gone block usable)
  split at taken
  · rename_i missing
    exact absurd taken (taken_nothing missing)
  rename_i table here
  split at taken
  · exact absurd taken (gone _ usable)
  · obtain ⟨entry, busy⟩ := taken
    simp only [leaseAt, sweptBlock, Option.bind_some, List.getElem?_map, Option.map_eq_some_iff] at entry
    obtain ⟨old, there, rfl⟩ := entry
    by_cases ended : old.state ≠ .free ∧ old.leaseEnd < now
    · simp [Lease.expired, ended, Lease.released] at busy
    · rw [Lease.expired, if_neg ended] at busy ⊢
      exact ⟨⟨by simp [leaseAt, here, there], busy⟩, Nat.le_of_not_lt fun late => ended ⟨busy, late⟩⟩

end Entries

/-! House keeping. -/

section Passes
variable {cfg : Settings} {env : Env} {c after : Config} {position index : Nat} {lease : Lease}

theorem claimed_taken {started : List Nat} {inquiry : Option Bool}
    (done : Claimed cfg env c started inquiry after) (taken : Taken (after.blocks position) index lease) :
    Taken (c.blocks position) index lease := by
  have same : (after.blocks position).addresses = (sifted cfg env c position).addresses := by
    rw [done.blocks]
    simp only
    split_ifs <;> rfl
  rw [taken_congr same, sifted] at taken
  split at taken
  · exact taken_promote taken
  · exact taken

theorem adjust_taken (good : Good cfg c) (done : adjustBlocks cfg env c = some after)
    (taken : Taken (after.blocks position) index lease) : Taken (c.blocks position) index lease := by
  rcases adjust_block done position with ⟨since, same⟩ | ⟨-, -, same⟩ | ⟨spareLeases, -, -, rfl⟩
  · rw [same] at taken
    exact taken
  · rw [same, block_free_freed (good.sound position).usable] at taken
    exact absurd taken (taken_nothing rfl)
  · obtain ⟨since, unmarks⟩ := unmarked_block cfg c position
    obtain ⟨started, inquiry, claimed⟩ := claim_claimed (unmarked_good good) spareLeases
    have before := claimed_taken claimed taken
    rw [unmarks] at before
    exact before

/-- What is taken after house keeping was so before, and has not ended. -/
theorem house_keeping_taken (good : Good cfg c) (done : houseKeeping cfg env c = some after)
    (inside : position < cfg.blocks) (taken : Taken (after.blocks position) index lease) :
    Taken (c.blocks position) index lease ∧ env.now ≤ lease.leaseEnd := by
  obtain ⟨middle, adjusted, check, middleGood, -, adjust, adjustedGood, blocks, -⟩ :=
    house_keeping_passes good done
  rw [blocks, taken_congr (update_claims_addresses adjustedGood.sound position)] at taken
  have before := adjust_taken middleGood adjust taken
  rw [check_timeouts_checked good.sound] at check
  cases check
  simp only [inside, ↓reduceIte] at before
  exact taken_checked (good.sound position).usable before

/-- The block is reserved for another node, or may become ours: for what is on record of it a time
is set. -/
def Reserved (block : Block) : Prop := block.state ≠ .free ∧ block.state ≠ .ours

theorem checked_reserved {block : Block} {now : Time} (usable : block.state ≠ .blocked)
    (reserved : Reserved (checked now block)) : now ≤ (checked now block).timeout := by
  have busy : block.state ≠ .free := by
    rcases (checked_quiet now block usable).1 with same | free
    · exact same ▸ reserved.1
    · exact absurd free reserved.1
  rw [checked_timeout]
  by_contra late
  rw [checked, if_pos ⟨Nat.lt_of_not_le late, busy⟩, block_free_freed usable] at reserved
  exact reserved.1 rfl

theorem claimed_reserved {started : List Nat} {inquiry : Option Bool}
    (done : Claimed cfg env c started inquiry after) (reserved : Reserved (after.blocks position))
    (before : Reserved (c.blocks position) → env.now ≤ (c.blocks position).timeout) :
    env.now ≤ (after.blocks position).timeout := by
  have block : (after.blocks position).state = (if position ∈ started
      then opened cfg env (sifted cfg env c position) else sifted cfg env c position).state ∧
      (after.blocks position).timeout = (if position ∈ started
      then opened cfg env (sifted cfg env c position) else sifted cfg env c position).timeout := by
    have written := done.blocks position
    simp only at written
    rw [written]
    split <;> exact ⟨rfl, rfl⟩
  by_cases new : position ∈ started
  · rw [block.2, if_pos new]
    exact Nat.le_add_right _ _
  · rw [if_neg new] at block
    rw [Reserved, block.1] at reserved
    rw [block.2]
    unfold sifted at reserved ⊢
    split at reserved
    · rename_i full
      rw [if_pos full, promote_timeout]
      have turned : (promote cfg env position (c.blocks position)).state = .ours ∨
          (promote cfg env position (c.blocks position)).state = (c.blocks position).state :=
        promote_state (c.blocks position)
      rcases turned with own | same
      · exact absurd own reserved.2
      · exact before (by rwa [same] at reserved)
    · rename_i waiting
      rw [if_neg waiting]
      exact before reserved

theorem adjust_reserved (good : Good cfg c) (done : adjustBlocks cfg env c = some after)
    (reserved : Reserved (after.blocks position))
    (before : Reserved (c.blocks position) → env.now ≤ (c.blocks position).timeout) :
    env.now ≤ (after.blocks position).timeout := by
  rcases adjust_block done position with ⟨since, same⟩ | ⟨-, -, same⟩ | ⟨spareLeases, -, -, rfl⟩
  · rw [same] at reserved ⊢
    exact before reserved
  · rw [same, block_free_freed (good.sound position).usable] at reserved
    exact absurd rfl reserved.1
  · obtain ⟨since, unmarks⟩ := unmarked_block cfg c position
    obtain ⟨started, inquiry, claimed⟩ := claim_claimed (unmarked_good good) spareLeases
    refine claimed_reserved claimed reserved ?_
    rw [unmarks]
    exact before

/-- A block that is reserved after house keeping is so until some time to come. -/
theorem house_keeping_reserved (good : Good cfg c) (done : houseKeeping cfg env c = some after)
    (inside : position < cfg.blocks) (reserved : Reserved (after.blocks position)) :
    env.now ≤ (after.blocks position).timeout := by
  obtain ⟨middle, adjusted, check, middleGood, -, adjust, adjustedGood, blocks, -⟩ :=
    house_keeping_passes good done
  rw [blocks] at reserved ⊢
  have same : (blockUpdateClaims cfg env adjusted).blocks position = adjusted.blocks position := by
    rcases update_claims_block (sound_indexed adjustedGood.sound) position with same | ⟨own, -⟩
    · exact same
    · rw [Reserved, update_claims_state adjustedGood.sound] at reserved
      exact absurd own reserved.2
  rw [same] at reserved ⊢
  refine adjust_reserved middleGood adjust reserved fun kept => ?_
  rw [check_timeouts_checked good.sound] at check
  cases check
  simp only [inside, ↓reduceIte] at kept ⊢
  exact checked_reserved (good.sound position).usable kept

end Passes

/-! What has ended. -/

/-- Nothing that is on record has ended before `last`. -/
structure Current (cfg : Settings) (last : Time) (c : Config) : Prop where
  leases : ∀ position < cfg.blocks, ∀ index lease, Taken (c.blocks position) index lease →
    last ≤ lease.leaseEnd
  blocks : ∀ position < cfg.blocks, Reserved (c.blocks position) → last ≤ (c.blocks position).timeout
  requests : ∀ cached ∈ c.dhcpPacketCache, last ≤ cached.timeout

section Events
variable {cfg : Settings} {env : Env} {event : Event} {c after : Config} {last : Time}
  {packet : McastPacket} {sender : In6Addr}

theorem house_keeping_current (good : Good cfg c) (done : houseKeeping cfg env c = some after) :
    Current cfg env.now after where
  leases _ inside _ _ taken := (house_keeping_taken good done inside taken).2
  blocks _ inside reserved := house_keeping_reserved good done inside reserved
  requests cached member := by
    rw [LeaseSafety.house_keeping_cache good done] at member
    simpa using (List.mem_filter.mp member).2

/-- A block is written, and what there is of it was there before or ends later. -/
theorem set_block_current {position : Nat} {block : Block} (current : Current cfg last c)
    (leases : ∀ index lease, Taken block index lease → Taken (c.blocks position) index lease ∨
      last ≤ lease.leaseEnd)
    (times : Reserved block → Reserved (c.blocks position) ∧
      block.timeout = (c.blocks position).timeout ∨ last ≤ block.timeout) :
    Current cfg last (c.setBlock position block) where
  leases other inside index lease taken := by
    by_cases here : other = position
    · subst here
      rw [set_block_same] at taken
      exact (leases index lease taken).elim (current.leases other inside index lease) id
    · rw [set_block_other _ _ _ _ here] at taken
      exact current.leases other inside index lease taken
  blocks other inside reserved := by
    by_cases here : other = position
    · subst here
      rw [set_block_same] at reserved ⊢
      rcases times reserved with ⟨before, same⟩ | later
      · exact same ▸ current.blocks other inside before
      · exact later
    · rw [set_block_other _ _ _ _ here] at reserved ⊢
      exact current.blocks other inside reserved
  requests := current.requests

theorem update_claims_current (sound : Sound cfg c) (current : Current cfg last c) :
    Current cfg last (blockUpdateClaims cfg env c) where
  leases position inside index lease taken :=
    current.leases position inside index lease
      ((taken_congr (update_claims_addresses sound position)).mp taken)
  blocks position inside reserved := by
    have state : ((blockUpdateClaims cfg env c).blocks position).state = (c.blocks position).state :=
      update_claims_state sound
    have updated : (blockUpdateClaims cfg env c).blocks position = c.blocks position ∨
        (c.blocks position).state = .ours ∧ _ := update_claims_block (sound_indexed sound) position
    rcases updated with same | ⟨own, -⟩
    · rw [same] at reserved ⊢
      exact current.blocks position inside reserved
    · rw [Reserved, state] at reserved
      exact absurd own reserved.2
  requests cached member := by
    rw [LeaseSafety.update_claims_cache sound] at member
    exact current.requests cached member

theorem block_move_current (sound : Sound cfg c) (current : Current cfg last c) (later : last ≤ env.now)
    (move : BlockMove cfg env packet sender c after) : Current cfg last after := by
  have onwards (seconds : Nat) : last ≤ env.now + seconds := Nat.le_trans later (Nat.le_add_right _ _)
  cases move with
  | concede => exact set_block_current current (fun _ _ => .inl) fun _ => .inr (onwards _)
  | defer => exact set_block_current current (fun _ _ => .inl) fun _ => .inr (onwards _)
  | @defend entry _ _ _ own =>
      -- the deadline of 0 stands in a block of ours
      apply update_claims_current (zeroed_sound sound _)
      exact set_block_current current (fun _ _ => .inl) fun reserved => absurd own reserved.2

theorem block_moves_current (sound : Sound cfg c) (current : Current cfg last c) (later : last ≤ env.now)
    (moves : BlockMoves.Moves cfg env packet sender c after) : Current cfg last after := by
  suffices both : Sound cfg after ∧ Current cfg last after from both.2
  induction moves with
  | refl => exact ⟨sound, current⟩
  | tail _ move ih => exact ⟨block_move_sound ih.1 move, block_move_current ih.1 ih.2 later move⟩

/-- What is noted of a lease ends later than now. -/
theorem lease_write_later {position index : Nat} {lease changed : Lease}
    (write : LeaseWrite cfg env event c position index lease changed) (busy : changed.state ≠ .free) :
    env.now ≤ changed.leaseEnd := by
  have ends : env.now ≤ leaseEndFrom env c :=
    Nat.le_trans (Nat.le_add_right _ _) (Nat.le_add_right _ _)
  cases write with
  | offered => exact Nat.le_add_right _ _
  | granted => exact ends
  | forwarded => exact ends
  | relayed => exact ends
  | renewed => exact ends
  | released => exact absurd rfl busy

theorem put_taken {block : Block} {index other : Nat} {old changed lease : Lease}
    (entry : leaseAt block index = some old) (taken : Taken (putLease block index changed) other lease) :
    Taken block other lease ∨ other = index ∧ lease = changed := by
  by_cases here : other = index
  · subst here
    have there := (lease_at_put entry).symm.trans taken.1
    exact .inr ⟨rfl, (Option.some.inj there).symm⟩
  · rw [Taken, lease_at_put_other here] at taken
    exact .inl taken

theorem lease_move_current (current : Current cfg last c) (later : last ≤ env.now)
    (move : LeaseMove cfg env event c after) : Current cfg last after := by
  cases move with
  | write _ entry write =>
      refine set_block_current current (fun index lease taken => ?_) fun reserved => .inl ⟨reserved, rfl⟩
      rcases put_taken entry taken with before | ⟨rfl, rfl⟩
      · exact .inl before
      · exact .inr (Nat.le_trans later (lease_write_later write taken.2))
  | @allocate position =>
      refine set_block_current current (fun _ _ taken => .inl (taken_alloc taken)) fun reserved => .inl ?_
      rw [Reserved, block_alloc_state] at reserved
      refine ⟨reserved, ?_⟩
      unfold blockAlloc
      split_ifs <;> rfl
  | unmark => exact set_block_current current (fun _ _ => .inl) fun reserved => .inl ⟨reserved, rfl⟩
  | cache known =>
      refine ⟨current.leases, current.blocks, fun cached member => ?_⟩
      rcases known cached member with before | ⟨request, -, rfl⟩
      · exact current.requests cached before
      · exact Nat.le_trans later (Nat.le_add_right _ _)
  | store => exact ⟨current.leases, current.blocks, current.requests⟩
  | send => exact ⟨current.leases, current.blocks, current.requests⟩

theorem event_current (good : Good cfg c) (current : Current cfg last c) (later : last ≤ env.now)
    (other : event ≠ .houseKeeping) (done : handle cfg env event c = some after) :
    Current cfg last after := by
  rcases received_moves other done with ⟨packet, sender, moves⟩ | moves
  · exact block_moves_current good.sound current later moves
  · clear done
    induction moves with
    | refl => exact current
    | tail _ move ih => exact lease_move_current ih later move

end Events

/-- Since house keeping was last run nothing that is on record has ended before it. -/
theorem runs_current {cfg : Settings} {allowed : Env → Prop} {start : NodeState}
    {labels : List (Env × Event)} {s : NodeState} (good : Good cfg start.config)
    (run : Path (fun s label t => Step cfg s label t ∧ allowed label.1) start labels s) :
    Good cfg s.config ∧ ∀ last, lastHouseKeeping none labels = some last →
      last ≤ s.clock ∧ Current cfg last s.config := by
  refine path_induction (fun labels s => Good cfg s.config ∧ ∀ last,
    lastHouseKeeping none labels = some last → last ≤ s.clock ∧ Current cfg last s.config)
    ⟨good, by simp [lastHouseKeeping]⟩ ?_ run
  rintro labels s label t - ⟨good, known⟩ ⟨step, -⟩
  refine ⟨step_good good step, ?_⟩
  cases step with
  | event env event later done =>
      by_cases house : event = .houseKeeping
      · subst house
        rw [last_snoc_house]
        rintro _ ⟨⟩
        exact ⟨Nat.le_refl _, house_keeping_current good done⟩
      · rw [last_snoc_other none labels env house]
        intro last was
        obtain ⟨past, current⟩ := known last was
        exact ⟨Nat.le_trans past later, event_current good current (Nat.le_trans past later) house done⟩

theorem current_earlier {cfg : Settings} {first last : Time} {c : Config} (current : Current cfg last c)
    (earlier : first ≤ last) : Current cfg first c :=
  ⟨fun position inside index lease taken =>
      Nat.le_trans earlier (current.leases position inside index lease taken),
    fun position inside reserved => Nat.le_trans earlier (current.blocks position inside reserved),
    fun cached member => Nat.le_trans earlier (current.requests cached member)⟩

theorem start_current (cfg : Settings) (last started : Time) (options : List DhcpOption) :
    Current cfg last (startConfig cfg started options) where
  leases _ _ _ _ taken := absurd taken (taken_nothing rfl)
  blocks _ _ reserved := absurd rfl reserved.1
  requests cached member := by simp [startConfig] at member

/-- Once the node has learned and its rounds are on time, nothing stays on record for longer than half
the tentative time and one round after it has ended. -/
theorem nothing_outlives {cfg : Settings} {busy : Nat} {started now : Time} {learning : Bool}
    {options : List DhcpOption} {forked : Bool} {rounds : List (Round × Bool)} {s : MainState}
    (long : 2 ≤ cfg.tentativeTimeout.toNat) (order : started ≤ now)
    (run : Path (PunctualTurn cfg busy) (mainStart cfg started now learning options forked) rounds s)
    (awake : s.loop.learningPhase = false) :
    Current cfg (s.loop.node.clock - (cfg.tentativeTimeout.toNat / 2 + busy)) s.loop.node.config := by
  have good := start_good cfg started options
  obtain ⟨labels, inPace⟩ := path_in_pace long good (start_in_pace learning options order) run
  rw [List.nil_append] at inPace
  obtain ⟨-, clock, -, path⟩ := inPace.logged
  cases was : lastHouseKeeping none labels with
  | some last =>
      have current := ((runs_current good path).2 last was).2
      obtain ⟨-, due, before⟩ := inPace.kept last was
      refine current_earlier current (Nat.sub_le_iff_le_add.mpr ?_)
      rcases before with early | early
      · exact Nat.le_trans early (Nat.le_add_right _ _)
      · rw [← Nat.add_assoc]
        exact Nat.le_trans (Nat.le_of_lt early) (Nat.add_le_add_right due busy)
  | none =>
      -- no round has come yet
      rcases inPace.unkept was with learns | ⟨rfl, -⟩
      · rw [awake] at learns
        contradiction
      · generalize s.loop.node.config = c at path ⊢
        cases path
        exact start_current cfg _ started options

theorem nothing_outlives_small : ∃ s,
    Path (PunctualTurn (smallNode 1) 0) (mainStart (smallNode 1) 1000 1000 false smallOptions true)
      (([1000, 1007, 1014, 1021].map timerRound).map fun round => (round, true)) s ∧
    s.loop.learningPhase = false ∧
    Current (smallNode 1) (s.loop.node.clock - ((smallNode 1).tentativeTimeout.toNat / 2 + 0))
      s.loop.node.config := by
  have evaluated : ((runMain (smallNode 1) waitsInTime
      (mainStart (smallNode 1) 1000 1000 false smallOptions true)
      ([1000, 1007, 1014, 1021].map timerRound)).any fun s => s.loop.learningPhase = false) = true := by
    decide +kernel
  obtain ⟨s, done, awake⟩ := (Option.any_eq_true _ _).mp evaluated
  have path := run_main_path (timer_punctual _) done
  have ended := of_decide_eq_true awake
  exact ⟨s, path, ended, nothing_outlives (by decide) (Nat.le_refl _) path ended⟩

end Ddhcpd.Records

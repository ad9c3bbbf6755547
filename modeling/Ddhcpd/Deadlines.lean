import Ddhcpd.Calls

/-!
The deadlines of blocks. A block of ours is refreshed in time if house keeping runs
often enough, and what `block_check_timeouts` frees has timed out, unless all leases
in the table of a foreign block have.
-/

namespace Ddhcpd.Deadlines
open Types Leases Blocks BlockPackets BlockMoves Node Path Refresh Invariant Calls Dhcp

/-! What `block_check_timeouts` frees. -/

/-- A block that has not timed out keeps its state and its owner. -/
def OnlyTimedOut (cfg : Settings) (now : Time) (c after : Config) : Prop :=
  ∀ position < cfg.blocks, now ≤ (c.blocks position).timeout →
    (after.blocks position).state = (c.blocks position).state ∧
      (after.blocks position).nodeId = (c.blocks position).nodeId ∧
      (after.blocks position).ownerAddress = (c.blocks position).ownerAddress

/-- A foreign block that has not timed out and has a table still has a lease in it. -/
def TablesInUse (cfg : Settings) (now : Time) (c : Config) : Prop :=
  ∀ position < cfg.blocks, now ≤ (c.blocks position).timeout →
    (c.blocks position).state ≠ .ours → ∀ table, (c.blocks position).addresses = some table →
      ∃ lease ∈ table, lease.state ≠ .free ∧ now ≤ lease.leaseEnd

theorem all_expired_iff (now : Time) (table : List Lease) :
    (table.map (Lease.expired now)).all isFree = true ↔
      ¬ ∃ lease ∈ table, lease.state ≠ .free ∧ now ≤ lease.leaseEnd := by
  rw [List.all_eq_true]
  constructor
  · rintro all ⟨lease, member, busy, live⟩
    have free := all _ (List.mem_map_of_mem member)
    simp [Lease.expired, Nat.not_lt.mpr live, isFree, busy] at free
  · intro idle entry member
    obtain ⟨lease, old, rfl⟩ := List.mem_map.mp member
    by_cases ended : lease.state ≠ .free ∧ lease.leaseEnd < now
    · simp [Lease.expired, ended, isFree, Lease.released]
    · have free : lease.state = .free := by
        by_cases free : lease.state = .free
        · exact free
        · exact absurd ⟨lease, old, free, Nat.le_of_not_lt fun late => ended ⟨free, late⟩⟩ idle
      simp [Lease.expired, isFree, free]

/-- For one block the pass is right exactly when the table of the block is in use. -/
theorem checked_kept_iff {cfg : Settings} {position : Nat} {block : Block} {now : Time}
    (sound : SoundBlock cfg position block) (live : now ≤ block.timeout) :
    ((checked now block).state = block.state ∧ (checked now block).nodeId = block.nodeId ∧
        (checked now block).ownerAddress = block.ownerAddress) ↔
      (block.state ≠ .ours → ∀ table, block.addresses = some table →
        ∃ lease ∈ table, lease.state ≠ .free ∧ now ≤ lease.leaseEnd) := by
  have early : ¬ (block.timeout < now ∧ block.state ≠ .free) := fun ended =>
    Nat.not_lt_of_le live ended.1
  unfold checked
  rw [if_neg early]
  split
  · rename_i empty
    simp [empty]
  · rename_i table here
    have busy : block.state ≠ .free := by
      intro free
      simpa [here] using sound.free free
    by_cases drop : block.state ≠ .ours ∧ (table.map (Lease.expired now)).all isFree = true
    · have idle := (all_expired_iff now table).mp drop.2
      rw [if_pos drop, block_free_freed (by exact sound.usable)]
      constructor
      · rintro ⟨state, -⟩
        exact absurd state.symm busy
      · intro used
        exact absurd (used drop.1 table here) idle
    · rw [if_neg drop]
      constructor
      · intro _ foreign other same
        obtain rfl := Option.some.inj (here.symm.trans same)
        by_cases idle : ∃ lease ∈ table, lease.state ≠ .free ∧ now ≤ lease.leaseEnd
        · exact idle
        · exact absurd ⟨foreign, (all_expired_iff now table).mpr idle⟩ drop
      · intro _
        exact ⟨rfl, rfl, rfl⟩

/-- Every update packet that is due is allocated and sent. -/
def Multicasts (env : Env) : Prop :=
  (∀ call, env.mcastSent call = true) ∧
    ∀ sends, env.alloc (.claimPacket sends) = true ∧ env.alloc (.claimPayload sends) = true

/-- The longest time between two house keeping runs. -/
def refreshGap (cfg : Settings) : Nat :=
  cfg.blockTimeout.toNat - cfg.blockTimeout.toNat / cfg.blockRefreshFactor.toNat

/-- The time of the last house keeping run of a sequence that comes after `last`. -/
def lastHouseKeeping (last : Option Time) : List (Env × Event) → Option Time
  | [] => last
  | (env, .houseKeeping) :: rest => lastHouseKeeping (some env.now) rest
  | _ :: rest => lastHouseKeeping last rest

/-- Every house keeping run comes at most `gap` after the one before it. -/
def Spaced (gap : Nat) (last : Option Time) : List (Env × Event) → Prop
  | [] => True
  | (env, .houseKeeping) :: rest =>
      (∀ before, last = some before → env.now ≤ before + gap) ∧ Spaced gap (some env.now) rest
  | _ :: rest => Spaced gap last rest

theorem last_snoc_house (last : Option Time) (labels : List (Env × Event)) (env : Env) :
    lastHouseKeeping last (labels ++ [(env, .houseKeeping)]) = some env.now := by
  induction labels generalizing last with
  | nil => rfl
  | cons label rest ih =>
      obtain ⟨env', event⟩ := label
      cases event <;> exact ih _

theorem last_snoc_other (last : Option Time) (labels : List (Env × Event)) (env : Env)
    {event : Event} (other : event ≠ .houseKeeping) :
    lastHouseKeeping last (labels ++ [(env, event)]) = lastHouseKeeping last labels := by
  induction labels generalizing last with
  | nil => cases event <;> first | rfl | contradiction
  | cons label rest ih =>
      obtain ⟨env', event'⟩ := label
      cases event' <;> exact ih _

theorem spaced_snoc {gap : Nat} {last : Option Time} {labels : List (Env × Event)} {env : Env}
    (spaced : Spaced gap last (labels ++ [(env, .houseKeeping)])) :
    ∀ before, lastHouseKeeping last labels = some before → env.now ≤ before + gap := by
  induction labels generalizing last with
  | nil => exact spaced.1
  | cons label rest ih =>
      obtain ⟨env', event⟩ := label
      cases event with
      | houseKeeping => exact ih spaced.2
      | mcast => exact ih spaced
      | direct => exact ih spaced
      | client => exact ih spaced
      | control => exact ih spaced

/-- No block of ours times out before `baseline`. -/
def Fresh (cfg : Settings) (baseline : Time) (c : Config) : Prop :=
  ∀ position, OursAt cfg c position → baseline ≤ (c.blocks position).timeout

theorem timeout_factor_gap (cfg : Settings) (now : Time) :
    timeoutFactor cfg now = now + refreshGap cfg :=
  Nat.add_sub_assoc (Nat.div_le_self _ _) now

theorem fresh_mono {cfg : Settings} {c : Config} {earlier later : Time} (order : earlier ≤ later)
    (fresh : Fresh cfg later c) : Fresh cfg earlier c :=
  fun position own => Nat.le_trans order (fresh position own)

section Passes
variable {cfg : Settings} {env : Env} {c after : Config}

/-- The update pass brings every block of ours up to its baseline. -/
theorem update_claims_fresh (sends : Multicasts env) (sound : Sound cfg c) :
    Fresh cfg (timeoutFactor cfg env.now) (blockUpdateClaims cfg env c) := by
  obtain ⟨groups, done, covers⟩ := update_claims_updated cfg env c (sound_indexed sound)
  intro position own
  by_cases announced : Announced groups position
  · rw [done.announced position announced, timeout_factor_gap]
    exact Nat.add_le_add_left (Nat.sub_le _ _) env.now
  · rw [done.kept position announced]
    have before : OursAt cfg c position := ⟨own.1, done.kept position announced ▸ own.2⟩
    by_cases due : Below cfg env c position
    · -- the packet that names the block got through
      have member := covers (sends.2 _).1 (sends.2 _).2 position before due
      obtain ⟨group, inside, here⟩ := List.mem_flatMap.mp member
      obtain ⟨call, answer⟩ := done.answers group inside
      exact absurd ⟨group, inside, answer.trans (sends.1 call), here⟩ announced
    · exact Nat.le_of_not_lt due

theorem block_move_fresh {packet : McastPacket} {sender : In6Addr} {baseline : Time}
    (sends : Multicasts env) (sound : Sound cfg c) (reached : baseline ≤ timeoutFactor cfg env.now)
    (fresh : Fresh cfg baseline c) (move : BlockMove cfg env packet sender c after) :
    Fresh cfg baseline after := by
  -- a block that is conceded or deferred is not ours any more
  have foreign {index : Nat} {block : Block} (other : block.state ≠ .ours) :
      Fresh cfg baseline (c.setBlock index block) := by
    intro position own
    by_cases here : position = index
    · subst here
      exact absurd (by simpa using own.2) other
    · have kept := set_block_other c index position block here
      rw [kept]
      exact fresh position ⟨own.1, kept ▸ own.2⟩
  cases move with
  | concede => exact foreign (by simp [conceded])
  | defer => exact foreign (by simp [deferred])
  | defend => exact fresh_mono reached (update_claims_fresh sends (zeroed_sound sound _))

theorem block_moves_fresh {packet : McastPacket} {sender : In6Addr} {baseline : Time}
    (sends : Multicasts env) (sound : Sound cfg c) (reached : baseline ≤ timeoutFactor cfg env.now)
    (fresh : Fresh cfg baseline c) (moves : BlockMoves.Moves cfg env packet sender c after) :
    Fresh cfg baseline after := by
  induction moves with
  | refl => exact fresh
  | tail front move ih =>
      exact block_move_fresh sends (block_moves_sound sound front).1 reached ih move

theorem lease_frame_fresh {baseline : Time} (frame : LeaseFrame c after)
    (fresh : Fresh cfg baseline c) : Fresh cfg baseline after := by
  intro position own
  have timeout : (after.blocks position).timeout = (c.blocks position).timeout :=
    congrArg (·.timeout) (frame.claims position)
  rw [timeout]
  exact fresh position ⟨own.1, (lease_frame_state frame position).symm.trans own.2⟩

theorem received_fresh {event : Event} {baseline : Time} (sends : Multicasts env)
    (sound : Sound cfg c) (other : event ≠ .houseKeeping)
    (reached : baseline ≤ timeoutFactor cfg env.now) (fresh : Fresh cfg baseline c)
    (done : handle cfg env event c = some after) : Fresh cfg baseline after := by
  rcases received_moves other done with ⟨packet, sender, moves⟩ | moves
  · exact block_moves_fresh sends sound reached fresh moves
  · exact lease_frame_fresh (lease_moves_frame moves) fresh

theorem house_keeping_fresh (sends : Multicasts env) (good : Good cfg c)
    (done : houseKeeping cfg env c = some after) :
    Fresh cfg (env.now + refreshGap cfg) after := by
  obtain ⟨checked, adjusted, -, -, -, adjustedGood, rfl⟩ := house_keeping_splits good done
  have fresh := update_claims_fresh sends adjustedGood.sound
  rw [timeout_factor_gap] at fresh
  exact fresh

end Passes

/-- Between two house keeping runs every block of ours is fresh. -/
theorem runs_fresh {cfg : Settings} {labels : List (Env × Event)} {s : NodeState}
    (run : Runs cfg Multicasts labels s) :
    (∃ last, lastHouseKeeping none labels = some last ∧ last ≤ s.clock ∧
        Fresh cfg (last + refreshGap cfg) s.config) ∨
      ∀ position, (s.config.blocks position).state ≠ .ours := by
  obtain ⟨now, options, path⟩ := run
  refine path_induction (fun labels s => Good cfg s.config ∧
    ((∃ last, lastHouseKeeping none labels = some last ∧ last ≤ s.clock ∧
        Fresh cfg (last + refreshGap cfg) s.config) ∨
      ∀ position, (s.config.blocks position).state ≠ .ours)) ?_ ?_ path |>.2
  · exact ⟨start_good cfg now options, .inr fun position => by simp [startConfig, freshBlock]⟩
  rintro front s ⟨env, event⟩ t - ⟨good, known⟩ ⟨step, sends⟩
  refine ⟨step_good good step, ?_⟩
  cases step with
  | event _ _ later done =>
      by_cases house : event = .houseKeeping
      · subst house
        left
        refine ⟨env.now, last_snoc_house none front env, Nat.le_refl _, ?_⟩
        exact house_keeping_fresh sends good done
      · have same := last_snoc_other none front env house
        obtain ⟨-, quiet⟩ := received_good good.sound house done
        rcases known with ⟨last, was, before, fresh⟩ | none_ours
        · left
          refine ⟨last, same.trans was, Nat.le_trans before later, ?_⟩
          refine received_fresh sends good.sound house ?_ fresh done
          rw [timeout_factor_gap]
          exact Nat.add_le_add_right (Nat.le_trans before later) _
        · right
          intro position own
          exact none_ours position (quiet.ours position own)

/-- However the blocks are spread over packets, none of ours times out. -/
theorem owned_blocks_refreshed {cfg : Settings} {labels : List (Env × Event)} {s : NodeState}
    {env : Env} (run : Runs cfg Multicasts labels s)
    (spaced : Spaced (refreshGap cfg) none (labels ++ [(env, .houseKeeping)])) :
    ∃ after, blockCheckTimeouts cfg env.now s.config = some after ∧
      ∀ position, OursAt cfg s.config position →
        env.now ≤ (s.config.blocks position).timeout ∧
          (after.blocks position).state = .ours := by
  have sound := (runs_good run).sound
  refine ⟨_, check_timeouts_checked sound env.now, fun position own => ?_⟩
  have live : env.now ≤ (s.config.blocks position).timeout := by
    rcases runs_fresh run with ⟨last, was, -, fresh⟩ | none_ours
    · exact Nat.le_trans (spaced_snoc spaced last was) (fresh position own)
    · exact absurd own.2 (none_ours position)
  refine ⟨live, ?_⟩
  simp only [own.1, ↓reduceIte]
  exact ((checked_kept_iff (sound position) live).mpr fun foreign => absurd own.2 foreign).1.trans
    own.2

-- Three inquiries, then the block is ours and announced; the next run comes 45 later.
theorem owned_blocks_refreshed_small : ∃ (s : NodeState) (after : Config),
    blockCheckTimeouts (smallNode 1) 1048 s.config = some after ∧
    OursAt (smallNode 1) s.config 0 ∧ (after.blocks 0).state = .ours := by
  let labels : List (Env × Event) := [(calmEnv 1000, .houseKeeping),
    (calmEnv 1001, .houseKeeping), (calmEnv 1002, .houseKeeping), (calmEnv 1003, .houseKeeping)]
  have evaluated : (runEvents (smallNode 1) smallStart labels).any
      (fun s => (s.config.blocks 0).state = .ours) = true := by decide +kernel
  obtain ⟨s, run, owned⟩ := (Option.any_eq_true _ _).mp evaluated
  have ours : OursAt (smallNode 1) s.config 0 := ⟨by decide, of_decide_eq_true owned⟩
  have calm : ∀ label ∈ labels, Multicasts label.1 := by
    simp [labels, Multicasts, calmEnv]
  have spaced : Spaced (refreshGap (smallNode 1)) none
      (labels ++ [(calmEnv 1048, .houseKeeping)]) := by
    simp [labels, Spaced, refreshGap, smallNode, calmEnv]
  obtain ⟨after, check, stays⟩ := owned_blocks_refreshed (small_runs calm run) spaced
  exact ⟨s, after, check, ours, (stays 0 ours).2⟩

end Ddhcpd.Deadlines

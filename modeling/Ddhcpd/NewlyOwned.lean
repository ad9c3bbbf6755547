import Ddhcpd.Batches
import Ddhcpd.ClaimUpdates
import Ddhcpd.Exclusion

/-!
What house keeping announces of the blocks it has just come to own. Owning a block leaves
its deadline as it was, so the update pass names the block only if a block in the same
packet is below the baseline.
-/

namespace Ddhcpd.NewlyOwned
open Types Loop Blocks BlockPackets BlockMoves Packet Node Refresh Claim Invariant Calls
open HouseKeeping Deadlines Hearing ClaimUpdates Batches Exclusion

instance (cfg : Settings) (c : Config) : DecidablePred (OursAt cfg c) :=
  fun _ => inferInstanceAs (Decidable (_ ∧ _))

instance (cfg : Settings) (env : Env) (c : Config) : DecidablePred (Below cfg env c) :=
  fun position => inferInstanceAs (Decidable ((c.blocks position).timeout < _))

/-! Which packets of an update pass are sent. -/

def ourBlocks (cfg : Settings) (c : Config) (count : Nat) : List Nat :=
  (List.range count).filter fun position => OursAt cfg c position

def due (cfg : Settings) (env : Env) (c : Config) (batch : List Nat) : Bool :=
  batch.any fun position => Below cfg env c position

/-- The groups that are out are the complete batches with a block below the baseline. -/
structure Batched (cfg : Settings) (env : Env) (c : Config) (seen : Nat) (groups : List Group)
    (current : List Nat) : Prop where
  out : groups.map Group.positions =
    (packed updateClaimMaxBlocks (ourBlocks cfg c seen)).complete.filter (due cfg env c)
  waits : current = (packed updateClaimMaxBlocks (ourBlocks cfg c seen)).waiting

section Passes
variable {cfg : Settings} {env : Env} {c after : Config} {seen position : Nat}
  {groups groups' : List Group} {current current' : List Nat}

theorem our_blocks_skip (foreign : ¬ OursAt cfg c seen) :
    ourBlocks cfg c (seen + 1) = ourBlocks cfg c seen := by
  simp [ourBlocks, List.range_succ, foreign]

theorem our_blocks_next (own : OursAt cfg c seen) :
    ourBlocks cfg c (seen + 1) = ourBlocks cfg c seen ++ [seen] := by
  simp [ourBlocks, List.range_succ, own]

theorem batched_next (held : Batched cfg env c seen groups current)
    (advance : Advance cfg env c seen groups current groups' current') :
    Batched cfg env c (seen + 1) groups' current' := by
  obtain ⟨out, rfl⟩ := held
  cases advance with
  | skip foreign =>
      constructor
      · rw [our_blocks_skip foreign, out]
      · rw [our_blocks_skip foreign]
  | wait own room =>
      constructor
      · rw [our_blocks_next own, packed_waits room, out]
      · rw [our_blocks_next own, packed_waits room]
  | send got own full below =>
      have sends : due cfg env c ((packed updateClaimMaxBlocks (ourBlocks cfg c seen)).waiting ++
          [seen]) = true := by simpa [due] using below
      constructor
      · rw [our_blocks_next own, packed_completes full, List.map_append, out]
        simp [sends]
      · rw [our_blocks_next own, packed_completes full]
  | drop own full fresh =>
      have quiet : due cfg env c ((packed updateClaimMaxBlocks (ourBlocks cfg c seen)).waiting ++
          [seen]) = false := by simpa [due] using fresh
      constructor
      · rw [our_blocks_next own, packed_completes full, out]
        simp [quiet]
      · rw [our_blocks_next own, packed_completes full]

theorem batch_ours {batch : List Nat}
    (member : batch ∈ batches updateClaimMaxBlocks (ourBlocks cfg c cfg.blocks))
    (inside : position ∈ batch) : OursAt cfg c position := by
  have listed : position ∈ ourBlocks cfg c cfg.blocks := by
    rw [← batches_flatten updateClaimMaxBlocks (ourBlocks cfg c cfg.blocks)]
    exact List.mem_flatten.mpr ⟨batch, member, inside⟩
  exact of_decide_eq_true (List.mem_filter.mp listed).2

/-- A pass sends the batches of our blocks in which a block is below the baseline. -/
theorem update_claims_batched (indexed : Indexed cfg c)
    (packet : env.alloc (.claimPacket c.out.length) = true)
    (payload : env.alloc (.claimPayload c.out.length) = true) :
    ∃ groups, Updated cfg env c groups (blockUpdateClaims cfg env c) ∧
      groups.map Group.positions =
        (batches updateClaimMaxBlocks (ourBlocks cfg c cfg.blocks)).filter (due cfg env c) := by
  unfold blockUpdateClaims
  split
  · rename_i idle
    refine ⟨[], updated_none cfg env c, (List.filter_eq_nil_iff.mpr fun batch member => ?_).symm⟩
    simp only [due, List.any_eq_true, decide_eq_true_eq]
    rintro ⟨position, inside, below⟩
    exact idle ((needs_update_iff cfg env c).mpr ⟨position, batch_ours member inside, below⟩)
  simp only [packet, payload, not_true_eq_false, or_self, ↓reduceIte]
  have passes : ∃ groups current, Collected cfg env c cfg.blocks
      (loop (groupBlock cfg env) cfg.blocks ⟨c, [], false⟩) groups current ∧
      Batched cfg env c cfg.blocks groups current :=
    loop_invariant (fun seen work => ∃ groups current,
        Collected cfg env c seen work groups current ∧ Batched cfg env c seen groups current)
      (groupBlock cfg env) cfg.blocks ⟨c, [], false⟩
      ⟨[], [], collected_start cfg env c, rfl, rfl⟩
      fun seen inside work ⟨groups, current, held, batched⟩ =>
        have ⟨groups, current, next, advance⟩ := collected_next indexed inside held
        ⟨groups, current, next, batched_next batched advance⟩
  obtain ⟨groups, current, held, batched⟩ := passes
  obtain ⟨out, waits⟩ := batched
  split
  · rename_i sending
    have below := held.send.mp sending
    have last : due cfg env c current = true := by simpa [due] using below
    rw [held.entries]
    refine ⟨_, send_group_updated indexed held.updated current held.ours
      (Nat.le_of_lt held.room) below held.once, ?_⟩
    rw [List.map_append, out, batches, List.filter_append, ← waits]
    simp [last]
  · rename_i quiet
    have last : due cfg env c current = false := by
      rw [← Bool.not_eq_true, due, List.any_eq_true]
      simpa using mt held.send.mpr quiet
    refine ⟨groups, held.updated, ?_⟩
    rw [out, batches, List.filter_append, ← waits]
    simp [last]

/-- A batch of the list holds the block and one that is below the baseline. -/
def DueWith (cfg : Settings) (env : Env) (c : Config) (list : List Nat) (position : Nat) : Prop :=
  ∃ batch ∈ batches updateClaimMaxBlocks list, position ∈ batch ∧
    ∃ mate ∈ batch, Below cfg env c mate

/-- A block below the baseline needs no other. -/
theorem due_alone {list : List Nat} (listed : position ∈ list) (below : Below cfg env c position) :
    DueWith cfg env c list position := by
  obtain ⟨batch, member, inside⟩ := batch_of listed
  exact ⟨batch, member, inside, position, inside, below⟩

theorem batched_named
    (batched : groups.map Group.positions =
      (batches updateClaimMaxBlocks (ourBlocks cfg c cfg.blocks)).filter (due cfg env c)) :
    position ∈ named groups ↔ DueWith cfg env c (ourBlocks cfg c cfg.blocks) position := by
  rw [named, List.flatMap_def, batched, List.mem_flatten]
  simp only [DueWith, List.mem_filter, due, List.any_eq_true, decide_eq_true_eq]
  grind

theorem told_named (sends : Multicasts env) (indexed : Indexed cfg c)
    (done : Updated cfg env c groups after) : Told c after position ↔ position ∈ named groups := by
  constructor
  · rintro ⟨outs, told, same, member, -, names⟩
    have all : sent c after = outs := by simp [sent, same]
    rw [← updated_mentions indexed done, all]
    exact List.mem_flatMap.mpr ⟨_, member, (mentions_iff told true position).mpr names⟩
  · exact fun member => (named_told sends indexed done member).1

/-- The pass tells of a block when its batch is due, and then the deadline is new. -/
theorem update_claims_told_iff (sends : Multicasts env) (indexed : Indexed cfg c) :
    (Told c (blockUpdateClaims cfg env c) position ↔
      DueWith cfg env c (ourBlocks cfg c cfg.blocks) position) ∧
    (DueWith cfg env c (ourBlocks cfg c cfg.blocks) position →
      (blockUpdateClaims cfg env c).blocks position = renewed cfg env (c.blocks position)) := by
  have memory := sends.2 c.out.length
  obtain ⟨groups, done, batched⟩ := update_claims_batched indexed memory.1 memory.2
  have named : position ∈ named groups ↔ _ := batched_named batched
  rw [told_named sends indexed done, named]
  exact ⟨Iff.rfl, fun due => (named_told sends indexed done (named.mpr due)).2⟩

end Passes

/-! Which blocks the pass of a house keeping run finds. -/

/-- The block is ours when the update pass comes: it is kept, or it is owned in this run. -/
def Holds (cfg : Settings) (env : Env) (c : Config) (position : Nat) : Prop :=
  (c.blocks position).state = .ours ∧ env.now ≤ (c.blocks position).timeout ∨
    asked c position ∧
      (blockOwn cfg env position (checked env.now (c.blocks position))).2 = 0

instance (cfg : Settings) (env : Env) (c : Config) : DecidablePred (Holds cfg env c) :=
  fun _ => inferInstanceAs (Decidable (_ ∨ _))

def heldBlocks (cfg : Settings) (env : Env) (c : Config) : List Nat :=
  (List.range cfg.blocks).filter fun position => Holds cfg env c position

section Turns
variable {cfg : Settings} {env : Env} {c after : Config} {position : Nat} {block : Block}

theorem block_free_timeout (block : Block) : (blockFree block).timeout = block.timeout := by
  unfold blockFree
  simp only
  split <;> split <;> rfl

theorem checked_timeout (now : Time) (block : Block) :
    (checked now block).timeout = block.timeout := by
  unfold checked
  split
  · exact block_free_timeout block
  split
  · rfl
  · split
    · exact block_free_timeout _
    · rfl

theorem promote_ours_iff : (promote cfg env position block).state = .ours ↔
    block.state = .ours ∨ (blockOwn cfg env position block).2 = 0 := by
  unfold promote blockOwn blockAlloc
  split_ifs <;> simp_all

/-- The blocks that are ours after `block_claim`; their deadlines are the old ones. -/
theorem claimed_holds {started : List Nat} {inquiry : Option Bool} (good : Good cfg c)
    (done : Claimed cfg env c started inquiry after) :
    ((after.blocks position).state = .ours ↔ (c.blocks position).state = .ours ∨
      asked c position ∧ (blockOwn cfg env position (c.blocks position)).2 = 0) ∧
    ((after.blocks position).state = .ours →
      (after.blocks position).timeout = (c.blocks position).timeout) := by
  have block := done.blocks position
  have turned : (sifted cfg env c position).state = .ours ↔ (c.blocks position).state = .ours ∨
      asked c position ∧ (blockOwn cfg env position (c.blocks position)).2 = 0 := by
    by_cases full : asked c position
    · have foreign := good.listed.foreign position full.1
      rw [sifted, if_pos full, promote_ours_iff]
      simp [foreign, full]
    · simp [sifted, full]
  have deadline : (sifted cfg env c position).timeout = (c.blocks position).timeout := by
    by_cases full : asked c position
    · rw [sifted, if_pos full]
      exact promote_timeout _
    · simp [sifted, full]
  rw [← turned, ← deadline]
  by_cases new : position ∈ started
  · have free := (done.fresh position new).2
    simp only [if_pos new] at block
    have trying : (after.blocks position).state = .claiming := by
      rw [block]
      split <;> rfl
    simp [trying, free]
  · simp only [if_neg new] at block
    rw [block]
    split
    · exact ⟨Iff.rfl, fun _ => rfl⟩
    · exact ⟨Iff.rfl, fun _ => rfl⟩

/-- The state that `block_check_timeouts` leaves. -/
def swept (cfg : Settings) (now : Time) (c : Config) : Config :=
  { c with blocks := fun k => if k < cfg.blocks then checked now (c.blocks k) else c.blocks k }

/-- Only `block_claim` makes a block ours. -/
theorem adjust_claims (foreign : (c.blocks position).state ≠ .ours)
    (own : (after.blocks position).state = .ours) (done : adjustBlocks cfg env c = some after) :
    ∃ spareLeases, after = blockClaim cfg env (blocksNeeded cfg spareLeases) (unmarked cfg c) := by
  rcases adjust_block done position with ⟨since, same⟩ | ⟨held, -, -⟩ | ⟨spareLeases, -, -, same⟩
  · rw [same] at own
    exact absurd own foreign
  · exact absurd held foreign
  · exact ⟨spareLeases, same⟩

theorem block_own_addresses {other : Block} (same : block.addresses = other.addresses) :
    (blockOwn cfg env position block).2 = (blockOwn cfg env position other).2 := by
  unfold blockOwn blockAlloc
  rw [same]
  split_ifs <;> simp_all

/-- After the check and `block_claim`, the blocks that hold are ours, with their deadlines. -/
theorem claim_holds (good : Good cfg c) (goodSwept : Good cfg (swept cfg env.now c))
    (spareLeases : Nat) (inside : position < cfg.blocks)
    (same : after = blockClaim cfg env (blocksNeeded cfg spareLeases)
      (unmarked cfg (swept cfg env.now c))) :
    ((after.blocks position).state = .ours ↔ Holds cfg env c position) ∧
    ((after.blocks position).state = .ours →
      (after.blocks position).timeout = (c.blocks position).timeout) := by
  have unmarkedGood := unmarked_good goodSwept
  obtain ⟨started, inquiry, claimed⟩ :
      ∃ started inquiry, Claimed cfg env _ started inquiry
        (blockClaim cfg env (blocksNeeded cfg spareLeases) _) :=
    claim_claimed unmarkedGood spareLeases
  rw [← same] at claimed
  have holds : ((after.blocks position).state = .ours ↔ _) ∧ _ :=
    claimed_holds unmarkedGood claimed
  obtain ⟨since, unmarks⟩ := unmarked_block cfg (swept cfg env.now c) position
  have block : (swept cfg env.now c).blocks position = checked env.now (c.blocks position) :=
    if_pos inside
  have listed : position ∈ (unmarked cfg (swept cfg env.now c)).claimingBlocks ↔
      position ∈ c.claimingBlocks := by
    unfold unmarked
    split <;> exact Iff.rfl
  have counts := (checked_quiet env.now (c.blocks position) (good.sound position).usable).2
  have full : asked (unmarked cfg (swept cfg env.now c)) position ↔ asked c position := by
    rw [asked, asked, listed, unmarks, block]
    exact and_congr_right fun _ => by rw [counts]
  have owned : (blockOwn cfg env position
      ((unmarked cfg (swept cfg env.now c)).blocks position)).2 =
      (blockOwn cfg env position (checked env.now (c.blocks position))).2 := by
    apply block_own_addresses
    rw [unmarks, block]
  rw [full, owned, unmarks, block] at holds
  refine ⟨holds.1.trans (or_congr (checked_ours (good.sound position) env.now) Iff.rfl), ?_⟩
  exact fun own => (holds.2 own).trans (checked_timeout env.now _)

/-- `block_claim` sends nothing but an inquiry. -/
theorem claim_told {started : List Nat} {inquiry : Option Bool} {later : Config}
    (claimed : Claimed cfg env c started inquiry after)
    (more : ∃ outs, later.out = after.out ++ outs) :
    Told c later position ↔ Told after later position := by
  obtain ⟨outs, tail⟩ := more
  have front : after.out = c.out ++
      (inquiry.map fun sent => .mcast (inquirePacket cfg after) sent).toList :=
    congrArg Config.out claimed.frame
  constructor
  · rintro ⟨all, told, whole, member, claim, names⟩
    obtain rfl : all = _ ++ outs := by
      rw [tail, front, List.append_assoc] at whole
      exact (List.append_cancel_left whole).symm
    refine ⟨outs, told, tail, ?_, claim, names⟩
    rcases List.mem_append.mp member with asking | telling
    · cases inquiry with
      | none => simp at asking
      | some got =>
          -- the packet of `block_claim` is an inquiry and no claim
          obtain ⟨rfl, -⟩ : told = inquirePacket cfg after ∧ true = got := by simpa using asking
          have other : msgInquire ≠ msgUpdateClaim := by decide
          exact absurd claim other
    · exact telling
  · rintro ⟨all, told, same, member, claim, names⟩
    exact ⟨(inquiry.map fun sent => .mcast (inquirePacket cfg after) sent).toList ++ all, told,
      by rw [same, front, List.append_assoc], List.mem_append_right _ member, claim, names⟩

/-- What is told of the blocks between the start of a run and its end, the update pass tells. -/
theorem adjusted_told {start : Config} {spareLeases : Nat}
    (goodSwept : Good cfg (swept cfg env.now start)) (indexed : Indexed cfg c)
    (same : c = blockClaim cfg env (blocksNeeded cfg spareLeases)
      (unmarked cfg (swept cfg env.now start)))
    (out : after.out = (blockUpdateClaims cfg env c).out) :
    Told start after position ↔ Told c (blockUpdateClaims cfg env c) position := by
  obtain ⟨started, inquiry, claimed⟩ :
      ∃ started inquiry, Claimed cfg env _ started inquiry
        (blockClaim cfg env (blocksNeeded cfg spareLeases) _) :=
    claim_claimed (unmarked_good goodSwept) spareLeases
  have quiet : (unmarked cfg (swept cfg env.now start)).out = start.out := unmarked_out
  have more : ∃ outs, (blockUpdateClaims cfg env c).out = c.out ++ outs := by
    obtain ⟨groups, done, -⟩ := update_claims_updated cfg env c indexed
    exact ⟨_, congrArg Config.out done.frame⟩
  rw [← same] at claimed
  rw [← claim_told claimed more, Told, Told, out, quiet]

/-- The update pass finds the blocks that hold, with the deadlines they had before the run. -/
theorem adjusted_due {start : Config} {spareLeases : Nat} (good : Good cfg start)
    (goodSwept : Good cfg (swept cfg env.now start))
    (same : c = blockClaim cfg env (blocksNeeded cfg spareLeases)
      (unmarked cfg (swept cfg env.now start))) :
    DueWith cfg env c (ourBlocks cfg c cfg.blocks) position ↔
      DueWith cfg env start (heldBlocks cfg env start) position := by
  have holds (k : Nat) (inside : k < cfg.blocks) :
      ((c.blocks k).state = .ours ↔ Holds cfg env start k) ∧ _ :=
    claim_holds good goodSwept spareLeases inside same
  have list : ourBlocks cfg c cfg.blocks = heldBlocks cfg env start := by
    apply List.filter_congr
    intro k member
    have inside := List.mem_range.mp member
    rw [decide_eq_decide, OursAt, (holds k inside).1]
    exact and_iff_right inside
  rw [← list]
  refine exists_congr fun batch => and_congr_right fun member => and_congr_right fun _ =>
    exists_congr fun mate => and_congr_right fun inside => ?_
  have ours := batch_ours member inside
  rw [Below, Below, (holds mate ours.1).2 ours.2]

end Turns

/-- A block that comes to be ours in a house keeping run is announced in the same run,
with a new deadline, exactly when a block in its packet is below the baseline. -/
theorem owned_announced_iff {cfg : Settings} {env : Env} {s : NodeState} {after : Config}
    {position : Nat} (reached : Reachable cfg s) (sends : Multicasts env)
    (done : handle cfg env .houseKeeping s.config = some after)
    (foreign : (s.config.blocks position).state ≠ .ours)
    (own : (after.blocks position).state = .ours) :
    Told s.config after position ∧
        (after.blocks position).timeout = env.now + cfg.blockTimeout.toNat ↔
      DueWith cfg env s.config (heldBlocks cfg env s.config) position := by
  have good := reachable_good reached
  obtain ⟨middle, adjusted, check, goodSwept, -, adjust, adjustedGood, blocks, out⟩ :=
    house_keeping_passes good done
  obtain rfl : middle = swept cfg env.now s.config :=
    Option.some.inj (check.symm.trans (check_timeouts_checked good.sound env.now))
  have indexed := sound_indexed adjustedGood.sound
  have owned : (adjusted.blocks position).state = .ours := by
    rw [← update_claims_state adjustedGood.sound, ← blocks]
    exact own
  have idle : ((swept cfg env.now s.config).blocks position).state ≠ .ours := by
    simp only [swept]
    split
    · rw [Ne, checked_ours (good.sound position) env.now]
      exact fun ours => foreign ours.1
    · exact foreign
  obtain ⟨spareLeases, same⟩ := adjust_claims idle owned adjust
  have told : Told s.config after position ↔
      Told adjusted (blockUpdateClaims cfg env adjusted) position :=
    adjusted_told goodSwept indexed same out
  have mates : DueWith cfg env adjusted (ourBlocks cfg adjusted cfg.blocks) position ↔ _ :=
    adjusted_due good goodSwept same
  obtain ⟨announced, fresh⟩ : (Told adjusted _ position ↔ _) ∧ _ :=
    update_claims_told_iff sends indexed
  rw [mates] at announced fresh
  rw [told, announced, blocks]
  refine and_iff_left_of_imp fun due => ?_
  rw [fresh due]
  rfl

-- The block was begun at 1000, its deadline of 1015 is below the baseline of 1048.
theorem owned_announced_small : ∃ (s : NodeState) (after : Config), Reachable (smallNode 1) s ∧
    (s.config.blocks 0).state = .claiming ∧
    handle (smallNode 1) (calmEnv 1003) .houseKeeping s.config = some after ∧
    (after.blocks 0).state = .ours ∧ Told s.config after 0 ∧ (after.blocks 0).timeout = 1063 := by
  have evaluated : (runEvents (smallNode 1) smallStart [(calmEnv 1000, .houseKeeping),
      (calmEnv 1001, .houseKeeping), (calmEnv 1002, .houseKeeping)]).any (fun s =>
        (handle (smallNode 1) (calmEnv 1003) .houseKeeping s.config).any fun after =>
          (s.config.blocks 0).state = .claiming ∧ (after.blocks 0).state = .ours ∧
          0 ∈ heldBlocks (smallNode 1) (calmEnv 1003) s.config ∧
          Below (smallNode 1) (calmEnv 1003) s.config 0) = true := by decide +kernel
  obtain ⟨s, run, rest⟩ := (Option.any_eq_true _ _).mp evaluated
  obtain ⟨after, handled, facts⟩ := (Option.any_eq_true _ _).mp rest
  obtain ⟨claiming, own, held, below⟩ := of_decide_eq_true facts
  have reached : Reachable (smallNode 1) s := ⟨_, small_runs (fun _ _ => trivial) run⟩
  have sends : Multicasts (calmEnv 1003) := by simp [Multicasts, calmEnv]
  have announced := (owned_announced_iff reached sends handled (by simp [claiming]) own).mpr
    (due_alone held below)
  exact ⟨s, after, reached, claiming, handled, own, announced.1, announced.2⟩

-- A claim of another node, heard after the third inquiry, leaves a deadline of 1257. The
-- block is owned nevertheless and nothing is sent.
theorem owned_unannounced : ∃ (s : NodeState) (after : Config), Reachable (smallNode 1) s ∧
    Multicasts (calmEnv 1003) ∧ (s.config.blocks 0).state ≠ .ours ∧
    handle (smallNode 1) (calmEnv 1003) .houseKeeping s.config = some after ∧
    (after.blocks 0).state = .ours ∧ ¬ Told s.config after 0 ∧
    (after.blocks 0).timeout ≠ 1003 + (smallNode 1).blockTimeout.toNat := by
  have evaluated : (runEvents (smallNode 1) smallStart [(calmEnv 1000, .houseKeeping),
      (calmEnv 1001, .houseKeeping), (calmEnv 1002, .houseKeeping),
      (calmEnv 1002, smallClaim 3 255)]).any (fun s =>
        (handle (smallNode 1) (calmEnv 1003) .houseKeeping s.config).any fun after =>
          (s.config.blocks 0).state ≠ .ours ∧ (after.blocks 0).state = .ours ∧
          after.out.length = s.config.out.length ∧ (after.blocks 0).timeout = 1257) = true := by
    decide +kernel
  obtain ⟨s, run, rest⟩ := (Option.any_eq_true _ _).mp evaluated
  obtain ⟨after, handled, facts⟩ := (Option.any_eq_true _ _).mp rest
  obtain ⟨foreign, own, silent, timeout⟩ := of_decide_eq_true facts
  refine ⟨s, after, ⟨_, small_runs (fun _ _ => trivial) run⟩, by simp [Multicasts, calmEnv],
    foreign, handled, own, ?_, by rw [timeout]; decide⟩
  rintro ⟨outs, told, same, member, -⟩
  have none : outs.length = 0 := by
    have grown := congrArg List.length same
    rw [List.length_append] at grown
    omega
  rw [List.length_eq_zero_iff.mp none] at member
  cases member

end Ddhcpd.NewlyOwned

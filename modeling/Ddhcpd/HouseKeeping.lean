import Ddhcpd.Calls

/-!
House keeping and one of our blocks. The pass may free the block when it is late or no
longer needed; if the block is still ours afterwards, all that happened to its table is
that expired leases were released.
-/

namespace Ddhcpd.HouseKeeping
open Types Leases Blocks BlockPackets Dhcp Node Refresh Claim Invariant Calls

section Passes
variable {cfg : Settings} {env : Env} {c after : Config} {position : Nat}

theorem claimed_unlisted_kept {started : List Nat} {inquiry : Option Bool}
    (done : Claimed cfg env c started inquiry after) (unlisted : position ∉ c.claimingBlocks)
    (own : (c.blocks position).state = .ours ∨ (after.blocks position).state = .ours) :
    after.blocks position = c.blocks position := by
  have same : sifted cfg env c position = c.blocks position := by simp [sifted, asked, unlisted]
  have block := done.blocks position
  simp only [same] at block
  have unstarted : position ∉ started := by
    intro member
    have free := (done.fresh position member).2
    rw [same] at free
    rcases own with before | later
    · rw [free] at before
      contradiction
    · rw [block, if_pos member] at later
      split at later <;> simp [counted, opened] at later
  have outside : position ∉ after.claimingBlocks := by
    rw [done.frame]
    simp [unlisted, unstarted]
  simpa [unstarted, outside] using block

theorem unmarked_unlisted (unlisted : position ∉ c.claimingBlocks) :
    position ∉ (unmarked cfg c).claimingBlocks := by
  unfold unmarked
  split <;> exact unlisted

/-- A block that was not on the list and is ours afterwards was not touched. -/
theorem adjust_table (good : Good cfg c) (unlisted : position ∉ c.claimingBlocks)
    (done : adjustBlocks cfg env c = some after) (own : (after.blocks position).state = .ours) :
    (c.blocks position).state = .ours ∧
      (after.blocks position).addresses = (c.blocks position).addresses := by
  rcases adjust_block done position with ⟨since, same⟩ | ⟨-, -, same⟩ | ⟨spareLeases, -, -, rfl⟩
  · rw [same] at own ⊢
    exact ⟨own, rfl⟩
  · simp [same, block_free_freed (good.sound position).usable, freed] at own
  · rcases unmarked_block cfg c position with ⟨since, unmarks⟩
    rcases claim_claimed (unmarked_good good) spareLeases with ⟨started, inquiry, claimed⟩
    have kept := claimed_unlisted_kept claimed (unmarked_unlisted unlisted) (.inr own)
    rw [kept, unmarks] at own ⊢
    exact ⟨own, rfl⟩

theorem adjust_keeps (good : Good cfg c) (own : (c.blocks position).state = .ours)
    (needed : ¬ Droppable cfg env.now (c.blocks position))
    (done : adjustBlocks cfg env c = some after) : (after.blocks position).state = .ours := by
  rcases adjust_block done position with ⟨since, same⟩ | ⟨-, due, -⟩ | ⟨spareLeases, -, -, rfl⟩
  · rw [same]
    exact own
  · exact absurd due needed
  · rcases unmarked_block cfg c position with ⟨since, unmarks⟩
    rcases claim_claimed (unmarked_good good) spareLeases with ⟨started, inquiry, claimed⟩
    have ours : ((unmarked cfg c).blocks position).state = .ours := by
      rw [unmarks]
      exact own
    have unlisted : position ∉ c.claimingBlocks := fun member =>
      good.listed.foreign position member own
    rw [claimed_unlisted_kept claimed (unmarked_unlisted unlisted) (.inl ours)]
    exact ours

theorem checked_own {block : Block} {table : List Lease} (own : block.state = .ours)
    (full : Full block table) (now : Time) :
    checked now block = if block.timeout < now then blockFree block
      else sweptBlock now block table := by
  simp [checked, own, full.1]

/-- What the passes of a house keeping run leave of the list, the blocks and the output. -/
theorem house_keeping_passes (good : Good cfg c) (done : houseKeeping cfg env c = some after) :
    ∃ checked adjusted, blockCheckTimeouts cfg env.now c = some checked ∧ Good cfg checked ∧
      checked.claimingBlocks = c.claimingBlocks ∧
      adjustBlocks cfg env checked = some adjusted ∧ Good cfg adjusted ∧
      after.blocks = (blockUpdateClaims cfg env adjusted).blocks ∧
      after.out = (blockUpdateClaims cfg env adjusted).out := by
  rcases house_keeping_splits good done with
    ⟨checked, adjusted, check, checkedGood, adjust, adjustedGood, rfl⟩
  have list := (check_timeouts_good good.sound check).2.list
  exact ⟨checked, adjusted, check, checkedGood, list, adjust, adjustedGood, rfl, rfl⟩

theorem update_claims_state (sound : Sound cfg c) :
    ((blockUpdateClaims cfg env c).blocks position).state = (c.blocks position).state := by
  have updated : (blockUpdateClaims cfg env c).blocks position = c.blocks position ∨ _ :=
    update_claims_block (sound_indexed sound) position
  rcases updated with same | ⟨-, renewed⟩
  · rw [same]
  · rw [renewed]
    rfl

def multicast : Output → Prop
  | .mcast _ _ => True
  | _ => False

theorem announces_multicast (output : Output) (claim : announces output) : multicast output := by
  cases output with
  | mcast => trivial
  | direct => exact claim
  | dhcp => exact claim
  | hook => exact claim

theorem unmarked_out : (unmarked cfg c).out = c.out := by
  unfold unmarked
  split <;> rfl

/-- Between the timeouts and the update pass nothing is sent but an inquiry. -/
theorem adjust_emits (good : Good cfg c) (done : adjustBlocks cfg env c = some after) :
    Emits (fun output => ∃ got, output = .mcast (inquirePacket cfg after) got) c after := by
  rcases adjust_cases done with dropped | rfl | ⟨spareLeases, -, -, rfl⟩
  · exact emits_same (drop_unused_out dropped)
  · exact emits_same unmarked_out
  · rcases claim_claimed (unmarked_good good) spareLeases with ⟨started, inquiry, claimed⟩
    refine ⟨_, by rw [congrArg Config.out claimed.frame, unmarked_out], fun output member => ?_⟩
    simp only [Option.mem_toList, Option.map_eq_some_iff] at member
    rcases member with ⟨got, -, rfl⟩
    exact ⟨got, rfl⟩

/-- House keeping sends to all nodes only. -/
theorem house_keeping_emits (good : Good cfg c) (done : houseKeeping cfg env c = some after) :
    Emits multicast c after := by
  rcases house_keeping_passes good done with ⟨middle, adjusted, check, checkedGood, -, adjust,
    adjustedGood, -, out⟩
  have silent : Emits multicast c middle := by
    rcases Option.map_eq_some_iff.mp check with ⟨blocks, -, rfl⟩
    exact emits_same rfl
  have last : Emits multicast adjusted after := by
    rw [Emits, out]
    exact emits_mono (update_claims_emits adjustedGood.sound) announces_multicast
  have asks : Emits multicast middle adjusted := by
    apply emits_mono (adjust_emits checkedGood adjust)
    rintro _ ⟨got, rfl⟩
    trivial
  exact emits_trans silent (emits_trans asks last)

/-- A block of ours that survives the pass has only lost its expired leases. -/
theorem house_keeping_table (good : Good cfg c) (own : OursAt cfg c position)
    (done : houseKeeping cfg env c = some after) (survives : (after.blocks position).state = .ours) :
    (after.blocks position).addresses =
      (c.blocks position).addresses.map (List.map (Lease.expired env.now)) := by
  rcases house_keeping_passes good done with ⟨middle, adjusted, check, checkedGood, list, adjust,
    adjustedGood, blocks, -⟩
  have unlisted : position ∉ c.claimingBlocks := fun member =>
    good.listed.foreign position member own.2
  rw [blocks, update_claims_state adjustedGood.sound] at survives
  rcases adjust_table checkedGood (list ▸ unlisted) adjust survives with ⟨kept, table⟩
  rw [blocks, update_claims_addresses adjustedGood.sound, table]
  rcases sound_own_full (good.sound position) own.2 with ⟨entries, full⟩
  rw [check_timeouts_checked good.sound] at check
  cases check
  simp only [own.1, ↓reduceIte, checked_own own.2 full] at kept ⊢
  split at kept
  · rw [block_free_freed (good.sound position).usable] at kept
    simp [freed] at kept
  · rename_i early
    rw [if_neg early, full.1]
    rfl

theorem house_keeping_keeps (good : Good cfg c) (own : OursAt cfg c position)
    (live : env.now ≤ (c.blocks position).timeout)
    (needed : ¬ Droppable cfg env.now (c.blocks position))
    (done : houseKeeping cfg env c = some after) :
    (after.blocks position).state = .ours ∧ (after.blocks position).addresses =
      (c.blocks position).addresses.map (List.map (Lease.expired env.now)) := by
  suffices survives : (after.blocks position).state = .ours by
    exact ⟨survives, house_keeping_table good own done survives⟩
  rcases house_keeping_passes good done with ⟨middle, adjusted, check, checkedGood, -, adjust,
    adjustedGood, blocks, -⟩
  rcases sound_own_full (good.sound position) own.2 with ⟨table, full⟩
  have swept : middle.blocks position = sweptBlock env.now (c.blocks position) table := by
    rw [check_timeouts_checked good.sound] at check
    cases check
    simp only [own.1, ↓reduceIte, checked_own own.2 full, Nat.not_lt_of_le live]
  rw [blocks, update_claims_state adjustedGood.sound]
  exact adjust_keeps checkedGood (by rw [swept]; exact own.2) (by rw [swept]; exact needed) adjust

end Passes

end Ddhcpd.HouseKeeping

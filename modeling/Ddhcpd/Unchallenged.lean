import Ddhcpd.LastClaim
import Ddhcpd.ClaimingList
import Ddhcpd.Exclusion
import Mathlib.Data.Finset.Card

/-!
Claims that nobody contests. A node that is short of leases asks for as many blocks as it needs, or
for all that are free, and if no packet of the swarm is about a block it asked for, three more runs
of house keeping make the block its own. Packets about other blocks and clients may come in between.
-/

namespace Ddhcpd.Unchallenged
open Types Loop Leases Blocks BlockPackets BlockMoves Packet Node Path Refresh Claim Invariant Calls
open Attempt Defence Hearing HouseKeeping Network Exclusion LastClaim

variable {cfg : Settings} {env : Env} {event : Event} {c after checked : Config} {position count : Nat}
  {deadline : Time}

/-- The node has asked for the block so many times. -/
structure Trying (c : Config) (position count : Nat) (deadline : Time) : Prop where
  listed : position ∈ c.claimingBlocks
  state : (c.blocks position).state = .claiming
  bare : (c.blocks position).addresses = none
  counts : (c.blocks position).claimingCounts.toNat = count
  deadline : (c.blocks position).timeout = deadline

/-- The run of house keeping calls `block_claim`. -/
def Claims (cfg : Settings) (env : Env) (c : Config) : Prop :=
  ∃ checked, blockCheckTimeouts cfg env.now c = some checked ∧ Wants cfg checked

/-! Events other than house keeping. -/

theorem trying_same (trying : Trying c position count deadline)
    (list : after.claimingBlocks = c.claimingBlocks)
    (block : after.blocks position = c.blocks position) : Trying after position count deadline := by
  refine ⟨list ▸ trying.listed, ?_, ?_, ?_, ?_⟩ <;> rw [block]
  · exact trying.state
  · exact trying.bare
  · exact trying.counts
  · exact trying.deadline

theorem entries_unnamed {packet : McastPacket} {sender : In6Addr} {list : List BlockPayload}
    (indexed : Indexed cfg c) (kind : packet.command = msgUpdateClaim ∨ packet.command = msgInquire)
    (members : ∀ entry ∈ list, entry ∈ entries packet)
    (others : ∀ entry ∈ list, entry.blockIndex.toNat ≠ position)
    (foreign : (c.blocks position).state ≠ .ours) :
    (list.foldl (processEntry cfg env packet sender) c).blocks position = c.blocks position := by
  induction list generalizing c with
  | nil => rfl
  | cons entry rest ih =>
      have same : (processEntry cfg env packet sender c entry).blocks position = c.blocks position := by
        have other : (processEntry cfg env packet sender c entry).blocks position =
            c.blocks position ∨ _ :=
          process_entry_other indexed fun same => others entry List.mem_cons_self same.symm
        exact other.resolve_right fun own => foreign own.1
      rw [List.foldl_cons, ih (process_entry_indexed indexed kind (members entry List.mem_cons_self))
        (fun other member => members other (List.mem_cons_of_mem _ member))
        (fun other member => others other (List.mem_cons_of_mem _ member)) (same ▸ foreign)]
      exact same

theorem datagram_unnamed {buffer : List UInt8} {len : Nat} {sender : In6Addr} (good : Good cfg c)
    (unheard : ¬ Mentions cfg position (env, .mcast buffer len sender))
    (foreign : (c.blocks position).state ≠ .ours) :
    (ddhcpBlockProcess cfg env buffer len sender c).blocks position = c.blocks position := by
  rcases datagram_cases cfg env buffer len sender c with ⟨packet, hears, handled⟩ | ⟨-, ignored⟩
  · obtain ⟨-, -, -, kind⟩ := hears_datagram.mp hears
    rw [handled]
    refine entries_unnamed (sound_indexed good.sound) kind (fun _ member => member) ?_ foreign
    exact fun entry member names => unheard ⟨packet, sender, hears, entry, member, names⟩
  · rw [ignored]

/-- Lease handlers give no table to a block that is not claimed by another node. -/
theorem lease_moves_bare (moves : LeaseMoves.Moves cfg env event c after)
    (state : (c.blocks position).state ≠ .claimed) (bare : (c.blocks position).addresses = none) :
    (after.blocks position).addresses = none := by
  induction moves with
  | refl => exact bare
  | @tail middle last front move ih =>
      have unclaimed : (middle.blocks position).state ≠ .claimed :=
        lease_frame_state (lease_moves_frame front) position ▸ state
      cases move with
      | @write place index lease changed inside entry =>
          have other : position ≠ place := by
            rintro rfl
            rw [leaseAt, ih] at entry
            contradiction
          rw [set_block_other _ _ _ _ other]
          exact ih
      | @allocate place inside claimed =>
          have other : position ≠ place := by
            rintro rfl
            exact unclaimed claimed
          rw [set_block_other _ _ _ _ other]
          exact ih
      | @unmark place inside own =>
          by_cases here : position = place
          · subst here
            rw [set_block_same]
            exact ih
          · rw [set_block_other _ _ _ _ here]
            exact ih
      | _ => exact ih

theorem own_event_moves (house : event ≠ .houseKeeping)
    (direct : ∀ buffer len sender, event ≠ .mcast buffer len sender)
    (done : handle cfg env event c = some after) : LeaseMoves.Moves cfg env event c after := by
  cases event with
  | houseKeeping => contradiction
  | mcast buffer len sender => exact absurd rfl (direct buffer len sender)
  | direct buffer len sender => exact HandlerMoves.direct_moves done
  | client packet =>
      obtain ⟨⟨final, value⟩, handled, rfl⟩ := Option.map_eq_some_iff.mp done
      exact HandlerMoves.client_moves handled
  | control buffer len =>
      cases done
      exact HandlerMoves.control_moves buffer len

theorem event_trying (good : Good cfg c) (trying : Trying c position count deadline)
    (house : event ≠ .houseKeeping) (unheard : ¬ Mentions cfg position (env, event))
    (done : handle cfg env event c = some after) : Trying after position count deadline := by
  by_cases datagram : ∃ buffer len sender, event = .mcast buffer len sender
  · have list := (received_good good.sound house done).2.list
    obtain ⟨buffer, len, sender, rfl⟩ := datagram
    cases done
    refine trying_same trying list (datagram_unnamed good unheard ?_)
    simp [trying.state]
  · have moves := own_event_moves house
      (fun buffer len sender same => datagram ⟨buffer, len, sender, same⟩) done
    have frame := lease_moves_frame moves
    have claim := frame.claims position
    refine ⟨frame.list ▸ trying.listed, ?_, ?_, ?_, ?_⟩
    · rw [lease_frame_state frame, trying.state]
    · exact lease_moves_bare moves (by simp [trying.state]) trying.bare
    · rw [← trying.counts]
      exact congrArg (fun block => block.claimingCounts.toNat) claim
    · rw [← trying.deadline]
      exact congrArg (fun block => block.timeout) claim

/-! House keeping. -/

theorem checked_trying (trying : Trying c position count deadline) (early : env.now ≤ deadline) :
    Invariant.checked env.now (c.blocks position) = c.blocks position := by
  have live : ¬ ((c.blocks position).timeout < env.now ∧ (c.blocks position).state ≠ .free) := by
    rw [trying.deadline]
    exact fun late => Nat.not_lt_of_le early late.1
  simp [Invariant.checked, if_neg live, trying.bare]

theorem wants_claims (wants : Wants cfg c) (done : adjustBlocks cfg env c = some after) :
    ∃ spareLeases, blockNumFreeLeases cfg c = some spareLeases ∧ 0 < blocksNeeded cfg spareLeases ∧
      after = blockClaim cfg env (blocksNeeded cfg spareLeases) (unmarked cfg c) := by
  obtain ⟨spareLeases, spare, short⟩ := wants
  refine ⟨spareLeases, spare, short, ?_⟩
  simp only [adjustBlocks, spare, Option.bind_eq_bind, Option.bind_some, Int.not_lt.mpr (Int.le_of_lt short),
    ↓reduceIte, short] at done
  exact (Option.some.inj done).symm

/-- The call asks for the block once more. -/
theorem claimed_trying {started : List Nat} {inquiry : Option Bool} (flawless : Flawless env)
    (done : Claimed cfg env c started inquiry after) (trying : Trying c position count deadline)
    (below : count < 3) : Trying after position (count + 1) deadline := by
  have short : (c.blocks position).claimingCounts ≠ 3 := by
    intro full
    have counts := trying.counts
    rw [full] at counts
    simp at counts
    omega
  have same : sifted cfg env c position = c.blocks position := by
    rw [sifted, if_neg fun asked => short asked.2]
  have old : position ∉ started := by
    intro new
    have free := (done.fresh position new).2
    rw [same, trying.state] at free
    contradiction
  have list : after.claimingBlocks = c.claimingBlocks.filter (going c) ++ started := by rw [done.frame]
  have listed : position ∈ after.claimingBlocks := by
    rw [list]
    apply List.mem_append_left
    simp [trying.listed, going, short, trying.state]
  have asks : inquiry = some true := by
    cases sends : inquiry with
    | none =>
        have empty := done.tells (flawless.1 _) (flawless.1 _) sends
        rw [empty] at listed
        contradiction
    | some got => rw [done.answer got sends, flawless.2]
  have block := done.blocks position
  simp only [asks, listed, old, same, and_self, ↓reduceIte] at block
  refine ⟨listed, ?_, ?_, ?_, ?_⟩ <;> rw [block]
  · exact trying.state
  · exact trying.bare
  · have counts := trying.counts
    rw [counted, UInt8.toNat_add, counts]
    simp
    omega
  · exact trying.deadline

/-- The call owns the block after three inquiries, whether it has timed out or not. -/
theorem claimed_full {started : List Nat} {inquiry : Option Bool} (flawless : Flawless env)
    (done : Claimed cfg env c started inquiry after) (listed : position ∈ c.claimingBlocks)
    (full : (c.blocks position).claimingCounts = 3) : (after.blocks position).state = .ours := by
  have own : (sifted cfg env c position).state = .ours := by
    rw [sifted, if_pos ⟨listed, full⟩]
    exact promote_ours flawless.1 _
  have old : position ∉ started := by
    intro new
    have free := (done.fresh position new).2
    rw [own] at free
    contradiction
  rw [done.blocks]
  simp only [old, ↓reduceIte]
  split
  · exact own
  · exact own

theorem unmarked_list (cfg : Settings) (c : Config) :
    (unmarked cfg c).claimingBlocks = c.claimingBlocks := by
  unfold unmarked
  split <;> rfl

theorem unmarked_trying (trying : Trying c position count deadline) :
    Trying (unmarked cfg c) position count deadline := by
  obtain ⟨since, same⟩ := unmarked_block cfg c position
  refine ⟨(unmarked_list cfg c).symm ▸ trying.listed, ?_, ?_, ?_, ?_⟩ <;> rw [same]
  · exact trying.state
  · exact trying.bare
  · exact trying.counts
  · exact trying.deadline

/-- A run of house keeping that claims, from its timeouts to its claim updates. -/
theorem claiming_run (good : Good cfg c) (claims : Claims cfg env c)
    (done : houseKeeping cfg env c = some after) : ∃ swept spareLeases started inquiry claimed,
      blockCheckTimeouts cfg env.now c = some swept ∧ Good cfg swept ∧
      (∀ k < cfg.blocks, swept.blocks k = Invariant.checked env.now (c.blocks k)) ∧
      swept.claimingBlocks = c.claimingBlocks ∧
      blockNumFreeLeases cfg swept = some spareLeases ∧ 0 < blocksNeeded cfg spareLeases ∧
      claimed = blockClaim cfg env (blocksNeeded cfg spareLeases) (unmarked cfg swept) ∧
      Claimed cfg env (unmarked cfg swept) started inquiry claimed ∧ Good cfg claimed ∧
      after.claimingBlocks = claimed.claimingBlocks ∧
      after.blocks = (blockUpdateClaims cfg env claimed).blocks := by
  obtain ⟨swept, adjusted, check, sweptGood, adjust, adjustedGood, rfl⟩ := house_keeping_splits good done
  obtain ⟨other, again, wants⟩ := claims
  obtain rfl : swept = other := Option.some.inj (check.symm.trans again)
  obtain ⟨spareLeases, spare, short, rfl⟩ := wants_claims wants adjust
  obtain ⟨started, inquiry, claimed⟩ : ∃ started inquiry, Claimed cfg env (unmarked cfg swept) started
      inquiry (blockClaim cfg env (blocksNeeded cfg spareLeases) (unmarked cfg swept)) :=
    claim_claimed (unmarked_good sweptGood) spareLeases
  have blocks : ∀ k < cfg.blocks, swept.blocks k = Invariant.checked env.now (c.blocks k) := by
    intro k inside
    have result := check
    rw [check_timeouts_checked good.sound] at result
    cases result
    exact if_pos inside
  exact ⟨swept, spareLeases, started, inquiry, _, check, sweptGood, blocks,
    (check_timeouts_good good.sound check).2.list, spare, short, rfl, claimed, adjustedGood,
    (update_claims_quiet adjustedGood.sound).list, rfl⟩

theorem unowned_kept (good : Good cfg c) (trying : Trying c position count deadline)
    (list : after.claimingBlocks = c.claimingBlocks)
    (updated : after.blocks = (blockUpdateClaims cfg env c).blocks) :
    Trying after position count deadline := by
  refine trying_same trying list ?_
  have kept : (blockUpdateClaims cfg env c).blocks position = c.blocks position ∨ _ :=
    update_claims_block (sound_indexed good.sound) position
  rw [updated]
  exact kept.resolve_right fun own => absurd (own.1.symm.trans trying.state) (by decide)

theorem run_trying (flawless : Flawless env) (good : Good cfg c) (claims : Claims cfg env c)
    (trying : Trying c position count deadline) (below : count < 3) (early : env.now ≤ deadline)
    (done : houseKeeping cfg env c = some after) : Trying after position (count + 1) deadline := by
  obtain ⟨swept, spareLeases, started, inquiry, claimed, -, -, blocks, sweptList, -, -, -, asked,
    claimedGood, list, updated⟩ := claiming_run good claims done
  have inside := good.listed.inside position trying.listed
  have before : Trying swept position count deadline :=
    trying_same trying sweptList ((blocks position inside).trans (checked_trying trying early))
  exact unowned_kept claimedGood (claimed_trying flawless asked (unmarked_trying before) below) list updated

theorem run_full (flawless : Flawless env) (good : Good cfg c) (claims : Claims cfg env c)
    (trying : Trying c position 3 deadline) (done : houseKeeping cfg env c = some after) :
    (after.blocks position).state = .ours := by
  obtain ⟨swept, spareLeases, started, inquiry, claimed, -, -, blocks, sweptList, -, -, -, asked,
    claimedGood, list, updated⟩ := claiming_run good claims done
  have inside := good.listed.inside position trying.listed
  obtain ⟨since, same⟩ := unmarked_block cfg swept position
  have listed : position ∈ (unmarked cfg swept).claimingBlocks := by
    rw [unmarked_list, sweptList]
    exact trying.listed
  have full : ((unmarked cfg swept).blocks position).claimingCounts = 3 := by
    rw [same]
    simp only [blocks position inside]
    rw [(checked_quiet env.now _ (good.sound position).usable).2]
    exact UInt8.toNat_inj.mp trying.counts
  rw [updated, update_claims_state claimedGood.sound]
  exact claimed_full flawless asked listed full

/-! How many blocks a run starts to claim. -/

def freeBlocks (cfg : Settings) (c : Config) : Finset Nat :=
  (Finset.range cfg.blocks).filter fun k => (c.blocks k).state = .free

theorem find_free_none {call : Nat} (none : blockFindFree cfg env call c = none) :
    freeBlocks cfg c = ∅ := by
  rw [blockFindFree, List.getElem?_eq_none_iff] at none
  have empty : ((List.range cfg.blocks).filter fun k => (c.blocks k).state = .free).length = 0 := by
    by_contra some
    exact absurd (Nat.mod_lt (env.rand call) (Nat.pos_of_ne_zero some)) (Nat.not_lt_of_le none)
  rw [List.length_eq_zero_iff, List.filter_eq_nil_iff] at empty
  refine Finset.filter_eq_empty_iff.mpr fun k member free => ?_
  exact empty k (List.mem_range.mpr (Finset.mem_range.mp member)) (by simpa using free)

/-- Each search takes one free block to the list, until none is left. -/
theorem fresh_progress (cfg : Settings) (env : Env) (call : Nat) (c : Config) :
    (freeBlocks cfg c = ∅ ∧ claimFresh cfg env call c = c) ∨
      (freeBlocks cfg (claimFresh cfg env call c)).card + 1 = (freeBlocks cfg c).card ∧
        (claimFresh cfg env call c).claimingBlocks.length = c.claimingBlocks.length + 1 := by
  unfold claimFresh
  split
  · rename_i position found
    obtain ⟨inside, free⟩ := find_free_some found
    right
    refine ⟨?_, by simp⟩
    have member : position ∈ freeBlocks cfg c := by simp [freeBlocks, inside, free]
    rw [← Finset.card_erase_add_one member]
    congr 2
    ext k
    by_cases here : k = position
    · simp [freeBlocks, here]
    · simp [freeBlocks, here, set_block_other]
  · rename_i none
    exact .inl ⟨find_free_none none, rfl⟩

theorem fresh_loop (env : Env) (calls : Nat) (c : Config) :
    (loop (claimFresh cfg env) calls c).claimingBlocks.length =
      c.claimingBlocks.length + min calls (freeBlocks cfg c).card := by
  have counts := loop_invariant (fun done after =>
      after.claimingBlocks.length = c.claimingBlocks.length + min done (freeBlocks cfg c).card ∧
        (freeBlocks cfg after).card + min done (freeBlocks cfg c).card = (freeBlocks cfg c).card)
    (claimFresh cfg env) calls c (by simp) ?_
  · exact counts.1
  rintro done - after ⟨length, left⟩
  rcases fresh_progress cfg env done after with ⟨none, same⟩ | ⟨fewer, longer⟩
  · rw [none, Finset.card_empty] at left
    rw [same, none, Finset.card_empty]
    omega
  · omega

theorem claim_empty_list (env : Env) {numBlocks : Int} (empty : c.claimingBlocks = [])
    (amount : Counted c) : (blockClaim cfg env numBlocks c).claimingBlocks.length =
      min numBlocks.toNat (freeBlocks cfg c).card := by
  have zero : c.claimingBlocksAmount.toNat = 0 := by rw [amount, empty, List.length_nil]
  simp only [blockClaim, empty, List.foldl_nil, zero, Int.natCast_zero, Int.sub_zero]
  rw [(ClaimingList.send_inquire_list cfg env _).1, fresh_loop, empty, List.length_nil, Nat.zero_add]

/-- What a run of house keeping begins that finds nothing on the list of blocks to claim. -/
structure Begins (cfg : Settings) (env : Env) (swept after : Config) (needed : Int)
    (started : List Nat) : Prop where
  once : started.Nodup
  many : started.length = min needed.toNat (freeBlocks cfg swept).card
  free : ∀ position ∈ started, position ∈ freeBlocks cfg swept
  trying : ∀ position ∈ started,
    Trying after position 1 (env.now + cfg.tentativeTimeout.toNat)

theorem free_unmarked (cfg : Settings) (c : Config) :
    freeBlocks cfg (unmarked cfg c) = freeBlocks cfg c := by
  ext position
  obtain ⟨since, same⟩ := unmarked_block cfg c position
  simp [freeBlocks, same]

theorem started_trying {started : List Nat} {inquiry : Option Bool} (flawless : Flawless env)
    (sound : Sound cfg c) (done : Claimed cfg env c started inquiry after)
    (empty : c.claimingBlocks = []) (new : position ∈ started) :
    Trying after position 1 (env.now + cfg.tentativeTimeout.toNat) := by
  have same : sifted cfg env c position = c.blocks position := by
    rw [sifted, if_neg fun full => absurd full.1 (by simp [empty])]
  have free : (c.blocks position).state = .free := same ▸ (done.fresh position new).2
  have listed : position ∈ after.claimingBlocks := by
    have list : after.claimingBlocks = c.claimingBlocks.filter (going c) ++ started := by
      rw [done.frame]
    rw [list]
    exact List.mem_append_right _ new
  have asks : inquiry = some true := by
    cases sends : inquiry with
    | none =>
        rw [done.tells (flawless.1 _) (flawless.1 _) sends] at listed
        contradiction
    | some got => rw [done.answer got sends, flawless.2]
  have block := done.blocks position
  simp only [asks, listed, new, same, and_self, ↓reduceIte] at block
  refine ⟨listed, ?_, ?_, ?_, ?_⟩ <;> rw [block]
  · rfl
  · exact (sound position).free free
  · rfl
  · rfl

theorem run_begins (flawless : Flawless env) (good : Good cfg c) (claims : Claims cfg env c)
    (empty : c.claimingBlocks = []) (done : houseKeeping cfg env c = some after) :
    ∃ swept spareLeases started, blockCheckTimeouts cfg env.now c = some swept ∧
      blockNumFreeLeases cfg swept = some spareLeases ∧
      Begins cfg env swept after (blocksNeeded cfg spareLeases) started := by
  obtain ⟨swept, spareLeases, started, inquiry, claimed, check, sweptGood, -, sweptList, spare, -, rfl,
    asked, claimedGood, list, updated⟩ := claiming_run good claims done
  have none : (unmarked cfg swept).claimingBlocks = [] := by rw [unmarked_list, sweptList, empty]
  have all : (blockClaim cfg env (blocksNeeded cfg spareLeases)
      (unmarked cfg swept)).claimingBlocks = started := by
    rw [asked.frame, none]
    rfl
  have unmarkedGood := unmarked_good sweptGood
  refine ⟨swept, spareLeases, started, check, spare, ?_, ?_, fun position new => ?_,
    fun position new => ?_⟩
  · exact all ▸ asked.once
  · rw [← all, claim_empty_list env none unmarkedGood.listed.amount, free_unmarked]
  · have fresh := asked.fresh position new
    rw [sifted, if_neg fun full => absurd full.1 (by simp [none])] at fresh
    rw [← free_unmarked]
    simp [freeBlocks, fresh]
  · exact unowned_kept claimedGood (started_trying flawless unmarkedGood.sound asked none new) list updated

/-! Runs. -/

/-- A step that leaves the claim alone: nobody else is heard about the block, and house keeping
claims, and in time. -/
structure Uncontested (cfg : Settings) (position : Nat) (deadline : Time) (s : NodeState)
    (label : Env × Event) (t : NodeState) : Prop where
  step : Step cfg s label t
  flawless : Flawless label.1
  unheard : ¬ Mentions cfg position label
  claims : label.2 = .houseKeeping → Claims cfg label.1 s.config ∧ label.1.now ≤ deadline

def keepsHouse : Env × Event → Bool
  | (_, .houseKeeping) => true
  | _ => false

theorem step_trying {s t : NodeState} {label : Env × Event} (good : Good cfg s.config)
    (trying : Trying s.config position count deadline) (below : count + (if keepsHouse label then 1 else 0) ≤ 3)
    (step : Uncontested cfg position deadline s label t) :
    Trying t.config position (count + if keepsHouse label then 1 else 0) deadline := by
  obtain ⟨moves, flawless, unheard, claims⟩ := step
  cases moves with
  | event env event later done =>
      by_cases house : event = .houseKeeping
      · subst house
        obtain ⟨claims, early⟩ := claims rfl
        exact run_trying flawless good claims trying (Nat.lt_of_succ_le below) early done
      · have other : keepsHouse (env, event) = false := by
          cases event <;> first | rfl | contradiction
        rw [other]
        exact event_trying good trying house unheard done

theorem path_trying {s t : NodeState} {labels : List (Env × Event)} (good : Good cfg s.config)
    (trying : Trying s.config position count deadline) (below : count + labels.countP keepsHouse ≤ 3)
    (path : Path (Uncontested cfg position deadline) s labels t) :
    Trying t.config position (count + labels.countP keepsHouse) deadline := by
  induction path generalizing count with
  | refl => simpa using trying
  | @next before middle after label labels move _ ih =>
      rw [List.countP_cons, Nat.add_comm (labels.countP keepsHouse), ← Nat.add_assoc] at below ⊢
      have first := step_trying good trying (Nat.le_trans (Nat.le_add_right _ _) below) move
      exact ih (step_good good move.step) first below

/-- A node that is short of leases, and has nothing under way, asks for as many blocks as it needs,
or for all there are. Each of them that nobody else is heard about is its own three runs later, if
the node still needs blocks and is not late with the first two. -/
theorem unchallenged_claims_succeed {s : NodeState} (reached : Reachable cfg s)
    (later : s.clock ≤ env.now) (flawless : Flawless env) (empty : s.config.claimingBlocks = [])
    (claims : Claims cfg env s.config) (done : houseKeeping cfg env s.config = some after) :
    ∃ swept spareLeases, ∃ started : List Nat,
      blockCheckTimeouts cfg env.now s.config = some swept ∧
      blockNumFreeLeases cfg swept = some spareLeases ∧
      started.Nodup ∧ (∀ position ∈ started, position ∈ freeBlocks cfg swept) ∧
      started.length = min (blocksNeeded cfg spareLeases).toNat (freeBlocks cfg swept).card ∧
      ∀ position ∈ started, ∀ labels t last final,
        Path (Uncontested cfg position (env.now + cfg.tentativeTimeout.toNat)) ⟨env.now, after⟩
          labels t → labels.countP keepsHouse = 2 → Flawless last → Claims cfg last t.config →
        Step cfg t (last, .houseKeeping) final → (final.config.blocks position).state = .ours := by
  have good : Good cfg s.config := reachable_good reached
  obtain ⟨swept, spareLeases, started, check, spare, begins⟩ :=
    run_begins flawless good claims empty done
  refine ⟨swept, spareLeases, started, check, spare, begins.once, begins.free, begins.many, ?_⟩
  intro position new labels t last final path twice calm wants step
  have afterGood : Good cfg after := step_good good (.event env .houseKeeping later done)
  have trying : Trying t.config position 3 (env.now + cfg.tentativeTimeout.toNat) := by
    have tried := path_trying afterGood (begins.trying position new) (by omega) path
    rwa [twice] at tried
  have tGood : Good cfg t.config := path_invariant (fun s => Good cfg s.config)
    (fun _ _ _ good move => step_good good move.step) path afterGood
  cases step with
  | event env event later handled => exact run_full calm tGood wants trying handled

/-- Decides whether the run of house keeping calls `block_claim`. -/
def claims (cfg : Settings) (env : Env) (c : Config) : Bool :=
  (blockCheckTimeouts cfg env.now c).any fun checked =>
    (blockNumFreeLeases cfg checked).any fun spareLeases => 0 < blocksNeeded cfg spareLeases

theorem claims_decided (decided : claims cfg env c = true) : Claims cfg env c := by
  obtain ⟨checked, check, some⟩ := (Option.any_eq_true _ _).mp decided
  obtain ⟨spareLeases, spare, short⟩ := (Option.any_eq_true _ _).mp some
  exact ⟨checked, check, spareLeases, spare, of_decide_eq_true short⟩

theorem quiet_step {s t : NodeState} (flawless : Flawless env) (later : s.clock ≤ env.now)
    (decided : claims cfg env s.config = true) (early : env.now ≤ deadline)
    (done : houseKeeping cfg env s.config = some t.config) (clock : t.clock = env.now) :
    Uncontested cfg position deadline s (env, .houseKeeping) t := by
  obtain ⟨time, later_config⟩ := t
  subst clock
  refine ⟨.event env .houseKeeping later done, flawless, ?_, fun _ => ⟨claims_decided decided, early⟩⟩
  rintro ⟨packet, sender, ⟨buffer, len, same, -⟩, -⟩
  contradiction

theorem small_free (free : (c.blocks 0).state = .free) : freeBlocks (smallNode 1) c = {0} := by
  have one : Finset.range (smallNode 1).blocks = {0} := rfl
  rw [freeBlocks, one, Finset.filter_singleton, if_pos free]

theorem unchallenged_claims_succeed_small : ∃ before final : NodeState,
    (before.config.blocks 0).state = .claiming ∧ (final.config.blocks 0).state = .ours ∧
      Step (smallNode 1) before (calmEnv 1003, .houseKeeping) final := by
  let keep (now : Time) (c : Config) : Option Config := houseKeeping (smallNode 1) (calmEnv now) c
  let ready (now : Time) (c : Config) : Bool := claims (smallNode 1) (calmEnv now) c
  have flawless (now : Time) : Flawless (calmEnv now) := ⟨fun _ => rfl, fun _ => rfl⟩
  have evaluated : (ready 1000 smallStart.config && (keep 1000 smallStart.config).any fun c =>
      ready 1001 c && (keep 1001 c).any fun c => ready 1002 c && (keep 1002 c).any fun c =>
        ready 1003 c && (keep 1003 c).any fun _ => (c.blocks 0).state = .claiming) = true := by
    decide +kernel
  simp only [Bool.and_eq_true, Option.any_eq_true] at evaluated
  obtain ⟨wants, c, done, wants', c', done', wants'', c'', done'', wants''', final, done''', trying⟩ :=
    evaluated
  have reached : Reachable (smallNode 1) smallStart := ⟨[], small_runs (by simp) rfl⟩
  obtain ⟨swept, spareLeases, started, check, spare, -, member, many, succeed⟩ :=
    unchallenged_claims_succeed reached (by exact Nat.le_refl 1000) (flawless 1000) rfl
      (claims_decided wants) done
  have new : 0 ∈ started := by
    obtain ⟨checked, again, some⟩ := (Option.any_eq_true _ _).mp wants
    obtain ⟨needed, counted, short⟩ := (Option.any_eq_true _ _).mp some
    cases check.symm.trans again
    cases spare.symm.trans counted
    have evaluated : (blockCheckTimeouts (smallNode 1) 1000 smallStart.config).all fun swept =>
        (swept.blocks 0).state = .free := by decide +kernel
    have free := of_decide_eq_true ((Option.all_eq_true _ _).mp evaluated _ check)
    rw [small_free free, Finset.card_singleton] at many
    obtain ⟨position, new⟩ := List.exists_mem_of_length_pos (many ▸ Nat.lt_min.mpr
      ⟨Int.lt_toNat.mpr (of_decide_eq_true short), Nat.one_pos⟩)
    have here := member position new
    rw [small_free free, Finset.mem_singleton] at here
    exact here ▸ new
  have first : Uncontested (smallNode 1) 0 1015 ⟨1000, c⟩ (calmEnv 1001, .houseKeeping) ⟨1001, c'⟩ :=
    quiet_step (flawless 1001) (Nat.le_succ 1000) wants' (by decide) done' rfl
  have second : Uncontested (smallNode 1) 0 1015 ⟨1001, c'⟩ (calmEnv 1002, .houseKeeping) ⟨1002, c''⟩ :=
    quiet_step (flawless 1002) (Nat.le_succ 1001) wants'' (by decide) done'' rfl
  have path := Path.next first (.next second (.refl _))
  have step : Step (smallNode 1) ⟨1002, c''⟩ (calmEnv 1003, .houseKeeping) ⟨1003, final⟩ :=
    .event (calmEnv 1003) .houseKeeping (Nat.le_succ 1002) done'''
  exact ⟨_, _, of_decide_eq_true trying, succeed 0 new _ _ _ _ path rfl (flawless 1003)
    (claims_decided wants''') step, step⟩

end Ddhcpd.Unchallenged

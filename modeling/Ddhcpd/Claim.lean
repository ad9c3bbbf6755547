import Ddhcpd.Block
import Mathlib.Data.List.Nodup

/-!
What `block_claim` does. On a list that names no block twice, the first loop owns the
listed blocks whose counter is full, whatever their state, and unlists those that are
no longer being claimed. Free blocks are added and one inquiry goes out for all.
-/

namespace Ddhcpd.Claim
open Types Loop Blocks Packet

/-- The counter of the length of the list is right, so it has not wrapped. -/
def Counted (c : Config) : Prop :=
  c.claimingBlocksAmount.toNat = c.claimingBlocks.length

def asked (c : Config) (position : Nat) : Prop :=
  position ∈ c.claimingBlocks ∧ (c.blocks position).claimingCounts = 3

instance (c : Config) (position : Nat) : Decidable (asked c position) :=
  inferInstanceAs (Decidable (_ ∧ _))

def going (c : Config) (position : Nat) : Bool :=
  (c.blocks position).claimingCounts ≠ 3 ∧ (c.blocks position).state = .claiming

/-- The block as the first loop leaves it. -/
def promote (cfg : Settings) (env : Env) (position : Nat) (block : Block) : Block :=
  let owned := blockOwn cfg env position block
  if owned.2 > 0 then { owned.1 with claimingCounts := 0 } else owned.1

def sifted (cfg : Settings) (env : Env) (c : Config) (position : Nat) : Block :=
  if asked c position then promote cfg env position (c.blocks position) else c.blocks position

def opened (cfg : Settings) (env : Env) (block : Block) : Block :=
  { block with
    state := .claiming
    claimingCounts := 0
    timeout := env.now + cfg.tentativeTimeout.toNat }

def counted (block : Block) : Block := { block with claimingCounts := block.claimingCounts + 1 }

/-! The loop over the list. -/

/-- The loop has looked at the blocks in `seen`, the first part of the list. -/
structure Sifted (cfg : Settings) (env : Env) (c : Config) (numBlocks : Int) (seen : List Nat)
    (work : Config × Int) : Prop where
  frame : work.1 = { c with
    blocks := work.1.blocks
    claimingBlocks := work.1.claimingBlocks
    claimingBlocksAmount := work.1.claimingBlocksAmount }
  list : work.1.claimingBlocks =
    c.claimingBlocks.filter fun position => position ∉ seen ∨ going c position
  amount : Counted work.1
  blocks : ∀ position, work.1.blocks position =
    if position ∈ seen then sifted cfg env c position else c.blocks position
  wanted : work.2 ≤ numBlocks

theorem unlist_counted {c : Config} {position : Nat} (amount : Counted c)
    (member : position ∈ c.claimingBlocks) : Counted (unlist c position) := by
  have some_left : 1 ≤ c.claimingBlocks.length := List.length_pos_of_mem member
  have wrapless : (1 : UInt8) ≤ c.claimingBlocksAmount := by
    rw [UInt8.le_iff_toNat_le, amount]
    exact some_left
  simp only [Counted, unlist, List.length_erase_of_mem member, UInt8.toNat_sub_of_le _ _ wrapless]
  rw [amount]
  rfl

section Sift
variable {cfg : Settings} {env : Env} {c : Config} {numBlocks wanted : Int} {seen rest : List Nat}
  {position : Nat} {work : Config × Int}

theorem erased_list (once : c.claimingBlocks.Nodup) (held : Sifted cfg env c numBlocks seen work)
    (out : going c position = false) : work.1.claimingBlocks.erase position =
      c.claimingBlocks.filter fun other => other ∉ seen ++ [position] ∨ going c other := by
  have kept : work.1.claimingBlocks.Nodup := held.list ▸ once.filter _
  rw [kept.erase_eq_filter, held.list, List.filter_filter]
  congr 1
  funext other
  by_cases here : other = position
  · simp [here, out]
  · simp [here]

theorem sifted_write (held : Sifted cfg env c numBlocks seen work) (other : Nat) :
    (work.1.setBlock position (sifted cfg env c position)).blocks other =
      if other ∈ seen ++ [position] then sifted cfg env c other else c.blocks other := by
  by_cases here : other = position
  · simp [here]
  · simp [here, set_block_other, held.blocks]

/-- The block is written and unlisted. -/
theorem sift_unlisted (once : c.claimingBlocks.Nodup) (held : Sifted cfg env c numBlocks seen work)
    (still : position ∈ work.1.claimingBlocks) (out : going c position = false)
    (few : wanted ≤ numBlocks) : Sifted cfg env c numBlocks (seen ++ [position])
      (unlist (work.1.setBlock position (sifted cfg env c position)) position, wanted) where
  frame := by
    simp only [unlist]
    rw [held.frame]
    rfl
  list := erased_list once held out
  amount := unlist_counted (c := work.1.setBlock position _) held.amount still
  blocks := sifted_write held
  wanted := few

/-- The block is still being claimed and stays on the list. -/
theorem sift_stays (held : Sifted cfg env c numBlocks seen work)
    (same : work.1.blocks position = sifted cfg env c position) (stays : going c position = true) :
    Sifted cfg env c numBlocks (seen ++ [position]) work where
  frame := held.frame
  list := by
    rw [held.list]
    congr 1
    funext other
    by_cases here : other = position <;> simp [here, stays]
  amount := held.amount
  blocks := by
    have written : ∀ other, (work.1.setBlock position (sifted cfg env c position)).blocks other = _ :=
      sifted_write held
    rwa [← same, set_block_self] at written
  wanted := held.wanted

theorem sift_next (once : c.claimingBlocks.Nodup)
    (split : c.claimingBlocks = seen ++ position :: rest)
    (held : Sifted cfg env c numBlocks seen work) :
    Sifted cfg env c numBlocks (seen ++ [position]) (claimListed cfg env work position) := by
  have fresh : position ∉ seen := by
    rw [split] at once
    intro member
    exact (List.nodup_append.mp once).2.2 _ member _ List.mem_cons_self rfl
  have listed : position ∈ c.claimingBlocks := by simp [split]
  have still : position ∈ work.1.claimingBlocks := by simp [held.list, listed, fresh]
  have block : work.1.blocks position = c.blocks position := by simp [held.blocks, fresh]
  unfold claimListed
  simp only [block]
  by_cases full : (c.blocks position).claimingCounts = 3
  · -- both outcomes of `block_own` leave the same kind of state
    have out : going c position = false := by simp [going, full]
    have target : sifted cfg env c position = promote cfg env position (c.blocks position) := by
      simp [sifted, asked, listed, full]
    rw [if_pos full]
    by_cases failed : (blockOwn cfg env position (c.blocks position)).2 > 0
    · have result := sift_unlisted once held still out held.wanted
      rw [target, promote] at result
      simpa only [failed, ↓reduceIte] using result
    · have result := sift_unlisted once held still out
        (Int.le_trans (Int.sub_le_self work.2 (by decide : (0 : Int) ≤ 1)) held.wanted)
      rw [target, promote] at result
      simpa only [failed, ↓reduceIte] using result
  · have same : work.1.blocks position = sifted cfg env c position := by
      simp [sifted, asked, full, block]
    rw [if_neg full]
    by_cases claiming : (c.blocks position).state = .claiming
    · rw [if_neg (not_not.mpr claiming)]
      exact sift_stays held same (by simp [going, full, claiming])
    · have result := sift_unlisted once held still (by simp [going, claiming]) held.wanted
      rw [← same, set_block_self] at result
      rwa [if_pos claiming]

end Sift

theorem sift_rest {cfg : Settings} {env : Env} {c : Config} {numBlocks : Int} {seen rest : List Nat}
    {work : Config × Int} (once : c.claimingBlocks.Nodup) (split : c.claimingBlocks = seen ++ rest)
    (held : Sifted cfg env c numBlocks seen work) :
    Sifted cfg env c numBlocks c.claimingBlocks (rest.foldl (claimListed cfg env) work) := by
  induction rest generalizing seen work with
  | nil =>
      rw [split, List.append_nil]
      exact held
  | cons position rest ih =>
      exact ih (by simpa using split) (sift_next once split held)

theorem sift_list (cfg : Settings) (env : Env) (c : Config) (numBlocks : Int)
    (once : c.claimingBlocks.Nodup) (amount : Counted c) :
    Sifted cfg env c numBlocks c.claimingBlocks
      (c.claimingBlocks.foldl (claimListed cfg env) (c, numBlocks)) := by
  have start : Sifted cfg env c numBlocks [] (c, numBlocks) :=
    ⟨rfl, by simp, amount, by simp, Int.le_refl _⟩
  exact sift_rest once rfl start

/-! The search for further blocks. -/

/-- The search has added `started` to the list. -/
structure Begun (cfg : Settings) (env : Env) (c : Config) (calls : Nat) (started : List Nat)
    (after : Config) : Prop where
  frame : after = { c with
    blocks := after.blocks
    claimingBlocks := c.claimingBlocks ++ started
    claimingBlocksAmount := after.claimingBlocksAmount }
  amount : Counted after
  blocks : ∀ position, after.blocks position =
    if position ∈ started then opened cfg env (c.blocks position) else c.blocks position
  fresh : ∀ position ∈ started,
    position < cfg.blocks ∧ (c.blocks position).state = .free
  once : started.Nodup
  few : started.length ≤ calls

theorem find_free_some {cfg : Settings} {env : Env} {call : Nat} {c : Config} {position : Nat}
    (found : blockFindFree cfg env call c = some position) :
    position < cfg.blocks ∧ (c.blocks position).state = .free := by
  have member := List.mem_of_getElem? found
  simpa using member

theorem begin_next {cfg : Settings} {env : Env} {c after : Config} {calls : Nat}
    {started : List Nat} (room : c.claimingBlocks.length + calls + 1 ≤ 255)
    (held : Begun cfg env c calls started after) :
    ∃ started', Begun cfg env c (calls + 1) started' (claimFresh cfg env calls after) := by
  unfold claimFresh
  split
  · rename_i position found
    obtain ⟨inside, free⟩ := find_free_some found
    -- a block that was just started is not free
    have fresh : position ∉ started := by
      intro member
      rw [held.blocks, if_pos member] at free
      simp [opened] at free
    have block : after.blocks position = c.blocks position := by simp [held.blocks, fresh]
    have list : after.claimingBlocks = c.claimingBlocks ++ started := by rw [held.frame]
    refine ⟨started ++ [position], ?_, ?_, ?_, ?_, ?_, ?_⟩
    · rw [list, held.frame]
      simp [Config.setBlock]
    · have amount := held.amount
      have few := held.few
      rw [Counted, list, List.length_append] at amount
      simp only [Counted, list, List.length_append, List.length_singleton, UInt8.toNat_add,
        amount]
      rw [Nat.mod_eq_of_lt (by simp; omega)]
      rfl
    · intro other
      by_cases here : other = position
      · simp [here, block, opened]
      · simp [here, set_block_other, held.blocks]
    · intro other member
      rcases List.mem_append.mp member with before | last
      · exact held.fresh other before
      · rw [List.mem_singleton.mp last]
        exact ⟨inside, block ▸ free⟩
    · exact List.nodup_append.mpr ⟨held.once, by simp, by
        rintro a before b last rfl
        exact fresh (List.mem_singleton.mp last ▸ before)⟩
    · simpa using held.few
  · exact ⟨started, { held with few := Nat.le_succ_of_le held.few }⟩

theorem begin_blocks (cfg : Settings) (env : Env) (c : Config) (calls : Nat)
    (amount : Counted c) (room : c.claimingBlocks.length + calls ≤ 255) :
    ∃ started, Begun cfg env c calls started (loop (claimFresh cfg env) calls c) := by
  refine loop_invariant (fun done after => ∃ started, Begun cfg env c done started after)
    (claimFresh cfg env) calls c ⟨[], by simp, amount, by simp, by simp, by simp, by simp⟩ ?_
  rintro done below after ⟨started, held⟩
  exact begin_next (by omega) held

/-! The inquiry. -/

theorem count_claims_frame (positions : List Nat) (c : Config) :
    positions.foldl countClaim c =
      { c with blocks := (positions.foldl countClaim c).blocks } := by
  induction positions generalizing c with
  | nil => rfl
  | cons position rest ih =>
      simp only [List.foldl_cons]
      rw [ih]
      rfl

theorem count_claims_apply (positions : List Nat) (once : positions.Nodup) (c : Config)
    (position : Nat) : (positions.foldl countClaim c).blocks position =
      if position ∈ positions then counted (c.blocks position) else c.blocks position := by
  induction positions generalizing c with
  | nil => simp
  | cons first rest ih =>
      obtain ⟨fresh, once⟩ := List.nodup_cons.mp once
      rw [List.foldl_cons, ih once]
      by_cases here : position = first
      · simp [here, fresh, countClaim, counted]
      · simp [here, countClaim, set_block_other]

/-- `block_claim` turned `c` into `after`: it started to claim the blocks `started`, and
an inquiry with the given outcome went out, if any. -/
structure Claimed (cfg : Settings) (env : Env) (c : Config) (started : List Nat)
    (inquiry : Option Bool) (after : Config) : Prop where
  frame : after = { c with
    blocks := after.blocks
    claimingBlocks := c.claimingBlocks.filter (going c) ++ started
    claimingBlocksAmount := after.claimingBlocksAmount
    out := c.out ++ (inquiry.map fun sent => .mcast (inquirePacket cfg after) sent).toList }
  amount : Counted after
  once : after.claimingBlocks.Nodup
  fresh : ∀ position ∈ started,
    position < cfg.blocks ∧ (sifted cfg env c position).state = .free
  blocks : ∀ position, after.blocks position =
    let block := if position ∈ started then opened cfg env (sifted cfg env c position)
      else sifted cfg env c position
    if inquiry = some true ∧ position ∈ after.claimingBlocks then counted block else block
  answer : ∀ sent, inquiry = some sent → sent = env.mcastSent c.out.length
  tells : env.alloc .inquirePacket → env.alloc .inquirePayload → inquiry = none →
    after.claimingBlocks = []

theorem inquire_packet_counted (cfg : Settings) (c : Config) (blocks : Nat → Block)
    (same : ∀ position, (blocks position).index = (c.blocks position).index)
    (out : List Output) :
    inquirePacket cfg { c with blocks := blocks, out := out } = inquirePacket cfg c := by
  simp [inquirePacket, same]

/-- The last part of the function, on a list that is complete. -/
theorem send_inquire_claimed (cfg : Settings) (env : Env) (c : Config)
    (once : c.claimingBlocks.Nodup) (amount : Counted c) :
    ∃ inquiry after, sendInquire cfg env c = after ∧
      after = { c with
        blocks := fun position => if inquiry = some true ∧ position ∈ c.claimingBlocks
          then counted (c.blocks position) else c.blocks position
        out := c.out ++ (inquiry.map fun sent => .mcast (inquirePacket cfg c) sent).toList } ∧
      (∀ sent, inquiry = some sent → sent = env.mcastSent c.out.length) ∧
      (env.alloc .inquirePacket → env.alloc .inquirePayload → inquiry = none →
        c.claimingBlocks = []) := by
  unfold sendInquire
  split
  · rename_i empty
    refine ⟨none, c, rfl, by simp, by simp, fun _ _ _ => ?_⟩
    have size : c.claimingBlocks.length < 1 := by
      rw [← amount]
      exact UInt8.lt_iff_toNat_lt.mp empty
    exact List.eq_nil_of_length_eq_zero (by omega)
  split
  · rename_i memory
    refine ⟨none, c, rfl, by simp, by simp, fun packet payload => ?_⟩
    simp [packet, payload] at memory
  · refine ⟨some (env.mcastSent c.out.length), _, rfl, ?_, by simp, by simp⟩
    simp only
    split
    · rename_i sent
      rw [count_claims_frame]
      simp only [funext (count_claims_apply c.claimingBlocks once _), emit_blocks, sent, true_and]
      rfl
    · rename_i failed
      simp [failed, Config.emit]

/-- The list of claims keeps its form, as no more than 255 blocks are wanted at a time. -/
theorem block_claim_claimed (cfg : Settings) (env : Env) (numBlocks : Int) (c : Config)
    (once : c.claimingBlocks.Nodup) (amount : Counted c) (few : numBlocks ≤ 255) :
    ∃ started inquiry, Claimed cfg env c started inquiry (blockClaim cfg env numBlocks c) := by
  have first := sift_list cfg env c numBlocks once amount
  unfold blockClaim
  generalize c.claimingBlocks.foldl (claimListed cfg env) (c, numBlocks) = listed at first
  have list : listed.1.claimingBlocks = c.claimingBlocks.filter (going c) := by
    rw [first.list]
    apply List.filter_congr
    intro position member
    simp [member]
  have blocks : listed.1.blocks = sifted cfg env c := by
    funext position
    rw [first.blocks]
    by_cases member : position ∈ c.claimingBlocks
    · simp [member]
    · simp [member, sifted, asked]
  have out : listed.1.out = c.out := by rw [first.frame]
  have size : listed.1.claimingBlocks.length ≤ 255 := by
    rw [← first.amount]
    have := listed.1.claimingBlocksAmount.toNat_lt
    omega
  have room : listed.1.claimingBlocks.length +
      (listed.2 - listed.1.claimingBlocksAmount.toNat).toNat ≤ 255 := by
    have := first.amount
    have := first.wanted
    rw [Counted] at *
    omega
  obtain ⟨started, second⟩ := begin_blocks cfg env listed.1 _ first.amount room
  simp only
  generalize loop (claimFresh cfg env) (listed.2 - listed.1.claimingBlocksAmount.toNat).toNat
    listed.1 = full at second
  have fullList : full.claimingBlocks = c.claimingBlocks.filter (going c) ++ started := by
    rw [second.frame, list]
  have fullOut : full.out = c.out := by rw [second.frame, out]
  -- a listed block that stays is being claimed, a started one was free
  have fullOnce : full.claimingBlocks.Nodup := by
    rw [fullList]
    refine List.nodup_append.mpr ⟨once.filter _, second.once, ?_⟩
    rintro position stays _ begun rfl
    have claiming : (c.blocks position).claimingCounts ≠ 3 ∧
        (c.blocks position).state = .claiming := by simpa [going] using (List.mem_filter.mp stays).2
    have free := (second.fresh position begun).2
    rw [blocks, sifted, if_neg fun full => claiming.1 full.2, claiming.2] at free
    contradiction
  obtain ⟨inquiry, after, result, form, answer, tells⟩ :=
    send_inquire_claimed cfg env full fullOnce second.amount
  have packet : inquirePacket cfg after = inquirePacket cfg full := by
    rw [form]
    apply inquire_packet_counted
    intro position
    split <;> rfl
  rw [result]
  refine ⟨started, inquiry, ?_, ?_, ?_, ?_, ?_, ?_, ?_⟩
  · rw [packet, form, fullList, fullOut, second.frame, first.frame]
  · rw [form]
    exact second.amount
  · rw [form]
    exact fullOnce
  · exact blocks ▸ second.fresh
  · intro position
    rw [form]
    simp only [second.blocks, blocks]
  · rw [← fullOut]
    exact answer
  · rw [form]
    exact tells

end Ddhcpd.Claim

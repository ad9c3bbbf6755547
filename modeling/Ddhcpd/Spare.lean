import Ddhcpd.Discover
import Ddhcpd.Attempt
import Ddhcpd.LeaseSafety
import Mathlib.Algebra.BigOperators.Group.Finset.Basic
import Mathlib.Order.Bounds.Basic

/-!
How many blocks a node keeps. House keeping counts the free leases of our blocks and asks
for as many blocks as are missing, or drops one block that is not needed. The division
rounds toward zero, so between asking and dropping there is room for one block.
-/

namespace Ddhcpd.Spare
open Types Leases Blocks Dhcp Node Loop Refresh Claim Choice Invariant Calls Attempt Discover
open LeaseSafety

/-- The free leases of the block, if it is ours. -/
def freeIn (block : Block) : Nat :=
  if block.state = .ours then (block.addresses.getD []).countP isFree else 0

def freeLeases (cfg : Settings) (c : Config) : Nat :=
  ∑ k ∈ Finset.range cfg.blocks, freeIn (c.blocks k)

def AllFree (cfg : Settings) (c : Config) (position : Nat) : Prop :=
  (c.blocks position).state = .ours ∧
    ∀ index < cfg.blockSize.toNat, FreeAt (c.blocks position) index

def wanted (cfg : Settings) : Nat := cfg.spareLeasesNeeded.toNat

/-! The number of blocks. -/

section Number
variable (cfg : Settings) (free : Nat)

theorem blocks_needed_short (short : free < wanted cfg) : ∃ b : Nat,
    blocksNeeded cfg free = b ∧
      IsLeast {b | 1 ≤ b ∧ wanted cfg ≤ free + b * cfg.blockSize.toNat} b := by
  have size := cfg.size_pos
  have whole := Nat.div_add_mod (wanted cfg - free) cfg.blockSize.toNat
  have rest := Nat.mod_lt (wanted cfg - free) size
  have missing : (cfg.spareLeasesNeeded.toNat : Int) - free = ((wanted cfg - free : Nat) : Int) := by
    simp only [wanted] at short ⊢
    omega
  have quotient : ((cfg.spareLeasesNeeded.toNat : Int) - free).tdiv cfg.blockSize.toNat =
      ((wanted cfg - free) / cfg.blockSize.toNat : Nat) := by
    rw [missing, Int.tdiv_eq_ediv_of_nonneg (Int.natCast_nonneg _)]
    rfl
  have remainder : ((cfg.spareLeasesNeeded.toNat : Int) - free).tmod cfg.blockSize.toNat =
      ((wanted cfg - free) % cfg.blockSize.toNat : Nat) := by
    rw [missing, Int.tmod_eq_emod_of_nonneg (Int.natCast_nonneg _)]
    rfl
  simp only [blocksNeeded, quotient, remainder]
  generalize (wanted cfg - free) / cfg.blockSize.toNat = blocks at whole
  generalize (wanted cfg - free) % cfg.blockSize.toNat = left at whole rest
  rw [Nat.mul_comm] at whole
  by_cases exact_fit : left = 0
  · refine ⟨blocks, by simp [exact_fit], ⟨?_, by omega⟩, ?_⟩
    · rcases Nat.eq_zero_or_pos blocks with none | some_block
      · rw [none, Nat.zero_mul] at whole
        omega
      · exact some_block
    · rintro other ⟨-, enough⟩
      have least : blocks * cfg.blockSize.toNat ≤ other * cfg.blockSize.toNat := by omega
      exact Nat.le_of_mul_le_mul_right least size
  · refine ⟨blocks + 1, by simp [Nat.pos_of_ne_zero exact_fit], ⟨by omega, ?_⟩, ?_⟩
    · rw [Nat.succ_mul]
      omega
    · rintro other ⟨-, enough⟩
      have least : blocks * cfg.blockSize.toNat < other * cfg.blockSize.toNat := by omega
      exact Nat.lt_of_mul_lt_mul_right least

theorem blocks_needed_spare (enough : wanted cfg ≤ free) :
    blocksNeeded cfg free ≤ 0 ∧
      (blocksNeeded cfg free < 0 ↔ wanted cfg + cfg.blockSize.toNat ≤ free) := by
  have size := cfg.size_pos
  have surplus : (cfg.spareLeasesNeeded.toNat : Int) - free = -((free - wanted cfg : Nat) : Int) := by
    simp only [wanted] at enough ⊢
    omega
  have quotient : ((cfg.spareLeasesNeeded.toNat : Int) - free).tdiv cfg.blockSize.toNat =
      -((free - wanted cfg) / cfg.blockSize.toNat : Nat) := by
    rw [surplus, Int.neg_tdiv, Int.tdiv_eq_ediv_of_nonneg (Int.natCast_nonneg _)]
    rfl
  have remainder : ((cfg.spareLeasesNeeded.toNat : Int) - free).tmod cfg.blockSize.toNat =
      -((free - wanted cfg) % cfg.blockSize.toNat : Nat) := by
    rw [surplus, Int.neg_tmod, Int.tmod_eq_emod_of_nonneg (Int.natCast_nonneg _)]
    rfl
  have exactly : blocksNeeded cfg free = -((free - wanted cfg) / cfg.blockSize.toNat : Nat) := by
    simp only [blocksNeeded, quotient, remainder]
    rw [if_neg (by omega)]
  have some_block : 0 < (free - wanted cfg) / cfg.blockSize.toNat ↔
      cfg.blockSize.toNat ≤ free - wanted cfg := Nat.div_pos_iff.trans ⟨And.right, And.intro size⟩
  generalize (free - wanted cfg) / cfg.blockSize.toNat = blocks at exactly some_block
  constructor
  · omega
  · rw [exactly]
    omega

end Number

/-! The two loops of house keeping over our blocks. -/

section Loops
variable {cfg : Settings} {c : Config} {block : Block} {table : List Lease}

theorem num_free_leases_counts (sound : Sound cfg c) :
    blockNumFreeLeases cfg c = some (freeLeases cfg c) := by
  apply loopM_exact (fun k => ∑ j ∈ Finset.range k, freeIn (c.blocks j))
  intro k _
  rw [Finset.sum_range_succ]
  by_cases own : (c.blocks k).state = .ours
  · obtain ⟨table, full⟩ := sound_own_full (sound k) own
    simp [own, freeIn, num_free_full full, full.1]
  · simp [own, freeIn]

theorem all_free_full (full : Full block table) (size : table.length = cfg.blockSize.toNat) :
    table.countP isFree = cfg.blockSize.toNat ↔
      ∀ index < cfg.blockSize.toNat, FreeAt block index := by
  rw [← size, List.countP_eq_length, List.forall_mem_iff_getElem]
  simp only [free_at_full full]
  constructor
  · exact fun all index inside => ⟨inside, all index inside⟩
  · exact fun all index inside => (all index inside).2

theorem all_free_count (sound : Sound cfg c) {position : Nat} (free : AllFree cfg c position) :
    freeIn (c.blocks position) = cfg.blockSize.toNat := by
  obtain ⟨table, full⟩ := sound_own_full (sound position) free.1
  have size := (sound position).table table full.1
  simp only [freeIn, free.1, ↓reduceIte, full.1, Option.getD_some]
  exact (all_free_full full size).mpr free.2

/-- The largest time first is the least in the dual order. -/
def youth (c : Config) (position : Nat) : Natᵒᵈ := OrderDual.toDual (age c position)

theorem find_unused_selects (sound : Sound cfg c) : ∃ selected,
    findUnused cfg c = some selected ∧
      Selected (AllFree cfg c) (youth c) cfg.blocks selected := by
  apply loopM_selects
  intro k _ selected
  by_cases own : (c.blocks k).state = .ours
  · obtain ⟨table, full⟩ := sound_own_full (sound k) own
    have size := (sound k).table table full.1
    simp only [own, ↓reduceIte, num_free_full full, Option.map_some]
    by_cases free : table.countP isFree = cfg.blockSize.toNat
    · left
      refine ⟨⟨own, (all_free_full full size).mp free⟩, ?_⟩
      rw [if_pos free]
      rfl
    · right
      refine ⟨fun all => free ((all_free_full full size).mpr all.2), ?_⟩
      rw [if_neg free]
  · right
    exact ⟨fun all => own all.1, by rw [if_neg own]⟩

end Loops

/-! What is freed. -/

/-- The block is free now and was not. -/
def Freed (cfg : Settings) (c after : Config) (position : Nat) : Prop :=
  position < cfg.blocks ∧ (c.blocks position).state ≠ .free ∧ (after.blocks position).state = .free

section Freeing
variable {cfg : Settings} {env : Env} {c after : Config} {position : Nat}

theorem claimed_free {started : List Nat} {inquiry : Option Bool}
    (done : Claimed cfg env c started inquiry after) (free : (after.blocks position).state = .free) :
    (c.blocks position).state = .free := by
  have block := done.blocks position
  simp only at block
  rw [block] at free
  have sifted : (Claim.sifted cfg env c position).state = .free := by
    split at free <;> split at free <;>
      first
        | exact free
        | simp [counted, opened] at free
  exact sifted_free sifted

theorem unused_chosen {chosen : Nat} (sound : Sound cfg c)
    (found : findUnused cfg c = some (some chosen)) :
    Chosen (AllFree cfg c) (youth c) cfg.blocks chosen := by
  obtain ⟨selected, same, held⟩ := find_unused_selects sound
  obtain rfl := Option.some.inj (same.symm.trans found)
  exact held

theorem drop_freed (sound : Sound cfg c) (done : blockDropUnused cfg env c = some after)
    (freed : Freed cfg c after position) :
    Chosen (AllFree cfg c) (youth c) cfg.blocks position ∧
      after.blocks = (c.setBlock position (blockFree (c.blocks position))).blocks := by
  obtain ⟨-, busy, gone⟩ := freed
  rcases drop_unused_cases done with ⟨rfl, -⟩ | ⟨chosen, found, ⟨-, rfl⟩ | ⟨-, rfl⟩⟩
  · exact absurd gone busy
  · by_cases here : position = chosen
    · subst here
      exact absurd (by simpa using gone) busy
    · exact absurd (by simpa [set_block_other, here] using gone) busy
  · by_cases here : position = chosen
    · subst here
      exact ⟨unused_chosen sound found, rfl⟩
    · exact absurd (by simpa [set_block_other, here] using gone) busy

theorem adjust_result (sound : Sound cfg c) : adjustBlocks cfg env c =
    if blocksNeeded cfg (freeLeases cfg c) < 0 then blockDropUnused cfg env c
    else some (if 0 < blocksNeeded cfg (freeLeases cfg c)
      then blockClaim cfg env (blocksNeeded cfg (freeLeases cfg c)) (unmarked cfg c)
      else unmarked cfg c) := by
  simp only [adjustBlocks, num_free_leases_counts sound, Option.bind_eq_bind, Option.bind_some]
  rfl

/-- Only `block_drop_unused` frees a block. -/
theorem adjust_freed (good : Good cfg c) (done : adjustBlocks cfg env c = some after)
    (freed : Freed cfg c after position) :
    wanted cfg + cfg.blockSize.toNat ≤ freeLeases cfg c ∧
      blockDropUnused cfg env c = some after := by
  obtain ⟨since, unmarks⟩ := unmarked_block cfg c position
  have state : ((unmarked cfg c).blocks position).state = (c.blocks position).state := by rw [unmarks]
  rw [adjust_result good.sound] at done
  split at done
  · rename_i surplus
    refine ⟨?_, done⟩
    by_cases short : freeLeases cfg c < wanted cfg
    · obtain ⟨blocks, needed, -⟩ := blocks_needed_short cfg _ short
      omega
    · exact (blocks_needed_spare cfg _ (Nat.le_of_not_lt short)).2.mp surplus
  · simp only [Option.some.injEq] at done
    subst done
    exfalso
    apply freed.2.1
    rw [← state]
    have free := freed.2.2
    split at free
    · obtain ⟨started, inquiry, claimed⟩ := claim_claimed (unmarked_good good) (freeLeases cfg c)
      exact claimed_free claimed free
    · exact free

theorem dropped_leases (sound : Sound cfg c) (inside : position < cfg.blocks)
    (free : AllFree cfg c position)
    (gone : after.blocks = (c.setBlock position (blockFree (c.blocks position))).blocks) :
    freeLeases cfg c = cfg.blockSize.toNat + freeLeases cfg after := by
  have member := Finset.mem_range.mpr inside
  have lost : freeIn (after.blocks position) = 0 := by
    rw [gone, set_block_same, block_free_freed (sound position).usable]
    simp [freeIn, freed]
  have others : ∀ k ∈ (Finset.range cfg.blocks).erase position,
      freeIn (after.blocks k) = freeIn (c.blocks k) := by
    intro k inside
    rw [gone, set_block_other _ _ _ _ (Finset.ne_of_mem_erase inside)]
  calc freeLeases cfg c
      = freeIn (c.blocks position) +
          ∑ k ∈ (Finset.range cfg.blocks).erase position, freeIn (c.blocks k) :=
        (Finset.add_sum_erase _ _ member).symm
    _ = cfg.blockSize.toNat + (freeIn (after.blocks position) +
          ∑ k ∈ (Finset.range cfg.blocks).erase position, freeIn (after.blocks k)) := by
        rw [all_free_count sound free, lost, Nat.zero_add, Finset.sum_congr rfl others]
    _ = cfg.blockSize.toNat + freeLeases cfg after := by
        rw [Finset.add_sum_erase _ (fun k => freeIn (after.blocks k)) member]
        rfl

end Freeing

/-! The control as a whole. -/

/-- House keeping does not come to `block_claim`. -/
def AsksNothing (cfg : Settings) (c : Config) : Prop :=
  ∀ env after, adjustBlocks cfg env c = some after →
    blockDropUnused cfg env c = some after ∨ after = unmarked cfg c

/-- The lease tables of our blocks are the same. -/
def SameLeases (cfg : Settings) (c later : Config) : Prop :=
  ∀ k < cfg.blocks, ((later.blocks k).state = .ours ↔ (c.blocks k).state = .ours) ∧
    ((c.blocks k).state = .ours → (later.blocks k).addresses = (c.blocks k).addresses)

/-- What house keeping makes of our blocks behind `block_check_timeouts`. -/
structure SpareControl (cfg : Settings) (env : Env) (checked adjusted : Config) : Prop where
  asks : freeLeases cfg checked < wanted cfg → ∃ b : Nat,
    IsLeast {b | 1 ≤ b ∧ wanted cfg ≤ freeLeases cfg checked + b * cfg.blockSize.toNat} b ∧
      adjusted = blockClaim cfg env b (unmarked cfg checked)
  rests : wanted cfg ≤ freeLeases cfg checked → AsksNothing cfg checked
  once : ∀ k other, Freed cfg checked adjusted k → Freed cfg checked adjusted other → k = other
  spare : ∀ k, Freed cfg checked adjusted k →
    wanted cfg + cfg.blockSize.toNat ≤ freeLeases cfg checked
  youngest : ∀ k, Freed cfg checked adjusted k → AllFree cfg checked k ∧
    ∀ other < cfg.blocks, AllFree cfg checked other → age checked other ≤ age checked k
  enough : ∀ k, Freed cfg checked adjusted k → wanted cfg ≤ freeLeases cfg adjusted
  calm : ∀ k, Freed cfg checked adjusted k → ∀ (t : NodeState) (next : Env) later,
    Reachable cfg t → blockCheckTimeouts cfg next.now t.config = some later →
    SameLeases cfg adjusted later → AsksNothing cfg later

theorem asks_nothing {cfg : Settings} {c : Config} (sound : Sound cfg c)
    (enough : wanted cfg ≤ freeLeases cfg c) : AsksNothing cfg c := by
  intro env after done
  rw [adjust_result sound] at done
  split at done
  · exact .inl done
  · right
    have none_needed := (blocks_needed_spare cfg _ enough).1
    rw [if_neg (by omega)] at done
    exact (Option.some.inj done).symm

theorem same_leases_free {cfg : Settings} {c later : Config} (same : SameLeases cfg c later) :
    freeLeases cfg later = freeLeases cfg c := by
  apply Finset.sum_congr rfl
  intro k member
  obtain ⟨own, table⟩ := same k (Finset.mem_range.mp member)
  unfold freeIn
  by_cases mine : (c.blocks k).state = .ours
  · rw [if_pos mine, if_pos (own.mpr mine), table mine]
  · rw [if_neg mine, if_neg fun also => mine (own.mp also)]

theorem freed_leases {cfg : Settings} {env : Env} {c after : Config} {position : Nat}
    (good : Good cfg c) (done : adjustBlocks cfg env c = some after)
    (freed : Freed cfg c after position) : wanted cfg ≤ freeLeases cfg after := by
  obtain ⟨spare, dropped⟩ := adjust_freed good done freed
  obtain ⟨chosen, blocks⟩ := drop_freed good.sound dropped freed
  have lost := dropped_leases good.sound freed.1 chosen.fit blocks
  omega

theorem spare_leases_controlled {cfg : Settings} {s : NodeState} (env : Env)
    (reached : Reachable cfg s) : ∃ checked adjusted,
      blockCheckTimeouts cfg env.now s.config = some checked ∧
      adjustBlocks cfg env checked = some adjusted ∧
      houseKeeping cfg env s.config =
        dhcpPacketListTimeout env.now (blockUpdateClaims cfg env adjusted) ∧
      SpareControl cfg env checked adjusted := by
  have good := reachable_good reached
  have check := check_timeouts_checked good.sound env.now
  generalize ({ s.config with blocks := _ } : Config) = checked at check
  obtain ⟨sound, quiet⟩ := check_timeouts_good good.sound check
  have checkedGood : Good cfg checked := ⟨sound, quiet_listed quiet good.listed⟩
  obtain ⟨adjusted, adjust⟩ : ∃ adjusted, adjustBlocks cfg env checked = some adjusted :=
    adjust_there sound
  refine ⟨checked, adjusted, check, adjust, ?_, ?_⟩
  · simp only [houseKeeping, check, adjust, Option.bind_eq_bind, Option.bind_some]
  constructor
  case asks =>
    intro short
    obtain ⟨b, needed, least⟩ := blocks_needed_short cfg _ short
    refine ⟨b, least, ?_⟩
    have positive := least.1.1
    rw [adjust_result sound, needed, if_neg (by omega), if_pos (by omega)] at adjust
    exact (Option.some.inj adjust).symm
  case rests => exact asks_nothing sound
  case once =>
    intro k other freed also
    obtain ⟨-, dropped⟩ := adjust_freed checkedGood adjust freed
    exact chosen_unique (drop_freed sound dropped freed).1 (drop_freed sound dropped also).1
  case spare => exact fun k freed => (adjust_freed checkedGood adjust freed).1
  case youngest =>
    intro k freed
    obtain ⟨-, dropped⟩ := adjust_freed checkedGood adjust freed
    have chosen := (drop_freed sound dropped freed).1
    exact ⟨chosen.fit, chosen.least⟩
  case enough => exact fun k freed => freed_leases checkedGood adjust freed
  case calm =>
    intro k freed t next later reachedNext checkNext same
    have laterSound : Sound cfg later :=
      (check_timeouts_good (reachable_good reachedNext).sound checkNext).1
    apply asks_nothing laterSound
    rw [same_leases_free same]
    exact freed_leases checkedGood adjust freed

theorem spare_leases_controlled_small : ∃ (s : NodeState) (checked adjusted : Config),
    (s.config.blocks 0).state = .ours ∧
    blockCheckTimeouts (smallNode 1) 1010 s.config = some checked ∧
    SpareControl (smallNode 1) (calmEnv 1010) checked adjusted := by
  have evaluated : (runEvents (smallNode 1) smallStart ownedRun).any (fun s =>
      (s.config.blocks 0).state = .ours) = true := by decide +kernel
  obtain ⟨s, run, own⟩ := (Option.any_eq_true _ _).mp evaluated
  obtain ⟨checked, adjusted, check, -, -, control⟩ :=
    spare_leases_controlled (calmEnv 1010) ⟨_, small_runs (fun _ _ => trivial) run⟩
  exact ⟨s, checked, adjusted, of_decide_eq_true own, check, control⟩

end Ddhcpd.Spare

import Ddhcpd.Needless

/-!
The flag that stands for the marks. House keeping takes the marks back only if the flag is
up. Marking a block raises the flag, and freeing one lowers it, whatever else is marked; no
other part of the program writes it.
-/

namespace Ddhcpd.NeedlessFlag
open Types Loop Leases Blocks BlockPackets Dhcp Node Path LeaseMoves Refresh Claim Invariant
open Calls HouseKeeping Spare Needless

def NoMarks (cfg : Settings) (c : Config) : Prop :=
  ∀ position < cfg.blocks, ¬ Marked c position

/-- Where the flag is down, no block of ours is marked. -/
def Remembered (cfg : Settings) (c : Config) : Prop :=
  c.needlessMarks = 0 → NoMarks cfg c

/-- The flag stays as it is and no block of ours gets a mark. -/
structure Keeps (c after : Config) : Prop where
  flag : after.needlessMarks = c.needlessMarks
  each : ∀ position, Marked after position → Marked c position

section Parts
variable {cfg : Settings} {env : Env} {c after : Config} {position : Nat}

theorem keeps_none (keeps : Keeps c after) (none : NoMarks cfg c) : NoMarks cfg after :=
  fun position inside marked => none position inside (keeps.each position marked)

theorem keeps_remembered (keeps : Keeps c after) (remembered : Remembered cfg c) :
    Remembered cfg after :=
  fun down => keeps_none keeps (remembered (keeps.flag ▸ down))

/-! The calls that leave the flag alone. -/

theorem check_keeps (sound : Sound cfg c)
    (done : blockCheckTimeouts cfg env.now c = some after) : Keeps c after := by
  rw [check_timeouts_checked sound] at done
  cases done
  refine ⟨rfl, fun k marked => ?_⟩
  simp only [Marked] at marked ⊢
  split at marked
  · obtain ⟨own, since⟩ := marked
    obtain ⟨ours, live⟩ := (checked_ours (sound k) env.now).mp own
    obtain ⟨table, full⟩ := sound_own_full (sound k) ours
    rw [checked_own ours full, if_neg (Nat.not_lt_of_le live)] at since
    exact ⟨ours, since⟩
  · exact marked

theorem claim_keeps (good : Good cfg c) (marks : Marks c) (spareLeases : Nat) :
    Keeps c (blockClaim cfg env (blocksNeeded cfg spareLeases) c) := by
  obtain ⟨started, inquiry, claimed⟩ := claim_claimed good spareLeases
  exact ⟨by rw [claimed.frame], fun _ marked => (claimed_inherits marks claimed marked).marked⟩

theorem update_claims_flag (sound : Sound cfg c) :
    (blockUpdateClaims cfg env c).needlessMarks = c.needlessMarks := by
  obtain ⟨groups, done, -⟩ := update_claims_updated cfg env c (sound_indexed sound)
  rw [done.frame]

theorem update_claims_marked (sound : Sound cfg c) :
    Marked (blockUpdateClaims cfg env c) position ↔ Marked c position := by
  have updated : (blockUpdateClaims cfg env c).blocks position = c.blocks position ∨ _ :=
    update_claims_block (sound_indexed sound) position
  rcases updated with same | ⟨-, renews⟩
  · rw [Marked, Marked, same]
  · rw [Marked, Marked, renews]
    rfl

theorem block_moves_flag {packet : McastPacket} {sender : In6Addr} (sound : Sound cfg c)
    (moves : BlockMoves.Moves cfg env packet sender c after) :
    after.needlessMarks = c.needlessMarks := by
  induction moves with
  | refl => rfl
  | tail front move ih =>
      cases move with
      | concede => exact ih
      | defer => exact ih
      | defend =>
          have before := (block_moves_sound sound front).1
          exact (update_claims_flag (zeroed_sound before _)).trans ih

theorem lease_moves_flag {event : Event} (moves : LeaseMoves.Moves cfg env event c after) :
    after.needlessMarks = c.needlessMarks := by
  induction moves with
  | refl => rfl
  | tail _ move ih => cases move <;> exact ih

theorem received_keeps {event : Event} (sound : Sound cfg c) (other : event ≠ .houseKeeping)
    (done : handle cfg env event c = some after) : Keeps c after := by
  refine ⟨?_, fun k ⟨own, since⟩ => ?_⟩
  · rcases received_moves other done with ⟨packet, sender, moves⟩ | moves
    · exact block_moves_flag sound moves
    · exact lease_moves_flag moves
  · have ours := (received_good sound other done).2.ours k own
    rcases (received_calms sound other done).marks k with same | gone
    · exact ⟨ours, same ▸ since⟩
    · exact absurd gone since

/-! The calls that write the flag. -/

/-- The guarded call takes all marks back, if none was forgotten. -/
theorem unmarked_none (remembered : Remembered cfg c) : NoMarks cfg (unmarked cfg c) := by
  unfold unmarked
  split
  · intro k inside marked
    exact marked.2 (by simp [blockUnmarkNeedless, rewrite_each_apply, inside])
  · rename_i down
    exact remembered (not_not.mp down)

/-- `block_drop_unused` forgets the marks of the blocks that it does not free. -/
theorem drop_remembered (sound : Sound cfg c) (remembered : Remembered cfg c)
    (done : blockDropUnused cfg env c = some after) :
    Remembered cfg after ↔ ∀ chosen, findUnused cfg c = some (some chosen) →
      Droppable cfg env.now (c.blocks chosen) →
      ∀ position < cfg.blocks, Marked c position → position = chosen := by
  rcases drop_unused_cases done with ⟨rfl, waits⟩ | ⟨chosen, found, ⟨fresh, rfl⟩ | ⟨due, rfl⟩⟩
  · exact iff_of_true remembered fun chosen found due => absurd due (waits chosen found)
  · -- the flag is up now
    refine iff_of_true (fun down => absurd down (by simp)) fun other same due => ?_
    obtain rfl : chosen = other := by simpa [found] using same
    exact absurd fresh due.1
  · have apart (k : Nat) (different : k ≠ chosen) :
        Marked (c.setBlock chosen (blockFree (c.blocks chosen))) k ↔ Marked c k := by
      rw [Marked, Marked, set_block_other _ _ _ _ different]
    constructor
    · intro none other same _ k inside marked
      obtain rfl : chosen = other := by simpa [found] using same
      by_contra different
      exact none rfl k inside ((apart k different).mpr marked)
    · intro alone _ k inside marked
      by_cases here : k = chosen
      · subst here
        have own := marked.1
        simp [block_free_freed (sound k).usable, freed] at own
      · exact here (alone chosen found due k inside ((apart k here).mp marked))

end Parts

/-! House keeping. -/

/-- What house keeping finds behind `block_check_timeouts`. -/
structure Finds (cfg : Settings) (env : Env) (event : Event) (c checked : Config)
    (spareLeases : Nat) : Prop where
  house : event = .houseKeeping
  check : blockCheckTimeouts cfg env.now c = some checked
  spare : blockNumFreeLeases cfg checked = some spareLeases

/-- If the event frees a block because it has not been needed for long enough, no other
block of ours is marked. -/
def LastMark (cfg : Settings) (label : Env × Event) (c : Config) : Prop :=
  ∀ checked spareLeases chosen, Finds cfg label.1 label.2 c checked spareLeases →
    blocksNeeded cfg spareLeases < 0 → findUnused cfg checked = some (some chosen) →
    Droppable cfg label.1.now (checked.blocks chosen) →
    ∀ position < cfg.blocks, Marked checked position → position = chosen

/-- If the event is a house keeping run that needs its blocks, it takes all marks back. -/
def Clears (cfg : Settings) (label : Env × Event) (c : Config) : Prop :=
  ∀ checked spareLeases, Finds cfg label.1 label.2 c checked spareLeases →
    0 ≤ blocksNeeded cfg spareLeases → NoMarks cfg (unmarked cfg checked)

section Steps
variable {cfg : Settings} {env : Env} {c after : Config} {s t : NodeState} {label : Env × Event}

theorem unmarked_marks (marks : Marks c) : Marks (unmarked cfg c) := by
  unfold unmarked
  split
  · exact calms_marks unmark_follows.calms marks
  · exact marks

theorem adjust_remembered (good : Good cfg c) (marks : Marks c) (remembered : Remembered cfg c)
    (done : adjustBlocks cfg env c = some after) :
    Remembered cfg after ↔ (blocksNeeded cfg (freeLeases cfg c) < 0 →
      ∀ chosen, findUnused cfg c = some (some chosen) →
        Droppable cfg env.now (c.blocks chosen) →
        ∀ position < cfg.blocks, Marked c position → position = chosen) := by
  rw [adjust_result good.sound] at done
  split at done
  · rename_i spared
    rw [drop_remembered good.sound remembered done]
    exact ⟨fun alone _ => alone, fun alone => alone spared⟩
  · rename_i needed
    have none : NoMarks cfg after := by
      cases done
      split
      · exact keeps_none (claim_keeps (unmarked_good good) (unmarked_marks marks) _)
          (unmarked_none remembered)
      · exact unmarked_none remembered
    exact iff_of_true (fun _ => none) fun spared => absurd spared needed

theorem update_remembered (sound : Sound cfg c) :
    Remembered cfg (blockUpdateClaims cfg env c) ↔ Remembered cfg c := by
  simp only [Remembered, NoMarks, update_claims_flag sound, update_claims_marked sound]

theorem house_keeping_remembered (good : Good cfg c) (marks : Marks c)
    (remembered : Remembered cfg c) (done : houseKeeping cfg env c = some after) :
    Remembered cfg after ↔ LastMark cfg (env, .houseKeeping) c := by
  obtain ⟨checked, adjusted, check, checkedGood, adjust, adjustedGood, rfl⟩ :=
    house_keeping_splits good done
  have spare := num_free_leases_counts checkedGood.sound
  calc Remembered cfg _
    _ ↔ Remembered cfg (blockUpdateClaims cfg env adjusted) := Iff.rfl
    _ ↔ Remembered cfg adjusted := update_remembered adjustedGood.sound
    _ ↔ _ := adjust_remembered checkedGood (check_tends good.sound marks check).marks
        (keeps_remembered (check_keeps good.sound check) remembered) adjust
    _ ↔ LastMark cfg (env, .houseKeeping) c := by
      constructor
      · intro alone other spareLeases chosen finds spared
        obtain rfl := Option.some.inj (check.symm.trans finds.check)
        obtain rfl := Option.some.inj (spare.symm.trans finds.spare)
        exact alone spared chosen
      · intro alone spared chosen
        exact alone checked _ chosen ⟨rfl, check, spare⟩ spared

theorem event_remembered {event : Event} (good : Good cfg c) (marks : Marks c)
    (remembered : Remembered cfg c) (done : handle cfg env event c = some after) :
    Remembered cfg after ↔ LastMark cfg (env, event) c := by
  by_cases house : event = .houseKeeping
  · subst house
    exact house_keeping_remembered good marks remembered done
  · exact iff_of_true (keeps_remembered (received_keeps good.sound house done) remembered)
      fun _ _ _ finds => absurd finds.house house

theorem remembered_clears (sound : Sound cfg c) (remembered : Remembered cfg c)
    (label : Env × Event) : Clears cfg label c :=
  fun _ _ finds _ => unmarked_none (keeps_remembered (check_keeps sound finds.check) remembered)

theorem perform_marks {call : Call} (good : Good cfg c) (marks : Marks c)
    (other : call ≠ .received .houseKeeping) (done : perform cfg env call c = some after) :
    Marks after := by
  by_cases receives : ∃ event, call = .received event
  · obtain ⟨event, rfl⟩ := receives
    have event_ne : event ≠ .houseKeeping := fun same => other (same ▸ rfl)
    exact calms_marks (received_calms good.sound event_ne done) marks
  · exact (perform_tends good marks other (fun event same => absurd ⟨event, same⟩ receives)
      done).marks

theorem step_marks (good : Good cfg s.config) (marks : Marks s.config)
    (step : Step cfg s label t) : Marks t.config := by
  obtain ⟨calls, path⟩ := step_calls step
  let holds (s : NodeState) : Prop := Good cfg s.config ∧ Marks s.config
  suffices kept : holds t from kept.2
  apply path_invariant holds _ path ⟨good, marks⟩
  intro s label t before move
  refine ⟨call_good before.1 move, ?_⟩
  cases move with
  | call env call _ other done => exact perform_marks before.1 before.2 other done

theorem step_remembered (good : Good cfg s.config) (marks : Marks s.config)
    (remembered : Remembered cfg s.config) (step : Step cfg s label t) :
    LastMark cfg label s.config ↔ Remembered cfg t.config ∧ Clears cfg label s.config := by
  cases step with
  | event env event later done =>
      have kept := event_remembered good marks remembered done
      exact ⟨fun last => ⟨kept.mpr last, remembered_clears good.sound remembered _⟩,
        fun both => kept.mp both.1⟩

end Steps

/-! Runs. -/

/-- A run in which no block is dropped while another one is marked is one in which no mark is
forgotten after any event, and house keeping takes all of them back whenever it needs its
blocks. -/
theorem marks_remembered_iff (cfg : Settings) (now : Time) (options : List DhcpOption)
    (labels : List (Env × Event)) (s : NodeState) :
    Path (fun s label t => Step cfg s label t ∧ LastMark cfg label s.config)
      ⟨now, startConfig cfg now options⟩ labels s ↔
    Path (fun s label t => Step cfg s label t ∧
        Remembered cfg t.config ∧ Clears cfg label s.config)
      ⟨now, startConfig cfg now options⟩ labels s := by
  let right (s : NodeState) : Prop :=
    Good cfg s.config ∧ Marks s.config ∧ Remembered cfg s.config
  have start : right ⟨now, startConfig cfg now options⟩ := by
    obtain ⟨good, marks, -⟩ := start_watched cfg now options
    exact ⟨good, marks, fun _ position _ marked => absurd rfl marked.2⟩
  apply path_congr right
  · rintro s label t ⟨good, marks, -⟩ ⟨step, remembered, -⟩
    exact ⟨step_good good step, step_marks good marks step, remembered⟩
  · rintro s label t ⟨good, marks, remembered⟩
    exact and_congr_right fun step => step_remembered good marks remembered step
  · exact start

/-- Three blocks are owned, each while the ones before it are in use. The second is marked when
its lease is given back, and then the third. -/
def twoMarked : List (Env × Event) :=
  ownedRun ++ [(calmEnv 1004, quadClient 1 0x0A000000 dhcpRequest), (calmEnv 1005, .houseKeeping),
    (calmEnv 1006, .houseKeeping), (calmEnv 1007, .houseKeeping), (calmEnv 1008, .houseKeeping),
    (calmEnv 1009, quadClient 2 0x0A000001 dhcpRequest), (calmEnv 1010, .houseKeeping),
    (calmEnv 1011, .houseKeeping), (calmEnv 1012, .houseKeeping), (calmEnv 1013, .houseKeeping),
    (calmEnv 1014, quadClient 3 0x0A000002 dhcpRequest),
    (calmEnv 1015, quadClient 1 0x0A000000 dhcpRelease),
    (calmEnv 1016, quadClient 2 0x0A000001 dhcpRelease), (calmEnv 1017, .houseKeeping),
    (calmEnv 1018, quadClient 3 0x0A000002 dhcpRelease), (calmEnv 1019, .houseKeeping)]

-- At 1319 the third block is dropped. The second keeps its mark when it is needed again.
theorem mark_forgotten : ∃ s checked spareLeases, Reachable quadNode s ∧
    ¬ Remembered quadNode s.config ∧
    Finds quadNode (calmEnv 1321) .houseKeeping s.config checked spareLeases ∧
    0 ≤ blocksNeeded quadNode spareLeases ∧ ¬ NoMarks quadNode (unmarked quadNode checked) := by
  have evaluated : (runEvents quadNode quadStart (twoMarked ++ [(calmEnv 1319, .houseKeeping),
      (calmEnv 1320, quadClient 1 0x0A000000 dhcpRequest)])).any (fun s =>
        (blockCheckTimeouts quadNode 1321 s.config).any fun checked =>
          (blockNumFreeLeases quadNode checked).any fun spareLeases =>
            s.config.needlessMarks = 0 ∧ (s.config.blocks 1).state = .ours ∧
            (s.config.blocks 1).needlessSince = 1017 ∧ 0 ≤ blocksNeeded quadNode spareLeases ∧
            ((unmarked quadNode checked).blocks 1).state = .ours ∧
            ((unmarked quadNode checked).blocks 1).needlessSince = 1017) = true := by
    decide +kernel
  obtain ⟨s, run, rest⟩ := (Option.any_eq_true _ _).mp evaluated
  obtain ⟨checked, check, rest⟩ := (Option.any_eq_true _ _).mp rest
  obtain ⟨spareLeases, spare, facts⟩ := (Option.any_eq_true _ _).mp rest
  obtain ⟨down, own, since, needed, still, kept⟩ := of_decide_eq_true facts
  refine ⟨s, checked, spareLeases, run_reachable run, fun remembered => ?_, ⟨rfl, check, spare⟩,
    needed, fun none => ?_⟩
  · exact remembered down 1 (by decide) ⟨own, by simp [since]⟩
  · exact none 1 (by decide) ⟨still, by simp [kept]⟩

end Ddhcpd.NeedlessFlag

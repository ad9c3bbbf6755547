import Ddhcpd.Calls

/-!
The history of an attempt to claim a block. The counter of a block that is being
claimed is the number of inquiries sent since it entered that state; `block_claim`
promotes on the counter alone, so the promotion is good when the state still agrees.
-/

namespace Ddhcpd.Attempt
open Types Blocks BlockMoves Packet Node Path Refresh Claim Invariant Calls

/-- Every listed block whose counter is full is still being claimed. -/
def Ready (c : Config) : Prop :=
  ∀ position, asked c position → (c.blocks position).state = .claiming

instance (c : Config) : Decidable (Ready c) :=
  decidable_of_iff (∀ position ∈ c.claimingBlocks, (c.blocks position).claimingCounts = 3 →
    (c.blocks position).state = .claiming)
    ⟨fun listed position full => listed position full.1 full.2,
      fun ready position member full => ready position ⟨member, full⟩⟩

def Allocates (env : Env) : Prop := ∀ call, env.alloc call = true

/-- A call of a run in which memory lasts and `block_claim` finds its list in order. -/
def ReadyStep (cfg : Settings) (s : NodeState) (label : Env × Call) (t : NodeState) : Prop :=
  CallStep cfg s label t ∧ Allocates label.1 ∧
    ∀ spareLeases, label.2 = .claim spareLeases → Ready s.config

def inquires (position : Nat) : Output → Bool
  | .mcast packet true => packet.command = msgInquire ∧ Names packet position
  | _ => false

/-- On the way to a later state `count` inquiries about the block were sent. -/
def Inquired (position count : Nat) (before after : Config) : Prop :=
  ∃ outs, after.out = before.out ++ outs ∧ outs.countP (inquires position) = count

/-- The last calls of the run are an attempt to claim the block: it enters the state in
a call of `block_claim`, is in it after every call since, and was inquired about
`count` times. -/
def Attempted (cfg : Settings) (start : NodeState) (labels : List (Env × Call))
    (position count : Nat) (s : NodeState) : Prop :=
  ∃ front env spareLeases back before entered,
    labels = front ++ (env, .claim spareLeases) :: back ∧
    Path (ReadyStep cfg) start front before ∧
    ReadyStep cfg before (env, .claim spareLeases) entered ∧
    (before.config.blocks position).state ≠ .claiming ∧
    (entered.config.blocks position).state = .claiming ∧
    Path (fun s label t => ReadyStep cfg s label t ∧ (t.config.blocks position).state = .claiming)
      entered back s ∧
    Inquired position count before.config s.config

section Outputs
variable {cfg : Settings} {env : Env} {c middle after : Config} {position : Nat}

/-- No packet but a claim is sent to all nodes. -/
def uninquiring : Output → Prop
  | .mcast packet _ => packet.command = msgUpdateClaim
  | _ => True

theorem announces_uninquiring (output : Output) (claim : announces output) :
    uninquiring output := by
  cases output with
  | mcast => exact claim
  | direct => trivial
  | dhcp => trivial
  | hook => trivial

/-- Only `block_claim` inquires. -/
theorem perform_uninquiring {call : Call} (sound : Sound cfg c)
    (other : call ≠ .received .houseKeeping) (no_claim : ∀ spareLeases, call ≠ .claim spareLeases)
    (done : perform cfg env call c = some after) : Emits uninquiring c after := by
  cases call with
  | checkTimeouts =>
      obtain ⟨blocks, -, rfl⟩ := Option.map_eq_some_iff.mp done
      exact emits_same rfl
  | dropUnused =>
      exact emits_same (drop_unused_out done)
  | unmarkNeedless =>
      cases done
      exact emits_same rfl
  | claim spareLeases => exact absurd rfl (no_claim spareLeases)
  | updateClaims =>
      cases done
      exact emits_mono (update_claims_emits sound) announces_uninquiring
  | timeoutPackets =>
      obtain rfl := packet_timeout_result done
      exact emits_same rfl
  | received event =>
      rcases received_moves (fun same => other (same ▸ rfl)) done with ⟨packet, sender, moves⟩ | moves
      · exact emits_mono (block_moves_emit sound moves) announces_uninquiring
      · obtain ⟨outs, out, silent⟩ := (lease_moves_frame moves).silent
        refine ⟨outs, out, fun output member => ?_⟩
        cases output with
        | mcast packet sent => exact absurd member (silent packet sent)
        | direct => trivial
        | dhcp => trivial
        | hook => trivial

theorem inquired_trans {first second : Nat} (one : Inquired position first c middle)
    (two : Inquired position second middle after) :
    Inquired position (first + second) c after := by
  obtain ⟨outs, out, count⟩ := one
  obtain ⟨more, out', count'⟩ := two
  refine ⟨outs ++ more, by rw [out', out, List.append_assoc], ?_⟩
  rw [List.countP_append, count, count']

theorem uninquiring_inquired (quiet : Emits uninquiring c after) :
    Inquired position 0 c after := by
  obtain ⟨outs, out, claims⟩ := quiet
  refine ⟨outs, out, List.countP_eq_zero.mpr fun output member => ?_⟩
  unfold inquires
  split
  · rename_i packet
    have kind : packet.command = msgUpdateClaim := claims _ member
    simp [kind, msgUpdateClaim, msgInquire]
  · simp

theorem inquire_packet_indices (good : Good cfg c) :
    (inquirePacket cfg c).payload.map (fun entry => entry.blockIndex.toNat) = c.claimingBlocks := by
  simp only [inquirePacket, List.map_map]
  apply (List.map_congr_left fun listed member => ?_).trans (List.map_id _)
  exact sound_indexed good.sound listed (good.listed.inside listed member)

/-- The inquiry names exactly the blocks on the list. -/
theorem inquire_packet_names (good : Good cfg c) :
    Names (inquirePacket cfg c) position ↔ position ∈ c.claimingBlocks := by
  have whole : entries (inquirePacket cfg c) = (inquirePacket cfg c).payload := by
    apply List.take_of_length_le
    simp only [inquirePacket, List.length_map]
    exact Nat.le_of_eq good.listed.amount.symm
  rw [Names, whole, ← inquire_packet_indices good, List.mem_map]

theorem promote_ours (memory : Allocates env) (block : Block) :
    (promote cfg env position block).state = .ours := by
  unfold promote blockOwn blockAlloc
  by_cases there : block.addresses.isSome = true
  · simp [there]
  · simp [there, memory (.leaseTable position)]

/-- A block is on the list and an inquiry went out. -/
def bumped (inquiry : Option Bool) (after : Config) (position : Nat) : Nat :=
  if inquiry = some true ∧ position ∈ after.claimingBlocks then 1 else 0

theorem claimed_inquired {started : List Nat} {inquiry : Option Bool} (good : Good cfg after)
    (done : Claimed cfg env c started inquiry after) :
    Inquired position (bumped inquiry after position) c after := by
  refine ⟨(inquiry.map fun sent => .mcast (inquirePacket cfg after) sent).toList,
    congrArg (·.out) done.frame, ?_⟩
  have names : Names (inquirePacket cfg after) position ↔ position ∈ after.claimingBlocks :=
    inquire_packet_names good
  cases inquiry with
  | none => simp [bumped]
  | some sent =>
      cases sent with
      | false => simp [bumped, inquires]
      | true =>
          have kind : (inquirePacket cfg after).command = msgInquire := rfl
          by_cases member : position ∈ after.claimingBlocks
          · simp [bumped, inquires, kind, names, member]
          · simp [bumped, inquires, names, member]

/-- A block whose counter is full is owned, so it is not claimed any longer. -/
theorem claiming_unasked {started : List Nat} {inquiry : Option Bool} (memory : Allocates env)
    (done : Claimed cfg env c started inquiry after)
    (claiming : (after.blocks position).state = .claiming) : ¬ asked c position := by
  intro full
  have owned : (sifted cfg env c position).state = .ours := by
    rw [sifted, if_pos full]
    exact promote_ours memory _
  have old : position ∉ started := by
    intro new
    have free := (done.fresh position new).2
    rw [owned] at free
    contradiction
  rw [done.blocks] at claiming
  simp only [if_neg old] at claiming
  split at claiming <;> simp [counted, owned] at claiming

theorem promote_state (block : Block) :
    (promote cfg env position block).state = .ours ∨
      (promote cfg env position block).state = block.state := by
  unfold promote blockOwn blockAlloc
  split_ifs <;> simp_all

theorem sifted_free (free : (sifted cfg env c position).state = .free) :
    (c.blocks position).state = .free := by
  unfold sifted at free
  split at free
  · have states : (promote cfg env position (c.blocks position)).state = .ours ∨
        (promote cfg env position (c.blocks position)).state = (c.blocks position).state :=
      promote_state (c.blocks position)
    rcases states with own | same
    · rw [own] at free
      contradiction
    · exact same ▸ free
  · exact free

/-- A block that is begun was free and counts from zero. -/
theorem started_claiming {started : List Nat} {inquiry : Option Bool}
    (done : Claimed cfg env c started inquiry after) (new : position ∈ started) :
    (c.blocks position).state = .free ∧ (after.blocks position).state = .claiming ∧
      (after.blocks position).claimingCounts = UInt8.ofNat (bumped inquiry after position) := by
  refine ⟨sifted_free (done.fresh position new).2, ?_⟩
  have block := done.blocks position
  simp only [if_pos new] at block
  rw [block]
  unfold bumped
  split
  · simp [counted, opened]
  · simp [opened]

/-- A block that is neither begun nor owned goes on counting. -/
theorem unstarted_counts {started : List Nat} {inquiry : Option Bool}
    (done : Claimed cfg env c started inquiry after) (old : position ∉ started)
    (unasked : ¬ asked c position) :
    (after.blocks position).state = (c.blocks position).state ∧
      (after.blocks position).claimingCounts =
        (c.blocks position).claimingCounts + UInt8.ofNat (bumped inquiry after position) := by
  have block := done.blocks position
  have same : sifted cfg env c position = c.blocks position := if_neg unasked
  simp only [if_neg old, same] at block
  rw [block]
  unfold bumped
  split
  · simp [counted]
  · simp

/-- What the call makes of a block that is being claimed afterwards. -/
theorem claimed_claiming {started : List Nat} {inquiry : Option Bool} (memory : Allocates env)
    (done : Claimed cfg env c started inquiry after)
    (claiming : (after.blocks position).state = .claiming) :
    ((c.blocks position).state = .claiming ∧ position ∉ started ∧
        (after.blocks position).claimingCounts =
          (c.blocks position).claimingCounts + UInt8.ofNat (bumped inquiry after position)) ∨
      ((c.blocks position).state ≠ .claiming ∧
        (after.blocks position).claimingCounts = UInt8.ofNat (bumped inquiry after position)) := by
  by_cases new : position ∈ started
  · rcases started_claiming done new with ⟨free, -, counts⟩
    exact .inr ⟨by simp [free], counts⟩
  · rcases unstarted_counts done new (claiming_unasked memory done claiming) with ⟨state, counts⟩
    exact .inl ⟨state.symm.trans claiming, new, counts⟩

/-- Only a listed block whose counter is full is owned. -/
theorem claimed_owned {started : List Nat} {inquiry : Option Bool}
    (done : Claimed cfg env c started inquiry after)
    (foreign : (c.blocks position).state ≠ .ours)
    (owned : (after.blocks position).state = .ours) : asked c position := by
  by_contra unasked
  have block := done.blocks position
  have same : sifted cfg env c position = c.blocks position := if_neg unasked
  simp only [same] at block
  rw [block] at owned
  split at owned <;> split at owned <;>
    first
      | exact foreign owned
      | simp [counted, opened] at owned

end Outputs

section Runs
variable {cfg : Settings} {start s t : NodeState} {labels : List (Env × Call)}
  {label : Env × Call} {position count : Nat}

theorem ready_path_good (path : Path (ReadyStep cfg) start labels s) (good : Good cfg start.config) :
    Good cfg s.config :=
  path_invariant (fun s => Good cfg s.config) (fun _ _ _ good step => call_good good step.1) path
    good

/-- The attempt goes on while the block stays in its state. -/
theorem attempted_next {more : Nat} (attempted : Attempted cfg start labels position count s)
    (step : ReadyStep cfg s label t) (claiming : (t.config.blocks position).state = .claiming)
    (inquired : Inquired position more s.config t.config) :
    Attempted cfg start (labels ++ [label]) position (count + more) t := by
  obtain ⟨front, env, spareLeases, back, before, entered, rfl, path, enters, idle, busy, rest,
    known⟩ := attempted
  exact ⟨front, env, spareLeases, back ++ [label], before, entered, by simp, path, enters, idle,
    busy, path_snoc rest ⟨step, claiming⟩, inquired_trans known inquired⟩

/-- Every block that is being claimed has a counter that tells its history. -/
def Tracked (cfg : Settings) (start : NodeState) (labels : List (Env × Call)) (s : NodeState) :
    Prop :=
  ∀ position, (s.config.blocks position).state = .claiming →
    (s.config.blocks position).claimingCounts.toNat ≤ 3 ∧
      Attempted cfg start labels position (s.config.blocks position).claimingCounts.toNat s

theorem ready_claimed {env : Env} {spareLeases : Nat} (good : Good cfg s.config)
    (step : ReadyStep cfg s (env, .claim spareLeases) t) :
    ∃ started inquiry, Claimed cfg env s.config started inquiry t.config := by
  obtain ⟨started, inquiry, claimed⟩ : ∃ started inquiry, Claimed cfg env s.config started inquiry
      (blockClaim cfg env (blocksNeeded cfg spareLeases) s.config) := claim_claimed good spareLeases
  cases step.1 with
  | call _ _ _ _ done =>
      cases done
      exact ⟨started, inquiry, claimed⟩

theorem tracked_claim {env : Env} {spareLeases : Nat}
    (path : Path (ReadyStep cfg) start labels s) (good : Good cfg s.config)
    (tracked : Tracked cfg start labels s) (step : ReadyStep cfg s (env, .claim spareLeases) t) :
    Tracked cfg start (labels ++ [(env, .claim spareLeases)]) t := by
  obtain ⟨started, inquiry, claimed⟩ := ready_claimed good step
  obtain ⟨call, memory, ready⟩ := step
  have afterGood := claimed_good good claimed
  intro position claiming
  have inquired : Inquired position (bumped inquiry t.config position) s.config t.config :=
    claimed_inquired afterGood claimed
  have small : bumped inquiry t.config position ≤ 1 := by
    unfold bumped
    split <;> omega
  have value : (UInt8.ofNat (bumped inquiry t.config position)).toNat =
      bumped inquiry t.config position := by
    rw [UInt8.toNat_ofNat', Nat.mod_eq_of_lt (by omega)]
  rcases claimed_claiming memory claimed claiming with ⟨before, old, counts⟩ | ⟨before, counts⟩
  · obtain ⟨few, attempted⟩ := tracked position before
    -- a block that is asked about again had a counter below 3
    have room : (s.config.blocks position).claimingCounts.toNat +
        bumped inquiry t.config position ≤ 3 := by
      unfold bumped
      split
      · rename_i told
        have member := told.2
        rw [claimed.frame] at member
        rcases List.mem_append.mp member with stays | new
        · have unfilled : (s.config.blocks position).claimingCounts ≠ 3 ∧
              (s.config.blocks position).state = .claiming := by
            simpa [going] using (List.mem_filter.mp stays).2
          have different : (s.config.blocks position).claimingCounts.toNat ≠ 3 := fun three =>
            unfilled.1 (UInt8.toNat_inj.mp three)
          omega
        · exact absurd new old
      · exact few
    have sum : (t.config.blocks position).claimingCounts.toNat =
        (s.config.blocks position).claimingCounts.toNat + bumped inquiry t.config position := by
      rw [counts, UInt8.toNat_add, value, Nat.mod_eq_of_lt (by omega)]
    rw [sum]
    exact ⟨room, attempted_next attempted ⟨call, memory, ready⟩ claiming inquired⟩
  · rw [counts, value]
    exact ⟨by omega, labels, env, spareLeases, [], s, t, rfl, path, ⟨call, memory, ready⟩, before,
      claiming, .refl t, inquired⟩

theorem tracked_other (good : Good cfg s.config) (tracked : Tracked cfg start labels s)
    (step : ReadyStep cfg s label t) (no_claim : ∀ spareLeases, label.2 ≠ .claim spareLeases) :
    Tracked cfg start (labels ++ [label]) t := by
  obtain ⟨call, rest⟩ := step
  intro position claiming
  cases call with
  | call env call later other done =>
      have quiet := (perform_quiet good.sound other no_claim done).2
      have inquired : Inquired position 0 _ _ :=
        uninquiring_inquired (perform_uninquiring good.sound other no_claim done)
      obtain ⟨few, attempted⟩ := tracked position (quiet.claiming position claiming)
      simp only [quiet.counts position]
      exact ⟨few, attempted_next attempted ⟨.call env call later other done, rest⟩ claiming inquired⟩

/-- The counter of a block that is being claimed counts the inquiries of its attempt. -/
theorem ready_path_tracked (path : Path (ReadyStep cfg) start labels s)
    (good : Good cfg start.config) (idle : ∀ position,
      (start.config.blocks position).state ≠ .claiming) : Tracked cfg start labels s := by
  refine path_induction (fun labels s => Tracked cfg start labels s) ?_ ?_ path
  · intro position claiming
    exact absurd claiming (idle position)
  · intro labels s label t front tracked step
    have here := ready_path_good front good
    by_cases claims : ∃ spareLeases, label.2 = .claim spareLeases
    · obtain ⟨spareLeases, same⟩ := claims
      obtain ⟨env, call⟩ := label
      cases same
      exact tracked_claim front here tracked step
    · exact tracked_other here tracked step fun spareLeases same => claims ⟨spareLeases, same⟩

/-- A block that `block_claim` makes ours has an attempt with three inquiries behind it. -/
theorem promoted_after_attempt {now : Time} {options : List DhcpOption} {env : Env}
    {spareLeases : Nat}
    (path : Path (ReadyStep cfg) ⟨now, startConfig cfg now options⟩ labels s)
    (step : ReadyStep cfg s (env, .claim spareLeases) t)
    (before : (s.config.blocks position).state ≠ .ours)
    (promoted : (t.config.blocks position).state = .ours) :
    Attempted cfg ⟨now, startConfig cfg now options⟩ labels position 3 s := by
  have good := ready_path_good path (start_good cfg now options)
  have tracked := ready_path_tracked path (start_good cfg now options) (by
    intro position
    simp [startConfig, freshBlock])
  obtain ⟨started, inquiry, claimed⟩ := ready_claimed good step
  obtain ⟨call, memory, ready⟩ := step
  have full := claimed_owned claimed before promoted
  have claiming := ready spareLeases rfl position full
  have attempted := (tracked position claiming).2
  rw [full.2] at attempted
  exact attempted

end Runs

/-- The state of the small node after some calls of `block_claim`, one each second. -/
def smallClaims : Nat → Config
  | 0 => smallStart.config
  | count + 1 => blockClaim (smallNode 1) (calmEnv (1000 + count)) (blocksNeeded (smallNode 1) 0)
      (smallClaims count)

theorem small_claim_step (count : Nat) (ready : Ready (smallClaims count)) :
    ReadyStep (smallNode 1) ⟨1000 + (count - 1), smallClaims count⟩
      (calmEnv (1000 + count), .claim 0) ⟨1000 + count, smallClaims (count + 1)⟩ :=
  ⟨.call (calmEnv (1000 + count)) (.claim 0) (Nat.add_le_add_left (Nat.sub_le _ _) 1000)
    (by simp) rfl,
    fun _ => rfl, fun _ _ => ready⟩

theorem promoted_after_attempt_small : Attempted (smallNode 1) smallStart
    [(calmEnv 1000, .claim 0), (calmEnv 1001, .claim 0), (calmEnv 1002, .claim 0)] 0 3
    ⟨1002, smallClaims 3⟩ :=
  promoted_after_attempt
    (.next (small_claim_step 0 (by decide +kernel)) (.next (small_claim_step 1 (by decide +kernel))
      (.next (small_claim_step 2 (by decide +kernel)) (.refl _))))
    (small_claim_step 3 (by decide +kernel)) (by decide +kernel) (by decide +kernel)

-- After three inquiries a greater node inquires, so the block is tentative; the counter is
-- still full, and the next house keeping run makes the block ours.
theorem tentative_block_promoted : ∃ (s : NodeState) (after : Config), Reachable (smallNode 1) s ∧
    (s.config.blocks 0).state = .tentative ∧
    handle (smallNode 1) (calmEnv 1004) .houseKeeping s.config = some after ∧
    (after.blocks 0).state = .ours := by
  have evaluated : (runEvents (smallNode 1) smallStart [(calmEnv 1000, .houseKeeping),
      (calmEnv 1001, .houseKeeping), (calmEnv 1002, .houseKeeping),
      (calmEnv 1003, smallInquire 2)]).any (fun s =>
        (handle (smallNode 1) (calmEnv 1004) .houseKeeping s.config).any fun after =>
          (s.config.blocks 0).state = .tentative ∧ (after.blocks 0).state = .ours) = true := by
    decide +kernel
  obtain ⟨s, run, rest⟩ := (Option.any_eq_true _ _).mp evaluated
  obtain ⟨after, handled, facts⟩ := (Option.any_eq_true _ _).mp rest
  obtain ⟨tentative, promoted⟩ := of_decide_eq_true facts
  exact ⟨s, after, ⟨_, small_runs (fun _ _ => trivial) run⟩, tentative, handled, promoted⟩

end Ddhcpd.Attempt

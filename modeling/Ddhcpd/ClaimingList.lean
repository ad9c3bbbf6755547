import Ddhcpd.Attempt
import Ddhcpd.HouseKeeping

/-!
The list of blocks a node claims. Packets and timeouts move a block out of its state and
leave it on the list; only `block_claim` writes the list, and it drops those that have left
before it inquires about the rest.
-/

namespace Ddhcpd.ClaimingList
open Types Loop Blocks Dhcp Node Path Claim Invariant Calls HouseKeeping Attempt

/-- What `block_claim` has made of the list when it turns to the inquiry. -/
def gathered (cfg : Settings) (env : Env) (numBlocks : Int) (c : Config) : Config :=
  let listed := c.claimingBlocks.foldl (claimListed cfg env) (c, numBlocks)
  loop (claimFresh cfg env) (listed.2 - listed.1.claimingBlocksAmount.toNat).toNat listed.1

/-- The list holds every block that is being claimed, once, and its length is known. -/
structure Mirrors (c : Config) : Prop where
  once : c.claimingBlocks.Nodup
  amount : c.claimingBlocksAmount.toNat = c.claimingBlocks.length
  listed : ∀ position, (c.blocks position).state = .claiming → position ∈ c.claimingBlocks
  few : ∀ position ∈ c.claimingBlocks, (c.blocks position).claimingCounts.toNat ≤ 3

/-- The inquiry is about the list, of blocks that are being claimed. -/
structure Tells (packet : McastPacket) (c : Config) : Prop where
  count : packet.count.toNat = packet.payload.length
  names : packet.payload.map (fun entry => entry.blockIndex.toNat) = c.claimingBlocks
  once : c.claimingBlocks.Nodup
  claiming : ∀ position ∈ c.claimingBlocks, (c.blocks position).state = .claiming

/-- An inquiry is about the list as it was at that moment. -/
def asksAsListed (moment : Config) : Output → Prop
  | .mcast packet _ => packet.command = msgInquire → Tells packet moment
  | _ => True

/-! House keeping and the call of `block_claim` in it. -/

/-- No attempt makes progress, and nothing is asked. -/
structure Still (c after : Config) : Prop where
  quiet : Quiet c after
  emits : Emits uninquiring c after

theorem still_trans {a b c : Config} (first : Still a b) (second : Still b c) : Still a c :=
  ⟨quiet_trans first.quiet second.quiet, emits_trans first.emits second.emits⟩

theorem still_silent {c after : Config} (still : Still c after) (position : Nat) :
    Inquired position 0 c after := uninquiring_inquired still.emits

/-- House keeping from the state that `block_check_timeouts` left: it calls `block_claim` once
or not at all. -/
inductive Kept (cfg : Settings) (env : Env) (checked after : Config) : Prop where
  | idle : Still checked after → Kept cfg env checked after
  | claims {spareLeases : Nat} {claimed : Config} :
      blockNumFreeLeases cfg checked = some spareLeases →
      claimed = blockClaim cfg env (blocksNeeded cfg spareLeases) (unmarked cfg checked) →
      Still claimed after →
      (∀ position, (after.blocks position).state = (claimed.blocks position).state) →
      Kept cfg env checked after

section Claiming
variable {cfg : Settings} {env : Env} {c checked after : Config} {position : Nat}

theorem perform_still {call : Call} (sound : Sound cfg c) (other : call ≠ .received .houseKeeping)
    (noClaim : ∀ spareLeases, call ≠ .claim spareLeases)
    (done : perform cfg env call c = some after) : Still c after :=
  ⟨(perform_quiet sound other noClaim done).2, perform_uninquiring sound other noClaim done⟩

theorem unmarked_still (sound : Sound cfg c) : Still c (unmarked cfg c) := by
  refine ⟨?_, emits_same unmarked_out⟩
  unfold unmarked
  split
  · exact (unmark_needless_good sound).2
  · exact quiet_refl c

theorem house_keeping_kept (good : Good cfg c) (done : houseKeeping cfg env c = some after) :
    ∃ checked, blockCheckTimeouts cfg env.now c = some checked ∧ Still c checked ∧
      Good cfg checked ∧ Kept cfg env checked after := by
  rcases Option.bind_eq_some_iff.mp done with ⟨checked, check, rest⟩
  rcases Option.bind_eq_some_iff.mp rest with ⟨adjusted, adjust, last⟩
  have checks : perform cfg env .checkTimeouts c = some checked := check
  have checkedGood : Good cfg checked := perform_good good (by simp) checks
  have adjustedGood := adjust_good checkedGood adjust
  have drops : perform cfg env .timeoutPackets (blockUpdateClaims cfg env adjusted) = some after :=
    last
  have update : perform cfg env .updateClaims adjusted =
      some (blockUpdateClaims cfg env adjusted) := rfl
  have updates : Still adjusted (blockUpdateClaims cfg env adjusted) :=
    perform_still adjustedGood.sound (by simp) (by simp) update
  have ends : Still adjusted after :=
    still_trans updates (perform_still (update_claims_sound adjustedGood.sound) (by simp) (by simp)
      drops)
  have states (position : Nat) :
      (after.blocks position).state = (adjusted.blocks position).state := by
    obtain rfl := packet_timeout_result drops
    exact update_claims_state adjustedGood.sound
  refine ⟨checked, check, perform_still good.sound (by simp) (by simp) checks, checkedGood, ?_⟩
  rcases adjust_cases adjust with dropped | rfl | ⟨spareLeases, spare, -, rfl⟩
  · have idle : perform cfg env .dropUnused checked = some adjusted := dropped
    exact .idle (still_trans (perform_still checkedGood.sound (by simp) (by simp) idle) ends)
  · exact .idle (still_trans (unmarked_still checkedGood.sound) ends)
  · exact .claims spare rfl ends states

/-- What `block_claim` makes of a block that is on the list afterwards. -/
theorem claimed_listed {started : List Nat} {inquiry : Option Bool}
    (done : Claimed cfg env c started inquiry after) (member : position ∈ after.claimingBlocks) :
    (after.blocks position).state = .claiming ∧
      (((c.blocks position).state ≠ .claiming ∧
          (after.blocks position).claimingCounts = UInt8.ofNat (bumped inquiry after position)) ∨
        (position ∈ c.claimingBlocks ∧ (c.blocks position).state = .claiming ∧
          (c.blocks position).claimingCounts ≠ 3 ∧
          (after.blocks position).claimingCounts =
            (c.blocks position).claimingCounts + UInt8.ofNat (bumped inquiry after position))) := by
  by_cases new : position ∈ started
  · rcases started_claiming done new with ⟨free, claiming, counts⟩
    exact ⟨claiming, .inl ⟨by simp [free], counts⟩⟩
  · have listed : position ∈ c.claimingBlocks ∧ going c position = true := by
      rw [done.frame] at member
      rcases List.mem_append.mp member with old | started
      · exact List.mem_filter.mp old
      · exact absurd started new
    have goes : (c.blocks position).claimingCounts ≠ 3 ∧ (c.blocks position).state = .claiming := by
      simpa [going] using listed.2
    rcases unstarted_counts done new fun full => goes.1 full.2 with ⟨state, counts⟩
    exact ⟨state.trans goes.2, .inr ⟨listed.1, goes.2, goes.1, counts⟩⟩

/-! The list and the blocks on it. -/

theorem quiet_mirrors (quiet : Quiet c after) (mirrors : Mirrors c) : Mirrors after where
  once := quiet.list ▸ mirrors.once
  amount := by
    rw [quiet.amount, quiet.list]
    exact mirrors.amount
  listed position claiming :=
    quiet.list ▸ mirrors.listed position (quiet.claiming position claiming)
  few position member := by
    rw [quiet.counts position]
    exact mirrors.few position (quiet.list ▸ member)

theorem claimed_mirrors {started : List Nat} {inquiry : Option Bool} (memory : Allocates env)
    (mirrors : Mirrors c) (done : Claimed cfg env c started inquiry after) : Mirrors after where
  once := done.once
  amount := done.amount
  listed position claiming := by
    have unasked := claiming_unasked memory done claiming
    rw [done.frame]
    by_cases new : position ∈ started
    · exact List.mem_append_right _ new
    · have before := (unstarted_counts done new unasked).1.symm.trans claiming
      have member := mirrors.listed position before
      have unfilled : (c.blocks position).claimingCounts ≠ 3 := fun full => unasked ⟨member, full⟩
      exact List.mem_append_left _
        (List.mem_filter.mpr ⟨member, by simp [going, unfilled, before]⟩)
  few position member := by
    have small : bumped inquiry after position ≤ 1 := by
      unfold bumped
      split <;> omega
    rcases (claimed_listed done member).2 with ⟨-, counts⟩ | ⟨old, -, unfilled, counts⟩
    · rw [counts, UInt8.toNat_ofNat', Nat.mod_eq_of_lt (by omega)]
      omega
    · have few := mirrors.few position old
      have different : (c.blocks position).claimingCounts.toNat ≠ 3 := fun three =>
        unfilled (UInt8.toNat_inj.mp three)
      rw [counts, UInt8.toNat_add, UInt8.toNat_ofNat', Nat.mod_eq_of_lt (by omega)]
      omega

theorem kept_mirrors (memory : Allocates env) (good : Good cfg checked) (mirrors : Mirrors checked)
    (kept : Kept cfg env checked after) : Mirrors after := by
  cases kept with
  | idle still => exact quiet_mirrors still.quiet mirrors
  | @claims spareLeases _ _ same ends _ =>
      rcases claim_claimed (unmarked_good good) spareLeases with ⟨started, inquiry, claims⟩
      have before := quiet_mirrors (unmarked_still good.sound).quiet mirrors
      have claimed := claimed_mirrors memory before claims
      exact quiet_mirrors ends.quiet (same ▸ claimed)

theorem step_mirrors {s t : NodeState} {label : Env × Event} (good : Good cfg s.config)
    (mirrors : Mirrors s.config) (step : Step cfg s label t) (memory : Allocates label.1) :
    Mirrors t.config := by
  cases step with
  | event env event later done =>
      by_cases house : event = .houseKeeping
      · subst house
        rcases house_keeping_kept good done with ⟨checked, -, still, checkedGood, kept⟩
        exact kept_mirrors memory checkedGood (quiet_mirrors still.quiet mirrors) kept
      · exact quiet_mirrors (received_good good.sound house done).2 mirrors

/-! The inquiry. -/

theorem send_inquire_list (cfg : Settings) (env : Env) (c : Config) :
    (sendInquire cfg env c).claimingBlocks = c.claimingBlocks ∧
      (sendInquire cfg env c).claimingBlocksAmount = c.claimingBlocksAmount := by
  unfold sendInquire
  simp only
  split
  · exact ⟨rfl, rfl⟩
  split
  · exact ⟨rfl, rfl⟩
  split
  · rw [count_claims_frame]
    exact ⟨rfl, rfl⟩
  · exact ⟨rfl, rfl⟩

theorem gathered_tells {numBlocks : Int} {started : List Nat} {inquiry : Option Bool}
    (good : Good cfg c)
    (claims : Claimed cfg env c started inquiry (blockClaim cfg env numBlocks c)) :
    Tells (inquirePacket cfg (blockClaim cfg env numBlocks c)) (gathered cfg env numBlocks c) := by
  have afterGood := claimed_good good claims
  have list := send_inquire_list cfg env (gathered cfg env numBlocks c)
  have result : blockClaim cfg env numBlocks c =
      sendInquire cfg env (gathered cfg env numBlocks c) := rfl
  rw [result] at claims afterGood ⊢
  generalize gathered cfg env numBlocks c = full at *
  have once : full.claimingBlocks.Nodup := list.1 ▸ claims.once
  have amount : Counted full := by
    have counted := claims.amount
    rw [Counted, list.1, list.2] at counted
    exact counted
  rcases send_inquire_claimed cfg env full once amount with ⟨sent, after, same, form, -, -⟩
  rw [same] at claims afterGood ⊢ list
  refine ⟨?_, (inquire_packet_indices afterGood).trans list.1, once, fun position member => ?_⟩
  · simp [inquirePacket, list.1, list.2, amount.symm]
  · have claiming := (claimed_listed claims (list.1 ▸ member)).1
    rw [form] at claiming
    simp only at claiming
    split at claiming <;> exact claiming

theorem claim_asks (good : Good cfg c) (spareLeases : Nat) :
    Emits (asksAsListed (gathered cfg env (blocksNeeded cfg spareLeases) c)) c
      (blockClaim cfg env (blocksNeeded cfg spareLeases) c) := by
  have claimed : ∃ started inquiry, Claimed cfg env c started inquiry
      (blockClaim cfg env (blocksNeeded cfg spareLeases) c) := claim_claimed good spareLeases
  rcases claimed with ⟨started, inquiry, claims⟩
  refine ⟨_, congrArg (·.out) claims.frame, fun output member => ?_⟩
  simp only [Option.mem_toList, Option.map_eq_some_iff] at member
  rcases member with ⟨got, -, rfl⟩
  exact fun _ => gathered_tells good claims

theorem still_asks (still : Still c after) (moment : Config) :
    Emits (asksAsListed moment) c after := by
  apply emits_mono still.emits
  intro output claim
  cases output with
  | mcast packet got =>
      intro asks
      have kind : packet.command = msgUpdateClaim := claim
      rw [asks] at kind
      contradiction
  | direct => trivial
  | dhcp => trivial
  | hook => trivial

/-- What house keeping asks it asks in `block_claim`, about the list at that moment. -/
theorem house_keeping_tells {packet : McastPacket} {got : Bool} (good : Good cfg c)
    (done : houseKeeping cfg env c = some after) (member : .mcast packet got ∈ sent c after)
    (asks : packet.command = msgInquire) :
    ∃ checked spareLeases, blockCheckTimeouts cfg env.now c = some checked ∧
      blockNumFreeLeases cfg checked = some spareLeases ∧
      Tells packet (gathered cfg env (blocksNeeded cfg spareLeases) (unmarked cfg checked)) := by
  rcases house_keeping_kept good done with ⟨checked, check, still, checkedGood, kept⟩
  cases kept with
  | idle rest =>
      have claim : packet.command = msgUpdateClaim :=
        emits_sent (still_trans still rest).emits member
      rw [asks] at claim
      contradiction
  | @claims spareLeases _ spare same ends _ =>
      refine ⟨checked, spareLeases, check, spare, ?_⟩
      let moment := gathered cfg env (blocksNeeded cfg spareLeases) (unmarked cfg checked)
      have front := still_asks (still_trans still (unmarked_still checkedGood.sound)) moment
      have claims := same ▸ claim_asks (unmarked_good checkedGood) spareLeases
      have all := emits_trans front (emits_trans claims (still_asks ends moment))
      exact emits_sent all member asks

end Claiming

/-- In every run in which memory lasts the list mirrors the states, and an inquiry is about
the list. -/
theorem claiming_list_mirrors {cfg : Settings} {labels : List (Env × Event)} {s : NodeState}
    (run : Runs cfg Allocates labels s) :
    Mirrors s.config ∧ ∀ env event t, Step cfg s (env, event) t →
      ∀ packet got, .mcast packet got ∈ sent s.config t.config → packet.command = msgInquire →
        event = .houseKeeping ∧ ∃ checked spareLeases,
          blockCheckTimeouts cfg env.now s.config = some checked ∧
          blockNumFreeLeases cfg checked = some spareLeases ∧
          Tells packet (gathered cfg env (blocksNeeded cfg spareLeases) (unmarked cfg checked)) := by
  have good := runs_good run
  constructor
  · rcases run with ⟨now, options, path⟩
    have start : Mirrors (startConfig cfg now options) :=
      ⟨List.nodup_nil, rfl, by simp [startConfig, freshBlock], by simp [startConfig]⟩
    have all := path_invariant (fun s => Good cfg s.config ∧ Mirrors s.config)
      (fun _ _ _ known step => ⟨step_good known.1 step.1,
        step_mirrors known.1 known.2 step.1 step.2⟩) path ⟨start_good cfg now options, start⟩
    exact all.2
  · intro env event t step packet got member asks
    cases step with
    | @event _ c after _ _ later done =>
        by_cases house : event = .houseKeeping
        · subst house
          exact ⟨rfl, house_keeping_tells good done member asks⟩
        · have performed : perform cfg env (.received event) c = some after := done
          have silent := perform_uninquiring good.sound (by simpa using house) (by simp) performed
          have claim : packet.command = msgUpdateClaim := emits_sent silent member
          rw [asks] at claim
          contradiction

-- The second run of house keeping of the small node inquires about its block again.
theorem claiming_list_mirrors_small : ∃ (s : NodeState) (after : Config) (packet : McastPacket)
    (got : Bool), Mirrors s.config ∧
      houseKeeping (smallNode 1) (calmEnv 1001) s.config = some after ∧
      .mcast packet got ∈ sent s.config after ∧ packet.command = msgInquire ∧
      ∃ checked spareLeases, blockCheckTimeouts (smallNode 1) 1001 s.config = some checked ∧
        blockNumFreeLeases (smallNode 1) checked = some spareLeases ∧
        Tells packet (gathered (smallNode 1) (calmEnv 1001)
          (blocksNeeded (smallNode 1) spareLeases) (unmarked (smallNode 1) checked)) := by
  have evaluated : ((runEvents (smallNode 1) smallStart [(calmEnv 1000, .houseKeeping)]).any
      fun s => s.clock ≤ 1001 ∧ (houseKeeping (smallNode 1) (calmEnv 1001) s.config).any
        fun after => (sent s.config after).any (inquires 0)) = true := by decide +kernel
  rcases (Option.any_eq_true _ _).mp evaluated with ⟨s, done, told⟩
  simp only [decide_eq_true_eq] at told
  rcases (Option.any_eq_true _ _).mp told.2 with ⟨after, kept, asks⟩
  rcases List.any_eq_true.mp asks with ⟨output, member, inquiry⟩
  have run : Runs (smallNode 1) Allocates _ s := small_runs (by simp [Allocates, calmEnv]) done
  have step : Step (smallNode 1) s (calmEnv 1001, .houseKeeping) ⟨1001, after⟩ :=
    .event (calmEnv 1001) .houseKeeping told.1 kept
  cases output with
  | mcast packet got =>
      have command : packet.command = msgInquire := by
        cases got <;> simp [inquires] at inquiry
        exact inquiry.1
      rcases claiming_list_mirrors run with ⟨mirrors, tells⟩
      rcases tells _ _ _ step packet got member command with
        ⟨-, checked, spareLeases, check, spare, about⟩
      exact ⟨s, after, packet, got, mirrors, kept, member, command, checked, spareLeases, check,
        spare, about⟩
  | direct => simp [inquires] at inquiry
  | dhcp => simp [inquires] at inquiry
  | hook => simp [inquires] at inquiry

end Ddhcpd.ClaimingList

import Ddhcpd.BlockMoves
import Ddhcpd.Claim
import Ddhcpd.LeaseMoves

/-!
What every state of a node satisfies: a block knows its place in the network, a lease
table has one entry for each address, a block of ours has a table and a free one has
none; and the list of claims names no block twice and no block of ours.
-/

namespace Ddhcpd.Invariant
open Types Leases Blocks Refresh Claim Node

structure SoundBlock (cfg : Settings) (position : Nat) (block : Block) : Prop where
  index : block.index = UInt32.ofNat position
  subnet : block.subnet = addrAdd cfg.prefixAddr (position * cfg.blockSize.toNat)
  size : block.subnetLen = cfg.blockSize
  table : ∀ table, block.addresses = some table → table.length = cfg.blockSize.toNat
  own : block.state = .ours → block.addresses.isSome = true
  free : block.state = .free → block.addresses = none
  usable : block.state ≠ .blocked

def Sound (cfg : Settings) (c : Config) : Prop :=
  ∀ position, SoundBlock cfg position (c.blocks position)

structure Listed (cfg : Settings) (c : Config) : Prop where
  once : c.claimingBlocks.Nodup
  amount : Counted c
  inside : ∀ position ∈ c.claimingBlocks, position < cfg.blocks
  foreign : ∀ position ∈ c.claimingBlocks, (c.blocks position).state ≠ .ours

theorem blocks_lt (cfg : Settings) : cfg.blocks < 2 ^ 32 := cfg.numberOfBlocks.toNat_lt

theorem sound_indexed {cfg : Settings} {c : Config} (sound : Sound cfg c) : Indexed cfg c := by
  intro position inside
  rw [(sound position).index, UInt32.toNat_ofNat',
    Nat.mod_eq_of_lt (Nat.lt_trans inside (blocks_lt cfg))]

section Entry
variable {cfg : Settings} {position : Nat} {block : Block}

theorem sound_full (sound : SoundBlock cfg position block) {table : List Lease}
    (here : block.addresses = some table) : Full block table :=
  ⟨here, by rw [sound.table table here, sound.size]⟩

theorem sound_own_full (sound : SoundBlock cfg position block) (own : block.state = .ours) :
    ∃ table, Full block table := by
  obtain ⟨table, here⟩ := Option.isSome_iff_exists.mp (sound.own own)
  exact ⟨table, sound_full sound here⟩

theorem lease_at_there {index : Nat} (sound : SoundBlock cfg position block)
    (there : block.addresses.isSome = true) (inside : index < cfg.blockSize.toNat) :
    ∃ lease, leaseAt block index = some lease := by
  obtain ⟨table, here⟩ := Option.isSome_iff_exists.mp there
  have bound : index < table.length := by
    rw [sound.table table here]
    exact inside
  exact ⟨table[index], by rw [lease_at_full (sound_full sound here),
    List.getElem?_eq_getElem bound]⟩

/-- A change of the table that keeps its length. -/
theorem sound_table (sound : SoundBlock cfg position block) {changed : Option (List Lease)}
    (there : changed.isSome = block.addresses.isSome)
    (size : ∀ table, changed = some table → table.length = cfg.blockSize.toNat) :
    SoundBlock cfg position { block with addresses := changed } where
  index := sound.index
  subnet := sound.subnet
  size := sound.size
  table := size
  own own := there.trans (sound.own own)
  free free := by
    have none_before := sound.free free
    rw [none_before] at there
    simpa using there
  usable := sound.usable

theorem sound_put (sound : SoundBlock cfg position block) (index : Nat) (lease : Lease) :
    SoundBlock cfg position (LeaseMoves.putLease block index lease) := by
  apply sound_table sound (by simp)
  intro table here
  obtain ⟨old, before, rfl⟩ := Option.map_eq_some_iff.mp here
  simpa using sound.table old before

theorem sound_alloc {env : Env} (sound : SoundBlock cfg position block)
    (busy : block.state ≠ .free) :
    SoundBlock cfg position (blockAlloc env position block).1 := by
  unfold blockAlloc
  split
  · exact sound
  split
  · refine ⟨sound.index, sound.subnet, sound.size, ?_, by simp, fun free => absurd free busy,
      sound.usable⟩
    simp [sound.size]
  · exact sound

theorem block_alloc_there {env : Env} (memory : env.alloc (.leaseTable position) = true) :
    (blockAlloc env position block).2 = 0 ∧
      (blockAlloc env position block).1.addresses.isSome = true ∧
      (blockAlloc env position block).1.ownerAddress = block.ownerAddress := by
  unfold blockAlloc
  by_cases there : block.addresses.isSome = true
  · simp [there]
  · simp [there, memory]

theorem sound_marked (sound : SoundBlock cfg position block) (since : Time) :
    SoundBlock cfg position { block with needlessSince := since } :=
  ⟨sound.index, sound.subnet, sound.size, sound.table, sound.own, sound.free, sound.usable⟩

theorem sound_timed (sound : SoundBlock cfg position block) (timeout : Time) :
    SoundBlock cfg position { block with timeout := timeout } :=
  ⟨sound.index, sound.subnet, sound.size, sound.table, sound.own, sound.free, sound.usable⟩

/-- What `block_free` leaves of a block that is not blocked. -/
def freed (block : Block) : Block :=
  { block with
    nodeId := zeroBytes 8
    state := .free
    addresses := none
    needlessSince := if block.addresses.isSome then 0 else block.needlessSince }

theorem block_free_freed (usable : block.state ≠ .blocked) : blockFree block = freed block := by
  unfold blockFree freed
  simp only [ne_eq, usable, not_false_eq_true, ↓reduceIte]
  cases block.addresses with
  | none => simp
  | some table => simp

theorem sound_free (sound : SoundBlock cfg position block) :
    SoundBlock cfg position (blockFree block) := by
  rw [block_free_freed sound.usable]
  exact ⟨sound.index, sound.subnet, sound.size, by simp [freed], by simp [freed], by simp [freed],
    by simp [freed]⟩

theorem sound_conceded {env : Env} {packet : McastPacket} {sender : In6Addr}
    {claim : BlockPayload} (sound : SoundBlock cfg position block) :
    SoundBlock cfg position (BlockMoves.conceded env packet sender claim block) :=
  ⟨sound.index, sound.subnet, sound.size, sound.table, by simp [BlockMoves.conceded],
    by simp [BlockMoves.conceded], by simp [BlockMoves.conceded]⟩

theorem sound_deferred {env : Env} (sound : SoundBlock cfg position block) :
    SoundBlock cfg position (BlockMoves.deferred cfg env block) :=
  ⟨sound.index, sound.subnet, sound.size, sound.table, by simp [BlockMoves.deferred],
    by simp [BlockMoves.deferred], by simp [BlockMoves.deferred]⟩

theorem sound_opened {env : Env} (sound : SoundBlock cfg position block) :
    SoundBlock cfg position (opened cfg env block) :=
  ⟨sound.index, sound.subnet, sound.size, sound.table, by simp [opened], by simp [opened],
    by simp [opened]⟩

theorem sound_counted (sound : SoundBlock cfg position block) :
    SoundBlock cfg position (counted block) :=
  ⟨sound.index, sound.subnet, sound.size, sound.table, sound.own, sound.free, sound.usable⟩

/-- Owning a block gives it a table, or leaves it alone but for the counter. -/
theorem sound_promote {env : Env} (sound : SoundBlock cfg position block) :
    SoundBlock cfg position (promote cfg env position block) := by
  unfold promote blockOwn blockAlloc
  by_cases there : block.addresses.isSome = true
  · simp only [there, ↓reduceIte, ne_eq, not_true_eq_false, Nat.lt_irrefl, gt_iff_lt]
    exact ⟨sound.index, sound.subnet, sound.size, sound.table, fun _ => there, by simp, by simp⟩
  · by_cases memory : env.alloc (.leaseTable position) = true
    · simp only [there, memory, Bool.false_eq_true, ↓reduceIte, ne_eq, not_true_eq_false,
        Nat.lt_irrefl, gt_iff_lt]
      exact ⟨sound.index, sound.subnet, sound.size, by simp [sound.size], by simp, by simp,
        by simp⟩
    · simp only [there, memory, Bool.false_eq_true, ↓reduceIte, ne_eq, Nat.one_ne_zero,
        not_false_eq_true, Nat.lt_add_one, gt_iff_lt]
      exact ⟨sound.index, sound.subnet, sound.size, sound.table, sound.own, sound.free,
        sound.usable⟩

/-! What `block_check_timeouts` makes of a block. -/

def sweptBlock (now : Time) (block : Block) (table : List Lease) : Block :=
  { block with addresses := some (table.map (Lease.expired now)) }

def checked (now : Time) (block : Block) : Block :=
  if block.timeout < now ∧ block.state ≠ .free then blockFree block
  else
    match block.addresses with
    | none => block
    | some table =>
        if block.state ≠ .ours ∧ (table.map (Lease.expired now)).all isFree
        then blockFree (sweptBlock now block table) else sweptBlock now block table

theorem sound_swept (sound : SoundBlock cfg position block) (now : Time) {table : List Lease}
    (here : block.addresses = some table) : SoundBlock cfg position (sweptBlock now block table) := by
  apply sound_table sound (by simp [here])
  intro swept same
  obtain rfl := Option.some.inj same
  simpa using sound.table table here

theorem sound_checked (sound : SoundBlock cfg position block) (now : Time) :
    SoundBlock cfg position (checked now block) := by
  unfold checked
  split
  · exact sound_free sound
  split
  · exact sound
  · rename_i table here
    split
    · exact sound_free (sound_swept sound now here)
    · exact sound_swept sound now here

theorem check_block_checked (sound : SoundBlock cfg position block) (now : Time) :
    checkBlock now block = some (checked now block) := by
  unfold checkBlock checked
  by_cases ended : block.timeout < now ∧ block.state ≠ .free
  · simp [ended.1, ended.2, sound.usable, block_free_freed, freed]
  · have live : ¬ (block.timeout < now ∧ block.state ≠ .blocked ∧ block.state ≠ .free) := by
      rintro ⟨late, -, busy⟩
      exact ended ⟨late, busy⟩
    simp only [ended, live, ↓reduceIte]
    cases here : block.addresses with
    | none =>
        have foreign : block.state ≠ .ours := by
          intro own
          simpa [here] using sound.own own
        simp [foreign]
    | some table =>
        have full := sound_full sound here
        have all : (table.map (Lease.expired now)).countP isFree = block.subnetLen.toNat ↔
            (table.map (Lease.expired now)).all isFree = true := by
          have size : (table.map (Lease.expired now)).length = block.subnetLen.toNat := by
            rw [List.length_map, full.2]
          rw [← size, List.countP_eq_length, List.all_eq_true]
        by_cases own : block.state = .ours
        · simp [own, check_timeouts_full full, sweptBlock]
        · simp only [own, ↓reduceIte, Option.isSome_some, check_timeouts_full full,
            Option.map_some, ne_eq, not_false_eq_true, true_and, all, sweptBlock]

theorem check_timeouts_checked {c : Config} (sound : Sound cfg c) (now : Time) :
    blockCheckTimeouts cfg now c = some { c with
      blocks := fun k => if k < cfg.blocks then checked now (c.blocks k) else c.blocks k } := by
  have pass := (Loop.rewrite_eachM_iff (checkBlock now) cfg.blocks c.blocks
    fun k => if k < cfg.blocks then checked now (c.blocks k) else c.blocks k).mpr
    ⟨fun index inside => by
        rw [if_pos inside]
        exact check_block_checked (sound index) now,
      fun index outside => if_neg (Nat.not_lt_of_le outside)⟩
  rw [blockCheckTimeouts, pass]
  rfl

end Entry

/-! What the moves of the handlers leave alone. -/

/-- A block without what only the lease handlers change. -/
def claimOf (block : Block) : Block := { block with addresses := none, needlessSince := 0 }

/-- All that was sent in between is allowed. -/
def Emits (allowed : Output → Prop) (c after : Config) : Prop :=
  ∃ outs, after.out = c.out ++ outs ∧ ∀ output ∈ outs, allowed output

def announces : Output → Prop
  | .mcast packet _ => packet.command = msgUpdateClaim
  | _ => False

structure LeaseFrame (c after : Config) : Prop where
  claims : ∀ position, claimOf (after.blocks position) = claimOf (c.blocks position)
  list : after.claimingBlocks = c.claimingBlocks
  amount : after.claimingBlocksAmount = c.claimingBlocksAmount
  silent : ∃ outs, after.out = c.out ++ outs ∧ ∀ packet sent, Output.mcast packet sent ∉ outs

/-- No block is claimed or owned anew, and no attempt to claim one makes progress. -/
structure Quiet (c after : Config) : Prop where
  list : after.claimingBlocks = c.claimingBlocks
  amount : after.claimingBlocksAmount = c.claimingBlocksAmount
  ours : ∀ position, (after.blocks position).state = .ours → (c.blocks position).state = .ours
  claiming : ∀ position, (after.blocks position).state = .claiming →
    (c.blocks position).state = .claiming
  counts : ∀ position, (after.blocks position).claimingCounts =
    (c.blocks position).claimingCounts

theorem emits_same {allowed : Output → Prop} {c after : Config} (same : after.out = c.out) :
    Emits allowed c after := ⟨[], by simp [same], by simp⟩

theorem emits_trans {allowed : Output → Prop} {a b c : Config} (first : Emits allowed a b)
    (second : Emits allowed b c) : Emits allowed a c := by
  rcases first with ⟨outs, one, front⟩
  rcases second with ⟨more, two, back⟩
  refine ⟨outs ++ more, by rw [two, one, List.append_assoc], fun output member => ?_⟩
  exact (List.mem_append.mp member).elim (front output) (back output)

theorem emits_mono {allowed wider : Output → Prop} {c after : Config}
    (emits : Emits allowed c after) (weaken : ∀ output, allowed output → wider output) :
    Emits wider c after := by
  rcases emits with ⟨outs, out, each⟩
  exact ⟨outs, out, fun output member => weaken output (each output member)⟩

theorem emits_sent {allowed : Output → Prop} {c after : Config} {output : Output}
    (emits : Emits allowed c after) (member : output ∈ sent c after) : allowed output := by
  rcases emits with ⟨outs, out, each⟩
  exact each output (by simpa [sent, out] using member)

theorem lease_frame_refl (c : Config) : LeaseFrame c c :=
  ⟨fun _ => rfl, rfl, rfl, [], by simp, by simp⟩

theorem lease_frame_trans {a b c : Config} (first : LeaseFrame a b) (second : LeaseFrame b c) :
    LeaseFrame a c := by
  obtain ⟨outs, out, silent⟩ := first.silent
  obtain ⟨outs', out', silent'⟩ := second.silent
  refine ⟨fun position => (second.claims position).trans (first.claims position),
    second.list.trans first.list, second.amount.trans first.amount, outs ++ outs', ?_, ?_⟩
  · rw [out', out, List.append_assoc]
  · intro packet sent member
    exact (List.mem_append.mp member).elim (silent packet sent) (silent' packet sent)

theorem quiet_refl (c : Config) : Quiet c c :=
  ⟨rfl, rfl, fun _ => id, fun _ => id, fun _ => rfl⟩

theorem quiet_trans {a b c : Config} (first : Quiet a b) (second : Quiet b c) : Quiet a c :=
  ⟨second.list.trans first.list, second.amount.trans first.amount,
    fun position own => first.ours position (second.ours position own),
    fun position claiming => first.claiming position (second.claiming position claiming),
    fun position => (second.counts position).trans (first.counts position)⟩

theorem lease_frame_state {c after : Config} (frame : LeaseFrame c after) (position : Nat) :
    (after.blocks position).state = (c.blocks position).state :=
  congrArg (·.state) (frame.claims position)

theorem lease_frame_quiet {c after : Config} (frame : LeaseFrame c after) : Quiet c after :=
  ⟨frame.list, frame.amount,
    fun position own => (lease_frame_state frame position).symm.trans own,
    fun position claiming => (lease_frame_state frame position).symm.trans claiming,
    fun position => congrArg (·.claimingCounts) (frame.claims position)⟩

theorem quiet_listed {cfg : Settings} {c after : Config} (quiet : Quiet c after)
    (listed : Listed cfg c) : Listed cfg after where
  once := quiet.list ▸ listed.once
  amount := by
    rw [Counted, quiet.amount, quiet.list]
    exact listed.amount
  inside := quiet.list ▸ listed.inside
  foreign position member own := by
    rw [quiet.list] at member
    exact listed.foreign position member (quiet.ours position own)

section Frames
variable {cfg : Settings} {env : Env} {c after : Config}

theorem set_block_sound (sound : Sound cfg c) {position : Nat} {block : Block}
    (entry : SoundBlock cfg position block) : Sound cfg (c.setBlock position block) := by
  intro other
  rw [set_block_apply]
  split
  · rename_i here
    exact here ▸ entry
  · exact sound other

theorem set_block_frame {position : Nat} {block : Block}
    (same : claimOf block = claimOf (c.blocks position)) :
    LeaseFrame c (c.setBlock position block) := by
  refine ⟨fun other => ?_, rfl, rfl, [], by simp, by simp⟩
  rw [set_block_apply]
  split
  · rename_i here
    rw [here, same]
  · rfl

theorem set_block_quiet {position : Nat} {block : Block}
    (ours : block.state = .ours → (c.blocks position).state = .ours)
    (claiming : block.state = .claiming → (c.blocks position).state = .claiming)
    (counts : block.claimingCounts = (c.blocks position).claimingCounts) :
    Quiet c (c.setBlock position block) := by
  refine ⟨rfl, rfl, fun other => ?_, fun other => ?_, fun other => ?_⟩
  all_goals
    rw [set_block_apply]
    split
    · rename_i here
      subst here
      assumption
    · first | exact id | rfl

theorem lease_move_frame {event : Event} (move : LeaseMoves.LeaseMove cfg env event c after) :
    LeaseFrame c after := by
  cases move with
  | write => exact set_block_frame rfl
  | allocate =>
      apply set_block_frame
      unfold blockAlloc
      split
      · rfl
      · split <;> rfl
  | unmark => exact set_block_frame rfl
  | cache => exact ⟨fun _ => rfl, rfl, rfl, [], by simp, by simp⟩
  | store => exact ⟨fun _ => rfl, rfl, rfl, [], by simp, by simp⟩
  | send sends =>
      refine ⟨fun _ => rfl, rfl, rfl, [_], rfl, fun packet sent member => ?_⟩
      rw [← List.mem_singleton.mp member] at sends
      exact sends

theorem lease_moves_frame {event : Event} (moves : LeaseMoves.Moves cfg env event c after) :
    LeaseFrame c after := by
  induction moves with
  | refl => exact lease_frame_refl c
  | tail _ move ih => exact lease_frame_trans ih (lease_move_frame move)

theorem lease_move_sound {event : Event} (sound : Sound cfg c)
    (move : LeaseMoves.LeaseMove cfg env event c after) : Sound cfg after := by
  cases move with
  | write => exact set_block_sound sound (sound_put (sound _) _ _)
  | allocate _ claimed =>
      exact set_block_sound sound (sound_alloc (sound _) (by simp [claimed]))
  | unmark => exact set_block_sound sound (sound_marked (sound _) 0)
  | cache => exact sound
  | store => exact sound
  | send => exact sound

theorem lease_moves_sound {event : Event} (sound : Sound cfg c)
    (moves : LeaseMoves.Moves cfg env event c after) : Sound cfg after := by
  induction moves with
  | refl => exact sound
  | tail _ move ih => exact lease_move_sound ih move

/-! The update pass and the handlers that run it. -/

theorem updated_block {groups : List Group} (done : Updated cfg env c groups after)
    (position : Nat) : after.blocks position = c.blocks position ∨
      (c.blocks position).state = .ours ∧
        after.blocks position = renewed cfg env (c.blocks position) := by
  by_cases announced : Announced groups position
  · exact .inr ⟨(done.ours position (announced_named announced)).2, done.announced _ announced⟩
  · exact .inl (done.kept position announced)

theorem update_claims_block (indexed : Indexed cfg c) (position : Nat) :
    (blockUpdateClaims cfg env c).blocks position = c.blocks position ∨
      (c.blocks position).state = .ours ∧ (blockUpdateClaims cfg env c).blocks position =
        renewed cfg env (c.blocks position) := by
  obtain ⟨groups, done, -⟩ := update_claims_updated cfg env c indexed
  exact updated_block done position

theorem update_claims_quiet (sound : Sound cfg c) : Quiet c (blockUpdateClaims cfg env c) := by
  obtain ⟨groups, done, -⟩ := update_claims_updated cfg env c (sound_indexed sound)
  have block := updated_block done
  have state (position : Nat) : ((blockUpdateClaims cfg env c).blocks position).state =
      (c.blocks position).state := by
    rcases block position with same | ⟨-, changed⟩
    · rw [same]
    · rw [changed]
      rfl
  refine ⟨by rw [done.frame], by rw [done.frame], fun position => by rw [state]; exact id,
    fun position => by rw [state]; exact id, fun position => ?_⟩
  rcases block position with same | ⟨-, changed⟩
  · rw [same]
  · rw [changed]
    rfl

theorem update_claims_sound (sound : Sound cfg c) : Sound cfg (blockUpdateClaims cfg env c) := by
  intro position
  rcases update_claims_block (sound_indexed sound) position with same | ⟨-, changed⟩
  · rw [same]
    exact sound position
  · rw [changed]
    exact sound_timed (sound position) _

theorem update_claims_emits (sound : Sound cfg c) :
    Emits announces c (blockUpdateClaims cfg env c) := by
  obtain ⟨groups, done, -⟩ := update_claims_updated cfg env c (sound_indexed sound)
  refine ⟨groups.map (announcement cfg c), by rw [done.frame], fun output member => ?_⟩
  obtain ⟨group, -, rfl⟩ := List.mem_map.mp member
  rfl

theorem zeroed_indexed (indexed : Indexed cfg c) (position : Nat) :
    Indexed cfg (c.setBlock position { c.blocks position with timeout := 0 }) := by
  intro other inside
  rw [set_block_apply]
  split
  · rename_i here
    subst here
    exact indexed other inside
  · exact indexed other inside

theorem zeroed_sound (sound : Sound cfg c) (position : Nat) :
    Sound cfg (c.setBlock position { c.blocks position with timeout := 0 }) :=
  set_block_sound sound (sound_timed (sound position) 0)

theorem zeroed_quiet (position : Nat) :
    Quiet c (c.setBlock position { c.blocks position with timeout := 0 }) :=
  set_block_quiet id id rfl

theorem block_move_sound {packet : McastPacket} {sender : In6Addr} (sound : Sound cfg c)
    (move : BlockMoves.BlockMove cfg env packet sender c after) : Sound cfg after := by
  cases move with
  | concede => exact set_block_sound sound (sound_conceded (sound _))
  | defer => exact set_block_sound sound (sound_deferred (sound _))
  | defend => exact update_claims_sound (zeroed_sound sound _)

theorem block_move_quiet {packet : McastPacket} {sender : In6Addr} (sound : Sound cfg c)
    (move : BlockMoves.BlockMove cfg env packet sender c after) : Quiet c after := by
  cases move with
  | concede =>
      exact set_block_quiet (by simp [BlockMoves.conceded]) (by simp [BlockMoves.conceded]) rfl
  | defer =>
      exact set_block_quiet (by simp [BlockMoves.deferred]) (by simp [BlockMoves.deferred]) rfl
  | defend =>
      exact quiet_trans (zeroed_quiet _) (update_claims_quiet (zeroed_sound sound _))

theorem block_moves_sound {packet : McastPacket} {sender : In6Addr} (sound : Sound cfg c)
    (moves : BlockMoves.Moves cfg env packet sender c after) :
    Sound cfg after ∧ Quiet c after := by
  induction moves with
  | refl => exact ⟨sound, quiet_refl c⟩
  | tail _ move ih =>
      exact ⟨block_move_sound ih.1 move, quiet_trans ih.2 (block_move_quiet ih.1 move)⟩

theorem block_moves_emit {packet : McastPacket} {sender : In6Addr} (sound : Sound cfg c)
    (moves : BlockMoves.Moves cfg env packet sender c after) : Emits announces c after := by
  induction moves with
  | refl => exact emits_same rfl
  | tail front move ih =>
      apply emits_trans ih
      cases move with
      | concede => exact emits_same rfl
      | defer => exact emits_same rfl
      | defend => exact update_claims_emits (zeroed_sound (block_moves_sound sound front).1 _)

theorem set_block_addresses {index : Nat} {block : Block}
    (same : block.addresses = (c.blocks index).addresses) (position : Nat) :
    ((c.setBlock index block).blocks position).addresses = (c.blocks position).addresses := by
  rw [set_block_apply]
  split
  · rename_i here
    rw [here, same]
  · rfl

theorem update_claims_addresses (sound : Sound cfg c) (position : Nat) :
    ((blockUpdateClaims cfg env c).blocks position).addresses = (c.blocks position).addresses := by
  have updated : (blockUpdateClaims cfg env c).blocks position = c.blocks position ∨ _ :=
    update_claims_block (sound_indexed sound) position
  rcases updated with same | ⟨-, changed⟩
  · rw [same]
  · rw [changed]
    rfl

/-- Claims and inquiries do not touch the lease tables. -/
theorem block_moves_addresses {packet : McastPacket} {sender : In6Addr} (sound : Sound cfg c)
    (moves : BlockMoves.Moves cfg env packet sender c after) (position : Nat) :
    (after.blocks position).addresses = (c.blocks position).addresses := by
  induction moves with
  | refl => rfl
  | tail front move ih =>
      rw [← ih]
      have middle := (block_moves_sound sound front).1
      cases move with
      | concede =>
          apply set_block_addresses
          rfl
      | defer =>
          apply set_block_addresses
          rfl
      | defend =>
          apply (update_claims_addresses (zeroed_sound middle _) position).trans
          apply set_block_addresses
          rfl

end Frames

end Ddhcpd.Invariant

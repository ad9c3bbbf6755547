import Ddhcpd.Reserved
import Ddhcpd.Spare

/-!
How long a block has been unused when it is dropped. The block is marked when it is found
unused and dropped when the mark is old enough, so what matters is that the mark goes when
the block is used. Each call of a run is asked what it does to a block that is marked
afterwards.
-/

namespace Ddhcpd.Needless
open Types Loop Leases Blocks BlockPackets Dhcp Node Path LeaseMoves Refresh Claim Choice
open Invariant Calls HouseKeeping Handlers LeaseSafety Attempt Exclusive
open Discover Spare Reserved

/-- The block is ours and was found unused. -/
def Marked (c : Config) (position : Nat) : Prop :=
  (c.blocks position).state = .ours ∧ (c.blocks position).needlessSince ≠ 0

/-- A marked block has a table, and no listed block is marked. -/
structure Marks (c : Config) : Prop where
  tables : ∀ position, (c.blocks position).needlessSince ≠ 0 →
    (c.blocks position).addresses.isSome = true
  listed : ∀ position ∈ c.claimingBlocks, (c.blocks position).needlessSince = 0

/-- The block was marked before with the same time, and if it was unused it still is. -/
structure Inherits (cfg : Settings) (c after : Config) (position : Nat) : Prop where
  marked : Marked c position
  since : (c.blocks position).needlessSince = (after.blocks position).needlessSince
  unused : AllFree cfg c position → AllFree cfg after position

/-- The step puts the mark on the block, which is unused. -/
structure Begins (cfg : Settings) (now : Time) (after : Config) (position : Nat) : Prop where
  since : (after.blocks position).needlessSince = now
  unused : AllFree cfg after position

/-- The step sets no mark and takes no table away from a marked block. -/
structure Calms (c after : Config) : Prop where
  list : after.claimingBlocks = c.claimingBlocks
  marks : ∀ position, (after.blocks position).needlessSince = (c.blocks position).needlessSince ∨
    (after.blocks position).needlessSince = 0
  tables : ∀ position, (after.blocks position).needlessSince ≠ 0 →
    (c.blocks position).addresses.isSome = true → (after.blocks position).addresses.isSome = true

section Marking
variable {cfg : Settings} {env : Env} {c middle after : Config} {position : Nat}

theorem inherits_of_same (marked : Marked after position)
    (state : (after.blocks position).state = (c.blocks position).state)
    (since : (after.blocks position).needlessSince = (c.blocks position).needlessSince)
    (table : (after.blocks position).addresses = (c.blocks position).addresses) :
    Inherits cfg c after position where
  marked := by rwa [Marked, state, since] at marked
  since := since.symm
  unused free := by
    refine ⟨state.trans free.1, fun index inside => ?_⟩
    obtain ⟨lease, entry, idle⟩ := free.2 index inside
    exact ⟨lease, by rwa [leaseAt, table], idle⟩

theorem inherits_of_eq (marked : Marked after position)
    (same : after.blocks position = c.blocks position) : Inherits cfg c after position :=
  inherits_of_same marked (by rw [same]) (by rw [same]) (by rw [same])

theorem inherits_trans (first : Inherits cfg c middle position)
    (second : Inherits cfg middle after position) : Inherits cfg c after position :=
  ⟨first.marked, first.since.trans second.since, fun free => second.unused (first.unused free)⟩

theorem calms_trans (first : Calms c middle) (second : Calms middle after) : Calms c after where
  list := second.list.trans first.list
  marks position := by
    rcases second.marks position with same | gone
    · rw [same]
      exact first.marks position
    · exact .inr gone
  tables position marked there := by
    have before : (middle.blocks position).needlessSince ≠ 0 := by
      rcases second.marks position with same | gone
      · exact same ▸ marked
      · exact absurd gone marked
    exact second.tables position marked (first.tables position before there)

theorem calms_marks (calms : Calms c after) (marks : Marks c) : Marks after where
  tables position marked := by
    rcases calms.marks position with same | gone
    · exact calms.tables position marked (marks.tables position (same ▸ marked))
    · exact absurd gone marked
  listed position member := by
    rw [calms.list] at member
    rcases calms.marks position with same | gone
    · exact same.trans (marks.listed position member)
    · exact gone

/-- The step sets no mark, and what is marked afterwards is as unused as before. -/
structure Follows (cfg : Settings) (c after : Config) : Prop where
  calms : Calms c after
  each : ∀ position, Marked after position → Inherits cfg c after position

theorem follows_trans (first : Follows cfg c middle) (second : Follows cfg middle after) :
    Follows cfg c after where
  calms := calms_trans first.calms second.calms
  each position marked :=
    have later := second.each position marked
    inherits_trans (first.each position later.marked) later

theorem calms_same (list : after.claimingBlocks = c.claimingBlocks)
    (blocks : after.blocks = c.blocks) : Calms c after :=
  ⟨list, fun _ => .inl (by rw [blocks]), fun _ _ there => by rwa [blocks]⟩

theorem follows_same (list : after.claimingBlocks = c.claimingBlocks)
    (blocks : after.blocks = c.blocks) : Follows cfg c after :=
  ⟨calms_same list blocks, fun _ marked => inherits_of_eq marked (by rw [blocks])⟩

/-- One block is rewritten. -/
theorem calms_set {block : Block}
    (marks : block.needlessSince = (c.blocks position).needlessSince ∨ block.needlessSince = 0)
    (table : block.needlessSince ≠ 0 → (c.blocks position).addresses.isSome = true →
      block.addresses.isSome = true) :
    Calms c (c.setBlock position block) := by
  refine ⟨rfl, fun other => ?_, fun other marked there => ?_⟩
  · rw [set_block_apply]
    split
    · rename_i here
      rw [here]
      exact marks
    · exact .inl rfl
  · rw [set_block_apply] at marked ⊢
    split
    · rename_i here
      rw [if_pos here] at marked
      exact table marked (here ▸ there)
    · exact there

/-! Freeing a block takes its mark with the table. -/

theorem freed_unmarked {block : Block} (table : block.needlessSince ≠ 0 → block.addresses.isSome = true)
    (usable : block.state ≠ .blocked) : (blockFree block).needlessSince = 0 := by
  rw [block_free_freed usable]
  simp only [freed]
  split
  · rfl
  · rename_i none
    by_contra marked
    exact none (table marked)

end Marking

/-! The calls of house keeping. -/

/-- What a call does to the marks. -/
structure Tends (cfg : Settings) (now : Time) (c after : Config) : Prop where
  marks : Marks after
  each : ∀ position, Marked after position →
    Begins cfg now after position ∨ Inherits cfg c after position

section House
variable {cfg : Settings} {env : Env} {c after : Config} {position : Nat} {block : Block}

theorem follows_tends {now : Time} (marks : Marks c) (follows : Follows cfg c after) :
    Tends cfg now c after :=
  ⟨calms_marks follows.calms marks, fun position marked => .inr (follows.each position marked)⟩

theorem checked_table (sound : SoundBlock cfg position block) (now : Time)
    (marked : (checked now block).needlessSince ≠ 0)
    (table : block.needlessSince ≠ 0 → block.addresses.isSome = true) :
    (checked now block).needlessSince = block.needlessSince ∧
      (checked now block).addresses.isSome = true := by
  unfold checked at marked ⊢
  split at marked
  · exact absurd (freed_unmarked table sound.usable) marked
  · rename_i live
    rw [if_neg live]
    split at marked
    · exact ⟨rfl, table marked⟩
    · split at marked
      · exact absurd (freed_unmarked (fun _ => rfl) (by exact sound.usable)) marked
      · rename_i stays
        rw [if_neg stays]
        exact ⟨rfl, rfl⟩

theorem expired_free {now : Time} {lease : Lease} (free : lease.state = .free) :
    (Lease.expired now lease).state = .free := by
  unfold Lease.expired
  split
  · rfl
  · exact free

theorem checked_free (sound : SoundBlock cfg position block) {now : Time}
    (own : (checked now block).state = .ours) {index : Nat} (free : FreeAt block index) :
    FreeAt (checked now block) index := by
  obtain ⟨ours, live⟩ := (checked_ours sound now).mp own
  obtain ⟨lease, entry, idle⟩ := free
  obtain ⟨table, here, inside⟩ := Option.bind_eq_some_iff.mp entry
  refine ⟨Lease.expired now lease, ?_, expired_free idle⟩
  simp [checked, ours, Nat.not_lt_of_le live, here, leaseAt, sweptBlock, inside]

theorem check_tends (sound : Sound cfg c) (marks : Marks c)
    (done : blockCheckTimeouts cfg env.now c = some after) : Tends cfg env.now c after := by
  rw [check_timeouts_checked sound] at done
  cases done
  have block (k : Nat) :
      (if k < cfg.blocks then checked env.now (c.blocks k) else c.blocks k) = c.blocks k ∨
        (if k < cfg.blocks then checked env.now (c.blocks k) else c.blocks k) =
          checked env.now (c.blocks k) := by
    split
    · exact .inr rfl
    · exact .inl rfl
  refine ⟨⟨fun k => ?_, fun k member => ?_⟩, fun k marked => .inr ?_⟩
  · intro marked
    simp only at marked ⊢
    rcases block k with same | sweeps
    · rw [same] at marked ⊢
      exact marks.tables k marked
    · rw [sweeps] at marked ⊢
      exact (checked_table (sound k) env.now marked (marks.tables k)).2
  · by_contra marked
    simp only at marked
    rcases block k with same | sweeps
    · rw [same] at marked
      exact marked (marks.listed k member)
    · rw [sweeps] at marked
      have kept := (checked_table (sound k) env.now marked (marks.tables k)).1
      exact marked (kept.trans (marks.listed k member))
  · rcases block k with same | sweeps
    · exact inherits_of_eq marked same
    · obtain ⟨own, since⟩ := marked
      simp only [sweeps] at own since
      have kept := (checked_table (sound k) env.now since (marks.tables k)).1
      refine ⟨⟨((checked_ours (sound k) env.now).mp own).1, kept ▸ since⟩, ?_, fun free => ?_⟩
      · simp only [sweeps]
        exact kept.symm
      · simp only [AllFree, sweeps]
        exact ⟨own, fun index inside => checked_free (sound k) own (free.2 index inside)⟩

/-- What `block_drop_unused` does, it does to a block that is unused. -/
theorem drop_tends (good : Good cfg c) (marks : Marks c)
    (done : blockDropUnused cfg env c = some after) : Tends cfg env.now c after := by
  rcases drop_unused_cases done with ⟨rfl, -⟩ | ⟨chosen, found, ⟨-, rfl⟩ | ⟨-, rfl⟩⟩
  · exact ⟨marks, fun k marked => .inr (inherits_of_eq marked rfl)⟩
  · have unused : AllFree cfg c chosen := (unused_chosen good.sound found).fit
    have there := (good.sound chosen).own unused.1
    have apart (k : Nat) (different : k ≠ chosen) : (c.setBlock chosen
        { c.blocks chosen with needlessSince := env.now }).blocks k = c.blocks k :=
      set_block_other _ _ _ _ different
    refine ⟨⟨fun k => ?_, fun k member => ?_⟩, fun k marked => ?_⟩
    · by_cases here : k = chosen
      · subst here
        simp [there]
      · simp only [apart k here]
        exact marks.tables k
    · -- a block of ours is not on the list
      have different : k ≠ chosen := fun here =>
        good.listed.foreign k member (here ▸ unused.1)
      simp only [apart k different]
      exact marks.listed k member
    · by_cases here : k = chosen
      · subst here
        refine .inl ⟨by simp, by simpa using unused.1, fun index inside => ?_⟩
        simpa [FreeAt, leaseAt] using unused.2 index inside
      · exact .inr (inherits_of_eq marked (apart k here))
  · have gone := freed_unmarked (marks.tables chosen) (good.sound chosen).usable
    have set : Calms c (c.setBlock chosen (blockFree (c.blocks chosen))) :=
      calms_set (.inr gone) fun marked => absurd gone marked
    have calms : Calms c { c.setBlock chosen (blockFree (c.blocks chosen)) with
        needlessMarks := 0 } := ⟨set.list, set.marks, set.tables⟩
    refine follows_tends marks ⟨calms, fun k marked => ?_⟩
    by_cases here : k = chosen
    · subst here
      exact absurd (by simpa using gone) marked.2
    · exact inherits_of_eq marked (set_block_other _ _ _ _ here)

theorem unmark_follows : Follows cfg c (blockUnmarkNeedless cfg c) := by
  have block (k : Nat) : (blockUnmarkNeedless cfg c).blocks k = c.blocks k ∨
      (blockUnmarkNeedless cfg c).blocks k = { c.blocks k with needlessSince := 0 } := by
    simp only [blockUnmarkNeedless, Loop.rewrite_each_apply]
    split
    · exact .inr rfl
    · exact .inl rfl
  constructor
  · refine ⟨rfl, fun k => ?_, fun k _ there => ?_⟩
    · rcases block k with same | clear
      · exact .inl (by rw [same])
      · exact .inr (by rw [clear])
    · rcases block k with same | clear
      · rwa [same]
      · rwa [clear]
  · intro k marked
    rcases block k with same | clear
    · exact inherits_of_eq marked same
    · exact absurd (by rw [clear]) marked.2

theorem promote_needless (block : Block) :
    (promote cfg env position block).needlessSince = block.needlessSince ∧
      (block.addresses.isSome = true →
        (promote cfg env position block).addresses.isSome = true) := by
  unfold promote blockOwn blockAlloc
  split_ifs <;> simp_all

/-- `block_claim` sets no mark, and a table stays. -/
theorem claimed_since {started : List Nat} {inquiry : Option Bool}
    (done : Claimed cfg env c started inquiry after) (k : Nat) :
    (after.blocks k).needlessSince = (c.blocks k).needlessSince ∧
      ((c.blocks k).addresses.isSome = true → (after.blocks k).addresses.isSome = true) := by
  have turned : (sifted cfg env c k).needlessSince = (c.blocks k).needlessSince ∧
      ((c.blocks k).addresses.isSome = true → (sifted cfg env c k).addresses.isSome = true) := by
    by_cases full : asked c k
    · rw [sifted, if_pos full]
      exact promote_needless (c.blocks k)
    · rw [sifted, if_neg full]
      exact ⟨rfl, id⟩
  have block := done.blocks k
  simp only at block
  rw [block]
  split <;> split <;> exact turned

/-- A block that comes to be ours was listed and so is not marked. -/
theorem claimed_inherits {started : List Nat} {inquiry : Option Bool} (marks : Marks c)
    (done : Claimed cfg env c started inquiry after) (marked : Marked after position) :
    Inherits cfg c after position := by
  have since : (c.blocks position).needlessSince ≠ 0 :=
    (claimed_since done position).1 ▸ marked.2
  have unlisted : position ∉ c.claimingBlocks := fun member => since (marks.listed position member)
  exact inherits_of_eq marked (claimed_unlisted_kept done unlisted (.inr marked.1))

theorem claimed_tends {started : List Nat} {inquiry : Option Bool} (good : Good cfg c)
    (marks : Marks c) (done : Claimed cfg env c started inquiry after) :
    Tends cfg env.now c after := by
  have list : after.claimingBlocks = c.claimingBlocks.filter (going c) ++ started := by
    rw [done.frame]
  refine ⟨⟨fun k marked => ?_, fun k member => ?_⟩, fun k marked =>
    .inr (claimed_inherits marks done marked)⟩
  · obtain ⟨since, table⟩ := claimed_since done k
    exact table (marks.tables k (since ▸ marked))
  · rw [(claimed_since done k).1]
    rw [list] at member
    rcases List.mem_append.mp member with old | new
    · exact marks.listed k (List.mem_filter.mp old).1
    · -- a block that is begun is free and has no table
      by_contra marked
      have free := sifted_free (done.fresh k new).2
      have there := marks.tables k marked
      rw [(good.sound k).free free] at there
      contradiction

theorem update_claims_follows (sound : Sound cfg c) :
    Follows cfg c (blockUpdateClaims cfg env c) := by
  have block (k : Nat) : (blockUpdateClaims cfg env c).blocks k = c.blocks k ∨ _ :=
    update_claims_block (sound_indexed sound) k
  constructor
  · refine ⟨(update_claims_quiet sound).list, fun k => ?_, fun k _ there => ?_⟩
    · rcases block k with same | ⟨-, renews⟩
      · exact .inl (by rw [same])
      · exact .inl (by rw [renews]; rfl)
    · rcases block k with same | ⟨-, renews⟩
      · rwa [same]
      · rwa [renews]
  · intro k marked
    rcases block k with same | ⟨-, renews⟩
    · exact inherits_of_eq marked same
    · exact inherits_of_same marked (by rw [renews]; rfl) (by rw [renews]; rfl)
        (by rw [renews]; rfl)

end House

/-! The handlers. -/

section Handling
variable {cfg : Settings} {env : Env} {c after : Config} {position index : Nat}

theorem lost_follows {block : Block} (lost : block.state ≠ .ours)
    (since : block.needlessSince = (c.blocks position).needlessSince)
    (table : (c.blocks position).addresses.isSome = true → block.addresses.isSome = true) :
    Follows cfg c (c.setBlock position block) := by
  refine ⟨calms_set (.inl since) fun _ => table, fun k marked => ?_⟩
  by_cases here : k = position
  · subst here
    exact absurd (by simpa using marked.1) lost
  · exact inherits_of_eq marked (set_block_other _ _ _ _ here)

theorem zeroed_follows : Follows cfg c
    (c.setBlock position { c.blocks position with timeout := 0 }) := by
  refine ⟨calms_set (.inl rfl) fun _ => id, fun k marked => ?_⟩
  by_cases here : k = position
  · subst here
    exact inherits_of_same marked (by simp) (by simp) (by simp)
  · exact inherits_of_eq marked (set_block_other _ _ _ _ here)

theorem block_move_follows {packet : McastPacket} {sender : In6Addr} (sound : Sound cfg c)
    (move : BlockMoves.BlockMove cfg env packet sender c after) : Follows cfg c after := by
  cases move with
  | concede => exact lost_follows (by simp [BlockMoves.conceded]) rfl id
  | defer => exact lost_follows (by simp [BlockMoves.deferred]) rfl id
  | defend => exact follows_trans zeroed_follows (update_claims_follows (zeroed_sound sound _))

theorem block_moves_follows {packet : McastPacket} {sender : In6Addr} (sound : Sound cfg c)
    (moves : BlockMoves.Moves cfg env packet sender c after) : Follows cfg c after := by
  induction moves with
  | refl => exact follows_same rfl rfl
  | tail front move ih =>
      exact follows_trans ih (block_move_follows (block_moves_sound sound front).1 move)

theorem put_calms (lease : Lease) :
    Calms c (c.setBlock position (putLease (c.blocks position) index lease)) :=
  calms_set (.inl rfl) fun _ there => by simpa [putLease] using there

theorem lease_move_calms {event : Event} (move : LeaseMove cfg env event c after) :
    Calms c after := by
  cases move with
  | write => exact put_calms _
  | @allocate position _ claimed =>
      have kept : (blockAlloc env position (c.blocks position)).1.needlessSince =
          (c.blocks position).needlessSince ∧ ((c.blocks position).addresses.isSome = true →
            (blockAlloc env position (c.blocks position)).1.addresses.isSome = true) := by
        unfold blockAlloc
        split_ifs <;> simp_all
      exact calms_set (.inl kept.1) fun _ => kept.2
  | unmark => exact calms_set (.inr rfl) fun _ => id
  | cache => exact calms_same rfl rfl
  | store => exact calms_same rfl rfl
  | send => exact calms_same rfl rfl

theorem lease_moves_calms {event : Event} (moves : LeaseMoves.Moves cfg env event c after) :
    Calms c after := by
  induction moves with
  | refl => exact calms_same rfl rfl
  | tail _ move ih => exact calms_trans ih (lease_move_calms move)

/-- A lease of the block is written. -/
theorem put_inherits {lease changed : Lease}
    (entry : leaseAt (c.blocks position) index = some lease)
    (idle : lease.state = .free → changed.state = .free)
    (marked : Marked (c.setBlock position (putLease (c.blocks position) index changed)) position) :
    Inherits cfg c (c.setBlock position (putLease (c.blocks position) index changed)) position := by
  simp only [Marked, set_block_same] at marked
  refine ⟨marked, by simp [putLease], fun unused => ?_⟩
  rw [AllFree, set_block_same]
  refine ⟨marked.1, fun other inside => ?_⟩
  obtain ⟨old, there, free⟩ := unused.2 other inside
  by_cases here : other = index
  · subst here
    obtain rfl : lease = old := Option.some.inj (entry.symm.trans there)
    exact ⟨changed, lease_at_put entry, idle free⟩
  · exact ⟨old, (lease_at_put_other here changed).trans there, free⟩

/-- Neither a DISCOVER nor a REQUEST of a client. -/
def Gentle (event : Event) : Prop :=
  ∀ packet, event = .client packet →
    messageType packet ≠ dhcpDiscover ∧ messageType packet ≠ dhcpRequest

theorem lease_move_follows {event : Event} (gentle : Gentle event)
    (move : LeaseMove cfg env event c after) : Follows cfg c after := by
  refine ⟨lease_move_calms move, fun k marked => ?_⟩
  cases move with
  | @write position index lease changed _ entry write =>
      by_cases here : k = position
      · subst here
        have own : (c.blocks k).state = .ours := by simpa [putLease] using marked.1
        apply put_inherits entry _ marked
        intro free
        cases write with
        | offered client kind => exact absurd kind (gentle _ client).1
        | granted client kind => exact absurd kind (gentle _ client).2
        | forwarded client kind => exact absurd kind (gentle _ client).2
        | relayed _ foreign => exact absurd own foreign
        | renewed => exact free
        | released => rfl
      · exact inherits_of_eq marked (set_block_other _ _ _ _ here)
  | @allocate position _ claimed =>
      by_cases here : k = position
      · subst here
        have own := marked.1
        rw [set_block_same, block_alloc_state, claimed] at own
        cases own
      · exact inherits_of_eq marked (set_block_other _ _ _ _ here)
  | @unmark position =>
      by_cases here : k = position
      · subst here
        exact absurd (by simp) marked.2
      · exact inherits_of_eq marked (set_block_other _ _ _ _ here)
  | cache => exact inherits_of_eq marked rfl
  | store => exact inherits_of_eq marked rfl
  | send => exact inherits_of_eq marked rfl

theorem lease_moves_follows {event : Event} (gentle : Gentle event)
    (moves : LeaseMoves.Moves cfg env event c after) : Follows cfg c after := by
  induction moves with
  | refl => exact follows_same rfl rfl
  | tail _ move ih => exact follows_trans ih (lease_move_follows gentle move)

/-- The offer reaches the socket. -/
def OfferSent (env : Env) : Prop :=
  env.alloc .replyOptions = true ∧ env.alloc .replyBuffer = true ∧ env.dhcpSent = true

/-- A lease of a marked block is taken and the mark stays: a free address is requested
directly, or an offer is made that is not sent. -/
inductive Unnoticed (cfg : Settings) (env : Env) (c : Config) : Event → Prop where
  | requested {request : DhcpPacket} {position index : Nat} :
      messageType request = dhcpRequest → grantedTo cfg request c = some (position, index) →
      FreeAt (c.blocks position) index → (c.blocks position).needlessSince ≠ 0 →
      env.alloc .replyPacket = true → Unnoticed cfg env c (.client request)
  | offered {discover : DhcpPacket} {position : Nat} :
      messageType discover = dhcpDiscover → blockFindFreeLeases cfg c = some (some position) →
      (c.blocks position).needlessSince ≠ 0 → env.alloc .replyPacket = true →
      ¬ OfferSent env → Unnoticed cfg env c (.client discover)

theorem packet_send_blocks (type : UInt8) (reply : DhcpPacket) :
    (dhcpPacketSend env type reply c).1.blocks = c.blocks := by
  unfold dhcpPacketSend
  split <;> rfl

theorem answer_blocks (reply : DhcpPacket) : (answerTo cfg env c reply).blocks = c.blocks := by
  unfold answerTo hookAddress
  split <;> exact packet_send_blocks dhcpAck reply

/-- A write in a block that has no mark does not matter. -/
theorem unmarked_put {lease : Lease} (clear : (c.blocks position).needlessSince = 0)
    (same : after.blocks = (c.setBlock position (putLease (c.blocks position) index lease)).blocks)
    {k : Nat} (marked : Marked after k) : Inherits cfg c after k := by
  by_cases here : k = position
  · subst here
    have since := marked.2
    rw [same, set_block_same] at since
    exact absurd clear since
  · exact inherits_of_eq marked (by rw [same, set_block_other _ _ _ _ here])

theorem discover_each {discover : DhcpPacket} {value : Nat} (sound : Sound cfg c)
    (kind : messageType discover = dhcpDiscover)
    (noticed : ¬ Unnoticed cfg env c (.client discover))
    (done : dhcpHdlDiscover cfg env discover c = some (after, value)) (k : Nat)
    (marked : Marked after k) : Inherits cfg c after k := by
  rcases discover_searches sound with none | ⟨position, index, search, first, takes⟩
  · cases (discover_exhausted env discover none.1).symm.trans done
    exact inherits_of_eq marked rfl
  by_cases memory : env.alloc .replyPacket = true
  · obtain ⟨lease, entry, free⟩ := takes.free
    have clear (unsent : ¬ OfferSent env) : (c.blocks position).needlessSince = 0 := by
      by_contra since
      exact noticed (.offered kind search since memory unsent)
    rw [discover_found discover search first entry memory] at done
    split at done
    · rename_i unfilled
      cases done
      have starved := default_options_none unfilled
      exact unmarked_put (clear fun sent => by simp [sent.1] at starved) rfl marked
    · rename_i reply filled
      simp only at done
      split at done
      · -- the offer is sent and the mark goes
        cases done
        by_cases here : k = position
        · subst here
          exact absurd (by simp [neededAt]) marked.2
        · apply inherits_of_eq marked
          rw [neededAt, set_block_other _ _ _ _ here, packet_send_blocks, offerTo,
            set_block_other _ _ _ _ here]
      · rename_i unsent
        cases done
        refine unmarked_put (clear fun sent => unsent ?_) (packet_send_blocks _ _) marked
        simp [dhcpPacketSend, sent.2.1, sent.2.2]
  · cases (discover_starved discover search first memory).symm.trans done
    exact inherits_of_eq marked rfl

/-- Without memory for a reply no lease is granted. -/
theorem request_starved {request : DhcpPacket} {value : Int}
    (starved : ¬ env.alloc .replyPacket = true)
    (granted : grantedTo cfg request c = some (position, index))
    (done : dhcpHdlRequest cfg env request c = some (after, value)) : after = c := by
  rw [request_granted env granted, dhcpAckLease, if_pos starved] at done
  cases done
  rfl

theorem granted_inherits {request : DhcpPacket} {lease : Lease} (sound : Sound cfg c)
    (entry : leaseAt (c.blocks position) index = some lease)
    (noticed : FreeAt (c.blocks position) index → (c.blocks position).needlessSince = 0)
    (same : after.blocks = (grantTo env c request position index lease).blocks) {k : Nat}
    (marked : Marked after k) : Inherits cfg c after k := by
  by_cases free : FreeAt (c.blocks position) index
  · exact unmarked_put (noticed free) same marked
  by_cases here : k = position
  · subst here
    have block : after.blocks k = putLease (c.blocks k) index
        (leaseTo request .leased (leaseEndFrom env c) lease) := by
      rw [same, grantTo, set_block_same]
    rw [Marked, block] at marked
    -- a lease was in use already
    refine ⟨marked, by rw [block]; rfl, fun unused => ?_⟩
    exact absurd (unused.2 index (entry_below sound entry)) free
  · exact inherits_of_eq marked (by rw [same, grantTo, set_block_other _ _ _ _ here])

theorem request_each {request : DhcpPacket} {value : Int} (sound : Sound cfg c)
    (kind : messageType request = dhcpRequest)
    (noticed : ¬ Unnoticed cfg env c (.client request))
    (done : dhcpHdlRequest cfg env request c = some (after, value)) (k : Nat)
    (marked : Marked after k) : Inherits cfg c after k := by
  cases request_cases done with
  | @acked position index _ granted acked =>
      by_cases memory : env.alloc .replyPacket = true
      · have clear (free : FreeAt (c.blocks position) index) :
            (c.blocks position).needlessSince = 0 := by
          by_contra since
          exact noticed (.requested kind granted free since memory)
        cases acked with
        | starved => exact inherits_of_eq marked rfl
        | unanswered entry => exact granted_inherits sound entry clear rfl marked
        | answered entry => exact granted_inherits sound entry clear (answer_blocks _) marked
      · exact inherits_of_eq marked (by rw [request_starved memory granted done])
  | @forwarded address position index _ _ elsewhere forwarded =>
      -- the table of a block of another node
      have block (lease : Lease)
          (same : after.blocks = (noteIn env (Handlers.opened env c position) request position index
            lease).blocks) : Inherits cfg c after k := by
        by_cases here : k = position
        · subst here
          have own := marked.1
          simp [same, noteIn, Handlers.opened, putLease, block_alloc_state, elsewhere.claimed] at own
        · exact inherits_of_eq marked
            (by rw [same, noteIn, set_block_other _ _ _ _ here, Handlers.opened,
              set_block_other _ _ _ _ here])
      cases forwarded with
      | @starved lease => exact block lease rfl
      | @passed lease =>
          apply block lease
          unfold sendPacketDirect dhcpPacketListAdd
          split <;> split <;> rfl
  | refused _ _ refused =>
      cases refused with
      | unsent => exact inherits_of_eq marked rfl
      | sent => exact inherits_of_eq marked rfl

/-- What is received sets no mark. -/
theorem received_calms {event : Event} (sound : Sound cfg c) (other : event ≠ .houseKeeping)
    (done : handle cfg env event c = some after) : Calms c after := by
  rcases received_moves other done with ⟨packet, sender, moves⟩ | moves
  · exact (block_moves_follows sound moves).calms
  · exact lease_moves_calms moves

theorem received_follows {event : Event} (sound : Sound cfg c) (other : event ≠ .houseKeeping)
    (noticed : ¬ Unnoticed cfg env c event) (done : handle cfg env event c = some after) :
    Follows cfg c after := by
  by_cases gentle : Gentle event
  · rcases received_moves other done with ⟨packet, sender, moves⟩ | moves
    · exact block_moves_follows sound moves
    · exact lease_moves_follows gentle moves
  · refine ⟨received_calms sound other done, ?_⟩
    simp only [Gentle, not_forall] at gentle
    obtain ⟨packet, rfl, kinds⟩ := gentle
    obtain ⟨⟨final, value⟩, processed, rfl⟩ := Option.map_eq_some_iff.mp done
    unfold dhcpProcess at processed
    split at processed
    · rename_i kind
      obtain ⟨result, handled, same⟩ := Option.map_eq_some_iff.mp processed
      cases same
      exact fun k => discover_each sound kind noticed handled k
    split at processed
    · rename_i kind
      obtain ⟨result, handled, same⟩ := Option.map_eq_some_iff.mp processed
      cases same
      exact fun k => request_each sound kind noticed handled k
    · rename_i discover request
      exact absurd ⟨discover, request⟩ kinds

end Handling

/-! Runs. -/

section Runs
variable {cfg : Settings} {env : Env} {c after : Config} {position : Nat}

/-- Every call of a run tells what it does to the marks, if no use of a marked block goes
unnoticed. -/
theorem perform_tends {call : Call} (good : Good cfg c) (marks : Marks c)
    (other : call ≠ .received .houseKeeping)
    (noticed : ∀ event, call = .received event → ¬ Unnoticed cfg env c event)
    (done : perform cfg env call c = some after) : Tends cfg env.now c after := by
  cases call with
  | checkTimeouts => exact check_tends good.sound marks done
  | dropUnused => exact drop_tends good marks done
  | unmarkNeedless =>
      cases done
      exact follows_tends marks unmark_follows
  | claim spareLeases =>
      cases done
      obtain ⟨started, inquiry, claimed⟩ := claim_claimed good spareLeases
      exact claimed_tends good marks claimed
  | updateClaims =>
      cases done
      exact follows_tends marks (update_claims_follows good.sound)
  | timeoutPackets =>
      obtain rfl := packet_timeout_result done
      exact follows_tends marks (follows_same rfl rfl)
  | received event =>
      exact follows_tends marks (received_follows good.sound (fun same => other (same ▸ rfl))
        (noticed event rfl) done)

/-- A call of a run in which no use of a marked block goes unnoticed. -/
def NoticedStep (cfg : Settings) (s : NodeState) (label : Env × Call) (t : NodeState) : Prop :=
  CallStep cfg s label t ∧
    ∀ event, label.2 = .received event → ¬ Unnoticed cfg label.1 s.config event

/-- What holds in every state of such a run. -/
structure Watched (cfg : Settings) (s : NodeState) : Prop where
  good : Good cfg s.config
  marks : Marks s.config
  unused : ∀ position, Marked s.config position → AllFree cfg s.config position

theorem noticed_tends {s t : NodeState} {label : Env × Call} (watched : Watched cfg s)
    (step : NoticedStep cfg s label t) : Tends cfg label.1.now s.config t.config := by
  obtain ⟨move, noticed⟩ := step
  cases move with
  | call env call _ other done =>
      exact perform_tends watched.good watched.marks other noticed done

theorem noticed_watched {s t : NodeState} {label : Env × Call} (watched : Watched cfg s)
    (step : NoticedStep cfg s label t) : Watched cfg t := by
  have tends := noticed_tends watched step
  refine ⟨call_good watched.good step.1, tends.marks, fun k marked => ?_⟩
  rcases tends.each k marked with begins | inherits
  · exact begins.unused
  · exact inherits.unused (watched.unused k inherits.marked)

theorem start_watched (cfg : Settings) (now : Time) (options : List DhcpOption) :
    Watched cfg ⟨now, startConfig cfg now options⟩ :=
  ⟨start_good cfg now options, ⟨fun _ marked => absurd rfl marked, by simp [startConfig]⟩,
    fun _ marked => absurd rfl marked.2⟩

/-- A state that is left after `now - block_needless_timeout`, by the first of the labels;
or the state of the moment `now`. -/
def Recent {Label : Type} (cfg : Settings) (now : Time) : List (Env × Label) → Prop
  | [] => True
  | label :: _ => now < label.1.now + cfg.blockNeedlessTimeout.toNat

theorem labels_later {s t : NodeState} {labels : List (Env × Call)}
    (path : Path (NoticedStep cfg) s labels t) : ∀ label ∈ labels, s.clock ≤ label.1.now := by
  induction path with
  | refl => simp
  | next step _ ih =>
      obtain ⟨move, -⟩ := step
      cases move with
      | call env call later =>
          rintro label member
          rcases List.mem_cons.mp member with rfl | further
          · exact later
          · exact Nat.le_trans later (ih label further)

/-- A mark that is older than the last calls was there before them. -/
theorem mark_lasts {moment s : NodeState} {back : List (Env × Call)}
    (watched : Watched cfg moment) (path : Path (NoticedStep cfg) moment back s)
    (marked : Marked s.config position)
    (old : ∀ label ∈ back, (s.config.blocks position).needlessSince < label.1.now) :
    Marked moment.config position ∧
      (moment.config.blocks position).needlessSince =
        (s.config.blocks position).needlessSince := by
  induction path with
  | refl => exact ⟨marked, rfl⟩
  | @next moment middle _ label rest step _ ih =>
      obtain ⟨still, same⟩ := ih (noticed_watched watched step) marked
        fun other member => old other (List.mem_cons_of_mem _ member)
      rcases (noticed_tends watched step).each position still with begins | inherits
      · have fresh := old label List.mem_cons_self
        rw [← same, begins.since] at fresh
        exact absurd fresh (Nat.lt_irrefl _)
      · exact ⟨inherits.marked, inherits.since.trans same⟩

/-- Only a block with an old mark is dropped. -/
theorem drop_droppable (done : blockDropUnused cfg env c = some after)
    (freed : Freed cfg c after position) :
    Marked c position ∧
      (c.blocks position).needlessSince + cfg.blockNeedlessTimeout.toNat ≤ env.now := by
  obtain ⟨-, busy, gone⟩ := freed
  rcases drop_unused_block done position with ⟨since, same⟩ | ⟨own, ⟨marked, waited⟩, -⟩
  · rw [same] at gone
    exact absurd gone busy
  · exact ⟨⟨own, marked⟩, Int.ofNat_le.mp (by push_cast; omega)⟩

end Runs

/-- A block is dropped only after being unused for the whole waiting time, in every run in
which no use of a marked block goes unnoticed. -/
theorem dropped_after_waiting {cfg : Settings} {now : Time} {options : List DhcpOption}
    {front back : List (Env × Call)} {moment s : NodeState} {env : Env} {after : Config}
    {position : Nat}
    (before : Path (NoticedStep cfg) ⟨now, startConfig cfg now options⟩ front moment)
    (since : Path (NoticedStep cfg) moment back s)
    (dropped : blockDropUnused cfg env s.config = some after)
    (freed : Freed cfg s.config after position) (recent : Recent cfg env.now back) :
    AllFree cfg moment.config position := by
  have start : Watched cfg moment :=
    path_invariant (Watched cfg) (fun _ _ _ watched step => noticed_watched watched step) before
      (start_watched cfg now options)
  have last : Watched cfg s :=
    path_invariant (Watched cfg) (fun _ _ _ watched step => noticed_watched watched step) since
      start
  obtain ⟨marked, waited⟩ := drop_droppable dropped freed
  -- the calls since that moment are younger than the mark
  have old : ∀ label ∈ back, (s.config.blocks position).needlessSince < label.1.now := by
    cases since with
    | refl => simp
    | @next _ middle _ label rest step tail =>
        have young : env.now < label.1.now + cfg.blockNeedlessTimeout.toNat := recent
        have first : (s.config.blocks position).needlessSince < label.1.now :=
          Nat.lt_of_add_lt_add_right (Nat.lt_of_le_of_lt waited young)
        have clock : middle.clock = label.1.now := by
          obtain ⟨move, -⟩ := step
          cases move
          rfl
        intro other member
        rcases List.mem_cons.mp member with rfl | further
        · exact first
        · exact Nat.lt_of_lt_of_le first (clock ▸ labels_later tail other further)
  exact start.unused position (mark_lasts start since marked old).1

/-- The node owns its block and finds it unused. -/
def smallMarked : Config :=
  { (smallClaims 4).setBlock 0 { (smallClaims 4).blocks 0 with needlessSince := 1010 } with
    needlessMarks := 1 }

theorem small_noticed_step (count : Nat) : NoticedStep (smallNode 1)
    ⟨1000 + (count - 1), smallClaims count⟩ (calmEnv (1000 + count), .claim 0)
    ⟨1000 + count, smallClaims (count + 1)⟩ :=
  ⟨.call (calmEnv (1000 + count)) (.claim 0) (Nat.add_le_add_left (Nat.sub_le _ _) 1000)
    (by simp) rfl, by simp⟩

theorem dropped_after_waiting_small : AllFree (smallNode 1) smallMarked 0 := by
  have marking : NoticedStep (smallNode 1) ⟨1003, smallClaims 4⟩ (calmEnv 1010, .dropUnused)
      ⟨1010, smallMarked⟩ := ⟨.call (calmEnv 1010) .dropUnused (by decide) (by simp) rfl, by simp⟩
  have before : Path (NoticedStep (smallNode 1)) smallStart _ ⟨1010, smallMarked⟩ :=
    .next (small_noticed_step 0) (.next (small_noticed_step 1) (.next (small_noticed_step 2)
      (.next (small_noticed_step 3) (.next marking (.refl _)))))
  have evaluated : (blockDropUnused (smallNode 1) (calmEnv 1310) smallMarked).any
      (fun after => (smallMarked.blocks 0).state = .ours ∧ (after.blocks 0).state = .free) = true := by
    decide +kernel
  obtain ⟨after, dropped, facts⟩ := (Option.any_eq_true _ _).mp evaluated
  obtain ⟨own, free⟩ := of_decide_eq_true facts
  have freed : Freed (smallNode 1) smallMarked after 0 := ⟨by decide, by simp [own], free⟩
  -- at 1100 the mark is still young
  have waiting : NoticedStep (smallNode 1) ⟨1010, smallMarked⟩ (calmEnv 1100, .dropUnused)
      ⟨1100, smallMarked⟩ := ⟨.call (calmEnv 1100) .dropUnused (by decide) (by simp) rfl, by simp⟩
  have recent : Recent (smallNode 1) (calmEnv 1310).now [(calmEnv 1100, Call.dropUnused)] := by
    rw [Recent]
    decide
  exact dropped_after_waiting before (.next waiting (.refl _)) dropped freed recent

/-- A node with four blocks of one address each. -/
def quadNode : Settings :=
  { smallNode 1 with
    numberOfBlocks := 4
    blockTimeout := 600
    prefixLen := 30
    network_fits := by decide }

def quadStart : NodeState :=
  ⟨1000, startConfig quadNode 1000 [⟨codeAddressLeaseTime, 4, [0, 0, 1, 44]⟩]⟩

def quadClient (client : UInt8) (address : InAddr) (type : UInt8) : Event :=
  .client { smallPacket client 7 type with ciaddr := address }

/-- The second block is claimed while the first is in use; then it is not needed. -/
def quadMarked : List (Env × Event) :=
  ownedRun ++ [(calmEnv 1004, quadClient 1 0x0A000000 dhcpRequest), (calmEnv 1005, .houseKeeping),
    (calmEnv 1006, .houseKeeping), (calmEnv 1007, .houseKeeping), (calmEnv 1008, .houseKeeping),
    (calmEnv 1009, quadClient 1 0x0A000000 dhcpRelease), (calmEnv 1010, .houseKeeping)]

-- Client 2 asks for the free address directly and gives it back; the mark of 1010 stays.
theorem dropped_though_used : ∃ (front back : List (Env × Event)) (moment s : NodeState)
    (checked after : Config), Path (Step quadNode) quadStart front moment ∧
    Path (Step quadNode) moment back s ∧ Recent quadNode 1310 back ∧ moment.clock = 1011 ∧
    blockCheckTimeouts quadNode 1310 s.config = some checked ∧
    blockDropUnused quadNode (calmEnv 1310) checked = some after ∧
    Freed quadNode checked after 1 ∧ ¬ AllFree quadNode moment.config 1 := by
  let front := quadMarked ++ [(calmEnv 1011, quadClient 2 0x0A000001 dhcpRequest)]
  let back : List (Env × Event) := [(calmEnv 1012, quadClient 2 0x0A000001 dhcpRelease),
    (calmEnv 1015, .houseKeeping)]
  have evaluated : (runEvents quadNode quadStart front).any (fun moment =>
      (runEvents quadNode moment back).any fun s =>
        (blockCheckTimeouts quadNode 1310 s.config).any fun checked =>
          (blockDropUnused quadNode (calmEnv 1310) checked).any fun after =>
            moment.clock = 1011 ∧
            leaseAt (moment.config.blocks 1) 0 = some ⟨smallClient 2, .leased, 7, 1321⟩ ∧
            (checked.blocks 1).state ≠ .free ∧ (after.blocks 1).state = .free) = true := by
    decide +kernel
  obtain ⟨moment, used, rest⟩ := (Option.any_eq_true _ _).mp evaluated
  obtain ⟨s, waits, rest⟩ := (Option.any_eq_true _ _).mp rest
  obtain ⟨checked, check, rest⟩ := (Option.any_eq_true _ _).mp rest
  obtain ⟨after, dropped, facts⟩ := (Option.any_eq_true _ _).mp rest
  obtain ⟨clock, entry, kept, gone⟩ := of_decide_eq_true facts
  have path {start last : NodeState} {labels : List (Env × Event)}
      (done : runEvents quadNode start labels = some last) :
      Path (Step quadNode) start labels last := by
    let allowed : Env → Prop := fun _ => True
    have run : Path (fun s label t => Step quadNode s label t ∧ allowed label.1) start labels last :=
      run_events_path (fun _ _ => trivial) done
    exact path_mono (fun _ _ _ step => step.1) run
  refine ⟨front, back, moment, s, checked, after, path used, path waits, ?_, clock, check, dropped,
    ⟨by decide, kept, gone⟩, fun unused => ?_⟩
  · simp only [back, Recent]
    decide
  · obtain ⟨lease, there, free⟩ := unused.2 0 (by decide)
    obtain rfl := Option.some.inj (entry.symm.trans there)
    cases free

end Ddhcpd.Needless

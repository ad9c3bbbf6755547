import Ddhcpd.Block
import Mathlib.Data.List.Nodup

/-!
What `block_update_claims` does. Whatever the number of blocks, the packets of a run
name our blocks only, each block at most once, and every block below the baseline is
named; a block has a new deadline exactly when a packet that names it got through.
-/

namespace Ddhcpd.Refresh
open Types Loop Blocks Packet

/-- One packet of the run: the blocks it names and whether it got through. -/
structure Group where
  positions : List Nat
  sent : Bool

def claimEntry (cfg : Settings) (c : Config) (position : Nat) : BlockPayload :=
  ⟨(c.blocks position).index, cfg.blockTimeout, 0⟩

def announcement (cfg : Settings) (c : Config) (group : Group) : Output :=
  .mcast (updateClaimPacket cfg (group.positions.map (claimEntry cfg c))) group.sent

def named (groups : List Group) : List Nat := groups.flatMap Group.positions

/-- The block is in a packet that got through. -/
def Announced (groups : List Group) (position : Nat) : Prop :=
  ∃ group ∈ groups, group.sent = true ∧ position ∈ group.positions

def Below (cfg : Settings) (env : Env) (c : Config) (position : Nat) : Prop :=
  (c.blocks position).timeout < timeoutFactor cfg env.now

def OursAt (cfg : Settings) (c : Config) (position : Nat) : Prop :=
  position < cfg.blocks ∧ (c.blocks position).state = .ours

def Indexed (cfg : Settings) (c : Config) : Prop :=
  ∀ position < cfg.blocks, (c.blocks position).index.toNat = position

def renewed (cfg : Settings) (env : Env) (block : Block) : Block :=
  { block with timeout := env.now + cfg.blockTimeout.toNat }

/-- The update pass turned `c` into `after`, sending `groups`. -/
structure Updated (cfg : Settings) (env : Env) (c : Config) (groups : List Group)
    (after : Config) : Prop where
  frame : after = { c with
    blocks := after.blocks, out := c.out ++ groups.map (announcement cfg c) }
  announced : ∀ position, Announced groups position →
    after.blocks position = renewed cfg env (c.blocks position)
  kept : ∀ position, ¬ Announced groups position → after.blocks position = c.blocks position
  ours : ∀ position ∈ named groups, OursAt cfg c position
  sizes : ∀ group ∈ groups, group.positions.length ≤ updateClaimMaxBlocks
  due : ∀ group ∈ groups, ∃ position ∈ group.positions, Below cfg env c position
  once : (named groups).Nodup
  answers : ∀ group ∈ groups, ∃ call, group.sent = env.mcastSent call

theorem updated_none (cfg : Settings) (env : Env) (c : Config) : Updated cfg env c [] c where
  frame := by simp
  announced := by simp [Announced]
  kept := by simp
  ours := by simp [named]
  sizes := by simp
  due := by simp
  once := by simp [named]
  answers := by simp

theorem announced_named {groups : List Group} {position : Nat}
    (announced : Announced groups position) : position ∈ named groups := by
  obtain ⟨group, member, -, inside⟩ := announced
  exact List.mem_flatMap.mpr ⟨group, member, inside⟩

theorem named_snoc (groups : List Group) (group : Group) :
    named (groups ++ [group]) = named groups ++ group.positions := by simp [named]

theorem announced_snoc (groups : List Group) (group : Group) (position : Nat) :
    Announced (groups ++ [group]) position ↔
      Announced groups position ∨ (group.sent = true ∧ position ∈ group.positions) := by
  simp [Announced, or_and_right, exists_or]

/-! One packet. -/

theorem set_timeouts_frame (timeout : Time) (entries : List BlockPayload) (c : Config) :
    entries.foldl (setTimeout timeout) c =
      { c with blocks := (entries.foldl (setTimeout timeout) c).blocks } := by
  induction entries generalizing c with
  | nil => rfl
  | cons entry rest ih =>
      simp only [List.foldl_cons]
      rw [ih]
      rfl

theorem set_timeouts_apply (timeout : Time) (entries : List BlockPayload) (c : Config)
    (position : Nat) :
    (entries.foldl (setTimeout timeout) c).blocks position =
      if ∃ entry ∈ entries, entry.blockIndex.toNat = position
      then { c.blocks position with timeout := timeout } else c.blocks position := by
  induction entries generalizing c with
  | nil => simp
  | cons entry rest ih =>
      simp only [List.foldl_cons, ih, List.mem_cons, exists_eq_or_imp]
      by_cases later : ∃ entry ∈ rest, entry.blockIndex.toNat = position
      · by_cases here : entry.blockIndex.toNat = position
        · simp [later, here, setTimeout]
        · have elsewhere : ¬ position = entry.blockIndex.toNat := fun h => here h.symm
          simp [later, here, setTimeout, set_block_apply, elsewhere]
      · by_cases here : entry.blockIndex.toNat = position
        · simp [later, here, setTimeout]
        · have elsewhere : ¬ position = entry.blockIndex.toNat := fun h => here h.symm
          simp [later, here, setTimeout, set_block_apply, elsewhere]

theorem entry_named {cfg : Settings} {c : Config} (indexed : Indexed cfg c)
    {positions : List Nat} (ours : ∀ position ∈ positions, OursAt cfg c position)
    (position : Nat) :
    (∃ entry ∈ positions.map (claimEntry cfg c), entry.blockIndex.toNat = position) ↔
      position ∈ positions := by
  simp only [List.mem_map, exists_exists_and_eq_and, claimEntry]
  constructor
  · rintro ⟨other, member, same⟩
    rw [indexed other (ours other member).1] at same
    exact same ▸ member
  · intro member
    exact ⟨position, member, indexed position (ours position member).1⟩

/-- What one packet of the run does: it goes out, and if it got through it renews the
deadlines of the blocks it names. -/
theorem send_group_sends {cfg : Settings} {c : Config} (env : Env) (indexed : Indexed cfg c)
    (positions : List Nat) (ours : ∀ position ∈ positions, OursAt cfg c position)
    (size : positions.length ≤ updateClaimMaxBlocks) (after : Config) :
    sendGroup cfg env (positions.map (claimEntry cfg c)) after =
      { after with
        out := after.out ++ [announcement cfg c ⟨positions, env.mcastSent after.out.length⟩]
        blocks := fun position =>
          if env.mcastSent after.out.length = true ∧ position ∈ positions
          then renewed cfg env (after.blocks position) else after.blocks position } := by
  have whole : (positions.map (claimEntry cfg c)).take (UInt8.ofNat positions.length).toNat =
      positions.map (claimEntry cfg c) := by
    have fits : positions.length < 256 := by simp only [updateClaimMaxBlocks] at size; omega
    apply List.take_of_length_le
    simp [UInt8.toNat_ofNat', Nat.mod_eq_of_lt fits]
  unfold sendGroup blockUpdateClaimSend
  by_cases got : env.mcastSent after.out.length = true
  · have blocks (told : Config) (position : Nat) :
        ((positions.map (claimEntry cfg c)).foldl (setTimeout (env.now + cfg.blockTimeout.toNat))
          told).blocks position =
        if position ∈ positions then renewed cfg env (told.blocks position)
        else told.blocks position := by
      simp only [set_timeouts_apply, entry_named indexed ours, renewed]
    simp only [got, ↓reduceIte, true_and]
    rw [set_timeouts_frame]
    simp only [updateClaimPacket, List.length_map, whole, funext (blocks _), announcement]
    rfl
  · simp [got, updateClaimPacket, announcement, Config.emit]

/-- Sending one more group keeps the account of the pass. -/
theorem send_group_updated {cfg : Settings} {env : Env} {c after : Config}
    {groups : List Group} (indexed : Indexed cfg c) (done : Updated cfg env c groups after)
    (positions : List Nat) (ours : ∀ position ∈ positions, OursAt cfg c position)
    (size : positions.length ≤ updateClaimMaxBlocks)
    (due : ∃ position ∈ positions, Below cfg env c position)
    (once : (named groups ++ positions).Nodup) :
    Updated cfg env c (groups ++ [⟨positions, env.mcastSent after.out.length⟩])
      (sendGroup cfg env (positions.map (claimEntry cfg c)) after) := by
  have fresh : ∀ position ∈ positions, ¬ Announced groups position := by
    intro position member announced
    exact (List.nodup_append.mp once).2.2 _ (announced_named announced) _ member rfl
  rw [send_group_sends env indexed positions ours size]
  constructor
  case frame =>
    rw [done.frame]
    simp [List.append_assoc]
  case announced =>
    intro position announced
    rcases (announced_snoc _ _ _).mp announced with before | now
    · have old : ¬ position ∈ positions := fun member => fresh position member before
      simp [old, done.announced position before]
    · exact (if_pos now).trans (by rw [done.kept position (fresh position now.2)])
  case kept =>
    intro position missed
    rw [announced_snoc] at missed
    obtain ⟨before, now⟩ := not_or.mp missed
    exact (if_neg now).trans (done.kept position before)
  case ours =>
    rw [named_snoc]
    exact List.forall_mem_append.mpr ⟨done.ours, ours⟩
  case sizes => exact List.forall_mem_append.mpr ⟨done.sizes, by simpa using size⟩
  case due => exact List.forall_mem_append.mpr ⟨done.due, by simpa using due⟩
  case once =>
    rw [named_snoc]
    exact once
  case answers => exact List.forall_mem_append.mpr ⟨done.answers, by simp⟩

/-! The grouping loop. -/

/-- What holds when the loop has looked at the blocks below `seen`: `groups` are out
and `current` waits to be sent. -/
structure Collected (cfg : Settings) (env : Env) (c : Config) (seen : Nat) (work : Grouping)
    (groups : List Group) (current : List Nat) : Prop where
  updated : Updated cfg env c groups work.config
  entries : work.entries = current.map (claimEntry cfg c)
  send : work.sendPacket = true ↔ ∃ position ∈ current, Below cfg env c position
  room : current.length < updateClaimMaxBlocks
  ours : ∀ position ∈ current, OursAt cfg c position
  once : (named groups ++ current).Nodup
  bounded : ∀ position ∈ named groups ++ current, position < seen
  covers : ∀ position < seen, (c.blocks position).state = .ours → Below cfg env c position →
    position ∈ named groups ++ current

theorem collected_start (cfg : Settings) (env : Env) (c : Config) :
    Collected cfg env c 0 ⟨c, [], false⟩ [] [] where
  updated := updated_none cfg env c
  entries := rfl
  send := by simp
  room := by simp [updateClaimMaxBlocks]
  ours := by simp
  once := by simp [named]
  bounded := by simp [named]
  covers := by simp

/-- The same once a block of ours was put behind the entries, before the group may go
out: it may be complete. -/
structure Gathered (cfg : Settings) (env : Env) (c : Config) (seen : Nat) (work : Grouping)
    (groups : List Group) (current : List Nat) : Prop where
  updated : Updated cfg env c groups work.config
  entries : work.entries = current.map (claimEntry cfg c)
  send : work.sendPacket = true ↔ ∃ position ∈ current, Below cfg env c position
  size : current.length ≤ updateClaimMaxBlocks
  ours : ∀ position ∈ current, OursAt cfg c position
  once : (named groups ++ current).Nodup
  bounded : ∀ position ∈ named groups ++ current, position < seen
  covers : ∀ position < seen, (c.blocks position).state = .ours → Below cfg env c position →
    position ∈ named groups ++ current

section Grouping
variable {cfg : Settings} {env : Env} {c : Config} {seen : Nat} {work : Grouping}
  {groups : List Group} {current : List Nat}

theorem gathered_next (own : OursAt cfg c seen)
    (held : Collected cfg env c seen work groups current) :
    Gathered cfg env c (seen + 1) ⟨work.config, work.entries ++ [claimEntry cfg c seen],
      work.sendPacket || decide ((c.blocks seen).timeout < timeoutFactor cfg env.now)⟩
      groups (current ++ [seen]) := by
  have fresh : seen ∉ named groups ++ current := fun member =>
    Nat.lt_irrefl _ (held.bounded seen member)
  constructor
  case updated => exact held.updated
  case entries => simp [held.entries]
  case send =>
    rw [Bool.or_eq_true, held.send]
    simp [Below, or_and_right, exists_or]
  case size =>
    rw [List.length_append]
    exact held.room
  case ours => exact List.forall_mem_append.mpr ⟨held.ours, by simpa using own⟩
  case once =>
    rw [← List.append_assoc]
    exact List.nodup_append.mpr ⟨held.once, by simp, by
      rintro a member b last rfl
      exact fresh (List.mem_singleton.mp last ▸ member)⟩
  case bounded =>
    rw [← List.append_assoc]
    exact List.forall_mem_append.mpr
      ⟨fun position member => Nat.lt_succ_of_lt (held.bounded position member), by simp⟩
  case covers =>
    intro position below state due
    rw [← List.append_assoc]
    rcases Nat.lt_succ_iff_lt_or_eq.mp below with before | last
    · exact List.mem_append_left _ (held.covers position before state due)
    · exact List.mem_append_right _ (List.mem_singleton.mpr last)

theorem gathered_waits (gathered : Gathered cfg env c seen work groups current)
    (incomplete : current.length ≠ updateClaimMaxBlocks) :
    Collected cfg env c seen work groups current where
  updated := gathered.updated
  entries := gathered.entries
  send := gathered.send
  room := Nat.lt_of_le_of_ne gathered.size incomplete
  ours := gathered.ours
  once := gathered.once
  bounded := gathered.bounded
  covers := gathered.covers

/-- How the packets change when the block at `seen` is looked at. -/
inductive Advance (cfg : Settings) (env : Env) (c : Config) (seen : Nat) (groups : List Group)
    (current : List Nat) : List Group → List Nat → Prop where
  | skip : ¬ OursAt cfg c seen → Advance cfg env c seen groups current groups current
  | wait : OursAt cfg c seen → (current ++ [seen]).length ≠ updateClaimMaxBlocks →
      Advance cfg env c seen groups current groups (current ++ [seen])
  | send (got : Bool) : OursAt cfg c seen → (current ++ [seen]).length = updateClaimMaxBlocks →
      (∃ position ∈ current ++ [seen], Below cfg env c position) →
      Advance cfg env c seen groups current (groups ++ [⟨current ++ [seen], got⟩]) []
  | drop : OursAt cfg c seen → (current ++ [seen]).length = updateClaimMaxBlocks →
      (¬ ∃ position ∈ current ++ [seen], Below cfg env c position) →
      Advance cfg env c seen groups current groups []

theorem gathered_sent (indexed : Indexed cfg c)
    (gathered : Gathered cfg env c seen work groups current) (sending : work.sendPacket = true) :
    ∃ got, Collected cfg env c seen ⟨sendGroup cfg env work.entries work.config, [], false⟩
      (groups ++ [⟨current, got⟩]) [] := by
  have sent := send_group_updated indexed gathered.updated current gathered.ours gathered.size
    (gathered.send.mp sending) gathered.once
  rw [← gathered.entries] at sent
  refine ⟨_, sent, rfl, by simp, by simp [updateClaimMaxBlocks], by simp, ?_, ?_, ?_⟩
  · simpa [named] using gathered.once
  · simpa [named] using gathered.bounded
  · simpa [named] using gathered.covers

/-- A complete group of fresh blocks is dropped. -/
theorem gathered_dropped (gathered : Gathered cfg env c seen work groups current)
    (quiet : ¬ work.sendPacket = true) :
    Collected cfg env c seen ⟨work.config, [], work.sendPacket⟩ groups [] := by
  refine ⟨gathered.updated, rfl, by simpa using quiet, by simp [updateClaimMaxBlocks], by simp,
    ?_, ?_, ?_⟩
  · simpa using (List.nodup_append.mp gathered.once).1
  · intro position member
    exact gathered.bounded position (List.mem_append_left _ (by simpa using member))
  · intro position below state due
    rcases List.mem_append.mp (gathered.covers position below state due) with out | waiting
    · simpa using out
    · exact absurd (gathered.send.mpr ⟨position, waiting, due⟩) quiet

theorem collected_skips (foreign : (c.blocks seen).state ≠ .ours)
    (held : Collected cfg env c seen work groups current) :
    Collected cfg env c (seen + 1) work groups current := by
  refine { held with bounded := ?_, covers := ?_ }
  · intro position member
    exact Nat.lt_succ_of_lt (held.bounded position member)
  · intro position below state due
    rcases Nat.lt_succ_iff_lt_or_eq.mp below with before | last
    · exact held.covers position before state due
    · exact absurd (last ▸ state) foreign

theorem collected_next (indexed : Indexed cfg c) (inside : seen < cfg.blocks)
    (held : Collected cfg env c seen work groups current) :
    ∃ groups' current', Collected cfg env c (seen + 1) (groupBlock cfg env seen work)
      groups' current' ∧ Advance cfg env c seen groups current groups' current' := by
  have untouched : work.config.blocks seen = c.blocks seen := by
    apply held.updated.kept
    intro announced
    have := held.bounded seen (List.mem_append_left _ (announced_named announced))
    omega
  by_cases own : (c.blocks seen).state = .ours
  · have gathered := gathered_next ⟨inside, own⟩ held
    have counted := congrArg List.length gathered.entries
    rw [List.length_map] at counted
    unfold groupBlock
    simp only [untouched, own, ↓reduceIte]
    rw [show (⟨(c.blocks seen).index, cfg.blockTimeout, 0⟩ : BlockPayload) =
      claimEntry cfg c seen from rfl]
    split
    · rename_i complete
      rw [counted] at complete
      split
      · rename_i sending
        rcases gathered_sent indexed gathered sending with ⟨got, collected⟩
        exact ⟨_, [], collected,
          .send got ⟨inside, own⟩ complete (gathered.send.mp sending)⟩
      · rename_i quiet
        exact ⟨groups, [], gathered_dropped gathered quiet,
          .drop ⟨inside, own⟩ complete fun due => quiet (gathered.send.mpr due)⟩
    · rename_i incomplete
      rw [counted] at incomplete
      exact ⟨groups, _, gathered_waits gathered incomplete, .wait ⟨inside, own⟩ incomplete⟩
  · have skipped : groupBlock cfg env seen work = work := by
      simp [groupBlock, untouched, own]
    rw [skipped]
    exact ⟨groups, current, collected_skips own held, .skip fun ours => own ours.2⟩

end Grouping

/-! The whole pass. -/

theorem needs_update_iff (cfg : Settings) (env : Env) (c : Config) :
    needsUpdate cfg env.now c = true ↔
      ∃ position, OursAt cfg c position ∧ Below cfg env c position := by
  simp [needsUpdate, OursAt, Below, and_assoc]

/-- Every block of ours below the baseline is in a packet, if there is memory for it. -/
def Covers (cfg : Settings) (env : Env) (c : Config) (groups : List Group) : Prop :=
  env.alloc (.claimPacket c.out.length) = true → env.alloc (.claimPayload c.out.length) = true →
    ∀ position, OursAt cfg c position → Below cfg env c position → position ∈ named groups

theorem update_claims_updated (cfg : Settings) (env : Env) (c : Config)
    (indexed : Indexed cfg c) :
    ∃ groups, Updated cfg env c groups (blockUpdateClaims cfg env c) ∧
      Covers cfg env c groups := by
  unfold blockUpdateClaims
  split
  · rename_i idle
    refine ⟨[], updated_none cfg env c, fun _ _ position own due => ?_⟩
    exact absurd ((needs_update_iff cfg env c).mpr ⟨position, own, due⟩) idle
  split
  · rename_i memory
    refine ⟨[], updated_none cfg env c, fun packet payload => ?_⟩
    simp [packet, payload] at memory
  · have passes : ∃ groups current, Collected cfg env c cfg.blocks
        (loop (groupBlock cfg env) cfg.blocks ⟨c, [], false⟩) groups current :=
      loop_invariant (fun seen work => ∃ groups current, Collected cfg env c seen work groups current)
        (groupBlock cfg env) cfg.blocks ⟨c, [], false⟩ ⟨[], [], collected_start cfg env c⟩
        fun seen inside work ⟨groups, current, held⟩ =>
          have ⟨groups, current, next, _⟩ := collected_next indexed inside held
          ⟨groups, current, next⟩
    obtain ⟨groups, current, held⟩ := passes
    simp only
    split
    · rename_i sending
      rw [held.entries]
      refine ⟨_, send_group_updated indexed held.updated current held.ours
        (Nat.le_of_lt held.room) (held.send.mp sending) held.once, fun _ _ position own due => ?_⟩
      simpa [named] using held.covers position own.1 own.2 due
    · rename_i quiet
      refine ⟨groups, held.updated, fun _ _ position own due => ?_⟩
      rcases List.mem_append.mp (held.covers position own.1 own.2 due) with out | waiting
      · exact out
      · exact absurd (held.send.mpr ⟨position, waiting, due⟩) quiet

end Ddhcpd.Refresh

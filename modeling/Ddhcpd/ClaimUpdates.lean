import Ddhcpd.Hearing
import Mathlib.Data.List.Pairwise

/-!
The account of the packets by which a node announces its blocks: what a pass of
`block_update_claims` sends and renews, and how the handlers of claims and inquiries
defend blocks with such passes.
-/

namespace Ddhcpd.ClaimUpdates
open Types Blocks BlockPackets BlockMoves Packet Node Refresh Invariant Defence Deadlines Hearing

/-- The blocks a packet names, entry by entry. -/
def mentions : Output → List Nat
  | .mcast packet _ => (entries packet).map fun entry => entry.blockIndex.toNat
  | _ => []

/-- A claim of up to 32 blocks, all of them ours and one of them below the baseline. -/
def UpdateOf (cfg : Settings) (env : Env) (c : Config) : Output → Prop
  | .mcast packet _ => packet.command = msgUpdateClaim ∧
      packet.payload.length = packet.count.toNat ∧
      1 ≤ packet.count.toNat ∧ packet.count.toNat ≤ updateClaimMaxBlocks ∧
      (∀ position, Names packet position → OursAt cfg c position) ∧
      ∃ position, Names packet position ∧ Below cfg env c position
  | _ => False

/-- What a pass sends and what it makes of the blocks. -/
structure UpdatePass (cfg : Settings) (env : Env) (c after : Config) : Prop where
  frame : after = { c with blocks := after.blocks, out := c.out ++ sent c after }
  packets : ∀ output ∈ sent c after, UpdateOf cfg env c output
  once : ((sent c after).flatMap mentions).Nodup
  covers : env.alloc (.claimPacket c.out.length) = true →
    env.alloc (.claimPayload c.out.length) = true → ∀ position, OursAt cfg c position →
    Below cfg env c position → position ∈ (sent c after).flatMap mentions
  delivered : (∀ call, env.mcastSent call = true) → ∀ packet got,
    .mcast packet got ∈ sent c after → got = true
  renews : ∀ packet position, .mcast packet true ∈ sent c after → Names packet position →
    after.blocks position = renewed cfg env (c.blocks position)
  fails : ∀ packet position, .mcast packet false ∈ sent c after → Names packet position →
    after.blocks position = c.blocks position
  keeps : ∀ position, position ∉ (sent c after).flatMap mentions →
    after.blocks position = c.blocks position

section Passes
variable {cfg : Settings} {env : Env} {packet : McastPacket} {sender : In6Addr} {c after : Config}
  {groups : List Group} {position : Nat}

theorem mentions_iff (packet : McastPacket) (got : Bool) (position : Nat) :
    position ∈ mentions (.mcast packet got) ↔ Names packet position := by
  simp [mentions, Names]

theorem updated_sent (done : Updated cfg env c groups after) :
    sent c after = groups.map (announcement cfg c) := by
  rw [done.frame]
  simp [sent]

theorem group_ours (done : Updated cfg env c groups after) {group : Group}
    (member : group ∈ groups) : ∀ k ∈ group.positions, OursAt cfg c k :=
  fun k inside => done.ours k (List.mem_flatMap.mpr ⟨group, member, inside⟩)

theorem group_counted (done : Updated cfg env c groups after) {group : Group}
    (member : group ∈ groups) :
    (UInt8.ofNat group.positions.length).toNat = group.positions.length := by
  have size := done.sizes group member
  simp only [updateClaimMaxBlocks] at size
  rw [UInt8.toNat_ofNat', Nat.mod_eq_of_lt (by omega)]

theorem announcement_mentions (indexed : Indexed cfg c) (done : Updated cfg env c groups after)
    {group : Group} (member : group ∈ groups) :
    mentions (announcement cfg c group) = group.positions := by
  have index : ∀ k ∈ group.positions, (claimEntry cfg c k).blockIndex.toNat = k := fun k inside =>
    indexed k (group_ours done member k inside).1
  rw [announcement, mentions, claim_entries (done.sizes group member), List.map_map]
  exact (List.map_congr_left index).trans (List.map_id _)

theorem updated_mentions (indexed : Indexed cfg c) (done : Updated cfg env c groups after) :
    (sent c after).flatMap mentions = named groups := by
  rw [updated_sent done, List.flatMap_map, named]
  exact List.flatMap_congr fun group member => announcement_mentions indexed done member

/-- The packets of the pass are the groups. -/
theorem sent_group (indexed : Indexed cfg c) (done : Updated cfg env c groups after) {got : Bool}
    (member : .mcast packet got ∈ sent c after) :
    ∃ group ∈ groups, group.sent = got ∧ ∀ k, Names packet k ↔ k ∈ group.positions := by
  rw [updated_sent done] at member
  obtain ⟨group, inside, form⟩ := List.mem_map.mp member
  refine ⟨group, inside, (Output.mcast.inj form).2, fun k => ?_⟩
  rw [← mentions_iff packet got, ← form, announcement_mentions indexed done inside]

/-- No block is in two groups. -/
theorem group_unique (done : Updated cfg env c groups after) {one other : Group}
    (first : one ∈ groups) (second : other ∈ groups) (here : position ∈ one.positions)
    (there : position ∈ other.positions) : one = other := by
  have apart := (List.nodup_flatMap.mp done.once).2
  have symmetric : Std.Symm (Function.onFun List.Disjoint Group.positions) :=
    ⟨fun _ _ disjoint => List.disjoint_symm disjoint⟩
  by_contra different
  exact apart.forall first second different here there

theorem announcement_update (indexed : Indexed cfg c) (done : Updated cfg env c groups after)
    {group : Group} (member : group ∈ groups) :
    UpdateOf cfg env c (announcement cfg c group) := by
  have counted := group_counted done member
  obtain ⟨position, inside, due⟩ := done.due group member
  have names (k : Nat) :
      Names (updateClaimPacket cfg (group.positions.map (claimEntry cfg c))) k ↔
        k ∈ group.positions := by
    rw [← mentions_iff _ group.sent]
    exact Iff.of_eq (congrArg (k ∈ ·) (announcement_mentions indexed done member))
  refine ⟨rfl, ?_, ?_, ?_, fun k named => ?_, position, (names position).mpr inside, due⟩
  · simp [updateClaimPacket, counted]
  · simpa [updateClaimPacket, counted, Nat.one_le_iff_ne_zero] using List.ne_nil_of_mem inside
  · simpa [updateClaimPacket, counted] using done.sizes group member
  · exact group_ours done member k ((names k).mp named)

/-- Claim updates cover exactly the blocks of ours that need it. -/
theorem update_claims_cover (cfg : Settings) (env : Env) (c : Config) (indexed : Indexed cfg c) :
    UpdatePass cfg env c (blockUpdateClaims cfg env c) := by
  obtain ⟨groups, done, covers⟩ := update_claims_updated cfg env c indexed
  have mentioned := updated_mentions indexed done
  constructor
  case frame =>
    rw [updated_sent done]
    exact done.frame
  case packets =>
    rw [updated_sent done]
    intro output member
    obtain ⟨group, inside, rfl⟩ := List.mem_map.mp member
    exact announcement_update indexed done inside
  case once =>
    rw [mentioned]
    exact done.once
  case covers =>
    rw [mentioned]
    exact covers
  case delivered =>
    intro sends packet got member
    obtain ⟨group, inside, rfl, -⟩ := sent_group indexed done member
    obtain ⟨call, answer⟩ := done.answers group inside
    rw [answer, sends call]
  case renews =>
    intro packet position member named
    obtain ⟨group, inside, got, names⟩ := sent_group indexed done member
    exact done.announced position ⟨group, inside, got, (names position).mp named⟩
  case fails =>
    intro packet position member named
    obtain ⟨group, inside, missed, names⟩ := sent_group indexed done member
    apply done.kept
    rintro ⟨other, elsewhere, got, here⟩
    -- a block is in one packet only, and that one was lost
    have same := group_unique done inside elsewhere ((names position).mp named) here
    rw [same, got] at missed
    cases missed
  case keeps =>
    rw [mentioned]
    exact fun position missed => done.kept position fun announced =>
      missed (announced_named announced)

end Passes

/-! The handlers of claims and inquiries. -/

/-- What the handler of a claim or an inquiry does to the blocks, when sends succeed. -/
structure Handled (cfg : Settings) (env : Env) (packet : McastPacket) (c after : Config) :
    Prop where
  defends : Challenges cfg packet → ∀ position, OursAt cfg c position → Names packet position →
    OursAt cfg after position ∧
      (after.blocks position).timeout = env.now + cfg.blockTimeout.toNat ∧
      Told c after position
  insists : packet.command = msgInquire → ¬ 0 < nodeIdCmp packet.nodeId cfg.nodeId →
    ∀ position, (c.blocks position).state = .claiming → (after.blocks position).state = .claiming
  spares : ∀ position, ¬ Names packet position → after.blocks position = c.blocks position ∨
    (c.blocks position).state = .ours ∧
      after.blocks position = renewed cfg env (c.blocks position)
  tables : ∀ position, (after.blocks position).addresses = (c.blocks position).addresses

theorem baseline_positive (cfg : Settings) {now : Time} (positive : 0 < now) :
    0 < timeoutFactor cfg now := by
  have part := Nat.div_le_self cfg.blockTimeout.toNat cfg.blockRefreshFactor.toNat
  rw [timeoutFactor, Nat.add_sub_assoc part]
  exact Nat.lt_add_right _ positive

section Entries
variable {cfg : Settings} {env : Env} {packet : McastPacket} {sender : In6Addr} {c after : Config}
  {position : Nat}

theorem update_claims_renews (sends : Multicasts env) (indexed : Indexed cfg c)
    (own : OursAt cfg c position) (due : Below cfg env c position) :
    (blockUpdateClaims cfg env c).blocks position = renewed cfg env (c.blocks position) := by
  have memory := sends.2 c.out.length
  obtain ⟨groups, done, covers⟩ := update_claims_updated cfg env c indexed
  exact (named_told sends indexed done (covers memory.1 memory.2 position own due)).2

/-- A block that is defended is ours with a new deadline. -/
theorem process_entry_defends {entry : BlockPayload} (sends : Multicasts env)
    (indexed : Indexed cfg c) (late : 0 < timeoutFactor cfg env.now)
    (challenge : Challenges cfg packet) (own : OursAt cfg c entry.blockIndex.toNat) :
    (processEntry cfg env packet sender c entry).blocks entry.blockIndex.toNat =
      renewed cfg env (c.blocks entry.blockIndex.toNat) := by
  have zeroed := zeroed_indexed indexed entry.blockIndex.toNat
  have due : Below cfg env (c.setBlock entry.blockIndex.toNat
      { c.blocks entry.blockIndex.toNat with timeout := 0 }) entry.blockIndex.toNat := by
    rw [Below, set_block_same]
    exact late
  rw [process_entry_challenge challenge own, BlockMoves.defend,
    update_claims_renews sends zeroed ((zeroed_ours _).mpr own) due, set_block_same]
  rfl

/-- Once defended, a block stays so through the rest of the packet. -/
theorem entries_defend {list : List BlockPayload} (sends : Multicasts env)
    (indexed : Indexed cfg c) (late : 0 < timeoutFactor cfg env.now)
    (challenge : Challenges cfg packet) (members : ∀ entry ∈ list, entry ∈ entries packet)
    (own : OursAt cfg c position)
    (fresh : (c.blocks position).timeout = env.now + cfg.blockTimeout.toNat ∨
      ∃ entry ∈ list, entry.blockIndex.toNat = position) :
    OursAt cfg (list.foldl (processEntry cfg env packet sender) c) position ∧
      ((list.foldl (processEntry cfg env packet sender) c).blocks position).timeout =
        env.now + cfg.blockTimeout.toNat := by
  have kind : packet.command = msgUpdateClaim ∨ packet.command = msgInquire :=
    challenge.elim .inr fun claim => .inl claim.1
  induction list generalizing c with
  | nil => exact ⟨own, fresh.resolve_right (by simp)⟩
  | cons entry rest ih =>
      have middle : Indexed cfg (processEntry cfg env packet sender c entry) :=
        process_entry_indexed indexed kind (members entry List.mem_cons_self)
      have later := fun other member => members other (List.mem_cons_of_mem _ member)
      apply ih middle later (process_entry_stays indexed challenge own)
      by_cases here : entry.blockIndex.toNat = position
      · subst here
        left
        rw [process_entry_defends sends indexed late challenge own]
        rfl
      · have different : position ≠ entry.blockIndex.toNat := fun same => here same.symm
        have ahead : (c.blocks position).timeout = env.now + cfg.blockTimeout.toNat ∨
            ∃ entry ∈ rest, entry.blockIndex.toNat = position := by
          apply fresh.imp_right
          rintro ⟨other, member, same⟩
          rcases List.mem_cons.mp member with rfl | tail
          · exact absurd same here
          · exact ⟨other, tail, same⟩
        have block : (processEntry cfg env packet sender c entry).blocks position =
            c.blocks position ∨ _ := process_entry_other indexed different
        apply ahead.imp_left
        intro deadline
        rcases block with same | ⟨-, changed⟩
        · rw [same, deadline]
        · rw [changed]
          rfl

/-- A packet that does not name the block can only renew its deadline. -/
theorem entries_spare {list : List BlockPayload} (indexed : Indexed cfg c)
    (kind : packet.command = msgUpdateClaim ∨ packet.command = msgInquire)
    (members : ∀ entry ∈ list, entry ∈ entries packet)
    (unnamed : ∀ entry ∈ list, entry.blockIndex.toNat ≠ position) :
    (list.foldl (processEntry cfg env packet sender) c).blocks position = c.blocks position ∨
      (c.blocks position).state = .ours ∧
        (list.foldl (processEntry cfg env packet sender) c).blocks position =
          renewed cfg env (c.blocks position) := by
  induction list generalizing c with
  | nil => exact .inl rfl
  | cons entry rest ih =>
      have middle : Indexed cfg (processEntry cfg env packet sender c entry) :=
        process_entry_indexed indexed kind (members entry List.mem_cons_self)
      have tail := ih middle
        (fun other member => members other (List.mem_cons_of_mem _ member))
        (fun other member => unnamed other (List.mem_cons_of_mem _ member))
      have head : (processEntry cfg env packet sender c entry).blocks position =
          c.blocks position ∨ _ :=
        process_entry_other indexed (unnamed entry List.mem_cons_self).symm
      rw [List.foldl_cons]
      rcases head with same | ⟨own, changed⟩
      · rwa [same] at tail
      · rw [changed] at tail
        -- renewed twice under one clock is renewed once
        exact .inr ⟨own, tail.elim id (·.2)⟩

theorem block_move_tables (indexed : Indexed cfg c)
    (move : BlockMove cfg env packet sender c after) :
    (after.blocks position).addresses = (c.blocks position).addresses := by
  have set (k : Nat) (block : Block) (same : block.addresses = (c.blocks k).addresses) :
      ((c.setBlock k block).blocks position).addresses = (c.blocks position).addresses := by
    by_cases here : position = k
    · subst here
      rw [set_block_same, same]
    · rw [set_block_other _ _ _ _ here]
  cases move with
  | concede => exact set _ _ rfl
  | defer => exact set _ _ rfl
  | @defend entry =>
      have zeroed := set entry.blockIndex.toNat
        { c.blocks entry.blockIndex.toNat with timeout := 0 } rfl
      have pass : (BlockMoves.defend cfg env entry.blockIndex.toNat c).blocks position = _ ∨ _ :=
        update_claims_block (zeroed_indexed indexed entry.blockIndex.toNat) position
      rcases pass with same | ⟨-, changed⟩
      · exact (congrArg Block.addresses same).trans zeroed
      · exact (congrArg Block.addresses changed).trans zeroed

theorem block_moves_tables (indexed : Indexed cfg c)
    (moves : BlockMoves.Moves cfg env packet sender c after) :
    (after.blocks position).addresses = (c.blocks position).addresses := by
  induction moves with
  | refl => rfl
  | tail front move ih =>
      exact (block_move_tables (block_moves_kept indexed front).1 move).trans ih

theorem block_moves_insist (inquire : packet.command = msgInquire)
    (wins : ¬ 0 < nodeIdCmp packet.nodeId cfg.nodeId) (indexed : Indexed cfg c)
    (claiming : (c.blocks position).state = .claiming)
    (moves : BlockMoves.Moves cfg env packet sender c after) :
    (after.blocks position).state = .claiming := by
  induction moves with
  | refl => exact claiming
  | @tail middle last front move ih =>
      cases move with
      | concede claim =>
          rw [inquire] at claim
          exact absurd claim (by decide)
      | @defer entry _ _ _ _ weaker =>
          by_cases here : position = entry.blockIndex.toNat
          · exact absurd (weaker (here ▸ ih)) wins
          · rw [set_block_other _ _ _ _ here]
            exact ih
      | @defend entry _ _ _ own =>
          have different : position ≠ entry.blockIndex.toNat := by
            intro here
            rw [← here, ih] at own
            cases own
          have pass : (BlockMoves.defend cfg env entry.blockIndex.toNat middle).blocks position =
              _ ∨ _ := update_claims_block
            (zeroed_indexed (block_moves_kept indexed front).1 entry.blockIndex.toNat) position
          rw [set_block_other _ _ _ _ different] at pass
          rcases pass with same | ⟨held, -⟩
          · rw [same]
            exact ih
          · rw [ih] at held
            cases held

/-- Both handlers, entry by entry. -/
theorem entries_handled (sends : Multicasts env) (indexed : Indexed cfg c)
    (late : 0 < timeoutFactor cfg env.now)
    (kind : packet.command = msgUpdateClaim ∨ packet.command = msgInquire) :
    Handled cfg env packet c
      ((entries packet).foldl (processEntry cfg env packet sender) c) := by
  have moves : BlockMoves.Moves cfg env packet sender c
      ((entries packet).foldl (processEntry cfg env packet sender) c) :=
    fold_moves _ _ fun entry member _ => process_entry_moves member kind
  constructor
  case defends =>
    intro challenge position own named
    have deadline : OursAt cfg ((entries packet).foldl (processEntry cfg env packet sender) c)
        position ∧ _ :=
      entries_defend sends indexed late challenge (fun _ => id) own (.inr named)
    exact ⟨deadline.1, deadline.2,
      entries_told sends indexed late challenge (fun _ => id) own named⟩
  case insists =>
    intro inquire wins position claiming
    exact block_moves_insist inquire wins indexed claiming moves
  case spares =>
    intro position unnamed
    exact entries_spare indexed kind (fun _ => id) fun entry member same =>
      unnamed ⟨entry, member, same⟩
  case tables => exact fun position => block_moves_tables indexed moves

end Entries

/-- Challenged blocks are defended, the other blocks and all lease tables left alone. -/
theorem handlers_defend (cfg : Settings) (env : Env) (packet : McastPacket) (sender : In6Addr)
    (c : Config) (indexed : Indexed cfg c) (sends : Multicasts env) (positive : 0 < env.now) :
    (packet.command = msgInquire →
      Handled cfg env packet c (ddhcpBlockProcessInquire cfg env packet c)) ∧
    (packet.command = msgUpdateClaim →
      Handled cfg env packet c (ddhcpBlockProcessClaims cfg env packet sender c)) := by
  have late := baseline_positive cfg positive
  constructor
  · intro inquire
    have other : msgInquire ≠ msgUpdateClaim := by decide
    have handled : Handled cfg env packet c
        ((entries packet).foldl (processEntry cfg env packet sender) c) :=
      entries_handled sends indexed late (.inr inquire)
    have body : processEntry cfg env packet sender = processInquire cfg env packet := by
      funext c entry
      simp [processEntry, inquire, other]
    rwa [body] at handled
  · intro claim
    have handled : Handled cfg env packet c
        ((entries packet).foldl (processEntry cfg env packet sender) c) :=
      entries_handled sends indexed late (.inl claim)
    have body : processEntry cfg env packet sender = processClaim cfg env packet sender := by
      funext c entry
      simp [processEntry, claim]
    rwa [body] at handled

/-- A node with 40 blocks, all of them its own and out of time. -/
def wideNode : Settings :=
  { smallNode 1 with numberOfBlocks := 40, network_fits := by decide }

def wideConfig : Config :=
  { startConfig wideNode 0 [] with
    blocks := fun position => { freshBlock wideNode 0 position with state := .ours, timeout := 0 } }

theorem wide_indexed : Indexed wideNode wideConfig := by
  intro position inside
  have few : position < 40 := inside
  simp only [wideConfig, freshBlock, UInt32.toNat_ofNat']
  omega

-- The last blocks fill a second packet in part.
theorem update_claims_cover_small : ∃ packet,
    .mcast packet true ∈
      sent wideConfig (blockUpdateClaims wideNode (calmEnv 1000) wideConfig) ∧
      Names packet 37 := by
  have pass := update_claims_cover wideNode (calmEnv 1000) wideConfig wide_indexed
  have due : Below wideNode (calmEnv 1000) wideConfig 37 := by
    rw [Below]
    decide
  have named := pass.covers rfl rfl 37 ⟨by decide, rfl⟩ due
  obtain ⟨output, member, inside⟩ := List.mem_flatMap.mp named
  cases output with
  | mcast packet got =>
      have through := pass.delivered (fun _ => rfl) packet got member
      exact ⟨packet, through ▸ member, (mentions_iff packet got 37).mp inside⟩
  | direct => simp [mentions] at inside
  | dhcp => simp [mentions] at inside
  | hook => simp [mentions] at inside

/-- An inquiry that names one block twice and one that is not there. -/
def wideInquiry : McastPacket :=
  { newDdhcpPacket wideNode msgInquire with
    count := 3, payload := [⟨37, 0, 0⟩, ⟨99, 0, 0⟩, ⟨37, 0, 0⟩] }

theorem handlers_defend_small :
    OursAt wideNode (ddhcpBlockProcessInquire wideNode (calmEnv 1000) wideInquiry wideConfig) 37 ∧
    ((ddhcpBlockProcessInquire wideNode (calmEnv 1000) wideInquiry wideConfig).blocks 37).timeout =
      1060 := by
  have sends : Multicasts (calmEnv 1000) := by simp [Multicasts, calmEnv]
  have handled := (handlers_defend wideNode (calmEnv 1000) wideInquiry (zeroBytes 16) wideConfig
    wide_indexed sends (by decide)).1 rfl
  have defended := handled.defends (.inl rfl) 37 ⟨by decide, rfl⟩ (by decide)
  exact ⟨defended.1, defended.2.1⟩

end Ddhcpd.ClaimUpdates

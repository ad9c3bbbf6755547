import Ddhcpd.Arbitration
import Ddhcpd.Deadlines
import Ddhcpd.Defence
import Mathlib.Algebra.BigOperators.Group.List.Basic

/-!
What a packet of another node does to every block, and what is sent in return. A block
is seen as its cell of the arbitration: a packet that names it moves the cell as the
arbitration says, any other packet leaves the cell alone.
-/

namespace Ddhcpd.Hearing
open Types Blocks BlockPackets BlockMoves Packet Node Refresh Invariant Defence Deadlines
open Arbitration (Cell)

/-- A deadline matters to the others while the node waits or tries. A blocked block is
treated as a free one by both handlers. -/
def cellOf (block : Block) : Cell :=
  match block.state with
  | .free => .idle
  | .tentative => .waiting block.timeout
  | .claimed => .foreign
  | .claiming => .trying block.timeout
  | .ours => .held
  | .blocked => .idle

theorem cell_held_iff (block : Block) : cellOf block = .held ↔ block.state = .ours := by
  cases state : block.state <;> simp [cellOf, state]

theorem cell_foreign_iff (block : Block) : cellOf block = .foreign ↔ block.state = .claimed := by
  cases state : block.state <;> simp [cellOf, state]

theorem cell_of_own {block : Block} (own : block.state = .ours) : cellOf block = .held :=
  (cell_held_iff block).mpr own

/-- What an inquiry that arrives at `now` makes of the cell. -/
def inquiredCell (cfg : Settings) (now : Time) (packet : McastPacket) (cell : Cell) : Cell :=
  match cell with
  | .held => .held
  | .trying deadline =>
      if 0 < nodeIdCmp packet.nodeId cfg.nodeId then .waiting (now + cfg.tentativeTimeout.toNat)
      else .trying deadline
  | _ => .waiting (now + cfg.tentativeTimeout.toNat)

def heardCell (cfg : Settings) (now : Time) (packet : McastPacket) (cell : Cell) : Cell :=
  if packet.command = msgInquire then inquiredCell cfg now packet cell
  else if cell = .held ∧ nodeIdCmp packet.nodeId cfg.nodeId < 0 then .held
  else .foreign

/-- Only the first entry of a packet that names the block makes a difference. -/
theorem heard_cell_twice (cfg : Settings) (now : Time) (packet : McastPacket) (cell : Cell) :
    heardCell cfg now packet (heardCell cfg now packet cell) = heardCell cfg now packet cell := by
  unfold heardCell
  split
  · unfold inquiredCell
    cases cell with
    | trying deadline =>
        by_cases greater : 0 < nodeIdCmp packet.nodeId cfg.nodeId <;> simp [greater]
    | _ => rfl
  · by_cases defended : cell = .held ∧ nodeIdCmp packet.nodeId cfg.nodeId < 0
    · simp [defended]
    · simp [defended]

/-! What is sent in return. -/

/-- The header of the packet is that of the node. -/
def OfNode (cfg : Settings) (packet : McastPacket) : Prop :=
  packet.nodeId = cfg.nodeId ∧ packet.prefixAddr = cfg.prefixAddr ∧
    packet.prefixLen = cfg.prefixLen ∧ packet.blocksize = cfg.blockSize

/-- A claim of the node for blocks that it holds in `c`. -/
def ownClaim (cfg : Settings) (c : Config) : Output → Prop
  | .mcast packet _ => OfNode cfg packet ∧ packet.command = msgUpdateClaim ∧
      ∀ position, Names packet position → OursAt cfg c position
  | _ => False

section Entries
variable {cfg : Settings} {env : Env} {packet : McastPacket} {sender : In6Addr} {c after : Config}
  {position : Nat}

theorem own_claim_mono {output : Output}
    (kept : ∀ position, OursAt cfg after position → OursAt cfg c position)
    (claim : ownClaim cfg after output) : ownClaim cfg c output := by
  cases output with
  | mcast told got =>
      rcases claim with ⟨header, kind, own⟩
      exact ⟨header, kind, fun position names => kept position (own position names)⟩
  | direct => exact claim
  | dhcp => exact claim
  | hook => exact claim

/-- A group goes out as a packet of the node that names its blocks. -/
theorem announcement_own (indexed : Indexed cfg c) {groups : List Group}
    (done : Updated cfg env c groups after) {group : Group} (member : group ∈ groups) :
    ∃ told, announcement cfg c group = .mcast told group.sent ∧ OfNode cfg told ∧
      told.command = msgUpdateClaim ∧ ∀ k, Names told k ↔ k ∈ group.positions := by
  have ours : ∀ k ∈ group.positions, OursAt cfg c k := fun k inside =>
    done.ours k (List.mem_flatMap.mpr ⟨group, member, inside⟩)
  rcases announcement_names indexed ours (done.sizes group member) with ⟨told, form, names⟩
  have header : announcement cfg c group = .mcast told group.sent := form
  cases form
  exact ⟨_, header, ⟨rfl, rfl, rfl, rfl⟩, rfl, names⟩

theorem update_claims_own (indexed : Indexed cfg c) :
    Emits (ownClaim cfg c) c (blockUpdateClaims cfg env c) := by
  rcases update_claims_updated cfg env c indexed with ⟨groups, done, -⟩
  refine ⟨groups.map (announcement cfg c), by rw [done.frame], ?_⟩
  intro output member
  rcases List.mem_map.mp member with ⟨group, inside, rfl⟩
  rcases announcement_own indexed done inside with ⟨told, form, header, kind, names⟩
  rw [form]
  refine ⟨header, kind, fun k named => ?_⟩
  exact done.ours k (List.mem_flatMap.mpr ⟨group, inside, (names k).mp named⟩)

/-- A claim that names the block got through. -/
def Told (c after : Config) (position : Nat) : Prop :=
  ∃ outs told, after.out = c.out ++ outs ∧ .mcast told true ∈ outs ∧
    told.command = msgUpdateClaim ∧ Names told position

theorem told_front {allowed : Output → Prop} {middle : Config} (told : Told c middle position)
    (more : Emits allowed middle after) : Told c after position := by
  rcases told with ⟨outs, packet, one, member, about⟩
  rcases more with ⟨others, two, -⟩
  exact ⟨outs ++ others, packet, by rw [two, one, List.append_assoc],
    List.mem_append_left _ member, about⟩

theorem told_back {allowed : Output → Prop} {middle : Config} (before : Emits allowed c middle)
    (told : Told middle after position) : Told c after position := by
  rcases before with ⟨outs, one, -⟩
  rcases told with ⟨others, packet, two, member, about⟩
  exact ⟨outs ++ others, packet, by rw [two, one, List.append_assoc],
    List.mem_append_right _ member, about⟩

/-- When sends succeed, a block in one of the groups is told of and renewed. -/
theorem named_told (sends : Multicasts env) (indexed : Indexed cfg c) {groups : List Group}
    (done : Updated cfg env c groups after) (member : position ∈ named groups) :
    Told c after position ∧ after.blocks position = renewed cfg env (c.blocks position) := by
  rcases List.mem_flatMap.mp member with ⟨group, inside, here⟩
  rcases announcement_own indexed done inside with ⟨told, form, -, kind, names⟩
  rcases done.answers group inside with ⟨call, answer⟩
  have got : group.sent = true := answer.trans (sends.1 call)
  refine ⟨⟨groups.map (announcement cfg c), told, by rw [done.frame], ?_, kind,
    (names position).mpr here⟩, done.announced position ⟨group, inside, got, here⟩⟩
  rw [← got, ← form]
  exact List.mem_map_of_mem inside

theorem update_claims_told (sends : Multicasts env) (indexed : Indexed cfg c)
    (own : OursAt cfg c position) (due : Below cfg env c position) :
    Told c (blockUpdateClaims cfg env c) position := by
  rcases update_claims_updated cfg env c indexed with ⟨groups, done, covers⟩
  exact (named_told sends indexed done (covers (sends.2 _).1 (sends.2 _).2 position own due)).1

theorem update_claims_ours (indexed : Indexed cfg c) :
    OursAt cfg (blockUpdateClaims cfg env c) position ↔ OursAt cfg c position := by
  have updated : (blockUpdateClaims cfg env c).blocks position = c.blocks position ∨ _ :=
    update_claims_block indexed position
  unfold OursAt
  rcases updated with same | ⟨-, changed⟩
  · rw [same]
  · rw [changed]
    rfl

theorem update_claims_cell (indexed : Indexed cfg c) :
    cellOf ((blockUpdateClaims cfg env c).blocks position) = cellOf (c.blocks position) := by
  have updated : (blockUpdateClaims cfg env c).blocks position = c.blocks position ∨ _ :=
    update_claims_block indexed position
  rcases updated with same | ⟨own, changed⟩
  · rw [same]
  · rw [changed, cell_of_own own]
    exact cell_of_own own

theorem update_claims_indexed (indexed : Indexed cfg c) :
    Indexed cfg (blockUpdateClaims cfg env c) := by
  intro other inside
  have updated : (blockUpdateClaims cfg env c).blocks other = c.blocks other ∨ _ :=
    update_claims_block indexed other
  rcases updated with same | ⟨-, changed⟩
  · rw [same]
    exact indexed other inside
  · rw [changed]
    exact indexed other inside

/-! One entry of a packet. -/

theorem zeroed_ours (other : Nat) :
    OursAt cfg (c.setBlock position { c.blocks position with timeout := 0 }) other ↔
      OursAt cfg c other := by
  unfold OursAt
  rw [set_block_apply]
  split
  · rename_i here
    rw [here]
  · rfl

theorem block_move_indexed (indexed : Indexed cfg c)
    (move : BlockMove cfg env packet sender c after) : Indexed cfg after := by
  have set (position : Nat) (block : Block) (same : block.index = (c.blocks position).index) :
      Indexed cfg (c.setBlock position block) := by
    intro other inside
    rw [set_block_apply]
    split
    · rename_i here
      rw [same, ← here]
      exact indexed other inside
    · exact indexed other inside
  cases move with
  | concede => exact set _ _ rfl
  | defer => exact set _ _ rfl
  | defend => exact update_claims_indexed (zeroed_indexed indexed _)

/-- No block is won by hearing of others. -/
theorem block_move_ours (indexed : Indexed cfg c)
    (move : BlockMove cfg env packet sender c after) (own : OursAt cfg after position) :
    OursAt cfg c position := by
  have set (index : Nat) (block : Block) (lost : block.state ≠ .ours)
      (own : OursAt cfg (c.setBlock index block) position) : OursAt cfg c position := by
    by_cases here : position = index
    · subst here
      exact absurd (by simpa using own.2) lost
    · exact ⟨own.1, set_block_other c index position block here ▸ own.2⟩
  cases move with
  | concede => exact set _ _ (by simp [conceded]) own
  | defer => exact set _ _ (by simp [deferred]) own
  | defend =>
      have zeroed := (update_claims_ours (zeroed_indexed indexed _)).mp own
      exact (zeroed_ours position).mp zeroed

theorem block_moves_kept (indexed : Indexed cfg c)
    (moves : BlockMoves.Moves cfg env packet sender c after) :
    Indexed cfg after ∧ ∀ position, OursAt cfg after position → OursAt cfg c position := by
  induction moves with
  | refl => exact ⟨indexed, fun _ => id⟩
  | tail _ move ih =>
      exact ⟨block_move_indexed ih.1 move, fun position own =>
        ih.2 position (block_move_ours ih.1 move own)⟩

/-- The entries behind an entry meet an indexed state again. -/
theorem process_entry_indexed {entry : BlockPayload} (indexed : Indexed cfg c)
    (kind : packet.command = msgUpdateClaim ∨ packet.command = msgInquire)
    (member : entry ∈ entries packet) : Indexed cfg (processEntry cfg env packet sender c entry) :=
  (block_moves_kept indexed (process_entry_moves member kind)).1

/-- A node that is challenged answers with claims of blocks it held before. -/
theorem block_moves_own (indexed : Indexed cfg c)
    (moves : BlockMoves.Moves cfg env packet sender c after) :
    Emits (ownClaim cfg c) c after := by
  induction moves with
  | refl => exact emits_same rfl
  | @tail middle last front move ih =>
      apply emits_trans ih
      rcases block_moves_kept indexed front with ⟨middleIndexed, kept⟩
      cases move with
      | concede => exact emits_same rfl
      | defer => exact emits_same rfl
      | defend =>
          have zeroed := zeroed_indexed middleIndexed
          apply emits_mono (update_claims_own (zeroed _))
          intro output claim
          exact own_claim_mono (fun k own => kept k ((zeroed_ours k).mp own)) claim

/-- A node that is not challenged says nothing. -/
theorem block_moves_silent (peaceful : ¬ Challenges cfg packet)
    (moves : BlockMoves.Moves cfg env packet sender c after) : after.out = c.out := by
  induction moves with
  | refl => rfl
  | tail _ move ih =>
      cases move with
      | concede => exact ih
      | defer => exact ih
      | defend kind =>
          rcases kind with claim | inquire
          · exact absurd (.inr claim) peaceful
          · exact absurd (.inl inquire) peaceful

theorem process_entry_same {entry : BlockPayload} (inquire : packet.command = msgInquire)
    (claiming : (c.blocks entry.blockIndex.toNat).state = .claiming)
    (wins : ¬ 0 < nodeIdCmp packet.nodeId cfg.nodeId) :
    processEntry cfg env packet sender c entry = c := by
  have other : msgInquire ≠ msgUpdateClaim := by decide
  unfold processEntry processInquire
  simp only [inquire, other, claiming, ↓reduceIte, wins]
  split <;> rfl

theorem process_entry_cell {entry : BlockPayload} (indexed : Indexed cfg c)
    (kind : packet.command = msgUpdateClaim ∨ packet.command = msgInquire)
    (inside : entry.blockIndex.toNat < cfg.blocks) :
    cellOf ((processEntry cfg env packet sender c entry).blocks entry.blockIndex.toNat) =
      heardCell cfg env.now packet (cellOf (c.blocks entry.blockIndex.toNat)) := by
  have defended (own : (c.blocks entry.blockIndex.toNat).state = .ours)
      (challenge : Challenges cfg packet) :
      cellOf ((processEntry cfg env packet sender c entry).blocks entry.blockIndex.toNat) =
        .held := by
    rw [process_entry_challenge challenge ⟨inside, own⟩, BlockMoves.defend,
      update_claims_cell (zeroed_indexed indexed _), set_block_same]
    exact cell_of_own own
  rcases kind with claim | inquire
  · have noInquiry : packet.command ≠ msgInquire := by
      rw [claim]
      decide
    rw [heardCell, if_neg noInquiry]
    split
    · rename_i own
      exact defended ((cell_held_iff _).mp own.1) (.inr ⟨claim, own.2⟩)
    · rename_i weaker
      rw [cell_held_iff] at weaker
      rw [process_entry_concede claim inside weaker, set_block_same]
      rfl
  · rw [heardCell, if_pos inquire]
    by_cases own : (c.blocks entry.blockIndex.toNat).state = .ours
    · rw [defended own (.inl inquire), cell_of_own own]
      rfl
    by_cases loses : (c.blocks entry.blockIndex.toNat).state = .claiming →
        0 < nodeIdCmp packet.nodeId cfg.nodeId
    · rw [process_entry_defer inquire inside own loses, set_block_same]
      cases state : (c.blocks entry.blockIndex.toNat).state <;>
        simp_all [cellOf, deferred, inquiredCell]
    · rcases Classical.not_imp.mp loses with ⟨claiming, wins⟩
      rw [process_entry_same inquire claiming wins]
      simp [cellOf, claiming, inquiredCell, wins]

theorem process_entry_cell_other {entry : BlockPayload} (indexed : Indexed cfg c)
    (different : position ≠ entry.blockIndex.toNat) :
    cellOf ((processEntry cfg env packet sender c entry).blocks position) =
      cellOf (c.blocks position) := by
  have other : (processEntry cfg env packet sender c entry).blocks position =
      c.blocks position ∨ _ := process_entry_other indexed different
  rcases other with same | ⟨own, changed⟩
  · rw [same]
  · rw [changed, cell_of_own own]
    exact cell_of_own own

/-- No entry of a challenge takes a block of ours away. -/
theorem process_entry_stays {entry : BlockPayload} (indexed : Indexed cfg c)
    (challenge : Challenges cfg packet) (own : OursAt cfg c position) :
    OursAt cfg (processEntry cfg env packet sender c entry) position := by
  by_cases here : position = entry.blockIndex.toNat
  · subst here
    rw [process_entry_challenge challenge own, BlockMoves.defend,
      update_claims_ours (zeroed_indexed indexed _), zeroed_ours]
    exact own
  · have kept : cellOf ((processEntry cfg env packet sender c entry).blocks position) =
        cellOf (c.blocks position) := process_entry_cell_other indexed here
    exact ⟨own.1, (cell_held_iff _).mp (kept.trans (cell_of_own own.2))⟩

/-! All entries. -/

theorem entries_cell {list : List BlockPayload} (indexed : Indexed cfg c)
    (kind : packet.command = msgUpdateClaim ∨ packet.command = msgInquire)
    (members : ∀ entry ∈ list, entry ∈ entries packet) (inside : position < cfg.blocks) :
    cellOf ((list.foldl (processEntry cfg env packet sender) c).blocks position) =
      if ∃ entry ∈ list, entry.blockIndex.toNat = position
      then heardCell cfg env.now packet (cellOf (c.blocks position))
      else cellOf (c.blocks position) := by
  induction list generalizing c with
  | nil => simp
  | cons entry rest ih =>
      have middle : Indexed cfg (processEntry cfg env packet sender c entry) :=
        process_entry_indexed indexed kind (members entry List.mem_cons_self)
      rw [List.foldl_cons, ih middle fun other member => members other (List.mem_cons_of_mem _ member)]
      by_cases here : entry.blockIndex.toNat = position
      · subst here
        rw [process_entry_cell indexed kind inside]
        simp [heard_cell_twice]
      · rw [process_entry_cell_other indexed fun same => here same.symm]
        simp [here]

/-- A block that is named by a challenge is announced while the packet is handled. -/
theorem entries_told {list : List BlockPayload} (sends : Multicasts env) (indexed : Indexed cfg c)
    (late : 0 < timeoutFactor cfg env.now) (challenge : Challenges cfg packet)
    (members : ∀ entry ∈ list, entry ∈ entries packet) (own : OursAt cfg c position)
    (named : ∃ entry ∈ list, entry.blockIndex.toNat = position) :
    Told c (list.foldl (processEntry cfg env packet sender) c) position := by
  have kind : packet.command = msgUpdateClaim ∨ packet.command = msgInquire :=
    challenge.elim .inr fun claim => .inl claim.1
  induction list generalizing c with
  | nil => simp at named
  | cons entry rest ih =>
      have first : BlockMoves.Moves cfg env packet sender c
          (processEntry cfg env packet sender c entry) :=
        process_entry_moves (members entry List.mem_cons_self) kind
      have middle := (block_moves_kept indexed first).1
      have later := fun other member => members other (List.mem_cons_of_mem _ member)
      rw [List.foldl_cons]
      by_cases here : entry.blockIndex.toNat = position
      · subst here
        have last : BlockMoves.Moves cfg env packet sender
            (processEntry cfg env packet sender c entry)
            (rest.foldl (processEntry cfg env packet sender)
              (processEntry cfg env packet sender c entry)) :=
          fold_moves _ _ fun other member _ => process_entry_moves (later other member) kind
        apply told_front _ (block_moves_own middle last)
        rw [process_entry_challenge challenge own]
        apply update_claims_told sends (zeroed_indexed indexed _)
          ((zeroed_ours entry.blockIndex.toNat).mpr own)
        rw [Below, set_block_same]
        exact late
      · apply told_back (block_moves_own indexed first)
        apply ih middle later (process_entry_stays indexed challenge own)
        rcases named with ⟨other, member, same⟩
        rcases List.mem_cons.mp member with head | tail
        · exact absurd (head ▸ same) here
        · exact ⟨other, tail, same⟩

/-! The number of packets sent. -/

theorem groups_few {groups : List Group} (done : Updated cfg env c groups after) :
    groups.length ≤ cfg.blocks := by
  have nonempty : ∀ group ∈ groups, 1 ≤ group.positions.length := by
    intro group member
    rcases done.due group member with ⟨position, inside, -⟩
    exact List.length_pos_of_mem inside
  have each : groups.length ≤ (named groups).length := by
    rw [named, List.length_flatMap]
    have sum := List.length_le_sum_of_one_le (groups.map fun group => group.positions.length)
      (by simpa using nonempty)
    rwa [List.length_map] at sum
  have inside : named groups ⊆ List.range cfg.blocks := fun position member =>
    List.mem_range.mpr (done.ours position member).1
  have few := (List.subperm_of_subset done.once inside).length_le
  rw [List.length_range] at few
  exact Nat.le_trans each few

theorem process_entry_few {entry : BlockPayload} (indexed : Indexed cfg c) :
    (processEntry cfg env packet sender c entry).out.length ≤ c.out.length + cfg.blocks := by
  rcases process_entry_cases entry with same | ⟨block, set⟩ | defended
  · rw [same]
    exact Nat.le_add_right _ _
  · rw [set]
    exact Nat.le_add_right _ _
  · rcases update_claims_updated cfg env _ (zeroed_indexed indexed entry.blockIndex.toNat) with
      ⟨groups, done, -⟩
    have few := groups_few done
    rw [defended, BlockMoves.defend, done.frame]
    simpa using few

theorem entries_few {list : List BlockPayload} (indexed : Indexed cfg c)
    (kind : packet.command = msgUpdateClaim ∨ packet.command = msgInquire)
    (members : ∀ entry ∈ list, entry ∈ entries packet) :
    (list.foldl (processEntry cfg env packet sender) c).out.length ≤
      c.out.length + list.length * cfg.blocks := by
  induction list generalizing c with
  | nil => simp
  | cons entry rest ih =>
      have middle : Indexed cfg (processEntry cfg env packet sender c entry) :=
        process_entry_indexed indexed kind (members entry List.mem_cons_self)
      have tail := ih middle fun other member => members other (List.mem_cons_of_mem _ member)
      have head : (processEntry cfg env packet sender c entry).out.length ≤ _ :=
        process_entry_few indexed
      rw [List.foldl_cons, List.length_cons, Nat.succ_mul]
      omega

/-! A whole packet. -/

/-- The packet is one of this network for the handlers of claims and inquiries. -/
def Readable (cfg : Settings) (packet : McastPacket) : Prop :=
  foreign cfg packet = false ∧ (packet.command = msgUpdateClaim ∨ packet.command = msgInquire)

theorem dispatch_cell (readable : Readable cfg packet) (indexed : Indexed cfg c)
    (inside : position < cfg.blocks) :
    cellOf ((ddhcpBlockDispatch cfg env packet sender c).blocks position) =
      if Names packet position then heardCell cfg env.now packet (cellOf (c.blocks position))
      else cellOf (c.blocks position) := by
  rw [dispatch_entries readable.1 readable.2]
  exact entries_cell indexed readable.2 (fun _ => id) inside

theorem dispatch_told (sends : Multicasts env) (readable : Readable cfg packet)
    (indexed : Indexed cfg c) (late : 0 < timeoutFactor cfg env.now)
    (challenge : Challenges cfg packet) (own : OursAt cfg c position)
    (named : Names packet position) :
    Told c (ddhcpBlockDispatch cfg env packet sender c) position := by
  rw [dispatch_entries readable.1 readable.2]
  exact entries_told sends indexed late challenge (fun _ => id) own named

theorem dispatch_few (readable : Readable cfg packet) (indexed : Indexed cfg c) :
    (sent c (ddhcpBlockDispatch cfg env packet sender c)).length ≤ 255 * cfg.blocks := by
  have few : (entries packet).length ≤ 255 := by
    have count := packet.count.toNat_lt
    rw [entries, List.length_take]
    omega
  have more : ((entries packet).foldl (processEntry cfg env packet sender) c).out.length ≤ _ :=
    entries_few indexed readable.2 fun _ => id
  have grown := Nat.mul_le_mul_right cfg.blocks few
  rw [dispatch_entries readable.1 readable.2, sent, List.length_drop]
  omega

end Entries

end Ddhcpd.Hearing

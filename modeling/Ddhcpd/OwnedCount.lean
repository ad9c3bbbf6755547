import Ddhcpd.Answers

/-!
When a request for an address of a block that nobody is known to hold is refused. The code
wants to refuse it once the node owns a block, as the learning phase is over then; but
`block_num_owned` looks at the first block in every pass.
-/

namespace Ddhcpd.OwnedCount
open Types Loop Leases Blocks Dhcp Node Answers

/-- The blocks of the node, each counted once. -/
def ownedBlocks (cfg : Settings) (c : Config) : List Nat :=
  (List.range cfg.blocks).filter fun k => (c.blocks k).state = .ours

/-- The node has a block. -/
def OwnsBlock (cfg : Settings) (c : Config) : Prop :=
  ∃ k < cfg.blocks, (c.blocks k).state = .ours

instance (cfg : Settings) (c : Config) : Decidable (OwnsBlock cfg c) :=
  inferInstanceAs (Decidable (∃ k < cfg.blocks, (c.blocks k).state = .ours))

def SendsNak (c after : Config) : Prop := ∃ reply got, .dhcp dhcpNak reply got ∈ sent c after

/-- There is memory for a NAK. -/
def NakMemory (env : Env) : Prop :=
  env.alloc .replyPacket = true ∧ env.alloc .replyOptions = true ∧ env.alloc .replyBuffer = true

section Counting
variable {cfg : Settings} {c : Config}

theorem owned_blocks_nil : ownedBlocks cfg c = [] ↔ ¬ OwnsBlock cfg c := by
  simp [ownedBlocks, OwnsBlock]

theorem block_num_owned_first (cfg : Settings) (c : Config) :
    blockNumOwned cfg c = if (c.blocks 0).state = .ours then cfg.blocks else 0 := by
  unfold blockNumOwned
  induction cfg.blocks with
  | zero => simp [loop]
  | succ count ih =>
      rw [loop, ih]
      split <;> rfl

/-- Where not every block is ours, the number is right only for a node without blocks. -/
theorem block_num_owned_right {position : Nat} (inside : position < cfg.blocks)
    (foreign : (c.blocks position).state ≠ .ours) :
    blockNumOwned cfg c = (ownedBlocks cfg c).length ↔ ¬ OwnsBlock cfg c := by
  have few : (ownedBlocks cfg c).length < cfg.blocks := by
    have left_out : ∃ k ∈ List.range cfg.blocks, ¬ decide ((c.blocks k).state = .ours) = true :=
      ⟨position, List.mem_range.mpr inside, by simp [foreign]⟩
    simpa [ownedBlocks] using List.length_filter_lt_length_iff_exists.mpr left_out
  rw [block_num_owned_first, ← owned_blocks_nil]
  split
  · rename_i first
    constructor
    · intro same
      omega
    · intro empty
      have member : 0 ∈ ownedBlocks cfg c :=
        List.mem_filter.mpr ⟨List.mem_range.mpr (by omega), by simp [first]⟩
      rw [empty] at member
      contradiction
  · rw [eq_comm, List.length_eq_zero_iff]

end Counting

section Refusals
variable {cfg : Settings} {env : Env} {c : Config} {request : DhcpPacket} {address : InAddr}

theorem silent_no_nak (c : Config) : ¬ SendsNak c c := by simp [SendsNak, sent]

theorem emitted_nak (reply : DhcpPacket) (got : Bool) :
    SendsNak c (c.emit (.dhcp dhcpNak reply got)) := by
  refine ⟨reply, got, ?_⟩
  rw [sent, emit_out, List.drop_left]
  exact List.mem_singleton_self _

theorem nack_sends_iff : SendsNak c (dhcpNack env request c).1 ↔ NakMemory env := by
  unfold dhcpNack
  split
  · rename_i starved
    constructor
    · intro sends
      exact absurd sends (silent_no_nak c)
    · rintro ⟨packet, options, -⟩
      simp [packet, options] at starved
  · rename_i memory
    simp only [not_or, Decidable.not_not] at memory
    simp only [dhcpPacketSend]
    split
    · rename_i buffer
      constructor
      · exact fun _ => ⟨memory.1, memory.2, buffer⟩
      · exact fun _ => emitted_nak _ _
    · rename_i starved
      constructor
      · intro sends
        exact absurd sends (silent_no_nak c)
      · exact fun there => absurd there.2.2 starved

/-- `dhcp_hdl_request` for a block that is neither ours nor claimed by another node. -/
theorem request_vacant (env : Env) (requested : requestedAddress request = some address)
    (known : (findLeaseFromAddress cfg c address).status ≠ 2)
    (foreign : (c.blocks (findLeaseFromAddress cfg c address).block).state ≠ .ours)
    (unclaimed : (c.blocks (findLeaseFromAddress cfg c address).block).state ≠ .claimed) :
    dhcpHdlRequest cfg env request c =
      some (if blockNumOwned cfg c > 0 then (dhcpNack env request c).1 else c, 2) := by
  simp only [dhcpHdlRequest, requested, known, foreign, unclaimed, ↓reduceIte]
  split <;> rfl

end Refusals

/-- The refusal is right for a node without blocks and, if there is memory for it, for a node
whose blocks include the first of the network; the number is right only for the former. -/
theorem nak_safe_iff {cfg : Settings} {c : Config} {request : DhcpPacket} {address : InAddr}
    (env : Env) (requested : requestedAddress request = some address)
    (known : (findLeaseFromAddress cfg c address).status ≠ 2)
    (foreign : (c.blocks (findLeaseFromAddress cfg c address).block).state ≠ .ours)
    (unclaimed : (c.blocks (findLeaseFromAddress cfg c address).block).state ≠ .claimed) :
    ∃ after, dhcpHdlRequest cfg env request c = some (after, 2) ∧
      ((SendsNak c after ↔ OwnsBlock cfg c) ∧
        blockNumOwned cfg c = (ownedBlocks cfg c).length ↔ ¬ OwnsBlock cfg c) ∧
      ((SendsNak c after ↔ OwnsBlock cfg c) ↔
        ¬ OwnsBlock cfg c ∨ (c.blocks 0).state = .ours ∧ NakMemory env) := by
  have inside := LeaseMoves.find_lease_inside known
  refine ⟨_, request_vacant env requested known foreign unclaimed, ?_⟩
  have number := block_num_owned_first cfg c
  have exactly := block_num_owned_right inside foreign
  by_cases first : (c.blocks 0).state = .ours
  · have owns : OwnsBlock cfg c := ⟨0, by omega, first⟩
    have positive : blockNumOwned cfg c > 0 := by
      rw [number, if_pos first]
      omega
    simp only [positive, ↓reduceIte, nack_sends_iff, exactly, owns, first, not_true_eq_false,
      and_false, iff_true, false_or, true_and, and_self]
  · have none_counted : ¬ blockNumOwned cfg c > 0 := by
      rw [number, if_neg first]
      exact Nat.lt_irrefl 0
    simp only [none_counted, ↓reduceIte, silent_no_nak, exactly, first, false_and, or_false,
      false_iff, and_self]

theorem nak_safe_iff_start : ∃ after : Config,
    dhcpHdlRequest pairNode (calmEnv 1010) (smallPacket 7 9 dhcpRequest) pairStart.config =
      some (after, 2) ∧
    (SendsNak pairStart.config after ↔ OwnsBlock pairNode pairStart.config) := by
  have named : requestedAddress (smallPacket 7 9 dhcpRequest) = some 0x0A000000 := rfl
  have known : (findLeaseFromAddress pairNode pairStart.config 0x0A000000).status ≠ 2 := by decide
  obtain ⟨after, done, exactly, -⟩ :=
    nak_safe_iff (calmEnv 1010) named known (by decide) (by decide)
  exact ⟨after, done, (exactly.mpr (by decide)).1⟩

def isNak : Output → Bool
  | .dhcp type _ _ => type = dhcpNak
  | _ => false

theorem sends_nak_any {c after : Config} (sends : SendsNak c after) :
    (sent c after).any isNak = true := by
  obtain ⟨reply, got, member⟩ := sends
  exact List.any_eq_true.mpr ⟨_, member, by simp [isNak]⟩

/-- The second block of the network is claimed, and the first one left free. -/
def secondRun : List (Env × Event) :=
  ownedRun.map fun label => ({ label.1 with rand := fun _ => 1 }, label.2)

-- The node owns a block, and a request for an address of the free one is not refused.
theorem nak_withheld : ∃ (s : NodeState) (after : Config), Reachable pairNode s ∧
    (s.config.blocks 0).state = .free ∧ (s.config.blocks 1).state = .ours ∧
    requestedAddress (smallPacket 7 9 dhcpRequest) = some 0x0A000000 ∧
    findLeaseFromAddress pairNode s.config 0x0A000000 = ⟨1, 0, 0⟩ ∧
    dhcpHdlRequest pairNode (calmEnv 1010) (smallPacket 7 9 dhcpRequest) s.config =
      some (after, 2) ∧
    NakMemory (calmEnv 1010) ∧ ¬ SendsNak s.config after ∧
    blockNumOwned pairNode s.config = 0 ∧ (ownedBlocks pairNode s.config).length = 1 := by
  have evaluated : (runEvents pairNode pairStart secondRun).any (fun s =>
      (dhcpHdlRequest pairNode (calmEnv 1010) (smallPacket 7 9 dhcpRequest) s.config).any
        fun result => (s.config.blocks 0).state = .free ∧ (s.config.blocks 1).state = .ours ∧
          findLeaseFromAddress pairNode s.config 0x0A000000 = ⟨1, 0, 0⟩ ∧ result.2 = 2 ∧
          (sent s.config result.1).any isNak = false ∧ blockNumOwned pairNode s.config = 0 ∧
          (ownedBlocks pairNode s.config).length = 1) = true := by decide +kernel
  obtain ⟨s, run, rest⟩ := (Option.any_eq_true _ _).mp evaluated
  obtain ⟨⟨after, value⟩, done, facts⟩ := (Option.any_eq_true _ _).mp rest
  obtain ⟨free, own, place, rfl, silent, number, one⟩ := of_decide_eq_true facts
  refine ⟨s, after, run_reachable run, free, own, rfl, place, done, ⟨rfl, rfl, rfl⟩, fun sends => ?_, number, one⟩
  rw [sends_nak_any sends] at silent
  contradiction

end Ddhcpd.OwnedCount

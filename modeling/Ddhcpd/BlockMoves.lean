import Ddhcpd.Node
import Ddhcpd.Refresh
import Mathlib.Logic.Relation

/-!
The rounds that the handlers of claims and inquiries are made of, one for each entry of
a packet that has an effect.
-/

namespace Ddhcpd.BlockMoves
open Types Blocks BlockPackets Packet Node Relation

/-- The entries of a packet that its handler looks at. -/
def entries (packet : McastPacket) : List BlockPayload :=
  packet.payload.take packet.count.toNat

def Names (packet : McastPacket) (position : Nat) : Prop :=
  ∃ entry ∈ entries packet, entry.blockIndex.toNat = position

instance (packet : McastPacket) (position : Nat) : Decidable (Names packet position) :=
  inferInstanceAs (Decidable (∃ entry ∈ entries packet, entry.blockIndex.toNat = position))

def conceded (env : Env) (packet : McastPacket) (sender : In6Addr) (claim : BlockPayload)
    (block : Block) : Block :=
  { block with
    state := .claimed
    timeout := env.now + claim.timeout.toNat
    ownerAddress := sender
    nodeId := packet.nodeId }

def deferred (cfg : Settings) (env : Env) (block : Block) : Block :=
  { block with state := .tentative, timeout := env.now + cfg.tentativeTimeout.toNat }

/-- The block is marked by a deadline of 0 and the update pass is run. -/
def defend (cfg : Settings) (env : Env) (position : Nat) (c : Config) : Config :=
  blockUpdateClaims cfg env (c.setBlock position { c.blocks position with timeout := 0 })

inductive BlockMove (cfg : Settings) (env : Env) (packet : McastPacket) (sender : In6Addr) :
    Config → Config → Prop where
  | concede {c : Config} {claim : BlockPayload} : packet.command = msgUpdateClaim →
      claim ∈ entries packet → claim.blockIndex.toNat < cfg.blocks →
      ((c.blocks claim.blockIndex.toNat).state = .ours →
        ¬ nodeIdCmp packet.nodeId cfg.nodeId < 0) →
      BlockMove cfg env packet sender c (c.setBlock claim.blockIndex.toNat
        (conceded env packet sender claim (c.blocks claim.blockIndex.toNat)))
  | defer {c : Config} {entry : BlockPayload} : packet.command = msgInquire →
      entry ∈ entries packet → entry.blockIndex.toNat < cfg.blocks →
      (c.blocks entry.blockIndex.toNat).state ≠ .ours →
      ((c.blocks entry.blockIndex.toNat).state = .claiming →
        0 < nodeIdCmp packet.nodeId cfg.nodeId) →
      BlockMove cfg env packet sender c (c.setBlock entry.blockIndex.toNat
        (deferred cfg env (c.blocks entry.blockIndex.toNat)))
  | defend {c : Config} {entry : BlockPayload} :
      (packet.command = msgUpdateClaim ∧ nodeIdCmp packet.nodeId cfg.nodeId < 0 ∨
        packet.command = msgInquire) →
      entry ∈ entries packet → entry.blockIndex.toNat < cfg.blocks →
      (c.blocks entry.blockIndex.toNat).state = .ours →
      BlockMove cfg env packet sender c (defend cfg env entry.blockIndex.toNat c)

def Moves (cfg : Settings) (env : Env) (packet : McastPacket) (sender : In6Addr) :
    Config → Config → Prop :=
  ReflTransGen (BlockMove cfg env packet sender)

section Handlers
variable {cfg : Settings} {env : Env} {packet : McastPacket} {sender : In6Addr} {c : Config}

theorem process_claim_moves {claim : BlockPayload} (kind : packet.command = msgUpdateClaim)
    (member : claim ∈ entries packet) :
    Moves cfg env packet sender c (processClaim cfg env packet sender c claim) := by
  unfold processClaim
  simp only
  split
  · exact .refl
  rename_i inside
  split
  · rename_i own
    exact .single (.defend (.inl ⟨kind, own.2⟩) member (Nat.lt_of_not_le inside) own.1)
  · rename_i weak
    exact .single (.concede kind member (Nat.lt_of_not_le inside) fun own less =>
      weak ⟨own, less⟩)

theorem process_inquire_moves {entry : BlockPayload} (kind : packet.command = msgInquire)
    (member : entry ∈ entries packet) :
    Moves cfg env packet sender c (processInquire cfg env packet c entry) := by
  unfold processInquire
  simp only
  split
  · exact .refl
  rename_i inside
  split
  · rename_i own
    exact .single (.defend (.inr kind) member (Nat.lt_of_not_le inside) own)
  rename_i foreign
  split
  · split
    · rename_i greater
      exact .single (.defer kind member (Nat.lt_of_not_le inside) foreign fun _ => greater)
    · exact .refl
  · rename_i idle
    exact .single (.defer kind member (Nat.lt_of_not_le inside) foreign fun claiming =>
      absurd claiming idle)

theorem fold_moves {Entry : Type} (body : Config → Entry → Config) (list : List Entry)
    (each : ∀ entry ∈ list, ∀ c, Moves cfg env packet sender c (body c entry)) :
    Moves cfg env packet sender c (list.foldl body c) := by
  induction list generalizing c with
  | nil => exact .refl
  | cons entry rest ih =>
      have first := each entry List.mem_cons_self c
      exact first.trans (ih fun other member => each other (List.mem_cons_of_mem _ member))

theorem dispatch_moves :
    Moves cfg env packet sender c (ddhcpBlockDispatch cfg env packet sender c) := by
  unfold ddhcpBlockDispatch
  split
  · exact .refl
  split
  · rename_i kind
    exact fold_moves _ _ fun _ member _ => process_claim_moves kind member
  split
  · rename_i kind
    exact fold_moves _ _ fun _ member _ => process_inquire_moves kind member
  · exact .refl

end Handlers

end Ddhcpd.BlockMoves

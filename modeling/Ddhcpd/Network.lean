import Ddhcpd.Hearing
import Mathlib.Data.List.FinRange

/-!
A swarm of nodes and the packets under way between them. What a node sends to all nodes
is put into one envelope for every other node, as multicast packets are not looped back;
an envelope may arrive at any time, in any order. The network carries packets as their
handlers see them, decoded.
-/

namespace Ddhcpd.Network
open Types Blocks BlockPackets BlockMoves Packet Node Refresh Invariant Defence Deadlines Hearing

variable {count : Nat}

/-- Nodes of one network, told apart by their identifiers. -/
structure Swarm (count : Nat) where
  settings : Fin count → Settings
  address : Fin count → In6Addr
  distinct : Function.Injective fun node => (settings node).nodeId
  prefixAddr : ∀ a b, (settings a).prefixAddr = (settings b).prefixAddr
  prefixLen : ∀ a b, (settings a).prefixLen = (settings b).prefixLen
  blockSize : ∀ a b, (settings a).blockSize = (settings b).blockSize
  numberOfBlocks : ∀ a b, (settings a).numberOfBlocks = (settings b).numberOfBlocks

def Swarm.rank (swarm : Swarm count) (node : Fin count) : Nat := nodeRank (swarm.settings node).nodeId

structure Envelope (count : Nat) where
  source : Fin count
  dest : Fin count
  packet : McastPacket

/-- The nodes share one clock. -/
structure Net (count : Nat) where
  clock : Time
  config : Fin count → Config
  inFlight : List (Envelope count)

def carried : Output → Option McastPacket
  | .mcast packet true => some packet
  | _ => none

/-- The packets to all nodes that were sent on the way to a later state. -/
def spoken (before after : Config) : List McastPacket := (sent before after).filterMap carried

def broadcast (source : Fin count) (packets : List McastPacket) : List (Envelope count) :=
  packets.flatMap fun packet =>
    ((List.finRange count).filter (· ≠ source)).map fun dest => ⟨source, dest, packet⟩

/-- A node has moved on, and what it has sent is under way along with `rest`. -/
def Net.move (s : Net count) (node : Fin count) (now : Time) (rest : List (Envelope count))
    (after : Config) : Net count where
  clock := now
  config := Function.update s.config node after
  inFlight := rest ++ broadcast node (spoken (s.config node) after)

def received (swarm : Swarm count) (env : Env) (envelope : Envelope count) (c : Config) : Config :=
  ddhcpBlockDispatch (swarm.settings envelope.dest) env envelope.packet
    (swarm.address envelope.source) c

/-- An envelope arrives. The label names the receiver and the packets it answers with. -/
inductive Delivers (swarm : Swarm count) :
    Net count → Fin count × List McastPacket → Net count → Prop where
  | arrive {s : Net count} {front back : List (Envelope count)} {envelope : Envelope count}
      {after : Config} (env : Env) : s.inFlight = front ++ envelope :: back →
      s.clock ≤ env.now → Multicasts env →
      received swarm env envelope (s.config envelope.dest) = after →
      Delivers swarm s (envelope.dest, spoken (s.config envelope.dest) after)
        (s.move envelope.dest env.now (front ++ back) after)

/-- Memory lasts and every packet to all nodes is sent. -/
def Flawless (env : Env) : Prop := (∀ call, env.alloc call = true) ∧ ∀ call, env.mcastSent call = true

theorem flawless_multicasts {env : Env} (flawless : Flawless env) : Multicasts env :=
  ⟨flawless.2, fun _ => ⟨flawless.1 _, flawless.1 _⟩⟩

inductive Move (count : Nat) where
  | deliver (answer : Fin count × List McastPacket)
  | act (node : Fin count) (env : Env) (event : Event)

/-- The swarm with multicasts that arrive before anything else happens: a node handles
an event of its own only when nothing is under way. -/
inductive Step (swarm : Swarm count) : Net count → Move count → Net count → Prop where
  | deliver {s t : Net count} {answer : Fin count × List McastPacket} :
      Delivers swarm s answer t → Step swarm s (.deliver answer) t
  | act {s : Net count} {after : Config} (node : Fin count) (env : Env) (event : Event) :
      s.inFlight = [] → s.clock ≤ env.now → Flawless env →
      (∀ buffer len sender, event ≠ .mcast buffer len sender) →
      handle (swarm.settings node) env event (s.config node) = some after →
      Step swarm s (.act node env event) (s.move node env.now [] after)

section Packets
variable {source : Fin count} {packets : List McastPacket} {cfg : Settings} {c before after : Config}

theorem mem_broadcast (envelope : Envelope count) : envelope ∈ broadcast source packets ↔
    envelope.source = source ∧ envelope.dest ≠ source ∧ envelope.packet ∈ packets := by
  simp only [broadcast, List.mem_flatMap, List.mem_map, List.mem_filter, List.mem_finRange,
    true_and, decide_eq_true_eq]
  constructor
  · rintro ⟨packet, member, dest, other, rfl⟩
    exact ⟨rfl, other, member⟩
  · rintro ⟨rfl, other, member⟩
    exact ⟨envelope.packet, member, envelope.dest, other, rfl⟩

/-- Every packet is put into as many envelopes as there are other nodes. -/
theorem broadcast_length : (broadcast source packets).length =
    packets.length * ((List.finRange count).filter (· ≠ source)).length := by
  simp [broadcast, List.length_flatMap]

theorem broadcast_few : (broadcast source packets).length ≤ packets.length * count := by
  rw [broadcast_length]
  apply Nat.mul_le_mul_left
  simpa using List.length_filter_le (fun node => decide (node ≠ source)) (List.finRange count)

theorem broadcast_many {other : Fin count} (different : other ≠ source) :
    packets.length ≤ (broadcast source packets).length := by
  rw [broadcast_length]
  apply Nat.le_mul_of_pos_right
  exact List.length_pos_of_mem (List.mem_filter.mpr ⟨List.mem_finRange other, by simpa using different⟩)

theorem mem_spoken (packet : McastPacket) :
    packet ∈ spoken before after ↔ .mcast packet true ∈ sent before after := by
  simp only [spoken, List.mem_filterMap]
  constructor
  · rintro ⟨output, member, carries⟩
    unfold carried at carries
    split at carries
    · cases carries
      exact member
    · contradiction
  · intro member
    exact ⟨_, member, rfl⟩

theorem told_spoken {position : Nat} (told : Told before after position) :
    ∃ packet ∈ spoken before after, packet.command = msgUpdateClaim ∧ Names packet position := by
  rcases told with ⟨outs, packet, out, member, about⟩
  refine ⟨packet, (mem_spoken packet).mpr ?_, about⟩
  simpa [sent, out] using member

theorem own_spoken (claims : Emits (ownClaim cfg c) before after) {packet : McastPacket}
    (member : packet ∈ spoken before after) : OfNode cfg packet ∧
      packet.command = msgUpdateClaim ∧ ∀ position, Names packet position → OursAt cfg c position :=
  emits_sent claims ((mem_spoken packet).mp member)

theorem silent_spoken (silent : after.out = before.out) : spoken before after = [] := by
  simp [spoken, sent, silent]

end Packets

section Swarms
variable (swarm : Swarm count)

theorem rank_injective : Function.Injective swarm.rank :=
  node_rank_injective.comp swarm.distinct

theorem swarm_blocks (a b : Fin count) : (swarm.settings a).blocks = (swarm.settings b).blocks := by
  rw [Settings.blocks, Settings.blocks, swarm.numberOfBlocks a b]

variable {swarm}

/-- Nodes of the swarm do not drop each other's packets. -/
theorem of_node_readable {a : Fin count} (b : Fin count) {packet : McastPacket}
    (header : OfNode (swarm.settings a) packet)
    (kind : packet.command = msgUpdateClaim ∨ packet.command = msgInquire) :
    Readable (swarm.settings b) packet := by
  rcases header with ⟨-, prefixAddr, prefixLen, blocksize⟩
  refine ⟨?_, kind⟩
  simp [foreign, prefixAddr, prefixLen, blocksize, swarm.prefixAddr a b, swarm.prefixLen a b,
    swarm.blockSize a b]

theorem of_node_less {a b : Fin count} {packet : McastPacket}
    (header : OfNode (swarm.settings a) packet) :
    nodeIdCmp packet.nodeId (swarm.settings b).nodeId < 0 ↔ swarm.rank a < swarm.rank b := by
  rw [header.1]
  exact node_id_cmp_neg_iff _ _

theorem of_node_greater {a b : Fin count} {packet : McastPacket}
    (header : OfNode (swarm.settings a) packet) :
    0 < nodeIdCmp packet.nodeId (swarm.settings b).nodeId ↔ swarm.rank b < swarm.rank a := by
  rw [header.1]
  exact node_id_cmp_pos_iff _ _

end Swarms

/-! Two nodes of a network of one block. -/

def smallSwarm : Swarm 2 where
  settings node := smallNode (UInt8.ofNat (node.val + 1))
  address node := ⟨UInt8.ofNat (node.val + 1) :: List.replicate 15 0, rfl⟩
  distinct := by
    show ∀ a b : Fin 2, _ → _
    decide
  prefixAddr _ _ := rfl
  prefixLen _ _ := rfl
  blockSize _ _ := rfl
  numberOfBlocks _ _ := rfl

end Ddhcpd.Network

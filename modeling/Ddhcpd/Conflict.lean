import Ddhcpd.Escalation
import Ddhcpd.Network
import Mathlib.Data.Fintype.Card
import Mathlib.Data.Finset.Max

/-!
Several nodes hold one block and each has told the others. A claim is answered by greater
nodes only, so the exchange stops; the greatest holder keeps the block and all the other
holders concede it, in whatever order the packets arrive.
-/

namespace Ddhcpd.Conflict
open Types Blocks BlockPackets BlockMoves Packet Node Path Refresh Invariant Defence Deadlines
open Hearing Network Escalation

variable {count : Nat} {swarm : Swarm count} {position : Nat}

def Holds (swarm : Swarm count) (position : Nat) (s : Net count) (node : Fin count) : Prop :=
  OursAt (swarm.settings node) (s.config node) position

/-- All that is under way are claims of nodes of the swarm. -/
structure Claims (swarm : Swarm count) (s : Net count) : Prop where
  indexed : ∀ node, Indexed (swarm.settings node) (s.config node)
  other : ∀ envelope ∈ s.inFlight, envelope.source ≠ envelope.dest
  claim : ∀ envelope ∈ s.inFlight, envelope.packet.command = msgUpdateClaim ∧
    OfNode (swarm.settings envelope.source) envelope.packet

/-- Some nodes hold the block. A claim of each of them that names it is under way to every
other node, and nothing but claims of theirs is. -/
structure Contest (swarm : Swarm count) (position : Nat) (s : Net count) : Prop where
  claims : Claims swarm s
  held : ∃ node, Holds swarm position s node
  holders : ∀ envelope ∈ s.inFlight, Holds swarm position s envelope.source
  told : ∀ holder, Holds swarm position s holder → ∀ other, holder ≠ other →
    ∃ envelope ∈ s.inFlight, envelope.source = holder ∧ envelope.dest = other ∧
      Names envelope.packet position

section Arrivals
variable {s : Net count} {front back : List (Envelope count)} {envelope : Envelope count}
  {env : Env} {after : Config}

/-- What the arrival of a claim does to its receiver. -/
structure Arrived (swarm : Swarm count) (s : Net count) (envelope : Envelope count) (now : Time)
    (after : Config) : Prop where
  indexed : Indexed (swarm.settings envelope.dest) after
  ours : ∀ position, OursAt (swarm.settings envelope.dest) after position →
    Holds swarm position s envelope.dest
  own : Emits (ownClaim (swarm.settings envelope.dest) (s.config envelope.dest))
    (s.config envelope.dest) after
  silent : ¬ swarm.rank envelope.source < swarm.rank envelope.dest →
    after.out = (s.config envelope.dest).out
  few : (sent (s.config envelope.dest) after).length ≤ 255 * (swarm.settings envelope.dest).blocks
  cell : ∀ position < (swarm.settings envelope.dest).blocks, cellOf (after.blocks position) =
    if Names envelope.packet position
    then heardCell (swarm.settings envelope.dest) now envelope.packet
      (cellOf ((s.config envelope.dest).blocks position))
    else cellOf ((s.config envelope.dest).blocks position)

theorem claims_arrived (claims : Claims swarm s) (member : envelope ∈ s.inFlight)
    (result : received swarm env envelope (s.config envelope.dest) = after) :
    Arrived swarm s envelope env.now after := by
  subst result
  rcases claims.claim envelope member with ⟨kind, header⟩
  have readable := of_node_readable envelope.dest header (.inl kind)
  have indexed := claims.indexed envelope.dest
  have moves : BlockMoves.Moves (swarm.settings envelope.dest) env envelope.packet
      (swarm.address envelope.source) (s.config envelope.dest)
      (received swarm env envelope (s.config envelope.dest)) := dispatch_moves
  rcases block_moves_kept indexed moves with ⟨kept, ours⟩
  refine ⟨kept, ours, block_moves_own indexed moves, fun weaker => ?_,
    dispatch_few readable indexed, fun position inside => dispatch_cell readable indexed inside⟩
  apply block_moves_silent _ moves
  rintro (inquire | ⟨-, less⟩)
  · exact absurd (inquire.symm.trans kind) (by decide)
  · exact weaker ((of_node_less header).mp less)

theorem kept_in_flight {other : Envelope count} (pool : s.inFlight = front ++ envelope :: back)
    (member : other ∈ front ++ back) : other ∈ s.inFlight := by
  rw [pool]
  rcases List.mem_append.mp member with before | later
  · exact List.mem_append_left _ before
  · exact List.mem_append_right _ (List.mem_cons_of_mem _ later)

theorem still_in_flight {other : Envelope count} (pool : s.inFlight = front ++ envelope :: back)
    (member : other ∈ s.inFlight) (different : other ≠ envelope) : other ∈ front ++ back := by
  rw [pool] at member
  rcases List.mem_append.mp member with before | later
  · exact List.mem_append_left _ before
  · exact List.mem_append_right _ ((List.mem_cons.mp later).resolve_left different)

theorem arrived_in_flight (pool : s.inFlight = front ++ envelope :: back) :
    envelope ∈ s.inFlight := by simp [pool]

theorem claims_kept {l : Fin count × List McastPacket} {t : Net count} (claims : Claims swarm s)
    (delivers : Delivers swarm s l t) : Claims swarm t := by
  cases delivers with
  | @arrive front back envelope after env pool later sends result =>
      have arrived := claims_arrived claims (arrived_in_flight pool) result
      refine ⟨fun node => ?_, fun other member => ?_, fun other member => ?_⟩
      · by_cases here : node = envelope.dest
        · subst here
          simpa [Net.move] using arrived.indexed
        · simpa [Net.move, here] using claims.indexed node
      · rcases List.mem_append.mp member with old | new
        · exact claims.other other (kept_in_flight pool old)
        · rcases (mem_broadcast other).mp new with ⟨source, dest, -⟩
          exact source ▸ dest.symm
      · rcases List.mem_append.mp member with old | new
        · exact claims.claim other (kept_in_flight pool old)
        · rcases (mem_broadcast other).mp new with ⟨source, -, told⟩
          rcases own_spoken arrived.own told with ⟨header, kind, -⟩
          exact ⟨kind, source ▸ header⟩

end Arrivals

/-! The exchange stops. -/

/-- The number of nodes that could still answer a claim. -/
def answerers (swarm : Swarm count) (envelope : Envelope count) : Nat :=
  (Finset.univ.filter fun node => swarm.rank envelope.source < swarm.rank node).card

theorem answerers_lower {claim answer : Envelope count}
    (greater : swarm.rank claim.source < swarm.rank answer.source) :
    answerers swarm answer < answerers swarm claim := by
  apply Finset.card_lt_card
  rw [Finset.ssubset_iff_of_subset]
  · exact ⟨answer.source, by simpa using greater, by simp⟩
  · intro node member
    simp only [Finset.mem_filter, Finset.mem_univ, true_and] at member ⊢
    exact Nat.lt_trans greater member

/-- Room for all answers to one claim. -/
def answerBase (count blocks : Nat) : Nat := 2 * (255 * blocks * count) + 1

theorem delivers_replaces {s t : Net count} {l : Fin count × List McastPacket}
    (claims : Claims swarm s) (node : Fin count) (delivers : Delivers swarm s l t) :
    Replaces (answerBase count (swarm.settings node).blocks) (answerers swarm)
      (broadcast l.1 l.2) s.inFlight t.inFlight := by
  cases delivers with
  | @arrive front back envelope after env pool later sends result =>
      have arrived := claims_arrived claims (arrived_in_flight pool) result
      refine ⟨front, envelope, back, pool, rfl, fun other member => ?_, ?_⟩
      · rcases (mem_broadcast other).mp member with ⟨source, -, told⟩
        apply answerers_lower
        rw [source]
        by_contra weaker
        rw [silent_spoken (arrived.silent weaker)] at told
        simp at told
      · have few := arrived.few
        rw [swarm_blocks swarm envelope.dest node] at few
        have carries : (spoken (s.config envelope.dest) after).length ≤ _ :=
          List.length_filterMap_le carried _
        have envelopes : (broadcast envelope.dest (spoken (s.config envelope.dest) after)).length ≤
            (spoken (s.config envelope.dest) after).length * count := broadcast_few
        have grown := Nat.mul_le_mul_right count (Nat.le_trans carries few)
        simp only [answerBase]
        omega

/-- Every packet is put into an envelope. -/
theorem packets_few {s t : Net count} {labels : List (Fin count × List McastPacket)}
    (path : Path (fun s l t => Claims swarm s ∧ Delivers swarm s l t) s labels t) :
    (labels.flatMap Prod.snd).length ≤ (labels.flatMap fun l => broadcast l.1 l.2).length := by
  induction path with
  | refl => simp
  | next move _ ih =>
      rcases move with ⟨claims, delivers⟩
      cases delivers with
      | @arrive front back envelope after env pool later sends result =>
          have other := claims.other envelope (arrived_in_flight pool)
          simp only [List.flatMap_cons, List.length_append]
          exact Nat.add_le_add (broadcast_many other) ih

theorem exchange_stops {s : Net count} (claims : Claims swarm s) (node : Fin count) :
    ∃ bound, ∀ labels t, Path (Delivers swarm) s labels t →
      (labels.flatMap Prod.snd).length + labels.length ≤ bound := by
  refine ⟨weight (answerBase count (swarm.settings node).blocks) (answerers swarm) s.inFlight, ?_⟩
  intro labels t path
  have lawful := path_holding (Claims swarm) (fun _ _ _ => claims_kept) path claims
  have paid := path_weight Net.inFlight (fun l => broadcast l.1 l.2)
    (fun s l t step => delivers_replaces step.1 node step.2) lawful
  have few := packets_few lawful
  omega

/-! The greatest holder wins. -/

/-- `winner` is on its way to be the only one of `holders` that holds the block. -/
structure Prevails (swarm : Swarm count) (position : Nat) (holders : Fin count → Prop)
    (winner : Fin count) (s : Net count) : Prop where
  claims : Claims swarm s
  members : ∀ envelope ∈ s.inFlight, Names envelope.packet position → holders envelope.source
  inside : ∀ node, Holds swarm position s node → holders node
  holds : Holds swarm position s winner
  yields : ∀ node, holders node → node ≠ winner →
    ((s.config node).blocks position).state = .claimed ∨
      ∃ envelope ∈ s.inFlight, envelope.source = winner ∧ envelope.dest = node ∧
        Names envelope.packet position

section Contests
variable {holders : Fin count → Prop} {winner : Fin count} {s : Net count}
  {front back : List (Envelope count)} {envelope : Envelope count} {now : Time} {after : Config}

/-- A claim is ignored by a greater holder; anybody else takes the block for foreign. -/
theorem claimed_cell (claims : Claims swarm s) (member : envelope ∈ s.inFlight)
    (arrived : Arrived swarm s envelope now after)
    (inside : position < (swarm.settings envelope.dest).blocks) :
    cellOf (after.blocks position) =
      if Names envelope.packet position then
        if cellOf ((s.config envelope.dest).blocks position) = .held ∧
          swarm.rank envelope.source < swarm.rank envelope.dest then .held else .foreign
      else cellOf ((s.config envelope.dest).blocks position) := by
  rcases claims.claim envelope member with ⟨kind, header⟩
  have noInquiry : envelope.packet.command ≠ msgInquire := by
    rw [kind]
    decide
  simpa only [heardCell, if_neg noInquiry, of_node_less header] using arrived.cell position inside

/-- Whoever names the block is smaller than the winner, who defends it. -/
theorem winner_defends
    (greatest : ∀ node, holders node → swarm.rank node ≤ swarm.rank envelope.dest)
    (prevails : Prevails swarm position holders envelope.dest s) (member : envelope ∈ s.inFlight)
    (arrived : Arrived swarm s envelope now after) : (after.blocks position).state = .ours := by
  have own := cell_of_own prevails.holds.2
  have greater (names : Names envelope.packet position) :
      swarm.rank envelope.source < swarm.rank envelope.dest := by
    have apart : swarm.rank envelope.source ≠ swarm.rank envelope.dest := fun same =>
      prevails.claims.other envelope member (rank_injective swarm same)
    exact Nat.lt_of_le_of_ne (greatest _ (prevails.members envelope member names)) apart
  apply (cell_held_iff _).mp
  rw [claimed_cell prevails.claims member arrived prevails.holds.1]
  split
  · rename_i names
    exact if_pos ⟨own, greater names⟩
  · exact own

/-- A holder that hears of the winner concedes, and then never takes the block back. -/
theorem holder_yields (greatest : ∀ node, holders node → swarm.rank node ≤ swarm.rank winner)
    (prevails : Prevails swarm position holders winner s)
    (pool : s.inFlight = front ++ envelope :: back) (arrived : Arrived swarm s envelope now after)
    (member : holders envelope.dest) (different : envelope.dest ≠ winner) :
    (after.blocks position).state = .claimed ∨ ∃ other ∈ front ++ back,
      other.source = winner ∧ other.dest = envelope.dest ∧ Names other.packet position := by
  have inside : position < (swarm.settings envelope.dest).blocks :=
    swarm_blocks swarm winner envelope.dest ▸ prevails.holds.1
  have cell := claimed_cell prevails.claims (arrived_in_flight pool) arrived inside
  by_cases heard : envelope.source = winner ∧ Names envelope.packet position
  · left
    have notLess : ¬ swarm.rank envelope.source < swarm.rank envelope.dest := by
      rw [heard.1]
      exact Nat.not_lt.mpr (greatest _ member)
    apply (cell_foreign_iff _).mp
    rw [cell, if_pos heard.2]
    exact if_neg fun defended => notLess defended.2
  · rcases prevails.yields _ member different with claimed | ⟨other, there, source, dest, names⟩
    · left
      apply (cell_foreign_iff _).mp
      rw [cell, (cell_foreign_iff _).mpr claimed]
      simp
    · right
      refine ⟨other, still_in_flight pool there ?_, source, dest, names⟩
      rintro rfl
      exact heard ⟨source, names⟩

theorem prevails_kept {t : Net count} {l : Fin count × List McastPacket}
    (greatest : ∀ node, holders node → swarm.rank node ≤ swarm.rank winner)
    (prevails : Prevails swarm position holders winner s) (delivers : Delivers swarm s l t) :
    Prevails swarm position holders winner t := by
  have claims := claims_kept prevails.claims delivers
  cases delivers with
  | @arrive front back envelope after env pool later sends result =>
      have arrives := arrived_in_flight pool
      have arrived := claims_arrived prevails.claims arrives result
      constructor
      case claims => exact claims
      case members =>
        intro other member names
        rcases List.mem_append.mp member with old | new
        · exact prevails.members other (kept_in_flight pool old) names
        · rcases (mem_broadcast other).mp new with ⟨source, -, told⟩
          rcases own_spoken arrived.own told with ⟨-, -, own⟩
          rw [source]
          exact prevails.inside _ (own position names)
      case inside =>
        intro node holds
        by_cases here : node = envelope.dest
        · subst here
          exact prevails.inside _ (arrived.ours position (by simpa [Holds, Net.move] using holds))
        · exact prevails.inside node (by simpa [Holds, Net.move, here] using holds)
      case holds =>
        by_cases here : winner = envelope.dest
        · subst here
          refine ⟨prevails.holds.1, ?_⟩
          simpa [Net.move] using winner_defends greatest prevails arrives arrived
        · simpa [Holds, Net.move, here] using prevails.holds
      case yields =>
        intro node member different
        by_cases here : node = envelope.dest
        · subst here
          rcases holder_yields greatest prevails pool arrived member different with
            claimed | ⟨other, there, about⟩
          · exact .inl (by simpa [Net.move] using claimed)
          · exact .inr ⟨other, List.mem_append_left _ there, about⟩
        · rcases prevails.yields node member different with claimed | ⟨other, there, source, dest, names⟩
          · left
            simpa [Net.move, here] using claimed
          · right
            refine ⟨other, List.mem_append_left _ (still_in_flight pool there ?_), source, dest, names⟩
            rintro rfl
            exact here dest.symm

end Contests

theorem contest_prevails {s : Net count} (contest : Contest swarm position s) :
    ∃ winner, (∀ node, Holds swarm position s node → swarm.rank node ≤ swarm.rank winner) ∧
      Prevails swarm position (Holds swarm position s) winner s := by
  classical
  rcases contest.held with ⟨node, holds⟩
  have some_holder : (Finset.univ.filter (Holds swarm position s)).Nonempty :=
    ⟨node, by simpa using holds⟩
  rcases Finset.exists_max_image _ swarm.rank some_holder with ⟨winner, member, greatest⟩
  simp only [Finset.mem_filter, Finset.mem_univ, true_and] at member greatest
  refine ⟨winner, greatest, contest.claims, fun envelope there _ => contest.holders envelope there,
    fun _ => id, member, fun other _ different => .inr ?_⟩
  exact contest.told winner member other different.symm

/-- The only holder left is the greatest one, and the others know. -/
def Settled (swarm : Swarm count) (position : Nat) (s t : Net count) : Prop :=
  ∃ winner, Holds swarm position s winner ∧
    (∀ node, Holds swarm position t node ↔ node = winner) ∧
    ∀ node, Holds swarm position s node → node ≠ winner →
      nodeIdCmp (swarm.settings node).nodeId (swarm.settings winner).nodeId < 0 ∧
        ((t.config node).blocks position).state = .claimed

/-- The exchange stops, and then the conflict is settled. -/
theorem conflict_settles {s : Net count} (contest : Contest swarm position s) :
    (∃ bound, ∀ labels t, Path (Delivers swarm) s labels t →
      (labels.flatMap Prod.snd).length + labels.length ≤ bound) ∧
    ∀ labels t, Path (Delivers swarm) s labels t → t.inFlight = [] →
      Settled swarm position s t := by
  rcases contest_prevails contest with ⟨winner, greatest, prevails⟩
  refine ⟨exchange_stops contest.claims winner, fun labels t path silent => ?_⟩
  have final := path_invariant (Prevails swarm position (Holds swarm position s) winner)
    (fun _ _ _ kept delivers => prevails_kept greatest kept delivers) path prevails
  have conceded (node : Fin count) (member : Holds swarm position s node)
      (different : node ≠ winner) : ((t.config node).blocks position).state = .claimed := by
    rcases final.yields node member different with claimed | ⟨envelope, there, -⟩
    · exact claimed
    · simp [silent] at there
  refine ⟨winner, prevails.holds, fun node => ⟨fun holds => ?_, fun same => same ▸ final.holds⟩,
    fun node member different => ⟨?_, conceded node member different⟩⟩
  · by_contra different
    have claimed := conceded node (final.inside node holds) different
    exact absurd (holds.2.symm.trans claimed) (by decide)
  · rw [node_id_cmp_neg_iff]
    apply Nat.lt_of_le_of_ne (greatest node member)
    exact fun same => different (rank_injective swarm same)

/-- Both nodes hold the block, and their claims are under way. -/
def smallContest : Net 2 where
  clock := 1000
  config node := { startConfig (smallSwarm.settings node) 1000 [] with
    blocks := fun k => { freshBlock (smallSwarm.settings node) 1000 k with state := .ours } }
  inFlight := [⟨0, 1, updateClaimPacket (smallSwarm.settings 0) [⟨0, 60, 0⟩]⟩,
    ⟨1, 0, updateClaimPacket (smallSwarm.settings 1) [⟨0, 60, 0⟩]⟩]

theorem small_contest : Contest smallSwarm 0 smallContest where
  claims := {
    indexed := by
      intro node position inside
      have first : position = 0 := Nat.lt_one_iff.mp inside
      rw [first]
      rfl
    other := by simp [smallContest]
    claim := by
      simp only [smallContest, List.mem_cons, List.not_mem_nil, or_false, forall_eq_or_imp, forall_eq]
      exact ⟨⟨rfl, rfl, rfl, rfl, rfl⟩, rfl, rfl, rfl, rfl, rfl⟩ }
  held := ⟨0, by decide, rfl⟩
  holders envelope _ := ⟨by show 0 < 1; decide, rfl⟩
  told := by
    have both : ∀ holder other : Fin 2, holder ≠ other → ∃ envelope ∈ smallContest.inFlight,
        envelope.source = holder ∧ envelope.dest = other ∧ Names envelope.packet 0 := by
      decide +kernel
    exact fun holder _ => both holder

theorem conflict_settles_small : (∃ bound, ∀ labels t,
      Path (Delivers smallSwarm) smallContest labels t →
      (labels.flatMap Prod.snd).length + labels.length ≤ bound) ∧
    ∀ labels t, Path (Delivers smallSwarm) smallContest labels t → t.inFlight = [] →
      Settled smallSwarm 0 smallContest t :=
  conflict_settles small_contest

end Ddhcpd.Conflict

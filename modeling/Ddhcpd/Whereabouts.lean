import Ddhcpd.Exclusion
import Ddhcpd.LastClaim

/-!
Where the blocks are. Claims are sent by nodes that hold what they claim, and a node that
starts to hold a block has made the others forget who had it. So a node that takes a block
for claimed while some node holds it has that node on record, and what it asks for on
behalf of a client goes there.
-/

namespace Ddhcpd.Whereabouts
open Types Leases Blocks BlockPackets BlockMoves Packet Dhcp Node Path Refresh Claim Invariant Calls
open Defence Deadlines Hearing Network Conflict Exclusion LastClaim DirectSends
open Arbitration (Cell Guarded)

variable {count : Nat} {swarm : Swarm count} {position : Nat} {s t : Net count} {env : Env}
  {node : Fin count} {after : Config}

/-- The block is on record as held by the node. -/
def Points (swarm : Swarm count) (block : Block) (holder : Fin count) : Prop :=
  block.nodeId = (swarm.settings holder).nodeId ∧ block.ownerAddress = swarm.address holder

/-- What the nodes know of the holder of a block. -/
structure Known (swarm : Swarm count) (position : Nat) (s : Net count) : Prop where
  backed : ∀ x y, Under msgUpdateClaim position s.inFlight x y → (view position s).cell x = .held
  asked : ∀ x deadline, (view position s).cell x = .trying deadline → s.clock ≤ deadline →
    (∃ z, Under msgUpdateClaim position s.inFlight z x) ∨ ∀ y, y ≠ x →
      Under msgInquire position s.inFlight x y ∨ (view position s).cell y ≠ .foreign
  recorded : ∀ x, (view position s).cell x = .held → ∀ y, (view position s).cell y = .foreign →
    Points swarm ((s.config y).blocks position) x

theorem idle_known (idle : Idle swarm s) (inside : ∀ node, position < (swarm.settings node).blocks) :
    Known swarm position s := by
  have free (x : Fin count) : (view position s).cell x = .idle := by
    simp [view, cellOf, idle.free x position (inside x)]
  constructor
  · rintro x y ⟨envelope, member, -⟩
    simp [idle.silent] at member
  · intro x deadline trying
    simp [free] at trying
  · intro x held
    simp [free] at held

theorem points_record {block other : Block} {holder : Fin count}
    (same : recordOf other = recordOf block) (points : Points swarm block holder) :
    Points swarm other holder :=
  ⟨(congrArg (fun record => record.1) same).trans points.1,
    (congrArg (fun record => record.2.1) same).trans points.2⟩

section Moves
variable {now : Time} {rest : List (Envelope count)}

theorem moved_same : (s.move node now rest after).config node = after := by simp [Net.move]

theorem moved_other {other : Fin count} (different : other ≠ node) :
    (s.move node now rest after).config other = s.config other := by simp [Net.move, different]

theorem cell_same : (view position (s.move node now rest after)).cell node =
    cellOf (after.blocks position) := by
  simp only [view, moved_same]

theorem cell_other {other : Fin count} (different : other ≠ node) :
    (view position (s.move node now rest after)).cell other = (view position s).cell other := by
  simp only [view, moved_other different]

theorem under_moved {kind : UInt8} {x y : Fin count} :
    Under kind position (s.move node now rest after).inFlight x y ↔ Under kind position rest x y ∨
      x = node ∧ y ≠ node ∧ Speaks kind position (spoken (s.config node) after) :=
  under_broadcast

end Moves

/-! House keeping. -/

/-- What a run of house keeping does to the node's part in the arbitration over a block. -/
inductive Turned (swarm : Swarm count) (position : Nat) (s : Net count) (node : Fin count) (env : Env)
    (after : Config) : Prop where
  | same : cellOf (after.blocks position) = (view position s).cell node →
      Turned swarm position s node env after
  | drop : cellOf (after.blocks position) = .idle → Turned swarm position s node env after
  | begin (deadline : Time) : cellOf (after.blocks position) = .trying deadline →
      Speaks msgInquire position (spoken (s.config node) after) →
      Turned swarm position s node env after
  | hold (deadline : Time) : (view position s).cell node = .trying deadline → env.now ≤ deadline →
      cellOf (after.blocks position) = .held → Turned swarm position s node env after

theorem house_keeping_turned (good : Good (swarm.settings node) (s.config node))
    (inside : position < (swarm.settings node).blocks) (flawless : Flawless env)
    (orderly : Orderly swarm s (.act node env .houseKeeping))
    (done : houseKeeping (swarm.settings node) env (s.config node) = some after) :
    Turned swarm position s node env after ∧
      (Speaks msgUpdateClaim position (spoken (s.config node) after) →
        cellOf (after.blocks position) = .held) := by
  obtain ⟨middle, adjusted, check, middleGood, adjust, adjustedGood, blocks, emits, spoken_eq, spoken_sub,
    -⟩ := house_keeping_parts good done
  have cell : cellOf (after.blocks position) = cellOf (adjusted.blocks position) := by
    rw [blocks]
    exact update_claims_cell (sound_indexed adjustedGood.sound)
  have swept : Swept position env.now (s.config node) middle := check_swept good inside check
  have adjusts : Adjusts (swarm.settings node) env middle adjusted position :=
    adjust_adjusts flawless middleGood (orderly middle check).1 adjust
  constructor
  · cases adjusts with
    | same same =>
        rcases swept with idle | ⟨-, kept⟩
        · exact .drop (cell.trans (same.trans idle))
        · exact .same (cell.trans (same.trans kept))
    | drop _ idle => exact .drop (cell.trans idle)
    | begin _ trying speaks =>
        refine .begin _ (cell.trans trying) ?_
        rw [← spoken_eq] at speaks
        obtain ⟨packet, member, about⟩ := speaks
        exact ⟨packet, spoken_sub packet member, about⟩
    | hold trying held _ =>
        rcases swept with idle | ⟨live, kept⟩
        · exact absurd (idle.symm.trans trying) (by simp)
        · have before := kept.symm.trans trying
          exact .hold _ before ((cell_trying before).2 ▸ live) (cell.trans held)
  · rintro ⟨packet, member, kind, names⟩
    have law : lawful (swarm.settings node) adjusted (.mcast packet true) :=
      emits_sent emits ((mem_spoken packet).mp member)
    rcases law.2 with inquire | ⟨-, own⟩
    · exact absurd (inquire.symm.trans kind) (by decide)
    · exact cell.trans (cell_of_own (own position names).2)

/-- Nobody else tries for the block, or takes it for claimed by another node, while a node that was
not told off tries for it and nothing is under way. -/
theorem forgotten (known : Known swarm position s) (silent : s.inFlight = []) {x y : Fin count}
    {deadline : Time} (trying : (view position s).cell x = .trying deadline)
    (live : s.clock ≤ deadline) (different : y ≠ x) : (view position s).cell y ≠ .foreign := by
  rcases known.asked x deadline trying live with ⟨z, envelope, member, -⟩ | all
  · simp [silent] at member
  · rcases all y different with ⟨envelope, member, -⟩ | unclaimed
    · simp [silent] at member
    · exact unclaimed

theorem house_keeping_known (good : Good (swarm.settings node) (s.config node))
    (known : Known swarm position s) (inside : position < (swarm.settings node).blocks)
    (silent : s.inFlight = []) (later : s.clock ≤ env.now) (flawless : Flawless env)
    (orderly : Orderly swarm s (.act node env .houseKeeping))
    (done : houseKeeping (swarm.settings node) env (s.config node) = some after) :
    Known swarm position (s.move node env.now [] after) := by
  obtain ⟨turned, holder⟩ := house_keeping_turned good inside flawless orderly done
  have kept (foreign : cellOf (after.blocks position) = .foreign) :
      (view position s).cell node = .foreign ∧
        recordOf (after.blocks position) = recordOf ((s.config node).blocks position) := by
    obtain ⟨unchanged, -⟩ := house_keeping_claimed good done inside ((cell_foreign_iff _).mp foreign)
    exact ⟨(cell_foreign_iff _).mpr unchanged.1, unchanged.2⟩
  -- a node that takes the block for claimed did so before
  have was {y : Fin count} (foreign : (view position (s.move node env.now [] after)).cell y = .foreign) :
      (view position s).cell y = .foreign := by
    by_cases here : y = node
    · subst here
      exact (kept (cell_same.symm.trans foreign)).1
    · exact (cell_other here).symm.trans foreign
  constructor
  · intro x y under
    rcases under_moved.mp under with ⟨envelope, member, -⟩ | ⟨rfl, -, speaks⟩
    · simp at member
    · exact cell_same.trans (holder speaks)
  · intro x deadline trying live
    right
    intro y different
    by_cases here : x = node
    · subst here
      have cell := cell_same.symm.trans trying
      cases turned with
      | same same =>
          right
          exact fun foreign => forgotten known silent (same.symm.trans cell) (Nat.le_trans later live)
            different (was foreign)
      | drop idle => exact absurd (idle.symm.trans cell) (by simp)
      | begin _ _ speaks => exact .inl (under_moved.mpr (.inr ⟨rfl, different, speaks⟩))
      | hold _ _ _ held => exact absurd (held.symm.trans cell) (by simp)
    · right
      exact fun foreign => forgotten known silent ((cell_other here).symm.trans trying)
        (Nat.le_trans later live) different (was foreign)
  · intro x held y foreign
    have record : Points swarm ((s.config y).blocks position) x := by
      by_cases here : x = node
      · subst here
        cases turned with
        | same same =>
            exact known.recorded x (same.symm.trans (cell_same.symm.trans held)) y (was foreign)
        | drop idle => exact absurd (idle.symm.trans (cell_same.symm.trans held)) (by simp)
        | begin _ trying => exact absurd (trying.symm.trans (cell_same.symm.trans held)) (by simp)
        | hold _ trying live now =>
            by_cases self : y = x
            · subst self
              exact absurd (held.symm.trans foreign) (by simp)
            · exact absurd (was foreign) (forgotten known silent trying (Nat.le_trans later live) self)
      · exact known.recorded x ((cell_other here).symm.trans held) y (was foreign)
    by_cases here : y = node
    · subst here
      rw [moved_same]
      exact points_record (kept (cell_same.symm.trans foreign)).2 record
    · rwa [moved_other here]

/-! Arrivals. -/

section Arrivals
variable {front back : List (Envelope count)} {envelope : Envelope count} {x y : Fin count}

/-- A block that is taken for claimed after a packet is the sender's, or the packet did not change
what is known of it. -/
theorem received_record (mail : Mail swarm s) (arrives : envelope ∈ s.inFlight)
    (indexed : Indexed (swarm.settings envelope.dest) (s.config envelope.dest))
    (inside : position < (swarm.settings envelope.dest).blocks)
    (result : received swarm env envelope (s.config envelope.dest) = after)
    (foreign : cellOf (after.blocks position) = .foreign) :
    (envelope.packet.command = msgUpdateClaim ∧ Names envelope.packet position ∧
        Points swarm (after.blocks position) envelope.source) ∨
      ¬ Names envelope.packet position ∧
        after.blocks position = (s.config envelope.dest).blocks position := by
  have header := mail.header envelope arrives
  have readable := of_node_readable envelope.dest header (mail.kind envelope arrives)
  subst result
  rw [received, dispatch_entries readable.1 readable.2] at foreign ⊢
  rcases entries_claimed indexed readable.2 (fun _ => id) inside ((cell_foreign_iff _).mp foreign) with
    ⟨claim, entry, member, names, record⟩ | ⟨others, same⟩
  · refine .inl ⟨claim, ⟨entry, member, names⟩, ?_, ?_⟩
    · exact (congrArg (fun record => record.1) record).trans header.1
    · exact congrArg (fun record => record.2.1) record
  · refine .inr ⟨fun ⟨entry, member, names⟩ => others entry member names, same⟩

theorem reaction_held (known : Known swarm position s) (guarded : Guarded (rules swarm) (view position s))
    (mail : Mail swarm s) (arrives : envelope ∈ s.inFlight)
    (reaction : Reaction swarm position s envelope env.now after) :
    cellOf (after.blocks position) = .held ↔ (view position s).cell envelope.dest = .held := by
  have cell := reaction.cell
  by_cases names : Names envelope.packet position
  · rw [if_pos names] at cell
    rw [cell]
    rcases mail.kind envelope arrives with claim | inquire
    · -- a holder is told nothing by anybody else
      have notInquiry : envelope.packet.command ≠ msgInquire := by
        rw [claim]
        decide
      have source := known.backed _ _ ⟨envelope, arrives, rfl, rfl, claim, names⟩
      have free : (view position s).cell envelope.dest ≠ .held := fun held =>
        mail.other envelope arrives (guarded.exclusive _ _ source held)
      simp [heardCell, notInquiry, free]
    · rw [heardCell, if_pos inquire]
      cases (view position s).cell envelope.dest with
      | trying deadline =>
          simp only [inquiredCell]
          split <;> simp
      | _ => simp [inquiredCell]
  · rw [if_neg names] at cell
    rw [cell]

/-- A node that tries after a packet tried before it, and was not told. -/
theorem reaction_trying {deadline : Time} (mail : Mail swarm s) (arrives : envelope ∈ s.inFlight)
    (reaction : Reaction swarm position s envelope env.now after)
    (trying : cellOf (after.blocks position) = .trying deadline) :
    (view position s).cell envelope.dest = .trying deadline ∧
      (envelope.packet.command = msgUpdateClaim → ¬ Names envelope.packet position) := by
  have cell := reaction.cell
  rw [trying] at cell
  by_cases names : Names envelope.packet position
  · rw [if_pos names] at cell
    rcases mail.kind envelope arrives with claim | inquire
    · have notInquiry : envelope.packet.command ≠ msgInquire := by
        rw [claim]
        decide
      rw [heardCell, if_neg notInquiry] at cell
      split at cell <;> contradiction
    · rw [heardCell, if_pos inquire] at cell
      refine ⟨?_, fun claim => absurd (inquire.symm.trans claim) (by decide)⟩
      cases before : (view position s).cell envelope.dest with
      | trying since =>
          rw [before] at cell
          simp only [inquiredCell] at cell
          split at cell
          · contradiction
          · exact cell.symm
      | _ =>
          rw [before] at cell
          simp [inquiredCell] at cell
  · rw [if_neg names] at cell
    exact ⟨cell.symm, fun _ => names⟩

theorem under_still {kind : UInt8} (pool : s.inFlight = front ++ envelope :: back)
    (under : Under kind position s.inFlight x y) (other : y ≠ envelope.dest) :
    Under kind position (front ++ back) x y :=
  (under_fewer pool).2 x y (.inr other) under

theorem arrive_known (known : Known swarm position s)
    (guarded : Guarded (rules swarm) (view position s)) (mail : Mail swarm s)
    (indexed : Indexed (swarm.settings envelope.dest) (s.config envelope.dest))
    (inside : position < (swarm.settings envelope.dest).blocks)
    (pool : s.inFlight = front ++ envelope :: back) (later : s.clock ≤ env.now)
    (reaction : Reaction swarm position s envelope env.now after)
    (result : received swarm env envelope (s.config envelope.dest) = after) :
    Known swarm position (s.move envelope.dest env.now (front ++ back) after) := by
  have arrives := arrived_in_flight pool
  have holds := reaction_held known guarded mail arrives reaction
  have record := received_record mail arrives indexed inside result
  have held_was (z : Fin count) : (view position (s.move envelope.dest env.now (front ++ back) after)).cell
      z = .held ↔ (view position s).cell z = .held := by
    by_cases here : z = envelope.dest
    · subst here
      rw [cell_same, holds]
    · rw [cell_other here]
  constructor
  · intro x y under
    rw [held_was]
    rcases under_moved.mp under with ⟨other, member, about⟩ | ⟨rfl, -, speaks⟩
    · exact known.backed x y ⟨other, kept_in_flight pool member, about⟩
    · exact reaction.holder speaks
  · intro x deadline trying live
    have before : (view position s).cell x = .trying deadline ∧ (x = envelope.dest →
        envelope.packet.command = msgUpdateClaim → ¬ Names envelope.packet position) := by
      by_cases here : x = envelope.dest
      · subst here
        have was := reaction_trying mail arrives reaction (cell_same.symm.trans trying)
        exact ⟨was.1, fun _ => was.2⟩
      · exact ⟨(cell_other here).symm.trans trying, fun same => absurd same here⟩
    have told_still {z : Fin count} (told : Under msgUpdateClaim position s.inFlight z x) :
        Under msgUpdateClaim position (front ++ back) z x := by
      by_cases here : x = envelope.dest
      · rwa [under_same pool (before.2 here)]
      · exact under_still pool told here
    rcases known.asked x deadline before.1 (Nat.le_trans later live) with ⟨z, told⟩ | all
    · exact .inl ⟨z, under_moved.mpr (.inl (told_still told))⟩
    by_cases told : ∃ z, Under msgUpdateClaim position s.inFlight z x
    · exact .inl ⟨told.choose, under_moved.mpr (.inl (told_still told.choose_spec))⟩
    right
    intro y different
    by_cases here : y = envelope.dest
    · subst here
      by_cases foreign : cellOf (after.blocks position) = .foreign
      · rcases record foreign with ⟨claim, names, -⟩ | ⟨unnamed, same⟩
        · -- whoever tries is told as well
          have tells : (view position s).tells envelope.source envelope.dest :=
            ⟨envelope, arrives, rfl, rfl, claim, names⟩
          exact absurd (guarded.told _ _ x deadline tells before.1) told
        · rw [same] at foreign
          have asks := (all _ different).resolve_right fun unclaimed => unclaimed foreign
          rw [← under_same pool fun _ => unnamed] at asks
          exact .inl (under_moved.mpr (.inl asks))
      · exact .inr (cell_same ▸ foreign)
    · rw [cell_other here]
      exact (all y different).imp_left fun asks => under_moved.mpr (.inl (under_still pool asks here))
  · intro x held y foreign
    rw [held_was] at held
    by_cases here : y = envelope.dest
    · subst here
      rw [cell_same] at foreign
      rw [moved_same]
      rcases record foreign with ⟨claim, names, points⟩ | ⟨-, same⟩
      · have source := known.backed _ _ ⟨envelope, arrives, rfl, rfl, claim, names⟩
        exact guarded.exclusive _ _ source held ▸ points
      · rw [same] at foreign ⊢
        exact known.recorded x held _ foreign
    · rw [cell_other here] at foreign
      rw [moved_other here]
      exact known.recorded x held y foreign

end Arrivals

/-! Runs of the swarm. -/

theorem frame_silent {now : Time} (frame : LeaseFrame (s.config node) after) :
    (s.move node now [] after).inFlight = [] := by
  rw [Net.move, frame_spoken frame]
  simp [broadcast]

theorem frame_known (known : Known swarm position s) (frame : LeaseFrame (s.config node) after)
    (silent : s.inFlight = []) (later : s.clock ≤ env.now) :
    Known swarm position (s.move node env.now [] after) := by
  have cell (x : Fin count) : (view position (s.move node env.now [] after)).cell x =
      (view position s).cell x := by
    by_cases here : x = node
    · subst here
      rw [cell_same]
      have same := frame.claims position
      have timeout : (after.blocks position).timeout = ((s.config x).blocks position).timeout :=
        congrArg (fun block => block.timeout) same
      simp only [view, cellOf, lease_frame_state frame position, timeout]
    · exact cell_other here
  have quiet : (s.move node env.now [] after).inFlight = s.inFlight :=
    (frame_silent frame).trans silent.symm
  constructor
  · rw [quiet]
    exact fun x y under => (cell x).trans (known.backed x y under)
  · rw [quiet]
    intro x deadline trying live
    rw [cell] at trying
    apply (known.asked x deadline trying (Nat.le_trans later live)).imp_right
    intro all y different
    rw [cell]
    exact all y different
  · intro x held y foreign
    rw [cell] at held foreign
    have points := known.recorded x held y foreign
    by_cases here : y = node
    · subst here
      rw [moved_same]
      have same := frame.claims position
      exact ⟨(congrArg (fun block => block.nodeId) same).trans points.1,
        (congrArg (fun block => block.ownerAddress) same).trans points.2⟩
    · rwa [moved_other here]

theorem ordered_reaction {front back : List (Envelope count)} {envelope : Envelope count}
    (inside : ∀ node, position < (swarm.settings node).blocks) (ordered : Ordered swarm s)
    (pool : s.inFlight = front ++ envelope :: back) (later : s.clock ≤ env.now) (sends : Multicasts env)
    (result : received swarm env envelope (s.config envelope.dest) = after) :
    Reaction swarm position s envelope env.now after := by
  have late : 0 < timeoutFactor (swarm.settings envelope.dest) env.now := by
    rw [timeout_factor_gap]
    rcases ordered.timely with prompt | positive
    · exact Nat.lt_of_lt_of_le (Nat.lt_of_le_of_lt (Nat.zero_le _) (prompt envelope.dest))
        (Nat.le_add_left _ _)
    · exact Nat.lt_of_lt_of_le positive (Nat.le_trans later (Nat.le_add_right _ _))
  exact result ▸ dispatch_reaction ordered.mail (arrived_in_flight pool)
    (sound_indexed (ordered.good envelope.dest).sound) (inside envelope.dest) sends late

theorem step_known {l : Move count} (inside : ∀ node, position < (swarm.settings node).blocks)
    (ordered : Ordered swarm s) (known : Known swarm position s) (step : Network.Step swarm s l t)
    (orderly : Orderly swarm s l) : Known swarm position t := by
  cases step with
  | deliver delivers =>
      cases delivers with
      | @arrive front back envelope after env pool later sends result =>
          have reaction := ordered_reaction inside ordered pool later sends result
          exact arrive_known known (ordered.guarded position inside) ordered.mail
            (sound_indexed (ordered.good envelope.dest).sound) (inside envelope.dest) pool later reaction
            result
  | act node env event silent later flawless own done =>
      by_cases house : event = .houseKeeping
      · subst house
        exact house_keeping_known (ordered.good node) known (inside node) silent later flawless orderly
          done
      · exact frame_known known (own_event_frame house own done) silent later

theorem path_known {labels : List (Move count)} (timed : Timed swarm s.clock) (idle : Idle swarm s)
    (run : Path (fun s l t => Network.Step swarm s l t ∧ Orderly swarm s l) s labels t) :
    Ordered swarm t ∧ ∀ position, (∀ node, position < (swarm.settings node).blocks) →
      Known swarm position t := by
  have fair : (rules swarm).Fair := ⟨rank_injective swarm, timed.imp_right And.right⟩
  refine path_invariant (fun s => Ordered swarm s ∧ ∀ position,
    (∀ node, position < (swarm.settings node).blocks) → Known swarm position s) ?_ run
    ⟨idle_ordered (timed.imp_right And.left) idle, fun position inside => idle_known idle inside⟩
  rintro s l t ⟨ordered, known⟩ ⟨step, orderly⟩
  exact ⟨step_ordered fair ordered step orderly, fun position inside =>
    step_known inside ordered (known position inside) step orderly⟩

/-- In an orderly run a node asks for a lease on behalf of a client's request for its address only,
and if any node holds the block of the address, that is the node it asks. -/
theorem renewals_reach_holder {labels : List (Move count)} {event : Event} {packet : McastPacket}
    {dest : In6Addr} (timed : Timed swarm s.clock) (idle : Idle swarm s)
    (run : Path (fun s l t => Network.Step swarm s l t ∧ Orderly swarm s l) s labels t)
    (handled : handle (swarm.settings node) env event (t.config node) = some after)
    (member : .direct packet dest ∈ sent (t.config node) after)
    (kind : packet.command = msgRenewLease) :
    ∃ request address index place, event = .client request ∧ messageType request = dhcpRequest ∧
      requestedAddress request = some address ∧
      findLeaseFromAddress (swarm.settings node) (t.config node) address = ⟨1, place, index⟩ ∧
      packet = Handlers.renewPacket (swarm.settings node) request address ∧
      ∀ holder, Holds swarm place t holder → dest = swarm.address holder := by
  obtain ⟨ordered, known⟩ := path_known timed idle run
  rcases direct_sent (ordered.good node) handled member with
    ⟨request, address, place, index, passes⟩ | ⟨request, answers⟩
  · have elsewhere := passes.elsewhere
    refine ⟨request, address, index, place, passes.client, passes.type, elsewhere.requested,
      elsewhere.place, passes.written, fun holder holds => ?_⟩
    have inside (other : Fin count) : place < (swarm.settings other).blocks :=
      swarm_blocks swarm holder other ▸ holds.1
    have points := (known place inside).recorded holder (cell_of_own holds.2) node
      ((cell_foreign_iff _).mpr elsewhere.claimed)
    exact passes.holder.trans points.2
  · rcases answers.granted with nak | ⟨ack, -⟩
    · exact absurd (nak.symm.trans kind) (by decide)
    · exact absurd (ack.symm.trans kind) (by decide)

theorem is_renewal {output : Output} (renewal : isRenewal output = true) :
    ∃ packet dest, output = .direct packet dest ∧ packet.command = msgRenewLease := by
  cases output with
  | direct packet dest => exact ⟨packet, dest, rfl, of_decide_eq_true renewal⟩
  | _ => contradiction

-- The first node asks three times and claims the block, then a client asks the second for its address.
theorem renewals_reach_holder_small : ∃ (t : Net 2) (after : Config) (packet : McastPacket)
    (dest : In6Addr), Holds smallSwarm 0 t 0 ∧ .direct packet dest ∈ sent (t.config 1) after ∧
      dest = smallSwarm.address 0 := by
  have evaluated : (runCommands smallSwarm true smallNet [.run 0 1000, .arrive 1000, .run 0 1001,
      .arrive 1001, .run 0 1002, .arrive 1002, .run 0 1003, .arrive 1003]).any (fun t =>
        ((t.config 0).blocks 0).state = .ours ∧
        (findLeaseFromAddress (smallSwarm.settings 1) (t.config 1)
          (smallPacket 1 7 dhcpRequest).ciaddr).block = 0 ∧
        (handle (smallSwarm.settings 1) (calmEnv 1004) (.client (smallPacket 1 7 dhcpRequest))
          (t.config 1)).any fun after => (sent (t.config 1) after).any isRenewal) = true := by
    decide +kernel
  obtain ⟨t, done, facts⟩ := (Option.any_eq_true _ _).mp evaluated
  obtain ⟨own, first, rest⟩ := of_decide_eq_true facts
  obtain ⟨after, handled, asks⟩ := (Option.any_eq_true _ _).mp rest
  obtain ⟨output, member, renewal⟩ := List.any_eq_true.mp asks
  obtain ⟨packet, dest, rfl, kind⟩ := is_renewal renewal
  obtain ⟨labels, path⟩ := run_commands_path small_prompt done
  have orderly : Path (fun s l t => Network.Step smallSwarm s l t ∧ Orderly smallSwarm s l)
      smallNet labels t := path_mono (fun _ _ _ step => ⟨step.1, step.2 rfl⟩) path
  have holds : Holds smallSwarm 0 t 0 := ⟨by show 0 < 1; decide, own⟩
  obtain ⟨request, address, index, place, client, -, requested, found, -, reaches⟩ :=
    renewals_reach_holder (.inl small_prompt) small_idle orderly handled member kind
  cases client
  cases requested
  have here : place = 0 := (congrArg LeaseLookup.block found).symm.trans first
  subst here
  exact ⟨t, after, packet, dest, holds, member, reaches 0 holds⟩

end Ddhcpd.Whereabouts

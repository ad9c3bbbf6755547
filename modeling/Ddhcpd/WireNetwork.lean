import Ddhcpd.Exclusion
import Ddhcpd.DirectSends
import Ddhcpd.Datagram
import Ddhcpd.Wire

/-!
The swarm as it exchanges datagrams. A node encodes what it sends, the receiver decodes what is in
front of its buffer. Whatever a node sends in a run fits a datagram and is read as it was meant, so
that a swarm that exchanges datagrams does nothing that the swarm of `Network` does not do.
-/

namespace Ddhcpd.WireNetwork
open Types Blocks BlockPackets BlockMoves Packet LeasePackets Node Path Refresh Invariant Calls
open Wire Hearing HouseKeeping Deadlines DirectSends Network Conflict Exclusion

variable {cfg peer : Settings} {env : Env} {event : Event} {c after : Config} {packet : McastPacket}
  {dest : In6Addr}

/-- A packet of the node that fits its datagram, and with it the buffer of the receiver. -/
structure Fits (cfg : Settings) (packet : McastPacket) : Prop where
  encodable : Encodable packet
  header : OfNode cfg packet
  sized : packet.command ≠ msgRelease
  length : (htonPacket packet).length ≤ Datagram.bufferSize

def carries : Output → Option McastPacket
  | .mcast packet _ => some packet
  | .direct packet _ => some packet
  | _ => none

def fitting (cfg : Settings) (output : Output) : Prop :=
  ∀ packet, carries output = some packet → Fits cfg packet

/-! What a node sends. -/

theorem update_fits {entries : List BlockPayload} (few : entries.length ≤ updateClaimMaxBlocks)
    (plain : ∀ entry ∈ entries, entry.reserved = 0) : Fits cfg (updateClaimPacket cfg entries) := by
  have small : entries.length < 256 := Nat.lt_of_le_of_lt few (by decide)
  have counted : (UInt8.ofNat entries.length).toNat = entries.length := by
    rw [UInt8.toNat_ofNat', Nat.mod_eq_of_lt small]
  have encodable : Encodable (updateClaimPacket cfg entries) := by
    refine ⟨.inl (.inl rfl), fun _ => ⟨counted.symm, fun entry member => ?_⟩, fun inquire => ?_⟩
    · rw [plain entry member]
      decide
    · exact absurd inquire (by simp only [updateClaimPacket, newDdhcpPacket]; decide)
  have sized : (updateClaimPacket cfg entries).command ≠ msgRelease := by
    simp only [updateClaimPacket, newDdhcpPacket]
    decide
  refine ⟨encodable, ⟨rfl, rfl, rfl, rfl⟩, sized, ?_⟩
  have length : ((htonPacket (updateClaimPacket cfg entries)).length : Int) =
      packetSize msgUpdateClaim (UInt8.ofNat entries.length).toNat := hton_length encodable sized
  rw [counted, packetSize, if_pos rfl] at length
  simp only [updateClaimMaxBlocks] at few
  simp only [Datagram.bufferSize]
  omega

theorem inquiry_fits (listed : Listed cfg c) : Fits cfg (inquirePacket cfg c) := by
  have counted : c.claimingBlocksAmount.toNat = c.claimingBlocks.length := listed.amount
  have encodable : Encodable (inquirePacket cfg c) := by
    refine ⟨.inl (.inr rfl), fun _ => ⟨?_, fun entry member => ?_⟩, fun _ entry member => ?_⟩
    · simp [inquirePacket, counted]
    · obtain ⟨position, -, rfl⟩ := List.mem_map.mp member
      exact Nat.zero_le _
    · obtain ⟨position, -, rfl⟩ := List.mem_map.mp member
      exact ⟨rfl, rfl⟩
  have sized : (inquirePacket cfg c).command ≠ msgRelease := by
    simp only [inquirePacket, newDdhcpPacket]
    decide
  refine ⟨encodable, ⟨rfl, rfl, rfl, rfl⟩, sized, ?_⟩
  have length : ((htonPacket (inquirePacket cfg c)).length : Int) =
      packetSize msgInquire c.claimingBlocksAmount.toNat := hton_length encodable sized
  rw [packetSize, if_neg inquire_not_claim, if_pos rfl] at length
  have few : c.claimingBlocksAmount.toNat < 256 := c.claimingBlocksAmount.toNat_lt
  simp only [Datagram.bufferSize]
  omega

theorem lease_fits (lease : leaseCommand packet.command) (sized : packet.command ≠ msgRelease)
    (header : OfNode cfg packet) : Fits cfg packet := by
  have encodable := lease_encodable lease
  refine ⟨encodable, header, sized, ?_⟩
  have length : (htonPacket packet).length = 16 + 28 := by
    rw [htonPacket, List.length_append, header_bytes_length, payload_lease lease, renew_length]
  rw [length]
  decide

theorem mcast_fitting {got : Bool} (fits : Fits cfg packet) : fitting cfg (.mcast packet got) :=
  fun _ same => Option.some.inj same ▸ fits

theorem update_claims_fit (indexed : Indexed cfg c) :
    Emits (fitting cfg) c (blockUpdateClaims cfg env c) := by
  obtain ⟨groups, done, -⟩ := update_claims_updated cfg env c indexed
  refine ⟨groups.map (announcement cfg c), by rw [done.frame], fun output member => ?_⟩
  obtain ⟨group, inside, rfl⟩ := List.mem_map.mp member
  refine mcast_fitting (update_fits ?_ fun entry listed => ?_)
  · simpa using done.sizes group inside
  · obtain ⟨position, -, rfl⟩ := List.mem_map.mp listed
    rfl

theorem block_moves_fit {packet : McastPacket} {sender : In6Addr} (sound : Sound cfg c)
    (moves : BlockMoves.Moves cfg env packet sender c after) : Emits (fitting cfg) c after := by
  induction moves with
  | refl => exact emits_same rfl
  | tail front move ih =>
      apply emits_trans ih
      cases move with
      | concede => exact emits_same rfl
      | defer => exact emits_same rfl
      | defend =>
          have middle := zeroed_sound (block_moves_sound sound front).1
          exact emits_trans (emits_same rfl) (update_claims_fit (sound_indexed (middle _)))

theorem house_keeping_fits (good : Good cfg c) (done : houseKeeping cfg env c = some after) :
    Emits (fitting cfg) c after := by
  obtain ⟨checked, adjusted, check, checkedGood, -, adjust, adjustedGood, -, out⟩ :=
    house_keeping_passes good done
  have silent : checked.out = c.out := by
    obtain ⟨blocks, -, rfl⟩ := Option.map_eq_some_iff.mp check
    rfl
  have asks : Emits (fitting cfg) checked adjusted := by
    apply emits_mono (adjust_emits checkedGood adjust)
    rintro _ ⟨got, rfl⟩
    exact mcast_fitting (inquiry_fits adjustedGood.listed)
  have tells : Emits (fitting cfg) adjusted after := by
    rw [Emits, out]
    exact update_claims_fit (sound_indexed adjustedGood.sound)
  exact emits_trans (emits_trans (emits_same silent) asks) tells

theorem direct_fits (good : Good cfg c) (done : handle cfg env event c = some after)
    (member : .direct packet dest ∈ sent c after) : Fits cfg packet := by
  rcases direct_sent good done member with ⟨request, address, position, index, passes⟩ | ⟨request, answers⟩
  · rw [passes.written]
    exact lease_fits (.inl rfl) (by simp only [Handlers.renewPacket, newDdhcpPacket]; decide)
      ⟨rfl, rfl, rfl, rfl⟩
  · have header : OfNode cfg packet := by
      rw [answers.written]
      exact ⟨rfl, rfl, rfl, rfl⟩
    rcases answers.granted with nak | ⟨ack, -⟩
    · exact lease_fits (.inr (.inr (.inl nak))) (by rw [nak]; decide) header
    · exact lease_fits (.inr (.inl ack)) (by rw [ack]; decide) header

/-- Every packet that an event sends fits. -/
theorem event_fits (good : Good cfg c) (done : handle cfg env event c = some after) {output : Output}
    (member : output ∈ sent c after) : fitting cfg output := by
  cases output with
  | mcast packet got =>
      by_cases house : event = .houseKeeping
      · subst house
        exact emits_sent (house_keeping_fits good done) member
      rcases received_moves house done with ⟨told, sender, moves⟩ | moves
      · exact emits_sent (block_moves_fit good.sound moves) member
      · obtain ⟨outs, out, silent⟩ := (lease_moves_frame moves).silent
        rw [sent, out, List.drop_left] at member
        exact absurd member (silent packet got)
  | direct packet dest => exact fun _ same => Option.some.inj same ▸ direct_fits good done member
  | dhcp => exact fun _ same => absurd same (by simp [carries])
  | hook => exact fun _ same => absurd same (by simp [carries])

/-! What a receiver makes of it. -/

/-- The settings that make a node part of a network are the same. -/
structure SameNetwork (cfg peer : Settings) : Prop where
  prefixAddr : peer.prefixAddr = cfg.prefixAddr
  prefixLen : peer.prefixLen = cfg.prefixLen
  blockSize : peer.blockSize = cfg.blockSize

theorem fits_read (fits : Fits cfg packet) (memory : env.alloc .receivedPayload = true)
    {buffer : List UInt8} (written : buffer.take (htonPacket packet).length = htonPacket packet) :
    ntohMcastPacket env buffer (htonPacket packet).length = some (Wire.received packet) := by
  have same : (htonPacket packet).take (htonPacket packet).length =
      buffer.take (htonPacket packet).length := by rw [written, List.take_length]
  have plain : WellFormed (htonPacket packet) (htonPacket packet).length := by
    rw [well_formed_iff, header_command, header_count]
    exact (hton_length fits.encodable fits.sized).symm
  have formed : WellFormed buffer (htonPacket packet).length := well_formed_same same plain
  rw [ntoh_read, if_pos ⟨well_formed_iff.mp formed, memory⟩, packet_read_same same.symm formed,
    packet_read_hton fits.encodable]

theorem received_dispatch {sender : In6Addr} :
    ddhcpBlockDispatch peer env (Wire.received packet) sender c =
      ddhcpBlockDispatch peer env packet sender c := by
  unfold Wire.received
  split
  · rfl
  · rename_i other
    obtain ⟨noClaim, noInquire⟩ := not_or.mp other
    simp [ddhcpBlockDispatch, foreign, noClaim, noInquire]

theorem received_lease {sender : In6Addr} :
    ddhcpDhcpDispatch peer env (Wire.received packet) sender c =
      ddhcpDhcpDispatch peer env packet sender c := by
  unfold Wire.received
  split
  · rename_i block
    have other : packet.command ≠ msgRenewLease ∧ packet.command ≠ msgLeaseAck ∧
        packet.command ≠ msgLeaseNak ∧ packet.command ≠ msgRelease := by
      rcases block with claim | inquire
      · rw [claim]
        decide
      · rw [inquire]
        decide
    simp [ddhcpDhcpDispatch, foreign, other]
  · rfl

theorem own_header (header : OfNode cfg packet) (same : SameNetwork cfg peer) :
    foreign peer packet = false := by
  simp [foreign, header.2.1, header.2.2.1, header.2.2.2, same.prefixAddr, same.prefixLen,
    same.blockSize]

/-- Whatever a node sends in a run fills a datagram that fits the buffers of its peers, and the
datagram does there what the packet says. -/
theorem packets_understood {labels : List (Env × Event)} {label : Env × Event} {s t : NodeState}
    {output : Output} {buffer : List UInt8} (run : Runs cfg (fun _ => True) labels s)
    (step : Node.Step cfg s label t) (member : output ∈ sent s.config t.config)
    (carried : carries output = some packet) (same : SameNetwork cfg peer)
    (memory : env.alloc .receivedPayload = true)
    (written : buffer.take (htonPacket packet).length = htonPacket packet) (sender : In6Addr)
    (c : Config) :
    (htonPacket packet).length ≤ Datagram.bufferSize ∧
      ((htonPacket packet).length : Int) = packetSize packet.command packet.count.toNat ∧
      foreign peer packet = false ∧
      ddhcpBlockProcess peer env buffer (htonPacket packet).length sender c =
        ddhcpBlockDispatch peer env packet sender c ∧
      ddhcpDhcpProcess peer env buffer (htonPacket packet).length sender c =
        ddhcpDhcpDispatch peer env packet sender c := by
  have good : Good cfg s.config := runs_good run
  cases step with
  | event env' event later done =>
      have fits : Fits cfg packet := event_fits good done member packet carried
      have read := fits_read fits memory written
      refine ⟨fits.length, hton_length fits.encodable fits.sized, own_header fits.header same, ?_, ?_⟩
      · rw [ddhcpBlockProcess, read]
        exact received_dispatch
      · rw [ddhcpDhcpProcess, read]
        exact received_lease

theorem packets_understood_small : ∃ packet : McastPacket,
    foreign (smallNode 2) packet = false ∧ ∀ c,
      ddhcpBlockProcess (smallNode 2) (calmEnv 1000) (htonPacket packet) (htonPacket packet).length
        (zeroBytes 16) c = ddhcpBlockDispatch (smallNode 2) (calmEnv 1000) packet (zeroBytes 16) c := by
  have evaluated : (handle (smallNode 1) (calmEnv 1000) .houseKeeping smallStart.config).any
      (fun after => (sent smallStart.config after).any fun output => (carries output).isSome) = true := by
    decide +kernel
  obtain ⟨after, done, some⟩ := (Option.any_eq_true _ _).mp evaluated
  obtain ⟨output, member, carried⟩ := List.any_eq_true.mp some
  obtain ⟨packet, carried⟩ := Option.isSome_iff_exists.mp carried
  have start : Runs (smallNode 1) (fun _ => True) [] smallStart := ⟨1000, _, .refl _⟩
  have step : Node.Step (smallNode 1) smallStart (calmEnv 1000, .houseKeeping) ⟨1000, after⟩ :=
    .event (calmEnv 1000) .houseKeeping (Nat.le_refl _) done
  have understood (c : Config) := packets_understood start step member carried
    (⟨rfl, rfl, rfl⟩ : SameNetwork (smallNode 1) (smallNode 2)) (rfl : (calmEnv 1000).alloc _ = true)
    (List.take_length (l := htonPacket packet)) (zeroBytes 16) c
  exact ⟨packet, (understood after).2.2.1, fun c => (understood c).2.2.2.1⟩

/-! The swarm. -/

section Swarms
variable {count : Nat} {swarm : Swarm count} {s t : Net count} {move : Network.Move count}

/-- The swarm of `Network`, with datagrams: an envelope arrives as what was encoded, in front of
whatever the buffer held. -/
inductive Step (swarm : Swarm count) : Net count → Network.Move count → Net count → Prop where
  | deliver {s : Net count} {front back : List (Envelope count)} {envelope : Envelope count}
      {after : Config} (env : Env) (buffer : List UInt8) :
      s.inFlight = front ++ envelope :: back → s.clock ≤ env.now → Multicasts env →
      env.alloc .receivedPayload = true →
      buffer.take (htonPacket envelope.packet).length = htonPacket envelope.packet →
      handle (swarm.settings envelope.dest) env (.mcast buffer (htonPacket envelope.packet).length
        (swarm.address envelope.source)) (s.config envelope.dest) = some after →
      Step swarm s (.deliver (envelope.dest, spoken (s.config envelope.dest) after))
        (s.move envelope.dest env.now (front ++ back) after)
  | act {s : Net count} {after : Config} (node : Fin count) (env : Env) (event : Event) :
      s.inFlight = [] → s.clock ≤ env.now → Flawless env →
      (∀ buffer len sender, event ≠ .mcast buffer len sender) →
      handle (swarm.settings node) env event (s.config node) = some after →
      Step swarm s (.act node env event) (s.move node env.now [] after)

structure Carried (swarm : Swarm count) (s : Net count) : Prop where
  good : ∀ node, Good (swarm.settings node) (s.config node)
  fits : ∀ envelope ∈ s.inFlight, Fits (swarm.settings envelope.source) envelope.packet

theorem swarm_same (swarm : Swarm count) (a b : Fin count) :
    SameNetwork (swarm.settings a) (swarm.settings b) :=
  ⟨swarm.prefixAddr b a, swarm.prefixLen b a, swarm.blockSize b a⟩

theorem moved_carried {node : Fin count} {env : Env} {event : Event} {rest : List (Envelope count)}
    {after : Config} (carried : Carried swarm s) (later : s.clock ≤ env.now)
    (kept : ∀ envelope ∈ rest, envelope ∈ s.inFlight)
    (done : handle (swarm.settings node) env event (s.config node) = some after) :
    Carried swarm (s.move node env.now rest after) := by
  have good : Good (swarm.settings node) after :=
    step_good (s := ⟨s.clock, s.config node⟩) (carried.good node) (.event env event later done)
  refine ⟨move_good carried.good good, fun envelope member => ?_⟩
  rcases List.mem_append.mp member with old | new
  · exact carried.fits envelope (kept envelope old)
  · obtain ⟨rfl, -, packet⟩ := (mem_broadcast envelope).mp new
    exact event_fits (carried.good _) done ((mem_spoken _).mp packet) envelope.packet rfl

/-- A datagram that arrives is a packet that arrives. -/
theorem step_simulates (carried : Carried swarm s) (step : Step swarm s move t) :
    Network.Step swarm s move t ∧ Carried swarm t := by
  cases step with
  | @deliver front back envelope after env buffer pool later multicasts memory written done =>
      have member : envelope ∈ s.inFlight := by simp [pool]
      have fits := carried.fits envelope member
      have result : received swarm env envelope (s.config envelope.dest) = after := by
        rw [handle, ddhcpBlockProcess, fits_read fits memory written] at done
        exact received_dispatch.symm.trans (Option.some.inj done)
      refine ⟨.deliver (.arrive env pool later multicasts result), moved_carried carried later ?_ done⟩
      exact fun other inside => kept_in_flight pool inside
  | act node env event silent later flawless own done =>
      exact ⟨.act node env event silent later flawless own done,
        moved_carried carried later (by simp) done⟩

/-- A run of the swarm that exchanges datagrams is a run of the swarm that exchanges packets. -/
theorem datagram_runs_refine {labels : List (Network.Move count)} (silent : s.inFlight = [])
    (reached : ∀ node, Reachable (swarm.settings node) ⟨s.clock, s.config node⟩)
    (run : Path (Step swarm) s labels t) : Path (Network.Step swarm) s labels t := by
  have start : Carried swarm s := ⟨fun node => reachable_good (reached node), by simp [silent]⟩
  have held := path_holding (Carried swarm)
    (fun _ _ _ carried step => (step_simulates carried step).2) run start
  exact path_mono (fun _ _ _ step => (step_simulates step.1 step.2).1) held

end Swarms

-- The first node asks for the block, and the second one gets the datagram.
theorem datagram_runs_refine_small : ∃ labels t, labels.length = 2 ∧
    Path (Step smallSwarm) smallNet labels t ∧ Path (Network.Step smallSwarm) smallNet labels t := by
  have evaluated : (houseKeeping (smallSwarm.settings 0) (calmEnv 1000) (smallNet.config 0)).any
      (fun after => (broadcast (0 : Fin 2) (spoken (smallNet.config 0) after)).length = 1) = true := by
    decide +kernel
  obtain ⟨after, done, one⟩ := (Option.any_eq_true _ _).mp evaluated
  obtain ⟨envelope, only⟩ := List.length_eq_one_iff.mp (of_decide_eq_true one)
  let asked := smallNet.move 0 1000 [] after
  have first : Step smallSwarm smallNet (.act 0 (calmEnv 1000) .houseKeeping) asked :=
    .act 0 (calmEnv 1000) .houseKeeping rfl (Nat.le_refl _) (calm_flawless 1000) (by simp) done
  have pool : asked.inFlight = [] ++ envelope :: [] := only
  have second : Step smallSwarm asked _ _ :=
    .deliver (calmEnv 1000) (htonPacket envelope.packet) pool (Nat.le_refl _)
      (flawless_multicasts (calm_flawless 1000)) rfl List.take_length rfl
  have run := Path.Path.next first (.next second (.refl _))
  exact ⟨_, _, rfl, run, datagram_runs_refine rfl small_idle.reached run⟩

end Ddhcpd.WireNetwork

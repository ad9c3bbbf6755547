import Ddhcpd.Datagram
import Ddhcpd.Discover
import Ddhcpd.EventLoop

/-!
`hdl_dhcp`, which reads all datagrams of clients that wait and adds up what `dhcp_process`
returns. `dhcp_hdl_discover` returns 3 when the node has no free lease and 1 when it runs out
of memory; `dhcp_process` takes the 1 for the need of further blocks.
-/

namespace Ddhcpd.ClientBatch
open Types DhcpPackets Parsing Datagram Dhcp Leases Blocks Node Invariant Handlers Calls Discover
  EventLoop

/-- A datagram as it stands in the receive buffer, and what the world answers meanwhile. -/
structure Received where
  env : Env
  buffer : List UInt8
  len : Nat

def readDatagram (assertions : Bool) (cfg : Settings) (work : Config × Nat) (received : Received) :
    Option (Config × Nat) :=
  (dhcpProcessDatagram assertions cfg received.env received.buffer received.len work.1).map
    fun result => (result.1, work.2 ||| result.2)

/-- `hdl_dhcp`, with the value it returns. -/
def hdlDhcp (assertions : Bool) (cfg : Settings) (batch : List Received) (c : Config) :
    Option (Config × Nat) :=
  batch.foldlM (readDatagram assertions cfg) (c, 0)

/-! What a batch comes upon. -/

/-- The parser accepts a DISCOVER. -/
def Discovers (assertions : Bool) (received : Received) : Prop :=
  ∃ packet slots, ntohDhcpPacket assertions received.env received.buffer received.len =
    .accepted packet slots ∧ messageType packet = dhcpDiscover

/-- A DISCOVER, and no block of ours has a free lease. -/
def Exhausting (assertions : Bool) (cfg : Settings) (received : Received) (c : Config) : Prop :=
  Discovers assertions received ∧ ∀ position < cfg.blocks, ¬ Offering c position

/-- A DISCOVER that could be served, and no memory for the reply. -/
def Starving (assertions : Bool) (cfg : Settings) (received : Received) (c : Config) : Prop :=
  Discovers assertions received ∧ (∃ position < cfg.blocks, Offering c position) ∧
    (received.env.alloc .replyPacket = false ∨ received.env.alloc .replyOptions = false)

/-- At some datagram of the batch `what` holds of the state that it meets. -/
def Meets (assertions : Bool) (cfg : Settings) (what : Received → Config → Prop) :
    List Received → Config → Prop
  | [], _ => False
  | received :: rest, c => what received c ∨ ∃ after value,
      dhcpProcessDatagram assertions cfg received.env received.buffer received.len c =
        some (after, value) ∧ Meets assertions cfg what rest after

section Values
variable {assertions : Bool} {cfg : Settings} {env : Env} {c after : Config} {value : Nat}
  {packet : DhcpPacket} {received : Received} {batch : List Received}

/-- `dhcp_hdl_discover` returns 1 exactly when it runs out of memory over a free lease. -/
theorem discover_starves_iff (sound : Sound cfg c)
    (done : dhcpHdlDiscover cfg env packet c = some (after, value)) :
    value = 1 ↔ (∃ position < cfg.blocks, Offering c position) ∧
      (env.alloc .replyPacket = false ∨ env.alloc .replyOptions = false) := by
  rcases discover_searches sound with ⟨search, none_free⟩ | ⟨position, index, search, first, takes⟩
  · rw [discover_exhausted env packet search] at done
    cases done
    simp only [OfNat.ofNat_ne_one, false_iff, not_and]
    rintro ⟨position, inside, offering⟩
    exact absurd offering (none_free position inside)
  · have offering : ∃ position < cfg.blocks, Offering c position :=
      ⟨position, takes.block.inside, takes.block.fit⟩
    obtain ⟨lease, entry, -⟩ := takes.free
    by_cases memory : env.alloc .replyPacket = true
    · rw [discover_found packet search first entry memory] at done
      by_cases options : env.alloc .replyOptions = true
      · simp only [dhcpDefaultOptions, options, ↓reduceIte] at done
        split at done <;> cases done <;> simp [memory, options]
      · simp only [dhcpDefaultOptions, options, Bool.false_eq_true, ↓reduceIte] at done
        cases done
        simp [offering, options]
    · rw [discover_starved packet search first memory] at done
      cases done
      simp [offering, memory]

theorem process_asks_iff (sound : Sound cfg c)
    (done : dhcpProcess cfg env packet c = some (after, value)) :
    value ≠ 0 ↔ messageType packet = dhcpDiscover ∧ (∃ position < cfg.blocks, Offering c position) ∧
      (env.alloc .replyPacket = false ∨ env.alloc .replyOptions = false) := by
  by_cases kind : messageType packet = dhcpDiscover
  · simp only [dhcpProcess, kind, ↓reduceIte] at done
    obtain ⟨⟨final, result⟩, handled, same⟩ := Option.map_eq_some_iff.mp done
    cases same
    simp only [ne_eq, ite_eq_right_iff, one_ne_zero, imp_false, not_not, kind, true_and]
    exact discover_starves_iff sound handled
  · have silent : value = 0 := by
      cases process_cases done with
      | discover is_discover => exact absurd is_discover kind
      | request => rfl
      | release => rfl
      | inform => rfl
      | other => rfl
    simp [silent, kind]

/-- The parser refuses the datagram, or its packet is processed. -/
theorem datagram_cases
    (done : dhcpProcessDatagram assertions cfg received.env received.buffer received.len c =
      some (after, value)) :
    ((∀ packet slots, ntohDhcpPacket assertions received.env received.buffer received.len ≠
        .accepted packet slots) ∧ after = c ∧ value = 0) ∨
      ∃ packet slots, ntohDhcpPacket assertions received.env received.buffer received.len =
        .accepted packet slots ∧
          dhcpProcess cfg received.env packet c = some (after, value) := by
  unfold dhcpProcessDatagram at done
  split at done
  · rename_i parsed
    cases done
    exact .inl ⟨by simp [parsed], rfl, rfl⟩
  · contradiction
  · contradiction
  · rename_i packet slots parsed
    exact .inr ⟨packet, slots, parsed, done⟩

theorem datagram_asks_iff (sound : Sound cfg c)
    (done : dhcpProcessDatagram assertions cfg received.env received.buffer received.len c =
      some (after, value)) : value ≠ 0 ↔ Starving assertions cfg received c := by
  rcases datagram_cases done with ⟨refused, -, rfl⟩ | ⟨packet, slots, parsed, handled⟩
  · have none : ¬ Discovers assertions received := fun ⟨packet, slots, parsed, _⟩ =>
      refused packet slots parsed
    simp [Starving, none]
  · rw [process_asks_iff sound handled, Starving, Discovers, parsed]
    constructor
    · rintro ⟨kind, rest⟩
      exact ⟨⟨packet, slots, rfl, kind⟩, rest⟩
    · rintro ⟨⟨other, slots, same, kind⟩, rest⟩
      cases same
      exact ⟨kind, rest⟩

theorem datagram_sound (sound : Sound cfg c)
    (done : dhcpProcessDatagram assertions cfg received.env received.buffer received.len c =
      some (after, value)) : Sound cfg after := by
  rcases datagram_cases done with ⟨-, rfl, -⟩ | ⟨packet, slots, -, processed⟩
  · exact sound
  · have handled : handle cfg received.env (.client packet) c = some after := by
      simp [handle, processed]
    exact (received_good sound (by simp) handled).1

theorem asked_or (asked told : Nat) :
    asked ||| told ≠ 0 ↔ asked ≠ 0 ∨ told ≠ 0 := by
  rw [ne_eq, Nat.or_eq_zero_iff, not_and_or]

/-- The value of a batch, started with what the datagrams before it have asked. -/
theorem batch_asks {asked : Nat} (sound : Sound cfg c)
    (done : batch.foldlM (readDatagram assertions cfg) (c, asked) = some (after, value)) :
    value ≠ 0 ↔ asked ≠ 0 ∨ Meets assertions cfg (Starving assertions cfg) batch c := by
  induction batch generalizing c asked with
  | nil =>
      cases done
      simp [Meets]
  | cons received rest ih =>
      rw [List.foldlM_cons] at done
      obtain ⟨middle, read, done⟩ := Option.bind_eq_some_iff.mp done
      obtain ⟨⟨next, told⟩, handled, rfl⟩ := Option.map_eq_some_iff.mp read
      rw [ih (datagram_sound sound handled) done]
      have told_or : told ≠ 0 ↔ Starving assertions cfg received c := datagram_asks_iff sound handled
      have further : (∃ after value, dhcpProcessDatagram assertions cfg received.env received.buffer
          received.len c = some (after, value) ∧
            Meets assertions cfg (Starving assertions cfg) rest after) ↔
          Meets assertions cfg (Starving assertions cfg) rest next := by
        simp [handled]
      rw [Meets, further, ← told_or, asked_or, or_assoc]

/-- What `hdl_dhcp` really asks house keeping for. -/
theorem hdl_dhcp_asks (sound : Sound cfg c)
    (done : hdlDhcp assertions cfg batch c = some (after, value)) :
    value ≠ 0 ↔ Meets assertions cfg (Starving assertions cfg) batch c := by
  simpa using batch_asks sound done

theorem meets_some {what : Received → Config → Prop} (met : Meets assertions cfg what batch c) :
    ∃ received ∈ batch, ∃ c, what received c := by
  induction batch generalizing c with
  | nil => contradiction
  | cons received rest ih =>
      rcases met with here | ⟨after, value, -, further⟩
      · exact ⟨received, List.mem_cons_self, c, here⟩
      · obtain ⟨other, member, there⟩ := ih further
        exact ⟨other, List.mem_cons_of_mem _ member, there⟩

end Values

/-! The batch in the event loop. -/

/-- The packets of a batch that the parser accepts. -/
def acceptedPackets (assertions : Bool) (batch : List Received) : List (Env × DhcpPacket) :=
  batch.filterMap fun received =>
    match ntohDhcpPacket assertions received.env received.buffer received.len with
    | .accepted packet _ => some (received.env, packet)
    | _ => none

section Loop
variable {assertions : Bool} {cfg : Settings} {batch : List Received} {after : Config} {value : Nat}

theorem read_dhcp_done {s : LoopState} {env : Env} {packet : DhcpPacket}
    (clock : s.node.clock ≤ env.now)
    (done : dhcpProcess cfg env packet s.node.config = some (after, value)) :
    ∃ t, readDhcp cfg s (env, packet) = some t ∧ t.node = ⟨env.now, after⟩ ∧
      t.learningPhase = s.learningPhase ∧
      t.needHouseKeeping = (s.needHouseKeeping || decide (value ≠ 0)) := by
  have received : ∃ t, receive cfg s (env, .client packet) = some t ∧ t.node = ⟨env.now, after⟩ ∧
      t.learningPhase = s.learningPhase ∧ t.needHouseKeeping = s.needHouseKeeping := by
    rw [receive, if_pos clock, handle, done]
    exact ⟨_, rfl, rfl, rfl, rfl⟩
  obtain ⟨t, read, node, learning, kept⟩ := received
  refine ⟨need (decide (value ≠ 0)) t, ?_, node, learning, by rw [need, kept]⟩
  simp [readDhcp, read, done]

theorem accepted_packets_refused {received : Received} (refused : ∀ packet slots,
    ntohDhcpPacket assertions received.env received.buffer received.len ≠ .accepted packet slots) :
    acceptedPackets assertions (received :: batch) = acceptedPackets assertions batch := by
  cases parsed : ntohDhcpPacket assertions received.env received.buffer received.len with
  | accepted packet slots => exact absurd parsed (refused packet slots)
  | rejected => simp [acceptedPackets, parsed]
  | overrun => simp [acceptedPackets, parsed]
  | aborted => simp [acceptedPackets, parsed]

theorem accepted_packets_cons {received : Received} {packet : DhcpPacket} {slots : List OptionSlot}
    (parsed : ntohDhcpPacket assertions received.env received.buffer received.len =
      .accepted packet slots) : acceptedPackets assertions (received :: batch) =
        (received.env, packet) :: acceptedPackets assertions batch := by
  simp [acceptedPackets, parsed]

/-- The rest of a batch, where the variable has what was asked before it. -/
theorem batch_need {s : LoopState} {before : Bool} {asked : Nat}
    (later : ∀ received ∈ batch, s.node.clock ≤ received.env.now)
    (ordered : (batch.map fun received => received.env.now).Pairwise (· ≤ ·))
    (flag : s.needHouseKeeping = (before || decide (asked ≠ 0)))
    (done : batch.foldlM (readDatagram assertions cfg) (s.node.config, asked) =
      some (after, value)) :
    ∃ t, (acceptedPackets assertions batch).foldlM (readDhcp cfg) s = some t ∧
      t.node.config = after ∧ t.learningPhase = s.learningPhase ∧
      t.needHouseKeeping = (before || decide (value ≠ 0)) := by
  induction batch generalizing s asked with
  | nil =>
      cases done
      exact ⟨s, rfl, rfl, rfl, flag⟩
  | cons received rest ih =>
      rw [List.foldlM_cons] at done
      obtain ⟨middle, read, done⟩ := Option.bind_eq_some_iff.mp done
      obtain ⟨⟨next, told⟩, handled, rfl⟩ := Option.map_eq_some_iff.mp read
      obtain ⟨first, ordered⟩ := List.pairwise_cons.mp ordered
      rcases datagram_cases handled with ⟨refused, rfl, rfl⟩ | ⟨packet, slots, parsed, processed⟩
      · rw [accepted_packets_refused refused]
        exact ih (fun other member => later other (List.mem_cons_of_mem _ member)) ordered flag
          (by simpa using done)
      · have clock : s.node.clock ≤ received.env.now := later received List.mem_cons_self
        obtain ⟨t, read, node, learning, kept⟩ := read_dhcp_done clock processed
        have told_too : t.needHouseKeeping = (before || decide (asked ||| told ≠ 0)) := by
          simp only [kept, flag, asked_or, Bool.or_assoc, Bool.decide_or]
        have behind : ∀ other ∈ rest, t.node.clock ≤ other.env.now := fun other member => by
          rw [node]
          exact first _ (List.mem_map_of_mem member)
        have config : t.node.config = next := by rw [node]
        obtain ⟨u, folded, last, phase, asks⟩ := ih behind ordered told_too (config ▸ done)
        rw [accepted_packets_cons parsed, List.foldlM_cons, read]
        exact ⟨u, folded, last, phase.trans learning, asks⟩

/-- The variable of the loop after the handler returned. -/
theorem hdl_dhcp_need {s : LoopState}
    (later : ∀ received ∈ batch, s.node.clock ≤ received.env.now)
    (ordered : (batch.map fun received => received.env.now).Pairwise (· ≤ ·))
    (done : hdlDhcp assertions cfg batch s.node.config = some (after, value)) :
    ∃ t, epollin cfg s (.dhcp (acceptedPackets assertions batch)) = some t ∧
      t.node.config = after ∧ t.learningPhase = s.learningPhase ∧
      t.needHouseKeeping = (s.needHouseKeeping || decide (value ≠ 0)) := by
  have nothing : s.needHouseKeeping = (s.needHouseKeeping || decide (0 ≠ 0)) := by simp
  exact batch_need later ordered nothing done

end Loop

/-- With memory for the replies the handler asks for nothing, so it is right exactly about the
batches that meet no DISCOVER it has no lease for. -/
theorem exhausted_batch_asks_iff {assertions : Bool} {cfg : Settings} {s : NodeState}
    {batch : List Received} {after : Config} {value : Nat} (reached : Reachable cfg s)
    (memory : ∀ received ∈ batch, ∀ call, received.env.alloc call = true)
    (done : hdlDhcp assertions cfg batch s.config = some (after, value)) :
    (value ≠ 0 ↔ Meets assertions cfg (Exhausting assertions cfg) batch s.config) ↔
      ¬ Meets assertions cfg (Exhausting assertions cfg) batch s.config := by
  have silent : ¬ value ≠ 0 := by
    rw [hdl_dhcp_asks (reachable_good reached).sound done]
    intro met
    obtain ⟨received, member, _, -, -, starved⟩ := meets_some met
    simp [memory received member] at starved
  simp only [silent, false_iff]

/-- A client looks for an address. -/
def discoverRead (now : Time) : Received := ⟨calmEnv now, smallDatagram [53, 1, 1, 255], 244⟩

theorem discover_read_type : Discovers false (discoverRead 1001) :=
  ⟨packetAt (smallDatagram [53, 1, 1, 255]) 2 [⟨53, 1, some 242⟩, ⟨255, 0, none⟩],
    [⟨53, 1, some 242⟩, ⟨255, 0, none⟩], by decide +kernel, by decide +kernel⟩

theorem exhausted_batch_asks_iff_small : ∃ (s : NodeState) (after : Config) (value : Nat),
    hdlDhcp false (smallNode 1) [discoverRead 1010] s.config = some (after, value) ∧
    (value ≠ 0 ↔ Meets false (smallNode 1) (Exhausting false (smallNode 1)) [discoverRead 1010]
      s.config) := by
  have evaluated : (runEvents (smallNode 1) smallStart ownedRun).any (fun s =>
      (hdlDhcp false (smallNode 1) [discoverRead 1010] s.config).any fun _ =>
        (s.config.blocks 0).state = .ours ∧
        (leaseAt (s.config.blocks 0) 0).any isFree = true) = true := by decide +kernel
  obtain ⟨s, run, rest⟩ := (Option.any_eq_true _ _).mp evaluated
  obtain ⟨⟨after, value⟩, done, facts⟩ := (Option.any_eq_true _ _).mp rest
  obtain ⟨own, there⟩ := of_decide_eq_true facts
  obtain ⟨lease, entry, free⟩ := (Option.any_eq_true _ _).mp there
  refine ⟨s, after, value, done, (exhausted_batch_asks_iff (run_reachable run) ?_ done).mpr ?_⟩
  · intro received member call
    obtain rfl := List.mem_singleton.mp member
    rfl
  · rintro (⟨-, exhausted⟩ | further)
    · exact exhausted 0 (by decide) ⟨own, 0, lease, entry, by simpa [isFree] using free⟩
    · simp [Meets] at further

-- The node has no block yet; the client gets nothing, and house keeping is not asked for.
theorem exhausted_unasked : Reachable (smallNode 1) smallStart ∧
    Meets false (smallNode 1) (Exhausting false (smallNode 1)) [discoverRead 1001]
      smallStart.config ∧
    ∃ after, hdlDhcp false (smallNode 1) [discoverRead 1001] smallStart.config = some (after, 0) := by
  have evaluated : (hdlDhcp false (smallNode 1) [discoverRead 1001] smallStart.config).any (fun
      result => result.2 = 0) = true := by decide +kernel
  obtain ⟨⟨after, value⟩, done, silent⟩ := (Option.any_eq_true _ _).mp evaluated
  obtain rfl : value = 0 := of_decide_eq_true silent
  have start : runEvents (smallNode 1) smallStart [] = some smallStart := rfl
  refine ⟨run_reachable start, .inl ⟨discover_read_type, ?_⟩, after, done⟩
  rintro position - ⟨own, -⟩
  contradiction

end Ddhcpd.ClientBatch

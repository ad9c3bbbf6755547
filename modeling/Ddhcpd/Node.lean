import Ddhcpd.LeasePackets
import Ddhcpd.Path

/-!
One node: what `main` sets up, the house keeping run, and the events of its loop. A
run of the node is a path of events under a clock that never goes back; it ends where
a handler faults.
-/

namespace Ddhcpd.Node
open Bytes Types Blocks BlockPackets LeasePackets Dhcp Leases Options Path Loop

/-! The house keeping of `main.c`, call by call. -/

/-- Blocks wanted, rounded as C rounds; negative when there are blocks to spare. -/
def blocksNeeded (cfg : Settings) (spareLeases : Nat) : Int :=
  let leasesNeeded : Int := (cfg.spareLeasesNeeded.toNat : Int) - spareLeases
  let blocks := leasesNeeded.tdiv cfg.blockSize.toNat
  if leasesNeeded.tmod cfg.blockSize.toNat > 0 then blocks + 1 else blocks

/-- What `house_keeping` does between `block_check_timeouts` and `block_update_claims`. -/
def adjustBlocks (cfg : Settings) (env : Env) (c : Config) : Option Config := do
  let spareLeases ← blockNumFreeLeases cfg c
  let needed := blocksNeeded cfg spareLeases
  if needed < 0 then blockDropUnused cfg env c
  else
    let c := if c.needlessMarks ≠ 0 then blockUnmarkNeedless cfg c else c
    return if needed > 0 then blockClaim cfg env needed c else c

def houseKeeping (cfg : Settings) (env : Env) (c : Config) : Option Config := do
  let checked ← blockCheckTimeouts cfg env.now c
  let adjusted ← adjustBlocks cfg env checked
  dhcpPacketListTimeout env.now (blockUpdateClaims cfg env adjusted)

/-! The control socket. What the commands print is not modelled. -/

def ctlBlockShow : UInt8 := 1
def ctlOptionsShow : UInt8 := 2
def ctlOptionSet : UInt8 := 3
def ctlOptionRemove : UInt8 := 4
def ctlLogLevelSet : UInt8 := 5

/-- `handle_command`, with the value it returns. -/
def handleCommand (env : Env) (buffer : List UInt8) (len : Nat) (c : Config) : Config × Int :=
  let command := byteAt buffer 0
  if len = 0 then (c, -2)
  else if command = ctlBlockShow ∨ command = ctlOptionsShow then (c, if len ≠ 1 then -2 else 0)
  else if command = ctlOptionSet then
    if len < 3 ∨ (byteAt buffer 2).toNat + 3 > len then (c, -2)
    else if ¬ env.alloc .controlOption ∨ ¬ env.alloc .controlPayload then (c, -1)
    else
      let payload := (bytesAt buffer 3 (byteAt buffer 2).toNat).toList
      let option := ⟨byteAt buffer 1, byteAt buffer 2, payload⟩
      ({ c with options := setOptionInStore c.options option }, 0)
  else if command = ctlOptionRemove then
    if len < 2 then (c, -2)
    else ({ c with options := removeOptionInStore c.options (byteAt buffer 1) }, 0)
  else if command = ctlLogLevelSet then (c, if len < 2 then -2 else 0)
  else (c, -1)

/-! Events and runs. -/

inductive Event where
  | houseKeeping
  | mcast (buffer : List UInt8) (len : Nat) (sender : In6Addr)
  | direct (buffer : List UInt8) (len : Nat) (sender : In6Addr)
  | client (packet : DhcpPacket)
  | control (buffer : List UInt8) (len : Nat)

def handle (cfg : Settings) (env : Env) : Event → Config → Option Config
  | .houseKeeping, c => houseKeeping cfg env c
  | .mcast buffer len sender, c => some (ddhcpBlockProcess cfg env buffer len sender c)
  | .direct buffer len sender, c => ddhcpDhcpProcess cfg env buffer len sender c
  | .client packet, c => (dhcpProcess cfg env packet c).map Prod.fst
  | .control buffer len, c => some (handleCommand env buffer len c).1

/-- The state of a node between two events: what it keeps, and the clock. -/
structure NodeState where
  clock : Time
  config : Config

/-- One event, handled under one reading of the clock. -/
inductive Step (cfg : Settings) : NodeState → Env × Event → NodeState → Prop where
  | event {clock : Time} {c after : Config} (env : Env) (event : Event) :
      clock ≤ env.now → handle cfg env event c = some after →
      Step cfg ⟨clock, c⟩ (env, event) ⟨env.now, after⟩

/-- What was sent on the way from one state to a later one. -/
def sent (before after : Config) : List Output := after.out.drop before.out.length

def freshBlock (cfg : Settings) (now : Time) (position : Nat) : Block where
  index := UInt32.ofNat position
  state := .free
  subnet := addrAdd cfg.prefixAddr (position * cfg.blockSize.toNat)
  subnetLen := cfg.blockSize
  claimingCounts := 0
  nodeId := zeroBytes 8
  ownerAddress := zeroBytes 16
  firstClaimed := 0
  needlessSince := 0
  timeout := now + cfg.blockTimeout.toNat
  addresses := none

/-- What `main` and `ddhcp_block_init` leave, for any option store. -/
def startConfig (cfg : Settings) (now : Time) (options : List DhcpOption) : Config where
  blocks := freshBlock cfg now
  claimingBlocks := []
  claimingBlocksAmount := 0
  needlessMarks := 0
  dhcpPacketCache := []
  options := options
  out := []

/-- A run of the node from startup in which the world answers as `allowed` says. -/
def Runs (cfg : Settings) (allowed : Env → Prop) (labels : List (Env × Event))
    (s : NodeState) : Prop :=
  ∃ now options, Path (fun s label t => Step cfg s label t ∧ allowed label.1)
    ⟨now, startConfig cfg now options⟩ labels s

def Reachable (cfg : Settings) (s : NodeState) : Prop :=
  ∃ labels, Runs cfg (fun _ => True) labels s

/-! Runs that can be evaluated. -/

def runEvents (cfg : Settings) (s : NodeState) : List (Env × Event) → Option NodeState
  | [] => some s
  | (env, event) :: rest =>
      if s.clock ≤ env.now then
        (handle cfg env event s.config).bind fun after => runEvents cfg ⟨env.now, after⟩ rest
      else none

theorem run_events_path {cfg : Settings} {allowed : Env → Prop} {s t : NodeState}
    {labels : List (Env × Event)} (calm : ∀ label ∈ labels, allowed label.1)
    (done : runEvents cfg s labels = some t) :
    Path (fun s label t => Step cfg s label t ∧ allowed label.1) s labels t := by
  induction labels generalizing s with
  | nil =>
      cases done
      exact .refl _
  | cons label rest ih =>
      simp only [runEvents, Option.ite_none_right_eq_some] at done
      obtain ⟨later, done⟩ := done
      obtain ⟨after, handled, done⟩ := Option.bind_eq_some_iff.mp done
      refine .next ⟨.event label.1 label.2 later handled, calm label List.mem_cons_self⟩ ?_
      exact ih (fun other member => calm other (List.mem_cons_of_mem _ member)) done

theorem run_reachable {cfg : Settings} {now : Time} {options : List DhcpOption}
    {labels : List (Env × Event)} {s : NodeState}
    (run : runEvents cfg ⟨now, startConfig cfg now options⟩ labels = some s) : Reachable cfg s := by
  let allowed : Env → Prop := fun _ => True
  have calm : ∀ label ∈ labels, allowed label.1 := fun _ _ => trivial
  exact ⟨labels, now, options, run_events_path calm run⟩

/-! A network of one block with one address, and a world where everything succeeds. -/

def smallId (id : UInt8) : NodeId := ⟨[0, 0, 0, 0, 0, 0, 0, id], rfl⟩

def smallNode (id : UInt8) : Settings where
  nodeId := smallId id
  numberOfBlocks := 1
  blockTimeout := 60
  blockRefreshFactor := 4
  blockNeedlessTimeout := 300
  tentativeTimeout := 15
  blockSize := 1
  spareLeasesNeeded := 1
  prefixAddr := 0x0A000000
  prefixLen := 32
  hookCommand := none
  littleEndian := true
  size_pos := by decide
  factor_pos := by decide
  network_fits := by decide

def smallStart : NodeState :=
  ⟨1000, startConfig (smallNode 1) 1000 [⟨codeAddressLeaseTime, 4, [0, 0, 1, 44]⟩]⟩

def calmEnv (now : Time) : Env := ⟨now, fun _ => 0, fun _ => true, fun _ => true, true, true⟩

/-- The header of a packet of a node of this network. -/
def smallHeader (sender command count : UInt8) : List UInt8 :=
  [0, 0, 0, 0, 0, 0, 0, sender, 10, 0, 0, 0, 32, 1, command, count]

def smallClaim (sender : UInt8) (timeout : UInt8) : Event :=
  .mcast (smallHeader sender msgUpdateClaim 1 ++ [0, 0, 0, 0, 0, timeout, 0]) 23 (zeroBytes 16)

def smallInquire (sender : UInt8) : Event :=
  .mcast (smallHeader sender msgInquire 1 ++ [0, 0, 0, 0]) 20 (zeroBytes 16)

def smallClient (client : UInt8) : HwAddr := ⟨client :: List.replicate 15 0, rfl⟩

/-- Node 2 renews the lease of the address for a client, or answers such a packet. -/
def smallDirect (command client xid : UInt8) : Event :=
  .direct (smallHeader 2 command 0 ++ [0, 0, 0, 10, 0, 0, 0, xid, 0, 0, 0, 0, client] ++
    List.replicate 15 0) 44 (zeroBytes 16)

/-- A client asks for the address of the network. -/
def smallPacket (client : UInt8) (xid : UInt32) (type : UInt8) : DhcpPacket where
  op := 1
  htype := 1
  hlen := 6
  hops := 0
  xid := xid
  secs := 0
  flags := 0
  chaddr := smallClient client
  sname := zeroBytes 64
  file := zeroBytes 128
  optionsLen := 1
  ciaddr := 0x0A000000
  yiaddr := 0
  siaddr := 0
  giaddr := 0
  options := [⟨codeMessageType, 1, [type]⟩]

/-- Three inquiries that nobody answers, and the block is owned. -/
def ownedRun : List (Env × Event) :=
  [(calmEnv 1000, .houseKeeping), (calmEnv 1001, .houseKeeping), (calmEnv 1002, .houseKeeping),
    (calmEnv 1003, .houseKeeping)]

theorem small_runs {allowed : Env → Prop} {labels : List (Env × Event)} {s : NodeState}
    (calm : ∀ label ∈ labels, allowed label.1)
    (done : runEvents (smallNode 1) smallStart labels = some s) :
    Runs (smallNode 1) allowed labels s :=
  ⟨1000, [⟨codeAddressLeaseTime, 4, [0, 0, 1, 44]⟩], run_events_path calm done⟩

end Ddhcpd.Node

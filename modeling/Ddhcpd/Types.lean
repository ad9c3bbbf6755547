import Ddhcpd.Bytes
import Mathlib.Logic.Function.Basic

/-!
The data of the daemon, after `types.h`, `packet.h`, `dhcp_packet.h` and `hook.h`.
The C structure `ddhcp_config` is split in two: `Settings` holds what `main` fixes
before the event loop, `Config` what the handlers change. A `struct in_addr` is the
number `ntohl` makes of it; a time is the count of seconds `time(NULL)` returns.
-/

namespace Ddhcpd.Types
open Bytes

abbrev NodeId := List.Vector UInt8 8
abbrev HwAddr := List.Vector UInt8 16
abbrev In6Addr := List.Vector UInt8 16
abbrev InAddr := UInt32
abbrev Time := Nat

def zeroBytes (count : Nat) : List.Vector UInt8 count := List.Vector.replicate count 0

/-! Node identifiers are ordered by `NODE_ID_CMP`, the order of their values. -/

def nodeIdCmp (id1 id2 : NodeId) : Int := memcmp id1.toList id2.toList

def nodeRank (id : NodeId) : Nat := bigEndian id.toList

theorem node_id_cmp_neg_iff (id1 id2 : NodeId) :
    nodeIdCmp id1 id2 < 0 ↔ nodeRank id1 < nodeRank id2 :=
  memcmp_neg_iff _ _ (by simp)

theorem node_id_cmp_pos_iff (id1 id2 : NodeId) :
    0 < nodeIdCmp id1 id2 ↔ nodeRank id2 < nodeRank id1 := by
  rw [← node_id_cmp_neg_iff id2 id1]
  have mirrored := memcmp_antisymm id1.toList id2.toList
  simp only [nodeIdCmp]
  omega

theorem node_rank_injective : Function.Injective nodeRank := by
  intro id1 id2 value
  exact List.Vector.eq _ _ (big_endian_injective _ _ (by simp) value)

/-! Leases and blocks. -/

inductive LeaseState where
  | free | offered | leased
  deriving DecidableEq, Repr

structure Lease where
  chaddr : HwAddr
  state : LeaseState
  xid : UInt32
  leaseEnd : Time
  deriving DecidableEq

inductive BlockState where
  | free | tentative | claimed | claiming | ours | blocked
  deriving DecidableEq, Repr

/-- `addresses` is `none` where the C pointer is NULL. -/
structure Block where
  index : UInt32
  state : BlockState
  subnet : InAddr
  subnetLen : UInt8
  claimingCounts : UInt8
  nodeId : NodeId
  ownerAddress : In6Addr
  firstClaimed : Time
  needlessSince : Time
  timeout : Time
  addresses : Option (List Lease)
  deriving DecidableEq

/-! DHCP options and packets. -/

/-- `payload` is what the pointer points at; a handler may read past `len`. -/
structure DhcpOption where
  code : UInt8
  len : UInt8
  payload : List UInt8
  deriving DecidableEq

def codePad : UInt8 := 0
def codeEnd : UInt8 := 255
def codeSubnetMask : UInt8 := 1
def codeTimeOffset : UInt8 := 2
def codeBroadcastAddress : UInt8 := 28
def codeMessageType : UInt8 := 53
def codeRequestedAddress : UInt8 := 50
def codeAddressLeaseTime : UInt8 := 51
def codeServerIdentifier : UInt8 := 54
def codeParameterRequestList : UInt8 := 55

def dhcpDiscover : UInt8 := 1
def dhcpOffer : UInt8 := 2
def dhcpRequest : UInt8 := 3
def dhcpAck : UInt8 := 5
def dhcpNak : UInt8 := 6
def dhcpRelease : UInt8 := 7
def dhcpInform : UInt8 := 8

structure DhcpPacket where
  op : UInt8
  htype : UInt8
  hlen : UInt8
  hops : UInt8
  xid : UInt32
  secs : UInt16
  flags : UInt16
  chaddr : HwAddr
  sname : List.Vector UInt8 64
  file : List.Vector UInt8 128
  optionsLen : UInt8
  ciaddr : InAddr
  yiaddr : InAddr
  siaddr : InAddr
  giaddr : InAddr
  options : List DhcpOption
  deriving DecidableEq

/-- An entry of `dhcp_packet_cache`. It is not `intact` when the copy of its options
ran out of memory: `dhcp_packet_copy` then leaves no valid array behind. -/
structure CachedPacket where
  packet : DhcpPacket
  timeout : Time
  intact : Bool
  deriving DecidableEq

/-! Packets between nodes. -/

structure BlockPayload where
  blockIndex : UInt32
  timeout : UInt16
  reserved : UInt16
  deriving DecidableEq

structure RenewPayload where
  chaddr : HwAddr
  address : UInt32
  xid : UInt32
  leaseSeconds : UInt32
  deriving DecidableEq

def msgUpdateClaim : UInt8 := 1
def msgInquire : UInt8 := 2
def msgRenewLease : UInt8 := 16
def msgLeaseAck : UInt8 := 17
def msgLeaseNak : UInt8 := 18
def msgRelease : UInt8 := 19

/-- The union of the C structure is two fields; a command uses one of them. -/
structure McastPacket where
  nodeId : NodeId
  prefixAddr : InAddr
  prefixLen : UInt8
  blocksize : UInt8
  command : UInt8
  count : UInt8
  payload : List BlockPayload
  renewPayload : RenewPayload
  deriving DecidableEq

/-! The state of a node. -/

/-- What the command line fixes. `main` derives the number of blocks from the
length of the network prefix, which it requires to be at least 8. -/
structure Settings where
  nodeId : NodeId
  numberOfBlocks : UInt32
  blockTimeout : UInt16
  blockRefreshFactor : UInt16
  blockNeedlessTimeout : UInt16
  tentativeTimeout : UInt16
  blockSize : UInt8
  spareLeasesNeeded : UInt8
  prefixAddr : InAddr
  prefixLen : UInt8
  hookCommand : Option String
  littleEndian : Bool
  size_pos : 0 < blockSize.toNat
  factor_pos : 0 < blockRefreshFactor.toNat
  network_fits : numberOfBlocks.toNat * blockSize.toNat ≤ 2 ^ 24

def Settings.blocks (cfg : Settings) : Nat := cfg.numberOfBlocks.toNat

inductive HookAction where
  | lease | release
  deriving DecidableEq, Repr

/-- What leaves the node: datagrams handed to `sendto`, with the outcome where the
code looks at it, and hook commands. -/
inductive Output where
  | mcast (packet : McastPacket) (sent : Bool)
  | direct (packet : McastPacket) (dest : In6Addr)
  | dhcp (type : UInt8) (packet : DhcpPacket) (sent : Bool)
  | hook (action : HookAction) (address : InAddr) (chaddr : HwAddr)
  deriving DecidableEq

/-- `blocks` is an array of `number_of_blocks` entries, of which no other index is
read. `out` is no field of the C structure: it lists all that the node has sent. -/
structure Config where
  blocks : Nat → Block
  claimingBlocks : List Nat
  claimingBlocksAmount : UInt8
  needlessMarks : UInt8
  dhcpPacketCache : List CachedPacket
  options : List DhcpOption
  out : List Output

/-- The calls that may run out of memory, by what they allocate. -/
inductive Alloc where
  | leaseTable (index : Nat)
  | inquirePacket | inquirePayload
  | claimPacket (sends : Nat) | claimPayload (sends : Nat)
  | replyPacket | replyOptions | replyBuffer
  | renewPacket | answerPacket | directBuffer
  | packetCopy | copyOptions | copyPayload (index : Nat)
  | receivedPayload | parsedOptions | controlOption | controlPayload
  deriving DecidableEq

/-- What the world answers while one handler runs: the clock, `rand`, the
allocator, and whether a fork or a send succeeds. Multicast sends are told apart by
how much the node has sent before them. -/
structure Env where
  now : Time
  rand : Nat → Nat
  alloc : Alloc → Bool
  mcastSent : Nat → Bool
  dhcpSent : Bool
  forks : Bool

def Config.emit (c : Config) (output : Output) : Config := { c with out := c.out ++ [output] }

def Config.setBlock (c : Config) (index : Nat) (block : Block) : Config :=
  { c with blocks := Function.update c.blocks index block }

section Updates
variable (c : Config) (index other : Nat) (block : Block) (output : Output)

@[simp] theorem set_block_same : (c.setBlock index block).blocks index = block := by
  simp [Config.setBlock]

@[simp] theorem set_block_self : c.setBlock index (c.blocks index) = c := by
  simp [Config.setBlock]

theorem set_block_other (different : other ≠ index) :
    (c.setBlock index block).blocks other = c.blocks other := by
  simp [Config.setBlock, different]

theorem set_block_apply :
    (c.setBlock index block).blocks other = if other = index then block else c.blocks other := by
  simp [Config.setBlock, Function.update_apply]

@[simp] theorem set_block_claiming :
    (c.setBlock index block).claimingBlocks = c.claimingBlocks := rfl
@[simp] theorem set_block_amount :
    (c.setBlock index block).claimingBlocksAmount = c.claimingBlocksAmount := rfl
@[simp] theorem set_block_marks :
    (c.setBlock index block).needlessMarks = c.needlessMarks := rfl
@[simp] theorem set_block_cache :
    (c.setBlock index block).dhcpPacketCache = c.dhcpPacketCache := rfl
@[simp] theorem set_block_options : (c.setBlock index block).options = c.options := rfl
@[simp] theorem set_block_out : (c.setBlock index block).out = c.out := rfl

@[simp] theorem emit_blocks : (c.emit output).blocks = c.blocks := rfl
@[simp] theorem emit_claiming : (c.emit output).claimingBlocks = c.claimingBlocks := rfl
@[simp] theorem emit_amount :
    (c.emit output).claimingBlocksAmount = c.claimingBlocksAmount := rfl
@[simp] theorem emit_cache : (c.emit output).dhcpPacketCache = c.dhcpPacketCache := rfl
@[simp] theorem emit_options : (c.emit output).options = c.options := rfl
@[simp] theorem emit_out : (c.emit output).out = c.out ++ [output] := rfl
end Updates

end Ddhcpd.Types

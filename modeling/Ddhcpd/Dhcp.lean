import Ddhcpd.Block
import Ddhcpd.Options

/-!
The handlers of `dhcp.c` with the packet cache of `dhcp_packet.c` and the hook calls
of `hook.c`. A client packet is given as `ntoh_dhcp_packet` leaves it. Results are
`none` where a handler touches memory it must not, as in the lease module.
-/

namespace Ddhcpd.Dhcp
open Bytes Types Leases Blocks Options Packet Loop

def dhcpOfferTimeout : Nat := 12
def dhcpLeaseServerDelta : Nat := 10

/-- `dhcp_packet_message_type` -/
def messageType (packet : DhcpPacket) : UInt8 :=
  match findOption packet.options packet.optionsLen codeMessageType with
  | some option => byteAt option.payload 0
  | none => 0

/-- The lifetime of a lease granted now, the server's own margin included. -/
def leaseEndFrom (env : Env) (c : Config) : Time :=
  env.now + (findInOptionStoreAddressLeaseTime c.options).toNat + dhcpLeaseServerDelta

/-! Replies. -/

def buildInitialPacket (fromClient : DhcpPacket) : DhcpPacket where
  op := 2
  htype := fromClient.htype
  hlen := fromClient.hlen
  hops := fromClient.hops
  xid := fromClient.xid
  secs := 0
  flags := fromClient.flags
  chaddr := fromClient.chaddr
  sname := zeroBytes 64
  file := zeroBytes 128
  optionsLen := 0
  ciaddr := fromClient.ciaddr
  yiaddr := 0
  siaddr := 0
  giaddr := fromClient.giaddr
  options := []

/-- `_dhcp_default_options`; `none` when the option array cannot be allocated. -/
def dhcpDefaultOptions (env : Env) (msgType : UInt8) (packet request : DhcpPacket) (c : Config)
    (includeLeaseTime : Bool) : Option DhcpPacket :=
  if env.alloc .replyOptions then
    let filled := fillOptions request.options request.optionsLen c.options 3
    let len := UInt8.ofNat filled.2
    let typed := (setOption filled.1 len codeMessageType 1 [msgType]).1
    let timed := if includeLeaseTime
      then (setOptionFromStore c.options typed len codeAddressLeaseTime).1 else typed
    let options := (setOptionFromStore c.options timed len codeServerIdentifier).1
    some { packet with optionsLen := len, options := options }
  else none

/-- `dhcp_packet_send`, with whether it reports bytes sent. -/
def dhcpPacketSend (env : Env) (type : UInt8) (packet : DhcpPacket) (c : Config) : Config × Bool :=
  if env.alloc .replyBuffer then (c.emit (.dhcp type packet env.dhcpSent), env.dhcpSent)
  else (c, false)

/-- `hook_address` for the two actions that run a command. -/
def hookAddress (cfg : Settings) (env : Env) (action : HookAction) (address : InAddr)
    (chaddr : HwAddr) (c : Config) : Config :=
  if cfg.hookCommand.isSome ∧ env.forks then c.emit (.hook action address chaddr) else c

/-- `dhcp_nack`, with the value it returns. -/
def dhcpNack (env : Env) (fromClient : DhcpPacket) (c : Config) : Config × Nat :=
  if ¬ env.alloc .replyPacket ∨ ¬ env.alloc .replyOptions then (c, 1)
  else
    let options := (setOption [emptyOption] 1 codeMessageType 1 [dhcpNak]).1
    let packet := { buildInitialPacket fromClient with optionsLen := 1, options := options }
    ((dhcpPacketSend env dhcpNak packet c).1, 0)

def leaseTo (request : DhcpPacket) (state : LeaseState) (leaseEnd : Time) (_ : Lease) : Lease :=
  ⟨request.chaddr, state, request.xid, leaseEnd⟩

/-- `dhcp_ack`, with the value it returns. -/
def dhcpAckLease (cfg : Settings) (env : Env) (request : DhcpPacket) (position index : Nat)
    (c : Config) : Option (Config × Nat) :=
  if ¬ env.alloc .replyPacket then some (c, 1)
  else do
    let block ← updateLease (c.blocks position) index
      (leaseTo request .leased (leaseEndFrom env c))
    let c := c.setBlock position block
    let packet := { buildInitialPacket request with yiaddr := addrAdd block.subnet index }
    match dhcpDefaultOptions env dhcpAck packet request c true with
    | none => return (c, 1)
    | some packet =>
        let c := (dhcpPacketSend env dhcpAck packet c).1
        return (hookAddress cfg env .lease packet.yiaddr packet.chaddr c, 0)

/-! Discover. -/

def dhcpHdlDiscover (cfg : Settings) (env : Env) (discover : DhcpPacket) (c : Config) :
    Option (Config × Nat) := do
  match ← blockFindFreeLeases cfg c with
  | none => return (c, 3)
  | some position =>
      let leaseIndex ← dhcpGetFreeLease (c.blocks position)
      if ¬ env.alloc .replyPacket then return (c, 1)
      let block ← updateLease (c.blocks position) leaseIndex
        (leaseTo discover .offered (env.now + dhcpOfferTimeout))
      let c := c.setBlock position block
      let packet := { buildInitialPacket discover with yiaddr := addrAdd block.subnet leaseIndex }
      match dhcpDefaultOptions env dhcpOffer packet discover c true with
      | none => return (c, 1)
      | some packet =>
          let sent := dhcpPacketSend env dhcpOffer packet c
          if sent.2 then
            return (sent.1.setBlock position { sent.1.blocks position with needlessSince := 0 }, 0)
          else return (sent.1, 0)

/-! The cache of forwarded requests. -/

def copyOption (option : DhcpOption) : DhcpOption :=
  { option with payload := (bytesAt option.payload 0 option.len.toNat).toList }

/-- `dhcp_packet_copy` -/
def copyPacket (packet : DhcpPacket) : DhcpPacket :=
  { packet with options := (packet.options.take packet.optionsLen.toNat).map copyOption }

def copySucceeds (env : Env) (packet : DhcpPacket) : Bool :=
  packet.optionsLen = 0 ∨ env.alloc .copyOptions ∧
    (List.range packet.optionsLen.toNat).all fun index => env.alloc (.copyPayload index)

def dhcpPacketListAdd (env : Env) (packet : DhcpPacket) (c : Config) : Config :=
  if env.alloc .packetCopy then
    { c with dhcpPacketCache := c.dhcpPacketCache ++
        [⟨copyPacket packet, env.now + 120, copySucceeds env packet⟩] }
  else c

def cacheMatches (xid : UInt32) (chaddr : HwAddr) (cached : CachedPacket) : Bool :=
  cached.packet.xid = xid ∧ cached.packet.chaddr = chaddr

/-- `dhcp_packet_list_find` takes the entry it finds off the list. -/
def dhcpPacketListFind (xid : UInt32) (chaddr : HwAddr) (c : Config) :
    Option (CachedPacket × Config) :=
  (c.dhcpPacketCache.find? (cacheMatches xid chaddr)).map fun cached =>
    (cached, { c with dhcpPacketCache := c.dhcpPacketCache.eraseP (cacheMatches xid chaddr) })

/-- Entries that are dropped have their options freed. -/
def dhcpPacketListTimeout (now : Time) (c : Config) : Option Config :=
  if (c.dhcpPacketCache.filter fun cached => cached.timeout < now).all CachedPacket.intact then
    some { c with dhcpPacketCache := c.dhcpPacketCache.filter fun cached => ¬ cached.timeout < now }
  else none

/-! Request. -/

/-- `memcpy` between a `struct in_addr` and a `uint32_t` variable, either way. -/
def rawAddress (cfg : Settings) (word : UInt32) : UInt32 :=
  if cfg.littleEndian then swap32 word else word

/-- The address a request is about: option 50, else `ciaddr` unless that is zero. -/
def requestedAddress (request : DhcpPacket) : Option InAddr :=
  match findOptionRequestedAddress request.options request.optionsLen with
  | some payload => some (word32At payload 0)
  | none => if request.ciaddr ≠ 0 then some request.ciaddr else none

def sendPacketDirect (env : Env) (packet : McastPacket) (dest : In6Addr) (c : Config) : Config :=
  if env.alloc .directBuffer then c.emit (.direct packet dest) else c

/-- A request for an address of a block another node holds is kept and forwarded. When
`block_alloc` fails the handler answers with a NAK and goes on all the same. -/
def forwardRequest (cfg : Settings) (env : Env) (request : DhcpPacket) (address : InAddr)
    (position index : Nat) (c : Config) : Option (Config × Int) := do
  let allocated := blockAlloc env position (c.blocks position)
  let c := c.setBlock position allocated.1
  let c := if allocated.2 ≠ 0 then (dhcpNack env request c).1 else c
  let block ← updateLease (c.blocks position) index
    (leaseTo request .offered (leaseEndFrom env c))
  let c := c.setBlock position block
  if ¬ env.alloc .renewPacket then return (c, -12)
  let packet := { newDdhcpPacket cfg msgRenewLease with
    renewPayload := ⟨request.chaddr, rawAddress cfg address, request.xid, 0⟩ }
  let c := dhcpPacketListAdd env request c
  return (sendPacketDirect env packet block.ownerAddress c, 2)

/-- An offered lease may be requested under the transaction of the offer, any lease by
the client registered in it, and a free one by anyone. -/
def mayAcknowledge (request : DhcpPacket) (lease : Lease) : Bool :=
  (lease.state = .offered ∧ lease.xid = request.xid) ∨ request.chaddr = lease.chaddr ∨
    lease.state = .free

def isOffered (request : DhcpPacket) (lease : Lease) : Bool :=
  lease.state = .offered ∧ lease.xid = request.xid ∧ request.chaddr = lease.chaddr

/-- The search of a request that names no address, over all our blocks. -/
def findOfferedLease (cfg : Settings) (request : DhcpPacket) (c : Config) :
    Option (Option (Nat × Nat)) :=
  loopM (fun k found =>
    match found with
    | some lease => some (some lease)
    | none =>
        if (c.blocks k).state = .ours then
          (firstLease (isOffered request) (c.blocks k) (c.blocks k).subnetLen.toNat 0).map
            fun index => index.map fun index => (k, index)
        else some none) cfg.blocks none

def dhcpHdlRequest (cfg : Settings) (env : Env) (request : DhcpPacket) (c : Config) :
    Option (Config × Int) :=
  match requestedAddress request with
  | some address =>
      let found := findLeaseFromAddress cfg c address
      let block := c.blocks found.block
      if found.status = 2 then some ((dhcpNack env request c).1, 2)
      else if block.state = .claimed then
        forwardRequest cfg env request address found.block found.lease c
      else if block.state = .ours then do
        let lease ← leaseAt block found.lease
        if mayAcknowledge request lease then
          let acked ← dhcpAckLease cfg env request found.block found.lease c
          return (acked.1, acked.2)
        else return ((dhcpNack env request c).1, 2)
      else if blockNumOwned cfg c > 0 then some ((dhcpNack env request c).1, 2)
      else some (c, 2)
  | none => do
      match ← findOfferedLease cfg request c with
      | some (position, index) =>
          let acked ← dhcpAckLease cfg env request position index c
          return (acked.1, acked.2)
      | none => return ((dhcpNack env request c).1, 2)

/-! Release and inform. -/

/-- The hook is given the address fields of the packet, not of the lease. -/
def dhcpHdlRelease (cfg : Settings) (env : Env) (packet : DhcpPacket) (c : Config) :
    Option Config :=
  let found := findLeaseFromAddress cfg c packet.ciaddr
  if found.status = 0 then do
    let lease ← leaseAt (c.blocks found.block) found.lease
    if packet.chaddr = lease.chaddr then
      let block ← releaseLease (c.blocks found.block) found.lease
      return hookAddress cfg env .release packet.yiaddr packet.chaddr (c.setBlock found.block block)
    else return c
  else some c

def dhcpHdlInform (env : Env) (request : DhcpPacket) (c : Config) : Config :=
  if ¬ env.alloc .replyPacket then c
  else
    match dhcpDefaultOptions env dhcpAck (buildInitialPacket request) request c false with
    | none => c
    | some packet => (dhcpPacketSend env dhcpAck packet c).1

/-- `dhcp_process` from the parsed packet on, with the value it returns. -/
def dhcpProcess (cfg : Settings) (env : Env) (packet : DhcpPacket) (c : Config) :
    Option (Config × Nat) :=
  if messageType packet = dhcpDiscover then
    (dhcpHdlDiscover cfg env packet c).map fun result =>
      (result.1, if result.2 = 1 then 1 else 0)
  else if messageType packet = dhcpRequest then
    (dhcpHdlRequest cfg env packet c).map fun result => (result.1, 0)
  else if messageType packet = dhcpRelease then
    (dhcpHdlRelease cfg env packet c).map fun c => (c, 0)
  else if messageType packet = dhcpInform then some (dhcpHdlInform env packet c, 0)
  else some (c, 0)

/-! Requests other nodes forward, and their answers. -/

/-- `dhcp_rhdl_request`, with the value it returns. Only the end of the lease changes. -/
def dhcpRhdlRequest (cfg : Settings) (env : Env) (address : UInt32) (c : Config) :
    Option (Config × Nat) :=
  let found := findLeaseFromAddress cfg c (rawAddress cfg address)
  if found.status = 0 then
    (updateLease (c.blocks found.block) found.lease fun lease =>
      { lease with leaseEnd := leaseEndFrom env c }).map fun block =>
        (c.setBlock found.block block, 0)
  else some (c, found.status)

/-- `dhcp_rhdl_ack`, with the value it returns. -/
def dhcpRhdlAck (cfg : Settings) (env : Env) (request : DhcpPacket) (c : Config) :
    Option (Config × Nat) :=
  let found := findLeaseFromAddress cfg c ((requestedAddress request).getD 0)
  if found.status ≠ 1 then some (c, 1)
  else dhcpAckLease cfg env request found.block found.lease c

/-- `dhcp_release_lease` -/
def dhcpReleaseLease (cfg : Settings) (address : UInt32) (c : Config) : Option Config :=
  let found := findLeaseFromAddress cfg c (rawAddress cfg address)
  if found.status = 0 then
    (releaseLease (c.blocks found.block) found.lease).map (c.setBlock found.block)
  else some c

end Ddhcpd.Dhcp

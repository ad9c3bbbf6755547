import Ddhcpd.Block

/-!
The half of `ddhcp.c` that agrees on blocks: how a node takes in the claims and
inquiries of the others. A defended block has its deadline set to 0 first, so that
the update pass that follows names it.
-/

namespace Ddhcpd.BlockPackets
open Types Blocks Packet

/-- One claim of a packet in `ddhcp_block_process_claims`. -/
def processClaim (cfg : Settings) (env : Env) (packet : McastPacket) (sender : In6Addr)
    (c : Config) (claim : BlockPayload) : Config :=
  let position := claim.blockIndex.toNat
  let block := c.blocks position
  if cfg.blocks ≤ position then c
  else if block.state = .ours ∧ nodeIdCmp packet.nodeId cfg.nodeId < 0 then
    blockUpdateClaims cfg env (c.setBlock position { block with timeout := 0 })
  else
    c.setBlock position { block with
      state := .claimed
      timeout := env.now + claim.timeout.toNat
      ownerAddress := sender
      nodeId := packet.nodeId }

def ddhcpBlockProcessClaims (cfg : Settings) (env : Env) (packet : McastPacket)
    (sender : In6Addr) (c : Config) : Config :=
  (packet.payload.take packet.count.toNat).foldl (processClaim cfg env packet sender) c

/-- One entry of a packet in `ddhcp_block_process_inquire`. -/
def processInquire (cfg : Settings) (env : Env) (packet : McastPacket) (c : Config)
    (entry : BlockPayload) : Config :=
  let position := entry.blockIndex.toNat
  let block := c.blocks position
  let tentative := { block with
    state := .tentative
    timeout := env.now + cfg.tentativeTimeout.toNat }
  if cfg.blocks ≤ position then c
  else if block.state = .ours then
    blockUpdateClaims cfg env (c.setBlock position { block with timeout := 0 })
  else if block.state = .claiming then
    -- a smaller node is expected to see our own inquiry and to step back
    if nodeIdCmp packet.nodeId cfg.nodeId > 0 then c.setBlock position tentative else c
  else c.setBlock position tentative

def ddhcpBlockProcessInquire (cfg : Settings) (env : Env) (packet : McastPacket)
    (c : Config) : Config :=
  (packet.payload.take packet.count.toNat).foldl (processInquire cfg env packet) c

/-- `ddhcp_check_packet` finds a packet of another swarm. -/
def foreign (cfg : Settings) (packet : McastPacket) : Bool :=
  packet.prefixAddr ≠ cfg.prefixAddr ∨ packet.prefixLen ≠ cfg.prefixLen ∨
    packet.blocksize ≠ cfg.blockSize

/-- `ddhcp_block_process` from the decoded packet on. -/
def ddhcpBlockDispatch (cfg : Settings) (env : Env) (packet : McastPacket) (sender : In6Addr)
    (c : Config) : Config :=
  if foreign cfg packet then c
  else if packet.command = msgUpdateClaim then ddhcpBlockProcessClaims cfg env packet sender c
  else if packet.command = msgInquire then ddhcpBlockProcessInquire cfg env packet c
  else c

def ddhcpBlockProcess (cfg : Settings) (env : Env) (buffer : List UInt8) (len : Nat)
    (sender : In6Addr) (c : Config) : Config :=
  match ntohMcastPacket env buffer len with
  | some packet => ddhcpBlockDispatch cfg env packet sender c
  | none => c

end Ddhcpd.BlockPackets

import Ddhcpd.Lease
import Ddhcpd.Packet

/-!
`block.c`: owning, freeing, claiming and refreshing blocks. A pointer to a block is
its position in the array. The functions that look into lease tables are partial as
in the lease module; the others cannot fault.
-/

namespace Ddhcpd.Blocks
open Types Loop Leases Packet

def freshLease : Lease := ⟨zeroBytes 16, .free, 0, 0⟩

/-- `block_alloc`, with the value it returns. -/
def blockAlloc (env : Env) (position : Nat) (block : Block) : Block × Nat :=
  if block.addresses.isSome then (block, 0)
  else if env.alloc (.leaseTable position) then
    ({ block with addresses := some (List.replicate block.subnetLen.toNat freshLease) }, 0)
  else (block, 1)

/-- `block_own`, with the value it returns. -/
def blockOwn (cfg : Settings) (env : Env) (position : Nat) (block : Block) : Block × Nat :=
  let allocated := blockAlloc env position block
  if allocated.2 ≠ 0 then (allocated.1, 1)
  else ({ allocated.1 with state := .ours, firstClaimed := env.now, nodeId := cfg.nodeId }, 0)

def blockFree (block : Block) : Block :=
  let cleared :=
    if block.state ≠ .blocked then { block with nodeId := zeroBytes 8, state := .free } else block
  if cleared.addresses.isSome then { cleared with addresses := none, needlessSince := 0 }
  else cleared

/-- `block_find_free`: a random one of the free blocks, told apart by the number of
the call within the handler. -/
def blockFindFree (cfg : Settings) (env : Env) (call : Nat) (c : Config) : Option Nat :=
  let free := (List.range cfg.blocks).filter fun k => (c.blocks k).state = .free
  free[env.rand call % free.length]?

/-! `block_claim` -/

def unlist (c : Config) (position : Nat) : Config :=
  { c with
    claimingBlocks := c.claimingBlocks.erase position
    claimingBlocksAmount := c.claimingBlocksAmount - 1 }

/-- One round of the loop over the claiming list, with the number of blocks still
wanted. A counter of 3 is looked at before the state of the block is. -/
def claimListed (cfg : Settings) (env : Env) (work : Config × Int) (position : Nat) :
    Config × Int :=
  let block := work.1.blocks position
  if block.claimingCounts = 3 then
    let owned := blockOwn cfg env position block
    if owned.2 > 0 then
      (unlist (work.1.setBlock position { owned.1 with claimingCounts := 0 }) position, work.2)
    else (unlist (work.1.setBlock position owned.1) position, work.2 - 1)
  else if block.state ≠ .claiming then (unlist work.1 position, work.2)
  else work

/-- One round of the search for further blocks. -/
def claimFresh (cfg : Settings) (env : Env) (call : Nat) (c : Config) : Config :=
  match blockFindFree cfg env call c with
  | some position =>
      { c.setBlock position { c.blocks position with
          state := .claiming
          claimingCounts := 0
          timeout := env.now + cfg.tentativeTimeout.toNat } with
        claimingBlocks := c.claimingBlocks ++ [position]
        claimingBlocksAmount := c.claimingBlocksAmount + 1 }
  | none => c

def countClaim (c : Config) (position : Nat) : Config :=
  c.setBlock position { c.blocks position with
    claimingCounts := (c.blocks position).claimingCounts + 1 }

def inquirePacket (cfg : Settings) (c : Config) : McastPacket :=
  { newDdhcpPacket cfg msgInquire with
    count := c.claimingBlocksAmount
    payload := c.claimingBlocks.map fun position => ⟨(c.blocks position).index, 0, 0⟩ }

/-- The last part of `block_claim`: one inquiry for all blocks on the list. -/
def sendInquire (cfg : Settings) (env : Env) (c : Config) : Config :=
  if c.claimingBlocksAmount < 1 then c
  else if ¬ env.alloc .inquirePacket ∨ ¬ env.alloc .inquirePayload then c
  else
    let sent := env.mcastSent c.out.length
    let told := c.emit (.mcast (inquirePacket cfg c) sent)
    if sent then c.claimingBlocks.foldl countClaim told else told

def blockClaim (cfg : Settings) (env : Env) (numBlocks : Int) (c : Config) : Config :=
  let listed := c.claimingBlocks.foldl (claimListed cfg env) (c, numBlocks)
  let needed := (listed.2 - listed.1.claimingBlocksAmount.toNat).toNat
  sendInquire cfg env (loop (claimFresh cfg env) needed listed.1)

/-! Counting and choosing among our blocks. -/

def blockNumFreeLeases (cfg : Settings) (c : Config) : Option Nat :=
  loopM (fun k num => if (c.blocks k).state = .ours then (dhcpNumFree (c.blocks k)).map (num + ·)
    else some num) cfg.blocks 0

/-- The loop never moves on from the first block. -/
def blockNumOwned (cfg : Settings) (c : Config) : Nat :=
  loop (fun _ owned => if (c.blocks 0).state = .ours then owned + 1 else owned) cfg.blocks 0

def blockFindFreeLeases (cfg : Settings) (c : Config) : Option (Option Nat) :=
  loopM (fun k selected =>
    if (c.blocks k).state = .ours then
      (dhcpHasFree (c.blocks k)).map fun hasFree =>
        if hasFree then
          match selected with
          | some chosen =>
              if (c.blocks chosen).firstClaimed > (c.blocks k).firstClaimed then some k
              else some chosen
          | none => some k
        else selected
    else some selected) cfg.blocks none

/-- The choice of `block_drop_unused`: the youngest of our blocks that is all free. -/
def findUnused (cfg : Settings) (c : Config) : Option (Option Nat) :=
  loopM (fun k freeable =>
    if (c.blocks k).state = .ours then
      (dhcpNumFree (c.blocks k)).map fun num =>
        if num = cfg.blockSize.toNat then
          match freeable with
          | some chosen =>
              if (c.blocks chosen).firstClaimed < (c.blocks k).firstClaimed then some k
              else some chosen
          | none => some k
        else freeable
    else some freeable) cfg.blocks none

def blockDropUnused (cfg : Settings) (env : Env) (c : Config) : Option Config :=
  (findUnused cfg c).map fun freeable =>
    match freeable with
    | none => c
    | some chosen =>
        let block := c.blocks chosen
        if block.needlessSince = 0 then
          { c.setBlock chosen { block with needlessSince := env.now } with needlessMarks := 1 }
        else if (block.needlessSince : Int) ≤ env.now - cfg.blockNeedlessTimeout.toNat then
          { c.setBlock chosen (blockFree block) with needlessMarks := 0 }
        else c

def blockUnmarkNeedless (cfg : Settings) (c : Config) : Config :=
  { c with
    blocks := rewriteEach (fun block => { block with needlessSince := 0 }) cfg.blocks c.blocks
    needlessMarks := 0 }

/-! `block_update_claims` -/

def updateClaimMaxBlocks : Nat := 32

def setTimeout (timeout : Time) (c : Config) (entry : BlockPayload) : Config :=
  c.setBlock entry.blockIndex.toNat { c.blocks entry.blockIndex.toNat with timeout := timeout }

def blockUpdateClaimSend (env : Env) (packet : McastPacket) (newBlockTimeout : Time)
    (c : Config) : Config :=
  let sent := env.mcastSent c.out.length
  let told := c.emit (.mcast packet sent)
  if sent then (packet.payload.take packet.count.toNat).foldl (setTimeout newBlockTimeout) told
  else told

/-- The baseline below which a claim is refreshed. -/
def timeoutFactor (cfg : Settings) (now : Time) : Time :=
  now + cfg.blockTimeout.toNat - cfg.blockTimeout.toNat / cfg.blockRefreshFactor.toNat

/-- The state of the grouping loop: the entries of the packet under construction and
whether one of them is below the baseline. -/
structure Grouping where
  config : Config
  entries : List BlockPayload
  sendPacket : Bool

def updateClaimPacket (cfg : Settings) (entries : List BlockPayload) : McastPacket :=
  { newDdhcpPacket cfg msgUpdateClaim with
    count := UInt8.ofNat entries.length
    payload := entries }

def sendGroup (cfg : Settings) (env : Env) (entries : List BlockPayload) (c : Config) : Config :=
  blockUpdateClaimSend env (updateClaimPacket cfg entries)
    (env.now + cfg.blockTimeout.toNat) c

/-- One round of the grouping loop. -/
def groupBlock (cfg : Settings) (env : Env) (k : Nat) (work : Grouping) : Grouping :=
  let block := work.config.blocks k
  if block.state = .ours then
    let sendPacket := work.sendPacket || decide (block.timeout < timeoutFactor cfg env.now)
    let entries := work.entries ++ [⟨block.index, cfg.blockTimeout, 0⟩]
    if entries.length = updateClaimMaxBlocks then
      if sendPacket then ⟨sendGroup cfg env entries work.config, [], false⟩
      else ⟨work.config, [], sendPacket⟩
    else ⟨work.config, entries, sendPacket⟩
  else work

/-- Some block of ours is below the baseline. -/
def needsUpdate (cfg : Settings) (now : Time) (c : Config) : Bool :=
  (List.range cfg.blocks).any fun k =>
    (c.blocks k).state = .ours ∧ (c.blocks k).timeout < timeoutFactor cfg now

def blockUpdateClaims (cfg : Settings) (env : Env) (c : Config) : Config :=
  if ¬ needsUpdate cfg env.now c then c
  else if ¬ env.alloc (.claimPacket c.out.length) ∨ ¬ env.alloc (.claimPayload c.out.length) then c
  else
    let work := loop (groupBlock cfg env) cfg.blocks ⟨c, [], false⟩
    if work.sendPacket then sendGroup cfg env work.entries work.config else work.config

/-! `block_check_timeouts` -/

/-- One round of the loop, for one block. -/
def checkBlock (now : Time) (block : Block) : Option Block :=
  let block := if block.timeout < now ∧ block.state ≠ .blocked ∧ block.state ≠ .free
    then blockFree block else block
  if block.state = .ours then (dhcpCheckTimeouts now block).map Prod.fst
  else if block.addresses.isSome then
    (dhcpCheckTimeouts now block).map fun checked =>
      if checked.2 = block.subnetLen.toNat then blockFree checked.1 else checked.1
  else some block

def blockCheckTimeouts (cfg : Settings) (now : Time) (c : Config) : Option Config :=
  (rewriteEachM (checkBlock now) cfg.blocks c.blocks).map fun blocks => { c with blocks := blocks }

end Ddhcpd.Blocks

import Ddhcpd.BlockPackets
import Ddhcpd.Dhcp

/-!
The half of `ddhcp.c` that carries forwarded requests between nodes. A node that gets
a request for a foreign block asks the holder to renew the lease and answers its
client when the holder has answered.
-/

namespace Ddhcpd.LeasePackets
open Types Packet Dhcp BlockPackets

def ddhcpDhcpRenewlease (cfg : Settings) (env : Env) (packet : McastPacket) (sender : In6Addr)
    (c : Config) : Option Config := do
  let handled ← dhcpRhdlRequest cfg env packet.renewPayload.address c
  if handled.2 = 2 ∨ ¬ env.alloc .answerPacket then return handled.1
  let command := if handled.2 = 0 then msgLeaseAck else msgLeaseNak
  let answer := { newDdhcpPacket cfg command with renewPayload := packet.renewPayload }
  return sendPacketDirect env answer sender handled.1

/-- The cached request is taken off the list, used and freed with its options. -/
def ddhcpDhcpLeaseack (cfg : Settings) (env : Env) (request : McastPacket) (c : Config) :
    Option Config :=
  match dhcpPacketListFind request.renewPayload.xid request.renewPayload.chaddr c with
  | none => some c
  | some (cached, c) =>
      if cached.intact then (dhcpRhdlAck cfg env cached.packet c).map Prod.fst else none

def ddhcpDhcpLeasenak (env : Env) (request : McastPacket) (c : Config) : Option Config :=
  match dhcpPacketListFind request.renewPayload.xid request.renewPayload.chaddr c with
  | none => some c
  | some (cached, c) =>
      if cached.intact then some (dhcpNack env cached.packet c).1 else none

def ddhcpDhcpRelease (cfg : Settings) (packet : McastPacket) (c : Config) : Option Config :=
  dhcpReleaseLease cfg packet.renewPayload.address c

/-- `ddhcp_dhcp_process` from the decoded packet on. -/
def ddhcpDhcpDispatch (cfg : Settings) (env : Env) (packet : McastPacket) (sender : In6Addr)
    (c : Config) : Option Config :=
  if foreign cfg packet then some c
  else if packet.command = msgRenewLease then ddhcpDhcpRenewlease cfg env packet sender c
  else if packet.command = msgLeaseAck then ddhcpDhcpLeaseack cfg env packet c
  else if packet.command = msgLeaseNak then ddhcpDhcpLeasenak env packet c
  else if packet.command = msgRelease then ddhcpDhcpRelease cfg packet c
  else some c

def ddhcpDhcpProcess (cfg : Settings) (env : Env) (buffer : List UInt8) (len : Nat)
    (sender : In6Addr) (c : Config) : Option Config :=
  match ntohMcastPacket env buffer len with
  | some packet => ddhcpDhcpDispatch cfg env packet sender c
  | none => some c

end Ddhcpd.LeasePackets

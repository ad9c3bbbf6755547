import Ddhcpd.Handlers
import Ddhcpd.Wire

/-!
A forwarded request between hosts of different byte orders. The address is copied into the
packet as it stands in memory, in network order; encoding and decoding then turn it as if it
stood in host order. The two turns cancel on hosts of one byte order.
-/

namespace Ddhcpd.ByteOrder
open Bytes Types Leases Dhcp Packet Words Wire Handlers Node Invariant

/-- The address that `dhcp_rhdl_request` looks up for a received packet. -/
def lookedUp (owner : Settings) (packet : McastPacket) : InAddr :=
  rawAddress owner packet.renewPayload.address

theorem rhdl_request_looks_up (owner : Settings) (env : Env) (packet : McastPacket) (c : Config) :
    dhcpRhdlRequest owner env packet.renewPayload.address c =
      let found := findLeaseFromAddress owner c (lookedUp owner packet)
      if found.status = 0 then
        (updateLease (c.blocks found.block) found.lease fun lease =>
          { lease with leaseEnd := leaseEndFrom env c }).map fun block =>
            (c.setBlock found.block block, 0)
      else some (c, found.status) := rfl

/-- The request arrives at the owner with the address it was made for. -/
def ReachesOwner (forwarder owner : Settings) (env : Env) (request : DhcpPacket)
    (address : InAddr) : Prop :=
  ∃ received, ntohMcastPacket env (htonPacket (renewPacket forwarder request address))
      (htonPacket (renewPacket forwarder request address)).length = some received ∧
    lookedUp owner received = address

theorem raw_address_twice (forwarder owner : Settings) (address : InAddr) :
    rawAddress owner (rawAddress forwarder address) = address ↔
      forwarder.littleEndian = owner.littleEndian ∨ swap32 address = address := by
  unfold rawAddress
  cases forwarder.littleEndian <;> cases owner.littleEndian <;> simp [swap32_swap32]

theorem reaches_owner_iff (forwarder owner : Settings) (env : Env) (request : DhcpPacket)
    (address : InAddr) : ReachesOwner forwarder owner env request address ↔
      env.alloc .receivedPayload = true ∧
        (forwarder.littleEndian = owner.littleEndian ∨ swap32 address = address) := by
  let packet := renewPacket forwarder request address
  have encodable : Encodable packet := lease_encodable (.inl rfl)
  have sized : packet.command ≠ msgRelease := by
    show msgRenewLease ≠ msgRelease
    decide
  have read : ntohMcastPacket env (htonPacket packet) (htonPacket packet).length =
      if env.alloc .receivedPayload then some (Wire.received packet) else none := by
    have size := hton_length encodable sized
    rw [ntoh_read, header_command, header_count, packet_read_hton encodable, ← size]
    simp
  have address_kept : lookedUp owner (Wire.received packet) =
      rawAddress owner (rawAddress forwarder address) := rfl
  unfold ReachesOwner
  rw [read, ← raw_address_twice, ← address_kept]
  constructor
  · rintro ⟨received, decoded, looks⟩
    split at decoded
    · rename_i memory
      cases decoded
      exact ⟨memory, looks⟩
    · contradiction
  · rintro ⟨memory, looks⟩
    exact ⟨_, if_pos memory, looks⟩

/-- The packet `dhcp_hdl_request` builds is the one above; it reaches the owner with its
address on hosts of one byte order, and otherwise only if the address reads the same in
both. -/
theorem renewal_reaches_owner_iff {forwarder owner : Settings} {env : Env} {request : DhcpPacket}
    {address : InAddr} (asked : requestedAddress request = some address) :
    (∀ sender c after value packet dest,
      dhcpHdlRequest forwarder sender request c = some (after, value) →
      .direct packet dest ∈ sent c after → packet = renewPacket forwarder request address) ∧
    (ReachesOwner forwarder owner env request address ↔ env.alloc .receivedPayload = true ∧
      (forwarder.littleEndian = owner.littleEndian ∨ swap32 address = address)) := by
  refine ⟨?_, reaches_owner_iff forwarder owner env request address⟩
  intro sender c after value packet dest handled member
  let allowed : Output → Prop := fun output => ∀ packet dest, output = .direct packet dest →
    packet = renewPacket forwarder request address
  have emits : Emits allowed c after := by
    apply requested_emits (request_cases handled)
    · intro reply sent packet dest other
      contradiction
    · intro other dest' askedOther packet dest same
      cases same
      cases asked.symm.trans askedOther
      rfl
    · intro reply sent _ packet dest other
      contradiction
    · intro other packet dest same
      contradiction
  exact emits_sent emits member packet dest rfl

/-! Two small hosts of different byte order. -/

def bigEndianNode : Settings := { smallNode 1 with littleEndian := false }

theorem renewal_reaches_owner_iff_small :
    (∀ sender c after value packet dest,
      dhcpHdlRequest (smallNode 2) sender (smallPacket 1 7 dhcpRequest) c = some (after, value) →
      .direct packet dest ∈ sent c after →
      packet = renewPacket (smallNode 2) (smallPacket 1 7 dhcpRequest) 0x0A000000) ∧
    (ReachesOwner (smallNode 2) (smallNode 1) (calmEnv 0) (smallPacket 1 7 dhcpRequest) 0x0A000000 ↔
      (calmEnv 0).alloc .receivedPayload = true ∧
        ((smallNode 2).littleEndian = (smallNode 1).littleEndian ∨
          swap32 0x0A000000 = 0x0A000000)) :=
  renewal_reaches_owner_iff (by decide +kernel)

-- 10.0.0.0 arrives as 0.0.0.10.
theorem renewal_misses_owner : requestedAddress (smallPacket 1 7 dhcpRequest) = some 0x0A000000 ∧
    ¬ ReachesOwner (smallNode 2) bigEndianNode (calmEnv 0) (smallPacket 1 7 dhcpRequest)
      0x0A000000 := by
  refine ⟨by decide +kernel, fun reaches => ?_⟩
  rcases ((reaches_owner_iff _ _ _ _ _).mp reaches).2 with order | palindrome
  · exact absurd order (by decide)
  · exact absurd palindrome (by decide)

end Ddhcpd.ByteOrder

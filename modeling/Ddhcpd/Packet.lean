import Ddhcpd.Types

/-!
`packet.c`: the packets nodes exchange and how a received datagram is decoded. A
datagram is the receive buffer together with the number of bytes received; the
header is read before that number is looked at.
-/

namespace Ddhcpd.Packet
open Bytes Types

/-- `_packet_size`. Release packets are not among the commands it knows. -/
def packetSize (command : UInt8) (payloadCount : Nat) : Int :=
  if command = msgUpdateClaim then 16 + payloadCount * 7
  else if command = msgInquire then 16 + payloadCount * 4
  else if command = msgLeaseAck ∨ command = msgLeaseNak ∨ command = msgRenewLease then 16 + 28
  else -1

def noRenewPayload : RenewPayload := ⟨zeroBytes 16, 0, 0, 0⟩

def newDdhcpPacket (cfg : Settings) (command : UInt8) : McastPacket where
  nodeId := cfg.nodeId
  prefixAddr := cfg.prefixAddr
  prefixLen := cfg.prefixLen
  blocksize := cfg.blockSize
  command := command
  count := 0
  payload := []
  renewPayload := noRenewPayload

def updateClaimAt (buffer : List UInt8) (k : Nat) : BlockPayload :=
  ⟨word32At buffer (16 + 7 * k), word16At buffer (20 + 7 * k), (byteAt buffer (22 + 7 * k)).toUInt16⟩

def inquireAt (buffer : List UInt8) (k : Nat) : BlockPayload :=
  ⟨word32At buffer (16 + 4 * k), 0, 0⟩

def renewAt (buffer : List UInt8) : RenewPayload :=
  ⟨bytesAt buffer 28 16, word32At buffer 16, word32At buffer 20, word32At buffer 24⟩

/-- `none` is any non-zero return value; the caller drops the datagram then. -/
def ntohMcastPacket (env : Env) (buffer : List UInt8) (len : Nat) : Option McastPacket :=
  let packet : McastPacket :=
    { nodeId := bytesAt buffer 0 8
      prefixAddr := word32At buffer 8
      prefixLen := byteAt buffer 12
      blocksize := byteAt buffer 13
      command := byteAt buffer 14
      count := byteAt buffer 15
      payload := []
      renewPayload := noRenewPayload }
  if packetSize packet.command packet.count.toNat ≠ len then none
  else if packet.command = msgUpdateClaim then
    if env.alloc .receivedPayload then
      some { packet with payload := (List.range packet.count.toNat).map (updateClaimAt buffer) }
    else none
  else if packet.command = msgInquire then
    if env.alloc .receivedPayload then
      some { packet with payload := (List.range packet.count.toNat).map (inquireAt buffer) }
    else none
  else if packet.command = msgRenewLease ∨ packet.command = msgLeaseAck ∨
      packet.command = msgLeaseNak ∨ packet.command = msgRelease then
    if env.alloc .receivedPayload then some { packet with renewPayload := renewAt buffer }
    else none
  else none

/-- What a decoded packet looks like. A release packet never gets past the length
check, and the payload has as many entries as the header says. -/
theorem decoded_packet {env : Env} {buffer : List UInt8} {len : Nat} {packet : McastPacket}
    (decoded : ntohMcastPacket env buffer len = some packet) :
    ((packet.command = msgUpdateClaim ∨ packet.command = msgInquire) ∧
        packet.payload.length = packet.count.toNat) ∨
      packet.command = msgRenewLease ∨ packet.command = msgLeaseAck ∨
        packet.command = msgLeaseNak := by
  unfold ntohMcastPacket at decoded
  simp only at decoded
  split at decoded
  · contradiction
  rename_i sized
  split at decoded
  · rename_i claim
    simp only [Option.ite_none_right_eq_some, Option.some.injEq] at decoded
    obtain ⟨-, rfl⟩ := decoded
    exact .inl ⟨.inl claim, by simp⟩
  split at decoded
  · rename_i inquire
    simp only [Option.ite_none_right_eq_some, Option.some.injEq] at decoded
    obtain ⟨-, rfl⟩ := decoded
    exact .inl ⟨.inr inquire, by simp⟩
  split at decoded
  · rename_i noClaim noInquire direct
    simp only [Option.ite_none_right_eq_some, Option.some.injEq] at decoded
    obtain ⟨-, rfl⟩ := decoded
    rcases direct with renew | ack | nak | release
    · exact .inr (.inl renew)
    · exact .inr (.inr (.inl ack))
    · exact .inr (.inr (.inr nak))
    · -- the size of a release packet is never the length of a datagram
      rw [release] at sized
      exact absurd sized (by simp [packetSize, msgRelease, msgUpdateClaim, msgInquire,
        msgLeaseAck, msgLeaseNak, msgRenewLease])
  · contradiction

theorem release_undecoded {env : Env} {buffer : List UInt8} {len : Nat} {packet : McastPacket}
    (decoded : ntohMcastPacket env buffer len = some packet) : packet.command ≠ msgRelease := by
  intro release
  rcases decoded_packet decoded with ⟨claim | inquire, -⟩ | renew | ack | nak
  all_goals simp_all [msgRelease, msgUpdateClaim, msgInquire, msgRenewLease, msgLeaseAck,
    msgLeaseNak]

end Ddhcpd.Packet

import Ddhcpd.Node
import Ddhcpd.Words

/-!
`hton_packet`, and what it has to do with `ntoh_mcast_packet`. Fields of the header go out as
they stand in memory, where an address is in network order already; the words of the payload
are turned into network order first.
-/

namespace Ddhcpd.Wire
open Bytes Types Packet Words

def headerBytes (packet : McastPacket) : List UInt8 :=
  packet.nodeId.toList ++ word32Bytes packet.prefixAddr ++
    [packet.prefixLen, packet.blocksize, packet.command, packet.count]

def updateClaimBytes (entry : BlockPayload) : List UInt8 :=
  word32Bytes entry.blockIndex ++ word16Bytes entry.timeout ++ [entry.reserved.toUInt8]

def inquireBytes (entry : BlockPayload) : List UInt8 := word32Bytes entry.blockIndex

def renewBytes (payload : RenewPayload) : List UInt8 :=
  word32Bytes payload.address ++ word32Bytes payload.xid ++ word32Bytes payload.leaseSeconds ++
    payload.chaddr.toList

/-- The entries of a payload that a loop over `count` of them writes. -/
def entries (packet : McastPacket) : List BlockPayload :=
  (List.range packet.count.toNat).map fun k => packet.payload.getD k ⟨0, 0, 0⟩

def payloadBytes (packet : McastPacket) : List UInt8 :=
  if packet.command = msgUpdateClaim then (entries packet).flatMap updateClaimBytes
  else if packet.command = msgInquire then (entries packet).flatMap inquireBytes
  else if packet.command = msgLeaseAck ∨ packet.command = msgLeaseNak ∨
      packet.command = msgRelease ∨ packet.command = msgRenewLease then
    renewBytes packet.renewPayload
  else []

/-- A command whose payload is a list of blocks. -/
def blockCommand (command : UInt8) : Prop := command = msgUpdateClaim ∨ command = msgInquire

/-- A command whose payload is a lease. -/
def leaseCommand (command : UInt8) : Prop :=
  command = msgRenewLease ∨ command = msgLeaseAck ∨ command = msgLeaseNak ∨ command = msgRelease

section Payloads
variable {packet : McastPacket}

theorem payload_claim (command : packet.command = msgUpdateClaim) :
    payloadBytes packet = (entries packet).flatMap updateClaimBytes := by
  rw [payloadBytes, if_pos command]

theorem payload_inquire (command : packet.command = msgInquire) :
    payloadBytes packet = (entries packet).flatMap inquireBytes := by
  rw [payloadBytes, command]
  rfl

theorem payload_lease (command : leaseCommand packet.command) :
    payloadBytes packet = renewBytes packet.renewPayload := by
  rcases command with h | h | h | h
  all_goals
    rw [payloadBytes, h]
    rfl
end Payloads

/-- `hton_packet`: the bytes it writes from the start of the buffer on. -/
def htonPacket (packet : McastPacket) : List UInt8 := headerBytes packet ++ payloadBytes packet

theorem inquire_not_claim : msgInquire ≠ msgUpdateClaim := by decide

/-- A packet as the nodes build it: one of the commands, and for a list of blocks as many
entries as it says, with no more in them than the command carries. -/
structure Encodable (packet : McastPacket) : Prop where
  command : blockCommand packet.command ∨ leaseCommand packet.command
  entries : blockCommand packet.command → packet.payload.length = packet.count.toNat ∧
    ∀ entry ∈ packet.payload, entry.reserved.toNat ≤ 255
  plain : packet.command = msgInquire →
    ∀ entry ∈ packet.payload, entry.timeout = 0 ∧ entry.reserved = 0

/-- The same message, as far as the command uses the payload. -/
structure SameMessage (packet other : McastPacket) : Prop where
  nodeId : packet.nodeId = other.nodeId
  prefixAddr : packet.prefixAddr = other.prefixAddr
  prefixLen : packet.prefixLen = other.prefixLen
  blocksize : packet.blocksize = other.blocksize
  command : packet.command = other.command
  count : packet.count = other.count
  payload : blockCommand packet.command → packet.payload = other.payload
  renewPayload : leaseCommand packet.command → packet.renewPayload = other.renewPayload

/-- The packet fills its datagram, which decodes to the same message. -/
def RoundTrips (env : Env) (packet : McastPacket) : Prop :=
  ((htonPacket packet).length : Int) = packetSize packet.command packet.count.toNat ∧
    ∃ decoded, ntohMcastPacket env (htonPacket packet) (htonPacket packet).length = some decoded ∧
      SameMessage decoded packet

/-! Encoding. -/

@[simp] theorem header_bytes_length (packet : McastPacket) : (headerBytes packet).length = 16 := by
  simp [headerBytes]

@[simp] theorem entries_length (packet : McastPacket) :
    (entries packet).length = packet.count.toNat := by
  simp [entries]

theorem entries_all {packet : McastPacket} (counted : packet.payload.length = packet.count.toNat) :
    entries packet = packet.payload := by
  apply List.ext_getElem
  · simp [counted]
  · intro k left right
    simp [entries, right]

section Header
variable (packet : McastPacket)

theorem header_read (offset : Nat) (inside : offset < 16) :
    byteAt (htonPacket packet) offset = byteAt (headerBytes packet) offset := by
  have there : offset < (headerBytes packet).length := by simpa using inside
  simp [byteAt, htonPacket, List.getElem?_append_left there]

theorem header_tail (offset : Nat) (inside : offset < 4) : byteAt (htonPacket packet) (12 + offset) =
    byteAt [packet.prefixLen, packet.blocksize, packet.command, packet.count] offset := by
  rw [header_read packet _ (by omega)]
  exact byte_at_append (by simp) _ offset

theorem header_node_id : bytesAt (htonPacket packet) 0 8 = packet.nodeId := by
  rw [htonPacket, headerBytes, List.append_assoc, List.append_assoc]
  exact bytes_at_written _ _

theorem header_prefix : word32At (htonPacket packet) 8 = packet.prefixAddr := by
  rw [htonPacket, headerBytes, List.append_assoc, List.append_assoc]
  exact (word32_at_append (by simp) _ 0).trans (word32_at_written _ _)

theorem header_command : byteAt (htonPacket packet) 14 = packet.command :=
  header_tail packet 2 (by decide)

theorem header_count : byteAt (htonPacket packet) 15 = packet.count :=
  header_tail packet 3 (by decide)

end Header

/-- The header of a received datagram. -/
def headerAt (buffer : List UInt8) : McastPacket where
  nodeId := bytesAt buffer 0 8
  prefixAddr := word32At buffer 8
  prefixLen := byteAt buffer 12
  blocksize := byteAt buffer 13
  command := byteAt buffer 14
  count := byteAt buffer 15
  payload := []
  renewPayload := noRenewPayload

theorem header_at_hton (packet : McastPacket) : headerAt (htonPacket packet) =
    { packet with payload := [], renewPayload := noRenewPayload } := by
  have length : byteAt (htonPacket packet) 12 = packet.prefixLen := header_tail packet 0 (by decide)
  have size : byteAt (htonPacket packet) 13 = packet.blocksize := header_tail packet 1 (by decide)
  rw [headerAt, header_node_id, header_prefix, header_command, header_count, length, size]

/-! Payloads. -/

theorem update_claim_length (entry : BlockPayload) : (updateClaimBytes entry).length = 7 := rfl

theorem inquire_length (entry : BlockPayload) : (inquireBytes entry).length = 4 := rfl

theorem renew_length (payload : RenewPayload) : (renewBytes payload).length = 28 := by
  simp [renewBytes]

section Payload
variable {packet : McastPacket} {front : List UInt8} {k : Nat}

theorem update_claim_written (here : front.length = 16 + 7 * k) (entry : BlockPayload)
    (back : List UInt8) : updateClaimAt (front ++ (updateClaimBytes entry ++ back)) k =
      ⟨entry.blockIndex, entry.timeout, entry.reserved.toUInt8.toUInt16⟩ := by
  have index : word32At (front ++ (updateClaimBytes entry ++ back)) (16 + 7 * k) =
      entry.blockIndex := by
    rw [updateClaimBytes, List.append_assoc, List.append_assoc]
    exact (word32_at_append here _ 0).trans (word32_at_written _ _)
  have timeout : word16At (front ++ (updateClaimBytes entry ++ back)) (20 + 7 * k) =
      entry.timeout := by
    rw [updateClaimBytes, List.append_assoc, List.append_assoc, Nat.add_right_comm 16 4]
    exact (word16_at_append here _ 4).trans
      ((word16_at_append (word32_bytes_length _) _ 0).trans (word16_at_written _ _))
  have reserved : byteAt (front ++ (updateClaimBytes entry ++ back)) (22 + 7 * k) =
      entry.reserved.toUInt8 := by
    rw [updateClaimBytes, List.append_assoc, List.append_assoc, Nat.add_right_comm 16 6]
    exact (byte_at_append here _ 6).trans ((byte_at_append (word32_bytes_length _) _ 2).trans
      (byte_at_append (word16_bytes_length _) _ 0))
  rw [updateClaimAt, index, timeout, reserved]

theorem inquire_written (here : front.length = 16 + 4 * k) (entry : BlockPayload)
    (back : List UInt8) :
    inquireAt (front ++ (inquireBytes entry ++ back)) k = ⟨entry.blockIndex, 0, 0⟩ := by
  have index := (word32_at_append here (inquireBytes entry ++ back) 0).trans
    (word32_at_written entry.blockIndex back)
  rw [inquireAt]
  exact congrArg (fun word => (⟨word, 0, 0⟩ : BlockPayload)) index

theorem renew_written (here : front.length = 16) (payload : RenewPayload) :
    renewAt (front ++ renewBytes payload) = payload := by
  have address : word32At (front ++ renewBytes payload) 16 = payload.address := by
    rw [renewBytes, List.append_assoc, List.append_assoc]
    exact (word32_at_append here _ 0).trans (word32_at_written _ _)
  have xid : word32At (front ++ renewBytes payload) 20 = payload.xid := by
    rw [renewBytes, List.append_assoc, List.append_assoc]
    exact (word32_at_append here _ 4).trans
      ((word32_at_append (word32_bytes_length _) _ 0).trans (word32_at_written _ _))
  have seconds : word32At (front ++ renewBytes payload) 24 = payload.leaseSeconds := by
    rw [renewBytes, List.append_assoc, List.append_assoc]
    exact (word32_at_append here _ 8).trans ((word32_at_append (word32_bytes_length _) _ 4).trans
      ((word32_at_append (word32_bytes_length _) _ 0).trans (word32_at_written _ _)))
  have chaddr : bytesAt (front ++ renewBytes payload) 28 16 = payload.chaddr := by
    have words : (word32Bytes payload.address ++ word32Bytes payload.xid ++
        word32Bytes payload.leaseSeconds).length = 12 := rfl
    have written := bytes_at_written payload.chaddr []
    rw [List.append_nil] at written
    rw [renewBytes]
    exact (bytes_at_append here _ 12 16).trans ((bytes_at_append words _ 0 16).trans written)
  rw [renewAt, address, xid, seconds, chaddr]

theorem update_claim_read (command : packet.command = msgUpdateClaim)
    (counted : packet.payload.length = packet.count.toNat)
    (small : ∀ entry ∈ packet.payload, entry.reserved.toNat ≤ 255) :
    (List.range packet.count.toNat).map (updateClaimAt (htonPacket packet)) = packet.payload := by
  apply List.ext_getElem
  · simp [counted]
  · intro k left right
    rcases records_split updateClaimBytes 7 update_claim_length packet.payload k right with
      ⟨front, split, length⟩
    have bytes : htonPacket packet = (headerBytes packet ++ front) ++
        (updateClaimBytes packet.payload[k] ++
          (packet.payload.drop (k + 1)).flatMap updateClaimBytes) := by
      rw [htonPacket, payload_claim command, entries_all counted, split, List.append_assoc]
    have start : (headerBytes packet ++ front).length = 16 + 7 * k := by simp [length]
    have narrow : packet.payload[k].reserved.toUInt8.toUInt16 = packet.payload[k].reserved := by
      have low := small _ (List.getElem_mem right)
      apply UInt16.toNat_inj.mp
      simp
      omega
    rw [List.getElem_map, List.getElem_range, bytes, update_claim_written start, narrow]

theorem inquire_read (command : packet.command = msgInquire)
    (counted : packet.payload.length = packet.count.toNat)
    (plain : ∀ entry ∈ packet.payload, entry.timeout = 0 ∧ entry.reserved = 0) :
    (List.range packet.count.toNat).map (inquireAt (htonPacket packet)) = packet.payload := by
  apply List.ext_getElem
  · simp [counted]
  · intro k left right
    rcases records_split inquireBytes 4 inquire_length packet.payload k right with
      ⟨front, split, length⟩
    have bytes : htonPacket packet = (headerBytes packet ++ front) ++
        (inquireBytes packet.payload[k] ++ (packet.payload.drop (k + 1)).flatMap inquireBytes) := by
      rw [htonPacket, payload_inquire command, entries_all counted, split, List.append_assoc]
    have start : (headerBytes packet ++ front).length = 16 + 4 * k := by simp [length]
    rcases plain _ (List.getElem_mem right) with ⟨timeout, reserved⟩
    rw [List.getElem_map, List.getElem_range, bytes, inquire_written start]
    generalize packet.payload[k] = entry at timeout reserved ⊢
    cases entry
    simp only at timeout reserved
    rw [timeout, reserved]

theorem renew_read (command : leaseCommand packet.command) :
    renewAt (htonPacket packet) = packet.renewPayload := by
  rw [htonPacket, payload_lease command]
  exact renew_written (header_bytes_length packet) _

end Payload

/-! Decoding what was encoded. -/

theorem lease_not_block {command : UInt8} (lease : leaseCommand command) :
    command ≠ msgUpdateClaim ∧ command ≠ msgInquire := by
  rcases lease with h | h | h | h <;> rw [h] <;> decide

/-- What the receiver makes of a packet. -/
def received (packet : McastPacket) : McastPacket :=
  if packet.command = msgUpdateClaim ∨ packet.command = msgInquire then
    { packet with renewPayload := noRenewPayload }
  else { packet with payload := [] }

section RoundTrips
variable {env : Env} {packet : McastPacket}

theorem hton_length (encodable : Encodable packet) (sized : packet.command ≠ msgRelease) :
    ((htonPacket packet).length : Int) = packetSize packet.command packet.count.toNat := by
  rw [htonPacket, List.length_append, header_bytes_length]
  rcases encodable.command with block | lease
  · rcases block with claim | inquire
    · rw [payload_claim claim, records_length updateClaimBytes 7 update_claim_length, entries_length,
        packetSize, if_pos claim]
      omega
    · rw [payload_inquire inquire, records_length inquireBytes 4 inquire_length, entries_length,
        packetSize, inquire, if_neg inquire_not_claim, if_pos rfl]
      omega
  · rw [payload_lease lease, renew_length]
    rcases lease with h | h | h | h
    · rw [h]
      rfl
    · rw [h]
      rfl
    · rw [h]
      rfl
    · exact absurd h sized
end RoundTrips

/-- The packet that stands in a buffer. -/
def packetRead (buffer : List UInt8) : McastPacket :=
  if byteAt buffer 14 = msgUpdateClaim then { headerAt buffer with
    payload := (List.range (byteAt buffer 15).toNat).map (updateClaimAt buffer) }
  else if byteAt buffer 14 = msgInquire then { headerAt buffer with
    payload := (List.range (byteAt buffer 15).toNat).map (inquireAt buffer) }
  else { headerAt buffer with renewPayload := renewAt buffer }

/-- The commands whose packets have a size. -/
theorem packet_size_known {command : UInt8} {count len : Nat}
    (sized : packetSize command count = len) : blockCommand command ∨ leaseCommand command := by
  unfold packetSize at sized
  split_ifs at sized with claim inquire lease
  · exact .inl (.inl claim)
  · exact .inl (.inr inquire)
  · rcases lease with h | h | h
    · exact .inr (.inr (.inl h))
    · exact .inr (.inr (.inr (.inl h)))
    · exact .inr (.inl h)

theorem ntoh_read (env : Env) (buffer : List UInt8) (len : Nat) :
    ntohMcastPacket env buffer len =
      if packetSize (byteAt buffer 14) (byteAt buffer 15).toNat = len ∧ env.alloc .receivedPayload
      then some (packetRead buffer) else none := by
  by_cases sized : packetSize (byteAt buffer 14) (byteAt buffer 15).toNat = len
  · by_cases memory : env.alloc .receivedPayload = true
    · rw [if_pos ⟨sized, memory⟩]
      simp only [ntohMcastPacket, sized, memory, ne_eq, not_true_eq_false, ↓reduceIte, packetRead]
      by_cases claim : byteAt buffer 14 = msgUpdateClaim
      · simp only [headerAt, claim, ↓reduceIte]
      by_cases inquire : byteAt buffer 14 = msgInquire
      · simp only [headerAt, inquire, inquire_not_claim, ↓reduceIte]
      have lease : leaseCommand (byteAt buffer 14) := by
        rcases packet_size_known sized with (h | h) | h
        · exact absurd h claim
        · exact absurd h inquire
        · exact h
      simp only [headerAt, claim, inquire, ↓reduceIte]
      exact if_pos lease
    · rw [if_neg (fun both => memory both.2)]
      simp only [ntohMcastPacket, sized, memory, ne_eq, not_true_eq_false, ↓reduceIte]
      simp
  · rw [if_neg (fun both => sized both.1)]
    simp only [ntohMcastPacket, ne_eq, sized, not_false_eq_true, ↓reduceIte]

section Read
variable {buffer : List UInt8}

theorem packet_read_claim (claim : byteAt buffer 14 = msgUpdateClaim) :
    packetRead buffer = { headerAt buffer with
      payload := (List.range (byteAt buffer 15).toNat).map (updateClaimAt buffer) } :=
  if_pos claim

theorem packet_read_inquire (inquire : byteAt buffer 14 = msgInquire) :
    packetRead buffer = { headerAt buffer with
      payload := (List.range (byteAt buffer 15).toNat).map (inquireAt buffer) } :=
  (if_neg (inquire ▸ inquire_not_claim)).trans (if_pos inquire)

theorem packet_read_lease (lease : leaseCommand (byteAt buffer 14)) :
    packetRead buffer = { headerAt buffer with renewPayload := renewAt buffer } :=
  (if_neg (lease_not_block lease).1).trans (if_neg (lease_not_block lease).2)

end Read

theorem packet_read_hton {packet : McastPacket} (encodable : Encodable packet) :
    packetRead (htonPacket packet) = received packet := by
  have command := header_command packet
  rcases encodable.command with block | lease
  · rcases encodable.entries block with ⟨counted, small⟩
    rcases block with claim | inquire
    · rw [packet_read_claim (command.trans claim), header_at_hton, header_count,
        update_claim_read claim counted small, received, if_pos (.inl claim)]
    · rw [packet_read_inquire (command.trans inquire), header_at_hton, header_count,
        inquire_read inquire counted (encodable.plain inquire), received, if_pos (.inr inquire)]
  · have noBlock := not_or.mpr (lease_not_block lease)
    rw [packet_read_lease (command ▸ lease), header_at_hton, renew_read lease, received,
      if_neg noBlock]

theorem received_same (packet : McastPacket) : SameMessage (received packet) packet := by
  unfold received
  split
  · rename_i block
    exact ⟨rfl, rfl, rfl, rfl, rfl, rfl, fun _ => rfl, fun lease => by
      rcases lease_not_block lease with ⟨noClaim, noInquire⟩
      exact absurd block (not_or.mpr ⟨noClaim, noInquire⟩)⟩
  · rename_i noBlock
    exact ⟨rfl, rfl, rfl, rfl, rfl, rfl, fun block => absurd block noBlock, fun _ => rfl⟩

theorem round_trips_iff {env : Env} {packet : McastPacket} (encodable : Encodable packet) :
    RoundTrips env packet ↔
      packet.command ≠ msgRelease ∧ env.alloc .receivedPayload = true := by
  have read := ntoh_read env (htonPacket packet) (htonPacket packet).length
  rw [header_command, header_count, packet_read_hton encodable] at read
  constructor
  · rintro ⟨size, decoded, reads, -⟩
    constructor
    · intro release
      have none : packetSize packet.command packet.count.toNat = -1 := by
        rw [release]
        rfl
      omega
    · by_contra starved
      rw [read, if_neg (fun both => starved both.2)] at reads
      contradiction
  · rintro ⟨sized, memory⟩
    have length := hton_length encodable sized
    refine ⟨length, received packet, ?_, received_same packet⟩
    rw [read, if_pos ⟨length.symm, memory⟩]

/-! Encoding what was decoded. -/

/-- A datagram of one of the five commands, of the length that its count asks for. -/
def WellFormed (buffer : List UInt8) (len : Nat) : Prop :=
  16 ≤ len ∧
    ((byteAt buffer 14 = msgUpdateClaim ∧ len = 16 + 7 * (byteAt buffer 15).toNat) ∨
      (byteAt buffer 14 = msgInquire ∧ len = 16 + 4 * (byteAt buffer 15).toNat) ∨
      ((byteAt buffer 14 = msgRenewLease ∨ byteAt buffer 14 = msgLeaseAck ∨
        byteAt buffer 14 = msgLeaseNak) ∧ len = 44))

section Decoding
variable {env : Env} {buffer other : List UInt8} {len : Nat}

theorem well_formed_iff : WellFormed buffer len ↔
    packetSize (byteAt buffer 14) (byteAt buffer 15).toNat = len := by
  constructor
  · rintro ⟨-, ⟨claim, size⟩ | ⟨inquire, size⟩ | ⟨lease, rfl⟩⟩
    · rw [packetSize, if_pos claim]
      omega
    · rw [packetSize, inquire, if_neg inquire_not_claim, if_pos rfl]
      omega
    · rcases lease with h | h | h <;> rw [h] <;> rfl
  · intro sized
    unfold packetSize at sized
    split_ifs at sized with claim inquire lease
    · exact ⟨by omega, .inl ⟨claim, by omega⟩⟩
    · exact ⟨by omega, .inr (.inl ⟨inquire, by omega⟩)⟩
    · refine ⟨by omega, .inr (.inr ⟨?_, by omega⟩)⟩
      rcases lease with ack | nak | renew
      · exact .inr (.inl ack)
      · exact .inr (.inr nak)
      · exact .inl renew

theorem update_claim_restores (buffer : List UInt8) (k : Nat) : updateClaimBytes (updateClaimAt buffer k) =
    slice buffer (16 + 7 * k) 7 := by
  have reserved : [(byteAt buffer (22 + 7 * k)).toUInt16.toUInt8] = slice buffer (22 + 7 * k) 1 := by
    simp [slice]
  have front := slice_add buffer (16 + 7 * k) 4 2
  have whole := slice_add buffer (16 + 7 * k) 6 1
  rw [whole, front, updateClaimBytes, updateClaimAt, word32_bytes_slice, word16_bytes_slice,
    reserved]
  simp only [Nat.add_right_comm]

theorem inquire_restores (buffer : List UInt8) (k : Nat) : inquireBytes (inquireAt buffer k) =
    slice buffer (16 + 4 * k) 4 := word32_bytes_slice buffer _

theorem renew_restores (buffer : List UInt8) : renewBytes (renewAt buffer) = slice buffer 16 28 := by
  rw [renewBytes, renewAt, word32_bytes_slice, word32_bytes_slice, word32_bytes_slice,
    bytes_at_slice, ← slice_add, ← slice_add, ← slice_add]

theorem header_restores (buffer : List UInt8) : headerBytes (headerAt buffer) = slice buffer 0 16 := by
  rw [headerBytes, headerAt, word32_bytes_slice, bytes_at_slice, ← slice_add]
  exact (slice_add buffer 0 12 4).symm

theorem well_formed_lease (lease : byteAt buffer 14 = msgRenewLease ∨
    byteAt buffer 14 = msgLeaseAck ∨ byteAt buffer 14 = msgLeaseNak) :
    leaseCommand (byteAt buffer 14) := by
  rcases lease with h | h | h
  · exact .inl h
  · exact .inr (.inl h)
  · exact .inr (.inr (.inl h))

theorem packet_restores (formed : WellFormed buffer len) :
    htonPacket (packetRead buffer) = slice buffer 0 len := by
  have header := header_restores buffer
  rcases formed with ⟨-, ⟨claim, rfl⟩ | ⟨inquire, rfl⟩ | ⟨lease, rfl⟩⟩
  · rw [packet_read_claim claim, htonPacket, payload_claim (by exact claim),
      entries_all (by simp [headerAt]),
      records_slice updateClaimBytes 7 buffer 16 _ _ (update_claim_restores buffer), slice_add]
    exact congrArg (· ++ _) header
  · rw [packet_read_inquire inquire, htonPacket, payload_inquire (by exact inquire),
      entries_all (by simp [headerAt]),
      records_slice inquireBytes 4 buffer 16 _ _ (inquire_restores buffer), slice_add]
    exact congrArg (· ++ _) header
  · have known := well_formed_lease lease
    rw [packet_read_lease known, htonPacket, payload_lease (by exact known), renew_restores]
    exact (congrArg (· ++ _) header).trans (slice_add buffer 0 16 28).symm

theorem header_same (same : buffer.take len = other.take len) (header : 16 ≤ len) :
    headerAt buffer = headerAt other := by
  rw [headerAt, headerAt, bytes_at_same same (by omega), word32_at_same same (by omega),
    byte_at_same same (by omega : 12 < len), byte_at_same same (by omega : 13 < len),
    byte_at_same same (by omega : 14 < len), byte_at_same same (by omega : 15 < len)]

theorem packet_read_same (same : buffer.take len = other.take len)
    (formed : WellFormed buffer len) : packetRead buffer = packetRead other := by
  have header := header_same same formed.1
  have claims : ∀ k, 16 + 7 * k + 7 ≤ len → updateClaimAt buffer k = updateClaimAt other k := by
    intro k inside
    rw [updateClaimAt, updateClaimAt, word32_at_same same (by omega), word16_at_same same (by omega),
      byte_at_same same (by omega)]
  have inquiries : ∀ k, 16 + 4 * k + 4 ≤ len → inquireAt buffer k = inquireAt other k := by
    intro k inside
    rw [inquireAt, inquireAt, word32_at_same same (by omega)]
  have count := byte_at_same same (Nat.lt_of_lt_of_le (by decide : 15 < 16) formed.1)
  have command := byte_at_same same (Nat.lt_of_lt_of_le (by decide : 14 < 16) formed.1)
  rcases formed with ⟨-, ⟨claim, size⟩ | ⟨inquire, size⟩ | ⟨lease, size⟩⟩
  · rw [packet_read_claim claim, packet_read_claim (command ▸ claim), header, ← count]
    have payload : (List.range (byteAt buffer 15).toNat).map (updateClaimAt buffer) =
        (List.range (byteAt buffer 15).toNat).map (updateClaimAt other) := by
      apply List.map_congr_left
      intro k member
      have below := List.mem_range.mp member
      exact claims k (by omega)
    rw [payload]
  · rw [packet_read_inquire inquire, packet_read_inquire (command ▸ inquire), header, ← count]
    have payload : (List.range (byteAt buffer 15).toNat).map (inquireAt buffer) =
        (List.range (byteAt buffer 15).toNat).map (inquireAt other) := by
      apply List.map_congr_left
      intro k member
      have below := List.mem_range.mp member
      exact inquiries k (by omega)
    rw [payload]
  · have known := well_formed_lease lease
    rw [packet_read_lease known, packet_read_lease (command ▸ known), header, renewAt, renewAt,
      bytes_at_same same (by omega), word32_at_same same (by omega), word32_at_same same (by omega),
      word32_at_same same (by omega)]

theorem well_formed_same (same : buffer.take len = other.take len)
    (formed : WellFormed buffer len) : WellFormed other len := by
  have count := byte_at_same same (Nat.lt_of_lt_of_le (by decide : 15 < 16) formed.1)
  have command := byte_at_same same (Nat.lt_of_lt_of_le (by decide : 14 < 16) formed.1)
  unfold WellFormed
  rw [← command, ← count]
  exact formed

theorem ntoh_formed (buffer : List UInt8) (len : Nat) (memory : env.alloc .receivedPayload = true) :
    (WellFormed buffer len ∧ ntohMcastPacket env buffer len = some (packetRead buffer)) ∨
      (¬ WellFormed buffer len ∧ ntohMcastPacket env buffer len = none) := by
  rw [ntoh_read]
  by_cases formed : WellFormed buffer len
  · exact .inl ⟨formed, if_pos ⟨well_formed_iff.mp formed, memory⟩⟩
  · exact .inr ⟨formed, if_neg fun both => formed (well_formed_iff.mpr both.1)⟩

/-- Well-formed datagrams are accepted and no others, whatever stands behind them in the
buffer, and an accepted packet encodes to its datagram. -/
theorem accepts_well_formed (memory : env.alloc .receivedPayload = true)
    (whole : len ≤ buffer.length) :
    ((∃ packet, ntohMcastPacket env buffer len = some packet) ↔ WellFormed buffer len) ∧
      (∀ other, other.take len = buffer.take len →
        ntohMcastPacket env other len = ntohMcastPacket env buffer len) ∧
      ∀ packet, ntohMcastPacket env buffer len = some packet →
        htonPacket packet = buffer.take len := by
  rcases ntoh_formed buffer len memory with ⟨formed, accepted⟩ | ⟨malformed, rejected⟩
  · refine ⟨⟨fun _ => formed, fun _ => ⟨_, accepted⟩⟩, ?_, ?_⟩
    · intro other same
      have again := well_formed_same same.symm formed
      rw [accepted, packet_read_same same.symm formed, ntoh_read,
        if_pos ⟨well_formed_iff.mp again, memory⟩]
    · intro packet decoded
      cases accepted.symm.trans decoded
      rw [packet_restores formed, slice_take whole]
  · refine ⟨⟨?_, fun formed => absurd formed malformed⟩, ?_, ?_⟩
    · rintro ⟨packet, accepted⟩
      cases rejected.symm.trans accepted
    · intro other same
      have again : ¬ WellFormed other len := fun formed => malformed (well_formed_same same formed)
      rw [rejected, ntoh_read, if_neg fun both => again (well_formed_iff.mpr both.1)]
    · intro packet decoded
      cases rejected.symm.trans decoded

end Decoding

/-- A packet about a lease has no entries to fit. -/
theorem lease_encodable {packet : McastPacket} (lease : leaseCommand packet.command) :
    Encodable packet := by
  rcases lease_not_block lease with ⟨noClaim, noInquire⟩
  refine ⟨.inr lease, ?_, ?_⟩
  · rintro (claim | inquire)
    · exact absurd claim noClaim
    · exact absurd inquire noInquire
  · exact fun inquire => absurd inquire noInquire

/-! Packets of the small network. -/

def smallUpdate : McastPacket :=
  { newDdhcpPacket (Node.smallNode 1) msgUpdateClaim with count := 1, payload := [⟨0, 60, 0⟩] }

def smallRelease : McastPacket := newDdhcpPacket (Node.smallNode 1) msgRelease

theorem small_update_encodable : Encodable smallUpdate where
  command := .inl (.inl rfl)
  entries := by
    intro _
    exact ⟨rfl, by decide⟩
  plain := fun inquire => absurd inquire (by decide)

theorem round_trips_iff_small : RoundTrips (Node.calmEnv 0) smallUpdate :=
  (round_trips_iff small_update_encodable).mpr ⟨by decide, rfl⟩

-- A release has no size, so there is no buffer it could be encoded into.
theorem release_without_size : Encodable smallRelease ∧ smallRelease.command = msgRelease ∧
    ¬ RoundTrips (Node.calmEnv 0) smallRelease := by
  refine ⟨lease_encodable (.inr (.inr (.inr rfl))), rfl, ?_⟩
  rintro ⟨size, -⟩
  have none : packetSize smallRelease.command smallRelease.count.toNat = -1 := rfl
  omega

theorem accepts_well_formed_small :
    ((∃ packet, ntohMcastPacket (Node.calmEnv 0) (htonPacket smallUpdate) 23 = some packet) ↔
        WellFormed (htonPacket smallUpdate) 23) ∧
      (∀ other, other.take 23 = (htonPacket smallUpdate).take 23 →
        ntohMcastPacket (Node.calmEnv 0) other 23 =
          ntohMcastPacket (Node.calmEnv 0) (htonPacket smallUpdate) 23) ∧
      ∀ packet, ntohMcastPacket (Node.calmEnv 0) (htonPacket smallUpdate) 23 = some packet →
        htonPacket packet = (htonPacket smallUpdate).take 23 :=
  accepts_well_formed rfl (by decide)

end Ddhcpd.Wire

import Ddhcpd.Loop
import Ddhcpd.Types

/-!
The lease functions of `dhcp.c` and the address arithmetic of `tools.c`. An access
through `block->addresses` that finds the table NULL, or an index past its end, is a
memory fault; the functions return `none` there.
-/

namespace Ddhcpd.Leases
open Types Loop

/-- `addr_add` -/
def addrAdd (subnet : InAddr) (add : Nat) : InAddr := subnet + UInt32.ofNat add

/-- What `find_lease_from_address` returns: status 0 for a block of ours, 1 for any
other block, 2 outside the network, where the two numbers are not written. -/
structure LeaseLookup where
  status : Nat
  block : Nat
  lease : Nat
  deriving DecidableEq

def findLeaseFromAddress (cfg : Settings) (c : Config) (addr : InAddr) : LeaseLookup :=
  let blockNumber := (addr - cfg.prefixAddr).toNat / cfg.blockSize.toNat
  let leaseNumber := (addr - cfg.prefixAddr).toNat % cfg.blockSize.toNat
  if blockNumber < cfg.blocks then
    ⟨if (c.blocks blockNumber).state = .ours then 0 else 1, blockNumber, leaseNumber⟩
  else ⟨2, 0, 0⟩

/-! One entry of a table. -/

def leaseAt (block : Block) (index : Nat) : Option Lease :=
  block.addresses.bind fun table => table[index]?

def updateLease (block : Block) (index : Nat) (change : Lease → Lease) : Option Block :=
  (leaseAt block index).map fun lease =>
    { block with addresses := block.addresses.map fun table => table.set index (change lease) }

def Lease.released (lease : Lease) : Lease :=
  { lease with chaddr := zeroBytes 16, xid := 0, state := .free }

/-- `_dhcp_release_lease` -/
def releaseLease (block : Block) (index : Nat) : Option Block :=
  updateLease block index Lease.released

/-! Searches and counts over a table. -/

/-- The first entry from `index` on, within the next `count`, that passes the test. -/
def firstLease (test : Lease → Bool) (block : Block) : Nat → Nat → Option (Option Nat)
  | 0, _ => some none
  | count + 1, index =>
      (leaseAt block index).bind fun lease =>
        if test lease then some (some index) else firstLease test block count (index + 1)

def isFree (lease : Lease) : Bool := lease.state = .free

/-- `dhcp_has_free` -/
def dhcpHasFree (block : Block) : Option Bool :=
  (firstLease isFree block block.subnetLen.toNat 0).map Option.isSome

/-- `dhcp_get_free_lease` -/
def dhcpGetFreeLease (block : Block) : Option Nat :=
  (firstLease isFree block block.subnetLen.toNat 0).map (·.getD block.subnetLen.toNat)

/-- `dhcp_num_free` -/
def dhcpNumFree (block : Block) : Option Nat :=
  loopM (fun index num => (leaseAt block index).map fun lease =>
    if lease.state = .free then num + 1 else num) block.subnetLen.toNat 0

/-- One round of the loop in `dhcp_check_timeouts`, over the block and the count. -/
def checkLease (now : Time) (index : Nat) (work : Block × Nat) : Option (Block × Nat) := do
  let lease ← leaseAt work.1 index
  let block ← if lease.state ≠ .free ∧ lease.leaseEnd < now then releaseLease work.1 index
    else some work.1
  let lease ← leaseAt block index
  return (block, if lease.state = .free then work.2 + 1 else work.2)

/-- `dhcp_check_timeouts`, with the block it leaves and the number it returns. -/
def dhcpCheckTimeouts (now : Time) (block : Block) : Option (Block × Nat) :=
  loopM (checkLease now) block.subnetLen.toNat (block, 0)

/-! The same on a table that is there in full. -/

def Full (block : Block) (table : List Lease) : Prop :=
  block.addresses = some table ∧ table.length = block.subnetLen.toNat

def Lease.expired (now : Time) (lease : Lease) : Lease :=
  if lease.state ≠ .free ∧ lease.leaseEnd < now then Lease.released lease else lease

theorem lease_at_full {block : Block} {table : List Lease} (full : Full block table)
    (index : Nat) : leaseAt block index = table[index]? := by
  simp [leaseAt, full.1]

theorem update_lease_full {block : Block} {table : List Lease} (full : Full block table)
    {index : Nat} {lease : Lease} (entry : table[index]? = some lease) (change : Lease → Lease) :
    updateLease block index change =
      some { block with addresses := some (table.set index (change lease)) } := by
  simp [updateLease, lease_at_full full, entry, full.1]

theorem first_lease_full {block : Block} {table : List Lease} (full : Full block table)
    (test : Lease → Bool) (count index : Nat) (room : index + count = table.length) :
    firstLease test block count index = some (((table.drop index).findIdx? test).map (· + index)) := by
  induction count generalizing index with
  | zero =>
      rw [List.drop_of_length_le (by omega)]
      rfl
  | succ count ih =>
      have inside : index < table.length := by omega
      rw [List.drop_eq_getElem_cons inside, List.findIdx?_cons]
      simp only [firstLease, lease_at_full full, List.getElem?_eq_getElem inside, Option.bind_some]
      by_cases hit : test table[index] = true
      · simp [hit]
      · simp only [hit, Bool.false_eq_true, ↓reduceIte, ih (index + 1) (by omega),
          Option.map_map]
        congr 2
        funext position
        simp only [Function.comp_apply]
        omega

theorem has_free_full {block : Block} {table : List Lease} (full : Full block table) :
    dhcpHasFree block = some (table.any isFree) := by
  rw [dhcpHasFree, first_lease_full full isFree _ 0 (by simpa using full.2.symm)]
  simp [List.findIdx?_isSome]

theorem num_free_full {block : Block} {table : List Lease} (full : Full block table) :
    dhcpNumFree block = some (table.countP isFree) := by
  have counted := loopM_exact (fun k => (table.take k).countP isFree)
    (fun index num => (leaseAt block index).map fun lease =>
      if lease.state = .free then num + 1 else num) table.length
    (by
      intro index inside
      simp only [lease_at_full full, List.getElem?_eq_getElem inside, Option.map_some,
        List.take_add_one, Option.toList_some, List.countP_append, List.countP_singleton, isFree]
      by_cases free : table[index].state = .free <;> simp [free])
  rw [dhcpNumFree, ← full.2]
  simpa using counted

/-- The table when `dhcp_check_timeouts` has seen its first `seen` entries. -/
def swept (now : Time) (table : List Lease) (seen : Nat) : List Lease :=
  (table.take seen).map (Lease.expired now) ++ table.drop seen

theorem swept_next (now : Time) (table : List Lease) (seen : Nat) (inside : seen < table.length) :
    (swept now table seen)[seen]? = some table[seen] ∧
      (swept now table seen).set seen (Lease.expired now table[seen]) =
        swept now table (seen + 1) := by
  have front : ((table.take seen).map (Lease.expired now)).length = seen := by simp; omega
  unfold swept
  rw [List.drop_eq_getElem_cons inside, List.take_add_one, List.getElem?_eq_getElem inside]
  constructor
  · rw [List.getElem?_append_right (by omega), front]
    simp
  · rw [List.set_append_right _ _ (by omega), front, Nat.sub_self, List.set_cons_zero]
    simp only [Option.toList_some, List.map_append, List.map_cons, List.map_nil,
      List.append_assoc, List.singleton_append]

theorem check_lease_full {block : Block} {table : List Lease} (full : Full block table)
    (now : Time) (index num : Nat) (lease : Lease) (entry : table[index]? = some lease) :
    checkLease now index (block, num) =
      some ({ block with addresses := some (table.set index (Lease.expired now lease)) },
        if (Lease.expired now lease).state = .free then num + 1 else num) := by
  obtain ⟨inside, value⟩ := List.getElem?_eq_some_iff.mp entry
  simp only [checkLease, lease_at_full full, entry, Option.bind_eq_bind, Option.bind_some]
  by_cases ended : lease.state ≠ .free ∧ lease.leaseEnd < now
  · simp [ended, releaseLease, update_lease_full full entry, Lease.expired, leaseAt, inside]
  · have unchanged : table.set index lease = table := by rw [← value]; simp
    have same : ({ block with addresses := some table } : Block) = block := by rw [← full.1]
    simp [ended, Lease.expired, unchanged, same]

theorem check_timeouts_full {block : Block} {table : List Lease} (full : Full block table)
    (now : Time) :
    dhcpCheckTimeouts now block =
      some ({ block with addresses := some (table.map (Lease.expired now)) },
        (table.map (Lease.expired now)).countP isFree) := by
  have rounds := loopM_exact
    (fun seen => (({ block with addresses := some (swept now table seen) } : Block),
      ((table.take seen).map (Lease.expired now)).countP isFree))
    (checkLease now) table.length
    (by
      intro index inside
      obtain ⟨entry, next⟩ := swept_next now table index inside
      have here : Full ({ block with addresses := some (swept now table index) } : Block)
          (swept now table index) := ⟨rfl, by simp [swept, ← full.2]; omega⟩
      rw [check_lease_full here now index _ _ entry, next]
      simp only [List.take_add_one, List.getElem?_eq_getElem inside, Option.toList_some,
        List.map_append, List.countP_append, List.map_cons, List.map_nil,
        List.countP_singleton, isFree]
      by_cases free : (Lease.expired now table[index]).state = .free <;> simp [free])
  have start : ({ block with addresses := some (swept now table 0) } : Block) = block := by
    simp [swept, ← full.1]
  have whole : swept now table table.length = table.map (Lease.expired now) := by simp [swept]
  simp only [start, whole, List.take_length, List.take_zero, List.map_nil] at rounds
  rw [dhcpCheckTimeouts, ← full.2]
  exact rounds

end Ddhcpd.Leases

import Ddhcpd.Discover
import Ddhcpd.LeaseSafety

/-!
What a handler that fails leaves behind. The lease is written once there is memory for the
reply, before the memory for its options is asked for, and a forwarded request is noted in the
lease before the packet to the holder is built; no later failure takes the lease back.
-/

namespace Ddhcpd.HalfMade
open Types Leases Blocks Dhcp Node LeaseMoves Invariant Calls Handlers Discover LeaseSafety

/-- Every lease is as it was. -/
def Kept (c after : Config) : Prop :=
  ∀ k index, leaseAt (after.blocks k) index = leaseAt (c.blocks k) index

def Unanswered (c after : Config) : Prop := ∀ type reply got, .dhcp type reply got ∉ sent c after

def Unforwarded (c after : Config) : Prop := ∀ packet dest, .direct packet dest ∉ sent c after

section Handlers
variable (cfg : Settings) (env : Env) (packet : DhcpPacket) (c : Config)

/-! The handlers keep the leases when they fail. -/

def DiscoverKeeps : Prop :=
  ∀ after value, dhcpHdlDiscover cfg env packet c = some (after, value) → value ≠ 0 →
    Unanswered c after → Kept c after

def AckKeeps (position index : Nat) : Prop :=
  ∀ after value, dhcpAckLease cfg env packet position index c = some (after, value) → value ≠ 0 →
    Unanswered c after → Kept c after

def RequestKeeps : Prop :=
  ∀ after value, dhcpHdlRequest cfg env packet c = some (after, value) → value < 0 →
    Unforwarded c after → Kept c after

/-! Where they fail in between. -/

/-- There is a lease to offer, and memory for the reply but not for its options. -/
def OfferBreaks : Prop :=
  (∃ position < cfg.blocks, Offering c position) ∧ env.alloc .replyPacket = true ∧
    env.alloc .replyOptions = false

/-- The same for an acknowledgement, where the lease may be as it is going to be written. -/
def AckBreaks (position index : Nat) : Prop :=
  ∃ lease, leaseAt (c.blocks position) index = some lease ∧ env.alloc .replyPacket = true ∧
    env.alloc .replyOptions = false ∧
    lease ≠ ⟨packet.chaddr, .leased, packet.xid, leaseEndFrom env c⟩

/-- The request is about a lease of another node, and there is a table to note it in but no
memory for the packet to the holder. -/
def ForwardBreaks : Prop :=
  ∃ address position index, Elsewhere cfg c packet address position index ∧
    ((c.blocks position).addresses.isSome = true ∨ env.alloc (.leaseTable position) = true) ∧
    env.alloc .renewPacket = false ∧
    leaseAt (c.blocks position) index ≠
      some ⟨packet.chaddr, .offered, packet.xid, leaseEndFrom env c⟩

end Handlers

section Writes
variable {cfg : Settings} {env : Env} {packet : DhcpPacket} {c after : Config}
  {position index : Nat} {lease changed : Lease}

theorem kept_refl (c : Config) : Kept c c := fun _ _ => rfl

theorem put_kept_iff (entry : leaseAt (c.blocks position) index = some lease) :
    Kept c (c.setBlock position (putLease (c.blocks position) index changed)) ↔
      lease = changed := by
  constructor
  · intro kept
    have here := kept position index
    rw [set_block_same, lease_at_put entry, entry] at here
    exact (Option.some.inj here).symm
  · rintro rfl k other
    rw [set_block_apply]
    split
    · rename_i here
      subst here
      by_cases same : other = index
      · rw [same, lease_at_put entry, entry]
      · exact lease_at_put_other same _
    · rfl

theorem quiet_unanswered (same : after.out = c.out) : Unanswered c after := by
  intro type reply got
  simp [sent, same]

theorem quiet_unforwarded (same : after.out = c.out) : Unforwarded c after := by
  intro packet dest
  simp [sent, same]

/-! Discover. -/

theorem discover_keeps_iff (sound : Sound cfg c) :
    DiscoverKeeps cfg env packet c ↔ ¬ OfferBreaks cfg env c := by
  rcases discover_searches sound with ⟨search, none_free⟩ | ⟨position, index, search, first, takes⟩
  · have whole : ¬ OfferBreaks cfg env c := fun breaks => by
      obtain ⟨⟨position, inside, offering⟩, -⟩ := breaks
      exact none_free position inside offering
    simp only [whole, not_false_eq_true, iff_true]
    intro after value done _ _
    rw [discover_exhausted env packet search] at done
    cases done
    exact kept_refl c
  obtain ⟨lease, entry, free⟩ := takes.free
  have offering : ∃ position < cfg.blocks, Offering c position :=
    ⟨position, takes.block.inside, takes.block.fit⟩
  by_cases memory : env.alloc .replyPacket = true
  · have done := discover_found packet search first entry memory
    by_cases options : env.alloc .replyOptions = true
    · have whole : ¬ OfferBreaks cfg env c := by simp [OfferBreaks, options]
      simp only [whole, not_false_eq_true, iff_true]
      intro after value handled failed
      rw [done] at handled
      simp only [dhcpDefaultOptions, options, ↓reduceIte] at handled
      split at handled <;> cases handled <;> contradiction
    · have breaks : OfferBreaks cfg env c := ⟨offering, memory, by simpa using options⟩
      simp only [breaks, not_true_eq_false, iff_false]
      intro keeps
      simp only [dhcpDefaultOptions, options, Bool.false_eq_true, ↓reduceIte] at done
      have same := (put_kept_iff entry).mp
        (keeps _ 1 done (Nat.one_ne_zero) (quiet_unanswered rfl))
      rw [same] at free
      contradiction
  · have whole : ¬ OfferBreaks cfg env c := by simp [OfferBreaks, memory]
    simp only [whole, not_false_eq_true, iff_true]
    intro after value done _ _
    rw [discover_starved packet search first memory] at done
    cases done
    exact kept_refl c

/-! Acknowledge. -/

theorem ack_unfilled (packet : DhcpPacket) (entry : leaseAt (c.blocks position) index = some lease)
    (memory : env.alloc .replyPacket = true) (starved : env.alloc .replyOptions = false) :
    dhcpAckLease cfg env packet position index c =
      some (grantTo env c packet position index lease, 1) := by
  simp [dhcpAckLease, memory, starved, updateLease, entry, dhcpDefaultOptions, grantTo, putLease]

theorem ack_failed {value : Nat}
    (done : dhcpAckLease cfg env packet position index c = some (after, value))
    (failed : value ≠ 0) : after = c ∨ ∃ lease, leaseAt (c.blocks position) index = some lease ∧
      env.alloc .replyPacket = true ∧ env.alloc .replyOptions = false ∧
      after = grantTo env c packet position index lease := by
  by_cases memory : env.alloc .replyPacket = true
  · right
    have written := done
    simp only [dhcpAckLease, memory, not_true_eq_false, ↓reduceIte] at written
    obtain ⟨block, written, -⟩ := Option.bind_eq_some_iff.mp written
    obtain ⟨lease, entry, -⟩ := update_lease_iff.mp written
    by_cases options : env.alloc .replyOptions = true
    · simp only [dhcpAckLease, memory, updateLease, entry, dhcpDefaultOptions, options,
        not_true_eq_false, ↓reduceIte, Option.map_some, Option.bind_eq_bind, Option.bind_some,
        Option.pure_def, Option.some.injEq, Prod.mk.injEq] at done
      exact absurd done.2.symm failed
    · have starved : env.alloc .replyOptions = false := by simpa using options
      rw [ack_unfilled packet entry memory starved] at done
      cases done
      exact ⟨lease, entry, memory, starved, rfl⟩
  · left
    simp only [dhcpAckLease, memory, Bool.false_eq_true, not_false_eq_true, ↓reduceIte,
      Option.some.injEq, Prod.mk.injEq] at done
    exact done.1.symm

theorem ack_keeps_iff :
    AckKeeps cfg env packet c position index ↔ ¬ AckBreaks env packet c position index := by
  constructor
  · rintro keeps ⟨lease, entry, memory, starved, different⟩
    have done : dhcpAckLease cfg env packet position index c = _ :=
      ack_unfilled packet entry memory starved
    exact different
      ((put_kept_iff entry).mp (keeps _ 1 done Nat.one_ne_zero (quiet_unanswered rfl)))
  · intro whole after value done failed _
    rcases ack_failed done failed with rfl | ⟨lease, entry, memory, starved, rfl⟩
    · exact kept_refl _
    · refine (put_kept_iff entry).mpr ?_
      by_contra different
      exact whole ⟨lease, entry, memory, starved, different⟩

/-! Request. -/

theorem forward_unsent (packet : DhcpPacket) (address : InAddr)
    (allocated : (blockAlloc env position (c.blocks position)).2 = 0)
    (entry : leaseAt ((opened env c position).blocks position) index = some lease)
    (starved : env.alloc .renewPacket = false) :
    forwardRequest cfg env packet address position index c =
      some (noteIn env (opened env c position) packet position index lease, -12) := by
  rw [forward_noted packet address allocated entry, starved]
  rfl

theorem forward_negative {address : InAddr} {value : Int}
    (done : forwardRequest cfg env packet address position index c = some (after, value))
    (failed : value < 0) : (blockAlloc env position (c.blocks position)).2 = 0 ∧
      ∃ lease, leaseAt ((opened env c position).blocks position) index = some lease ∧
        env.alloc .renewPacket = false := by
  obtain ⟨allocated, lease, entry⟩ := forward_opened done
  refine ⟨allocated, lease, entry, ?_⟩
  rw [forward_noted packet address allocated entry] at done
  split at done
  · cases done
    contradiction
  · rename_i starved
    simpa using starved

theorem noted_kept_iff (entry : leaseAt ((opened env c position).blocks position) index = some lease) :
    Kept c (noteIn env (opened env c position) packet position index lease) ↔
      leaseAt (c.blocks position) index =
        some ⟨packet.chaddr, .offered, packet.xid, leaseEndFrom env c⟩ := by
  have noted : leaseAt ((noteIn env (opened env c position) packet position index lease).blocks
      position) index = some ⟨packet.chaddr, .offered, packet.xid, leaseEndFrom env c⟩ := by
    rw [noteIn, set_block_same, lease_at_put entry]
    rfl
  constructor
  · intro kept
    rw [← kept position index, noted]
  · intro before
    -- the table was there, so nothing was allocated
    have there : (c.blocks position).addresses.isSome = true := by
      obtain ⟨table, here, -⟩ := Option.bind_eq_some_iff.mp before
      simp [here]
    have same : opened env c position = c := by simp [opened, blockAlloc, there]
    rw [same] at entry ⊢
    exact (put_kept_iff entry).mpr (Option.some.inj (entry.symm.trans before))

/-- The only negative value of `dhcp_hdl_request`. -/
theorem request_negative {value : Int}
    (done : dhcpHdlRequest cfg env packet c = some (after, value)) (failed : value < 0) :
    ∃ address position index, Elsewhere cfg c packet address position index ∧
      forwardRequest cfg env packet address position index c = some (after, value) := by
  unfold dhcpHdlRequest at done
  split at done
  · rename_i address requested
    simp only at done
    split at done
    · cases done
      contradiction
    rename_i known
    split at done
    · rename_i claimed
      have foreign := find_lease_other known (by simp [claimed])
      exact ⟨address, _, _, ⟨requested, find_lease_inside known, foreign, claimed⟩, done⟩
    split at done
    · obtain ⟨lease, -, done⟩ := Option.bind_eq_some_iff.mp done
      split at done
      · obtain ⟨acked, -, done⟩ := Option.bind_eq_some_iff.mp done
        cases done
        omega
      · cases done
        contradiction
    split at done <;> cases done <;> contradiction
  · obtain ⟨found, -, done⟩ := Option.bind_eq_some_iff.mp done
    split at done
    · obtain ⟨acked, -, done⟩ := Option.bind_eq_some_iff.mp done
      cases done
      omega
    · cases done
      contradiction

/-- `dhcp_hdl_request` where the lease is in a block of another node. -/
theorem request_elsewhere {address : InAddr}
    (elsewhere : Elsewhere cfg c packet address position index) :
    dhcpHdlRequest cfg env packet c = forwardRequest cfg env packet address position index c := by
  simp [dhcpHdlRequest, elsewhere.requested, elsewhere.place, elsewhere.claimed]

theorem request_keeps_iff (sound : Sound cfg c) :
    RequestKeeps cfg env packet c ↔ ¬ ForwardBreaks cfg env packet c := by
  have below {address : InAddr} {position index : Nat}
      (elsewhere : Elsewhere cfg c packet address position index) :
      index < cfg.blockSize.toNat := by
    have small : (findLeaseFromAddress cfg c address).lease < cfg.blockSize.toNat :=
      find_lease_index address
    rwa [elsewhere.place] at small
  constructor
  · rintro keeps ⟨address, position, index, elsewhere, table, starved, different⟩
    obtain ⟨allocated, lease, entry⟩ := opened_entry sound elsewhere.claimed (below elsewhere) table
    have done : dhcpHdlRequest cfg env packet c =
        some (noteIn env (opened env c position) packet position index lease, -12) :=
      (request_elsewhere elsewhere).trans (forward_unsent packet address allocated entry starved)
    exact different ((noted_kept_iff entry).mp (keeps _ _ done (by decide) (quiet_unforwarded rfl)))
  · intro whole after value done failed _
    obtain ⟨address, position, index, elsewhere, forwarded⟩ := request_negative done failed
    obtain ⟨allocated, lease, entry, starved⟩ := forward_negative forwarded failed
    rw [forward_unsent packet address allocated entry starved] at forwarded
    cases forwarded
    refine (noted_kept_iff entry).mpr ?_
    by_contra different
    refine whole ⟨address, position, index, elsewhere, ?_, starved, different⟩
    by_contra neither
    simp only [not_or] at neither
    simp [blockAlloc, neither] at allocated

end Writes

/-- The world in which one allocation fails. -/
def lacking (call : Alloc) (now : Time) : Env :=
  { calmEnv now with alloc := fun other => other ≠ call }

end Ddhcpd.HalfMade

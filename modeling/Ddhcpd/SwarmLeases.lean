import Ddhcpd.Whereabouts
import Ddhcpd.Holders

/-!
Leases across the swarm. A node that keeps house in time loses no block with a lease in it,
neither to time nor to another node. So as long as a lease lasts, no node of the swarm
grants its address to another client from a block of its own.
-/

namespace Ddhcpd.SwarmLeases
open Types Leases Blocks BlockPackets BlockMoves Packet Dhcp Node Path Refresh Claim Invariant Calls
open HouseKeeping LeaseMoves Exclusive Deadlines Hearing Network Conflict Exclusion Whereabouts

/-! A lease keeps its block. -/

section Nodes
variable {cfg : Settings} {env : Env} {c after : Config} {position index : Nat} {lease : Lease}

theorem adjust_keeps_leased (good : Good cfg c) (own : (c.blocks position).state = .ours)
    (entry : leaseAt (c.blocks position) index = some lease) (leased : lease.state = .leased)
    (done : adjustBlocks cfg env c = some after) : (after.blocks position).state = .ours := by
  rcases adjust_cases done with dropped | rfl | ⟨spareLeases, -, -, rfl⟩
  · rcases drop_unused_cases dropped with ⟨rfl, -⟩ | ⟨chosen, found, ⟨-, rfl⟩ | ⟨-, rfl⟩⟩
    · exact own
    · by_cases here : position = chosen
      · subst here
        simpa using own
      · simpa [set_block_other, here] using own
    · -- the block that is dropped has no lease
      have free := Holders.find_unused_free good.sound found index
      have here : position ≠ chosen := by
        rintro rfl
        simp [Holders.holderAt, entry, Holders.holderOf, leased] at free
      simpa [set_block_other, here] using own
  · obtain ⟨since, same⟩ := unmarked_block cfg c position
    rw [same]
    exact own
  · obtain ⟨since, unmarks⟩ := unmarked_block cfg c position
    obtain ⟨started, inquiry, claimed⟩ := claim_claimed (unmarked_good good) spareLeases
    have ours : ((unmarked cfg c).blocks position).state = .ours := by
      rw [unmarks]
      exact own
    have unlisted : position ∉ c.claimingBlocks := fun member =>
      good.listed.foreign position member own
    rw [claimed_unlisted_kept claimed (unmarked_unlisted unlisted) (.inl ours)]
    exact ours

theorem house_keeping_keeps_leased (good : Good cfg c) (own : OursAt cfg c position)
    (live : env.now ≤ (c.blocks position).timeout)
    (entry : leaseAt (c.blocks position) index = some lease) (leased : lease.state = .leased)
    (lasts : env.now ≤ lease.leaseEnd) (done : houseKeeping cfg env c = some after) :
    (after.blocks position).state = .ours := by
  obtain ⟨middle, adjusted, check, checkedGood, -, adjust, adjustedGood, blocks, -⟩ :=
    house_keeping_passes good done
  obtain ⟨table, full⟩ := sound_own_full (good.sound position) own.2
  have swept : middle.blocks position = sweptBlock env.now (c.blocks position) table := by
    rw [check_timeouts_checked good.sound] at check
    cases check
    simp only [own.1, ↓reduceIte, checked_own own.2 full, Nat.not_lt_of_le live]
  have unexpired : Lease.expired env.now lease = lease := by
    simp [Lease.expired, Nat.not_lt_of_le lasts]
  have kept : leaseAt (middle.blocks position) index = some lease := by
    rw [lease_at_full full] at entry
    rw [swept]
    simp [leaseAt, sweptBlock, entry, unexpired]
  rw [blocks, update_claims_state adjustedGood.sound]
  exact adjust_keeps_leased checkedGood (by rw [swept]; exact own.2) kept leased adjust

end Nodes

variable {count : Nat} {swarm : Swarm count} {s t : Net count} {node : Fin count}
  {labels : List (Move count)}

/-! House keeping in time. -/

/-- The events of its own that a node handles. -/
def ownEvents (node : Fin count) (labels : List (Move count)) : List (Env × Event) :=
  labels.filterMap fun
    | .act actor env event => if actor = node then some (env, event) else none
    | .deliver _ => none

theorem own_events_act (env : Env) (event : Event) : ownEvents node (labels ++ [.act node env event]) =
    ownEvents node labels ++ [(env, event)] := by simp [ownEvents]

theorem own_events_other {actor : Fin count} (env : Env) (event : Event) (other : actor ≠ node) :
    ownEvents node (labels ++ [.act actor env event]) = ownEvents node labels := by
  simp [ownEvents, other]

theorem own_events_deliver (answer : Fin count × List McastPacket) :
    ownEvents node (labels ++ [.deliver answer]) = ownEvents node labels := by simp [ownEvents]

/-- The node's runs of house keeping are close enough for its blocks not to time out. -/
def InTime (swarm : Swarm count) (node : Fin count) (labels : List (Move count)) : Prop :=
  Spaced (refreshGap (swarm.settings node)) none (ownEvents node labels)

/-- The blocks of the node are as fresh as its last run of house keeping left them. -/
def Aged (swarm : Swarm count) (node : Fin count) (labels : List (Move count)) (s : Net count) : Prop :=
  (∃ last, lastHouseKeeping none (ownEvents node labels) = some last ∧ last ≤ s.clock ∧
      Fresh (swarm.settings node) (last + refreshGap (swarm.settings node)) (s.config node)) ∨
    ∀ position, ¬ OursAt (swarm.settings node) (s.config node) position

theorem aged_same {l : Move count} (aged : Aged swarm node labels s)
    (own : ownEvents node (labels ++ [l]) = ownEvents node labels) (later : s.clock ≤ t.clock)
    (same : t.config node = s.config node) : Aged swarm node (labels ++ [l]) t := by
  rw [Aged, own, same]
  exact aged.imp_left fun ⟨last, was, before, fresh⟩ => ⟨last, was, Nat.le_trans before later, fresh⟩

theorem step_aged {l : Move count} (good : Good (swarm.settings node) (s.config node))
    (aged : Aged swarm node labels s) (step : Network.Step swarm s l t) :
    Aged swarm node (labels ++ [l]) t := by
  cases step with
  | deliver delivers =>
      cases delivers with
      | @arrive front back envelope after env pool later sends result =>
          have own : ownEvents node (labels ++ [.deliver (envelope.dest, _)]) = ownEvents node labels :=
            own_events_deliver (envelope.dest, spoken (s.config envelope.dest) after)
          by_cases here : envelope.dest = node
          · subst here
            have moves : BlockMoves.Moves (swarm.settings envelope.dest) env envelope.packet
                (swarm.address envelope.source) (s.config envelope.dest) after := result ▸ dispatch_moves
            rw [Aged, own, moved_same]
            rcases aged with ⟨last, was, before, fresh⟩ | unowned
            · left
              refine ⟨last, was, Nat.le_trans before later, ?_⟩
              apply block_moves_fresh sends good.sound ?_ fresh moves
              rw [timeout_factor_gap]
              exact Nat.add_le_add_right (Nat.le_trans before later) _
            · right
              exact fun position ours => unowned position
                ((block_moves_kept (sound_indexed good.sound) moves).2 position ours)
          · exact aged_same aged own later (moved_other (Ne.symm here))
  | act actor env event silent later flawless own done =>
      by_cases here : actor = node
      · subst here
        by_cases house : event = .houseKeeping
        · subst house
          left
          refine ⟨env.now, ?_, Nat.le_refl _, ?_⟩
          · rw [own_events_act, last_snoc_house]
          · rw [moved_same]
            exact house_keeping_fresh (flawless_multicasts flawless) good done
        · have frame := own_event_frame house own done
          rw [Aged, own_events_act, last_snoc_other none _ env house, moved_same]
          rcases aged with ⟨last, was, before, fresh⟩ | unowned
          · exact .inl ⟨last, was, Nat.le_trans before later, lease_frame_fresh frame fresh⟩
          · right
            exact fun position ours => unowned position
              ⟨ours.1, (lease_frame_state frame position).symm.trans ours.2⟩
      · exact aged_same aged (own_events_other env event here) later (moved_other (Ne.symm here))

/-! A lease that lasts. -/

section Leases
variable {seconds : UInt32} {address : InAddr} {chaddr : HwAddr} {granted : Time} {l : Move count}

/-- The client has a lease from the node until so many seconds after it was granted. -/
def Leased (swarm : Swarm count) (seconds : UInt32) (address : InAddr) (chaddr : HwAddr)
    (granted : Time) (node : Fin count) (s : Net count) : Prop :=
  Bound (swarm.settings node) address chaddr (granted + seconds.toNat) (fun _ => False) (s.config node)

/-- A step of an orderly run that leaves the lease time as it is, and in which the client does not
give the address back. -/
structure KeepingStep (swarm : Swarm count) (seconds : UInt32) (address : InAddr) (chaddr : HwAddr)
    (node : Fin count) (s : Net count) (l : Move count) (t : Net count) : Prop where
  step : Network.Step swarm s l t
  orderly : Orderly swarm s l
  lasts : LeaseTime seconds (t.config node)
  kept : ∀ env event, l = .act node env event → ¬ GivesBack address chaddr event

theorem leased_place (leased : Leased swarm seconds address chaddr granted node s) :
    ∃ position index lease, findLeaseFromAddress (swarm.settings node) (s.config node) address =
        ⟨0, position, index⟩ ∧ OursAt (swarm.settings node) (s.config node) position ∧
      leaseAt ((s.config node).blocks position) index = some lease ∧ lease.state = .leased ∧
      granted + seconds.toNat ≤ lease.leaseEnd := by
  obtain ⟨lease, known, -, late, held⟩ := leased
  obtain ⟨position, index, place, entry⟩ := lease_of_iff.mp known
  have ours := find_lease_ours (congrArg LeaseLookup.status place)
  rw [place] at ours
  exact ⟨position, index, lease, place, ours, entry, held.resolve_right fun offered => offered.2, late⟩

theorem step_leased (ordered : Ordered swarm s)
    (known : ∀ position, (∀ other, position < (swarm.settings other).blocks) → Known swarm position s)
    (aged : Aged swarm node labels s) (inTime : InTime swarm node (labels ++ [l]))
    (lasts : LeaseTime seconds (s.config node)) (start : granted ≤ s.clock)
    (live : t.clock ≤ granted + seconds.toNat)
    (step : KeepingStep swarm seconds address chaddr node s l t)
    (leased : Leased swarm seconds address chaddr granted node s) :
    Leased swarm seconds address chaddr granted node t := by
  have good := ordered.good node
  obtain ⟨position, index, lease, place, ours, entry, state, late⟩ := leased_place leased
  have inside (other : Fin count) : position < (swarm.settings other).blocks :=
    swarm_blocks swarm node other ▸ ours.1
  obtain ⟨moves, orderly, -, kept⟩ := step
  cases moves with
  | deliver delivers =>
      cases delivers with
      | @arrive front back envelope after env pool later sends result =>
          by_cases here : envelope.dest = node
          · subst here
            have reaction := ordered_reaction inside ordered pool later sends result
            have holds := (reaction_held (known position inside) (ordered.guarded position inside)
              ordered.mail (arrived_in_flight pool) reaction).mpr (cell_of_own ours.2)
            have moves : BlockMoves.Moves (swarm.settings envelope.dest) env envelope.packet
                (swarm.address envelope.source) (s.config envelope.dest) after := result ▸ dispatch_moves
            rw [Leased, moved_same]
            apply bound_congr leased
            have there : leaseOf (swarm.settings envelope.dest) (s.config envelope.dest) address =
                some lease := lease_of_iff.mpr ⟨position, index, place, entry⟩
            rw [there]
            refine lease_of_iff.mpr ⟨position, index, ?_, ?_⟩
            · rw [find_lease_elsewhere place after, if_pos ((cell_held_iff _).mp holds)]
            · rw [leaseAt, block_moves_addresses good.sound moves]
              exact entry
          · rw [Leased, moved_other (Ne.symm here)]
            exact leased
  | act actor env event silent later flawless own done =>
      rename_i after
      by_cases here : actor = node
      · subst here
        rw [Leased, moved_same]
        have holds : (after.blocks position).state = .ours := by
          by_cases house : event = .houseKeeping
          · subst house
            rw [InTime, own_events_act] at inTime
            have fresh : env.now ≤ ((s.config actor).blocks position).timeout := by
              rcases aged with ⟨last, was, -, fresh⟩ | unowned
              · exact Nat.le_trans (spaced_snoc inTime last was) (fresh position ours)
              · exact absurd ours (unowned position)
            exact house_keeping_keeps_leased good ours fresh entry state (Nat.le_trans live late) done
          · exact (lease_frame_state (own_event_frame house own done) position).trans ours.2
        have still : (findLeaseFromAddress (swarm.settings actor) after address).status = 0 := by
          rw [find_lease_elsewhere place after, if_pos holds]
        exact bound_event good leased live (lease_time_later lasts (Nat.le_trans start later))
          (kept env event rfl) (leased_fair leased) done still
      · rw [Leased, moved_other (Ne.symm here)]
        exact leased

/-- What holds of an orderly run of the swarm up to here. -/
structure Run (swarm : Swarm count) (node : Fin count) (labels : List (Move count)) (s : Net count) :
    Prop where
  ordered : Ordered swarm s
  known : ∀ position, (∀ other, position < (swarm.settings other).blocks) → Known swarm position s
  aged : Aged swarm node labels s

def OrderlyStep (swarm : Swarm count) (s : Net count) (l : Move count) (t : Net count) : Prop :=
  Network.Step swarm s l t ∧ Orderly swarm s l

theorem step_run (fair : (rules swarm).Fair) (run : Run swarm node labels s)
    (step : OrderlyStep swarm s l t) : Run swarm node (labels ++ [l]) t :=
  ⟨step_ordered fair run.ordered step.1 step.2,
    fun position inside => step_known inside run.ordered (run.known position inside) step.1 step.2,
    step_aged (run.ordered.good node) run.aged step.1⟩

theorem path_run (timed : Timed swarm s.clock) (idle : Idle swarm s)
    (path : Path (OrderlyStep swarm) s labels t) : Run swarm node labels t := by
  have fair : (rules swarm).Fair := ⟨rank_injective swarm, timed.imp_right And.right⟩
  refine path_induction (Run swarm node) ?_ (fun labels s l t _ run step => step_run fair run step) path
  refine ⟨idle_ordered (timed.imp_right And.left) idle, fun position inside => idle_known idle inside, ?_⟩
  right
  intro position ours
  exact absurd ((idle.free node position ours.1).symm.trans ours.2) (by decide)

theorem step_later (step : Network.Step swarm s l t) : s.clock ≤ t.clock := by
  cases step with
  | deliver delivers =>
      cases delivers with
      | arrive env pool later sends result => exact later
  | act node env event silent later flawless own done => exact later

theorem path_later {narrow : Net count → Move count → Net count → Prop}
    (steps : ∀ s l t, narrow s l t → Network.Step swarm s l t) (path : Path narrow s labels t) :
    s.clock ≤ t.clock := by
  induction path with
  | refl => exact Nat.le_refl _
  | next move _ ih => exact Nat.le_trans (step_later (steps _ _ _ move)) ih

theorem spaced_front {gap : Nat} {last : Option Time} {front back : List (Env × Event)}
    (spaced : Spaced gap last (front ++ back)) : Spaced gap last front := by
  induction front generalizing last with
  | nil => trivial
  | cons label rest ih =>
      obtain ⟨env, event⟩ := label
      cases event with
      | houseKeeping => exact ⟨spaced.1, ih spaced.2⟩
      | mcast => exact ih (by exact spaced)
      | direct => exact ih (by exact spaced)
      | client => exact ih (by exact spaced)
      | control => exact ih (by exact spaced)

theorem in_time_front {back : List (Move count)} (inTime : InTime swarm node (labels ++ back)) :
    InTime swarm node labels := by
  rw [InTime, ownEvents, List.filterMap_append] at inTime
  exact spaced_front inTime

theorem path_leased {front back : List (Move count)} (fair : (rules swarm).Fair)
    (run : Run swarm node front s) (lasts : LeaseTime seconds (s.config node))
    (start : granted ≤ s.clock)
    (leased : Leased swarm seconds address chaddr granted node s)
    (path : Path (KeepingStep swarm seconds address chaddr node) s back t)
    (inTime : InTime swarm node (front ++ back)) (live : t.clock ≤ granted + seconds.toNat) :
    Run swarm node (front ++ back) t ∧ LeaseTime seconds (t.config node) ∧ granted ≤ t.clock ∧
      Leased swarm seconds address chaddr granted node t := by
  induction path generalizing front with
  | refl =>
      rw [List.append_nil]
      exact ⟨run, lasts, start, leased⟩
  | @next s middle t l rest move later ih =>
      have clock : middle.clock ≤ t.clock := path_later (fun _ _ _ move => move.step) later
      rw [List.append_cons] at inTime ⊢
      exact ih (step_run fair run ⟨move.step, move.orderly⟩) move.lasts
        (Nat.le_trans start (step_later move.step))
        (step_leased run.ordered run.known run.aged (in_time_front inTime) lasts start
          (Nat.le_trans clock live) move leased) inTime live

theorem swarm_place (a b : Fin count) (address : InAddr) :
    Holders.placeOf (swarm.settings a) address = Holders.placeOf (swarm.settings b) address := by
  simp only [Holders.placeOf, swarm.prefixAddr a b, swarm.blockSize a b, swarm_blocks swarm a b]

/-- The nodes find an address in the same block. -/
theorem found_ours {a b : Fin count} {c : Config} {position index : Nat}
    (place : Holders.placeOf (swarm.settings a) address = some (position, index))
    (owns : (findLeaseFromAddress (swarm.settings b) c address).status = 0) :
    (c.blocks position).state = .ours := by
  have ours := (find_lease_ours owns).2
  rw [Holders.find_lease_place, swarm_place b a, place] at ours
  exact ours

theorem acknowledged_leased {cfg : Settings} {env : Env} {event : Event} {c after : Config}
    (good : Good cfg c) (lasts : LeaseTime seconds c)
    (owns : (findLeaseFromAddress cfg c address).status = 0) (done : handle cfg env event c = some after)
    (acked : Replies dhcpAck address chaddr event c after) : LeaseTime seconds after ∧
      Bound cfg address chaddr (env.now + seconds.toNat) (fun _ => False) after := by
  obtain ⟨replies, middle, lease, before, rest, known, client, granted⟩ :=
    replied_lease good done owns (.inr rfl) acked
  have lastsThen : LeaseTime seconds middle := by
    rw [LeaseTime, lease_moves_options before (replies_uncontrolled replies)]
    exact lasts
  have ends := lease_time_later lastsThen (Nat.le_refl env.now)
  obtain ⟨leased, lease_end⟩ := granted rfl
  have there : Bound cfg address chaddr (env.now + seconds.toNat) (fun _ => False) middle :=
    ⟨lease, known, client, lease_end ▸ ends, .inl leased⟩
  refine ⟨?_, bound_moves there ends (replies_keep replies) (leased_fair there) rest⟩
  rw [LeaseTime, lease_moves_options rest (replies_uncontrolled replies)]
  exact lastsThen

/-- In an orderly run in which the node keeps house in time, a lease it has acknowledged keeps every
node of the swarm from offering or acknowledging the address to another client from a block of its
own, and every other node from doing so to any client, until the lease time is over. -/
theorem leases_exclusive_in_swarm {front back : List (Move count)} {u v w z : Net count}
    {x y : Fin count} {env env' : Env} {event event' : Event} {other : HwAddr} {type : UInt8}
    (timed : Timed swarm s.clock) (idle : Idle swarm s) (before : Path (OrderlyStep swarm) s front u)
    (lasts : LeaseTime seconds (u.config x))
    (owns : (findLeaseFromAddress (swarm.settings x) (u.config x) address).status = 0)
    (granting : OrderlyStep swarm u (.act x env event) v)
    (acked : Replies dhcpAck address chaddr event (u.config x) (v.config x))
    (held : Path (KeepingStep swarm seconds address chaddr x) v back w)
    (inTime : InTime swarm x (front ++ .act x env event :: back))
    (later : Network.Step swarm w (.act y env' event') z) (early : env'.now < env.now + seconds.toNat)
    (owns' : (findLeaseFromAddress (swarm.settings y) (w.config y) address).status = 0)
    (kind : type = dhcpOffer ∨ type = dhcpAck)
    (replied : Replies type address other event' (w.config y) (z.config y)) : y = x ∧ other = chaddr := by
  have fair : (rules swarm).Fair := ⟨rank_injective swarm, timed.imp_right And.right⟩
  have run : Run swarm x front u := path_run timed idle before
  have then_run := step_run fair run granting
  rw [List.append_cons] at inTime
  have live : w.clock ≤ env.now + seconds.toNat := by
    have passed : w.clock ≤ env'.now := by
      cases later with
      | act node env event silent later flawless own done => exact later
    exact Nat.le_of_lt (Nat.lt_of_le_of_lt passed early)
  have granted : LeaseTime seconds (v.config x) ∧ v.clock = env.now ∧
      Leased swarm seconds address chaddr env.now x v := by
    cases granting.1 with
    | act node env event silent later flawless own done =>
        rw [moved_same] at acked ⊢
        rw [Leased, moved_same]
        obtain ⟨lastsThen, bound⟩ := acknowledged_leased (run.ordered.good x) lasts owns done acked
        exact ⟨lastsThen, rfl, bound⟩
  obtain ⟨lastsThen, clock, leased⟩ := granted
  obtain ⟨then_again, lastsThen, passed, leased⟩ :=
    path_leased fair then_run lastsThen (Nat.le_of_eq clock.symm) leased held inTime live
  obtain ⟨position, index, -, place, ours, -⟩ := leased_place leased
  obtain rfl : y = x := by
    have inside (other : Fin count) : position < (swarm.settings other).blocks :=
      swarm_blocks swarm x other ▸ ours.1
    have own := found_ours (Holders.place_of_found place (by decide)) owns'
    exact (then_again.ordered.guarded position inside).exclusive y x (cell_of_own own) (cell_of_own ours.2)
  refine ⟨rfl, ?_⟩
  cases later with
  | act node env event silent later flawless own done =>
      rw [moved_same] at replied
      exact bound_replies (then_again.ordered.good y) leased
        (lease_time_later lastsThen (Nat.le_trans passed later)) (leased_fair leased) done kind replied

end Leases

/-! The small swarm, with a lease time. -/

def smallLeasing : Net 2 where
  clock := 1000
  config node := startConfig (smallSwarm.settings node) 1000
    [⟨codeAddressLeaseTime, 4, [0, 0, 1, 44]⟩]
  inFlight := []

theorem small_leasing_idle : Idle smallSwarm smallLeasing where
  silent := rfl
  reached _ := ⟨[], 1000, [⟨codeAddressLeaseTime, 4, [0, 0, 1, 44]⟩], .refl _⟩
  free _ _ _ := rfl

def commandEvents (node : Fin count) (commands : List (Command count)) : List (Env × Event) :=
  commands.filterMap fun
    | .run actor now => if actor = node then some (calmEnv now, .houseKeeping) else none
    | .arrive _ => none

theorem run_commands_events {commands : List (Command count)} (prompt : Prompt swarm)
    (done : runCommands swarm true s commands = some t) : ∃ labels,
      Path (OrderlyStep swarm) s labels t ∧ ownEvents node labels = commandEvents node commands := by
  induction commands generalizing s with
  | nil =>
      cases done
      exact ⟨[], .refl _, rfl⟩
  | cons command rest ih =>
      cases command with
      | run actor now =>
          obtain ⟨middle, first, later⟩ := Option.bind_eq_some_iff.mp done
          obtain ⟨labels, path, own⟩ := ih later
          obtain ⟨step, orderly⟩ := run_house_keeping_step prompt first
          refine ⟨_, .next ⟨step, orderly rfl⟩ path, ?_⟩
          by_cases here : actor = node <;> simp [ownEvents, commandEvents, here] at own ⊢ <;> exact own
      | arrive now =>
          obtain ⟨middle, first, later⟩ := Option.bind_eq_some_iff.mp done
          obtain ⟨labels, path, own⟩ := ih later
          obtain ⟨l, step, orderly⟩ : ∃ l, StrictStep swarm true s l middle := arrive_first_step first
          refine ⟨l :: labels, .next ⟨step, orderly rfl⟩ path, ?_⟩
          cases step with
          | deliver delivers => simpa [ownEvents, commandEvents] using own
          | act actor env event silent => simp [arriveFirst, silent] at first

-- The first node owns the block from 1003 on and acknowledges its address to client 9 at 1004.
theorem leases_exclusive_in_swarm_small : ∃ w z : Net 2,
    Network.Step smallSwarm w (.act 0 (calmEnv 1005) (smallRequest 9)) z ∧
    Replies dhcpAck smallAddress (smallClient 9) (smallRequest 9) (w.config 0) (z.config 0) ∧
    ∀ type other, type = dhcpOffer ∨ type = dhcpAck →
      Replies type smallAddress other (smallRequest 9) (w.config 0) (z.config 0) →
      (0 : Fin 2) = 0 ∧ other = smallClient 9 := by
  have evaluated : (runCommands smallSwarm true smallLeasing [.run 0 1000, .arrive 1000, .run 0 1001,
      .arrive 1001, .run 0 1002, .arrive 1002, .run 0 1003, .arrive 1003]).any (fun u =>
        u.clock = 1003 ∧ u.inFlight.isEmpty ∧
        (u.config 0).options = smallStart.config.options ∧
        (findLeaseFromAddress (smallSwarm.settings 0) (u.config 0) smallAddress).status = 0 ∧
        (handle (smallSwarm.settings 0) (calmEnv 1004) (smallRequest 9) (u.config 0)).any fun c =>
          c.options = smallStart.config.options ∧
          (sent (u.config 0) c).any (isReply dhcpAck smallAddress (smallClient 9)) ∧
          (findLeaseFromAddress (smallSwarm.settings 0) c smallAddress).status = 0 ∧
          (handle (smallSwarm.settings 0) (calmEnv 1005) (smallRequest 9) c).any fun after =>
            (sent c after).any (isReply dhcpAck smallAddress (smallClient 9))) = true := by
    decide +kernel
  obtain ⟨u, done, facts⟩ := (Option.any_eq_true _ _).mp evaluated
  obtain ⟨clock, silent, options, owns, rest⟩ := of_decide_eq_true facts
  obtain ⟨c, granted, rest⟩ := (Option.any_eq_true _ _).mp rest
  obtain ⟨options', acked, owns', rest⟩ := of_decide_eq_true rest
  obtain ⟨after, renewed, replied⟩ := (Option.any_eq_true _ _).mp rest
  obtain ⟨labels, path, own⟩ : ∃ labels, Path (OrderlyStep smallSwarm) smallLeasing labels u ∧
    ownEvents 0 labels = _ := run_commands_events small_prompt done
  have quiet : u.inFlight = [] := List.isEmpty_iff.mp silent
  have mcast (client : UInt8) : ∀ buffer len sender, smallRequest client ≠ .mcast buffer len sender := by
    simp [smallRequest]
  have granting : OrderlyStep smallSwarm u (.act 0 (calmEnv 1004) (smallRequest 9))
      (u.move 0 1004 [] c) :=
    ⟨.act 0 (calmEnv 1004) (smallRequest 9) quiet (clock ▸ Nat.le_succ 1003) (calm_flawless 1004)
      (mcast 9) granted, trivial⟩
  have still : (u.move 0 1004 [] c).inFlight = [] :=
    frame_silent (own_event_frame (by simp [smallRequest]) (mcast 9) granted)
  have later : Network.Step smallSwarm (u.move 0 1004 [] c) (.act 0 (calmEnv 1005) (smallRequest 9))
      ((u.move 0 1004 [] c).move 0 1005 [] after) := by
    refine .act 0 (calmEnv 1005) (smallRequest 9) still (Nat.le_succ 1004) (calm_flawless 1005) (mcast 9) ?_
    rw [moved_same]
    exact renewed
  have inTime : InTime smallSwarm 0 (labels ++ [.act 0 (calmEnv 1004) (smallRequest 9)]) := by
    rw [InTime, own_events_act, own]
    simp [commandEvents, Spaced, smallRequest, calmEnv, refreshGap, smallSwarm, smallNode]
  have replies : Replies dhcpAck smallAddress (smallClient 9) (smallRequest 9) c after :=
    replies_of_any replied
  refine ⟨_, _, later, by rw [moved_same, moved_same]; exact replies, fun type other kind again => ?_⟩
  refine leases_exclusive_in_swarm (.inl small_prompt) small_leasing_idle path (small_lease_time options)
    owns granting ?_ (.refl _) inTime later (by decide) ?_ kind again
  · rw [moved_same]
    exact replies_of_any acked
  · rw [moved_same]
    exact owns'

end Ddhcpd.SwarmLeases

import Ddhcpd.EventLoop
import Ddhcpd.Deadlines
import Ddhcpd.DirectSends

/-!
What the event loop makes sure of. While it learns, a node takes no part in claiming, sends nothing to
all nodes and offers nothing; that learning is over is announced once, before the first house keeping.
If `epoll_wait` returns in time and the handlers are quick, house keeping is run so often that no
block of ours times out.
-/

namespace Ddhcpd.MainLoop
open Types Blocks BlockPackets LeasePackets BlockMoves Packet Dhcp Node Path Refresh Claim Invariant Calls Handlers
open LeaseMoves HouseKeeping DirectSends Deadlines EventLoop

/-! The events of a round. -/

section Events
variable {cfg : Settings} {allowed : Env → Prop} {limit : Time} {start : NodeState}
  {labels : List (Env × Event)} {s t : LoopState}

/-- The events that a file descriptor makes the node handle. -/
def wakeupEvents : Wakeup → List (Env × Event)
  | .ddhcpBlock received => received.map mcastEvent
  | .ddhcpDhcp received => received.map directEvent
  | .dhcp received => received.map fun packet => (packet.1, .client packet.2)
  | .ctrlCmd env buffer len => [(env, .control buffer len)]
  | .ctrlNew => []
  | .netlink _ => []

def roundEvents (round : Round) : List (Env × Event) := round.wakeups.flatMap wakeupEvents

/-- The events are those that led to the state of the loop, and the world answered as `allowed`
says. The clock may have been read since, but not after `limit`. -/
def Logged (cfg : Settings) (allowed : Env → Prop) (limit : Time) (start : NodeState)
    (labels : List (Env × Event)) (s : LoopState) : Prop :=
  s.node.clock ≤ limit ∧ ∃ clock ≤ s.node.clock,
    Path (fun s label t => Node.Step cfg s label t ∧ allowed label.1) start labels ⟨clock, s.node.config⟩

theorem need_logged {value : Bool} (logged : Logged cfg allowed limit start labels s) :
    Logged cfg allowed limit start labels (need value s) := logged

theorem receive_logged {label : Env × Event} (logged : Logged cfg allowed limit start labels s)
    (calm : allowed label.1 ∧ label.1.now ≤ limit) (done : receive cfg s label = some t) :
    Logged cfg allowed limit start (labels ++ [label]) t := by
  simp only [receive, Option.ite_none_right_eq_some] at done
  obtain ⟨later, done⟩ := done
  obtain ⟨after, handled, rfl⟩ := Option.map_eq_some_iff.mp done
  obtain ⟨-, clock, before, path⟩ := logged
  refine ⟨calm.2, label.1.now, Nat.le_refl _, path_snoc path ⟨?_, calm.1⟩⟩
  exact .event label.1 label.2 (Nat.le_trans before later) handled

/-- A handler that takes its items one after the other logs their events in that order. -/
theorem fold_logged {Item : Type} {body : LoopState → Item → Option LoopState}
    {events : Item → List (Env × Event)} {list : List Item}
    (each : ∀ item ∈ list, ∀ labels s t, Logged cfg allowed limit start labels s → body s item = some t →
      Logged cfg allowed limit start (labels ++ events item) t)
    (logged : Logged cfg allowed limit start labels s) (done : list.foldlM body s = some t) :
    Logged cfg allowed limit start (labels ++ list.flatMap events) t := by
  induction list generalizing s labels with
  | nil =>
      cases done
      simpa using logged
  | cons item rest ih =>
      rw [List.foldlM_cons] at done
      obtain ⟨middle, first, done⟩ := Option.bind_eq_some_iff.mp done
      rw [List.flatMap_cons, ← List.append_assoc]
      exact ih (fun other member => each other (List.mem_cons_of_mem _ member))
        (each item List.mem_cons_self labels s middle logged first) done

theorem received_logged {received : List (Env × Event)} (calm : ∀ label ∈ received, allowed label.1 ∧ label.1.now ≤ limit)
    (logged : Logged cfg allowed limit start labels s) (done : received.foldlM (receive cfg) s = some t) :
    Logged cfg allowed limit start (labels ++ received) t := by
  have events : received.flatMap (fun label => [label]) = received := List.flatMap_singleton' received
  rw [← events]
  exact fold_logged (fun label member _ _ _ logged handled =>
    receive_logged logged (calm label member) handled) logged done

theorem epollin_logged {wakeup : Wakeup} (calm : ∀ label ∈ wakeupEvents wakeup, allowed label.1 ∧
    label.1.now ≤ limit)
    (logged : Logged cfg allowed limit start labels s) (done : epollin cfg s wakeup = some t) :
    Logged cfg allowed limit start (labels ++ wakeupEvents wakeup) t := by
  cases wakeup with
  | ddhcpBlock received =>
      obtain ⟨middle, handled, rfl⟩ := Option.map_eq_some_iff.mp done
      exact need_logged (received_logged calm logged handled)
  | ddhcpDhcp received => exact received_logged calm logged done
  | dhcp received =>
      have events : received.flatMap (fun packet => [(packet.1, Event.client packet.2)]) =
          received.map fun packet => (packet.1, Event.client packet.2) := by
        rw [List.map_eq_flatMap]
      rw [wakeupEvents, ← events]
      refine fold_logged (fun packet member labels s t logged read => ?_) logged done
      obtain ⟨middle, handled, rfl⟩ := Option.map_eq_some_iff.mp read
      exact need_logged (receive_logged logged (calm _ (List.mem_map_of_mem member)) handled)
  | ctrlCmd env buffer len => exact receive_logged logged (calm _ (List.mem_singleton_self _)) done
  | ctrlNew =>
      cases done
      simpa [wakeupEvents] using logged
  | netlink value =>
      cases done
      rw [wakeupEvents, List.append_nil]
      exact need_logged logged

theorem wake_logged {round : Round} (calm : ∀ label ∈ roundEvents round, allowed label.1 ∧ label.1.now ≤ limit)
    (early : round.now ≤ limit)
    (logged : Logged cfg allowed limit start labels s) (done : wake cfg s round = some t) :
    Logged cfg allowed limit start (labels ++ roundEvents round) t := by
  simp only [wake, Option.ite_none_right_eq_some] at done
  have polled : Logged cfg allowed limit start labels (poll cfg round.now s) := by
    obtain ⟨-, clock, before, path⟩ := logged
    have config : (poll cfg round.now s).node.config = s.node.config := (poll_same round.now s).1
    have now : (poll cfg round.now s).node.clock = round.now := by
      unfold poll
      split <;> rfl
    refine ⟨?_, clock, ?_, config ▸ path⟩
    · rw [now]
      exact early
    · rw [now]
      exact Nat.le_trans before done.1
  refine fold_logged (fun wakeup member labels s t logged handled => ?_) polled done.2
  exact epollin_logged (fun label event => calm label (List.mem_flatMap.mpr ⟨wakeup, member, event⟩))
    logged handled

end Events

/-! The variables of `main` around the loop. -/

def hookLearningPhaseEnd : UInt8 := 4

/-- `hook`: the command that is run, with its argument. -/
def hook (cfg : Settings) (type : UInt8) (forked : Bool) : Option (String × String) :=
  match cfg.hookCommand with
  | none => none
  | some command =>
      if type = hookLearningPhaseEnd then
        if forked then some (command, "endlearning") else none
      else none

def getLoopTimeout (cfg : Settings) : UInt32 := cfg.tentativeTimeout.toUInt32 * 500

/-- `hooks` is no variable of the source: it lists the commands that `hook` has run. -/
structure MainState where
  loop : LoopState
  loopTimeout : UInt32
  hooks : List (String × String)

def mainStart (cfg : Settings) (started now : Time) (learningPhase : Bool) (options : List DhcpOption)
    (forked : Bool) : MainState where
  loop := loopStart cfg started now learningPhase options
  loopTimeout := if learningPhase then getLoopTimeout cfg else 0
  hooks := if learningPhase then [] else (hook cfg hookLearningPhaseEnd forked).toList

/-- One round of the loop. The second part of the label tells if a fork succeeds. -/
def mainTurn (cfg : Settings) (s : MainState) (label : Round × Bool) : Option MainState :=
  (turn cfg s.loop label.1).map fun loop =>
    { loop := loop
      loopTimeout := getLoopTimeout cfg
      hooks := s.hooks ++ if s.loop.timeoutTime ≤ label.1.now ∧ s.loop.learningPhase then
        (hook cfg hookLearningPhaseEnd label.2).toList else [] }

/-! House keeping in time. -/

section Pace
variable {cfg : Settings} {busy : Nat} {start : NodeState} {labels : List (Env × Event)}
  {s t : MainState} {round : Round} {forked : Bool}

theorem loop_timeout_seconds (cfg : Settings) :
    (getLoopTimeout cfg).toNat = cfg.tentativeTimeout.toNat * 500 := by
  have small := cfg.tentativeTimeout.toNat_lt
  rw [getLoopTimeout, UInt32.toNat_mul, UInt16.toNat_toUInt32]
  exact Nat.mod_eq_of_lt (by simp; omega)

/-- `epoll_wait` returns within its timeout, up to the second the clock tells, the round does not take
longer than so many seconds, and what is to be sent to all nodes is. -/
structure Punctual (busy : Nat) (s : MainState) (round : Round) : Prop where
  waits : (round.now - s.loop.node.clock) * 1000 < s.loopTimeout.toNat + 1000
  works : ∀ label ∈ roundEvents round, Multicasts label.1 ∧ label.1.now ≤ round.now + busy
  keeps : Multicasts round.env ∧ round.env.now ≤ round.now + busy

/-- The longest time between two runs of house keeping. -/
def longestPause (cfg : Settings) (busy : Nat) : Nat := cfg.tentativeTimeout.toNat - 1 + 2 * busy

/-- The events up to here, with the times of house keeping and the timers. -/
structure InPace (cfg : Settings) (busy : Nat) (start : NodeState) (labels : List (Env × Event))
    (s : MainState) : Prop where
  logged : Logged cfg Multicasts s.loop.node.clock start labels s.loop
  spaced : Spaced (longestPause cfg busy) none labels
  timeout : s.loopTimeout.toNat ≤ cfg.tentativeTimeout.toNat * 500
  unkept : lastHouseKeeping none labels = none →
    s.loop.learningPhase = true ∨ labels = [] ∧ s.loop.timeoutTime ≤ s.loop.node.clock
  kept : ∀ last, lastHouseKeeping none labels = some last → last ≤ s.loop.node.clock ∧
    s.loop.timeoutTime ≤ last + cfg.tentativeTimeout.toNat / 2 ∧
    (s.loop.node.clock ≤ last ∨ s.loop.node.clock < s.loop.timeoutTime + busy)

theorem last_append_quiet {last : Option Time} {back : List (Env × Event)}
    (quiet : ∀ label ∈ back, label.2 ≠ .houseKeeping) :
    lastHouseKeeping last (labels ++ back) = lastHouseKeeping last labels := by
  induction back generalizing labels with
  | nil => rw [List.append_nil]
  | cons label rest ih =>
      rw [List.append_cons, ih fun other member => quiet other (List.mem_cons_of_mem _ member)]
      exact last_snoc_other last labels label.1 (quiet label List.mem_cons_self)

theorem spaced_append {gap : Nat} {last : Option Time} {back : List (Env × Event)} :
    Spaced gap last (labels ++ back) ↔ Spaced gap last labels ∧
      Spaced gap (lastHouseKeeping last labels) back := by
  induction labels generalizing last with
  | nil => simp [Spaced, lastHouseKeeping]
  | cons label rest ih =>
      obtain ⟨env, event⟩ := label
      cases event with
      | houseKeeping => simp only [List.cons_append, Spaced, lastHouseKeeping, ih, and_assoc]
      | _ => simp only [List.cons_append, Spaced, lastHouseKeeping, ih]

theorem spaced_quiet {gap : Nat} {last : Option Time}
    (quiet : ∀ label ∈ labels, label.2 ≠ .houseKeeping) : Spaced gap last labels := by
  induction labels with
  | nil => trivial
  | cons label rest ih =>
      obtain ⟨env, event⟩ := label
      have other := quiet _ List.mem_cons_self
      have further := ih fun other member => quiet other (List.mem_cons_of_mem _ member)
      cases event with
      | houseKeeping => contradiction
      | _ => exact further

theorem round_events_quiet : ∀ label ∈ roundEvents round, label.2 ≠ .houseKeeping := by
  intro label member
  obtain ⟨wakeup, -, event⟩ := List.mem_flatMap.mp member
  cases wakeup with
  | ddhcpBlock received =>
      obtain ⟨packet, -, rfl⟩ := List.mem_map.mp event
      simp [mcastEvent]
  | ddhcpDhcp received =>
      obtain ⟨packet, -, rfl⟩ := List.mem_map.mp event
      simp [directEvent]
  | dhcp received =>
      obtain ⟨packet, -, rfl⟩ := List.mem_map.mp event
      simp
  | ctrlCmd env buffer len =>
      rw [List.mem_singleton.mp event]
      simp
  | ctrlNew => simp [wakeupEvents] at event
  | netlink value => simp [wakeupEvents] at event

/-- The clock when `epoll_wait` returns, counted from the last house keeping. -/
theorem pause_bound {tentative clock now last due : Nat} (long : 2 ≤ tentative)
    (waits : (now - clock) * 1000 < tentative * 500 + 1000) (timer : due ≤ last + tentative / 2)
    (before : clock ≤ last ∨ clock < due + busy) : now ≤ last + (tentative - 1) + busy := by
  omega

theorem logged_until {limit later : Time} {s : LoopState}
    (logged : Logged cfg Multicasts limit start labels s) (early : s.node.clock ≤ later) :
    Logged cfg Multicasts later start labels s := ⟨early, logged.2⟩

theorem logged_good {limit : Time} {s : LoopState} (good : Good cfg start.config)
    (logged : Logged cfg Multicasts limit start labels s) : Good cfg s.node.config := by
  obtain ⟨-, clock, -, path⟩ := logged
  exact path_invariant (fun s => Good cfg s.config) (fun _ _ _ good move => step_good good move.1) path good

theorem fold_keeps {Item : Type} {body : LoopState → Item → Option LoopState} {list : List Item}
    (holds : LoopState → Prop) {s t : LoopState}
    (each : ∀ item ∈ list, ∀ s t, holds s → body s item = some t → holds t) (before : holds s)
    (done : list.foldlM body s = some t) : holds t := by
  induction list generalizing s with
  | nil =>
      cases done
      exact before
  | cons item rest ih =>
      rw [List.foldlM_cons] at done
      obtain ⟨middle, first, done⟩ := Option.bind_eq_some_iff.mp done
      exact ih (fun other member => each other (List.mem_cons_of_mem _ member))
        (each item List.mem_cons_self s middle before first) done

theorem receive_frame {label : Env × Event} {s t : LoopState} (done : receive cfg s label = some t) :
    s.node.clock ≤ label.1.now ∧ t.node.clock = label.1.now ∧ t.timeoutTime = s.timeoutTime ∧
      t.learningPhase = s.learningPhase ∧ t.needHouseKeeping = s.needHouseKeeping := by
  simp only [receive, Option.ite_none_right_eq_some] at done
  obtain ⟨later, done⟩ := done
  obtain ⟨after, -, rfl⟩ := Option.map_eq_some_iff.mp done
  exact ⟨later, rfl, rfl, rfl, rfl⟩

/-- A handler does not call house keeping off. -/
theorem epollin_needed {wakeup : Wakeup} {s t : LoopState} (needed : s.needHouseKeeping = true)
    (done : epollin cfg s wakeup = some t) : t.needHouseKeeping = true := by
  have each (label : Env × Event) (s t : LoopState) (needed : s.needHouseKeeping = true)
      (done : receive cfg s label = some t) : t.needHouseKeeping = true :=
    (receive_frame done).2.2.2.2.trans needed
  have further (value : Bool) {s : LoopState} (needed : s.needHouseKeeping = true) :
      (need value s).needHouseKeeping = true := by simp [need, needed]
  cases wakeup with
  | ddhcpBlock received =>
      obtain ⟨middle, handled, rfl⟩ := Option.map_eq_some_iff.mp done
      exact further true (fold_keeps _ (fun label _ => each label) needed handled)
  | ddhcpDhcp received => exact fold_keeps _ (fun label _ => each label) needed done
  | dhcp received =>
      refine fold_keeps _ (fun packet _ s t (needed : s.needHouseKeeping = true) read => ?_) needed done
      obtain ⟨middle, handled, rfl⟩ := Option.map_eq_some_iff.mp read
      exact further _ (each _ _ _ needed handled)
  | ctrlCmd env buffer len => exact each _ _ _ needed done
  | ctrlNew =>
      cases done
      exact needed
  | netlink value =>
      cases done
      exact further _ needed

/-- House keeping that is due is run. -/
theorem due_runs {s woken : LoopState} (good : Good cfg s.node.config)
    (due : s.timeoutTime ≤ round.now) (waking : wake cfg s round = some woken) :
    runsHouseKeeping woken = true := by
  have learning := (wake_woken good waking).learning
  simp only [wake, Option.ite_none_right_eq_some] at waking
  have polled : (poll cfg round.now s).needHouseKeeping = true ∧
      (poll cfg round.now s).learningPhase = false := by simp [poll, due]
  have needed := fold_keeps _ (fun _ _ _ _ => epollin_needed) polled.1 waking.2
  simp [runsHouseKeeping, needed, learning, polled.2]

theorem early_poll (cfg : Settings) {s : LoopState} {now : Time} (early : now < s.timeoutTime) :
    (poll cfg now s).timeoutTime = s.timeoutTime ∧ (poll cfg now s).learningPhase = s.learningPhase := by
  rw [poll, if_neg (Nat.not_le_of_lt early)]
  exact ⟨rfl, rfl⟩

theorem next_pause {last : Time} (long : 2 ≤ cfg.tentativeTimeout.toNat)
    (inPace : InPace cfg busy start labels s) (punctual : Punctual busy s round)
    (was : lastHouseKeeping none labels = some last) :
    round.env.now ≤ last + longestPause cfg busy := by
  obtain ⟨-, due, before⟩ := inPace.kept last was
  have waits := Nat.lt_of_lt_of_le punctual.waits (Nat.add_le_add_right inPace.timeout 1000)
  calc round.env.now ≤ round.now + busy := punctual.keeps.2
    _ ≤ last + (cfg.tentativeTimeout.toNat - 1) + busy + busy :=
      Nat.add_le_add_right (pause_bound long waits due before) busy
    _ = last + longestPause cfg busy := by simp only [longestPause, Nat.two_mul, Nat.add_assoc]

theorem turn_in_pace (long : 2 ≤ cfg.tentativeTimeout.toNat) (good : Good cfg start.config)
    (inPace : InPace cfg busy start labels s) (punctual : Punctual busy s round)
    (done : mainTurn cfg s (round, forked) = some t) :
    ∃ more, InPace cfg busy start (labels ++ more) t := by
  obtain ⟨loop, turned, rfl⟩ := Option.map_eq_some_iff.mp done
  obtain ⟨woken, waking, rest⟩ := turn_woken turned
  have goodNow := logged_good good inPace.logged
  have after := wake_woken goodNow waking
  have later : s.loop.node.clock ≤ round.now := by
    simp only [wake, Option.ite_none_right_eq_some] at waking
    exact waking.1
  have logged : Logged cfg Multicasts (round.now + busy) start (labels ++ roundEvents round) woken :=
    wake_logged punctual.works (Nat.le_add_right _ _)
      (logged_until inPace.logged (Nat.le_trans later (Nat.le_add_right _ _))) waking
  have same : lastHouseKeeping none (labels ++ roundEvents round) = lastHouseKeeping none labels :=
    last_append_quiet round_events_quiet
  have spaced : Spaced (longestPause cfg busy) none (labels ++ roundEvents round) :=
    spaced_append.mpr ⟨inPace.spaced, spaced_quiet round_events_quiet⟩
  have timeout := Nat.le_of_eq (loop_timeout_seconds cfg)
  rcases rest with ⟨idle, rfl⟩ | ⟨runs, house⟩
  · have early : round.now < s.loop.timeoutTime := by
      by_contra due
      rw [due_runs goodNow (Nat.le_of_not_lt due) waking] at idle
      contradiction
    obtain ⟨timer, learning⟩ := early_poll cfg early
    rw [← after.timeout] at timer
    rw [← after.learning] at learning
    refine ⟨roundEvents round, logged_until logged (Nat.le_refl _), spaced, timeout, ?_, ?_⟩
    · rw [same, learning]
      intro unkept
      left
      exact (inPace.unkept unkept).resolve_right fun past =>
        absurd (Nat.le_trans past.2 later) (Nat.not_le_of_lt early)
    · rw [same, timer]
      intro last was
      obtain ⟨past, due, -⟩ := inPace.kept last was
      exact ⟨Nat.le_trans past (Nat.le_trans later after.clock), due, .inr
        (Nat.lt_of_le_of_lt logged.1 (Nat.add_lt_add_right early busy))⟩
  · obtain ⟨onwards, clock, timer, learning, -⟩ := receive_frame house
    have log := receive_logged (logged_until logged (Nat.le_trans onwards punctual.keeps.2))
      punctual.keeps house
    have kept := last_snoc_house none (labels ++ roundEvents round) round.env
    refine ⟨roundEvents round ++ [(round.env, .houseKeeping)], ?_⟩
    rw [← List.append_assoc]
    refine ⟨logged_until log (Nat.le_refl _), spaced_append.mpr ⟨spaced, ?_, trivial⟩, timeout, ?_, ?_⟩
    · rw [same]
      exact fun last was => next_pause long inPace punctual was
    · rw [kept]
      simp
    · rw [kept, timer, after.timeout]
      rintro _ ⟨⟩
      refine ⟨Nat.le_of_eq clock.symm, ?_, .inl (Nat.le_of_eq clock)⟩
      have now : round.now ≤ round.env.now := Nat.le_trans after.clock onwards
      by_cases due : s.loop.timeoutTime ≤ round.now
      · rw [poll, if_pos due]
        exact Nat.add_le_add_right now _
      · have early := Nat.lt_of_not_le due
        rw [(early_poll cfg early).1]
        cases was : lastHouseKeeping none labels with
        | some last =>
            obtain ⟨past, due, -⟩ := inPace.kept last was
            have before := Nat.le_trans past (Nat.le_trans later now)
            exact Nat.le_trans due (Nat.add_le_add_right before _)
        | none =>
            -- before the first house keeping the node learns, or it is due at once
            rcases inPace.unkept was with learns | past
            · simp [runsHouseKeeping, after.learning, (early_poll cfg early).2, learns] at runs
            · exact absurd (Nat.le_trans past.2 later) due

theorem start_in_pace {started now : Time} (learning : Bool) (options : List DhcpOption)
    (order : started ≤ now) : InPace cfg busy ⟨started, startConfig cfg started options⟩ []
      (mainStart cfg started now learning options forked) where
  logged := ⟨Nat.le_refl _, started, order, .refl _⟩
  spaced := trivial
  timeout := by
    cases learning with
    | false => exact Nat.zero_le _
    | true => exact Nat.le_of_eq (loop_timeout_seconds cfg)
  unkept _ := by
    cases learning with
    | false => exact .inr ⟨rfl, Nat.le_refl now⟩
    | true => exact .inl rfl
  kept last was := by contradiction

def PunctualTurn (cfg : Settings) (busy : Nat) (s : MainState) (label : Round × Bool) (t : MainState) :
    Prop := Punctual busy s label.1 ∧ mainTurn cfg s label = some t

theorem path_in_pace {rounds : List (Round × Bool)} (long : 2 ≤ cfg.tentativeTimeout.toNat)
    (good : Good cfg start.config) (inPace : InPace cfg busy start labels s)
    (run : Path (PunctualTurn cfg busy) s rounds t) :
    ∃ more, InPace cfg busy start (labels ++ more) t := by
  induction run generalizing labels with
  | refl => exact ⟨[], by rwa [List.append_nil]⟩
  | next move _ ih =>
      obtain ⟨more, next⟩ := turn_in_pace long good inPace move.1 move.2
      obtain ⟨further, last⟩ := ih next
      exact ⟨more ++ further, by rwa [← List.append_assoc]⟩

/-- The event loop runs house keeping so often that no block of ours times out, if the blocks are to
be refreshed less often than the tentative time passes, and the rounds are on time. -/
theorem loop_keeps_blocks {started now : Time} {learning : Bool} {options : List DhcpOption}
    {rounds : List (Round × Bool)} {woken : LoopState} (long : 2 ≤ cfg.tentativeTimeout.toNat)
    (enough : longestPause cfg busy ≤ refreshGap cfg) (order : started ≤ now)
    (run : Path (PunctualTurn cfg busy) (mainStart cfg started now learning options forked) rounds s)
    (punctual : Punctual busy s round) (waking : wake cfg s.loop round = some woken) :
    ∃ after, blockCheckTimeouts cfg round.env.now woken.node.config = some after ∧
      ∀ position, OursAt cfg woken.node.config position →
        round.env.now ≤ (woken.node.config.blocks position).timeout ∧
          (after.blocks position).state = .ours := by
  have good := start_good cfg started options
  obtain ⟨labels, inPace⟩ := path_in_pace long good (start_in_pace learning options order) run
  rw [List.nil_append] at inPace
  have later : s.loop.node.clock ≤ round.now := by
    simp only [wake, Option.ite_none_right_eq_some] at waking
    exact waking.1
  have logged : Logged cfg Multicasts (round.now + busy) _ (labels ++ roundEvents round) woken :=
    wake_logged punctual.works (Nat.le_add_right _ _)
      (logged_until inPace.logged (Nat.le_trans later (Nat.le_add_right _ _))) waking
  have sound := (logged_good good logged).sound
  obtain ⟨-, clock, -, path⟩ := logged
  have fresh := runs_fresh ⟨started, options, path⟩
  refine ⟨_, check_timeouts_checked sound round.env.now, fun position own => ?_⟩
  have live : round.env.now ≤ (woken.node.config.blocks position).timeout := by
    rcases fresh with ⟨last, was, -, fresh⟩ | unowned
    · rw [last_append_quiet round_events_quiet] at was
      have pause := next_pause long inPace punctual was
      exact Nat.le_trans pause (Nat.le_trans (Nat.add_le_add_left enough last) (fresh position own))
    · exact absurd own.2 (unowned position)
  refine ⟨live, ?_⟩
  simp only [own.1, ↓reduceIte]
  exact ((checked_kept_iff (sound position) live).mpr fun foreign => absurd own.2 foreign).1.trans own.2

end Pace

/-! The learning phase. -/

def passive : Output → Prop
  | .mcast _ _ => False
  | .dhcp type _ _ => type ≠ dhcpOffer
  | .direct _ _ => True
  | .hook _ _ _ => True

def Watching (c : Config) : Prop :=
  ∀ position, (c.blocks position).state ≠ .ours ∧ (c.blocks position).state ≠ .claiming

/-- The node has no part in claiming, and what it has sent tells nobody of blocks or addresses it
could give. -/
structure Learning (c : Config) : Prop where
  watching : Watching c
  silent : ∀ output ∈ c.out, passive output

section Learn
variable {cfg : Settings} {env : Env} {event : Event} {c after : Config} {packet : McastPacket}
  {sender : In6Addr}

theorem quiet_watching (watching : Watching c) (quiet : Quiet c after) : Watching after :=
  fun position => ⟨fun own => (watching position).1 (quiet.ours position own),
    fun claiming => (watching position).2 (quiet.claiming position claiming)⟩

theorem reply_passive {type : UInt8} (other : type ≠ dhcpOffer) (reply : DhcpPacket) (got : Bool) :
    passive (.dhcp type reply got) := other

theorem packet_send_passive {type : UInt8} (other : type ≠ dhcpOffer) (reply : DhcpPacket)
    (c : Config) : Emits passive c (dhcpPacketSend env type reply c).1 := by
  unfold dhcpPacketSend
  split
  · exact emits_one other
  · exact emits_same rfl

theorem hook_passive (action : HookAction) (address : InAddr) (chaddr : HwAddr) (c : Config) :
    Emits passive c (hookAddress cfg env action address chaddr c) := by
  unfold hookAddress
  split
  · exact emits_one trivial
  · exact emits_same rfl

/-- A node that owns nothing has no claim to defend. -/
theorem block_move_passive (watching : Watching c)
    (move : BlockMove cfg env packet sender c after) : Watching after ∧ Emits passive c after := by
  have apart (position : Nat) {block : Block} (foreign : block.state ≠ .ours)
      (idle : block.state ≠ .claiming) : Watching (c.setBlock position block) := by
    intro other
    by_cases here : other = position
    · subst here
      rw [set_block_same]
      exact ⟨foreign, idle⟩
    · rw [set_block_other _ _ _ _ here]
      exact watching other
  cases move with
  | concede => exact ⟨apart _ (by simp [conceded]) (by simp [conceded]), emits_same rfl⟩
  | defer => exact ⟨apart _ (by simp [deferred]) (by simp [deferred]), emits_same rfl⟩
  | defend _ _ _ own => exact absurd own (watching _).1

theorem block_moves_passive (watching : Watching c) (moves : Moves cfg env packet sender c after) :
    Emits passive c after := by
  suffices both : Watching after ∧ Emits passive c after from both.2
  induction moves with
  | refl => exact ⟨watching, emits_same rfl⟩
  | tail _ move ih =>
      obtain ⟨kept, emits⟩ := block_move_passive ih.1 move
      exact ⟨kept, emits_trans ih.2 emits⟩

theorem acked_passive {request : DhcpPacket} {position index : Nat}
    (acked : Acked cfg env c request position index after) : Emits passive c after :=
  acked_emits acked (fun reply got _ _ => reply_passive (by decide) reply got) trivial

theorem client_passive {packet : DhcpPacket} {value : Nat} (watching : Watching c)
    (done : dhcpProcess cfg env packet c = some (after, value)) : Emits passive c after := by
  cases process_cases done with
  | discover _ offered =>
      -- what is offered is a lease of a block of ours
      cases offered with
      | exhausted => exact emits_same rfl
      | starved => exact emits_same rfl
      | unanswered available => exact absurd available.own (watching _).1
      | unsent available => exact absurd available.own (watching _).1
      | sent available => exact absurd available.own (watching _).1
  | request _ requested =>
      exact requested_emits requested (reply_passive (by decide)) (fun _ _ _ => trivial)
        (fun reply got _ => reply_passive (by decide) reply got) fun _ => trivial
  | release _ released =>
      cases released with
      | ignored => exact emits_same rfl
      | released => exact emits_trans (emits_same rfl) (hook_passive _ _ _ _)
  | inform _ informed =>
      cases informed with
      | starved => exact emits_same rfl
      | answered reply => exact packet_send_passive (by decide) reply c
  | other => exact emits_same rfl

theorem direct_passive {buffer : List UInt8} {len : Nat}
    (done : ddhcpDhcpProcess cfg env buffer len sender c = some after) : Emits passive c after := by
  have answered (answer : McastPacket) (c : Config) :
      Emits passive c (sendPacketDirect env answer sender c) := send_direct_emits trivial c
  cases dispatch_cases done with
  | ignored => exact emits_same rfl
  | renewal _ _ renewal =>
      cases renewal with
      | ignored => exact emits_same rfl
      | declined => exact answered _ c
      | unanswered => exact emits_same rfl
      | granted => exact emits_trans (emits_same rfl) (answered _ _)
  | ack _ _ handled => exact leaseack_emits (fun _ _ _ _ _ => acked_passive) handled
  | nak _ _ handled => exact leasenak_emits (reply_passive (by decide)) handled

theorem handled_learning (sound : Sound cfg c) (learning : Learning c)
    (other : event ≠ .houseKeeping) (done : handle cfg env event c = some after) :
    Learning after := by
  have emits : Emits passive c after := by
    cases event with
    | houseKeeping => contradiction
    | mcast buffer len sender =>
        cases done
        unfold ddhcpBlockProcess
        split
        · exact block_moves_passive learning.watching dispatch_moves
        · exact emits_same rfl
    | direct buffer len sender => exact direct_passive done
    | client packet =>
        obtain ⟨⟨final, value⟩, handled, rfl⟩ := Option.map_eq_some_iff.mp done
        exact client_passive learning.watching handled
    | control buffer len =>
        cases done
        exact control_emits buffer len
  refine ⟨quiet_watching learning.watching (received_good sound other done).2, ?_⟩
  obtain ⟨outs, out, fine⟩ := emits
  rw [out]
  intro output member
  exact (List.mem_append.mp member).elim (learning.silent output) (fine output)

end Learn

section LearningPhase
variable {cfg : Settings} {round : Round} {label : Round × Bool} {s t : MainState}

/-- What every handler keeps, a round keeps up to its house keeping. -/
theorem wake_keeps {holds : Config → Prop} {s woken : LoopState}
    (each : ∀ env event c after, Good cfg c → holds c → event ≠ .houseKeeping →
      handle cfg env event c = some after → holds after)
    (good : Good cfg s.node.config) (before : holds s.node.config)
    (done : wake cfg s round = some woken) : holds woken.node.config := by
  let kept (s : LoopState) : Prop := Good cfg s.node.config ∧ holds s.node.config
  have single (label : Env × Event) (other : label.2 ≠ .houseKeeping) (s t : LoopState)
      (before : kept s) (handled : receive cfg s label = some t) : kept t := by
    have after : Carried cfg False s t := receive_carried before.1 other handled
    simp only [receive, Option.ite_none_right_eq_some] at handled
    obtain ⟨config, done, rfl⟩ := Option.map_eq_some_iff.mp handled.2
    exact ⟨after.good, each _ _ _ _ before.1 before.2 other done⟩
  have wakeups (wakeup : Wakeup) (s t : LoopState) (before : kept s)
      (handled : epollin cfg s wakeup = some t) : kept t := by
    cases wakeup with
    | ddhcpBlock received =>
        obtain ⟨middle, folded, rfl⟩ := Option.map_eq_some_iff.mp handled
        have through : kept middle := by
          refine fold_keeps kept (fun label member => single label ?_) before folded
          obtain ⟨packet, -, rfl⟩ := List.mem_map.mp member
          simp [mcastEvent]
        exact through
    | ddhcpDhcp received =>
        refine fold_keeps kept (fun label member => single label ?_) before handled
        obtain ⟨packet, -, rfl⟩ := List.mem_map.mp member
        simp [directEvent]
    | dhcp received =>
        refine fold_keeps kept (fun packet _ s t before read => ?_) before handled
        obtain ⟨middle, processed, rfl⟩ := Option.map_eq_some_iff.mp read
        exact single _ (by simp) s middle before processed
    | ctrlCmd env buffer len => exact single _ (by simp) s t before handled
    | ctrlNew =>
        cases handled
        exact before
    | netlink value =>
        cases handled
        exact before
  simp only [wake, Option.ite_none_right_eq_some] at done
  have polled : kept (poll cfg round.now s) := by
    have same : (poll cfg round.now s).node.config = s.node.config := (poll_same round.now s).1
    exact ⟨same ▸ good, same ▸ before⟩
  exact (fold_keeps kept (fun wakeup _ => wakeups wakeup) polled done.2).2

theorem main_turn_good (good : Good cfg s.loop.node.config) (done : mainTurn cfg s label = some t) :
    Good cfg t.loop.node.config := by
  obtain ⟨loop, turned, rfl⟩ := Option.map_eq_some_iff.mp done
  obtain ⟨woken, waking, rest⟩ := turn_woken turned
  have after := (wake_woken good waking).good
  rcases rest with ⟨-, rfl⟩ | ⟨-, house⟩
  · exact after
  · simp only [receive, Option.ite_none_right_eq_some] at house
    obtain ⟨kept, handled, rfl⟩ := Option.map_eq_some_iff.mp house.2
    exact step_good after (.event label.1.env .houseKeeping house.1 handled)

/-- What the rounds so far have come to, when learning is to end at `deadline`. -/
def Learnt (cfg : Settings) (deadline : Time) (rounds : List (Round × Bool)) (s : MainState) : Prop :=
  (s.loop.learningPhase = true ∧ s.hooks = [] ∧ (∀ label ∈ rounds, label.1.now < deadline) ∧
    Learning s.loop.node.config) ∨
  s.loop.learningPhase = false ∧ ∃ front last back, rounds = front ++ last :: back ∧
    (∀ label ∈ front, label.1.now < deadline) ∧ deadline ≤ last.1.now ∧
    s.hooks = (hook cfg hookLearningPhaseEnd last.2).toList

theorem round_learns {deadline : Time} {rounds : List (Round × Bool)}
    (good : Good cfg s.loop.node.config) (timer : s.loop.learningPhase = true → s.loop.timeoutTime = deadline)
    (learnt : Learnt cfg deadline rounds s) (done : mainTurn cfg s label = some t) :
    (t.loop.learningPhase = true → t.loop.timeoutTime = deadline) ∧
      Learnt cfg deadline (rounds ++ [label]) t := by
  obtain ⟨loop, turned, rfl⟩ := Option.map_eq_some_iff.mp done
  obtain ⟨woken, waking, rest⟩ := turn_woken turned
  have after := wake_woken good waking
  have same : loop.learningPhase = woken.learningPhase ∧ loop.timeoutTime = woken.timeoutTime := by
    rcases rest with ⟨-, rfl⟩ | ⟨-, house⟩
    · exact ⟨rfl, rfl⟩
    · obtain ⟨-, -, timeout, learning, -⟩ := receive_frame house
      exact ⟨learning, timeout⟩
  by_cases due : s.loop.timeoutTime ≤ label.1.now
  · have ended : loop.learningPhase = false := by
      rw [same.1, after.learning, poll, if_pos due]
    refine ⟨fun learning => absurd (ended.symm.trans learning) (by decide), .inr ⟨ended, ?_⟩⟩
    rcases learnt with ⟨learning, none, early, -⟩ | ⟨past, front, last, back, rfl, early, late, hooks⟩
    · refine ⟨rounds, label, [], rfl, early, timer learning ▸ due, ?_⟩
      simp [none, due, learning]
    · refine ⟨front, last, back ++ [label], by simp, early, late, ?_⟩
      simp [past, hooks]
  · have early := Nat.lt_of_not_le due
    obtain ⟨timeout, phase⟩ := early_poll cfg early
    rw [← after.learning, ← same.1] at phase
    rw [← after.timeout, ← same.2] at timeout
    refine ⟨fun learning => timeout.trans (timer (phase ▸ learning)), ?_⟩
    rcases learnt with ⟨learning, none, before, passive⟩ | ⟨past, front, last, back, rfl, before, late, hooks⟩
    · left
      refine ⟨phase.trans learning, by simp [none, due], ?_, ?_⟩
      · intro other member
        rcases List.mem_append.mp member with old | new
        · exact before other old
        · rw [List.mem_singleton.mp new]
          exact timer learning ▸ early
      · have kept := wake_keeps (fun _ _ _ _ good learning other handled =>
          handled_learning good.sound learning other handled) good passive waking
        rcases rest with ⟨-, rfl⟩ | ⟨runs, -⟩
        · exact kept
        · -- no house keeping is run while the node learns
          simp [runsHouseKeeping, ← same.1, phase, learning] at runs
    · right
      refine ⟨phase.trans past, front, last, back ++ [label], by simp, before, late, ?_⟩
      simp [past, hooks]

/-- Every node that is to learn does, for as long as a claim of another node is good, and tells so
once, with the first round after that. -/
theorem learns_until_deadline {started now : Time} {options : List DhcpOption} {forked : Bool}
    {rounds : List (Round × Bool)}
    (run : Path (fun s label t => mainTurn cfg s label = some t)
      (mainStart cfg started now true options forked) rounds s) :
    Learnt cfg (now + cfg.blockTimeout.toNat) rounds s := by
  let deadline := now + cfg.blockTimeout.toNat
  let claim (rounds : List (Round × Bool)) (s : MainState) : Prop :=
    Good cfg s.loop.node.config ∧ (s.loop.learningPhase = true → s.loop.timeoutTime = deadline) ∧
      Learnt cfg deadline rounds s
  have start : claim [] (mainStart cfg started now true options forked) := by
    refine ⟨start_good cfg started options, fun _ => rfl, .inl ⟨rfl, rfl, by simp, ?_, ?_⟩⟩
    · intro position
      simp [mainStart, loopStart, startConfig, freshBlock]
    · simp [mainStart, loopStart, startConfig]
  refine (path_induction claim start (fun rounds s label t _ known done => ?_) run).2.2
  exact ⟨main_turn_good known.1 done, round_learns known.1 known.2.1 known.2.2 done⟩

end LearningPhase

/-! The small node: its timer is read every 7 seconds, and what it learns comes from one packet. -/

def watchedNode : Settings := { smallNode 1 with hookCommand := some "notify" }

def smallOptions : List DhcpOption := [⟨codeAddressLeaseTime, 4, [0, 0, 1, 44]⟩]

def runMain (cfg : Settings) (allowed : MainState → Round → Bool) (s : MainState) :
    List Round → Option MainState
  | [] => some s
  | round :: rest =>
      if allowed s round then
        (mainTurn cfg s (round, true)).bind fun t => runMain cfg allowed t rest
      else none

theorem run_main_path {cfg : Settings} {allowed : MainState → Round → Bool}
    {holds : MainState → Round → Prop} {rounds : List Round} {s t : MainState}
    (told : ∀ s, ∀ round ∈ rounds, allowed s round = true → holds s round)
    (done : runMain cfg allowed s rounds = some t) :
    Path (fun s label t => holds s label.1 ∧ mainTurn cfg s label = some t) s
      (rounds.map fun round => (round, true)) t := by
  induction rounds generalizing s with
  | nil =>
      cases done
      exact .refl _
  | cons round rest ih =>
      simp only [runMain, Option.ite_none_right_eq_some] at done
      obtain ⟨fine, done⟩ := done
      obtain ⟨middle, first, done⟩ := Option.bind_eq_some_iff.mp done
      refine .next ⟨told s round List.mem_cons_self fine, first⟩ ?_
      exact ih (fun s other member => told s other (List.mem_cons_of_mem _ member)) done

def waitsInTime (s : MainState) (round : Round) : Bool :=
  (round.now - s.loop.node.clock) * 1000 < s.loopTimeout.toNat + 1000

theorem timer_punctual (times : List Time) (s : MainState) (round : Round)
    (member : round ∈ times.map timerRound) (told : waitsInTime s round = true) :
    Punctual 0 s round := by
  obtain ⟨now, -, rfl⟩ := List.mem_map.mp member
  have sends : Multicasts (calmEnv now) := by simp [Multicasts, calmEnv]
  exact ⟨of_decide_eq_true told, by simp [roundEvents, timerRound], sends, Nat.le_refl _⟩

theorem loop_keeps_blocks_small : ∃ s woken after,
    Path (PunctualTurn (smallNode 1) 0) (mainStart (smallNode 1) 1000 1000 false smallOptions true)
      (([1000, 1007, 1014, 1021].map timerRound).map fun round => (round, true)) s ∧
    wake (smallNode 1) s.loop (timerRound 1028) = some woken ∧
    blockCheckTimeouts (smallNode 1) 1028 woken.node.config = some after ∧
    (after.blocks 0).state = .ours := by
  have evaluated : ((runMain (smallNode 1) waitsInTime
      (mainStart (smallNode 1) 1000 1000 false smallOptions true)
      ([1000, 1007, 1014, 1021].map timerRound)).any fun s =>
        waitsInTime s (timerRound 1028) && (wake (smallNode 1) s.loop (timerRound 1028)).any
          fun woken => (woken.node.config.blocks 0).state = .ours) = true := by decide +kernel
  obtain ⟨s, done, facts⟩ := (Option.any_eq_true _ _).mp evaluated
  obtain ⟨waits, facts⟩ := (Bool.and_eq_true _ _).mp facts
  obtain ⟨woken, waking, own⟩ := (Option.any_eq_true _ _).mp facts
  have path := run_main_path (timer_punctual _) done
  have last := timer_punctual [1028] s (timerRound 1028) (List.mem_singleton_self _) waits
  obtain ⟨after, check, kept⟩ :=
    loop_keeps_blocks (by decide) (by decide) (Nat.le_refl _) path last waking
  exact ⟨s, woken, after, path, waking, check, (kept 0 ⟨by decide, of_decide_eq_true own⟩).2⟩

theorem learns_until_deadline_small : ∃ s,
    Path (fun s label t => mainTurn watchedNode s label = some t)
      (mainStart watchedNode 1000 1000 true smallOptions true)
      ([packetRound 1007, timerRound 1060, timerRound 1067].map fun round => (round, true)) s ∧
    Learnt watchedNode 1060 ([packetRound 1007, timerRound 1060, timerRound 1067].map
      fun round => (round, true)) s ∧ s.hooks = [("notify", "endlearning")] := by
  have evaluated : ((runMain watchedNode (fun _ _ => true)
      (mainStart watchedNode 1000 1000 true smallOptions true)
      [packetRound 1007, timerRound 1060, timerRound 1067]).any fun s =>
        s.hooks = [("notify", "endlearning")]) = true := by decide +kernel
  obtain ⟨s, done, hooks⟩ := (Option.any_eq_true _ _).mp evaluated
  have path := path_mono (fun _ _ _ step => step.2)
    (run_main_path (fun _ _ _ _ => trivial) done)
  exact ⟨s, path, learns_until_deadline path, of_decide_eq_true hooks⟩

end Ddhcpd.MainLoop

import Ddhcpd.ClaimingList
import Ddhcpd.Handlers

/-!
The event loop of `main.c`. House keeping is due when half the tentative time has passed, and
it is also run when a handler asks for it. An attempt to claim a block advances with every
run of house keeping, whoever asked for it.
-/

namespace Ddhcpd.EventLoop
open Types Blocks Dhcp Node Path Claim Invariant Calls Handlers Attempt ClaimingList

/-! The handlers of file descriptors. -/

/-- A file descriptor that `epoll_wait` reports, with what its handler reads. -/
inductive Wakeup where
  | ddhcpBlock (received : List (Env × List UInt8 × Nat × In6Addr))
  | ddhcpDhcp (received : List (Env × List UInt8 × Nat × In6Addr))
  | dhcp (received : List (Env × DhcpPacket))
  | ctrlCmd (env : Env) (buffer : List UInt8) (len : Nat)
  | ctrlNew
  | netlink (value : Int)

/-- What `main` keeps between two steps. `inquired` is no variable of the source: it tells when
a node first inquired about a block since it last began to claim it. -/
structure LoopState where
  node : NodeState
  needHouseKeeping : Bool
  timeoutTime : Time
  learningPhase : Bool
  inquired : Nat → Option Time

def asksAbout (position : Nat) (before after : Config) : Bool :=
  (sent before after).any (inquires position)

/-- The state that `block_claim` meets in an event. -/
def beforeClaim (cfg : Settings) (label : Env × Event) (c : Config) : Config :=
  match label.2 with
  | .houseKeeping => (blockCheckTimeouts cfg label.1.now c).getD c
  | _ => c

/-- An attempt begins where the block enters its state. -/
def firstInquiry (cfg : Settings) (label : Env × Event) (before after : Config) (position : Nat)
    (first : Option Time) : Option Time :=
  let begun := ((beforeClaim cfg label before).blocks position).state ≠ .claiming ∧
    (after.blocks position).state = .claiming
  let known := if begun then none else first
  if asksAbout position before after then known.or (some label.1.now) else known

/-- One event under one reading of the clock. -/
def receive (cfg : Settings) (s : LoopState) (label : Env × Event) : Option LoopState :=
  if s.node.clock ≤ label.1.now then
    (handle cfg label.1 label.2 s.node.config).map fun after =>
      { s with
        node := ⟨label.1.now, after⟩
        inquired := fun position =>
          firstInquiry cfg label s.node.config after position (s.inquired position) }
  else none

/-- The variable after a handler returned `asks`. -/
def need (asks : Bool) (s : LoopState) : LoopState :=
  { s with needHouseKeeping := s.needHouseKeeping || asks }

def mcastEvent (received : Env × List UInt8 × Nat × In6Addr) : Env × Event :=
  (received.1, .mcast received.2.1 received.2.2.1 received.2.2.2)

def directEvent (received : Env × List UInt8 × Nat × In6Addr) : Env × Event :=
  (received.1, .direct received.2.1 received.2.2.1 received.2.2.2)

/-- One packet of a client, with the value `dhcp_process` returns. -/
def readDhcp (cfg : Settings) (s : LoopState) (received : Env × DhcpPacket) : Option LoopState :=
  let asks := (dhcpProcess cfg received.1 received.2 s.node.config).any fun result => result.2 ≠ 0
  (receive cfg s (received.1, .client received.2)).map (need asks)

/-- `hdl_ddhcp_block`, `hdl_ddhcp_dhcp`, `hdl_dhcp`, `hdl_ctrl_cmd`, `hdl_ctrl_new` and
`netlink_in`: what they do, and whether they ask for house keeping. -/
def epollin (cfg : Settings) (s : LoopState) : Wakeup → Option LoopState
  | .ddhcpBlock received => ((received.map mcastEvent).foldlM (receive cfg) s).map (need true)
  | .ddhcpDhcp received => (received.map directEvent).foldlM (receive cfg) s
  | .dhcp received => received.foldlM (readDhcp cfg) s
  | .ctrlCmd env buffer len => receive cfg s (env, .control buffer len)
  | .ctrlNew => some s
  | .netlink value => some (need (value ≠ 0) s)

/-! One round of the loop. -/

/-- When `epoll_wait` returned, what it reports, and what house keeping meets. -/
structure Round where
  now : Time
  wakeups : List Wakeup
  env : Env

/-- The clock is read and the timer looked at. -/
def poll (cfg : Settings) (now : Time) (s : LoopState) : LoopState :=
  if s.timeoutTime ≤ now then
    { s with
      node := ⟨now, s.node.config⟩
      needHouseKeeping := true
      timeoutTime := now + cfg.tentativeTimeout.toNat / 2
      learningPhase := false }
  else { s with node := ⟨now, s.node.config⟩, needHouseKeeping := false }

/-- The round up to house keeping. -/
def wake (cfg : Settings) (s : LoopState) (round : Round) : Option LoopState :=
  if s.node.clock ≤ round.now then round.wakeups.foldlM (epollin cfg) (poll cfg round.now s)
  else none

def runsHouseKeeping (s : LoopState) : Bool := s.needHouseKeeping && !s.learningPhase

def turn (cfg : Settings) (s : LoopState) (round : Round) : Option LoopState :=
  (wake cfg s round).bind fun woken =>
    if runsHouseKeeping woken then receive cfg woken (round.env, .houseKeeping) else some woken

/-- What `main` leaves before the loop; `started` is when the blocks were set up. -/
def loopStart (cfg : Settings) (started now : Time) (learningPhase : Bool)
    (options : List DhcpOption) : LoopState where
  node := ⟨now, startConfig cfg started options⟩
  needHouseKeeping := false
  timeoutTime := if learningPhase then now + cfg.blockTimeout.toNat else now
  learningPhase := learningPhase
  inquired := fun _ => none

/-! A handler makes no progress in claiming. -/

/-- The reply to a discover cannot be built: `dhcp_process` then asks for house keeping. -/
def Unanswerable (received : Env × DhcpPacket) : Prop :=
  messageType received.2 = dhcpDiscover ∧
    (received.1.alloc .replyPacket = false ∨ received.1.alloc .replyOptions = false)

/-- The handler may ask for house keeping before it is due. -/
def Disturbs : Wakeup → Prop
  | .ddhcpBlock _ => True
  | .dhcp received => ∃ packet ∈ received, Unanswerable packet
  | .netlink value => value ≠ 0
  | _ => False

/-- From one state to the other only handlers ran; house keeping was asked for by those that
`asks` tells. -/
structure Carried (cfg : Settings) (asks : Prop) (s t : LoopState) : Prop where
  good : Good cfg t.node.config
  quiet : Quiet s.node.config t.node.config
  clock : s.node.clock ≤ t.node.clock
  timeout : t.timeoutTime = s.timeoutTime
  learning : t.learningPhase = s.learningPhase
  inquired : t.inquired = s.inquired
  need : t.needHouseKeeping = true → s.needHouseKeeping = true ∨ asks

section Handlers
variable {cfg : Settings} {env : Env} {event : Event} {c middle after : Config} {s t u : LoopState}
  {asks wider : Prop} {position count : Nat}

theorem carried_refl (good : Good cfg s.node.config) : Carried cfg asks s s :=
  ⟨good, quiet_refl _, Nat.le_refl _, rfl, rfl, rfl, .inl⟩

theorem carried_trans (first : Carried cfg asks s t) (second : Carried cfg asks t u) :
    Carried cfg asks s u where
  good := second.good
  quiet := quiet_trans first.quiet second.quiet
  clock := Nat.le_trans first.clock second.clock
  timeout := second.timeout.trans first.timeout
  learning := second.learning.trans first.learning
  inquired := second.inquired.trans first.inquired
  need asked := by
    rcases second.need asked with before | here
    · exact first.need before
    · exact .inr here

theorem carried_mono (carried : Carried cfg asks s t) (weaken : asks → wider) :
    Carried cfg wider s t :=
  { carried with need := fun asked => (carried.need asked).imp_right weaken }

theorem carried_need (carried : Carried cfg asks s t) {value : Bool} (told : value = true → asks) :
    Carried cfg asks s (need value t) where
  good := carried.good
  quiet := carried.quiet
  clock := carried.clock
  timeout := carried.timeout
  learning := carried.learning
  inquired := carried.inquired
  need asked := by
    rcases (Bool.or_eq_true _ _).mp asked with before | here
    · exact carried.need before
    · exact .inr (told here)

theorem asks_about_iff (inquired : Inquired position count c after) :
    asksAbout position c after = true ↔ 0 < count := by
  rcases inquired with ⟨outs, out, rfl⟩
  rw [asksAbout, sent, out, List.drop_left, List.any_eq_true, List.countP_pos_iff]

theorem before_claim_checked {checked : Config}
    (check : blockCheckTimeouts cfg env.now c = some checked) :
    beforeClaim cfg (env, .houseKeeping) c = checked := by simp [beforeClaim, check]

/-- Nothing is begun or asked where no block enters the state and no inquiry is sent. -/
theorem first_inquiry_quiet {label : Env × Event} {first : Option Time}
    (quiet : Quiet (beforeClaim cfg label c) after) (silent : Inquired position 0 c after) :
    firstInquiry cfg label c after position first = first := by
  have unasked : ¬ asksAbout position c after = true := by
    rw [asks_about_iff silent]
    exact Nat.lt_irrefl 0
  have unbegun : ¬ (((beforeClaim cfg label c).blocks position).state ≠ .claiming ∧
      (after.blocks position).state = .claiming) := by
    rintro ⟨idle, claiming⟩
    exact idle (quiet.claiming position claiming)
  rw [firstInquiry, if_neg unasked, if_neg unbegun]

theorem receive_carried (good : Good cfg s.node.config) (other : event ≠ .houseKeeping)
    (done : receive cfg s (env, event) = some t) : Carried cfg asks s t := by
  simp only [receive, Option.ite_none_right_eq_some] at done
  rcases done with ⟨later, done⟩
  rcases Option.map_eq_some_iff.mp done with ⟨after, handled, rfl⟩
  rcases received_good good.sound other handled with ⟨sound, quiet⟩
  have performed : perform cfg env (.received event) s.node.config = some after := handled
  have silent (position : Nat) : Inquired position 0 s.node.config after := by
    apply uninquiring_inquired
    exact perform_uninquiring good.sound (by simpa using other) (by simp) performed
  have same : beforeClaim cfg (env, event) s.node.config = s.node.config := by
    cases event <;> first | rfl | contradiction
  refine ⟨⟨sound, quiet_listed quiet good.listed⟩, quiet, later, rfl, rfl, ?_, .inl⟩
  funext position
  exact first_inquiry_quiet (by rwa [same]) (silent position)

theorem fold_carried {Item : Type} {body : LoopState → Item → Option LoopState} {list : List Item}
    (each : ∀ item ∈ list, ∀ s t, Good cfg s.node.config → body s item = some t →
      Carried cfg asks s t)
    (good : Good cfg s.node.config) (done : list.foldlM body s = some t) :
    Carried cfg asks s t := by
  induction list generalizing s with
  | nil =>
      cases done
      exact carried_refl good
  | cons item rest ih =>
      rw [List.foldlM_cons] at done
      rcases Option.bind_eq_some_iff.mp done with ⟨middle, first, done⟩
      have carried := each item List.mem_cons_self s middle good first
      exact carried_trans carried
        (ih (fun other member => each other (List.mem_cons_of_mem _ member)) carried.good done)

theorem process_value {packet : DhcpPacket}
    (asks : ((dhcpProcess cfg env packet c).any fun result => result.2 ≠ 0) = true) :
    Unanswerable (env, packet) := by
  rcases (Option.any_eq_true _ _).mp asks with ⟨⟨after, value⟩, done, nonzero⟩
  have handled := process_cases done
  rw [decide_eq_true_eq] at nonzero
  cases handled with
  | discover kind offered returned =>
      refine ⟨kind, ?_⟩
      cases offered with
      | starved starved => exact .inl starved
      | unanswered _ starved => exact .inr starved
      | exhausted => exact absurd returned nonzero
      | unsent => exact absurd returned nonzero
      | sent => exact absurd returned nonzero
  | request => contradiction
  | release => contradiction
  | inform => contradiction
  | other => contradiction

theorem epollin_carried {wakeup : Wakeup} (good : Good cfg s.node.config)
    (done : epollin cfg s wakeup = some t) : Carried cfg (Disturbs wakeup) s t := by
  cases wakeup with
  | ddhcpBlock received =>
      rcases Option.map_eq_some_iff.mp done with ⟨middle, handled, rfl⟩
      refine carried_need (fold_carried ?_ good handled) fun _ => trivial
      intro label member s t good received
      rcases List.mem_map.mp member with ⟨packet, -, rfl⟩
      exact receive_carried good (by simp) received
  | ddhcpDhcp received =>
      refine fold_carried ?_ good done
      intro label member s t good received
      rcases List.mem_map.mp member with ⟨packet, -, rfl⟩
      exact receive_carried good (by simp) received
  | dhcp received =>
      refine fold_carried ?_ good done
      intro packet member s t good read
      rcases Option.map_eq_some_iff.mp read with ⟨middle, handled, rfl⟩
      refine carried_need (receive_carried good (by simp) handled) fun asks => ?_
      exact ⟨packet, member, process_value asks⟩
  | ctrlCmd env buffer len => exact receive_carried good (by simp) done
  | ctrlNew =>
      cases done
      exact carried_refl good
  | netlink value =>
      cases done
      refine carried_need (carried_refl good) fun asks => ?_
      simpa [Disturbs] using asks

end Handlers

/-! The pace of an attempt. -/

/-- The block would be promoted, or stay on the list, if `block_claim` were called. -/
def Live (c : Config) (position : Nat) : Prop :=
  asked c position ∨ position ∈ c.claimingBlocks ∧ going c position = true

/-- If house keeping is not due, the handlers of the round do not ask for it while a block is being
claimed. If it is run, the clock has not gone so far since the round began that less than the
tentative time is left until the third time house keeping is due. -/
structure Paced (cfg : Settings) (s : LoopState) (round : Round) : Prop where
  calm : round.now < s.timeoutTime → ∀ position, Live s.node.config position →
    ∀ wakeup ∈ round.wakeups, ¬ Disturbs wakeup
  prompt : (poll cfg round.now s).learningPhase = false →
    round.env.now + cfg.tentativeTimeout.toNat ≤
      (poll cfg round.now s).timeoutTime + 2 * (cfg.tentativeTimeout.toNat / 2)

theorem due_thrice {now tentative : Nat} (long : 2 ≤ tentative) :
    now + tentative ≤ now + tentative / 2 + 2 * (tentative / 2) := by
  omega

theorem due_twice {now due : Nat} (tentative : Nat) (early : now < due) :
    now + tentative ≤ due + 2 * (tentative / 2) := by
  omega

/-- Within one second there is always enough time left. -/
theorem prompt_at_once {cfg : Settings} (s : LoopState) {round : Round}
    (long : 2 ≤ cfg.tentativeTimeout.toNat) (same : round.env.now = round.now) :
    round.env.now + cfg.tentativeTimeout.toNat ≤
      (poll cfg round.now s).timeoutTime + 2 * (cfg.tentativeTimeout.toNat / 2) := by
  rw [same, poll]
  split
  · exact due_thrice long
  · rename_i early
    exact due_twice _ (Nat.lt_of_not_le early)

/-- An attempt of which `count` inquiries went out, the first one at `first`: the block can only be
owned when house keeping, next due at `due`, has been due often enough. -/
structure OnTime (tentative due count : Nat) (first : Option Nat) : Prop where
  few : count ≤ 3
  fresh : count = 0 → first = none
  begun : count ≠ 0 → ∃ time, first = some time ∧
    time + tentative ≤ due + (3 - count) * (tentative / 2)

section Attempts
variable {tentative due later count now : Nat} {first : Option Nat}

theorem on_time_later (onTime : OnTime tentative due count first) (after : due ≤ later) :
    OnTime tentative later count first where
  few := onTime.few
  fresh := onTime.fresh
  begun some := by
    rcases onTime.begun some with ⟨time, same, bound⟩
    exact ⟨time, same, by omega⟩

theorem on_time_idle (tentative due : Nat) : OnTime tentative due 0 none :=
  ⟨Nat.zero_le 3, fun _ => rfl, fun some => absurd rfl some⟩

theorem on_time_first (prompt : now + tentative ≤ due + 2 * (tentative / 2)) :
    OnTime tentative due 1 (some now) :=
  ⟨by decide, fun none => absurd none (by decide), fun _ => ⟨now, rfl, prompt⟩⟩

/-- One more inquiry, when house keeping was due since the last one. -/
theorem on_time_next (onTime : OnTime tentative due count first) (room : count < 3)
    (after : due + tentative / 2 ≤ later)
    (prompt : now + tentative ≤ later + 2 * (tentative / 2)) :
    OnTime tentative later (count + 1) (first.or (some now)) := by
  by_cases none : count = 0
  · rw [onTime.fresh none, none]
    exact on_time_first prompt
  · rcases onTime.begun none with ⟨time, rfl, bound⟩
    refine ⟨room, fun none => absurd none (Nat.succ_ne_zero count), fun _ => ⟨time, rfl, ?_⟩⟩
    have spare : (3 - count) * (tentative / 2) =
        tentative / 2 + (3 - (count + 1)) * (tentative / 2) := by
      have one : 3 - count = 1 + (3 - (count + 1)) := by omega
      rw [one, Nat.add_mul, Nat.one_mul]
    omega

/-- What a pass of `block_claim` counts keeps the attempt on time; one that begins need
not have waited. -/
theorem on_time_counted {counts : UInt8} {bump : Nat}
    (onTime : OnTime tentative due counts.toNat first) (unfilled : counts ≠ 3)
    (passed : counts ≠ 0 → due + tentative / 2 ≤ later)
    (prompt : now + tentative ≤ later + 2 * (tentative / 2)) (once : bump = 0 ∨ bump = 1) :
    OnTime tentative later (counts + UInt8.ofNat bump).toNat
      (if 0 < bump then first.or (some now) else first) := by
  by_cases begins : counts = 0
  · subst begins
    have unasked : first = none := onTime.fresh rfl
    subst unasked
    rcases once with rfl | rfl
    · exact on_time_idle _ _
    · exact on_time_first prompt
  · have waited := passed begins
    rcases once with rfl | rfl
    · rw [if_neg (Nat.lt_irrefl 0), show counts + UInt8.ofNat 0 = counts by simp]
      exact on_time_later onTime (Nat.le_trans (Nat.le_add_right _ _) waited)
    · have few := onTime.few
      have room : counts.toNat < 3 :=
        Nat.lt_of_le_of_ne few fun three => unfilled (UInt8.toNat_inj.mp three)
      have next : (counts + UInt8.ofNat 1).toNat = counts.toNat + 1 := by
        rw [UInt8.toNat_add]
        exact Nat.mod_eq_of_lt (by simp; omega)
      rw [if_pos Nat.one_pos, next]
      exact on_time_next onTime room waited prompt

end Attempts

/-- The attempts on the list between two rounds. -/
structure Pacing (cfg : Settings) (s : LoopState) : Prop where
  good : Good cfg s.node.config
  listed : ∀ position ∈ s.node.config.claimingBlocks,
    OnTime cfg.tentativeTimeout.toNat s.timeoutTime
      (s.node.config.blocks position).claimingCounts.toNat (s.inquired position)

section Rounds
variable {cfg : Settings} {s woken t : LoopState} {round : Round} {position : Nat}

theorem poll_same (now : Time) (s : LoopState) :
    (poll cfg now s).node.config = s.node.config ∧ (poll cfg now s).inquired = s.inquired := by
  unfold poll
  split <;> exact ⟨rfl, rfl⟩

theorem poll_due {now : Time} (due : s.timeoutTime ≤ now) :
    s.timeoutTime + cfg.tentativeTimeout.toNat / 2 ≤ (poll cfg now s).timeoutTime := by
  rw [poll, if_pos due]
  exact Nat.add_le_add_right due _

theorem poll_later (now : Time) : s.timeoutTime ≤ (poll cfg now s).timeoutTime := by
  by_cases due : s.timeoutTime ≤ now
  · exact Nat.le_trans (Nat.le_add_right _ _) (poll_due due)
  · rw [poll, if_neg due]

/-- What happened in a round before house keeping. -/
structure Woken (cfg : Settings) (s : LoopState) (round : Round) (woken : LoopState) : Prop where
  good : Good cfg woken.node.config
  quiet : Quiet s.node.config woken.node.config
  timeout : woken.timeoutTime = (poll cfg round.now s).timeoutTime
  learning : woken.learningPhase = (poll cfg round.now s).learningPhase
  inquired : woken.inquired = s.inquired
  clock : round.now ≤ woken.node.clock
  need : woken.needHouseKeeping = true → s.timeoutTime ≤ round.now ∨
    ∃ wakeup ∈ round.wakeups, Disturbs wakeup

theorem wake_woken (good : Good cfg s.node.config) (done : wake cfg s round = some woken) :
    Woken cfg s round woken := by
  simp only [wake, Option.ite_none_right_eq_some] at done
  have same : (poll cfg round.now s).node.config = s.node.config ∧
      (poll cfg round.now s).inquired = s.inquired := poll_same round.now s
  rcases same with ⟨config, inquired⟩
  have start : Good cfg (poll cfg round.now s).node.config := config ▸ good
  have carried : Carried cfg (∃ wakeup ∈ round.wakeups, Disturbs wakeup) (poll cfg round.now s)
      woken := by
    refine fold_carried (fun wakeup member s t good handled => ?_) start done.2
    exact carried_mono (epollin_carried good handled) fun disturbs => ⟨wakeup, member, disturbs⟩
  have clock : (poll cfg round.now s).node.clock = round.now := by
    unfold poll
    split <;> rfl
  refine ⟨carried.good, config ▸ carried.quiet, carried.timeout, carried.learning,
    carried.inquired.trans inquired, clock ▸ carried.clock, fun asked => ?_⟩
  rcases carried.need asked with due | disturbed
  · left
    by_contra early
    rw [poll, if_neg early] at due
    contradiction
  · exact .inr disturbed

theorem woken_on_time (after : Woken cfg s round woken) (pacing : Pacing cfg s)
    (member : position ∈ woken.node.config.claimingBlocks) :
    OnTime cfg.tentativeTimeout.toNat s.timeoutTime
      (woken.node.config.blocks position).claimingCounts.toNat (woken.inquired position) := by
  rw [after.inquired, after.quiet.counts]
  rw [after.quiet.list] at member
  exact pacing.listed position member

/-- House keeping that finds a block being claimed was due. -/
theorem live_due (after : Woken cfg s round woken) (paced : Paced cfg s round)
    (runs : runsHouseKeeping woken = true) (live : Live s.node.config position) :
    s.timeoutTime ≤ round.now := by
  simp only [runsHouseKeeping, Bool.and_eq_true] at runs
  rcases after.need runs.1 with due | ⟨wakeup, member, disturbs⟩
  · exact due
  · by_contra early
    exact paced.calm (Nat.lt_of_not_le early) position live wakeup member disturbs

theorem bumped_cases (inquiry : Option Bool) (claimed : Config) (position : Nat) :
    bumped inquiry claimed position = 0 ∨ bumped inquiry claimed position = 1 := by
  unfold bumped
  split
  · exact .inr rfl
  · exact .inl rfl

theorem quiet_live {c after : Config} (quiet : Quiet c after) (live : Live after position) :
    Live c position := by
  have counts := quiet.counts position
  rcases live with ⟨member, full⟩ | ⟨member, goes⟩
  · exact .inl ⟨quiet.list ▸ member, counts ▸ full⟩
  · have claiming : (after.blocks position).claimingCounts ≠ 3 ∧
        (after.blocks position).state = .claiming := by simpa [going] using goes
    refine .inr ⟨quiet.list ▸ member, ?_⟩
    simpa [going, counts ▸ claiming.1] using quiet.claiming position claiming.2

/-- The attempts on the list after `block_claim`. -/
theorem claims_on_time {env : Env} {c checked claimed after : Config} {started : List Nat}
    {inquiry : Option Bool} {due later : Nat} {first : Option Time}
    (prompt : env.now + cfg.tentativeTimeout.toNat ≤
      later + 2 * (cfg.tentativeTimeout.toNat / 2))
    (before : position ∈ c.claimingBlocks →
      OnTime cfg.tentativeTimeout.toNat due (c.blocks position).claimingCounts.toNat first)
    (progress : Live c position → due + cfg.tentativeTimeout.toNat / 2 ≤ later)
    (check : blockCheckTimeouts cfg env.now c = some checked) (still : Still c checked)
    (good : Good cfg checked) (claims : Claimed cfg env (unmarked cfg checked) started inquiry claimed)
    (ends : Still claimed after)
    (states : ∀ position, (after.blocks position).state = (claimed.blocks position).state)
    (member : position ∈ after.claimingBlocks) :
    OnTime cfg.tentativeTimeout.toNat later (after.blocks position).claimingCounts.toNat
      (firstInquiry cfg (env, .houseKeeping) c after position first) := by
  have met := before_claim_checked check
  have unmarks := unmarked_still good.sound
  have claimedGood := claimed_good (unmarked_good good) claims
  have asked : Inquired position (bumped inquiry claimed position) c after := by
    have through := inquired_trans
      (inquired_trans (still_silent still position) (still_silent unmarks position))
      (inquired_trans (claimed_inquired claimedGood claims) (still_silent ends position))
    simpa using through
  have asks := asks_about_iff asked
  rw [ends.quiet.list] at member
  rcases unmarked_block cfg checked position with ⟨since, same⟩
  rcases claimed_listed claims member with ⟨claiming, ⟨idle, counts⟩ | ⟨old, busy, unfilled, counts⟩⟩
  · -- the attempt begins
    have begun : ((beforeClaim cfg (env, .houseKeeping) c).blocks position).state ≠ .claiming ∧
        (after.blocks position).state = .claiming := by
      rw [met, states]
      rw [same] at idle
      exact ⟨idle, claiming⟩
    rw [ends.quiet.counts, counts, ← UInt8.zero_add (UInt8.ofNat _)]
    simp only [firstInquiry, if_pos begun, asks]
    exact on_time_counted (on_time_idle _ later) (by decide) (absurd rfl) prompt
      (bumped_cases inquiry claimed position)
  · -- the attempt goes on
    have further : ¬ (((beforeClaim cfg (env, .houseKeeping) c).blocks position).state ≠ .claiming ∧
        (after.blocks position).state = .claiming) := by
      rw [met]
      rw [same] at busy
      exact fun begun => begun.1 busy
    have there : (c.blocks position).claimingCounts = ((unmarked cfg checked).blocks position).claimingCounts := by
      rw [unmarks.quiet.counts, still.quiet.counts]
    have listed : position ∈ c.claimingBlocks := by
      rw [unmarks.quiet.list, still.quiet.list] at old
      exact old
    rw [← there] at counts unfilled
    have live : Live c position := by
      have claimingThen : (c.blocks position).state = .claiming :=
        still.quiet.claiming position (unmarks.quiet.claiming position busy)
      exact .inr ⟨listed, by simp [going, unfilled, claimingThen]⟩
    rw [ends.quiet.counts, counts]
    simp only [firstInquiry, if_neg further, asks]
    exact on_time_counted (before listed) unfilled (fun _ => progress live) prompt
      (bumped_cases inquiry claimed position)

theorem turn_woken (done : turn cfg s round = some t) : ∃ woken, wake cfg s round = some woken ∧
    ((runsHouseKeeping woken = false ∧ t = woken) ∨ (runsHouseKeeping woken = true ∧
      receive cfg woken (round.env, .houseKeeping) = some t)) := by
  rcases Option.bind_eq_some_iff.mp done with ⟨woken, waking, rest⟩
  refine ⟨woken, waking, ?_⟩
  cases runs : runsHouseKeeping woken with
  | false =>
      rw [runs] at rest
      cases rest
      exact .inl ⟨rfl, rfl⟩
  | true =>
      rw [runs] at rest
      exact .inr ⟨rfl, rest⟩

theorem turn_pacing (pacing : Pacing cfg s) (paced : Paced cfg s round)
    (done : turn cfg s round = some t) : Pacing cfg t := by
  rcases turn_woken done with ⟨woken, waking, rest⟩
  have after := wake_woken pacing.good waking
  have later : s.timeoutTime ≤ woken.timeoutTime := after.timeout ▸ poll_later round.now
  rcases rest with ⟨-, rfl⟩ | ⟨runs, house⟩
  · exact ⟨after.good, fun position member =>
      on_time_later (woken_on_time after pacing member) later⟩
  simp only [receive, Option.ite_none_right_eq_some] at house
  rcases Option.map_eq_some_iff.mp house.2 with ⟨kept, handled, rfl⟩
  have good : Good cfg kept := step_good after.good (.event round.env .houseKeeping house.1 handled)
  rcases house_keeping_kept after.good handled with
    ⟨checked, check, still, checkedGood, idle | ⟨-, rfl, ends, states⟩⟩
  · have through := still_trans still idle
    have quiet : Quiet (beforeClaim cfg (round.env, .houseKeeping) woken.node.config) kept :=
      before_claim_checked check ▸ idle.quiet
    refine ⟨good, fun position member => ?_⟩
    simp only
    rw [first_inquiry_quiet quiet (still_silent through position), through.quiet.counts]
    rw [through.quiet.list] at member
    exact on_time_later (woken_on_time after pacing member) later
  · have awake : (poll cfg round.now s).learningPhase = false := by
      simp only [runsHouseKeeping, Bool.and_eq_true, Bool.not_eq_eq_eq_not, Bool.not_true] at runs
      exact after.learning ▸ runs.2
    have prompt := paced.prompt awake
    rw [← after.timeout] at prompt
    rcases claim_claimed (unmarked_good checkedGood) _ with ⟨started, inquiry, claims⟩
    refine ⟨good, fun position member => ?_⟩
    refine claims_on_time prompt (woken_on_time after pacing) (fun live => ?_) check still
      checkedGood claims ends states member
    rw [after.timeout]
    exact poll_due (live_due after paced runs (quiet_live after.quiet live))

/-- House keeping of the round makes the block ours. -/
structure Promotes (cfg : Settings) (s : LoopState) (round : Round) (position : Nat)
    (woken : LoopState) : Prop where
  waking : wake cfg s round = some woken
  runs : runsHouseKeeping woken = true
  later : woken.node.clock ≤ round.env.now
  foreign : (woken.node.config.blocks position).state ≠ .ours
  owned : ∃ after, houseKeeping cfg round.env woken.node.config = some after ∧
    (after.blocks position).state = .ours

theorem promotion_on_time (pacing : Pacing cfg s) (paced : Paced cfg s round)
    (promotes : Promotes cfg s round position woken) :
    ∃ first, woken.inquired position = some first ∧
      first + cfg.tentativeTimeout.toNat ≤ round.env.now := by
  rcases promotes with ⟨waking, runs, later, foreign, after, house, owned⟩
  have awake := wake_woken pacing.good waking
  rcases house_keeping_kept awake.good house with
    ⟨checked, check, still, checkedGood, idle | ⟨-, rfl, ends, states⟩⟩
  · exact absurd ((still_trans still idle).quiet.ours position owned) foreign
  rcases claim_claimed (unmarked_good checkedGood) _ with ⟨started, inquiry, claims⟩
  have unmarks := (unmarked_still checkedGood.sound).quiet
  have through := quiet_trans still.quiet unmarks
  have full := claimed_owned claims (fun own => foreign (through.ours position own))
    (states position ▸ owned)
  have member : position ∈ woken.node.config.claimingBlocks := through.list ▸ full.1
  have three : (woken.node.config.blocks position).claimingCounts = 3 :=
    (through.counts position).symm.trans full.2
  -- house keeping was due, for the block is about to be owned
  have due := live_due awake paced runs (quiet_live awake.quiet (.inl ⟨member, three⟩))
  have onTime := woken_on_time awake pacing member
  rw [three] at onTime
  rcases onTime.begun (by decide) with ⟨first, same, bound⟩
  have now : round.now ≤ round.env.now := Nat.le_trans awake.clock later
  have past : first + cfg.tentativeTimeout.toNat ≤ s.timeoutTime := by simpa using bound
  exact ⟨first, same, Nat.le_trans past (Nat.le_trans due now)⟩

theorem start_pacing (cfg : Settings) (started now : Time) (learningPhase : Bool)
    (options : List DhcpOption) : Pacing cfg (loopStart cfg started now learningPhase options) :=
  ⟨start_good cfg started options, by simp [loopStart, startConfig]⟩

/-- In every run whose rounds keep the pace, claiming a block takes the tentative time. -/
theorem claiming_takes_tentative {started now : Time} {learningPhase : Bool}
    {options : List DhcpOption} {rounds : List Round}
    (run : Path (fun s round t => Paced cfg s round ∧ turn cfg s round = some t)
      (loopStart cfg started now learningPhase options) rounds s)
    (paced : Paced cfg s round) (promotes : Promotes cfg s round position woken) :
    ∃ first, woken.inquired position = some first ∧
      first + cfg.tentativeTimeout.toNat ≤ round.env.now := by
  have pacing : Pacing cfg s := path_invariant (Pacing cfg)
    (fun _ _ _ pacing step => turn_pacing pacing step.1 step.2) run (start_pacing ..)
  exact promotion_on_time pacing paced promotes

end Rounds

/-! The small node, with a timer of 7 seconds, alone and with packets coming in. -/

def smallLoop : LoopState :=
  loopStart (smallNode 1) 1000 1000 false [⟨codeAddressLeaseTime, 4, [0, 0, 1, 44]⟩]

def timerRound (now : Time) : Round := ⟨now, [], calmEnv now⟩

/-- A node of the swarm claims nothing. -/
def packetRound (now : Time) : Round :=
  ⟨now, [.ddhcpBlock [(calmEnv now, smallHeader 2 msgUpdateClaim 0, 16, zeroBytes 16)]], calmEnv now⟩

theorem timer_paced (s : LoopState) (now : Time) : Paced (smallNode 1) s (timerRound now) where
  calm _ _ _ wakeup member := by simp [timerRound] at member
  prompt _ := prompt_at_once s (by decide) rfl

theorem turns_path {cfg : Settings} {allowed : LoopState → Round → Prop} {s t : LoopState}
    {rounds : List Round} (all : ∀ round ∈ rounds, ∀ s, allowed s round)
    (done : rounds.foldlM (turn cfg) s = some t) :
    Path (fun s round t => allowed s round ∧ turn cfg s round = some t) s rounds t := by
  induction rounds generalizing s with
  | nil =>
      cases done
      exact .refl _
  | cons round rest ih =>
      rw [List.foldlM_cons] at done
      rcases Option.bind_eq_some_iff.mp done with ⟨middle, first, done⟩
      refine .next ⟨all round List.mem_cons_self s, first⟩ ?_
      exact ih (fun other member => all other (List.mem_cons_of_mem _ member)) done

def promotesNow (cfg : Settings) (round : Round) (position : Nat) (woken : LoopState) : Bool :=
  runsHouseKeeping woken ∧ woken.node.clock ≤ round.env.now ∧
    (woken.node.config.blocks position).state ≠ .ours ∧
    (houseKeeping cfg round.env woken.node.config).any fun after =>
      (after.blocks position).state = .ours

theorem promotes_of_eval {cfg : Settings} {s woken : LoopState} {round : Round} {position : Nat}
    (waking : wake cfg s round = some woken) (told : promotesNow cfg round position woken = true) :
    Promotes cfg s round position woken := by
  simp only [promotesNow, decide_eq_true_eq] at told
  rcases told with ⟨runs, later, foreign, house⟩
  rcases (Option.any_eq_true _ _).mp house with ⟨after, done, owned⟩
  exact ⟨waking, runs, later, foreign, after, done, of_decide_eq_true owned⟩

theorem claiming_takes_tentative_small : ∃ s woken first,
    Promotes (smallNode 1) s (timerRound 1021) 0 woken ∧ woken.inquired 0 = some first ∧
      first + (smallNode 1).tentativeTimeout.toNat ≤ (timerRound 1021).env.now := by
  have evaluated : (([timerRound 1000, timerRound 1007, timerRound 1014].foldlM
      (turn (smallNode 1)) smallLoop).any fun s =>
        (wake (smallNode 1) s (timerRound 1021)).any
          (promotesNow (smallNode 1) (timerRound 1021) 0)) = true := by decide +kernel
  rcases (Option.any_eq_true _ _).mp evaluated with ⟨s, done, rest⟩
  rcases (Option.any_eq_true _ _).mp rest with ⟨woken, waking, told⟩
  have paced : ∀ round ∈ [timerRound 1000, timerRound 1007, timerRound 1014], ∀ s,
      Paced (smallNode 1) s round := by
    intro round member s
    simp only [List.mem_cons, List.not_mem_nil, or_false] at member
    rcases member with rfl | rfl | rfl <;> exact timer_paced s _
  have promoted := promotes_of_eval waking told
  rcases claiming_takes_tentative (turns_path paced done) (timer_paced s 1021) promoted with
    ⟨first, same, bound⟩
  exact ⟨s, woken, first, promoted, same, bound⟩

-- One packet that claims nothing in each round, and the block is owned after a second.
theorem claimed_in_a_second : ∃ rounds s woken,
    Path (fun s round t => turn (smallNode 1) s round = some t) smallLoop rounds s ∧
      Promotes (smallNode 1) s (packetRound 1001) 0 woken ∧ woken.inquired 0 = some 1000 ∧
      ¬ 1000 + (smallNode 1).tentativeTimeout.toNat ≤ (packetRound 1001).env.now := by
  have evaluated : (([timerRound 1000, packetRound 1001, packetRound 1001].foldlM
      (turn (smallNode 1)) smallLoop).any fun s =>
        (wake (smallNode 1) s (packetRound 1001)).any fun woken =>
          promotesNow (smallNode 1) (packetRound 1001) 0 woken ∧ woken.inquired 0 = some 1000) =
      true := by decide +kernel
  rcases (Option.any_eq_true _ _).mp evaluated with ⟨s, done, rest⟩
  rcases (Option.any_eq_true _ _).mp rest with ⟨woken, waking, facts⟩
  simp only [decide_eq_true_eq] at facts
  have path : Path (fun s round t => True ∧ turn (smallNode 1) s round = some t) smallLoop _ s :=
    turns_path (fun _ _ _ => trivial) done
  exact ⟨_, s, woken, path_mono (fun _ _ _ step => step.2) path, promotes_of_eval waking facts.1, facts.2, by decide⟩

end Ddhcpd.EventLoop

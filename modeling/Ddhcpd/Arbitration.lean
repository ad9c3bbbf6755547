import Mathlib.Logic.Function.Basic
import Mathlib.Logic.Relation

/-!
Arbitration over one resource by asking. A node that wants the resource asks all others and
tries for a bounded time; a holder answers by telling all others, a node of lower rank gives
way and waits as long as the other may try, and a node that is told gives up. Messages are
delivered in any order, but nobody starts to try, or holds, while one is under way. A node
holds only what it has tried for since it asked, and then no other node holds it.
-/

namespace Ddhcpd.Arbitration
open Relation

variable {Node : Type}

inductive Cell where
  | idle
  | waiting (deadline : Nat)
  | foreign
  | trying (deadline : Nat)
  | held
  deriving DecidableEq

/-- `asks x y` and `tells x y` say that such a message is under way from `x` to `y`. -/
@[ext] structure State (Node : Type) where
  clock : Nat
  cell : Node → Cell
  asks : Node → Node → Prop
  tells : Node → Node → Prop

/-- Ranks order the nodes, `patience` is how long a node tries, and how long it waits.
Where `prompt` holds a new holder tells the others at once, else a node that waits does
so to the end. -/
structure Rules (Node : Type) where
  rank : Node → Nat
  patience : Node → Nat
  prompt : Prop

def State.put [DecidableEq Node] (s : State Node) (node : Node) (cell : Cell) : State Node :=
  { s with cell := Function.update s.cell node cell }

def State.ask (s : State Node) (node : Node) : State Node :=
  { s with asks := fun x y => s.asks x y ∨ x = node ∧ y ≠ node }

def State.tell (s : State Node) (node : Node) : State Node :=
  { s with tells := fun x y => s.tells x y ∨ x = node ∧ y ≠ node }

/-- Nothing about the resource is under way. -/
def State.Quiet (s : State Node) : Prop := ∀ x y, ¬ s.asks x y ∧ ¬ s.tells x y

/-- The messages under way when one from `x` to `y` has arrived. -/
def Fewer (x y : Node) (before after : Node → Node → Prop) : Prop :=
  (∀ u v, after u v → before u v) ∧ ∀ u v, (u ≠ x ∨ v ≠ y) → before u v → after u v

/-- What a node that does not hold the resource makes of a question. -/
def Rules.heard (rules : Rules Node) (clock : Nat) (asker node : Node) (cell : Cell) : Cell :=
  match cell with
  | .trying deadline =>
      if rules.rank node < rules.rank asker then .waiting (clock + rules.patience node)
      else .trying deadline
  | .held => .held
  | _ => .waiting (clock + rules.patience node)

/-- A question makes every node wait for as long as the one that asks may try. -/
structure Rules.Fair (rules : Rules Node) : Prop where
  order : Function.Injective rules.rank
  patience : rules.prompt ∨ ∀ a b, rules.patience a = rules.patience b

inductive Step [DecidableEq Node] (rules : Rules Node) : State Node → State Node → Prop where
  | tick {s : State Node} {clock : Nat} : s.clock ≤ clock →
      Step rules s { s with clock := clock }
  | drop {s : State Node} {a : Node} :
      (∀ deadline, s.cell a = .waiting deadline → deadline < s.clock ∨ rules.prompt) →
      Step rules s (s.put a .idle)
  | begin {s : State Node} {a : Node} : s.Quiet → s.cell a = .idle →
      Step rules s ((s.put a (.trying (s.clock + rules.patience a))).ask a)
  | ask {s : State Node} {a : Node} : Step rules s (s.ask a)
  | hold {s : State Node} {a : Node} {deadline : Nat} : s.Quiet → s.cell a = .trying deadline →
      s.clock ≤ deadline → ¬ rules.prompt → Step rules s (s.put a .held)
  | holdTold {s : State Node} {a : Node} {deadline : Nat} : s.Quiet → s.cell a = .trying deadline →
      s.clock ≤ deadline → Step rules s ((s.put a .held).tell a)
  | tell {s : State Node} {a : Node} : s.cell a = .held → Step rules s (s.tell a)
  | defend {s : State Node} {a b : Node} {asks : Node → Node → Prop} : a ≠ b →
      Fewer a b s.asks asks → s.cell b = .held → Step rules s ({ s with asks := asks }.tell b)
  | hear {s : State Node} {a b : Node} {asks : Node → Node → Prop} : a ≠ b →
      Fewer a b s.asks asks → s.cell b ≠ .held →
      Step rules s ({ s with asks := asks }.put b (rules.heard s.clock a b (s.cell b)))
  | ignore {s : State Node} {a b : Node} {tells : Node → Node → Prop} : a ≠ b →
      Fewer a b s.tells tells → s.cell b = .held → Step rules s { s with tells := tells }
  | concede {s : State Node} {a b : Node} {tells : Node → Node → Prop} : a ≠ b →
      Fewer a b s.tells tells → s.tells a b →
      Step rules s ({ s with tells := tells }.put b .foreign)

/-- While `a` tries until then, the node with this cell is no danger to it. -/
def Cleared (rules : Rules Node) (a : Node) (deadline : Nat) (b : Node) (cell : Cell) : Prop :=
  cell ≠ .held ∧ (rules.prompt ∨
    (rules.rank b < rules.rank a → ∃ later, cell = .waiting later ∧ deadline ≤ later))

structure Guarded (rules : Rules Node) (s : State Node) : Prop where
  exclusive : ∀ a b, s.cell a = .held → s.cell b = .held → a = b
  patient : ∀ a deadline, s.cell a = .trying deadline → deadline ≤ s.clock + rules.patience a
  guard : ∀ a deadline, s.cell a = .trying deadline → s.clock ≤ deadline →
    (∃ x, s.tells x a) ∨ ∀ b, b ≠ a → s.asks a b ∨ Cleared rules a deadline b (s.cell b)
  told : ∀ x y c deadline, s.tells x y → s.cell c = .trying deadline → ∃ x', s.tells x' c

section Cells
variable [DecidableEq Node] {s : State Node} {a b : Node} {cell : Cell}

theorem put_other (different : b ≠ a) : (s.put a cell).cell b = s.cell b := by
  simp [State.put, different]

@[simp] theorem put_same : (s.put a cell).cell a = cell := by simp [State.put]

/-- A cell that reads so after the change, and not by the change, read so before. -/
theorem put_was {other : Cell} (read : (s.put a cell).cell b = other) (differs : cell ≠ other) :
    b ≠ a ∧ s.cell b = other := by
  by_cases here : b = a
  · subst here
    exact absurd (put_same.symm.trans read) differs
  · exact ⟨here, (put_other here).symm.trans read⟩

end Cells

section Steps
variable {rules : Rules Node} {s : State Node}

/-- A node that does not count as waiting any more may become anything but a holder. -/
theorem cleared_drop {a b : Node} {deadline : Nat} {cell : Cell} (live : s.clock ≤ deadline)
    (cleared : Cleared rules a deadline b (s.cell b))
    (past : ∀ later, s.cell b = .waiting later → later < s.clock ∨ rules.prompt)
    (free : cell ≠ .held) : Cleared rules a deadline b cell := by
  refine ⟨free, ?_⟩
  rcases cleared.2 with prompt | waits
  · exact .inl prompt
  by_cases lower : rules.rank b < rules.rank a
  · rcases waits lower with ⟨later, waiting, enough⟩
    rcases past later waiting with past | prompt
    · omega
    · exact .inl prompt
  · exact .inr fun less => absurd less lower

/-- A node that was just asked waits as long as anyone may try. -/
theorem cleared_waiting {a b : Node} {deadline : Nat} (fair : rules.Fair)
    (patient : deadline ≤ s.clock + rules.patience a) :
    Cleared rules a deadline b (.waiting (s.clock + rules.patience b)) := by
  refine ⟨by simp, ?_⟩
  rcases fair.patience with prompt | even
  · exact .inl prompt
  · right
    intro _
    exact ⟨_, rfl, even a b ▸ patient⟩

theorem guarded_tick {clock : Nat} (guarded : Guarded rules s) (later : s.clock ≤ clock) :
    Guarded rules { s with clock := clock } where
  exclusive := guarded.exclusive
  patient a deadline trying := by
    have before := guarded.patient a deadline trying
    simp only
    omega
  guard a deadline trying live := guarded.guard a deadline trying (Nat.le_trans later live)
  told := guarded.told

theorem guarded_ask {a : Node} (guarded : Guarded rules s) : Guarded rules (s.ask a) where
  exclusive := guarded.exclusive
  patient := guarded.patient
  guard x deadline trying live := by
    apply (guarded.guard x deadline trying live).imp_right
    intro all b different
    exact (all b different).imp_left .inl
  told := guarded.told

/-- A node that holds tells everybody, so everybody who tries is about to be told. -/
theorem guarded_tell {a : Node} (guarded : Guarded rules s) (held : s.cell a = .held) :
    Guarded rules (s.tell a) where
  exclusive := guarded.exclusive
  patient := guarded.patient
  guard x deadline trying live := by
    left
    refine ⟨a, .inr ⟨rfl, ?_⟩⟩
    rintro rfl
    exact absurd (held.symm.trans trying) (by simp)
  told x y c deadline _ trying := by
    refine ⟨a, .inr ⟨rfl, ?_⟩⟩
    rintro rfl
    exact absurd (held.symm.trans trying) (by simp)

theorem guarded_ignore {a b : Node} {tells : Node → Node → Prop} (guarded : Guarded rules s)
    (fewer : Fewer a b s.tells tells) (held : s.cell b = .held) :
    Guarded rules { s with tells := tells } := by
  -- whoever tries is not the node the message was for
  have kept (x c : Node) (deadline : Nat) (trying : s.cell c = .trying deadline)
      (told : s.tells x c) : tells x c := by
    apply fewer.2 x c (.inr _) told
    rintro rfl
    rw [held] at trying
    contradiction
  refine ⟨guarded.exclusive, guarded.patient, ?_, ?_⟩
  · intro x deadline trying live
    apply (guarded.guard x deadline trying live).imp_left
    rintro ⟨teller, told⟩
    exact ⟨teller, kept teller x deadline trying told⟩
  · intro x y c deadline told trying
    rcases guarded.told x y c deadline (fewer.1 x y told) trying with ⟨teller, told⟩
    exact ⟨teller, kept teller c deadline trying told⟩

/-- When nothing is under way, an attempt that is not over clears all other nodes. -/
theorem quiet_cleared {a : Node} {deadline : Nat} (guarded : Guarded rules s) (quiet : s.Quiet)
    (trying : s.cell a = .trying deadline) (live : s.clock ≤ deadline) :
    ∀ b, b ≠ a → Cleared rules a deadline b (s.cell b) := by
  intro b different
  rcases guarded.guard a deadline trying live with ⟨teller, told⟩ | all
  · exact absurd told (quiet teller a).2
  · rcases all b different with asked | cleared
    · exact absurd asked (quiet a b).1
    · exact cleared

theorem guarded_defend {b : Node} {asks : Node → Node → Prop} (guarded : Guarded rules s)
    (held : s.cell b = .held) : Guarded rules ({ s with asks := asks }.tell b) := by
  have other (x : Node) (deadline : Nat) (trying : s.cell x = .trying deadline) : x ≠ b := by
    rintro rfl
    exact absurd (held.symm.trans trying) (by simp)
  exact ⟨guarded.exclusive, guarded.patient,
    fun x deadline trying _ => .inl ⟨b, .inr ⟨rfl, other x deadline trying⟩⟩,
    fun _ _ c deadline _ trying => ⟨b, .inr ⟨rfl, other c deadline trying⟩⟩⟩

theorem heard_cases {a b : Node} {clock : Nat} {cell : Cell} (free : cell ≠ .held) :
    rules.heard clock a b cell = .waiting (clock + rules.patience b) ∨
      (∃ deadline, cell = .trying deadline) ∧ rules.heard clock a b cell = cell ∧
        ¬ rules.rank b < rules.rank a := by
  cases cell with
  | idle => exact .inl rfl
  | waiting => exact .inl rfl
  | foreign => exact .inl rfl
  | held => contradiction
  | trying deadline =>
      by_cases lower : rules.rank b < rules.rank a
      · exact .inl (by simp [Rules.heard, lower])
      · exact .inr ⟨⟨deadline, rfl⟩, by simp [Rules.heard, lower], lower⟩

theorem guarded_idle (idle : ∀ a, s.cell a = .idle) : Guarded rules s where
  exclusive a b held _ := absurd ((idle a).symm.trans held) (by simp)
  patient a deadline trying := absurd ((idle a).symm.trans trying) (by simp)
  guard a deadline trying _ := absurd ((idle a).symm.trans trying) (by simp)
  told _ _ c deadline _ trying := absurd ((idle c).symm.trans trying) (by simp)

end Steps

section Changes
variable [DecidableEq Node] {rules : Rules Node} {s : State Node}

theorem guarded_drop {a : Node} (guarded : Guarded rules s)
    (past : ∀ deadline, s.cell a = .waiting deadline → deadline < s.clock ∨ rules.prompt) :
    Guarded rules (s.put a .idle) where
  exclusive x y heldX heldY :=
    guarded.exclusive x y (put_was heldX (by simp)).2 (put_was heldY (by simp)).2
  patient x deadline trying := guarded.patient x deadline (put_was trying (by simp)).2
  guard x deadline trying live := by
    change s.clock ≤ deadline at live
    rcases put_was trying (by simp) with ⟨-, before⟩
    apply (guarded.guard x deadline before live).imp_right
    intro all b different
    rcases all b different with asked | cleared
    · exact .inl asked
    · right
      by_cases here : b = a
      · subst here
        rw [put_same]
        exact cleared_drop live cleared past (by simp)
      · rw [put_other here]
        exact cleared
  told x y c deadline told trying := guarded.told x y c deadline told (put_was trying (by simp)).2

theorem guarded_begin {a : Node} (guarded : Guarded rules s) (quiet : s.Quiet)
    (idle : s.cell a = .idle) :
    Guarded rules ((s.put a (.trying (s.clock + rules.patience a))).ask a) where
  exclusive x y heldX heldY :=
    guarded.exclusive x y (put_was heldX (by simp)).2 (put_was heldY (by simp)).2
  patient x deadline trying := by
    by_cases here : x = a
    · subst here
      have same := put_same.symm.trans trying
      cases same
      exact Nat.le_refl _
    · exact guarded.patient x deadline ((put_other here).symm.trans trying)
  guard x deadline trying live := by
    change s.clock ≤ deadline at live
    right
    intro b different
    by_cases here : x = a
    · exact .inl (.inr ⟨here, here ▸ different⟩)
    · have before : s.cell x = .trying deadline := (put_other here).symm.trans trying
      rcases guarded.guard x deadline before live with ⟨teller, told⟩ | all
      · exact absurd told (quiet teller x).2
      · rcases all b different with asked | cleared
        · exact absurd asked (quiet x b).1
        · right
          show Cleared rules x deadline b ((s.put a (.trying (s.clock + rules.patience a))).cell b)
          by_cases there : b = a
          · subst there
            rw [put_same]
            refine cleared_drop live cleared ?_ (by simp)
            intro later waiting
            rw [idle] at waiting
            contradiction
          · rw [put_other there]
            exact cleared
  told x y c deadline told _ := absurd told (quiet x y).2

theorem hold_exclusive {a : Node} {deadline : Nat} (guarded : Guarded rules s) (quiet : s.Quiet)
    (trying : s.cell a = .trying deadline) (live : s.clock ≤ deadline) (x y : Node)
    (heldX : (s.put a .held).cell x = .held) (heldY : (s.put a .held).cell y = .held) : x = y := by
  have others := quiet_cleared guarded quiet trying live
  have alone (z : Node) (held : (s.put a .held).cell z = .held) : z = a := by
    by_contra different
    exact (others z different).1 ((put_other different).symm.trans held)
  exact (alone x heldX).trans (alone y heldY).symm

theorem guarded_hold {a : Node} {deadline : Nat} (fair : rules.Fair)
    (guarded : Guarded rules s) (quiet : s.Quiet) (trying : s.cell a = .trying deadline)
    (live : s.clock ≤ deadline) (patient : ¬ rules.prompt) : Guarded rules (s.put a .held) where
  exclusive := hold_exclusive guarded quiet trying live
  patient x later tries := guarded.patient x later (put_was tries (by simp)).2
  guard x later tries stillLive := by
    -- of two nodes that try, the lower one would be waiting
    rcases put_was tries (by simp) with ⟨different, before⟩
    have clearedX := (quiet_cleared guarded quiet before stillLive a different.symm).2
    have clearedA := (quiet_cleared guarded quiet trying live x different).2
    have notLower : ¬ rules.rank a < rules.rank x := by
      intro lower
      rcases clearedX.resolve_left patient lower with ⟨_, waiting, -⟩
      exact absurd (trying.symm.trans waiting) (by simp)
    have notHigher : ¬ rules.rank x < rules.rank a := by
      intro lower
      rcases clearedA.resolve_left patient lower with ⟨_, waiting, -⟩
      exact absurd (before.symm.trans waiting) (by simp)
    exact absurd (fair.order (by omega)) different
  told x y _ _ told _ := absurd told (quiet x y).2

theorem guarded_hold_told {a : Node} {deadline : Nat} (guarded : Guarded rules s) (quiet : s.Quiet)
    (trying : s.cell a = .trying deadline) (live : s.clock ≤ deadline) :
    Guarded rules ((s.put a .held).tell a) where
  exclusive := hold_exclusive guarded quiet trying live
  patient x later tries := guarded.patient x later (put_was tries (by simp)).2
  guard x later tries _ := .inl ⟨a, .inr ⟨rfl, (put_was tries (by simp)).1⟩⟩
  told _ _ c later _ tries := ⟨a, .inr ⟨rfl, (put_was tries (by simp)).1⟩⟩

theorem guarded_hear {a b : Node} {asks : Node → Node → Prop} (fair : rules.Fair)
    (guarded : Guarded rules s) (different : a ≠ b) (fewer : Fewer a b s.asks asks) (free : s.cell b ≠ .held) :
    Guarded rules ({ s with asks := asks }.put b (rules.heard s.clock a b (s.cell b))) := by
  have outcome : rules.heard s.clock a b (s.cell b) = .waiting (s.clock + rules.patience b) ∨ _ :=
    heard_cases free
  generalize rules.heard s.clock a b (s.cell b) = cell at *
  have was (x : Node) (other : Cell) (read : ({ s with asks := asks }.put b cell).cell x = other)
      (changed : ∀ later, other ≠ .waiting later) : s.cell x = other := by
    by_cases here : x = b
    · subst here
      have same := put_same.symm.trans read
      rcases outcome with waits | ⟨-, stays, -⟩
      · exact absurd (same.symm.trans waits) (changed _)
      · exact stays.symm.trans same
    · exact (put_other here).symm.trans read
  refine ⟨fun x y heldX heldY => ?_, fun x deadline trying => ?_, fun x deadline trying live => ?_,
    fun x y c deadline told trying => ?_⟩
  · exact guarded.exclusive x y (was x _ heldX (by simp)) (was y _ heldY (by simp))
  · exact guarded.patient x deadline (was x _ trying (by simp))
  · have before := was x _ trying (by simp)
    have patient := guarded.patient x deadline before
    apply (guarded.guard x deadline before live).imp_right
    intro all y other
    by_cases here : y = b
    · subst here
      rw [put_same]
      by_cases asker : x = a
      · -- the question has arrived: the node waits, or outranks the one that asked
        subst asker
        right
        rcases outcome with waits | ⟨⟨later, was_trying⟩, stays, higher⟩
        · rw [waits]
          exact cleared_waiting fair patient
        · rw [stays, was_trying]
          exact ⟨by simp, .inr fun lower => absurd lower higher⟩
      · rcases all y other with asked | cleared
        · exact .inl (fewer.2 x y (.inl asker) asked)
        · right
          rcases outcome with waits | ⟨-, stays, -⟩
          · rw [waits]
            exact cleared_waiting fair patient
          · rw [stays]
            exact cleared
    · rw [put_other here]
      exact (all y other).imp_left (fewer.2 x y (.inr here))
  · exact guarded.told x y c deadline told (was c _ trying (by simp))

theorem guarded_concede {a b : Node} {tells : Node → Node → Prop} (guarded : Guarded rules s)
    (fewer : Fewer a b s.tells tells) (told : s.tells a b) :
    Guarded rules ({ s with tells := tells }.put b .foreign) := by
  have alsoTold (c : Node) (deadline : Nat)
      (trying : ({ s with tells := tells }.put b .foreign).cell c = .trying deadline) :
      ∃ x, tells x c := by
    rcases put_was trying (by simp) with ⟨other, before⟩
    rcases guarded.told a b c deadline told before with ⟨teller, there⟩
    exact ⟨teller, fewer.2 teller c (.inr other) there⟩
  exact ⟨fun x y heldX heldY =>
      guarded.exclusive x y (put_was heldX (by simp)).2 (put_was heldY (by simp)).2,
    fun x deadline trying => guarded.patient x deadline (put_was trying (by simp)).2,
    fun x deadline trying _ => .inl (alsoTold x deadline trying),
    fun _ _ c deadline _ trying => alsoTold c deadline trying⟩

/-- What one step preserves. -/
theorem step_guarded {t : State Node} (fair : rules.Fair)
    (guarded : Guarded rules s) (step : Step rules s t) : Guarded rules t := by
  cases step with
  | tick later => exact guarded_tick guarded later
  | drop past => exact guarded_drop guarded past
  | begin quiet idle => exact guarded_begin guarded quiet idle
  | ask => exact guarded_ask guarded
  | hold quiet trying live patient => exact guarded_hold fair guarded quiet trying live patient
  | holdTold quiet trying live => exact guarded_hold_told guarded quiet trying live
  | tell held => exact guarded_tell guarded held
  | defend _ _ held => exact guarded_defend guarded held
  | hear different fewer free => exact guarded_hear fair guarded different fewer free
  | ignore _ fewer held => exact guarded_ignore guarded fewer held
  | concede _ fewer told => exact guarded_concede guarded fewer told

theorem steps_guarded {t : State Node} (fair : rules.Fair)
    (guarded : Guarded rules s) (steps : ReflTransGen (Step rules) s t) : Guarded rules t := by
  induction steps with
  | refl => exact guarded
  | tail _ step ih => exact step_guarded fair ih step

end Changes

/-! What a node may do at one go while nothing is under way. -/

/-- The node asks, or tells, everybody where these hold. -/
def State.speak (s : State Node) (node : Node) (asks tells : Prop) : State Node where
  clock := s.clock
  cell := s.cell
  asks x y := s.asks x y ∨ x = node ∧ y ≠ node ∧ asks
  tells x y := s.tells x y ∨ x = node ∧ y ≠ node ∧ tells

/-- A turn of the node: it keeps its cell or gives it up, begins to try, or holds. -/
structure Turn (rules : Rules Node) (s : State Node) (node : Node) (cell : Cell)
    (asks tells : Prop) : Prop where
  holder : tells → cell = .held
  change : cell = s.cell node ∨
    cell = .idle ∧ (∀ deadline, s.cell node = .waiting deadline →
      deadline < s.clock ∨ rules.prompt) ∨
    s.cell node = .idle ∧ cell = .trying (s.clock + rules.patience node) ∧ asks ∨
    cell = .held ∧ (rules.prompt → tells) ∧
      ∃ deadline, s.cell node = .trying deadline ∧ s.clock ≤ deadline

section Turns
variable {rules : Rules Node} {s : State Node} {a : Node} {asks tells : Prop}

@[simp] theorem speak_nothing : s.speak a False False = s := by
  simp [State.speak]

theorem tell_speak : s.tell a = s.speak a False True := by
  simp [State.tell, State.speak]

theorem speak_ask : (s.ask a).speak a asks tells = s.speak a True tells := by
  by_cases asking : asks <;> simp [State.speak, State.ask, asking]

theorem speak_tell : (s.tell a).speak a asks tells = s.speak a asks True := by
  by_cases telling : tells <;> simp [State.speak, State.tell, telling]

variable [DecidableEq Node]

@[simp] theorem put_self : s.put a (s.cell a) = s := by simp [State.put]

theorem put_keeps {cell : Cell} (same : cell = s.cell a) : s.put a cell = s := by
  rw [same, put_self]

@[simp] theorem put_put (first second : Cell) : (s.put a first).put a second = s.put a second := by
  simp [State.put]

theorem speak_steps (holder : tells → s.cell a = .held) :
    ReflTransGen (Step rules) s (s.speak a asks tells) := by
  have tell (t : State Node) (holder : tells → t.cell a = .held) :
      ReflTransGen (Step rules) t (t.speak a False tells) := by
    by_cases telling : tells
    · have step : Step rules t (t.tell a) := .tell (holder telling)
      have same : t.tell a = t.speak a False tells := by simp [State.tell, State.speak, telling]
      exact same ▸ .single step
    · simpa [telling] using .refl
  by_cases asking : asks
  · have step : Step rules s (s.ask a) := .ask
    have same : (s.ask a).speak a False tells = s.speak a asks tells := by
      rw [speak_ask]
      simp [asking]
    rw [← same]
    exact .head step (tell (s.ask a) holder)
  · simpa [asking] using tell s holder

theorem turn_steps {cell : Cell} (quiet : s.Quiet) (turn : Turn rules s a cell asks tells) :
    ReflTransGen (Step rules) s ((s.put a cell).speak a asks tells) := by
  have said : ReflTransGen (Step rules) (s.put a cell) ((s.put a cell).speak a asks tells) :=
    speak_steps fun telling => put_same.trans (turn.holder telling)
  rcases turn.change with same | ⟨idle, past⟩ | ⟨idle, trying, asking⟩ | ⟨held, promptly, deadline, trying, live⟩
  · rw [same, put_self] at said ⊢
    exact said
  · subst idle
    exact .head (.drop past) said
  · subst trying
    have later : ReflTransGen (Step rules) ((s.put a _).ask a) (((s.put a _).ask a).speak a asks tells) :=
      speak_steps fun telling => put_same.trans (turn.holder telling)
    rw [speak_ask] at later
    have asks_true : asks = True := eq_true asking
    rw [asks_true]
    exact .head (.begin quiet idle) later
  · subst held
    by_cases telling : tells
    · have later : ReflTransGen (Step rules) ((s.put a .held).tell a)
          (((s.put a .held).tell a).speak a asks tells) := speak_steps fun _ => put_same
      rw [speak_tell] at later
      have tells_true : tells = True := eq_true telling
      rw [tells_true]
      exact .head (.holdTold quiet trying live) later
    · exact .head (.hold quiet trying live fun prompt => telling (promptly prompt)) said

end Turns

end Ddhcpd.Arbitration

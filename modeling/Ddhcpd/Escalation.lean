import Ddhcpd.Path
import Mathlib.Algebra.GroupWithZero.Nat
import Mathlib.Algebra.BigOperators.Group.List.Basic
import Mathlib.Algebra.Order.BigOperators.Group.List

/-!
Exchanges that run out. A token that is taken from the pool may be answered by several new
ones, but each of them is lower than it. Weighed by a power of their height, the pool loses
weight with every step, whatever the order, so the steps and the tokens are bounded.
-/

namespace Ddhcpd.Escalation
open Path

variable {Token State Label : Type}

def weight (base : Nat) (height : Token → Nat) (pool : List Token) : Nat :=
  (pool.map fun token => base ^ height token).sum

/-- A token of the pool gives way to lower ones. -/
def Replaces (base : Nat) (height : Token → Nat) (fresh : List Token)
    (before after : List Token) : Prop :=
  ∃ front token back, before = front ++ token :: back ∧ after = front ++ back ++ fresh ∧
    (∀ other ∈ fresh, height other < height token) ∧ 2 * fresh.length + 1 ≤ base

section Weights
variable (base : Nat) (height : Token → Nat)

theorem weight_append (first second : List Token) :
    weight base height (first ++ second) = weight base height first + weight base height second := by
  simp [weight]

theorem weight_cons (token : Token) (pool : List Token) :
    weight base height (token :: pool) = base ^ height token + weight base height pool := by
  simp [weight]

theorem weight_low {base : Nat} {height : Token → Nat} {level : Nat} (positive : 0 < base)
    (pool : List Token) (low : ∀ token ∈ pool, height token ≤ level) :
    weight base height pool ≤ pool.length * base ^ level := by
  induction pool with
  | nil => simp [weight]
  | cons token rest ih =>
      have head := Nat.pow_le_pow_right positive (low token List.mem_cons_self)
      have tail := ih fun other member => low other (List.mem_cons_of_mem _ member)
      rw [weight_cons, List.length_cons, Nat.succ_mul]
      omega

end Weights

/-- The token pays for its removal and for every token it is replaced by. -/
theorem replaces_weight {base : Nat} {height : Token → Nat} {fresh before after : List Token}
    (step : Replaces base height fresh before after) :
    weight base height after + fresh.length + 1 ≤ weight base height before := by
  rcases step with ⟨front, token, back, rfl, rfl, low, room⟩
  have positive : 0 < base := Nat.lt_of_lt_of_le (Nat.succ_pos _) room
  simp only [weight_append, weight_cons]
  suffices paid : weight base height fresh + fresh.length + 1 ≤ base ^ height token by omega
  cases fresh with
  | nil =>
      have unit : 1 ≤ base ^ height token := Nat.pow_pos positive
      simpa [weight] using unit
  | cons first rest =>
      have above : 0 < height token :=
        Nat.lt_of_le_of_lt (Nat.zero_le _) (low first List.mem_cons_self)
      rcases Nat.exists_eq_succ_of_ne_zero (Nat.ne_of_gt above) with ⟨level, level_eq⟩
      rw [level_eq] at low ⊢
      have light := weight_low positive (first :: rest) fun other member =>
        Nat.le_of_lt_succ (low other member)
      have unit : 1 ≤ base ^ level := Nat.pow_pos positive
      have room' := Nat.mul_le_mul_right (base ^ level) room
      rw [Nat.pow_succ, Nat.mul_comm (base ^ level)]
      calc weight base height (first :: rest) + (first :: rest).length + 1
          ≤ (first :: rest).length * base ^ level + ((first :: rest).length + 1) * base ^ level := by
            have grown := Nat.le_mul_of_pos_right ((first :: rest).length + 1) unit
            omega
        _ = (2 * (first :: rest).length + 1) * base ^ level := by
            rw [← Nat.add_mul]
            congr 1
            omega
        _ ≤ base * base ^ level := room'

/-- Every path is as short as the weight of its first pool, and so is all it brings up. -/
theorem path_weight {base : Nat} {height : Token → Nat} {step : State → Label → State → Prop}
    (pool : State → List Token) (fresh : Label → List Token)
    (replaces : ∀ s l t, step s l t → Replaces base height (fresh l) (pool s) (pool t))
    {s t : State} {labels : List Label} (path : Path step s labels t) :
    (labels.flatMap fresh).length + labels.length + weight base height (pool t) ≤
      weight base height (pool s) := by
  induction path with
  | refl => simp
  | next move _ ih =>
      have paid := replaces_weight (replaces _ _ _ move)
      simp only [List.flatMap_cons, List.length_append, List.length_cons]
      omega

end Ddhcpd.Escalation

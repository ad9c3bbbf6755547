import Mathlib.Logic.Function.Basic

/-!
Counted loops. `loop body count` is `for (i = 0; i < count; i++)` over a state that
the body rewrites; `loopM` is the same with a body that may fault, in which case the
whole loop does. An array is a function of the index.
-/

namespace Ddhcpd.Loop

variable {State Item : Type}

def loop (body : Nat → State → State) : Nat → State → State
  | 0, state => state
  | count + 1, state => body count (loop body count state)

def loopM (body : Nat → State → Option State) : Nat → State → Option State
  | 0, state => some state
  | count + 1, state => (loopM body count state).bind (body count)

theorem loop_invariant (holds : Nat → State → Prop) (body : Nat → State → State) (count : Nat)
    (state : State) (start : holds 0 state)
    (pass : ∀ index < count, ∀ s, holds index s → holds (index + 1) (body index s)) :
    holds count (loop body count state) := by
  induction count with
  | zero => exact start
  | succ count ih =>
      apply pass count (Nat.lt_succ_self count)
      exact ih fun index below => pass index (Nat.lt_succ_of_lt below)

theorem loopM_invariant (holds : Nat → State → Prop) (body : Nat → State → Option State)
    (count : Nat) (state after : State) (start : holds 0 state)
    (pass : ∀ index < count, ∀ s t, holds index s → body index s = some t → holds (index + 1) t)
    (done : loopM body count state = some after) : holds count after := by
  induction count generalizing after with
  | zero =>
      simp only [loopM, Option.some.injEq] at done
      exact done ▸ start
  | succ count ih =>
      obtain ⟨middle, front, last⟩ := Option.bind_eq_some_iff.mp done
      have reached := ih middle (fun index below => pass index (Nat.lt_succ_of_lt below)) front
      exact pass count (Nat.lt_succ_self count) middle after reached last

-- A loop whose state before every pass is known never faults.
theorem loopM_exact (states : Nat → State) (body : Nat → State → Option State) (count : Nat)
    (pass : ∀ index < count, body index (states index) = some (states (index + 1))) :
    loopM body count (states 0) = some (states count) := by
  induction count with
  | zero => rfl
  | succ count ih =>
      have front := ih fun index below => pass index (Nat.lt_succ_of_lt below)
      simp only [loopM, front, Option.bind_some]
      exact pass count (Nat.lt_succ_self count)

theorem loopM_total (body : Nat → State → Option State) (count : Nat)
    (pass : ∀ index < count, ∀ s, ∃ t, body index s = some t) (state : State) :
    ∃ after, loopM body count state = some after := by
  induction count with
  | zero => exact ⟨state, rfl⟩
  | succ count ih =>
      obtain ⟨middle, front⟩ := ih fun index below => pass index (Nat.lt_succ_of_lt below)
      obtain ⟨after, last⟩ := pass count (Nat.lt_succ_self count) middle
      exact ⟨after, by rw [loopM, front, Option.bind_some, last]⟩

/-- A loop whose body does not fault as long as the invariant holds. -/
theorem loopM_reaches (holds : Nat → State → Prop) (body : Nat → State → Option State) (count : Nat)
    (state : State) (start : holds 0 state)
    (pass : ∀ index < count, ∀ s, holds index s → ∃ t, body index s = some t ∧ holds (index + 1) t) :
    ∃ after, loopM body count state = some after ∧ holds count after := by
  induction count with
  | zero => exact ⟨state, rfl, start⟩
  | succ count ih =>
      obtain ⟨middle, front, reached⟩ := ih fun index below => pass index (Nat.lt_succ_of_lt below)
      obtain ⟨after, last, further⟩ := pass count (Nat.lt_succ_self count) middle reached
      exact ⟨after, by rw [loopM, front, Option.bind_some, last], further⟩

/-! Loops that rewrite every entry of an array on its own. -/

def rewriteEach (rewrite : Item → Item) (count : Nat) (array : Nat → Item) : Nat → Item :=
  loop (fun index array => Function.update array index (rewrite (array index))) count array

def rewriteEachM (rewrite : Item → Option Item) (count : Nat) (array : Nat → Item) :
    Option (Nat → Item) :=
  loopM (fun index array => (rewrite (array index)).map (Function.update array index)) count array

theorem rewrite_each_apply (rewrite : Item → Item) (count : Nat) (array : Nat → Item)
    (index : Nat) : rewriteEach rewrite count array index =
      if index < count then rewrite (array index) else array index := by
  unfold rewriteEach
  induction count with
  | zero => simp [loop]
  | succ count ih =>
      simp only [loop]
      by_cases last : index = count
      · subst index
        simp only [Function.update_self]
        rw [ih]
        simp
      · rw [Function.update_of_ne last, ih]
        have bound : index < count + 1 ↔ index < count := by omega
        simp only [bound]

theorem rewrite_eachM_iff (rewrite : Item → Option Item) (count : Nat)
    (array after : Nat → Item) :
    rewriteEachM rewrite count array = some after ↔
      (∀ index < count, rewrite (array index) = some (after index)) ∧
        ∀ index, count ≤ index → after index = array index := by
  unfold rewriteEachM
  induction count generalizing after with
  | zero =>
      simp only [loopM, Option.some.injEq, Nat.not_lt_zero, false_implies, implies_true,
        true_and, Nat.zero_le, forall_true_left]
      constructor
      · intro same index
        rw [same]
      · intro same
        funext index
        exact (same index).symm
  | succ count ih =>
      simp only [loopM, Option.bind_eq_some_iff, Option.map_eq_some_iff]
      constructor
      · rintro ⟨middle, front, item, last, rfl⟩
        obtain ⟨each, rest⟩ := (ih middle).mp front
        refine ⟨fun index below => ?_, fun index above => ?_⟩
        · by_cases here : index = count
          · subst index
            rw [Function.update_self, ← last, rest count (Nat.le_refl count)]
          · rw [Function.update_of_ne here]
            exact each index (by omega)
        · rw [Function.update_of_ne (by omega)]
          exact rest index (by omega)
      · rintro ⟨each, rest⟩
        -- before the last pass the array still has its old entry there
        refine ⟨Function.update after count (array count), (ih _).mpr ⟨?_, ?_⟩,
          after count, ?_, ?_⟩
        · intro index below
          rw [Function.update_of_ne (by omega)]
          exact each index (by omega)
        · intro index above
          by_cases here : index = count
          · rw [here, Function.update_self]
          · rw [Function.update_of_ne here]
            exact rest index (by omega)
        · rw [Function.update_self]
          exact each count (by omega)
        · rw [Function.update_idem, Function.update_eq_self]

end Ddhcpd.Loop

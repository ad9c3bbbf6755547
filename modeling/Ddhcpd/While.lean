/-!
While loops. A pass of a loop goes on from a new state or ends with a result. The loop
comes with a measure that every further pass lowers, so it ends from every state.
-/

namespace Ddhcpd.While

variable {State Result : Type}

inductive Pass (State Result : Type) where
  | again (state : State)
  | done (result : Result)

structure While (State Result : Type) where
  body : State → Pass State Result
  measure : State → Nat
  lowers : ∀ s t, body s = .again t → measure t < measure s

def passes (loop : While State Result) : Nat → State → Option Result
  | 0, _ => none
  | fuel + 1, s =>
      match loop.body s with
      | .again t => passes loop fuel t
      | .done result => some result

section
variable (loop : While State Result)

theorem passes_enough (fuel : Nat) (s : State) (enough : loop.measure s < fuel) :
    (passes loop fuel s).isSome := by
  induction fuel generalizing s with
  | zero => omega
  | succ fuel ih =>
      rw [passes]
      cases pass : loop.body s with
      | done result => rfl
      | again t =>
          have lower := loop.lowers s t pass
          exact ih t (by omega)

theorem passes_more (fuel more : Nat) (s : State) (result : Result)
    (done : passes loop fuel s = some result) (enough : fuel ≤ more) :
    passes loop more s = some result := by
  induction fuel generalizing s more with
  | zero => contradiction
  | succ fuel ih =>
      cases more with
      | zero => omega
      | succ more =>
          rw [passes] at done ⊢
          cases pass : loop.body s with
          | done other => simpa [pass] using done
          | again t =>
              rw [pass] at done
              exact ih more t done (by omega)

def run (s : State) : Result :=
  (passes loop (loop.measure s + 1) s).get (passes_enough loop _ s (Nat.lt_succ_self _))

theorem run_passes (s : State) : passes loop (loop.measure s + 1) s = some (run loop s) :=
  (Option.some_get _).symm

theorem run_done {s : State} {result : Result} (pass : loop.body s = .done result) :
    run loop s = result := by
  have ran := run_passes loop s
  rw [passes, pass] at ran
  exact (Option.some.inj ran).symm

theorem run_again {s t : State} (pass : loop.body s = .again t) : run loop s = run loop t := by
  have ran := run_passes loop s
  rw [passes, pass] at ran
  have lower := loop.lowers s t pass
  have rest := passes_more loop _ _ t _ (run_passes loop t) lower
  exact Option.some.inj (ran.symm.trans rest)

/-- Induction on the passes that a loop still makes. -/
theorem run_induction (claim : State → Result → Prop)
    (done : ∀ s result, loop.body s = .done result → claim s result)
    (again : ∀ s t, loop.body s = .again t → claim t (run loop t) → claim s (run loop t))
    (s : State) : claim s (run loop s) := by
  suffices general : ∀ bound s, loop.measure s < bound → claim s (run loop s) from
    general _ s (Nat.lt_succ_self _)
  intro bound
  induction bound with
  | zero => intro s low; omega
  | succ bound ih =>
      intro s low
      cases pass : loop.body s with
      | done result => exact run_done loop pass ▸ done s result pass
      | again t =>
          have lower := loop.lowers s t pass
          exact run_again loop pass ▸ again s t pass (ih t (by omega))
end

end Ddhcpd.While

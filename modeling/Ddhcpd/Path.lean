/-!
Paths of a labelled transition system. A path that has to keep to some states, or to
some steps, is a path of the transition relation narrowed to them.
-/

namespace Ddhcpd.Path

variable {State Label : Type}

inductive Path (step : State → Label → State → Prop) : State → List Label → State → Prop where
  | refl (state : State) : Path step state [] state
  | next {before middle after : State} {label : Label} {labels : List Label} :
      step before label middle → Path step middle labels after →
      Path step before (label :: labels) after

variable {step narrow : State → Label → State → Prop} {before middle after : State}
  {label : Label} {front back labels : List Label}

theorem path_append (first : Path step before front middle) (second : Path step middle back after) :
    Path step before (front ++ back) after := by
  induction first with
  | refl => exact second
  | next move _ ih => exact .next move (ih second)

theorem path_snoc (first : Path step before labels middle) (last : step middle label after) :
    Path step before (labels ++ [label]) after :=
  path_append first (.next last (.refl after))

theorem path_mono (weaken : ∀ s l t, narrow s l t → step s l t)
    (run : Path narrow before labels after) : Path step before labels after := by
  induction run with
  | refl => exact .refl _
  | next move _ ih => exact .next (weaken _ _ _ move) ih

/-- What holds at the start and is kept by every step holds all along. -/
theorem path_invariant (holds : State → Prop)
    (kept : ∀ s l t, holds s → step s l t → holds t)
    (run : Path step before labels after) (start : holds before) : holds after := by
  induction run with
  | refl => exact start
  | next move _ ih => exact ih (kept _ _ _ start move)

/-- What is kept by every step may be assumed of every state a step starts from. -/
theorem path_holding (holds : State → Prop)
    (kept : ∀ s l t, holds s → step s l t → holds t)
    (run : Path step before labels after) (start : holds before) :
    Path (fun s l t => holds s ∧ step s l t) before labels after := by
  induction run with
  | refl => exact .refl _
  | next move _ ih => exact .next ⟨start, move⟩ (ih (kept _ _ _ start move))

/-- Two ways to narrow a path are the same if they are the same for every step. -/
theorem path_congr (holds : State → Prop)
    (kept : ∀ s l t, holds s → narrow s l t → holds t)
    (same : ∀ s l t, holds s → (step s l t ↔ narrow s l t)) (start : holds before) :
    Path step before labels after ↔ Path narrow before labels after := by
  constructor
  · intro run
    induction run with
    | refl => exact .refl _
    | next move _ ih =>
        have narrowed := (same _ _ _ start).mp move
        exact .next narrowed (ih (kept _ _ _ start narrowed))
  · intro run
    induction run with
    | refl => exact .refl _
    | next move _ ih => exact .next ((same _ _ _ start).mpr move) (ih (kept _ _ _ start move))

/-- Induction on a path from its start, one step after the other. -/
theorem path_induction (claim : List Label → State → Prop) (start : claim [] before)
    (further : ∀ labels s l t, Path step before labels s → claim labels s → step s l t →
      claim (labels ++ [l]) t)
    (run : Path step before labels after) : claim labels after := by
  suffices general : ∀ front s, Path step before front s → claim front s →
      ∀ rest t, Path step s rest t → claim (front ++ rest) t by
    simpa using general [] before (.refl before) start labels after run
  intro front s reached known rest t tail
  induction tail generalizing front with
  | refl => simpa using known
  | next move _ ih =>
      have longer := ih _ (path_snoc reached move) (further front _ _ _ reached known move)
      simpa using longer

end Ddhcpd.Path

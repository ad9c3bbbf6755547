import Ddhcpd.Loop
import Mathlib.Order.Lattice

/-!
A scan over an array for the best candidate. The scan keeps the candidate it has unless
the next one has a smaller rank, so the first of several best candidates is chosen. For
the largest rank take the dual order.
-/

namespace Ddhcpd.Choice
open Loop

variable {Rank : Type} [LinearOrder Rank] {candidate : Nat → Prop} {rank : Nat → Rank}
  {count best : Nat}

/-- The index is the first of the candidates below `count` with the least rank. -/
structure Chosen (candidate : Nat → Prop) (rank : Nat → Rank) (count best : Nat) : Prop where
  inside : best < count
  fit : candidate best
  least : ∀ k < count, candidate k → rank best ≤ rank k
  first : ∀ k < best, candidate k → rank best < rank k

def Selected (candidate : Nat → Prop) (rank : Nat → Rank) (count : Nat) : Option Nat → Prop
  | none => ∀ k < count, ¬ candidate k
  | some best => Chosen candidate rank count best

/-- One pass of the scan on a candidate. -/
def prefer (rank : Nat → Rank) (k : Nat) (selected : Option Nat) : Option Nat :=
  match selected with
  | some best => if rank k < rank best then some k else some best
  | none => some k

theorem chosen_unique {other : Nat} (one : Chosen candidate rank count best)
    (another : Chosen candidate rank count other) : best = other := by
  rcases Nat.lt_trichotomy best other with before | same | after
  · exact absurd (one.least other another.inside another.fit)
      (not_le_of_gt (another.first best before one.fit))
  · exact same
  · exact absurd (another.least best one.inside one.fit)
      (not_le_of_gt (one.first other after another.fit))

theorem selected_skip {selected : Option Nat} (held : Selected candidate rank count selected)
    (unfit : ¬ candidate count) : Selected candidate rank (count + 1) selected := by
  have known {property : Nat → Prop} (each : ∀ k < count, candidate k → property k) :
      ∀ k < count + 1, candidate k → property k := by
    intro k below fit
    rcases Nat.lt_succ_iff_lt_or_eq.mp below with before | rfl
    · exact each k before fit
    · exact absurd fit unfit
  cases selected with
  | none => exact fun k below fit => known (fun k below fit => held k below fit) k below fit
  | some best => exact ⟨Nat.lt_succ_of_lt held.inside, held.fit, known held.least, held.first⟩

theorem selected_prefer {selected : Option Nat} (held : Selected candidate rank count selected)
    (fit : candidate count) : Selected candidate rank (count + 1) (prefer rank count selected) := by
  cases selected with
  | none =>
      refine ⟨Nat.lt_succ_self count, fit, fun k below also => ?_, fun k below also => ?_⟩
      · rcases Nat.lt_succ_iff_lt_or_eq.mp below with before | rfl
        · exact absurd also (held k before)
        · exact le_refl _
      · exact absurd also (held k below)
  | some best =>
      simp only [prefer]
      split
      · rename_i better
        refine ⟨Nat.lt_succ_self count, fit, fun k below also => ?_, fun k below also => ?_⟩
        · rcases Nat.lt_succ_iff_lt_or_eq.mp below with before | rfl
          · exact le_of_lt (lt_of_lt_of_le better (held.least k before also))
          · exact le_refl _
        · exact lt_of_lt_of_le better (held.least k below also)
      · rename_i worse
        refine ⟨Nat.lt_succ_of_lt held.inside, held.fit, fun k below also => ?_, held.first⟩
        rcases Nat.lt_succ_iff_lt_or_eq.mp below with before | rfl
        · exact held.least k before also
        · exact not_lt.mp worse

/-- The rule for a loop that scans this way and does not fault. -/
theorem loopM_selects (body : Nat → Option Nat → Option (Option Nat)) (count : Nat)
    (pass : ∀ k < count, ∀ selected,
      (candidate k ∧ body k selected = some (prefer rank k selected)) ∨
        (¬ candidate k ∧ body k selected = some selected)) :
    ∃ selected, loopM body count none = some selected ∧
      Selected candidate rank count selected := by
  induction count with
  | zero => exact ⟨none, rfl, by simp [Selected]⟩
  | succ count ih =>
      obtain ⟨selected, front, held⟩ := ih fun k below => pass k (Nat.lt_succ_of_lt below)
      simp only [loopM, front, Option.bind_some]
      rcases pass count (Nat.lt_succ_self count) selected with ⟨fit, last⟩ | ⟨unfit, last⟩
      · exact ⟨_, last, selected_prefer held fit⟩
      · exact ⟨_, last, selected_skip held unfit⟩

end Ddhcpd.Choice

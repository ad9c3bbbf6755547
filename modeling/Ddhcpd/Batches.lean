import Mathlib.Data.List.Induction

/-!
Packing a list into batches of a given size, in its order. A batch is complete when it
has that size; what is left at the end makes a last batch, which may be empty.
-/

namespace Ddhcpd.Batches

variable {Item : Type} {size : Nat} {list : List Item} {item : Item}

structure Packed (Item : Type) where
  complete : List (List Item)
  waiting : List Item

def pack (size : Nat) (packed : Packed Item) (item : Item) : Packed Item :=
  if (packed.waiting ++ [item]).length = size
  then ⟨packed.complete ++ [packed.waiting ++ [item]], []⟩
  else ⟨packed.complete, packed.waiting ++ [item]⟩

def packed (size : Nat) (list : List Item) : Packed Item := list.foldl (pack size) ⟨[], []⟩

def batches (size : Nat) (list : List Item) : List (List Item) :=
  (packed size list).complete ++ [(packed size list).waiting]

theorem packed_snoc (size : Nat) (list : List Item) (item : Item) :
    packed size (list ++ [item]) = pack size (packed size list) item := by
  simp [packed]

theorem packed_completes
    (full : ((packed size list).waiting ++ [item]).length = size) :
    packed size (list ++ [item]) =
      ⟨(packed size list).complete ++ [(packed size list).waiting ++ [item]], []⟩ := by
  rw [packed_snoc, pack, if_pos full]

theorem packed_waits
    (room : ((packed size list).waiting ++ [item]).length ≠ size) :
    packed size (list ++ [item]) =
      ⟨(packed size list).complete, (packed size list).waiting ++ [item]⟩ := by
  rw [packed_snoc, pack, if_neg room]

/-- Nothing is lost and the order is kept. -/
theorem batches_flatten (size : Nat) (list : List Item) : (batches size list).flatten = list := by
  induction list using List.reverseRecOn with
  | nil => rfl
  | append_singleton list item ih =>
      simp only [batches, List.flatten_append, List.flatten_singleton] at ih ⊢
      by_cases full : ((packed size list).waiting ++ [item]).length = size
      · rw [packed_completes full]
        simp [← List.append_assoc, ih]
      · rw [packed_waits full, ← List.append_assoc, ih]

theorem batch_of (member : item ∈ list) : ∃ batch ∈ batches size list, item ∈ batch := by
  rw [← batches_flatten size list] at member
  exact List.mem_flatten.mp member

end Ddhcpd.Batches

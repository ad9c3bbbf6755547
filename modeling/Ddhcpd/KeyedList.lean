import Mathlib.Data.List.Nodup

/-!
Lists of items that are searched by a key from the front. Putting an item replaces the first
one of its key or adds it behind all others, dropping a key takes the first item of it out.
As long as no two items have one key such a list is a map from keys to items.
-/

namespace Ddhcpd.KeyedList

variable {Item Key : Type} [DecidableEq Key] (key : Item → Key)

def find (items : List Item) (wanted : Key) : Option Item :=
  items.find? fun item => key item = wanted

def put : List Item → Item → List Item
  | [], new => [new]
  | item :: rest, new => if key item = key new then new :: rest else item :: put rest new

def drop : List Item → Key → List Item
  | [], _ => []
  | item :: rest, unwanted => if key item = unwanted then rest else item :: drop rest unwanted

def Distinct (items : List Item) : Prop := (items.map key).Nodup

variable {key} {items : List Item} {item new : Item} {wanted unwanted : Key}

theorem find_cons (rest : List Item) : find key (item :: rest) wanted =
    if key item = wanted then some item else find key rest wanted := by
  by_cases here : key item = wanted <;> simp [find, here]

theorem find_append (front back : List Item) : find key (front ++ back) wanted =
    (find key front wanted).or (find key back wanted) :=
  List.find?_append

theorem find_none_iff : find key items wanted = none ↔ wanted ∉ items.map key := by
  simp [find]

/-- Whether the items are distinct or not. -/
theorem find_put (items : List Item) (new : Item) (wanted : Key) :
    find key (put key items new) wanted =
      if key new = wanted then some new else find key items wanted := by
  induction items with
  | nil => exact find_cons []
  | cons item rest ih =>
      by_cases replaced : key item = key new
      · rw [put, if_pos replaced, find_cons, find_cons, replaced]
        split <;> rfl
      · rw [put, if_neg replaced, find_cons, find_cons, ih]
        split
        · rename_i here
          rw [if_neg fun same => replaced (here.trans same.symm)]
        · rfl

theorem put_keys (items : List Item) (new : Item) : (put key items new).map key =
    if key new ∈ items.map key then items.map key else items.map key ++ [key new] := by
  induction items with
  | nil => simp [put]
  | cons item rest ih =>
      by_cases replaced : key item = key new
      · simp [put, replaced]
      · have before : key new ∈ (item :: rest).map key ↔ key new ∈ rest.map key := by
          simp [Ne.symm replaced]
        simp only [put, if_neg replaced, List.map_cons, ih] at before ⊢
        simp only [before]
        split <;> rfl

theorem put_distinct (distinct : Distinct key items) (new : Item) :
    Distinct key (put key items new) := by
  rw [Distinct, put_keys]
  split
  · exact distinct
  · rename_i absent
    exact List.nodup_append.mpr ⟨distinct, List.nodup_singleton _, by
      intro known member other last
      rw [List.mem_singleton.mp last]
      rintro rfl
      exact absent member⟩

theorem drop_keys (items : List Item) (unwanted : Key) :
    (drop key items unwanted).map key = (items.map key).erase unwanted := by
  induction items with
  | nil => rfl
  | cons item rest ih =>
      by_cases here : key item = unwanted
      · simp [drop, here]
      · simp [drop, here, ih]

theorem drop_distinct (distinct : Distinct key items) (unwanted : Key) :
    Distinct key (drop key items unwanted) := by
  rw [Distinct, drop_keys]
  exact distinct.erase unwanted

theorem find_drop (distinct : Distinct key items) (unwanted wanted : Key) :
    find key (drop key items unwanted) wanted =
      if wanted = unwanted then none else find key items wanted := by
  split
  · rename_i same
    rw [same, find_none_iff, drop_keys]
    exact distinct.not_mem_erase
  · rename_i other
    clear distinct
    induction items with
    | nil => rfl
    | cons item rest ih =>
        by_cases here : key item = unwanted
        · rw [drop, if_pos here, find_cons, if_neg (here ▸ Ne.symm other)]
        · rw [drop, if_neg here, find_cons, find_cons, ih]

end Ddhcpd.KeyedList

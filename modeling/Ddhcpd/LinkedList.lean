import Mathlib.Data.List.Nodup
import Mathlib.Logic.Function.Basic

/-!
Rings of nodes that carry their own links. A node has a pointer to the next and one to the
previous node, either of which may be null; following a null pointer faults. Nodes that are
on no ring may contain arbitrary stale links. A ring is a head with a list of items, each
linked to its neighbours in both directions.
-/

namespace Ddhcpd.LinkedList

variable {Node : Type}

structure Links (Node : Type) where
  next : Node → Option Node
  prev : Node → Option Node

/-! Rings. -/

def Linked (links : Links Node) (first second : Node) : Prop :=
  links.next first = some second ∧ links.prev second = some first

/-- The links lead from `first` over the items to `last`, and back. -/
def Chain (links : Links Node) (first : Node) (items : List Node) (last : Node) : Prop :=
  match items with
  | [] => Linked links first last
  | item :: rest => Linked links first item ∧ Chain links item rest last

structure Ring (links : Links Node) (head : Node) (items : List Node) : Prop where
  chain : Chain links head items head
  distinct : (head :: items).Nodup

section Chains
variable {links changed : Links Node} {first last head item : Node}
  {items front back seen rest : List Node}

theorem chain_append : Chain links first (front ++ item :: back) last ↔
    Chain links first front item ∧ Chain links item back last := by
  induction front generalizing first with
  | nil => rfl
  | cons node rest ih => simp only [List.cons_append, Chain, ih, and_assoc]

/-- The nodes in between are linked by the next pointers of all but the last node and the previous
pointers of all but the first. -/
theorem chain_congr (chain : Chain links first items last)
    (next : ∀ node ∈ first :: items, changed.next node = links.next node)
    (prev : ∀ node ∈ items ++ [last], changed.prev node = links.prev node) :
    Chain changed first items last := by
  induction items generalizing first with
  | nil =>
      have forth := next first List.mem_cons_self
      have back := prev last List.mem_cons_self
      exact ⟨forth.trans chain.1, back.trans chain.2⟩
  | cons node rest ih =>
      have forth := next first List.mem_cons_self
      have back := prev node List.mem_cons_self
      refine ⟨⟨forth.trans chain.1.1, back.trans chain.1.2⟩, ih chain.2 ?_ ?_⟩
      · intro other member
        exact next other (List.mem_cons_of_mem _ member)
      · intro other member
        exact prev other (List.mem_cons_of_mem _ member)

/-- The end of a chain can be led elsewhere by two writes. -/
theorem chain_redirect (chain : Chain links first items last) (distinct : (first :: items).Nodup) :
    ∃ before ∈ first :: items, Linked links before last ∧ ∀ (changed : Links Node) (target : Node),
      (∀ node ∈ first :: items, node ≠ before → changed.next node = links.next node) →
      (∀ node ∈ items, changed.prev node = links.prev node) →
      Linked changed before target → Chain changed first items target := by
  induction items generalizing first with
  | nil => exact ⟨first, List.mem_cons_self, chain, fun _ _ _ _ linked => linked⟩
  | cons node rest ih =>
      obtain ⟨fresh, tail⟩ := List.nodup_cons.mp distinct
      obtain ⟨before, member, linked, redirect⟩ := ih chain.2 tail
      refine ⟨before, List.mem_cons_of_mem _ member, linked, fun changed target next prev led => ?_⟩
      have apart : first ≠ before := fun same => fresh (same ▸ member)
      have forth := next first List.mem_cons_self apart
      have back := prev node List.mem_cons_self
      refine ⟨⟨forth.trans chain.1.1, back.trans chain.1.2⟩, redirect changed target ?_ ?_ led⟩
      · intro other inside
        exact next other (List.mem_cons_of_mem _ inside)
      · intro other inside
        exact prev other (List.mem_cons_of_mem _ inside)

theorem chain_next (chain : Chain links first items last) :
    links.next first = (items ++ [last]).head? := by
  cases items with
  | nil => exact chain.1
  | cons node rest => exact chain.1.1

theorem ring_next (ring : Ring links head (seen ++ item :: rest)) :
    links.next item = (rest ++ [head]).head? := chain_next (chain_append.mp ring.chain).2

theorem ring_apart (ring : Ring links head items) (member : item ∈ items) :
    item ≠ head := by
  rintro rfl
  exact (List.nodup_cons.mp ring.distinct).1 member

theorem head_there (rest : List Node) (head : Node) : ∃ pos, (rest ++ [head]).head? = some pos := by
  cases rest with
  | nil => exact ⟨head, rfl⟩
  | cons node others => exact ⟨node, rfl⟩

end Chains

variable [DecidableEq Node]

namespace Links

def setNext (links : Links Node) (node : Node) (target : Option Node) : Links Node :=
  { links with next := Function.update links.next node target }

def setPrev (links : Links Node) (node : Node) (target : Option Node) : Links Node :=
  { links with prev := Function.update links.prev node target }

@[simp] theorem set_next_next (links : Links Node) (node other : Node) (target : Option Node) :
    (links.setNext node target).next other = if other = node then target else links.next other := by
  simp [setNext, Function.update_apply]

@[simp] theorem set_next_prev (links : Links Node) (node : Node) (target : Option Node) :
    (links.setNext node target).prev = links.prev := rfl

@[simp] theorem set_prev_prev (links : Links Node) (node other : Node) (target : Option Node) :
    (links.setPrev node target).prev other = if other = node then target else links.prev other := by
  simp [setPrev, Function.update_apply]

@[simp] theorem set_prev_next (links : Links Node) (node : Node) (target : Option Node) :
    (links.setPrev node target).next = links.next := rfl

end Links

/-! The operations, write by write. -/

def initListHead (list : Node) (links : Links Node) : Links Node :=
  (links.setPrev list (some list)).setNext list (some list)

def listAddBetween (new prev next : Node) (links : Links Node) : Links Node :=
  (((links.setPrev next (some new)).setNext new (some next)).setPrev new (some prev)).setNext prev
    (some new)

def listAddTail (new head : Node) (links : Links Node) : Option (Links Node) :=
  (links.prev head).map fun last => listAddBetween new last head links

def listUnlink (entry : Node) (links : Links Node) : Option (Links Node) := do
  let next ← links.next entry
  let links := links.setPrev next (links.prev entry)
  let prev ← links.prev entry
  return links.setNext prev (links.next entry)

def listDel (entry : Node) (links : Links Node) : Option (Links Node) :=
  (listUnlink entry links).map fun links => (links.setNext entry none).setPrev entry none

section Effects
variable {links : Links Node} {head item new : Node} {items front back : List Node}

theorem ring_init (head : Node) (links : Links Node) : Ring (initListHead head links) head [] :=
  ⟨by simp [Chain, Linked, initListHead], by simp⟩

/-- Only the links of nodes on the ring and of the new node are written. -/
theorem ring_add_tail (ring : Ring links head items) (fresh : new ∉ head :: items) :
    ∃ after, listAddTail new head links = some after ∧ Ring after head (items ++ [new]) := by
  obtain ⟨before, member, linked, redirect⟩ := chain_redirect ring.chain ring.distinct
  obtain ⟨unheaded, unlisted⟩ := not_or.mp (mt List.mem_cons.mpr fresh)
  have apart : before ≠ new := fun same => fresh (same ▸ member)
  have headless := (List.nodup_cons.mp ring.distinct).1
  refine ⟨listAddBetween new before head links, by rw [listAddTail, linked.2]; rfl, ?_, ?_⟩
  · refine chain_append.mpr ⟨redirect _ new ?_ ?_ ?_, ?_⟩
    · intro node inside other
      have different : node ≠ new := fun same => fresh (same ▸ inside)
      simp [listAddBetween, other, different]
    · intro node inside
      have different : node ≠ new := fun same => unlisted (same ▸ inside)
      have unended : node ≠ head := fun same => headless (same ▸ inside)
      simp [listAddBetween, different, unended]
    · simp [Linked, listAddBetween]
    · simp [Chain, Linked, listAddBetween, Ne.symm apart, Ne.symm unheaded]
  · rw [← List.cons_append]
    refine ring.distinct.append (List.nodup_singleton new) ?_
    simpa using ⟨unheaded, unlisted⟩

/-- An item is taken out, wherever it stands. -/
theorem ring_del (ring : Ring links head (front ++ item :: back)) :
    ∃ after, listDel item links = some after ∧ Ring after head (front ++ back) := by
  obtain ⟨ahead, behind⟩ := chain_append.mp ring.chain
  have shuffled : (item :: head :: (front ++ back)).Nodup := by
    have moved : (head :: (front ++ item :: back)).Perm (item :: head :: (front ++ back)) :=
      (List.perm_middle.cons head).trans (List.Perm.swap item head _)
    exact moved.nodup_iff.mp ring.distinct
  obtain ⟨absent, distinct⟩ := List.nodup_cons.mp shuffled
  have sub : (head :: front).Sublist (head :: (front ++ back)) :=
    (List.sublist_append_left front back).cons_cons head
  obtain ⟨before, member, linked, redirect⟩ := chain_redirect ahead (distinct.sublist sub)
  have apart : before ≠ item := fun same => absent (same ▸ sub.subset member)
  have frontless (node : Node) (inside : node ∈ head :: front) : node ≠ item :=
    fun same => absent (same ▸ sub.subset inside)
  cases back with
  | nil =>
      have unlinked : listDel item links = some ((((links.setPrev head (some before)).setNext before
          (some head)).setNext item none).setPrev item none) := by
        simp [listDel, listUnlink, behind.1, linked.2]
      refine ⟨_, unlinked, ?_, distinct⟩
      rw [List.append_nil]
      apply redirect
      · intro node inside other
        simp [other, frontless node inside]
      · intro node inside
        have unended : node ≠ head := by
          rintro rfl
          exact (List.nodup_cons.mp distinct).1 (List.mem_append_left _ inside)
        simp [unended, frontless node (List.mem_cons_of_mem _ inside)]
      · simp [Linked, apart, frontless head List.mem_cons_self]
  | cons following rest =>
      have backless (node : Node) (inside : node ∈ following :: rest) : node ≠ item := by
        rintro rfl
        exact absent (List.mem_cons_of_mem _ (List.mem_append_right _ inside))
      have separate (node : Node) (inside : node ∈ head :: front) : node ∉ following :: rest := by
        intro again
        rcases List.mem_cons.mp inside with rfl | listed
        · exact (List.nodup_cons.mp distinct).1 (List.mem_append_right _ again)
        · exact (List.disjoint_of_nodup_append (List.nodup_cons.mp distinct).2) listed again
      have unlinked : listDel item links = some ((((links.setPrev following (some before)).setNext
          before (some following)).setNext item none).setPrev item none) := by
        simp [listDel, listUnlink, behind.1.1, linked.2]
      refine ⟨_, unlinked, ?_, distinct⟩
      refine chain_append.mpr ⟨redirect _ following ?_ ?_ ?_, chain_congr behind.2 ?_ ?_⟩
      · intro node inside other
        simp [other, frontless node inside]
      · intro node inside
        have unfollowing : node ≠ following := by
          rintro rfl
          exact separate node (List.mem_cons_of_mem _ inside) List.mem_cons_self
        simp [unfollowing, frontless node (List.mem_cons_of_mem _ inside)]
      · simp [Linked, apart, backless following List.mem_cons_self]
      · intro node inside
        have unbefore : node ≠ before := by
          rintro rfl
          exact separate node member inside
        simp [unbefore, backless node inside]
      · intro node inside
        have once : following ∉ rest :=
          (List.nodup_cons.mp ((List.nodup_append.mp (List.nodup_cons.mp distinct).2).2.1)).1
        have unfollowing : node ≠ following := by
          rintro rfl
          rcases List.mem_append.mp inside with again | ending
          · exact once again
          · obtain rfl := List.mem_singleton.mp ending
            exact separate node List.mem_cons_self List.mem_cons_self
        have unitem : node ≠ item := by
          rcases List.mem_append.mp inside with again | ending
          · exact backless node (List.mem_cons_of_mem _ again)
          · obtain rfl := List.mem_singleton.mp ending
            exact frontless node List.mem_cons_self
        simp [unfollowing, unitem]

end Effects

/-! Loops over a ring. A body goes on, or breaks out of the loop. -/

inductive Control (State : Type) where
  | goOn (state : State)
  | stop (state : State)

section Loops
variable {State : Type} (links : State → Links Node) (head : Node)

/-- The next node is looked up before the body runs. Without fuel there is no result. -/
def forEachSafeFrom (body : Node → State → Option (Control State)) :
    Nat → Node → State → Option State
  | 0, _, _ => none
  | fuel + 1, pos, s =>
      ((links s).next pos).bind fun following =>
        if pos = head then some s
        else
          (body pos s).bind fun
            | .goOn t => forEachSafeFrom body fuel following t
            | .stop t => some t

def listForEachSafe (body : Node → State → Option (Control State)) (fuel : Nat) (s : State) :
    Option State :=
  ((links s).next head).bind fun pos => forEachSafeFrom links head body fuel pos s

/-- The next node is looked up after the body has run. -/
def forEachFrom (body : Node → State → Option State) : Nat → Node → State → Option State
  | 0, _, _ => none
  | fuel + 1, pos, s =>
      if pos = head then some s
      else
        (body pos s).bind fun t =>
          ((links t).next pos).bind fun following => forEachFrom body fuel following t

def listForEach (body : Node → State → Option State) (fuel : Nat) (s : State) : Option State :=
  ((links s).next head).bind fun pos => forEachFrom links head body fuel pos s

end Loops

/-! Loops over a ring end, and visit every item of it in order. -/

section Rules
variable {State : Type} {links : State → Links Node} {head item pos : Node} {items seen rest : List Node}
  {s : State} {fuel : Nat}

section Safe
variable {body : Node → State → Option (Control State)} (holds : List Node → List Node → State → Prop)
  (stopped : State → Prop)

theorem for_each_safe_from
    (ringed : ∀ seen rest s, holds seen rest s → ∃ kept, Ring (links s) head (kept ++ rest))
    (pass : ∀ seen item rest s, holds seen (item :: rest) s →
      (∃ t, body item s = some (.goOn t) ∧ holds (seen ++ [item]) rest t) ∨
        ∃ t, body item s = some (.stop t) ∧ stopped t)
    (start : holds seen rest s) (enough : rest.length < fuel)
    (here : (rest ++ [head]).head? = some pos) :
    ∃ t, forEachSafeFrom links head body fuel pos s = some t ∧
      (holds (seen ++ rest) [] t ∨ stopped t) := by
  induction rest generalizing seen s fuel pos with
  | nil =>
      cases fuel with
      | zero => contradiction
      | succ fuel =>
          obtain ⟨kept, ring⟩ := ringed seen [] s start
          obtain rfl : head = pos := Option.some.inj here
          obtain ⟨following, there⟩ := head_there kept head
          have first : (links s).next head = some following := by
            rw [chain_next ring.chain, List.append_nil, there]
          exact ⟨s, by simp [forEachSafeFrom, first], .inl (by simpa using start)⟩
  | cons item rest ih =>
      cases fuel with
      | zero => contradiction
      | succ fuel =>
          obtain ⟨kept, ring⟩ := ringed seen (item :: rest) s start
          obtain rfl : item = pos := Option.some.inj here
          have apart := ring_apart ring (List.mem_append_right _ List.mem_cons_self)
          obtain ⟨following, there⟩ := head_there rest head
          have next : (links s).next item = some following := (ring_next ring).trans there
          rcases pass seen item rest s start with ⟨t, went, further⟩ | ⟨t, went, ended⟩
          · obtain ⟨final, done, result⟩ := ih further (Nat.lt_of_succ_lt_succ enough) there
            refine ⟨final, ?_, by simpa using result⟩
            simp [forEachSafeFrom, next, apart, went, done]
          · exact ⟨t, by simp [forEachSafeFrom, next, apart, went], .inr ended⟩

/-- `holds seen rest s` is the invariant of the loop: the nodes seen may have been taken out of the
ring or left there, those to come are still on it. -/
theorem for_each_safe_rule
    (ringed : ∀ seen rest s, holds seen rest s → ∃ kept, Ring (links s) head (kept ++ rest))
    (pass : ∀ seen item rest s, holds seen (item :: rest) s →
      (∃ t, body item s = some (.goOn t) ∧ holds (seen ++ [item]) rest t) ∨
        ∃ t, body item s = some (.stop t) ∧ stopped t)
    (ring : Ring (links s) head items) (start : holds [] items s) (enough : items.length < fuel) :
    ∃ t, listForEachSafe links head body fuel s = some t ∧ (holds items [] t ∨ stopped t) := by
  obtain ⟨pos, here⟩ := head_there items head
  obtain ⟨t, done, result⟩ := for_each_safe_from holds stopped ringed pass start enough here
  exact ⟨t, by simp [listForEachSafe, chain_next ring.chain, here, done], result⟩

end Safe

section Plain
variable {Item : Type} {node : Item → Node} {body : Node → State → Option State}
  {step : State → Item → State} {front back : List Item}

theorem for_each_from (pass : ∀ item s, body (node item) s = some (step s item))
    (kept : ∀ s item, links (step s item) = links s)
    (ring : Ring (links s) head ((front ++ back).map node)) (enough : back.length < fuel)
    (here : (back.map node ++ [head]).head? = some pos) :
    forEachFrom links head body fuel pos s = some (back.foldl step s) := by
  induction back generalizing front s fuel pos with
  | nil =>
      cases fuel with
      | zero => contradiction
      | succ fuel =>
          obtain rfl : head = pos := Option.some.inj here
          simp [forEachFrom]
  | cons item rest ih =>
      cases fuel with
      | zero => contradiction
      | succ fuel =>
          obtain rfl : node item = pos := Option.some.inj here
          have apart := ring_apart ring (List.mem_map_of_mem (by simp : item ∈ front ++ item :: rest))
          obtain ⟨following, there⟩ := head_there (rest.map node) head
          have split : Ring (links s) head (front.map node ++ node item :: rest.map node) := by
            simpa using ring
          have next : (links (step s item)).next (node item) = some following := by
            rw [kept, ring_next split, there]
          have after : Ring (links (step s item)) head (((front ++ [item]) ++ rest).map node) := by
            rw [kept]
            simpa using ring
          have tail := ih after (Nat.lt_of_succ_lt_succ enough) there
          simp [forEachFrom, apart, pass, next, tail]

/-- A body that leaves the links alone is run for each item in turn. -/
theorem for_each_fold {items : List Item} (pass : ∀ item s, body (node item) s = some (step s item))
    (kept : ∀ s item, links (step s item) = links s) (ring : Ring (links s) head (items.map node))
    (enough : items.length < fuel) :
    listForEach links head body fuel s = some (items.foldl step s) := by
  obtain ⟨pos, here⟩ := head_there (items.map node) head
  have whole : Ring (links s) head (([] ++ items).map node) := ring
  have done := for_each_from pass kept whole enough here
  simp [listForEach, chain_next ring.chain, here, done]

end Plain

end Rules

end Ddhcpd.LinkedList

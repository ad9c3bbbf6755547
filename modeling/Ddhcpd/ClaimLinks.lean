import Ddhcpd.ClaimingList
import Ddhcpd.LinkedList

/-!
The lists of blocks as `list.h` keeps them: `block_find_free` and `block_claim` over the links in
the blocks. The links steer the code; the list in the configuration is written alongside and never
read. `block_find_free` leaves stale links behind when it stops early, and it builds its next list
from them.
-/

namespace Ddhcpd.ClaimLinks
open Types Loop Blocks Packet Dhcp Claim ClaimingList Invariant Node Calls LinkedList

/-- A node of a list of blocks: the head of the list, or the field of a block. -/
abbrev Slot := Option Nat

def listHead : Slot := none

structure LinkedConfig where
  config : Config
  claimLinks : Links Slot
  tmpLinks : Links Slot

/-! `block_find_free` -/

def gatherFree (c : Config) (i : Nat) (work : Links Slot × Nat) : Option (Links Slot × Nat) :=
  if (c.blocks i).state = .free then
    (listAddTail (some i) listHead work.1).map fun links => (links, work.2 + 1)
  else some work

structure Search where
  links : Links Slot
  r : Nat
  randomFree : Slot

def pickFree (pos : Slot) (search : Search) : Option (Control Search) :=
  (listDel pos search.links).map fun links =>
    if search.r = 0 then .stop ⟨links, search.r, pos⟩
    else .goOn ⟨links, search.r - 1, search.randomFree⟩

def blockFindFreeLinked (cfg : Settings) (env : Env) (fuel call : Nat) (c : Config)
    (tmpLinks : Links Slot) : Option (Slot × Links Slot) := do
  let (links, numFreeBlocks) ← loopM (gatherFree c) cfg.blocks (initListHead listHead tmpLinks, 0)
  if numFreeBlocks > 0 then
    let r := env.rand call % numFreeBlocks
    let search ← listForEachSafe Search.links listHead pickFree fuel ⟨links, r, none⟩
    return (search.randomFree, search.links)
  else return (none, links)

/-! `block_claim` -/

def LinkedConfig.unlist (s : LinkedConfig) (pos : Slot) (config : Config) : Option LinkedConfig :=
  (listDel pos s.claimLinks).map fun links => { s with config := config, claimLinks := links }

def claimListedLinked (cfg : Settings) (env : Env) (pos : Slot) (work : LinkedConfig × Int) :
    Option (Control (LinkedConfig × Int)) :=
  pos.bind fun position =>
    let block := work.1.config.blocks position
    let claimed := claimListed cfg env (work.1.config, work.2) position
    if block.claimingCounts = 3 ∨ block.state ≠ .claiming then
      (work.1.unlist pos claimed.1).map fun s => .goOn (s, claimed.2)
    else some (.goOn work)

def claimFreshLinked (cfg : Settings) (env : Env) (fuel call : Nat) (s : LinkedConfig) :
    Option LinkedConfig := do
  let (found, tmpLinks) ← blockFindFreeLinked cfg env fuel call s.config s.tmpLinks
  match found with
  | some position =>
      let c := s.config
      let block := { c.blocks position with
        state := .claiming
        claimingCounts := 0
        timeout := env.now + cfg.tentativeTimeout.toNat }
      let claimLinks ← listAddTail (some position) listHead s.claimLinks
      return ⟨{ c.setBlock position block with
        claimingBlocks := c.claimingBlocks ++ [position]
        claimingBlocksAmount := c.claimingBlocksAmount + 1 }, claimLinks, tmpLinks⟩
  | none => return { s with tmpLinks := tmpLinks }

def writeEntry (c : Config) (pos : Slot) (work : Links Slot × List BlockPayload) :
    Option (Links Slot × List BlockPayload) :=
  pos.map fun position => (work.1, work.2 ++ [⟨(c.blocks position).index, 0, 0⟩])

def countClaimLinked (pos : Slot) (s : LinkedConfig) : Option LinkedConfig :=
  pos.map fun position => { s with config := countClaim s.config position }

def sendInquireLinked (cfg : Settings) (env : Env) (fuel : Nat) (s : LinkedConfig) :
    Option LinkedConfig :=
  if s.config.claimingBlocksAmount < 1 then some s
  else if ¬ env.alloc .inquirePacket ∨ ¬ env.alloc .inquirePayload then some s
  else do
    let (_, payload) ← listForEach Prod.fst listHead (writeEntry s.config) fuel (s.claimLinks, [])
    let packet := { newDdhcpPacket cfg msgInquire with
      count := s.config.claimingBlocksAmount
      payload := payload }
    let sent := env.mcastSent s.config.out.length
    let told := { s with config := s.config.emit (.mcast packet sent) }
    if sent then listForEach LinkedConfig.claimLinks listHead countClaimLinked fuel told
    else return told

def blockClaimLinked (cfg : Settings) (env : Env) (fuel : Nat) (numBlocks : Int) (s : LinkedConfig) :
    Option LinkedConfig := do
  let listed ← listForEachSafe (fun work => work.1.claimLinks) listHead (claimListedLinked cfg env)
    fuel (s, numBlocks)
  let needed := (listed.2 - listed.1.config.claimingBlocksAmount.toNat).toNat
  let claimed ← loopM (claimFreshLinked cfg env fuel) needed listed.1
  sendInquireLinked cfg env fuel claimed

/-! A run of the node over its links. -/

def adjustBlocksLinked (cfg : Settings) (env : Env) (fuel : Nat) (s : LinkedConfig) :
    Option LinkedConfig := do
  let spareLeases ← blockNumFreeLeases cfg s.config
  let needed := blocksNeeded cfg spareLeases
  if needed < 0 then
    let c ← blockDropUnused cfg env s.config
    return { s with config := c }
  else
    let s := if s.config.needlessMarks ≠ 0
      then { s with config := blockUnmarkNeedless cfg s.config } else s
    if needed > 0 then blockClaimLinked cfg env fuel needed s else return s

def houseKeepingLinked (cfg : Settings) (env : Env) (fuel : Nat) (s : LinkedConfig) :
    Option LinkedConfig := do
  let checked ← blockCheckTimeouts cfg env.now s.config
  let adjusted ← adjustBlocksLinked cfg env fuel { s with config := checked }
  let after ← dhcpPacketListTimeout env.now (blockUpdateClaims cfg env adjusted.config)
  return { adjusted with config := after }

def handleLinked (cfg : Settings) (fuel : Nat) (env : Env) (event : Event) (s : LinkedConfig) :
    Option LinkedConfig :=
  match event with
  | .houseKeeping => houseKeepingLinked cfg env fuel s
  | other => (handle cfg env other s.config).map fun after => { s with config := after }

structure LinkedNode where
  clock : Time
  linked : LinkedConfig

def LinkedNode.node (s : LinkedNode) : NodeState := ⟨s.clock, s.linked.config⟩

def runLinked (cfg : Settings) (fuel : Nat) (s : LinkedNode) :
    List (Env × Event) → Option LinkedNode
  | [] => some s
  | (env, event) :: rest =>
      if s.clock ≤ env.now then
        (handleLinked cfg fuel env event s.linked).bind fun after =>
          runLinked cfg fuel ⟨env.now, after⟩ rest
      else none

/-- The links of the blocks list what the configuration says, in this order. -/
def Mirrored (s : LinkedConfig) : Prop :=
  Ring s.claimLinks listHead (s.config.claimingBlocks.map some)

/-! The search for a free block. -/

section Search
variable {cfg : Settings} {env : Env} {c : Config}

def freeBelow (c : Config) (count : Nat) : List Nat :=
  (List.range count).filter fun k => (c.blocks k).state = .free

theorem free_below_succ (c : Config) (count : Nat) : freeBelow c (count + 1) =
    if (c.blocks count).state = .free then freeBelow c count ++ [count] else freeBelow c count := by
  rw [freeBelow, List.range_succ, List.filter_append]
  by_cases free : (c.blocks count).state = .free <;> simp [freeBelow, free]

/-- Whatever the fields held before, the free blocks are on the list afterwards, in their order. -/
theorem gather_free_ring (c : Config) (count : Nat) (tmpLinks : Links Slot) :
    ∃ links, loopM (gatherFree c) count (initListHead listHead tmpLinks, 0) =
        some (links, (freeBelow c count).length) ∧
      Ring links listHead ((freeBelow c count).map some) := by
  let gathered (i : Nat) (work : Links Slot × Nat) : Prop :=
    work.2 = (freeBelow c i).length ∧ Ring work.1 listHead ((freeBelow c i).map some)
  have pass : ∀ i < count, ∀ work, gathered i work →
      ∃ after, gatherFree c i work = some after ∧ gathered (i + 1) after := by
    rintro i - ⟨links, num⟩ ⟨amount, ring⟩
    simp only [gatherFree, gathered, free_below_succ] at amount ring ⊢
    split
    · have fresh : some i ∉ listHead :: (freeBelow c i).map some := by
        simp [listHead, freeBelow]
      obtain ⟨after, added, longer⟩ := ring_add_tail ring fresh
      exact ⟨(after, num + 1), by simp [added], by simp [amount], by simpa using longer⟩
    · exact ⟨(links, num), rfl, amount, ring⟩
  obtain ⟨⟨links, num⟩, done, amount, ring⟩ := loopM_reaches gathered (gatherFree c) count
    (initListHead listHead tmpLinks, 0) ⟨rfl, ring_init listHead tmpLinks⟩ pass
  obtain rfl : num = _ := amount
  exact ⟨links, done, ring⟩

/-- The loop takes the list apart up to the item it was to find. -/
theorem pick_free_found {links : Links Slot} {items : List Slot} {r fuel : Nat} {goal : Slot}
    (ring : Ring links listHead items) (wanted : items[r]? = some goal) (enough : items.length < fuel) :
    ∃ search, listForEachSafe Search.links listHead pickFree fuel ⟨links, r, none⟩ = some search ∧
      search.randomFree = goal := by
  let left (_ rest : List Slot) (search : Search) : Prop :=
    Ring search.links listHead rest ∧ rest[search.r]? = some goal
  have pass : ∀ seen item rest search, left seen (item :: rest) search →
      (∃ t, pickFree item search = some (.goOn t) ∧ left (seen ++ [item]) rest t) ∨
        ∃ t, pickFree item search = some (.stop t) ∧ t.randomFree = goal := by
    rintro - item rest ⟨links, r, randomFree⟩ ⟨ring, wanted⟩
    have whole : Ring links listHead ([] ++ item :: rest) := ring
    obtain ⟨after, deleted, shorter⟩ := ring_del whole
    cases r with
    | zero =>
        right
        exact ⟨⟨after, 0, item⟩, by simp [pickFree, deleted], by simpa using wanted⟩
    | succ r =>
        left
        exact ⟨⟨after, r, randomFree⟩, by simp [pickFree, deleted], shorter, by simpa using wanted⟩
  have start : left [] items ⟨links, r, none⟩ := ⟨ring, wanted⟩
  obtain ⟨search, done, result⟩ := for_each_safe_rule left (fun search => search.randomFree = goal)
    (fun _ _ _ held => ⟨[], held.1⟩) pass ring start enough
  refine ⟨search, done, result.resolve_left ?_⟩
  rintro ⟨-, missing⟩
  simp at missing

/-- The search over the links finds the block that the model picks, whatever stale links earlier
searches left in the blocks: it never follows one of them. -/
theorem find_free_linked (cfg : Settings) (env : Env) {fuel : Nat} (call : Nat) (c : Config)
    (tmpLinks : Links Slot) (enough : cfg.blocks < fuel) :
    ∃ after, blockFindFreeLinked cfg env fuel call c tmpLinks =
      some (blockFindFree cfg env call c, after) := by
  obtain ⟨links, gathered, ring⟩ := gather_free_ring c cfg.blocks tmpLinks
  have few : (freeBelow c cfg.blocks).length ≤ cfg.blocks := by
    have filtered := List.length_filter_le (fun k => decide ((c.blocks k).state = .free))
      (List.range cfg.blocks)
    rwa [List.length_range] at filtered
  have plain : blockFindFree cfg env call c =
      (freeBelow c cfg.blocks)[env.rand call % (freeBelow c cfg.blocks).length]? := rfl
  rw [blockFindFreeLinked, gathered, plain]
  generalize freeBelow c cfg.blocks = free at ring few
  by_cases any : free.length > 0
  · have inside : env.rand call % free.length < free.length := Nat.mod_lt _ any
    have wanted : (free.map some)[env.rand call % free.length]? =
        some (some free[env.rand call % free.length]) := by simp [inside]
    have short : (free.map some).length < fuel := by
      rw [List.length_map]
      omega
    obtain ⟨search, done, found⟩ := pick_free_found ring wanted short
    exact ⟨search.links, by simp [any, done, found, inside]⟩
  · obtain rfl : free = [] := List.eq_nil_of_length_eq_zero (by omega)
    exact ⟨links, by simp⟩

end Search

/-! `block_claim` over the links -/

section Claiming
variable {cfg : Settings} {env : Env} {fuel : Nat} {s : LinkedConfig} {c : Config}

/-- The links have led to the same configuration and list the same blocks, or both have faulted. -/
structure Agrees (linked : Option LinkedConfig) (plain : Option Config) : Prop where
  same : linked.map LinkedConfig.config = plain
  mirrored : ∀ after, linked = some after → Mirrored after

/-- The loop takes a block off the list where it does not stay a candidate. -/
theorem claim_listed_list (work : Config × Int) (position : Nat) :
    (claimListed cfg env work position).1.claimingBlocks =
      if (work.1.blocks position).claimingCounts = 3 ∨ (work.1.blocks position).state ≠ .claiming
      then work.1.claimingBlocks.erase position else work.1.claimingBlocks := by
  unfold claimListed
  by_cases full : (work.1.blocks position).claimingCounts = 3
  · simp only [full, ↓reduceIte, true_or]
    split <;> rfl
  · by_cases claiming : (work.1.blocks position).state = .claiming
    · simp [full, claiming]
    · simp [full, claiming, unlist]

theorem claim_listed_stays (cfg : Settings) (env : Env) (work : Config × Int) {position : Nat}
    (stays : ¬ ((work.1.blocks position).claimingCounts = 3 ∨
      (work.1.blocks position).state ≠ .claiming)) : claimListed cfg env work position = work := by
  obtain ⟨short, claiming⟩ := not_or.mp stays
  rw [claimListed, if_neg short, if_neg claiming]

/-- Deleting the block under the loop keeps the rest of the list in front of it. -/
theorem claim_listed_linked (cfg : Settings) (env : Env) (num : Int) {kept rest : List Nat} {position : Nat} (mirrored : Mirrored s)
    (list : s.config.claimingBlocks = kept ++ position :: rest) :
    ∃ t kept', claimListedLinked cfg env (some position) (s, num) =
        some (.goOn (t, (claimListed cfg env (s.config, num) position).2)) ∧
      t.config = (claimListed cfg env (s.config, num) position).1 ∧ Mirrored t ∧
      t.config.claimingBlocks = kept' ++ rest := by
  by_cases leaves : (s.config.blocks position).claimingCounts = 3 ∨
      (s.config.blocks position).state ≠ .claiming
  · have ring : Ring s.claimLinks listHead (kept.map some ++ some position :: rest.map some) := by
      simpa [Mirrored, list] using mirrored
    have fresh : position ∉ kept := by
      intro member
      have apart := List.disjoint_of_nodup_append (List.nodup_cons.mp ring.distinct).2
      exact apart (List.mem_map_of_mem member) List.mem_cons_self
    have erased : (claimListed cfg env (s.config, num) position).1.claimingBlocks = kept ++ rest := by
      rw [claim_listed_list, if_pos leaves, list, List.erase_append_right _ fresh,
        List.erase_cons_head]
    obtain ⟨after, deleted, shorter⟩ := ring_del ring
    refine ⟨⟨_, after, s.tmpLinks⟩, kept, ?_, rfl, ?_, erased⟩
    · simp only [claimListedLinked, Option.bind_some, leaves, ↓reduceIte, LinkedConfig.unlist,
        deleted, Option.map_some]
    · simpa [Mirrored, erased] using shorter
  · have same := claim_listed_stays cfg env (s.config, num) leaves
    refine ⟨s, kept ++ [position], ?_, by rw [same], mirrored, by simp [list]⟩
    simp only [claimListedLinked, Option.bind_some, leaves, ↓reduceIte, same]

theorem claim_list_linked (cfg : Settings) (env : Env) (num : Int) (mirrored : Mirrored s)
    (enough : s.config.claimingBlocks.length < fuel) :
    ∃ t, listForEachSafe (fun work : LinkedConfig × Int => work.1.claimLinks) listHead
        (claimListedLinked cfg env) fuel (s, num) =
          some (t, (s.config.claimingBlocks.foldl (claimListed cfg env) (s.config, num)).2) ∧
      t.config = (s.config.claimingBlocks.foldl (claimListed cfg env) (s.config, num)).1 ∧
      Mirrored t := by
  let listed := s.config.claimingBlocks
  let holds (seen rest : List Slot) (work : LinkedConfig × Int) : Prop :=
    ∃ front back kept, seen = front.map some ∧ rest = back.map some ∧ listed = front ++ back ∧
      (work.1.config, work.2) = front.foldl (claimListed cfg env) (s.config, num) ∧
      Mirrored work.1 ∧ work.1.config.claimingBlocks = kept ++ back
  have ringed : ∀ seen rest work, holds seen rest work →
      ∃ kept, Ring work.1.claimLinks listHead (kept ++ rest) := by
    rintro - - work ⟨front, back, kept, rfl, rfl, -, -, mirrored, list⟩
    exact ⟨kept.map some, by simpa [Mirrored, list] using mirrored⟩
  have pass : ∀ seen item rest work, holds seen (item :: rest) work →
      (∃ t, claimListedLinked cfg env item work = some (.goOn t) ∧ holds (seen ++ [item]) rest t) ∨
        ∃ t, claimListedLinked cfg env item work = some (.stop t) ∧ False := by
    rintro - item rest ⟨work, wanted⟩ ⟨front, back, kept, rfl, items, split, folded, mirrored, list⟩
    left
    cases back with
    | nil => simp at items
    | cons position back =>
        obtain ⟨rfl, rfl⟩ := List.cons.inj items
        obtain ⟨t, kept', done, config, further, rest⟩ :=
          claim_listed_linked cfg env wanted mirrored list
        refine ⟨_, done, front ++ [position], back, kept', by simp, rfl, by simpa using split, ?_,
          further, rest⟩
        rw [List.foldl_append, ← folded, config]
        rfl
  have start : holds [] (listed.map some) (s, num) :=
    ⟨[], listed, [], rfl, rfl, rfl, rfl, mirrored, rfl⟩
  have looped : ∃ t, listForEachSafe (fun work : LinkedConfig × Int => work.1.claimLinks) listHead
      (claimListedLinked cfg env) fuel (s, num) = some t ∧ (holds (listed.map some) [] t ∨ False) :=
    for_each_safe_rule holds (fun _ => False) ringed pass mirrored start (by simpa using enough)
  obtain ⟨⟨t, wanted⟩, done, ended | stopped⟩ := looped
  · obtain ⟨front, back, kept, -, nothing, split, folded, further, -⟩ := ended
    obtain rfl : back = [] := by simpa using nothing.symm
    obtain rfl : listed = front := by simpa using split
    have config := congrArg Prod.fst folded
    have rest := congrArg Prod.snd folded
    simp only at config rest
    exact ⟨t, by rw [done, rest], config, further⟩
  · exact stopped.elim

/-- Blocks that are on the list are not free, so a free one can be put on it. -/
theorem claim_fresh_linked (env : Env) (call : Nat) (enough : cfg.blocks < fuel) (mirrored : Mirrored s)
    (busy : ∀ position ∈ s.config.claimingBlocks, (s.config.blocks position).state = .claiming) :
    ∃ t, claimFreshLinked cfg env fuel call s = some t ∧
      t.config = claimFresh cfg env call s.config ∧ Mirrored t ∧
      ∀ position ∈ t.config.claimingBlocks, (t.config.blocks position).state = .claiming := by
  obtain ⟨tmpLinks, search⟩ := find_free_linked cfg env call s.config s.tmpLinks enough
  cases found : blockFindFree cfg env call s.config with
  | none =>
      have same : claimFresh cfg env call s.config = s.config := by simp [claimFresh, found]
      refine ⟨{ s with tmpLinks := tmpLinks }, ?_, same.symm, mirrored, busy⟩
      simp [claimFreshLinked, search, found]
  | some position =>
      have free := (find_free_some found).2
      have fresh : position ∉ s.config.claimingBlocks := by
        intro member
        rw [busy position member] at free
        contradiction
      have list : (claimFresh cfg env call s.config).claimingBlocks =
          s.config.claimingBlocks ++ [position] := by simp [claimFresh, found]
      have unlisted : some position ∉ listHead :: s.config.claimingBlocks.map some := by
        simpa [listHead] using fresh
      obtain ⟨links, added, longer⟩ := ring_add_tail mirrored unlisted
      refine ⟨⟨claimFresh cfg env call s.config, links, tmpLinks⟩, ?_, rfl, ?_, ?_⟩
      · simp [claimFreshLinked, claimFresh, search, found, added]
      · simpa [Mirrored, list] using longer
      · intro other member
        rw [list] at member
        rcases List.mem_append.mp member with before | last
        · have different : other ≠ position := fun same => fresh (same ▸ before)
          simpa [claimFresh, found, set_block_other, different] using busy other before
        · simp [claimFresh, found, List.mem_singleton.mp last]

theorem claim_fresh_loop (env : Env) (needed : Nat) (enough : cfg.blocks < fuel) (mirrored : Mirrored s)
    (busy : ∀ position ∈ s.config.claimingBlocks, (s.config.blocks position).state = .claiming) :
    ∃ t, loopM (claimFreshLinked cfg env fuel) needed s = some t ∧
      t.config = loop (claimFresh cfg env) needed s.config ∧ Mirrored t := by
  let holds (calls : Nat) (t : LinkedConfig) : Prop :=
    t.config = loop (claimFresh cfg env) calls s.config ∧ Mirrored t ∧
      ∀ position ∈ t.config.claimingBlocks, (t.config.blocks position).state = .claiming
  have pass : ∀ call < needed, ∀ t, holds call t →
      ∃ u, claimFreshLinked cfg env fuel call t = some u ∧ holds (call + 1) u := by
    rintro call - t ⟨same, mirrored, busy⟩
    obtain ⟨u, done, config, further⟩ := claim_fresh_linked env call enough mirrored busy
    exact ⟨u, done, by rw [config, same]; rfl, further⟩
  obtain ⟨t, done, same, further, -⟩ := loopM_reaches holds (claimFreshLinked cfg env fuel) needed s
    ⟨rfl, mirrored, busy⟩ pass
  exact ⟨t, done, same, further⟩

theorem entries_written (links : Links Slot) (entry : Nat → BlockPayload) (positions : List Nat)
    (written : List BlockPayload) :
    positions.foldl (fun work position => (work.1, work.2 ++ [entry position])) (links, written) =
      (links, written ++ positions.map entry) := by
  induction positions generalizing written with
  | nil => simp
  | cons position rest ih => simp [ih]

theorem claims_counted (positions : List Nat) (s : LinkedConfig) :
    positions.foldl (fun t position => { t with config := countClaim t.config position }) s =
      { s with config := positions.foldl countClaim s.config } := by
  induction positions generalizing s with
  | nil => rfl
  | cons position rest ih => simp [ih]

theorem send_inquire_linked (cfg : Settings) (env : Env) (mirrored : Mirrored s)
    (enough : s.config.claimingBlocks.length < fuel) :
    ∃ t, sendInquireLinked cfg env fuel s = some t ∧ t.config = sendInquire cfg env s.config ∧
      Mirrored t := by
  unfold sendInquireLinked sendInquire
  split
  · exact ⟨s, rfl, rfl, mirrored⟩
  split
  · exact ⟨s, rfl, rfl, mirrored⟩
  have ring : Ring s.claimLinks listHead (s.config.claimingBlocks.map some) := mirrored
  let entry (position : Nat) : BlockPayload := ⟨(s.config.blocks position).index, 0, 0⟩
  have visited : listForEach Prod.fst listHead (writeEntry s.config) fuel (s.claimLinks, []) =
      some (s.config.claimingBlocks.foldl
        (fun work position => (work.1, work.2 ++ [entry position])) (s.claimLinks, [])) :=
    for_each_fold (fun _ _ => rfl) (fun _ _ => rfl) ring enough
  have payload : listForEach Prod.fst listHead (writeEntry s.config) fuel (s.claimLinks, []) =
      some (s.claimLinks, (inquirePacket cfg s.config).payload) := by
    rw [visited, entries_written]
    rfl
  simp only [payload, Option.bind_eq_bind, Option.bind_some]
  split
  · let told : LinkedConfig := { s with
      config := s.config.emit (.mcast (inquirePacket cfg s.config) (env.mcastSent s.config.out.length)) }
    have counted : listForEach LinkedConfig.claimLinks listHead countClaimLinked fuel told =
        some (s.config.claimingBlocks.foldl
          (fun t position => { t with config := countClaim t.config position }) told) :=
      for_each_fold (fun _ _ => rfl) (fun _ _ => rfl) ring enough
    rw [claims_counted] at counted
    refine ⟨_, counted, rfl, ?_⟩
    rw [Mirrored, count_claims_frame]
    exact ring
  · exact ⟨_, rfl, rfl, mirrored⟩

theorem listed_few (listed : Listed cfg c) : c.claimingBlocks.length ≤ cfg.blocks := by
  have inside : c.claimingBlocks ⊆ List.range cfg.blocks := fun position member =>
    List.mem_range.mpr (listed.inside position member)
  simpa using (List.subperm_of_subset listed.once inside).length_le

theorem block_claim_linked (env : Env) {numBlocks : Int} (few : numBlocks ≤ 255) (enough : cfg.blocks < fuel)
    (good : Good cfg s.config) (mirrored : Mirrored s) :
    ∃ t, blockClaimLinked cfg env fuel numBlocks s = some t ∧
      t.config = blockClaim cfg env numBlocks s.config ∧ Mirrored t := by
  have short (c : Config) (good : Good cfg c) : c.claimingBlocks.length < fuel :=
    Nat.lt_of_le_of_lt (listed_few good.listed) enough
  obtain ⟨listed, first, listedConfig, listedMirrored⟩ :=
    claim_list_linked cfg env numBlocks mirrored (short _ good)
  have sift := sift_list cfg env s.config numBlocks good.listed.once good.listed.amount
  have busy : ∀ position ∈ listed.config.claimingBlocks,
      (listed.config.blocks position).state = .claiming := by
    rw [listedConfig]
    intro position member
    rw [sift.list, List.mem_filter] at member
    have going : (s.config.blocks position).claimingCounts ≠ 3 ∧
        (s.config.blocks position).state = .claiming := by
      simpa [member.1, Claim.going] using member.2
    rw [sift.blocks, if_pos member.1, sifted, if_neg fun full => going.1 full.2]
    exact going.2
  obtain ⟨full, second, fullConfig, fullMirrored⟩ := claim_fresh_loop env
    ((s.config.claimingBlocks.foldl (claimListed cfg env) (s.config, numBlocks)).2 -
      listed.config.claimingBlocksAmount.toNat).toNat enough listedMirrored busy
  have claimed : sendInquire cfg env full.config = blockClaim cfg env numBlocks s.config := by
    rw [fullConfig, listedConfig]
    rfl
  obtain ⟨started, inquiry, done⟩ :=
    block_claim_claimed cfg env numBlocks s.config good.listed.once good.listed.amount few
  have size : full.config.claimingBlocks.length < fuel := by
    rw [← (send_inquire_list cfg env full.config).1, claimed]
    exact short _ (claimed_good good done)
  obtain ⟨after, third, afterConfig, mirrored⟩ :=
    send_inquire_linked cfg env fullMirrored size
  refine ⟨after, ?_, afterConfig.trans claimed, mirrored⟩
  simp only [blockClaimLinked, first, Option.bind_eq_bind, Option.bind_some, second, third]

/-! House keeping and whole runs over the links. -/

theorem agrees_some {t : LinkedConfig} (mirrored : Mirrored t) : Agrees (some t) (some t.config) where
  same := rfl
  mirrored _ done := Option.some.inj done ▸ mirrored

theorem agrees_none : Agrees none none where
  same := rfl
  mirrored _ done := by contradiction

/-- What leaves the list alone leaves the links alone. -/
theorem mirrored_same (mirrored : Mirrored s) (same : c.claimingBlocks = s.config.claimingBlocks) :
    Mirrored { s with config := c } := by
  rw [Mirrored, same]
  exact mirrored

def unmarkLinked (cfg : Settings) (s : LinkedConfig) : LinkedConfig :=
  if s.config.needlessMarks ≠ 0 then { s with config := blockUnmarkNeedless cfg s.config } else s

theorem unmark_linked (cfg : Settings) (mirrored : Mirrored s) : (unmarkLinked cfg s).config = unmarked cfg s.config ∧
    Mirrored (unmarkLinked cfg s) := by
  unfold unmarkLinked unmarked
  split
  · exact ⟨rfl, mirrored_same mirrored rfl⟩
  · exact ⟨rfl, mirrored⟩

theorem adjust_linked (env : Env) (enough : cfg.blocks < fuel) (good : Good cfg s.config) (mirrored : Mirrored s) :
    Agrees (adjustBlocksLinked cfg env fuel s) (adjustBlocks cfg env s.config) := by
  unfold adjustBlocksLinked adjustBlocks
  cases spare : blockNumFreeLeases cfg s.config with
  | none => exact agrees_none
  | some spareLeases =>
      simp only [Option.bind_eq_bind, Option.bind_some]
      split
      · cases drop : blockDropUnused cfg env s.config with
        | none => exact agrees_none
        | some dropped =>
            have list := (drop_unused_good good.sound drop).2.list
            exact agrees_some (mirrored_same mirrored list)
      · obtain ⟨config, further⟩ := unmark_linked cfg mirrored
        change Agrees (if _ then blockClaimLinked cfg env fuel _ (unmarkLinked cfg s)
          else pure (unmarkLinked cfg s)) (pure (if _ then blockClaim cfg env _ (unmarked cfg s.config)
          else unmarked cfg s.config))
        split
        · have unmarkedGood : Good cfg (unmarkLinked cfg s).config := config ▸ unmarked_good good
          obtain ⟨t, done, same, mirrors⟩ := block_claim_linked env
            (blocks_needed_le cfg spareLeases) enough unmarkedGood further
          rw [done, ← config, ← same]
          exact agrees_some mirrors
        · rw [← config]
          exact agrees_some further

theorem house_keeping_linked (enough : cfg.blocks < fuel) (good : Good cfg s.config)
    (mirrored : Mirrored s) :
    Agrees (houseKeepingLinked cfg env fuel s) (houseKeeping cfg env s.config) := by
  unfold houseKeepingLinked houseKeeping
  cases check : blockCheckTimeouts cfg env.now s.config with
  | none => exact agrees_none
  | some checked =>
      obtain ⟨sound, quiet⟩ := check_timeouts_good good.sound check
      have checkedGood : Good cfg checked := ⟨sound, quiet_listed quiet good.listed⟩
      have adjusted := adjust_linked (s := { s with config := checked }) env enough
        checkedGood (mirrored_same mirrored quiet.list)
      simp only [Option.bind_eq_bind, Option.bind_some]
      rw [← adjusted.same]
      cases adjust : adjustBlocksLinked cfg env fuel { s with config := checked } with
      | none => exact agrees_none
      | some t =>
          have mirrors := adjusted.mirrored t adjust
          have tGood : Good cfg t.config :=
            adjust_good checkedGood (by rw [← adjusted.same, adjust]; rfl)
          have update : (blockUpdateClaims cfg env t.config).claimingBlocks = t.config.claimingBlocks :=
            (update_claims_quiet tGood.sound).list
          simp only [Option.bind_some, Option.map_some]
          cases timeouts : dhcpPacketListTimeout env.now (blockUpdateClaims cfg env t.config) with
          | none => exact agrees_none
          | some after =>
              obtain rfl := packet_timeout_result timeouts
              exact agrees_some (mirrored_same mirrors update)

theorem handle_linked (env : Env) (event : Event) (enough : cfg.blocks < fuel) (good : Good cfg s.config)
    (mirrored : Mirrored s) :
    Agrees (handleLinked cfg fuel env event s) (handle cfg env event s.config) := by
  by_cases house : event = .houseKeeping
  · subst house
    exact house_keeping_linked enough good mirrored
  · have plain : handleLinked cfg fuel env event s =
        (handle cfg env event s.config).map fun after => { s with config := after } := by
      cases event <;> first | rfl | contradiction
    rw [plain]
    cases done : handle cfg env event s.config with
    | none => exact agrees_none
    | some after =>
        have list := (received_good good.sound house done).2.list
        exact agrees_some (mirrored_same mirrored list)

theorem run_linked_agrees {labels : List (Env × Event)} {s : LinkedNode} (enough : cfg.blocks < fuel)
    (good : Good cfg s.linked.config) (mirrored : Mirrored s.linked) :
    (runLinked cfg fuel s labels).map LinkedNode.node = runEvents cfg s.node labels ∧
      ∀ after, runLinked cfg fuel s labels = some after → Mirrored after.linked := by
  induction labels generalizing s with
  | nil => exact ⟨rfl, fun after done => Option.some.inj done ▸ mirrored⟩
  | cons label rest ih =>
      obtain ⟨env, event⟩ := label
      have handled := handle_linked env event enough good mirrored
      simp only [runLinked, runEvents, LinkedNode.node]
      by_cases later : s.clock ≤ env.now
      · simp only [later, ↓reduceIte]
        rw [← handled.same]
        cases next : handleLinked cfg fuel env event s.linked with
        | none => exact ⟨rfl, fun _ done => by contradiction⟩
        | some t =>
            have plain : handle cfg env event s.linked.config = some t.config := by
              rw [← handled.same, next]
              rfl
            have further : Good cfg t.config := step_good good (.event env event later plain)
            exact ih (s := ⟨env.now, t⟩) further (handled.mirrored t next)
      · simp [later]

end Claiming

/-- A run over the links goes through the states of the model's run and faults where that does; the
ring of `claim_list` fields lists the blocks being claimed all along. The links of the blocks may
hold anything at first. -/
theorem claiming_ring_refines {cfg : Settings} {fuel : Nat} (enough : cfg.blocks < fuel) (now : Time)
    (options : List DhcpOption) (claimLinks tmpLinks : Links Slot) (labels : List (Env × Event)) :
    let start : LinkedNode :=
      ⟨now, startConfig cfg now options, initListHead listHead claimLinks, tmpLinks⟩
    (runLinked cfg fuel start labels).map LinkedNode.node =
        runEvents cfg ⟨now, startConfig cfg now options⟩ labels ∧
      ∀ after, runLinked cfg fuel start labels = some after →
        Ring after.linked.claimLinks listHead (after.linked.config.claimingBlocks.map some) :=
  run_linked_agrees enough (start_good cfg now options) (ring_init listHead claimLinks)

def unlinked : Links Slot := ⟨fun _ => none, fun _ => none⟩

theorem claiming_ring_refines_small : ∃ after,
    runLinked (smallNode 1) 2 ⟨1000, startConfig (smallNode 1) 1000 [],
      initListHead listHead unlinked, unlinked⟩ ownedRun = some after ∧
      Ring after.linked.claimLinks listHead (after.linked.config.claimingBlocks.map some) := by
  obtain ⟨same, mirrored⟩ := claiming_ring_refines (by decide : (smallNode 1).blocks < 2) 1000 []
    unlinked unlinked ownedRun
  have runs : (runEvents (smallNode 1) ⟨1000, startConfig (smallNode 1) 1000 []⟩ ownedRun).isSome := by
    decide +kernel
  rw [← same, Option.isSome_map] at runs
  obtain ⟨after, done⟩ := Option.isSome_iff_exists.mp runs
  exact ⟨after, done, mirrored after done⟩

end Ddhcpd.ClaimLinks

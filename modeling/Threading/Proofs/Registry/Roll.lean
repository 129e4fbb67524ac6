import Threading.Proofs.Registry
import Threading.ThreadGroup

/-!
# The registry and its roll

Control blocks come to be, are written to, are put into the registry and taken out of it, in
any order. The roll says what is to be expected: it lists blocks newest first, takes a block
that it does not list and gives up one that it does. After every call the registry answers as
the roll does, however its blocks are linked.
-/
namespace Threading.Registry

variable {α : Type} {r : Registry α} {i : BlockId}

/-- All control blocks by their positions, and which of them are listed, newest first. -/
structure Roll (α : Type) where
  blocks : List α := []
  listed : List BlockId := []

/-- What can happen to a registry and to the blocks. -/
inductive Call (α : Type) where
  /-- A block comes to be; it is not listed. -/
  | allocate (block : α)
  | write (i : BlockId) (f : α → α)
  | insert (i : BlockId)
  | remove (i : BlockId)

namespace Call

def perform : Call α → Registry α → Bool × Registry α
  | allocate b, r => (true, (r.allocate b).2)
  | write i f, r => (true, r.modify i f)
  | insert i, r => r.insert i
  | remove i, r => r.remove i

/-- The call on the roll. -/
def enter : Call α → Roll α → Bool × Roll α
  | allocate b, s => (true, { s with blocks := s.blocks ++ [b] })
  | write i f, s => (true, { s with blocks := s.blocks.modify i f })
  | insert i, s =>
    if i ∈ s.listed then (false, s) else (true, { s with listed := i :: s.listed })
  | remove i, s =>
    if i ∈ s.listed then (true, { s with listed := s.listed.erase i }) else (false, s)

/-- A block that is put in exists. -/
def Suits (s : Roll α) : Call α → Prop
  | insert i => i < s.blocks.length
  | _ => True

instance (s : Roll α) : DecidablePred (Suits s)
  | insert i => inferInstanceAs (Decidable (i < s.blocks.length))
  | allocate _ | write .. | remove _ => isTrue trivial

end Call

/-- A registry and its roll after the same calls. -/
inductive Run : Registry α → Roll α → Prop
  | start : Run empty {}
  | call {r : Registry α} {s : Roll α} (c : Call α) : Run r s → c.Suits s →
      Run (c.perform r).2 (c.enter s).2

variable {s : Roll α} {c : Call α}

/-- The registry holds the blocks of the roll and lists what the roll lists. -/
structure Keeps (r : Registry α) (s : Roll α) : Prop where
  lists : r.Lists s.listed
  size : r.cells.size = s.blocks.length
  block? : ∀ i, r.block? i = s.blocks[i]?

theorem keeps_empty : (empty : Registry α).Keeps {} where
  lists := lists_empty
  size := rfl
  block? := fun i => by simp [Registry.block?, empty]

theorem Keeps.allocate (h : r.Keeps s) (b : α) :
    (r.allocate b).2.Keeps { s with blocks := s.blocks ++ [b] } where
  lists := h.lists.allocate b
  size := by rw [size_allocate, h.size, List.length_append, List.length_singleton]
  block? := by
    intro i
    rw [block?_allocate, h.size]
    split
    next hi => rw [hi, List.getElem?_concat_length]
    next hi =>
      rw [h.block?]
      rcases Nat.lt_or_gt_of_ne hi with hlt | hgt
      · rw [List.getElem?_append_left hlt]
      · rw [List.getElem?_eq_none (Nat.le_of_lt hgt), List.getElem?_eq_none]
        rw [List.length_append]
        exact hgt

theorem Keeps.write (h : r.Keeps s) (i : BlockId) (f : α → α) :
    (r.modify i f).Keeps { s with blocks := s.blocks.modify i f } where
  lists := h.lists.modify i f
  size := by rw [size_modify, h.size, List.length_modify]
  block? := by
    intro j
    rw [block?_modify, h.block?, List.getElem?_modify]
    by_cases hj : i = j
    · simp [hj]
    · simp [hj, Ne.symm hj]

theorem Keeps.insert (h : r.Keeps s) (hi : i < s.blocks.length) (hnew : i ∉ s.listed) :
    (r.insert i).2.Keeps { s with listed := i :: s.listed } where
  lists := h.lists.insert (h.size ▸ hi) hnew
  size := (size_insert r i).trans h.size
  block? := fun j => (block?_insert _ _ j).trans (h.block? j)

theorem Keeps.remove (h : r.Keeps s) (hi : i ∈ s.listed) :
    (r.remove i).2.Keeps { s with listed := s.listed.erase i } where
  lists := h.lists.remove hi
  size := (size_remove r i).trans h.size
  block? := fun j => (block?_remove _ _ j).trans (h.block? j)

/-- Registry and roll give the same answer to a call and stay together. -/
theorem Keeps.perform (h : r.Keeps s) (hc : c.Suits s) :
    (c.perform r).1 = (c.enter s).1 ∧ (c.perform r).2.Keeps (c.enter s).2 := by
  cases c with
  | allocate b => exact ⟨rfl, h.allocate b⟩
  | write i f => exact ⟨rfl, h.write i f⟩
  | insert i =>
    rw [Call.perform, Call.enter]
    by_cases hi : i ∈ s.listed
    · rw [if_pos hi, h.lists.insert_of_mem hi]
      exact ⟨rfl, h⟩
    · rw [if_neg hi]
      exact ⟨h.lists.fst_insert (h.size ▸ hc) hi, h.insert hc hi⟩
  | remove i =>
    rw [Call.perform, Call.enter]
    by_cases hi : i ∈ s.listed
    · rw [if_pos hi]
      exact ⟨h.lists.fst_remove hi, h.remove hi⟩
    · rw [if_neg hi, h.lists.remove_of_notMem hi]
      exact ⟨rfl, h⟩

theorem Run.keeps (h : Run r s) : r.Keeps s := by
  induction h with
  | start => exact keeps_empty
  | call c _ hc ih => exact (ih.perform hc).2

/-! ## What the registry tells -/

theorem Keeps.lt (h : r.Keeps s) (hi : i ∈ s.listed) : i < s.blocks.length :=
  h.size ▸ h.lists.lt hi

variable [ControlBlock α]

/-- Nothing is passed over if every element has a value. -/
theorem map_some_filterMap {β γ : Type} {f : β → Option γ} {l : List β}
    (h : ∀ a ∈ l, (f a).isSome) : (l.filterMap f).map some = l.map f := by
  induction l with
  | nil => rfl
  | cons a l ih =>
    obtain ⟨b, hb⟩ := Option.isSome_iff_exists.1 (h a List.mem_cons_self)
    rw [List.filterMap_cons_some hb, List.map_cons, List.map_cons, hb,
      ih fun c hc => h c (List.mem_cons_of_mem a hc)]

theorem Keeps.tids_eq (h : r.Keeps s) :
    r.tids.map some = s.listed.map fun i => s.blocks[i]?.map ControlBlock.tid := by
  rw [tids, h.lists.blocks_eq, funext h.block?, List.map_filterMap]
  refine map_some_filterMap fun i hi => ?_
  rw [Option.isSome_map, List.getElem?_eq_getElem (h.lt hi)]
  rfl

theorem Keeps.findByTid?_eq (h : r.Keeps s) (t : Tid) : r.findByTid? t =
    if t = 0 then none else s.listed.find? fun i => s.blocks[i]?.map ControlBlock.tid = some t := by
  rw [findByTid?, h.lists.find?_eq_find?, funext h.block?]
  split
  next ht =>
    rw [List.find?_eq_none]
    intro i _
    cases s.blocks[i]? <;> simp [ht]
  next ht =>
    refine congrArg (s.listed.find? ·) (funext fun i => ?_)
    cases s.blocks[i]? <;> simp [ht]

theorem Keeps.findByTls?_eq (h : r.Keeps s) (address : UInt64) : r.findByTls? address =
    if address = 0 then none
    else s.listed.find? fun i => s.blocks[i]?.map ControlBlock.tls = some address := by
  rw [findByTls?, h.lists.find?_eq_find?, funext h.block?]
  refine if_congr Iff.rfl rfl (congrArg (s.listed.find? ·) (funext fun i => ?_))
  cases s.blocks[i]? <;> simp

/-- The registry answers the next call as the roll does. Its lookups go through the blocks that
the roll lists: they give the ids of these blocks, newest first, their number, the blocks
themselves, and the newest one with an id or a local storage, which is never 0. No block is
listed twice, and a block that was taken out can be put in again. -/
theorem Run.behaves_as_roll (h : Run r s) :
    (∀ c : Call α, c.Suits s → (c.perform r).1 = (c.enter s).1) ∧
      (r.tids.map some = s.listed.map fun i => s.blocks[i]?.map ControlBlock.tid) ∧
      r.length = s.listed.length ∧
      (∀ i, r.contains i = true ↔ i ∈ s.listed) ∧
      (∀ i, r.get? i = if i ∈ s.listed then s.blocks[i]? else none) ∧
      (∀ t, r.findByTid? t = if t = 0 then none
        else s.listed.find? fun i => s.blocks[i]?.map ControlBlock.tid = some t) ∧
      (∀ address, r.findByTls? address = if address = 0 then none
        else s.listed.find? fun i => s.blocks[i]?.map ControlBlock.tls = some address) ∧
      s.listed.Nodup ∧
      ∀ i, i ∈ s.listed → ((r.remove i).2.insert i).1 = true := by
  have hkeeps := h.keeps
  refine ⟨fun c hc => (hkeeps.perform hc).1, hkeeps.tids_eq, hkeeps.lists.length, fun i => ?_,
    fun i => ?_, hkeeps.findByTid?_eq, hkeeps.findByTls?_eq, hkeeps.lists.nodup, fun i hi => ?_⟩
  · rw [contains, hkeeps.lists.ids_eq, List.contains_iff_mem]
  · rw [hkeeps.lists.get?_eq, hkeeps.block?]
  · have hout : i ∉ s.listed.erase i := hkeeps.lists.nodup.not_mem_erase
    exact ((hkeeps.remove hi).perform (c := .insert i) (hkeeps.lt hi)).1.trans (by
      rw [Call.enter, if_neg hout])

theorem behaves_as_roll_reinserted :
    ∃ (r : Registry Control) (s : Roll Control), Run r s ∧ s.listed = [1, 2, 0] ∧
      r.tids = [11, 12, 0] ∧
      (∀ c : Call Control, c.Suits s → (c.perform r).1 = (c.enter s).1) ∧
      (r.tids.map some = s.listed.map fun i => s.blocks[i]?.map ControlBlock.tid) ∧
      r.length = s.listed.length ∧
      (∀ i, r.contains i = true ↔ i ∈ s.listed) ∧
      (∀ i, r.get? i = if i ∈ s.listed then s.blocks[i]? else none) ∧
      (∀ t, r.findByTid? t = if t = 0 then none
        else s.listed.find? fun i => s.blocks[i]?.map ControlBlock.tid = some t) ∧
      (∀ address, r.findByTls? address = if address = 0 then none
        else s.listed.find? fun i => s.blocks[i]?.map ControlBlock.tls = some address) ∧
      s.listed.Nodup ∧
      ∀ i, i ∈ s.listed → ((r.remove i).2.insert i).1 = true := by
  -- of three listed blocks the middle one is taken out and put in again, and one thread ends
  have hmade := ((Run.start.call (.allocate (ThreadGroup.mainControl 10)) trivial).call
    (.allocate (ThreadGroup.mainControl 11)) trivial).call
      (.allocate (ThreadGroup.mainControl 12)) trivial
  have hlisted := ((hmade.call (.insert 0) (by decide)).call (.insert 1) (by decide)).call
    (.insert 2) (by decide)
  have hagain := ((hlisted.call (.remove 1) trivial).call
    (.write 0 fun c => { c with tid := 0 }) trivial).call (.insert 1) (by decide)
  exact ⟨_, _, hagain, by decide, by decide, hagain.behaves_as_roll⟩

end Threading.Registry

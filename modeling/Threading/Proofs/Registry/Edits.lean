import Threading.Proofs.Registry

/-!
# A registry without some of its blocks

A call on a registered block writes to it or takes it out. A registry that lacks some blocks
stays in step with the one that has them: calls on other blocks do the same to both, and calls
on the blocks that it lacks do nothing to it.
-/
namespace Threading.Registry

variable {α : Type} {r r' : Registry α} {i j : BlockId} {l gone : List BlockId}

/-! ## Edits -/

/-- What a call does to one block. -/
inductive Edit (α : Type) where
  | keep
  | write (f : α → α)
  /-- The block is written to and taken out. -/
  | takeOut (f : α → α)

namespace Edit

def apply : Edit α → Registry α → BlockId → Registry α
  | keep, r, _ => r
  | write f, r, i => r.modify i f
  | takeOut f, r, i => ((r.modify i f).remove i).2

/-- What is registered of the block afterwards. -/
def block? : Edit α → Option α → Option α
  | keep, o => o
  | write f, o => o.map f
  | takeOut _, _ => none

/-- The registered blocks afterwards. -/
def ids : Edit α → BlockId → List BlockId → List BlockId
  | takeOut _, i, l => l.erase i
  | _, _, l => l

theorem size_apply (e : Edit α) (r : Registry α) (i : BlockId) :
    (e.apply r i).cells.size = r.cells.size := by
  cases e with
  | keep => rfl
  | write f => exact size_modify r i f
  | takeOut f => exact (size_remove _ i).trans (size_modify r i f)

/-- Only the block that the call is about goes. -/
theorem filter_ids (e : Edit α) (p : BlockId → Bool) (i : BlockId) (l : List BlockId) :
    (e.ids i l).filter p = if p i then e.ids i (l.filter p) else l.filter p := by
  cases e with
  | takeOut f =>
    simp only [ids]
    rw [← List.erase_filter]
    split
    next => rfl
    next hi => exact List.erase_of_not_mem fun hmem => hi (List.of_mem_filter hmem)
  | _ => exact (ite_self _).symm

end Edit

theorem Lists.edit (h : r.Lists l) (e : Edit α) (i : BlockId) :
    (e.apply r i).Lists (e.ids i l) := by
  cases e with
  | keep => exact h
  | write f => exact h.modify i f
  | takeOut f =>
    by_cases hi : i ∈ l
    · exact (h.modify i f).remove hi
    · rw [Edit.apply, (h.modify i f).remove_of_notMem hi, Edit.ids, List.erase_of_not_mem hi]
      exact h.modify i f

theorem Lists.get?_edit (h : r.Lists l) (e : Edit α) (i j : BlockId) :
    (e.apply r i).get? j = if j = i then e.block? (r.get? i) else r.get? j := by
  cases e with
  | keep =>
    split
    next hj => rw [hj]; rfl
    next => rfl
  | write f =>
    rw [Edit.apply, h.get?_modify]
    split
    next hj => rw [hj]; rfl
    next => rfl
  | takeOut f =>
    by_cases hi : i ∈ l
    · rw [Edit.apply, (h.modify i f).get?_remove hi, h.get?_modify]
      split <;> rfl
    · rw [Edit.apply, (h.modify i f).remove_of_notMem hi, h.get?_modify]
      split
      next hj =>
        subst hj
        rw [h.get?_eq, if_neg hi]
        rfl
      next => rfl

/-! ## Leaving blocks out -/

/-- The second registry is the first one without these blocks. -/
structure Omits (gone : List BlockId) (r r' : Registry α) : Prop where
  size : r'.cells.size = r.cells.size
  lists : ∃ l, r.Lists l ∧ r'.Lists (l.filter (· ∉ gone))
  get? : ∀ i ∉ gone, r'.get? i = r.get? i
  lt : ∀ i ∈ gone, i < r.cells.size

theorem omits_nil (h : r.Lists l) : Omits [] r r where
  size := rfl
  lists := ⟨l, h, by simpa using h⟩
  get? _ _ := rfl
  lt _ hi := absurd hi List.not_mem_nil

namespace Omits

theorem get?_of_mem (h : Omits gone r r') (hi : i ∈ gone) : r'.get? i = none := by
  obtain ⟨l, -, hl'⟩ := h.lists
  rw [hl'.get?_eq, if_neg (by simp [hi])]

theorem size_notMem (h : Omits gone r r') : r.cells.size ∉ gone :=
  fun hmem => Nat.lt_irrefl _ (h.lt _ hmem)

/-- If none of the blocks is registered, the registries list the same ones. -/
theorem lists_of_get?_eq_none (h : Omits gone r r') (hgone : ∀ i ∈ gone, r.get? i = none) :
    ∃ l, r'.Lists l ∧ r.Lists l := by
  obtain ⟨l, hl, hl'⟩ := h.lists
  have hall : l.filter (· ∉ gone) = l := by
    refine List.filter_eq_self.2 fun i hi => ?_
    obtain ⟨c, hget⟩ := hl.exists_of_mem hi
    have hnot : i ∉ gone := fun hmem => by simp [hgone i hmem] at hget
    simpa using hnot
  exact ⟨l, hall ▸ hl', hl⟩

/-- Both get the same new block. -/
theorem add (h : Omits gone r r') (b : α) : Omits gone (r.add b) (r'.add b) := by
  obtain ⟨l, hl, hl'⟩ := h.lists
  constructor
  case size => rw [size_add, size_add, h.size]
  case lists =>
    refine ⟨_, hl.add b, ?_⟩
    rw [List.filter_cons_of_pos (by simpa using h.size_notMem), ← h.size]
    exact hl'.add b
  case get? =>
    intro i hi
    rw [hl'.get?_add, hl.get?_add, h.size, h.get? i hi]
  case lt =>
    intro i hi
    rw [size_add]
    exact Nat.lt_succ_of_lt (h.lt i hi)

/-- Both get a new block, and it does not stay in the second one. -/
theorem add_gone (h : Omits gone r r') (b : α) :
    Omits (r.cells.size :: gone) (r.add b) ((r'.add b).remove r.cells.size).2 := by
  obtain ⟨l, hl, hl'⟩ := h.lists
  have hmem : r.cells.size ∈ r'.cells.size :: l.filter (· ∉ gone) := by
    rw [h.size]
    exact List.mem_cons_self
  constructor
  case size => rw [size_remove, size_add, size_add, h.size]
  case lists =>
    refine ⟨_, hl.add b, ?_⟩
    have hlists := (hl'.add b).remove hmem
    have hother : l.filter (· ∉ r.cells.size :: gone) = l.filter (· ∉ gone) := by
      refine List.filter_congr fun i hi => ?_
      have hne : i ≠ r.cells.size := Nat.ne_of_lt (hl.lt hi)
      simp [hne]
    rw [h.size, List.erase_cons_head] at hlists
    rwa [List.filter_cons_of_neg (by simp), hother]
  case get? =>
    intro i hi
    rw [List.mem_cons, not_or] at hi
    rw [(hl'.add b).get?_remove hmem, if_neg hi.1, hl'.get?_add, h.size, if_neg hi.1, hl.get?_add,
      if_neg hi.1, h.get? i hi.2]
  case lt =>
    intro i hi
    rw [size_add]
    obtain rfl | hi := List.mem_cons.1 hi
    · exact Nat.lt_succ_self _
    · exact Nat.lt_succ_of_lt (h.lt i hi)

/-- A call on a block that both have. -/
theorem edit (h : Omits gone r r') (hi : i ∉ gone) (e : Edit α) :
    Omits gone (e.apply r i) (e.apply r' i) := by
  obtain ⟨l, hl, hl'⟩ := h.lists
  constructor
  case size => rw [e.size_apply, e.size_apply, h.size]
  case lists =>
    refine ⟨_, hl.edit e i, ?_⟩
    rw [e.filter_ids, if_pos (by simpa using hi)]
    exact hl'.edit e i
  case get? =>
    intro j hj
    rw [hl'.get?_edit, hl.get?_edit, h.get? i hi, h.get? j hj]
  case lt =>
    intro j hj
    rw [e.size_apply]
    exact h.lt j hj

/-- A call on a block that only the first one has. -/
theorem edit_gone (h : Omits gone r r') (hi : i ∈ gone) (e : Edit α) :
    Omits gone (e.apply r i) r' := by
  obtain ⟨l, hl, hl'⟩ := h.lists
  constructor
  case size => rw [e.size_apply, h.size]
  case lists =>
    refine ⟨_, hl.edit e i, ?_⟩
    rwa [e.filter_ids, if_neg (by simpa using hi)]
  case get? =>
    intro j hj
    have hne : j ≠ i := fun heq => hj (heq ▸ hi)
    rw [hl.get?_edit, if_neg hne, h.get? j hj]
  case lt =>
    intro j hj
    rw [e.size_apply]
    exact h.lt j hj

end Omits
end Threading.Registry

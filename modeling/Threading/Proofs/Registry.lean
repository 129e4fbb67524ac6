import Mathlib.Data.List.Perm.Subperm
import Threading.Proofs.Chain
import Threading.Registry

/-!
# The registry as a list

The links and flags in the control blocks make up one list, newest first. A new block goes
to its front, a block is taken out wherever it stands, and a write to a block leaves the
list alone, so a lookup finds exactly the listed blocks.
-/
namespace Threading.Registry

variable {α : Type} {r r' : Registry α} {i j : BlockId} {l : List BlockId} {b : α} {f : α → α}
variable {place : Option BlockId}

/-- The block at a position, listed or not. -/
def block? (r : Registry α) (i : BlockId) : Option α := r.cells[i]?.map (·.block)

def links (r : Registry α) : Links where
  below
    | none => r.newest
    | some i => r.cells[i]?.bind (·.older)
  above i := r.cells[i]?.bind (·.newer)

/-- The registry lists these blocks, in this order. -/
structure Lists (r : Registry α) (l : List BlockId) : Prop where
  chain : r.links.Chain none l
  listed : ∀ i, i ∈ l ↔ ∃ c, r.cells[i]? = some c ∧ c.listed = true
  length : r.length = l.length

theorem lists_empty : (empty : Registry α).Lists [] :=
  ⟨rfl, fun i => by simp [empty], rfl⟩

/-! ## Lookups -/

theorem walk_eq {n : Nat} (h : r.links.Chain place l) (hn : l.length ≤ n) :
    r.walk n (r.links.below place) = l := by
  induction l generalizing place n with
  | nil =>
    rw [h.below_eq]
    cases n <;> rfl
  | cons i l ih =>
    obtain ⟨n, rfl⟩ := Nat.exists_eq_succ_of_ne_zero (Nat.ne_zero_of_lt hn)
    rw [h.1, walk]
    exact congrArg (i :: ·) (ih h.2.2 (Nat.le_of_succ_le_succ hn))

/-- Only listed blocks are read. -/
theorem mem_ids_of_get? (hi : r.get? i = some b) : i ∈ r.ids := by
  rw [get?] at hi
  split at hi
  next hcontains => exact List.contains_iff_mem.1 hcontains
  next => cases hi

namespace Lists

theorem lt (h : r.Lists l) (hi : i ∈ l) : i < r.cells.size := by
  obtain ⟨c, hc, -⟩ := (h.listed i).1 hi
  exact (Array.getElem?_eq_some_iff.1 hc).1

theorem nodup (h : r.Lists l) : l.Nodup := h.chain.nodup

theorem ids_eq (h : r.Lists l) : r.ids = l := by
  have hsub : l ⊆ List.range r.cells.size := fun i hi => List.mem_range.2 (h.lt hi)
  have hle := (List.subperm_of_subset h.nodup hsub).length_le
  rw [List.length_range] at hle
  exact walk_eq h.chain hle

theorem get?_eq (h : r.Lists l) (i : BlockId) :
    r.get? i = if i ∈ l then r.block? i else none := by
  simp only [get?, contains, h.ids_eq, List.contains_iff_mem]
  rfl

theorem get?_eq_some_iff (h : r.Lists l) : r.get? i = some b ↔ i ∈ l ∧ r.block? i = some b := by
  rw [h.get?_eq]
  split <;> simp [*]

theorem exists_of_mem (h : r.Lists l) (hi : i ∈ l) : ∃ b, r.get? i = some b := by
  obtain ⟨c, hc, -⟩ := (h.listed i).1 hi
  exact ⟨c.block, h.get?_eq_some_iff.2 ⟨hi, by rw [block?, hc, Option.map_some]⟩⟩

theorem lt_of_get? (h : r.Lists l) (hi : r.get? i = some b) : i < r.cells.size :=
  h.lt (h.get?_eq_some_iff.1 hi).1

theorem get?_eq_none (h : r.Lists l) (hi : r.cells.size ≤ i) : r.get? i = none := by
  rw [h.get?_eq, if_neg fun hil => Nat.not_lt.2 hi (h.lt hil)]

theorem blocks_eq (h : r.Lists l) : r.blocks = l.filterMap r.block? := by
  rw [blocks, h.ids_eq]
  rfl

/-- A search goes through the listed blocks, newest first. -/
theorem find?_eq_find? [ControlBlock α] (h : r.Lists l) (p : α → Bool) :
    r.find? p = l.find? fun i => (r.block? i).any p := by
  rw [find?, h.ids_eq]
  refine congrArg (l.find? ·) (funext fun i => ?_)
  rw [block?]
  cases r.cells[i]? <;> rfl

/-- A search that only one listed block satisfies finds it. -/
theorem find?_eq [ControlBlock α] (h : r.Lists l) {p : α → Bool} (hi : r.get? i = some b)
    (hb : p b = true) (hunique : ∀ j c, r.get? j = some c → p c = true → j = i) :
    r.find? p = some i := by
  have hfound (j : BlockId) (hj : j ∈ l) : (r.cells[j]?.map fun c => p c.block).getD false = true ↔
      j = i := by
    obtain ⟨c, hc, -⟩ := (h.listed j).1 hj
    have hget : r.get? j = some c.block :=
      h.get?_eq_some_iff.2 ⟨hj, by rw [block?, hc, Option.map_some]⟩
    rw [hc, Option.map_some, Option.getD_some]
    constructor
    · exact hunique j c.block hget
    · rintro rfl
      rwa [Option.some.inj (hget.symm.trans hi)]
  have hil := (h.get?_eq_some_iff.1 hi).1
  rw [find?, h.ids_eq]
  have hsome : (l.find? fun j => (r.cells[j]?.map fun c => p c.block).getD false).isSome := by
    rw [List.find?_isSome]
    exact ⟨i, hil, (hfound i hil).2 rfl⟩
  obtain ⟨j, hj⟩ := Option.isSome_iff_exists.1 hsome
  have hpj : (r.cells[j]?.map fun c => p c.block).getD false = true := by
    simpa only using List.find?_some hj
  rw [hj, (hfound j (List.mem_of_find?_eq_some hj)).1 hpj]

end Lists

/-! ## Writing to a block -/

theorem getElem?_modifyCell (r : Registry α) (i j : BlockId) (f : Cell α → Cell α) :
    (r.modifyCell i f).cells[j]? = r.cells[j]?.map fun c => if j = i then f c else c := by
  rw [modifyCell, Array.getElem?_modify]
  by_cases hj : i = j
  · simp [hj]
  · simp [hj, Ne.symm hj]

theorem getElem?_modify (r : Registry α) (i j : BlockId) (f : α → α) :
    (r.modify i f).cells[j]? =
      r.cells[j]?.map fun c => if j = i then { c with block := f c.block } else c :=
  getElem?_modifyCell r i j _

theorem block?_modify (r : Registry α) (i j : BlockId) (f : α → α) :
    (r.modify i f).block? j = if j = i then (r.block? j).map f else r.block? j := by
  rw [block?, getElem?_modify, Option.map_map]
  by_cases hj : j = i <;> simp [hj, block?, Function.comp_def]

theorem size_modify (r : Registry α) (i : BlockId) (f : α → α) :
    (r.modify i f).cells.size = r.cells.size :=
  Array.size_modify

theorem walk_modify (r : Registry α) (i : BlockId) (f : α → α) (n : Nat) (start : Option BlockId) :
    (r.modify i f).walk n start = r.walk n start := by
  induction n generalizing start with
  | zero => rfl
  | succ n ih =>
    cases start with
    | none => rfl
    | some j =>
      have hlink : (r.modify i f).cells[j]?.bind Cell.older = r.cells[j]?.bind Cell.older := by
        rw [getElem?_modify, Option.bind_map]
        refine Option.bind_congr fun c _ => ?_
        by_cases hj : j = i <;> simp [hj]
      rw [walk, walk, hlink, ih]

theorem ids_modify (r : Registry α) (i : BlockId) (f : α → α) : (r.modify i f).ids = r.ids := by
  rw [ids, walk_modify, size_modify]
  rfl

theorem get?_modify_self (hi : r.get? i = some b) (f : α → α) :
    (r.modify i f).get? i = some (f b) := by
  rw [get?, contains] at hi ⊢
  split at hi
  next hmem =>
    have hblock : r.block? i = some b := hi
    rw [ids_modify, if_pos hmem]
    change (r.modify i f).block? i = _
    rw [block?_modify, if_pos rfl, hblock]
    rfl
  next => cases hi

/-- A write that a search does not see leaves its result alone. -/
theorem find?_modify [ControlBlock α] (r : Registry α) (i : BlockId) {p : α → Bool}
    (hf : ∀ b, p (f b) = p b) : (r.modify i f).find? p = r.find? p := by
  rw [find?, find?, ids_modify]
  refine congrArg (r.ids.find? ·) (funext fun j => ?_)
  rw [getElem?_modify, Option.map_map]
  by_cases hj : j = i <;> simp [hj, Function.comp_def, hf]

theorem modify_id (r : Registry α) (i : BlockId) : r.modify i id = r := by
  have hcells : (r.modify i id).cells = r.cells := by
    refine Array.ext_getElem? fun j => ?_
    rw [getElem?_modify]
    simp
  calc r.modify i id = ⟨(r.modify i id).cells, r.newest, r.length⟩ := rfl
    _ = r := by rw [hcells]

theorem Lists.modify (h : r.Lists l) (i : BlockId) (f : α → α) : (r.modify i f).Lists l := by
  refine ⟨h.chain.congr rfl (fun j _ => ?_) fun j _ => ?_, fun j => ?_, h.length⟩
  · change ((r.modify i f).cells[j]?).bind _ = (r.cells[j]?).bind _
    rw [getElem?_modify, Option.bind_map]
    refine Option.bind_congr fun c _ => ?_
    by_cases hj : j = i <;> simp [hj]
  · change ((r.modify i f).cells[j]?).bind _ = (r.cells[j]?).bind _
    rw [getElem?_modify, Option.bind_map]
    refine Option.bind_congr fun c _ => ?_
    by_cases hj : j = i <;> simp [hj]
  · rw [h.listed, getElem?_modify]
    by_cases hj : j = i <;> simp [hj]

theorem Lists.get?_modify (h : r.Lists l) (i j : BlockId) (f : α → α) :
    (r.modify i f).get? j = if j = i then (r.get? j).map f else r.get? j := by
  rw [(h.modify i f).get?_eq, h.get?_eq, block?_modify]
  split <;> split <;> rfl

/-- Writes to the cell a link leads to, if it leads to one. -/
def modifyAt (r : Registry α) (i? : Option BlockId) (f : Cell α → Cell α) : Registry α :=
  i?.elim r (r.modifyCell · f)

theorem getElem?_modifyAt (r : Registry α) (i? : Option BlockId) (j : BlockId)
    (f : Cell α → Cell α) :
    (r.modifyAt i? f).cells[j]? = r.cells[j]?.map fun c => if i? = some j then f c else c := by
  cases i? with
  | none => simp [modifyAt]
  | some i =>
    rw [modifyAt, Option.elim_some, getElem?_modifyCell]
    simp only [Option.some.injEq, eq_comm]

/-! ## Putting a block in front -/

theorem insert_eq {c : Cell α} (hc : r.cells[i]? = some c) (hlisted : c.listed = false) :
    r.insert i = (true, { ((r.modifyCell i
        ({ · with newer := none, older := r.newest, listed := true })).modifyAt r.newest
          ({ · with newer := some i })) with
      newest := some i
      length := r.length + 1 }) := by
  rw [insert, hc]
  simp only [hlisted, Bool.false_eq_true, if_false]
  cases r.newest <;> rfl

theorem size_insert (r : Registry α) (i : BlockId) :
    (r.insert i).2.cells.size = r.cells.size := by
  cases hc : r.cells[i]? with
  | none => simp [insert, hc]
  | some c =>
    cases hlisted : c.listed with
    | true => simp [insert, hc, hlisted]
    | false =>
      rw [insert_eq hc hlisted]
      cases r.newest <;> simp [modifyAt, modifyCell]

/-- A listed block is refused. -/
theorem Lists.insert_of_mem (h : r.Lists l) (hi : i ∈ l) : r.insert i = (false, r) := by
  obtain ⟨c, hc, hlisted⟩ := (h.listed i).1 hi
  simp [insert, hc, hlisted]

theorem Lists.insert_of_notMem (h : r.Lists l) (hi : i < r.cells.size) (hnew : i ∉ l) :
    r.insert i = (true, { ((r.modifyCell i
        ({ · with newer := none, older := r.newest, listed := true })).modifyAt r.newest
          ({ · with newer := some i })) with
      newest := some i
      length := r.length + 1 }) := by
  have hc := Array.getElem?_eq_getElem hi
  refine insert_eq hc ?_
  rw [← Bool.not_eq_true]
  exact fun hlisted => hnew ((h.listed i).2 ⟨_, hc, hlisted⟩)

theorem Lists.fst_insert (h : r.Lists l) (hi : i < r.cells.size) (hnew : i ∉ l) :
    (r.insert i).1 = true := by
  rw [h.insert_of_notMem hi hnew]

/-- The block gets its links, and the old front a link to it. -/
theorem Lists.getElem?_insert (h : r.Lists l) (hi : i < r.cells.size) (hnew : i ∉ l)
    (j : BlockId) : (r.insert i).2.cells[j]? = r.cells[j]?.map fun c =>
      if j = i then { c with newer := none, older := r.newest, listed := true }
      else if r.newest = some j then { c with newer := some i } else c := by
  have hhead : r.newest ≠ some i := fun heq =>
    hnew (List.mem_of_head? (h.chain.below_eq.symm.trans heq))
  rw [h.insert_of_notMem hi hnew, getElem?_modifyAt, getElem?_modifyCell, Option.map_map]
  refine Option.map_congr fun c _ => ?_
  by_cases hj : j = i
  · simp [hj, hhead]
  · simp [hj]

/-- Putting a block in front writes to no block. -/
theorem block?_insert (r : Registry α) (i j : BlockId) :
    (r.insert i).2.block? j = r.block? j := by
  cases hc : r.cells[i]? with
  | none => simp [insert, hc]
  | some c =>
    cases hlisted : c.listed with
    | true => simp [insert, hc, hlisted]
    | false =>
      rw [insert_eq hc hlisted, block?, getElem?_modifyAt, getElem?_modifyCell, Option.map_map,
        Option.map_map, block?]
      exact Option.map_congr fun d _ => by
        simp only [Function.comp_apply, apply_ite Cell.block, ite_self]

theorem Lists.insert (h : r.Lists l) (hi : i < r.cells.size) (hnew : i ∉ l) :
    (r.insert i).2.Lists (i :: l) := by
  have hhead : r.newest = l.head? := h.chain.below_eq
  have hcell : r.cells[i]? = some r.cells[i] := Array.getElem?_eq_getElem hi
  refine ⟨h.chain.push hnew (by rw [h.insert_of_notMem hi hnew]; rfl) (fun j => ?_) fun j => ?_,
    fun j => ?_, ?_⟩
  · change ((r.insert i).2.cells[j]?).bind _ = if _ then r.newest else r.cells[j]?.bind _
    rw [h.getElem?_insert hi hnew]
    split
    next hj => simp [hj, hcell]
    next =>
      rw [Option.bind_map]
      refine Option.bind_congr fun c _ => ?_
      by_cases hc : r.newest = some j <;> simp [hc]
  · change ((r.insert i).2.cells[j]?).bind _ =
      if r.newest = some j then _ else if _ then none else r.cells[j]?.bind _
    rw [h.getElem?_insert hi hnew]
    by_cases hj : j = i
    · have hno : r.newest ≠ some i := fun heq => hnew (List.mem_of_head? (hhead.symm.trans heq))
      simp [hj, hcell, hno]
    · by_cases hc : r.newest = some j
      · obtain ⟨c, hlinked, -⟩ := (h.listed j).1 (List.mem_of_head? (hhead.symm.trans hc))
        simp [hj, hc, hlinked]
      · simp [hj, hc]
  · rw [List.mem_cons, h.listed, h.getElem?_insert hi hnew]
    by_cases hj : j = i
    · simp [hj, hcell]
    · by_cases hc : r.newest = some j <;> simp [hj, hc]
  · rw [h.insert_of_notMem hi hnew, List.length_cons, ← h.length]

/-! ## A new block -/

theorem getElem?_allocate (r : Registry α) (b : α) (j : BlockId) : (r.allocate b).2.cells[j]? =
    if j = r.cells.size then some { block := b } else r.cells[j]? :=
  Array.getElem?_push

theorem size_allocate (r : Registry α) (b : α) :
    (r.allocate b).2.cells.size = r.cells.size + 1 :=
  Array.size_push _

theorem lt_size_allocate (r : Registry α) (b : α) : r.cells.size < (r.allocate b).2.cells.size :=
  Nat.lt_of_lt_of_eq (Nat.lt_succ_self _) (size_allocate r b).symm

theorem block?_allocate (r : Registry α) (b : α) (j : BlockId) :
    (r.allocate b).2.block? j = if j = r.cells.size then some b else r.block? j := by
  rw [block?, getElem?_allocate]
  split <;> rfl

theorem Lists.size_notMem (h : r.Lists l) : r.cells.size ∉ l :=
  fun hmem => Nat.lt_irrefl _ (h.lt hmem)

/-- A block that is not put in front is not listed. -/
theorem Lists.allocate (h : r.Lists l) (b : α) : (r.allocate b).2.Lists l := by
  have hold (j : BlockId) (hj : j ∈ l) : (r.allocate b).2.cells[j]? = r.cells[j]? := by
    rw [getElem?_allocate, if_neg (Nat.ne_of_lt (h.lt hj))]
  refine ⟨h.chain.congr rfl (fun j hj => ?_) fun j hj => ?_, fun j => ?_, h.length⟩
  · exact congrArg (Option.bind · Cell.older) (hold j hj)
  · exact congrArg (Option.bind · Cell.newer) (hold j hj)
  · rw [getElem?_allocate]
    by_cases hj : j = r.cells.size
    · simp [hj, h.size_notMem]
    · rw [if_neg hj, h.listed]

/-- The registry with a new block at the front. -/
def add (r : Registry α) (b : α) : Registry α := ((r.allocate b).2.insert (r.allocate b).1).2

theorem add_eq (r : Registry α) (b : α) :
    r.add b = ((r.allocate b).2.insert r.cells.size).2 := rfl

theorem size_add (r : Registry α) (b : α) : (r.add b).cells.size = r.cells.size + 1 :=
  (size_insert _ _).trans (size_allocate r b)

theorem Lists.add (h : r.Lists l) (b : α) : (r.add b).Lists (r.cells.size :: l) :=
  (h.allocate b).insert (lt_size_allocate r b) h.size_notMem

theorem block?_add (r : Registry α) (b : α) (j : BlockId) :
    (r.add b).block? j = if j = r.cells.size then some b else r.block? j :=
  (block?_insert _ _ j).trans (block?_allocate r b j)

theorem Lists.get?_add (h : r.Lists l) (b : α) (j : BlockId) :
    (r.add b).get? j = if j = r.cells.size then some b else r.get? j := by
  rw [(h.add b).get?_eq, h.get?_eq, block?_add]
  by_cases hj : j = r.cells.size <;> simp [hj]

/-- A new block may as well be written to before it is listed. -/
theorem Lists.modify_add (h : r.Lists l) (b : α) (f : α → α) :
    (r.add b).modify r.cells.size f = r.add (f b) := by
  have hcells : ((r.add b).modify r.cells.size f).cells = (r.add (f b)).cells := by
    refine Array.ext_getElem? fun j => ?_
    rw [getElem?_modify, add_eq, add_eq, (h.allocate b).getElem?_insert (lt_size_allocate r b)
      h.size_notMem, (h.allocate (f b)).getElem?_insert (lt_size_allocate r (f b)) h.size_notMem,
      getElem?_allocate, getElem?_allocate]
    by_cases hj : j = r.cells.size
    · simp [hj, Registry.allocate]
    · simp only [hj, if_false, Option.map_id_fun', id]
      rfl
  have hadd (b : α) : r.add b = ⟨(r.add b).cells, some r.cells.size, r.length + 1⟩ := by
    rw [add_eq, (h.allocate b).insert_of_notMem (lt_size_allocate r b) h.size_notMem]
    rfl
  calc (r.add b).modify r.cells.size f
      = ⟨((r.add b).modify r.cells.size f).cells, (r.add b).newest, (r.add b).length⟩ := rfl
    _ = ⟨(r.add (f b)).cells, some r.cells.size, r.length + 1⟩ := by
        rw [hcells, hadd b]
    _ = r.add (f b) := (hadd (f b)).symm

/-! ## Taking a block out -/

theorem remove_eq {c : Cell α} (hc : r.cells[i]? = some c) (hlisted : c.listed = true) :
    (r.remove i).2 =
      { (((r.modifyAt c.newer ({ · with older := c.older })).modifyAt c.older
          ({ · with newer := c.newer })).modifyCell i
            ({ · with newer := none, older := none, listed := false })) with
        newest := if c.newer = none then c.older else r.newest
        length := r.length - 1 } := by
  obtain ⟨block, newer, older, listed⟩ := c
  obtain rfl : listed = true := hlisted
  rw [remove, hc]
  cases newer <;> cases older <;> simp [modifyAt, modifyCell]

theorem size_remove (r : Registry α) (i : BlockId) : (r.remove i).2.cells.size = r.cells.size := by
  cases hc : r.cells[i]? with
  | none => simp [remove, hc]
  | some c =>
    cases hlisted : c.listed with
    | false => simp [remove, hc, hlisted]
    | true =>
      rw [remove_eq hc hlisted]
      cases c.newer <;> cases c.older <;> simp [modifyAt, modifyCell]

/-- A block that is not listed is refused. -/
theorem Lists.remove_of_notMem (h : r.Lists l) (hi : i ∉ l) : r.remove i = (false, r) := by
  cases hc : r.cells[i]? with
  | none => simp [remove, hc]
  | some c =>
    cases hlisted : c.listed with
    | false => simp [remove, hc, hlisted]
    | true => exact absurd ((h.listed i).2 ⟨c, hc, hlisted⟩) hi

theorem Lists.fst_remove (h : r.Lists l) (hi : i ∈ l) : (r.remove i).1 = true := by
  obtain ⟨c, hc, hlisted⟩ := (h.listed i).1 hi
  simp [remove, hc, hlisted]

/-- The links of the block are cleared, and its neighbours are joined. -/
theorem Lists.getElem?_remove (h : r.Lists l) (hi : i ∈ l) (j : BlockId) :
    (r.remove i).2.cells[j]? = r.cells[j]?.map fun c =>
      if j = i then { c with newer := none, older := none, listed := false }
      else { c with
        older := if r.links.above i = some j then r.links.below (some i) else c.older
        newer := if r.links.below (some i) = some j then r.links.above i else c.newer } := by
  obtain ⟨c, hc, hlisted⟩ := (h.listed i).1 hi
  have habove : r.links.above i = c.newer := by simp [links, hc]
  have hbelow : r.links.below (some i) = c.older := by simp [links, hc]
  rw [remove_eq hc hlisted, habove, hbelow, getElem?_modifyCell, getElem?_modifyAt,
    getElem?_modifyAt, Option.map_map, Option.map_map]
  refine Option.map_congr fun d hd => ?_
  by_cases hj : j = i
  · by_cases hn : c.newer = some j <;> by_cases ho : c.older = some j <;> simp [hj, hn, ho] <;>
      simp_all
  · by_cases hn : c.newer = some j <;> by_cases ho : c.older = some j <;> simp [hj, hn, ho]

/-- Taking a block out writes to no block. -/
theorem block?_remove (r : Registry α) (i j : BlockId) :
    (r.remove i).2.block? j = r.block? j := by
  cases hc : r.cells[i]? with
  | none => simp [remove, hc]
  | some c =>
    cases hlisted : c.listed with
    | false => simp [remove, hc, hlisted]
    | true =>
      rw [remove_eq hc hlisted, block?, getElem?_modifyCell, getElem?_modifyAt, getElem?_modifyAt,
        Option.map_map, Option.map_map, Option.map_map, block?]
      exact Option.map_congr fun d _ => by
        simp only [Function.comp_apply, apply_ite Cell.block, ite_self]

theorem Lists.remove (h : r.Lists l) (hi : i ∈ l) : (r.remove i).2.Lists (l.erase i) := by
  obtain ⟨c, hc, hlisted⟩ := (h.listed i).1 hi
  obtain ⟨a, b, rfl⟩ := List.append_of_mem hi
  have hnot := List.nodup_cons.1 (List.nodup_middle.1 h.nodup)
  have herase : (a ++ i :: b).erase i = a ++ b := by
    rw [List.erase_append_right _ fun hmem => hnot.1 (List.mem_append_left b hmem),
      List.erase_cons_head]
  -- a link of `i` leads to a listed block, whose cell exists
  have hcell {j : BlockId} (hj : j ∈ a ∨ j ∈ b) : r.cells[j]? ≠ none := fun hnone => by
    obtain ⟨d, hd, -⟩ := (h.listed j).1 (by rcases hj with hj | hj <;> simp [hj])
    exact absurd (hnone.symm.trans hd) (by simp)
  rw [herase]
  refine ⟨h.chain.remove (by simp) (fun x hx => ?_) fun j hj => ?_, fun j => ?_, ?_⟩
  · cases x with
    | none =>
      change (r.remove i).2.newest = if _ then _ else r.newest
      rw [remove_eq hc hlisted]
      simp [links, hc]
    | some j =>
      have hj : j ≠ i := fun heq => hx (congrArg some heq)
      change ((r.remove i).2.cells[j]?).bind _ = if _ then _ else r.cells[j]?.bind _
      rw [h.getElem?_remove hi]
      cases hd : r.cells[j]? with
      | none =>
        rw [if_neg fun heq => hcell (.inl (h.chain.mem_of_above heq)) hd]
        rfl
      | some d => simp [hj]
  · change ((r.remove i).2.cells[j]?).bind _ = if _ then _ else r.cells[j]?.bind _
    rw [h.getElem?_remove hi]
    cases hd : r.cells[j]? with
    | none =>
      rw [if_neg fun heq => hcell (.inr (h.chain.mem_of_below heq)) hd]
      rfl
    | some d => simp [hj]
  · rw [h.getElem?_remove hi]
    by_cases hj : j = i
    · rw [hj]
      exact iff_of_false hnot.1 (by simp [hc])
    · have hmem : j ∈ a ++ b ↔ j ∈ a ++ i :: b := by simp [hj]
      rw [hmem, h.listed]
      simp [hj]
  · have hlength := h.length
    rw [remove_eq hc hlisted]
    simp only [List.length_append, List.length_cons] at hlength ⊢
    omega

theorem Lists.get?_remove (h : r.Lists l) (hi : i ∈ l) (j : BlockId) :
    (r.remove i).2.get? j = if j = i then none else r.get? j := by
  rw [(h.remove hi).get?_eq, h.get?_eq, block?_remove]
  by_cases hj : j = i <;> simp [h.nodup.mem_erase_iff, hj]

end Threading.Registry

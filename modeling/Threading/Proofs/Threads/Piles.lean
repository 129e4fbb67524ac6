import Mathlib.Data.List.Basic
import Mathlib.Data.List.Nodup
import Mathlib.Data.List.Perm.Subperm
import Mathlib.Data.List.TakeDrop
import Threading.Thread.Cleanup

/-!
# Piles of cleanup handlers

The links of the handlers' records lead from the top of a stack through records that are all
different, and then end or lead back to one of them. As a pop clears the link of the record that
it takes, a circle is opened by the pops: the record that it leads back to is taken once more,
and that is the last one. The pile is the row of the records that pops take. A push puts a
record on the pile and cuts the pile below the place where the record was already. Running the
handlers ends exactly if no record is in the pile twice.
-/
namespace Threading
namespace HandlerTable

variable {table table' : HandlerTable} {top stop : Option HandlerId} {h x : HandlerId}
variable {l a b pile : List HandlerId}

/-! ## What a push and a pop write -/

/-- The record that the link of a record leads to. -/
def below (table : HandlerTable) (h : HandlerId) : Option HandlerId := (table[h]?).bind (·.below)

theorem below_modify (table : HandlerTable) (h x : HandlerId) (link : Option HandlerId) :
    below (table.modify h ({ · with below := link })) x =
      if x = h then (table[x]?).bind fun _ => link else table.below x := by
  rw [below, Array.getElem?_modify]
  by_cases hx : h = x
  · rw [if_pos hx, if_pos hx.symm, Option.bind_map]
    rfl
  · rw [if_neg hx, if_neg (Ne.symm hx)]
    rfl

theorem below_push (hh : h < table.size) (top : Option HandlerId) (x : HandlerId) :
    (table.push top h).below x = if x = h then top else table.below x := by
  refine (below_modify table h x top).trans ?_
  split
  next hx => rw [hx, Array.getElem?_eq_getElem hh, Option.bind_some]
  next => rfl

theorem below_pop (table : HandlerTable) (h x : HandlerId) :
    (table.pop h).2.below x = if x = h then none else table.below x := by
  rw [pop, below_modify]
  simp only [Option.bind_fun_none]

theorem below_push_of_ne (hh : h < table.size) (top : Option HandlerId) (hx : x ≠ h) :
    (table.push top h).below x = table.below x :=
  (below_push hh top x).trans (if_neg hx)

theorem below_pop_of_ne (table : HandlerTable) (hx : x ≠ h) :
    (table.pop h).2.below x = table.below x :=
  (below_pop table h x).trans (if_neg hx)

theorem routine?_modify (table : HandlerTable) (h : HandlerId) (link : Option HandlerId) :
    routine? (table.modify h ({ · with below := link })) = table.routine? := by
  funext x
  rw [routine?, routine?, Array.getElem?_modify]
  split
  · rw [Option.map_map]
    rfl
  · rfl

@[simp] theorem routine?_push (table : HandlerTable) (top : Option HandlerId) (h : HandlerId) :
    (table.push top h).routine? = table.routine? :=
  routine?_modify table h top

@[simp] theorem routine?_pop (table : HandlerTable) (h : HandlerId) :
    (table.pop h).2.routine? = table.routine? :=
  routine?_modify table h none

@[simp] theorem size_push (table : HandlerTable) (top : Option HandlerId) (h : HandlerId) :
    (table.push top h).size = table.size :=
  Array.size_modify

@[simp] theorem size_pop (table : HandlerTable) (h : HandlerId) :
    (table.pop h).2.size = table.size :=
  Array.size_modify

/-! ## Paths -/

/-- The links lead from `top` through the records of the list to `stop`. -/
def Leads (table : HandlerTable) :
    (top : Option HandlerId) → List HandlerId → (stop : Option HandlerId) → Prop
  | top, [], stop => top = stop
  | top, h :: l, stop => top = some h ∧ Leads table (table.below h) l stop

theorem leads_append : table.Leads top (a ++ b) stop ↔
    ∃ mid, table.Leads top a mid ∧ table.Leads mid b stop := by
  induction a generalizing top with
  | nil => simp [Leads]
  | cons h a ih => simp only [List.cons_append, Leads, ih, and_assoc, exists_and_left]

/-- A path is the same after a write to a record that is not on it. -/
theorem Leads.off (hl : table.Leads top l stop) (hnot : h ∉ l)
    (hsame : ∀ x, x ≠ h → table'.below x = table.below x) : table'.Leads top l stop := by
  induction l generalizing top with
  | nil => exact hl
  | cons x l ih =>
    rw [List.mem_cons, not_or] at hnot
    refine ⟨hl.1, ?_⟩
    rw [hsame x (Ne.symm hnot.1)]
    exact ih hl.2 hnot.2

/-- A path that leads back into itself goes on from each of its records. -/
theorem Leads.below_mem (hl : table.Leads top l (some x)) (hx : x ∈ l) (hh : h ∈ l) :
    ∃ y ∈ l, table.below h = some y := by
  obtain ⟨a, b, rfl⟩ := List.append_of_mem hh
  obtain ⟨mid, -, -, hb⟩ := leads_append.1 hl
  cases b with
  | nil => exact ⟨x, hx, hb⟩
  | cons y b => exact ⟨y, by simp, hb.1⟩

/-- A path with an end is walked to its end. -/
theorem Leads.walk?_eq (hl : table.Leads top l none) {n : Nat} (hn : l.length ≤ n) :
    table.walk? n top = some l := by
  induction l generalizing top n with
  | nil =>
    obtain rfl : top = none := hl
    cases n <;> rfl
  | cons h l ih =>
    obtain ⟨n, rfl⟩ := Nat.exists_eq_succ_of_ne_zero (Nat.ne_zero_of_lt hn)
    obtain ⟨rfl, hl⟩ := hl
    rw [walk?]
    exact congrArg (Option.map (h :: ·)) (ih hl (Nat.le_of_succ_le_succ hn))

/-- A walk that only meets records that lead on has no end. -/
theorem walk?_eq_none (hon : ∀ h ∈ l, ∃ y ∈ l, table.below h = some y) (hh : h ∈ l) (n : Nat) :
    table.walk? n (some h) = none := by
  induction n generalizing h with
  | zero => rfl
  | succ n ih =>
    obtain ⟨y, hy, hbelow⟩ := hon h hh
    change (table.walk? n (table.below h)).map _ = none
    rw [hbelow, ih hy]
    rfl

/-! ## Piles -/

/-- From `top` the links lead through these records, which are all different, and then end or
lead back to one of them. -/
structure Winds (table : HandlerTable) (top : Option HandlerId) (l : List HandlerId)
    (stop : Option HandlerId) : Prop where
  leads : table.Leads top l stop
  nodup : l.Nodup
  lt : ∀ h ∈ l, h < table.size
  back : ∀ h, stop = some h → h ∈ l

theorem Winds.push_new (hw : table.Winds top l stop) (hh : h < table.size) (hnew : h ∉ l) :
    (table.push top h).Winds (some h) (h :: l) stop where
  leads := by
    refine ⟨rfl, ?_⟩
    rw [below_push hh, if_pos rfl]
    exact hw.leads.off hnew fun x => below_push_of_ne hh top
  nodup := List.nodup_cons.2 ⟨hnew, hw.nodup⟩
  lt := by
    rw [size_push, List.forall_mem_cons]
    exact ⟨hh, hw.lt⟩
  back x hx := List.mem_cons_of_mem h (hw.back x hx)

/-- A record that is on the stack gets a link to the top: a circle. -/
theorem Winds.push_again (hw : table.Winds top (a ++ h :: b) stop) :
    (table.push top h).Winds (some h) (h :: a) (some h) := by
  have hh : h < table.size := hw.lt h (by simp)
  obtain ⟨hnot, hnodup⟩ := List.nodup_cons.1 (List.nodup_middle.1 hw.nodup)
  have ha : h ∉ a := fun hmem => hnot (List.mem_append_left b hmem)
  obtain ⟨mid, hleads, hmid, -⟩ := leads_append.1 hw.leads
  constructor
  case leads =>
    refine ⟨rfl, ?_⟩
    rw [below_push hh, if_pos rfl, ← hmid]
    exact hleads.off ha fun x => below_push_of_ne hh top
  case nodup => exact List.nodup_cons.2 ⟨ha, (List.nodup_append.1 hnodup).1⟩
  case lt =>
    rw [size_push, List.forall_mem_cons]
    exact ⟨hh, fun x hx => hw.lt x (List.mem_append_left _ hx)⟩
  case back =>
    rintro x ⟨⟩
    exact List.mem_cons_self

theorem Winds.pop (hw : table.Winds top (h :: l) stop) (hstop : stop ≠ some h) :
    (table.pop h).2.Winds (table.pop h).1 l stop := by
  obtain ⟨hnot, hnodup⟩ := List.nodup_cons.1 hw.nodup
  constructor
  case leads => exact hw.leads.2.off hnot fun x => below_pop_of_ne table
  case nodup => exact hnodup
  case lt =>
    rw [size_pop]
    exact fun x hx => hw.lt x (List.mem_cons_of_mem h hx)
  case back =>
    intro x hx
    refine (List.mem_cons.1 (hw.back x hx)).resolve_left fun heq => hstop ?_
    rw [hx, heq]

/-- The circle is opened at the record that is taken. -/
theorem Winds.pop_circle (hw : table.Winds top (h :: l) (some h)) :
    (table.pop h).2.Winds (table.pop h).1 (l ++ [h]) none := by
  obtain ⟨hnot, hnodup⟩ := List.nodup_cons.1 hw.nodup
  constructor
  case leads =>
    refine leads_append.2 ⟨some h, hw.leads.2.off hnot fun x => below_pop_of_ne table, rfl, ?_⟩
    rw [below_pop, if_pos rfl]
    rfl
  case nodup => exact List.nodup_append_comm.1 hw.nodup
  case lt =>
    rw [size_pop]
    intro x hx
    refine hw.lt x ?_
    rwa [List.mem_append, List.mem_singleton, or_comm, ← List.mem_cons] at hx
  case back =>
    rintro x ⟨⟩

/-- The records that pops take, in order: those on the path, and the one it leads back to. -/
def Pile (table : HandlerTable) (top : Option HandlerId) (pile : List HandlerId) : Prop :=
  ∃ l stop, table.Winds top l stop ∧ pile = l ++ stop.toList

theorem pile_none (table : HandlerTable) : table.Pile none [] :=
  ⟨[], none, ⟨rfl, List.nodup_nil, by simp, by simp⟩, rfl⟩

theorem Pile.head? (hp : table.Pile top pile) : top = pile.head? := by
  obtain ⟨l, stop, hw, rfl⟩ := hp
  cases l with
  | nil =>
    cases stop with
    | none => exact hw.leads
    | some h => exact absurd (hw.back h rfl) List.not_mem_nil
  | cons h l => exact hw.leads.1

theorem Pile.lt (hp : table.Pile top pile) (hh : h ∈ pile) : h < table.size := by
  obtain ⟨l, stop, hw, rfl⟩ := hp
  rcases List.mem_append.1 hh with hh | hh
  · exact hw.lt h hh
  · exact hw.lt h (hw.back h (Option.mem_toList.1 hh))

/-- The pile with a record put on it and cut below the place where the record was. -/
def restack (h : HandlerId) (pile : List HandlerId) : List HandlerId :=
  h :: pile.take (pile.idxOf h + 1)

theorem restack_of_notMem (hh : h ∉ pile) : restack h pile = h :: pile := by
  rw [restack, List.idxOf_eq_length hh, List.take_of_length_le (Nat.le_succ _)]

theorem restack_append (ha : h ∉ a) : restack h (a ++ h :: b) = h :: (a ++ [h]) := by
  rw [restack, List.idxOf_append_of_notMem ha, List.idxOf_cons_self, Nat.add_zero,
    List.take_length_add_append, List.take_succ_cons, List.take_zero]

/-- The pile is cut except if the record is new or at the bottom. -/
theorem restack_eq_cons_iff : restack h pile = h :: pile ↔ h ∉ pile.dropLast := by
  rw [restack, List.cons.injEq, and_iff_right rfl, List.take_eq_self_iff]
  by_cases hh : h ∈ pile
  · rw [List.mem_dropLast_iff_idxOf_lt hh]
    omega
  · rw [List.idxOf_eq_length hh]
    exact iff_of_true (Nat.le_succ _) fun hmem => hh (List.dropLast_subset _ hmem)

theorem length_restack_le (h : HandlerId) (pile : List HandlerId) :
    (restack h pile).length ≤ pile.length + 1 :=
  Nat.succ_le_succ (List.length_take_le' _ _)

theorem length_restack_lt (hcut : h ∈ pile.dropLast) :
    (restack h pile).length < pile.length + 1 := by
  apply Nat.lt_of_le_of_ne (length_restack_le h pile)
  intro hlen
  refine restack_eq_cons_iff.1 (congrArg (h :: ·) (List.take_of_length_le ?_)) hcut
  rw [restack, List.length_cons, List.length_take] at hlen
  omega

theorem Pile.push (hp : table.Pile top pile) (hh : h < table.size) :
    (table.push top h).Pile (some h) (restack h pile) := by
  obtain ⟨l, stop, hw, rfl⟩ := hp
  by_cases hl : h ∈ l
  · obtain ⟨a, b, rfl⟩ := List.append_of_mem hl
    have ha : h ∉ a := fun hmem =>
      (List.nodup_cons.1 (List.nodup_middle.1 hw.nodup)).1 (List.mem_append_left b hmem)
    refine ⟨h :: a, some h, hw.push_again, ?_⟩
    rw [List.append_assoc, List.cons_append, restack_append ha]
    rfl
  · have hstop : h ∉ stop.toList := fun hmem => hl (hw.back h (Option.mem_toList.1 hmem))
    refine ⟨h :: l, stop, hw.push_new hh hl, ?_⟩
    rw [restack_of_notMem (by simp [hl, hstop])]
    rfl

theorem Pile.pop (hp : table.Pile top (h :: pile)) :
    (table.pop h).2.Pile (table.pop h).1 pile := by
  obtain ⟨l, stop, hw, hpile⟩ := hp
  cases l with
  | nil =>
    cases stop with
    | none => exact absurd hpile (by simp)
    | some x => exact absurd (hw.back x rfl) List.not_mem_nil
  | cons x l =>
    obtain ⟨rfl, rfl⟩ := List.cons.inj hpile
    by_cases hstop : stop = some h
    · subst hstop
      exact ⟨l ++ [h], none, hw.pop_circle, by simp⟩
    · exact ⟨l, stop, hw.pop hstop, rfl⟩

/-- If no record is in the pile twice, the handlers run in the order of the pile. -/
theorem Pile.runAll?_eq (hp : table.Pile top pile) (hnodup : pile.Nodup) :
    table.runAll? top = some (pile.filterMap table.routine?) := by
  have hlt := fun h hh => hp.lt (h := h) hh
  obtain ⟨l, stop, hw, rfl⟩ := hp
  cases stop with
  | some x => exact absurd hnodup (by simp [List.nodup_append, hw.back x rfl])
  | none =>
    have hlen := (List.subperm_of_subset hw.nodup fun h hh => List.mem_range.2 (hw.lt h hh)).length_le
    rw [List.length_range] at hlen
    rw [runAll?, hw.leads.walk?_eq hlen, Option.toList_none, List.append_nil]
    rfl

/-- If a record is in the pile twice, running the handlers has no end. -/
theorem Pile.walk?_eq_none (hp : table.Pile top pile) (hdup : ¬ pile.Nodup) (n : Nat) :
    table.walk? n top = none := by
  have htop := hp.head?
  obtain ⟨l, stop, hw, rfl⟩ := hp
  cases stop with
  | none => exact absurd hw.nodup (by simpa using hdup)
  | some x =>
    have hx := hw.back x rfl
    cases l with
    | nil => exact absurd hx List.not_mem_nil
    | cons h l =>
      rw [htop]
      exact HandlerTable.walk?_eq_none (fun y hy => hw.leads.below_mem hx hy) List.mem_cons_self n

end HandlerTable
end Threading

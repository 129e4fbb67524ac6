import Threading.Proofs.LockOrder.Ledger
import Threading.Proofs.LockOrder.Stacks

/-!
# Stacks and ledgers

In a disciplined run the nodes of a thread's stack, with their counts, are its ledger: an
acquisition, a release and an exit do to the stack what they do to the ledger, and leave
the nodes of other threads alone. While no count overflows, the counts are the numbers
of acquisitions that wait to be balanced.
-/
namespace Threading.LockOrder
namespace Graph

variable {g g' : Graph} {e : Event} {outcome? : Option Outcome} {m : UInt64} {t t' : Tid}
variable {stack : Option CallStack} {capture : Bool} {i j : NodeId} {l a b : List NodeId}

/-- What a node says of the lock it stands for. -/
def entry (g : Graph) (i : NodeId) : Holding UInt32 := ⟨(g.node i).mutex, (g.node i).count⟩

@[simp] theorem mutex_entry (g : Graph) (i : NodeId) : (g.entry i).mutex = (g.node i).mutex := rfl

@[simp] theorem extra_entry (g : Graph) (i : NodeId) : (g.entry i).extra = (g.node i).count := rfl

theorem mutexes_map_entry (g : Graph) (l : List NodeId) :
    Ledger.mutexes (l.map g.entry) = l.map fun i => (g.node i).mutex := by
  simp [Ledger.mutexes]

/-! ## One stack as a ledger -/

/-- A node of a stack is that of its mutex. -/
theorem Stack.mutex_eq_iff (h : g.Stack t l) (hg : g.WellFormed) (hj : j ∈ l) :
    (g.node j).mutex = m ↔ j = (g.internNode m).1 := by
  have hlt := h.lt hg.inRange j hj
  constructor
  · intro hm
    rw [internNode, hg.indexed.findNode?_eq_some_iff.2 ⟨hlt, hm⟩]
  · rintro rfl
    rw [← node_internNode_of_lt g m hlt]
    exact (hg.indexed.internNode_spec m).2

/-- What a stack says of a mutex. -/
theorem Stack.mem_entries (h : g.Stack t l) (hg : g.WellFormed) {c : UInt32} :
    ⟨m, c⟩ ∈ l.map g.entry ↔
      (g.internNode m).1 ∈ l ∧ (g.node (g.internNode m).1).count = c := by
  simp only [List.mem_map, entry, Holding.mk.injEq]
  constructor
  · rintro ⟨j, hj, hm, rfl⟩
    obtain rfl := (h.mutex_eq_iff hg hj).1 hm
    exact ⟨hj, rfl⟩
  · rintro ⟨hj, rfl⟩
    exact ⟨_, hj, (h.mutex_eq_iff hg hj).2 rfl, rfl⟩

theorem Stack.mem_mutexes (h : g.Stack t l) (hg : g.WellFormed) :
    m ∈ Ledger.mutexes (l.map g.entry) ↔ (g.internNode m).1 ∈ l := by
  rw [Ledger.mem_mutexes]
  constructor
  · rintro ⟨⟨_, c⟩, hmem, rfl⟩
    exact ((h.mem_entries hg).1 hmem).1
  · intro hj
    exact ⟨_, (h.mem_entries hg).2 ⟨hj, rfl⟩, rfl⟩

/-- Counting at one node recounts its mutex. -/
theorem Stack.entries_recount (h : g.Stack t l) (hg : g.WellFormed) (hgrow : g.Grows g')
    {f : UInt32 → UInt32} (hcount : ∀ j, (g'.node j).count =
      if j = (g.internNode m).1 then f (g.node j).count else (g.node j).count) :
    l.map g'.entry = Ledger.recount (l.map g.entry) m f := by
  rw [Ledger.recount, List.map_map]
  refine List.map_congr_left fun j hj => ?_
  have hmutex := hgrow.mutex j (h.lt hg.inRange j hj)
  by_cases hm : (g.node j).mutex = m
  · obtain rfl := (h.mutex_eq_iff hg hj).1 hm
    simp [entry, hmutex, hcount, hm]
  · have hne : j ≠ (g.internNode m).1 := fun heq => hm ((h.mutex_eq_iff hg hj).2 heq)
    simp [entry, hmutex, hcount, hm, hne]

/-- Taking a node out strikes its mutex out. -/
theorem Stack.entries_strike (h : g.Stack t (a ++ (g.internNode m).1 :: b)) (hg : g.WellFormed) :
    Ledger.strike ((a ++ (g.internNode m).1 :: b).map g.entry) m = (a ++ b).map g.entry := by
  have hnot := List.nodup_cons.1 (List.nodup_middle.1 h.nodup)
  have hkeep (k : List NodeId) (hk : k ⊆ a ++ b) : Ledger.strike (k.map g.entry) m = k.map g.entry := by
    refine List.filter_eq_self.2 fun x hx => ?_
    obtain ⟨j, hj, rfl⟩ := List.mem_map.1 hx
    have hmem : j ∈ a ++ (g.internNode m).1 :: b := by
      rcases List.mem_append.1 (hk hj) with hj | hj <;> simp [hj]
    rw [decide_eq_true_iff, mutex_entry, ne_eq, h.mutex_eq_iff hg hmem]
    rintro rfl
    exact hnot.1 (hk hj)
  have hdrop : (g.node (g.internNode m).1).mutex = m :=
    (h.mutex_eq_iff hg List.mem_append_cons_self).2 rfl
  have ha := hkeep a (List.subset_append_left a b)
  have hb := hkeep b (List.subset_append_right a b)
  rw [Ledger.strike] at ha hb ⊢
  rw [List.map_append, List.map_cons, List.filter_append, List.filter_cons_of_neg (by simp [hdrop]),
    ha, hb, List.map_append]

/-! ## One call -/

/-- A call does to the stack of its thread what it does to the ledger, leaves other stacks
alone, and leaves no count behind at a free node. -/
structure Settles (g g' : Graph) (e : Event) : Prop where
  own : ∀ l, g.Stack e.tid l →
    ∃ l', g'.Stack e.tid l' ∧ l'.map g'.entry = Ledger.settle (l.map g.entry) e
  others : ∀ t l, t ≠ e.tid → g.Stack t l → g'.Stack t l ∧ l.map g'.entry = l.map g.entry
  free : (∀ i, (g.node i).owner = 0 → (g.node i).count = 0) →
    ∀ i, (g'.node i).owner = 0 → (g'.node i).count = 0

/-- The nodes of a stack say the same as long as they keep their counts. -/
theorem Stack.entries_congr (h : g.Stack t l) (hg : g.WellFormed) (hgrow : g.Grows g')
    (hcount : ∀ j ∈ l, (g'.node j).count = (g.node j).count) : l.map g'.entry = l.map g.entry := by
  refine List.map_congr_left fun j hj => ?_
  rw [entry, hgrow.mutex j (h.lt hg.inRange j hj), hcount j hj]
  rfl

theorem Stacked.settles_onLock {outcome : Outcome} {report : Option Report} (hs : g.Stacked)
    (hg : g.WellFormed) (hd : g.Permits (.lock m t stack capture))
    (h : g.onLock m t stack capture = some (g', outcome, report)) :
    g.Settles g' (.lock m t stack capture) := by
  have hgrow := grows_onLock h
  obtain ⟨ht, hfree⟩ := hd
  have howner := owner_node_internNode g m
  cases hg.acquires h with
  | counted ho hk hsame hcount =>
    have hmem {k : List NodeId} (hk : g.Stack t k) : (g.internNode m).1 ∈ k :=
      (hk.mem_iff _).2 ⟨ht, howner.trans ho⟩
    refine ⟨fun k hkt => ⟨k, hkt.keep hk hsame, ?_⟩, fun t' k hne hkt => ⟨hkt.keep hk hsame, ?_⟩,
      fun hz j hj => ?_⟩
    · rw [hkt.entries_recount (f := (· + 1)) hg hgrow hcount]
      exact (Ledger.acquire_of_mem ((hkt.mem_mutexes hg).2 (hmem hkt))).symm
    · refine hkt.entries_congr hg hgrow fun j hj => ?_
      rw [hcount, if_neg]
      rintro rfl
      exact hne (((hkt.mem_iff _).1 hj).2.symm.trans (howner.trans ho))
    · rw [hsame] at hj
      rw [hcount, if_neg, hz j hj]
      rintro rfl
      exact ht (ho.symm.trans (howner.symm.trans hj))
  | pushed ho hp =>
    have hfree := hfree.resolve_right fun hholds => ho ((hs.holds_iff hg).1 hholds).2
    have hi : (g.node (g.internNode m).1).owner = 0 := by
      rw [howner, hs.ownerOf_eq_zero hg hfree]
    have hnot {t' : Tid} {k : List NodeId} (hk : g.Stack t' k) : (g.internNode m).1 ∉ k := fun hmem =>
      ((hk.mem_iff _).1 hmem).1 (((hk.mem_iff _).1 hmem).2.symm.trans hi)
    have hsame {t' : Tid} {k : List NodeId} (hk : g.Stack t' k) : k.map g'.entry = k.map g.entry :=
      hk.entries_congr hg hgrow fun j hj => by
        rw [hp.count, if_neg]
        rintro rfl
        exact hnot hk hj
    refine ⟨fun k hk => ⟨_, hk.push hp ht hi, ?_⟩, fun t' k hne hk => ?_, fun hz j hj => ?_⟩
    · have hnew : g'.entry (g.internNode m).1 = ⟨m, 0⟩ := by
        rw [entry, mutex_onLock hg.indexed h, hp.count, if_pos rfl]
      rw [List.map_cons, hnew, hsame hk]
      exact (Ledger.acquire_of_not_mem fun hmem => hnot hk ((hk.mem_mutexes hg).1 hmem)).symm
    · obtain ⟨own, hown⟩ := hs t
      exact ⟨hk.push_other hown hp hi hne, hsame hk⟩
    · rw [hp.count]
      split
      · rfl
      next hne =>
        rw [hp.owner, if_neg hne] at hj
        exact hz j hj

theorem Stacked.settles_onUnlock (hs : g.Stacked) (hg : g.WellFormed) (ht : t ≠ 0)
    (h : g.onUnlock m t = some g') : g.Settles g' (.unlock m t) := by
  have hgrow := grows_of_orderPart (orderPart_onUnlock h)
  have hnumber {i : NodeId} (hfind : g.findNode? m = some i) : (g.internNode m).1 = i := by
    rw [internNode, hfind]
  obtain ⟨own, hown⟩ := hs t
  cases hg.releases hown.leads h with
  | ignored ho heq =>
    subst heq
    refine ⟨fun k hk => ⟨k, hk, ?_⟩, fun t' k _ hk => ⟨hk, rfl⟩, fun hz => hz⟩
    have hnot : m ∉ Ledger.mutexes (k.map g'.entry) := by
      rw [hk.mem_mutexes hg]
      intro hmem
      have hlt := hk.lt hg.inRange _ hmem
      exact ho _ (hg.indexed.findNode?_eq_some_iff.2 ⟨hlt, (hk.mutex_eq_iff hg hmem).2 rfl⟩)
        ((hk.mem_iff _).1 hmem).2
    have hzero : ⟨m, 0⟩ ∉ k.map g'.entry := fun hmem =>
      hnot (Ledger.mem_mutexes.2 ⟨_, hmem, rfl⟩)
    exact ((Ledger.release_of_not_mem hzero).trans (Ledger.recount_of_not_mem hnot _)).symm
  | @counted i hfind ho hcount hk hsame hcounts =>
    obtain rfl := hnumber hfind
    refine ⟨fun k hkt => ⟨k, hkt.keep hk hsame, ?_⟩, fun t' k hne hkt => ⟨hkt.keep hk hsame, ?_⟩,
      fun hz j hj => ?_⟩
    · rw [hkt.entries_recount (f := (· - 1)) hg hgrow hcounts]
      exact (Ledger.release_of_not_mem fun hmem => hcount ((hkt.mem_entries hg).1 hmem).2).symm
    · refine hkt.entries_congr hg hgrow fun j hj => ?_
      rw [hcounts, if_neg]
      rintro rfl
      exact hne (((hkt.mem_iff _).1 hj).2.symm.trans ho)
    · rw [hsame] at hj
      rw [hcounts, if_neg, hz j hj]
      rintro rfl
      exact ht (ho.symm.trans hj)
  | lost _ ho _ hil _ => exact absurd ((hown.mem_iff _).2 ⟨ht, ho⟩) hil
  | @removed i hfind ho hcount hil hr =>
    obtain rfl := hnumber hfind
    refine ⟨fun k hk => ?_, fun t' k hne hk => ⟨hk.remove_other hown hr hil hne, ?_⟩, fun hz j hj => ?_⟩
    · have hmem := (hk.mem_iff _).2 ⟨ht, ho⟩
      have hzero := (hk.mem_entries hg).2 ⟨hmem, hcount⟩
      obtain ⟨a, b, rfl⟩ := List.append_of_mem hmem
      refine ⟨a ++ b, hk.remove hr, ?_⟩
      have hstrike := (Ledger.release_of_mem hzero).trans (hk.entries_strike hg)
      refine (List.map_congr_left fun j hj => ?_).trans hstrike.symm
      have hjk : j ∈ a ++ (g.internNode m).1 :: b := by
        rcases List.mem_append.1 hj with hj | hj <;> simp [hj]
      rw [entry, hgrow.mutex j (hk.lt hg.inRange j hjk), hr.count, if_neg]
      · rfl
      · rintro rfl
        exact (List.nodup_cons.1 (List.nodup_middle.1 hk.nodup)).1 hj
    · refine hk.entries_congr hg hgrow fun j hj => ?_
      rw [hr.count, if_neg]
      rintro rfl
      exact hne (((hk.mem_iff _).1 hj).2.symm.trans ho)
    · rw [hr.count]
      split
      · rfl
      next hne =>
        rw [hr.owner, if_neg hne] at hj
        exact hz j hj

/-- The exit of a thread frees the locks of its stack and no other lock. -/
theorem Stack.freeTops_frees {thread n : Nat} (h : g.Stack t l) (hg : g.WellFormed)
    (hthread : g.findThread? t = some thread) (hn : l.length ≤ n) (j : NodeId) :
    ((Graph.freeTops thread n g).node j).owner = (if j ∈ l then 0 else (g.node j).owner) ∧
      ((Graph.freeTops thread n g).node j).count = if j ∈ l then 0 else (g.node j).count := by
  induction l generalizing g n with
  | nil =>
    have htop : g.top thread = none := by
      have hnone : g.topOf t = none := h.linked
      rwa [topOf, hthread, Option.bind_some] at hnone
    rw [freeTops_of_top htop]
    exact ⟨rfl, rfl⟩
  | cons i l ih =>
    obtain ⟨n, rfl⟩ := Nat.exists_eq_succ_of_ne_zero (Nat.ne_zero_of_lt hn)
    obtain ⟨g₁, heq, hr, hg₁, hthread₁⟩ := h.freeTops_succ hg hthread n
    obtain ⟨howner, hcount⟩ := ih (h.remove (a := []) hr) hg₁ hthread₁ (Nat.le_of_succ_le_succ hn)
    rw [heq, howner, hcount, hr.owner, hr.count]
    by_cases hji : j = i <;> by_cases hjl : j ∈ l <;> simp [hji, hjl]

theorem Stack.forgetThread_frees (h : g.Stack t l) (hg : g.WellFormed) (j : NodeId) :
    ((g.forgetThread t).node j).owner = (if j ∈ l then 0 else (g.node j).owner) ∧
      ((g.forgetThread t).node j).count = if j ∈ l then 0 else (g.node j).count := by
  rw [Graph.forgetThread]
  split
  next hthread =>
    have hl := h.leads
    rw [topOf, hthread, Option.bind_none, leads_none] at hl
    simp [hl]
  next thread hthread =>
    exact h.freeTops_frees hg hthread
      (Nat.le_trans (h.length_le hg.inRange) (Nat.le_add_right _ 2)) j

theorem Stacked.settles_forgetThread (hs : g.Stacked) (hg : g.WellFormed) (t : Tid) :
    g.Settles (g.forgetThread t) (.forget t) := by
  have hgrow := grows_of_orderPart (orderPart_forgetThread g t)
  obtain ⟨own, hown⟩ := hs t
  have hfrees := hown.forgetThread_frees hg
  obtain ⟨hempty, hothers⟩ := hown.forgetThread hg
  refine ⟨fun k _ => ⟨[], hempty, rfl⟩, fun t' k hne hk => ⟨hothers t' k hne hk, ?_⟩,
    fun hz j hj => ?_⟩
  · refine hk.entries_congr hg hgrow fun j hj => ?_
    rw [(hfrees j).2, if_neg fun hmem => hown.disjoint hk hne hmem hj]
  · rw [(hfrees j).2]
    rw [(hfrees j).1] at hj
    split at hj
    next hmem => exact if_pos hmem
    next hmem => rw [if_neg hmem, hz j hj]

theorem Stacked.settles (hs : g.Stacked) (hg : g.WellFormed) (hd : g.Permits e)
    (h : g.handle? e = some (g', outcome?)) : g.Settles g' e := by
  cases e with
  | lock m t stack capture =>
    obtain ⟨outcome, report, -, hlock⟩ := handle?_lock_iff.1 h
    exact hs.settles_onLock hg hd hlock
  | unlock m t => exact hs.settles_onUnlock hg hd (handle?_unlock_iff.1 h).2
  | forget t =>
    rw [(handle?_forget_iff.1 h).2]
    exact hs.settles_forgetThread hg t

end Graph
end Threading.LockOrder

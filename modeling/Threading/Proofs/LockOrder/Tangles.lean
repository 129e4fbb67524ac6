import Threading.Proofs.LockOrder.Stacks

/-!
# Lists that run in a circle

Outside the discipline a lock can be in the lists of several threads, and its links
are shared. A list then runs in a circle after exactly two kinds of calls: an
acquisition that pushes a lock onto the list it is in already, and a release that
links the newer neighbour of a lock, taken from another list, down to a part of the
list in which that neighbour stands again.
-/
namespace Threading.LockOrder
namespace Graph

variable {g g' : Graph} {m : UInt64} {t t' : Tid} {stack : Option CallStack} {capture : Bool}
variable {outcome : Outcome} {report : Option Report} {start : Option NodeId} {i j n : NodeId}
variable {l l' k a b : List NodeId}

/-- The list of every thread has an end. -/
def Untangled (g : Graph) : Prop := ∀ t, ∃ held, g.held? t = some held

/-- The call would make a list run in a circle. -/
def Tangles (g : Graph) : Event → Prop
  | .lock m t _ _ => g.ownerOf m ≠ t ∧ g.Holds t m
  | .unlock m t => ∃ i n newer older, g.findNode? m = some i ∧ (g.node i).owner = t ∧
      (g.node i).count = 0 ∧ g.held? t = some (newer ++ i :: older) ∧
      (g.node i).newer = some n ∧ n ∈ older ∧
      ∃ t' held', g.held? t' = some held' ∧ n ∈ held' ∧ i ∉ held'
  | .forget _ => False

theorem untangled_iff (hg : g.InRange) : g.Untangled ↔ ∀ t, ∃ l, g.Leads (g.topOf t) l := by
  simp only [Untangled, hg.held?_eq_some_iff]

/-! ## One list under a change of links -/

/-- A list whose links are kept leads to where they lead now. -/
theorem Leads.of_redirect (h : g.Leads start (a ++ i :: b))
    (ha : ∀ j ∈ a, (g'.node j).older = (g.node j).older) (hk : g'.Leads start k) :
    ∃ k', k = a ++ i :: k' ∧ g'.Leads (g'.node i).older k' := by
  induction a generalizing start k with
  | nil =>
    cases k with
    | nil => exact absurd (h.1.symm.trans hk) (by simp)
    | cons j k =>
      obtain rfl : i = j := Option.some.inj (h.1.symm.trans hk.1)
      exact ⟨k, rfl, hk.2⟩
  | cons c a ih =>
    cases k with
    | nil => exact absurd (h.1.symm.trans hk) (by simp)
    | cons j k =>
      obtain rfl : c = j := Option.some.inj (h.1.symm.trans hk.1)
      have hk' := hk.2
      rw [ha c List.mem_cons_self] at hk'
      obtain ⟨k', rfl, hleads⟩ := ih h.2 (fun j hj => ha j (List.mem_cons_of_mem c hj)) hk'
      exact ⟨k', rfl, hleads⟩

/-- A link that leads back to its own lock leads to no end. -/
theorem not_leads_of_redirect (h : g.Leads start (a ++ i :: b))
    (ha : ∀ j ∈ a, (g'.node j).older = (g.node j).older) (hi : (g'.node i).older = start) :
    ¬ g'.Leads start k := by
  intro hk
  obtain ⟨k', rfl, hleads⟩ := h.of_redirect ha hk
  rw [hi] at hleads
  have hlen := congrArg List.length (hk.unique hleads)
  simp only [List.length_append, List.length_cons] at hlen
  omega

/-- A list has an end if every link of it is kept or leads to an end now. -/
theorem Leads.exists_end (h : g.Leads start l)
    (hl : ∀ j ∈ l, (g'.node j).older = (g.node j).older ∨ ∃ k, g'.Leads (g'.node j).older k) :
    ∃ l', g'.Leads start l' := by
  induction l generalizing start with
  | nil => exact ⟨[], h⟩
  | cons i l ih =>
    rcases hl i List.mem_cons_self with hi | ⟨k, hk⟩
    · obtain ⟨l', hl'⟩ := ih h.2 fun j hj => hl j (List.mem_cons_of_mem i hj)
      exact ⟨i :: l', h.1, hi ▸ hl'⟩
    · exact ⟨i :: k, h.1, hk⟩

theorem Leads.not_mem_above (h : g.Leads start (a ++ i :: b)) : i ∉ a ∧ i ∉ b := by
  have hnot := (List.nodup_cons.1 (List.nodup_middle.1 h.nodup)).1
  exact ⟨fun hi => hnot (List.mem_append_left b hi), fun hi => hnot (List.mem_append_right a hi)⟩

/-! ## A push -/

/-- A push leaves every list with an end exactly if the lock was not in the list yet. -/
theorem Pushes.leads_iff (hp : g.Pushes g' t i) (hall : ∀ t', ∃ l, g.Leads (g.topOf t') l)
    (hl : g.Leads (g.topOf t) l) : (∀ t', ∃ l', g'.Leads (g'.topOf t') l') ↔ i ∉ l := by
  have hkeep (j : NodeId) (hj : j ≠ i) : (g'.node j).older = (g.node j).older := by
    rw [hp.older, if_neg hj]
  have hi : (g'.node i).older = g.topOf t := by rw [hp.older, if_pos rfl]
  constructor
  · intro hall' hil
    obtain ⟨a, b, rfl⟩ := List.append_of_mem hil
    obtain ⟨k, hk⟩ := hall' t
    have htop : g'.topOf t = some i := by rw [hp.topOf, if_pos rfl]
    rw [htop] at hk
    cases k with
    | nil => exact absurd hk (by simp)
    | cons c k =>
      obtain rfl : i = c := Option.some.inj hk.1
      exact not_leads_of_redirect hl (fun j hj => hkeep j fun h => hl.not_mem_above.1 (h ▸ hj)) hi
        (hi ▸ hk.2)
  · intro hil t'
    have hrest : g'.Leads (g'.node i).older l := by
      rw [hi]
      exact hl.congr fun j hj => hkeep j fun h => hil (h ▸ hj)
    by_cases ht : t' = t
    · exact ⟨i :: l, by rw [hp.topOf, if_pos ht], hrest⟩
    · obtain ⟨l', hl'⟩ := hall t'
      rw [hp.topOf, if_neg ht]
      refine hl'.exists_end fun j _ => ?_
      by_cases hj : j = i
      · exact .inr ⟨l, hj ▸ hrest⟩
      · exact .inl (hkeep j hj)

/-! ## A removal -/

/-- Removing a lock without a newer neighbour leaves every list with an end. -/
theorem Removes.exists_leads_of_newest (hr : g.Removes g' t i) (hn : (g.node i).newer = none)
    (hall : ∀ t', ∃ l, g.Leads (g.topOf t') l) (hl : g.Leads (g.topOf t) (a ++ i :: b)) (t' : Tid) :
    ∃ l', g'.Leads (g'.topOf t') l' := by
  have hkeep (j : NodeId) (hj : j ≠ i) : (g'.node j).older = (g.node j).older := by
    rw [hr.older, if_neg hj, hn, if_neg (by simp)]
  have hend : (g'.node i).older = none := by rw [hr.older, if_pos rfl]
  rw [hr.topOf, hn]
  by_cases ht : t' = t
  · refine ⟨b, ?_⟩
    rw [if_pos ⟨rfl, ht⟩]
    exact hl.older.congr fun j hj => hkeep j fun h => hl.not_mem_above.2 (h ▸ hj)
  · obtain ⟨l', hl'⟩ := hall t'
    rw [if_neg fun h => ht h.2]
    refine hl'.exists_end fun j _ => ?_
    by_cases hj : j = i
    · exact .inr ⟨[], hj ▸ hend⟩
    · exact .inl (hkeep j hj)

/-- The links after the removal of `i`, whose newer neighbour is `n`. -/
structure Joined (g g' : Graph) (i n : NodeId) : Prop where
  keep : ∀ j, j ≠ i → j ≠ n → (g'.node j).older = (g.node j).older
  last : (g'.node i).older = none
  join : n ≠ i → (g'.node n).older = (g.node i).older

theorem Removes.joined (hr : g.Removes g' t i) (hn : (g.node i).newer = some n) :
    g.Joined g' i n where
  keep := fun j hj hjn => by
    rw [hr.older, if_neg hj, hn, if_neg fun h => hjn (Option.some.inj h).symm]
  last := by rw [hr.older, if_pos rfl]
  join := fun hni => by rw [hr.older, if_neg hni, hn, if_pos rfl]

/-- If `n` stands below `i`, it now leads back to itself, and so does every list with
`n` that `i` does not end. -/
theorem Joined.mem_of_mem (hj : g.Joined g' i n) (hb : g.Leads (g.node i).older b) (hib : i ∉ b)
    (hnb : n ∈ b) (hl' : g.Leads start l') (hnl' : n ∈ l') (hk : g'.Leads start k) : i ∈ l' := by
  by_contra hil'
  have hni : n ≠ i := fun h => hib (h ▸ hnb)
  obtain ⟨c, d, rfl⟩ := List.append_of_mem hnl'
  obtain ⟨b₁, b₂, rfl⟩ := List.append_of_mem hnb
  obtain ⟨k', -, hk'⟩ := hl'.of_redirect (fun j hjc => hj.keep j
    (fun h => hil' (List.mem_append_left _ (h ▸ hjc))) fun h => hl'.not_mem_above.1 (h ▸ hjc)) hk
  refine not_leads_of_redirect hb (fun j hjb => hj.keep j
    (fun h => hib (List.mem_append_left _ (h ▸ hjb))) fun h => hb.not_mem_above.1 (h ▸ hjb))
    (hj.join hni) (hj.join hni ▸ hk')

theorem Joined.exists_end (hj : g.Joined g' i n) (hb : g.Leads (g.node i).older b) (hib : i ∉ b)
    (hl' : g.Leads start l') (hlisted : n ∈ b → n ∈ l' → i ∈ l') : ∃ k, g'.Leads start k := by
  by_cases hnb : n ∈ b
  · by_cases hil' : i ∈ l'
    · -- `n` stands below `i` here too, where the list ends now
      obtain ⟨c, d, rfl⟩ := List.append_of_mem hil'
      obtain rfl := hb.unique hl'.older
      have hnc : n ∉ c := fun hnc =>
        List.disjoint_of_nodup_append hl'.nodup hnc (List.mem_cons_of_mem i hnb)
      exact ⟨c ++ [i], hl'.redirect (fun j hjc => hj.keep j
        (fun h => hl'.not_mem_above.1 (h ▸ hjc)) fun h => hnc (h ▸ hjc)) (leads_nil.2 hj.last)⟩
    · refine ⟨l', hl'.congr fun j hjl => hj.keep j (fun h => hil' (h ▸ hjl)) fun h => ?_⟩
      exact hil' (hlisted hnb (h ▸ hjl))
  · have hrest : g'.Leads (g.node i).older b :=
      hb.congr fun j hjb => hj.keep j (fun h => hib (h ▸ hjb)) fun h => hnb (h ▸ hjb)
    refine hl'.exists_end fun j _ => ?_
    by_cases hji : j = i
    · exact .inr ⟨[], hji ▸ hj.last⟩
    by_cases hjn : j = n
    · subst hjn
      exact .inr ⟨b, hj.join hji ▸ hrest⟩
    · exact .inl (hj.keep j hji hjn)

/-- After a removal every list has an end, unless the newer neighbour of the lock stands
below it as well and is listed somewhere without it. -/
theorem Removes.leads_iff (hr : g.Removes g' t i) (hall : ∀ t', ∃ l, g.Leads (g.topOf t') l)
    (hl : g.Leads (g.topOf t) (a ++ i :: b)) : (∀ t', ∃ l', g'.Leads (g'.topOf t') l') ↔
      ∀ n, (g.node i).newer = some n → n ∈ b →
        ∀ t' l', g.Leads (g.topOf t') l' → n ∈ l' → i ∈ l' := by
  cases hn : (g.node i).newer with
  | none =>
    exact ⟨fun _ n hn' => absurd hn' (by simp), fun _ => hr.exists_leads_of_newest hn hall hl⟩
  | some n =>
    have hj := hr.joined hn
    have hib := hl.not_mem_above.2
    have htop (t' : Tid) : g'.topOf t' = g.topOf t' := by rw [hr.topOf, hn, if_neg (by simp)]
    simp only [htop, Option.some.injEq, forall_eq']
    constructor
    · intro hall' hnb t' l' hl' hnl'
      obtain ⟨k, hk⟩ := hall' t'
      exact hj.mem_of_mem hl.older hib hnb hl' hnl' hk
    · intro hlisted t'
      obtain ⟨l', hl'⟩ := hall t'
      exact hj.exists_end hl.older hib hl' fun hnb hnl' => hlisted hnb t' l' hl' hnl'

/-! ## One call -/

theorem Untangled.keep (hu : g.Untangled) (hg : g.InRange) (hg' : g'.InRange) (hk : g.Keeps g') :
    g'.Untangled := by
  rw [untangled_iff hg'] at *
  rw [untangled_iff hg] at hu
  intro t
  obtain ⟨l, hl⟩ := hu t
  exact ⟨l, (hk.topOf t).symm ▸ hl.congr fun j _ => hk.older j⟩

/-- An acquisition leaves every list with an end exactly if it tangles none. -/
theorem Untangled.onLock_iff (hu : g.Untangled) (hg : g.WellFormed)
    (h : g.onLock m t stack capture = some (g', outcome, report)) :
    g'.Untangled ↔ ¬ g.Tangles (.lock m t stack capture) := by
  have hg' := hg.onLock h
  cases hg.acquires h with
  | counted ho hk =>
    exact iff_of_true (hu.keep hg.inRange hg'.inRange hk) fun htangle => htangle.1 ho
  | pushed ho hp =>
    have hall := (untangled_iff hg.inRange).1 hu
    obtain ⟨l, hl⟩ := hall t
    rw [untangled_iff hg'.inRange, hp.leads_iff hall hl, Tangles, holds_iff_mem hg hl]
    simp [ho]

/-- A release leaves every list with an end exactly if it tangles none. -/
theorem Untangled.onUnlock_iff (hu : g.Untangled) (hg : g.WellFormed)
    (h : g.onUnlock m t = some g') : g'.Untangled ↔ ¬ g.Tangles (.unlock m t) := by
  have hg' := hg.onUnlock h
  have hall := (untangled_iff hg.inRange).1 hu
  obtain ⟨l, hl⟩ := hall t
  cases hg.releases hl h with
  | ignored ho heq =>
    refine iff_of_true (heq ▸ hu) ?_
    rintro ⟨i, n, newer, older, hfind, howner, -⟩
    exact ho i hfind howner
  | @counted i hfind _ hcount hk =>
    refine iff_of_true (hu.keep hg.inRange hg'.inRange hk) ?_
    rintro ⟨j, n, newer, older, hfind', -, hzero, -⟩
    obtain rfl := Option.some.inj (hfind.symm.trans hfind')
    exact hcount hzero
  | @lost i hfind _ _ hil hk =>
    refine iff_of_true (hu.keep hg.inRange hg'.inRange hk) ?_
    rintro ⟨j, n, newer, older, hfind', -, -, hheld, -⟩
    obtain rfl := Option.some.inj (hfind.symm.trans hfind')
    rw [hl.unique (hg.inRange.held?_eq_some_iff.1 hheld)] at hil
    exact hil (by simp)
  | @removed i hfind howner hcount hil hr =>
    obtain ⟨a, b, rfl⟩ := List.append_of_mem hil
    rw [untangled_iff hg'.inRange, hr.leads_iff hall hl]
    constructor
    · rintro hlisted ⟨j, n, newer, older, hfind', -, -, hheld, hn, hnolder, t', l', hl', hnl', hjl'⟩
      obtain rfl := Option.some.inj (hfind.symm.trans hfind')
      have hleads := hg.inRange.held?_eq_some_iff.1 hheld
      obtain rfl := hl.older.unique hleads.older
      exact hjl' (hlisted n hn hnolder t' l' (hg.inRange.held?_eq_some_iff.1 hl') hnl')
    · intro hnot n hn hnb t' l' hl' hnl'
      by_contra hil'
      exact hnot ⟨i, n, a, b, hfind, howner, hcount, hg.inRange.held?_eq_some_iff.2 hl, hn, hnb, t',
        l', hg.inRange.held?_eq_some_iff.2 hl', hnl', hil'⟩

/-- An acquisition or a release leaves every list with an end exactly if it tangles
none. -/
theorem Untangled.handle?_iff {e : Event} {outcome? : Option Outcome} (hu : g.Untangled)
    (hg : g.WellFormed) (he : ∀ t, e ≠ .forget t) (h : g.handle? e = some (g', outcome?)) :
    g'.Untangled ↔ ¬ g.Tangles e := by
  cases e with
  | lock m t stack capture =>
    obtain ⟨outcome, report, -, hlock⟩ := handle?_lock_iff.1 h
    exact hu.onLock_iff hg hlock
  | unlock m t => exact hu.onUnlock_iff hg (handle?_unlock_iff.1 h).2
  | forget t => exact absurd rfl (he t)

theorem untangled_empty : Untangled .empty := by
  rw [untangled_iff inRange_empty]
  intro t
  obtain ⟨l, hl⟩ := stacked_empty t
  exact ⟨l, hl.leads⟩

end Graph
end Threading.LockOrder

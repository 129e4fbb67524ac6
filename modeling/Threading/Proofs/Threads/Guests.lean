import Threading.Proofs.Threads.Phases

/-!
# Threads that come and go

A process in which threads are created, end and are joined has them besides its own ones in
the meantime. Once they are gone it is as it was: the registry lists the same control blocks in
the same order, and the same memory is mapped. A creation that fails leaves it as it was too,
even if the kernel has made a task by then.
-/
namespace Threading.ThreadGroup

open LockOrder (CallStack)

variable {p₀ p p' p₁ : ThreadGroup} {i j : BlockId} {c c' : Control} {v : UInt64} {t me : Tid}
variable {l guests : List BlockId} {here : CallStack} {request : Option Attributes}
variable {launch : Launch} {region : Region} {layout : Layout} {e : Error}

/-! ## Failed creations -/

/-- The threads and their memory are what they were. -/
structure Restored (p p' : ThreadGroup) : Prop where
  lists : ∃ l, p.registry.Lists l ∧ p'.registry.Lists l
  get? : ∀ i, p'.registry.get? i = p.registry.get? i
  mapped : p'.mapped.Perm p.mapped

theorem Restored.lists_of (h : p.Restored p') (hl : p.registry.Lists l) : p'.registry.Lists l := by
  obtain ⟨l', hl', h'⟩ := h.lists
  rwa [← hl.ids_eq, hl'.ids_eq]

theorem Restored.ids (h : p.Restored p') : p'.registry.ids = p.registry.ids := by
  obtain ⟨l, hl, hl'⟩ := h.lists
  rw [hl.ids_eq, hl'.ids_eq]

theorem Restored.length (h : p.Restored p') : p'.registry.length = p.registry.length := by
  obtain ⟨l, hl, hl'⟩ := h.lists
  rw [hl.length, hl'.length]

theorem SameThreads.restored (h : p.SameThreads p') (hl : p.registry.Lists l) :
    p.Restored p' where
  lists := ⟨l, hl, h.registry ▸ hl⟩
  get? i := by rw [h.registry]
  mapped := .of_eq h.mapped

/-- A thread that has nothing to run goes as soon as it is let go. -/
theorem restored_create (hl : p.registry.Lists l)
    (h : p.create t here request launch = (.error e, p')) : p.Restored p' := by
  obtain ⟨hresult, rfl⟩ := Prod.mk.inj h
  obtain ⟨e', -, hlaunched, hsame⟩ | ⟨region, layout, c, -, -, hlaunched, hregistry, hmapped,
    hhow⟩ := launch_cases hl t here request launch
  · simp only [hlaunched, Option.map_none, Option.getD_none]
    exact hsame.restored hl
  obtain ⟨hok, -⟩ | ⟨-, hc⟩ := hhow
  · rw [hresult] at hok
    cases hok
  simp only [hlaunched, Option.map_some, Option.getD_some]
  generalize (p.launch t here request launch).group = p₁ at hregistry hmapped ⊢
  have hget : p₁.registry.get? p.registry.cells.size = some c := by
    rw [hregistry, hl.get?_add, if_pos rfl]
  have hletGo : p₁.letGo p.registry.cells.size = p₁.depart p.registry.cells.size 0 := by
    have hreturn := returnWith_eq hget (by rw [hc, starts_ready]) (by rw [hc]; rfl) 0
    rw [letGo, hget, hc]
    simp only [ready, idle, hreturn, Option.map_some, Option.getD_some]
  obtain ⟨hregistry', hmapped'⟩ := depart_detached hget (by rw [hc]; rfl) 0
  have hlists := (hl.add c).remove List.mem_cons_self
  rw [List.erase_cons_head] at hlists
  rw [hletGo]
  refine ⟨⟨l, hl, ?_⟩, fun j => ?_, .of_eq ?_⟩
  · rw [hregistry', hregistry]
    exact hlists
  · rw [hregistry', hregistry, (hl.add c).get?_remove List.mem_cons_self, hl.get?_add]
    split
    next hj => rw [hj, hl.get?_eq_none (Nat.le_refl _)]
    next => rfl
  · have hregion : c.region = region := by rw [hc]; rfl
    rw [hmapped', hmapped, hregion]
    split
    · rw [List.erase_cons_head]
    · rfl

/-- What makes a creation fail. -/
inductive Fails (a : Attributes) (launch : Launch) : Error → Prop
  | refused (reason : String) : Fails a launch (.invalidArgument reason)
  | exhausted : Fails a launch (.resourceExhausted "thread stack")
  | clone {errno : Int32} : launch.clone = some errno → Fails a launch (.os errno)
  | scheduler {errno : Int32} : a.explicitSched = true → launch.scheduler = some errno →
      Fails a launch (.ofErrno errno)
  | affinity {errno : Int32} : a.affinity.isSome = true → launch.affinity = some errno →
      Fails a launch (.ofErrno errno)

theorem exists_reason_of_validate {a : Attributes} (h : a.validate = .error e) :
    ∃ reason, e = .invalidArgument reason := by
  rw [Attributes.validate] at h
  repeat' split at h
  all_goals cases h
  all_goals exact ⟨_, rfl⟩

theorem exists_reason_of_layout (h : region.layout = .error e) :
    ∃ reason, e = .invalidArgument reason := by
  rw [Region.layout, Layout.compute, Layout.computeFor] at h
  split at h
  · cases h
    exact ⟨_, rfl⟩
  · cases h

theorem fails_of_housing {a : Attributes} (h : housing a launch = .error e) : Fails a launch e := by
  rw [housing] at h
  split at h
  next e' hvalidate =>
    cases h
    obtain ⟨reason, rfl⟩ := exists_reason_of_validate hvalidate
    exact .refused reason
  split at h
  · cases h
    exact .exhausted
  next region _ =>
    split at h
    next e' hlayout =>
      cases h
      obtain ⟨reason, rfl⟩ := exists_reason_of_layout hlayout
      exact .refused reason
    split at h
    next errno hclone =>
      cases h
      exact .clone hclone
    · cases h

/-- Only a request that is made is refused. -/
theorem fails_of_refusal? {a : Attributes} {errno : Int32} (h : refusal? a launch = some errno) :
    Fails a launch (.ofErrno errno) := by
  obtain hscheduler | ⟨-, haffinity⟩ := Option.or_eq_some_iff.1 h
  · obtain ⟨hasked, hverdict⟩ := Option.ite_none_right_eq_some.1 hscheduler
    exact .scheduler hasked hverdict
  · obtain ⟨hasked, hverdict⟩ := Option.ite_none_right_eq_some.1 haffinity
    exact .affinity hasked hverdict

theorem fails_launch (h : (p.launch t here request launch).result = .error e) :
    Fails (request.getD {}) launch e := by
  cases hhousing : housing (request.getD {}) launch with
  | error e' =>
    obtain ⟨hresult, -⟩ := launch_of_error hhousing p t here
    obtain rfl := Except.error.inj (hresult.symm.trans h)
    exact fails_of_housing hhousing
  | ok place =>
    obtain ⟨region, layout⟩ := place
    obtain ⟨lines, hlaunch⟩ := p.launch_eq t here request launch
    rw [hlaunch, outcome, hhousing] at h
    cases hpolicy : p.settings.policy with
    | warn => simp [hpolicy, failure?, Creation.withLines] at h
    | fail =>
      cases hrefusal : refusal? (request.getD {}) launch with
      | none => simp [hpolicy, hrefusal, failure?, Creation.withLines] at h
      | some errno =>
        simp only [hpolicy, hrefusal, failure?, Creation.withLines, Option.map_some] at h
        obtain rfl := Except.error.inj h
        exact fails_of_refusal? hrefusal

/-! ## Guests -/

/-- The memory that a registered thread owns. -/
def memory? (p : ThreadGroup) (i : BlockId) : Option Region :=
  (p.registry.get? i).bind fun c => if c.region.owned then some c.region else none

theorem memory?_eq (hi : p.registry.get? i = some c) :
    p.memory? i = if c.region.owned then some c.region else none := by
  rw [memory?, hi, Option.bind_some]

/-- The process `p₀` has become `p`, in which threads created since, newest first, are
registered besides its own. -/
structure Hosts (p₀ : ThreadGroup) (guests : List BlockId) (p : ThreadGroup) : Prop where
  lists : ∃ l, p₀.registry.Lists l ∧ p.registry.Lists (guests ++ l)
  get? : ∀ i ∉ guests, p.registry.get? i = p₀.registry.get? i
  mapped : p.mapped.Perm (guests.filterMap p.memory? ++ p₀.mapped)

theorem hosts_nil_iff : p₀.Hosts [] p ↔ p₀.Restored p := by
  constructor
  · intro h
    exact ⟨h.lists, fun i => h.get? i List.not_mem_nil, h.mapped⟩
  · intro h
    exact ⟨h.lists, fun i _ => h.get? i, h.mapped⟩

theorem hosts_nil (hl : p.registry.Lists l) : p.Hosts [] p :=
  ⟨⟨l, hl, hl⟩, fun _ _ => rfl, .refl _⟩

namespace Hosts

theorem exists_lists (h : p₀.Hosts guests p) : ∃ l, p.registry.Lists l := by
  obtain ⟨l, -, hl⟩ := h.lists
  exact ⟨_, hl⟩

theorem nodup (h : p₀.Hosts guests p) : guests.Nodup := by
  obtain ⟨l, -, hl⟩ := h.lists
  exact hl.nodup.of_append_left

theorem contains (h : p₀.Hosts guests p) (hi : i ∈ guests) : p.registry.contains i = true := by
  obtain ⟨l, -, hl⟩ := h.lists
  rw [Registry.contains, hl.ids_eq, List.contains_iff_mem]
  exact List.mem_append_left l hi

/-- A guest is not a thread that was there before. -/
theorem contains_before (h : p₀.Hosts guests p) (hi : i ∈ guests) :
    p₀.registry.contains i = false := by
  obtain ⟨l, hl₀, hl⟩ := h.lists
  rw [Registry.contains, hl₀.ids_eq, ← Bool.not_eq_true, List.contains_iff_mem]
  intro hmem
  exact (List.nodup_append.1 hl.nodup).2.2 i hi i hmem rfl

theorem get?_before (h : p₀.Hosts guests p) (hi : i ∈ guests) : p₀.registry.get? i = none := by
  rw [Registry.get?, h.contains_before hi]
  rfl

theorem length (h : p₀.Hosts guests p) :
    p.registry.length = guests.length + p₀.registry.length := by
  obtain ⟨l, hl₀, hl⟩ := h.lists
  rw [hl.length, hl₀.length, List.length_append]

theorem restored (h : p₀.Hosts guests p) (hr : p.Restored p') : p₀.Hosts guests p' := by
  obtain ⟨l, hl₀, hl⟩ := h.lists
  have hmemory : p'.memory? = p.memory? := by
    funext i
    rw [memory?, memory?, hr.get?]
  refine ⟨⟨l, hl₀, hr.lists_of hl⟩, ?_, ?_⟩
  · intro i hi
    rw [hr.get?, h.get? i hi]
  · rw [hmemory]
    exact hr.mapped.trans h.mapped

/-- The other guests keep their memory. -/
theorem filterMap_memory? {o : Option Control} (ht : p.Touches p' i o) (hi : i ∉ guests) :
    guests.filterMap p'.memory? = guests.filterMap p.memory? := by
  refine List.filterMap_congr fun j hj => ?_
  have hne : j ≠ i := fun heq => hi (heq ▸ hj)
  rw [memory?, ht.get?_of_ne hne, memory?]

/-- A thread that is created is a guest. -/
theorem create (h : p₀.Hosts guests p)
    (hcreate : p.create t here request launch = (.ok i, p')) :
    p₀.Hosts (i :: guests) p' ∧
      (∃ region layout, p'.registry.get? i =
        some (ready (newControl (request.getD {}) region layout launch.tid))) ∧
      ∀ j ≠ i, p'.registry.get? j = p.registry.get? j := by
  obtain ⟨l, hl₀, hl⟩ := h.lists
  obtain ⟨-, rfl, region, layout, hregistry, hmapped, hunmapped⟩ := create_ok hl hcreate
  have ht := touches_add hl (ready (newControl (request.getD {}) region layout launch.tid))
    hregistry hmapped hunmapped
  have hnew : p.registry.cells.size ∉ guests := fun hmem =>
    hl.size_notMem (List.mem_append_left l hmem)
  refine ⟨⟨⟨l, hl₀, ?_⟩, ?_, ?_⟩, ⟨region, layout, ht.get?_self⟩, fun j => ht.get?_of_ne⟩
  · rw [hregistry]
    exact hl.add _
  · intro j hj
    rw [List.mem_cons, not_or] at hj
    rw [ht.get?_of_ne hj.1, h.get? j hj.2]
  · have hmemory : p'.memory? p.registry.cells.size = if region.owned then some region else none :=
      memory?_eq ht.get?_self
    rw [hmapped, List.filterMap_cons, hmemory, filterMap_memory? ht hnew]
    split
    · exact h.mapped.cons region
    · exact h.mapped

/-- Something happens to a guest, whose memory stays its own. -/
theorem modify (h : p₀.Hosts guests p) (hi : i ∈ guests) (hc : p.registry.get? i = some c)
    (f : Control → Control) (hf : SamePlace c (f c))
    (hregistry : p'.registry = p.registry.modify i f) (hmapped : p'.mapped = p.mapped)
    (hunmapped : p'.unmapped = p.unmapped) : p₀.Hosts guests p' := by
  obtain ⟨l, hl₀, hl⟩ := h.lists
  have ht := touches_modify hl hc f hf hregistry hmapped hunmapped
  have hmemory : p'.memory? = p.memory? := by
    funext j
    by_cases hj : j = i
    · rw [hj, memory?_eq ht.get?_self, memory?_eq hc, hf.region]
    · rw [memory?, memory?, ht.get?_of_ne hj]
  refine ⟨⟨l, hl₀, ?_⟩, fun j hj => ?_, ?_⟩
  · rw [hregistry]
    exact hl.modify i _
  · have hne : j ≠ i := fun heq => hj (heq ▸ hi)
    rw [ht.get?_of_ne hne, h.get? j hj]
  · rw [hmapped, hmemory]
    exact h.mapped

/-- A guest goes. -/
theorem reclaim (h : p₀.Hosts guests p) (hi : i ∈ guests) (hc : p.registry.get? i = some c) :
    p₀.Hosts (guests.erase i) (p.reclaim i c) := by
  obtain ⟨l, hl₀, hl⟩ := h.lists
  have ht := touches_reclaim hl hc
  have hlists : (p.reclaim i c).registry.Lists (guests.erase i ++ l) := by
    rw [registry_reclaim, ← List.erase_append_left l hi]
    exact hl.remove (List.mem_append_left l hi)
  refine ⟨⟨l, hl₀, hlists⟩, fun j hj => ?_, ?_⟩
  · by_cases hji : j = i
    · rw [hji, ht.get?_self, h.get?_before hi]
    · rw [ht.get?_of_ne hji, h.get? j fun hmem => hj ((List.mem_erase_of_ne hji).2 hmem)]
  · rw [filterMap_memory? ht h.nodup.not_mem_erase, ht.mapped, hc, remapped]
    have hperm := h.mapped.trans
      (((List.perm_cons_erase hi).filterMap p.memory?).append_right p₀.mapped)
    by_cases howned : c.region.owned = true
    · have hmemory : p.memory? i = some c.region := by rw [memory?_eq hc, if_pos howned]
      rw [List.filterMap_cons_some hmemory] at hperm
      rw [if_pos howned]
      simpa using hperm.erase c.region
    · have hmemory : p.memory? i = none := by rw [memory?_eq hc, if_neg howned]
      rw [List.filterMap_cons_none hmemory] at hperm
      rwa [if_neg howned]

end Hosts

/-! ## The handles of guests -/

/-- The process `p₀` has become `p`, in which the threads with the given handles are registered
besides its own. -/
def Visited (p₀ : ThreadGroup) (handles : List UInt64) (p : ThreadGroup) : Prop :=
  ∃ guests, p₀.Hosts guests p ∧ guests.length = handles.length ∧
    ∀ i b, p.registry.get? i = some b → (i ∈ guests ↔ b.address ∈ handles)

namespace Visited

variable {handles handles' : List UInt64} {handle : UInt64} {b : Control}

theorem nobody (hl : p.registry.Lists l) : p.Visited [] p :=
  ⟨[], hosts_nil hl, rfl, fun _ _ _ => iff_of_false List.not_mem_nil List.not_mem_nil⟩

theorem restored (h : p₀.Visited [] p) : p₀.Restored p := by
  obtain ⟨guests, hhosts, hlength, -⟩ := h
  obtain rfl := List.length_eq_zero_iff.1 hlength
  exact hosts_nil_iff.1 hhosts

theorem length (h : p₀.Visited handles p) :
    p.registry.length = handles.length + p₀.registry.length := by
  obtain ⟨guests, hhosts, hlength, -⟩ := h
  rw [hhosts.length, hlength]

/-- The threads that were there before have other handles. -/
theorem address_notMem (h : p₀.Visited handles p) (hi : p₀.registry.get? i = some b) :
    b.address ∉ handles := by
  obtain ⟨guests, hhosts, -, hiff⟩ := h
  have hnot : i ∉ guests := fun hmem => by
    rw [hhosts.get?_before hmem] at hi
    cases hi
  exact fun hmem => hnot ((hiff i b ((hhosts.get? i hnot).trans hi)).2 hmem)

theorem perm (h : p₀.Visited handles p) (hperm : handles.Perm handles') :
    p₀.Visited handles' p := by
  obtain ⟨guests, hhosts, hlength, hiff⟩ := h
  exact ⟨guests, hhosts, hlength.trans hperm.length_eq, fun i b hi =>
    (hiff i b hi).trans hperm.mem_iff⟩

theorem congr (h : p₀.Visited handles p) (hsame : p.SameThreads p') : p₀.Visited handles p' := by
  obtain ⟨guests, hhosts, hlength, hiff⟩ := h
  obtain ⟨l, hl⟩ := hhosts.exists_lists
  exact ⟨guests, hhosts.restored (hsame.restored hl), hlength, hsame.registry ▸ hiff⟩

/-- A thread that is created is a guest with its handle. -/
theorem create (h : p₀.Visited handles p) (hsited : Sited p')
    (hcreate : p.create t here request launch = (.ok i, p')) :
    p₀.Visited (handles ++ [p'.handle i]) p' := by
  obtain ⟨guests, hhosts, hlength, hiff⟩ := h
  obtain ⟨hhosts', ⟨region, layout, hi⟩, hother⟩ := hhosts.create hcreate
  refine ⟨i :: guests, hhosts', ?_, fun j b hj => ?_⟩
  · rw [List.length_append, List.length_cons, hlength]
    rfl
  have hhandle : p'.handle i = (newControl (request.getD {}) region layout launch.tid).address := by
    rw [handle, hi]
    rfl
  rw [List.mem_cons, List.mem_append, List.mem_singleton, hhandle]
  by_cases hji : j = i
  · subst hji
    obtain rfl := Option.some.inj (hi.symm.trans hj)
    exact iff_of_true (.inl rfl) (.inr rfl)
  · have hne : b.address ≠ (newControl (request.getD {}) region layout launch.tid).address :=
      fun heq => hji (hsited.eq_of_address_eq hj hi heq)
    rw [or_iff_right hji, or_iff_left hne]
    exact hiff j b (hother j hji ▸ hj)

/-- Something happens to a guest. -/
theorem modify (h : p₀.Visited handles p) (hi : p.registry.get? i = some c)
    (hmem : c.address ∈ handles) (f : Control → Control) (hf : SamePlace c (f c))
    (hregistry : p'.registry = p.registry.modify i f) (hmapped : p'.mapped = p.mapped)
    (hunmapped : p'.unmapped = p.unmapped) : p₀.Visited handles p' := by
  obtain ⟨guests, hhosts, hlength, hiff⟩ := h
  obtain ⟨l, hl⟩ := hhosts.exists_lists
  have ht := touches_modify hl hi f hf hregistry hmapped hunmapped
  refine ⟨guests, hhosts.modify ((hiff i c hi).2 hmem) hi f hf hregistry hmapped hunmapped,
    hlength, fun j b hj => ?_⟩
  obtain ⟨rfl, hb⟩ | ⟨-, hj⟩ := ht.get?_eq_some_iff.1 hj
  · obtain rfl := Option.some.inj hb
    rw [hf.address]
    exact hiff j c hi
  · exact hiff j b hj

/-- The guest with the first handle goes. -/
theorem reclaim (h : p₀.Visited (handle :: handles) p) (hsited : Sited p)
    (hi : p.registry.get? i = some c) (haddress : c.address = handle) :
    p₀.Visited handles (p.reclaim i c) := by
  obtain ⟨guests, hhosts, hlength, hiff⟩ := h
  obtain ⟨l, hl⟩ := hhosts.exists_lists
  have hmem : i ∈ guests := (hiff i c hi).2 (haddress ▸ List.mem_cons_self)
  have ht := touches_reclaim hl hi
  refine ⟨guests.erase i, hhosts.reclaim hmem hi, ?_, fun j b hj => ?_⟩
  · rw [List.length_erase_of_mem hmem, hlength]
    rfl
  · obtain ⟨-, hb⟩ | ⟨hji, hj⟩ := ht.get?_eq_some_iff.1 hj
    · cases hb
    have hne : b.address ≠ handle := fun heq =>
      hji (hsited.eq_of_address_eq hj hi (heq.trans haddress.symm))
    rw [List.mem_erase_of_ne hji, hiff j b hj, List.mem_cons, or_iff_right hne]

end Visited

end Threading.ThreadGroup

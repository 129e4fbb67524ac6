import Threading.Proofs.LockOrder.History

/-!
# What a run has seen

A mutex gets its number with its first acquisition and a thread its position with its own
first one, whoever calls. Both tables only grow at their ends, so numbers and positions are
for good. A thread that acquires a mutex again is known already: an owner other than 0 comes
from an acquisition of its own, and what takes owners away leaves 0.
-/
namespace Threading.LockOrder

/-- The list with an element at its end that it did not have. -/
def appendNew {α : Type} [DecidableEq α] (xs : List α) (a : α) : List α :=
  if a ∈ xs then xs else xs ++ [a]

section AppendNew

variable {α : Type} [DecidableEq α] {xs : List α} {a b : α}

@[simp] theorem mem_appendNew : b ∈ appendNew xs a ↔ b ∈ xs ∨ b = a := by
  rw [appendNew]
  split
  next ha =>
    constructor
    · exact .inl
    · rintro (hb | rfl)
      · exact hb
      · exact ha
  · simp

theorem prefix_appendNew (xs : List α) (a : α) : xs <+: appendNew xs a := by
  rw [appendNew]
  split
  · exact List.prefix_refl xs
  · exact List.prefix_append xs [a]

end AppendNew

/-- The holder of a node may be gone. -/
structure Node.Loosens (n n' : Node) : Prop where
  owner : n'.owner = n.owner ∨ n'.owner = 0
  stack : n'.stack = n.stack

theorem Node.Loosens.refl (n : Node) : n.Loosens n := ⟨.inl rfl, rfl⟩

theorem Node.Loosens.trans {n n' n'' : Node} (h : n.Loosens n') (h' : n'.Loosens n'') :
    n.Loosens n'' := by
  refine ⟨?_, h'.stack.trans h.stack⟩
  rcases h'.owner with howner | hnone
  · rw [howner]
    exact h.owner
  · exact .inr hnone

namespace Graph

variable {g g' : Graph} {m : UInt64} {t : Tid} {stack : Option CallStack} {capture : Bool}
variable {outcome : Outcome} {report : Option Report} {i j : NodeId} {thread : Nat}

/-! ## Releases and exits -/

theorem loosens_modifyNode {f : Node → Node} (hf : ∀ n : Node, n.Loosens (f n)) (g : Graph)
    (i j : NodeId) : (g.node j).Loosens ((g.modifyNode i f).node j) := by
  rw [node_modifyNode]
  split
  · exact hf _
  · exact .refl _

theorem loosens_unchain (g : Graph) (thread : Nat) (i j : NodeId) :
    (g.node j).Loosens ((g.unchain thread i).node j) :=
  ⟨.inl (view_unchain Node.owner (fun _ _ _ => rfl) g thread i j),
    view_unchain Node.stack (fun _ _ _ => rfl) g thread i j⟩

theorem loosens_onUnlock (h : g.onUnlock m t = some g') (j : NodeId) :
    (g.node j).Loosens (g'.node j) := by
  obtain ⟨-, rfl⟩ | ⟨i, -, -, ⟨-, rfl⟩ | ⟨-, hfreed⟩⟩ := onUnlock_cases h
  · exact .refl _
  · exact loosens_modifyNode (f := fun n => { n with count := n.count - 1 })
      (fun n => ⟨.inl rfl, rfl⟩) g i j
  · have hfree := loosens_modifyNode (f := ({ · with owner := 0 })) (fun n => ⟨.inr rfl, rfl⟩) g i j
    obtain ⟨-, rfl⟩ | ⟨thread, -, hremove⟩ := hfreed
    · exact hfree
    · obtain ⟨found, -, rfl⟩ := Option.map_eq_some_iff.1 hremove
      split
      · exact hfree.trans (loosens_unchain _ thread i j)
      · exact hfree

theorem loosens_freeTops (thread n : Nat) (g : Graph) (j : NodeId) :
    (g.node j).Loosens ((freeTops thread n g).node j) := by
  induction n generalizing g with
  | zero => exact .refl _
  | succ n ih =>
    rw [freeTops]
    split
    · exact .refl _
    next i _ =>
      have hfree := loosens_modifyNode (f := (·.free)) (fun n => ⟨.inr rfl, rfl⟩) g i j
      exact (hfree.trans (loosens_unchain _ thread i j)).trans (ih _)

theorem loosens_forgetThread (g : Graph) (t : Tid) (j : NodeId) :
    (g.node j).Loosens ((g.forgetThread t).node j) := by
  rw [forgetThread]
  split
  · exact .refl _
  · exact loosens_freeTops _ _ g j

/-! ## Acquisitions -/

theorem mutexes_eq_of_orderPart (h : g'.orderPart = g.orderPart) : g'.mutexes = g.mutexes := by
  rw [← mutexes_orderPart g', h, mutexes_orderPart]

theorem tids_eq_of_orderPart (h : g'.orderPart = g.orderPart) : g'.tids = g.tids := by
  rw [← tids_orderPart g', h, tids_orderPart]

theorem Indexed.mutexes_internNode (hg : g.Indexed) (m : UInt64) :
    (g.internNode m).2.mutexes = appendNew g.mutexes m := by
  unfold Graph.internNode appendNew
  split
  next i hi =>
    have hmem : m ∈ g.mutexes := by
      by_contra hnot
      exact absurd (hg.findNode?_eq_none_iff.2 hnot) (by simp [hi])
    rw [if_pos hmem]
  next hnone =>
    rw [if_neg (hg.findNode?_eq_none_iff.1 hnone)]
    simp [Graph.mutexes]

theorem Indexed.tids_internThread (hg : g.Indexed) (t : Tid) :
    (g.internThread t).2.tids = appendNew g.tids t := by
  unfold Graph.internThread appendNew
  split
  next i hi =>
    have hmem : t ∈ g.tids := by
      by_contra hnot
      exact absurd (hg.findThread?_eq_none_iff.2 hnot) (by simp [hi])
    rw [if_pos hmem]
  next hnone =>
    rw [if_neg (hg.findThread?_eq_none_iff.1 hnone)]
    simp [Graph.tids]

theorem tids_internNode (g : Graph) (m : UInt64) : (g.internNode m).2.tids = g.tids :=
  congrArg (fun threads => threads.toList.map HeldStack.tid) (threads_internNode g m)

theorem Indexed.mutexes_claimed (hg : g.Indexed) (m : UInt64) (t : Tid)
    (stack : Option CallStack) : (g.claimed m t stack).mutexes = appendNew g.mutexes m := by
  rw [← hg.mutexes_internNode, claimed, Graph.mutexes, nodes_internThread]
  exact mutexes_eq_of_orderPart (orderPart_modifyNode _ (fun n => by rfl) _)

theorem Indexed.tids_claimed (hg : g.Indexed) (m : UInt64) (t : Tid) (stack : Option CallStack) :
    (g.claimed m t stack).tids = appendNew g.tids t := by
  have hinterned := (hg.internNode m).congr_orderPart
    (orderPart_modifyNode _ (f := (·.claim t stack)) (fun n => by rfl) (g.internNode m).1)
  have htids : ((g.internNode m).2.modifyNode (g.internNode m).1 (·.claim t stack)).tids = g.tids :=
    tids_internNode g m
  rw [claimed, hinterned.tids_internThread, htids]

/-- What an acquisition does to the tables: the owner of a mutex is not entered again. -/
theorem Indexed.tables_onLock (hg : g.Indexed)
    (h : g.onLock m t stack capture = some (g', outcome, report)) :
    g'.mutexes = appendNew g.mutexes m ∧
      g'.tids = if g.ownerOf m = t then g.tids else appendNew g.tids t := by
  obtain ⟨ho, -, -, rfl⟩ | ⟨ho, g₁, hrecord, rfl⟩ := onLock_cases h
  · have hpart := orderPart_modifyNode (g.internNode m).2 (keepsLinks_count (· + 1)).forgetHolder
      (g.internNode m).1
    rw [if_pos ho, mutexes_eq_of_orderPart hpart, hg.mutexes_internNode, tids_eq_of_orderPart hpart]
    exact ⟨rfl, tids_internNode g m⟩
  · have hpart := orderPart_pushHeld g₁ (g.internThread t).1 (g.internNode m).1
    have hheld := heldPart_recordOrder hrecord
    rw [if_neg ho, mutexes_eq_of_orderPart hpart, tids_eq_of_orderPart hpart,
      ← hg.mutexes_claimed m t stack, ← hg.tids_claimed m t stack]
    refine ⟨?_, congrArg (fun g => g.threads.toList.map (·.tid)) hheld⟩
    rw [← mutexes_heldPart g₁, hheld, mutexes_heldPart]

/-- Every owner but 0 is in the thread table. -/
def OwnersKnown (g : Graph) : Prop := ∀ i, (g.node i).owner ≠ 0 → (g.node i).owner ∈ g.tids

theorem OwnersKnown.loosens (h : g.OwnersKnown) (htids : g'.tids = g.tids)
    (hloosens : ∀ j, (g.node j).Loosens (g'.node j)) : g'.OwnersKnown := by
  intro j hj
  rw [htids]
  rcases (hloosens j).owner with howner | hnone
  · rw [howner] at hj ⊢
    exact h j hj
  · exact absurd hnone hj

theorem WellFormed.ownersKnown_onLock (hg : g.WellFormed) (ho : g.OwnersKnown)
    (h : g.onLock m t stack capture = some (g', outcome, report)) : g'.OwnersKnown := by
  have htids := (hg.indexed.tables_onLock h).2
  cases hg.acquires h with
  | counted howner _ hsame _ =>
    intro j hj
    rw [if_pos howner] at htids
    rw [hsame] at hj ⊢
    exact htids ▸ ho j hj
  | pushed hne hpushes =>
    intro j hj
    rw [if_neg hne] at htids
    rw [htids, mem_appendNew]
    have howner := hpushes.owner j
    split at howner
    · exact .inr howner
    · rw [howner] at hj ⊢
      exact .inl (ho j hj)

end Graph

/-! ## Every run -/

variable {calls : List Call} {g g' : Graph} {e : Event} {outcome? : Option Outcome} {c : Call}
variable {m : UInt64} {t : Tid}

/-- The mutex that a call acquires. -/
def Event.mutex? : Event → Option UInt64
  | .lock m _ _ _ => some m
  | .unlock _ _ | .forget _ => none

/-- The thread for which a call acquires a mutex. -/
def Event.locker? : Event → Option Tid
  | .lock _ t _ _ => some t
  | .unlock _ _ | .forget _ => none

/-- What a call does to the tables. -/
theorem Graph.WellFormed.tables_handle? (hg : g.WellFormed)
    (h : g.handle? e = some (g', outcome?)) :
    (∃ m t stack capture, e = .lock m t stack capture ∧ g'.mutexes = appendNew g.mutexes m ∧
      g'.tids = if g.ownerOf m = t then g.tids else appendNew g.tids t) ∨
    e.mutex? = none ∧ e.locker? = none ∧ g'.mutexes = g.mutexes ∧ g'.tids = g.tids := by
  cases e with
  | lock m t stack capture =>
    obtain ⟨outcome, report, -, hlock⟩ := Graph.handle?_lock_iff.1 h
    obtain ⟨hmutexes, htids⟩ := hg.indexed.tables_onLock hlock
    exact .inl ⟨m, t, stack, capture, rfl, hmutexes, htids⟩
  | unlock m t =>
    have hpart := Graph.orderPart_onUnlock (Graph.handle?_unlock_iff.1 h).2
    exact .inr ⟨rfl, rfl, Graph.mutexes_eq_of_orderPart hpart, Graph.tids_eq_of_orderPart hpart⟩
  | forget t =>
    have hpart := Graph.orderPart_forgetThread g t
    rw [← (Graph.handle?_forget_iff.1 h).2] at hpart
    exact .inr ⟨rfl, rfl, Graph.mutexes_eq_of_orderPart hpart, Graph.tids_eq_of_orderPart hpart⟩

theorem Graph.WellFormed.ownersKnown_handle? (hg : g.WellFormed) (ho : g.OwnersKnown)
    (h : g.handle? e = some (g', outcome?)) : g'.OwnersKnown := by
  cases e with
  | lock m t stack capture =>
    obtain ⟨outcome, report, -, hlock⟩ := Graph.handle?_lock_iff.1 h
    exact hg.ownersKnown_onLock ho hlock
  | unlock m t =>
    have hunlock := (Graph.handle?_unlock_iff.1 h).2
    exact ho.loosens (Graph.tids_eq_of_orderPart (Graph.orderPart_onUnlock hunlock))
      (Graph.loosens_onUnlock hunlock)
  | forget t =>
    rw [(Graph.handle?_forget_iff.1 h).2]
    exact ho.loosens (Graph.tids_eq_of_orderPart (Graph.orderPart_forgetThread g t))
      (Graph.loosens_forgetThread g t)

theorem Run.ownersKnown (h : Run calls g) : g.OwnersKnown := by
  induction h with
  | nil => exact fun i hi => absurd rfl hi
  | cons hrun hstep ih => exact hrun.wellFormed.ownersKnown_handle? ih hstep

theorem Run.wellFormed_before (h : Run calls g) (hc : c ∈ calls) : c.before.WellFormed := by
  induction h with
  | nil => exact absurd hc List.not_mem_nil
  | cons hrun _ ih =>
    rcases List.mem_cons.1 hc with rfl | hc
    · exact hrun.wellFormed
    · exact ih hc

/-- The tables only grow at their ends. -/
theorem Run.prefix_tables (h : Run calls g) (hc : c ∈ calls) :
    c.before.mutexes <+: g.mutexes ∧ c.before.tids <+: g.tids := by
  induction h with
  | nil => exact absurd hc List.not_mem_nil
  | @cons calls g g' e outcome? hrun hstep ih =>
    have hgrow : g.mutexes <+: g'.mutexes ∧ g.tids <+: g'.tids := by
      obtain ⟨m, t, _, _, -, hmutexes, htids⟩ | ⟨-, -, hmutexes, htids⟩ :=
        hrun.wellFormed.tables_handle? hstep
      · rw [hmutexes, htids]
        refine ⟨prefix_appendNew g.mutexes m, ?_⟩
        split
        · exact List.prefix_refl _
        · exact prefix_appendNew g.tids t
      · rw [hmutexes, htids]
        exact ⟨List.prefix_refl _, List.prefix_refl _⟩
    rcases List.mem_cons.1 hc with rfl | hc
    · exact hgrow
    · exact ⟨(ih hc).1.trans hgrow.1, (ih hc).2.trans hgrow.2⟩

/-- The mutexes in the table are those that were ever acquired. -/
theorem Run.mem_mutexes_iff (h : Run calls g) :
    m ∈ g.mutexes ↔ ∃ c ∈ calls, c.event.mutex? = some m := by
  induction h with
  | nil => simp [Graph.mutexes, Graph.empty]
  | @cons calls g g' e outcome? hrun hstep ih =>
    rw [List.exists_mem_cons_iff]
    obtain ⟨m', t, _, _, rfl, hmutexes, -⟩ | ⟨hnone, -, hmutexes, -⟩ :=
      hrun.wellFormed.tables_handle? hstep
    · rw [hmutexes, mem_appendNew, ih, or_comm]
      simp [Event.mutex?, eq_comm]
    · simp [hmutexes, ih, hnone]

/-- A thread with a number is in the table if it ever acquired a mutex. -/
theorem Run.mem_tids_iff (h : Run calls g) (ht : t ≠ 0) :
    t ∈ g.tids ↔ ∃ c ∈ calls, c.event.locker? = some t := by
  induction h with
  | nil => simp [Graph.tids, Graph.empty]
  | @cons calls g g' e outcome? hrun hstep ih =>
    rw [List.exists_mem_cons_iff]
    obtain ⟨m, t', _, _, rfl, -, htids⟩ | ⟨-, hnone, -, htids⟩ :=
      hrun.wellFormed.tables_handle? hstep
    · have hiff : t ∈ g'.tids ↔ t ∈ g.tids ∨ t = t' := by
        rw [htids]
        split
        next howner =>
          refine ⟨.inl, ?_⟩
          rintro (hmem | rfl)
          · exact hmem
          · -- The owner of a mutex that has one was entered when it acquired the mutex first.
            rw [Graph.ownerOf] at howner
            split at howner
            · exact absurd howner.symm ht
            next i _ =>
              have hknown := hrun.ownersKnown i
              rw [howner] at hknown
              exact hknown ht
        · exact mem_appendNew
      rw [hiff, ih, or_comm]
      simp [Event.locker?, eq_comm]
    · simp [htids, ih, hnone]

end Threading.LockOrder

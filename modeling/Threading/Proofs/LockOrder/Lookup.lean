import Threading.Proofs.LockOrder.Parts

/-!
# Lookups in the lock graph

The buckets of a table hold the position of every key, each in the bucket its key
hashes to. While the keys are distinct, a lookup finds exactly the position of its
key, so nothing that follows depends on the hash function.
-/
namespace Threading.LockOrder

namespace Buckets

variable {κ : Type} {bucket : κ → Fin 256} {keys : List κ} {b : Buckets}

/-- The buckets hold the positions of the keys, and no key occurs twice. -/
structure Indexes (b : Buckets) (bucket : κ → Fin 256) (keys : List κ) : Prop where
  mem_iff : ∀ c i, i ∈ b.chains.get c ↔ ∃ key, keys[i]? = some key ∧ bucket key = c
  nodup : keys.Nodup

/-- A new position is met in its own bucket only. -/
theorem mem_push (b : Buckets) (c c' : Fin 256) (i n : Nat) :
    i ∈ (b.push c n).chains.get c' ↔ (c = c' ∧ i = n) ∨ i ∈ b.chains.get c' := by
  change i ∈ (b.push c n).chains[c'] ↔ _ ∨ i ∈ b.chains[c']
  simp only [Buckets.push, Fin.getElem_fin, Vector.getElem_set]
  split
  next hc =>
    obtain rfl : c = c' := Fin.ext hc
    simp
  next hc =>
    have hne : c ≠ c' := fun e => hc (congrArg Fin.val e)
    simp [hne]

theorem indexes_nil (bucket : κ → Fin 256) : Indexes {} bucket [] :=
  ⟨fun c i => by simp, List.nodup_nil⟩

/-- A lookup finds the position of its key and nothing else. -/
theorem Indexes.find?_eq_some_iff (h : b.Indexes bucket keys) {key : κ} {p : Nat → Bool}
    (hp : ∀ i key', keys[i]? = some key' → (p i ↔ key' = key)) {i : Nat} :
    b.find? (bucket key) p = some i ↔ keys[i]? = some key := by
  constructor
  · intro hi
    obtain ⟨key', hkey', -⟩ := (h.mem_iff _ i).1 (List.mem_of_find?_eq_some hi)
    rw [hkey', (hp i key' hkey').1 (List.find?_some hi)]
  · intro hi
    have hmem : i ∈ b.chains.get (bucket key) := (h.mem_iff _ i).2 ⟨key, hi, rfl⟩
    have hsome : (b.find? (bucket key) p).isSome := by
      rw [Buckets.find?, List.find?_isSome]
      exact ⟨i, hmem, (hp i key hi).2 rfl⟩
    obtain ⟨j, hj⟩ := Option.isSome_iff_exists.1 hsome
    obtain ⟨key', hkey', -⟩ := (h.mem_iff _ j).1 (List.mem_of_find?_eq_some hj)
    have hjkey : keys[j]? = some key := by
      rw [hkey', (hp j key' hkey').1 (List.find?_some hj)]
    have hlt : i < keys.length := (List.getElem?_eq_some_iff.1 hi).1
    have hij : i = j := (List.getElem?_inj hlt h.nodup).1 (hi.trans hjkey.symm)
    rw [hj, hij]

/-- A new key goes to the end of the table. -/
theorem Indexes.push (h : b.Indexes bucket keys) {key : κ} (hkey : key ∉ keys) :
    (b.push (bucket key) keys.length).Indexes bucket (keys ++ [key]) where
  mem_iff := by
    intro c i
    rw [mem_push, h.mem_iff, List.getElem?_append]
    split
    next hi =>
      simp [Nat.ne_of_lt hi]
    next hi =>
      rw [List.getElem?_eq_none (Nat.le_of_not_lt hi)]
      have hsub : i - keys.length = 0 ↔ i = keys.length := by omega
      simp only [List.getElem?_singleton, hsub]
      constructor
      · rintro (⟨hc, hi⟩ | ⟨_, hnone, _⟩)
        · exact ⟨key, by simp [hi], hc⟩
        · simp at hnone
      · rintro ⟨key', hkey', hc⟩
        split at hkey'
        next hi => exact .inl ⟨by rw [Option.some.inj hkey', hc], hi⟩
        next => simp at hkey'
  nodup := List.nodup_append.2
    ⟨h.nodup, by simp, fun a ha b hb => by
      rw [List.mem_singleton.1 hb]
      exact fun e => hkey (e ▸ ha)⟩

end Buckets

namespace Graph

/-- The mutexes by the number of their node. -/
def mutexes (g : Graph) : List UInt64 := g.nodes.toList.map (·.mutex)

/-- The threads by their position. -/
def tids (g : Graph) : List Tid := g.threads.toList.map (·.tid)

/-- Both tables are in order. -/
structure Indexed (g : Graph) : Prop where
  mutexes : g.nodeIndex.Indexes mutexBucket g.mutexes
  tids : g.threadIndex.Indexes tidBucket g.tids

variable {g g' : Graph} {m : UInt64} {t : Tid}

theorem indexed_empty : Indexed .empty :=
  ⟨Buckets.indexes_nil _, Buckets.indexes_nil _⟩

theorem length_mutexes (g : Graph) : g.mutexes.length = g.nodes.size := by
  simp [mutexes]

theorem length_tids (g : Graph) : g.tids.length = g.threads.size := by
  simp [tids]

theorem getElem?_mutexes {i : NodeId} :
    g.mutexes[i]? = some m ↔ i < g.nodes.size ∧ (g.node i).mutex = m := by
  simp only [mutexes, List.getElem?_map, Array.getElem?_toList, node_eq]
  by_cases h : i < g.nodes.size
  · simp [h]
  · simp [h]

theorem getElem?_tids {i : Nat} :
    g.tids[i]? = some t ↔ i < g.threads.size ∧ (g.threads.getD i default).tid = t := by
  simp only [tids, List.getElem?_map, Array.getElem?_toList, Array.getD_eq_getD_getElem?]
  by_cases h : i < g.threads.size
  · simp [h]
  · simp [h]

theorem mutexes_orderPart (g : Graph) : g.orderPart.mutexes = g.mutexes := by
  simp only [mutexes, orderPart, Array.toList_map, List.map_map]
  rfl

theorem tids_orderPart (g : Graph) : g.orderPart.tids = g.tids := by
  simp only [tids, orderPart, Array.toList_map, List.map_map]
  rfl

theorem mutexes_heldPart (g : Graph) : g.heldPart.mutexes = g.mutexes := by
  simp only [mutexes, heldPart, Array.toList_map, List.map_map]
  rfl

theorem Indexed.congr_orderPart (h : g'.orderPart = g.orderPart) (hg : g.Indexed) :
    g'.Indexed := by
  have hn : g'.nodeIndex = g.nodeIndex := congrArg (·.nodeIndex) h
  have ht : g'.threadIndex = g.threadIndex := congrArg (·.threadIndex) h
  have hm : g'.mutexes = g.mutexes := by
    rw [← mutexes_orderPart g', h, mutexes_orderPart]
  have hs : g'.tids = g.tids := by
    rw [← tids_orderPart g', h, tids_orderPart]
  exact ⟨by rw [hn, hm]; exact hg.mutexes, by rw [ht, hs]; exact hg.tids⟩

theorem Indexed.congr_heldPart (h : g'.heldPart = g.heldPart) (hg : g.Indexed) :
    g'.Indexed := by
  have hn : g'.nodeIndex = g.nodeIndex := congrArg (·.nodeIndex) h
  have ht : g'.threadIndex = g.threadIndex := congrArg (·.threadIndex) h
  have hm : g'.mutexes = g.mutexes := by
    rw [← mutexes_heldPart g', h, mutexes_heldPart]
  have hs : g'.tids = g.tids := congrArg (fun g => g.threads.toList.map (·.tid)) h
  exact ⟨by rw [hn, hm]; exact hg.mutexes, by rw [ht, hs]; exact hg.tids⟩

/-- A mutex is found at its node. -/
theorem Indexed.findNode?_eq_some_iff (hg : g.Indexed) {i : NodeId} :
    g.findNode? m = some i ↔ i < g.nodes.size ∧ (g.node i).mutex = m := by
  rw [← getElem?_mutexes]
  refine hg.mutexes.find?_eq_some_iff fun j m' hj => ?_
  rw [decide_eq_true_iff, (getElem?_mutexes.1 hj).2]

theorem Indexed.findThread?_eq_some_iff (hg : g.Indexed) {i : Nat} :
    g.findThread? t = some i ↔ i < g.threads.size ∧ (g.threads.getD i default).tid = t := by
  rw [← getElem?_tids]
  refine hg.tids.find?_eq_some_iff fun j t' hj => ?_
  rw [decide_eq_true_iff, (getElem?_tids.1 hj).2]

theorem Indexed.findNode?_eq_none_iff (hg : g.Indexed) :
    g.findNode? m = none ↔ m ∉ g.mutexes := by
  rw [Option.eq_none_iff_forall_ne_some, List.mem_iff_getElem?, not_exists]
  exact forall_congr' fun i => not_congr (hg.findNode?_eq_some_iff.trans getElem?_mutexes.symm)

theorem Indexed.findThread?_eq_none_iff (hg : g.Indexed) :
    g.findThread? t = none ↔ t ∉ g.tids := by
  rw [Option.eq_none_iff_forall_ne_some, List.mem_iff_getElem?, not_exists]
  exact forall_congr' fun i => not_congr (hg.findThread?_eq_some_iff.trans getElem?_tids.symm)

/-- Distinct nodes stand for distinct mutexes. -/
theorem Indexed.mutex_inj (hg : g.Indexed) {i j : NodeId} (hi : i < g.nodes.size)
    (hj : j < g.nodes.size) (h : (g.node i).mutex = (g.node j).mutex) : i = j := by
  have hi' := hg.findNode?_eq_some_iff.2 ⟨hi, h⟩
  have hj' := hg.findNode?_eq_some_iff.2 ⟨hj, rfl⟩
  exact Option.some.inj (hi'.symm.trans hj')

/-! ## Interning -/

/-- A property that a fresh node shares with no node at all is the same everywhere. -/
theorem view_internNode {β : Type} (u : Node → β) (hu : u { mutex := m } = u default)
    (g : Graph) (j : NodeId) : u ((g.internNode m).2.node j) = u (g.node j) := by
  unfold internNode
  split
  · rfl
  · simp only [node_eq, Array.getElem?_push]
    split
    next hj => simp [hj, hu]
    · rfl

theorem node_internNode_of_lt (g : Graph) (m : UInt64) {j : NodeId} (hj : j < g.nodes.size) :
    (g.internNode m).2.node j = g.node j := by
  unfold internNode
  split
  · rfl
  · simp [node_eq, Array.getElem?_push, Nat.ne_of_lt hj]

theorem size_le_internNode (g : Graph) (m : UInt64) :
    g.nodes.size ≤ (g.internNode m).2.nodes.size := by
  unfold internNode
  split <;> simp

theorem threads_internNode (g : Graph) (m : UInt64) :
    (g.internNode m).2.threads = g.threads := by
  unfold internNode
  split <;> rfl

theorem Indexed.internNode (hg : g.Indexed) (m : UInt64) : (g.internNode m).2.Indexed := by
  unfold Graph.internNode
  split
  · exact hg
  next hm =>
    have hpush := hg.mutexes.push (hg.findNode?_eq_none_iff.1 hm)
    rw [length_mutexes] at hpush
    refine ⟨?_, hg.tids⟩
    simpa [Graph.mutexes] using hpush

/-- Interning a mutex gives the number of its node. -/
theorem Indexed.internNode_spec (hg : g.Indexed) (m : UInt64) :
    (g.internNode m).1 < (g.internNode m).2.nodes.size ∧
      ((g.internNode m).2.node (g.internNode m).1).mutex = m := by
  unfold Graph.internNode
  split
  next i hi => exact hg.findNode?_eq_some_iff.1 hi
  next => simp [node_eq]

theorem top_internThread (g : Graph) (t : Tid) (thread : Nat) :
    (g.internThread t).2.top thread = g.top thread := by
  unfold internThread
  split
  · rfl
  · simp only [top, Array.getD_eq_getD_getElem?, Array.getElem?_push]
    split
    next hj => simp [hj]; rfl
    · rfl

theorem nodes_internThread (g : Graph) (t : Tid) : (g.internThread t).2.nodes = g.nodes := by
  unfold internThread
  split <;> rfl

theorem Indexed.internThread (hg : g.Indexed) (t : Tid) : (g.internThread t).2.Indexed := by
  unfold Graph.internThread
  split
  · exact hg
  next ht =>
    have hpush := hg.tids.push (hg.findThread?_eq_none_iff.1 ht)
    rw [length_tids] at hpush
    refine ⟨hg.mutexes, ?_⟩
    simpa [Graph.tids] using hpush

/-- Interning a thread gives its position. -/
theorem Indexed.findThread?_internThread (hg : g.Indexed) (t : Tid) :
    (g.internThread t).2.findThread? t = some (g.internThread t).1 := by
  rw [(hg.internThread t).findThread?_eq_some_iff]
  unfold Graph.internThread
  split
  next i hi => exact hg.findThread?_eq_some_iff.1 hi
  next => simp [Array.getD_eq_getD_getElem?]

end Graph
end Threading.LockOrder

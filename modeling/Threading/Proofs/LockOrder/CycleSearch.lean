import Threading.Proofs.LockOrder.Lookup

/-!
# What the cycle search finds

A search that starts with clean marks stops at a cycle exactly when one can be
reached from its start. Along the way a node that was entered and left again is
tame: no cycle can be reached from it. A frame of the path has only tame children
behind it, apart from the child that the path goes on with, so the start is tame
when the path runs out. Nothing here assumes that the edges are acyclic.
-/
namespace Threading.LockOrder

open Relation

/-- An edge, by the numbers of its ends. -/
def Arc (nodes : Array Node) (a b : NodeId) : Prop := b ∈ (nodes.getD a default).children

/-- No cycle can be reached from a node. -/
def Tame (nodes : Array Node) (i : NodeId) : Prop :=
  ∀ j, ReflTransGen (Arc nodes) i j → ¬ TransGen (Arc nodes) j j

/-- The node with the marks of all searches wiped off. -/
def Node.unmarked (n : Node) : Node := { n with onPath := false, visited := 0 }

variable {nodes : Array Node} {start i c : NodeId}

/-- A node whose children are tame is tame: a cycle through it passes a child. -/
theorem tame_of_forall_arc (h : ∀ c, Arc nodes i c → Tame nodes c) : Tame nodes i := by
  intro j hij hjj
  rcases hij.cases_head with rfl | ⟨c, hic, hcj⟩
  · obtain ⟨c, hic, hci⟩ := TransGen.head'_iff.1 hjj
    exact h c hic i hci hjj
  · exact h c hic j hcj hjj

/-- Along a path, deepest node first, every node leads to the deepest. -/
theorem reflTransGen_of_isChain {top : NodeId} {l : List NodeId}
    (h : (top :: l).IsChain fun a b => Arc nodes b a) (hc : c ∈ top :: l) :
    ReflTransGen (Arc nodes) c top := by
  induction l generalizing top with
  | nil =>
    rw [List.mem_singleton.1 hc]
  | cons a l ih =>
    obtain ⟨hat, hl⟩ := List.isChain_cons_cons.1 h
    rcases List.mem_cons.1 hc with rfl | hc
    · exact .refl
    · exact (ih hl hc).tail hat

theorem getD_eq_of_unmarked {nodes nodes' : Array Node}
    (h : nodes'.map Node.unmarked = nodes.map Node.unmarked) (i : NodeId) :
    (nodes'.getD i default).unmarked = (nodes.getD i default).unmarked := by
  have hi : (nodes'.map Node.unmarked)[i]? = (nodes.map Node.unmarked)[i]? := by rw [h]
  simp only [Array.getElem?_map] at hi
  rw [Array.getD_eq_getD_getElem?, Array.getD_eq_getD_getElem?, ← Option.getD_map Node.unmarked, hi,
    Option.getD_map]

theorem children_eq_of_unmarked {nodes nodes' : Array Node}
    (h : nodes'.map Node.unmarked = nodes.map Node.unmarked) (i : NodeId) :
    (nodes'.getD i default).children = (nodes.getD i default).children := by
  have hi := congrArg Node.children (getD_eq_of_unmarked h i)
  exact hi

theorem arc_iff_of_unmarked {nodes nodes' : Array Node}
    (h : nodes'.map Node.unmarked = nodes.map Node.unmarked) (a b : NodeId) :
    Arc nodes' a b ↔ Arc nodes a b := by
  rw [Arc, Arc, children_eq_of_unmarked h]

namespace Search

variable {s : Search}

def node (s : Search) (i : NodeId) : Node := s.nodes.getD i default

/-- The nodes of the path, deepest first. -/
def trail (s : Search) : List NodeId := s.path.map (·.node)

/-- The path of a search over `nodes` is a path of arcs from `start`, without
repetition, and its nodes are the marked ones. -/
structure Walks (nodes : Array Node) (start : NodeId) (s : Search) : Prop where
  unmarked : s.nodes.map Node.unmarked = nodes.map Node.unmarked
  visited : ∀ i, (s.node i).visited = (nodes.getD i default).visited ∨
    (s.node i).visited = s.epoch
  chain : s.trail.IsChain fun a b => Arc nodes b a
  base : ∀ i ∈ s.trail.getLast?, i = start
  nodup : s.trail.Nodup
  lt : ∀ i ∈ s.trail, i < s.nodes.size
  onPath : ∀ i, (s.node i).onPath = true ↔ i ∈ s.trail
  pending : ∀ f ∈ s.path, ∀ c ∈ f.pending, Arc nodes f.node c

/-- Each child of a frame is still to be explored, tame, or the next node of the
path; `above` is the node that follows the first frame. -/
def Finished (nodes : Array Node) : (above : Option NodeId) → List Frame → Prop
  | _, [] => True
  | above, f :: rest =>
    (∀ c, Arc nodes f.node c → c ∈ f.pending ∨ Tame nodes c ∨ some c = above) ∧
      Finished nodes (some f.node) rest

/-- What the search has left behind is tame. -/
structure Explored (nodes : Array Node) (start : NodeId) (s : Search) : Prop where
  tame : ∀ i, (s.node i).visited = s.epoch → (s.node i).onPath = false → Tame nodes i
  start : s.path = [] → Tame nodes start
  finished : Finished nodes none s.path

theorem Finished.none_of_tame {rest : List Frame} (h : Finished nodes (some i) rest)
    (hi : Tame nodes i) : Finished nodes none rest := by
  cases rest with
  | nil => trivial
  | cons f rest =>
    refine ⟨fun c hc => ?_, h.2⟩
    rcases h.1 c hc with hp | ht | he
    · exact .inl hp
    · exact .inr (.inl ht)
    · rw [Option.some.inj he]
      exact .inr (.inl hi)

/-! ## One turn -/

variable {rest : List Frame} {pending : List NodeId}

theorem node_modify_self (hi : i < s.nodes.size) (f : Node → Node) (path : List Frame) :
    node { s with nodes := s.nodes.modify i f, path } i = f (s.node i) :=
  Graph.node_modifyNode_self { nodes := s.nodes } hi f

theorem node_modify_of_ne {j : NodeId} (h : j ≠ i) (f : Node → Node) (path : List Frame) :
    node { s with nodes := s.nodes.modify i f, path } j = s.node j :=
  Graph.node_modifyNode_of_ne { nodes := s.nodes } h f

theorem size_eq (h : s.Walks nodes start) : s.nodes.size = nodes.size := by
  simpa using congrArg Array.size h.unmarked

/-- Going back from a node whose children are all explored. -/
theorem Walks.back (h : s.Walks nodes start) (hp : s.path = ⟨i, []⟩ :: rest) :
    Walks nodes start { s with nodes := s.nodes.modify i (·.leave), path := rest } := by
  have htrail : s.trail = i :: rest.map (·.node) := by rw [trail, hp]; rfl
  have hi : i < s.nodes.size := h.lt i (by simp [htrail])
  have hnot : i ∉ rest.map (·.node) := (List.nodup_cons.1 (htrail ▸ h.nodup)).1
  refine ⟨?_, fun j => ?_, ?_, fun j hj => ?_, ?_, fun j hj => ?_, fun j => ?_, fun f hf => ?_⟩
  · rw [Graph.map_modify_of_eq _ _ _ _ fun n => by rfl]
    exact h.unmarked
  · by_cases hj : j = i
    · subst hj
      rw [node_modify_self hi]
      exact h.visited j
    · rw [node_modify_of_ne hj]
      exact h.visited j
  · exact (htrail ▸ h.chain).tail
  · refine h.base j ?_
    rw [htrail, List.getLast?_cons]
    simp only [trail] at hj
    rw [Option.mem_def.1 hj]
    rfl
  · exact (List.nodup_cons.1 (htrail ▸ h.nodup)).2
  · rw [Array.size_modify]
    exact h.lt j (htrail ▸ List.mem_cons_of_mem i hj)
  · by_cases hj : j = i
    · subst hj
      rw [node_modify_self hi]
      simpa [Node.leave, trail] using hnot
    · rw [node_modify_of_ne hj, h.onPath j, htrail, List.mem_cons]
      exact or_iff_right hj
  · exact h.pending f (hp ▸ List.mem_cons_of_mem _ hf)

theorem Explored.back (h : s.Explored nodes start) (hw : s.Walks nodes start)
    (hp : s.path = ⟨i, []⟩ :: rest) :
    Explored nodes start { s with nodes := s.nodes.modify i (·.leave), path := rest } := by
  have htrail : s.trail = i :: rest.map (·.node) := by rw [trail, hp]; rfl
  have hfin := h.finished
  rw [hp] at hfin
  have hi : Tame nodes i := by
    refine tame_of_forall_arc fun c hc => ?_
    rcases hfin.1 c hc with hpend | ht | he
    · exact absurd hpend List.not_mem_nil
    · exact ht
    · exact absurd he (Option.some_ne_none c)
  refine ⟨fun j hv ho => ?_, fun hrest => ?_, hfin.2.none_of_tame hi⟩
  · by_cases hj : j = i
    · rwa [hj]
    · rw [node_modify_of_ne hj] at hv ho
      exact h.tame j hv ho
  · have hs : i = start := hw.base i (by simp only at hrest; simp [htrail, hrest])
    rwa [← hs]

/-- Leaving a child out moves nothing. -/
theorem Walks.next (h : s.Walks nodes start) (hp : s.path = ⟨i, c :: pending⟩ :: rest) :
    Walks nodes start { s with path := ⟨i, pending⟩ :: rest } := by
  have htrail : trail { s with path := ⟨i, pending⟩ :: rest } = s.trail := by
    simp [trail, hp]
  refine ⟨h.unmarked, h.visited, ?_, ?_, ?_, ?_, ?_, fun f hf d hd => ?_⟩
  · rw [htrail]
    exact h.chain
  · rw [htrail]
    exact h.base
  · rw [htrail]
    exact h.nodup
  · rw [htrail]
    exact h.lt
  · rw [htrail]
    exact h.onPath
  · rcases List.mem_cons.1 hf with rfl | hf
    · exact h.pending ⟨i, c :: pending⟩ (by simp [hp]) d (List.mem_cons_of_mem c hd)
    · exact h.pending f (hp ▸ List.mem_cons_of_mem _ hf) d hd

theorem Explored.next (h : s.Explored nodes start) (hp : s.path = ⟨i, c :: pending⟩ :: rest)
    (hc : Tame nodes c) : Explored nodes start { s with path := ⟨i, pending⟩ :: rest } := by
  have hfin := h.finished
  rw [hp] at hfin
  refine ⟨h.tame, fun hnil => absurd hnil (List.cons_ne_nil _ _), fun d hd => ?_, hfin.2⟩
  rcases hfin.1 d hd with hpend | ht
  · rcases List.mem_cons.1 hpend with rfl | hpend
    · exact .inr (.inl hc)
    · exact .inl hpend
  · exact .inr ht

/-- Entering a child that no search frame holds. -/
theorem Walks.enter (h : s.Walks nodes start) (hp : s.path = ⟨i, c :: pending⟩ :: rest)
    (hlt : c < s.nodes.size) (hoff : (s.node c).onPath = false) :
    Walks nodes start (Search.enter { s with path := ⟨i, pending⟩ :: rest } c) := by
  have hn := h.next hp
  have htrail : s.trail = i :: rest.map (·.node) := by rw [trail, hp]; rfl
  have hnot : c ∉ s.trail := by
    rw [← h.onPath, hoff]
    exact Bool.false_ne_true
  have harc : Arc nodes i c := h.pending ⟨i, c :: pending⟩ (by simp [hp]) c (by simp)
  have henter : trail (Search.enter { s with path := ⟨i, pending⟩ :: rest } c) = c :: s.trail := by
    rw [htrail]
    rfl
  refine ⟨?_, fun j => ?_, ?_, fun j hj => ?_, ?_, fun j hj => ?_, fun j => ?_, fun f hf d hd => ?_⟩
  · rw [Search.enter, Graph.map_modify_of_eq _ _ _ _ fun n => by rfl]
    exact h.unmarked
  · by_cases hj : j = c
    · subst hj
      rw [Search.enter, node_modify_self hlt]
      exact .inr rfl
    · rw [Search.enter, node_modify_of_ne hj]
      exact h.visited j
  · rw [henter, htrail]
    exact List.isChain_cons_cons.2 ⟨harc, htrail ▸ h.chain⟩
  · rw [henter, List.getLast?_cons, htrail] at hj
    refine h.base j ?_
    rw [htrail]
    simpa [List.getLast?_cons] using hj
  · rw [henter]
    exact List.nodup_cons.2 ⟨hnot, h.nodup⟩
  · rw [henter] at hj
    rw [Search.enter, Array.size_modify]
    rcases List.mem_cons.1 hj with rfl | hj
    · exact hlt
    · exact h.lt j hj
  · rw [henter]
    by_cases hj : j = c
    · subst hj
      rw [Search.enter, node_modify_self hlt]
      simp [Node.enter]
    · rw [Search.enter, node_modify_of_ne hj, List.mem_cons]
      exact (h.onPath j).trans (or_iff_right hj).symm
  · rcases List.mem_cons.1 hf with rfl | hf
    · rw [Arc, ← children_eq_of_unmarked h.unmarked]
      exact List.mem_reverse.1 hd
    · exact hn.pending f hf d hd

theorem Explored.enter (h : s.Explored nodes start) (hw : s.Walks nodes start)
    (hp : s.path = ⟨i, c :: pending⟩ :: rest) (hlt : c < s.nodes.size) :
    Explored nodes start (Search.enter { s with path := ⟨i, pending⟩ :: rest } c) := by
  have hfin := h.finished
  rw [hp] at hfin
  refine ⟨fun j hv ho => ?_, fun hnil => absurd hnil (List.cons_ne_nil _ _), fun d hd => ?_,
    fun d hd => ?_, hfin.2⟩
  · by_cases hj : j = c
    · subst hj
      rw [Search.enter, node_modify_self hlt] at ho
      exact absurd ho (by simp [Node.enter])
    · rw [Search.enter, node_modify_of_ne hj] at hv ho
      exact h.tame j hv ho
  · rw [Arc, ← children_eq_of_unmarked hw.unmarked] at hd
    exact .inl (List.mem_reverse.2 hd)
  · rcases hfin.1 d hd with hpend | ht | he
    · rcases List.mem_cons.1 hpend with rfl | hpend
      · exact .inr (.inr rfl)
      · exact .inl hpend
    · exact .inr (.inl ht)
    · exact absurd he (Option.some_ne_none d)

/-! ## A whole search -/

/-- A search that keeps to its path until it ends either runs out of path, its start
being tame, or stops at a node of its path that the deepest node has an edge to. -/
theorem run_spec (hw : s.Walks nodes start) (he : s.Explored nodes start) :
    s.run.1.Walks nodes start ∧ s.run.1.epoch = s.epoch ∧
      (s.run.2 = none → s.run.1.path = [] ∧ Tame nodes start) ∧
      ∀ c, s.run.2 = some c → c ∈ s.run.1.trail ∧
        ∃ top, s.run.1.trail.head? = some top ∧ Arc nodes top c := by
  fun_induction Search.run s with
  | case1 s hp =>
    exact ⟨hw, rfl, fun _ => ⟨hp, he.start hp⟩, fun c hc => absurd hc (by simp)⟩
  | case2 s i rest hp ih =>
    exact ih (hw.back hp) (he.back hw hp)
  | case3 s i c pending rest hp t hc ih =>
    have hsize : nodes.size ≤ c := by
      rw [← size_eq hw]
      exact Array.getElem?_eq_none_iff.1 hc
    have hleaf : Tame nodes c := tame_of_forall_arc fun d hd => by
      rw [Arc, Array.getD_eq_getD_getElem?, Array.getElem?_eq_none hsize] at hd
      exact absurd hd List.not_mem_nil
    exact ih (hw.next hp) (he.next hp hleaf)
  | case4 s i c pending rest hp t n hc hon =>
    have hn : s.node c = n := by simp [node, Array.getD_eq_getD_getElem?, hc]
    have hmem : c ∈ s.trail := (hw.onPath c).1 (hn ▸ hon)
    have htrail : trail { s with path := ⟨i, pending⟩ :: rest } = s.trail := by simp [trail, hp]
    refine ⟨hw.next hp, rfl, fun h => absurd h (by simp), fun d hd => ?_⟩
    obtain rfl : c = d := Option.some.inj hd
    exact ⟨htrail ▸ hmem, i, rfl, hw.pending ⟨i, c :: pending⟩ (by simp [hp]) c (by simp)⟩
  | case5 s i c pending rest hp t n hc hon hv ih =>
    have hn : s.node c = n := by simp [node, Array.getD_eq_getD_getElem?, hc]
    have htame : Tame nodes c := he.tame c (hn ▸ hv) (by simpa [hn] using hon)
    exact ih (hw.next hp) (he.next hp htame)
  | case6 s i c pending rest hp t n hc hon hv ih =>
    have hn : s.node c = n := by simp [node, Array.getD_eq_getD_getElem?, hc]
    have hlt : c < s.nodes.size := (Array.getElem?_eq_some_iff.1 hc).1
    exact ih (hw.enter hp hlt (by simpa [hn] using hon)) (he.enter hw hp hlt)

/-- A search writes nothing but marks. -/
theorem unmarked_run (s : Search) :
    s.run.1.nodes.map Node.unmarked = s.nodes.map Node.unmarked := by
  fun_induction Search.run s with
  | case1 => rfl
  | case2 s i rest hp ih => rw [ih, Graph.map_modify_of_eq _ _ _ _ fun n => by rfl]
  | case3 s i c pending rest hp t hc ih => exact ih
  | case4 => rfl
  | case5 s i c pending rest hp t n hc hon hv ih => exact ih
  | case6 s i c pending rest hp t n hc hon hv ih =>
    rw [ih, Search.enter, Graph.map_modify_of_eq _ _ _ _ fun n => by rfl]

theorem walks_enter (epoch : UInt32) (hlt : start < nodes.size)
    (hoff : ∀ i, (nodes.getD i default).onPath = false) :
    Walks nodes start (Search.enter { nodes, epoch } start) := by
  refine ⟨?_, fun j => ?_, List.isChain_singleton _, fun j hj => ?_, by simp [trail, Search.enter],
    fun j hj => ?_, fun j => ?_, fun f hf d hd => ?_⟩
  · rw [Search.enter, Graph.map_modify_of_eq _ _ _ _ fun n => by rfl]
  · by_cases hj : j = start
    · subst hj
      rw [Search.enter, node_modify_self hlt]
      exact .inr rfl
    · rw [Search.enter, node_modify_of_ne hj]
      exact .inl rfl
  · exact (Option.some.inj (Option.mem_def.1 hj)).symm
  · rw [Search.enter, Array.size_modify, List.mem_singleton.1 hj]
    exact hlt
  · by_cases hj : j = start
    · subst hj
      rw [Search.enter, node_modify_self hlt]
      simp [Node.enter, trail]
    · rw [Search.enter, node_modify_of_ne hj]
      simpa [trail, hj, node] using hoff j
  · obtain rfl := List.mem_singleton.1 hf
    exact List.mem_reverse.1 hd

theorem explored_enter (epoch : UInt32) (hlt : start < nodes.size)
    (hfresh : ∀ i, (nodes.getD i default).visited ≠ epoch) :
    Explored nodes start (Search.enter { nodes, epoch } start) := by
  refine ⟨fun j hv ho => ?_, fun h => absurd h (List.cons_ne_nil _ _), fun d hd => ?_, trivial⟩
  · by_cases hj : j = start
    · subst hj
      rw [Search.enter, node_modify_self hlt] at ho
      exact absurd ho (by simp [Node.enter])
    · rw [Search.enter, node_modify_of_ne hj] at hv
      exact absurd hv (hfresh j)
  · exact .inl (List.mem_reverse.2 hd)

/-- A whole search that starts with clean marks and a new number. -/
theorem run_enter_spec (epoch : UInt32) (hlt : start < nodes.size)
    (hoff : ∀ i, (nodes.getD i default).onPath = false)
    (hfresh : ∀ i, (nodes.getD i default).visited ≠ epoch) :
    let found := (Search.enter { nodes, epoch } start).run
    found.1.Walks nodes start ∧ found.1.epoch = epoch ∧
      (found.2 = none → found.1.path = [] ∧ Tame nodes start) ∧
      ∀ c, found.2 = some c → c ∈ found.1.trail ∧
        ∃ top, found.1.trail.head? = some top ∧ Arc nodes top c :=
  run_spec (walks_enter epoch hlt hoff) (explored_enter epoch hlt hfresh)

end Search

namespace Graph

variable {g g' : Graph} {closing : Option NodeId}

theorem unmarked_leaveAll (l : List NodeId) (nodes : Array Node) :
    (l.foldl (fun nodes i => nodes.modify i (·.leave)) nodes).map Node.unmarked =
      nodes.map Node.unmarked := by
  induction l generalizing nodes with
  | nil => rfl
  | cons i l ih =>
    rw [List.foldl_cons, ih, map_modify_of_eq _ _ _ _ fun n => by rfl]

/-- Leaving the nodes of a list clears their marks and keeps what was visited. -/
theorem marks_leaveAll (l : List NodeId) (nodes : Array Node) (j : NodeId) :
    let n := (l.foldl (fun nodes i => nodes.modify i (·.leave)) nodes).getD j default
    n.visited = (nodes.getD j default).visited ∧
      (n.onPath = true → (nodes.getD j default).onPath = true ∧ j ∉ l) := by
  induction l generalizing nodes with
  | nil => exact ⟨rfl, fun h => ⟨h, List.not_mem_nil⟩⟩
  | cons i l ih =>
    obtain ⟨hv, ho⟩ := ih (nodes.modify i (·.leave))
    have hnode : (nodes.modify i (·.leave)).getD j default =
        if i = j ∧ j < nodes.size then (nodes.getD j default).leave else nodes.getD j default :=
      node_modifyNode { nodes } i j (·.leave)
    rw [hnode] at hv ho
    refine ⟨?_, fun h => ?_⟩
    · rw [List.foldl_cons, hv]
      split <;> rfl
    · obtain ⟨hon, hl⟩ := ho h
      split at hon
      · exact absurd hon (by simp [Node.leave])
      next hij =>
        refine ⟨hon, fun hmem => ?_⟩
        rcases List.mem_cons.1 hmem with rfl | hmem
        · have hlt : ¬ j < nodes.size := fun hlt => hij ⟨rfl, hlt⟩
          rw [Array.getD_eq_getD_getElem?, Array.getElem?_eq_none (Nat.le_of_not_lt hlt)] at hon
          exact absurd hon (by decide)
        · exact hl hmem

theorem unmarked_findCycle (g : Graph) (start : NodeId) :
    (g.findCycle start).1.nodes.map Node.unmarked = g.nodes.map Node.unmarked := by
  rw [findCycle]
  refine (unmarked_leaveAll _ _).trans ((Search.unmarked_run _).trans ?_)
  rw [Search.enter, map_modify_of_eq _ _ _ _ fun n => by rfl]

/-- A search leaves the held locks alone. -/
theorem heldPart_findCycle (g : Graph) (start : NodeId) :
    (g.findCycle start).1.heldPart = g.heldPart := by
  have h := congrArg (Array.map Node.forgetOrder) (unmarked_findCycle g start)
  simp only [Array.map_map] at h
  unfold heldPart
  congr 1

/-- The path that a search leaves behind when it finds a cycle, deepest node first: it leads
from the start along arcs, without repetition, and its deepest node has an arc back to it. -/
structure Loops (nodes : Array Node) (start c : NodeId) (trail : List NodeId) : Prop where
  chain : trail.IsChain fun a b => Arc nodes b a
  last : trail.getLast? = some start
  nodup : trail.Nodup
  mem : c ∈ trail
  closes : ∃ top rest, trail = top :: rest ∧ Arc nodes top c

theorem Loops.not_tame {trail : List NodeId} (h : Loops nodes start c trail) :
    ¬ Tame nodes start := by
  obtain ⟨top, rest, rfl, harc⟩ := h.closes
  have hstart : ReflTransGen (Arc nodes) start top :=
    reflTransGen_of_isChain h.chain (List.mem_of_getLast? h.last)
  have hloop : ReflTransGen (Arc nodes) c top := reflTransGen_of_isChain h.chain h.mem
  exact fun htame => htame c (hstart.tail harc) (.tail' hloop harc)

theorem findCycle_loops (hlt : i < g.nodes.size) (hoff : ∀ j, (g.node j).onPath = false)
    (hfresh : ∀ j, (g.node j).visited ≠ nextEpoch g.epoch)
    (h : g.findCycle i = (g', some c)) : Loops g.nodes i c g'.trail := by
  obtain ⟨hw, -, -, hsome⟩ := Search.run_enter_spec (nextEpoch g.epoch) hlt hoff hfresh
  obtain ⟨rfl, hc⟩ := Prod.mk.inj h
  obtain ⟨hmem, top, htop, harc⟩ := hsome c hc
  obtain ⟨rest, hrest⟩ := List.head?_eq_some_iff.1 htop
  have hne := List.ne_nil_of_mem hmem
  have hlast := hw.base _ (List.getLast_mem_getLast? hne)
  exact ⟨hw.chain, (List.getLast?_eq_some_getLast hne).trans (congrArg some hlast), hw.nodup, hmem,
    top, rest, hrest, harc⟩

/-- What a search does, started with clean marks and a new number: it finds a cycle
exactly if one can be reached, and its own marks are off again afterwards. -/
theorem findCycle_spec (hlt : i < g.nodes.size) (hoff : ∀ j, (g.node j).onPath = false)
    (hfresh : ∀ j, (g.node j).visited ≠ nextEpoch g.epoch)
    (h : g.findCycle i = (g', closing)) :
    (closing = none ↔ Tame g.nodes i) ∧ (∀ j, (g'.node j).onPath = false) ∧
      ∀ j, (g'.node j).visited = (g.node j).visited ∨ (g'.node j).visited = g'.epoch := by
  obtain ⟨hw, hepoch, hnone, -⟩ := Search.run_enter_spec (nextEpoch g.epoch) hlt hoff hfresh
  have hloops (c : NodeId) (hc : closing = some c) : ¬ Tame g.nodes i :=
    (findCycle_loops hlt hoff hfresh (hc ▸ h)).not_tame
  obtain ⟨rfl, rfl⟩ := Prod.mk.inj h
  refine ⟨⟨fun h => (hnone h).2, fun htame => ?_⟩, fun j => ?_, fun j => ?_⟩
  · rw [Option.eq_none_iff_forall_ne_some]
    exact fun c hc => hloops c hc htame
  · rw [← Bool.not_eq_true]
    intro hon
    obtain ⟨hon, hnot⟩ := (marks_leaveAll _ _ j).2 hon
    exact hnot ((hw.onPath j).1 hon)
  · let s := (Search.enter { nodes := g.nodes, epoch := nextEpoch g.epoch } i).run.1
    have hv := (marks_leaveAll s.trail s.nodes j).1
    rcases hw.visited j with h | h
    · exact .inl (hv.trans h)
    · exact .inr (hv.trans (h.trans hepoch))

end Graph
end Threading.LockOrder

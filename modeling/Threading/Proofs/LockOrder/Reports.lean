import Threading.LockOrder.Observer
import Threading.Proofs.LockOrder.Origins
import Threading.Proofs.LockOrder.Tracking

/-!
# What a report says

A report is put together from what the search leaves behind, while the rejected edge is still
in the graph and the new lock is not yet in the list of its thread. As the older edges have no
cycle, the search can only have closed the cycle through the rejected edge: its path leads from
the attempted lock along older edges to the last lock of the thread. So the report gives every
lock of the path the call stack of an older edge, and only the attempted one that of the
rejected edge.
-/
namespace Threading.LockOrder

variable {calls : List Call} {g g' g₁ : Graph} {m : UInt64} {t : Tid} {es : List NewEdge}
variable {stack : Option CallStack} {capture : Bool} {report : Option Report}
variable {i j prev : NodeId} {l : List NodeId} {edge : NewEdge}

/-- The order of `x` and the site's lock is recorded, and the site has the call stack that the
recording call stored with the edge. -/
def Site.Follows (s : Site) (x : UInt64) (calls : List Call) (g : Graph) (capture : Bool) : Prop :=
  g.Precedes x s.mutex ∧ ∃ newer c older, calls = newer ++ c :: older ∧ c.AddsEdge x s.mutex ∧
    s.stack = if capture then c.edgeStack older else .empty

/-- What a report on the acquisition of `m` by `t` says of the calls that led to `g`. -/
structure Report.Explains (r : Report) (calls : List Call) (g : Graph) (m : UInt64) (t : Tid)
    (stack : Option CallStack) (capture : Bool) : Prop where
  tid : r.tid = t
  attempt : r.attempt = m
  /-- The graph has the same locks in the list of `t`. -/
  listed : g.heldBy? t = some (r.held.map (·.mutex))
  /-- All locks that `t` holds, most recent first, with the call stacks of their acquisitions. -/
  held : r.held = (ledger UInt32 t (events calls)).mutexes.map fun x =>
    ⟨x, if capture then lastStack x calls else .empty⟩
  distinct : (r.order.map (·.mutex)).Nodup
  first : r.order.head?.map (·.mutex) = (ledger UInt32 t (events calls)).mutexes.head?
  last : r.order.getLast? = some ⟨m, if capture then stack.getD (lastStack m calls) else .empty⟩
  /-- Read backwards, the order is a path of recorded edges. -/
  path : r.order.IsChain fun s s' => s.Follows s'.mutex calls g capture

namespace Graph

/-! ## The order of a report -/

/-- The site of a node, with the call stack of its edge from `parent`. -/
def siteAt (g : Graph) (capture : Bool) (parent i : NodeId) : Site :=
  ⟨(g.node i).mutex,
    if capture then ((g.node i).edgeStack? parent).getD (g.node i).stack else .empty⟩

theorem orderSites_cons (g : Graph) (prev : NodeId) (capture : Bool) (i : NodeId)
    (rest : List NodeId) : g.orderSites prev capture (i :: rest) =
      g.siteAt capture (rest.head?.getD prev) i :: g.orderSites prev capture rest := rfl

theorem map_mutex_orderSites (g : Graph) (prev : NodeId) (capture : Bool) (l : List NodeId) :
    (g.orderSites prev capture l).map (·.mutex) = l.map fun i => (g.node i).mutex := by
  induction l with
  | nil => rfl
  | cons i l ih => rw [orderSites_cons, List.map_cons, ih, List.map_cons, siteAt]

theorem getLast?_orderSites (g : Graph) (prev : NodeId) (capture : Bool) (l : List NodeId) :
    (g.orderSites prev capture l).getLast? = l.getLast?.map (g.siteAt capture prev) := by
  induction l with
  | nil => rfl
  | cons i l ih =>
    cases l with
    | nil => rfl
    | cons j l =>
      rw [orderSites_cons, orderSites_cons, List.getLast?_cons_cons, ← orderSites_cons, ih,
        List.getLast?_cons_cons]

/-- Where the nodes follow each other, the sites do. -/
theorem isChain_orderSites {R : Site → UInt64 → Prop} (prev : NodeId)
    (h : l.IsChain fun i j => R (g.siteAt capture j i) (g.node j).mutex) :
    (g.orderSites prev capture l).IsChain fun s s' => R s s'.mutex := by
  induction l with
  | nil => exact .nil
  | cons i l ih =>
    cases l with
    | nil => exact .singleton _
    | cons j l =>
      obtain ⟨hij, hl⟩ := List.isChain_cons_cons.1 h
      exact List.isChain_cons_cons.2 ⟨hij, ih hl⟩

/-- The site of an edge that is drawn has the call stack of the edge. -/
theorem Draws.siteAt (h : g.Draws es) (hedge : edge ∈ es) (capture : Bool) :
    g.siteAt capture edge.parent edge.child =
      ⟨(g.node edge.child).mutex, if capture then edge.stack else .empty⟩ := by
  rw [Graph.siteAt, h.edgeStack?_eq_some_iff.2 hedge, Option.getD_some]

/-! ## A predicted deadlock -/

/-- The graph that the search of an acquisition by `t` after `prev` runs on. -/
def searched (g : Graph) (m : UInt64) (t : Tid) (stack : Option CallStack) (capture : Bool)
    (prev : NodeId) : Graph :=
  (g.claimed m t stack).link prev (g.internNode m).1
    ((g.claimed m t stack).edgeStackOf (g.internNode m).1 capture)

/-- A deadlock is predicted if the search comes back to the attempted lock, and reported from
what the search leaves. -/
theorem WellFormed.predicted_onLock (hg : g.WellFormed) (ho : g.Ordered)
    (hepoch : g.epoch.toNat < 2 ^ 32 - 1)
    (h : g.onLock m t stack capture = some (g', .predictedDeadlock, report)) :
    g.ownerOf m ≠ t ∧ ∃ prev g₁ r, g.topOf t = some prev ∧ ¬ g.Edge prev (g.internNode m).1 ∧
      (g.searched m t stack capture prev).findCycle (g.internNode m).1 =
        (g₁, some (g.internNode m).1) ∧
      g.PathBack (g.internNode m).1 prev g₁.trail ∧ report = some r ∧
      g₁.report? t prev (g.internNode m).1 capture = some r := by
  obtain ⟨-, hout, -⟩ | ⟨howner, _, hrecord, -⟩ := onLock_cases h
  · exact absurd hout (by simp)
  obtain ⟨hout, -⟩ | ⟨prev, g₁, closing, htop, -, hnew, hsearch, hend⟩ := recordOrder_cases hrecord
  · exact absurd hout (by simp)
  obtain ⟨-, hout, -⟩ | ⟨-, -, c, r, rfl, hreport, hr⟩ := hend
  · exact absurd hout (by simp)
  rw [top_claimed hg.indexed] at htop
  have hlt := Nat.lt_of_lt_of_le (hg.inRange.topOf htop) (grows_claimed g m t stack).size
  obtain ⟨rfl, hpath⟩ := (ho.claimed m t stack).findCycle_link_eq_some (lt_size_claimed hg) hlt
    (by rwa [epoch_claimed]) hsearch
  have hold : (g.claimed m t stack).Edge = g.Edge := funext₂ fun a b => propext edge_claimed
  refine ⟨howner, prev, g₁, r, htop, hold ▸ hnew, hsearch, ?_, hreport, hr⟩
  exact ⟨hpath.first, hpath.last, hpath.nodup, hold ▸ hpath.chain⟩

theorem PathBack.lt (h : g.PathBack i j l) (hj : j < g.nodes.size) : ∀ k ∈ l, k < g.nodes.size := by
  intro k hk
  obtain ⟨rest, rfl⟩ := h.first
  rcases (reflTransGen_of_isChain h.chain hk).cases_head with rfl | ⟨_, hedge, -⟩
  · exact hj
  · exact Edge.lt_left hedge

/-- The edges that the report sees: the recorded ones and the rejected one. -/
theorem Draws.searched (h : g.Draws es) (hg : g.WellFormed) (hprev : g.topOf t = some prev)
    (hnew : ¬ g.Edge prev (g.internNode m).1) {closing : Option NodeId}
    (hsearch : (g.searched m t stack capture prev).findCycle (g.internNode m).1 = (g₁, closing)) :
    g₁.Draws (es ++ [⟨prev, (g.internNode m).1,
      if capture then stack.getD (g.stackOf m) else .empty⟩]) := by
  have hlt := Nat.lt_of_lt_of_le (hg.inRange.topOf hprev) (grows_claimed g m t stack).size
  have hlinked := (h.claimed m t stack).link hlt (lt_size_claimed hg)
    (fun hedge => hnew (edge_claimed.1 hedge))
    ((g.claimed m t stack).edgeStackOf (g.internNode m).1 capture)
  have hdraws := hlinked.findCycle (g.internNode m).1
  rw [Graph.searched] at hsearch
  rw [hsearch, edgeStackOf, stack_claimed hg.indexed] at hdraws
  exact hdraws

/-- The report finds every lock at its node. -/
theorem mutex_of_heldPart_claimed (h : g₁.heldPart = (g.claimed m t stack).heldPart)
    (hj : j < g.nodes.size) : (g₁.node j).mutex = (g.node j).mutex :=
  ((grows_claimed g m t stack).trans (grows_of_heldPart h)).mutex j hj

/-- The attempted lock is none of the locks that the thread holds, so they have the call stacks
that they had before. -/
theorem WellFormed.stack_of_heldPart_claimed (hg : g.WellFormed) (howner : g.ownerOf m ≠ t)
    (h : g₁.heldPart = (g.claimed m t stack).heldPart) (hl : g.Stack t l) (hj : j ∈ l) :
    (g₁.node j).stack = g.stackOf (g.node j).mutex := by
  have hne : j ≠ (g.internNode m).1 := by
    rintro rfl
    exact howner ((owner_node_internNode g m).symm.trans ((hl.mem_iff _).1 hj).2)
  have hfind := hg.indexed.findNode?_eq_some_iff.2 ⟨hl.lt hg.inRange j hj, rfl⟩
  rw [stack_eq_of_heldPart h, node_claimed, node_modifyNode_of_ne _ hne,
    view_internNode Node.stack (by rfl), stackOf_of_find hfind]

end Graph

/-- A lock of the path follows the next one. -/
theorem Run.follows_of_edge (h : Run calls g) (ho : g.Ordered) (hdraws : g₁.Draws es)
    (hsub : newEdges calls ⊆ es) (hmutex : ∀ k < g.nodes.size, (g₁.node k).mutex = (g.node k).mutex)
    (hij : g.Edge i j) : (g₁.siteAt capture i j).Follows (g₁.node i).mutex calls g capture := by
  obtain ⟨edge, hedge, rfl, rfl⟩ := h.draws.1.edge_iff.1 hij
  obtain ⟨hparent, hchild⟩ := h.draws.1.lt edge hedge
  rw [hdraws.siteAt (hsub hedge), hmutex _ hparent, hmutex _ hchild]
  refine ⟨(Graph.precedes_node h.wellFormed.indexed ho hparent hchild).2 hij, ?_⟩
  obtain ⟨newer, c, older, hcalls, hadds, hstack⟩ := h.exists_addsEdge hedge
  exact ⟨newer, c, older, hcalls, hadds, by rw [hstack]⟩

/-- A notice whose priority passes the minimum is delivered whole. -/
theorem Notice.delivered_lines {least : LogPriority} (n : Notice)
    (hleast : least.passes n.priority = true) (pid t : Tid) (here : CallStack) (symbols : Symbols) :
    (Log.delivered least (n.lines pid t here symbols)).map (·.message) =
      n.messages pid here symbols := by
  have hall : Log.delivered least (n.lines pid t here symbols) = n.lines pid t here symbols := by
    refine List.filter_eq_self.2 fun line hline => ?_
    obtain ⟨message, -, rfl⟩ := List.mem_map.1 hline
    exact hleast
  rw [hall, Notice.lines, List.map_map]
  exact List.map_id _

/-- The text of a report: the attempted lock, the locks held before and the path, in this order
and each lock followed by the frames of its call stack. -/
structure Report.Reads (r : Report) (pid : Tid) (here : CallStack) (symbols : Symbols)
    (messages : List String) : Prop where
  parts : messages = r.lines pid here symbols
  order : messages =
    ["=============== predicted deadlock ===============",
      "pid: " ++ Text.signedDecimal pid.toInt ++ ", tid: " ++ Text.signedDecimal r.tid.toInt ++
        " >>> lock order violation <<<",
      "Illegal lock attempt:",
      "--- mutex at " ++ Text.hexadecimal r.attempt.toNat] ++
    here.frames.zipIdx.map (fun (pc, i) => "          " ++ CallStack.frameText symbols i pc) ++
    ["+++ Currently held locks in this thread (in reverse order):"] ++
    r.held.flatMap (fun s => ("--- mutex at " ++ Text.hexadecimal s.mutex.toNat) ::
      s.stack.frames.zipIdx.map fun (pc, i) => "          " ++ CallStack.frameText symbols i pc) ++
    ["+++ Earlier, the following lock order (from last to first) was established"] ++
    r.order.flatMap (fun s => ("--- mutex at " ++ Text.hexadecimal s.mutex.toNat) ::
      s.stack.frames.zipIdx.map fun (pc, i) => "          " ++ CallStack.frameText symbols i pc) ++
    ["=============== end predicted deadlock ==============="]

theorem Report.reads_lines (r : Report) (pid : Tid) (here : CallStack) (symbols : Symbols) :
    r.Reads pid here symbols (r.lines pid here symbols) where
  parts := rfl
  order := by
    simp only [Report.lines, List.append_assoc, List.cons_append, List.nil_append]
    rfl

/-- In a disciplined run, the report of a predicted deadlock names the attempted lock, the locks
that the thread holds, and a path of recorded edges from the attempted lock back to the last of
these, with the call stacks of the acquisitions that are behind them; and it is delivered whole
and in this order unless warnings are not. -/
theorem Run.report_explains (h : Run calls g) (hd : Disciplined (events calls))
    (hs : searches calls < 2 ^ 32 - 1)
    (hlock : g.onLock m t stack capture = some (g', .predictedDeadlock, report)) :
    ∃ r, report = some r ∧ r.Explains calls g m t stack capture ∧
      ∀ least : LogPriority, least.passes .warn = true → ∀ pid here symbols,
        r.Reads pid here symbols ((Log.delivered least
          ((Notice.predicted r).lines pid t here symbols)).map (·.message)) := by
  have hb := h.books hd
  have hg := hb.wellFormed
  obtain ⟨ho, hepoch⟩ := h.ordered hs
  obtain ⟨howner, prev, g₁, r, htop, hnew, hsearch, hpath, rfl, hr⟩ :=
    hg.predicted_onLock ho (by omega) hlock
  have hdraws := h.draws.1.searched hg htop hnew hsearch
  have hheld : g₁.heldPart = (g.claimed m t stack).heldPart := Graph.heldPart_findCycle_link hsearch
  have hmutex (k : NodeId) (hk : k < g.nodes.size) : (g₁.node k).mutex = (g.node k).mutex :=
    Graph.mutex_of_heldPart_claimed hheld hk
  have hattempt : (g₁.node (g.internNode m).1).mutex = m :=
    (Graph.mutex_eq_of_heldPart hheld _).trans (Graph.mutex_claimed hg.indexed)
  have hprev := hg.inRange.topOf htop
  obtain ⟨l, hl⟩ := hb.stacked t
  have hledger : l.map (fun j => (g.node j).mutex) = (ledger UInt32 t (events calls)).mutexes :=
    Option.some.inj ((hl.heldBy?_eq hg.inRange).symm.trans (hb.heldBy?_eq t))
  rw [Graph.report?, hg.held?_of_heldPart_claimed hl.leads hheld, Option.map_some] at hr
  obtain rfl := Option.some.inj hr
  have hsites (j : NodeId) (hj : j ∈ l) : (⟨(g₁.node j).mutex,
      if capture then (g₁.node j).stack else .empty⟩ : Site) =
        ⟨(g.node j).mutex, if capture then lastStack (g.node j).mutex calls else .empty⟩ := by
    rw [hmutex j (hl.lt hg.inRange j hj), hg.stack_of_heldPart_claimed howner hheld hl hj,
      h.stackOf_eq]
  refine ⟨_, rfl, ?_, fun least hleast pid here symbols => ?_⟩
  case refine_2 =>
    rw [Notice.delivered_lines _ hleast]
    exact Report.reads_lines _ pid here symbols
  constructor
  case tid => rfl
  case attempt => exact hattempt
  case listed =>
    rw [hb.heldBy?_eq, ← hledger, List.map_map]
    exact congrArg some (List.map_congr_left fun j hj => (congrArg Site.mutex (hsites j hj)).symm)
  case held =>
    rw [← hledger, List.map_map]
    exact List.map_congr_left hsites
  case distinct =>
    have hlt := hpath.lt hprev
    rw [Graph.map_mutex_orderSites]
    refine hpath.nodup.map_on fun a ha b hb heq => hg.indexed.mutex_inj (hlt a ha) (hlt b hb) ?_
    rwa [hmutex a (hlt a ha), hmutex b (hlt b hb)] at heq
  case first =>
    obtain ⟨rest, hrest⟩ := hpath.first
    rw [hrest, Graph.orderSites_cons, ← hb.latest?_eq, Graph.latest?, htop]
    exact congrArg some (hmutex prev hprev)
  case last =>
    have hsite := hdraws.siteAt (List.mem_append_right _ (List.mem_singleton_self _)) capture
    simp only [hattempt] at hsite
    rw [Graph.getLast?_orderSites, hpath.last, Option.map_some, hsite, ← h.stackOf_eq]
    cases capture <;> rfl
  case path =>
    refine Graph.isChain_orderSites (R := fun s x => s.Follows x calls g capture) prev ?_
    refine hpath.chain.imp fun a b hab => ?_
    exact h.follows_of_edge ho hdraws (List.subset_append_left _ _) hmutex hab

/-- Two nestings with call stacks, one lock acquired twice; then another thread holds two locks. -/
def transitiveNesting : List Event :=
  [.lock 1 1 (some (.ofFrames [11])) true, .lock 2 1 (some (.ofFrames [12])) true, .forget 1,
    .lock 2 1 (some (.ofFrames [21])) true, .lock 3 1 (some (.ofFrames [23])) true,
    .lock 2 1 (some (.ofFrames [22])) true, .forget 1, .lock 4 2 (some (.ofFrames [34])) true,
    .lock 3 2 (some (.ofFrames [33])) true, .lock 3 2 (some (.ofFrames [35])) true]

theorem report_explains_transitiveNesting :
    ∃ calls g g' r, Graph.play .empty [] transitiveNesting = some (calls, g) ∧
      Disciplined (events calls) ∧ searches calls < 2 ^ 32 - 1 ∧
      g.onLock 1 2 (some (.ofFrames [31])) true = some (g', .predictedDeadlock, some r) ∧
      r = ⟨2, 1, [⟨3, .ofFrames [33]⟩, ⟨4, .ofFrames [34]⟩],
        [⟨3, .ofFrames [23]⟩, ⟨2, .ofFrames [12]⟩, ⟨1, .ofFrames [31]⟩]⟩ ∧
      ∃ r', some r = some r' ∧ r'.Explains calls g 1 2 (some (.ofFrames [31])) true ∧
        ∀ least : LogPriority, least.passes .warn = true → ∀ pid here symbols,
          r'.Reads pid here symbols ((Log.delivered least
            ((Notice.predicted r').lines pid 2 here symbols)).map (·.message)) := by
  have hrun : ((Graph.play .empty [] transitiveNesting).bind fun p =>
      (p.2.onLock 1 2 (some (.ofFrames [31])) true).map fun q =>
        (searches p.1, q.2)) =
      some (3, .predictedDeadlock, some
        ⟨2, 1, [⟨3, .ofFrames [33]⟩, ⟨4, .ofFrames [34]⟩],
          [⟨3, .ofFrames [23]⟩, ⟨2, .ofFrames [12]⟩, ⟨1, .ofFrames [31]⟩]⟩) := by
    decide +kernel
  obtain ⟨⟨calls, g⟩, hplay, hlocked⟩ := Option.bind_eq_some_iff.1 hrun
  obtain ⟨⟨g', outcome, report⟩, hlock, hfacts⟩ := Option.map_eq_some_iff.1 hlocked
  obtain ⟨hs, rfl, rfl⟩ : searches calls = 3 ∧ outcome = .predictedDeadlock ∧
      report = some _ := by
    simpa only [Prod.mk.injEq] using hfacts
  have hd : Disciplined (events calls) := by
    rw [Graph.events_of_play hplay]
    decide +kernel
  have hlt : searches calls < 2 ^ 32 - 1 := by omega
  exact ⟨calls, g, g', _, hplay, hd, hlt, hlock, rfl,
    (Run.nil.of_play hplay).report_explains hd hlt hlock⟩

end Threading.LockOrder

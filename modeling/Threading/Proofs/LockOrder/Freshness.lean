import Threading.Proofs.LockOrder.History
import Threading.Proofs.LockOrder.Visits

/-!
# Numbers of searches that come round

Searches are numbered in 32 bits, and a node keeps the number of the last search that came to it
until another one does. So a number is new to all nodes exactly as long as for no node the last
search that came to it lies a multiple of `2 ^ 32 - 1` searches back. Where it does, the next
search passes over a node it has not visited, and an order that contradicts the recorded ones is
recorded as well.
-/
namespace Threading.LockOrder

namespace Graph

variable {g g' : Graph} {e : Event} {outcome? : Option Outcome} {m : UInt64} {t : Tid}
variable {stack : Option CallStack} {capture : Bool} {i : NodeId}

/-- No node carries the number of the next search. -/
def Fresh (g : Graph) : Prop := ∀ i, (g.node i).visited ≠ nextEpoch g.epoch

/-- The search that a call starts: it looks for a way back along a new edge. -/
def search? (g : Graph) : Event → Option Search
  | .lock m t stack capture =>
    match g.topOf t with
    | none => none
    | some prev =>
      let i := (g.internNode m).1
      let claimed := g.claimed m t stack
      if g.ownerOf m = t ∨ prev = i ∨ i ∈ (g.node prev).children then none
      else some ((claimed.link prev i (claimed.edgeStackOf i capture)).searchFrom i)
  | .unlock _ _ | .forget _ => none

/-- What a call does to the marks of searches and to their numbers. -/
inductive Marks (g g' : Graph) (e : Event) (outcome? : Option Outcome) : Prop
  | kept : g.search? e = none → outcome?.any Outcome.searched = false → g'.epoch = g.epoch →
      (∀ i, (g'.node i).visited = (g.node i).visited) → Marks g g' e outcome?
  | searched {s : Search} : g.search? e = some s → outcome?.any Outcome.searched = true →
      s.epoch = nextEpoch g.epoch → g'.epoch = nextEpoch g.epoch → MarkedBy s g g' →
      Marks g g' e outcome?

theorem epoch_link (g : Graph) (parent child : NodeId) (stack : CallStack) :
    (g.link parent child stack).epoch = g.epoch := rfl

theorem visited_eq_of_orderPart (h : g'.orderPart = g.orderPart) (i : NodeId) :
    (g'.node i).visited = (g.node i).visited := by
  have hi := congrArg (fun g => (g.node i).visited) h
  simp only [node_orderPart] at hi
  exact hi

theorem marks_of_orderPart (hsearch : g.search? e = none) (h : g'.orderPart = g.orderPart) :
    Marks g g' e none :=
  .kept hsearch rfl (epoch_eq_of_orderPart h) (visited_eq_of_orderPart h)

/-- The search after an edge is put in leaves its marks, whether the edge stays or not. -/
theorem markedBy_recordOrder {thread : Nat} {prev : NodeId} {outcome : Outcome}
    {report : Option Report} (hi : i < g.nodes.size) (htop : g.top thread = some prev)
    (hne : prev ≠ i) (hnew : ¬ g.Edge prev i)
    (h : g.recordOrder thread t i capture = some (g', outcome, report)) :
    outcome.searched = true ∧
      MarkedBy ((g.link prev i (g.edgeStackOf i capture)).searchFrom i) g g' := by
  obtain ⟨-, -, -, hknown⟩ | ⟨prev', g₁, closing, htop', -, -, hsearch, hend⟩ := recordOrder_cases h
  · exact absurd (hknown prev htop) (not_or.2 ⟨hne, hnew⟩)
  obtain rfl : prev = prev' := Option.some.inj (htop.symm.trans htop')
  have hmarked := markedBy_findCycle (by rwa [size_link]) hsearch
  have hlink := view_link Node.visited (fun _ _ _ _ => rfl) g prev i (g.edgeStackOf i capture)
  obtain ⟨-, rfl, rfl, -⟩ | ⟨rfl, rfl, -⟩ := hend
  · exact ⟨rfl, hmarked.congr hlink fun _ => rfl⟩
  · exact ⟨rfl, hmarked.congr hlink (view_unlink Node.visited (fun _ _ _ _ => rfl) g₁ prev i)⟩

theorem WellFormed.marks_onLock {outcome : Outcome} {report : Option Report} (hg : g.WellFormed)
    (h : g.onLock m t stack capture = some (g', outcome, report)) :
    Marks g g' (.lock m t stack capture) (some outcome) := by
  have hepoch := epoch_onLock h
  obtain ⟨howner, rfl, -, rfl⟩ | ⟨howner, g₁, hrecord, rfl⟩ := onLock_cases h
  · refine .kept ?_ rfl hepoch fun i => ?_
    · rw [search?]
      split
      · rfl
      · exact if_pos (.inl howner)
    · rw [view_modifyNode _ Node.visited (fun n => by rfl), view_internNode Node.visited (by rfl)]
  have hpush (i : NodeId) :=
    visited_eq_of_orderPart (orderPart_pushHeld g₁ (g.internThread t).1 (g.internNode m).1) i
  have hclaim (i : NodeId) : ((g.claimed m t stack).node i).visited = (g.node i).visited :=
    view_claimed Node.visited (by rfl) (fun _ => rfl) i
  have htop := top_claimed hg.indexed m t stack
  obtain ⟨rfl, rfl, -, hknown⟩ | ⟨prev, -, -, hprev, hne, hnew, -, -⟩ := recordOrder_cases hrecord
  · refine .kept ?_ rfl hepoch fun i => (hpush i).trans (hclaim i)
    rw [search?]
    split
    · rfl
    next prev hprev =>
      rcases hknown prev (htop.trans hprev) with heq | hedge
      · exact if_pos (.inr (.inl heq))
      · exact if_pos (.inr (.inr (edge_iff.1 (edge_claimed.1 hedge))))
  · obtain ⟨hsearched, hmarked⟩ := markedBy_recordOrder (lt_size_claimed hg) hprev hne hnew hrecord
    rw [if_pos hsearched] at hepoch
    refine .searched ?_ hsearched ?_ hepoch (hmarked.congr hclaim hpush)
    · rw [search?, ← htop, hprev]
      refine if_neg ?_
      rintro (ho | heq | hedge)
      · exact howner ho
      · exact hne heq
      · exact hnew (edge_claimed.2 (edge_iff.2 hedge))
    · rw [epoch_searchFrom, epoch_link, epoch_claimed]

/-- Only the search of an acquisition leaves marks. -/
theorem WellFormed.marks_handle? (hg : g.WellFormed) (h : g.handle? e = some (g', outcome?)) :
    Marks g g' e outcome? := by
  cases e with
  | lock m t stack capture =>
    obtain ⟨outcome, report, rfl, hlock⟩ := handle?_lock_iff.1 h
    exact hg.marks_onLock hlock
  | unlock m t =>
    obtain ⟨rfl, hunlock⟩ := handle?_unlock_iff.1 h
    exact marks_of_orderPart rfl (orderPart_onUnlock hunlock)
  | forget t =>
    obtain ⟨rfl, rfl⟩ := handle?_forget_iff.1 h
    exact marks_of_orderPart rfl (orderPart_forgetThread g t)

/-- A search whose number is new passes over no node that it has not come to. -/
theorem Fresh.careful (h : g.Fresh) {s : Search} (hs : g.search? e = some s) : s.Careful := by
  cases e with
  | lock m t stack capture =>
    rw [search?] at hs
    split at hs
    · cases hs
    next prev _ =>
      simp only at hs
      split at hs
      · cases hs
      obtain rfl := Option.some.inj hs
      refine careful_searchFrom fun i => ?_
      have hclaim : ((g.claimed m t stack).node i).visited = (g.node i).visited :=
        view_claimed Node.visited (by rfl) (fun _ => rfl) i
      have hepoch := epoch_claimed g m t stack
      rw [view_link Node.visited (fun _ _ _ _ => rfl), hclaim, epoch_link, hepoch]
      exact h i
  | unlock => cases hs
  | forget => cases hs

end Graph

/-! ## The numbers -/

/-- The number of the `n`th search. -/
def searchNumber (n : ℕ) : UInt32 := nextEpoch^[n] 0

theorem searchNumber_succ (n : ℕ) : searchNumber (n + 1) = nextEpoch (searchNumber n) :=
  Function.iterate_succ_apply' nextEpoch n 0

theorem nextEpoch_ne_zero (epoch : UInt32) : nextEpoch epoch ≠ 0 := by
  rw [nextEpoch]
  split
  · decide
  · assumption

/-- The numbers run from 1 to `2 ^ 32 - 1` and start again. -/
theorem toNat_searchNumber_succ (n : ℕ) :
    (searchNumber (n + 1)).toNat = n % (2 ^ 32 - 1) + 1 := by
  induction n with
  | zero => rfl
  | succ n ih =>
    rw [searchNumber_succ]
    rcases Nat.lt_or_ge (searchNumber (n + 1)).toNat (2 ^ 32 - 1) with hlt | hge
    · rw [Graph.toNat_nextEpoch hlt, ih]
      omega
    · have hlast : searchNumber (n + 1) = 0xffffffff := by
        refine UInt32.toNat_inj.1 ?_
        have hword := (searchNumber (n + 1)).toNat_lt
        have hmax : (0xffffffff : UInt32).toNat = 2 ^ 32 - 1 := rfl
        omega
      have hwrap : (nextEpoch 0xffffffff).toNat = 1 := rfl
      rw [hlast, hwrap]
      omega

theorem searchNumber_eq_iff (n d : ℕ) :
    searchNumber (n + 1) = searchNumber (n + 1 + d) ↔ 2 ^ 32 - 1 ∣ d := by
  have hlater : n + 1 + d = n + d + 1 := by omega
  rw [hlater, ← UInt32.toNat_inj, toNat_searchNumber_succ, toNat_searchNumber_succ]
  omega

/-! ## Every run -/

variable {calls : List Call} {c : Call} {g g' : Graph} {i : NodeId} {n : ℕ}
variable {e : Event} {outcome? : Option Outcome}

/-- The search of the call comes to a node. -/
def Call.Visits (c : Call) (i : NodeId) : Prop :=
  ∃ s, c.before.search? c.event = some s ∧ s.Visits i

/-- Since the last search that came to a node, `n` more have run. -/
inductive LastVisit (i : NodeId) : List Call → ℕ → Prop
  | here {c : Call} {calls : List Call} : c.Visits i → LastVisit i (c :: calls) 0
  | before {c : Call} {calls : List Call} {n : ℕ} : ¬ c.Visits i → LastVisit i calls n →
      LastVisit i (c :: calls) (n + searches [c])

theorem searches_cons (c : Call) (calls : List Call) :
    searches (c :: calls) = searches calls + searches [c] := by
  simp only [searches, List.countP_cons, List.countP_nil, Nat.zero_add]

theorem Run.epoch_eq (h : Run calls g) : g.epoch = searchNumber (searches calls) := by
  induction h with
  | nil => rfl
  | @cons calls g g' e outcome? hrun hstep ih =>
    rw [searches_cons]
    cases hrun.wellFormed.marks_handle? hstep with
    | kept _ hno hepoch => simp [searches, hno, hepoch, ih]
    | searched _ hyes _ hepoch => simp [searches, hyes, hepoch, ih, searchNumber_succ]

/-- A call leaves the number of its search on the nodes that the search comes to. -/
theorem Run.visited_step (h : Run calls g) (hstep : g.handle? e = some (g', outcome?))
    (i : NodeId) :
    (Call.Visits ⟨g, e, outcome?⟩ i → searches [⟨g, e, outcome?⟩] = 1 ∧
      (g'.node i).visited = searchNumber (searches calls + 1)) ∧
    (¬ Call.Visits ⟨g, e, outcome?⟩ i → (g'.node i).visited = (g.node i).visited) := by
  rw [searchNumber_succ, ← h.epoch_eq]
  cases h.wellFormed.marks_handle? hstep with
  | kept hsearch _ _ hkept =>
    refine ⟨?_, fun _ => hkept i⟩
    rintro ⟨s, hs, -⟩
    exact absurd (hsearch.symm.trans hs) (by simp)
  | @searched s hsearch hyes hnumber _ hmarked =>
    refine ⟨?_, fun hi => hmarked.leaves i fun hvisits => hi ⟨s, hsearch, hvisits⟩⟩
    rintro ⟨s', hs', hvisits⟩
    obtain rfl : s = s' := Option.some.inj (hsearch.symm.trans hs')
    exact ⟨by simp [searches, hyes], (hmarked.visits i hvisits).trans hnumber⟩

/-- The last search that came to a node has left its number on it. -/
theorem LastVisit.visited_eq (hlast : LastVisit i calls n) (h : Run calls g) :
    ∃ k, searches calls = k + 1 + n ∧ (g.node i).visited = searchNumber (k + 1) := by
  induction h generalizing n with
  | nil => cases hlast
  | @cons calls g g' e outcome? hrun hstep ih =>
    obtain ⟨hvisit, hkept⟩ := hrun.visited_step hstep i
    rw [searches_cons]
    cases hlast with
    | here hi =>
      obtain ⟨hone, hmark⟩ := hvisit hi
      exact ⟨searches calls, by rw [hone, Nat.add_zero], hmark⟩
    | before hi hlast =>
      obtain ⟨k, hk, hmark⟩ := ih hlast
      exact ⟨k, by omega, (hkept hi).trans hmark⟩

theorem Run.visited_eq_zero_or (h : Run calls g) (i : NodeId) :
    (g.node i).visited = 0 ∨ ∃ n, LastVisit i calls n := by
  induction h with
  | nil => exact .inl rfl
  | @cons calls g g' e outcome? hrun hstep ih =>
    by_cases hi : Call.Visits ⟨g, e, outcome?⟩ i
    · exact .inr ⟨0, .here hi⟩
    · rw [(hrun.visited_step hstep i).2 hi]
      exact ih.imp_right fun ⟨n, hlast⟩ => ⟨_, .before hi hlast⟩

/-- A node carries the number of the next search exactly if the last search that came to it lies
a multiple of `2 ^ 32 - 1` searches back. -/
theorem Run.fresh_iff (h : Run calls g) :
    g.Fresh ↔ ∀ i n, LastVisit i calls n → ¬ 2 ^ 32 - 1 ∣ n + 1 := by
  have hnext : nextEpoch g.epoch = searchNumber (searches calls + 1) := by
    rw [searchNumber_succ, h.epoch_eq]
  have hround {k n : ℕ} (hk : searches calls = k + 1 + n) :
      searchNumber (k + 1) = nextEpoch g.epoch ↔ 2 ^ 32 - 1 ∣ n + 1 := by
    rw [hnext, hk, Nat.add_assoc (k + 1) n 1]
    exact searchNumber_eq_iff k (n + 1)
  constructor
  · intro hfresh i n hlast hdvd
    obtain ⟨k, hk, hmark⟩ := hlast.visited_eq h
    exact hfresh i (hmark.trans ((hround hk).2 hdvd))
  · intro hall i hstale
    rcases h.visited_eq_zero_or i with hzero | ⟨n, hlast⟩
    · exact nextEpoch_ne_zero g.epoch (hstale.symm.trans hzero)
    · obtain ⟨k, hk, hmark⟩ := hlast.visited_eq h
      exact hall i n hlast ((hround hk).1 (hmark.symm.trans hstale))

/-- The number of the next search is new to all nodes exactly as long as no node was left alone
for a multiple of `2 ^ 32 - 1` searches, and then the search takes for visited what it has come
to itself. This is so before the numbers have come round once. -/
theorem Run.fresh_spec (h : Run calls g) :
    (g.Fresh ↔ ∀ i n, LastVisit i calls n → ¬ 2 ^ 32 - 1 ∣ n + 1) ∧
      (g.Fresh → ∀ e s, g.search? e = some s → s.Careful) ∧
      (searches calls < 2 ^ 32 - 1 → g.Fresh) := by
  refine ⟨h.fresh_iff, fun hfresh e s => hfresh.careful, fun hfew => h.fresh_iff.2 ?_⟩
  intro i n hlast hdvd
  obtain ⟨k, hk, -⟩ := hlast.visited_eq h
  have hle := Nat.le_of_dvd (Nat.succ_pos n) hdvd
  omega

theorem fresh_spec_inversion : ∃ calls g,
    Graph.play .empty [] inversion = some (calls, g) ∧ searches calls = 2 ∧
      (g.Fresh ↔ ∀ i n, LastVisit i calls n → ¬ 2 ^ 32 - 1 ∣ n + 1) ∧
      (g.Fresh → ∀ e s, g.search? e = some s → s.Careful) ∧
      (searches calls < 2 ^ 32 - 1 → g.Fresh) := by
  have hrun : (Graph.play .empty [] inversion).map (fun p => searches p.1) = some 2 := by
    decide +kernel
  obtain ⟨⟨calls, g⟩, hplay, hs⟩ := Option.map_eq_some_iff.1 hrun
  exact ⟨calls, g, hplay, hs, Run.fresh_spec (Run.nil.of_play hplay)⟩

/-! ## A number that comes round

The order 1 before 2 is recorded by the first search, which comes to 2 alone. Then a thread that
holds 4 tries 3 against the recorded order 3 before 4, again and again, and each time the search
comes to 3 and 4 only. -/

namespace Graph

variable {prev : NodeId} {thread : Nat}

theorem findCycle_of_run {s : Search} {start : NodeId} {closing : Option NodeId}
    (h : (g.searchFrom start).run = (s, closing)) :
    g.findCycle start = ({ g with
      nodes := s.trail.foldl (fun nodes i => nodes.modify i (·.leave)) s.nodes
      epoch := nextEpoch g.epoch
      trail := s.trail }, closing) := by
  have hrun : (Search.enter { nodes := g.nodes, epoch := nextEpoch g.epoch } start).run =
    (s, closing) := h
  rw [findCycle, hrun]
  rfl

/-- Recording an order that is not known yet, by what its search finds. -/
theorem recordOrder_of_findCycle (t : Tid) (capture : Bool) {g₁ : Graph}
    {closing : Option NodeId} (htop : g.top thread = some prev)
    (hnew : ¬ (prev = i ∨ i ∈ (g.node prev).children))
    (h : (g.link prev i (g.edgeStackOf i capture)).findCycle i = (g₁, closing)) :
    g.recordOrder thread t i capture =
      match closing with
      | none => some (g₁, .newEdge, none)
      | some c => (g₁.report? t prev c capture).map fun report =>
          ({ g₁.unlink prev i with predicted := g₁.predicted + 1 }, .predictedDeadlock,
            some report) := by
  rw [edgeStackOf] at h
  rw [recordOrder, htop]
  simp only [if_neg hnew]
  rw [h]
  cases closing <;> rfl

/-- Carrying out some calls and then others. -/
theorem play_append {calls calls' : List Call} {events later : List Event}
    (h : g.play calls events = some (calls', g')) :
    g.play calls (events ++ later) = g'.play calls' later := by
  induction events generalizing g calls with
  | nil =>
    obtain ⟨rfl, rfl⟩ : calls = calls' ∧ g = g' := by simpa [play] using h
    rfl
  | cons e events ih =>
    rw [play] at h
    rw [List.cons_append, play]
    split at h
    · cases h
    next g₁ outcome hstep => exact ih h

namespace Worn

/-- A graph of four mutexes; thread 1 holds the one at `top`, thread 2 holds the second. -/
def bench (nodes : Array Node) (top : NodeId) (trail : List NodeId) (epoch : UInt32)
    (edges predicted : ℕ) : Graph where
  nodes
  nodeIndex := [1, 2, 3, 4].zipIdx.foldl (fun b (m, i) => b.push (mutexBucket m) i) {}
  threads := #[{ tid := 1, top }, { tid := 2, top := some 1 }]
  threadIndex := [1, 2].zipIdx.foldl (fun b (t, i) => b.push (tidBucket t) i) {}
  trail
  epoch
  edges
  predicted

def first : Node := { mutex := 1, children := [1] }

def second : Node :=
  { mutex := 2, owner := 2, parents := [0], parentStacks := [.empty], visited := 1 }

def third (visited : UInt32) : Node := { mutex := 3, children := [3], visited }

def fourth (visited : UInt32) : Node :=
  { mutex := 4, owner := 1, parents := [2], parentStacks := [.empty], visited }

/-- Between two tries. -/
def rested (epoch : UInt32) (predicted : ℕ) : Graph :=
  bench #[first, second, third epoch, fourth epoch] 3 [3, 2] epoch 2 predicted

/-- Thread 1 has claimed 3. -/
def trying (epoch : UInt32) (predicted : ℕ) : Graph :=
  bench #[first, second, { third epoch with owner := 1 }, fourth epoch] 3 [3, 2] epoch 2 predicted

/-- The edge from 4 to 3 is in. -/
def linked (epoch : UInt32) (predicted : ℕ) : Graph :=
  bench #[first, second,
    { third epoch with owner := 1, parents := [3], parentStacks := [.empty] },
    { fourth epoch with children := [2] }] 3 [3, 2] epoch 3 predicted

/-- Thread 1 holds 3 and 4, and no edge was kept. -/
def tried (epoch : UInt32) (predicted : ℕ) : Graph :=
  bench #[first, second, { third epoch with owner := 1, older := some 3 },
    { fourth epoch with newer := some 2 }] 2 [3, 2] epoch 2 predicted

theorem ne_nextEpoch (epoch : UInt32) : epoch ≠ nextEpoch epoch := by
  rw [nextEpoch]
  split
  next hwrap =>
    rintro rfl
    exact absurd hwrap (by decide)
  next =>
    intro heq
    have hsum := congrArg UInt32.toNat heq
    rw [UInt32.toNat_add] at hsum
    have hone : (1 : UInt32).toNat = 1 := rfl
    have hlt := epoch.toNat_lt
    omega

theorem findCycle_linked (epoch : UInt32) (predicted : ℕ) :
    (linked epoch predicted).findCycle 2 = (linked (nextEpoch epoch) predicted, some 2) := by
  have hturn : ((linked epoch predicted).searchFrom 2).next? =
      some (Search.enter { (linked epoch predicted).searchFrom 2 with path := [⟨2, []⟩] } 3) :=
    if_neg (ne_nextEpoch epoch)
  exact findCycle_of_run ((Search.run_of_next? hturn).trans (Search.run_of_onPath rfl rfl rfl))

theorem handle?_lock_rested (epoch : UInt32) (predicted : ℕ) :
    (rested epoch predicted).handle? (.lock 3 1 none false) =
      some (tried (nextEpoch epoch) (predicted + 1), some .predictedDeadlock) := by
  have howner : (rested epoch predicted).ownerOf 3 ≠ 1 := (by decide : (0 : Tid) ≠ 1)
  have hclaimed : (rested epoch predicted).claimed 3 1 none = trying epoch predicted := rfl
  have hthread : ((rested epoch predicted).internThread 1).1 = 0 := rfl
  have hnode : ((rested epoch predicted).internNode 3).1 = 2 := rfl
  have htop : (trying epoch predicted).top 0 = some 3 := rfl
  have hnew : ¬ ((3 : NodeId) = 2 ∨ 2 ∈ ((trying epoch predicted).node 3).children) := by
    rintro (h | h) <;> cases h
  have hrecord := recordOrder_of_findCycle 1 false htop hnew
    (findCycle_linked epoch predicted)
  rw [handle?, onLock_eq, if_neg howner, hclaimed, hthread, hnode, hrecord]
  rfl

theorem handle?_unlock_tried (epoch : UInt32) (predicted : ℕ) :
    (tried epoch predicted).handle? (.unlock 3 1) = some (rested epoch predicted, none) := rfl

/-- `n` tries. -/
def tries : ℕ → List Event
  | 0 => []
  | n + 1 => .lock 3 1 none false :: .unlock 3 1 :: tries n

/-- The orders 1 before 2 and 3 before 4, and a first try to nest 3 in 4. -/
def start : List Event :=
  [.lock 1 1 none false, .lock 2 1 none false, .unlock 2 1, .unlock 1 1, .lock 3 1 none false,
    .lock 4 1 none false, .unlock 4 1, .unlock 3 1, .lock 4 1 none false, .lock 2 2 none false,
    .lock 3 1 none false, .unlock 3 1]

theorem exists_play_tries (n : ℕ) (calls : List Call) (epoch : UInt32) (predicted : ℕ) :
    ∃ calls', (rested epoch predicted).play calls (tries n) =
      some (calls', rested (nextEpoch^[n] epoch) (predicted + n)) := by
  induction n generalizing calls epoch predicted with
  | zero => exact ⟨calls, rfl⟩
  | succ n ih =>
    obtain ⟨calls', hplay⟩ := ih (⟨tried (nextEpoch epoch) (predicted + 1), .unlock 3 1, none⟩ ::
      ⟨rested epoch predicted, .lock 3 1 none false, some .predictedDeadlock⟩ :: calls)
      (nextEpoch epoch) (predicted + 1)
    refine ⟨calls', ?_⟩
    rw [tries, play, handle?_lock_rested]
    simp only
    rw [play, handle?_unlock_tried]
    simp only
    rw [hplay, Function.iterate_succ_apply, Nat.add_assoc, Nat.add_comm 1]

theorem exists_play (n : ℕ) : ∃ calls, Graph.play .empty [] (start ++ tries n) =
    some (calls, rested (searchNumber (3 + n)) (1 + n)) := by
  have hstart : (Graph.play .empty [] start).map Prod.snd = some (rested 3 1) := by
    decide +kernel
  obtain ⟨⟨calls, g⟩, hplay, rfl⟩ := Option.map_eq_some_iff.1 hstart
  obtain ⟨calls', htries⟩ := exists_play_tries n calls 3 1
  refine ⟨calls', ?_⟩
  rw [play_append hplay, htries, searchNumber, Nat.add_comm 3, Function.iterate_add_apply]
  rfl

theorem searchNumber_max : searchNumber (3 + (2 ^ 32 - 4)) = 0xffffffff := by
  have hcount : 3 + (2 ^ 32 - 4) = 4294967294 + 1 := by decide
  rw [hcount]
  exact UInt32.toNat_inj.1 (toNat_searchNumber_succ 4294967294)

/-- Thread 2, which holds 2, has claimed 1. -/
def claimedFirst (epoch : UInt32) (predicted : ℕ) : Graph :=
  bench #[{ first with owner := 2 }, second, third epoch, fourth epoch] 3 [3, 2] epoch 2 predicted

/-- The edge from 2 to 1 is in. -/
def opposed (epoch : UInt32) (predicted : ℕ) : Graph :=
  bench #[{ first with owner := 2, parents := [1], parentStacks := [.empty] },
    { second with children := [0] }, third epoch, fourth epoch] 3 [3, 2] epoch 3 predicted

/-- The search has passed over 2. -/
def closed (epoch : UInt32) (predicted : ℕ) : Graph :=
  bench #[{ first with owner := 2, parents := [1], parentStacks := [.empty],
                       visited := nextEpoch epoch },
    { second with children := [0] }, third epoch, fourth epoch] 3 [] (nextEpoch epoch) 3 predicted

variable {epoch : UInt32} (predicted : ℕ)

theorem findCycle_opposed (h : second.visited = nextEpoch epoch) :
    (opposed epoch predicted).findCycle 0 = (closed epoch predicted, none) := by
  have hskip : ((opposed epoch predicted).searchFrom 0).next? =
      some { (opposed epoch predicted).searchFrom 0 with path := [⟨0, []⟩] } := if_pos h
  exact findCycle_of_run ((Search.run_of_next? hskip).trans
    ((Search.run_of_next? rfl).trans (Search.run_of_path_eq_nil rfl)))

theorem ownerOf_rested : (rested epoch predicted).ownerOf 1 ≠ 2 := (by decide : (0 : Tid) ≠ 2)

theorem claimed_rested : (rested epoch predicted).claimed 1 2 none = claimedFirst epoch predicted :=
  rfl

theorem internNode_rested : ((rested epoch predicted).internNode 1).1 = 0 := rfl

theorem search?_rested : (rested epoch predicted).search? (.lock 1 2 none false) =
    some ((opposed epoch predicted).searchFrom 0) := by
  have htop : (rested epoch predicted).topOf 2 = some 1 := rfl
  have hnone : ((rested epoch predicted).node 1).children = [] := rfl
  have hlinked : (claimedFirst epoch predicted).link 1 0
      ((claimedFirst epoch predicted).edgeStackOf 0 false) = opposed epoch predicted := rfl
  rw [search?, htop]
  simp only [internNode_rested, claimed_rested, hlinked, hnone]
  refine if_neg ?_
  rintro (h | h | h)
  · exact ownerOf_rested predicted h
  · cases h
  · cases h

theorem handle?_lock_rested_closing (h : second.visited = nextEpoch epoch) :
    (rested epoch predicted).handle? (.lock 1 2 none false) =
      some ((closed epoch predicted).pushHeld 1 0, some .newEdge) := by
  have hthread : ((rested epoch predicted).internThread 2).1 = 1 := rfl
  have htop : (claimedFirst epoch predicted).top 1 = some 1 := rfl
  have hnew : ¬ ((1 : NodeId) = 0 ∨ 0 ∈ ((claimedFirst epoch predicted).node 1).children) := by
    rintro (h | h) <;> cases h
  have hrecord := recordOrder_of_findCycle 2 false htop hnew
    (findCycle_opposed predicted h)
  rw [handle?, onLock_eq, if_neg (ownerOf_rested predicted), claimed_rested, hthread,
    internNode_rested, hrecord]
  rfl

/-- After `2 ^ 32 - 1` searches the next one takes 2 for visited, where only the first one has
been, and so 2 before 1 is recorded beside 1 before 2. -/
theorem not_fresh_after_tries : ∃ calls g s g',
    Graph.play .empty [] (start ++ tries (2 ^ 32 - 4)) = some (calls, g) ∧ ¬ g.Fresh ∧
      g.search? (.lock 1 2 none false) = some s ∧ s.trail = [0] ∧ s.Skips 1 ∧
      g.handle? (.lock 1 2 none false) = some (g', some .newEdge) ∧
      g'.hasEdge 1 2 = true ∧ g'.hasEdge 2 1 = true := by
  obtain ⟨calls, hplay⟩ := exists_play (2 ^ 32 - 4)
  have hvisited : second.visited = nextEpoch (searchNumber (3 + (2 ^ 32 - 4))) := by
    rw [searchNumber_max]
    decide
  generalize searchNumber (3 + (2 ^ 32 - 4)) = epoch at hplay hvisited
  exact ⟨calls, _, _, _, hplay, fun hfresh => hfresh 1 hvisited, search?_rested _, rfl,
    ⟨0, [], [], _, rfl, rfl, rfl, hvisited⟩, handle?_lock_rested_closing _ hvisited, rfl, rfl⟩

end Worn
end Graph
end Threading.LockOrder

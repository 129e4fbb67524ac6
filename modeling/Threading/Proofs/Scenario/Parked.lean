import Threading.Proofs.Scenario.Joining
import Threading.Proofs.Scenario.Kernel
import Threading.Proofs.Threads.Guests
import Threading.Scenario.Spawn

/-!
# Parked threads

While the gate is closed the creators go on creating threads, in any order, and each of these
waits at the gate. Whichever creations fail, there is one parked thread for each of the others,
registered under a handle of its own. The results that the conductor collects are those of all
creators, in their order.
-/
namespace Threading.Scenario.Spawn

open Function (update)
open Performance (Returns)
open ThreadGroup (Due Fails Post Staffed)

variable {c : Spawn} {k : Kernel} {a : Attributes} {p₀ p p' : ThreadGroup} {m n : Nat}
variable {x : Creator} {t : Parked} {sleeper : Sleeper} {crew us vs : List Player}
variable {results more : List (Except Error Parked)} {result : Except Error Parked} {e : Error}
variable {gathered : List (List (Except Error Parked))} {stage : Stage} {size : UInt64}
variable {rest : List Nat} {i start : Nat}

/-! ## Results of creations -/

/-- Why creations failed, one by one. -/
def failed (results : List (Except Error Parked)) : List Error :=
  results.filterMap fun
    | .ok _ => none
    | .error e => some e

@[simp] theorem created_nil : created [] = [] := rfl

@[simp] theorem created_ok_cons : created (.ok t :: results) = t :: created results := rfl

@[simp] theorem created_error_cons : created (.error e :: results) = created results := rfl

@[simp] theorem created_append : created (results ++ more) = created results ++ created more :=
  List.filterMap_append

@[simp] theorem failed_nil : failed [] = [] := rfl

@[simp] theorem failed_ok_cons : failed (.ok t :: results) = failed results := rfl

@[simp] theorem failed_error_cons : failed (.error e :: results) = e :: failed results := rfl

@[simp] theorem failed_append : failed (results ++ more) = failed results ++ failed more :=
  List.filterMap_append

/-- Every result is a thread or a failure. -/
theorem length_created_add_length_failed (results : List (Except Error Parked)) :
    (created results).length + (failed results).length = results.length := by
  induction results with
  | nil => rfl
  | cons result results ih =>
    cases result with
    | ok t =>
      simp only [created_ok_cons, failed_ok_cons, List.length_cons]
      omega
    | error e =>
      simp only [created_error_cons, failed_error_cons, List.length_cons]
      omega

/-- Every thread is given its position, counted on from a number. -/
def Numbered (start : Nat) (results : List (Except Error Parked)) : Prop :=
  ∀ j t, results[j]? = some (.ok t) → t.number = UInt64.ofNat (start + j + 1)

theorem numbered_nil (start : Nat) : Numbered start [] := nofun

theorem Numbered.append (h : Numbered start results) (h' : Numbered (start + results.length) more) :
    Numbered start (results ++ more) := by
  intro j t hj
  by_cases hlt : j < results.length
  · rw [List.getElem?_append_left hlt] at hj
    exact h j t hj
  · have hle := Nat.le_of_not_lt hlt
    rw [List.getElem?_append_right hle] at hj
    have hnumber := h' _ t hj
    rwa [Nat.add_assoc start, Nat.add_sub_cancel' hle] at hnumber

/-! ## Who is there -/

def creatorsOf (crew : List Player) : List Creator :=
  crew.filterMap fun
    | .creator x => some x
    | _ => none

def sleepersOf (crew : List Player) : List Sleeper :=
  crew.filterMap fun
    | .sleeper t => some t
    | _ => none

/-- The threads that the creators know of. -/
def threadsOf (crew : List Player) : List Parked :=
  (creatorsOf crew).flatMap fun x => created x.results

@[simp] theorem creatorsOf_append : creatorsOf (us ++ vs) = creatorsOf us ++ creatorsOf vs :=
  List.filterMap_append

@[simp] theorem creatorsOf_cons_creator :
    creatorsOf (.creator x :: crew) = x :: creatorsOf crew := rfl

@[simp] theorem creatorsOf_cons_sleeper :
    creatorsOf (.sleeper sleeper :: crew) = creatorsOf crew := rfl

@[simp] theorem sleepersOf_append : sleepersOf (us ++ vs) = sleepersOf us ++ sleepersOf vs :=
  List.filterMap_append

@[simp] theorem sleepersOf_cons_creator :
    sleepersOf (.creator x :: crew) = sleepersOf crew := rfl

@[simp] theorem sleepersOf_cons_sleeper :
    sleepersOf (.sleeper sleeper :: crew) = sleeper :: sleepersOf crew := rfl

theorem mem_creatorsOf : x ∈ creatorsOf crew ↔ .creator x ∈ crew := by
  rw [creatorsOf, List.mem_filterMap]
  constructor
  · rintro ⟨player, hmem, hplayer⟩
    cases player <;> simp_all
  · exact fun hmem => ⟨_, hmem, rfl⟩

theorem mem_sleepersOf : sleeper ∈ sleepersOf crew ↔ .sleeper sleeper ∈ crew := by
  rw [sleepersOf, List.mem_filterMap]
  constructor
  · rintro ⟨player, hmem, hplayer⟩
    cases player <;> simp_all
  · exact fun hmem => ⟨_, hmem, rfl⟩

/-- A thread is added to those that its creator knows of. -/
theorem perm_threadsOf (us vs : List Player) (x : Creator) (rest : List Nat) (t : Parked) :
    (threadsOf (us ++ .creator x :: vs) ++ [t]).Perm (threadsOf
      (us ++ .creator { x with next := rest, results := x.results ++ [.ok t] } :: vs)) := by
  have hlast : (threadsOf vs ++ [t]).Perm ([t] ++ threadsOf vs) := List.perm_append_comm
  simpa [threadsOf] using (hlast.append_left (created x.results)).append_left (threadsOf us)

theorem perm_sleepersOf (us vs : List Player) (x : Creator) (sleeper : Sleeper) :
    (sleepersOf (us ++ .creator x :: vs) ++ [sleeper]).Perm
      (sleepersOf us ++ [sleeper] ++ sleepersOf vs) := by
  have hlast : (sleepersOf vs ++ [sleeper]).Perm ([sleeper] ++ sleepersOf vs) :=
    List.perm_append_comm
  simpa using hlast.append_left (sleepersOf us)

/-! ## Creators -/

/-- How far a creator has come. -/
structure Progress (c : Spawn) (a : Attributes) (x : Creator) : Prop where
  attributes : x.attributes = a
  length_le : x.results.length ≤ c.threadsPerCreator
  next : x.next = List.range' (x.index * c.threadsPerCreator + x.results.length)
    (c.threadsPerCreator - x.results.length)
  numbered : Numbered (x.index * c.threadsPerCreator) x.results
  errno_pos : ∀ e ∈ failed x.results, 0 < e.errno

theorem progress_creator (c : Spawn) (a : Attributes) (i : Nat) :
    Progress c a (c.creator a i) where
  attributes := rfl
  length_le := Nat.zero_le _
  next := rfl
  numbered := numbered_nil _
  errno_pos _ h := absurd h List.not_mem_nil

/-- A creator gets one result after the other. -/
theorem Progress.step (h : Progress c a x) (hnext : x.next = n :: rest)
    (hnumber : ∀ t, result = .ok t → t.number = UInt64.ofNat (n + 1))
    (herrno : ∀ e, result = .error e → 0 < e.errno) :
    Progress c a { x with next := rest, results := x.results ++ [result] } := by
  have hrange := h.next.symm.trans hnext
  obtain ⟨left, hleft⟩ : ∃ left, c.threadsPerCreator - x.results.length = left + 1 := by
    refine Nat.exists_eq_succ_of_ne_zero fun hzero => ?_
    rw [hzero] at hrange
    cases hrange
  rw [hleft, List.range'_succ] at hrange
  obtain ⟨rfl, rfl⟩ := List.cons.inj hrange
  constructor
  case attributes => exact h.attributes
  case length_le =>
    rw [List.length_append, List.length_singleton]
    omega
  case next =>
    have hleft' : c.threadsPerCreator - (x.results.length + 1) = left := by omega
    simp only [List.length_append, List.length_singleton, hleft', Nat.add_assoc]
  case numbered =>
    refine h.numbered.append fun j t hj => ?_
    obtain ⟨hlt, hj⟩ := List.getElem?_eq_some_iff.1 hj
    obtain rfl : j = 0 := Nat.lt_one_iff.1 hlt
    exact hnumber t hj
  case errno_pos =>
    intro e he
    rw [failed_append, List.mem_append] at he
    refine he.elim (h.errno_pos e) fun he => herrno e ?_
    cases result with
    | ok t => exact absurd he List.not_mem_nil
    | error e' => rw [List.mem_singleton.1 he]

/-- A creator that is through has as many results as it was to get. -/
theorem Progress.length_results (h : Progress c a x) (hdone : x.next = []) :
    x.results.length = c.threadsPerCreator := by
  have hnone := List.range'_eq_nil_iff.1 (h.next.symm.trans hdone)
  have hle := h.length_le
  omega

/-- Nothing is asked of the scheduler, so only the error numbers of `clone` come up. -/
theorem errno_pos {launch : Launch} (hfails : Fails { stackSize := size } launch e)
    (hclone : ∀ errno, launch.clone = some errno → 0 < errno) : 0 < e.errno := by
  cases hfails with
  | refused reason => exact (by decide : (0 : Int32) < 22)
  | exhausted => decide
  | clone h => exact hclone _ h
  | scheduler hasked => cases hasked
  | affinity hasked => cases hasked

/-! ## The invariant -/

/-- What a created thread owes. -/
def due (t : Parked) : Due := ⟨t.handle, t.number⟩

def phase (sleeper : Sleeper) : Phase :=
  if sleeper.position = .departed then .departed else .running

/-- A sleeper as one of the staff; `tid` tells the ids of the threads. -/
def post (tid : BlockId → Tid) (sleeper : Sleeper) : Post :=
  ⟨sleeper.block, tid sleeper.block, phase sleeper, sleeper.number⟩

theorem post_update_of_ne {tid : BlockId → Tid} (h : sleeper.block ≠ i) (t : Tid) :
    post (update tid i t) sleeper = post tid sleeper := by
  rw [post, post, Function.update_of_ne h]

/-- The gate is closed and the threads that have been created since `p₀` wait at it; `m` creators
have been started, and the results of the first ones are `gathered`. -/
structure Parking (c : Spawn) (k : Kernel) (size : UInt64) (p₀ : ThreadGroup) (m : Nat)
    (gathered : List (List (Except Error Parked))) (stage : Stage) : Prop where
  players : ∀ w, .worker w ∉ stage.crew
  staffed : ∃ tid, stage.group.Staffed k.conductor ((threadsOf stage.crew).map due) none
    ((sleepersOf stage.crew).map (post tid))
  visited : p₀.Visited ((threadsOf stage.crew).map (·.handle)) stage.group
  closed : Gate.isClosed stage.gate = true
  waits : ∀ t ∈ sleepersOf stage.crew, t.position = .arriving ∨ t.position = .asleep
  index : (creatorsOf stage.crew).map (·.index) = List.range m
  progress : ∀ x ∈ creatorsOf stage.crew, Progress c { stackSize := size } x
  gathered : ∀ i results, gathered[i]? = some results →
    ∃ x ∈ creatorsOf stage.crew, x.index = i ∧ x.next = [] ∧ x.results = results

namespace Parking

/-- A creator among the others has got a result, and a new thread may have come of it. -/
theorem replace_creator {x' : Creator} (new? : Option Sleeper)
    (h : Parking c k size p₀ m gathered stage) (hcrew : stage.crew = us ++ .creator x :: vs)
    (hnext : x.next ≠ []) (hindex : x'.index = x.index)
    (hprogress : Progress c { stackSize := size } x')
    (hnew : ∀ t ∈ new?, t.position = .arriving)
    (hstaffed : ∃ tid, p'.Staffed k.conductor
      ((threadsOf (us ++ .creator x' :: vs)).map due) none
      ((sleepersOf us ++ new?.toList ++ sleepersOf vs).map (post tid)))
    (hvisited : p₀.Visited ((threadsOf (us ++ .creator x' :: vs)).map (·.handle)) p') :
    Parking c k size p₀ m gathered { stage with
      group := p'
      crew := us ++ .creator x' :: (new?.map Player.sleeper).toList ++ vs
      point := stage.point + 1 } := by
  have hcreators : creatorsOf (us ++ .creator x' :: (new?.map Player.sleeper).toList ++ vs) =
      creatorsOf us ++ x' :: creatorsOf vs := by
    cases new? <;> simp [creatorsOf]
  have hsleepers : sleepersOf (us ++ .creator x' :: (new?.map Player.sleeper).toList ++ vs) =
      sleepersOf us ++ new?.toList ++ sleepersOf vs := by
    cases new? <;> simp [sleepersOf]
  have hthreads : threadsOf (us ++ .creator x' :: (new?.map Player.sleeper).toList ++ vs) =
      threadsOf (us ++ .creator x' :: vs) := by
    rw [threadsOf, hcreators, threadsOf, creatorsOf_append, creatorsOf_cons_creator]
  have hbefore : creatorsOf stage.crew = creatorsOf us ++ x :: creatorsOf vs := by
    rw [hcrew, creatorsOf_append, creatorsOf_cons_creator]
  constructor
  case players =>
    intro w hw
    have hnot := h.players w
    rw [hcrew] at hnot
    cases new? <;> simp_all
  case staffed => rwa [hthreads, hsleepers]
  case visited => rwa [hthreads]
  case closed => exact h.closed
  case waits =>
    intro t ht
    rw [hsleepers, List.mem_append, List.mem_append] at ht
    have hold (ht : t ∈ sleepersOf us ∨ t ∈ sleepersOf vs) : t ∈ sleepersOf stage.crew := by
      rw [hcrew, sleepersOf_append, sleepersOf_cons_creator]
      exact List.mem_append.2 ht
    obtain (ht | ht) | ht := ht
    · exact h.waits t (hold (.inl ht))
    · exact .inl (hnew t (Option.mem_toList.1 ht))
    · exact h.waits t (hold (.inr ht))
  case index =>
    have hmap := h.index
    rw [hbefore, List.map_append, List.map_cons] at hmap
    rw [hcreators, List.map_append, List.map_cons, hindex, hmap]
  case progress =>
    intro y hy
    rw [hcreators] at hy
    obtain rfl | hy := mem_middle.1 hy
    · exact hprogress
    · exact h.progress y (hbefore ▸ mem_middle.2 (.inr hy))
  case gathered =>
    intro i results hi
    obtain ⟨y, hy, hyindex, hdone, hyresults⟩ := h.gathered i results hi
    rw [hbefore] at hy
    obtain rfl | hy := mem_middle.1 hy
    · exact absurd hdone hnext
    · exact ⟨y, hcreators ▸ mem_middle.2 (.inr hy), hyindex, hdone, hyresults⟩

/-- A request fails, and nothing comes of it. -/
theorem refuse (h : Parking c k size p₀ m gathered stage) (hk : k.Sound)
    (hcrew : stage.crew = us ++ .creator x :: vs) (hnext : x.next = n :: rest)
    (hcreate : stage.group.create (k.creator x.index) (k.here stage.point)
      (some { stackSize := size }) (k.launch n stage.group) = (.error e, p')) :
    Parking c k size p₀ m gathered { stage with
      group := p'
      crew := us ++ [.creator { x with next := rest, results := x.results ++ [.error e] }] ++ vs
      point := stage.point + 1 } := by
  obtain ⟨tid, hstaffed⟩ := h.staffed
  have hprogress := h.progress x (mem_creatorsOf.2 (by simp [hcrew]))
  have hvisited := h.visited
  rw [hcrew] at hstaffed hvisited
  obtain ⟨l, hl⟩ := hstaffed.lists
  obtain ⟨hsame, -⟩ := ThreadGroup.sameThreads_of_create hl rfl hcreate
  have hpos : 0 < e.errno := errno_pos (ThreadGroup.fails_launch (Prod.mk.inj hcreate).1)
    fun errno herrno => by
      obtain ⟨ret, hret⟩ := hk.clone n stage.group errno herrno
      exact SystemCall.pos_of_decode hret
  have hthreads : threadsOf (us ++ .creator
      { x with next := rest, results := x.results ++ [.error e] } :: vs) =
      threadsOf (us ++ .creator x :: vs) := by
    simp [threadsOf]
  refine h.replace_creator none hcrew (by simp [hnext]) rfl
    (hprogress.step hnext nofun fun e' he' => Except.error.inj he' ▸ hpos) nofun ?_ ?_
  · rw [hthreads]
    exact ⟨tid, by simpa using hstaffed.congr hsame⟩
  · rw [hthreads]
    exact hvisited.congr hsame

/-- A request is granted, and a thread comes of it. -/
theorem grant (h : Parking c k size p₀ m gathered stage) (hk : k.Sound)
    (hcrew : stage.crew = us ++ .creator x :: vs) (hnext : x.next = n :: rest)
    (hcreate : stage.group.create (k.creator x.index) (k.here stage.point)
      (some { stackSize := size }) (k.launch n stage.group) = (.ok i, p')) :
    Parking c k size p₀ m gathered { stage with
      group := p'
      crew := us ++ [.creator { x with
          next := rest
          results := x.results ++ [.ok ⟨p'.handle i, UInt64.ofNat (n + 1), k.latency n⟩] },
        .sleeper { block := i, number := UInt64.ofNat (n + 1) }] ++ vs
      point := stage.point + 1 } := by
  obtain ⟨tid, hstaffed⟩ := h.staffed
  obtain ⟨l, hl⟩ := hstaffed.lists
  have hprogress := h.progress x (mem_creatorsOf.2 (by simp [hcrew]))
  have hvisited := h.visited
  rw [hcrew] at hstaffed hvisited
  obtain ⟨htid, hconductor, -⟩ := hk.tid n stage.group (ThreadGroup.clone_of_create hl hcreate)
  obtain ⟨hnone, b, htouches, hsited, hshows⟩ := ThreadGroup.exists_shows_of_create hl
    hstaffed.sited (hk.spares_of_fresh rfl) rfl hcreate (UInt64.ofNat (n + 1))
  have hhandle : p'.handle i = b.address := by
    rw [ThreadGroup.handle, htouches.get?_self]
    rfl
  let t : Parked := ⟨p'.handle i, UInt64.ofNat (n + 1), k.latency n⟩
  let new : Sleeper := { block := i, number := UInt64.ofNat (n + 1) }
  let tid' := update tid i (k.launch n stage.group).tid
  have hthreads := perm_threadsOf us vs x rest t
  have hsleepers := perm_sleepersOf us vs x new
  -- the others keep their ids
  have hposts : (sleepersOf (us ++ .creator x :: vs)).map (post tid) =
      (sleepersOf (us ++ .creator x :: vs)).map (post tid') := by
    refine List.map_congr_left fun t ht => ?_
    obtain ⟨-, -, d, hd, -⟩ := hstaffed.post (post tid t) (List.mem_map_of_mem ht)
    have hne : t.block ≠ i := by
      rintro rfl
      cases hnone.symm.trans hd
    exact (post_update_of_ne hne _).symm
  refine h.replace_creator (some new) hcrew (by simp [hnext]) rfl
    (hprogress.step hnext (fun t' ht' => Except.ok.inj ht' ▸ rfl)
      fun _ he => by cases he) ?_ ⟨tid', ?_⟩ ?_
  · intro t' ht'
    obtain rfl := Option.some.inj ht'
    rfl
  · have hhired := hstaffed.hire hnone htouches hsited ⟨htid, hconductor⟩ hshows
    rw [hposts, ← hhandle] at hhired
    have hdues := hthreads.map due
    have hmap := hsleepers.map (post tid')
    rw [List.map_append, List.map_singleton] at hdues hmap
    have hnew : post tid' new =
        ⟨i, (k.launch n stage.group).tid, .running, UInt64.ofNat (n + 1)⟩ := by
      simp [post, phase, new, tid']
    rw [hnew] at hmap
    exact hhired.perm hdues hmap
  · have hhandles := hthreads.map (·.handle)
    rw [List.map_append] at hhandles
    exact (hvisited.create hsited hcreate).perm hhandles

/-- A creator makes its next request. -/
theorem exists_act_creator (h : Parking c k size p₀ m gathered stage) (hk : k.Sound)
    (hcrew : stage.crew = us ++ .creator x :: vs) (hnext : x.next ≠ []) :
    ∃ players gate group, (Player.creator x).act k stage.point stage.gate stage.group =
        some (players, gate, group) ∧
      Parking c k size p₀ m gathered
        { stage with group, gate, crew := us ++ players ++ vs, point := stage.point + 1 } := by
  obtain ⟨n, rest, hrest⟩ := List.exists_cons_of_ne_nil hnext
  have hprogress := h.progress x (mem_creatorsOf.2 (by simp [hcrew]))
  cases hcreate : stage.group.create (k.creator x.index) (k.here stage.point)
    (some x.attributes) (k.launch n stage.group) with
  | mk result p' =>
  have hact : (Player.creator x).act k stage.point stage.gate stage.group =
      some (.creator { x with
          next := rest
          results := x.results ++
            [result.map fun i => ⟨p'.handle i, UInt64.ofNat (n + 1), k.latency n⟩] } ::
        ((result.toOption.map fun i =>
          { block := i, number := UInt64.ofNat (n + 1) }).map Player.sleeper).toList,
        stage.gate, p') := by
    rw [Player.act, Creator.act, hrest]
    simp only [hcreate]
    rfl
  rw [hprogress.attributes] at hcreate
  refine ⟨_, _, _, hact, ?_⟩
  cases result with
  | error e => exact h.refuse hk hcrew hrest hcreate
  | ok i => exact h.grant hk hcrew hrest hcreate

/-- A thread that calls for the gate has to wait. -/
theorem exists_act_sleeper (h : Parking c k size p₀ m gathered stage)
    (hcrew : stage.crew = us ++ .sleeper sleeper :: vs) (hable : sleeper.able stage.gate = true) :
    ∃ players gate group, (Player.sleeper sleeper).act k stage.point stage.gate stage.group =
        some (players, gate, group) ∧
      Parking c k size p₀ m gathered
        { stage with group, gate, crew := us ++ players ++ vs, point := stage.point + 1 } := by
  have hmem : sleeper ∈ sleepersOf stage.crew := mem_sleepersOf.2 (by simp [hcrew])
  have harriving : sleeper.position = .arriving := by
    refine (h.waits sleeper hmem).resolve_right fun hasleep => ?_
    rw [Sleeper.able, hasleep, h.closed] at hable
    cases hable
  obtain ⟨hnot, hclosed⟩ := Gate.enter_of_isClosed h.closed
  let sleeper' : Sleeper := { sleeper with position := .asleep }
  have hact : (Player.sleeper sleeper).act k stage.point stage.gate stage.group =
      some ([.sleeper sleeper'], (Gate.enter stage.gate).2, stage.group) := by
    simp only [Player.act, Sleeper.act, harriving, hnot]
    rfl
  refine ⟨_, _, _, hact, ?_⟩
  have hcreators : creatorsOf (us ++ [.sleeper sleeper'] ++ vs) = creatorsOf stage.crew := by
    simp [hcrew]
  have hthreads : threadsOf (us ++ [.sleeper sleeper'] ++ vs) = threadsOf stage.crew := by
    rw [threadsOf, hcreators, threadsOf]
  constructor
  case players =>
    intro w hw
    have hnot := h.players w
    simp_all
  case staffed =>
    obtain ⟨tid, hstaffed⟩ := h.staffed
    have hposts : (sleepersOf (us ++ [.sleeper sleeper'] ++ vs)).map (post tid) =
        (sleepersOf stage.crew).map (post tid) := by
      simp [hcrew, sleeper', post, phase, harriving]
    exact ⟨tid, by rwa [hthreads, hposts]⟩
  case visited =>
    rw [hthreads]
    exact h.visited
  case closed => exact hclosed
  case waits =>
    intro t ht
    have hbefore := h.waits t
    rw [hcrew, sleepersOf_append, sleepersOf_cons_sleeper] at hbefore
    rw [List.append_assoc, sleepersOf_append] at ht
    obtain rfl | ht := mem_middle.1 ht
    · exact .inr rfl
    · exact hbefore (mem_middle.2 (.inr ht))
  case index => exact hcreators ▸ h.index
  case progress => exact hcreators ▸ h.progress
  case gathered => exact hcreators ▸ h.gathered

end Parking

/-- Whoever goes on while the gate is closed, the threads wait at it. -/
theorem invariant_parking (hk : k.Sound) (c : Spawn) (size : UInt64) (p₀ : ThreadGroup) (m : Nat)
    (gathered : List (List (Except Error Parked))) :
    Stage.Invariant k (Parking c k size p₀ m gathered) := by
  refine .of_act (fun _ _ h => ⟨h.players, h.staffed, h.visited, h.closed, h.waits, h.index,
    h.progress, h.gathered⟩) fun stage us player vs h hcrew hable => ?_
  cases player with
  | worker w => exact absurd (by simp [hcrew]) (h.players w)
  | creator x =>
    refine h.exists_act_creator hk hcrew fun hnil => ?_
    rw [Player.able, hnil] at hable
    cases hable
  | sleeper t => exact h.exists_act_sleeper hcrew hable

end Threading.Scenario.Spawn

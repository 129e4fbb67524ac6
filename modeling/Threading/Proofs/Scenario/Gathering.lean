import Threading.Proofs.Scenario.Parked

/-!
# Gathering what was created

The conductor closes the gate, starts the creators and joins them one by one, while they make
their requests. Under every schedule each creator comes to the end of its requests, so the
conductor gets the results of all of them, in order, and every failure has a record and a text.
-/
namespace Threading.Scenario.Spawn

open Performance (Returns)
open Record (Emitter Entry)

variable {c : Spawn} {k : Kernel} {p₀ : ThreadGroup} {m n : Nat} {x : Creator} {i : Nat}
variable {crew : List Player} {results : List (Except Error Parked)} {e : Error} {s : Summary}
variable {gathered : List (List (Except Error Parked))} {stage : Stage} {size : UInt64}

/-! ## The gate and the creators -/

/-- The conductor gets the gate at once, and nobody has been created yet. -/
theorem exists_closeGate (stage : Stage) (hcrew : stage.crew = []) (hgate : stage.gate = 0)
    (hl : ∃ l, stage.group.registry.Lists l) (hsited : stage.group.Sited) (c : Spawn) (k : Kernel)
    (size : UInt64) : ∃ stage', Returns (closeGate k) stage () stage' ∧
      Parking c k size stage.group 0 [] stage' ∧ stage'.emitter = stage.emitter := by
  obtain ⟨l, hlists⟩ := hl
  refine ⟨{ stage with gate := 1, point := stage.point + 1 }, ?_, ?_, rfl⟩
  · refine (Performance.turn_alone hcrew).bind ((Returns.get _).bind ?_)
    dsimp only
    rw [hgate, Gate.enter_zero]
    rfl
  constructor
  case players => simp [hcrew]
  case staffed =>
    rw [hcrew]
    exact ⟨fun _ => 0, .nobody (p := stage.group) ⟨l, hlists⟩ hsited _⟩
  case visited =>
    rw [hcrew]
    exact ThreadGroup.Visited.nobody (p := stage.group) hlists
  case closed => rfl
  case waits => simp [hcrew, sleepersOf]
  case index => rw [hcrew]; rfl
  case progress => simp [hcrew, creatorsOf]
  case gathered => simp

namespace Parking

/-- What the conductor writes does not matter. -/
theorem withEmitter (h : Parking c k size p₀ m gathered stage) (emitter : Emitter) :
    Parking c k size p₀ m gathered { stage with emitter } :=
  ⟨h.players, h.staffed, h.visited, h.closed, h.waits, h.index, h.progress, h.gathered⟩

/-- Another creator is started. -/
theorem start (h : Parking c k size p₀ m [] stage) :
    Parking c k size p₀ (m + 1) []
      { stage with crew := stage.crew ++ [.creator (c.creator { stackSize := size } m)] } := by
  let new := c.creator { stackSize := size } m
  have hcreators : creatorsOf (stage.crew ++ [.creator new]) = creatorsOf stage.crew ++ [new] := by
    simp [creatorsOf]
  have hthreads : threadsOf (stage.crew ++ [.creator new]) = threadsOf stage.crew := by
    rw [threadsOf, hcreators, List.flatMap_append, threadsOf]
    exact List.append_nil _
  have hsleepers : sleepersOf (stage.crew ++ [.creator new]) = sleepersOf stage.crew := by
    simp [sleepersOf]
  constructor
  case players =>
    intro w hw
    have hnot := h.players w
    simp_all
  case staffed =>
    rw [hthreads, hsleepers]
    exact h.staffed
  case visited =>
    rw [hthreads]
    exact h.visited
  case closed => exact h.closed
  case waits => exact hsleepers ▸ h.waits
  case index =>
    rw [hcreators, List.map_append, h.index, List.range_succ]
    rfl
  case progress =>
    intro y hy
    rw [hcreators] at hy
    obtain hy | hy := List.mem_append.1 hy
    · exact h.progress y hy
    · rw [List.mem_singleton.1 hy]
      exact progress_creator c _ m
  case gathered => simp

end Parking

/-- All creators are started, in order. -/
theorem exists_startCreators (hk : k.Sound) (h : Parking c k size p₀ m [] stage) (n : Nat) :
    ∃ stage', Returns (c.startCreators k { stackSize := size } (List.range' m n)) stage ()
        stage' ∧
      Parking c k size p₀ (m + n) [] stage' ∧ stage'.emitter = stage.emitter := by
  induction n generalizing m stage with
  | zero => exact ⟨stage, rfl, h, rfl⟩
  | succ n ih =>
    obtain ⟨stage₁, hturn, h₁, hemitter⟩ :=
      Performance.exists_turn (invariant_parking hk c size p₀ m []) h
    obtain ⟨stage', hreturns, h', hemitter'⟩ := ih h₁.start
    refine ⟨stage', ?_, by rwa [Nat.add_right_comm, Nat.add_assoc] at h', hemitter'.trans hemitter⟩
    rw [List.range'_succ]
    exact hturn.bind ((Returns.modify _ stage₁).bind hreturns)

/-! ## Failed creations -/

theorem fills_failed (h : 0 < e.errno) : Entry.Fills fun entry =>
    { entry with stream := some .scenario, errno := some e.errno, outcome := some .fail } where
  traceId _ := rfl
  event _ := rfl
  proper _ he := by
    refine ⟨he.details, fun n hn => ?_, nofun⟩
    rwa [← Option.some.inj hn]

/-- The summary with the failures of the creations. -/
def reported (s : Summary) (errors : List Error) : Summary :=
  errors.foldl (fun s e => s.fail ("create_thread: " ++ e.message)) s

theorem failures_reported (s : Summary) (errors : List Error) :
    (reported s errors).failures =
      s.failures ++ errors.map fun e => "create_thread: " ++ e.message := by
  induction errors generalizing s with
  | nil => simp [reported]
  | cons e errors ih =>
    refine (ih (s.fail _)).trans ?_
    rw [Summary.fail, List.append_assoc]
    rfl

theorem honest_reported (h : s.Honest) (errors : List Error) : (reported s errors).Honest := by
  induction errors generalizing s with
  | nil => exact h
  | cons e errors ih => exact ih (.fail _)

/-- Every failure has a record of its own. -/
theorem exists_reportFailed (stage : Stage) (hlog : stage.emitter.failing = false)
    (hpos : ∀ e ∈ failed results, 0 < e.errno) (k : Kernel) (s : Summary) :
    ∃ e' records,
      Returns (reportFailed k results s) stage (reported s (failed results))
        { stage with emitter := e' } ∧
      stage.emitter.Adds e' records ∧
      records.map (·.event) = List.replicate (failed results).length "create_failed" := by
  induction results generalizing stage s with
  | nil => exact ⟨stage.emitter, [], rfl, .refl _, rfl⟩
  | cons result results ih =>
    cases result with
    | ok t => exact ih stage hlog hpos s
    | error e =>
      have hmem : e ∈ failed (.error e :: results) := List.mem_cons_self
      obtain ⟨e₁, record, hemit, hadds₁, hevent⟩ := Performance.exists_emit stage hlog
        (fills_failed (hpos e hmem)) k .error "create_failed"
      obtain ⟨e', records, hreturns, hadds, hevents⟩ :=
        ih { stage with emitter := e₁ } (hadds₁.failing.trans hlog)
          (fun e' he' => hpos e' (List.mem_cons_of_mem e he'))
          (s.fail ("create_thread: " ++ e.message))
      refine ⟨e', record :: records, hemit.bind hreturns, hadds₁.trans hadds, ?_⟩
      rw [List.map_cons, hevent, hevents]
      rfl

/-! ## Joining the creators -/

theorem resultsOf?_eq_some (h : resultsOf? i crew = some results) :
    ∃ x ∈ creatorsOf crew, x.index = i ∧ x.next = [] ∧ x.results = results := by
  obtain ⟨player, hmem, hplayer⟩ := List.exists_of_findSome?_eq_some h
  cases player with
  | creator x =>
    obtain ⟨⟨hindex, hdone⟩, hresults⟩ := Option.ite_none_right_eq_some.1 hplayer
    exact ⟨x, mem_creatorsOf.2 hmem, hindex, hdone, Option.some.inj hresults⟩
  | worker w => cases hplayer
  | sleeper t => cases hplayer

/-- A creator that is through can be joined. -/
theorem isSome_resultsOf? (hx : x ∈ creatorsOf crew) (hdone : x.next = []) :
    (resultsOf? x.index crew).isSome = true := by
  refine List.findSome?_isSome_iff.2 ⟨.creator x, mem_creatorsOf.1 hx, ?_⟩
  simp [hdone]

/-- The next creator comes to its end, and its results are there. -/
theorem exists_joinCreator (hk : k.Sound) (h : Parking c k size p₀ m gathered stage)
    (hlt : gathered.length < m) :
    ∃ results stage', Returns (joinCreator k gathered.length) stage results stage' ∧
      Parking c k size p₀ m (gathered ++ [results]) stage' ∧
      results.length = c.threadsPerCreator ∧
      Numbered (gathered.length * c.threadsPerCreator) results ∧
      (∀ e ∈ failed results, 0 < e.errno) ∧ stage'.emitter = stage.emitter := by
  have hlive (stage : Stage) (h : Parking c k size p₀ m gathered stage)
      (hready : (resultsOf? gathered.length stage.crew).isSome = false) : stage.able k ≠ [] := by
    have hmem : gathered.length ∈ (creatorsOf stage.crew).map (·.index) := by
      rw [h.index]
      exact List.mem_range.2 hlt
    obtain ⟨x, hx, hindex⟩ := List.mem_map.1 hmem
    refine Stage.able_ne_nil (mem_creatorsOf.1 hx) ?_
    cases hnext : x.next with
    | nil =>
      rw [← hindex, isSome_resultsOf? hx hnext] at hready
      cases hready
    | cons n rest => rw [Player.able, hnext]; rfl
  obtain ⟨stage', hawait, h', hready, hemitter⟩ := Performance.exists_awaitTurn
    (fun stage => (resultsOf? gathered.length stage.crew).isSome)
    (invariant_parking hk c size p₀ m gathered) (fun _ _ => rfl) hlive h
  obtain ⟨results, hresults⟩ := Option.isSome_iff_exists.1 hready
  obtain ⟨x, hx, hindex, hdone, rfl⟩ := resultsOf?_eq_some hresults
  have hprogress := h'.progress x hx
  refine ⟨x.results, stage', hawait.bind ((Returns.get stage').bind ?_), ?_,
    hprogress.length_results hdone, hindex ▸ hprogress.numbered, hprogress.errno_pos, hemitter⟩
  · rw [hresults]
    rfl
  refine ⟨h'.players, h'.staffed, h'.visited, h'.closed, h'.waits, h'.index, h'.progress, ?_⟩
  intro i results hi
  obtain hbefore | hlast := Nat.lt_or_ge i gathered.length
  · rw [List.getElem?_append_left hbefore] at hi
    exact h'.gathered i results hi
  · rw [List.getElem?_append_right hlast] at hi
    obtain ⟨hzero, rfl⟩ := List.getElem?_eq_some_iff.1 hi
    have hone : i - gathered.length = 0 := Nat.lt_one_iff.1 hzero
    refine ⟨x, hx, by omega, hdone, ?_⟩
    simp [hone]

/-- What has come of the requests of `n` creators in a row, from the one with the given number. -/
structure Gathers (c : Spawn) (start n : Nat) (pieces : List (List (Except Error Parked))) :
    Prop where
  count : pieces.length = n
  length : pieces.flatten.length = n * c.threadsPerCreator
  numbered : Numbered (start * c.threadsPerCreator) pieces.flatten
  errno_pos : ∀ e ∈ failed pieces.flatten, 0 < e.errno

theorem Gathers.cons {start : Nat} {pieces : List (List (Except Error Parked))}
    (h : Gathers c (start + 1) n pieces) (hlength : results.length = c.threadsPerCreator)
    (hnumbered : Numbered (start * c.threadsPerCreator) results)
    (hpos : ∀ e ∈ failed results, 0 < e.errno) : Gathers c start (n + 1) (results :: pieces) where
  count := congrArg (· + 1) h.count
  length := by
    rw [List.flatten_cons, List.length_append, hlength, h.length, Nat.succ_mul, Nat.add_comm]
  numbered := by
    rw [List.flatten_cons]
    refine hnumbered.append ?_
    rw [hlength, ← Nat.succ_mul]
    exact h.numbered
  errno_pos e he := by
    rw [List.flatten_cons, failed_append, List.mem_append] at he
    exact he.elim (hpos e) (h.errno_pos e)

/-- All creators are joined, and what failed is reported. -/
theorem exists_gather (hk : k.Sound) (h : Parking c k size p₀ m gathered stage)
    (hlog : stage.emitter.failing = false) (n : Nat) (hm : gathered.length + n = m) (s : Summary) :
    ∃ pieces stage' records, Returns (gather k (List.range' gathered.length n) s) stage
        (pieces.flatten, reported s (failed pieces.flatten)) stage' ∧
      Parking c k size p₀ m (gathered ++ pieces) stage' ∧
      Gathers c gathered.length n pieces ∧
      stage.emitter.Adds stage'.emitter records ∧
      records.map (·.event) = List.replicate (failed pieces.flatten).length "create_failed" := by
  induction n generalizing gathered stage s with
  | zero =>
    exact ⟨[], stage, [], rfl, by rwa [List.append_nil],
      ⟨rfl, (Nat.zero_mul _).symm, numbered_nil _, nofun⟩, .refl _, rfl⟩
  | succ n ih =>
    obtain ⟨results, stage₁, hjoin, h₁, hlength, hnumbered, hpos, hemitter⟩ :=
      exists_joinCreator hk h (by omega)
    obtain ⟨e₂, records, hreport, hadds, hevents⟩ :=
      exists_reportFailed stage₁ (hemitter ▸ hlog) hpos k s
    have hmore : (gathered ++ [results]).length = gathered.length + 1 := by simp
    obtain ⟨pieces, stage', records', hgather, h', hgathers, hadds', hevents'⟩ :=
      ih (h₁.withEmitter e₂) (hadds.failing.trans (hemitter ▸ hlog)) (by omega)
        (reported s (failed results))
    rw [hmore] at hgather hgathers
    rw [hemitter] at hadds
    refine ⟨results :: pieces, stage', records ++ records', ?_, ?_,
      hgathers.cons hlength hnumbered hpos, hadds.trans hadds', ?_⟩
    · rw [List.range'_succ, List.flatten_cons, failed_append, reported, List.foldl_append]
      exact hjoin.bind (hreport.bind (hgather.bind (Returns.pure _ _)))
    · rwa [List.append_assoc] at h'
    · rw [List.map_append, hevents, hevents', List.flatten_cons, failed_append,
        List.length_append, List.replicate_append_replicate]

/-! ## All creators have been joined -/

/-- The creators have the results that were gathered, in order, and are through. -/
theorem Parking.creatorsOf_eq (h : Parking c k size p₀ gathered.length gathered stage) :
    (creatorsOf stage.crew).map (·.results) = gathered ∧
      ∀ x ∈ creatorsOf stage.crew, x.next = [] := by
  have hnodup : ((creatorsOf stage.crew).map (·.index)).Nodup := by
    rw [h.index]
    exact List.nodup_range
  have hlength : (creatorsOf stage.crew).length = gathered.length := by
    have hindices := congrArg List.length h.index
    rwa [List.length_map, List.length_range] at hindices
  -- whoever has the index of some gathered results has come up with them
  have hget (i : Nat) (x : Creator) (hx : (creatorsOf stage.crew)[i]? = some x) :
      gathered[i]? = some x.results ∧ x.next = [] := by
    obtain ⟨hlt, hget⟩ := List.getElem?_eq_some_iff.1 hx
    have hindex : x.index = i := by
      have hmap := congrArg (fun is : List Nat => is[i]?) h.index
      rw [List.getElem?_map, hx, List.getElem?_range (hlength ▸ hlt)] at hmap
      exact Option.some.inj hmap
    have hresults := List.getElem?_eq_getElem (hlength ▸ hlt : i < gathered.length)
    obtain ⟨y, hy, hyindex, hdone, hyresults⟩ := h.gathered i _ hresults
    obtain rfl := List.inj_on_of_nodup_map hnodup (List.mem_of_getElem? hx) hy
      (hindex.trans hyindex.symm)
    exact ⟨hyresults ▸ hresults, hdone⟩
  refine ⟨List.ext_getElem? fun i => ?_, fun x hx => ?_⟩
  · rw [List.getElem?_map]
    cases hx : (creatorsOf stage.crew)[i]? with
    | some x => exact (hget i x hx).1.symm
    | none =>
      have hge := List.getElem?_eq_none_iff.1 hx
      exact (List.getElem?_eq_none (hlength ▸ hge)).symm
  · obtain ⟨i, hi⟩ := List.mem_iff_getElem?.1 hx
    exact (hget i x hi).2

/-- The threads are those that the results tell of. -/
theorem Parking.threadsOf_eq (h : Parking c k size p₀ gathered.length gathered stage) :
    threadsOf stage.crew = created gathered.flatten := by
  rw [threadsOf, ← h.creatorsOf_eq.1, created, List.filterMap_flatten, List.map_map,
    List.flatMap]
  rfl

end Threading.Scenario.Spawn

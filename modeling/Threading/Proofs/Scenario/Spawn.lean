import Threading.Proofs.Scenario.Releasing
import Threading.Proofs.Threads.Placement

/-!
# The account of the spawn scenario

However many creations are asked for, whichever of them fail and whoever goes on when, a run comes
to its end unless the stack size is refused, and then it has done nothing. It passes just if no
creation failed: no check of its own ever finds fault, as the threads are registered under handles
of their own while they wait, return what they were given, and are gone once they are joined.
Every failure has a record and a text.
-/
namespace Threading.Scenario.Spawn

open Performance (Returns)
open Record (Emitter Entry)

variable {c : Spawn} {k : Kernel} {p₀ p p' : ThreadGroup} {stage stage' : Stage} {size : UInt64}
variable {I : Stage → Prop} {threads : List Parked} {known : Bool} {s : Summary}
variable {gathered : List (List (Except Error Parked))} {results : List (Except Error Parked)}

/-! ## Before and after -/

/-- A stage on which the scenario can run: nobody else takes part, the gate is open, the registry
is in order and its threads have memory of their own. -/
structure Prepared (stage : Stage) : Prop where
  crew : stage.crew = []
  gate : stage.gate = 0
  lists : ∃ l, stage.group.registry.Lists l
  sited : stage.group.Sited

/-- The scenario can run in a new process. -/
theorem prepared_initial (pid : Tid) (settings : Settings) (emitter : Emitter) :
    Prepared { group := .initial pid settings, emitter } where
  crew := rfl
  gate := rfl
  lists := ⟨_, Registry.lists_empty.add (ThreadGroup.mainControl pid)⟩
  sited := (ThreadGroup.placed_initial pid settings).toSited

/-- The registry fits into a word. -/
theorem registry_length_lt (hl : ∃ l, p.registry.Lists l) (hsited : p.Sited) :
    p.registry.length < UInt64.size := by
  obtain ⟨l, hl⟩ := hl
  exact hl.length ▸ hsited.length_lt hl

/-! ## Attributes -/

theorem attributes_of_lt (hsize : c.stackSize = some size) (hlt : size < minStackSize) :
    c.attributes = .error (.invalidArgument "stack size below minimum") := by
  simp only [attributes, hsize, Attributes.setStackSize, if_pos hlt]
  rfl

theorem exists_attributes (h : ∀ size, c.stackSize = some size → minStackSize ≤ size) :
    ∃ size, c.attributes = .ok { stackSize := size } := by
  rw [attributes]
  cases hsize : c.stackSize with
  | none => exact ⟨_, rfl⟩
  | some size =>
    refine ⟨size, ?_⟩
    simp only [Attributes.setStackSize, if_neg (UInt64.not_lt.2 (h size hsize))]
    rfl

/-! ## Records -/

theorem exact_word (n : UInt64) : (Entry.word n).Exact := Json.exact_int n.toNat_lt_size

theorem fills_start (hcreators : c.creators < UInt64.size)
    (hper : c.threadsPerCreator < UInt64.size) : Entry.Fills fun e =>
      { e with
        stream := some .scenario
        threadCount := some (UInt64.ofNat c.expected)
        details := some (.object
          [("creators", count c.creators),
            ("stack_size", (c.stackSize.map Entry.word).getD .null),
            ("threads_per_creator", count c.threadsPerCreator)]) } where
  traceId _ := rfl
  event _ := rfl
  proper e he := by
    have hkeys : ["creators", "stack_size", "threads_per_creator"].Pairwise (· < ·) := by decide
    refine ⟨Entry.exactDetails_object rfl hkeys ?_, he.errno, nofun⟩
    have hsize : ((c.stackSize.map Entry.word).getD .null).Exact ∧
        ((c.stackSize.map Entry.word).getD .null).depth ≤ 125 := by
      cases c.stackSize with
      | none => exact ⟨trivial, Nat.zero_le 125⟩
      | some size => exact ⟨exact_word size, Nat.zero_le 125⟩
    simpa [count, Json.exact_int hcreators, Json.exact_int hper, Json.depth] using hsize

theorem fills_parked (threads middle greatest : UInt64) {registered : Nat}
    (h : registered < UInt64.size) : Entry.Fills fun e =>
      { e with
        stream := some .perf
        threadCount := some threads
        latencyNs := some middle
        details := some (.object
          [("create_latency_max_ns", Entry.word greatest),
            ("registry_len", count registered)]) } where
  traceId _ := rfl
  event _ := rfl
  proper e he := by
    have hkeys : ["create_latency_max_ns", "registry_len"].Pairwise (· < ·) := by decide
    refine ⟨Entry.exactDetails_object rfl hkeys ?_, he.errno, nofun⟩
    have hword : (Entry.word greatest).depth = 0 := rfl
    simp [count, Json.exact_int h, exact_word, hword, Json.depth]

theorem fills_joined (threads : UInt64) {registered : Nat} (h : registered < UInt64.size) :
    Entry.Fills fun e =>
      { e with
        stream := some .scenario
        threadCount := some threads
        details := some (.object [("registry_len", count registered)]) } where
  traceId _ := rfl
  event _ := rfl
  proper e he := by
    refine ⟨Entry.exactDetails_object rfl (List.pairwise_singleton _ _) ?_, he.errno, nofun⟩
    simp [count, Json.exact_int h, Json.depth]

/-! ## Creating -/

/-- All requests are made, and the threads that have come of them wait. -/
theorem exists_park (hprepared : Prepared stage) (hk : k.Sound)
    (hlog : stage.emitter.failing = false) (hcreators : c.creators < UInt64.size)
    (hper : c.threadsPerCreator < UInt64.size) (hattributes : c.attributes = .ok { stackSize := size }) :
    ∃ gathered stage' records, Returns (c.park k) stage
        (gathered.flatten, reported { scenario := "spawn" } (failed gathered.flatten)) stage' ∧
      Parking c k size stage.group gathered.length gathered stage' ∧
      Gathers c 0 c.creators gathered ∧ stage.emitter.Adds stage'.emitter records ∧
      records.map (·.event) = ["scenario_start"] ++
        List.replicate (failed gathered.flatten).length "create_failed" := by
  obtain ⟨e₁, r₁, hstart, hadds₁, hevent₁⟩ :=
    Performance.exists_emit stage hlog (fills_start hcreators hper) k .info "scenario_start"
  have hlog₁ : e₁.failing = false := hadds₁.failing.trans hlog
  obtain ⟨stage₂, hclose, h₂, hemitter₂⟩ := exists_closeGate { stage with emitter := e₁ }
    hprepared.crew hprepared.gate hprepared.lists hprepared.sited c k size
  obtain ⟨stage₃, hstarted, h₃, hemitter₃⟩ := exists_startCreators hk h₂ c.creators
  have hemitter : stage₃.emitter = e₁ := hemitter₃.trans hemitter₂
  obtain ⟨gathered, stage', records, hgather, h', hgathers, hadds, hevents⟩ :=
    exists_gather hk h₃ (hemitter ▸ hlog₁) c.creators rfl { scenario := "spawn" }
  rw [hemitter] at hadds
  rw [List.length_nil] at hgather
  rw [← List.range_eq_range'] at hstarted hgather
  refine ⟨gathered, stage', [r₁] ++ records, ?_, ?_, hgathers, hadds₁.trans hadds, ?_⟩
  · rw [park, hattributes]
    exact hstart.bind (hclose.bind (hstarted.bind (hgather.onFailure _)))
  · rwa [List.nil_append, Nat.zero_add, ← hgathers.count] at h'
  · rw [List.map_append, hevents, List.map_singleton, hevent₁]

/-! ## Checks -/

theorem eraseDups_of_nodup {α : Type} [BEq α] [LawfulBEq α] {l : List α} (h : l.Nodup) :
    l.eraseDups = l := by
  induction l with
  | nil => rfl
  | cons x l ih =>
    obtain ⟨hnotin, hnodup⟩ := List.nodup_cons.1 h
    have hfilter : l.filter (fun y => !y == x) = l := by
      refine List.filter_eq_self.2 fun y hy => ?_
      have hne : y ≠ x := fun heq => hnotin (heq ▸ hy)
      simpa using hne
    rw [List.eraseDups_cons, hfilter, ih hnodup]

/-- The registry knows all of the threads, or none of them, whoever goes on in between. -/
theorem exists_countKnown (hI : Stage.Invariant k I)
    (hknows : ∀ stage, I stage → ∀ t ∈ threads, stage.group.knows t.handle = known)
    (h : I stage) : ∃ stage', Returns (countKnown k threads) stage
        (threads.length * known.toNat) stage' ∧
      I stage' ∧ stage'.emitter = stage.emitter := by
  induction threads generalizing stage with
  | nil =>
    refine ⟨stage, ?_, h, rfl⟩
    rw [List.length_nil, Nat.zero_mul]
    rfl
  | cons t threads ih =>
    obtain ⟨stage₁, hturn, h₁, hemitter₁⟩ := Performance.exists_turn hI h
    obtain ⟨stage', hcount, h', hemitter'⟩ :=
      ih (fun stage h t ht => hknows stage h t (List.mem_cons_of_mem _ ht)) h₁
    refine ⟨stage', hturn.bind ((Returns.get stage₁).bind (hcount.bind ?_)), h',
      hemitter'.trans hemitter₁⟩
    rw [hknows stage₁ h₁ t List.mem_cons_self, List.length_cons, Nat.succ_mul]
    exact Returns.pure _ _

/-- The parked threads have handles of their own, under which they are registered. -/
theorem Parking.handles (h : Parking c k size p₀ gathered.length gathered stage) :
    ((created gathered.flatten).map (·.handle)).Nodup ∧
      ∀ t ∈ created gathered.flatten, stage.group.knows t.handle = true := by
  obtain ⟨tid, hstaffed⟩ := h.staffed
  rw [h.threadsOf_eq] at hstaffed
  refine ⟨?_, fun t ht => hstaffed.knows (d := due t) (List.mem_map_of_mem ht)⟩
  have hnodup := hstaffed.nodup
  rwa [List.map_map] at hnodup

/-- Nothing is found wrong with the parked threads. -/
theorem exists_checkParked (hk : k.Sound)
    (h : Parking c k size p₀ gathered.length gathered stage)
    (hlog : stage.emitter.failing = false) (s : Summary) :
    ∃ stage' record, Returns (checkParked k (created gathered.flatten) s) stage s stage' ∧
      Parking c k size p₀ gathered.length gathered stage' ∧
      stage.emitter.Adds stage'.emitter [record] ∧ record.event = "threads_parked" := by
  have hI := invariant_parking hk c size p₀ gathered.length gathered
  obtain ⟨stage₁, hcount, h₁, hemitter₁⟩ := exists_countKnown hI (fun _ h => h.handles.2) h
  obtain ⟨stage₂, hturn, h₂, hemitter₂⟩ := Performance.exists_turn hI h₁
  have hemitter : stage₂.emitter = stage.emitter := hemitter₂.trans hemitter₁
  obtain ⟨tid, hstaffed⟩ := h₂.staffed
  obtain ⟨e₃, record, hemit, hadds, hevent⟩ := Performance.exists_emit stage₂ (hemitter ▸ hlog)
    (fills_parked (UInt64.ofNat (created gathered.flatten).length)
      (latencies (created gathered.flatten)).1 (latencies (created gathered.flatten)).2
      (registry_length_lt hstaffed.lists hstaffed.sited)) k .info "threads_parked"
  rw [hemitter] at hadds
  refine ⟨{ stage₂ with emitter := e₃ }, record, ?_, h₂.withEmitter e₃, hadds, hevent⟩
  have hdistinct : ((created gathered.flatten).map (·.handle)).eraseDups.length =
      (created gathered.flatten).length := by
    rw [eraseDups_of_nodup h.handles.1, List.length_map]
  refine hcount.bind (hturn.bind ((Returns.get stage₂).bind (hemit.bind ?_)))
  simp only [hdistinct, Bool.toNat_true, Nat.mul_one, Nat.sub_self, bne_self_eq_false,
    Summary.failIf, Bool.false_eq_true, if_false]
  exact Returns.pure _ _

/-- Nothing is found wrong once all threads are joined. -/
theorem exists_checkJoined (h : Releasing k p₀ [] none stage)
    (hgone : ∀ stage, Releasing k p₀ [] none stage → ∀ t ∈ threads,
      stage.group.knows t.handle = false) (hlog : stage.emitter.failing = false) (s : Summary) :
    ∃ stage' record, Returns (checkJoined k threads s) stage
        { s with threads := UInt64.ofNat threads.length } stage' ∧
      Releasing k p₀ [] none stage' ∧
      stage.emitter.Adds stage'.emitter [record] ∧ record.event = "threads_joined" := by
  have hI := invariant_releasing k p₀ [] none
  obtain ⟨stage₁, hcount, h₁, hemitter₁⟩ := exists_countKnown hI hgone h
  obtain ⟨stage₂, hturn, h₂, hemitter₂⟩ := Performance.exists_turn hI h₁
  have hemitter : stage₂.emitter = stage.emitter := hemitter₂.trans hemitter₁
  obtain ⟨tid, hstaffed⟩ := h₂.staffed
  obtain ⟨e₃, record, hemit, hadds, hevent⟩ := Performance.exists_emit stage₂ (hemitter ▸ hlog)
    (fills_joined (UInt64.ofNat threads.length)
      (registry_length_lt hstaffed.lists hstaffed.sited)) k .info "threads_joined"
  rw [hemitter] at hadds
  refine ⟨{ stage₂ with emitter := e₃ }, record, ?_, h₂.withEmitter e₃, hadds, hevent⟩
  refine hcount.bind (hturn.bind ((Returns.get stage₂).bind (hemit.bind ?_)))
  simp only [Bool.toNat_false, Nat.mul_zero, bne_self_eq_false, Summary.failIf,
    Bool.false_eq_true, if_false]
  exact Returns.pure _ _

/-- Every thread has returned what it was given. -/
theorem judgeJoins_ok (threads : List Parked) (s : Summary) :
    judgeJoins (threads.zip (threads.map fun t => .ok t.number)) s = s := by
  induction threads with
  | nil => rfl
  | cons t threads ih => simpa [judgeJoins, Summary.failIf] using ih

/-- The threads that are gone are not registered any more. -/
theorem not_knows_of_visited {handles : List UInt64} {handle : UInt64}
    (hvisited : p₀.Visited handles p) (hrestored : p₀.Restored p') (hmem : handle ∈ handles) :
    p'.knows handle = false := by
  obtain ⟨l, -, hl⟩ := hrestored.lists
  rw [ThreadGroup.knows, Option.isSome_eq_false_iff, Option.isNone_iff_eq_none]
  by_contra hne
  obtain ⟨i, hi⟩ := Option.ne_none_iff_exists'.1 hne
  obtain ⟨b, hb, rfl⟩ := ThreadGroup.exists_of_blockAt? hl hi
  exact hvisited.address_notMem ((hrestored.get? i).symm.trans hb) hmem

/-! ## A run -/

/-- What came of the creations that a run asks for: the threads are parked on one stage, the gate
is open on the next, and all of them are joined on the last. -/
structure Stay (c : Spawn) (k : Kernel) (stage : Stage) (results : List (Except Error Parked))
    (parked opened joined : Stage) : Prop where
  length : results.length = c.expected
  /-- Each thread has its position as its number, counted from 1. -/
  number : ∀ n t, results[n]? = some (.ok t) → t.number.toNat = n + 1
  parks : ∃ s, Returns (c.park k) stage (results, s) parked
  opens : ∃ s s' checked, Returns (checkParked k (created results) s) parked s' checked ∧
    Returns (openGate k) checked () opened
  nodup : ((created results).map (·.handle)).Nodup
  registered : ∀ t ∈ created results,
    parked.group.knows t.handle = true ∧ opened.group.knows t.handle = true
  length_parked :
    parked.group.registry.length = (created results).length + stage.group.registry.length
  joins : Returns (Performance.joinAll k ((created results).map (·.handle))) opened
    ((created results).map fun t => .ok t.number) joined
  unregistered : ∀ t ∈ created results, joined.group.knows t.handle = false
  restored : stage.group.Restored joined.group

/-- What a run that comes to its end has done. -/
structure Ran (c : Spawn) (k : Kernel) (stage stage' : Stage)
    (results : List (Except Error Parked)) (s : Summary) (records : List Entry) : Prop where
  stay : ∃ parked opened joined, Stay c k stage results parked opened joined
  restored : stage.group.Restored stage'.group
  threads : s.threads.toNat = (created results).length
  outcome : s.outcome = if failed results = [] then .pass else .fail
  failures : s.failures = (failed results).map fun e => "create_thread: " ++ e.message
  adds : stage.emitter.Adds stage'.emitter records
  events : records.map (·.event) =
    ["scenario_start"] ++ List.replicate (failed results).length "create_failed" ++
      ["threads_parked", "threads_joined", "scenario_end"]

theorem exists_run (hprepared : Prepared stage) (hk : k.Sound)
    (hlog : stage.emitter.failing = false) (hcreators : c.creators < UInt64.size)
    (hper : c.threadsPerCreator < UInt64.size) (hexpected : c.expected < UInt64.size)
    (hsize : ∀ size, c.stackSize = some size → minStackSize ≤ size) :
    ∃ s stage' results records, Returns (c.run k) stage s stage' ∧
      Ran c k stage stage' results s records := by
  obtain ⟨size, hattributes⟩ := exists_attributes hsize
  -- all threads are parked
  obtain ⟨gathered, parked, records, hpark, hparked, hgathers, hadds, hevents⟩ :=
    exists_park hprepared hk hlog hcreators hper hattributes
  have hlog₁ : parked.emitter.failing = false := hadds.failing.trans hlog
  let results := gathered.flatten
  let s₁ := reported { scenario := "spawn" } (failed results)
  have hvisited := hparked.visited
  rw [hparked.threadsOf_eq] at hvisited
  obtain ⟨checked, r₂, hcheck, hchecked, hadds₂, hevent₂⟩ :=
    exists_checkParked hk hparked hlog₁ s₁
  have hlog₂ : checked.emitter.failing = false := hadds₂.failing.trans hlog₁
  -- they pass the gate and are joined
  obtain ⟨opened, hopen, hopened, hemitter₃⟩ := exists_openGate hk hchecked
  obtain ⟨tid, hstaffed⟩ := hopened.staffed
  obtain ⟨joined, hjoin, hjoined, hemitter₄⟩ :=
    (joinable_releasing k stage.group).exists_joinAll hopened
  rw [List.map_map, List.map_map] at hjoin
  have hemitter : joined.emitter = checked.emitter := hemitter₄.trans hemitter₃
  have hgone (stage' : Stage) (h : Releasing k stage.group [] none stage') (t : Parked)
      (ht : t ∈ created results) : stage'.group.knows t.handle = false :=
    not_knows_of_visited hvisited h.visited.restored (List.mem_map_of_mem ht)
  obtain ⟨ended, r₅, hcheckJoined, hended, hadds₅, hevent₅⟩ :=
    exists_checkJoined hjoined hgone (hemitter ▸ hlog₂) s₁
  rw [hemitter] at hadds₅
  let s₅ := { s₁ with threads := UInt64.ofNat (created results).length }
  obtain ⟨e₆, r₆, hclose, hadds₆, hevent₆⟩ :=
    Performance.exists_close ended (hadds₅.failing.trans hlog₂) k s₅
  have hreturns : Returns (c.run k) stage s₅ { ended with emitter := e₆ } := by
    refine hpark.bind ((hcheck.onFailure _).bind (hopen.bind (hjoin.bind ?_)))
    rw [show ((fun d : ThreadGroup.Due => .ok d.value) ∘ due : Parked → Except Error UInt64) =
      fun t => .ok t.number from rfl, judgeJoins_ok]
    exact hcheckJoined.bind (hclose.bind (Returns.pure _ _))
  have hlength : results.length = c.expected := hgathers.length
  have hcount : (created results).length < UInt64.size := by
    have hsum := length_created_add_length_failed results
    omega
  refine ⟨s₅, _, results, _, hreturns, ⟨parked, opened, joined, ?_⟩, hended.visited.restored, ?_,
    ?_, ?_, ((hadds.trans hadds₂).trans hadds₅).trans hadds₆, ?_⟩
  · refine ⟨hlength, fun n t ht => ?_, ⟨_, hpark⟩, ⟨_, _, _, hcheck, hopen⟩, hparked.handles.1,
      fun t ht => ⟨hparked.handles.2 t ht, hstaffed.knows (d := due t) (List.mem_map_of_mem ht)⟩,
      ?_, hjoin, hgone joined hjoined, hjoined.visited.restored⟩
    · have hlt := (List.getElem?_eq_some_iff.1 ht).1
      rw [hgathers.numbered n t ht, Nat.zero_mul, Nat.zero_add, UInt64.toNat_ofNat']
      have hfit : n + 1 < UInt64.size := by omega
      exact Nat.mod_eq_of_lt hfit
    · rw [hvisited.length, List.length_map]
  · exact (UInt64.toNat_ofNat' ..).trans (Nat.mod_eq_of_lt hcount)
  · have hnew : ({ scenario := "spawn" } : Summary).Honest := rfl
    have hnone : s₁.failures = [] ↔ failed results = [] := by
      rw [failures_reported, List.nil_append, List.map_eq_nil_iff]
    exact (honest_reported hnew _).trans (if_congr hnone rfl rfl)
  · exact (failures_reported _ _).trans (List.nil_append _)
  · simp [hevents, hevent₂, hevent₅, hevent₆, results]

/-- A stack size below the minimum is the error of the run, which has done nothing then. With any
other size a run whose records can be written comes to its end, under every schedule. A thread is
registered, under a handle of its own, for every creation that has not failed, from when all
threads are parked until the gate opens; then it is joined with its number and gone afterwards, and
the registry and the mapped memory are what they were before. The run passes just if no creation
failed, and each failure has a text and a record besides the four of every run. The records have
the trace ids that come next, without gaps, and the check of the log finds no fault in them. -/
theorem run_accounts_for_threads (hprepared : Prepared stage) (hk : k.Sound)
    (hlog : stage.emitter.failing = false) (hcreators : c.creators < UInt64.size)
    (hper : c.threadsPerCreator < UInt64.size) (hexpected : c.expected < UInt64.size) :
    (∀ size, c.stackSize = some size → size < minStackSize →
      (c.run k).run.run stage =
        (.error (.thread (.invalidArgument "stack size below minimum")), stage)) ∧
    ((∀ size, c.stackSize = some size → minStackSize ≤ size) →
      ∃ s stage' results parked opened joined records, (c.run k).run.run stage = (.ok s, stage') ∧
        Stay c k stage results parked opened joined ∧
        stage.group.Restored stage'.group ∧
        s.threads.toNat = (created results).length ∧
        (created results).length + (failed results).length = c.expected ∧
        s.outcome = (if failed results = [] then .pass else .fail) ∧
        s.failures = (failed results).map (fun e => "create_thread: " ++ e.message) ∧
        records.length = 4 + (failed results).length ∧
        records.map (·.event) = ["scenario_start"] ++
          List.replicate (failed results).length "create_failed" ++
          ["threads_parked", "threads_joined", "scenario_end"] ∧
        stage'.emitter.written = stage.emitter.written ++ Record.logText records ∧
        records.map (·.traceId) =
          (List.range' (stage.emitter.drawn + 1) records.length).map stage.emitter.traceId ∧
        (':' ∉ stage.emitter.scenario.toList → ¬ "::".toList <:+: stage.emitter.runId.toList →
          Record.checkText (Record.logText records) =
            { checked := records.length, faults := [] })) := by
  constructor
  · intro size hsize hlt
    rw [run, park, attributes_of_lt hsize hlt]
    rfl
  · intro hsize
    obtain ⟨s, stage', results, records, hreturns, hran⟩ :=
      exists_run hprepared hk hlog hcreators hper hexpected hsize
    obtain ⟨parked, opened, joined, hstay⟩ := hran.stay
    have hlength := congrArg List.length hran.events
    simp only [List.length_map, List.length_append, List.length_replicate, List.length_cons,
      List.length_nil] at hlength
    refine ⟨s, stage', results, parked, opened, joined, records, hreturns, hstay, hran.restored,
      hran.threads, ?_, hran.outcome, hran.failures, by omega, hran.events, hran.adds.written,
      hran.adds.ids, hran.adds.checkText_logText⟩
    rw [length_created_add_length_failed, hstay.length]

/-- Two creators take turns with the conductor and the threads. Of their four creations the second
gets no memory and the third no task; another run asks for a stack that is too small. -/
theorem run_accounts_for_threads_twoFailures :
    let c : Spawn := { creators := 2, threadsPerCreator := 2 }
    let small : Spawn := { c with stackSize := some 1 }
    let k : Kernel := Kernel.careful { Kernel.plain "now" 7 with
      turn := id
      here := fun n => .ofFrames [0x400000 + UInt64.ofNat n]
      launch := fun n p =>
        { (Kernel.plain "now" 7).launch n p with
          map := if n = 1 then fun _ => .error 12 else ((Kernel.plain "now" 7).launch n p).map
          clone := if n = 2 then some 11 else none } }
    let stage : Stage :=
      { group := .initial 7 {}, emitter := { scenario := "spawn", runId := "run:1" } }
    (Prepared stage ∧ k.Sound ∧ stage.emitter.failing = false ∧
      c.creators < UInt64.size ∧ c.threadsPerCreator < UInt64.size ∧ c.expected < UInt64.size) ∧
    (small.run k).run.run stage =
      (.error (.thread (.invalidArgument "stack size below minimum")), stage) ∧
    ∃ s stage' records, (c.run k).run.run stage = (.ok s, stage') ∧ s.threads.toNat = 2 ∧
      s.outcome = .fail ∧
      s.failures = ["create_thread: resources exhausted: thread stack",
        "create_thread: os error 11"] ∧
      stage'.group.registry.ids = [0] ∧ stage'.group.mapped = [] ∧
      records.map (·.event) = ["scenario_start", "create_failed", "create_failed",
        "threads_parked", "threads_joined", "scenario_end"] ∧
      records.map (·.traceId) = (List.range' 1 6).map stage.emitter.traceId ∧
      Record.checkText (Record.logText records) = { checked := 6, faults := [] } := by
  intro c small k stage
  have hprepared : Prepared stage := prepared_initial 7 {} _
  have hk : k.Sound := by
    refine Kernel.sound_careful (by decide) fun n p errno h => ?_
    obtain ⟨-, h⟩ := Option.ite_none_right_eq_some.1 h
    exact ⟨SystemCall.encodeErrno 11, Option.some.inj h ▸ rfl⟩
  refine ⟨⟨hprepared, hk, rfl, by decide, by decide, by decide⟩, ?_, ?_⟩
  · exact (run_accounts_for_threads (c := small) hprepared hk rfl (by decide) (by decide)
      (by decide)).1 1 rfl (by decide)
  obtain ⟨s, stage', results, parked, opened, joined, records, hrun, hstay, hrestored, hthreads,
    -, houtcome, hfailures, hlength, hevents, -, hids, hcheck⟩ := (run_accounts_for_threads (c := c)
      hprepared hk rfl (by decide) (by decide) (by decide)).2 nofun
  obtain ⟨s₁, hpark⟩ := hstay.parks
  have hcame : ((c.park k).run.run stage).1.toOption.map
      (fun came => (failed came.1, (created came.1).length)) =
      some ([.resourceExhausted "thread stack", .os 11], 2) := by decide +kernel
  rw [show (c.park k).run.run stage = (.ok (results, s₁), parked) from hpark] at hcame
  obtain ⟨hfailed, hcreated⟩ := Prod.mk.inj (Option.some.inj hcame)
  rw [hfailed] at houtcome hfailures hlength hevents
  refine ⟨s, stage', records, hrun, hthreads.trans hcreated, houtcome, ?_, ?_, ?_, hevents, ?_, ?_⟩
  · exact hfailures.trans (by decide +kernel)
  · exact hrestored.ids.trans (by decide +kernel)
  · exact hrestored.mapped.eq_nil
  · rw [hids, hlength]
    rfl
  · rw [hcheck (by decide) (by decide), hlength]
    rfl

end Threading.Scenario.Spawn

import Threading.Proofs.Scenario.Inversion
import Threading.Proofs.Threads.Placement

/-!
# The verdict of the lock-order scenario

A run comes to its end under every schedule, whatever the numbers of workers and rounds are, and
leaves a process behind in which it can be run again. What it finds wrong is what its
configuration makes impossible: without a round there is no order to record, and without a
recorded order nothing to contradict.
-/
namespace Threading.Scenario.Inversion

open Performance (Returns)
open Record (Emitter Entry)

variable {c : Inversion} {k : Kernel} {s : Settings} {p p' : ThreadGroup} {stage stage' : Stage}
variable {dues : List ThreadGroup.Due} {claimed : Option BlockId} {n : Nat}
variable {results : List (Except Error UInt64)} {ns : List Nat}

/-! ## Before and after -/

/-- A stage on which the scenario can run: nobody is at work, the registry is in order, its
threads have memory of their own, and nobody holds one of the two locks, which are normal
mutexes. -/
structure Prepared (k : Kernel) (stage : Stage) : Prop where
  crew : stage.crew = []
  lists : ∃ l, stage.group.registry.Lists l
  sited : stage.group.Sited
  free : ∀ m ∈ ids k, (stage.group.locks.mutexes.get m).kind = .normal ∧
    (stage.group.locks.mutexes.get m).isLocked = false

/-- The scenario can run in a new process. -/
theorem prepared_initial (k : Kernel) (pid : Tid) (settings : Settings) (emitter : Emitter) :
    Prepared k { group := .initial pid settings, emitter } where
  crew := rfl
  lists := ⟨_, Registry.lists_empty.add (ThreadGroup.mainControl pid)⟩
  sited := (ThreadGroup.placed_initial pid settings).toSited
  free _ _ := ⟨rfl, rfl⟩

theorem isEnabled_level (c : Inversion) : c.level.isEnabled = true := by
  rw [level]
  split <;> rfl

/-- The stage when the session has started. -/
def started (c : Inversion) (stage : Stage) : Stage :=
  { stage with group := startSession c.level stage.group }

/-- A session starts with nothing recorded, and nobody at work. -/
theorem Prepared.works (h : Prepared k stage) (c : Inversion) :
    Works c k { stage.group.settings with level := c.level } 0 [] none (c.started stage) := by
  have hnone : ¬ Recorded k (startSession c.level stage.group) := by
    rw [Recorded, show graph (startSession c.level stage.group) = .empty from rfl,
      LockOrder.Graph.hasEdge_empty]
    exact Bool.false_ne_true
  refine ⟨[], h.crew, rfl, .nobody (p := (c.started stage).group) h.lists
    (h.sited.congr fun _ => rfl) _, ?_,
    LockOrder.Graph.onlyOrder_empty _ _, List.nodup_nil, ?_, Nat.le_refl _,
    fun hlt => absurd hlt (Nat.lt_irrefl _), fun hp => absurd hp hnone⟩
  · refine ⟨[], ⟨isEnabled_level c, LockOrder.accounts_empty, fun m hm => ?_⟩, fun _ => rfl⟩
    obtain ⟨hkind, hfree⟩ := h.free m hm
    exact ⟨hkind, fun _ => hfree, fun _ hmem => absurd hmem List.not_mem_nil⟩
  · exact fun _ hw => absurd hw List.not_mem_nil

/-- When everybody has been joined, nobody holds a lock, and the order is recorded just if there
were workers with rounds to do. -/
theorem Works.idle (h : Works c k s n [] none stage) :
    Idle k s stage ∧ (Recorded k stage.group ↔ 0 < n ∧ 0 < c.iterations) := by
  obtain ⟨ws, hcrew, hatWork⟩ := h
  obtain rfl : ws = [] := List.map_eq_nil_iff.1 hatWork.staffed.posts_eq_nil
  refine ⟨⟨hcrew, hatWork.settings, hatWork.staffed.lists, hatWork.staffed.sited, ?_⟩,
    hatWork.recorded, fun ⟨hn, hpos⟩ => hatWork.ended hn hpos⟩
  rw [only_nil]
  exact hatWork.holdings

theorem Works.onlyOrder (h : Works c k s n dues claimed stage) :
    (graph stage.group).OnlyOrder k.locks.outer k.locks.inner := by
  obtain ⟨ws, -, hatWork⟩ := h
  exact hatWork.order

theorem Works.hasEdge (h : Works c k s n [] none stage) :
    (graph stage.group).hasEdge k.locks.outer k.locks.inner =
      decide (0 < n ∧ 0 < c.iterations) := by
  rw [Bool.eq_iff_iff, decide_eq_true_eq]
  exact h.idle.2

/-- A session ends with nobody holding a lock. -/
theorem Idle.prepared (h : Idle k s stage) (emitter : Emitter) :
    Prepared k { stage with group := endSession stage.group, emitter } where
  crew := h.crew
  lists := h.lists
  sited := h.sited.congr fun _ => rfl
  free m hm := by
    refine ⟨h.holdings.kind hm, ?_⟩
    rw [← Bool.not_eq_true]
    intro hlocked
    obtain ⟨t, ht⟩ := (h.holdings.isLocked_iff hm).1 hlocked
    exact absurd (mem_only ht) List.not_mem_nil

/-! ## Granted requests -/

/-- Every request for a worker is granted. -/
def HiresAll (c : Inversion) (k : Kernel) (stage : Stage) : Prop :=
  ∃ results ∈ ((c.hire k (List.range c.workers)).run.run (c.started stage)).1.toOption,
    ∀ result ∈ results, result.isOk = true

instance (c : Inversion) (k : Kernel) (stage : Stage) : Decidable (c.HiresAll k stage) :=
  inferInstanceAs (Decidable (∃ _ ∈ _, ∀ _ ∈ _, _))

theorem exists_handles (h : ∀ result ∈ results, result.isOk = true) :
    ∃ handles : List UInt64, results = handles.map .ok := by
  induction results with
  | nil => exact ⟨[], rfl⟩
  | cons result results ih =>
    obtain ⟨hresult, hrest⟩ := List.forall_mem_cons.1 h
    obtain ⟨handles, rfl⟩ := ih hrest
    cases result with
    | error e => cases hresult
    | ok handle => exact ⟨handle :: handles, rfl⟩

theorem hired_map_ok (handles : List UInt64) : hired (handles.map .ok) = handles := by
  induction handles with
  | nil => rfl
  | cons handle handles ih => exact congrArg _ ih

/-- All requests are granted, so there is a worker for each of them, and they work while the
conductor joins them. -/
theorem Prepared.exists_workers (h : Prepared k stage) (hk : k.Sound) (hall : c.HiresAll k stage)
    (emitter : Emitter) :
    ∃ handles stage₁ stage', Returns (c.hire k (List.range c.workers))
        ((c.started stage).withEmitter emitter) (handles.map .ok) stage₁ ∧
      Returns (Performance.joinAll k handles) stage₁ (handles.map fun _ => .ok 0) stage' ∧
      handles.length = c.workers ∧
      Works c k { stage.group.settings with level := c.level } c.workers [] none stage' ∧
      stage'.emitter = emitter := by
  obtain ⟨results, stage₁, hreturns, hlength, hworks⟩ :=
    exists_hire hk (List.range c.workers) (h.works c)
  obtain ⟨results', hresults, hok⟩ := hall
  rw [hreturns] at hresults
  obtain rfl := Option.some.inj hresults
  obtain ⟨handles, rfl⟩ := exists_handles hok
  rw [List.length_map, List.length_range] at hlength
  rw [List.nil_append, hired_map_ok, Nat.zero_add, hlength] at hworks
  have hworks : Works c k _ c.workers _ none (stage₁.withEmitter emitter) := hworks
  obtain ⟨stage', hjoin, hworks', hemitter⟩ :=
    (joinable_works c k _ c.workers).exists_joinAll hworks
  simp only [duesOf, List.map_map, Function.comp_def, List.map_id'] at hjoin
  exact ⟨handles, _, stage', returns_hire_withEmitter emitter hreturns, hjoin, hlength, hworks',
    hemitter⟩

/-! ## A run -/

theorem fills_start (c : Inversion) (hiterations : c.iterations < 2 ^ 64) :
    Entry.Fills fun e =>
      { e with
        stream := some .scenario
        threadCount := some (UInt64.ofNat c.workers)
        details := some (.object
          [("inversion", .bool c.inversion), ("iterations", .int c.iterations),
            ("level", .string c.level.name)]) } where
  traceId _ := rfl
  event _ := rfl
  proper e he := by
    have hkeys : ["inversion", "iterations", "level"].Pairwise (· < ·) := by decide
    refine ⟨Entry.exactDetails_object rfl hkeys ?_, he.errno, nofun⟩
    have hexact := Json.exact_int hiterations
    simpa [Json.Exact, Json.depth] using hexact

theorem fills_consistent (threads predicted : UInt64) {stats : LockOrder.Stats}
    (hedges : stats.edges < 2 ^ 64) (hnodes : stats.nodes < 2 ^ 64)
    (hthreads : stats.threads < 2 ^ 64) : Entry.Fills fun e =>
      { e with
        stream := some .scenario
        threadCount := some threads
        predictedDeadlocks := some predicted
        durationMs := some 0
        details := some (.object
          [("edges", .int stats.edges), ("nodes", .int stats.nodes),
            ("threads_seen", .int stats.threads)]) } where
  traceId _ := rfl
  event _ := rfl
  proper e he := by
    have hkeys : ["edges", "nodes", "threads_seen"].Pairwise (· < ·) := by decide
    refine ⟨Entry.exactDetails_object rfl hkeys ?_, he.errno, nofun⟩
    simp [Json.exact_int hedges, Json.exact_int hnodes, Json.exact_int hthreads, Json.depth]

/-- The record of what the workers have left. -/
theorem Works.exists_consistent (h : Works c k s n [] none stage)
    (hlog : stage.emitter.failing = false) (threads : UInt64) :
    ∃ e' record, Returns (Performance.emit k .info "consistent_order" fun e =>
        { e with
          stream := some .scenario
          threadCount := some threads
          predictedDeadlocks := some (UInt64.ofNat (graph stage.group).stats.predicted)
          durationMs := some 0
          details := some (.object
            [("edges", .int (graph stage.group).stats.edges),
              ("nodes", .int (graph stage.group).stats.nodes),
              ("threads_seen", .int (graph stage.group).stats.threads)]) })
        stage () { stage with emitter := e' } ∧
      stage.emitter.Adds e' [record] ∧ record.event = "consistent_order" := by
  have horder := h.onlyOrder
  have hindexed := h.idle.1.holdings.wellFormed.1.indexed
  have hedges : (graph stage.group).stats.edges < 2 ^ 64 :=
    Nat.lt_of_le_of_lt horder.edges_le (by decide)
  have hnodes : (graph stage.group).stats.nodes < 2 ^ 64 :=
    Nat.lt_of_le_of_lt (hindexed.nodes_le horder.mutexes) (by decide)
  exact Performance.exists_emit stage hlog
    (fills_consistent threads _ hedges hnodes hindexed.threads_lt) k .info _

/-! ### Judgements -/

/-- No creation has failed. -/
theorem judgeHiring_ok (handles : List UInt64) (sum : Summary) :
    judgeHiring (handles.map .ok) sum = sum := by
  induction handles with
  | nil => rfl
  | cons handle handles ih => exact ih

/-- No worker has seen a failure. -/
theorem judgeWorkers_ok (handles : List UInt64) (sum : Summary) :
    judgeWorkers (handles.map fun _ => .ok 0) sum =
      { sum with threads := sum.threads + UInt64.ofNat handles.length } := by
  induction handles generalizing sum with
  | nil => simp [judgeWorkers]
  | cons handle handles ih =>
    refine (ih _).trans ?_
    have hadd : UInt64.ofNat (handles.length + 1) = 1 + UInt64.ofNat handles.length := by
      rw [UInt64.ofNat_add, UInt64.add_comm]
      rfl
    simp [hadd, UInt64.add_assoc]

/-- The summary when everybody has been joined. -/
theorem judgeWorkers_hired (handles : List UInt64) :
    judgeWorkers (handles.map fun _ => .ok 0)
        (judgeHiring (handles.map .ok) { scenario := "lock-order" }) =
      { scenario := "lock-order", threads := UInt64.ofNat handles.length } := by
  rw [judgeHiring_ok, judgeWorkers_ok, UInt64.zero_add]

/-- The judgement on the established order, from what the workers have left. -/
def judgeOrder (k : Kernel) (g : LockOrder.Graph) (s : Summary) : Summary :=
  let s := s.failIf (g.stats.predicted != 0)
    (Text.decimal g.stats.predicted ++ " false positive(s) under a consistent order")
  s.failIf (0 < s.threads && !g.hasEdge k.locks.outer k.locks.inner)
    "established order was not recorded"

theorem honest_judgeOrder {s : Summary} (h : s.Honest) (g : LockOrder.Graph) :
    (judgeOrder k g s).Honest :=
  (h.failIf _ _).failIf _ _

theorem threads_judgeOrder (g : LockOrder.Graph) (s : Summary) :
    (judgeOrder k g s).threads = s.threads := by
  simp only [judgeOrder, Summary.threads_failIf]

/-- Without a prediction it comes down to whether the order has been recorded. -/
theorem failures_judgeOrder {g : LockOrder.Graph} {s : Summary} (h : g.stats.predicted = 0) :
    (judgeOrder k g s).failures = s.failures ++
      if 0 < s.threads.toNat ∧ g.hasEdge k.locks.outer k.locks.inner = false
        then ["established order was not recorded"] else [] := by
  have hpos : 0 < s.threads ↔ 0 < s.threads.toNat := UInt64.lt_iff_toNat_lt
  simp [judgeOrder, Summary.failures_failIf, Summary.threads_failIf, h, hpos]

/-- The workers leave nothing to object to but an order that was not recorded. -/
theorem Works.failures_judgeOrder (h : Works c k s n [] none stage) {sum : Summary}
    (hnone : sum.failures = []) (hthreads : sum.threads.toNat = n) :
    (judgeOrder k (graph stage.group) sum).failures =
      if 0 < n ∧ c.iterations = 0 then ["established order was not recorded"] else [] := by
  refine (Inversion.failures_judgeOrder h.onlyOrder.predicted).trans ?_
  rw [hnone, List.nil_append, hthreads, h.hasEdge]
  refine if_congr (and_congr_right fun hpos => ?_) rfl rfl
  rw [decide_eq_false_iff_not, and_iff_right hpos, Nat.pos_iff_ne_zero, not_not]

/-! ### The whole run -/

/-- What a run that comes to its end tells. -/
structure Judged (c : Inversion) (s : Summary) : Prop where
  honest : s.Honest
  threads : s.threads.toNat = c.workers
  failures : s.failures =
    (if 0 < c.workers ∧ c.iterations = 0 then ["established order was not recorded"] else []) ++
      if c.inversion = true ∧ (c.workers = 0 ∨ c.iterations = 0) then unprovoked else []
  predicted : s.predictedDeadlocks =
    if c.inversion = true ∧ 0 < c.workers ∧ 0 < c.iterations then 1 else 0

/-- The events between the first and the last one, of which `n` are logged lines. -/
def eventsBetween (c : Inversion) (n : Nat) : List String :=
  ["consistent_order"] ++
    if c.inversion then List.replicate n "core_log" ++ ["inversion"] else []

/-- The watched part comes to its end. -/
theorem exists_perform (hprepared : Prepared k stage) (hk : k.Sound)
    (hwarn : stage.group.settings.priority.passes .warn = true) {e : Emitter}
    (hlog : e.failing = false) (hworkers : c.workers < 2 ^ 64) (hcreates : c.HiresAll k stage) :
    ∃ s stage' records, Returns (c.perform k) { c.started stage with emitter := e } s stage' ∧
      Judged c s ∧ e.Adds stage'.emitter records ∧
      (∃ n, records.map (·.event) = c.eventsBetween n) ∧
      Idle k { stage.group.settings with level := c.level } stage' := by
  -- the workers
  obtain ⟨handles, stage₁, stage₂, hhire, hjoin, hlength, hworks, rfl⟩ :=
    hprepared.exists_workers hk hcreates e
  let joined : Summary := { scenario := "lock-order", threads := UInt64.ofNat c.workers }
  have hjoined : judgeWorkers (handles.map fun _ => .ok 0)
      (judgeHiring (handles.map .ok) { scenario := "lock-order" }) = joined := by
    rw [judgeWorkers_hired, hlength]
  have hthreads : joined.threads.toNat = c.workers :=
    (UInt64.toNat_ofNat' ..).trans (Nat.mod_eq_of_lt hworkers)
  let judged := judgeOrder k (graph stage₂.group) joined
  obtain ⟨e₂, r₂, hconsistent, hadds₂, hevent₂⟩ := hworks.exists_consistent hlog judged.threads
  have hlog₂ : e₂.failing = false := hadds₂.failing.trans hlog
  -- the opposite order
  obtain ⟨hcrew, hsettings, hlists, hsited, hholdings⟩ := hworks.idle.1
  have hidle : Idle k { stage.group.settings with level := c.level }
      { stage₂ with emitter := e₂ } := ⟨hcrew, hsettings, hlists, hsited, hholdings⟩
  have hnew : joined.Honest := rfl
  have hhonest : judged.Honest := honest_judgeOrder hnew _
  obtain ⟨s, stage₃, records, htry, htried⟩ := hidle.exists_tried c.inversion hk.conductor
    hworks.onlyOrder hwarn hlog₂ hhonest
  have hreturns : Returns (c.perform k) { c.started stage with emitter := stage₂.emitter }
      { s with predictedDeadlocks := UInt64.ofNat (graph stage₃.group).stats.predicted }
      stage₃ := by
    refine hhire.bind ?_
    rw [hired_map_ok]
    refine hjoin.bind ?_
    rw [hjoined]
    refine (Returns.get _).bind ?_
    refine hconsistent.bind ?_
    refine htry.ite_bind ?_
    exact (Returns.get _).bind (Returns.pure _ _)
  -- what the judgements come to
  have hpredicted := htried.predicted
  have hfailures := htried.failures
  rw [show judged.failures = _ from hworks.failures_judgeOrder rfl hthreads] at hfailures
  simp only [show (graph stage₂.group).hasEdge k.locks.outer k.locks.inner = _ from hworks.hasEdge]
    at hfailures hpredicted
  refine ⟨_, stage₃, [r₂] ++ records, hreturns, ⟨htried.honest, ?_, ?_, ?_⟩,
    hadds₂.trans htried.adds, ?_, htried.idle⟩
  · rw [← hthreads, ← threads_judgeOrder (k := k) (graph stage₂.group) joined]
    exact congrArg UInt64.toNat htried.threads
  · have hmissing : (c.inversion && !decide (0 < c.workers ∧ 0 < c.iterations)) = true ↔
        c.inversion = true ∧ (c.workers = 0 ∨ c.iterations = 0) := by
      rw [Bool.and_eq_true, Bool.not_eq_true', decide_eq_false_iff_not]
      exact and_congr_right fun _ => by omega
    exact hfailures.trans (congrArg _ (if_congr hmissing rfl rfl))
  · have hboth : (c.inversion && decide (0 < c.workers ∧ 0 < c.iterations)) = true ↔
        c.inversion = true ∧ 0 < c.workers ∧ 0 < c.iterations := by
      rw [Bool.and_eq_true, decide_eq_true_eq]
    refine (congrArg UInt64.ofNat (hpredicted.trans (if_congr hboth rfl rfl))).trans ?_
    split <;> rfl
  · obtain ⟨n, hn⟩ := htried.events
    exact ⟨n, by rw [List.map_append, hn, List.map_singleton, hevent₂, eventsBetween]⟩

/-- What a run that comes to its end leads to. -/
structure Ran (c : Inversion) (k : Kernel) (stage stage' : Stage) (s : Summary)
    (records : List Entry) : Prop extends Judged c s where
  adds : stage.emitter.Adds stage'.emitter records
  events : ∃ n, records.map (·.event) =
    ["scenario_start"] ++ c.eventsBetween n ++ ["scenario_end"]
  settings : stage'.group.settings = { stage.group.settings with level := .disabled }
  prepared : Prepared k stage'

theorem exists_run (hprepared : Prepared k stage) (hk : k.Sound)
    (hwarn : stage.group.settings.priority.passes .warn = true)
    (hlog : stage.emitter.failing = false) (hworkers : c.workers < 2 ^ 64)
    (hiterations : c.iterations < 2 ^ 64) (hcreates : c.HiresAll k stage) :
    ∃ s stage' records, Returns (c.run k) stage s stage' ∧ Ran c k stage stage' s records := by
  obtain ⟨e₁, r₁, hstart, hadds₁, hevent₁⟩ :=
    Performance.exists_emit stage hlog (fills_start c hiterations) k .info "scenario_start"
  have hlog₁ : e₁.failing = false := hadds₁.failing.trans hlog
  obtain ⟨s, stage₂, records, hperform, hjudged, hadds₂, ⟨n, hevents⟩, hidle⟩ :=
    exists_perform hprepared hk hwarn hlog₁ hworkers hcreates
  have hlog₂ : stage₂.emitter.failing = false := hadds₂.failing.trans hlog₁
  obtain ⟨e₃, r₃, hclose, hadds₃, hevent₃⟩ := Performance.exists_close
    { stage₂ with group := endSession stage₂.group } hlog₂ k s
  have hreturns : Returns (c.run k) stage s
      { stage₂ with group := endSession stage₂.group, emitter := e₃ } := by
    refine hstart.bind ?_
    refine (Returns.modifyGroup _ _).bind ?_
    refine (hperform.onFailure _).bind ?_
    refine (Returns.modifyGroup _ _).bind ?_
    exact hclose.bind (Returns.pure _ _)
  refine ⟨s, _, [r₁] ++ records ++ [r₃], hreturns, hjudged, (hadds₁.trans hadds₂).trans hadds₃,
    ⟨n, ?_⟩, ?_, hidle.prepared e₃⟩
  · simp only [List.map_append, List.map_singleton, hevent₁, hevents, hevent₃]
  · have hkept := hidle.settings
    simp only [endSession, hkept]

/-- Under every schedule, with free locks, a log that can be written, warnings that are logged and
every worker created, the scenario comes to its end. It has passed just if the workers did at
least one round, or if there were none and the opposite order was not tried; otherwise it lists
which of the checks a run without rounds cannot meet. It predicts the one deadlock just if the
opposite order was tried after a round. Its records have the trace ids that come next, without
gaps, and the check of the log finds no fault in them. Afterwards the scenario can be run
again. -/
theorem run_verdict (hprepared : Prepared k stage) (hk : k.Sound)
    (hwarn : stage.group.settings.priority.passes .warn = true)
    (hlog : stage.emitter.failing = false) (hworkers : c.workers < 2 ^ 64)
    (hiterations : c.iterations < 2 ^ 64) (hcreates : c.HiresAll k stage) :
    ∃ s stage' records n, (c.run k).run.run stage = (.ok s, stage') ∧
      s.outcome = (if 0 < c.workers ∧ 0 < c.iterations ∨ c.workers = 0 ∧ c.inversion = false
        then .pass else .fail) ∧
      s.failures =
        (if 0 < c.workers ∧ c.iterations = 0 then ["established order was not recorded"] else []) ++
        (if c.inversion = true ∧ (c.workers = 0 ∨ c.iterations = 0) then
          ["expected one predicted deadlock, saw 0", "no report was logged for the inversion",
            "cycle-closing edge was kept"] else []) ∧
      s.predictedDeadlocks =
        (if c.inversion = true ∧ 0 < c.workers ∧ 0 < c.iterations then 1 else 0) ∧
      s.threads.toNat = c.workers ∧
      stage'.emitter.written = stage.emitter.written ++ Record.logText records ∧
      records.map (·.event) = ["scenario_start", "consistent_order"] ++
        (if c.inversion then List.replicate n "core_log" ++ ["inversion"] else []) ++
        ["scenario_end"] ∧
      records.map (·.traceId) =
        (List.range' (stage.emitter.drawn + 1) records.length).map stage.emitter.traceId ∧
      (':' ∉ stage.emitter.scenario.toList → ¬ "::".toList <:+: stage.emitter.runId.toList →
        Record.checkText (Record.logText records) = { checked := records.length, faults := [] }) ∧
      stage'.group.settings = { stage.group.settings with level := .disabled } ∧
      Prepared k stage' := by
  obtain ⟨s, stage', records, hreturns, hran⟩ :=
    exists_run hprepared hk hwarn hlog hworkers hiterations hcreates
  obtain ⟨n, hevents⟩ := hran.events
  refine ⟨s, stage', records, n, hreturns, ?_, hran.failures, hran.predicted, hran.threads,
    hran.adds.written, hevents, hran.adds.ids, hran.adds.checkText_logText, hran.settings,
    hran.prepared⟩
  refine hran.honest.trans (if_congr ?_ rfl rfl)
  rw [hran.failures]
  by_cases hw : c.workers = 0 <;> by_cases hi : c.iterations = 0 <;>
    cases hinversion : c.inversion <;> simp [hw, hi, unprovoked, Nat.pos_iff_ne_zero]

/-- Two workers with three rounds each, who take turns with the conductor, in a new process and
with a new log. -/
theorem run_verdict_twoWorkers :
    let c : Inversion := { workers := 2, iterations := 3, captureStacks := true }
    let k : Kernel := { Kernel.plain "now" 7 with
      turn := id, here := fun n => .ofFrames [0x400000 + UInt64.ofNat n, 0x401000] }.careful
    let stage : Stage :=
      { group := .initial 7 {}, emitter := { scenario := "lock-order", runId := "run:1" } }
    (Prepared k stage ∧ k.Sound ∧ stage.group.settings.priority.passes .warn = true ∧
      stage.emitter.failing = false ∧ c.workers < 2 ^ 64 ∧ c.iterations < 2 ^ 64 ∧
      c.HiresAll k stage) ∧
    ∃ s stage' records, (c.run k).run.run stage = (.ok s, stage') ∧ s.outcome = .pass ∧
      s.failures = [] ∧ s.predictedDeadlocks = 1 ∧ s.threads.toNat = 2 ∧
      stage'.emitter.written = Record.logText records ∧
      records.map (·.traceId) = (List.range' 1 records.length).map stage.emitter.traceId ∧
      Record.checkText (Record.logText records) = { checked := records.length, faults := [] } := by
  intro c k stage
  have hprepared : Prepared k stage := prepared_initial k 7 {} _
  have hk : k.Sound := Kernel.sound_careful (by decide) nofun
  have hcreates : c.HiresAll k stage := by decide +kernel
  refine ⟨⟨hprepared, hk, rfl, rfl, by decide, by decide, hcreates⟩, ?_⟩
  obtain ⟨s, stage', records, n, hrun, houtcome, hfailures, hpredicted, hthreads, hwritten, -, hids,
    hcheck, -⟩ := run_verdict hprepared hk rfl rfl (by decide) (by decide) hcreates
  refine ⟨s, stage', records, hrun, houtcome, hfailures, hpredicted, hthreads,
    hwritten.trans String.empty_append, hids, hcheck (by decide) (by decide)⟩

end Threading.Scenario.Inversion

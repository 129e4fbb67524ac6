import Threading.Proofs.Record.Log
import Threading.Proofs.Scenario.Schedule

/-!
# What a performance leaves on its stage

While the log can be written, every part of a run that emits records returns, and adds its
records to the log. Their trace ids carry on with the numbers, and if the scenario has no
colon and the run id no separator, the check of the log finds no fault in them.
-/
namespace Threading

namespace Record

open Json (IntegerInRange)

variable {e e' e'' : Emitter} {records later : List Entry}

/-! ## Added records -/

/-- The emitter has written these records, with the trace ids that come next. -/
structure Emitter.Adds (e e' : Emitter) (records : List Entry) : Prop where
  scenario : e'.scenario = e.scenario
  runId : e'.runId = e.runId
  failing : e'.failing = e.failing
  drawn : e'.drawn = e.drawn + records.length
  written : e'.written = e.written ++ logText records
  ids : records.map (·.traceId) = (List.range' (e.drawn + 1) records.length).map e.traceId
  proper : ∀ record ∈ records, record.Proper

namespace Emitter.Adds

protected theorem refl (e : Emitter) : e.Adds e [] := by
  refine ⟨rfl, rfl, rfl, rfl, ?_, by rw [List.length_nil]; rfl, ?_⟩
  · rw [logText, String.append_empty]
  · exact fun _ h => absurd h List.not_mem_nil

theorem trans (h : e.Adds e' records) (h' : e'.Adds e'' later) : e.Adds e'' (records ++ later) where
  scenario := h'.scenario.trans h.scenario
  runId := h'.runId.trans h.runId
  failing := h'.failing.trans h.failing
  drawn := by rw [h'.drawn, h.drawn, List.length_append, Nat.add_assoc]
  written := by rw [h'.written, h.written, String.append_assoc, logText_append]
  ids := by
    have hid := traceId_congr h.scenario h.runId
    rw [List.map_append, h.ids, h'.ids, hid, h.drawn, ← List.map_append, List.length_append,
      Nat.add_right_comm, List.range'_append_1]
  proper := fun record hrecord =>
    (List.mem_append.1 hrecord).elim (h.proper record) (h'.proper record)

/-- The check finds no fault in what has been written. -/
theorem checkText_logText (h : e.Adds e' records) (hscenario : ':' ∉ e.scenario.toList)
    (hrunId : ¬ "::".toList <:+: e.runId.toList) :
    checkText (logText records) = { checked := records.length, faults := [] } := by
  refine checkText_logText_of_isTraceId fun record hrecord => ⟨h.proper record hrecord, ?_⟩
  have hmem := List.mem_map_of_mem (f := (·.traceId)) hrecord
  rw [h.ids] at hmem
  obtain ⟨n, -, hn⟩ := List.mem_map.1 hmem
  exact hn ▸ (isTraceId_traceId hscenario n).2 hrunId

end Emitter.Adds

/-- A record that is complete but for a trace id gets the next one. -/
theorem Emitter.adds_emitEntry {entry : Entry} (h : e.failing = false) (hid : entry.traceId = "")
    (hproper : entry.Proper) :
    ∃ e' record, e.emitEntry entry = (.ok (), e') ∧ e.Adds e' [record] ∧
      record.event = entry.event := by
  have hempty : entry.traceId.isEmpty = true := by rw [hid]; rfl
  let e' : Emitter :=
    { e with drawn := e.drawn + 1, written := e.written ++ logText [(e.complete entry).1] }
  refine ⟨e', (e.complete entry).1, ?_, ⟨rfl, rfl, rfl, rfl, rfl, ?_, ?_⟩, ?_⟩
  · simp only [e', emitEntry, complete_eq, hempty, write_eq, h, Bool.false_eq_true, if_false,
      Bool.toNat_true, if_true]
  · simp [complete_eq, hempty]
  · simpa using hproper.complete e
  · rw [complete_eq]

/-- The details of a record are an object with the keys in ascending order. -/
theorem Entry.exactDetails_object {entry : Entry} {fields : List (String × Json)}
    (h : entry.details = some (.object fields)) (hkeys : (fields.map (·.1)).Pairwise (· < ·))
    (hfields : ∀ f ∈ fields, f.2.Exact ∧ f.2.depth ≤ 125) : entry.ExactDetails := by
  intro d hd
  obtain rfl := Option.some.inj (h.symm.trans hd)
  refine ⟨nofun, ⟨hkeys, Json.forall_exactFields_iff.2 fun f hf => (hfields f hf).1⟩, ?_⟩
  rw [Json.depth]
  have hdepth := Json.depthOfFields_le_iff.2 fun f hf => (hfields f hf).2
  omega

theorem CoreLine.traceId_toEntry (l : CoreLine) (now : String) : (l.toEntry now).traceId = "" := rfl

theorem CoreLine.proper_toEntry (l : CoreLine) (now : String) : (l.toEntry now).Proper := by
  have hkeys : ["message", "tag"].Pairwise (· < ·) := by decide
  refine ⟨Entry.exactDetails_object rfl hkeys ?_, nofun, fun _ => rfl⟩
  simp [Json.Exact, Json.depth]

/-- Additions to a record of the emitter's own. -/
structure Entry.Fills (fill : Entry → Entry) : Prop where
  traceId : ∀ e, (fill e).traceId = e.traceId
  event : ∀ e, (fill e).event = e.event
  proper : ∀ e : Entry, e.Proper → (fill e).Proper

theorem Emitter.isEmpty_traceId (e : Emitter) (n : Nat) : (e.traceId n).isEmpty = false := by
  rw [← Bool.not_eq_true, String.isEmpty_iff]
  intro hempty
  have hlist := congrArg String.toList hempty
  simp [traceId] at hlist

/-- A record of the emitter's own already has the next trace id. -/
theorem Emitter.adds_filled {fill : Entry → Entry} (h : e.failing = false)
    (hfill : Entry.Fills fill) (now : String) (level : Level) (event : String) :
    ∃ e' record,
      (e.entry now level event).2.emitEntry (fill (e.entry now level event).1) = (.ok (), e') ∧
      e.Adds e' [record] ∧ record.event = event := by
  obtain ⟨drawn, hdrawn⟩ : ∃ drawn, drawn = (e.entry now level event).2 := ⟨_, rfl⟩
  obtain ⟨entry, hentry⟩ : ∃ entry, entry = fill (e.entry now level event).1 := ⟨_, rfl⟩
  have hid : entry.traceId = e.traceId (e.drawn + 1) := by rw [hentry, hfill.traceId]; rfl
  have hempty : entry.traceId.isEmpty = false := by rw [hid, isEmpty_traceId]
  have hproper : entry.Proper := hentry ▸ hfill.proper _ (e.proper_entry now level event)
  let e' : Emitter :=
    { e with drawn := e.drawn + 1, written := e.written ++ logText [(drawn.complete entry).1] }
  have hcomplete : (drawn.complete entry).1.traceId = e.traceId (e.drawn + 1) := by
    rw [complete_eq]
    exact (if_neg (by rw [hempty]; exact Bool.false_ne_true)).trans hid
  rw [← hdrawn, ← hentry]
  refine ⟨e', (drawn.complete entry).1, ?_, ⟨rfl, rfl, rfl, rfl, rfl, ?_, ?_⟩, ?_⟩
  · simp only [e', emitEntry, complete_eq, hempty, write_eq, hdrawn, Emitter.entry, draw, h,
      Bool.false_eq_true, if_false, Bool.toNat_false, Nat.add_zero]
  · rw [List.map_singleton, hcomplete]
    rfl
  · simpa using hproper.complete drawn
  · rw [complete_eq]
    exact hentry ▸ hfill.event _

end Record

namespace Json

theorem exact_int {n : Nat} (h : n < UInt64.size) : Exact (.int n) :=
  ⟨by omega, Int.ofNat_lt.2 h⟩

theorem exact_strings (texts : List String) : Exact (.array (texts.map .string)) := by
  induction texts with
  | nil => trivial
  | cons text texts ih => exact ⟨trivial, ih⟩

theorem depth_strings (texts : List String) : depth (.array (texts.map .string)) = 1 := by
  induction texts with
  | nil => rfl
  | cons text texts ih => simpa [depth, depthOfItems] using ih

end Json

namespace Scenario

/-! ## Summaries -/

namespace Summary

variable {s : Summary}

/-- The summary says that the run passed just if it lists no failure. -/
def Honest (s : Summary) : Prop := s.outcome = if s.failures = [] then .pass else .fail

theorem Honest.fail (reason : String) : (s.fail reason).Honest := by
  simp [Honest, Summary.fail]

theorem Honest.failIf (h : s.Honest) (wrong : Bool) (reason : String) :
    (s.failIf wrong reason).Honest := by
  cases wrong with
  | false => exact h
  | true => exact .fail reason

@[simp] theorem failures_failIf (s : Summary) (wrong : Bool) (reason : String) :
    (s.failIf wrong reason).failures = s.failures ++ if wrong then [reason] else [] := by
  cases wrong <;> simp [failIf, fail]

@[simp] theorem threads_failIf (s : Summary) (wrong : Bool) (reason : String) :
    (s.failIf wrong reason).threads = s.threads := by
  cases wrong <;> rfl

end Summary

namespace Performance

open Record (Emitter Entry)

variable {α β : Type} {x : Performance α} {f : α → Performance β} {a : α} {b : β}
variable {k : Kernel} {stage stage₁ stage₂ : Stage} {s : Summary} {p : ThreadGroup}

/-! ## Parts that return -/

/-- The part returns a value, on this stage. -/
def Returns (x : Performance α) (stage : Stage) (a : α) (stage' : Stage) : Prop :=
  x.run.run stage = (.ok a, stage')

namespace Returns

protected theorem pure (a : α) (stage : Stage) : Returns (pure a) stage a stage := rfl

protected theorem bind (hx : Returns x stage a stage₁) (hf : Returns (f a) stage₁ b stage₂) :
    Returns (x >>= f) stage b stage₂ := by
  rw [Returns, ExceptT.run_bind, StateT.run_bind, hx]
  exact hf

/-- What follows a choice belongs to both of its sides. -/
protected theorem ite_bind {choice : Bool} {y : Performance α}
    (h : Returns (if choice then x else y) stage a stage₁) (hf : Returns (f a) stage₁ b stage₂) :
    Returns (if choice then x >>= f else y >>= f) stage b stage₂ := by
  cases choice <;> exact h.bind hf

theorem get (stage : Stage) : Returns (MonadState.get : Performance Stage) stage stage stage := rfl

theorem modifyGroup (f : ThreadGroup → ThreadGroup) (stage : Stage) :
    Returns (modifyGroup f) stage () { stage with group := f stage.group } := rfl

theorem modify (f : Stage → Stage) (stage : Stage) :
    Returns (modify f : Performance Unit) stage () (f stage) := rfl

theorem onGroup? {f : ThreadGroup → Option (α × ThreadGroup)} (h : f stage.group = some (a, p)) :
    Returns (onGroup? f) stage a { stage with group := p } := by
  refine Returns.bind (get stage) ?_
  rw [h]
  rfl

/-- Without a failure there is nothing to undo. -/
protected theorem onFailure (h : Returns x stage a stage₁) (undo : Performance Unit) :
    Returns (onFailure x undo) stage a stage₁ := by
  rw [Returns, onFailure, ExceptT.run_tryCatch, StateT.run_bind, h]
  rfl

/-- A part and what follows it return just if both do. -/
theorem bind_iff : Returns (x >>= f) stage b stage₂ ↔
    ∃ a stage₁, Returns x stage a stage₁ ∧ Returns (f a) stage₁ b stage₂ := by
  constructor
  · intro h
    rw [Returns, ExceptT.run_bind, StateT.run_bind] at h
    cases hx : x.run.run stage with
    | mk result stage₁ =>
    rw [hx] at h
    cases result with
    | error e => cases h
    | ok a => exact ⟨a, stage₁, hx, h⟩
  · rintro ⟨a, stage₁, hx, hf⟩
    exact hx.bind hf

theorem awaitTurn_iff {ready : Stage → Bool} :
    Returns (awaitTurn k ready) stage () stage₁ ↔ stage.awaitTurn k ready = some stage₁ := by
  rw [awaitTurn, bind_iff]
  constructor
  · rintro ⟨s, s', hget, hset⟩
    obtain ⟨hs, rfl⟩ := Prod.mk.inj hget
    obtain rfl := Except.ok.inj hs
    cases hawait : stage.awaitTurn k ready with
    | none =>
      rw [hawait] at hset
      cases hset
    | some next =>
      rw [hawait] at hset
      exact congrArg some (Prod.mk.inj hset).2
  · intro hawait
    refine ⟨stage, stage, get stage, ?_⟩
    rw [hawait]
    rfl

end Returns

/-! ## Waiting -/

variable {I : Stage → Prop}

/-- The others go on until the conductor does. -/
theorem exists_awaitTurn (ready : Stage → Bool) (hI : Stage.Invariant k I)
    (hpoint : ∀ stage n, ready { stage with point := n } = ready stage)
    (hlive : ∀ stage, I stage → ready stage = false → stage.able k ≠ []) (h : I stage) :
    ∃ stage', Returns (awaitTurn k ready) stage () stage' ∧ I stage' ∧ ready stage' = true ∧
      stage'.emitter = stage.emitter := by
  obtain ⟨stage', hawait, hrest⟩ := hI.exists_awaitTurn hpoint hlive h
  exact ⟨stage', Returns.awaitTurn_iff.2 hawait, hrest⟩

/-- A conductor that need not wait goes on in the end. -/
theorem exists_turn (hI : Stage.Invariant k I) (h : I stage) :
    ∃ stage', Returns (turn k) stage () stage' ∧ I stage' ∧ stage'.emitter = stage.emitter := by
  obtain ⟨stage', hturn, h', -, hemitter⟩ := exists_awaitTurn (fun _ => true) hI
    (fun _ _ => rfl) (fun _ _ hready => absurd hready (by simp)) h
  exact ⟨stage', hturn, h', hemitter⟩

/-- Where there is nobody else the conductor goes on at once. -/
theorem turn_alone (hcrew : stage.crew = []) :
    Returns (turn k) stage () { stage with point := stage.point + 1 } := by
  refine Returns.awaitTurn_iff.2 ?_
  have hchoices : stage.choices k (fun _ => true) = [none] := by
    rw [Stage.choices, Stage.able, hcrew]
    rfl
  rw [Stage.awaitTurn_eq, hchoices, List.length_singleton, Nat.mod_one]
  rfl

/-! ## Records -/

theorem exists_emit (stage : Stage) {fill : Entry → Entry} (h : stage.emitter.failing = false)
    (hfill : Entry.Fills fill) (k : Kernel) (level : Record.Level) (event : String) :
    ∃ e' record, Returns (emit k level event fill) stage () { stage with emitter := e' } ∧
      stage.emitter.Adds e' [record] ∧ record.event = event := by
  obtain ⟨e', record, hemit, hadds, hevent⟩ := Emitter.adds_filled h hfill k.now level event
  refine ⟨e', record, Returns.bind (Returns.get stage) ?_, hadds, hevent⟩
  dsimp only
  rw [hemit]
  rfl

theorem exists_emitLine (stage : Stage) (h : stage.emitter.failing = false) (k : Kernel)
    (line : Log.Line) :
    ∃ e' records, Returns (emitLine k line) stage () { stage with emitter := e' } ∧
      stage.emitter.Adds e' records ∧ ∀ record ∈ records, record.event = "core_log" := by
  rw [emitLine]
  split
  next => exact ⟨stage.emitter, [], rfl, .refl _, fun _ h => absurd h List.not_mem_nil⟩
  next core _ =>
    obtain ⟨e', record, hemit, hadds, hevent⟩ :=
      Emitter.adds_emitEntry h (core.traceId_toEntry k.now) (core.proper_toEntry k.now)
    refine ⟨e', [record], Returns.bind (Returns.get stage) ?_, hadds, fun r hr => ?_⟩
    · dsimp only
      rw [hemit]
      rfl
    · rw [List.mem_singleton.1 hr, hevent]
      rfl

/-- The record that closes a run tells its failures. -/
theorem fills_close (s : Summary) : Entry.Fills fun e =>
    { e with
      stream := some .scenario
      outcome := some s.outcome
      threadCount := some s.threads
      predictedDeadlocks := some s.predictedDeadlocks
      durationMs := some 0
      details := some (.object [("failures", .array (s.failures.map .string))]) } where
  traceId _ := rfl
  event _ := rfl
  proper e he := by
    refine ⟨Entry.exactDetails_object rfl (List.pairwise_singleton _ _) ?_, he.errno, nofun⟩
    simp [Json.exact_strings, Json.depth_strings]

theorem exists_close (stage : Stage) (h : stage.emitter.failing = false) (k : Kernel)
    (s : Summary) :
    ∃ e' record, Returns (close k s) stage () { stage with emitter := e' } ∧
      stage.emitter.Adds e' [record] ∧ record.event = "scenario_end" := by
  obtain ⟨e', record, hemit, hadds, hevent⟩ := exists_emit stage h (fills_close s) k
    (if s.outcome = .pass then .info else .error) "scenario_end"
  refine ⟨e', record, hemit.bind (Returns.bind (Returns.get _) ?_), hadds, hevent⟩
  have hflush : e'.flush = .ok () := by rw [Emitter.flush, hadds.failing, h]; rfl
  dsimp only
  rw [hflush]
  rfl

end Performance
end Scenario
end Threading

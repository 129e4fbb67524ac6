import Mathlib.Data.List.Nodup
import Threading.Proofs.Record.TraceId

/-!
# What an emitter writes

An emitter is asked for records and told to write them, in any order and however often; its
log may refuse to be written for a while. Every request that needs a trace id gets the next
one, whether or not anything is written, and the log holds the lines of the records that were
written and nothing else.
-/
namespace Threading.Record

/-! ## Requests -/

/-- What is asked of an emitter, or done to its log. -/
inductive Request where
  | emit (now : String) (level : Level) (event : String)
  | entry (now : String) (level : Level) (event : String)
  | emitEntry (entry : Entry)
  | flush
  /-- From now on the log refuses to be written, or lets itself be written again. -/
  | setFailing (failing : Bool)

/-- What comes back. -/
inductive Answer where
  | emitted (result : Except WriteError Entry)
  | made (entry : Entry)
  | done (result : Except WriteError Unit)

/-- The record that comes back. -/
def Answer.record? : Answer → Option Entry
  | emitted (.ok record) => some record
  | made record => some record
  | _ => none

namespace Request

/-- The request needs a trace id. -/
def draws : Request → Bool
  | emit .. => true
  | entry .. => true
  | emitEntry given => given.traceId.isEmpty
  | flush => false
  | setFailing _ => false

/-- The request is to write a record. -/
def writes : Request → Bool
  | emit .. => true
  | entry .. => false
  | emitEntry _ => true
  | flush => false
  | setFailing _ => false

end Request

/-- A request that was made, with the emitter as it was before. -/
structure Exchange where
  before : Emitter
  request : Request
  answer : Answer

namespace Exchange

/-- The record that the request makes or completes. -/
def record? (x : Exchange) : Option Entry :=
  match x.request with
  | .emit now level event => some (x.before.entry now level event).1
  | .entry now level event => some (x.before.entry now level event).1
  | .emitEntry entry => some (x.before.complete entry).1
  | .flush => none
  | .setFailing _ => none

/-- The record of an emission that returned successfully. -/
def emitted? (x : Exchange) : Option Entry :=
  match x.request, x.answer with
  | .emit .., .emitted (.ok record) => some record
  | .emitEntry entry, .done (.ok _) => some (x.before.complete entry).1
  | _, _ => none

end Exchange

/-- The text of a log that holds these records. -/
def logText : List Entry → String
  | [] => ""
  | record :: later => record.text ++ "\n" ++ logText later

namespace Emitter

/-- Does what is requested. -/
def perform (e : Emitter) : Request → Answer × Emitter
  | .emit now level event =>
    let (result, e) := e.emit now level event
    (.emitted result, e)
  | .entry now level event =>
    let (entry, e) := e.entry now level event
    (.made entry, e)
  | .emitEntry entry =>
    let (result, e) := e.emitEntry entry
    (.done result, e)
  | .flush => (.done e.flush, e)
  | .setFailing failing => (.done (.ok ()), { e with failing })

/-- Does what is requested, one after the other. -/
def run (e : Emitter) : List Request → List Exchange × Emitter
  | [] => ([], e)
  | request :: requests =>
    let (answer, after) := e.perform request
    let (later, last) := after.run requests
    (⟨e, request, answer⟩ :: later, last)

variable {e : Emitter} {x : Exchange} {request : Request} {requests : List Request}

/-! ## One request -/

/-- The exchange that a request leads to. -/
def exchange (e : Emitter) (request : Request) : Exchange :=
  ⟨e, request, (e.perform request).1⟩

theorem complete_eq (e : Emitter) (entry : Entry) : e.complete entry =
    ({ entry with
        traceId := if entry.traceId.isEmpty then e.traceId (e.drawn + 1) else entry.traceId
        scenario := some (entry.scenario.getD e.scenario) },
      { e with drawn := e.drawn + entry.traceId.isEmpty.toNat }) := by
  have hscenario : (if entry.scenario.isNone then some e.scenario else entry.scenario) =
      some (entry.scenario.getD e.scenario) := by
    cases entry.scenario <;> rfl
  cases hempty : entry.traceId.isEmpty with
  | true => simp only [complete, draw, hempty, if_true, hscenario, Bool.toNat_true]
  | false =>
    simp only [complete, hempty, Bool.false_eq_true, if_false, hscenario, Bool.toNat_false,
      Nat.add_zero]

/-- A record is written as a whole line or not at all. -/
theorem write_eq (e : Emitter) (record : Entry) : e.write record =
    if e.failing then (.error .refused, e)
    else (.ok (), { e with written := e.written ++ logText [record] }) := by
  rw [write]
  simp [logText, String.append_assoc]

/-- An emission returns successfully just if the log can be written. -/
theorem emitted?_exchange (e : Emitter) (request : Request) : (e.exchange request).emitted? =
    if request.writes ∧ ¬ e.failing then (e.exchange request).record? else none := by
  cases request with
  | emit now level event =>
    cases hfailing : e.failing <;>
      simp [exchange, perform, emit, entry, draw, write_eq, hfailing, Exchange.emitted?,
        Exchange.record?, Request.writes, Except.map]
  | entry now level event => rfl
  | emitEntry entry =>
    cases hfailing : e.failing <;>
      simp [exchange, perform, emitEntry, complete_eq, write_eq, hfailing, Exchange.emitted?,
        Exchange.record?, Request.writes]
  | flush => rfl
  | setFailing failing => rfl

/-- What a request does to the emitter, switches of its log apart. -/
theorem perform_spec (e : Emitter) (request : Request) :
    (e.perform request).2.scenario = e.scenario ∧ (e.perform request).2.runId = e.runId ∧
      (e.perform request).2.drawn = e.drawn + request.draws.toNat ∧
      (e.perform request).2.written =
        e.written ++ logText (e.exchange request).emitted?.toList := by
  cases request with
  | emit now level event =>
    simp only [exchange, perform, emit, entry, draw, write_eq]
    split
    · exact ⟨rfl, rfl, rfl, (String.append_empty).symm⟩
    · exact ⟨rfl, rfl, rfl, rfl⟩
  | entry now level event => exact ⟨rfl, rfl, rfl, (String.append_empty).symm⟩
  | emitEntry entry =>
    simp only [exchange, perform, emitEntry, Exchange.emitted?, complete_eq, write_eq]
    split
    · exact ⟨rfl, rfl, rfl, (String.append_empty).symm⟩
    · exact ⟨rfl, rfl, rfl, rfl⟩
  | flush => exact ⟨rfl, rfl, rfl, (String.append_empty).symm⟩
  | setFailing failing => exact ⟨rfl, rfl, rfl, (String.append_empty).symm⟩

/-- A request that needs a trace id gets the one with the next number. -/
theorem traceId_of_draws (e : Emitter) (h : request.draws) :
    (e.exchange request).record?.map (·.traceId) = some (e.traceId (e.drawn + 1)) := by
  cases request with
  | emit now level event => rfl
  | entry now level event => rfl
  | emitEntry entry =>
    have hempty : entry.traceId.isEmpty = true := h
    simp [exchange, Exchange.record?, complete_eq, hempty]
  | flush => cases h
  | setFailing failing => cases h

/-- A record that comes back is the one that was made. -/
theorem record?_of_answer (e : Emitter) (request : Request) :
    ∀ record ∈ (e.exchange request).answer.record?,
      (e.exchange request).record? = some record := by
  intro record hrecord
  cases request with
  | emit now level event =>
    cases hfailing : e.failing with
    | false =>
      simpa [exchange, perform, emit, entry, draw, write_eq, hfailing, Answer.record?,
        Exchange.record?, Except.map] using hrecord
    | true =>
      simp [exchange, perform, emit, entry, draw, write_eq, hfailing, Answer.record?,
        Except.map] at hrecord
  | entry now level event => exact hrecord
  | emitEntry entry => cases hrecord
  | flush => cases hrecord
  | setFailing failing => cases hrecord

/-! ## Runs -/

theorem run_cons (e : Emitter) (request : Request) (requests : List Request) :
    e.run (request :: requests) = (e.exchange request :: ((e.perform request).2.run requests).1,
      ((e.perform request).2.run requests).2) :=
  rfl

theorem requests_run (e : Emitter) (requests : List Request) :
    (e.run requests).1.map (·.request) = requests := by
  induction requests generalizing e with
  | nil => rfl
  | cons request requests ih => rw [run_cons, List.map_cons, ih]; rfl

/-- Each exchange of a run is one of an emitter of the same scenario run. -/
theorem exists_of_mem_run (h : x ∈ (e.run requests).1) : x.request ∈ requests ∧
    ∃ e' : Emitter, e'.scenario = e.scenario ∧ e'.runId = e.runId ∧ x = e'.exchange x.request := by
  induction requests generalizing e with
  | nil => cases h
  | cons request requests ih =>
    rw [run_cons] at h
    obtain rfl | h := List.mem_cons.1 h
    · exact ⟨List.mem_cons_self, e, rfl, rfl, rfl⟩
    · obtain ⟨hscenario, hrunId, -⟩ := perform_spec e request
      obtain ⟨hmem, e', hscenario', hrunId', hx⟩ := ih h
      exact ⟨List.mem_cons_of_mem _ hmem, e', hscenario'.trans hscenario,
        hrunId'.trans hrunId, hx⟩

/-- The trace ids that are handed out in a run carry on with the numbers. -/
theorem ids_run (e : Emitter) (requests : List Request) :
    ((e.run requests).1.filter (·.request.draws)).map (·.record?.map (·.traceId)) =
      (List.range' (e.drawn + 1) (requests.countP (·.draws))).map (fun n => some (e.traceId n)) := by
  induction requests generalizing e with
  | nil => rfl
  | cons request requests ih =>
    obtain ⟨hscenario, hrunId, hdrawn, -⟩ := perform_spec e request
    have hid := traceId_congr hscenario hrunId
    have hself : (e.exchange request).request.draws = request.draws := rfl
    rw [run_cons, List.filter_cons, hself, List.countP_cons]
    cases hdraws : request.draws with
    | true =>
      rw [hdraws, Bool.toNat_true] at hdrawn
      rw [if_pos rfl, if_pos rfl, List.map_cons, ih, hid, hdrawn, traceId_of_draws e hdraws,
        List.range'_succ, List.map_cons]
    | false =>
      rw [hdraws, Bool.toNat_false, Nat.add_zero] at hdrawn
      rw [if_neg Bool.false_ne_true, if_neg Bool.false_ne_true, ih, hid, hdrawn]
      rfl

theorem logText_append (before after : List Entry) :
    logText (before ++ after) = logText before ++ logText after := by
  induction before with
  | nil => simp [logText]
  | cons record before ih => simp [logText, ih, String.append_assoc]

theorem written_run (e : Emitter) (requests : List Request) :
    (e.run requests).2.written =
      e.written ++ logText ((e.run requests).1.filterMap (·.emitted?)) := by
  induction requests generalizing e with
  | nil => exact String.append_empty.symm
  | cons request requests ih =>
    obtain ⟨-, -, -, hwritten⟩ := perform_spec e request
    rw [run_cons, ih, hwritten, String.append_assoc, ← logText_append]
    cases hemitted : (e.exchange request).emitted? with
    | none => rw [List.filterMap_cons_none hemitted]; rfl
    | some record => rw [List.filterMap_cons_some hemitted]; rfl

/-- From a fresh emitter, whatever is requested and however often the log fails: the requests that
need a trace id get the numbers from 1 on, no two the same; an emission returns successfully just
if the log can be written then, and its record is the one that came back; and the log holds the
lines of the records emitted successfully, in order, and nothing else. -/
theorem run_fresh (scenario runId : String) (requests : List Request) :
    let (history, last) := Emitter.run { scenario, runId } requests
    let ids := (history.filter (·.request.draws)).map (·.record?.map (·.traceId))
    history.map (·.request) = requests ∧
      ids = (List.range' 1 ids.length).map (fun k =>
        some (scenario ++ "::" ++ runId ++ "::" ++ Text.paddedDecimal 3 k)) ∧
      ids.Nodup ∧
      (∀ x ∈ history, (∀ record ∈ x.answer.record?, x.record? = some record) ∧
        x.emitted? = if x.request.writes ∧ ¬ x.before.failing then x.record? else none) ∧
      last.written = logText (history.filterMap (·.emitted?)) := by
  have hids := ids_run { scenario, runId } requests
  have hinjective := traceId_injective { scenario, runId }
  refine ⟨requests_run _ requests, ?_, ?_, fun x hx => ?_, ?_⟩
  · rw [hids, List.length_map, List.length_range']
    rfl
  · rw [hids]
    exact List.Nodup.map (fun m n h => hinjective (Option.some.inj h)) List.nodup_range'
  · obtain ⟨-, e, -, -, heq⟩ := exists_of_mem_run hx
    rw [heq]
    exact ⟨record?_of_answer e x.request, emitted?_exchange e x.request⟩
  · rw [written_run, String.empty_append]

end Emitter
end Threading.Record

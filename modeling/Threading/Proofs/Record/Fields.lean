import Threading.Proofs.Json.Fields
import Threading.Record.Schema

/-!
# The fields of a record

A record's fields have different keys, so every field is found under its own key and
the record can be decoded from them, in whatever order they are. What the rules have
to say about the fields depends on three things only: the trace id, the error number
and whether a diagnostic line says which thread logged it.
-/
namespace Threading.Record

variable {α : Type} {key k : String} {fields gs : List (String × Json)}

/-! ## Single fields -/

theorem asString?_string (s : String) : Json.asString? (.string s) = some s := rfl

theorem decodeName?_level (level : Level) : decodeName? (.string level.name) = some level := by
  cases level <;> decide

theorem decodeName?_outcome (outcome : Outcome) :
    decodeName? (.string outcome.name) = some outcome := by
  cases outcome <;> decide

theorem decodeName?_stream (stream : Stream) : decodeName? (.string stream.name) = some stream := by
  cases stream <;> decide

theorem decodeTid?_signed (n : Int32) : decodeTid? (Entry.signed n) = some n := by
  have hlow := n.le_toInt
  have hhigh := n.toInt_lt
  rw [Entry.signed, decodeTid?, if_pos (by omega), Int32.ofInt_toInt]

theorem decodeWord?_word (n : UInt64) : decodeWord? (Entry.word n) = some n := by
  have hlt : (n.toNat : Int) < UInt64.size := Int.ofNat_lt.2 n.toNat_lt_size
  rw [Entry.word, decodeWord?, if_pos (by omega), Int.toNat_natCast, UInt64.ofNat_toNat]

@[simp] theorem lookup?_optional (key : String) (f : α → Json) (value : Option α) (k : String) :
    Json.lookup? (Entry.optional key f value) k = if key = k then value.map f else none := by
  cases value <;> simp [Entry.optional]

theorem decodeOptional?_eq_none_iff {decode? : Json → Option α} :
    decodeOptional? fields decode? key = some none ↔
      Json.lookup? fields key = none ∨ Json.lookup? fields key = some .null := by
  rw [decodeOptional?]
  split
  next heq => simp [heq]
  next heq => simp [heq]
  next v hnull heq => simp [heq, show v ≠ .null from hnull]

theorem decodeOptional?_eq_some_iff {decode? : Json → Option α} {a : α} :
    decodeOptional? fields decode? key = some (some a) ↔
      ∃ j, Json.lookup? fields key = some j ∧ j ≠ .null ∧ decode? j = some a := by
  rw [decodeOptional?]
  split
  next heq => simp [heq]
  next heq => simp [heq]
  next v hnull heq => simp [heq, show v ≠ .null from hnull]

/-- A field that is written for a value, and not as null, is decoded to this value. -/
theorem decodeOptional?_eq {f : α → Json} {decode? : Json → Option α} {value : Option α}
    (hvalue : Json.lookup? fields key = value.map f)
    (hdecode : ∀ a ∈ value, f a ≠ .null ∧ decode? (f a) = some a) :
    decodeOptional? fields decode? key = some value := by
  cases value with
  | none => exact decodeOptional?_eq_none_iff.2 (.inl hvalue)
  | some a =>
    obtain ⟨hnull, hdecode⟩ := hdecode a rfl
    exact decodeOptional?_eq_some_iff.2 ⟨f a, hvalue, hnull, hdecode⟩

theorem decodeRequired?_eq {decode? : Json → Option α} {j : Json} {a : α}
    (hvalue : Json.lookup? fields key = some j) (hdecode : decode? j = some a) :
    decodeRequired? fields decode? key = some a := by
  rw [decodeRequired?, hvalue, Option.bind_some, hdecode]

/-! ## All fields -/

/-- Each field of the record has its value in the list, whatever the order. -/
structure Entry.ShownIn (e : Entry) (fields : List (String × Json)) : Prop where
  timestamp : Json.lookup? fields "timestamp" = some (.string e.timestamp)
  traceId : Json.lookup? fields "trace_id" = some (.string e.traceId)
  level : Json.lookup? fields "level" = some (.string e.level.name)
  event : Json.lookup? fields "event" = some (.string e.event)
  scenario : Json.lookup? fields "scenario" = e.scenario.map .string
  stream : Json.lookup? fields "stream" = e.stream.map fun s => .string s.name
  tid : Json.lookup? fields "tid" = e.tid.map Entry.signed
  threadCount : Json.lookup? fields "thread_count" = e.threadCount.map Entry.word
  predictedDeadlocks :
    Json.lookup? fields "predicted_deadlocks" = e.predictedDeadlocks.map Entry.word
  outcome : Json.lookup? fields "outcome" = e.outcome.map fun o => .string o.name
  errno : Json.lookup? fields "errno" = e.errno.map Entry.signed
  latencyNs : Json.lookup? fields "latency_ns" = e.latencyNs.map Entry.word
  durationMs : Json.lookup? fields "duration_ms" = e.durationMs.map Entry.word
  details : Json.lookup? fields "details" = e.details

theorem keys_optional (key : String) (f : α → Json) (value : Option α) :
    ((Entry.optional key f value).map (·.1)).Sublist [key] := by
  cases value <;> simp [Entry.optional]

theorem Entry.nodup_keys (e : Entry) : (e.fields.map (·.1)).Nodup := by
  have hkeys : (e.fields.map (·.1)).Sublist (["timestamp", "trace_id", "level", "event"] ++
      ["scenario"] ++ ["stream"] ++ ["tid"] ++ ["thread_count"] ++ ["predicted_deadlocks"] ++
      ["outcome"] ++ ["errno"] ++ ["latency_ns"] ++ ["duration_ms"] ++ ["details"]) := by
    simp only [Entry.fields, List.map_append]
    iterate 10 refine .append ?_ (keys_optional _ _ _)
    exact .refl _
  exact hkeys.nodup (by decide)

/-- Put one after the other, the fields of a record still show it. -/
theorem Entry.shownIn_putAll (e : Entry) : e.ShownIn (Json.putAll [] e.fields) := by
  have hlookup (key : String) :
      Json.lookup? (Json.putAll [] e.fields) key = Json.lookup? e.fields key := by
    rw [Json.lookup?_putAll e.nodup_keys, Json.lookup?_nil, Option.or_none]
  constructor <;> rw [hlookup] <;> simp [Entry.fields]

/-! ## Rules -/

/-- A diagnostic line has to say which thread logged it. -/
def Entry.coreTidFaults (e : Entry) : List Violation :=
  if e.stream = some .core ∧ e.tid = none then [.coreWithoutTid] else []

def Entry.errnoFaults (e : Entry) : List Violation :=
  match e.errno with
  | none => []
  | some n => if n ≤ 0 then [.errnoNotPositive n.toInt] else []

def Entry.traceIdFaults (e : Entry) : List Violation :=
  if IsTraceId e.traceId then [] else [.malformedTraceId e.traceId]

/-- What the rules find in a record. -/
def Entry.faults (e : Entry) : List Violation :=
  e.coreTidFaults ++ e.errnoFaults ++ e.traceIdFaults

theorem asSigned?_signed (n : Int32) : Json.asSigned? (Entry.signed n) = some n.toInt := by
  have hlow := n.le_toInt
  have hhigh := n.toInt_lt
  rw [Entry.signed, Json.asSigned?, if_pos (by omega)]

theorem Entry.coreTidFaults_eq_nil_iff {e : Entry} :
    e.coreTidFaults = [] ↔ (e.stream = some .core → e.tid.isSome) := by
  rw [coreTidFaults, ite_eq_right_iff, Option.isSome_iff_ne_none, Ne, ← not_and]
  simp

theorem Entry.errnoFaults_eq_nil_iff {e : Entry} : e.errnoFaults = [] ↔ ∀ n ∈ e.errno, 0 < n := by
  rw [errnoFaults]
  cases e.errno with
  | none => simp
  | some n => simp [Int32.not_le]

theorem Entry.traceIdFaults_eq_nil_iff {e : Entry} :
    e.traceIdFaults = [] ↔ IsTraceId e.traceId := by
  simp [traceIdFaults]

theorem Entry.faults_eq_nil_iff {e : Entry} : e.faults = [] ↔ e.Conforms := by
  rw [faults, List.append_eq_nil_iff, List.append_eq_nil_iff, coreTidFaults_eq_nil_iff,
    errnoFaults_eq_nil_iff, traceIdFaults_eq_nil_iff]
  constructor
  · rintro ⟨⟨hcore, hpos⟩, hparts⟩
    exact ⟨hparts, hpos, hcore⟩
  · rintro ⟨hparts, hpos, hcore⟩
    exact ⟨⟨hcore, hpos⟩, hparts⟩

/-- A field that is written by name holds a word that is allowed. -/
theorem unknownWords_eq_nil {name : α → String} {value : Option α} {allowed : List String}
    (h : Json.lookup? fields key = value.map fun a => .string (name a))
    (hallowed : ∀ a, name a ∈ allowed) : unknownWords fields key allowed = [] := by
  rw [unknownWords, h]
  cases value with
  | none => rfl
  | some a => exact if_pos (hallowed a)

namespace Entry.ShownIn

variable {e : Entry}

theorem ofFields? (h : e.ShownIn fields) (hdetails : e.details ≠ some .null) :
    Entry.ofFields? fields = some e := by
  have hdetails' : Json.lookup? fields "details" = e.details.map id := by
    rw [h.details, Option.map_id, id]
  rw [Entry.ofFields?, decodeRequired?_eq h.timestamp (asString?_string _),
    decodeRequired?_eq h.traceId (asString?_string _),
    decodeRequired?_eq h.level (decodeName?_level _),
    decodeRequired?_eq h.event (asString?_string _),
    decodeOptional?_eq h.scenario fun _ _ => ⟨nofun, asString?_string _⟩,
    decodeOptional?_eq h.stream fun _ _ => ⟨nofun, decodeName?_stream _⟩,
    decodeOptional?_eq h.tid fun _ _ => ⟨nofun, decodeTid?_signed _⟩,
    decodeOptional?_eq h.threadCount fun _ _ => ⟨nofun, decodeWord?_word _⟩,
    decodeOptional?_eq h.predictedDeadlocks fun _ _ => ⟨nofun, decodeWord?_word _⟩,
    decodeOptional?_eq h.outcome fun _ _ => ⟨nofun, decodeName?_outcome _⟩,
    decodeOptional?_eq h.errno fun _ _ => ⟨nofun, decodeTid?_signed _⟩,
    decodeOptional?_eq h.latencyNs fun _ _ => ⟨nofun, decodeWord?_word _⟩,
    decodeOptional?_eq h.durationMs fun _ _ => ⟨nofun, decodeWord?_word _⟩,
    decodeOptional?_eq hdetails' fun d hd => ⟨fun hnull => hdetails (hnull ▸ hd), rfl⟩]
  rfl

theorem missingFields (h : e.ShownIn fields) : missingFields fields = [] := by
  simp [Record.missingFields, h.timestamp, h.traceId, h.level, h.event]

theorem coreTidViolations (h : e.ShownIn fields) :
    coreTidViolations fields = e.coreTidFaults := by
  have hstream : (e.stream.map fun s => Json.string s.name).bind Json.asString? = some "core" ↔
      e.stream = some .core := by
    cases e.stream with
    | none => simp
    | some s => cases s <;> simp [asString?_string, Stream.name]
  have htid : ((e.tid.map signed).bind Json.asSigned?).isNone ↔ e.tid = none := by
    cases e.tid <;> simp [asSigned?_signed]
  rw [Record.coreTidViolations, h.stream, h.tid]
  exact ite_congr (propext (and_congr hstream htid)) (fun _ => rfl) fun _ => rfl

theorem errnoViolations (h : e.ShownIn fields) : errnoViolations fields = e.errnoFaults := by
  rw [Record.errnoViolations, h.errno, errnoFaults]
  cases e.errno with
  | none => rfl
  | some n => simp [asSigned?_signed, Int32.le_iff_toInt_le]

theorem traceIdViolations (h : e.ShownIn fields) :
    traceIdViolations fields = e.traceIdFaults := by
  rw [Record.traceIdViolations, h.traceId]
  rfl

/-- In the fields of a record the rules find what they find in the record. -/
theorem violations (h : e.ShownIn fields) : violations fields = e.faults := by
  have hlevelShown : Json.lookup? fields "level" = (some e.level).map fun l => .string l.name :=
    h.level
  have hlevel : unknownWords fields "level" (Level.all.map (·.name)) = [] :=
    unknownWords_eq_nil hlevelShown fun a => List.mem_map_of_mem (by cases a <;> decide)
  have houtcome : unknownWords fields "outcome" (Outcome.all.map (·.name)) = [] :=
    unknownWords_eq_nil h.outcome fun a => List.mem_map_of_mem (by cases a <;> decide)
  have hstream : unknownWords fields "stream" (Stream.all.map (·.name)) = [] :=
    unknownWords_eq_nil h.stream fun a => List.mem_map_of_mem (by cases a <;> decide)
  rw [Record.violations, h.missingFields, hlevel, houtcome, hstream, h.coreTidViolations,
    h.errnoViolations, h.traceIdViolations]
  rfl

/-- A record that is shown is decoded unless the rules find fault with it. -/
theorem checkFields (h : e.ShownIn fields) (hdetails : e.details ≠ some .null) :
    checkFields fields = if e.faults = [] then .ok e else .error e.faults := by
  rw [Record.checkFields, h.violations, h.ofFields? hdetails]
  split
  next hnil => rw [if_pos hnil]
  next hne => rw [if_neg hne]

end Entry.ShownIn

end Threading.Record

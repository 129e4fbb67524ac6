import Threading.Proofs.Json.Readings
import Threading.Proofs.Record.RoundTrip

/-!
# Accepted lines

A line that is accepted gives a record with a trace id of three parts and a positive error
number, if any. A diagnostic line has to say which thread logged it, but there is a gap: the
rule reads the stream as a string, while decoding also takes an object with the name as its
only key. A record that got through it is refused once it is written, since the writer puts
the bare name; every other accepted record without floating-point numbers in its details is
accepted again.
-/
namespace Threading.Record

variable {α : Type} {key line : String} {fields : List (String × Json)} {e : Entry}

/-! ## Decoded fields -/

theorem eq_of_asString? {j : Json} {s : String} (h : j.asString? = some s) : j = .string s := by
  cases j <;> simp_all [Json.asString?]

/-- A name is given bare or as the only key of an object. -/
theorem eq_of_decodeName? [Named α] {j : Json} {a : α} (h : decodeName? j = some a) :
    j = .string (Named.name a) ∨ j = .object [(Named.name a, .null)] := by
  rw [decodeName?.eq_def] at h
  split at h
  next word => exact .inl (by rw [name_of_named? h])
  next word => exact .inr (by rw [name_of_named? h])
  next => cases h

theorem eq_of_decodeTid? {j : Json} {n : Int32} (h : decodeTid? j = some n) : j = Entry.signed n := by
  rw [decodeTid?.eq_def] at h
  split at h
  next k =>
    split at h
    next hk =>
      obtain rfl := Option.some.inj h
      rw [Entry.signed, Int32.toInt_ofInt_of_le (by omega) (by omega)]
    next => cases h
  next => cases h

/-- The decoded fields that the rules are about, and the details. -/
theorem Entry.ofFields?_eq_some (h : Entry.ofFields? fields = some e) :
    Json.lookup? fields "trace_id" = some (.string e.traceId) ∧
      decodeOptional? fields decodeName? "stream" = some e.stream ∧
      decodeOptional? fields decodeTid? "tid" = some e.tid ∧
      decodeOptional? fields decodeTid? "errno" = some e.errno ∧
      decodeOptional? fields some "details" = some e.details := by
  rw [Entry.ofFields?] at h
  obtain ⟨timestamp, -, h⟩ := Option.bind_eq_some_iff.1 h
  obtain ⟨traceId, htraceId, h⟩ := Option.bind_eq_some_iff.1 h
  obtain ⟨level, -, h⟩ := Option.bind_eq_some_iff.1 h
  obtain ⟨event, -, h⟩ := Option.bind_eq_some_iff.1 h
  obtain ⟨scenario, -, h⟩ := Option.bind_eq_some_iff.1 h
  obtain ⟨stream, hstream, h⟩ := Option.bind_eq_some_iff.1 h
  obtain ⟨tid, htid, h⟩ := Option.bind_eq_some_iff.1 h
  obtain ⟨threadCount, -, h⟩ := Option.bind_eq_some_iff.1 h
  obtain ⟨predicted, -, h⟩ := Option.bind_eq_some_iff.1 h
  obtain ⟨outcome, -, h⟩ := Option.bind_eq_some_iff.1 h
  obtain ⟨errno, herrno, h⟩ := Option.bind_eq_some_iff.1 h
  obtain ⟨latency, -, h⟩ := Option.bind_eq_some_iff.1 h
  obtain ⟨duration, -, h⟩ := Option.bind_eq_some_iff.1 h
  obtain ⟨details, hdetails, h⟩ := Option.bind_eq_some_iff.1 h
  cases h
  obtain ⟨j, hj, hs⟩ := Option.bind_eq_some_iff.1 htraceId
  exact ⟨eq_of_asString? hs ▸ hj, hstream, htid, herrno, hdetails⟩

/-! ## Rules -/

/-- The stream is the object whose only key is `core`, and no thread id is given. -/
def ConcealsCore (fields : List (String × Json)) : Prop :=
  Json.lookup? fields "stream" = some (.object [("core", .null)]) ∧
    (Json.lookup? fields "tid" = none ∨ Json.lookup? fields "tid" = some .null)

theorem violations_eq_nil (h : violations fields = []) :
    coreTidViolations fields = [] ∧ errnoViolations fields = [] ∧ traceIdViolations fields = [] := by
  simp only [violations, List.append_eq_nil_iff] at h
  exact ⟨h.1.1.2, h.1.2, h.2⟩

theorem checkFields_eq_ok (h : checkFields fields = .ok e) :
    violations fields = [] ∧ Entry.ofFields? fields = some e := by
  rw [checkFields] at h
  split at h
  next hnil =>
    split at h
    next => cases h
    next heq =>
      cases h
      exact ⟨hnil, heq⟩
  next => cases h

theorem isTraceId_of_checkFields (h : checkFields fields = .ok e) : IsTraceId e.traceId := by
  obtain ⟨hnil, hdecoded⟩ := checkFields_eq_ok h
  obtain ⟨hid, -⟩ := Entry.ofFields?_eq_some hdecoded
  have hrule := (violations_eq_nil hnil).2.2
  rw [traceIdViolations, hid] at hrule
  by_contra hparts
  exact absurd hrule (by simp [asString?_string, hparts])

theorem errno_of_checkFields (h : checkFields fields = .ok e) : ∀ n ∈ e.errno, 0 < n := by
  intro n hn
  obtain ⟨hnil, hdecoded⟩ := checkFields_eq_ok h
  obtain ⟨-, -, -, herrno, -⟩ := Entry.ofFields?_eq_some hdecoded
  rw [hn] at herrno
  obtain ⟨j, hj, -, hdecode⟩ := decodeOptional?_eq_some_iff.1 herrno
  obtain rfl := eq_of_decodeTid? hdecode
  have hrule := (violations_eq_nil hnil).2.1
  rw [errnoViolations, hj, Option.bind_some, asSigned?_signed] at hrule
  by_contra hneg
  have hle : n.toInt ≤ 0 := Int32.le_iff_toInt_le.1 (Int32.not_lt.1 hneg)
  exact absurd hrule (by simp [hle])

/-- The rule about diagnostic lines misses the record just if the object form hides the stream. -/
theorem lacksTid_iff (h : checkFields fields = .ok e) :
    e.stream = some .core ∧ e.tid = none ↔ ConcealsCore fields := by
  obtain ⟨hnil, hdecoded⟩ := checkFields_eq_ok h
  obtain ⟨-, hstream, htid, -⟩ := Entry.ofFields?_eq_some hdecoded
  constructor
  · rintro ⟨hcore, hnone⟩
    rw [hcore] at hstream
    rw [hnone] at htid
    have hmissing := decodeOptional?_eq_none_iff.1 htid
    obtain ⟨j, hj, -, hname⟩ := decodeOptional?_eq_some_iff.1 hstream
    obtain rfl | rfl := eq_of_decodeName? hname
    · have hnoTid : ((Json.lookup? fields "tid").bind Json.asSigned?).isNone := by
        obtain hmissing | hmissing := hmissing <;> rw [hmissing] <;> rfl
      have hrule := (violations_eq_nil hnil).1
      rw [coreTidViolations, hj, if_pos ⟨rfl, hnoTid⟩] at hrule
      cases hrule
    · exact ⟨hj, hmissing⟩
  · rintro ⟨hobject, hmissing⟩
    have hcore : decodeOptional? fields decodeName? "stream" = some (some Stream.core) :=
      decodeOptional?_eq_some_iff.2 ⟨_, hobject, by simp, by decide⟩
    rw [decodeOptional?_eq_none_iff.2 hmissing] at htid
    exact ⟨Option.some.inj (hstream.symm.trans hcore), (Option.some.inj htid).symm⟩

/-! ## Lines -/

theorem checkNumbered_eq_ok {n : Nat} (h : checkNumbered n line = .ok e) :
    ∃ fields, Json.ofText? line = some (.object fields) ∧ checkFields fields = .ok e := by
  rw [checkNumbered, checkLine] at h
  split at h
  next => cases h
  next fields heq =>
    refine ⟨fields, heq, ?_⟩
    cases hcheck : checkFields fields with
    | error found => rw [hcheck] at h; cases h
    | ok e' => rw [hcheck] at h; exact congrArg Except.ok (Except.ok.inj h)
  next => cases h

/-- What was read from a line can be written, but for floating-point numbers. -/
theorem exactDetails_of_ofText? (hline : Json.ofText? line = some (.object fields))
    (hdecoded : Entry.ofFields? fields = some e) (hfloat : ∀ d ∈ e.details, d.FloatFree) :
    e.ExactDetails := by
  intro d hd
  obtain ⟨-, -, -, -, hdetails⟩ := Entry.ofFields?_eq_some hdecoded
  rw [hd] at hdetails
  obtain ⟨j, hj, hnull, heq⟩ := decodeOptional?_eq_some_iff.1 hdetails
  obtain rfl := Option.some.inj heq
  obtain ⟨hcanonical, hdepth⟩ := (Json.fits_of_ofText? hline).of_field (Json.mem_of_lookup? hj)
  rw [Json.maxOpen] at hdepth
  exact ⟨hnull, (Json.exact_iff j).2 ⟨hcanonical, hfloat j hd⟩, by omega⟩

/-- Whatever line is accepted, the record obeys the rules but for a diagnostic line that hides
its stream in an object; written again, it is accepted or, in this case, refused. -/
theorem accepted_of_checkNumbered {n : Nat} (h : checkNumbered n line = .ok e) :
    IsTraceId e.traceId ∧ (∀ m ∈ e.errno, 0 < m) ∧
      (e.stream = some .core ∧ e.tid = none ↔
        ∃ fields, Json.ofText? line = some (.object fields) ∧ ConcealsCore fields) ∧
      ((∀ d ∈ e.details, d.FloatFree) → ∀ m, checkNumbered m e.text =
        if e.stream = some .core ∧ e.tid = none then .error [(m, .coreWithoutTid)]
        else .ok e) := by
  obtain ⟨fields, hline, hcheck⟩ := checkNumbered_eq_ok h
  have hid := isTraceId_of_checkFields hcheck
  have herrno := errno_of_checkFields hcheck
  refine ⟨hid, herrno, ?_, fun hfloat m => ?_⟩
  · rw [lacksTid_iff hcheck]
    refine ⟨fun hconceals => ⟨fields, hline, hconceals⟩, ?_⟩
    rintro ⟨fields', hline', hconceals⟩
    obtain rfl : fields = fields' := by simpa using hline.symm.trans hline'
    exact hconceals
  · have hexact := exactDetails_of_ofText? hline (checkFields_eq_ok hcheck).2 hfloat
    have hfaults : e.faults = e.coreTidFaults := by
      rw [Entry.faults, Entry.errnoFaults_eq_nil_iff.2 herrno,
        Entry.traceIdFaults_eq_nil_iff.2 hid, List.append_nil, List.append_nil]
    rw [hexact.checkNumbered_eq, hfaults, Entry.coreTidFaults]
    split <;> rfl

/-- Fields in an order of their own, with the severity as an object. -/
def shuffledLine : String :=
  " \x7b\"tid\":7,\"stream\":\"core\",\"level\":\x7b\"warn\":null\x7d,\"event\":\"\"," ++
    "\"trace_id\":\"::::\",\"details\":[-1],\"timestamp\":\"\"\x7d"

theorem accepted_of_checkNumbered_shuffledLine :
    ∃ e, checkNumbered 3 shuffledLine = .ok e ∧ IsTraceId e.traceId ∧ (∀ m ∈ e.errno, 0 < m) ∧
      (e.stream = some .core ∧ e.tid = none ↔
        ∃ fields, Json.ofText? shuffledLine = some (.object fields) ∧ ConcealsCore fields) ∧
      ∀ m, checkNumbered m e.text = .ok e := by
  have h : checkNumbered 3 shuffledLine = .ok
      { timestamp := "", traceId := "::::", level := .warn, event := "", stream := some .core,
        tid := some 7, details := some (.array [.int (-1)]) } := by
    rfl
  obtain ⟨hid, herrno, hcore, hagain⟩ := accepted_of_checkNumbered h
  refine ⟨_, h, hid, herrno, hcore, fun m => hagain (fun d hd => ?_) m⟩
  obtain rfl := Option.some.inj hd
  simp [Json.FloatFree, Json.FloatFreeItems]

/-- A line whose stream is hidden in an object, so that no thread id is asked for. -/
def concealedLine : String :=
  "\x7b\"timestamp\":\"t\",\"trace_id\":\"a::b::c\",\"level\":\"info\",\"event\":\"e\"," ++
    "\"stream\":\x7b\"core\":null\x7d\x7d"

/-- Acceptance alone does not make a record obey the rules. -/
theorem not_conforms_of_concealedLine : ¬ ∀ (n : Nat) (line : String) (e : Entry),
    checkNumbered n line = .ok e → e.Conforms ∧
      ((∀ d ∈ e.details, d.FloatFree) → ∀ m, checkNumbered m e.text = .ok e) := by
  intro h
  have hline : checkNumbered 1 concealedLine = .ok
      { timestamp := "t", traceId := "a::b::c", level := .info, event := "e",
        stream := some .core } := by
    rfl
  have hconforms := (h 1 concealedLine _ hline).1
  exact absurd (hconforms.tid rfl) (by decide)

end Threading.Record

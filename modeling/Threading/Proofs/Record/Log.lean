import Mathlib.Tactic.SplitIfs
import Threading.Proofs.Record.Emission
import Threading.Proofs.Record.RoundTrip

/-!
# Checking a written log

The lines of a log are the texts of its records: no record's text holds the end of a line, and
none begins or ends with a blank that the check would cut off. So a check of the log finds what
the rules find in each of its records. Of the log of an emitter whose scenario has no colon,
given records that obey the rules, this is nothing, or the trace id of each record.
-/
namespace Threading

variable {line : List Char}

/-! ## Lines -/

/-- Nothing is cut off a text that has no blank at either end. -/
theorem Text.trimBlank_of_ends {first last : Char} (hfirst : isBlank first = false)
    (hlast : isBlank last = false) (cs : List Char) :
    trimBlank (first :: cs ++ [last]) = first :: cs ++ [last] := by
  simp [trimBlank, dropEndWhile, hfirst, hlast]

namespace Record

theorem splitLines_line (h : Json.Printable line) (rest : List Char) :
    splitLines (line ++ '\n' :: rest) = line :: splitLines rest := by
  induction line with
  | nil => rfl
  | cons c line ih =>
    obtain ⟨hc, hline⟩ := Json.printable_cons.1 h
    have hnewline : c ≠ '\n' := fun heq => absurd (heq ▸ hc) (by decide)
    have hreturn : c ≠ '\r' := fun heq => absurd (heq ▸ hc) (by decide)
    rw [List.cons_append, splitLines, ih hline]
    · exact hnewline
    · exact fun _ heq => absurd heq hreturn

/-- The text of a record is between braces. -/
theorem Entry.trimBlank_text (e : Entry) : Text.trimBlank e.text.toList = e.text.toList := by
  rw [text, Json.text, String.toList_ofList, Json.write]
  exact Text.trimBlank_of_ends (by decide) (by decide) _

theorem Entry.text_ne_nil (e : Entry) : e.text.toList ≠ [] := by
  rw [text, Json.text, String.toList_ofList, Json.write]
  exact List.cons_ne_nil _ _

variable {records : List Entry}

theorem splitLines_logText (h : ∀ e ∈ records, e.ExactDetails) :
    splitLines (logText records).toList = records.map fun e => e.text.toList := by
  induction records with
  | nil => rfl
  | cons e records ih =>
    obtain ⟨he, hrecords⟩ := List.forall_mem_cons.1 h
    have hlist : (logText (e :: records)).toList =
        e.text.toList ++ '\n' :: (logText records).toList := by
      simp [logText]
    rw [hlist, splitLines_line he.printable_text, ih hrecords, List.map_cons]

/-- The check of a log finds what the rules find in its records. -/
theorem checkText_logText (h : ∀ e ∈ records, e.ExactDetails) : checkText (logText records) =
    { checked := records.length
      faults := (records.zipIdx 1).flatMap fun p => p.1.faults.map (p.2, ·) } := by
  have hlines : ((splitLines (logText records).toList).zipIdx 1).map
      (fun p => (Text.trimBlank p.1, p.2)) =
      (records.zipIdx 1).map fun p => (p.1.text.toList, p.2) := by
    rw [splitLines_logText h, List.zipIdx_map, List.map_map]
    refine List.map_congr_left fun p _ => ?_
    simp only [Function.comp_apply, Prod.map, id, Entry.trimBlank_text]
  have hfilter : ((records.zipIdx 1).map fun p => (p.1.text.toList, p.2)).filter
      (!·.1.isEmpty) = (records.zipIdx 1).map fun p => (p.1.text.toList, p.2) := by
    refine List.filter_eq_self.2 fun q hq => ?_
    obtain ⟨p, -, rfl⟩ := List.mem_map.1 hq
    simpa using p.1.text_ne_nil
  rw [checkText, hlines, hfilter, List.length_map, List.length_zipIdx, List.flatMap_map]
  refine congrArg (FileCheck.mk _) (List.flatMap_congr fun p hp => ?_)
  have hcheck := (h p.1 (List.fst_mem_of_mem_zipIdx hp)).checkNumbered_eq p.2
  simp only [String.ofList_toList, hcheck]
  split_ifs with hnil
  · rw [hnil]
    rfl
  · rfl

/-! ## The log of an emitter -/

/-- The record obeys the rules, whatever its trace id. -/
structure Entry.Proper (e : Entry) : Prop where
  details : e.ExactDetails
  errno : ∀ n ∈ e.errno, 0 < n
  tid : e.stream = some .core → e.tid.isSome

/-- The rules can only find fault with the trace id. -/
theorem Entry.Proper.faults {e : Entry} (h : e.Proper) : e.faults = e.traceIdFaults := by
  rw [Entry.faults, coreTidFaults_eq_nil_iff.2 h.tid, errnoFaults_eq_nil_iff.2 h.errno]
  rfl

/-- No fault is found in a log of records that obey the rules. -/
theorem checkText_logText_of_isTraceId (h : ∀ e ∈ records, e.Proper ∧ IsTraceId e.traceId) :
    checkText (logText records) = { checked := records.length, faults := [] } := by
  rw [checkText_logText fun e he => (h e he).1.details]
  refine congrArg (FileCheck.mk _) (List.flatMap_eq_nil_iff.2 fun p hp => ?_)
  obtain ⟨hproper, hid⟩ := h p.1 (List.fst_mem_of_mem_zipIdx hp)
  rw [hproper.faults, Entry.traceIdFaults_eq_nil_iff.2 hid, List.map_nil]

/-- If every trace id is malformed and nothing else is wrong, there is one fault in each line. -/
theorem checkText_logText_of_not_isTraceId (h : ∀ e ∈ records, e.Proper ∧ ¬ IsTraceId e.traceId) :
    checkText (logText records) =
      { checked := records.length
        faults := (records.zipIdx 1).map fun p => (p.2, .malformedTraceId p.1.traceId) } := by
  rw [checkText_logText fun e he => (h e he).1.details, List.map_eq_flatMap]
  refine congrArg (FileCheck.mk _) (List.flatMap_congr fun p hp => ?_)
  obtain ⟨hproper, hid⟩ := h p.1 (List.fst_mem_of_mem_zipIdx hp)
  rw [hproper.faults, Entry.traceIdFaults, if_neg hid, List.map_singleton]

theorem Entry.Proper.complete {entry : Entry} (h : entry.Proper) (e : Emitter) :
    (e.complete entry).1.Proper := by
  rw [Emitter.complete_eq]
  exact ⟨h.details, h.errno, h.tid⟩

theorem Emitter.proper_entry (e : Emitter) (now : String) (level : Level) (event : String) :
    (e.entry now level event).1.Proper :=
  ⟨nofun, nofun, nofun⟩

/-- A given record obeys the rules, and its trace id is yet to be drawn or one of the emitter's. -/
def Request.Suits (e : Emitter) : Request → Prop
  | emitEntry given => given.Proper ∧ (given.traceId = "" ∨ ∃ n, given.traceId = e.traceId n)
  | _ => True

variable {e e' : Emitter} {request : Request} {requests : List Request} {record : Entry}

theorem Request.suits_congr (h : e'.traceId = e.traceId) : request.Suits e' ↔ request.Suits e := by
  cases request <;> simp [Suits, h]

/-- A trace id that is drawn is one of the emitter's. -/
theorem Emitter.traceId_complete {given : Entry}
    (h : given.traceId = "" ∨ ∃ n, given.traceId = e.traceId n) :
    ∃ n, (e.complete given).1.traceId = e.traceId n := by
  rw [complete_eq]
  by_cases hempty : given.traceId.isEmpty = true
  · exact ⟨e.drawn + 1, if_pos hempty⟩
  · obtain hnil | ⟨n, hn⟩ := h
    · exact absurd (by rw [hnil]; rfl) hempty
    · exact ⟨n, (if_neg hempty).trans hn⟩

/-- What a suitable request writes obeys the rules and has a trace id of the emitter. -/
theorem Request.Suits.emitted (h : request.Suits e)
    (hrecord : (e.exchange request).emitted? = some record) :
    record.Proper ∧ ∃ n, record.traceId = e.traceId n := by
  rw [Emitter.emitted?_exchange] at hrecord
  split_ifs at hrecord
  cases request with
  | emit now level event =>
    obtain rfl := Option.some.inj hrecord
    exact ⟨e.proper_entry now level event, _, rfl⟩
  | entry now level event =>
    obtain rfl := Option.some.inj hrecord
    exact ⟨e.proper_entry now level event, _, rfl⟩
  | emitEntry given =>
    obtain rfl := Option.some.inj hrecord
    exact ⟨h.1.complete e, Emitter.traceId_complete h.2⟩
  | flush => cases hrecord
  | setFailing failing => cases hrecord

/-- So does everything that a run of suitable requests writes. -/
theorem Emitter.emitted_run (h : ∀ request ∈ requests, request.Suits e)
    (hrecord : record ∈ (e.run requests).1.filterMap (·.emitted?)) :
    record.Proper ∧ ∃ n, record.traceId = e.traceId n := by
  obtain ⟨x, hx, hemitted⟩ := List.mem_filterMap.1 hrecord
  obtain ⟨hrequest, e', hscenario, hrunId, heq⟩ := exists_of_mem_run hx
  have hid := traceId_congr hscenario hrunId
  rw [heq] at hemitted
  rw [← hid]
  exact ((Request.suits_congr hid).2 (h _ hrequest)).emitted hemitted

/-- Whatever is requested of a fresh emitter whose scenario has no colon, if given records obey the
rules: the check of its log counts the records that were written. If the run id does not hold the
separator of trace ids, it finds no fault; otherwise it finds one in each line, in its trace id. -/
theorem checkText_run {scenario runId : String} (hscenario : ':' ∉ scenario.toList)
    (requests : List Request) (h : ∀ request ∈ requests, request.Suits { scenario, runId }) :
    let (history, last) := Emitter.run { scenario, runId } requests
    let records := history.filterMap (·.emitted?)
    (¬ "::".toList <:+: runId.toList →
      checkText last.written = { checked := records.length, faults := [] }) ∧
    ("::".toList <:+: runId.toList →
      checkText last.written =
        { checked := records.length
          faults := (records.zipIdx 1).map fun p => (p.2, .malformedTraceId p.1.traceId) } ∧
      (checkText last.written).faults.map (fun p => (p.1, p.2.field)) =
        (List.range' 1 records.length).map (·, "trace_id")) := by
  have hwritten := Emitter.written_run { scenario, runId } requests
  rw [String.empty_append] at hwritten
  have hid (n : Nat) : IsTraceId (Emitter.traceId { scenario, runId } n) ↔
      ¬ "::".toList <:+: runId.toList := Emitter.isTraceId_traceId hscenario n
  refine ⟨fun hfree => ?_, fun hsep => ?_⟩
  · rw [hwritten]
    refine checkText_logText_of_isTraceId fun record hrecord => ?_
    obtain ⟨hproper, n, hn⟩ := Emitter.emitted_run h hrecord
    exact ⟨hproper, hn ▸ (hid n).2 hfree⟩
  · have hfound := checkText_logText_of_not_isTraceId fun record hrecord => by
      obtain ⟨hproper, n, hn⟩ := Emitter.emitted_run h hrecord
      exact ⟨hproper, fun hparts => (hid n).1 (hn ▸ hparts) hsep⟩
    rw [← hwritten] at hfound
    refine ⟨hfound, ?_⟩
    rw [hfound, ← List.zipIdx_map_snd 1, List.map_map, List.map_map]
    rfl

/-- The second record is lost and the third one says all that the rules look at. -/
def mixedRequests : List Request :=
  [.emit "t" .info "two\nlines", .setFailing true, .emit "t" .warn "lost", .setFailing false,
    .emitEntry
      { timestamp := "", traceId := "", level := .error, event := "::", stream := some .core,
        tid := some 7, errno := some 2, details := some (.array [.int 0]) },
    .flush]

theorem suits_of_mem_mixedRequests {request : Request} (h : request ∈ mixedRequests) :
    request.Suits e := by
  simp only [mixedRequests, List.mem_cons, List.not_mem_nil, or_false] at h
  obtain rfl | rfl | rfl | rfl | rfl | rfl := h
  iterate 4 trivial
  · have herrno : (0 : Int32) < 2 := by decide
    refine ⟨⟨fun d hd => ?_, fun n hn => Option.some.inj hn ▸ herrno, by decide⟩, .inl rfl⟩
    obtain rfl := Option.some.inj hd
    simp [Json.Exact, Json.ExactItems, Json.IntegerInRange, Json.depth, Json.depthOfItems,
      UInt64.size]
  · trivial

theorem checkText_run_mixedRequests :
    checkText (Emitter.run { scenario := "s", runId := "1:" } mixedRequests).2.written =
      { checked := 2, faults := [] } ∧
    checkText (Emitter.run { scenario := "s", runId := "x::y" } mixedRequests).2.written =
      { checked := 2
        faults := [(1, .malformedTraceId "s::x::y::001"), (2, .malformedTraceId "s::x::y::003")] } := by
  have hscenario : ':' ∉ "s".toList := by decide
  have hsuits (runId : String) :
      ∀ request ∈ mixedRequests, request.Suits { scenario := "s", runId } :=
    fun _ => suits_of_mem_mixedRequests
  constructor
  · have hrun := checkText_run hscenario mixedRequests (hsuits "1:")
    exact hrun.1 (by decide)
  · have hrun := checkText_run hscenario mixedRequests (hsuits "x::y")
    exact (hrun.2 (by decide)).1

end Record
end Threading

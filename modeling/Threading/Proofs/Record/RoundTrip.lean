import Threading.Proofs.Json.RoundTrip
import Threading.Proofs.Record.Fields

/-!
# Records read back

The line of a record that obeys the rules is accepted and decoded to this record,
whatever its strings and numbers are. A record that does not obey them is refused with
exactly the faults the rules find in it. Either way the line is a single one.
-/
namespace Threading.Record

/-- A log can keep the details: they are not null and hold no floating-point numbers, their
integers are those of 64 bits, their objects list the keys in ascending order, as every object
does, and they nest at most 126 containers. -/
def Entry.ExactDetails (e : Entry) : Prop :=
  ∀ d ∈ e.details, d ≠ .null ∧ d.Exact ∧ d.depth ≤ 126

variable {α : Type} {e : Entry} {f : String × Json}

theorem mem_optional {key : String} {toJson : α → Json} {value : Option α}
    (h : f ∈ Entry.optional key toJson value) : ∃ a ∈ value, f.2 = toJson a := by
  cases value with
  | none => exact absurd h (by simp [Entry.optional])
  | some a =>
    rw [Entry.optional, Option.map_some, Option.toList_some, List.mem_singleton] at h
    exact ⟨a, rfl, h ▸ rfl⟩

theorem integerInRange_signed (n : Int32) : Json.IntegerInRange n.toInt := by
  have hlow := n.le_toInt
  have hhigh := n.toInt_lt
  have hsize : (UInt64.size : Int) = 0x1_0000_0000_0000_0000 := rfl
  exact ⟨by omega, by omega⟩

theorem integerInRange_word (n : UInt64) : Json.IntegerInRange n.toNat :=
  ⟨by omega, Int.ofNat_lt.2 n.toNat_lt_size⟩

/-- The fields of a record are strings and 64-bit integers, and its details. -/
theorem Entry.fields_cases (h : f ∈ e.fields) : (∃ s, f.2 = .string s) ∨
    (∃ n, f.2 = .int n ∧ Json.IntegerInRange n) ∨ f.2 ∈ e.details := by
  have hword {key : String} {value : Option UInt64} (h : f ∈ Entry.optional key Entry.word value) :
      ∃ n, f.2 = .int n ∧ Json.IntegerInRange n := by
    obtain ⟨n, -, heq⟩ := mem_optional h
    exact ⟨_, heq, integerInRange_word n⟩
  have hsigned {key : String} {value : Option Int32}
      (h : f ∈ Entry.optional key Entry.signed value) :
      ∃ n, f.2 = .int n ∧ Json.IntegerInRange n := by
    obtain ⟨n, -, heq⟩ := mem_optional h
    exact ⟨_, heq, integerInRange_signed n⟩
  simp only [Entry.fields, List.mem_append, List.mem_cons, List.not_mem_nil, or_false] at h
  obtain ((((((((((hrequired | hscenario) | hstream) | htid) | hthreads) | hpredicted) | houtcome) |
    herrno) | hlatency) | hduration) | hdetails) := h
  · obtain rfl | rfl | rfl | rfl := hrequired <;> exact .inl ⟨_, rfl⟩
  · obtain ⟨s, -, heq⟩ := mem_optional hscenario
    exact .inl ⟨s, heq⟩
  · obtain ⟨s, -, heq⟩ := mem_optional hstream
    exact .inl ⟨s.name, heq⟩
  · exact .inr (.inl (hsigned htid))
  · exact .inr (.inl (hword hthreads))
  · exact .inr (.inl (hword hpredicted))
  · obtain ⟨o, -, heq⟩ := mem_optional houtcome
    exact .inl ⟨o.name, heq⟩
  · exact .inr (.inl (hsigned herrno))
  · exact .inr (.inl (hword hlatency))
  · exact .inr (.inl (hword hduration))
  · obtain ⟨d, hd, heq⟩ := mem_optional hdetails
    exact .inr (.inr (heq ▸ hd))

namespace Entry.ExactDetails

theorem exactFields (h : e.ExactDetails) : Json.ExactFields e.fields := by
  refine Json.forall_exactFields_iff.2 fun f hf => ?_
  obtain ⟨s, heq⟩ | ⟨n, heq, hn⟩ | hd := Entry.fields_cases hf
  · rw [heq]
    trivial
  · rw [heq]
    exact hn
  · exact (h f.2 hd).2.1

theorem depthOfFields_lt (h : e.ExactDetails) : Json.depthOfFields e.fields < Json.maxOpen := by
  refine Nat.lt_succ_of_le (Json.depthOfFields_le_iff.2 fun f hf => ?_)
  obtain ⟨s, heq⟩ | ⟨n, heq, hn⟩ | hd := Entry.fields_cases hf
  · rw [heq]
    exact Nat.zero_le _
  · rw [heq]
    exact Nat.zero_le _
  · exact (h f.2 hd).2.2

theorem ne_null (h : e.ExactDetails) : e.details ≠ some .null :=
  fun hnull => (h .null hnull).1 rfl

/-- The line of a record is decoded to it, unless the rules find fault with it. -/
theorem checkLine_text (h : e.ExactDetails) :
    checkLine e.text = if e.faults = [] then .ok e else .error e.faults := by
  rw [checkLine, Entry.text, Json.ofText?_text_object h.exactFields h.depthOfFields_lt,
    Json.ofFields_eq]
  exact e.shownIn_putAll.checkFields h.ne_null

/-- The same for a numbered line, whose number is put to the faults. -/
theorem checkNumbered_eq (h : e.ExactDetails) (n : Nat) : checkNumbered n e.text =
    if e.faults = [] then .ok e else .error (e.faults.map (n, ·)) := by
  rw [checkNumbered, h.checkLine_text]
  split <;> rfl

theorem printable_text (h : e.ExactDetails) : Json.Printable e.text.toList := by
  rw [Entry.text, Json.text, String.toList_ofList]
  exact Json.printable_write_object h.exactFields

end Entry.ExactDetails

/-- The line of a record that obeys the rules holds no newline and is decoded to the record, under
whatever number it is checked. -/
theorem Entry.Conforms.checkNumbered_text (h : e.Conforms) (hdetails : e.ExactDetails) :
    (∀ n, checkNumbered n e.text = .ok e) ∧ '\n' ∉ e.text.toList := by
  refine ⟨fun n => ?_, fun hmem => ?_⟩
  · rw [hdetails.checkNumbered_eq, if_pos (Entry.faults_eq_nil_iff.2 h)]
  · exact absurd (hdetails.printable_text '\n' hmem) (by decide)

/-- A diagnostic line is reported with everything a record can say; its strings hold a newline, a
quote, a control character and the trace id's own separator. -/
def reportedLine : Entry where
  timestamp := "2024-02-29T12:34:56.007Z"
  traceId := "lock-order::run 7::012"
  level := .warn
  event := "two\nlines, \"quoted\"\x01"
  scenario := some "lock::order"
  stream := some .core
  tid := some (-5)
  threadCount := some 0
  predictedDeadlocks := some 0xffff_ffff_ffff_ffff
  outcome := some .timeout
  errno := some 35
  latencyNs := some 10
  durationMs := some 1
  details := some (.object [("", .array [.null, .bool true, .object []]),
    ("at", .int (-0x8000_0000_0000_0000)), ("é\\", .string "\u2028\t")])

theorem checkNumbered_text_reportedLine :
    reportedLine.Conforms ∧ reportedLine.ExactDetails ∧
      (∀ n, checkNumbered n reportedLine.text = .ok reportedLine) ∧
      '\n' ∉ reportedLine.text.toList := by
  have herrno : (0 : Int32) < 35 := by decide
  have hconforms : reportedLine.Conforms :=
    ⟨by decide +kernel, fun n hn => Option.some.inj hn ▸ herrno, by decide⟩
  have hdetails : reportedLine.ExactDetails := by
    intro d hd
    obtain rfl := Option.some.inj hd
    refine ⟨nofun, ⟨by decide +kernel, ?_⟩, by decide +kernel⟩
    simp [Json.ExactFields, Json.Exact, Json.ExactItems, Json.IntegerInRange, UInt64.size]
  exact ⟨hconforms, hdetails, hconforms.checkNumbered_text hdetails⟩

end Threading.Record

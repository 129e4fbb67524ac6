import Threading.Proofs.Log.Lines
import Threading.Proofs.Text.Numerals
import Threading.Proofs.Text.Splitting
import Threading.Record.CoreLine

/-!
# Diagnostic lines read back

The parts of a diagnostic line are found again as they were put together, whatever slashes,
parentheses and separators the tag and the message hold, as long as the tag does not hold the
separator that ends the head. A message that was cut is read as it was cut.
-/
namespace Threading.Record

variable {t : List Char} {tid : Tid}

theorem tidOfChars?_eq_some_iff : tidOfChars? t = some tid ↔ Text.Spells t tid.toInt := by
  rw [tidOfChars?, Option.map_eq_some_iff]
  constructor
  · rintro ⟨n, hn, rfl⟩
    obtain ⟨hspells, hge, hlt⟩ := (Text.integer?_eq_some_iff (by decide)).1 hn
    rwa [Int32.toInt_ofInt_of_le hge hlt]
  · intro h
    have hge := Int32.le_toInt tid
    have hlt := Int32.toInt_lt tid
    exact ⟨_, (Text.integer?_eq_some_iff (by decide)).2 ⟨h, hge, hlt⟩, Int32.ofInt_toInt tid⟩

/-- The letters that stand for a level are those of the priorities. -/
theorem Level.ofLetter?_eq_some_iff {letter : List Char} {level : Level} :
    Level.ofLetter? letter = some level ↔
      ∃ p : LogPriority, letter = [p.letter] ∧ Level.ofPriority p = level := by
  constructor
  · intro h
    unfold Level.ofLetter? at h
    split at h
    · exact ⟨.debug, rfl, Option.some.inj h⟩
    · exact ⟨.info, rfl, Option.some.inj h⟩
    · exact ⟨.warn, rfl, Option.some.inj h⟩
    · exact ⟨.error, rfl, Option.some.inj h⟩
    · cases h
  · rintro ⟨p, rfl, rfl⟩
    cases p <;> rfl

namespace CoreLine

variable {line : String} {c : CoreLine} {p : LogPriority} {tag : List Char}

/-- The characters of a head. -/
def headChars (p : LogPriority) (tag t : List Char) : List Char :=
  [p.letter] ++ '/' :: (tag ++ '(' :: t ++ [')'])

/-- The text is a line with these parts; the thread id may be spelled in any way. -/
def Describes (line : String) (c : CoreLine) : Prop :=
  ∃ p : LogPriority, Level.ofPriority p = c.level ∧
    ∃ t, Text.Spells t c.tid.toInt ∧
      line = String.singleton p.letter ++ "/" ++ c.tag ++ "(" ++ String.ofList t ++ "): " ++
        c.message

/-- The separator that ends the head does not occur in it. -/
theorem not_infix_headChars (htag : ¬ [':', ' '] <:+: tag) (ht : ':' ∉ t) :
    ¬ [':', ' '] <:+: headChars p tag t := by
  have hstart : ':' ∉ [p.letter, '/'] := by cases p <;> decide
  have hend : ':' ∉ '(' :: t ++ [')'] := by simp [ht]
  have hparts : headChars p tag t = [p.letter, '/'] ++ (tag ++ ('(' :: t ++ [')'])) := by
    simp [headChars]
  rw [hparts]
  refine Text.not_pair_infix_append (Text.not_pair_infix_of_notMem hstart) ?_ ?_
  · refine Text.not_pair_infix_append htag (Text.not_pair_infix_of_notMem hend) fun _ => ?_
    simp
  · intro h
    simp at h

/-- The parts of a line are found where they were put together. -/
theorem ofText?_of_describes (h : Describes line c) (htag : ¬ ": ".toList <:+: c.tag.toList) :
    ofText? line = some c := by
  obtain ⟨p, hp, t, ht, rfl⟩ := h
  have hhead := not_infix_headChars (p := p) htag (ht.notMem rfl (by decide) (by decide))
  have hline : (String.singleton p.letter ++ "/" ++ c.tag ++ "(" ++ String.ofList t ++ "): " ++
      c.message).toList = headChars p c.tag.toList t ++ ':' :: ' ' :: c.message.toList := by
    simp [headChars]
  have hslash : '/' ∉ [p.letter] := by cases p <;> decide
  have hparen : '(' ∉ t := ht.notMem rfl (by decide) (by decide)
  rw [ofText?, hline, Text.splitFirst?_pair (by decide) hhead]
  simp only [Option.bind_eq_bind, Option.bind_some]
  rw [headChars, Text.splitFirst?_singleton hslash]
  simp only [Option.bind_some, Level.ofLetter?_eq_some_iff.2 ⟨p, rfl, hp⟩,
    List.getLast?_concat, if_true, List.dropLast_concat, Text.splitLast?_append hparen,
    tidOfChars?_eq_some_iff.2 ht, String.ofList_toList]

/-- A line that is read has the shape of a line. -/
theorem describes_of_ofText? (h : ofText? line = some c) :
    Describes line c ∧ ¬ ": ".toList <:+: c.tag.toList := by
  simp only [ofText?, Option.bind_eq_bind, Option.bind_eq_some_iff] at h
  obtain ⟨⟨head, message⟩, hline, ⟨letter, rest⟩, hhead, level, hletter, h⟩ := h
  split at h
  next hlast =>
    simp only [Option.bind_eq_some_iff, Option.some.injEq] at h
    obtain ⟨⟨tag, t⟩, hrest, tid, ht, rfl⟩ := h
    obtain ⟨p, rfl, hp⟩ := Level.ofLetter?_eq_some_iff.1 hletter
    have hnone := Text.not_infix_of_splitFirst? (by decide) hline
    have hcut : head = [p.letter] ++ ['/'] ++ rest := Text.eq_append_of_splitFirst? hhead
    have hparts : head = headChars p tag t := by
      rw [hcut, headChars, ← Text.eq_append_of_splitLast? hrest, List.append_assoc,
        List.dropLast_append_getLast? _ hlast]
      rfl
    subst hparts
    refine ⟨⟨p, hp, t, tidOfChars?_eq_some_iff.1 ht, ?_⟩, fun hsep => hnone ?_⟩
    · rw [← String.toList_inj, Text.eq_append_of_splitFirst? hline]
      simp [headChars]
    · refine hsep.trans ⟨[p.letter, '/'], '(' :: t ++ [')'], ?_⟩
      simp [headChars]
  next => cases h

theorem ofText?_eq_some_iff :
    ofText? line = some c ↔ Describes line c ∧ ¬ ": ".toList <:+: c.tag.toList :=
  ⟨describes_of_ofText?, fun h => ofText?_of_describes h.1 h.2⟩

/-- Of a line that passes the minimum and whose head fits, the level, the tag and the thread id
are read back, and of the message the longest start with which the line fits. In general just
the texts are read that are put together like a line, with any spelling of the thread id and a
tag that does not hold the separator. -/
theorem reads_delivered {least : LogPriority} {l : Log.Line} (hpass : least.passes l.priority = true)
    (htag : ¬ ": ".toList <:+: l.tag.toList)
    (hfit : l.head.utf8ByteSize ≤ Log.lineCapacity) :
    (∃ cut : String,
      (Log.delivered least [l]).map (fun line => ofText? line.text) =
          [some ⟨Level.ofPriority l.priority, l.tag, l.tid, cut⟩] ∧
        cut.toList <+: l.message.toList ∧
        ∀ start : String, start.toList <+: l.message.toList →
          ((l.head ++ start).utf8ByteSize ≤ Log.lineCapacity ↔ start.toList <+: cut.toList)) ∧
      ∀ line c, ofText? line = some c ↔ Describes line c ∧ ¬ ": ".toList <:+: c.tag.toList := by
  refine ⟨⟨String.ofList (Log.fitting (Log.lineCapacity - l.head.utf8ByteSize) l.message.toList),
    ?_, ?_, fun start hstart => ?_⟩, fun line c => ofText?_eq_some_iff⟩
  · have hdelivered : Log.delivered least [l] = [l] := by simp [Log.delivered, hpass]
    rw [hdelivered, List.map_singleton, List.singleton_inj]
    refine ofText?_of_describes ⟨l.priority, rfl, _, Text.spells_signedDecimal _, ?_⟩ htag
    rw [Log.Line.text_eq hfit, Log.Line.head, String.ofList_toList]
  · rw [String.toList_ofList]
    exact Log.fitting_isPrefix _ _
  · rw [String.toList_ofList, Log.prefix_fitting_iff hstart, Log.byteLength_eq,
      String.ofList_toList, String.utf8ByteSize_append]
    omega

/-- A line whose tag looks like a line of its own and whose message is cut inside a character. -/
def crowdedLine : Log.Line :=
  ⟨.warn, "I/io(3):", -42, "a(b): c" ++ String.ofList (List.replicate 600 'é')⟩

theorem reads_delivered_crowdedLine :
    LogPriority.passes .info crowdedLine.priority = true ∧
      ¬ ": ".toList <:+: crowdedLine.tag.toList ∧
      crowdedLine.head.utf8ByteSize ≤ Log.lineCapacity ∧
      (∃ cut : String,
        (Log.delivered .info [crowdedLine]).map (fun line => ofText? line.text) =
            [some ⟨.warn, "I/io(3):", -42, cut⟩] ∧
          cut.toList <+: crowdedLine.message.toList ∧
          ∀ start : String, start.toList <+: crowdedLine.message.toList →
            ((crowdedLine.head ++ start).utf8ByteSize ≤ Log.lineCapacity ↔
              start.toList <+: cut.toList)) ∧
      ∀ line c, ofText? line = some c ↔ Describes line c ∧ ¬ ": ".toList <:+: c.tag.toList := by
  have htag : ¬ ": ".toList <:+: crowdedLine.tag.toList := by decide
  have hfit : crowdedLine.head.utf8ByteSize ≤ Log.lineCapacity := by decide
  exact ⟨rfl, htag, hfit, reads_delivered rfl htag hfit⟩

end CoreLine
end Threading.Record

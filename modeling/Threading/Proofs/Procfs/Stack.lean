import Threading.Procfs.Stack
import Threading.Proofs.Text.Blank
import Threading.Proofs.Text.Hexadecimal
import Threading.Proofs.Text.Numerals
import Threading.Proofs.Text.Splitting

/-!
# Reading what the kernel writes

The command name in a status line may be any bytes: what follows it begins behind the last closing
parenthesis, as no later field holds one, and only that must be a text. Its fields are those that
it was put together from. The ends of a mapping are read back from the digits written for them.
-/
namespace Threading.Procfs

open Text (Separated IsField IsNumeral)

variable {c : Char} {cs : List Char} {front rest pid command : Bytes} {text : String}
variable {fs : List (List Char)}

/-! ## Bytes -/

/-- The bytes of a text. -/
def utf8 (text : String) : Bytes := text.toByteArray.data.toList

theorem utf8_append (a b : String) : utf8 (a ++ b) = utf8 a ++ utf8 b := by
  simp [utf8]

theorem utf8_eq (text : String) : utf8 text = text.toList.flatMap String.utf8EncodeChar := by
  rw [utf8, ← String.utf8Encode_toList, List.utf8Encode, List.data_toByteArray]

@[simp] theorem decode?_utf8 (text : String) : decode? (utf8 text) = some text.toList := by
  have hbytes : ByteArray.mk (utf8 text).toArray = text.toByteArray := by
    rw [utf8, Array.toArray_toList]
  rw [decode?, hbytes, String.fromUTF8?, dif_pos text.isValidUTF8]
  rfl

theorem utf8EncodeChar_of_lt (hc : c.toNat < 128) :
    String.utf8EncodeChar c = [UInt8.ofNat c.toNat] := if_pos (Nat.le_of_lt_succ hc)

/-- No byte of a longer character is that of an ASCII character. -/
theorem le_of_mem_utf8EncodeChar (hc : 128 ≤ c.toNat) :
    ∀ b ∈ String.utf8EncodeChar c, 128 ≤ b.toNat := by
  have hascii : ¬ c.val.toNat ≤ 127 := Nat.not_le.2 hc
  rw [String.utf8EncodeChar, if_neg hascii]
  split
  next =>
    simp only [List.forall_mem_cons, UInt8.toNat_ofNat', List.not_mem_nil, false_implies,
      implies_true, and_true]
    omega
  next =>
    split
    all_goals
      simp only [List.forall_mem_cons, UInt8.toNat_ofNat', List.not_mem_nil, false_implies,
        implies_true, and_true]
      omega

theorem parenthesis_notMem_utf8 (h : ')' ∉ text.toList) : 41 ∉ utf8 text := by
  rw [utf8_eq, List.mem_flatMap]
  rintro ⟨c, hc, hbyte⟩
  rcases Nat.lt_or_ge c.toNat 128 with hlt | hge
  · rw [utf8EncodeChar_of_lt hlt, List.mem_singleton, ← UInt8.toNat_inj, UInt8.toNat_ofNat'] at hbyte
    have hparen : c.toNat = ')'.toNat := by
      rw [Nat.mod_eq_of_lt (by omega)] at hbyte
      exact hbyte.symm
    exact h (Char.toNat_inj.1 hparen ▸ hc)
  · exact absurd (le_of_mem_utf8EncodeChar hge 41 hbyte) (by decide)

/-! ## Status lines -/

theorem afterCommand?_eq_none (h : 41 ∉ rest) : afterCommand? rest = none := by
  induction rest with
  | nil => rfl
  | cons b rest ih =>
    rw [List.mem_cons, not_or] at h
    simp [afterCommand?, ih h.2, Ne.symm h.1]

/-- The last closing parenthesis counts, whatever is before it. -/
theorem afterCommand?_append (front : Bytes) (h : 41 ∉ rest) :
    afterCommand? (front ++ 41 :: rest) = some rest := by
  induction front with
  | nil => simp [afterCommand?, afterCommand?_eq_none h]
  | cons b front ih => simp [afterCommand?, ih]

/-- A status line: the id, the command name in parentheses and the other fields. -/
def statusLine (pid command : Bytes) (text : String) : Bytes :=
  pid ++ utf8 " (" ++ command ++ utf8 ") " ++ utf8 text

/-- The field of the start is looked up among those that the text is made of. -/
theorem startStack?_statusLine (hfs : Separated fs text.toList) (hparen : ∀ f ∈ fs, ')' ∉ f)
    (pid command : Bytes) : startStack? (statusLine pid command text) =
      fs[startStackField]?.bind fun field =>
        (Text.natural? 10 UInt64.size field).map UInt64.ofNat := by
  have htext : ')' ∉ (" " ++ text).toList := by
    rw [String.toList_append, List.mem_append, not_or]
    refine ⟨by decide, fun hmem => ?_⟩
    obtain hblank | ⟨f, hf, hmem⟩ := hfs.mem hmem
    · cases hblank
    · exact hparen f hf hmem
  have hcut : statusLine pid command text =
      (pid ++ utf8 " (" ++ command) ++ 41 :: utf8 (" " ++ text) := by
    rw [statusLine, List.append_assoc _ (utf8 ") "), ← utf8_append]
    rfl
  have hfields : Text.fields (" " ++ text).toList = fs := by
    rw [String.toList_append]
    exact (Separated.blank rfl hfs).fields_eq
  rw [startStack?, hcut, afterCommand?_append _ (parenthesis_notMem_utf8 htext)]
  simp only [Option.bind_eq_bind, Option.bind_some, decode?_utf8, hfields, Option.map_eq_bind]
  rfl

/-! ## Mappings -/

/-- The ends of a mapping as they are written. -/
def rangeText (width : Nat) (low high : UInt64) : String :=
  Text.paddedHexadecimal width low.toNat ++ "-" ++ Text.paddedHexadecimal width high.toNat

theorem toList_rangeText (width : Nat) (low high : UInt64) : (rangeText width low high).toList =
    (Text.paddedHexadecimal width low.toNat).toList ++
      '-' :: (Text.paddedHexadecimal width high.toNat).toList := by
  simp [rangeText]

theorem isField_rangeText (width : Nat) (low high : UInt64) :
    IsField (rangeText width low high).toList := by
  have hdigits (n : Nat) :
      ∀ c ∈ (Text.paddedHexadecimal width n).toList, Text.isAsciiBlank c = false := by
    intro c hc
    obtain ⟨value, hvalue, rfl⟩ := Text.mem_paddedHexadecimal hc
    exact (by decide : ∀ v < 16, Text.isAsciiBlank (Nat.digitChar v) = false) value hvalue
  rw [toList_rangeText]
  refine ⟨List.append_ne_nil_of_right_ne_nil _ (List.cons_ne_nil _ _), ?_⟩
  rw [List.forall_mem_append, List.forall_mem_cons]
  exact ⟨hdigits _, rfl, hdigits _⟩

/-- No digit is the sign that separates the ends. -/
theorem splitFirst?_rangeText (width : Nat) (low high : UInt64) :
    Text.splitFirst? ['-'] (rangeText width low high).toList =
      some ((Text.paddedHexadecimal width low.toNat).toList,
        (Text.paddedHexadecimal width high.toNat).toList) := by
  rw [toList_rangeText]
  exact Text.splitFirst?_singleton (Text.notMem_paddedHexadecimal (by decide) _ _)

/-- A line that describes a mapping: its ends, a blank and the rest of the line. -/
def mappingLine (width : Nat) (low high : UInt64) (blank : Char) (rest : String) : Bytes :=
  utf8 (rangeText width low high ++ String.singleton blank ++ rest)

theorem mappingRange?_mappingLine (hblank : Text.isAsciiBlank c = true) (width : Nat)
    (low high : UInt64) (rest : String) :
    mappingRange? (mappingLine width low high c rest) = some (low, high) := by
  have hword (n : UInt64) :
      Text.natural? 16 UInt64.size (Text.paddedHexadecimal width n.toNat).toList = some n.toNat :=
    Text.natural?_paddedHexadecimal width n.toNat_lt
  have htext : (rangeText width low high ++ String.singleton c ++ rest).toList =
      (rangeText width low high).toList ++ c :: rest.toList := by
    simp
  rw [mappingRange?, mappingLine, decode?_utf8, htext]
  simp only [Option.bind_eq_bind, Option.bind_some, List.head?_cons,
    Text.fields_append (isField_rangeText width low high) hblank, splitFirst?_rangeText, hword,
    UInt64.ofNat_toNat]

/-! ## Both -/

/-- From a status line, whatever the id and the command name, the 26th of the later fields is read
if it is a numeral of an address, and nothing is read if there are fewer fields or the 26th is none
or too large. From a line that describes a mapping, its two ends are read. -/
theorem reads_kernel_lines :
    (∀ (pid command : Bytes) (text : String) (fs : List (List Char)), Separated fs text.toList →
      (∀ f ∈ fs, ')' ∉ f) →
        (∀ (f : List Char) (v : UInt64), fs[25]? = some f → IsNumeral f v.toNat →
          startStack? (statusLine pid command text) = some v) ∧
        (fs.length < 26 → startStack? (statusLine pid command text) = none) ∧
        ∀ f : List Char, fs[25]? = some f → (∀ n, IsNumeral f n → UInt64.size ≤ n) →
          startStack? (statusLine pid command text) = none) ∧
      ∀ (width : Nat) (low high : UInt64) (blank : Char) (rest : String),
        Text.isAsciiBlank blank = true →
          mappingRange? (mappingLine width low high blank rest) = some (low, high) := by
  refine ⟨fun pid command text fs hfs hparen => ?_, fun width low high blank rest hblank =>
    mappingRange?_mappingLine hblank width low high rest⟩
  have hread := startStack?_statusLine hfs hparen pid command
  simp only [startStackField] at hread
  refine ⟨fun f v hf hv => ?_, fun hshort => ?_, fun f hf hlarge => ?_⟩
  · have hsome := Text.natural?_eq_some_iff.2 ⟨hv, v.toNat_lt⟩
    simp [hread, hf, hsome]
  · simp [hread, List.getElem?_eq_none (Nat.le_of_lt_succ hshort)]
  · have hnone : Text.natural? 10 UInt64.size f = none := by
      refine Option.eq_none_iff_forall_ne_some.2 fun n hn => ?_
      obtain ⟨hnumeral, hlt⟩ := Text.natural?_eq_some_iff.1 hn
      exact absurd (hlarge n hnumeral) (Nat.not_le.2 hlt)
    simp [hread, hf, hnone]

/-- The fields after a command name, the start of the stack among them. -/
def laterFields : String :=
  "S 1 1 1 0 -1 64 80 0 0 0 1 0 0 0 20 0 1 0 5 4096 20 -1 4096\t8192  +140737488347136 0 0\n"

/-- The command name looks like the end of one, has a line in it and is no text. -/
theorem reads_kernel_lines_strange_name :
    startStack? (statusLine (utf8 "42") (utf8 "a) S 1\n" ++ [255]) laterFields) =
        some 140737488347136 ∧
      mappingRange? (mappingLine 8 0x400000 0x7ffe1000 ' ' "rw-p [stack]") =
        some (0x400000, 0x7ffe1000) := by
  have hfs : Separated (Text.fields laterFields.toList) laterFields.toList :=
    Text.fields_eq_iff.1 rfl
  have hparen : ∀ f ∈ Text.fields laterFields.toList, ')' ∉ f := by decide +kernel
  have hstart : IsNumeral "+140737488347136".toList (140737488347136 : UInt64).toNat :=
    ⟨"140737488347136".toList, ⟨by decide, List.all_eq_true.1 rfl⟩, .inr rfl, by decide⟩
  obtain ⟨hread, -, -⟩ := reads_kernel_lines.1 (utf8 "42") (utf8 "a) S 1\n" ++ [255]) _ _ hfs hparen
  exact ⟨hread _ _ rfl hstart, reads_kernel_lines.2 8 _ _ ' ' _ rfl⟩

end Threading.Procfs

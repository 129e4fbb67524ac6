import Mathlib.Data.List.TakeWhile
import Threading.Text.Blank

/-!
# Blanks around and between

What trimming a text and cutting it into fields give, said without either. A word without the
blanks around it has none at its ends. Fields have no blank in them and at least one between any
two of them; more blanks may stand between them and at the ends of the text.
-/
namespace Threading.Text

variable {p : Char → Bool} {c : Char} {cs word front tail field run : List Char}
variable {fs : List (List Char)}

/-! ## Around -/

/-- The word is the text without the blanks around it. -/
structure Stripped (cs word : List Char) : Prop where
  around : ∃ front tail, cs = front ++ word ++ tail ∧ (∀ c ∈ front, isBlank c = true) ∧
    ∀ c ∈ tail, isBlank c = true
  head : ∀ c, word.head? = some c → isBlank c = false
  last : ∀ c, word.getLast? = some c → isBlank c = false

theorem dropWhile_of_head (h : ∀ c, cs.head? = some c → p c = false) : cs.dropWhile p = cs := by
  cases cs with
  | nil => rfl
  | cons c cs => exact List.dropWhile_cons_of_neg (by simp [h c rfl])

theorem dropEndWhile_append (htail : ∀ c ∈ tail, p c = true)
    (hlast : ∀ c, word.getLast? = some c → p c = false) : dropEndWhile p (word ++ tail) = word := by
  have hword : word.reverse.dropWhile p = word.reverse := by
    refine dropWhile_of_head fun c hc => hlast c ?_
    rwa [← List.head?_reverse]
  rw [dropEndWhile, List.reverse_append, List.dropWhile_append_of_pos, hword, List.reverse_reverse]
  intro c hc
  exact htail c (List.mem_reverse.1 hc)

theorem dropEndWhile_spec (p : Char → Bool) (cs : List Char) :
    (∃ tail, cs = dropEndWhile p cs ++ tail ∧ ∀ c ∈ tail, p c = true) ∧
      ∀ c, (dropEndWhile p cs).getLast? = some c → p c = false := by
  constructor
  · refine ⟨(cs.reverse.takeWhile p).reverse, ?_, fun c hc => ?_⟩
    · rw [dropEndWhile, ← List.reverse_append, List.takeWhile_append_dropWhile,
        List.reverse_reverse]
    · exact List.mem_takeWhile_imp (List.mem_reverse.1 hc)
  · intro c hc
    have hstop := List.head?_dropWhile_not p cs.reverse
    rw [dropEndWhile, List.getLast?_reverse] at hc
    rw [hc] at hstop
    exact hstop

theorem Stripped.trimBlank_eq (h : Stripped cs word) : trimBlank cs = word := by
  obtain ⟨front, tail, rfl, hfront, htail⟩ := h.around
  rw [trimBlank, List.append_assoc, List.dropWhile_append_of_pos hfront]
  cases word with
  | nil =>
    rw [List.nil_append, List.dropWhile_eq_nil_iff.2 htail]
    rfl
  | cons c word =>
    have hhead : ∀ d, (c :: word ++ tail).head? = some d → isBlank d = false := h.head
    rw [dropWhile_of_head hhead]
    exact dropEndWhile_append htail h.last

/-- Trimming strips the blanks around a text. -/
theorem stripped_trimBlank (cs : List Char) : Stripped cs (trimBlank cs) := by
  obtain ⟨⟨tail, hcut, htail⟩, hlast⟩ := dropEndWhile_spec isBlank (cs.dropWhile isBlank)
  refine ⟨⟨cs.takeWhile isBlank, tail, ?_, fun c hc => List.mem_takeWhile_imp hc, htail⟩, ?_, hlast⟩
  · rw [List.append_assoc, trimBlank, ← hcut, List.takeWhile_append_dropWhile]
  · intro c hc
    have hstop := List.head?_dropWhile_not isBlank cs
    rw [hcut, List.head?_append, ← trimBlank, hc] at hstop
    exact hstop

/-! ## Between -/

/-- One or more characters, none of them a blank. -/
def IsField (field : List Char) : Prop := field ≠ [] ∧ ∀ c ∈ field, isAsciiBlank c = false

/-- The text consists of these fields, in order, and of blanks that separate them. -/
inductive Separated : (fs : List (List Char)) → (cs : List Char) → Prop
  | nil : Separated [] []
  | blank {c : Char} {fs : List (List Char)} {cs : List Char} : isAsciiBlank c = true →
    Separated fs cs → Separated fs (c :: cs)
  | last {field : List Char} : IsField field → Separated [field] field
  | field {field : List Char} {c : Char} {fs : List (List Char)} {cs : List Char} :
    IsField field → isAsciiBlank c = true → Separated fs cs →
      Separated (field :: fs) (field ++ c :: cs)

theorem fieldsGo_append (h : ∀ c ∈ field, isAsciiBlank c = false) (cs run : List Char) :
    fields.go (field ++ cs) run = fields.go cs (field.reverse ++ run) := by
  induction field generalizing run with
  | nil => rfl
  | cons c field ih =>
    obtain ⟨hc, hfield⟩ := List.forall_mem_cons.1 h
    rw [List.cons_append, fields.go, if_neg (by simp [hc]), ih hfield, List.reverse_cons,
      List.append_assoc]
    rfl

/-- What stands before the first blank is the first field. -/
theorem fields_append (h : IsField field) (hc : isAsciiBlank c = true) (cs : List Char) :
    fields (field ++ c :: cs) = field :: fields cs := by
  have hrun : field.reverse.isEmpty = false := by simp [h.1]
  rw [fields, fieldsGo_append h.2, List.append_nil, fields.go, if_pos hc, hrun, List.reverse_reverse]
  rfl

theorem Separated.fields_eq (h : Separated fs cs) : fields cs = fs := by
  induction h with
  | nil => rfl
  | blank hc _ ih =>
    rw [fields, fields.go, if_pos hc]
    exact ih
  | @last field hfield =>
    have hgo := fieldsGo_append hfield.2 [] []
    rw [List.append_nil, List.append_nil] at hgo
    simp [fields, hgo, fields.go, hfield.1]
  | field hfield hc _ ih => rw [fields_append hfield hc, ih]

/-- A text with the characters of the current field put back. -/
theorem separated_fieldsGo (cs run : List Char) (h : ∀ c ∈ run, isAsciiBlank c = false) :
    Separated (fields.go cs run) (run.reverse ++ cs) := by
  induction cs generalizing run with
  | nil =>
    rw [fields.go, List.append_nil]
    split
    next hrun =>
      rw [List.isEmpty_iff.1 hrun]
      exact .nil
    next hrun => exact .last ⟨by simpa using hrun, by simpa using h⟩
  | cons c cs ih =>
    rw [fields.go]
    have hrest := ih [] nofun
    split
    next hc =>
      split
      next hrun =>
        rw [List.isEmpty_iff.1 hrun]
        exact .blank hc hrest
      next hrun => exact .field ⟨by simpa using hrun, by simpa using h⟩ hc hrest
    next hc =>
      have hrun : ∀ d ∈ c :: run, isAsciiBlank d = false :=
        List.forall_mem_cons.2 ⟨by simpa using hc, h⟩
      simpa using ih (c :: run) hrun

/-- A text has just one cut into fields. -/
theorem fields_eq_iff : fields cs = fs ↔ Separated fs cs := by
  constructor
  · rintro rfl
    exact separated_fieldsGo cs [] nofun
  · exact Separated.fields_eq

theorem Separated.mem (h : Separated fs cs) (hc : c ∈ cs) :
    isAsciiBlank c = true ∨ ∃ field ∈ fs, c ∈ field := by
  induction h with
  | nil => cases hc
  | blank hd _ ih =>
    rcases List.mem_cons.1 hc with rfl | hc
    · exact .inl hd
    · exact ih hc
  | last _ => exact .inr ⟨_, List.mem_singleton_self _, hc⟩
  | field _ hd _ ih =>
    rcases List.mem_append.1 hc with hc | hc
    · exact .inr ⟨_, List.mem_cons_self, hc⟩
    · rcases List.mem_cons.1 hc with rfl | hc
      · exact .inl hd
      · obtain hblank | ⟨field, hfield, hmem⟩ := ih hc
        · exact .inl hblank
        · exact .inr ⟨field, List.mem_cons_of_mem _ hfield, hmem⟩

end Threading.Text

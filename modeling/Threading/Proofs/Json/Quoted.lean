import Mathlib.Tactic.SplitIfs
import Threading.Json.Token
import Threading.Json.Writer

/-!
# Strings between quotes

A written string is read back as it was, whatever characters it holds and whatever
text follows its closing quote. No control character shows up in it, so a written
string never breaks a line.
-/
namespace Threading.Json

variable {c e : Char} {cs rest : List Char}

/-! ## One character -/

theorem takeString?_cons (hquote : c ≠ '"') (hslash : c ≠ '\\') (hcontrol : ¬ c < ' ') :
    takeString? (c :: rest) = (takeString? rest).map fun p => (c :: p.1, p.2) := by
  rw [takeString?, if_neg (not_or.2 ⟨hcontrol, hslash⟩)]
  · cases takeString? rest <;> rfl
  all_goals simp [hquote, hslash]

theorem takeString?_shortEscape (h : shortEscape? c = some e) :
    takeString? ('\\' :: c :: rest) = (takeString? rest).map fun p => (e :: p.1, p.2) := by
  have hu : c ≠ 'u' := by
    rintro rfl
    simp [shortEscape?] at h
  rw [takeString?, h]
  · cases takeString? rest <;> rfl
  all_goals simp [hu]

/-- An escape with the number of a character below the surrogates stands for it, also right
before another such escape. -/
theorem takeString?_hexEscape {a b c d : Char} {n : Nat} (h : hexWord? a b c d = some n)
    (hn : n < 0xd800) : takeString? ('\\' :: 'u' :: a :: b :: c :: d :: rest) =
      (takeString? rest).map fun p => (Char.ofNat n :: p.1, p.2) := by
  have hhigh : isHighSurrogate n = false := by simp [isHighSurrogate]; omega
  have hlow : isLowSurrogate n = false := by simp [isLowSurrogate]; omega
  by_cases hnext : ∃ a' b' c' d' rest', rest = '\\' :: 'u' :: a' :: b' :: c' :: d' :: rest'
  · obtain ⟨a', b', c', d', rest', rfl⟩ := hnext
    rw [takeString?, h]
    simp only [Option.bind_eq_bind, Option.bind_some, hhigh, hlow, Bool.false_eq_true, if_false]
    cases takeString? ('\\' :: 'u' :: a' :: b' :: c' :: d' :: rest') <;> rfl
  · rw [takeString?, h]
    · simp only [Option.bind_eq_bind, Option.bind_some, hhigh, hlow, Bool.or_self,
        Bool.false_eq_true, if_false]
      cases takeString? rest <;> rfl
    · exact fun a' b' c' d' rest' heq => hnext ⟨a', b', c', d', rest', heq⟩

theorem hexValue?_digitChar : ∀ n < 16, hexValue? (Nat.digitChar n) = some n := by
  decide

theorem hexWord?_low {n : Nat} (hn : n < 0x100) :
    hexWord? '0' '0' (Nat.digitChar (n / 16)) (Nat.digitChar (n % 16)) = some n := by
  have hzero : hexValue? '0' = some 0 := rfl
  have hhigh := hexValue?_digitChar (n / 16) (by omega)
  have hlow := hexValue?_digitChar (n % 16) (by omega)
  have hsum : n / 16 * 16 + n % 16 = n := by omega
  simp [hexWord?, hzero, hhigh, hlow, hsum]

/-- A character is shown by a letter, by its number, or as it is. -/
theorem escapeChar_cases (c : Char) :
    (∃ e, escapeChar c = ['\\', e] ∧ shortEscape? e = some c ∧ ' ' ≤ e) ∨
      (c < ' ' ∧ escapeChar c =
        ['\\', 'u', '0', '0', Nat.digitChar (c.toNat / 16), Nat.digitChar (c.toNat % 16)]) ∨
      (c ≠ '"' ∧ c ≠ '\\' ∧ ¬ c < ' ' ∧ escapeChar c = [c]) := by
  rw [escapeChar]
  split_ifs with hquote hslash hb hf hn hr ht hcontrol
  · exact .inl ⟨_, rfl, by rw [hquote]; rfl, by decide⟩
  · exact .inl ⟨_, rfl, by rw [hslash]; rfl, by decide⟩
  · exact .inl ⟨_, rfl, by rw [hb]; rfl, by decide⟩
  · exact .inl ⟨_, rfl, by rw [hf]; rfl, by decide⟩
  · exact .inl ⟨_, rfl, by rw [hn]; rfl, by decide⟩
  · exact .inl ⟨_, rfl, by rw [hr]; rfl, by decide⟩
  · exact .inl ⟨_, rfl, by rw [ht]; rfl, by decide⟩
  · exact .inr (.inl ⟨hcontrol, rfl⟩)
  · exact .inr (.inr ⟨hquote, hslash, hcontrol, rfl⟩)

theorem takeString?_escapeChar (c : Char) (rest : List Char) :
    takeString? (escapeChar c ++ rest) = (takeString? rest).map fun p => (c :: p.1, p.2) := by
  obtain ⟨e, heq, hshort, -⟩ | ⟨hcontrol, heq⟩ | ⟨hquote, hslash, hcontrol, heq⟩ :=
    escapeChar_cases c <;> rw [heq]
  · exact takeString?_shortEscape hshort
  · have hlt : c.toNat < 0x20 := hcontrol
    have hword := hexWord?_low (n := c.toNat) (by omega)
    rw [List.cons_append, List.cons_append, List.cons_append, List.cons_append, List.cons_append,
      List.singleton_append, takeString?_hexEscape hword (by omega), Char.ofNat_toNat]
  · exact takeString?_cons hquote hslash hcontrol

/-! ## Whole strings -/

theorem takeString?_escaped (cs rest : List Char) :
    takeString? (cs.flatMap escapeChar ++ '"' :: rest) = some (cs, rest) := by
  induction cs with
  | nil => rfl
  | cons c cs ih => simp [takeString?_escapeChar, ih]

theorem takeToken?_quote (s : String) (rest : List Char) :
    takeToken? '"' (s.toList.flatMap escapeChar ++ '"' :: rest) = some (.string s, rest) := by
  have h := takeString?_escaped s.toList rest
  simp [takeToken?, h]

/-! ## Control characters -/

/-- No character of the text is a control character. -/
def Printable (cs : List Char) : Prop := ∀ c ∈ cs, ' ' ≤ c

instance (cs : List Char) : Decidable (Printable cs) :=
  List.decidableBAll _ cs

theorem printable_nil : Printable [] := by simp [Printable]

theorem printable_cons : Printable (c :: cs) ↔ ' ' ≤ c ∧ Printable cs :=
  List.forall_mem_cons

theorem printable_append {ds : List Char} : Printable (cs ++ ds) ↔ Printable cs ∧ Printable ds :=
  List.forall_mem_append

theorem space_le_digitChar : ∀ n < 16, ' ' ≤ Nat.digitChar n := by
  decide

theorem printable_escapeChar (c : Char) : Printable (escapeChar c) := by
  obtain ⟨e, heq, -, he⟩ | ⟨hcontrol, heq⟩ | ⟨-, -, hcontrol, heq⟩ := escapeChar_cases c <;>
    rw [heq]
  · simpa [Printable] using he
  · have hlt : c.toNat < 0x20 := hcontrol
    have hhigh := space_le_digitChar (c.toNat / 16) (by omega)
    have hlow := space_le_digitChar (c.toNat % 16) (by omega)
    simp [Printable, hhigh, hlow]
  · simpa [Printable] using Char.not_lt.1 hcontrol

theorem printable_quote (s : String) : Printable (quote s) := by
  rw [quote, List.cons_append, printable_cons, printable_append]
  refine ⟨by decide, fun x hx => ?_, by simp [Printable]⟩
  obtain ⟨c, -, hx⟩ := List.mem_flatMap.1 hx
  exact printable_escapeChar c x hx

end Threading.Json

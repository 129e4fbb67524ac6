import Threading.Text.Numeral

/-!
# The language of decimal numerals

What the readers of numerals accept, said without them: a sign that may be left out and one
or more ASCII digits. Leading zeros are free, so a number has many spellings; the one that is
written is among them.
-/
namespace Threading.Text

variable {c : Char} {cs ds : List Char} {n : Int} {m bound : Nat}

/-- One or more ASCII digits. -/
def IsDigits (ds : List Char) : Prop := ds ≠ [] ∧ ∀ c ∈ ds, c.isDigit = true

/-- The text is a decimal numeral of this number, in which a plus sign may come first. -/
def IsNumeral (cs : List Char) (m : Nat) : Prop :=
  ∃ ds, IsDigits ds ∧ (cs = ds ∨ cs = '+' :: ds) ∧ Nat.ofDigitChars 10 ds 0 = m

/-- The text is a decimal numeral of this value. -/
inductive Spells : List Char → Int → Prop
  | plain {ds : List Char} : IsDigits ds → Spells ds (Nat.ofDigitChars 10 ds 0)
  | plus {ds : List Char} : IsDigits ds → Spells ('+' :: ds) (Nat.ofDigitChars 10 ds 0)
  | minus {ds : List Char} : IsDigits ds → Spells ('-' :: ds) (-Nat.ofDigitChars 10 ds 0)

/-! ## Digits -/

theorem isDigit_iff : c.isDigit = true ↔ '0' ≤ c ∧ c ≤ '9' := by
  simp [Char.isDigit, Char.le_def]

theorem digitValue?_of_isDigit (h : c.isDigit = true) :
    digitValue? 10 c = some (c.toNat - '0'.toNat) := by
  have hc := isDigit_iff.1 h
  have hle : c.toNat ≤ '9'.toNat := UInt32.le_iff_toNat_le.1 (Char.le_def.1 hc.2)
  have hlt : c.toNat - '0'.toNat < 10 := Nat.lt_succ_of_le (Nat.sub_le_sub_right hle _)
  simp only [digitValue?, hc, and_self, if_true, hlt]

theorem digitValue?_of_not_isDigit (h : c.isDigit = false) : digitValue? 10 c = none := by
  have hc : ¬ ('0' ≤ c ∧ c ≤ '9') := by
    rw [← isDigit_iff, h]
    exact Bool.false_ne_true
  simp only [digitValue?, if_neg hc]
  split
  · rw [if_neg (by omega)]
  · split
    · rw [if_neg (by omega)]
    · rw [if_neg (Nat.lt_irrefl 10)]

theorem digitsFrom?_eq (cs : List Char) (m : Nat) : digitsFrom? 10 m cs =
    if cs.all Char.isDigit then some (Nat.ofDigitChars 10 cs m) else none := by
  induction cs generalizing m with
  | nil => rfl
  | cons c cs ih =>
    rw [digitsFrom?, List.all_cons]
    cases hc : c.isDigit with
    | false =>
      rw [digitValue?_of_not_isDigit hc]
      rfl
    | true =>
      rw [digitValue?_of_isDigit hc]
      simp only [Option.bind_eq_bind, Option.bind_some, ih, Nat.ofDigitChars_cons, Bool.true_and,
        Nat.mul_comm m 10]

theorem digits?_eq_some_iff :
    digits? 10 ds = some m ↔ IsDigits ds ∧ Nat.ofDigitChars 10 ds 0 = m := by
  cases ds with
  | nil => simp [digits?, IsDigits]
  | cons c ds => simp [digits?, IsDigits, digitsFrom?_eq]

theorem isDigits_toDigits (m : Nat) : IsDigits (Nat.toDigits 10 m) :=
  ⟨Nat.toDigits_ne_nil, fun _ => Nat.isDigit_of_mem_toDigits (by decide) (by decide)⟩

/-! ## Signs -/

/-- Digits are no sign. -/
theorem IsDigits.head?_ne (h : IsDigits ds) (hc : c.isDigit = false) : ds.head? ≠ some c := by
  intro heq
  rw [h.2 c (List.mem_of_head? heq)] at hc
  cases hc

/-- A number below the bound is read, with or without a plus sign. -/
theorem natural?_eq_some_iff : natural? 10 bound cs = some m ↔ IsNumeral cs m ∧ m < bound := by
  have hdigits :
      digits? 10 (if cs.head? = some '+' then cs.tail else cs) = some m ↔ IsNumeral cs m := by
    rw [digits?_eq_some_iff]
    split
    next hplus =>
      obtain ⟨ds, rfl⟩ := List.head?_eq_some_iff.1 hplus
      constructor
      · rintro ⟨hds, hm⟩
        exact ⟨ds, hds, .inr rfl, hm⟩
      · rintro ⟨es, hes, rfl | heq, hm⟩
        · exact absurd rfl (hes.head?_ne (c := '+') rfl)
        · obtain rfl := List.tail_eq_of_cons_eq heq
          exact ⟨hes, hm⟩
    next hplus =>
      constructor
      · rintro ⟨hds, hm⟩
        exact ⟨cs, hds, .inl rfl, hm⟩
      · rintro ⟨es, hes, rfl | rfl, hm⟩
        · exact ⟨hes, hm⟩
        · exact absurd rfl hplus
  rw [natural?, ← hdigits]
  simp only [Option.bind_eq_bind, Option.bind_eq_some_iff, Option.ite_none_right_eq_some,
    Option.some.injEq]
  constructor
  · rintro ⟨k, hk, hlt, rfl⟩
    exact ⟨hk, hlt⟩
  · rintro ⟨hm, hlt⟩
    exact ⟨m, hm, hlt, rfl⟩

theorem IsNumeral.unique {k : Nat} (hk : IsNumeral cs k) (hm : IsNumeral cs m) : k = m := by
  have hread {j : Nat} (hj : IsNumeral cs j) (hle : j ≤ max k m) :
      natural? 10 (max k m + 1) cs = some j :=
    natural?_eq_some_iff.2 ⟨hj, Nat.lt_succ_of_le hle⟩
  have hsome := (hread hk (Nat.le_max_left k m)).symm.trans (hread hm (Nat.le_max_right k m))
  exact Option.some.inj hsome

/-- A numeral within the range is read as its value, and nothing else is read. -/
theorem integer?_eq_some_iff (hbound : 0 < bound) :
    integer? bound cs = some n ↔ Spells cs n ∧ -bound ≤ n ∧ n < bound := by
  rw [integer?]
  simp only [Option.bind_eq_bind]
  split
  next hminus =>
    obtain ⟨ds, rfl⟩ := List.head?_eq_some_iff.1 hminus
    simp only [List.tail_cons, Option.bind_eq_some_iff, digits?_eq_some_iff,
      Option.ite_none_right_eq_some, Option.some.injEq]
    constructor
    · rintro ⟨m, ⟨hds, rfl⟩, hle, rfl⟩
      exact ⟨.minus hds, by omega, by omega⟩
    · rintro ⟨hn, hge, hlt⟩
      cases hn with
      | plain hds => exact absurd rfl (hds.head?_ne (c := '-') rfl)
      | minus hds => exact ⟨_, ⟨hds, rfl⟩, by omega, rfl⟩
  next hminus =>
    simp only [Option.bind_eq_some_iff, natural?_eq_some_iff, Option.some.injEq]
    constructor
    · rintro ⟨m, ⟨⟨ds, hds, rfl | rfl, rfl⟩, hlt⟩, rfl⟩
      · exact ⟨.plain hds, by omega, by omega⟩
      · exact ⟨.plus hds, by omega, by omega⟩
    · rintro ⟨hn, hge, hlt⟩
      cases hn with
      | plain hds => exact ⟨_, ⟨⟨_, hds, .inl rfl, rfl⟩, by omega⟩, rfl⟩
      | plus hds => exact ⟨_, ⟨⟨_, hds, .inr rfl, rfl⟩, by omega⟩, rfl⟩
      | minus hds => exact absurd rfl hminus

/-- Numerals of positive numbers have no minus sign. -/
theorem integer?_eq_natCast_iff (hbound : 0 < bound) (hm : 0 < m) :
    integer? bound cs = some (m : Int) ↔ IsNumeral cs m ∧ m < bound := by
  rw [integer?_eq_some_iff hbound]
  constructor
  · rintro ⟨hspells, -, hlt⟩
    refine ⟨?_, by omega⟩
    generalize hn : (m : Int) = n at hspells
    cases hspells with
    | plain hds => exact ⟨_, hds, .inl rfl, by omega⟩
    | plus hds => exact ⟨_, hds, .inr rfl, by omega⟩
    | minus hds => omega
  · rintro ⟨⟨ds, hds, rfl | rfl, rfl⟩, hlt⟩
    · exact ⟨.plain hds, by omega, by omega⟩
    · exact ⟨.plus hds, by omega, by omega⟩

/-- A numeral consists of digits but for its sign. -/
theorem Spells.notMem (h : Spells cs n) (hc : c.isDigit = false) (hplus : c ≠ '+')
    (hminus : c ≠ '-') : c ∉ cs := by
  have hdigits {ds : List Char} (hds : IsDigits ds) : c ∉ ds := by
    intro hmem
    rw [hds.2 c hmem] at hc
    cases hc
  cases h with
  | plain hds => exact hdigits hds
  | plus hds => exact List.not_mem_cons_of_ne_of_not_mem hplus (hdigits hds)
  | minus hds => exact List.not_mem_cons_of_ne_of_not_mem hminus (hdigits hds)

/-- The digits that are written for a number spell it. -/
theorem spells_signedDecimal (n : Int) : Spells (signedDecimal n).toList n := by
  have habs := Nat.ofDigitChars_ten_toDigits (n := n.natAbs)
  rw [signedDecimal]
  split
  next hneg =>
    have hvalue := Spells.minus (isDigits_toDigits n.natAbs)
    rw [habs, show -((n.natAbs : Nat) : Int) = n by omega] at hvalue
    simpa [decimal] using hvalue
  next hpos =>
    have hvalue := Spells.plain (isDigits_toDigits n.natAbs)
    rw [habs, show ((n.natAbs : Nat) : Int) = n by omega] at hvalue
    simpa [decimal] using hvalue

end Threading.Text

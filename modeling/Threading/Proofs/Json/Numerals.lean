import Mathlib.Data.List.Basic
import Threading.Json.Token
import Threading.Json.Writer
import Threading.Proofs.Json.Quoted

/-!
# Integers

The decimal digits of an integer are read back as this integer, if 64 bits hold it
and nothing follows that would go on with the numeral. There are no leading zeros
to refuse, and a negative integer is never the negative zero.
-/
namespace Threading.Json

variable {c : Char} {ds rest : List Char}

/-- No numeral goes on in the text. -/
def EndsNumeral (rest : List Char) : Prop :=
  ∀ c ∈ rest.head?, isDigit c = false ∧ c ≠ '.' ∧ c ≠ 'e' ∧ c ≠ 'E'

/-! ## Digits -/

theorem isDigit_of_mem_toDigits {n : Nat} (h : c ∈ Nat.toDigits 10 n) : isDigit c = true :=
  Nat.isDigit_of_mem_toDigits (by decide) (by decide) h

theorem digitsValue_toDigits (n : Nat) : digitsValue (Nat.toDigits 10 n) = n := by
  have hstep : (fun n c => n * 10 + digitValue c) = fun n c => 10 * n + (c.toNat - '0'.toNat) := by
    funext n c
    rw [digitValue, Nat.mul_comm]
  rw [digitsValue, hstep, ← Nat.ofDigitChars_eq_foldl, Nat.ofDigitChars_ten_toDigits]

/-- A positive number has no leading zero. -/
theorem head?_toDigits_ne_zero {n : Nat} (hn : 0 < n) : (Nat.toDigits 10 n).head? ≠ some '0' := by
  induction n using Nat.strongRecOn with
  | _ n ih =>
    rw [Nat.toDigits_eq_if (by decide)]
    split
    next hlt =>
      have hall : ∀ d < 10, 0 < d → Nat.digitChar d ≠ '0' := by decide
      simpa using hall n hlt hn
    next hge =>
      rw [List.head?_append_of_ne_nil _ Nat.toDigits_ne_nil]
      exact ih (n / 10) (by omega) (by omega)

theorem takeDigits?_append (hne : ds ≠ []) (hds : ∀ c ∈ ds, isDigit c = true)
    (hrest : ∀ c ∈ rest.head?, isDigit c = false) :
    takeDigits? (ds ++ rest) = some (ds, rest) := by
  have hstop : rest.takeWhile isDigit = [] ∧ rest.dropWhile isDigit = rest := by
    cases rest with
    | nil => exact ⟨rfl, rfl⟩
    | cons c rest => simp [hrest c rfl]
  rw [takeDigits?, List.takeWhile_append_of_pos hds, List.dropWhile_append_of_pos hds, hstop.1,
    hstop.2]
  simp [hne]

theorem takeWhole?_toDigits (n : Nat) (hrest : EndsNumeral rest) :
    takeWhole? (Nat.toDigits 10 n ++ rest) = some (Nat.toDigits 10 n, rest) := by
  obtain rfl | hn := Nat.eq_zero_or_pos n
  · rfl
  · have hhead : ∀ cs, Nat.toDigits 10 n ++ rest ≠ '0' :: cs := by
      intro cs heq
      have h := congrArg List.head? heq
      rw [List.head?_append_of_ne_nil _ Nat.toDigits_ne_nil] at h
      exact head?_toDigits_ne_zero hn h
    rw [takeWhole?]
    · exact takeDigits?_append Nat.toDigits_ne_nil (fun c => isDigit_of_mem_toDigits)
        fun c hc => (hrest c hc).1
    · exact hhead

/-! ## Numerals -/

theorem takeFraction?_of_ends (h : EndsNumeral rest) : takeFraction? rest = some (none, rest) := by
  rw [takeFraction?]
  rintro rest' rfl
  exact (h '.' rfl).2.1 rfl

theorem takeExponent?_of_ends (h : EndsNumeral rest) : takeExponent? rest = some (none, rest) := by
  cases rest with
  | nil => rfl
  | cons c rest =>
    obtain ⟨-, -, he, hE⟩ := h c rfl
    simp [takeExponent?.eq_def, he, hE]

theorem head?_toDigits_ne_minus (n : Nat) : (Nat.toDigits 10 n).head? ≠ some '-' := by
  intro h
  exact absurd (isDigit_of_mem_toDigits (List.mem_of_head? h)) (by decide)

theorem toList_signedDecimal (n : Int) : (Text.signedDecimal n).toList =
    if n < 0 then '-' :: Nat.toDigits 10 n.natAbs else Nat.toDigits 10 n.natAbs := by
  rw [Text.signedDecimal]
  split <;> simp [Text.decimal]

theorem takeNumeral?_signedDecimal (n : Int) (hrest : EndsNumeral rest) :
    takeNumeral? ((Text.signedDecimal n).toList ++ rest) =
      some (⟨n < 0, Nat.toDigits 10 n.natAbs, none, none⟩, rest) := by
  have hwhole := takeWhole?_toDigits n.natAbs hrest
  have hfraction := takeFraction?_of_ends hrest
  have hexponent := takeExponent?_of_ends hrest
  rw [toList_signedDecimal]
  split
  next hneg =>
    simp [takeNumeral?, hwhole, hfraction, hexponent, hneg]
  next hnonneg =>
    simp [takeNumeral?, head?_toDigits_ne_minus, hwhole, hfraction, hexponent, hnonneg]

theorem value?_decimal {n : Int} (h : IntegerInRange n) :
    (Numeral.mk (n < 0) (Nat.toDigits 10 n.natAbs) none none).value? = some (.int n) := by
  obtain ⟨hlow, hhigh⟩ := h
  have hsize : (UInt64.size : Int) = 0x1_0000_0000_0000_0000 := rfl
  have hsize' : UInt64.size = 0x1_0000_0000_0000_0000 := rfl
  obtain hneg | hnonneg := Int.lt_or_le n 0
  · have hm : 0 < n.natAbs ∧ n.natAbs ≤ 0x8000_0000_0000_0000 := by omega
    have heq : -(n.natAbs : Int) = n := by omega
    simp only [Numeral.value?, digitsValue_toDigits, Option.isNone_none, hneg, decide_true,
      not_true_eq_false, false_and, and_false, if_false, hm, and_self, if_true, heq]
  · have hm : n.natAbs < UInt64.size := by omega
    have heq : (n.natAbs : Int) = n := by omega
    simp only [Numeral.value?, digitsValue_toDigits, Option.isNone_none, Int.not_lt.2 hnonneg,
      decide_false, Bool.false_eq_true, not_false_eq_true, hm, and_self, if_true, heq]

/-! ## Tokens -/

theorem takeToken?_of_numeral (hc : c = '-' ∨ isDigit c = true) :
    takeToken? c rest = (takeNumeral? (c :: rest)).bind fun p =>
      p.1.value?.map fun v => (.scalar v, p.2) := by
  have hne : ∀ x, x ≠ '-' ∧ isDigit x = false → c ≠ x := by
    rintro x ⟨hminus, hdigit⟩ rfl
    simp [hminus, hdigit] at hc
  rw [takeToken?, if_neg (hne _ (by decide)), if_neg (hne _ (by decide)),
    if_neg (hne _ (by decide)), if_neg (hne _ (by decide)), if_neg (hne _ (by decide)),
    if_neg (hne _ (by decide)), if_neg (hne _ (by decide))]
  · simp only [Option.bind_eq_bind, Option.map_eq_bind, Function.comp_def]
  · exact fun _ hn => absurd hn (hne _ (by decide))
  · exact fun _ ht => absurd ht (hne _ (by decide))
  · exact fun _ hf => absurd hf (hne _ (by decide))

/-- An integer that 64 bits hold is one token. -/
theorem takeToken?_signedDecimal {n : Int} (h : IntegerInRange n) (hrest : EndsNumeral rest) :
    ∃ c cs, (Text.signedDecimal n).toList = c :: cs ∧ isSpace c = false ∧
      takeToken? c (cs ++ rest) = some (.scalar (.int n), rest) := by
  obtain ⟨c, cs, hcs, hc⟩ : ∃ c cs, (Text.signedDecimal n).toList = c :: cs ∧
      (c = '-' ∨ isDigit c = true) := by
    rw [toList_signedDecimal]
    split
    · exact ⟨_, _, rfl, .inl rfl⟩
    · obtain ⟨c, cs, heq⟩ := List.exists_cons_of_ne_nil (Nat.toDigits_ne_nil (b := 10) (n := n.natAbs))
      exact ⟨c, cs, heq, .inr (isDigit_of_mem_toDigits (heq ▸ List.mem_cons_self))⟩
  refine ⟨c, cs, hcs, ?_, ?_⟩
  · rw [isSpace]
    obtain rfl | hdigit := hc
    · decide
    · simp only [Bool.or_eq_false_iff, decide_eq_false_iff_not]
      refine ⟨⟨⟨?_, ?_⟩, ?_⟩, ?_⟩ <;> rintro rfl <;> exact absurd hdigit (by decide)
  · rw [takeToken?_of_numeral hc, ← List.cons_append, ← hcs, takeNumeral?_signedDecimal n hrest,
      Option.bind_some, value?_decimal h, Option.map_some]

theorem printable_signedDecimal (n : Int) : Printable (Text.signedDecimal n).toList := by
  have hdigits : Printable (Nat.toDigits 10 n.natAbs) := by
    intro c hc
    have hdigit := isDigit_of_mem_toDigits hc
    rw [isDigit, Bool.and_eq_true, decide_eq_true_eq] at hdigit
    exact Char.le_trans (by decide) hdigit.1
  rw [toList_signedDecimal]
  split
  · exact printable_cons.2 ⟨by decide, hdigits⟩
  · exact hdigits

end Threading.Json

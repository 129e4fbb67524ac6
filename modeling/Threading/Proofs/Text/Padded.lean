import Mathlib.Algebra.Group.Nat.Defs
import Threading.Proofs.Text.Numerals

/-!
# Numerals of a fixed width

Padding a number with zeros does not change what it denotes. Numbers that fit a width all have
that many digits, and then the texts have the order of the numbers.
-/
namespace Threading.Text

variable {m n w : Nat} {a b : List Char}

theorem toList_paddedDecimal (w n : Nat) : (paddedDecimal w n).toList =
    List.replicate (w - (Nat.toDigits 10 n).length) '0' ++ Nat.toDigits 10 n := by
  rw [paddedDecimal, String.toList_ofList]

theorem isDigits_paddedDecimal (w n : Nat) : IsDigits (paddedDecimal w n).toList := by
  rw [toList_paddedDecimal]
  have hdigits := isDigits_toDigits n
  constructor
  · intro hnil
    exact hdigits.1 (List.append_eq_nil_iff.1 hnil).2
  · intro c hc
    rcases List.mem_append.1 hc with hzero | hdigit
    · rw [List.eq_of_mem_replicate hzero]
      rfl
    · exact hdigits.2 c hdigit

theorem notMem_paddedDecimal {c : Char} (hc : c.isDigit = false) (w n : Nat) :
    c ∉ (paddedDecimal w n).toList := by
  intro hmem
  rw [(isDigits_paddedDecimal w n).2 c hmem] at hc
  cases hc

theorem ofDigitChars_paddedDecimal (w n : Nat) :
    Nat.ofDigitChars 10 (paddedDecimal w n).toList 0 = n := by
  rw [toList_paddedDecimal, Nat.ofDigitChars_append, Nat.ofDigitChars_replicate_zero, Nat.mul_zero,
    Nat.ofDigitChars_ten_toDigits]

/-- A padded number is read as itself. -/
theorem digits?_paddedDecimal (w n : Nat) : digits? 10 (paddedDecimal w n).toList = some n :=
  digits?_eq_some_iff.2 ⟨isDigits_paddedDecimal w n, ofDigitChars_paddedDecimal w n⟩

theorem length_paddedDecimal (hw : 0 < w) (hn : n < 10 ^ w) :
    (paddedDecimal w n).toList.length = w := by
  have hle := (Nat.length_toDigits_le_iff (by decide) hw).2 hn
  rw [toList_paddedDecimal, List.length_append, List.length_replicate]
  omega

/-! ## Order -/

/-- Texts that begin with parts of one length are compared by these parts first. -/
theorem append_lt_append_iff {x y : List Char} (h : a.length = b.length) :
    a ++ x < b ++ y ↔ a < b ∨ a = b ∧ x < y := by
  induction a generalizing b with
  | nil =>
    obtain rfl := List.length_eq_zero_iff.1 h.symm
    simp
  | cons c a ih =>
    obtain ⟨d, b, rfl⟩ := List.exists_cons_of_length_eq_add_one h.symm
    rw [List.cons_append, List.cons_append, List.cons_lt_cons_iff, List.cons_lt_cons_iff,
      ih (Nat.succ.inj h), List.cons.injEq]
    constructor
    · rintro (hlt | ⟨hcd, hlt | ⟨hab, hlt⟩⟩)
      · exact .inl (.inl hlt)
      · exact .inl (.inr ⟨hcd, hlt⟩)
      · exact .inr ⟨⟨hcd, hab⟩, hlt⟩
    · rintro ((hlt | ⟨hcd, hlt⟩) | ⟨⟨hcd, hab⟩, hlt⟩)
      · exact .inl hlt
      · exact .inr ⟨hcd, .inl hlt⟩
      · exact .inr ⟨hcd, .inr ⟨hab, hlt⟩⟩

theorem digit_bounds {c : Char} (h : c.isDigit = true) : 48 ≤ c.toNat ∧ c.toNat ≤ 57 := by
  obtain ⟨hlow, hhigh⟩ := isDigit_iff.1 h
  exact ⟨UInt32.le_iff_toNat_le.1 (Char.le_def.1 hlow),
    UInt32.le_iff_toNat_le.1 (Char.le_def.1 hhigh)⟩

theorem ofDigitChars_cons_eq (c : Char) (ds : List Char) : Nat.ofDigitChars 10 (c :: ds) 0 =
    10 ^ ds.length * (c.toNat - 48) + Nat.ofDigitChars 10 ds 0 := by
  rw [Nat.ofDigitChars_cons, Nat.ofDigitChars_eq_ofDigitChars_zero, Nat.mul_zero, Nat.zero_add]
  rfl

theorem ofDigitChars_lt (h : ∀ c ∈ a, c.isDigit = true) :
    Nat.ofDigitChars 10 a 0 < 10 ^ a.length := by
  induction a with
  | nil => simp
  | cons c a ih =>
    have hrest := ih fun d hd => h d (List.mem_cons_of_mem c hd)
    have hc := digit_bounds (h c List.mem_cons_self)
    calc
      Nat.ofDigitChars 10 (c :: a) 0
          = 10 ^ a.length * (c.toNat - 48) + Nat.ofDigitChars 10 a 0 := ofDigitChars_cons_eq c a
      _ < 10 ^ a.length * (c.toNat - 48) + 10 ^ a.length := Nat.add_lt_add_left hrest _
      _ = 10 ^ a.length * (c.toNat - 48 + 1) := (Nat.mul_succ _ _).symm
      _ ≤ 10 ^ a.length * 10 := Nat.mul_le_mul_left _ (by omega)
      _ = 10 ^ (c :: a).length := (Nat.pow_succ ..).symm

/-- The first place decides, and then the rest. -/
theorem place_lt_place_iff {p x y r s : Nat} (hr : r < p) (hs : s < p) :
    p * x + r < p * y + s ↔ x < y ∨ x = y ∧ r < s := by
  have hplace {x y r s : Nat} (hr : r < p) (hxy : x < y) : p * x + r < p * y + s := by
    have hle : p * x + p ≤ p * y := Nat.mul_succ p x ▸ Nat.mul_le_mul_left p hxy
    omega
  rcases Nat.lt_trichotomy x y with hxy | rfl | hyx
  · exact iff_of_true (hplace hr hxy) (.inl hxy)
  · simp
  · refine iff_of_false (Nat.lt_asymm (hplace hs hyx)) ?_
    omega

/-- Digits of one length have the order of the numbers that they denote. -/
theorem digits_lt_iff (ha : ∀ c ∈ a, c.isDigit = true) (hb : ∀ c ∈ b, c.isDigit = true)
    (h : a.length = b.length) :
    a < b ↔ Nat.ofDigitChars 10 a 0 < Nat.ofDigitChars 10 b 0 := by
  induction a generalizing b with
  | nil =>
    obtain rfl := List.length_eq_zero_iff.1 h.symm
    simp
  | cons c a ih =>
    obtain ⟨d, b, rfl⟩ := List.exists_cons_of_length_eq_add_one h.symm
    have ha' : ∀ c ∈ a, c.isDigit = true := fun e he => ha e (List.mem_cons_of_mem c he)
    have hb' : ∀ c ∈ b, c.isDigit = true := fun e he => hb e (List.mem_cons_of_mem d he)
    have hc := digit_bounds (ha c List.mem_cons_self)
    have hd := digit_bounds (hb d List.mem_cons_self)
    have hlen : a.length = b.length := Nat.succ.inj h
    have hchar : c < d ↔ c.toNat - 48 < d.toNat - 48 := by
      rw [show c < d ↔ c.toNat < d.toNat from UInt32.lt_iff_toNat_lt]
      omega
    have heq : c = d ↔ c.toNat - 48 = d.toNat - 48 := by
      rw [← Char.toNat_inj]
      omega
    rw [List.cons_lt_cons_iff, ih ha' hb' hlen, ofDigitChars_cons_eq, ofDigitChars_cons_eq, ← hlen,
      place_lt_place_iff (ofDigitChars_lt ha') (hlen ▸ ofDigitChars_lt hb'), hchar, heq]

theorem paddedDecimal_lt_iff (hw : 0 < w) (hm : m < 10 ^ w) (hn : n < 10 ^ w) :
    (paddedDecimal w m).toList < (paddedDecimal w n).toList ↔ m < n := by
  rw [digits_lt_iff (isDigits_paddedDecimal w m).2 (isDigits_paddedDecimal w n).2
    ((length_paddedDecimal hw hm).trans (length_paddedDecimal hw hn).symm),
    ofDigitChars_paddedDecimal, ofDigitChars_paddedDecimal]

theorem paddedDecimal_inj : (paddedDecimal w m).toList = (paddedDecimal w n).toList ↔ m = n := by
  constructor
  · intro h
    rw [← ofDigitChars_paddedDecimal w m, h, ofDigitChars_paddedDecimal]
  · intro h
    rw [h]

end Threading.Text

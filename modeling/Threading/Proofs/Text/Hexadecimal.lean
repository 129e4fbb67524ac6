import Threading.Text.Numeral

/-!
# Hexadecimal numerals

The digits that are written for a number are read back as this number, with any zeros before them.
-/
namespace Threading.Text

variable {c : Char} {n base width bound : Nat}

theorem digitValue?_digitChar : ∀ d < 16, digitValue? 16 (Nat.digitChar d) = some d := by
  decide

/-- Digits are read from the left: the number that the first ones denote goes on. -/
theorem digitsFrom?_append (cs ds : List Char) (n : Nat) :
    digitsFrom? base n (cs ++ ds) = (digitsFrom? base n cs).bind (digitsFrom? base · ds) := by
  induction cs generalizing n with
  | nil => rfl
  | cons c cs ih =>
    rw [List.cons_append, digitsFrom?, digitsFrom?]
    cases digitValue? base c with
    | none => rfl
    | some d => exact ih _

theorem digitsFrom?_toDigits (n : Nat) : digitsFrom? 16 0 (Nat.toDigits 16 n) = some n := by
  induction n using Nat.strongRecOn with
  | ind n ih =>
    by_cases hn : n < 16
    · rw [Nat.toDigits_of_lt_base hn, digitsFrom?, digitValue?_digitChar n hn]
      simp [digitsFrom?]
    · have hlast := digitValue?_digitChar (n % 16) (Nat.mod_lt n (by decide))
      rw [Nat.toDigits_of_base_le (by decide) (Nat.le_of_not_lt hn), digitsFrom?_append,
        ih (n / 16) (by omega), Option.bind_some, digitsFrom?, hlast]
      exact congrArg some (by omega)

theorem mem_toDigits (h : c ∈ Nat.toDigits 16 n) : ∃ d < 16, c = Nat.digitChar d := by
  induction n using Nat.strongRecOn with
  | ind n ih =>
    by_cases hn : n < 16
    · rw [Nat.toDigits_of_lt_base hn, List.mem_singleton] at h
      exact ⟨n, hn, h⟩
    · rw [Nat.toDigits_of_base_le (by decide) (Nat.le_of_not_lt hn), List.mem_append,
        List.mem_singleton] at h
      obtain h | h := h
      · exact ih (n / 16) (by omega) h
      · exact ⟨n % 16, Nat.mod_lt n (by decide), h⟩

/-! ## Zeros in front -/

/-- Lower-case hexadecimal digits with zeros put in front up to `width` digits. -/
def paddedHexadecimal (width n : Nat) : String :=
  let digits := Nat.toDigits 16 n
  String.ofList (List.replicate (width - digits.length) '0' ++ digits)

theorem toList_paddedHexadecimal (width n : Nat) : (paddedHexadecimal width n).toList =
    List.replicate (width - (Nat.toDigits 16 n).length) '0' ++ Nat.toDigits 16 n := by
  rw [paddedHexadecimal, String.toList_ofList]

theorem paddedHexadecimal_ne_nil (width n : Nat) : (paddedHexadecimal width n).toList ≠ [] := by
  rw [toList_paddedHexadecimal]
  exact List.append_ne_nil_of_right_ne_nil _ Nat.toDigits_ne_nil

theorem mem_paddedHexadecimal (h : c ∈ (paddedHexadecimal width n).toList) :
    ∃ d < 16, c = Nat.digitChar d := by
  rw [toList_paddedHexadecimal, List.mem_append] at h
  obtain hzero | hdigit := h
  · exact ⟨0, by decide, List.eq_of_mem_replicate hzero⟩
  · exact mem_toDigits hdigit

theorem notMem_paddedHexadecimal (h : ∀ d < 16, c ≠ Nat.digitChar d) (width n : Nat) :
    c ∉ (paddedHexadecimal width n).toList := by
  intro hmem
  obtain ⟨d, hd, heq⟩ := mem_paddedHexadecimal hmem
  exact h d hd heq

theorem digits?_paddedHexadecimal (width n : Nat) :
    digits? 16 (paddedHexadecimal width n).toList = some n := by
  have hzeros (k : Nat) : digitsFrom? 16 0 (List.replicate k '0') = some 0 := by
    induction k with
    | zero => rfl
    | succ k ih => exact ih
  rw [digits?.eq_2 _ _ (paddedHexadecimal_ne_nil width n), toList_paddedHexadecimal,
    digitsFrom?_append, hzeros, Option.bind_some, digitsFrom?_toDigits]

/-- A number below the bound is read as itself. -/
theorem natural?_paddedHexadecimal (width : Nat) (h : n < bound) :
    natural? 16 bound (paddedHexadecimal width n).toList = some n := by
  have hsign : (paddedHexadecimal width n).toList.head? ≠ some '+' := by
    intro hplus
    exact notMem_paddedHexadecimal (by decide) width n (List.mem_of_head? hplus)
  rw [natural?, if_neg hsign, digits?_paddedHexadecimal]
  exact if_pos h

end Threading.Text

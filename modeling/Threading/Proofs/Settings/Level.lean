import Mathlib.Algebra.Group.Nat.Defs
import Threading.Proofs.Text.Blank
import Threading.Proofs.Text.Numerals
import Threading.Settings

/-!
# The language of levels

A level is set by a numeral of a positive number with 63 bits, in any spelling and with any blanks
around it. Every other text disables the observer, be it no numeral, zero, negative or too large.
-/
namespace Threading

variable {text : String} {n : Nat}

theorem stripped_settingWord (text : String) : Text.Stripped text.toList (settingWord text) :=
  Text.stripped_trimBlank text.toList

namespace LockDebugLevel

/-- Without the blanks around it, the text is a numeral of this number. -/
def Denotes (text : String) (n : Nat) : Prop :=
  ∃ word, Text.Stripped text.toList word ∧ Text.IsNumeral word n

theorem denotes_iff : Denotes text n ↔ Text.IsNumeral (settingWord text) n := by
  constructor
  · rintro ⟨word, hword, hn⟩
    rwa [settingWord, hword.trimBlank_eq]
  · intro hn
    exact ⟨_, stripped_settingWord text, hn⟩

theorem Denotes.unique {m : Nat} (hm : Denotes text m) (hn : Denotes text n) : m = n :=
  (denotes_iff.1 hm).unique (denotes_iff.1 hn)

/-- A text denotes a positive number in range, which decides, or the observer is disabled. -/
theorem ofText_cases (text : String) :
    (∃ n, Denotes text n ∧ 1 ≤ n ∧ n ≤ 2 ^ 63 - 1 ∧
      ofText text = if n = 1 then .enabled else .captureCallStacks) ∨
    (¬ ∃ n, Denotes text n ∧ 1 ≤ n ∧ n ≤ 2 ^ 63 - 1) ∧ ofText text = .disabled := by
  have hread (n : Nat) (hpos : 1 ≤ n) :
      Text.integer? 0x8000_0000_0000_0000 (settingWord text) = some (n : Int) ↔
        Denotes text n ∧ n ≤ 2 ^ 63 - 1 := by
    rw [Text.integer?_eq_natCast_iff (by decide) hpos, denotes_iff]
    exact and_congr_right fun _ => by omega
  rw [ofText]
  split
  next hnone =>
    refine .inr ⟨?_, rfl⟩
    rintro ⟨n, hn, hpos, hle⟩
    rw [(hread n hpos).2 ⟨hn, hle⟩] at hnone
    cases hnone
  next k hsome =>
    split
    next hk =>
      refine .inr ⟨?_, rfl⟩
      rintro ⟨n, hn, hpos, hle⟩
      rw [(hread n hpos).2 ⟨hn, hle⟩, Option.some.injEq] at hsome
      omega
    next hk =>
      obtain ⟨n, rfl⟩ := Int.eq_ofNat_of_zero_le (show 0 ≤ k by omega)
      have hpos : 1 ≤ n := by omega
      obtain ⟨hn, hle⟩ := (hread n hpos).1 hsome
      have hone : (n : Int) = 1 ↔ n = 1 := by omega
      exact .inl ⟨n, hn, hpos, hle, by simp only [hone]⟩

/-- The numeral of 1 enables the observer, that of any larger number below 2 ^ 63 makes it capture
call stacks as well, and everything else disables it. -/
theorem ofText_by_numeral (text : String) :
    (ofText text = .captureCallStacks ↔ ∃ n, Denotes text n ∧ 2 ≤ n ∧ n ≤ 2 ^ 63 - 1) ∧
      (ofText text = .enabled ↔ Denotes text 1) ∧
      (ofText text = .disabled ↔ ¬ ∃ n, Denotes text n ∧ 1 ≤ n ∧ n ≤ 2 ^ 63 - 1) := by
  obtain ⟨n, hn, hpos, hle, heq⟩ | ⟨hnone, heq⟩ := ofText_cases text
  · have hsome : ∃ n, Denotes text n ∧ 1 ≤ n ∧ n ≤ 2 ^ 63 - 1 := ⟨n, hn, hpos, hle⟩
    by_cases hone : n = 1
    · rw [if_pos hone] at heq
      rw [heq]
      refine ⟨iff_of_false nofun ?_, iff_of_true rfl (hone ▸ hn), iff_of_false nofun ?_⟩
      · rintro ⟨m, hm, hlarge, -⟩
        have hmn := hm.unique hn
        omega
      · exact fun hnone => hnone hsome
    · rw [if_neg hone] at heq
      rw [heq]
      refine ⟨iff_of_true rfl ⟨n, hn, by omega, hle⟩, iff_of_false nofun ?_, iff_of_false nofun ?_⟩
      · exact fun h1 => hone (hn.unique h1)
      · exact fun hnone => hnone hsome
  · rw [heq]
    refine ⟨iff_of_false nofun ?_, iff_of_false nofun ?_, iff_of_true rfl hnone⟩
    · rintro ⟨n, hn, hlarge, hle⟩
      exact hnone ⟨n, hn, by omega, hle⟩
    · exact fun h1 => hnone ⟨1, h1, by decide, by decide⟩

end LockDebugLevel
end Threading

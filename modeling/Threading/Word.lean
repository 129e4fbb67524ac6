/-!
# Machine words

Addresses and sizes are 64-bit words. Sums and differences are checked: an
operation that would leave the range of a word has no result. Alignment is to a
power of two in every use, and rounding down never leaves the range.
-/
namespace Threading

/-- The size of a page in bytes. -/
def pageSize : UInt64 := 4096

namespace Word

/-- The sum, when it is still a word. -/
def add? (a b : UInt64) : Option UInt64 :=
  if a.toNat + b.toNat < UInt64.size then some (a + b) else none

/-- The difference, when it is not negative. -/
def sub? (a b : UInt64) : Option UInt64 :=
  if b ≤ a then some (a - b) else none

/-- The product, when it is still a word. -/
def mul? (a b : UInt64) : Option UInt64 :=
  if a.toNat * b.toNat < UInt64.size then some (a * b) else none

/-- The largest multiple of `alignment` that is at most `a`. -/
def alignDown (a alignment : UInt64) : UInt64 :=
  a - a % alignment

/-- The smallest page multiple that is at least `n`, unless computing it leaves
the range of a word; this is the case for all `n` above `2 ^ 64 - 4096`. -/
def pageRoundUp? (n : UInt64) : Option UInt64 :=
  (add? n (pageSize - 1)).map (alignDown · pageSize)

theorem add?_eq_some_iff {a b c : UInt64} :
    add? a b = some c ↔ a.toNat + b.toNat < UInt64.size ∧ c.toNat = a.toNat + b.toNat := by
  unfold add?
  split
  next h =>
    have hsum : (a + b).toNat = a.toNat + b.toNat :=
      (UInt64.toNat_add a b).trans (Nat.mod_eq_of_lt h)
    simp only [Option.some.injEq, h, true_and, ← UInt64.toNat_inj, hsum]
    exact eq_comm
  next h =>
    simp only [reduceCtorEq, false_iff, not_and]
    exact fun hlt => absurd hlt h

theorem sub?_eq_some_iff {a b c : UInt64} :
    sub? a b = some c ↔ b.toNat ≤ a.toNat ∧ c.toNat = a.toNat - b.toNat := by
  unfold sub?
  split
  next h =>
    have h' : b.toNat ≤ a.toNat := UInt64.le_iff_toNat_le.1 h
    simp only [Option.some.injEq, h', true_and, ← UInt64.toNat_inj,
      UInt64.toNat_sub_of_le _ _ h]
    exact eq_comm
  next h =>
    have h' : ¬ b.toNat ≤ a.toNat := fun hle => h (UInt64.le_iff_toNat_le.2 hle)
    simp [h']

theorem mul?_eq_some_iff {a b c : UInt64} :
    mul? a b = some c ↔ a.toNat * b.toNat < UInt64.size ∧ c.toNat = a.toNat * b.toNat := by
  unfold mul?
  split
  next h =>
    have hproduct : (a * b).toNat = a.toNat * b.toNat :=
      (UInt64.toNat_mul a b).trans (Nat.mod_eq_of_lt h)
    simp only [Option.some.injEq, h, true_and, ← UInt64.toNat_inj, hproduct]
    exact eq_comm
  next h =>
    simp only [reduceCtorEq, false_iff, not_and]
    exact fun hlt => absurd hlt h

theorem toNat_alignDown (a alignment : UInt64) :
    (alignDown a alignment).toNat = a.toNat - a.toNat % alignment.toNat := by
  have h : a % alignment ≤ a :=
    UInt64.le_iff_toNat_le.2 (by simpa using Nat.mod_le a.toNat alignment.toNat)
  simp [alignDown, UInt64.toNat_sub_of_le _ _ h]

end Word
end Threading

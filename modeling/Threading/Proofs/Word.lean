import Threading.Word

/-!
# Arithmetic on words

Sums, differences and roundings of words are those of the numbers, as long as these are in the
range of a word.
-/
namespace Threading.Word

variable {n r : UInt64}

theorem exists_add? {a b : UInt64} (h : a.toNat + b.toNat < UInt64.size) :
    ∃ c, add? a b = some c ∧ c.toNat = a.toNat + b.toNat := by
  have hsome : add? a b = some (a + b) := if_pos h
  exact ⟨_, hsome, (add?_eq_some_iff.1 hsome).2⟩

theorem exists_sub? {a b : UInt64} (h : b.toNat ≤ a.toNat) :
    ∃ c, sub? a b = some c ∧ c.toNat = a.toNat - b.toNat := by
  have hsome : sub? a b = some (a - b) := if_pos (UInt64.le_iff_toNat_le.2 h)
  exact ⟨_, hsome, (sub?_eq_some_iff.1 hsome).2⟩

theorem toNat_max (a b : UInt64) : (max a b).toNat = max a.toNat b.toNat := by
  change (if a ≤ b then b else a).toNat = _
  simp only [UInt64.le_iff_toNat_le]
  split <;> omega

theorem dvd_alignDown (a alignment : UInt64) :
    alignment.toNat ∣ (alignDown a alignment).toNat := by
  rw [toNat_alignDown]
  exact Nat.dvd_sub_mod _

theorem alignDown_le (a alignment : UInt64) : (alignDown a alignment).toNat ≤ a.toNat := by
  rw [toNat_alignDown]
  exact Nat.sub_le _ _

/-- No multiple of the alignment lies between an address and what it is rounded down to. -/
theorem le_alignDown {a alignment : UInt64} {n : Nat} (hdvd : alignment.toNat ∣ n)
    (hle : n ≤ a.toNat) : n ≤ (alignDown a alignment).toNat := by
  obtain ⟨k, rfl⟩ := hdvd
  have hdiv := Nat.div_add_mod a.toNat alignment.toNat
  rw [toNat_alignDown, ← Nat.eq_sub_of_add_eq hdiv]
  rcases Nat.eq_zero_or_pos alignment.toNat with hzero | hpos
  · rw [hzero, Nat.zero_mul]
    exact Nat.zero_le _
  · refine Nat.mul_le_mul_left _ ((Nat.le_div_iff_mul_le hpos).2 ?_)
    rwa [Nat.mul_comm]

/-! ## Pages -/

theorem mod_pageSize_eq_zero_iff : n % pageSize = 0 ↔ 4096 ∣ n.toNat := by
  rw [← UInt64.toNat_inj, UInt64.toNat_mod, Nat.dvd_iff_mod_eq_zero]
  rfl

/-- The result is the next multiple of a page. -/
theorem pageRoundUp?_spec (h : pageRoundUp? n = some r) :
    n.toNat ≤ r.toNat ∧ r.toNat < n.toNat + 4096 ∧ 4096 ∣ r.toNat := by
  obtain ⟨sum, hsum, rfl⟩ := Option.map_eq_some_iff.1 h
  obtain ⟨-, hsum⟩ := add?_eq_some_iff.1 hsum
  have hpage : pageSize.toNat = 4096 := rfl
  have hless : (pageSize - 1).toNat = 4095 := rfl
  rw [toNat_alignDown, hsum, hpage, hless]
  omega

/-- The word is the next multiple of a page. -/
def NextPage (n : Nat) (r : UInt64) : Prop := n ≤ r.toNat ∧ r.toNat < n + 4096 ∧ 4096 ∣ r.toNat

/-- There is a next multiple of a page but for the numbers above the last one. -/
theorem exists_nextPage_iff {n : Nat} : (∃ r, NextPage n r) ↔ n ≤ UInt64.size - 4096 := by
  have hsize : UInt64.size = 4096 * 4503599627370496 := rfl
  constructor
  · rintro ⟨r, hle, -, hpage⟩
    have hword : r.toNat < UInt64.size := r.toNat_lt
    omega
  · intro h
    have hr : (UInt64.ofNat ((n + 4095) / 4096 * 4096)).toNat = (n + 4095) / 4096 * 4096 :=
      UInt64.toNat_ofNat_of_lt' (by omega)
    refine ⟨UInt64.ofNat ((n + 4095) / 4096 * 4096), ?_⟩
    simp only [NextPage, hr]
    omega

theorem pageRoundUp?_eq_some_iff : pageRoundUp? n = some r ↔ NextPage n.toNat r := by
  refine ⟨pageRoundUp?_spec, fun h => ?_⟩
  have hless : (pageSize - 1).toNat = 4095 := rfl
  have hsize : UInt64.size = 4096 * 4503599627370496 := rfl
  have hroom := exists_nextPage_iff.1 ⟨r, h⟩
  obtain ⟨hle, hlt, hpage⟩ := h
  obtain ⟨sum, hadd, hsum⟩ := exists_add? (a := n) (b := pageSize - 1) (by rw [hless]; omega)
  have hpages : pageSize.toNat = 4096 := rfl
  refine Option.map_eq_some_iff.2 ⟨sum, hadd, UInt64.toNat_inj.1 ?_⟩
  rw [toNat_alignDown, hsum, hless, hpages]
  omega

/-- Rounding up leaves the range of a word for the last 4095 words. -/
theorem isNone_pageRoundUp?_iff (n : UInt64) :
    (pageRoundUp? n).isNone = true ↔ UInt64.size - 1 - 4095 < n.toNat := by
  have hless : (pageSize - 1).toNat = 4095 := rfl
  have hsize : UInt64.size = 18446744073709551616 := rfl
  rw [pageRoundUp?, Option.isNone_map, add?, hless]
  split <;> simp only [Option.isNone_some, Option.isNone_none, Bool.false_eq_true, false_iff,
    true_iff] <;> omega

end Threading.Word

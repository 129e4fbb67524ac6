import Threading.Proofs.Word
import Threading.Region

/-!
# Placement in a region

The two blocks of a thread lie in the memory they were placed in, above the stack and
aligned, so threads whose memory is not shared have blocks at different addresses.
-/
namespace Threading

variable {base size controlBytes tlsBytes : UInt64} {owned : Bool} {l : Layout} {r : Region}

theorem Layout.fits_of_computeFor? (h : computeFor? base size owned controlBytes tlsBytes = some l) :
    Fits base size owned controlBytes tlsBytes l.control.toNat l.tls.toNat := by
  simp only [computeFor?, Option.bind_eq_bind, Option.bind_eq_some_iff, Option.ite_none_left_eq_some,
    Option.some.injEq] at h
  obtain ⟨top, htop, control, hcontrol, tls, htls, hbase, rfl⟩ := h
  obtain ⟨-, htop⟩ := Word.add?_eq_some_iff.1 htop
  obtain ⟨hcontrol₁, hcontrol₂⟩ := Word.sub?_eq_some_iff.1 hcontrol
  obtain ⟨htls₁, htls₂⟩ := Word.sub?_eq_some_iff.1 htls
  have hlow := Word.alignDown_le control (if owned then pageSize else stackAlignment)
  have htlsLow := Word.alignDown_le tls stackAlignment
  have hsixteen := Word.dvd_alignDown tls stackAlignment
  have haligned := Word.dvd_alignDown control (if owned then pageSize else stackAlignment)
  refine ⟨?_, ?_, ?_, ?_, hsixteen⟩
  · exact Nat.lt_of_not_le fun hle => hbase (UInt64.le_iff_toNat_le.2 hle)
  · simp only at *
    omega
  · simp only at *
    omega
  · cases owned <;> exact haligned

/-- A region is mapped as it was asked for. -/
theorem Region.exists_of_allocate {stackSize guardSize : UInt64}
    {map : UInt64 → Except Int32 UInt64} {protect : Option Int32}
    (h : allocate stackSize guardSize map protect = .ok r) :
    ∃ e base, extent? stackSize guardSize = some e ∧ map e.size = .ok base ∧
      r = ⟨base, e.size, e.guardSize, true⟩ := by
  unfold allocate at h
  cases hextent : extent? stackSize guardSize with
  | none => simp [hextent] at h
  | some e =>
    rw [hextent] at h
    dsimp only at h
    cases hmap : map e.size with
    | error errno => simp [hmap] at h
    | ok base =>
      rw [hmap] at h
      refine ⟨e, base, rfl, hmap, ?_⟩
      cases protect with
      | none => exact (Except.ok.inj h).symm
      | some errno =>
        dsimp only at h
        split at h
        · cases h
        · exact (Except.ok.inj h).symm

/-- A mapped region is the thread's own. -/
theorem Region.owned_of_allocate {stackSize guardSize : UInt64}
    {map : UInt64 → Except Int32 UInt64} {protect : Option Int32}
    (h : allocate stackSize guardSize map protect = .ok r) : r.owned = true := by
  obtain ⟨e, base, -, -, rfl⟩ := exists_of_allocate h
  rfl

/-- The address lies in the region, above its guard. -/
def Region.Covers (r : Region) (a : UInt64) : Prop :=
  r.stackBase.toNat ≤ a.toNat ∧ a.toNat < r.stackBase.toNat + (r.size - r.guardSize).toNat

instance (r : Region) (a : UInt64) : Decidable (r.Covers a) := inferInstanceAs (Decidable (_ ∧ _))

/-- The regions share no memory above their guards. -/
def Region.Apart (r s : Region) : Prop :=
  r.stackBase.toNat + (r.size - r.guardSize).toNat ≤ s.stackBase.toNat ∨
    s.stackBase.toNat + (s.size - s.guardSize).toNat ≤ r.stackBase.toNat

instance (r s : Region) : Decidable (r.Apart s) := inferInstanceAs (Decidable (_ ∨ _))

theorem Region.Apart.symm {s : Region} (h : r.Apart s) : s.Apart r := Or.symm h

theorem Region.Covers.not_apart {s : Region} {a : UInt64} (hr : r.Covers a) (hs : s.Covers a) :
    ¬ r.Apart s := by
  obtain ⟨hr₁, hr₂⟩ := hr
  obtain ⟨hs₁, hs₂⟩ := hs
  rintro (h | h) <;> omega

/-- Both blocks of a thread lie in its region, at different addresses that are not 0. -/
theorem Region.covers_of_layout (h : r.layout = .ok l) :
    r.Covers l.control ∧ r.Covers l.tls ∧ l.control ≠ 0 ∧ l.tls ≠ 0 ∧ l.tls ≠ l.control := by
  rw [layout, Layout.compute, Layout.computeFor] at h
  split at h
  · exact absurd h (by simp)
  next l' hsome =>
    obtain rfl := Except.ok.inj h
    obtain ⟨habove, hbelow, hinside, -, -⟩ := Layout.fits_of_computeFor? hsome
    have hne {a : UInt64} (ha : r.stackBase.toNat < a.toNat) : a ≠ 0 := by
      rintro rfl
      exact absurd ha (by simp)
    have htls : tlsSize.toNat = 64 := rfl
    have hcontrol : controlSize.toNat = 312 := rfl
    refine ⟨⟨by omega, by omega⟩, ⟨by omega, by omega⟩, hne (by omega), hne habove, fun heq => ?_⟩
    have := congrArg UInt64.toNat heq
    omega

end Threading

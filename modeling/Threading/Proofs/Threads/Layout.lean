import Threading.Proofs.Threads.Launches

/-!
# How the memory of a thread is divided

Attributes that pass their check give memory whose size and ends are multiples of a page, at
least four pages above the guard. If it does not wrap around, the blocks of a thread and a stack
find room in it, and where they lie is known to the byte: the control block ends at the top as
far as its alignment allows, and the slots and the stack lie right below.
-/
namespace Threading

/-! ## Computing a layout -/

namespace Layout

theorem compute_eq_error {base size : UInt64} (h : UInt64.size ≤ base.toNat + size.toNat)
    (owned : Bool) : compute base size owned = .error tooSmall := by
  have hnone : Word.add? base size = none := if_neg (Nat.not_lt.2 h)
  rw [compute, computeFor, computeFor?, hnone]
  rfl

/-- Pages from a page on have room for the blocks. An owned control block takes a page of its
own, as it starts one. -/
theorem exists_compute (base size : UInt64) (hfit : base.toNat + size.toNat < UInt64.size)
    (hbase : 4096 ∣ base.toNat) (hsize : 4096 ∣ size.toNat) (hroom : 8192 ≤ size.toNat)
    (owned : Bool) :
    ∃ l, compute base size owned = .ok l ∧ l.stackBase = base ∧ l.stackTop = l.tls ∧
      l.control.toNat + (if owned then 4096 else 320) = base.toNat + size.toNat ∧
      l.tls.toNat + 64 = l.control.toNat := by
  have hcontrolSize : controlSize.toNat = 312 := rfl
  have htlsSize : tlsSize.toNat = 64 := rfl
  obtain ⟨top, htop, htop'⟩ := Word.exists_add? hfit
  obtain ⟨control, hcontrol, hcontrol'⟩ : ∃ c, Word.sub? top controlSize = some c ∧
      c.toNat = top.toNat - controlSize.toNat := Word.exists_sub? (by omega)
  obtain ⟨control₁, hcontrol₁⟩ : ∃ c,
      Word.alignDown control (if owned then pageSize else stackAlignment) = c := ⟨_, rfl⟩
  have hplace : control₁.toNat + (if owned then 4096 else 320) = base.toNat + size.toNat := by
    rw [← hcontrol₁, Word.toNat_alignDown]
    cases owned with
    | false =>
      have hsixteen : stackAlignment.toNat = 16 := rfl
      simp only [Bool.false_eq_true, if_false, hsixteen]
      omega
    | true =>
      have hpage : pageSize.toNat = 4096 := rfl
      simp only [if_true, hpage]
      omega
  have hpadded : (if owned then 4096 else 320) ≤ 4096 ∧ 16 ∣ (if owned then 4096 else 320) := by
    cases owned <;> decide
  obtain ⟨tls, htls, htls'⟩ : ∃ c, Word.sub? control₁ tlsSize = some c ∧
      c.toNat = control₁.toNat - tlsSize.toNat := Word.exists_sub? (by omega)
  have haligned : Word.alignDown tls stackAlignment = tls := by
    have hsixteen : stackAlignment.toNat = 16 := rfl
    rw [← UInt64.toNat_inj, Word.toNat_alignDown, hsixteen]
    omega
  have habove : ¬ tls ≤ base := by
    rw [UInt64.le_iff_toNat_le]
    omega
  have hbelow : tls.toNat + 64 = control₁.toNat := by omega
  refine ⟨⟨control₁, tls, tls, base⟩, ?_, rfl, rfl, hplace, hbelow⟩
  rw [compute, computeFor, computeFor?]
  simp [htop, hcontrol, hcontrol₁, htls, haligned, habove]

end Layout

/-! ## The parts of a region -/

/-- How a layout divides a region: the guard, the stack, the slots and the control block lie in
this order and apart. All sums and differences are exact. -/
structure Region.Divides (r : Region) (l : Layout) : Prop where
  inside : r.base.toNat + r.size.toNat < UInt64.size
  stackBase : l.stackBase = r.stackBase
  guard : r.base.toNat + r.guardSize.toNat = l.stackBase.toNat
  aboveGuard : (r.size - r.guardSize).toNat + r.guardSize.toNat = r.size.toNat
  /-- The first frame lies on the stack, right below its top. -/
  frame : l.stackBase.toNat ≤ l.frame.toNat ∧
    l.frame.toNat + Layout.frameSize.toNat = l.stackTop.toNat
  usable : l.stackBase.toNat + l.usableStack.toNat = l.stackTop.toNat
  slots : l.stackTop.toNat ≤ l.tls.toNat
  control : l.tls.toNat + tlsSize.toNat ≤ l.control.toNat
  top : l.control.toNat + controlSize.toNat ≤ r.base.toNat + r.size.toNat
  aligned : 16 ∣ l.stackTop.toNat ∧ 16 ∣ l.tls.toNat ∧ 16 ∣ l.control.toNat
  page : r.owned = true → 4096 ∣ l.control.toNat

/-- What lies above the stack of a thread, by whether its memory is its own. -/
def Region.overhead (owned : Bool) : Nat := if owned then 4160 else 384

/-- Whole pages that do not wrap around are divided, if at least two of them are no guard. -/
theorem Region.exists_divides (r : Region) (hfit : r.base.toNat + r.size.toNat < UInt64.size)
    (hbase : 4096 ∣ r.base.toNat) (hsize : 4096 ∣ r.size.toNat) (hguard : 4096 ∣ r.guardSize.toNat)
    (hroom : r.guardSize.toNat + 8192 ≤ r.size.toNat) :
    ∃ l, r.layout = .ok l ∧ r.Divides l ∧
      l.usableStack.toNat + overhead r.owned + r.guardSize.toNat = r.size.toNat := by
  have hstackBase : r.stackBase.toNat = r.base.toNat + r.guardSize.toNat := by
    rw [stackBase, UInt64.toNat_add]
    exact Nat.mod_eq_of_lt (by simp only [UInt64.size] at hfit; omega)
  have hrest : (r.size - r.guardSize).toNat = r.size.toNat - r.guardSize.toNat :=
    UInt64.toNat_sub_of_le _ _ (UInt64.le_iff_toNat_le.2 (by omega))
  obtain ⟨l, hl, hlow, htop, hcontrol, htls⟩ := Layout.exists_compute r.stackBase
    (r.size - r.guardSize) (by omega) (by omega) (by omega) (by omega) r.owned
  have hpadded : (if r.owned then 4096 else 320) + 64 = overhead r.owned := by
    rw [overhead]
    cases r.owned <;> rfl
  have hoverhead : 384 ≤ overhead r.owned ∧ overhead r.owned ≤ 4160 ∧ 16 ∣ overhead r.owned := by
    rw [overhead]
    cases r.owned <;> decide
  have hblocks : tlsSize.toNat = 64 ∧ controlSize.toNat = 312 ∧ Layout.frameSize.toNat = 16 :=
    ⟨rfl, rfl, rfl⟩
  have hlow' : l.stackBase.toNat = r.stackBase.toNat := by rw [hlow]
  have htop' : l.stackTop.toNat = l.tls.toNat := by rw [htop]
  have hframe : l.frame.toNat = l.stackTop.toNat - Layout.frameSize.toNat :=
    UInt64.toNat_sub_of_le _ _ (UInt64.le_iff_toNat_le.2 (by omega))
  have husable : l.usableStack.toNat = l.stackTop.toNat - l.stackBase.toNat :=
    UInt64.toNat_sub_of_le _ _ (UInt64.le_iff_toNat_le.2 (by omega))
  refine ⟨l, hl, ?_, by omega⟩
  constructor
  case inside => exact hfit
  case stackBase => exact hlow
  case page =>
    intro howned
    rw [howned] at hcontrol
    simp only [if_true] at hcontrol
    omega
  all_goals omega

/-! ## Memory for attributes -/

theorem Region.exists_of_extent? {stackSize guardSize : UInt64} {e : Extent}
    (h : extent? stackSize guardSize = some e) :
    ∃ stack, Word.pageRoundUp? stackSize = some stack ∧
      Word.pageRoundUp? guardSize = some e.guardSize ∧
      e.size.toNat = stack.toNat + e.guardSize.toNat := by
  rw [extent?] at h
  obtain ⟨stack, hstack, h⟩ := Option.bind_eq_some_iff.1 h
  obtain ⟨guard, hguard, h⟩ := Option.bind_eq_some_iff.1 h
  obtain ⟨size, hsize, h⟩ := Option.bind_eq_some_iff.1 h
  obtain rfl := Option.some.inj h
  exact ⟨stack, hstack, hguard, (Word.add?_eq_some_iff.1 hsize).2⟩

namespace Attributes

variable {a : Attributes}

/-- What attributes that pass their check are known to say. -/
structure Sound (a : Attributes) : Prop where
  size : 16384 ≤ a.stackSize.toNat
  borrowed : a.usesBorrowedStack = true → 4096 ∣ a.stackBase.toNat ∧ 4096 ∣ a.stackSize.toNat

theorem sound_of_validate (h : a.validate = .ok ()) : a.Sound := by
  rw [validate] at h
  split at h
  · exact absurd h (by simp)
  next hsize =>
    split at h
    · exact absurd h (by simp)
    next hpages =>
      constructor
      · exact UInt64.le_iff_toNat_le.1 (UInt64.not_lt.1 hsize)
      · intro hborrowed
        simp only [hborrowed, true_and, not_or, ne_eq, not_not] at hpages
        exact ⟨Word.mod_pageSize_eq_zero_iff.1 hpages.1, Word.mod_pageSize_eq_zero_iff.1 hpages.2⟩

/-- A thread with these attributes says that its stack has this size: what is left of the memory
above the guard. -/
def Leaves (a : Attributes) (size : UInt64) : Prop :=
  if a.usesBorrowedStack then size.toNat + 384 = a.stackSize.toNat
  else ∃ rounded, Word.pageRoundUp? a.stackSize = some rounded ∧ size.toNat + 4160 = rounded.toNat

end Attributes

namespace ThreadGroup

variable {a : Attributes} {launch : Launch} {region : Region}

/-- The kernel maps whole pages, and none beyond the last address. -/
def MapsPages (map : UInt64 → Except Int32 UInt64) : Prop :=
  ∀ size base, map size = .ok base → 4096 ∣ base.toNat ∧ base.toNat + size.toNat < UInt64.size

theorem provided?_cases (h : provided? a launch = some region) :
    a.usesBorrowedStack = true ∧ region = .borrowed a.stackBase a.stackSize ∨
      a.usesBorrowedStack = false ∧ ∃ e base, Region.extent? a.stackSize a.guardSize = some e ∧
        launch.map e.size = .ok base ∧ region = ⟨base, e.size, e.guardSize, true⟩ := by
  rw [provided?] at h
  split at h
  next hborrowed => exact .inl ⟨hborrowed, (Option.some.inj h).symm⟩
  next hborrowed =>
    split at h
    next r hallocate =>
      obtain rfl := Option.some.inj h
      exact .inr ⟨by simpa using hborrowed, Region.exists_of_allocate hallocate⟩
    · exact absurd h (by simp)

/-- The memory for attributes that pass their check is laid out, unless it is borrowed and wraps
around. -/
theorem layout_provided (hvalid : a.validate = .ok ()) (hmap : MapsPages launch.map)
    (h : provided? a launch = some region) :
    (region.owned = false ∧ UInt64.size ≤ region.base.toNat + region.size.toNat ∧
        region.layout = .error Layout.tooSmall) ∨
      ∃ l, region.layout = .ok l ∧ region.Divides l ∧ a.Leaves l.usableStack := by
  have hsound := Attributes.sound_of_validate hvalid
  have hmin := hsound.size
  obtain ⟨hborrowed, rfl⟩ | ⟨hfresh, e, base, hextent, hbase, rfl⟩ := provided?_cases h
  · obtain ⟨hbase, hsize⟩ := hsound.borrowed hborrowed
    by_cases hfit : a.stackBase.toNat + a.stackSize.toNat < UInt64.size
    · have hroom : (0 : UInt64).toNat + 8192 ≤ a.stackSize.toNat := by
        rw [UInt64.toNat_zero]
        omega
      obtain ⟨l, hl, hdivides, husable⟩ :=
        Region.exists_divides (.borrowed a.stackBase a.stackSize) hfit hbase hsize
          (Nat.dvd_zero 4096) hroom
      refine .inr ⟨l, hl, hdivides, ?_⟩
      rw [Attributes.Leaves, if_pos hborrowed]
      exact husable
    · refine .inl ⟨rfl, Nat.le_of_not_lt hfit, Layout.compute_eq_error ?_ false⟩
      simpa [Region.borrowed, Region.stackBase] using Nat.le_of_not_lt hfit
  · obtain ⟨hpage, hfit⟩ := hmap e.size base hbase
    obtain ⟨stack, hstack, hguard, hsize⟩ := Region.exists_of_extent? hextent
    obtain ⟨hstack₁, -, hstack₂⟩ := Word.pageRoundUp?_spec hstack
    obtain ⟨-, -, hguard₂⟩ := Word.pageRoundUp?_spec hguard
    have hpages : 4096 ∣ e.size.toNat := hsize ▸ Nat.dvd_add hstack₂ hguard₂
    obtain ⟨l, hl, hdivides, husable⟩ := Region.exists_divides ⟨base, e.size, e.guardSize, true⟩
      hfit hpage hpages hguard₂ (by simp only; omega)
    refine .inr ⟨l, hl, hdivides, ?_⟩
    rw [Attributes.Leaves, if_neg (by simp [hfresh])]
    refine ⟨stack, hstack, ?_⟩
    simp only [Region.overhead, if_true] at husable
    omega

end ThreadGroup
end Threading

import Threading.Proofs.Region

/-!
# The best fit

A layout is found exactly if its memory does not wrap around and has some place for the two
blocks and a stack below them. Both blocks then lie as high as in any placement, and what is
computed on the way is what it would be over the integers.
-/
namespace Threading

namespace Layout

variable {base size controlBytes tlsBytes : UInt64} {owned : Bool} {l : Layout}
variable {control tls : Nat}

/-- What a control block is aligned to. -/
theorem toNat_controlAlignment (owned : Bool) :
    (if owned then pageSize else stackAlignment).toNat = if owned then 4096 else 16 := by
  cases owned <;> rfl

/-- If there is a placement, there is a layout, and no block of it lies lower. -/
theorem exists_computeFor? (hfit : base.toNat + size.toNat < UInt64.size)
    (h : Fits base size owned controlBytes tlsBytes control tls) :
    ∃ l, computeFor? base size owned controlBytes tlsBytes = some l ∧
      control ≤ l.control.toNat ∧ tls ≤ l.tls.toNat := by
  obtain ⟨habove, hbelow, hinside, hcontrol, htls⟩ := h
  obtain ⟨top, htop, htop'⟩ := Word.exists_add? hfit
  obtain ⟨high, hhigh, hhigh'⟩ : ∃ c, Word.sub? top controlBytes = some c ∧
      c.toNat = top.toNat - controlBytes.toNat := Word.exists_sub? (by omega)
  have hcontrol' : control ≤
      (Word.alignDown high (if owned then pageSize else stackAlignment)).toNat :=
    Word.le_alignDown (by rwa [toNat_controlAlignment]) (by omega)
  generalize hplace : Word.alignDown high (if owned then pageSize else stackAlignment) = place
    at hcontrol'
  obtain ⟨low, hlow, hlow'⟩ : ∃ c, Word.sub? place tlsBytes = some c ∧
      c.toNat = place.toNat - tlsBytes.toNat := Word.exists_sub? (by omega)
  have htls' : tls ≤ (Word.alignDown low stackAlignment).toNat :=
    Word.le_alignDown htls (by omega)
  have hstack : ¬ Word.alignDown low stackAlignment ≤ base := by
    rw [UInt64.le_iff_toNat_le]
    omega
  refine ⟨⟨place, Word.alignDown low stackAlignment, Word.alignDown low stackAlignment, base⟩, ?_,
    hcontrol', htls'⟩
  rw [computeFor?]
  simp only [htop, hhigh, hplace, hlow, hstack, Option.bind_eq_bind, Option.bind_some, if_false]

/-- A layout that places the blocks as high as they go, with everything below them left to the
stack. -/
structure BestFit (base size : UInt64) (owned : Bool) (controlBytes tlsBytes : UInt64)
    (l : Layout) : Prop where
  fits : Fits base size owned controlBytes tlsBytes l.control.toNat l.tls.toNat
  /-- Neither block lies higher in any placement. -/
  highest : ∀ control tls, Fits base size owned controlBytes tlsBytes control tls →
    control ≤ l.control.toNat ∧ tls ≤ l.tls.toNat
  stackTop : l.stackTop = l.tls
  stackBase : l.stackBase = base
  usable : 0 < l.usableStack.toNat
  /-- The sum, the differences and the rounding are those of the integers. -/
  control_eq : (l.control.toNat : Int) = base.toNat + size.toNat - controlBytes.toNat -
    (base.toNat + size.toNat - controlBytes.toNat) % (if owned then 4096 else 16)
  tls_eq : (l.tls.toNat : Int) = l.control.toNat - tlsBytes.toNat -
    (l.control.toNat - tlsBytes.toNat) % 16
  usable_eq : (l.usableStack.toNat : Int) = l.stackTop.toNat - l.stackBase.toNat

/-- What is computed on the way to a layout. -/
theorem exact_of_computeFor? (h : computeFor? base size owned controlBytes tlsBytes = some l) :
    base.toNat + size.toNat < UInt64.size ∧ l.stackTop = l.tls ∧ l.stackBase = base ∧
      (l.control.toNat : Int) = base.toNat + size.toNat - controlBytes.toNat -
        (base.toNat + size.toNat - controlBytes.toNat) % (if owned then 4096 else 16) ∧
      (l.tls.toNat : Int) = l.control.toNat - tlsBytes.toNat -
        (l.control.toNat - tlsBytes.toNat) % 16 := by
  simp only [computeFor?, Option.bind_eq_bind, Option.bind_eq_some_iff,
    Option.ite_none_left_eq_some, Option.some.injEq] at h
  obtain ⟨top, htop, high, hhigh, low, hlow, -, rfl⟩ := h
  obtain ⟨hfit, htop⟩ := Word.add?_eq_some_iff.1 htop
  obtain ⟨hhigh₁, hhigh₂⟩ := Word.sub?_eq_some_iff.1 hhigh
  obtain ⟨hlow₁, hlow₂⟩ := Word.sub?_eq_some_iff.1 hlow
  have hsixteen : stackAlignment.toNat = 16 := rfl
  refine ⟨hfit, rfl, rfl, ?_, ?_⟩
  · rw [Word.toNat_alignDown, toNat_controlAlignment]
    cases owned <;> simp only [Bool.false_eq_true, if_false, if_true] <;> omega
  · simp only [Word.toNat_alignDown low, hsixteen]
    omega

theorem bestFit_of_computeFor? (h : computeFor? base size owned controlBytes tlsBytes = some l) :
    BestFit base size owned controlBytes tlsBytes l := by
  obtain ⟨hfit, htop, hbase, hcontrol, htls⟩ := exact_of_computeFor? h
  have hfits := fits_of_computeFor? h
  have habove : l.stackBase.toNat < l.stackTop.toNat := by
    rw [htop, hbase]
    exact hfits.aboveBase
  have husable : l.usableStack.toNat = l.stackTop.toNat - l.stackBase.toNat :=
    UInt64.toNat_sub_of_le _ _ (UInt64.le_iff_toNat_le.2 (Nat.le_of_lt habove))
  constructor
  case fits => exact hfits
  case highest =>
    intro control tls hother
    obtain ⟨l', hl', hhighest⟩ := exists_computeFor? hfit hother
    obtain rfl := Option.some.inj (h.symm.trans hl')
    exact hhighest
  case stackTop => exact htop
  case stackBase => exact hbase
  case usable => omega
  case control_eq => exact hcontrol
  case tls_eq => exact htls
  case usable_eq => omega

theorem computeFor_eq_ok_iff :
    computeFor base size owned controlBytes tlsBytes = .ok l ↔
      computeFor? base size owned controlBytes tlsBytes = some l := by
  rw [computeFor]
  split <;> simp [*]

/-- There is a layout exactly if the memory does not wrap around and has room for the blocks and
a stack. It is the best fit, and otherwise the memory is refused. -/
theorem computeFor_decides (base size : UInt64) (owned : Bool) (controlBytes tlsBytes : UInt64) :
    ((∃ l, computeFor base size owned controlBytes tlsBytes = .ok l) ↔
      base.toNat + size.toNat < UInt64.size ∧
        ∃ control tls, Fits base size owned controlBytes tlsBytes control tls) ∧
    (∀ l, computeFor base size owned controlBytes tlsBytes = .ok l →
      BestFit base size owned controlBytes tlsBytes l) ∧
    ∀ e, computeFor base size owned controlBytes tlsBytes = .error e →
      e = .invalidArgument "stack too small for thread metadata" := by
  simp only [computeFor_eq_ok_iff]
  refine ⟨⟨?_, ?_⟩, fun l => bestFit_of_computeFor?, ?_⟩
  · rintro ⟨l, hl⟩
    exact ⟨(exact_of_computeFor? hl).1, _, _, fits_of_computeFor? hl⟩
  · rintro ⟨hfit, control, tls, hfits⟩
    obtain ⟨l, hl, -⟩ := exists_computeFor? hfit hfits
    exact ⟨l, hl⟩
  · intro e he
    rw [computeFor] at he
    split at he
    · exact (Except.error.inj he).symm
    · exact absurd he (by simp)

/-- A borrowed stack whose ends are no multiples of its alignment, and a page that would have to be
the stack and the page of the control block at once. -/
example :
    computeFor? 0x200010 0x8029 false 312 64 =
        some ⟨0x207f00, 0x207ec0, 0x207ec0, 0x200010⟩ ∧
      computeFor? 0x10000 0x1000 true 312 64 = none := by
  decide

end Layout
end Threading

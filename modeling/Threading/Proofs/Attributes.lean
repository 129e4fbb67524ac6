import Threading.Attributes
import Threading.Proofs.CpuSet
import Threading.Proofs.Word

/-!
# Attributes after any settings

Setters are called in any order and with any arguments. Whether a setter takes its arguments
does not depend on the attributes, and one that refuses them leaves the attributes alone. What
all setters together keep to is said once; the final check looks at little more than that, as
two setters write the stack size under different rules.
-/
namespace Threading

namespace Attributes

variable {a : Attributes}

/-- A call of a setter. -/
inductive Setting where
  | detachState (s : DetachState)
  | scheduling (policy : SchedPolicy) (priority : Int32)
  | stackSize (size : UInt64)
  | stack (base size : UInt64)
  | guardSize (size : UInt64)
  | affinity (cpus : CpuSet)
  | scope (contention : Int32)

namespace Setting

/-- The answer and the attributes after the call. -/
def call : Setting → Attributes → Except Error Unit × Attributes
  | detachState s, a => (.ok (), a.setDetachState s)
  | scheduling policy priority, a => a.setScheduling policy priority
  | stackSize size, a => a.setStackSize size
  | stack base size, a => a.setStack base size
  | guardSize size, a => (.ok (), a.setGuardSize size)
  | affinity cpus, a => a.setAffinity cpus
  | scope contention, a => a.setScope contention

/-- The arguments are in the range of the setter. -/
def Admits : Setting → Prop
  | detachState _ | guardSize _ => True
  | scheduling policy priority =>
    policy.priorityRange.1 ≤ priority ∧ priority ≤ policy.priorityRange.2
  | stackSize size => minStackSize ≤ size
  | stack base size => minStackSize ≤ size ∧ base ≠ 0 ∧ 4096 ∣ base.toNat ∧ 4096 ∣ size.toNat ∧
      base.toNat + size.toNat < UInt64.size
  | affinity cpus => ∃ cpu, cpus.isSet cpu = true
  | scope contention => contention = systemScope

/-- The attributes with what the call asks for. -/
def write : Setting → Attributes → Attributes
  | detachState s, a => { a with detachState := s }
  | scheduling policy priority, a =>
    { a with schedPolicy := policy, schedPriority := priority, explicitSched := true }
  | stackSize size, a => { a with stackSize := size }
  | stack base size, a => { a with stackBase := base, stackSize := size }
  | guardSize size, a => { a with guardSize := size }
  | affinity cpus, a => { a with affinity := some cpus }
  | scope _, a => a

end Setting

/-- A call in range does what it asks for, and any other one is refused without effect. -/
theorem Setting.call_cases (s : Setting) (a : Attributes) :
    s.Admits ∧ s.call a = (.ok (), s.write a) ∨ ¬ s.Admits ∧ ∃ e, s.call a = (.error e, a) := by
  cases s with
  | detachState s => exact .inl ⟨trivial, rfl⟩
  | guardSize size => exact .inl ⟨trivial, rfl⟩
  | scheduling policy priority =>
    simp only [Admits, call, setScheduling]
    split
    next hout =>
      refine .inr ⟨fun hin => ?_, _, rfl⟩
      exact hout.elim (Int32.not_lt.2 hin.1) (Int32.not_lt.2 hin.2)
    next hin =>
      rw [not_or, Int32.not_lt, Int32.not_lt] at hin
      exact .inl ⟨hin, rfl⟩
  | stackSize size =>
    simp only [Admits, call, setStackSize]
    split
    next hless => exact .inr ⟨UInt64.not_le.2 hless, _, rfl⟩
    next hle => exact .inl ⟨UInt64.not_lt.1 hle, rfl⟩
  | stack base size =>
    simp only [Admits, call, setStack, Word.mod_pageSize_eq_zero_iff, ne_eq]
    split
    next hless => exact .inr ⟨fun hin => UInt64.not_le.2 hless hin.1, _, rfl⟩
    next hle =>
      split
      next hout =>
        refine .inr ⟨fun ⟨_, hbase, hpages, hsize, _⟩ => ?_, _, rfl⟩
        exact hout.elim hbase (Or.elim · (· hpages) (· hsize))
      next hin =>
        simp only [not_or, Decidable.not_not] at hin
        obtain ⟨hbase, hpages, hsize⟩ := hin
        rw [Word.add?]
        split
        next hfit => exact .inl ⟨⟨UInt64.not_lt.1 hle, hbase, hpages, hsize, hfit⟩, rfl⟩
        next hwraps => exact .inr ⟨fun ⟨_, _, _, _, hfit⟩ => hwraps hfit, _, rfl⟩
  | affinity cpus =>
    simp only [Admits, call, setAffinity, ← CpuSet.isEmpty_eq_false_iff]
    split
    next hempty => exact .inr ⟨by simp [hempty], _, rfl⟩
    next hsome => exact .inl ⟨Bool.not_eq_true _ ▸ hsome, rfl⟩
  | scope contention =>
    simp only [Admits, call, setScope]
    split
    next hin => exact .inl ⟨hin, rfl⟩
    next hout =>
      split
      next => exact .inr ⟨hout, _, rfl⟩
      next => exact .inr ⟨hout, _, rfl⟩

/-! ## What all setters keep to -/

/-- What every setter keeps true of the attributes. -/
structure Orderly (a : Attributes) : Prop where
  minStackSize_le : minStackSize ≤ a.stackSize
  low_le : a.schedPolicy.priorityRange.1 ≤ a.schedPriority
  le_high : a.schedPriority ≤ a.schedPolicy.priorityRange.2
  affinity : ∀ cpus, a.affinity = some cpus → ∃ cpu, cpus.isSet cpu = true
  /-- There is no lent stack, or it begins with a page. -/
  stackBase : 4096 ∣ a.stackBase.toNat

theorem orderly_default : Orderly {} where
  minStackSize_le := by decide
  low_le := by decide
  le_high := by decide
  affinity := nofun
  stackBase := by decide

theorem Orderly.write {s : Setting} (h : a.Orderly) (hs : s.Admits) : (s.write a).Orderly := by
  cases s with
  | detachState s | guardSize size | scope contention => exact { h with }
  | scheduling policy priority => exact { h with low_le := hs.1, le_high := hs.2 }
  | stackSize size => exact { h with minStackSize_le := hs }
  | stack base size => exact { h with minStackSize_le := hs.1, stackBase := hs.2.2.1 }
  | affinity cpus =>
    exact { h with affinity := fun _ hcpus => Option.some.inj hcpus ▸ hs }

theorem Orderly.call (h : a.Orderly) (s : Setting) : (s.call a).2.Orderly := by
  obtain ⟨hs, heq⟩ | ⟨-, e, heq⟩ := s.call_cases a
  · rw [heq]
    exact h.write hs
  · rw [heq]
    exact h

/-- The attributes after the given settings, in order, whatever their answers. -/
def configured (settings : List Setting) : Attributes := settings.foldl (fun a s => (s.call a).2) {}

theorem orderly_configured (settings : List Setting) : (configured settings).Orderly := by
  suffices h : ∀ a : Attributes, a.Orderly →
      (settings.foldl (fun a s => (s.call a).2) a).Orderly from h {} orderly_default
  induction settings with
  | nil => exact fun _ h => h
  | cons s settings ih => exact fun a h => ih _ (h.call s)

/-- Orderly attributes are refused for a size that cannot be rounded up or a lent stack that does
not end with a page. -/
theorem Orderly.validate_eq_ok_iff (h : a.Orderly) : a.validate = .ok () ↔
    a.stackSize.toNat ≤ UInt64.size - 1 - 4095 ∧ a.guardSize.toNat ≤ UInt64.size - 1 - 4095 ∧
      (a.stackBase ≠ 0 → 4096 ∣ a.stackSize.toNat) := by
  have hpages : ¬ a.stackBase % pageSize ≠ 0 :=
    not_not_intro (Word.mod_pageSize_eq_zero_iff.2 h.stackBase)
  rw [validate, if_neg (UInt64.not_lt.2 h.minStackSize_le)]
  simp only [usesBorrowedStack, bne_iff_ne, hpages, false_or, Word.isNone_pageRoundUp?_iff]
  split
  next hout =>
    refine iff_of_false nofun fun ⟨_, _, hsize⟩ => hout.2 ?_
    exact Word.mod_pageSize_eq_zero_iff.2 (hsize hout.1)
  next hin =>
    have hsize (hlent : a.stackBase ≠ 0) : 4096 ∣ a.stackSize.toNat := by
      rw [not_and, Decidable.not_not] at hin
      exact Word.mod_pageSize_eq_zero_iff.1 (hin hlent)
    split
    next hout =>
      refine iff_of_false nofun fun ⟨hstack, hguard, _⟩ => ?_
      exact hout.elim (Nat.not_lt.2 hstack) (Nat.not_lt.2 hguard)
    next hin =>
      rw [not_or, Nat.not_lt, Nat.not_lt] at hin
      exact iff_of_true rfl ⟨hin.1, hin.2, hsize⟩

/-- After any settings, each setter takes just the arguments in its range and does what it is
asked for with them; one that fails changes nothing. The attributes are orderly, and they pass the
final check just if both sizes can be rounded up to pages and a lent stack ends with a page. -/
theorem configured_spec (settings : List Setting) :
    (∀ s : Setting, (s.call (configured settings)).1 = .ok () ↔ s.Admits) ∧
      (∀ s : Setting, s.Admits → (s.call (configured settings)).2 = s.write (configured settings)) ∧
      (∀ (s : Setting) (e : Error), (s.call (configured settings)).1 = .error e →
        (s.call (configured settings)).2 = configured settings) ∧
      (configured settings).Orderly ∧
      ((configured settings).validate = .ok () ↔
        (configured settings).stackSize.toNat ≤ UInt64.size - 1 - 4095 ∧
          (configured settings).guardSize.toNat ≤ UInt64.size - 1 - 4095 ∧
          ((configured settings).stackBase ≠ 0 → 4096 ∣ (configured settings).stackSize.toNat)) := by
  have horderly := orderly_configured settings
  refine ⟨?_, ?_, ?_, horderly, horderly.validate_eq_ok_iff⟩
  · intro s
    obtain ⟨hs, heq⟩ | ⟨hs, e, heq⟩ := s.call_cases (configured settings)
    · exact iff_of_true (by rw [heq]) hs
    · exact iff_of_false (by rw [heq]; nofun) hs
  · intro s hs
    obtain ⟨-, heq⟩ | ⟨hnot, -⟩ := s.call_cases (configured settings)
    · rw [heq]
    · exact absurd hs hnot
  · intro s e hfails
    obtain ⟨-, heq⟩ | ⟨-, e', heq⟩ := s.call_cases (configured settings)
    · rw [heq] at hfails
      cases hfails
    · rw [heq]

/-- A lent stack whose size is set anew no longer ends with a page, and too small a size is refused
without effect. -/
theorem configured_spec_lentStack :
    let a := configured [.stack 0x10000 0x10000, .stackSize 20000]
    (Setting.stackSize 20000).Admits ∧ ((Setting.stackSize 20000).call a).2 = a ∧
      ((Setting.stackSize 100).call a).1 = .error (.invalidArgument "stack size below minimum") ∧
      ((Setting.stackSize 100).call a).2 = a ∧ a.Orderly ∧ a.validate ≠ .ok () := by
  intro a
  have hadmits : (Setting.stackSize 20000).Admits := by
    change minStackSize ≤ 20000
    decide
  have hfails : ((Setting.stackSize 100).call a).1 =
      .error (.invalidArgument "stack size below minimum") := rfl
  obtain ⟨-, hwrites, hkeeps, horderly, hvalid⟩ :=
    configured_spec [.stack 0x10000 0x10000, .stackSize 20000]
  refine ⟨hadmits, hwrites _ hadmits, hfails, hkeeps _ _ hfails, horderly, ?_⟩
  intro hok
  obtain ⟨-, -, hends⟩ := hvalid.1 hok
  have hdvd : 4096 ∣ (20000 : UInt64).toNat := hends (by decide)
  exact absurd hdvd (by decide)

end Attributes
end Threading

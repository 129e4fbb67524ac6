import Threading.Proofs.Threads.Layout
import Threading.Proofs.Threads.Sites
import Threading.Scenario.Kernel
import Threading.SystemCall

/-!
# Kernels that do not clash with the threads there are

The kernel gives a new task an id that no other thread runs under, and a new mapping memory that
nobody uses. Nothing else is asked of it: it may refuse whatever it likes, and choose who goes
on.
-/
namespace Threading

namespace ThreadGroup

variable {p : ThreadGroup} {i : BlockId} {c : Control} {t : Tid}

/-- No registered thread runs under the id. -/
def Vacant (p : ThreadGroup) (t : Tid) : Prop :=
  ∀ i ∈ p.registry.ids, ∀ c ∈ p.registry.get? i, c.tid ≠ t

instance (p : ThreadGroup) (t : Tid) : Decidable (p.Vacant t) :=
  inferInstanceAs (Decidable (∀ i ∈ _, ∀ c ∈ _, _))

theorem Vacant.tid_ne (h : p.Vacant t) (hi : p.registry.get? i = some c) : c.tid ≠ t :=
  h i (Registry.mem_ids_of_get? hi) c hi

/-- No registered thread uses one of so many bytes from an address on. -/
def Clear (p : ThreadGroup) (base size : UInt64) : Prop :=
  base.toNat + size.toNat < UInt64.size ∧ ∀ i ∈ p.registry.ids, ∀ c ∈ p.registry.get? i,
    base.toNat + size.toNat ≤ c.region.stackBase.toNat ∨
      c.region.stackBase.toNat + (c.region.size - c.region.guardSize).toNat ≤ base.toNat

instance (p : ThreadGroup) (base size : UInt64) : Decidable (p.Clear base size) :=
  inferInstanceAs (Decidable (_ ∧ ∀ i ∈ _, ∀ c ∈ _, _))

theorem Clear.spares {base size guardSize : UInt64} (h : p.Clear base size)
    (hguard : guardSize.toNat ≤ size.toNat) : p.Spares ⟨base, size, guardSize, true⟩ := by
  intro i hi c hc
  obtain ⟨hfit, hclear⟩ := h
  have hword : UInt64.size = 2 ^ 64 := rfl
  have hbase : (base + guardSize).toNat = base.toNat + guardSize.toNat := by
    rw [UInt64.toNat_add]
    exact Nat.mod_eq_of_lt (by omega)
  have hsize : (size - guardSize).toNat = size.toNat - guardSize.toNat :=
    UInt64.toNat_sub_of_le _ _ (UInt64.le_iff_toNat_le.2 hguard)
  have hc := hclear i hi c hc
  rw [Region.Apart]
  dsimp only [Region.stackBase] at hc ⊢
  omega

end ThreadGroup

namespace Scenario.Kernel

open ThreadGroup (provided?)

variable {k : Kernel} {n : Nat} {p : ThreadGroup} {a : Attributes} {region : Region}

/-- The ids and the memory that the kernel gives are not in use, and its error numbers are those
that a system call can return. -/
structure Sound (k : Kernel) : Prop where
  conductor : k.conductor ≠ 0
  tid : ∀ n p, (k.launch n p).clone = none →
    (k.launch n p).tid ≠ 0 ∧ (k.launch n p).tid ≠ k.conductor ∧ p.Vacant (k.launch n p).tid
  spares : ∀ n p a region, provided? a (k.launch n p) = some region → region.owned = true →
    p.Spares region
  clone : ∀ n p errno, (k.launch n p).clone = some errno →
    ∃ ret, SystemCall.decode ret = .error errno

theorem Sound.spares_of_fresh (h : k.Sound) (ha : a.usesBorrowedStack = false) :
    ∀ region ∈ provided? a (k.launch n p), p.Spares region := by
  intro region hregion
  obtain ⟨hborrowed, -⟩ | ⟨-, e, base, -, -, rfl⟩ := ThreadGroup.provided?_cases hregion
  · rw [ha] at hborrowed
    cases hborrowed
  · exact h.spares n p a _ hregion rfl

/-- The answers to a request without those that clash with the threads there are. -/
def careful (k : Kernel) : Kernel :=
  { k with
    launch n p :=
      let launch := k.launch n p
      { launch with
        map := fun size =>
          match launch.map size with
          | .error errno => .error errno
          | .ok base => if p.Clear base size then .ok base else .error 12
        clone :=
          if launch.tid = 0 ∨ launch.tid = k.conductor ∨ ¬ p.Vacant launch.tid then some 11
          else launch.clone } }

theorem sound_careful (hconductor : k.conductor ≠ 0)
    (hclone : ∀ n p errno, (k.launch n p).clone = some errno →
      ∃ ret, SystemCall.decode ret = .error errno) : k.careful.Sound where
  conductor := hconductor
  tid n p h := by
    dsimp only [careful] at h ⊢
    split at h
    · cases h
    next hfine =>
      rw [not_or, not_or, not_not] at hfine
      exact hfine
  spares n p a region h howned := by
    obtain ⟨-, rfl⟩ | ⟨-, e, base, hextent, hmap, rfl⟩ := ThreadGroup.provided?_cases h
    · cases howned
    obtain ⟨stack, -, -, hsize⟩ := Region.exists_of_extent? hextent
    dsimp only [careful] at hmap
    split at hmap
    · cases hmap
    split at hmap
    next hclear =>
      obtain rfl := Except.ok.inj hmap
      exact hclear.spares (by omega)
    · cases hmap
  clone n p errno h := by
    dsimp only [careful] at h
    split at h
    · obtain rfl := Option.some.inj h
      exact ⟨SystemCall.encodeErrno 11, rfl⟩
    · exact hclone n p errno h

end Scenario.Kernel
end Threading

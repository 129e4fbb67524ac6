import Mathlib.Data.List.Basic
import Threading.MappedArray

/-!
# What the slots of a block hold

The elements of an array have been written to the first slots of its block, in their order.
Copying them to another block, writing one more after the last and moving down those after one
that is taken out come to the same as doing it to the list of elements.
-/
namespace Threading.Block

variable {α : Type} {b target source : Block α} {items : List α} {i n : Nat}

/-! ## Copying and moving -/

@[simp] theorem size_fresh (n : Nat) : (fresh n : Block α).size = n := Array.size_replicate

/-- A slot that is written to reads like the one its content was read from. -/
theorem getElem?_write (hi : i < b.size) (hn : n < source.size) (j : Nat) :
    (b.setIfInBounds i source[n]?.join)[j]? = if i = j then source[n]? else b[j]? := by
  rw [Array.getElem?_setIfInBounds, if_pos hi, Array.getElem?_eq_getElem hn]
  rfl

@[simp] theorem size_copyFrom (target source : Block α) (n : Nat) :
    (target.copyFrom source n).size = target.size := by
  induction n with
  | zero => rfl
  | succ n ih => rw [copyFrom, Array.size_setIfInBounds, ih]

theorem getElem?_copyFrom (hsource : n ≤ source.size) (htarget : n ≤ target.size) (j : Nat) :
    (target.copyFrom source n)[j]? = if j < n then source[j]? else target[j]? := by
  induction n with
  | zero => rw [copyFrom, if_neg (Nat.not_lt_zero j)]
  | succ n ih =>
    rw [copyFrom, getElem?_write (by rw [size_copyFrom]; exact htarget) hsource,
      ih (Nat.le_of_succ_le hsource) (Nat.le_of_succ_le htarget)]
    by_cases hj : n = j
    · subst hj
      rw [if_pos rfl, if_pos (Nat.lt_succ_self n)]
    · have hiff : j < n + 1 ↔ j < n := by omega
      simp only [if_neg hj, hiff]

@[simp] theorem size_moveDown (b : Block α) (i n : Nat) : (b.moveDown i n).size = b.size := by
  induction n generalizing b i with
  | zero => rfl
  | succ n ih => rw [moveDown, ih, Array.size_setIfInBounds]

/-- A slot is overwritten only after it has been moved down itself. -/
theorem getElem?_moveDown (h : i + n < b.size) (j : Nat) :
    (b.moveDown i n)[j]? = if i ≤ j ∧ j < i + n then b[j + 1]? else b[j]? := by
  induction n generalizing b i with
  | zero =>
    rw [moveDown, if_neg (by omega)]
  | succ n ih =>
    have hread (k : Nat) : (b.setIfInBounds i b[i + 1]?.join)[k]? =
        if i = k then b[i + 1]? else b[k]? := getElem?_write (by omega) (by omega) k
    rw [moveDown, ih (by rw [Array.size_setIfInBounds]; omega)]
    by_cases hmoved : i + 1 ≤ j ∧ j < i + 1 + n
    · rw [if_pos hmoved, hread, if_neg (by omega), if_pos (by omega)]
    rw [if_neg hmoved, hread]
    by_cases hj : i = j
    · rw [if_pos hj, if_pos (by omega), hj]
    · rw [if_neg hj, if_neg (by omega)]

/-! ## Holding a list -/

/-- The elements of a list have been written to the first slots. -/
def Holds (b : Block α) (items : List α) : Prop := ∀ i < items.length, b[i]? = some items[i]?

theorem holds_nil (b : Block α) : b.Holds [] := fun i hi => absurd hi (Nat.not_lt_zero i)

namespace Holds

theorem length_le (h : b.Holds items) : items.length ≤ b.size := by
  refine Nat.le_of_not_lt fun hlt => ?_
  have hread := h b.size hlt
  rw [Array.getElem?_eq_none (Nat.le_refl _)] at hread
  cases hread

theorem take_toList (h : b.Holds items) : b.toList.take items.length = items.map some := by
  refine List.ext_getElem? fun i => ?_
  rw [List.getElem?_take, List.getElem?_map]
  by_cases hi : i < items.length
  · rw [if_pos hi, Array.getElem?_toList, h i hi, List.getElem?_eq_getElem hi]
    rfl
  · rw [if_neg hi, List.getElem?_eq_none (Nat.le_of_not_lt hi)]
    rfl

theorem append (h : b.Holds items) (hroom : items.length < b.size) (a : α) :
    Holds (b.setIfInBounds items.length (some a)) (items ++ [a]) := by
  intro i hi
  rw [Array.getElem?_setIfInBounds]
  by_cases hlast : items.length = i
  · subst hlast
    rw [if_pos rfl, if_pos hroom, List.getElem?_concat_length]
  · have hlt : i < items.length := by
      rw [List.length_append, List.length_singleton] at hi
      omega
    rw [if_neg hlast, List.getElem?_append_left hlt, h i hlt]

theorem copyFrom (h : source.Holds items) (hroom : items.length ≤ target.size) :
    Holds (target.copyFrom source items.length) items := by
  intro i hi
  rw [getElem?_copyFrom h.length_le hroom, if_pos hi, h i hi]

theorem eraseIdx (h : b.Holds items) (hi : i < items.length) :
    Holds (b.moveDown i (items.length - i - 1)) (items.eraseIdx i) := by
  intro j hj
  rw [List.length_eraseIdx_of_lt hi] at hj
  have hle := h.length_le
  rw [getElem?_moveDown (by omega), List.getElem?_eraseIdx]
  by_cases hji : j < i
  · rw [if_neg (by omega), if_pos hji, h j (by omega)]
  · rw [if_pos (by omega), if_neg hji, h (j + 1) (by omega)]

end Holds
end Threading.Block

import Mathlib.Data.List.Nodup
import Mathlib.Data.List.Basic

/-!
# Doubly linked lists

A list that runs through its entries: each has a link to the one below and a link to the
one above it. The place of no entry stands above the top, so the top is moved by the same
rule as the links. What a push and a removal do to the links is stated for each entry on
its own, as the code that writes them has it.
-/
namespace Threading

/-- The links of a doubly linked list. -/
structure Links where
  /-- The entry below a place; the place of no entry is above the top. -/
  below : Option Nat → Option Nat
  above : Nat → Option Nat

namespace Links

variable {k k' : Links} {place : Option Nat} {i j : Nat} {l l' a b : List Nat}

/-- Below a place stand the entries of a list and nothing else, each linked to its
neighbours in both directions. -/
def Chain (k : Links) : (place : Option Nat) → List Nat → Prop
  | place, [] => k.below place = none
  | place, i :: l => k.below place = some i ∧ k.above i = place ∧ Chain k (some i) l

theorem Chain.below_eq (h : k.Chain place l) : k.below place = l.head? := by
  cases l with
  | nil => exact h
  | cons i l => exact h.1

/-- The links lead through one list only. -/
theorem Chain.unique (h : k.Chain place l) (h' : k.Chain place l') : l = l' := by
  induction l generalizing place l' with
  | nil =>
    have hhead := h'.below_eq.symm.trans h
    exact (List.head?_eq_none_iff.1 hhead).symm
  | cons i l ih =>
    cases l' with
    | nil => exact absurd (h.1.symm.trans h') (by simp)
    | cons j l' =>
      obtain rfl : i = j := Option.some.inj (h.1.symm.trans h'.1)
      rw [ih h.2.2 h'.2.2]

/-- Between a part above and a part below. -/
theorem Chain.of_append (h : k.Chain place (a ++ i :: b)) :
    k.Chain (some i) b ∧ (k.above i = place ∨ ∃ j ∈ a, k.above i = some j) := by
  induction a generalizing place with
  | nil => exact ⟨h.2.2, .inl h.2.1⟩
  | cons j a ih =>
    obtain ⟨hb, hi | ⟨n, hn, hi⟩⟩ := ih h.2.2
    · exact ⟨hb, .inr ⟨j, List.mem_cons_self, hi⟩⟩
    · exact ⟨hb, .inr ⟨n, List.mem_cons_of_mem j hn, hi⟩⟩

/-- A list with an end passes no entry twice. -/
theorem Chain.nodup (h : k.Chain place l) : l.Nodup := by
  induction l generalizing place with
  | nil => exact List.nodup_nil
  | cons i l ih =>
    refine List.nodup_cons.2 ⟨fun hi => ?_, ih h.2.2⟩
    obtain ⟨a, b, rfl⟩ := List.append_of_mem hi
    have hlen := congrArg List.length (h.2.2.unique h.2.2.of_append.1)
    simp only [List.length_append, List.length_cons] at hlen
    omega

/-- The links of an entry lead to its neighbours. -/
theorem Chain.mem_of_above (h : k.Chain none (a ++ i :: b)) (hj : k.above i = some j) : j ∈ a := by
  rcases h.of_append.2 with hi | ⟨n, hn, hi⟩
  · exact absurd (hi.symm.trans hj) (by simp)
  · rwa [← Option.some.inj (hi.symm.trans hj)]

theorem Chain.mem_of_below (h : k.Chain place (a ++ i :: b)) (hj : k.below (some i) = some j) :
    j ∈ b :=
  List.mem_of_head? (h.of_append.1.below_eq.symm.trans hj)

theorem Chain.congr (h : k.Chain place l) (hplace : k'.below place = k.below place)
    (hbelow : ∀ j ∈ l, k'.below (some j) = k.below (some j))
    (habove : ∀ j ∈ l, k'.above j = k.above j) : k'.Chain place l := by
  induction l generalizing place with
  | nil => exact hplace.trans h
  | cons i l ih =>
    refine ⟨hplace.trans h.1, (habove i List.mem_cons_self).trans h.2.1, ?_⟩
    exact ih h.2.2 (hbelow i List.mem_cons_self) (fun j hj => hbelow j (List.mem_cons_of_mem i hj))
      fun j hj => habove j (List.mem_cons_of_mem i hj)

/-! ## A push -/

/-- A pushed entry stands on top. -/
theorem Chain.push (h : k.Chain none l) (hi : i ∉ l) (htop : k'.below none = some i)
    (hbelow : ∀ j, k'.below (some j) = if j = i then k.below none else k.below (some j))
    (habove : ∀ j, k'.above j =
      if k.below none = some j then some i else if j = i then none else k.above j) :
    k'.Chain none (i :: l) := by
  have hhead := h.below_eq
  have hne : ∀ j ∈ l, j ≠ i := fun j hj heq => hi (heq ▸ hj)
  refine ⟨htop, ?_, ?_⟩
  · rw [habove, if_neg, if_pos rfl]
    rw [hhead]
    exact fun heq => hi (List.mem_of_head? heq)
  · have hfirst : k'.below (some i) = k.below none := (hbelow i).trans (if_pos rfl)
    cases l with
    | nil => exact hfirst.trans hhead
    | cons j l =>
      have hstay : ∀ n ∈ j :: l, k'.below (some n) = k.below (some n) := fun n hn => by
        rw [hbelow, if_neg (hne n hn)]
      refine ⟨hfirst.trans hhead, ?_, ?_⟩
      · rw [habove]
        exact if_pos hhead
      · refine h.2.2.congr (hstay j List.mem_cons_self)
          (fun n hn => hstay n (List.mem_cons_of_mem j hn)) fun n hn => ?_
        rw [habove, if_neg, if_neg (hne n (List.mem_cons_of_mem j hn))]
        rw [hhead]
        exact fun heq => (List.nodup_cons.1 h.nodup).1 (Option.some.inj heq ▸ hn)

/-! ## A removal -/

/-- Taking the first entry below a place out joins the place to the rest. -/
theorem Chain.remove_first (h : k.Chain place (i :: b)) (hplace : ∀ j ∈ i :: b, place ≠ some j)
    (hbelow : ∀ x, x ≠ some i →
      k'.below x = if k.above i = x then k.below (some i) else k.below x)
    (habove : ∀ j, j ≠ i →
      k'.above j = if k.below (some i) = some j then k.above i else k.above j) :
    k'.Chain place b := by
  have hnodup := h.nodup
  obtain ⟨-, hin, hb⟩ := h
  have hib : i ∉ b := (List.nodup_cons.1 hnodup).1
  have hjoin : k'.below place = k.below (some i) := by
    rw [hbelow place (hplace i List.mem_cons_self), if_pos hin]
  have hold := hb.below_eq
  cases b with
  | nil => exact hjoin.trans hold
  | cons n b =>
    have hn : n ≠ i := fun hni => hib (by simp [hni])
    have hnb := (List.nodup_cons.1 (List.nodup_cons.1 hnodup).2).1
    have hstay (j : Nat) (hj : j ∈ n :: b) : k'.below (some j) = k.below (some j) := by
      rw [hbelow (some j) fun heq => hib (Option.some.inj heq ▸ hj), if_neg]
      rw [hin]
      exact hplace j (List.mem_cons_of_mem i hj)
    refine ⟨hjoin.trans hold, ?_, ?_⟩
    · rw [habove n hn, hin]
      exact if_pos hold
    · refine hb.2.2.congr (hstay n List.mem_cons_self)
        (fun j hj => hstay j (List.mem_cons_of_mem n hj)) fun j hj => ?_
      rw [habove j fun heq => hib (heq ▸ List.mem_cons_of_mem n hj), if_neg]
      rw [hold]
      exact fun heq => hnb (Option.some.inj heq ▸ hj)

/-- Taking an entry out joins the parts above and below it. -/
theorem Chain.remove (h : k.Chain place (a ++ i :: b))
    (hplace : ∀ j ∈ a ++ i :: b, place ≠ some j)
    (hbelow : ∀ x, x ≠ some i →
      k'.below x = if k.above i = x then k.below (some i) else k.below x)
    (habove : ∀ j, j ≠ i →
      k'.above j = if k.below (some i) = some j then k.above i else k.above j) :
    k'.Chain place (a ++ b) := by
  induction a generalizing place with
  | nil => exact h.remove_first hplace hbelow habove
  | cons n a ih =>
    have hna := List.nodup_cons.1 h.nodup
    have hn : n ≠ i := fun hni => hna.1 (by simp [hni])
    have hi : place ≠ some i := hplace i (by simp)
    -- the links of `i` lead neither to `n` nor to what is above it
    have hnb : k.below (some i) ≠ some n := by
      rw [h.of_append.1.below_eq]
      intro heq
      have hmem := List.mem_of_head? heq
      exact hna.1 (by simp [hmem])
    have hina : k.above i ≠ place := by
      rcases h.2.2.of_append.2 with hin | ⟨j, hj, hin⟩ <;> rw [hin]
      · exact (hplace n List.mem_cons_self).symm
      · exact (hplace j (by simp [hj])).symm
    refine ⟨?_, ?_, ih h.2.2 fun j hj heq => ?_⟩
    · rw [hbelow place hi, if_neg hina]
      exact h.1
    · rw [habove n hn, if_neg hnb]
      exact h.2.1
    · exact hna.1 (Option.some.inj heq ▸ hj)

end Links
end Threading

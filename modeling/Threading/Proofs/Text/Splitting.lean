import Mathlib.Data.List.Chain
import Mathlib.Data.List.Infix
import Threading.Text.Split

/-!
# Cuts at a separator

A text that was put together with a separator is cut where it was put together, if the
separator does not occur before the first cut or after the last one. Whatever is cut off
before the first occurrence does not hold the separator.
-/
namespace Threading.Text

variable {x y c : Char} {a b cs : List Char}

/-- No character `x` is followed by a `y`. -/
theorem not_pair_infix_iff : ¬ [x, y] <:+: cs ↔ cs.IsChain fun c d => ¬ (c = x ∧ d = y) := by
  induction cs with
  | nil => simp
  | cons c cs ih =>
    rw [List.infix_cons_iff, not_or, ih]
    cases cs with
    | nil => simp
    | cons d cs => simp [List.isChain_cons_cons, List.cons_prefix_cons, eq_comm]

theorem not_pair_infix_of_notMem (h : x ∉ cs) : ¬ [x, y] <:+: cs :=
  fun hpair => h (hpair.subset List.mem_cons_self)

/-- A pair in a text that is put together lies in one part or across the joint. -/
theorem not_pair_infix_append (ha : ¬ [x, y] <:+: a) (hb : ¬ [x, y] <:+: b)
    (hjoint : a.getLast? = some x → b.head? ≠ some y) : ¬ [x, y] <:+: a ++ b := by
  rw [not_pair_infix_iff] at ha hb ⊢
  refine List.isChain_append.2 ⟨ha, hb, fun c hc d hd hpair => ?_⟩
  exact hjoint (hpair.1 ▸ hc) (hpair.2 ▸ hd)

theorem strip?_eq_none_of_not_prefix {start : List Char} (h : ¬ start <+: cs) :
    strip? start cs = none := by
  rw [Option.eq_none_iff_forall_ne_some]
  intro rest hrest
  exact h ⟨rest, (strip?_eq_some_iff.1 hrest).symm⟩

/-- A text is cut at a pair that does not occur earlier. -/
theorem splitFirst?_pair (hne : x ≠ y) (ha : ¬ [x, y] <:+: a) :
    splitFirst? [x, y] (a ++ x :: y :: b) = some (a, b) := by
  induction a with
  | nil => simp [splitFirst?, strip?]
  | cons c a ih =>
    rw [List.infix_cons_iff, not_or] at ha
    have hhead : ¬ [x, y] <+: c :: (a ++ x :: y :: b) := by
      intro hprefix
      refine ha.1 ?_
      cases a with
      | nil =>
        simp only [List.nil_append, List.cons_prefix_cons] at hprefix
        exact absurd hprefix.2.1.symm hne
      | cons d a => simpa [List.cons_prefix_cons] using hprefix
    rw [List.cons_append, splitFirst?, strip?_eq_none_of_not_prefix hhead]
    simp only [ih ha.2, Option.map_some]

/-- A text is cut at a character that does not occur earlier. -/
theorem splitFirst?_singleton (ha : x ∉ a) : splitFirst? [x] (a ++ x :: b) = some (a, b) := by
  induction a with
  | nil => simp [splitFirst?, strip?]
  | cons c a ih =>
    rw [List.mem_cons, not_or] at ha
    simp [splitFirst?, strip?, ha.1, ih ha.2]

/-- The separator does not occur before the first cut. -/
theorem not_infix_of_splitFirst? {sep : List Char} (hsep : sep ≠ [])
    (h : splitFirst? sep cs = some (a, b)) : ¬ sep <:+: a := by
  induction cs generalizing a with
  | nil =>
    obtain ⟨rest, -, heq⟩ := Option.map_eq_some_iff.1 h
    obtain ⟨rfl, rfl⟩ := Prod.mk.inj heq
    simpa using hsep
  | cons c cs ih =>
    rw [splitFirst?] at h
    split at h
    next rest hrest =>
      obtain ⟨rfl, rfl⟩ := Prod.mk.inj (Option.some.inj h)
      simpa using hsep
    next hnone =>
      obtain ⟨⟨a, b⟩, hsplit, heq⟩ := Option.map_eq_some_iff.1 h
      obtain ⟨rfl, rfl⟩ := Prod.mk.inj heq
      rw [List.infix_cons_iff, not_or]
      refine ⟨fun hprefix => ?_, ih hsplit⟩
      have hcs : c :: a <+: c :: cs := by
        rw [eq_append_of_splitFirst? hsplit, List.append_assoc, ← List.cons_append]
        exact List.prefix_append _ _
      obtain ⟨rest, hrest⟩ := hprefix.trans hcs
      rw [strip?_eq_some_iff.2 hrest.symm] at hnone
      cases hnone

/-- There is a cut just if the separator occurs. -/
theorem isSome_splitFirst?_iff {sep : List Char} :
    (splitFirst? sep cs).isSome = true ↔ sep <:+: cs := by
  constructor
  · intro h
    obtain ⟨⟨a, b⟩, hsplit⟩ := Option.isSome_iff_exists.1 h
    exact ⟨a, b, (eq_append_of_splitFirst? hsplit).symm⟩
  · intro h
    induction cs with
    | nil =>
      obtain rfl := List.infix_nil.1 h
      rfl
    | cons c cs ih =>
      rw [splitFirst?]
      split
      next => rfl
      next hnone =>
        obtain ⟨rest, hrest⟩ | hlater := List.infix_cons_iff.1 h
        · rw [strip?_eq_some_iff.2 hrest.symm] at hnone
          cases hnone
        · rw [Option.isSome_map]
          exact ih hlater

theorem splitLast?_eq_none (h : x ∉ cs) : splitLast? x cs = none := by
  induction cs with
  | nil => rfl
  | cons c cs ih =>
    rw [List.mem_cons, not_or] at h
    simp [splitLast?, ih h.2, Ne.symm h.1]

/-- A text is cut at a character that does not occur later. -/
theorem splitLast?_append (hb : x ∉ b) : splitLast? x (a ++ x :: b) = some (a, b) := by
  induction a with
  | nil => simp [splitLast?, splitLast?_eq_none hb]
  | cons c a ih => simp [splitLast?, ih]

end Threading.Text

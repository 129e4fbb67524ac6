import Mathlib.Data.List.Infix
import Threading.Proofs.Text.Padded
import Threading.Record.Emitter
import Threading.Record.Schema

/-!
# Trace ids

Trace ids with different numbers differ. A trace id whose scenario has no colon is cut into
three parts, unless the run id holds a separator of its own: then there are more. A colon at
the end of the run id does no harm, although the cut then comes one character early.
-/
namespace Threading

/-! ## Cutting at a doubled character -/

namespace Text

variable {c d x : Char} {start cs rest : List Char}

/-- How many parts a text has. -/
def countParts (c : Char) (cs : List Char) : Nat := (splitPairs c c cs).length

theorem splitPairs_ne_nil (a b : Char) (cs : List Char) : splitPairs a b cs ≠ [] := by
  fun_induction splitPairs a b cs <;> simp

theorem countParts_pos (c : Char) (cs : List Char) : 0 < countParts c cs :=
  List.length_pos_iff.2 (splitPairs_ne_nil c c cs)

theorem countParts_pair (c : Char) (rest : List Char) :
    countParts c (c :: c :: rest) = countParts c rest + 1 := by
  simp [countParts, splitPairs]

theorem countParts_cons_cons (h : ¬ (x = c ∧ d = c)) :
    countParts c (x :: d :: rest) = countParts c (d :: rest) := by
  rw [countParts, countParts, splitPairs, if_neg h]
  split
  next heq => exact absurd heq (splitPairs_ne_nil c c _)
  next heq => simp [heq]

theorem countParts_cons_of_ne (h : x ≠ c) (rest : List Char) :
    countParts c (x :: rest) = countParts c rest := by
  cases rest with
  | nil => rfl
  | cons d rest => exact countParts_cons_cons fun heq => h heq.1

theorem countParts_append (h : c ∉ start) (rest : List Char) :
    countParts c (start ++ rest) = countParts c rest := by
  induction start with
  | nil => rfl
  | cons x start ih =>
    have hx : x ≠ c := fun heq => h (heq ▸ List.mem_cons_self)
    rw [List.cons_append, countParts_cons_of_ne hx, ih fun hc => h (List.mem_cons_of_mem x hc)]

theorem countParts_of_notMem (h : c ∉ cs) : countParts c cs = 1 := by
  have happend := countParts_append h []
  rwa [List.append_nil] at happend

theorem countParts_cons_self_of_notMem (h : c ∉ cs) : countParts c (c :: cs) = 1 := by
  cases cs with
  | nil => rfl
  | cons d cs =>
    have hd : d ≠ c := fun heq => h (heq ▸ List.mem_cons_self)
    rw [countParts_cons_cons fun heq => hd heq.2, countParts_of_notMem h]

/-- One more separator makes one more part, even where it follows a single one of its
characters: the cut comes earlier then, but no second one can follow. -/
theorem countParts_append_pair (h : c ∉ rest) :
    ∀ cs, countParts c (cs ++ c :: c :: rest) = countParts c cs + 1
  | [] => by rw [List.nil_append, countParts_pair, countParts_of_notMem h]; rfl
  | [x] => by
    have hsingle : countParts c [x] = 1 := rfl
    rw [List.singleton_append, hsingle]
    by_cases hx : x = c
    · rw [hx, countParts_pair, countParts_cons_self_of_notMem h]
    · rw [countParts_cons_of_ne hx, countParts_pair, countParts_of_notMem h]
  | x :: d :: cs => by
    have ih := countParts_append_pair h (d :: cs)
    rw [List.cons_append, List.cons_append]
    by_cases hpair : x = c ∧ d = c
    · rw [hpair.1, hpair.2, countParts_pair, countParts_append_pair h cs, countParts_pair]
    · rw [countParts_cons_cons hpair, countParts_cons_cons hpair, ← List.cons_append, ih]

/-- A text is left whole if the separator does not occur in it. -/
theorem countParts_eq_one_iff : ∀ cs, countParts c cs = 1 ↔ ¬ [c, c] <:+: cs
  | [] => by simp [countParts, splitPairs]
  | [x] => by simp [countParts, splitPairs, List.infix_cons_iff]
  | x :: d :: cs => by
    rw [List.infix_cons_iff, List.cons_prefix_cons, List.cons_prefix_cons]
    by_cases hpair : x = c ∧ d = c
    · have hpos := countParts_pos c cs
      rw [hpair.1, hpair.2, countParts_pair]
      exact iff_of_false (by omega) (not_not_intro (.inl ⟨rfl, rfl, List.nil_prefix⟩))
    · rw [countParts_cons_cons hpair, countParts_eq_one_iff (d :: cs),
        or_iff_right fun h => hpair ⟨h.1.symm, h.2.1.symm⟩]

end Text

namespace Record.Emitter

variable {e e' : Emitter}

/-- The trace ids depend on the scenario run alone. -/
theorem traceId_congr (hscenario : e'.scenario = e.scenario) (hrunId : e'.runId = e.runId) :
    e'.traceId = e.traceId := by
  funext n
  rw [traceId, hscenario, hrunId, traceId]

theorem traceId_injective (e : Emitter) : Function.Injective e.traceId := by
  intro m n h
  have hdigits : Text.paddedDecimal 3 m = Text.paddedDecimal 3 n := by
    simpa [traceId, String.ext_iff] using h
  exact Text.paddedDecimal_inj.1 (congrArg String.toList hdigits)

/-- A trace id is well-formed just if the run id does not hold the separator. -/
theorem isTraceId_traceId (h : ':' ∉ e.scenario.toList) (n : Nat) :
    IsTraceId (e.traceId n) ↔ ¬ "::".toList <:+: e.runId.toList := by
  have hlist : (e.traceId n).toList = e.scenario.toList ++
      ':' :: ':' :: (e.runId.toList ++ ':' :: ':' :: (Text.paddedDecimal 3 n).toList) := by
    simp [traceId]
  have hcount : (traceParts (e.traceId n)).length = Text.countParts ':' e.runId.toList + 2 := by
    rw [traceParts, hlist, ← Text.countParts, Text.countParts_append h, Text.countParts_pair,
      Text.countParts_append_pair (Text.notMem_paddedDecimal rfl 3 n)]
  have hone : "::".toList <:+: e.runId.toList ↔ [':', ':'] <:+: e.runId.toList := Iff.rfl
  rw [IsTraceId, hcount, hone, ← Text.countParts_eq_one_iff]
  omega

end Record.Emitter
end Threading

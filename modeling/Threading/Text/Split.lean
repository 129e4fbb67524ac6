/-!
# Splitting at a separator

A text is cut at the first, at the last or at every occurrence of a separator.
Occurrences are found from the left and do not overlap, so `":::"` holds one
occurrence of `"::"`, at its start.
-/
namespace Threading.Text

/-- The part after `start`, when the text begins with it. -/
def strip? : (start cs : List Char) → Option (List Char)
  | [], cs => some cs
  | _ :: _, [] => none
  | s :: start, c :: cs => if s = c then strip? start cs else none

/-- Cuts at the first occurrence of the separator. -/
def splitFirst? (sep : List Char) : List Char → Option (List Char × List Char)
  | [] => (strip? sep []).map ([], ·)
  | c :: cs =>
    match strip? sep (c :: cs) with
    | some rest => some ([], rest)
    | none => (splitFirst? sep cs).map fun (before, rest) => (c :: before, rest)

/-- Cuts at the last occurrence of a one-character separator. -/
def splitLast? (sep : Char) : List Char → Option (List Char × List Char)
  | [] => none
  | c :: cs =>
    match splitLast? sep cs with
    | some (before, rest) => some (c :: before, rest)
    | none => if c = sep then some ([], cs) else none

/-- The parts between the occurrences of the two-character separator `ab`; there
is always at least one part. -/
def splitPairs (a b : Char) : List Char → List (List Char)
  | [] => [[]]
  | [c] => [[c]]
  | c :: d :: rest =>
    if c = a ∧ d = b then [] :: splitPairs a b rest
    else
      match splitPairs a b (d :: rest) with
      | [] => [[c]]
      | part :: parts => (c :: part) :: parts

theorem strip?_eq_some_iff {start cs rest : List Char} :
    strip? start cs = some rest ↔ cs = start ++ rest := by
  induction start generalizing cs with
  | nil => simp [strip?]
  | cons s start ih =>
    cases cs with
    | nil => simp [strip?]
    | cons c cs =>
      by_cases h : s = c
      · simp [strip?, h, ih]
      · simp only [strip?, h, ↓reduceIte, reduceCtorEq, List.cons_append, List.cons.injEq,
          false_iff, not_and]
        exact fun hc => absurd hc.symm h

theorem eq_append_of_splitFirst? {sep cs before rest : List Char}
    (h : splitFirst? sep cs = some (before, rest)) : cs = before ++ sep ++ rest := by
  induction cs generalizing before with
  | nil =>
    obtain ⟨r, hr, heq⟩ := Option.map_eq_some_iff.1 h
    obtain ⟨rfl, rfl⟩ := Prod.mk.inj heq
    simpa using strip?_eq_some_iff.1 hr
  | cons c cs ih =>
    unfold splitFirst? at h
    split at h
    next r hr =>
      obtain ⟨rfl, rfl⟩ := Prod.mk.inj (Option.some.inj h)
      simpa using strip?_eq_some_iff.1 hr
    next =>
      obtain ⟨⟨b, r⟩, hr, heq⟩ := Option.map_eq_some_iff.1 h
      obtain ⟨rfl, rfl⟩ := Prod.mk.inj heq
      simp [ih hr]

theorem eq_append_of_splitLast? {sep : Char} {cs before rest : List Char}
    (h : splitLast? sep cs = some (before, rest)) : cs = before ++ sep :: rest := by
  induction cs generalizing before with
  | nil => simp [splitLast?] at h
  | cons c cs ih =>
    unfold splitLast? at h
    split at h
    next b r hr =>
      obtain ⟨rfl, rfl⟩ := Prod.mk.inj (Option.some.inj h)
      simp [ih hr]
    next =>
      split at h
      next hc =>
        obtain ⟨rfl, rfl⟩ := Prod.mk.inj (Option.some.inj h)
        simp [hc]
      next => simp at h

end Threading.Text

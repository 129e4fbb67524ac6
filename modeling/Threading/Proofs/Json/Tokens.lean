import Threading.Proofs.Json.Numerals

/-!
# The tokens of a written value

A written value is cut into exactly the tokens it is made of, one a turn, so the
turns that the length of the text allows are enough.
-/
namespace Threading.Json

mutual

/-- The tokens of the text of a value. -/
def tokens : Json → List Token
  | .null => [.scalar .null]
  | .bool b => [.scalar (.bool b)]
  | .int n => [.scalar (.int n)]
  | .float x => [.scalar (.float x)]
  | .string s => [.string s]
  | .array items => .openBracket :: (tokensOfItems items ++ [.closeBracket])
  | .object fields => .openBrace :: (tokensOfFields fields ++ [.closeBrace])

def tokensOfItems : List Json → List Token
  | [] => []
  | v :: items => v.tokens ++ tokensOfMoreItems items

/-- The tokens of items that come after another one. -/
def tokensOfMoreItems : List Json → List Token
  | [] => []
  | v :: items => .comma :: (v.tokens ++ tokensOfMoreItems items)

def tokensOfFields : List (String × Json) → List Token
  | [] => []
  | (key, v) :: fields => .string key :: .colon :: (v.tokens ++ tokensOfMoreFields fields)

/-- The tokens of fields that come after another one. -/
def tokensOfMoreFields : List (String × Json) → List Token
  | [] => []
  | (key, v) :: fields =>
    .comma :: .string key :: .colon :: (v.tokens ++ tokensOfMoreFields fields)

end

/-- The text is cut into the tokens, one a turn, when `rest` follows it. -/
structure Cuts (cs : List Char) (ts : List Token) (rest : List Char) : Prop where
  length_le : ts.length ≤ cs.length
  turns : ∀ fuel, tokensFrom? (fuel + ts.length) (cs ++ rest) =
    (tokensFrom? fuel rest).map (ts ++ ·)

variable {c : Char} {cs ds rest : List Char} {t : Token} {ts us : List Token}

namespace Cuts

theorem nil : Cuts [] [] rest := ⟨Nat.le_refl 0, fun fuel => by simp⟩

theorem one (hc : isSpace c = false) (ht : takeToken? c (cs ++ rest) = some (t, rest)) :
    Cuts (c :: cs) [t] rest := by
  refine ⟨by simp, fun fuel => ?_⟩
  simp only [List.length_singleton, List.cons_append, tokensFrom?, hc, Bool.false_eq_true, if_false,
    ht, Option.bind_eq_bind, Option.bind_some]
  cases tokensFrom? fuel rest <;> rfl

theorem append (h : Cuts cs ts (ds ++ rest)) (h' : Cuts ds us rest) :
    Cuts (cs ++ ds) (ts ++ us) rest := by
  refine ⟨?_, fun fuel => ?_⟩
  · have hlen := h.length_le
    have hlen' := h'.length_le
    simp only [List.length_append]
    omega
  · have hfuel : fuel + (ts ++ us).length = fuel + us.length + ts.length := by
      simp only [List.length_append]
      omega
    rw [hfuel, List.append_assoc, h.turns, h'.turns, Option.map_map]
    simp [Function.comp_def]

theorem cons (h : Cuts [c] [t] (cs ++ rest)) (h' : Cuts cs ts rest) :
    Cuts (c :: cs) (t :: ts) rest :=
  h.append h'

theorem tokens? (h : Cuts cs ts []) : tokens? cs = some ts := by
  obtain ⟨k, hk⟩ := Nat.exists_eq_add_of_le' h.length_le
  have hturns := h.turns k
  rw [List.append_nil, ← hk] at hturns
  simp [Json.tokens?, hturns, tokensFrom?]

end Cuts

theorem endsNumeral_cons (h : isDigit c = false ∧ c ≠ '.' ∧ c ≠ 'e' ∧ c ≠ 'E') (cs : List Char) :
    EndsNumeral (c :: cs) := by
  simpa [EndsNumeral] using h

theorem cuts_quote (s : String) (rest : List Char) : Cuts (quote s) [.string s] rest := by
  have h := takeToken?_quote s rest
  rw [← List.singleton_append, ← List.append_assoc] at h
  exact .one rfl h

mutual

theorem cuts_write : ∀ (v : Json), v.Exact → ∀ {rest}, EndsNumeral rest →
    Cuts (write v) v.tokens rest
  | .null, _, _, _ => .one rfl rfl
  | .bool true, _, _, _ => .one rfl rfl
  | .bool false, _, _, _ => .one rfl rfl
  | .int n, h, rest, hrest => by
    obtain ⟨c, cs, heq, hc, ht⟩ := takeToken?_signedDecimal h hrest
    rw [write, heq]
    exact .one hc ht
  | .string s, _, rest, _ => cuts_quote s rest
  | .array items, h, rest, _ =>
    .cons (.one rfl rfl) ((cuts_writeItems items h (endsNumeral_cons (by decide) _)).append
      (.one rfl rfl))
  | .object fields, h, rest, _ =>
    .cons (.one rfl rfl) ((cuts_writeFields fields h.2 (endsNumeral_cons (by decide) _)).append
      (.one rfl rfl))

theorem cuts_writeItems : ∀ (items : List Json), ExactItems items → ∀ {rest}, EndsNumeral rest →
    Cuts (writeItems items) (tokensOfItems items) rest
  | [], _, _, _ => .nil
  | [v], h, _, hrest => by
    rw [tokensOfItems, tokensOfMoreItems, List.append_nil]
    exact cuts_write v h.1 hrest
  | v :: w :: items, h, _, hrest =>
    (cuts_write v h.1 (endsNumeral_cons (by decide) _)).append
      (.cons (.one rfl rfl) (cuts_writeItems (w :: items) h.2 hrest))

theorem cuts_writeFields : ∀ (fields : List (String × Json)), ExactFields fields →
    ∀ {rest}, EndsNumeral rest → Cuts (writeFields fields) (tokensOfFields fields) rest
  | [], _, _, _ => .nil
  | [(key, v)], h, _, hrest => by
    rw [tokensOfFields, tokensOfMoreFields, List.append_nil]
    exact (cuts_quote key _).append (.cons (.one rfl rfl) (cuts_write v h.1 hrest))
  | (key, v) :: w :: fields, h, _, hrest =>
    ((cuts_quote key _).append
        (.cons (.one rfl rfl) (cuts_write v h.1 (endsNumeral_cons (by decide) _)))).append
      (.cons (.one rfl rfl) (cuts_writeFields (w :: fields) h.2 hrest))

end

/-! ## Control characters -/

mutual

theorem printable_write : ∀ (v : Json), v.Exact → Printable (write v)
  | .null, _ => by decide
  | .bool true, _ => by decide
  | .bool false, _ => by decide
  | .int n, _ => printable_signedDecimal n
  | .string s, _ => printable_quote s
  | .array items, h => by
    rw [write, List.cons_append, printable_cons, printable_append]
    exact ⟨by decide, printable_writeItems items h, by decide⟩
  | .object fields, h => by
    rw [write, List.cons_append, printable_cons, printable_append]
    exact ⟨by decide, printable_writeFields fields h.2, by decide⟩

theorem printable_writeItems : ∀ (items : List Json), ExactItems items →
    Printable (writeItems items)
  | [], _ => printable_nil
  | [v], h => printable_write v h.1
  | v :: w :: items, h => by
    rw [writeItems, printable_append, printable_cons]
    · exact ⟨printable_write v h.1, by decide, printable_writeItems (w :: items) h.2⟩
    · simp

theorem printable_writeFields : ∀ (fields : List (String × Json)), ExactFields fields →
    Printable (writeFields fields)
  | [], _ => printable_nil
  | [(key, v)], h => by
    rw [writeFields, printable_append, printable_cons]
    exact ⟨printable_quote key, by decide, printable_write v h.1⟩
  | (key, v) :: w :: fields, h => by
    rw [writeFields, printable_append, printable_append, printable_cons, printable_cons]
    · exact ⟨⟨printable_quote key, by decide, printable_write v h.1⟩, by decide,
        printable_writeFields (w :: fields) h.2⟩
    · simp

end

theorem printable_write_object {fields : List (String × Json)} (h : ExactFields fields) :
    Printable (write (.object fields)) := by
  rw [write, List.cons_append, printable_cons, printable_append]
  exact ⟨by decide, printable_writeFields fields h, by decide⟩

end Threading.Json

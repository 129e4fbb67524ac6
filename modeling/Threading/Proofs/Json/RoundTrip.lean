import Threading.Json.Reader
import Threading.Proofs.Json.Fields
import Threading.Proofs.Json.Tokens

/-!
# Values read back

The tokens of a value are put together to this value, with whatever containers are
open around it, as long as its own containers still fit in. So the text of an object
is read as the object that its fields make up when they are put one after the other.
-/
namespace Threading.Json

variable {v w : Json} {key k : String} {t : Token} {ts : List Token} {stack : List Open}
variable {items acc : List Json}

/-! ## Turns of the reader -/

theorem readValue?_openBracket (h : ∀ ts', ts ≠ .closeBracket :: ts') (hopen : stack.length < maxOpen) :
    readValue? stack (.openBracket :: ts) = readValue? (.array [] :: stack) ts := by
  rw [readValue?, if_pos hopen]
  exact h

theorem resume?_comma_array (h : ∀ key ts', ts ≠ .string key :: .colon :: ts') :
    resume? (.array acc :: stack) v (.comma :: ts) = readValue? (.array (v :: acc) :: stack) ts := by
  rw [resume?]
  exact h

theorem tokens_append_ne_closeBracket (v : Json) (ts ts' : List Token) :
    v.tokens ++ ts ≠ .closeBracket :: ts' := by
  cases v <;> simp [tokens]

/-- A value that is not followed by a colon is not taken for a key. -/
theorem tokens_append_ne_key (h : t ≠ .colon) (v : Json) (ts : List Token) (key : String)
    (ts' : List Token) : v.tokens ++ t :: ts ≠ .string key :: .colon :: ts' := by
  cases v <;> simp [tokens, h]

/-- Between items comes a comma and after the last one a bracket. -/
theorem exists_tokensOfMoreItems_append (items : List Json) (ts : List Token) :
    ∃ t ts', tokensOfMoreItems items ++ .closeBracket :: ts = t :: ts' ∧ t ≠ .colon := by
  cases items with
  | nil => exact ⟨_, _, rfl, by simp⟩
  | cons v items => exact ⟨_, _, rfl, by simp⟩

/-! ## Values -/

mutual

theorem readValue?_tokens : ∀ (v : Json), v.Exact → ∀ (stack : List Open) (ts : List Token),
    stack.length + v.depth ≤ maxOpen → readValue? stack (v.tokens ++ ts) = resume? stack v ts
  | .null, _, _, _, _ => by rw [tokens, List.singleton_append, readValue?]
  | .bool _, _, _, _, _ => by rw [tokens, List.singleton_append, readValue?]
  | .int _, _, _, _, _ => by rw [tokens, List.singleton_append, readValue?]
  | .string _, _, _, _, _ => by rw [tokens, List.singleton_append, readValue?]
  | .array [], _, stack, ts, hdepth => by
    simp only [depth, depthOfItems] at hdepth
    rw [tokens, tokensOfItems, List.nil_append, List.cons_append, List.singleton_append,
      readValue?, if_pos (by omega)]
  | .array (v :: items), h, stack, ts, hdepth => by
    simp only [depth, depthOfItems] at hdepth
    rw [tokens, tokensOfItems, List.append_assoc, List.cons_append, List.append_assoc,
      List.append_assoc, List.singleton_append,
      readValue?_openBracket (tokens_append_ne_closeBracket v _) (by omega),
      readValue?_tokens v h.1 _ _ (by rw [List.length_cons]; omega),
      resume?_moreItems items h.2 _ _ _ _ (by omega)]
    rfl
  | .object fields, h, stack, ts, hdepth => by
    simp only [depth] at hdepth
    rw [tokens, List.cons_append, List.append_assoc, List.singleton_append,
      readValue?_fields fields h.2 _ _ (by omega), putAll_eq_append (by simpa [Ascending] using h.1),
      List.nil_append]

theorem resume?_moreItems : ∀ (items : List Json), ExactItems items →
    ∀ (acc : List Json) (w : Json) (stack : List Open) (ts : List Token),
      stack.length + 1 + depthOfItems items ≤ maxOpen →
      resume? (.array acc :: stack) w (tokensOfMoreItems items ++ .closeBracket :: ts) =
        resume? stack (.array ((w :: acc).reverse ++ items)) ts
  | [], _, acc, w, stack, ts, _ => by
    rw [tokensOfMoreItems, List.nil_append, resume?, List.append_nil]
  | v :: items, h, acc, w, stack, ts, hdepth => by
    simp only [depthOfItems] at hdepth
    obtain ⟨t, ts', heq, ht⟩ := exists_tokensOfMoreItems_append items ts
    rw [tokensOfMoreItems, List.cons_append, List.append_assoc,
      resume?_comma_array (heq ▸ tokens_append_ne_key ht v ts'),
      readValue?_tokens v h.1 _ _ (by rw [List.length_cons]; omega),
      resume?_moreItems items h.2 _ _ _ _ (by omega)]
    simp

/-- The fields of an object that is opened are put one after the other. -/
theorem readValue?_fields : ∀ (fields : List (String × Json)), ExactFields fields →
    ∀ (stack : List Open) (ts : List Token), stack.length + 1 + depthOfFields fields ≤ maxOpen →
      readValue? stack (.openBrace :: (tokensOfFields fields ++ .closeBrace :: ts)) =
        resume? stack (.object (putAll [] fields)) ts
  | [], _, stack, ts, hdepth => by
    rw [tokensOfFields, List.nil_append, readValue?, if_pos (by omega)]
    rfl
  | (key, v) :: fields, h, stack, ts, hdepth => by
    simp only [depthOfFields] at hdepth
    rw [tokensOfFields, List.cons_append, List.cons_append, List.append_assoc, readValue?,
      if_pos (by omega), readValue?_tokens v h.1 _ _ (by rw [List.length_cons]; omega),
      resume?_moreFields fields h.2 _ _ _ _ _ (by omega)]
    rfl

theorem resume?_moreFields : ∀ (fields : List (String × Json)), ExactFields fields →
    ∀ (acc : List (String × Json)) (k : String) (w : Json) (stack : List Open) (ts : List Token),
      stack.length + 1 + depthOfFields fields ≤ maxOpen →
      resume? (.object acc k :: stack) w (tokensOfMoreFields fields ++ .closeBrace :: ts) =
        resume? stack (.object (putAll (putField k w acc) fields)) ts
  | [], _, acc, k, w, stack, ts, _ => by
    rw [tokensOfMoreFields, List.nil_append, resume?]
    rfl
  | (key, v) :: fields, h, acc, k, w, stack, ts, hdepth => by
    simp only [depthOfFields] at hdepth
    rw [tokensOfMoreFields, List.cons_append, List.cons_append, List.cons_append,
      List.append_assoc, resume?, readValue?_tokens v h.1 _ _ (by rw [List.length_cons]; omega),
      resume?_moreFields fields h.2 _ _ _ _ _ (by omega), putAll_cons]

end

/-! ## Texts -/

/-- The text of an object is read as what its fields make up, in whatever order they are. -/
theorem ofText?_text_object {fields : List (String × Json)} (h : ExactFields fields)
    (hdepth : depthOfFields fields < maxOpen) :
    ofText? (text (.object fields)) = some (ofFields fields) := by
  have hcuts : Cuts (write (.object fields)) (tokens (.object fields)) [] :=
    .cons (.one rfl rfl) ((cuts_writeFields fields h (endsNumeral_cons (by decide) _)).append
      (.one rfl rfl))
  have hread := readValue?_fields fields h [] [] (by rw [List.length_nil]; omega)
  rw [ofText?, text, String.toList_ofList, hcuts.tokens?, Option.bind_some, tokens, hread, resume?]
  rfl

end Threading.Json

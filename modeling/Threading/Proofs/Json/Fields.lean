import Threading.Json.Basic

/-!
# Fields of objects

Putting fields one after the other keeps the keys of an object ascending, and a key
then has the value that was put last. Fields that come in ascending order are kept
as they are.
-/
namespace Threading.Json

/-- The keys are in ascending order, each once. -/
def Ascending (fields : List (String × Json)) : Prop := (fields.map (·.1)).Pairwise (· < ·)

/-- Puts fields one after the other. -/
def putAll (acc fields : List (String × Json)) : List (String × Json) :=
  fields.foldl (fun acc (k, v) => putField k v acc) acc

variable {n : Nat} {key k : String} {v : Json} {f : String × Json} {items : List Json}
variable {acc fields gs : List (String × Json)}

theorem ofFields_eq (fields : List (String × Json)) : ofFields fields = .object (putAll [] fields) :=
  rfl

theorem putAll_cons : putAll acc ((key, v) :: fields) = putAll (putField key v acc) fields := rfl

/-! ## Looking up -/

@[simp] theorem lookup?_nil : lookup? [] k = none := rfl

@[simp] theorem lookup?_cons :
    lookup? ((key, v) :: fields) k = if key = k then some v else lookup? fields k := by
  rw [lookup?, List.find?_cons]
  by_cases h : key = k <;> simp [h, lookup?]

@[simp] theorem lookup?_append : lookup? (fields ++ gs) k = (lookup? fields k).or (lookup? gs k) := by
  simp only [lookup?, List.find?_append, Option.map_or]

theorem mem_of_lookup? (h : lookup? fields k = some v) : (k, v) ∈ fields := by
  obtain ⟨⟨key, w⟩, hfind, rfl⟩ := Option.map_eq_some_iff.1 h
  obtain rfl : key = k := by simpa using List.find?_some hfind
  exact List.mem_of_find?_eq_some hfind

theorem lookup?_eq_none (h : k ∉ fields.map (·.1)) : lookup? fields k = none := by
  cases hv : lookup? fields k with
  | none => rfl
  | some v => exact absurd (List.mem_map_of_mem (f := (·.1)) (mem_of_lookup? hv)) h

theorem lookup?_putField (key : String) (v : Json) (fields : List (String × Json)) (k : String) :
    lookup? (putField key v fields) k = if key = k then some v else lookup? fields k := by
  induction fields with
  | nil => simp [putField]
  | cons g fields ih =>
    obtain ⟨key', w⟩ := g
    rw [putField]
    split
    next => rw [lookup?_cons]
    next =>
      split
      next heq =>
        subst heq
        rw [lookup?_cons, lookup?_cons]
        split <;> rfl
      next hne =>
        rw [lookup?_cons, lookup?_cons, ih]
        split
        next hk => rw [if_neg fun h => hne (h.trans hk.symm)]
        next => rfl

theorem lookup?_putAll (h : (fields.map (·.1)).Nodup) (acc : List (String × Json)) (k : String) :
    lookup? (putAll acc fields) k = (lookup? fields k).or (lookup? acc k) := by
  induction fields generalizing acc with
  | nil => rfl
  | cons g fields ih =>
    obtain ⟨key, v⟩ := g
    obtain ⟨hnotin, hnodup⟩ := List.nodup_cons.1 h
    rw [putAll_cons, ih hnodup, lookup?_putField, lookup?_cons]
    split
    next heq => rw [lookup?_eq_none (heq ▸ hnotin), Option.none_or, Option.some_or]
    next => rfl

/-! ## Order -/

theorem mem_putField (h : f ∈ putField key v fields) : f = (key, v) ∨ f ∈ fields := by
  induction fields with
  | nil => exact .inl (List.mem_singleton.1 h)
  | cons g fields ih =>
    rw [putField] at h
    grind

theorem ascending_nil : Ascending [] := List.Pairwise.nil

theorem Ascending.putField (h : Ascending fields) (key : String) (v : Json) :
    Ascending (putField key v fields) := by
  induction fields with
  | nil => simp [Ascending, Json.putField]
  | cons g fields ih =>
    obtain ⟨key', w⟩ := g
    obtain ⟨hfirst, hrest⟩ := List.pairwise_cons.1 h
    rw [Json.putField]
    split
    next hlt =>
      refine List.pairwise_cons.2 ⟨?_, h⟩
      rintro k hk
      obtain rfl | hk := List.mem_cons.1 hk
      · exact hlt
      · exact String.lt_trans hlt (hfirst k hk)
    next hge =>
      split
      next heq => exact List.pairwise_cons.2 ⟨heq ▸ hfirst, hrest⟩
      next hne =>
        have hlt : key' < key := Std.lt_of_le_of_ne (String.not_lt.1 hge) (Ne.symm hne)
        refine List.pairwise_cons.2 ⟨fun k hk => ?_, ih hrest⟩
        obtain ⟨f, hf, rfl⟩ := List.mem_map.1 hk
        obtain rfl | hf := mem_putField hf
        · exact hlt
        · exact hfirst f.1 (List.mem_map_of_mem hf)

theorem putField_eq_append (h : ∀ f ∈ fields, f.1 < key) :
    putField key v fields = fields ++ [(key, v)] := by
  induction fields with
  | nil => rfl
  | cons g fields ih =>
    obtain ⟨key', w⟩ := g
    obtain ⟨hlt, hrest⟩ := List.forall_mem_cons.1 h
    rw [putField, if_neg (String.lt_asymm hlt), if_neg (String.ne_of_lt hlt).symm, ih hrest,
      List.cons_append]

theorem putAll_eq_append (h : Ascending (acc ++ fields)) : putAll acc fields = acc ++ fields := by
  induction fields generalizing acc with
  | nil => exact (List.append_nil acc).symm
  | cons g fields ih =>
    obtain ⟨key, v⟩ := g
    have hacc : ∀ f ∈ acc, f.1 < key := by
      intro f hf
      rw [Ascending, List.map_append, List.pairwise_append] at h
      exact h.2.2 f.1 (List.mem_map_of_mem hf) key (by simp)
    rw [putAll_cons, putField_eq_append hacc, ih (by simpa using h), List.append_assoc,
      List.singleton_append]

/-! ## Members of containers -/

theorem forall_exactFields_iff : ExactFields fields ↔ ∀ f ∈ fields, f.2.Exact := by
  induction fields with
  | nil => simp [ExactFields]
  | cons f rest ih => rw [ExactFields, ih, List.forall_mem_cons]

theorem depthOfItems_le_iff : depthOfItems items ≤ n ↔ ∀ v ∈ items, v.depth ≤ n := by
  induction items with
  | nil => simp [depthOfItems]
  | cons v rest ih => rw [depthOfItems, Nat.max_le, ih, List.forall_mem_cons]

theorem depthOfFields_le_iff : depthOfFields fields ≤ n ↔ ∀ f ∈ fields, f.2.depth ≤ n := by
  induction fields with
  | nil => simp [depthOfFields]
  | cons f rest ih => rw [depthOfFields, Nat.max_le, ih, List.forall_mem_cons]

end Threading.Json

import Mathlib.Tactic.SplitIfs
import Threading.Json.Reader
import Threading.Proofs.Json.Fields

/-!
# What a text can denote

Whatever text is read, the value has only integers that 64 bits hold, its objects list
their keys in ascending order, and its containers nest no deeper than the reader allows.
So it could be written and read back, were it not for floating-point numbers.
-/
namespace Threading.Json

mutual

/-- Integers are in range and keys ascend, at every depth. -/
def Canonical : Json → Prop
  | .int n => IntegerInRange n
  | .array items => CanonicalItems items
  | .object fields => Ascending fields ∧ CanonicalFields fields
  | _ => True

def CanonicalItems : List Json → Prop
  | [] => True
  | v :: rest => v.Canonical ∧ CanonicalItems rest

def CanonicalFields : List (String × Json) → Prop
  | [] => True
  | (_, v) :: rest => v.Canonical ∧ CanonicalFields rest

end

mutual

/-- There is no floating-point number at any depth. -/
def FloatFree : Json → Prop
  | .float _ => False
  | .array items => FloatFreeItems items
  | .object fields => FloatFreeFields fields
  | _ => True

def FloatFreeItems : List Json → Prop
  | [] => True
  | v :: rest => v.FloatFree ∧ FloatFreeItems rest

def FloatFreeFields : List (String × Json) → Prop
  | [] => True
  | (_, v) :: rest => v.FloatFree ∧ FloatFreeFields rest

end

mutual

theorem exact_iff : ∀ v : Json, v.Exact ↔ v.Canonical ∧ v.FloatFree
  | .null | .bool _ | .int _ | .float _ | .string _ => by simp [Exact, Canonical, FloatFree]
  | .array items => exactItems_iff items
  | .object fields => by
    rw [Exact, Canonical, FloatFree, exactFields_iff fields, and_assoc, Ascending]

theorem exactItems_iff : ∀ items : List Json,
    ExactItems items ↔ CanonicalItems items ∧ FloatFreeItems items
  | [] => by simp [ExactItems, CanonicalItems, FloatFreeItems]
  | v :: rest => by
    rw [ExactItems, CanonicalItems, FloatFreeItems, exact_iff v, exactItems_iff rest,
      and_and_and_comm]

theorem exactFields_iff : ∀ fields : List (String × Json),
    ExactFields fields ↔ CanonicalFields fields ∧ FloatFreeFields fields
  | [] => by simp [ExactFields, CanonicalFields, FloatFreeFields]
  | (_, v) :: rest => by
    rw [ExactFields, CanonicalFields, FloatFreeFields, exact_iff v, exactFields_iff rest,
      and_and_and_comm]

end

variable {n : Nat} {v r : Json} {items : List Json} {fields : List (String × Json)}
variable {c : Char} {cs rest : List Char} {t : Token} {ts : List Token} {stack : List Open}

/-! ## Members of containers -/

theorem canonicalItems_iff : CanonicalItems items ↔ ∀ v ∈ items, v.Canonical := by
  induction items with
  | nil => simp [CanonicalItems]
  | cons v rest ih => rw [CanonicalItems, ih, List.forall_mem_cons]

theorem canonicalFields_iff : CanonicalFields fields ↔ ∀ f ∈ fields, f.2.Canonical := by
  induction fields with
  | nil => simp [CanonicalFields]
  | cons f rest ih => rw [CanonicalFields, ih, List.forall_mem_cons]

/-- The value may stand inside `n` open containers. -/
def Fits (n : Nat) (v : Json) : Prop := v.Canonical ∧ n + v.depth ≤ maxOpen

theorem fits_array (hn : n < maxOpen) (h : ∀ v ∈ items, Fits (n + 1) v) : Fits n (.array items) := by
  have hdepth : depthOfItems items ≤ maxOpen - (n + 1) :=
    depthOfItems_le_iff.2 fun v hv => by have := (h v hv).2; omega
  exact ⟨canonicalItems_iff.2 fun v hv => (h v hv).1, by rw [depth]; omega⟩

theorem fits_object (hn : n < maxOpen) (hkeys : Ascending fields)
    (h : ∀ f ∈ fields, Fits (n + 1) f.2) : Fits n (.object fields) := by
  have hdepth : depthOfFields fields ≤ maxOpen - (n + 1) :=
    depthOfFields_le_iff.2 fun f hf => by have := (h f hf).2; omega
  exact ⟨⟨hkeys, canonicalFields_iff.2 fun f hf => (h f hf).1⟩, by rw [depth]; omega⟩

theorem Fits.of_field {key : String} (h : Fits n (.object fields)) (hv : (key, v) ∈ fields) :
    Fits (n + 1) v := by
  obtain ⟨⟨-, hcanonical⟩, hdepth⟩ := h
  rw [depth] at hdepth
  have hle : v.depth ≤ depthOfFields fields := depthOfFields_le_iff.1 (Nat.le_refl _) _ hv
  exact ⟨canonicalFields_iff.1 hcanonical _ hv, by omega⟩

/-! ## Tokens -/

/-- The scalars among the tokens are canonical and no containers. -/
def Scalars (ts : List Token) : Prop := ∀ v, .scalar v ∈ ts → v.Canonical ∧ v.depth = 0

theorem Scalars.tail (h : Scalars (t :: ts)) : Scalars ts :=
  fun v hv => h v (List.mem_cons_of_mem _ hv)

theorem canonical_of_value? {n : Numeral} (h : n.value? = some v) : v.Canonical ∧ v.depth = 0 := by
  have hsize : (UInt64.size : Int) = 0x1_0000_0000_0000_0000 := rfl
  have hsize' : UInt64.size = 0x1_0000_0000_0000_0000 := rfl
  rw [Numeral.value?] at h
  split at h
  next hm =>
    obtain rfl := Option.some.inj h
    exact ⟨⟨by omega, by omega⟩, rfl⟩
  next =>
    split at h
    next hm =>
      obtain rfl := Option.some.inj h
      exact ⟨⟨by omega, by omega⟩, rfl⟩
    next =>
      obtain ⟨x, -, rfl⟩ := Option.map_eq_some_iff.1 h
      exact ⟨trivial, rfl⟩

theorem canonical_of_takeToken? (h : takeToken? c cs = some (.scalar v, rest)) :
    v.Canonical ∧ v.depth = 0 := by
  rw [takeToken?.eq_def] at h
  split_ifs at h
  iterate 6 cases h
  · obtain ⟨p, -, heq⟩ := Option.map_eq_some_iff.1 h
    cases heq
  · split at h
    · cases h
      exact ⟨trivial, rfl⟩
    · cases h
      exact ⟨trivial, rfl⟩
    · cases h
      exact ⟨trivial, rfl⟩
    · simp only [Option.bind_eq_bind, Option.bind_eq_some_iff] at h
      obtain ⟨p, -, w, hw, heq⟩ := h
      cases heq
      exact canonical_of_value? hw

theorem scalars_of_tokensFrom? {fuel : Nat} (h : tokensFrom? fuel cs = some ts) : Scalars ts := by
  induction fuel generalizing cs ts with
  | zero =>
    cases cs with
    | nil => simp [Scalars, ← Option.some.inj h]
    | cons c rest => exact absurd h (by simp [tokensFrom?])
  | succ fuel ih =>
    cases cs with
    | nil => simp [Scalars, ← Option.some.inj h]
    | cons c rest =>
      rw [tokensFrom?] at h
      split at h
      · exact ih h
      · simp only [Option.bind_eq_bind, Option.bind_eq_some_iff] at h
        obtain ⟨⟨t, rest'⟩, ht, us, hus, heq⟩ := h
        obtain rfl := Option.some.inj heq
        intro v hv
        obtain rfl | hv := List.mem_cons.1 hv
        · exact canonical_of_takeToken? ht
        · exact ih hus v hv

/-! ## Values -/

/-- What has been read into the open containers fits into them. -/
def Pending : List Open → Prop
  | [] => True
  | .array items :: stack =>
    stack.length < maxOpen ∧ (∀ v ∈ items, Fits (stack.length + 1) v) ∧ Pending stack
  | .object fields _ :: stack =>
    stack.length < maxOpen ∧ Ascending fields ∧ (∀ f ∈ fields, Fits (stack.length + 1) f.2) ∧
      Pending stack

theorem Pending.length_le (h : Pending stack) : stack.length ≤ maxOpen := by
  match stack, h with
  | [], _ => exact Nat.zero_le _
  | .array _ :: _, h => exact h.1
  | .object _ _ :: _, h => exact h.1

theorem Pending.fits_of_depth (h : Pending stack) (hv : v.Canonical ∧ v.depth = 0) :
    Fits stack.length v :=
  ⟨hv.1, by rw [hv.2]; exact h.length_le⟩

/-- A field that is put into the innermost object keeps it as it has to be. -/
theorem Pending.put {k : String} (h : Pending (.object fields k :: stack))
    (hv : Fits (stack.length + 1) v) (key : String) :
    Pending (.object (putField k v fields) key :: stack) := by
  obtain ⟨hlen, hkeys, hfields, hstack⟩ := h
  refine ⟨hlen, hkeys.putField k v, fun f hf => ?_, hstack⟩
  obtain rfl | hf := mem_putField hf
  · exact hv
  · exact hfields f hf

mutual

theorem fits_of_readValue? {stack : List Open} {ts : List Token} (hp : Pending stack)
    (hs : Scalars ts) (h : readValue? stack ts = some r) : Fits 0 r := by
  rw [readValue?.eq_def] at h
  split at h
  next v ts => exact fits_of_resume? hp (hp.fits_of_depth (hs v List.mem_cons_self)) hs.tail h
  next s ts => exact fits_of_resume? (v := .string s) hp (hp.fits_of_depth ⟨trivial, rfl⟩) hs.tail h
  next ts =>
    split at h
    next hlen => exact fits_of_resume? hp (fits_array hlen (by simp)) hs.tail.tail h
    next => cases h
  next ts _ =>
    split at h
    next hlen =>
      have hp' : Pending (.array [] :: stack) := ⟨hlen, by simp, hp⟩
      exact fits_of_readValue? hp' hs.tail h
    next => cases h
  next ts =>
    split at h
    next hlen =>
      exact fits_of_resume? hp (fits_object hlen ascending_nil (by simp)) hs.tail.tail h
    next => cases h
  next key ts =>
    split at h
    next hlen =>
      have hp' : Pending (.object [] key :: stack) := ⟨hlen, ascending_nil, by simp, hp⟩
      exact fits_of_readValue? hp' hs.tail.tail.tail h
    next => cases h
  next => cases h
termination_by ts.length

theorem fits_of_resume? {stack : List Open} {v : Json} {ts : List Token} (hp : Pending stack)
    (hv : Fits stack.length v) (hs : Scalars ts) (h : resume? stack v ts = some r) :
    Fits 0 r := by
  rw [resume?.eq_def] at h
  split at h
  next =>
    split at h
    next hempty =>
      obtain rfl := Option.some.inj h
      obtain rfl := List.isEmpty_iff.1 hempty
      exact hv
    next => cases h
  next key ts =>
    split at h
    next fields k stack => exact fits_of_readValue? (hp.put hv key) hs.tail.tail.tail h
    next => cases h
  next ts _ =>
    split at h
    next items stack =>
      have hp' : Pending (.array (v :: items) :: stack) :=
        ⟨hp.1, List.forall_mem_cons.2 ⟨hv, hp.2.1⟩, hp.2.2⟩
      exact fits_of_readValue? hp' hs.tail h
    next => cases h
  next ts =>
    split at h
    next items stack =>
      refine fits_of_resume? hp.2.2 (fits_array hp.1 fun w hw => ?_) hs.tail h
      obtain rfl | hw := List.mem_cons.1 (List.mem_reverse.1 hw)
      · exact hv
      · exact hp.2.1 w hw
    next => cases h
  next ts =>
    split at h
    next fields k stack =>
      obtain ⟨hlen, hkeys, hfields, hstack⟩ := hp.put hv k
      exact fits_of_resume? hstack (fits_object hlen hkeys hfields) hs.tail h
    next => cases h
  next => cases h
termination_by ts.length

end

/-- Every value that is read is canonical and not nested too deep. -/
theorem fits_of_ofText? {text : String} (h : ofText? text = some v) : Fits 0 v := by
  obtain ⟨ts, hts, hread⟩ := Option.bind_eq_some_iff.1 h
  have hp : Pending [] := trivial
  exact fits_of_readValue? hp (scalars_of_tokensFrom? hts) hread

end Threading.Json

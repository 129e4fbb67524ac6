import Threading.Proofs.MappedArray.Block
import Threading.Proofs.Word

/-!
# Growth keeps the elements, and every mapping is given back whole

The size of a mapping is not stored: it is rounded up to pages from a capacity, divided by the
size of an element for the new capacity, and on the way back computed from that capacity. What
the division drops is less than a page, whether an element is smaller than a page or larger, so
the second rounding comes to the same size as the first. The elements are always in the first
slots of the block, as a new block gets a copy of them. From this follows by induction on the
calls which elements there are and which bytes are mapped and given back.
-/
namespace Threading.MappedArray

variable {α : Type} {v v' : MappedArray α} {elementSize capacity bytes : UInt64}
variable {items : List α}

/-! ## Sizes of mappings -/

theorem bytesFor?_eq_some_iff : bytesFor? elementSize capacity = some bytes ↔
    Word.NextPage (capacity.toNat * elementSize.toNat) bytes := by
  simp only [bytesFor?, Option.bind_eq_some_iff, Word.pageRoundUp?_eq_some_iff,
    Word.mul?_eq_some_iff]
  constructor
  · rintro ⟨product, ⟨-, hproduct⟩, hbytes⟩
    exact hproduct ▸ hbytes
  · intro h
    have hlt : capacity.toNat * elementSize.toNat < UInt64.size :=
      Nat.lt_of_le_of_lt h.1 bytes.toNat_lt
    refine ⟨.ofNat (capacity.toNat * elementSize.toNat), ?_⟩
    rw [UInt64.toNat_ofNat_of_lt' hlt]
    exact ⟨⟨hlt, rfl⟩, h⟩

/-- The bytes that a full array asks for: twice the elements, but at least a page of elements
and at least one. -/
def wantedBytes (v : MappedArray α) : Nat :=
  max (2 * v.capacity.toNat) (max (4096 / v.elementSize.toNat) 1) * v.elementSize.toNat

theorem toNat_minCapacity (elementSize : UInt64) :
    (minCapacity elementSize).toNat = max (4096 / elementSize.toNat) 1 := by
  rw [minCapacity, Word.toNat_max, UInt64.toNat_div]
  rfl

/-- Where twice the capacity is no word, neither is the size of the mapping. -/
theorem bytesFor?_wantedCapacity_eq_some_iff (hpos : 0 < v.elementSize.toNat) :
    bytesFor? v.elementSize v.wantedCapacity = some bytes ↔
      Word.NextPage v.wantedBytes bytes := by
  have hwanted : v.wantedCapacity.toNat =
      max ((Word.mul? v.capacity 2).getD 0xffffffffffffffff).toNat
        (max (4096 / v.elementSize.toNat) 1) := by
    rw [wantedCapacity, Word.toNat_max, toNat_minCapacity]
  rw [bytesFor?_eq_some_iff, hwanted, wantedBytes]
  cases hdouble : Word.mul? v.capacity 2 with
  | some double =>
    obtain ⟨-, hdouble⟩ := Word.mul?_eq_some_iff.1 hdouble
    have htwo : (2 : UInt64).toNat = 2 := rfl
    rw [Option.getD_some, hdouble, htwo, Nat.mul_comm 2]
  | none =>
    have hlarge : UInt64.size ≤ 2 * v.capacity.toNat := by
      refine Nat.le_of_not_lt fun hlt => ?_
      have hsome : Word.mul? v.capacity 2 = some (v.capacity * 2) :=
        if_pos (Nat.mul_comm 2 _ ▸ hlt)
      rw [hsome] at hdouble
      cases hdouble
    have hout {n : Nat} (hn : UInt64.size - 1 ≤ n) :
        ¬ Word.NextPage (n * v.elementSize.toNat) bytes := by
      intro h
      have hroom := Word.exists_nextPage_iff.1 ⟨bytes, h⟩
      have hmul : n ≤ n * v.elementSize.toNat := Nat.le_mul_of_pos_right n hpos
      have hsize : 4096 ≤ UInt64.size := by decide
      omega
    have hmax : (0xffffffffffffffff : UInt64).toNat = UInt64.size - 1 := rfl
    rw [Option.getD_none, hmax]
    exact iff_of_false (hout (Nat.le_max_left _ _)) (hout (by omega))

/-- The capacity that uses a whole mapping needs the pages of the mapping again: the division
drops no more bytes than the rounding added. -/
theorem nextPage_div_mul {wanted size : Nat} (h : Word.NextPage (wanted * size) bytes) :
    Word.NextPage (bytes.toNat / size * size) bytes := by
  obtain ⟨hle, hlt, hpage⟩ := h
  have hdiv := Nat.div_add_mod' bytes.toNat size
  have hmod : bytes.toNat % size ≤ bytes.toNat - wanted * size := by
    have hrest : (bytes.toNat - wanted * size) % size = bytes.toNat % size := by
      rw [Nat.mul_comm] at hle ⊢
      exact Nat.sub_mul_mod hle
    exact hrest ▸ Nat.mod_le _ size
  exact ⟨by omega, by omega, hpage⟩

/-! ## The elements -/

/-- The elements are in the first slots of a block with as many slots as there is room for. -/
structure Keeps (v : MappedArray α) (items : List α) : Prop where
  slots : v.block.size = v.capacity.toNat
  length : v.length = items.length
  holds : v.block.Holds items

namespace Keeps

theorem toList_items (h : v.Keeps items) : v.items.toList = items := by
  rw [MappedArray.items, h.length, h.holds.take_toList, List.filterMap_map]
  exact List.filterMap_some

theorem size_items (h : v.Keeps items) : v.items.size = v.length := by
  rw [← Array.length_toList, h.toList_items, h.length]

theorem length_le (h : v.Keeps items) : v.length ≤ v.capacity.toNat := by
  rw [h.length, ← h.slots]
  exact h.holds.length_le

theorem append (h : v.Keeps items) (hroom : v.length < v.capacity.toNat) (a : α) :
    (v.append a).Keeps (items ++ [a]) where
  slots := by rw [MappedArray.append, Array.size_setIfInBounds, h.slots]
  length := by rw [MappedArray.append, h.length, List.length_append, List.length_singleton]
  holds := by
    have hslots := h.slots
    rw [h.length, ← hslots] at hroom
    rw [MappedArray.append, h.length]
    exact h.holds.append hroom a

/-- A new block gets a copy of the elements. -/
theorem moved (h : v.Keeps items) (hroom : v.length ≤ (bytes / v.elementSize).toNat) :
    (v.moved bytes).Keeps items where
  slots := by
    dsimp only [MappedArray.moved]
    split
    · rw [Block.size_copyFrom, Block.size_fresh]
    · exact Block.size_fresh _
  length := h.length
  holds := by
    dsimp only [MappedArray.moved]
    split
    next =>
      rw [h.length] at hroom ⊢
      exact h.holds.copyFrom (by rwa [Block.size_fresh])
    next hcapacity =>
      -- without a block there are no elements either
      have hzero : v.capacity.toNat = 0 := by
        rw [UInt64.lt_iff_toNat_lt, UInt64.toNat_zero] at hcapacity
        omega
      have hnil : items = [] := by
        have hle := h.length_le
        rw [h.length, hzero] at hle
        exact List.length_eq_zero_iff.1 (Nat.le_zero.1 hle)
      rw [hnil]
      exact Block.holds_nil _

theorem get?_eq (h : v.Keeps items) (index : Nat) : v.get? index = items[index]? := by
  rw [MappedArray.get?, h.length]
  split
  next hi =>
    rw [h.holds index hi]
    rfl
  next hi => rw [List.getElem?_eq_none (Nat.le_of_not_lt hi)]

/-- Taking an element out moves those after it down. -/
theorem remove? (h : v.Keeps items) (index : Nat) :
    (v.remove? index = none ∧ items.length ≤ index) ∨
      ∃ a v', v.remove? index = some (a, v') ∧ v'.elementSize = v.elementSize ∧
        v'.capacity = v.capacity ∧ v'.Keeps (items.eraseIdx index) := by
  rw [MappedArray.remove?, h.get?_eq]
  by_cases hi : index < items.length
  · rw [List.getElem?_eq_getElem hi]
    refine .inr ⟨_, _, rfl, rfl, rfl, ?_⟩
    constructor
    case slots => rw [Block.size_moveDown, h.slots]
    case length => rw [h.length, List.length_eraseIdx_of_lt hi]
    case holds =>
      dsimp only
      rw [h.length]
      exact h.holds.eraseIdx hi
  · have hle := Nat.le_of_not_lt hi
    rw [List.getElem?_eq_none hle]
    exact .inl ⟨rfl, hle⟩

theorem clear (h : v.Keeps items) : v.clear.Keeps [] :=
  ⟨h.slots, rfl, Block.holds_nil _⟩

end Keeps

/-! ## Pushing -/

/-- What growing for an element makes of a full array. -/
structure Grows (v : MappedArray α) (a : α) (v' : MappedArray α) (remap : Remap) : Prop where
  elementSize : v'.elementSize = v.elementSize
  items : v'.items = v.items.push a
  /-- In the new block the elements are where they were, and then comes the new one. -/
  keeps : v'.Keeps (v.items.toList ++ [a])
  room : v.items.size < v'.capacity.toNat
  doubled : 2 * v.capacity.toNat ≤ v'.capacity.toNat
  mapped : Word.NextPage v.wantedBytes remap.mapped
  fits : v'.capacity.toNat * v'.elementSize.toNat ≤ remap.mapped.toNat
  /-- The new mapping will be given back whole. -/
  whole : v'.unmapped? = some remap.mapped
  unmapped : remap.unmapped = v.unmapped?

/-- What a push must do. -/
structure Pushes (v : MappedArray α) (a : α) : Prop where
  stays (h : v.items.size < v.capacity.toNat) :
    v.push? a = some (v.append a, none) ∧ (v.append a).items = v.items.push a
  grows (hfull : v.items.size = v.capacity.toNat) (h : v.wantedBytes ≤ UInt64.size - 4096) :
    ∃ v' remap, v.push? a = some (v', some remap) ∧ Grows v a v' remap
  fails (hfull : v.items.size = v.capacity.toNat) (h : UInt64.size - 4096 < v.wantedBytes) :
    v.push? a = none

theorem Keeps.items_append (h : v.Keeps items) (h' : v'.Keeps (items ++ [a])) :
    v'.items = v.items.push a := by
  refine Array.toList_inj.1 ?_
  rw [h'.toList_items, Array.toList_push, h.toList_items]

theorem Keeps.grows (h : v.Keeps items) (hpos : 0 < v.elementSize.toNat)
    (hfull : v.length = v.capacity.toNat) (hnext : Word.NextPage v.wantedBytes bytes) (a : α) :
    Grows v a ((v.moved bytes).append a) { mapped := bytes, unmapped := v.unmapped? } := by
  have hcapacity : (bytes / v.elementSize).toNat = bytes.toNat / v.elementSize.toNat :=
    UInt64.toNat_div ..
  have hwanted : max (2 * v.capacity.toNat) (max (4096 / v.elementSize.toNat) 1) ≤
      (bytes / v.elementSize).toNat := by
    rw [hcapacity]
    exact (Nat.le_div_iff_mul_le hpos).2 hnext.1
  have hdivided := nextPage_div_mul hnext
  rw [← hcapacity] at hdivided
  have hne : bytes / v.elementSize ≠ 0 := by
    intro hzero
    rw [hzero, UInt64.toNat_zero] at hwanted
    omega
  have hroom : v.length < (bytes / v.elementSize).toNat := by omega
  have hkeeps := (h.moved (Nat.le_of_lt hroom)).append hroom a
  constructor
  case elementSize => rfl
  case items => exact h.items_append hkeeps
  case keeps => rwa [h.toList_items]
  case room =>
    rw [h.size_items]
    exact hroom
  case doubled => exact Nat.le_trans (Nat.le_max_left _ _) hwanted
  case mapped => exact hnext
  case fits => exact hdivided.1
  case whole => exact (if_neg hne).trans (bytesFor?_eq_some_iff.2 hdivided)
  case unmapped => rfl

theorem Keeps.pushes (h : v.Keeps items) (hpos : 0 < v.elementSize.toNat) (a : α) :
    Pushes v a := by
  have hsize := h.size_items
  constructor
  case stays =>
    intro hroom
    rw [hsize] at hroom
    exact ⟨if_neg (Nat.ne_of_lt hroom), h.items_append (h.append hroom a)⟩
  case grows =>
    intro hfull hword
    rw [hsize] at hfull
    obtain ⟨bytes, hbytes⟩ := Word.exists_nextPage_iff.2 hword
    refine ⟨_, _, ?_, h.grows hpos hfull hbytes a⟩
    rw [push?, if_pos hfull, grow?, (bytesFor?_wantedCapacity_eq_some_iff hpos).2 hbytes]
    rfl
  case fails =>
    intro hfull hout
    rw [hsize] at hfull
    have hnone : bytesFor? v.elementSize v.wantedCapacity = none := by
      refine Option.eq_none_iff_forall_not_mem.2 fun bytes hbytes => ?_
      have hnext := (bytesFor?_wantedCapacity_eq_some_iff hpos).1 hbytes
      exact Nat.not_lt.2 (Word.exists_nextPage_iff.1 ⟨bytes, hnext⟩) hout
    rw [push?, if_pos hfull, grow?, hnone]
    rfl

/-! ## Calls -/

/-- A call that changes an array. -/
inductive Call (α : Type) where
  | push (a : α)
  | remove (index : Nat)
  | clear

/-- The array after a call, and the exchange of mappings if it made one. A push that fails has
no effect. -/
def Call.perform : Call α → MappedArray α → MappedArray α × Option Remap
  | push a, v => (v.push? a).getD (v, none)
  | remove index, v => (((v.remove? index).map Prod.snd).getD v, none)
  | clear, v => (v.clear, none)

/-- What a call makes of the elements, unless it is a push that fails. -/
def Call.effect : Call α → List α → List α
  | push a, items => items ++ [a]
  | remove index, items => items.eraseIdx index
  | clear, _ => []

/-- The array that calls make of a new one, and the exchanges of mappings on the way. -/
def called (elementSize : UInt64) (calls : List (Call α)) : MappedArray α × List Remap :=
  calls.foldl
    (fun (v, remaps) call => ((call.perform v).1, remaps ++ (call.perform v).2.toList))
    ({ elementSize }, [])

def Call.Fails (v : MappedArray α) (call : Call α) : Prop :=
  ∃ a, call = .push a ∧ v.push? a = none

/-- How an array and the exchanges of mappings on the way to it belong together. -/
structure Mapped (elementSize : UInt64) (v : MappedArray α) (remaps : List Remap) : Prop where
  size_eq : v.elementSize = elementSize
  room : v.items.size ≤ v.capacity.toNat
  keeps : v.Keeps v.items.toList
  /-- The elements that there is room for lie in the last mapping. -/
  fits : v.capacity.toNat * v.elementSize.toNat ≤
    (remaps.getLast?.map fun remap => remap.mapped.toNat).getD 0
  /-- The first growth gives nothing back, each one after it what the one before it mapped, and
  dropping the array what the last one mapped. -/
  balanced : remaps.map Remap.unmapped ++ [v.unmapped?] =
    none :: remaps.map fun remap => some remap.mapped

/-- What holds of an array between two calls. -/
structure Sound (elementSize : UInt64) (v : MappedArray α) (remaps : List Remap) : Prop
    extends Mapped elementSize v remaps where
  push (a : α) : Pushes v a
  effect {call : Call α} (h : ¬ call.Fails v) :
    (call.perform v).1.items.toList = call.effect v.items.toList
  failure {call : Call α} (h : call.Fails v) : call.perform v = (v, none)

theorem Call.perform_of_fails {call : Call α} (h : call.Fails v) : call.perform v = (v, none) := by
  obtain ⟨a, rfl, hnone⟩ := h
  rw [perform, hnone, Option.getD_none]

/-- A call grows the array for an element or leaves its mapping alone; either way the block holds
what the call makes of the elements. -/
theorem Call.perform_cases (hpos : 0 < v.elementSize.toNat) (h : v.Keeps items) (call : Call α) :
    (∃ a v' remap, call = .push a ∧ call.perform v = (v', some remap) ∧ Grows v a v' remap) ∨
      ∃ v', call.perform v = (v', none) ∧ v'.elementSize = v.elementSize ∧
        v'.capacity = v.capacity ∧
        (call.Fails v ∧ v' = v ∨ ¬ call.Fails v ∧ v'.Keeps (call.effect items)) := by
  have hnever {call : Call α} (hcall : ∀ a, call ≠ .push a) : ¬ call.Fails v :=
    fun ⟨a, ha, _⟩ => hcall a ha
  cases call with
  | push a =>
    have hpush := h.pushes hpos a
    have hsize := h.size_items
    rcases Nat.lt_or_eq_of_le h.length_le with hlt | hfull
    · have hstays := (hpush.stays (hsize.symm ▸ hlt)).1
      refine .inr ⟨v.append a, ?_, rfl, rfl, .inr ⟨?_, h.append hlt a⟩⟩
      · rw [perform, hstays, Option.getD_some]
      · rintro ⟨b, hb, hnone⟩
        obtain rfl : a = b := Call.push.inj hb
        rw [hstays] at hnone
        cases hnone
    rcases Nat.lt_or_ge (UInt64.size - 4096) v.wantedBytes with hout | hword
    · have hfails : (Call.push a).Fails v := ⟨a, rfl, hpush.fails (hsize.trans hfull) hout⟩
      exact .inr ⟨v, perform_of_fails hfails, rfl, rfl, .inl ⟨hfails, rfl⟩⟩
    · obtain ⟨v', remap, hgrow, hgrows⟩ := hpush.grows (hsize.trans hfull) hword
      refine .inl ⟨a, v', remap, rfl, ?_, hgrows⟩
      rw [perform, hgrow, Option.getD_some]
  | remove index =>
    rcases h.remove? index with ⟨hnone, hle⟩ | ⟨a, v', hremove, helement, hcapacity, hkeeps⟩
    · refine .inr ⟨v, by rw [perform, hnone]; rfl, rfl, rfl, .inr ⟨hnever (by simp), ?_⟩⟩
      rwa [effect, List.eraseIdx_of_length_le hle]
    · exact .inr ⟨v', by rw [perform, hremove]; rfl, helement, hcapacity,
        .inr ⟨hnever (by simp), hkeeps⟩⟩
  | clear => exact .inr ⟨v.clear, rfl, rfl, rfl, .inr ⟨hnever (by simp), h.clear⟩⟩

theorem Call.effect_perform (hpos : 0 < v.elementSize.toNat) (hv : v.Keeps items) {call : Call α}
    (h : ¬ call.Fails v) :
    (call.perform v).1.items.toList = call.effect v.items.toList := by
  rw [hv.toList_items]
  rcases call.perform_cases hpos hv with
    ⟨a, v', remap, rfl, hperform, hgrows⟩ | ⟨v', hperform, -, -, ⟨hfails, -⟩ | ⟨-, hkeeps⟩⟩
  · rw [hperform, hgrows.items, Array.toList_push, hv.toList_items]
    rfl
  · exact absurd hfails h
  · rw [hperform, hkeeps.toList_items]

theorem Mapped.perform {remaps : List Remap} (h : Mapped elementSize v remaps)
    (hpos : 0 < elementSize.toNat) (call : Call α) :
    Mapped elementSize (call.perform v).1 (remaps ++ (call.perform v).2.toList) := by
  have hpos' : 0 < v.elementSize.toNat := h.size_eq ▸ hpos
  rcases call.perform_cases hpos' h.keeps with
    ⟨a, v', remap, -, hperform, hgrows⟩ | ⟨v', hperform, helement, hcapacity, hwhat⟩
  · rw [hperform]
    constructor
    case size_eq => exact hgrows.elementSize.trans h.size_eq
    case room =>
      rw [hgrows.items, Array.size_push]
      exact hgrows.room
    case keeps =>
      rw [hgrows.keeps.toList_items]
      exact hgrows.keeps
    case fits =>
      rw [Option.toList_some, List.getLast?_concat]
      exact hgrows.fits
    case balanced =>
      rw [Option.toList_some, List.map_append, List.map_singleton, hgrows.unmapped, h.balanced,
        hgrows.whole, List.map_append, List.map_singleton]
      rfl
  · have hkeeps : v'.Keeps v'.items.toList := by
      obtain ⟨-, rfl⟩ | ⟨-, hkeeps⟩ := hwhat
      · exact h.keeps
      · rwa [hkeeps.toList_items]
    rw [hperform, Option.toList_none, List.append_nil]
    constructor
    case size_eq => exact helement.trans h.size_eq
    case room =>
      rw [hkeeps.size_items]
      exact hkeeps.length_le
    case keeps => exact hkeeps
    case fits =>
      rw [helement, hcapacity]
      exact h.fits
    case balanced =>
      rw [unmapped?, helement, hcapacity]
      exact h.balanced

theorem mapped_called (hpos : 0 < elementSize.toNat) (calls : List (Call α)) :
    Mapped elementSize (called elementSize calls).1 (called elementSize calls).2 := by
  have hstart : Mapped elementSize ({ elementSize } : MappedArray α) [] :=
    ⟨rfl, Nat.le_refl _, ⟨rfl, rfl, Block.holds_nil _⟩, Nat.le_of_eq (Nat.zero_mul _), rfl⟩
  exact List.foldlRecOn
    (motive := fun state : MappedArray α × List Remap => Mapped elementSize state.1 state.2)
    calls _ hstart fun _ hmapped call _ => hmapped.perform hpos call

/-- Through all calls the bytes given back are those that were mapped, a push grows a full array
and keeps its elements, or fails without effect if the mapping would be too large. -/
theorem called_sound (hpos : 0 < elementSize.toNat) (calls : List (Call α)) :
    Sound elementSize (called elementSize calls).1 (called elementSize calls).2 := by
  have hmapped := mapped_called hpos calls
  have hpos' : 0 < (called elementSize calls).1.elementSize.toNat := by rwa [hmapped.size_eq]
  exact ⟨hmapped, hmapped.keeps.pushes hpos', Call.effect_perform hpos' hmapped.keeps,
    Call.perform_of_fails⟩

/-- Elements of 5000 bytes: none divides a page, and the first mapping has room for one. -/
theorem called_sound_threePushes :
    called 5000 [.push 1, .push 2, .push 3] =
        ({ elementSize := 5000, block := #[some 1, some 2, some 3, none], length := 3,
            capacity := 4 },
          [⟨8192, none⟩, ⟨12288, some 8192⟩, ⟨20480, some 12288⟩]) ∧
      Sound 5000 (called 5000 [.push 1, .push 2, .push 3]).1
        (called 5000 [.push 1, .push 2, .push 3]).2 :=
  ⟨rfl, called_sound (by decide) [.push 1, .push 2, .push 3]⟩

/-- The second of two elements of half the address space is refused. -/
example : called 0x8000000000000000 [.push 1, .push 2] =
    ({ elementSize := 0x8000000000000000, block := #[some 1], length := 1, capacity := 1 },
      [⟨0x8000000000000000, none⟩]) := rfl

end Threading.MappedArray

import Mathlib.Algebra.Group.Nat.Defs
import Mathlib.Data.Nat.Count
import Threading.CpuSet

/-!
# What the words of a CPU set say

An index is in a set just if its bit is set in its word, so a set whose words are not all
zero holds an index. Setting and clearing bits inserts and erases indices, and the bits of all
words together are counted once each.
-/
namespace Threading.CpuSet

variable {s : CpuSet} {cpu : Nat}

theorem toNat_mask (cpu : Nat) : (mask cpu).toNat = 2 ^ (cpu % 64) := by
  have hlt : cpu % 64 < 64 := Nat.mod_lt cpu (by decide)
  have hshift : (UInt64.ofNat (cpu % 64)).toNat % 64 = cpu % 64 := by
    rw [UInt64.toNat_ofNat']
    omega
  rw [mask, UInt64.toNat_shiftLeft, hshift, UInt64.toNat_one, Nat.one_shiftLeft]
  exact Nat.mod_eq_of_lt (Nat.pow_lt_pow_right (by decide) hlt)

/-- A word is not zero just if one of its bits is set. -/
theorem word_ne_zero_iff (w : UInt64) : w ≠ 0 ↔ ∃ b < 64, w.toNat.testBit b = true := by
  constructor
  · intro h
    have hne : w.toNat ≠ 0 := fun hzero => h (UInt64.toNat_inj.1 hzero)
    obtain ⟨b, hb⟩ := Nat.exists_testBit_of_ne_zero hne
    refine ⟨b, Nat.lt_of_not_ge fun hle => ?_, hb⟩
    have hlt : w.toNat < 2 ^ b :=
      Nat.lt_of_lt_of_le w.toNat_lt (Nat.pow_le_pow_right (by decide) hle)
    rw [Nat.testBit_lt_two_pow hlt] at hb
    cases hb
  · rintro ⟨b, -, hb⟩ rfl
    rw [UInt64.toNat_zero, Nat.zero_testBit] at hb
    cases hb

/-- A word shares a bit with the mask of an index just if it has the bit of the index. -/
theorem and_mask_ne_zero_iff (w : UInt64) (cpu : Nat) :
    w &&& mask cpu ≠ 0 ↔ w.toNat.testBit (cpu % 64) = true := by
  rw [word_ne_zero_iff]
  simp only [UInt64.toNat_and, toNat_mask, Nat.testBit_and, Nat.testBit_two_pow, Bool.and_eq_true,
    decide_eq_true_eq]
  constructor
  · rintro ⟨b, -, hb, rfl⟩
    exact hb
  · intro hb
    exact ⟨cpu % 64, Nat.mod_lt cpu (by decide), hb, rfl⟩

/-- Index `64 * w + b` is bit `b` of word `w`. -/
theorem isSet_iff : s.isSet cpu = true ↔
    ∃ h : cpu / 64 < 16, s.words[cpu / 64].toNat.testBit (cpu % 64) = true := by
  rw [isSet]
  split
  next h =>
    have hword : cpu / 64 < 16 := by simp only [capacity] at h; omega
    rw [bne_iff_ne, and_mask_ne_zero_iff]
    constructor
    · exact fun hb => ⟨hword, hb⟩
    · rintro ⟨_, hb⟩
      exact hb
  next h =>
    refine iff_of_false Bool.false_ne_true ?_
    rintro ⟨hword, -⟩
    simp only [capacity] at h
    omega

/-- A set that is not empty has an index. -/
theorem isEmpty_eq_false_iff : s.isEmpty = false ↔ ∃ cpu, s.isSet cpu = true := by
  simp only [isEmpty, Vector.all_eq_false, beq_iff_eq, isSet_iff]
  constructor
  · rintro ⟨i, hi, hne⟩
    obtain ⟨b, hb, hbit⟩ := (word_ne_zero_iff s.words[i]).1 hne
    have hdiv : (64 * i + b) / 64 = i := by omega
    have hmod : (64 * i + b) % 64 = b := by omega
    refine ⟨64 * i + b, by omega, ?_⟩
    simp only [hdiv, hmod, hbit]
  · rintro ⟨cpu, hi, hbit⟩
    exact ⟨cpu / 64, hi, (word_ne_zero_iff _).2 ⟨cpu % 64, Nat.mod_lt cpu (by decide), hbit⟩⟩

/-! ## The indices -/

/-- The indices in a set. -/
def members (s : CpuSet) : Finset Nat := (Finset.range capacity).filter fun cpu => s.isSet cpu = true

theorem lt_of_isSet (h : s.isSet cpu = true) : cpu < 1024 := by
  obtain ⟨hword, -⟩ := isSet_iff.1 h
  omega

@[simp] theorem mem_members : cpu ∈ s.members ↔ s.isSet cpu = true := by
  rw [members, Finset.mem_filter, Finset.mem_range]
  exact and_iff_right_of_imp lt_of_isSet

theorem isEmpty_iff : s.isEmpty = true ↔ s.members = ∅ := by
  rw [← Bool.not_eq_false, isEmpty_eq_false_iff, Finset.eq_empty_iff_forall_notMem]
  simp

@[simp] theorem isSet_empty (cpu : Nat) : empty.isSet cpu = false := by
  rw [← Bool.not_eq_true, isSet_iff]
  rintro ⟨hword, hbit⟩
  simp [empty] at hbit

/-- Bit `b` of word `w` stands for index `64 * w + b`. -/
theorem testBit_word_iff {w b : Nat} (hw : w < 16) (hb : b < 64) :
    s.words[w].toNat.testBit b = true ↔ s.isSet (64 * w + b) = true := by
  have hdiv : (64 * w + b) / 64 = w := by omega
  have hmod : (64 * w + b) % 64 = b := by omega
  simp [isSet_iff, hdiv, hmod, hw]

/-! ## Changes -/

theorem testBit_or_mask_iff (w : UInt64) (cpu b : Nat) :
    (w ||| mask cpu).toNat.testBit b = true ↔ cpu % 64 = b ∨ w.toNat.testBit b = true := by
  simp [toNat_mask, Nat.testBit_two_pow, or_comm]

theorem testBit_and_not_mask_iff (w : UInt64) (cpu : Nat) {b : Nat} (hb : b < 64) :
    (w &&& ~~~(mask cpu)).toNat.testBit b = true ↔ cpu % 64 ≠ b ∧ w.toNat.testBit b = true := by
  have hmask : (mask cpu).toNat < 2 ^ 64 := (mask cpu).toNat_lt
  have hnot : (~~~(mask cpu)).toNat = 2 ^ 64 - ((mask cpu).toNat + 1) := by
    rw [UInt64.toNat_not]
    simp only [UInt64.size]
    omega
  rw [UInt64.toNat_and, Nat.testBit_and, hnot, Nat.testBit_two_pow_sub_succ hmask, toNat_mask]
  simp [Nat.testBit_two_pow, hb, and_comm]

/-- Indices of one word are told apart by their bits. -/
theorem eq_iff_of_div_eq {c : Nat} (h : cpu / 64 = c / 64) : cpu % 64 = c % 64 ↔ c = cpu := by
  omega

theorem isSet_set (h : cpu < 1024) :
    ∃ s', s.set cpu = .ok s' ∧ ∀ c, s'.isSet c = true ↔ c = cpu ∨ s.isSet c = true := by
  have hword : cpu / 64 < 16 := by omega
  refine ⟨_, dif_pos h, fun c => ?_⟩
  simp only [isSet_iff, Vector.getElem_set]
  by_cases hc : cpu / 64 = c / 64
  · simp only [hc, ↓reduceIte, testBit_or_mask_iff, eq_iff_of_div_eq hc]
    constructor
    · rintro ⟨hlt, heq | hbit⟩
      · exact .inl heq
      · exact .inr ⟨hlt, hbit⟩
    · rintro (heq | ⟨hlt, hbit⟩)
      · exact ⟨by omega, .inl heq⟩
      · exact ⟨hlt, .inr hbit⟩
  · have hne : c ≠ cpu := fun heq => hc (heq ▸ rfl)
    simp [hc, hne]

theorem isSet_clear (s : CpuSet) (cpu c : Nat) :
    (s.clear cpu).isSet c = true ↔ c ≠ cpu ∧ s.isSet c = true := by
  rw [clear]
  split
  next h =>
    simp only [isSet_iff, Vector.getElem_set]
    by_cases hc : cpu / 64 = c / 64
    · simp only [hc, ↓reduceIte, testBit_and_not_mask_iff _ _ (Nat.mod_lt c (by decide)), ne_eq,
        eq_iff_of_div_eq hc]
      constructor
      · rintro ⟨hlt, hne, hbit⟩
        exact ⟨hne, hlt, hbit⟩
      · rintro ⟨hne, hlt, hbit⟩
        exact ⟨hlt, hne, hbit⟩
    · have hne : c ≠ cpu := fun heq => hc (heq ▸ rfl)
      simp [hc, hne]
  next h =>
    refine (and_iff_right_of_imp fun hset heq => h ?_).symm
    exact heq ▸ lt_of_isSet hset

/-! ## Counting -/

/-- Bit `i % 64` of word `i / 64`. -/
def bit (words : List UInt64) (i : Nat) : Bool := (words[i / 64]?.getD 0).toNat.testBit (i % 64)

theorem popCount_eq (w : UInt64) : popCount w = Nat.count (fun b => w.toNat.testBit b = true) 64 := by
  rw [popCount, Nat.count, List.countP_eq_length_filter]
  simp

/-- The bits of the first word come first, then those of the others. -/
theorem foldl_popCount (words : List UInt64) (n : Nat) :
    words.foldl (fun n w => n + popCount w) n =
      n + Nat.count (fun i => bit words i = true) (64 * words.length) := by
  induction words generalizing n with
  | nil => rfl
  | cons w words ih =>
    have hfirst : Nat.count (fun i => bit (w :: words) i = true) 64 = popCount w := by
      rw [popCount_eq]
      refine List.countP_congr fun b hb => ?_
      have hlt := List.mem_range.1 hb
      simp [bit, Nat.div_eq_of_lt hlt, Nat.mod_eq_of_lt hlt]
    have hrest (i : Nat) : bit (w :: words) (64 + i) = bit words i := by
      have hdiv : (64 + i) / 64 = i / 64 + 1 := by omega
      simp [bit, hdiv]
    rw [List.foldl_cons, ih, List.length_cons, Nat.mul_succ, Nat.add_comm (64 * _), Nat.count_add,
      hfirst, Nat.add_assoc]
    simp only [hrest]

/-- The bits set in all words are as many as the indices. -/
theorem count_eq_card : s.count = s.members.card := by
  have hbit (i : Nat) : bit s.words.toList i = s.isSet i := by
    rw [Bool.eq_iff_iff, isSet_iff, bit]
    by_cases hi : i / 64 < 16
    · simp [hi]
    · simp [hi]
  have hlength : s.words.toList.length = 16 := s.words.length_toList
  rw [count, ← Vector.foldl_toList, foldl_popCount, hlength, Nat.zero_add,
    Nat.count_eq_card_filter_range, members]
  simp only [hbit]
  rfl

/-! ## Calls -/

/-- A call that changes a set. -/
inductive Call where
  | set (cpu : Nat)
  | clear (cpu : Nat)

/-- The answer and the set after the call. -/
def Call.perform : Call → CpuSet → Except Error Unit × CpuSet
  | set cpu, s =>
    match s.set cpu with
    | .ok s' => (.ok (), s')
    | .error e => (.error e, s)
  | clear cpu, s => (.ok (), s.clear cpu)

theorem Call.perform_set_of_lt (h : cpu < 1024) : ∃ s', (Call.set cpu).perform s = (.ok (), s') ∧
    ∀ c, s'.isSet c = true ↔ c = cpu ∨ s.isSet c = true := by
  obtain ⟨s', hs', hmem⟩ := isSet_set (s := s) h
  exact ⟨s', by rw [perform, hs'], hmem⟩

/-- Indices out of range are refused without effect. -/
theorem Call.perform_set_of_le (s : CpuSet) (h : 1024 ≤ cpu) :
    (Call.set cpu).perform s = (.error (.invalidArgument "cpu index out of range"), s) := by
  have hset : s.set cpu = .error (.invalidArgument "cpu index out of range") :=
    dif_neg (Nat.not_lt.2 h)
  rw [perform, hset]

theorem Call.perform_clear_of_le (s : CpuSet) (h : 1024 ≤ cpu) :
    (Call.clear cpu).perform s = (.ok (), s) := by
  have hclear : s.clear cpu = s := dif_neg (Nat.not_lt.2 h)
  rw [perform, hclear]

/-- What a call makes of each index. -/
theorem Call.isSet_perform (call : Call) (s : CpuSet) (cpu : Nat) :
    (call.perform s).2.isSet cpu = true ↔
      call = .set cpu ∧ cpu < 1024 ∨ call ≠ .clear cpu ∧ s.isSet cpu = true := by
  cases call with
  | set added =>
    simp only [Call.set.injEq, ne_eq, reduceCtorEq, not_false_eq_true, true_and]
    by_cases hlt : added < 1024
    · obtain ⟨s', hperform, hset⟩ := perform_set_of_lt (s := s) hlt
      rw [hperform, hset]
      refine or_congr_left ⟨?_, ?_⟩
      · rintro rfl
        exact ⟨rfl, hlt⟩
      · exact fun h => h.1.symm
    · rw [perform_set_of_le s (Nat.le_of_not_lt hlt)]
      refine (or_iff_right ?_).symm
      rintro ⟨rfl, hcpu⟩
      exact hlt hcpu
  | clear taken =>
    rw [perform, isSet_clear]
    simp only [reduceCtorEq, false_and, false_or, ne_eq, Call.clear.injEq, eq_comm (a := cpu)]

/-- The set after the given calls, in order, whatever their answers. -/
def called (calls : List Call) : CpuSet := calls.foldl (fun s c => (c.perform s).2) empty

/-- The index was added by one of the calls and not taken away by a later one. -/
def Added (calls : List Call) (cpu : Nat) : Prop :=
  ∃ before after, calls = before ++ .set cpu :: after ∧ .clear cpu ∉ after

theorem not_added_nil (cpu : Nat) : ¬ Added [] cpu := by
  rintro ⟨before, after, heq, -⟩
  exact List.append_ne_nil_of_right_ne_nil before (List.cons_ne_nil _ after) heq.symm

/-- The last call decides what it is about. -/
theorem added_concat_iff {calls : List Call} {call : Call} : Added (calls ++ [call]) cpu ↔
    call = .set cpu ∨ call ≠ .clear cpu ∧ Added calls cpu := by
  constructor
  · rintro ⟨before, after, heq, hafter⟩
    obtain rfl | ⟨after, last, rfl⟩ := after.eq_nil_or_concat
    · exact .inl (List.singleton_inj.1 (List.append_inj_right' heq rfl))
    · rw [List.concat_eq_append] at heq hafter
      rw [← List.cons_append, ← List.append_assoc] at heq
      obtain ⟨rfl, hlast⟩ := List.append_inj' heq rfl
      obtain rfl := List.singleton_inj.1 hlast
      refine .inr ⟨fun hclear => hafter ?_, before, after, rfl, fun hmem => hafter ?_⟩
      · exact List.mem_append_right _ (List.mem_singleton.2 hclear.symm)
      · exact List.mem_append_left _ hmem
  · rintro (rfl | ⟨hne, before, after, rfl, hafter⟩)
    · exact ⟨calls, [], rfl, List.not_mem_nil⟩
    · refine ⟨before, after ++ [call], by simp, fun hmem => ?_⟩
      rcases List.mem_append.1 hmem with hmem | hmem
      · exact hafter hmem
      · exact hne (List.mem_singleton.1 hmem).symm

theorem called_concat (calls : List Call) (call : Call) :
    called (calls ++ [call]) = (call.perform (called calls)).2 := by
  rw [called, List.foldl_append]
  rfl

/-- The set holds the indices in range that were added and not taken away since. -/
theorem isSet_called_iff (calls : List Call) :
    (called calls).isSet cpu = true ↔ cpu < 1024 ∧ Added calls cpu := by
  induction calls using List.reverseRecOn with
  | nil => simp [called, not_added_nil]
  | append_singleton calls call ih =>
    rw [called_concat, Call.isSet_perform, added_concat_iff, ih]
    constructor
    · rintro (⟨hcall, hcpu⟩ | ⟨hcall, hcpu, hadded⟩)
      · exact ⟨hcpu, .inl hcall⟩
      · exact ⟨hcpu, .inr ⟨hcall, hadded⟩⟩
    · rintro ⟨hcpu, hcall | ⟨hcall, hadded⟩⟩
      · exact .inl ⟨hcall, hcpu⟩
      · exact .inr ⟨hcall, hcpu, hadded⟩

/-- Whatever the calls, the set is the finite set of the indices below 1024 that were added and
not taken away since: by its tests, its number, its emptiness and its words. Indices in range are
taken, and a call about any other changes nothing. -/
theorem called_spec (calls : List Call) : ∃ indices : Finset Nat,
    (∀ cpu, cpu ∈ indices ↔ cpu < 1024 ∧ Added calls cpu) ∧
      (∀ cpu, (called calls).isSet cpu = true ↔ cpu ∈ indices) ∧
      (called calls).count = indices.card ∧ ((called calls).isEmpty = true ↔ indices = ∅) ∧
      (∀ (w : Nat) (hw : w < 16) (b : Nat), b < 64 →
        ((called calls).words[w].toNat.testBit b = true ↔ 64 * w + b ∈ indices)) ∧
      (∀ cpu < 1024, ((Call.set cpu).perform (called calls)).1 = .ok ()) ∧
      ∀ cpu ≥ 1024, (Call.set cpu).perform (called calls) =
          (.error (.invalidArgument "cpu index out of range"), called calls) ∧
        (Call.clear cpu).perform (called calls) = (.ok (), called calls) := by
  refine ⟨(called calls).members, ?_, ?_, count_eq_card, isEmpty_iff, ?_, ?_, ?_⟩
  · intro cpu
    rw [mem_members, isSet_called_iff]
  · intro cpu
    rw [mem_members]
  · intro w hw b hb
    rw [mem_members, testBit_word_iff hw hb]
  · intro cpu hlt
    obtain ⟨s', hperform, -⟩ := Call.perform_set_of_lt (s := called calls) hlt
    rw [hperform]
  · intro cpu hge
    exact ⟨Call.perform_set_of_le _ hge, Call.perform_clear_of_le _ hge⟩

/-- An index taken away and a neighbour of it in the same word that stays, with calls out of range
among them. -/
theorem called_spec_neighbours :
    let calls := [.set 65, .set 5000, .set 64, .clear 65, .clear 1024]
    (called calls).isSet 64 = true ∧ (called calls).isSet 65 = false ∧
      (called calls).words[1].toNat.testBit 0 = true ∧
      ((Call.set 65).perform (called calls)).1 = .ok () ∧
      (Call.set 5000).perform (called calls) =
        (.error (.invalidArgument "cpu index out of range"), called calls) := by
  intro calls
  obtain ⟨indices, hindices, hset, -, -, hwords, hin, hout⟩ := called_spec calls
  have h64 : 64 ∈ indices :=
    (hindices 64).2 ⟨by decide, [.set 65, .set 5000], [.clear 65, .clear 1024], rfl, by simp⟩
  refine ⟨(hset 64).2 h64, by decide, ?_, hin 65 (by decide), (hout 5000 (by decide)).1⟩
  exact (hwords 1 (by decide) 0 (by decide)).2 h64

end Threading.CpuSet

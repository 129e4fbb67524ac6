import Threading.Proofs.Threads.Sites

/-!
# Where threads live

Every created thread has its blocks in memory that no other registered thread uses, and the
mapped regions are those that registered threads own. So the local storage a caller runs on
identifies its thread, and a region is unmapped when its thread goes and at no other time.
-/
namespace Threading.ThreadGroup

variable {pid : Tid} {settings : Settings} {p p' : ThreadGroup} {i j : BlockId} {c d : Control}
variable {o : Option Control} {region : Region}

/-- The memory of a registered thread. -/
def Uses (p : ThreadGroup) (region : Region) : Prop :=
  ∃ i c, p.registry.get? i = some c ∧ c.region = region

/-- Where the threads of a process and their memory are. -/
structure Placed (pid : Tid) (p : ThreadGroup) : Prop extends Sited p where
  main : p.registry.get? 0 = some (mainControl pid)
  housed : ∀ i c, i ≠ 0 → p.registry.get? i = some c → Housed c
  nodup : p.mapped.Nodup
  mem_mapped_iff : ∀ region, region ∈ p.mapped ↔ region.owned = true ∧ p.Uses region

theorem get?_initial (pid : Tid) (settings : Settings) (i : BlockId) :
    (initial pid settings).registry.get? i = if i = 0 then some (mainControl pid) else none := by
  have hl : (Registry.empty : Registry Control).Lists [] := Registry.lists_empty
  have hadd := hl.get?_add (mainControl pid) i
  rwa [hl.get?_eq_none (Nat.zero_le i)] at hadd

theorem placed_initial (pid : Tid) (settings : Settings) : Placed pid (initial pid settings) := by
  have hmain {i : BlockId} {c : Control} (hi : (initial pid settings).registry.get? i = some c) :
      i = 0 ∧ c = mainControl pid := by
    rw [get?_initial] at hi
    split at hi
    next hzero => exact ⟨hzero, (Option.some.inj hi).symm⟩
    next => exact absurd hi (by simp)
  have hsited : Sited (initial pid settings) := by
    refine ⟨?_, ?_, ?_, ?_⟩
    · intro i c hi _
      rw [(hmain hi).2]
      rfl
    · intro i j c d hi hj _ _
      exact (hmain hi).1.trans (hmain hj).1.symm
    · intro i c hi hcreated
      rw [(hmain hi).2] at hcreated
      exact absurd hcreated (by simp [mainControl])
    · intro i j c d hne hi hj
      exact absurd ((hmain hi).1.trans (hmain hj).1.symm) hne
  refine ⟨hsited, by rw [get?_initial, if_pos rfl], ?_, List.nodup_nil, ?_⟩
  · intro i c hne hi
    exact absurd (hmain hi).1 hne
  · intro region
    refine iff_of_false (List.not_mem_nil) ?_
    rintro ⟨howned, i, c, hi, rfl⟩
    rw [(hmain hi).2] at howned
    exact absurd howned (by simp [mainControl, Region.borrowed])

/-- The memory used by a thread or by another one. -/
theorem uses_iff (p : ThreadGroup) (i : BlockId) (region : Region) :
    p.Uses region ↔ (∃ c, p.registry.get? i = some c ∧ c.region = region) ∨
      ∃ j c, j ≠ i ∧ p.registry.get? j = some c ∧ c.region = region := by
  constructor
  · rintro ⟨j, c, hj, hc⟩
    by_cases hji : j = i
    · exact .inl ⟨c, hji ▸ hj, hc⟩
    · exact .inr ⟨j, c, hji, hj, hc⟩
  · rintro (⟨c, hi, hc⟩ | ⟨j, c, -, hj, hc⟩)
    · exact ⟨i, c, hi, hc⟩
    · exact ⟨j, c, hj, hc⟩

theorem Touches.uses_iff (h : p.Touches p' i o) (region : Region) :
    p'.Uses region ↔ (∃ c, o = some c ∧ c.region = region) ∨
      ∃ j c, j ≠ i ∧ p.registry.get? j = some c ∧ c.region = region := by
  rw [ThreadGroup.uses_iff p' i]
  have hi : p'.registry.get? i = o := h.get?_self
  have hother (j : BlockId) (c : Control) : (j ≠ i ∧ p'.registry.get? j = some c ∧
      c.region = region) ↔ j ≠ i ∧ p.registry.get? j = some c ∧ c.region = region := by
    refine and_congr_right fun hj => ?_
    rw [h.get?_of_ne hj]
  simp only [hi, hother]

/-- Only a thread that is created arrives. -/
theorem Turns.arrives {s : Standing} {m : Milestone} (h : p.Turns p' i s m)
    (hs : Matches s (p.registry.get? i)) (hm : ∀ d, m ≠ .created d) (o : Option Control) :
    p.Arrives i o := by
  intro hnone
  obtain ⟨_, hnext, -⟩ := h
  have hlive := hs.isSome_iff.2 (hnext.live hm)
  exact absurd hlive (by simp [hnone])

theorem mem_remapped_none_some (mapped : List Region) (c : Control) (region : Region) :
    region ∈ remapped mapped none (some c) ↔
      region.owned = true ∧ c.region = region ∨ region ∈ mapped := by
  rw [remapped]
  split
  next howned =>
    rw [List.mem_cons, eq_comm]
    exact or_congr_left ⟨fun heq => ⟨heq ▸ howned, heq⟩, And.right⟩
  next howned =>
    refine (or_iff_right ?_).symm
    rintro ⟨howned', rfl⟩
    exact howned howned'

theorem mem_remapped_some_none {mapped : List Region} (hnodup : mapped.Nodup) (c : Control)
    (region : Region) : region ∈ remapped mapped (some c) none ↔
      ¬ (region.owned = true ∧ c.region = region) ∧ region ∈ mapped := by
  rw [remapped]
  split
  next howned =>
    rw [hnodup.mem_erase_iff]
    refine and_congr_left fun _ => not_congr ⟨?_, fun h => h.2.symm⟩
    rintro rfl
    exact ⟨howned, rfl⟩
  next howned =>
    refine (and_iff_right ?_).symm
    rintro ⟨howned', rfl⟩
    exact howned howned'

namespace Placed

/-- No other thread uses the memory of a housed one. -/
theorem region_ne (h : Placed pid p) (hi : p.registry.get? i = some c) (hc : Housed c)
    (hj : p.registry.get? j = some d) (hne : j ≠ i) : d.region ≠ c.region := by
  intro heq
  exact hc.address.not_apart (heq ▸ hc.address) (h.apart i j c d hne.symm hi hj)

theorem nodup_touches (h : Placed pid p) (ht : p.Touches p' i o) (hnew : p.Arrives i o) :
    p'.mapped.Nodup := by
  rw [ht.mapped]
  cases hi : p.registry.get? i with
  | none =>
    cases o with
    | none => exact h.nodup
    | some c =>
      obtain ⟨hc, hapart⟩ := hnew hi c rfl
      have hunused : c.region ∉ p.mapped := by
        intro hmem
        obtain ⟨j, d, hj, heq⟩ := ((h.mem_mapped_iff _).1 hmem).2
        exact hc.address.not_apart (heq ▸ hc.address) (hapart j d hj)
      rw [remapped]
      split
      · exact List.nodup_cons.2 ⟨hunused, h.nodup⟩
      · exact h.nodup
  | some c =>
    cases o with
    | none =>
      rw [remapped]
      split
      · exact h.nodup.erase _
      · exact h.nodup
    | some c' => exact h.nodup

theorem mem_mapped_touches (h : Placed pid p) (ht : p.Touches p' i o) (hne : i ≠ 0)
    (region : Region) : region ∈ p'.mapped ↔ region.owned = true ∧ p'.Uses region := by
  rw [ht.mapped, ht.uses_iff]
  -- the memory of the other threads is the same on both sides, so only that of `i` counts
  have hbefore := h.mem_mapped_iff region
  rw [uses_iff p i] at hbefore
  cases hi : p.registry.get? i with
  | none =>
    rw [hi] at hbefore
    cases o with
    | none => simpa [remapped] using hbefore
    | some c =>
      rw [mem_remapped_none_some, hbefore]
      simp [and_or_left]
  | some c =>
    rw [hi] at hbefore
    cases o with
    | none =>
      have hother (hother : ∃ j d, j ≠ i ∧ p.registry.get? j = some d ∧ d.region = region) :
          c.region ≠ region := by
        obtain ⟨j, d, hj, hd, rfl⟩ := hother
        exact (h.region_ne hi (h.housed i c hne hi) hd hj).symm
      rw [mem_remapped_some_none h.nodup, hbefore]
      simp only [Option.some.injEq, exists_eq_left', reduceCtorEq, false_and, exists_false,
        false_or]
      constructor
      · rintro ⟨hnot, howned, heq | hrest⟩
        · exact absurd ⟨howned, heq⟩ hnot
        · exact ⟨howned, hrest⟩
      · rintro ⟨howned, hrest⟩
        exact ⟨fun hgone => hother hrest hgone.2, howned, .inr hrest⟩
    | some c' =>
      have hsame := (ht.samePlace c c' hi rfl).region
      simpa [remapped, hsame] using hbefore

/-- A new thread has memory apart from that of the others. -/
theorem touches (h : Placed pid p) (ht : p.Touches p' i o) (hne : i ≠ 0) (hnew : p.Arrives i o) :
    Placed pid p' := by
  refine ⟨h.toSited.touches ht hnew, ?_, ?_, h.nodup_touches ht hnew, h.mem_mapped_touches ht hne⟩
  · rw [ht.get?_of_ne hne.symm, h.main]
  · intro j c hj hc
    obtain ⟨rfl, hc⟩ | ⟨-, hc⟩ := ht.get?_eq_some_iff.1 hc
    · cases hi : p.registry.get? j with
      | none => exact (hnew hi c hc).1
      | some c₀ => exact (h.housed j c₀ hne hi).of_samePlace (ht.samePlace c₀ c hi hc)
    · exact h.housed j c hj hc

/-- A region is unmapped when the thread that owns it goes. -/
theorem unmapped_iff (h : Placed pid p) (ht : p.Touches p' i o) (hne : i ≠ 0)
    (hnew : p.Arrives i o) (region : Region) :
    region ∈ p.mapped ∧ region ∉ p'.mapped ↔
      region.owned = true ∧ ∃ j c, p.registry.get? j = some c ∧ p'.registry.get? j = none ∧
        c.region = region := by
  have h' := h.touches ht hne hnew
  rw [h.mem_mapped_iff, h'.mem_mapped_iff]
  constructor
  · rintro ⟨⟨howned, j, c, hj, rfl⟩, hunused⟩
    refine ⟨howned, j, c, hj, ?_, rfl⟩
    cases hj' : p'.registry.get? j with
    | none => rfl
    | some c' =>
      refine absurd ⟨howned, j, c', hj', ?_⟩ hunused
      obtain ⟨rfl, ho⟩ | ⟨-, hc'⟩ := ht.get?_eq_some_iff.1 hj'
      · exact (ht.samePlace c c' hj ho).region
      · rw [Option.some.inj (hc'.symm.trans hj)]
  · rintro ⟨howned, j, c, hj, hj', rfl⟩
    -- only `i` can have gone, and nobody else uses its memory
    refine ⟨⟨howned, j, c, hj, rfl⟩, ?_⟩
    obtain rfl : j = i := by
      by_contra hji
      rw [ht.get?_of_ne hji, hj] at hj'
      exact absurd hj' (by simp)
    rintro ⟨-, k, d, hk, hd⟩
    obtain ⟨rfl, ho⟩ | ⟨hkj, hk⟩ := ht.get?_eq_some_iff.1 hk
    · rw [ht.get?_self, ho] at hj'
      exact absurd hj' (by simp)
    · exact h.region_ne hj (h.housed j c hne hj) hk hkj hd

theorem sameThreads (h : Placed pid p) (hsame : p.SameThreads p') : Placed pid p' := by
  have hget (i : BlockId) : p'.registry.get? i = p.registry.get? i := by rw [hsame.registry]
  refine ⟨h.toSited.congr hget, ?_, ?_, ?_, ?_⟩
  · rw [hget, h.main]
  · intro i c hne hi
    exact h.housed i c hne (hget i ▸ hi)
  · rw [hsame.mapped]
    exact h.nodup
  · intro region
    rw [hsame.mapped, h.mem_mapped_iff]
    simp only [Uses, hget]

/-! ## The calling thread -/

theorem isMain_eq_false (h : Placed pid p) (hne : i ≠ 0) (hi : p.registry.get? i = some c) :
    c.isMain = false :=
  (h.housed i c hne hi).isMain

theorem join_main (h : Placed pid p) (me : Tid) :
    p.join me 0 = .error (.invalidArgument "initial thread cannot be joined") := by
  rw [join, h.main]
  rfl

theorem detach_main (h : Placed pid p) :
    p.detach 0 = .error (.invalidArgument "initial thread cannot be detached") := by
  rw [detach, h.main]
  rfl

theorem completeJoin?_main (h : Placed pid p) : p.completeJoin? 0 = none := by
  rw [completeJoin?, h.main]
  exact if_neg (by simp [mainControl])

/-- A created thread that calls is found by its local storage. -/
theorem exiting_eq (h : Placed pid p) {l : List BlockId} (hl : p.registry.Lists l) (hne : i ≠ 0)
    (hi : p.registry.get? i = some c) : p.exiting ⟨c.tid, c.tls⟩ = .ok i := by
  have hc := h.housed i c hne hi
  have hfind : p.registry.findByTls? c.tls = some i := by
    rw [Registry.findByTls?, if_neg hc.tls_ne]
    refine hl.find?_eq hi (by simp [ControlBlock.tls]) ?_
    intro j d hj htls
    have htls : d.tls = c.tls := by simpa [ControlBlock.tls] using htls
    by_contra hji
    by_cases hzero : j = 0
    · subst hzero
      obtain rfl := Option.some.inj (h.main.symm.trans hj)
      exact hc.tls_ne htls.symm
    · have hd := (h.housed j d hzero hj).tls
      rw [htls] at hd
      exact hd.not_apart hc.tls (h.apart j i d c hji hj hi)
  have hcurrent : p.currentControl ⟨c.tid, c.tls⟩ = .ok (i, c) := by
    simp only [currentControl, current?, hfind, Option.some_or, hi]
  rw [exiting, hcurrent]
  simp [hc.isMain, bind, Except.bind]

end Placed
end Threading.ThreadGroup

import Threading.Proofs.Threads.Deeds

/-!
# The sites of threads

Every registered thread that was created has its blocks in memory of its own, so an address
identifies the thread whose memory it lies in. In particular, no two registered threads have
the same handle, and the handle of a registered thread leads to its control block.
-/
namespace Threading.ThreadGroup

variable {p p' : ThreadGroup} {i j : BlockId} {c d : Control} {o : Option Control}
variable {l : List BlockId}

theorem Lodged.of_samePlace (h : Lodged c) (hsame : SamePlace c d) : Lodged d where
  address := by rw [hsame.region, hsame.address]; exact h.address
  tls := by rw [hsame.region, hsame.tls]; exact h.tls
  address_ne := by rw [hsame.address]; exact h.address_ne
  tls_ne := by rw [hsame.tls]; exact h.tls_ne
  tls_ne_address := by rw [hsame.tls, hsame.address]; exact h.tls_ne_address

theorem Housed.of_samePlace (h : Housed c) (hsame : SamePlace c d) : Housed d where
  toLodged := h.toLodged.of_samePlace hsame
  isMain := by rw [hsame.isMain, h.isMain]
  cleanupTop := by rw [hsame.cleanupTop, h.cleanupTop]
  starts := by rw [hsame.starts, h.starts]

/-- What is registered after a call is the touched thread or was registered before. -/
theorem Touches.get?_eq_some_iff (h : p.Touches p' i o) :
    p'.registry.get? j = some c ↔ j = i ∧ o = some c ∨ j ≠ i ∧ p.registry.get? j = some c := by
  rw [h.get?]
  split
  next hj => simp [hj]
  next hj => simp [hj]

/-- No registered thread uses memory of the region. -/
def Spares (p : ThreadGroup) (region : Region) : Prop :=
  ∀ i ∈ p.registry.ids, ∀ c ∈ p.registry.get? i, region.Apart c.region

instance (p : ThreadGroup) (region : Region) : Decidable (p.Spares region) :=
  inferInstanceAs (Decidable (∀ i ∈ _, ∀ c ∈ _, _))

theorem Spares.apart {region : Region} (h : p.Spares region) {c : Control}
    (hi : p.registry.get? i = some c) : region.Apart c.region :=
  h i (Registry.mem_ids_of_get? hi) c hi

/-- A thread that comes finds its memory unused. -/
def Arrives (p : ThreadGroup) (i : BlockId) (o : Option Control) : Prop :=
  p.registry.get? i = none → ∀ c, o = some c →
    Housed c ∧ ∀ j d, p.registry.get? j = some d → c.region.Apart d.region

/-- A thread that is registered does not arrive. -/
theorem arrives_of_registered (hi : p.registry.get? i = some c) (o : Option Control) :
    p.Arrives i o :=
  fun hnone => absurd (hi.symm.trans hnone) (by simp)

/-- The registered threads have memory of their own, but for the initial one, whose memory the
runtime knows nothing of. -/
structure Sited (p : ThreadGroup) : Prop where
  address_main : ∀ i c, p.registry.get? i = some c → c.isMain = true → c.address = 0
  unique_main : ∀ i j c d, p.registry.get? i = some c → p.registry.get? j = some d →
    c.isMain = true → d.isMain = true → i = j
  lodged : ∀ i c, p.registry.get? i = some c → c.isMain = false → Lodged c
  apart : ∀ i j c d, i ≠ j → p.registry.get? i = some c → p.registry.get? j = some d →
    c.region.Apart d.region

namespace Sited

theorem congr (h : Sited p) (hget : ∀ i, p'.registry.get? i = p.registry.get? i) : Sited p' where
  address_main i c hi := h.address_main i c (hget i ▸ hi)
  unique_main i j c d hi hj := h.unique_main i j c d (hget i ▸ hi) (hget j ▸ hj)
  lodged i c hi := h.lodged i c (hget i ▸ hi)
  apart i j c d hne hi hj := h.apart i j c d hne (hget i ▸ hi) (hget j ▸ hj)

/-- A new thread has memory apart from that of the others. -/
theorem touches (h : Sited p) (ht : p.Touches p' i o) (hnew : p.Arrives i o) : Sited p' := by
  -- what is said of the touched thread holds because it is new, or was said of it before
  have hmain (c : Control) (hc : o = some c) (hm : c.isMain = true) :
      ∃ c₀, p.registry.get? i = some c₀ ∧ c₀.isMain = true ∧ c.address = c₀.address := by
    cases hi : p.registry.get? i with
    | none => exact absurd hm (by simp [(hnew hi c hc).1.isMain])
    | some c₀ =>
      have hsame := ht.samePlace c₀ c hi hc
      exact ⟨c₀, rfl, hsame.isMain ▸ hm, hsame.address⟩
  have hown (c : Control) (hc : o = some c) : (c.isMain = false → Lodged c) ∧
      ∀ j d, j ≠ i → p.registry.get? j = some d → c.region.Apart d.region := by
    cases hi : p.registry.get? i with
    | none => exact ⟨fun _ => (hnew hi c hc).1.toLodged, fun j d _ => (hnew hi c hc).2 j d⟩
    | some c₀ =>
      have hsame := ht.samePlace c₀ c hi hc
      refine ⟨fun hm => (h.lodged i c₀ hi (hsame.isMain ▸ hm)).of_samePlace hsame, ?_⟩
      intro j d hj hd
      rw [hsame.region]
      exact h.apart i j c₀ d hj.symm hi hd
  refine ⟨?_, ?_, ?_, ?_⟩
  · intro j c hj hm
    obtain ⟨rfl, hc⟩ | ⟨-, hc⟩ := ht.get?_eq_some_iff.1 hj
    · obtain ⟨c₀, hi, hm₀, haddress⟩ := hmain c hc hm
      exact haddress.trans (h.address_main j c₀ hi hm₀)
    · exact h.address_main j c hc hm
  · -- an initial thread was registered before, wherever it is
    have hbefore (j : BlockId) (c : Control) (hj : p'.registry.get? j = some c)
        (hm : c.isMain = true) : ∃ c₀, p.registry.get? j = some c₀ ∧ c₀.isMain = true := by
      obtain ⟨rfl, hc⟩ | ⟨-, hc⟩ := ht.get?_eq_some_iff.1 hj
      · obtain ⟨c₀, hi, hm₀, -⟩ := hmain c hc hm
        exact ⟨c₀, hi, hm₀⟩
      · exact ⟨c, hc, hm⟩
    intro j k c d hj hk hm hm'
    obtain ⟨c₀, hj, hm⟩ := hbefore j c hj hm
    obtain ⟨d₀, hk, hm'⟩ := hbefore k d hk hm'
    exact h.unique_main j k c₀ d₀ hj hk hm hm'
  · intro j c hj hm
    obtain ⟨rfl, hc⟩ | ⟨-, hc⟩ := ht.get?_eq_some_iff.1 hj
    · exact (hown c hc).1 hm
    · exact h.lodged j c hc hm
  · intro j k c d hjk hc hd
    obtain ⟨rfl, hc⟩ | ⟨hj, hc⟩ := ht.get?_eq_some_iff.1 hc
    · obtain ⟨rfl, -⟩ | ⟨hk, hd⟩ := ht.get?_eq_some_iff.1 hd
      · exact absurd rfl hjk
      · exact (hown c hc).2 k d hk hd
    · obtain ⟨rfl, hd⟩ | ⟨hk, hd⟩ := ht.get?_eq_some_iff.1 hd
      · exact ((hown d hd).2 j c hj hc).symm
      · exact h.apart j k c d hjk hc hd

/-- The control blocks of registered threads have different addresses. -/
theorem eq_of_address_eq (h : Sited p) (hi : p.registry.get? i = some c)
    (hj : p.registry.get? j = some d) (heq : c.address = d.address) : i = j := by
  have hmain {k : BlockId} {b : Control} (hk : p.registry.get? k = some b) :
      b.address = 0 ↔ b.isMain = true := by
    cases hb : b.isMain with
    | true => exact iff_of_true (h.address_main k b hk hb) rfl
    | false => exact iff_of_false (h.lodged k b hk hb).address_ne Bool.false_ne_true
  by_contra hne
  cases hc : c.isMain with
  | true =>
    have hd := (hmain hj).1 (heq ▸ (hmain hi).2 hc)
    exact hne (h.unique_main i j c d hi hj hc hd)
  | false =>
    have hd : d.isMain = false := Bool.eq_false_iff.2 fun hd =>
      (h.lodged i c hi hc).address_ne (heq.trans ((hmain hj).2 hd))
    have haddress := (h.lodged j d hj hd).address
    rw [← heq] at haddress
    exact (h.lodged i c hi hc).address.not_apart haddress (h.apart i j c d hne hi hj)

/-- The handle of a registered thread leads to it. -/
theorem blockAt?_eq (h : Sited p) (hl : p.registry.Lists l) (hi : p.registry.get? i = some c) :
    p.blockAt? c.address = some i := by
  refine hl.find?_eq hi (decide_eq_true rfl) fun j d hj haddress => ?_
  exact h.eq_of_address_eq hj hi (of_decide_eq_true haddress)

/-- The address of a thread's local storage is the handle of no thread. -/
theorem tls_ne_handle (h : Sited p) (hi : p.registry.get? i = some c) (hc : c.isMain = false)
    (hj : p.registry.get? j = some d) : d.address ≠ c.tls := by
  have hlodged := h.lodged i c hi hc
  intro heq
  by_cases hji : j = i
  · rw [hji, hi] at hj
    obtain rfl := Option.some.inj hj
    exact hlodged.tls_ne_address heq.symm
  cases hd : d.isMain with
  | true => exact hlodged.tls_ne (heq.symm.trans (h.address_main j d hj hd))
  | false =>
    have haddress := (h.lodged j d hj hd).address
    rw [heq] at haddress
    exact haddress.not_apart hlodged.tls (h.apart j i d c hji hj hi)

/-- There are fewer registered threads than addresses. -/
theorem length_lt (h : Sited p) (hl : p.registry.Lists l) : l.length < UInt64.size := by
  have hget {i : BlockId} (hi : i ∈ l) : ∃ c, p.registry.get? i = some c :=
    hl.exists_of_mem hi
  by_cases hcreated : ∃ i c, p.registry.get? i = some c ∧ c.isMain = false
  · obtain ⟨i, c, hi, hc⟩ := hcreated
    have hhandle {j : BlockId} {d : Control} (hj : p.registry.get? j = some d) :
        p.handle j = d.address := by
      rw [handle, hj]
      rfl
    -- the handles of all threads, and an address that is none of them
    have hnodup : (c.tls :: l.map p.handle).Nodup := by
      refine List.nodup_cons.2 ⟨fun hmem => ?_, hl.nodup.map_on fun j hj j' hj' heq => ?_⟩
      · obtain ⟨j, hj, heq⟩ := List.mem_map.1 hmem
        obtain ⟨d, hd⟩ := hget hj
        exact h.tls_ne_handle hi hc hd ((hhandle hd).symm.trans heq)
      · obtain ⟨d, hd⟩ := hget hj
        obtain ⟨d', hd'⟩ := hget hj'
        rw [hhandle hd, hhandle hd'] at heq
        exact h.eq_of_address_eq hd hd' heq
    have hsub : (c.tls :: l.map p.handle).map UInt64.toNat ⊆ List.range UInt64.size := by
      intro n hn
      obtain ⟨a, -, rfl⟩ := List.mem_map.1 hn
      exact List.mem_range.2 a.toNat_lt
    have hle := (List.subperm_of_subset (hnodup.map fun _ _ => UInt64.toNat_inj.1) hsub).length_le
    rw [List.length_map, List.length_cons, List.length_map, List.length_range] at hle
    exact hle
  · have hmain {i : BlockId} {c : Control} (hi : p.registry.get? i = some c) : c.isMain = true := by
      by_contra hc
      exact hcreated ⟨i, c, hi, Bool.eq_false_iff.2 hc⟩
    have hnodup := hl.nodup
    match l, hnodup with
    | [], _ => exact (by decide : 0 < UInt64.size)
    | [i], _ => exact (by decide : 1 < UInt64.size)
    | i :: j :: _, hnodup =>
      obtain ⟨c, hi⟩ := hget List.mem_cons_self
      obtain ⟨d, hj⟩ := hget (List.mem_cons_of_mem _ List.mem_cons_self)
      obtain rfl := h.unique_main i j c d hi hj (hmain hi) (hmain hj)
      exact absurd List.mem_cons_self (List.nodup_cons.1 hnodup).1

end Sited

/-- A handle that leads somewhere is that of a registered thread. -/
theorem exists_of_blockAt? (hl : p.registry.Lists l) {handle : UInt64}
    (h : p.blockAt? handle = some i) : ∃ c, p.registry.get? i = some c ∧ c.address = handle := by
  rw [blockAt?, hl.find?_eq_find?] at h
  have hany : (p.registry.block? i).any (·.address = handle) := by
    simpa only using List.find?_some h
  obtain ⟨c, hc, haddress⟩ := (Option.any_eq_true _ _).1 hany
  exact ⟨c, hl.get?_eq_some_iff.2 ⟨List.mem_of_find?_eq_some h, hc⟩, of_decide_eq_true haddress⟩

end Threading.ThreadGroup

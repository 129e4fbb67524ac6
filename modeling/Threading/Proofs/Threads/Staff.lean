import Threading.Proofs.Threads.Phases

/-!
# Threads that are to be joined

A thread creates others, and in the end it joins all of them in order. Until then each of them
has a handle that leads to it, and a value that it is going to depart with. Those that have not
ended are the staff. Whoever of them goes on, and whoever else is created or joined, the handles
that are left stay good.
-/
namespace Threading

theorem mem_middle {α : Type} {us vs : List α} {u w : α} :
    u ∈ us ++ w :: vs ↔ u = w ∨ u ∈ us ++ vs := by
  simp only [List.mem_append, List.mem_cons]
  tauto

namespace ThreadGroup

variable {p p' : ThreadGroup} {i : BlockId} {b b' : Control} {t me : Tid} {v : UInt64}

/-- A thread that has not ended. -/
structure Post where
  block : BlockId
  tid : Tid
  phase : Phase
  /-- The value it departs with. -/
  value : UInt64

/-- What a join is going to be about. -/
structure Due where
  handle : UInt64
  /-- The value it returns. -/
  value : UInt64

/-- The staff has its control blocks, and the threads with the dues are yet to be joined by `me`;
the thread with the first of them may be claimed. -/
structure Staffed (p : ThreadGroup) (me : Tid) (dues : List Due) (claimed : Option BlockId)
    (posts : List Post) : Prop where
  lists : ∃ l, p.registry.Lists l
  sited : p.Sited
  nodup : (dues.map (·.handle)).Nodup
  distinct : (posts.map (·.block)).Nodup
  post : ∀ w ∈ posts, w.phase ≠ .ended ∧ (w.tid ≠ 0 ∧ w.tid ≠ me) ∧
    ∃ b, p.registry.get? w.block = some b ∧ ⟨b.address, w.value⟩ ∈ dues ∧
      b.Shows w.phase w.tid w.value (decide (claimed = some w.block))
  due : ∀ d ∈ dues, ∃ i b, p.registry.get? i = some b ∧ b.address = d.handle ∧
    (i ∈ posts.map (·.block) ∨
      ∃ t, (t ≠ 0 ∧ t ≠ me) ∧ b.Shows .ended t d.value (decide (claimed = some i)))
  claim : ∀ i, claimed = some i →
    ∃ b, p.registry.get? i = some b ∧ (dues.map (·.handle)).head? = some b.address

namespace Staffed

variable {d : Due} {dues dues' : List Due} {claimed : Option BlockId} {w : Post}
variable {posts posts' us vs : List Post} {phase : Phase}

theorem nobody (hl : ∃ l, p.registry.Lists l) (hsited : p.Sited) (me : Tid) :
    p.Staffed me [] none [] where
  lists := hl
  sited := hsited
  nodup := List.nodup_nil
  distinct := List.nodup_nil
  post _ h := absurd h List.not_mem_nil
  due _ h := absurd h List.not_mem_nil
  claim _ h := absurd h nofun

theorem posts_eq_nil (h : p.Staffed me [] claimed posts) : posts = [] := by
  cases posts with
  | nil => rfl
  | cons w posts =>
    obtain ⟨-, -, b, -, hdue, -⟩ := h.post w List.mem_cons_self
    exact absurd hdue List.not_mem_nil

/-- A handle that is yet to be joined belongs to a registered thread. -/
theorem knows (h : p.Staffed me dues claimed posts) (hd : d ∈ dues) : p.knows d.handle = true := by
  obtain ⟨l, hl⟩ := h.lists
  obtain ⟨i, b, hi, haddress, -⟩ := h.due d hd
  rw [ThreadGroup.knows, ← haddress, h.sited.blockAt?_eq hl hi]
  rfl

theorem congr (h : p.Staffed me dues claimed posts) (hsame : p.SameThreads p') :
    p'.Staffed me dues claimed posts where
  lists := hsame.registry ▸ h.lists
  sited := h.sited.congr fun i => by rw [hsame.registry]
  nodup := h.nodup
  distinct := h.distinct
  post := hsame.registry ▸ h.post
  due := hsame.registry ▸ h.due
  claim := hsame.registry ▸ h.claim

/-- As long as nobody is claimed, the order does not matter. -/
theorem perm (h : p.Staffed me dues none posts) (hdues : dues.Perm dues')
    (hposts : posts.Perm posts') : p.Staffed me dues' none posts' where
  lists := h.lists
  sited := h.sited
  nodup := (hdues.map _).nodup_iff.1 h.nodup
  distinct := (hposts.map _).nodup_iff.1 h.distinct
  post w hw := by
    obtain ⟨hphase, htid, b, hb, hdue, hshows⟩ := h.post w (hposts.mem_iff.2 hw)
    exact ⟨hphase, htid, b, hb, hdues.mem_iff.1 hdue, hshows⟩
  due d hd := by
    obtain ⟨i, b, hi, hb, hat⟩ := h.due d (hdues.mem_iff.2 hd)
    exact ⟨i, b, hi, hb, hat.imp_left (hposts.map _).mem_iff.1⟩
  claim _ h := absurd h nofun

/-! ## The staff goes on -/

theorem block_ne (h : p.Staffed me dues claimed (us ++ w :: vs)) {u : Post} (hu : u ∈ us ++ vs) :
    u.block ≠ w.block := by
  have hdistinct := h.distinct
  rw [List.map_append, List.map_cons, List.nodup_middle, List.nodup_cons, ← List.map_append]
    at hdistinct
  exact fun heq => hdistinct.1 (heq ▸ List.mem_map_of_mem hu)

/-- The claimed thread keeps its handle while a block is written to. -/
theorem claim_touches (h : p.Staffed me dues claimed posts) (htouches : p.Touches p' i (some b'))
    (hi : p.registry.get? i = some b) (j : BlockId) (hj : claimed = some j) :
    ∃ b, p'.registry.get? j = some b ∧ (dues.map (·.handle)).head? = some b.address := by
  obtain ⟨d, hd, hhead⟩ := h.claim j hj
  by_cases heq : j = i
  · subst heq
    obtain rfl := Option.some.inj (hi.symm.trans hd)
    exact ⟨b', htouches.get?_self, (htouches.samePlace b b' hi rfl).address ▸ hhead⟩
  · exact ⟨d, (htouches.get?_of_ne heq).trans hd, hhead⟩

/-- One of the staff goes on and has not ended yet. -/
theorem advance (h : p.Staffed me dues claimed (us ++ w :: vs))
    (htouches : p.Touches p' w.block (some b'))
    (hshows : b'.Shows phase w.tid w.value (decide (claimed = some w.block)))
    (hphase : phase ≠ .ended) : p'.Staffed me dues claimed (us ++ { w with phase } :: vs) := by
  obtain ⟨-, htid, b, hb, hdue, -⟩ := h.post w (mem_middle.2 (.inl rfl))
  have haddress := (htouches.samePlace b b' hb rfl).address
  have hblocks : (us ++ { w with phase } :: vs).map (·.block) =
      (us ++ w :: vs).map (·.block) := by
    rw [List.map_append, List.map_append, List.map_cons, List.map_cons]
  constructor
  case lists => exact htouches.lists
  case sited => exact h.sited.touches htouches (arrives_of_registered hb _)
  case nodup => exact h.nodup
  case distinct => exact hblocks ▸ h.distinct
  case post =>
    intro u hu
    obtain rfl | hu := mem_middle.1 hu
    · exact ⟨hphase, htid, b', htouches.get?_self, haddress ▸ hdue, hshows⟩
    · obtain ⟨hother, htid', d, hd, hrest⟩ := h.post u (mem_middle.2 (.inr hu))
      exact ⟨hother, htid', d, (htouches.get?_of_ne (h.block_ne hu)).trans hd, hrest⟩
  case due =>
    intro d hd
    obtain ⟨i, c, hi, hc, hat⟩ := h.due d hd
    rw [hblocks]
    by_cases heq : i = w.block
    · subst heq
      obtain rfl := Option.some.inj (hb.symm.trans hi)
      exact ⟨w.block, b', htouches.get?_self, haddress.trans hc, .inl (by simp)⟩
    · exact ⟨i, c, (htouches.get?_of_ne heq).trans hi, hc, hat⟩
  case claim => exact h.claim_touches htouches hb

/-- The task of one that has departed goes. -/
theorem expire (h : p.Staffed me dues claimed (us ++ w :: vs)) (hphase : w.phase = .departed) :
    (p.expire w.block).Staffed me dues claimed (us ++ vs) := by
  obtain ⟨l, hl⟩ := h.lists
  obtain ⟨-, htid, b, hb, hdue, hshows⟩ := h.post w (mem_middle.2 (.inl rfl))
  rw [hphase] at hshows
  have htouches : p.Touches (p.expire w.block) w.block (some (expired b)) :=
    touches_modify hl hb expired ⟨rfl, rfl, rfl, rfl, rfl, rfl⟩ rfl rfl rfl
  constructor
  case lists => exact htouches.lists
  case sited => exact h.sited.touches htouches (arrives_of_registered hb _)
  case nodup => exact h.nodup
  case distinct =>
    have hsub : (us ++ vs).Sublist (us ++ w :: vs) :=
      (List.Sublist.refl us).append (List.sublist_cons_self w vs)
    exact h.distinct.sublist (hsub.map _)
  case post =>
    intro u hu
    obtain ⟨hother, htid', d, hd, hrest⟩ := h.post u (mem_middle.2 (.inr hu))
    exact ⟨hother, htid', d, (htouches.get?_of_ne (h.block_ne hu)).trans hd, hrest⟩
  case due =>
    intro d hd
    obtain ⟨i, c, hi, hc, hat⟩ := h.due d hd
    by_cases heq : i = w.block
    · subst heq
      obtain rfl := Option.some.inj (hb.symm.trans hi)
      -- the due is the one of the thread itself, as it has its handle
      have hvalue : d.value = w.value :=
        congrArg Due.value (List.inj_on_of_nodup_map h.nodup hd hdue hc.symm)
      refine ⟨w.block, _, htouches.get?_self, hc, .inr ⟨w.tid, htid, ?_⟩⟩
      rw [hvalue]
      exact hshows.expire
    · refine ⟨i, c, (htouches.get?_of_ne heq).trans hi, hc, hat.imp_left fun hmem => ?_⟩
      rw [List.map_append, List.map_cons] at hmem
      rw [List.map_append]
      exact (mem_middle.1 hmem).resolve_left heq
  case claim => exact h.claim_touches htouches hb

/-! ## Threads come and go -/

/-- A thread that gets created is one of the staff. -/
theorem hire (h : p.Staffed me dues none posts) (hnone : p.registry.get? i = none)
    (htouches : p.Touches p' i (some b)) (hsited : p'.Sited) (htid : t ≠ 0 ∧ t ≠ me)
    (hshows : b.Shows .running t v false) :
    p'.Staffed me (dues ++ [⟨b.address, v⟩]) none (posts ++ [⟨i, t, .running, v⟩]) := by
  -- who was there before is another thread
  have hne {j : BlockId} {d : Control} (hj : p.registry.get? j = some d) : j ≠ i := by
    rintro rfl
    rw [hnone] at hj
    cases hj
  constructor
  case lists => exact htouches.lists
  case sited => exact hsited
  case nodup =>
    rw [List.map_append, List.map_singleton]
    refine List.nodup_append.2 ⟨h.nodup, List.nodup_singleton _, ?_⟩
    rintro handle hmem handle' hmem' rfl
    obtain ⟨d, hd, rfl⟩ := List.mem_map.1 hmem
    obtain ⟨j, c, hj, hc, -⟩ := h.due d hd
    refine hne hj (hsited.eq_of_address_eq ((htouches.get?_of_ne (hne hj)).trans hj)
      htouches.get?_self ?_)
    rw [hc, List.mem_singleton.1 hmem']
  case distinct =>
    rw [List.map_append, List.map_singleton]
    refine List.nodup_append.2 ⟨h.distinct, List.nodup_singleton _, ?_⟩
    rintro j hmem j' hmem' rfl
    obtain ⟨w, hw, rfl⟩ := List.mem_map.1 hmem
    obtain ⟨-, -, c, hc, -⟩ := h.post w hw
    exact hne hc (List.mem_singleton.1 hmem')
  case post =>
    intro w hw
    obtain hw | hw := List.mem_append.1 hw
    · obtain ⟨hphase, htid', c, hc, hdue, hrest⟩ := h.post w hw
      exact ⟨hphase, htid', c, (htouches.get?_of_ne (hne hc)).trans hc,
        List.mem_append_left _ hdue, hrest⟩
    · obtain rfl := List.mem_singleton.1 hw
      exact ⟨nofun, htid, b, htouches.get?_self, List.mem_append_right _ List.mem_cons_self,
        hshows⟩
  case due =>
    intro d hd
    rw [List.map_append]
    obtain hd | hd := List.mem_append.1 hd
    · obtain ⟨j, c, hj, hc, hat⟩ := h.due d hd
      exact ⟨j, c, (htouches.get?_of_ne (hne hj)).trans hj, hc,
        hat.imp_left (List.mem_append_left _)⟩
    · obtain rfl := List.mem_singleton.1 hd
      exact ⟨i, b, htouches.get?_self, rfl, .inl (List.mem_append_right _ List.mem_cons_self)⟩
  case claim => exact fun _ h => absurd h nofun

/-- The first thread that is yet to be joined is claimed. -/
theorem claim_head (h : p.Staffed me (d :: dues) none posts) (hi : p.registry.get? i = some b)
    (hb : b.address = d.handle) : (p.claim i).Staffed me (d :: dues) (some i) posts := by
  obtain ⟨l, hl⟩ := h.lists
  have htouches := touches_claim hl hi
  have hself : decide (some i = some i) = true := decide_eq_true rfl
  have hother {j : BlockId} (hj : j ≠ i) : decide (some i = some j) = false :=
    decide_eq_false fun heq => hj (Option.some.inj heq).symm
  constructor
  case lists => exact htouches.lists
  case sited => exact h.sited.touches htouches (arrives_of_registered hi _)
  case nodup => exact h.nodup
  case distinct => exact h.distinct
  case post =>
    intro w hw
    obtain ⟨hphase, htid, c, hc, hdue, hshows⟩ := h.post w hw
    refine ⟨hphase, htid, ?_⟩
    by_cases heq : w.block = i
    · rw [heq] at hc ⊢
      obtain rfl := Option.some.inj (hi.symm.trans hc)
      exact ⟨_, htouches.get?_self, hdue, hself.symm ▸ hshows.claim⟩
    · exact ⟨c, (htouches.get?_of_ne heq).trans hc, hdue, (hother heq).symm ▸ hshows⟩
  case due =>
    intro d' hd'
    obtain ⟨j, c, hj, hc, hat⟩ := h.due d' hd'
    by_cases heq : j = i
    · rw [heq] at hj hat
      obtain rfl := Option.some.inj (hi.symm.trans hj)
      refine ⟨i, _, htouches.get?_self, hc, hat.imp_right ?_⟩
      rintro ⟨t, ht, hshows⟩
      exact ⟨t, ht, hself.symm ▸ hshows.claim⟩
    · refine ⟨j, c, (htouches.get?_of_ne heq).trans hj, hc, hat.imp_right ?_⟩
      rintro ⟨t, ht, hshows⟩
      exact ⟨t, ht, (hother heq).symm ▸ hshows⟩
  case claim =>
    rintro j hj
    obtain rfl := Option.some.inj hj
    exact ⟨_, htouches.get?_self, congrArg some hb.symm⟩

/-- The claimed thread has ended, or it is one of the staff. -/
theorem of_claimed (h : p.Staffed me (d :: dues) (some i) posts) :
    ∃ b, p.registry.get? i = some b ∧ b.address = d.handle ∧
      ((∃ t, t ≠ 0 ∧ b.Shows .ended t d.value true ∧
          p.completeJoin? i = some (d.value, p.reclaim i b)) ∨
        p.completeJoin? i = none ∧ posts ≠ []) := by
  obtain ⟨b, hi, hhead⟩ := h.claim i rfl
  have hb : b.address = d.handle := (Option.some.inj hhead).symm
  obtain ⟨j, c, hj, hc, hat⟩ := h.due d List.mem_cons_self
  obtain rfl := h.sited.eq_of_address_eq hj hi (hc.trans hb.symm)
  obtain rfl := Option.some.inj (hi.symm.trans hj)
  have hself : decide (some j = some j) = true := decide_eq_true rfl
  rw [hself] at hat
  refine ⟨b, hi, hb, hat.symm.imp ?_ ?_⟩
  · rintro ⟨t, ht, hshows⟩
    exact ⟨t, ht.1, hshows, by rw [hshows.completeJoin? hi ht.1, if_pos rfl]⟩
  · intro hmem
    obtain ⟨w, hw, rfl⟩ := List.mem_map.1 hmem
    refine ⟨?_, List.ne_nil_of_mem hw⟩
    obtain ⟨hphase, htid, c, hc, -, hshows⟩ := h.post w hw
    obtain rfl := Option.some.inj (hi.symm.trans hc)
    rw [hself] at hshows
    rw [hshows.completeJoin? hi htid.1, if_neg hphase]

/-- The first thread is joined once it has ended. -/
theorem remove_head (h : p.Staffed me (d :: dues) (some i) posts)
    (hi : p.registry.get? i = some b) (hended : b.tid = 0) :
    (p.reclaim i b).Staffed me dues none posts := by
  obtain ⟨l, hl⟩ := h.lists
  have htouches := touches_reclaim hl hi
  obtain ⟨b', hi', hhead⟩ := h.claim i rfl
  obtain rfl := Option.some.inj (hi.symm.trans hi')
  have hb : b.address = d.handle := (Option.some.inj hhead).symm
  have hunclaimed {j : BlockId} (hj : j ≠ i) :
      decide (some i = some j) = decide ((none : Option BlockId) = some j) := by
    rw [decide_eq_false fun heq => hj (Option.some.inj heq).symm,
      decide_eq_false (Option.some_ne_none j).symm]
  -- one of the staff is another thread
  have hne : ∀ w ∈ posts, w.block ≠ i := by
    intro w hw heq
    obtain ⟨hphase, htid, c, hc, -, hshows⟩ := h.post w hw
    obtain rfl := Option.some.inj ((heq ▸ hc).symm.trans hi)
    rw [hshows.tid, if_neg hphase] at hended
    exact htid.1 hended
  constructor
  case lists => exact htouches.lists
  case sited => exact h.sited.touches htouches fun _ _ hc => absurd hc nofun
  case nodup => exact (List.nodup_cons.1 h.nodup).2
  case distinct => exact h.distinct
  case post =>
    intro w hw
    obtain ⟨hphase, htid, c, hc, hdue, hshows⟩ := h.post w hw
    refine ⟨hphase, htid, c, (htouches.get?_of_ne (hne w hw)).trans hc,
      (List.mem_cons.1 hdue).resolve_left fun heq => ?_, hunclaimed (hne w hw) ▸ hshows⟩
    exact hne w hw (h.sited.eq_of_address_eq hc hi ((congrArg Due.handle heq).trans hb.symm))
  case due =>
    intro d' hd'
    obtain ⟨j, c, hj, hc, hat⟩ := h.due d' (List.mem_cons_of_mem _ hd')
    have hji : j ≠ i := by
      rintro rfl
      obtain rfl := Option.some.inj (hi.symm.trans hj)
      have hmem : d.handle ∈ dues.map (·.handle) := by
        rw [← hb, hc]
        exact List.mem_map_of_mem hd'
      exact (List.nodup_cons.1 h.nodup).1 hmem
    refine ⟨j, c, (htouches.get?_of_ne hji).trans hj, hc, hat.imp_right ?_⟩
    rintro ⟨t, ht, hshows⟩
    exact ⟨t, ht, hunclaimed hji ▸ hshows⟩
  case claim => exact fun _ h => absurd h nofun

end Staffed
end ThreadGroup

end Threading

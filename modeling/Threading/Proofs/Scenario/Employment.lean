import Threading.Proofs.Scenario.Joining
import Threading.Proofs.Scenario.Kernel
import Threading.Proofs.Scenario.Workers

/-!
# Workers at work

The workers that have been created are at work until they end, and whatever one of them does
next, this stays true. As long as there are workers one of them can go on, and a worker that is
through has seen both locks taken in the established order. The conductor creates workers while
others are at work, and can join all of them.
-/
namespace Threading.Scenario.Inversion

open LockOrder (CallStack)
open Performance (Returns)
open ThreadGroup (Due Post)

variable {c : Inversion} {k : Kernel} {s : Settings} {dues dues' : List Due} {n : Nat}
variable {claimed claimed' : Option BlockId} {p p' : ThreadGroup} {w w' : Worker}
variable {us vs ws : List Worker} {stage : Stage} {i : BlockId} {here : CallStack}

/-! ## The invariant -/

/-- A worker as one of the staff. It returns 0 in the end. -/
def post (w : Worker) : Post := ⟨w.block, w.tid, w.phase, 0⟩

/-- A worker in the rounds it was hired for, whose calls have not failed. -/
structure Busy (c : Inversion) (k : Kernel) (p : ThreadGroup) (w : Worker) : Prop where
  failed : w.failed = 0
  position : w.position ≠ .awaitsInner
  ahead_le : w.ahead ≤ c.iterations
  recorded : w.ahead < c.iterations → Recorded k p

/-- Of the `n` workers that were created, `ws` are at work. -/
structure AtWork (c : Inversion) (k : Kernel) (s : Settings) (n : Nat) (dues : List Due)
    (claimed : Option BlockId) (p : ThreadGroup) (ws : List Worker) : Prop where
  settings : p.settings = s
  staffed : p.Staffed k.conductor dues claimed (ws.map post)
  holdings : p.Holdings (ids k) (heldBy k ws)
  order : (graph p).OnlyOrder k.locks.outer k.locks.inner
  distinct : (ws.map (·.tid)).Nodup
  busy : ∀ w ∈ ws, Busy c k p w
  length_le : ws.length ≤ n
  ended : ws.length < n → 0 < c.iterations → Recorded k p
  recorded : Recorded k p → 0 < n ∧ 0 < c.iterations

theorem Busy.mono (h : Busy c k p w) (hrecorded : Recorded k p → Recorded k p') :
    Busy c k p' w where
  failed := h.failed
  position := h.position
  ahead_le := h.ahead_le
  recorded hlt := hrecorded (h.recorded hlt)

theorem recorded_of_sameLocks (h : p.SameLocks p') : Recorded k p' ↔ Recorded k p := by
  rw [Recorded, graph, h.graph]
  rfl

namespace AtWork

/-- The workers are at work if the locks are as before and the staff has its blocks. -/
theorem of_sameLocks (h : AtWork c k s n dues claimed p ws) (hlocks : p.SameLocks p')
    (hstaffed : p'.Staffed k.conductor dues' claimed' (ws.map post)) :
    AtWork c k s n dues' claimed' p' ws := by
  have hrecorded : Recorded k p' ↔ Recorded k p := recorded_of_sameLocks hlocks
  constructor
  case settings => exact hlocks.settings.trans h.settings
  case staffed => exact hstaffed
  case holdings => exact h.holdings.congr hlocks
  case order =>
    rw [graph, hlocks.graph]
    exact h.order
  case distinct => exact h.distinct
  case busy => exact fun w hw => (h.busy w hw).mono hrecorded.2
  case length_le => exact h.length_le
  case ended => exact fun hlt hpos => hrecorded.2 (h.ended hlt hpos)
  case recorded => exact fun hp => h.recorded (hrecorded.1 hp)

/-- A worker does something and has not ended afterwards. -/
theorem replace (h : AtWork c k s n dues claimed p (us ++ w :: vs)) (hbusy : Busy c k p' w')
    (htid : w'.tid = w.tid) (hsettings : p'.settings = p.settings)
    (hstaffed : p'.Staffed k.conductor dues claimed ((us ++ w' :: vs).map post))
    (hholdings : p'.Holdings (ids k) (heldBy k (us ++ w' :: vs)))
    (horder : (graph p').OnlyOrder k.locks.outer k.locks.inner)
    (hrecorded : Recorded k p' ↔ Recorded k p ∨ w'.ahead < w.ahead) :
    AtWork c k s n dues claimed p' (us ++ w' :: vs) := by
  have hlength : (us ++ w' :: vs).length = (us ++ w :: vs).length := by
    rw [List.length_append, List.length_append, List.length_cons, List.length_cons]
  have hkept : Recorded k p → Recorded k p' := fun hp => hrecorded.2 (.inl hp)
  constructor
  case settings => exact hsettings.trans h.settings
  case staffed => exact hstaffed
  case holdings => exact hholdings
  case order => exact horder
  case distinct =>
    have hdistinct := h.distinct
    rw [List.map_append, List.map_cons] at hdistinct ⊢
    rwa [htid]
  case busy =>
    intro u hu
    obtain rfl | hu := mem_middle.1 hu
    · exact hbusy
    · exact (h.busy u (mem_middle.2 (.inr hu))).mono hkept
  case length_le => exact hlength ▸ h.length_le
  case ended => exact fun hlt hpos => hkept (h.ended (hlength ▸ hlt) hpos)
  case recorded =>
    intro hp'
    obtain hp | hless := hrecorded.1 hp'
    · exact h.recorded hp
    · refine ⟨Nat.lt_of_lt_of_le (List.length_pos_of_mem (mem_middle.2 (.inl rfl))) h.length_le, ?_⟩
      exact Nat.lt_of_lt_of_le (Nat.zero_lt_of_lt hless)
        (h.busy w (mem_middle.2 (.inl rfl))).ahead_le

/-! ## Steps of a worker -/

theorem shift (h : AtWork c k s n dues claimed p (us ++ w :: vs))
    (hrunning : w.position ≠ .departed)
    (hshifts : Shifts k (heldBy k (us ++ w :: vs)) p p' w w') :
    AtWork c k s n dues claimed p' (us ++ w' :: vs) := by
  have hw := h.busy w (mem_middle.2 (.inl rfl))
  have hphase : w'.phase = w.phase := by
    rw [Worker.phase, Worker.phase, if_neg hrunning, if_neg hshifts.running]
  have hpost : post w' = post w := by
    rw [post, post, hshifts.block, hshifts.tid, hphase]
  have hbusy : Busy c k p' w' := by
    refine ⟨hshifts.failed.trans hw.failed, hshifts.position,
      Nat.le_trans hshifts.ahead_le hw.ahead_le, fun hlt => hshifts.recorded.2 ?_⟩
    obtain heq | hless := Nat.eq_or_lt_of_le hshifts.ahead_le
    · exact .inl (hw.recorded (heq ▸ hlt))
    · exact .inr hless
  refine h.replace hbusy hshifts.tid hshifts.settings ?_ ?_ hshifts.order hshifts.recorded
  · have hstaffed := h.staffed.congr hshifts.same
    rw [List.map_append, List.map_cons] at hstaffed ⊢
    rwa [hpost]
  · rw [heldBy_update h.distinct hshifts.tid]
    exact hshifts.holdings

/-- A worker without a round left departs with 0. -/
theorem exists_leave (h : AtWork c k s n dues claimed p (us ++ w :: vs))
    (hposition : w.position = .apart) (hrounds : w.rounds = 0) :
    ∃ p', p.returnWith w.block (UInt64.ofNat w.failed) = some ([], p') ∧
      AtWork c k s n dues claimed p' (us ++ { w with position := .departed } :: vs) := by
  have hw := h.busy w (mem_middle.2 (.inl rfl))
  have hstaffed := h.staffed
  rw [List.map_append, List.map_cons] at hstaffed
  obtain ⟨l, hl⟩ := hstaffed.lists
  obtain ⟨-, htid, b, hb, -, hshows⟩ := hstaffed.post (post w) (by simp)
  have hphase : (post w).phase = .running := by
    rw [post, Worker.phase, hposition]
    rfl
  rw [hphase] at hshows
  obtain ⟨js, hreturn, hdepart, hshows'⟩ := hshows.returnWith hb
  have hheld : w.held k = [] := by rw [Worker.held, hposition]
  obtain ⟨hforget, hpart⟩ := h.holdings.forgetLocks htid.1 ((heldBy_self h.distinct).trans hheld)
  have hsame : (p.forgetLocks w.tid).SameLocks (p.depart w.block 0) := by
    refine ⟨?_, ?_, ?_⟩ <;> exact hdepart ▸ rfl
  have hpart' : (graph (p.depart w.block 0)).orderPart = (graph p).orderPart := by
    rw [graph, hsame.graph]
    exact hpart
  have hzero : UInt64.ofNat w.failed = 0 := by rw [hw.failed]; rfl
  have htouches : p.Touches (p.depart w.block 0) w.block
      (some (ThreadGroup.leavesAs b 0 js)) :=
    ThreadGroup.touches_modify hl hb (ThreadGroup.leavesAs · 0 js) ⟨rfl, rfl, rfl, rfl, rfl, rfl⟩
      (hdepart ▸ rfl) (hdepart ▸ rfl) (hdepart ▸ rfl)
  have hahead : w.ahead = 0 := by rw [Worker.ahead, hposition, hrounds]
  have hrecorded := recorded_congr (k := k) hpart'
  refine ⟨p.depart w.block 0, ?_, h.replace ?_ rfl hsame.settings ?_ ?_
    (h.order.congr_orderPart hpart') (hrecorded.trans (or_iff_left ?_).symm)⟩
  · rw [hzero]
    exact hreturn
  · exact ⟨hw.failed, by simp, Nat.zero_le _, fun hlt => hrecorded.2 (hw.recorded (hahead ▸ hlt))⟩
  · rw [List.map_append, List.map_cons]
    exact hstaffed.advance htouches hshows' (Worker.phase_ne_ended _)
  · have hupdate : heldBy k (us ++ { w with position := .departed } :: vs) =
        Function.update (heldBy k (us ++ w :: vs)) w.tid [] := heldBy_update h.distinct rfl
    rw [hupdate, Function.update_eq_self_iff.2 ((heldBy_self h.distinct).trans hheld).symm]
    exact hforget.congr hsame
  · rw [hahead]
    exact Nat.not_lt_zero _

/-- The task of a worker that has departed goes. -/
theorem expire (h : AtWork c k s n dues claimed p (us ++ w :: vs))
    (hposition : w.position = .departed) :
    AtWork c k s n dues claimed (p.expire w.block) (us ++ vs) := by
  have hw := h.busy w (mem_middle.2 (.inl rfl))
  have hphase : (post w).phase = .departed := by rw [post, Worker.phase, if_pos hposition]
  have hahead : w.ahead = 0 := by rw [Worker.ahead, hposition]
  have hlength : (us ++ vs).length ≤ (us ++ w :: vs).length := by simp
  have hstaffed := h.staffed
  rw [List.map_append, List.map_cons] at hstaffed
  constructor
  case settings => exact h.settings
  case staffed =>
    rw [List.map_append]
    exact hstaffed.expire hphase
  case holdings =>
    have hheld : heldBy k (us ++ w :: vs) = heldBy k (us ++ vs) := by
      have hnone : w.held k = [] := by rw [Worker.held, hposition]
      funext t
      simp [heldBy, hnone]
    exact hheld ▸ h.holdings.congr (p.sameLocks_expire w.block)
  case order => exact h.order
  case distinct =>
    have hsub : (us ++ vs).Sublist (us ++ w :: vs) :=
      (List.Sublist.refl us).append (List.sublist_cons_self w vs)
    exact h.distinct.sublist (hsub.map _)
  case busy => exact fun u hu => (h.busy u (mem_middle.2 (.inr hu))).mono id
  case length_le => exact Nat.le_trans hlength h.length_le
  case ended => exact fun _ hpos => hw.recorded (hahead ▸ hpos)
  case recorded => exact h.recorded

/-- The inner lock is free for whoever holds the outer one and nothing else. -/
theorem inner_free (h : AtWork c k s n dues claimed p (us ++ w :: vs))
    (hposition : w.position = .holdsOuter) :
    (p.locks.mutexes.get k.locks.inner).isLocked = false := by
  rw [← Bool.not_eq_true, h.holdings.isLocked_iff (inner_mem_ids k)]
  rintro ⟨t, ht⟩
  -- whoever has the inner lock has the outer one too, and so is `w`
  have hself : (heldBy k (us ++ w :: vs) w.tid) = [⟨k.locks.outer, 0⟩] := by
    rw [heldBy_self h.distinct, Worker.held, hposition]
  have houter : k.locks.outer ∈ (heldBy k (us ++ w :: vs) t).mutexes := by
    obtain ⟨u, hu, heq, hmem⟩ := mem_mutexes_heldBy.1 ht
    exact mem_mutexes_heldBy.2 ⟨u, hu, heq, outer_mem_held hmem⟩
  have houter' : k.locks.outer ∈ (heldBy k (us ++ w :: vs) w.tid).mutexes := by
    rw [hself]
    exact List.mem_cons_self
  obtain rfl := h.holdings.unique (outer_mem_ids k) houter houter'
  rw [hself] at ht
  exact k.locks.distinct (List.mem_singleton.1 ht).symm

/-- Whatever a worker does next, the workers are at work afterwards. -/
theorem exists_act (h : AtWork c k s n dues claimed p (us ++ w :: vs))
    (hable : w.able k p = true) (point : Nat) :
    ∃ w? p', w.act k point p = some (w?, p') ∧
      AtWork c k s n dues claimed p' (us ++ w?.toList ++ vs) := by
  obtain ⟨-, htid, -⟩ := h.staffed.post (post w) (List.mem_map_of_mem (mem_middle.2 (.inl rfl)))
  by_cases hdeparted : w.position = .departed
  · exact ⟨none, _, by rw [Worker.act, hdeparted], by simpa using h.expire hdeparted⟩
  by_cases hdone : w.position = .apart ∧ w.rounds = 0
  · obtain ⟨p', hreturn, h'⟩ := h.exists_leave hdone.1 hdone.2
    refine ⟨some { w with position := .departed }, p', ?_, by simpa using h'⟩
    rw [Worker.act, hdone.1, hdone.2]
    simp only [hreturn, Option.map_some]
  obtain ⟨w', p', hact, hshifts⟩ := exists_shifts h.holdings h.order htid.1
    (heldBy_self h.distinct) point hable hdeparted (h.busy w (mem_middle.2 (.inl rfl))).position
    (fun hapart hrounds => hdone ⟨hapart, hrounds⟩) h.inner_free
  exact ⟨some w', p', hact, by simpa using h.shift hdeparted hshifts⟩

/-- As long as there are workers, one of them can go on. -/
theorem exists_able (h : AtWork c k s n dues claimed p ws) (hne : ws ≠ []) :
    ∃ w ∈ ws, w.able k p = true := by
  by_cases hwaits : ∃ w ∈ ws, w.position ≠ .awaitsOuter
  · obtain ⟨w, hw, hposition⟩ := hwaits
    refine ⟨w, hw, ?_⟩
    have hinner := (h.busy w hw).position
    rw [Worker.able]
    cases hp : w.position <;> simp_all
  · -- all of them wait for the outer lock, so nobody has it
    have hall : ∀ w ∈ ws, w.position = .awaitsOuter := by
      simpa using hwaits
    obtain ⟨w, hw⟩ := List.exists_mem_of_ne_nil ws hne
    refine ⟨w, hw, ?_⟩
    have hfree : (p.locks.mutexes.get k.locks.outer).isLocked = false := by
      rw [← Bool.not_eq_true, h.holdings.isLocked_iff (outer_mem_ids k)]
      rintro ⟨t, ht⟩
      obtain ⟨u, hu, -, hmem⟩ := mem_mutexes_heldBy.1 ht
      rw [Worker.held, hall u hu] at hmem
      exact List.not_mem_nil hmem
    rw [Worker.able, hall w hw, hfree]
    rfl

/-! ## New workers -/

/-- A worker that gets created is at work with the others. -/
theorem hire {m : Nat} (h : AtWork c k s n dues none p ws) (hk : k.Sound)
    (hcreate : p.create k.conductor here none (k.launch m p) = (.ok i, p')) :
    AtWork c k s (n + 1) (dues ++ [⟨p'.handle i, 0⟩]) none p'
      (ws ++ [{ block := i, tid := (k.launch m p).tid, rounds := c.iterations }]) := by
  obtain ⟨l, hl⟩ := h.staffed.lists
  obtain ⟨htid, hconductor, hvacant⟩ := hk.tid m p (ThreadGroup.clone_of_create hl hcreate)
  obtain ⟨hnone, b, htouches, hsited, hshows⟩ := ThreadGroup.exists_shows_of_create hl
    h.staffed.sited (hk.spares_of_fresh rfl) rfl hcreate 0
  have hlocks := ThreadGroup.sameLocks_create hl hcreate
  have hrecorded : Recorded k p' ↔ Recorded k p := recorded_of_sameLocks hlocks
  have hhandle : p'.handle i = b.address := by
    rw [ThreadGroup.handle, htouches.get?_self]
    rfl
  rw [hhandle]
  constructor
  case settings => exact hlocks.settings.trans h.settings
  case staffed =>
    rw [List.map_append, List.map_singleton]
    exact h.staffed.hire hnone htouches hsited ⟨htid, hconductor⟩ hshows
  case holdings =>
    have hheld (w : Worker) (hw : w.position = .apart) : heldBy k (ws ++ [w]) = heldBy k ws := by
      have hnone : w.held k = [] := by rw [Worker.held, hw]
      funext t
      simp [heldBy, hnone]
    rw [hheld _ rfl]
    exact h.holdings.congr hlocks
  case order =>
    rw [graph, hlocks.graph]
    exact h.order
  case distinct =>
    rw [List.map_append, List.map_singleton, List.nodup_append]
    refine ⟨h.distinct, List.nodup_singleton _, ?_⟩
    rintro t ht t' ht' rfl
    obtain ⟨w, hw, rfl⟩ := List.mem_map.1 ht
    obtain ⟨hphase, -, d, hd, -, hshows⟩ := h.staffed.post (post w) (List.mem_map_of_mem hw)
    refine hvacant.tid_ne hd ?_
    rw [hshows.tid, if_neg hphase]
    exact List.mem_singleton.1 ht'
  case busy =>
    intro w hw
    obtain hw | hw := List.mem_append.1 hw
    · exact (h.busy w hw).mono hrecorded.2
    · obtain rfl := List.mem_singleton.1 hw
      exact ⟨rfl, by simp, Nat.le_refl _, fun hlt => absurd hlt (Nat.lt_irrefl _)⟩
  case length_le =>
    rw [List.length_append, List.length_singleton]
    exact Nat.add_le_add_right h.length_le 1
  case ended =>
    intro hlt
    rw [List.length_append, List.length_singleton] at hlt
    exact fun hpos => hrecorded.2 (h.ended (Nat.lt_of_add_lt_add_right hlt) hpos)
  case recorded =>
    intro hp
    obtain ⟨hn, hpos⟩ := h.recorded (hrecorded.1 hp)
    exact ⟨Nat.lt_succ_of_lt hn, hpos⟩

end AtWork

/-! ## Every schedule -/

/-- The stage while workers are at work. -/
def Works (c : Inversion) (k : Kernel) (s : Settings) (n : Nat) (dues : List Due)
    (claimed : Option BlockId) (stage : Stage) : Prop :=
  ∃ ws, stage.crew = ws.map .worker ∧ AtWork c k s n dues claimed stage.group ws

/-- Whoever goes on, the workers are at work. -/
theorem invariant_works (c : Inversion) (k : Kernel) (s : Settings) (n : Nat) (dues : List Due)
    (claimed : Option BlockId) : Stage.Invariant k (Works c k s n dues claimed) := by
  refine .of_act (fun _ _ h => h) fun stage us player vs h hsplit hable => ?_
  obtain ⟨ws, hcrew, h⟩ := h
  obtain ⟨us', vs', rfl, rfl, hvs⟩ := List.map_eq_append_iff.1 (hcrew.symm.trans hsplit)
  obtain ⟨w, vs', rfl, rfl, rfl⟩ := List.map_eq_cons_iff.1 hvs
  obtain ⟨w?, p', hact, h'⟩ := h.exists_act hable stage.point
  refine ⟨(w?.map Player.worker).toList, stage.gate, p', ?_, us' ++ w?.toList ++ vs', ?_, h'⟩
  · simp only [Player.act, hact, Option.map_some]
  · cases w? <;> simp

theorem Works.able_ne_nil (h : Works c k s n dues claimed stage) (hne : stage.crew ≠ []) :
    stage.able k ≠ [] := by
  obtain ⟨ws, hcrew, h⟩ := h
  have hws : ws ≠ [] := by
    rintro rfl
    exact hne hcrew
  obtain ⟨w, hw, hable⟩ := h.exists_able hws
  have hmem : .worker w ∈ stage.crew := hcrew ▸ List.mem_map_of_mem hw
  exact Stage.able_ne_nil hmem hable

/-- The workers can be joined. -/
theorem joinable_works (c : Inversion) (k : Kernel) (s : Settings) (n : Nat) :
    Joinable k (Works c k s n) where
  invariant := invariant_works c k s n
  staffed h := by
    obtain ⟨ws, hcrew, hatWork⟩ := h
    refine ⟨_, hatWork.staffed, fun hne => Works.able_ne_nil ⟨ws, hcrew, hatWork⟩ ?_⟩
    rw [hcrew]
    exact fun hnil => hne (by rw [List.map_eq_nil_iff.1 hnil]; rfl)
  claim h hi hb := by
    obtain ⟨ws, hcrew, hatWork⟩ := h
    exact ⟨ws, hcrew, hatWork.of_sameLocks ⟨rfl, rfl, rfl⟩ (hatWork.staffed.claim_head hi hb)⟩
  reclaim h hi _ hended := by
    obtain ⟨ws, hcrew, hatWork⟩ := h
    exact ⟨ws, hcrew, hatWork.of_sameLocks (ThreadGroup.sameLocks_reclaim _ _ _)
      (hatWork.staffed.remove_head hi hended)⟩

/-! ## Hiring -/

@[simp] theorem hired_nil : hired [] = [] := rfl

theorem hired_cons (result : Except Error UInt64) (results : List (Except Error UInt64)) :
    hired (result :: results) = hired [result] ++ hired results := by
  cases result <;> rfl

theorem returns_hire_cons_iff {m : Nat} {ms : List Nat} {results : List (Except Error UInt64)}
    {stage' : Stage} : Returns (c.hire k (m :: ms)) stage results stage' ↔
      ∃ stage₁ rest, Returns (Performance.turn k) stage () stage₁ ∧
        Returns (c.hire k ms) (c.ask k m stage₁).2 rest stage' ∧
        results = (c.ask k m stage₁).1 :: rest := by
  constructor
  · intro h
    obtain ⟨⟨⟩, stage₁, hturn, h⟩ := Returns.bind_iff.1 h
    have h : Returns (c.hire k ms >>= fun rest => pure ((c.ask k m stage₁).1 :: rest))
        (c.ask k m stage₁).2 results stage' := h
    obtain ⟨rest, stage₂, hrest, hpure⟩ := Returns.bind_iff.1 h
    obtain ⟨hresults, rfl⟩ := Prod.mk.inj hpure
    exact ⟨stage₁, rest, hturn, hrest, (Except.ok.inj hresults).symm⟩
  · rintro ⟨stage₁, rest, hturn, hrest, rfl⟩
    exact hturn.bind ((Returns.get stage₁).bind ((Returns.modify _ stage₁).bind
      (hrest.bind (Returns.pure _ _))))

/-- What the workers with the given handles owe. -/
def duesOf (handles : List UInt64) : List Due := handles.map (⟨·, 0⟩)

/-- Whatever comes of a request, the workers are at work. -/
theorem Works.ask (h : Works c k s n dues none stage) (hk : k.Sound) (m : Nat) :
    Works c k s (n + (hired [(c.ask k m stage).1]).length)
      (dues ++ duesOf (hired [(c.ask k m stage).1])) none (c.ask k m stage).2 := by
  obtain ⟨ws, hcrew, hatWork⟩ := h
  obtain ⟨l, hl⟩ := hatWork.staffed.lists
  rw [Inversion.ask]
  cases hcreate : stage.group.create k.conductor (k.here stage.point) none
    (k.launch m stage.group) with
  | mk result p' =>
  cases result with
  | error e =>
    obtain ⟨hsame, hlocks⟩ := ThreadGroup.sameThreads_of_create hl rfl hcreate
    have hnone : hired [Except.map p'.handle (.error e)] = [] := rfl
    rw [hnone, duesOf, List.map_nil, List.append_nil]
    exact ⟨ws, (List.append_nil _).trans hcrew,
      hatWork.of_sameLocks hlocks (hatWork.staffed.congr hsame)⟩
  | ok i =>
    refine ⟨_, ?_, hatWork.hire hk hcreate⟩
    rw [List.map_append, ← hcrew]
    rfl

/-- All workers are asked for, and those that are created are at work. -/
theorem exists_hire (hk : k.Sound) (ms : List Nat) (h : Works c k s n dues none stage) :
    ∃ results stage', Returns (c.hire k ms) stage results stage' ∧
      results.length = ms.length ∧
      Works c k s (n + (hired results).length) (dues ++ duesOf (hired results)) none stage' := by
  induction ms generalizing n dues stage with
  | nil => exact ⟨[], stage, rfl, rfl, by simpa [duesOf] using h⟩
  | cons m ms ih =>
    obtain ⟨stage₁, hturn, h₁, -⟩ :=
      Performance.exists_turn (invariant_works c k s n dues none) h
    obtain ⟨results, stage', hreturns, hlength, h'⟩ := ih (h₁.ask hk m)
    refine ⟨_, stage', returns_hire_cons_iff.2 ⟨stage₁, results, hturn, hreturns, rfl⟩,
      congrArg (· + 1) hlength, ?_⟩
    rw [hired_cons, List.length_append, duesOf, List.map_append, ← Nat.add_assoc,
      ← List.append_assoc]
    exact h'

/-- Nobody who is asked for a thread sees the log. -/
theorem returns_hire_withEmitter {ms : List Nat} {results : List (Except Error UInt64)}
    {stage' : Stage} (emitter : Record.Emitter) (h : Returns (c.hire k ms) stage results stage') :
    Returns (c.hire k ms) (stage.withEmitter emitter) results (stage'.withEmitter emitter) := by
  induction ms generalizing stage results with
  | nil =>
    cases h
    rfl
  | cons m ms ih =>
    obtain ⟨stage₁, rest, hturn, hrest, rfl⟩ := returns_hire_cons_iff.1 h
    have hturn' : Returns (Performance.turn k) (stage.withEmitter emitter) ()
        (stage₁.withEmitter emitter) := by
      refine Returns.awaitTurn_iff.2 ?_
      rw [Stage.awaitTurn_withEmitter (fun _ => rfl), Returns.awaitTurn_iff.1 hturn]
      rfl
    exact returns_hire_cons_iff.2 ⟨_, rest, hturn', ih hrest, rfl⟩

end Threading.Scenario.Inversion

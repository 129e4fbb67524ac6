import Threading.Proofs.Scenario.Gathering

/-!
# Released threads

Once the conductor has opened the gate, the parked threads pass it one after the other, and each
returns its number. Whoever has the gate goes on to release it, so whenever there are threads
left one of them can go on, and the conductor can join all of them.
-/
namespace Threading.Scenario.Spawn

open Performance (Returns)
open ThreadGroup (Due Staffed)

variable {c : Spawn} {k : Kernel} {p₀ p' : ThreadGroup} {sleeper : Sleeper} {us vs : List Player}
variable {dues : List Due} {claimed : Option BlockId} {stage : Stage} {size : UInt64}
variable {gate : UInt32} {gathered : List (List (Except Error Parked))}

/-- The creators are through, and the threads that have been created since `p₀` pass the gate or
have passed it. -/
structure Releasing (k : Kernel) (p₀ : ThreadGroup) (dues : List Due) (claimed : Option BlockId)
    (stage : Stage) : Prop where
  players : ∀ w, .worker w ∉ stage.crew
  done : ∀ x ∈ creatorsOf stage.crew, x.next = []
  staffed : ∃ tid, stage.group.Staffed k.conductor dues claimed
    ((sleepersOf stage.crew).map (post tid))
  visited : p₀.Visited (dues.map (·.handle)) stage.group
  inside : Gate.isClosed stage.gate = true → ∃ t ∈ sleepersOf stage.crew, t.position = .inside

namespace Releasing

/-- What the conductor writes does not matter. -/
theorem withEmitter (h : Releasing k p₀ dues claimed stage) (emitter : Record.Emitter) :
    Releasing k p₀ dues claimed { stage with emitter } :=
  ⟨h.players, h.done, h.staffed, h.visited, h.inside⟩

/-! ## Steps of a thread -/

/-- A thread among the others goes on, or is gone. -/
theorem replace (sleeper? : Option Sleeper) (h : Releasing k p₀ dues claimed stage)
    (hcrew : stage.crew = us ++ .sleeper sleeper :: vs)
    (hstaffed : ∃ tid, p'.Staffed k.conductor dues claimed
      ((sleepersOf us ++ sleeper?.toList ++ sleepersOf vs).map (post tid)))
    (hvisited : p₀.Visited (dues.map (·.handle)) p')
    (hinside : Gate.isClosed gate = true → (∃ t ∈ sleeper?, t.position = .inside) ∨
      Gate.isClosed stage.gate = true ∧ sleeper.position ≠ .inside) :
    Releasing k p₀ dues claimed { stage with
      group := p'
      gate
      crew := us ++ (sleeper?.map Player.sleeper).toList ++ vs
      point := stage.point + 1 } := by
  have hsleepers : sleepersOf (us ++ (sleeper?.map Player.sleeper).toList ++ vs) =
      sleepersOf us ++ sleeper?.toList ++ sleepersOf vs := by
    cases sleeper? <;> simp [sleepersOf]
  have hcreators : creatorsOf (us ++ (sleeper?.map Player.sleeper).toList ++ vs) =
      creatorsOf stage.crew := by
    cases sleeper? <;> simp [hcrew, creatorsOf]
  constructor
  case players =>
    intro w hw
    have hnot := h.players w
    rw [hcrew] at hnot
    cases sleeper? <;> simp_all
  case done => exact hcreators ▸ h.done
  case staffed =>
    rw [hsleepers]
    exact hstaffed
  case visited => exact hvisited
  case inside =>
    intro hclosed
    rw [hsleepers]
    obtain ⟨t, ht, hposition⟩ | ⟨hbefore, hnot⟩ := hinside hclosed
    · exact ⟨t, by simp [Option.mem_def.1 ht], hposition⟩
    · obtain ⟨t, ht, hposition⟩ := h.inside hbefore
      rw [hcrew, sleepersOf_append, sleepersOf_cons_sleeper] at ht
      obtain rfl | ht := mem_middle.1 ht
      · exact absurd hposition hnot
      · refine ⟨t, ?_, hposition⟩
        rw [List.append_assoc]
        exact (List.mem_append.1 ht).elim (List.mem_append_left _)
          fun ht => List.mem_append_right _ (List.mem_append_right _ ht)

/-- A thread goes on at the gate. -/
theorem pass (position : Sleeper.Position) (h : Releasing k p₀ dues claimed stage)
    (hcrew : stage.crew = us ++ .sleeper sleeper :: vs)
    (hphase : phase { sleeper with position } = phase sleeper)
    (hinside : Gate.isClosed gate = true → position = .inside ∨
      Gate.isClosed stage.gate = true ∧ sleeper.position ≠ .inside) :
    Releasing k p₀ dues claimed { stage with
      gate
      crew := us ++ [.sleeper { sleeper with position }] ++ vs
      point := stage.point + 1 } := by
  refine h.replace (some { sleeper with position }) hcrew ?_ h.visited
    fun hclosed => (hinside hclosed).imp_left fun hposition => ⟨_, rfl, hposition⟩
  obtain ⟨tid, hstaffed⟩ := h.staffed
  rw [hcrew] at hstaffed
  exact ⟨tid, by simpa [post, hphase] using hstaffed⟩

/-- A thread that has passed the gate departs with its number. -/
theorem exists_leave (h : Releasing k p₀ dues claimed stage)
    (hcrew : stage.crew = us ++ .sleeper sleeper :: vs) (hposition : sleeper.position = .returning) :
    ∃ p', stage.group.returnWith sleeper.block sleeper.number = some ([], p') ∧
      Releasing k p₀ dues claimed { stage with
        group := p'
        crew := us ++ [.sleeper { sleeper with position := .departed }] ++ vs
        point := stage.point + 1 } := by
  obtain ⟨tid, hstaffed⟩ := h.staffed
  rw [hcrew, sleepersOf_append, sleepersOf_cons_sleeper, List.map_append, List.map_cons]
    at hstaffed
  obtain ⟨l, hl⟩ := hstaffed.lists
  obtain ⟨-, -, b, hb, hdue, hshows⟩ := hstaffed.post (post tid sleeper) (by simp)
  have hphase : (post tid sleeper).phase = .running := by rw [post, phase, hposition]; rfl
  rw [hphase] at hshows
  obtain ⟨js, hreturn, hdepart, hshows'⟩ := hshows.returnWith hb
  have hplace : ThreadGroup.SamePlace b (ThreadGroup.leavesAs b sleeper.number js) :=
    ⟨rfl, rfl, rfl, rfl, rfl, rfl⟩
  have hregistry : (stage.group.depart sleeper.block sleeper.number).registry =
      stage.group.registry.modify sleeper.block
        (ThreadGroup.leavesAs · sleeper.number js) := hdepart ▸ rfl
  have hmapped : (stage.group.depart sleeper.block sleeper.number).mapped = stage.group.mapped :=
    hdepart ▸ rfl
  have hunmapped : (stage.group.depart sleeper.block sleeper.number).unmapped =
      stage.group.unmapped := hdepart ▸ rfl
  have htouches := ThreadGroup.touches_modify hl hb _ hplace hregistry hmapped hunmapped
  refine ⟨_, hreturn, h.replace (some { sleeper with position := .departed }) hcrew
    ⟨tid, ?_⟩ (h.visited.modify hb (List.mem_map_of_mem hdue) _ hplace hregistry hmapped hunmapped)
    fun hclosed => .inr ⟨hclosed, by simp [hposition]⟩⟩
  have hadvanced := hstaffed.advance htouches hshows' (by decide)
  simpa [post, phase] using hadvanced

/-- The task of a thread that has departed goes. -/
theorem expire (h : Releasing k p₀ dues claimed stage)
    (hcrew : stage.crew = us ++ .sleeper sleeper :: vs) (hposition : sleeper.position = .departed) :
    Releasing k p₀ dues claimed { stage with
      group := stage.group.expire sleeper.block
      crew := us ++ [] ++ vs
      point := stage.point + 1 } := by
  obtain ⟨tid, hstaffed⟩ := h.staffed
  rw [hcrew, sleepersOf_append, sleepersOf_cons_sleeper, List.map_append, List.map_cons]
    at hstaffed
  obtain ⟨-, -, b, hb, hdue, -⟩ := hstaffed.post (post tid sleeper) (by simp)
  have hphase : (post tid sleeper).phase = .departed := by rw [post, phase, if_pos hposition]
  refine h.replace none hcrew ⟨tid, ?_⟩ ?_
    fun hclosed => .inr ⟨hclosed, by simp [hposition]⟩
  · have hexpired : (stage.group.expire sleeper.block).Staffed k.conductor dues claimed _ :=
      hstaffed.expire hphase
    simpa using hexpired
  · exact h.visited.modify hb (List.mem_map_of_mem hdue) ThreadGroup.expired
      ⟨rfl, rfl, rfl, rfl, rfl, rfl⟩ rfl rfl rfl

/-- Whatever a thread does next, the others are as before. -/
theorem exists_act (h : Releasing k p₀ dues claimed stage)
    (hcrew : stage.crew = us ++ .sleeper sleeper :: vs) :
    ∃ players gate group, (Player.sleeper sleeper).act k stage.point stage.gate stage.group =
        some (players, gate, group) ∧
      Releasing k p₀ dues claimed
        { stage with group, gate, crew := us ++ players ++ vs, point := stage.point + 1 } := by
  cases hposition : sleeper.position with
  | arriving =>
    have hpass {position : Sleeper.Position} (hphase : position ≠ .departed) :
        phase { sleeper with position } = phase sleeper := by
      simp [phase, hposition, hphase]
    cases hclosed : Gate.isClosed stage.gate with
    | true =>
      obtain ⟨hnot, -⟩ := Gate.enter_of_isClosed hclosed
      refine ⟨_, _, _, by simp only [Player.act, Sleeper.act, hposition, hnot]; rfl,
        h.pass .asleep hcrew (hpass (by decide)) fun _ => .inr ⟨hclosed, by simp [hposition]⟩⟩
    | false =>
      refine ⟨_, 1, _, ?_, h.pass .inside hcrew (hpass (by decide)) fun _ => .inl rfl⟩
      · simp only [Player.act, Sleeper.act, hposition, Gate.isClosed_eq_false.1 hclosed,
          Gate.enter_zero]
        rfl
  | asleep =>
    exact ⟨_, _, _, by simp only [Player.act, Sleeper.act, hposition]; rfl,
      h.pass .inside hcrew (by simp [phase, hposition]) fun _ => .inl rfl⟩
  | inside =>
    refine ⟨_, _, _, by simp only [Player.act, Sleeper.act, hposition]; rfl,
      h.pass .returning hcrew (by simp [phase, hposition]) fun hclosed => ?_⟩
    rw [Futex.Mutex.unlock_eq] at hclosed
    cases hclosed
  | returning =>
    obtain ⟨p', hreturn, h'⟩ := h.exists_leave hcrew hposition
    exact ⟨_, _, _, by simp only [Player.act, Sleeper.act, hposition, hreturn]; rfl, h'⟩
  | departed =>
    exact ⟨_, _, _, by simp only [Player.act, Sleeper.act, hposition]; rfl,
      h.expire hcrew hposition⟩

/-- As long as there are threads, one of them can go on: whoever has the gate, or else anyone. -/
theorem able_ne_nil (h : Releasing k p₀ dues claimed stage) (hne : sleepersOf stage.crew ≠ []) :
    stage.able k ≠ [] := by
  obtain ⟨t, ht, hable⟩ : ∃ t ∈ sleepersOf stage.crew, t.able stage.gate = true := by
    cases hclosed : Gate.isClosed stage.gate with
    | true =>
      obtain ⟨t, ht, hposition⟩ := h.inside hclosed
      exact ⟨t, ht, by rw [Sleeper.able, hposition]⟩
    | false =>
      obtain ⟨t, ht⟩ := List.exists_mem_of_ne_nil _ hne
      refine ⟨t, ht, ?_⟩
      rw [Sleeper.able, hclosed]
      cases t.position <;> rfl
  exact Stage.able_ne_nil (mem_sleepersOf.1 ht) hable

end Releasing

/-! ## Every schedule -/

/-- Whoever goes on, the threads pass the gate. -/
theorem invariant_releasing (k : Kernel) (p₀ : ThreadGroup) (dues : List Due)
    (claimed : Option BlockId) : Stage.Invariant k (Releasing k p₀ dues claimed) := by
  refine .of_act (fun _ _ h => ⟨h.players, h.done, h.staffed, h.visited, h.inside⟩)
    fun stage us player vs h hcrew hable => ?_
  cases player with
  | worker w => exact absurd (by simp [hcrew]) (h.players w)
  | creator x =>
    rw [Player.able, h.done x (mem_creatorsOf.2 (by simp [hcrew]))] at hable
    cases hable
  | sleeper t => exact h.exists_act hcrew

/-- The threads can be joined. -/
theorem joinable_releasing (k : Kernel) (p₀ : ThreadGroup) :
    Joinable k (Releasing k p₀) where
  invariant := invariant_releasing k p₀
  staffed h := by
    obtain ⟨tid, hstaffed⟩ := h.staffed
    exact ⟨_, hstaffed, fun hne => h.able_ne_nil fun hnil => hne (by rw [hnil]; rfl)⟩
  claim h hi hb := by
    obtain ⟨tid, hstaffed⟩ := h.staffed
    refine ⟨h.players, h.done, ⟨tid, hstaffed.claim_head hi hb⟩, ?_, h.inside⟩
    exact h.visited.modify hi (hb ▸ List.mem_cons_self) ({ · with joinState := .joined })
      ⟨rfl, rfl, rfl, rfl, rfl, rfl⟩ rfl rfl rfl
  reclaim h hi hb hended := by
    obtain ⟨tid, hstaffed⟩ := h.staffed
    exact ⟨h.players, h.done, ⟨tid, hstaffed.remove_head hi hended⟩,
      h.visited.reclaim hstaffed.sited hi hb, h.inside⟩

/-- The gate is opened when all creators are through. -/
theorem exists_openGate (hk : k.Sound)
    (h : Parking c k size p₀ gathered.length gathered stage) :
    ∃ stage', Returns (openGate k) stage () stage' ∧
      Releasing k p₀ ((created gathered.flatten).map due) none stage' ∧
      stage'.emitter = stage.emitter := by
  obtain ⟨stage₁, hturn, h₁, hemitter⟩ := Performance.exists_turn
    (invariant_parking hk c size p₀ gathered.length gathered) h
  refine ⟨{ stage₁ with gate := Futex.Mutex.unlock stage₁.gate },
    hturn.bind (Returns.modify _ stage₁), ?_, hemitter⟩
  have hstaffed := h₁.staffed
  have hvisited := h₁.visited
  rw [h₁.threadsOf_eq] at hstaffed hvisited
  refine ⟨h₁.players, h₁.creatorsOf_eq.2, hstaffed, by rwa [List.map_map], fun hclosed => ?_⟩
  rw [Futex.Mutex.unlock_eq] at hclosed
  cases hclosed

end Threading.Scenario.Spawn

import Mathlib.Data.List.Basic
import Threading.Scenario.Stage

/-!
# Runs under every schedule

Whatever the kernel chooses, the threads of a scenario go on one after the other until the
conductor does. What every step of theirs keeps is true when the conductor goes on, and it does
go on if, as long as it is not ready, one of them can. None of them sees the log.
-/
namespace Threading.Scenario

variable {k : Kernel} {stage stage' : Stage} {ready : Stage → Bool} {I : Stage → Prop} {i : Nat}

namespace Stage

theorem mem_able : i ∈ stage.able k ↔ ∃ player, stage.crew[i]? = some player ∧
    player.able k stage.gate stage.group = true := by
  rw [able, List.mem_filter, List.mem_range, Option.any_eq_true, and_iff_right_iff_imp]
  rintro ⟨player, hplayer, -⟩
  exact (List.getElem?_eq_some_iff.1 hplayer).1

/-- Someone can go on if some thread can. -/
theorem able_ne_nil {player : Player} (hmem : player ∈ stage.crew)
    (hable : player.able k stage.gate stage.group = true) : stage.able k ≠ [] := by
  obtain ⟨i, hi⟩ := List.mem_iff_getElem?.1 hmem
  exact List.ne_nil_of_mem (mem_able.2 ⟨player, hi, hable⟩)

theorem emitter_act (h : stage.act k i = some stage') : stage'.emitter = stage.emitter := by
  rw [act] at h
  split at h
  · cases h
  · obtain ⟨_, -, rfl⟩ := Option.map_eq_some_iff.1 h
    rfl

/-- Every thread that can go on does, and something stays true. -/
structure Invariant (k : Kernel) (I : Stage → Prop) : Prop where
  point : ∀ stage n, I stage → I { stage with point := n }
  act : ∀ stage i, I stage → i ∈ stage.able k → ∃ stage', stage.act k i = some stage' ∧ I stage'

/-- It is enough to look at one thread among the others. -/
theorem Invariant.of_act (hpoint : ∀ stage n, I stage → I { stage with point := n })
    (hact : ∀ stage us player vs, I stage → stage.crew = us ++ player :: vs →
      player.able k stage.gate stage.group = true →
      ∃ players gate group,
        player.act k stage.point stage.gate stage.group = some (players, gate, group) ∧
        I { stage with group, gate, crew := us ++ players ++ vs, point := stage.point + 1 }) :
    Invariant k I where
  point := hpoint
  act stage i h hi := by
    obtain ⟨player, hplayer, hable⟩ := mem_able.1 hi
    obtain ⟨hlt, rfl⟩ := List.getElem?_eq_some_iff.1 hplayer
    have hsplit : stage.crew = stage.crew.take i ++ stage.crew[i] :: stage.crew.drop (i + 1) := by
      rw [List.getElem_cons_drop, List.take_append_drop]
    obtain ⟨players, gate, group, hperform, h'⟩ := hact stage _ _ _ h hsplit hable
    refine ⟨_, ?_, h'⟩
    rw [Stage.act, hplayer]
    simp only [hperform, Option.map_some]

theorem mem_choices {choice : Option Nat} : choice ∈ stage.choices k ready ↔
    match choice with
    | none => ready stage = true
    | some i => i ∈ stage.able k := by
  rw [choices]
  cases choice <;> cases hready : ready stage <;> simp

/-- The choice of the kernel is followed. -/
theorem awaitTurn_eq (k : Kernel) (ready : Stage → Bool) (stage : Stage) :
    stage.awaitTurn k ready =
      ((stage.choices k ready)[k.turn stage.point % (stage.choices k ready).length]?).bind
        fun
        | none => some { stage with point := stage.point + 1 }
        | some i => (stage.act k i).bind (awaitTurn k ready) := by
  rw [awaitTurn]
  cases (stage.choices k ready)[k.turn stage.point % (stage.choices k ready).length]? with
  | none => rfl
  | some choice =>
    cases choice with
    | none => rfl
    | some i =>
      dsimp only [Option.bind_some]
      split <;> simp [*]

/-- The others go on until it is the conductor's turn. -/
theorem Invariant.exists_awaitTurn (hI : Invariant k I)
    (hpoint : ∀ stage n, ready { stage with point := n } = ready stage)
    (hlive : ∀ stage, I stage → ready stage = false → stage.able k ≠ []) (h : I stage) :
    ∃ stage', stage.awaitTurn k ready = some stage' ∧ I stage' ∧ ready stage' = true ∧
      stage'.emitter = stage.emitter := by
  induction hn : stage.left using Nat.strongRecOn generalizing stage with
  | ind n ih =>
  have hchoice : stage.choices k ready ≠ [] := by
    cases hready : ready stage with
    | true =>
      have hmem : none ∈ stage.choices k ready := mem_choices.2 hready
      exact List.ne_nil_of_mem hmem
    | false =>
      obtain ⟨i, hi⟩ := List.exists_mem_of_ne_nil _ (hlive stage h hready)
      have hmem : some i ∈ stage.choices k ready := mem_choices.2 hi
      exact List.ne_nil_of_mem hmem
  have hlt := Nat.mod_lt (k.turn stage.point) (List.length_pos_iff.2 hchoice)
  have hmem := List.getElem_mem hlt
  rw [awaitTurn_eq, List.getElem?_eq_getElem hlt, Option.bind_some]
  generalize (stage.choices k ready)[k.turn stage.point % _] = choice at hmem
  have hmem := mem_choices.1 hmem
  cases choice with
  | none => exact ⟨_, rfl, hI.point stage _ h, (hpoint stage _).trans hmem, rfl⟩
  | some i =>
    obtain ⟨stage₁, hact, h₁⟩ := hI.act stage i h hmem
    obtain ⟨stage', hawait, hrest⟩ := ih _ (hn ▸ left_act hact) h₁ rfl
    refine ⟨stage', ?_, emitter_act hact ▸ hrest⟩
    dsimp only
    rw [hact]
    exact hawait

/-! ## The log -/

/-- The stage with another log. -/
def withEmitter (stage : Stage) (emitter : Record.Emitter) : Stage := { stage with emitter }

theorem act_withEmitter (stage : Stage) (emitter : Record.Emitter) (i : Nat) :
    (stage.withEmitter emitter).act k i = (stage.act k i).map (·.withEmitter emitter) := by
  rw [act, act, show (stage.withEmitter emitter).crew = stage.crew from rfl]
  split
  · rfl
  · rw [Option.map_map]
    rfl

/-- The others do not see the log. -/
theorem awaitTurn_withEmitter {emitter : Record.Emitter}
    (hready : ∀ stage : Stage, ready (stage.withEmitter emitter) = ready stage) (stage : Stage) :
    (stage.withEmitter emitter).awaitTurn k ready =
      (stage.awaitTurn k ready).map (·.withEmitter emitter) := by
  induction hn : stage.left using Nat.strongRecOn generalizing stage with
  | ind n ih =>
  have hchoices : (stage.withEmitter emitter).choices k ready = stage.choices k ready := by
    rw [choices, choices, hready]
    rfl
  rw [awaitTurn_eq, awaitTurn_eq, hchoices, Option.map_bind]
  refine congrArg (Option.bind _) (funext fun choice => ?_)
  cases choice with
  | none => rfl
  | some i =>
    dsimp only [Function.comp]
    rw [act_withEmitter]
    cases hact : stage.act k i with
    | none => rfl
    | some stage₁ => exact ih _ (hn ▸ left_act hact) stage₁ rfl

end Stage
end Threading.Scenario

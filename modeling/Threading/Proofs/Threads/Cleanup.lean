import Threading.Proofs.Registry
import Threading.Proofs.Threads.Piles
import Threading.ThreadGroup

/-!
# Cleanup handlers of a running thread

A thread pushes and pops handlers and then exits. No such call fails; what the pops take and what
runs at the end is read off the pile of the thread's handlers. The pile is the stack of the pushes
that are not popped as long as no record is pushed that is on the stack already and not at its
bottom. From then on the pile lacks what is below the record, and a thread whose pile has a record
twice never ends. So the thread's handlers are a stack exactly if neither happens, and this is so
if no record is pushed while it is on the stack.
-/
namespace Threading

/-- What a thread does with its handlers while it runs. -/
inductive CleanupCall where
  | push (h : HandlerId)
  | pop (execute : Bool)
  deriving DecidableEq, Repr

namespace CleanupCall

variable {call : CleanupCall} {calls : List CleanupCall} {s t : List HandlerId}

/-- What comes of a call: the record that is taken off the stack, and what runs. -/
structure Answer where
  taken : Option HandlerId := none
  ran : Option Nat := none
  deriving DecidableEq, Repr

/-- The thread `c` makes the call. -/
def perform (c : Caller) : CleanupCall → ThreadGroup → Except Error (Answer × ThreadGroup)
  | push h, p => do
    let p ← p.pushCleanup c h
    .ok ({}, p)
  | pop execute, p => do
    let (_, control) ← p.currentControl c
    let (ran, p) ← p.popCleanup c execute
    .ok (⟨control.cleanupTop, ran⟩, p)

/-- The answer to a call while these are the records, the next one to be popped first. -/
def answer (routine? : HandlerId → Option Nat) : CleanupCall → List HandlerId → Answer
  | push _, _ => {}
  | pop execute, s => ⟨s.head?, if execute then s.head?.bind routine? else none⟩

/-- A call on the stack of the pushes that are not popped, the most recent one first. -/
def onStack : CleanupCall → List HandlerId → List HandlerId
  | push h, s => h :: s
  | pop _, s => s.tail

/-- A call on the pile. -/
def onPile : CleanupCall → List HandlerId → List HandlerId
  | push h, s => HandlerTable.restack h s
  | pop _, s => s.tail

/-- A record that is pushed is one of the first `n`. -/
def Suits (n : Nat) : CleanupCall → Prop
  | push h => h < n
  | pop _ => True

instance (n : Nat) : DecidablePred (Suits n)
  | push h => inferInstanceAs (Decidable (h < n))
  | pop _ => isTrue trivial

/-- A pile that is shorter than the stack stays so, if the next pop cannot tell them apart. -/
theorem length_onPile_lt {routine? : HandlerId → Option Nat} (hlen : t.length < s.length)
    (hanswer : call.answer routine? t = call.answer routine? s) :
    (call.onPile t).length < (call.onStack s).length := by
  cases call with
  | push h =>
    have hpile := HandlerTable.length_restack_le h t
    simp only [onPile, onStack, List.length_cons]
    omega
  | pop execute =>
    have hhead : t.head? = s.head? := congrArg Answer.taken hanswer
    cases t with
    | nil =>
      obtain rfl := List.head?_eq_none_iff.1 hhead.symm
      exact absurd hlen (Nat.lt_irrefl _)
    | cons x t =>
      simp only [onPile, onStack, List.length_tail, List.length_cons] at hlen ⊢
      omega

theorem Suits.onStack {n : Nat} (hsuits : call.Suits n) (hs : ∀ h ∈ s, h < n) :
    ∀ h ∈ call.onStack s, h < n := by
  cases call with
  | push x => exact List.forall_mem_cons.2 ⟨hsuits, hs⟩
  | pop execute => exact fun h hh => hs h (List.mem_of_mem_tail hh)

/-! ## Pushes of a record that is on the stack -/

/-- No record is pushed that is on the stack already, except at its bottom, and none is on it
twice at the end. -/
def Sparing : List CleanupCall → List HandlerId → Prop
  | [], s => s.Nodup
  | push h :: calls, s => h ∉ s.dropLast ∧ Sparing calls (h :: s)
  | pop _ :: calls, s => Sparing calls s.tail

instance decidableSparing : (calls : List CleanupCall) → (s : List HandlerId) →
    Decidable (Sparing calls s)
  | [], s => inferInstanceAs (Decidable s.Nodup)
  | push h :: calls, s =>
    have := decidableSparing calls (h :: s)
    inferInstanceAs (Decidable (h ∉ s.dropLast ∧ Sparing calls (h :: s)))
  | pop _ :: calls, s => decidableSparing calls s.tail

/-- No record is pushed that is on the stack already. -/
def Fresh : List CleanupCall → List HandlerId → Prop
  | [], _ => True
  | push h :: calls, s => h ∉ s ∧ Fresh calls (h :: s)
  | pop _ :: calls, s => Fresh calls s.tail

/-- A record may be pushed again once it is popped. -/
theorem sparing_of_fresh (hs : s.Nodup) (hfresh : Fresh calls s) : Sparing calls s := by
  induction calls generalizing s with
  | nil => exact hs
  | cons call calls ih =>
    cases call with
    | push h =>
      obtain ⟨hnew, hfresh⟩ := hfresh
      refine ⟨fun hmem => hnew (List.dropLast_subset s hmem), ?_⟩
      exact ih (List.nodup_cons.2 ⟨hnew, hs⟩) hfresh
    | pop execute => exact ih hs.tail hfresh

end CleanupCall

namespace ThreadGroup

open CleanupCall

variable {p p' : ThreadGroup} {c : Caller} {i : BlockId} {control : Control} {value : UInt64}
variable {call : CleanupCall} {calls : List CleanupCall} {s t : List HandlerId}

/-- The thread `c` exits. -/
def exit (p : ThreadGroup) (c : Caller) (value : UInt64) :
    Except Error (Option (List Nat × ThreadGroup)) := do
  let i ← p.exiting c
  .ok (p.leave i value)

theorem currentControl_eq_ok_iff : p.currentControl c = .ok (i, control) ↔
    p.current? c = some i ∧ p.registry.get? i = some control := by
  rw [currentControl]
  cases hi : p.current? c with
  | none => simp
  | some j =>
    cases hj : p.registry.get? j with
    | none =>
      refine iff_of_false (by simp [hj]) ?_
      rintro ⟨⟨⟩, hget⟩
      exact absurd (hj.symm.trans hget) (by simp)
    | some d =>
      simp only [hj, Except.ok.injEq, Prod.mk.injEq, Option.some.injEq]
      refine and_congr_right fun heq => ?_
      rw [← heq, hj, Option.some.injEq]

/-- The caller's block is found after a write to it that keeps what it is found by. -/
theorem currentControl_write (hcontrol : p.currentControl c = .ok (i, control))
    {f : Control → Control} (htid : ∀ b, (f b).tid = b.tid) (htls : ∀ b, (f b).tls = b.tls)
    (handlers : HandlerTable) :
    { p with handlers, registry := p.registry.modify i f }.currentControl c = .ok (i, f control) := by
  obtain ⟨hi, hget⟩ := currentControl_eq_ok_iff.1 hcontrol
  refine currentControl_eq_ok_iff.2 ⟨?_, Registry.get?_modify_self hget f⟩
  have hbyTid (t : Tid) : (p.registry.modify i f).findByTid? t = p.registry.findByTid? t :=
    Registry.find?_modify _ _ fun b => by simp only [ControlBlock.tid, htid]
  have hbyTls (a : UInt64) : (p.registry.modify i f).findByTls? a = p.registry.findByTls? a := by
    rw [Registry.findByTls?, Registry.findByTls?]
    split
    · rfl
    · exact Registry.find?_modify _ _ fun b => by simp only [ControlBlock.tls, htls]
  rw [current?] at hi ⊢
  rwa [hbyTls, hbyTid]

/-- The caller is the created thread `i`, and this is its pile. -/
def Piles (p : ThreadGroup) (c : Caller) (i : BlockId) (s : List HandlerId) : Prop :=
  ∃ control, p.currentControl c = .ok (i, control) ∧ control.isMain = false ∧
    p.handlers.Pile control.cleanupTop s

/-- Neither the records nor what they do change, apart from their links. -/
structure SameHandlers (p p' : ThreadGroup) : Prop where
  size : p'.handlers.size = p.handlers.size
  routine? : p'.handlers.routine? = p.handlers.routine?

/-- The records that the calls push exist. -/
def Known (p : ThreadGroup) (calls : List CleanupCall) : Prop :=
  ∀ call ∈ calls, call.Suits p.handlers.size

instance (p : ThreadGroup) (calls : List CleanupCall) : Decidable (p.Known calls) :=
  inferInstanceAs (Decidable (∀ call ∈ calls, _))

theorem Known.first (hk : p.Known (call :: calls)) : call.Suits p.handlers.size :=
  hk call List.mem_cons_self

theorem Known.rest (hk : p.Known (call :: calls)) (hsame : p.SameHandlers p') : p'.Known calls := by
  intro x hx
  rw [hsame.size]
  exact hk x (List.mem_cons_of_mem call hx)

theorem Piles.write (hp : p.Piles c i s) {handlers : HandlerTable} {top : Option HandlerId}
    {s' : List HandlerId} (hs' : handlers.Pile top s') :
    { p with handlers, registry := p.registry.modify i ({ · with cleanupTop := top }) }.Piles c i
      s' := by
  obtain ⟨control, hcontrol, hmain, -⟩ := hp
  refine ⟨{ control with cleanupTop := top }, ?_, hmain, hs'⟩
  let f (b : Control) : Control := { b with cleanupTop := top }
  exact currentControl_write hcontrol (f := f) (fun _ => rfl) (fun _ => rfl) handlers

/-- A call answers as the pile has it, and a pop without handlers does nothing. -/
theorem Piles.perform (hp : p.Piles c i s) (hsuits : call.Suits p.handlers.size) :
    ∃ p', call.perform c p = .ok (call.answer p.handlers.routine? s, p') ∧
      (s = [] → (∃ execute, call = .pop execute) → p' = p) ∧
      p'.Piles c i (call.onPile s) ∧ p.SameHandlers p' := by
  have ⟨control, hcontrol, _, hpile⟩ := hp
  cases call with
  | push h =>
    refine ⟨_, ?_, nofun, hp.write (hpile.push hsuits), ⟨HandlerTable.size_push _ _ _,
      HandlerTable.routine?_push _ _ _⟩⟩
    rw [CleanupCall.perform, pushCleanup, hcontrol]
    rfl
  | pop execute =>
    have htop := hpile.head?
    cases s with
    | nil =>
      rw [List.head?_nil] at htop
      refine ⟨p, ?_, fun _ _ => rfl, hp, ⟨rfl, rfl⟩⟩
      simp only [CleanupCall.perform, popCleanup, hcontrol, htop, bind, Except.bind, answer,
        List.head?_nil, Option.bind_none, ite_self]
    | cons h s =>
      rw [List.head?_cons] at htop
      rw [htop] at hpile
      refine ⟨_, ?_, nofun, hp.write hpile.pop, ⟨HandlerTable.size_pop _ _,
        HandlerTable.routine?_pop _ _⟩⟩
      simp only [CleanupCall.perform, popCleanup, hcontrol, htop, bind, Except.bind, answer,
        List.head?_cons, Option.bind_some, HandlerTable.routine?_pop]

/-- The record on top of a thread's stack. -/
def topOf (p : ThreadGroup) (i : BlockId) : Option HandlerId :=
  (p.registry.get? i).bind (·.cleanupTop)

/-- A created thread that exits runs its handlers first. -/
theorem Piles.exit_eq (hp : p.Piles c i s) (value : UInt64) : p.exit c value =
    .ok ((p.handlers.runAll? (p.topOf i)).map fun ran => (ran, p.depart i value)) := by
  obtain ⟨control, hcontrol, hmain, -⟩ := hp
  have hget := (currentControl_eq_ok_iff.1 hcontrol).2
  have hexiting : p.exiting c = .ok i := by
    simp [exiting, hcontrol, hmain, bind, Except.bind]
  rw [exit, hexiting, topOf, hget]
  simp only [bind, Except.bind, leave, hget, Option.bind_some]

theorem Piles.pile (hp : p.Piles c i s) : p.handlers.Pile (p.topOf i) s := by
  obtain ⟨control, hcontrol, -, hpile⟩ := hp
  rwa [topOf, (currentControl_eq_ok_iff.1 hcontrol).2]

/-! ## Runs -/

/-- Calls of the thread `c`, none of which fails. The first records are `s`, each call changes them
by `next` and answers as they have it, and a pop does nothing when there are none; at the end
`last` holds of the records and the process. -/
def Goes (c : Caller) (next : CleanupCall → List HandlerId → List HandlerId)
    (last : List HandlerId → ThreadGroup → Prop) :
    List CleanupCall → List HandlerId → ThreadGroup → Prop
  | [], s, p => last s p
  | call :: calls, s, p => ∃ p', call.perform c p = .ok (call.answer p.handlers.routine? s, p') ∧
      (s = [] → (∃ execute, call = .pop execute) → p' = p) ∧ Goes c next last calls (next call s) p'

/-- The exit runs these records once each, in order, and ends. -/
def Ends (c : Caller) (i : BlockId) (value : UInt64) (s : List HandlerId) (p : ThreadGroup) :
    Prop :=
  p.exit c value = .ok (some (s.filterMap p.handlers.routine?, p.depart i value))

/-- The exit runs these records and ends, except if one of them is there twice: then it has no
end, as the handlers that it visits are more than any number. -/
def EndsIfOnce (c : Caller) (i : BlockId) (value : UInt64) (s : List HandlerId) (p : ThreadGroup) :
    Prop :=
  (s.Nodup → p.Ends c i value s) ∧
    (¬ s.Nodup → p.exit c value = .ok none ∧ ∀ n, p.handlers.walk? n (p.topOf i) = none)

/-- The calls and the exit go as with a stack: each pop takes the most recent push that is not
popped and runs it exactly if asked to, and the exit runs the rest once each, the most recent one
first, and ends. -/
def LikeStack (p : ThreadGroup) (c : Caller) (i : BlockId) (value : UInt64)
    (calls : List CleanupCall) (s : List HandlerId) : Prop :=
  Goes c onStack (Ends c i value) calls s p

theorem Piles.endsIfOnce (hp : p.Piles c i s) (value : UInt64) : p.EndsIfOnce c i value s := by
  constructor
  · intro hnodup
    rw [Ends, hp.exit_eq, hp.pile.runAll?_eq hnodup, Option.map_some]
  · intro hdup
    have hwalk := hp.pile.walk?_eq_none hdup
    refine ⟨?_, hwalk⟩
    rw [hp.exit_eq, HandlerTable.runAll?, hwalk, Option.map_none, Option.map_none]

/-- The calls after the first one go on from where it leads. -/
theorem goes_cons_iff {next : CleanupCall → List HandlerId → List HandlerId}
    {last : List HandlerId → ThreadGroup → Prop}
    (hcall : call.perform c p = .ok (call.answer p.handlers.routine? s, p'))
    (hempty : s = [] → (∃ execute, call = .pop execute) → p' = p) :
    Goes c next last (call :: calls) s p ↔ Goes c next last calls (next call s) p' := by
  constructor
  · rintro ⟨q, hq, -, hrest⟩
    obtain rfl := (Prod.mk.inj (Except.ok.inj (hcall.symm.trans hq))).2
    exact hrest
  · exact fun hrest => ⟨p', hcall, hempty, hrest⟩

/-- Calls and the exit go by the pile. -/
theorem Piles.goes (hp : p.Piles c i s) (hk : p.Known calls) (value : UInt64) :
    Goes c onPile (EndsIfOnce c i value) calls s p := by
  induction calls generalizing p s with
  | nil => exact hp.endsIfOnce value
  | cons call calls ih =>
    obtain ⟨p', hcall, hempty, hp', hsame⟩ := hp.perform hk.first
    exact ⟨p', hcall, hempty, ih hp' (hk.rest hsame)⟩

/-- If all records exist, each of them runs. -/
theorem length_filterMap_routine? (hs : ∀ h ∈ s, h < p.handlers.size) :
    (s.filterMap p.handlers.routine?).length = s.length := by
  apply List.filterMap_length_eq_length.2
  intro h hh
  rw [HandlerTable.routine?, Array.getElem?_eq_getElem (hs h hh)]
  rfl

/-- An exit that goes by the pile and by the stack runs as many handlers as are in both. -/
theorem Piles.nodup_of_ends (hp : p.Piles c i t) (hends : p.Ends c i value s)
    (hs : ∀ h ∈ s, h < p.handlers.size) : t.Nodup ∧ t.length = s.length := by
  by_cases hnodup : t.Nodup
  · have hran := (hp.endsIfOnce value).1 hnodup
    rw [Ends, hends] at hran
    have hsame := congrArg List.length (Prod.mk.inj (Option.some.inj (Except.ok.inj hran))).1
    rw [length_filterMap_routine? hs, length_filterMap_routine? fun h => hp.pile.lt] at hsame
    exact ⟨hnodup, hsame.symm⟩
  · have hnever := ((hp.endsIfOnce value).2 hnodup).1
    rw [hends] at hnever
    cases hnever

/-- A pile that lacks records of the stack goes on lacking some until the exit, if no pop finds it
empty before. -/
theorem Piles.not_likeStack (hp : p.Piles c i t) (hlen : t.length < s.length)
    (hs : ∀ h ∈ s, h < p.handlers.size) (hk : p.Known calls) :
    ¬ p.LikeStack c i value calls s := by
  induction calls generalizing p s t with
  | nil =>
    intro hends
    exact absurd (hp.nodup_of_ends hends hs).2 (Nat.ne_of_lt hlen)
  | cons call calls ih =>
    rintro ⟨q, hq, -, hrest⟩
    obtain ⟨p', hcall, -, hp', hsame⟩ := hp.perform hk.first
    obtain ⟨hanswer, rfl⟩ := Prod.mk.inj (Except.ok.inj (hcall.symm.trans hq))
    refine ih hp' (length_onPile_lt hlen hanswer) ?_ (hk.rest hsame) hrest
    rw [hsame.size]
    exact hk.first.onStack hs

theorem Piles.likeStack_iff (hp : p.Piles c i s) (hk : p.Known calls) :
    p.LikeStack c i value calls s ↔ Sparing calls s := by
  induction calls generalizing p s with
  | nil =>
    exact ⟨fun hends => (hp.nodup_of_ends hends fun h => hp.pile.lt).1, (hp.endsIfOnce value).1⟩
  | cons call calls ih =>
    obtain ⟨p', hcall, hempty, hp', hsame⟩ := hp.perform hk.first
    refine (goes_cons_iff hcall hempty).trans ?_
    cases call with
    | push h =>
      by_cases hcut : h ∈ s.dropLast
      · refine iff_of_false ?_ fun hsparing => hsparing.1 hcut
        refine hp'.not_likeStack (HandlerTable.length_restack_lt hcut) ?_ (hk.rest hsame)
        rw [hsame.size]
        exact hk.first.onStack fun x => hp.pile.lt
      · rw [onPile, HandlerTable.restack_eq_cons_iff.2 hcut] at hp'
        exact (ih hp' (hk.rest hsame)).trans (and_iff_right hcut).symm
    | pop execute => exact ih hp' (hk.rest hsame)

/-- No call of a created thread fails. Its pops and its exit go by its pile. They go as with a
stack exactly if no record is pushed that is on the stack, except at its bottom, and none is on it
twice in the end; so they do if no record is pushed while it is on the stack. -/
theorem cleanup_spec (hcontrol : p.currentControl c = .ok (i, control))
    (hmain : control.isMain = false) (htop : control.cleanupTop = none) (hk : p.Known calls)
    (value : UInt64) :
    Goes c onPile (EndsIfOnce c i value) calls [] p ∧
      (p.LikeStack c i value calls [] ↔ Sparing calls []) ∧
      (Fresh calls [] → p.LikeStack c i value calls []) := by
  have hp : p.Piles c i [] := ⟨control, hcontrol, hmain, htop ▸ HandlerTable.pile_none _⟩
  have hiff : p.LikeStack c i value calls [] ↔ Sparing calls [] := hp.likeStack_iff hk
  exact ⟨hp.goes hk value, hiff, fun hfresh => hiff.2 (sparing_of_fresh List.nodup_nil hfresh)⟩

/-- A process that created a thread, and two handler records. -/
def twoHandlers : ThreadGroup :=
  { ((initial 1 {}).create 1 .empty none { map := fun _ => .ok 0x100000, tid := 2 }).2 with
    handlers := #[{ routine := 7 }, { routine := 8 }] }

/-- The second record is pushed again after it was popped. -/
theorem cleanup_spec_pushed_after_pop :
    let c : Caller := { tid := 2 }
    let calls : List CleanupCall := [.push 0, .push 1, .pop true, .push 1, .pop false, .push 1]
    (∃ control, twoHandlers.currentControl c = .ok (1, control) ∧ control.isMain = false ∧
      control.cleanupTop = none) ∧
    twoHandlers.Known calls ∧ Fresh calls [] ∧ twoHandlers.LikeStack c 1 5 calls [] := by
  intro c calls
  obtain ⟨control, hcontrol, hmain, htop⟩ : ∃ control, twoHandlers.currentControl c =
      .ok (1, control) ∧ control.isMain = false ∧ control.cleanupTop = none := ⟨_, rfl, rfl, rfl⟩
  have hk : twoHandlers.Known calls := by decide
  have hfresh : Fresh calls [] := by simp [calls, Fresh]
  exact ⟨⟨control, hcontrol, hmain, htop⟩, hk, hfresh,
    (cleanup_spec hcontrol hmain htop hk 5).2.2 hfresh⟩

/-- The second record is pushed twice. After it was popped twice the first one is lost, and an exit
instead of the pops has no end. -/
theorem not_likeStack_pushed_twice :
    let c : Caller := { tid := 2 }
    let calls : List CleanupCall := [.push 0, .push 1, .push 1, .pop true, .pop true, .pop true]
    (∃ control, twoHandlers.currentControl c = .ok (1, control) ∧ control.isMain = false ∧
      control.cleanupTop = none) ∧
    twoHandlers.Known calls ∧ ¬ twoHandlers.LikeStack c 1 5 calls [] ∧
    ∃ p, (do ((← (← twoHandlers.pushCleanup c 0).pushCleanup c 1).pushCleanup c 1)) = .ok p ∧
      (do
        let (first, p) ← p.popCleanup c true
        let (second, p) ← p.popCleanup c true
        let (third, _) ← p.popCleanup c true
        Except.ok [first, second, third]) = .ok [some 8, some 8, none] ∧
      p.exit c 5 = .ok none := by
  intro c calls
  have hk : twoHandlers.Known calls := by decide
  have hp : twoHandlers.Piles c 1 [] := ⟨_, rfl, rfl, HandlerTable.pile_none _⟩
  have hnot : ¬ Sparing calls [] := by decide
  refine ⟨⟨_, rfl, rfl, rfl⟩, hk, fun hlike => hnot ((hp.likeStack_iff hk).1 hlike), ?_⟩
  exact ⟨_, rfl, rfl, rfl⟩

end ThreadGroup
end Threading

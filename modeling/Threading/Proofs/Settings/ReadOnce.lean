import Mathlib.Logic.Function.Basic
import Threading.Settings.Cache

/-!
# Settings are read once

A process changes its environment, asks for settings and sets them by hand, in any order. What
it is told of a setting is the value that was set last, and if none was, what the variable said
when the setting was asked for first. Nothing that concerns the other settings makes a
difference.
-/
namespace Threading.Settings

/-! ## One setting out of three -/

inductive Setting where
  | level
  | policy
  | priority
  deriving DecidableEq

namespace Setting

abbrev Value : Setting → Type
  | level => LockDebugLevel
  | policy => SchedFailurePolicy
  | priority => LogPriority

/-- The value of a setting whose variable says nothing. -/
def fallback : (k : Setting) → k.Value
  | level => (default : LockDebugLevel)
  | policy => (default : SchedFailurePolicy)
  | priority => (default : LogPriority)

/-- The name of the variable. -/
def variableName : Setting → String
  | level => Environment.levelVariable
  | policy => Environment.policyVariable
  | priority => Environment.priorityVariable

def ofText : (k : Setting) → String → k.Value
  | level => LockDebugLevel.ofText
  | policy => SchedFailurePolicy.ofText
  | priority => LogPriority.ofText

def toByte : (k : Setting) → k.Value → UInt8
  | level => LockDebugLevel.toByte
  | policy => SchedFailurePolicy.toByte
  | priority => LogPriority.toByte

def ofByte : (k : Setting) → UInt8 → k.Value
  | level => LockDebugLevel.ofByte
  | policy => SchedFailurePolicy.ofByte
  | priority => LogPriority.ofByte

variable {k : Setting}

@[simp] theorem ofByte_toByte (v : k.Value) : k.ofByte (k.toByte v) = v := by
  cases k with
  | level => exact LockDebugLevel.ofByte_toByte v
  | policy => exact SchedFailurePolicy.ofByte_toByte v
  | priority => exact LogPriority.ofByte_toByte v

/-- No value is kept as the byte of a setting that was not read yet. -/
theorem toByte_ne_unresolved (v : k.Value) : k.toByte v ≠ Cache.unresolved := by
  cases k <;> cases v <;> decide

theorem ofByte_resolving (k : Setting) : k.ofByte Cache.resolving = k.fallback := by
  cases k <;> rfl

end Setting

/-- The variables of a process and their bytes. -/
abbrev Variables := String → Option ByteArray

/-- The texts among the values of the variables. -/
def Variables.environment (vars : Variables) : Environment :=
  .ofVariables fun name => (vars name).bind String.fromUTF8?

/-- What the variable of a setting says. -/
def Setting.read (k : Setting) (vars : Variables) : k.Value :=
  (((vars k.variableName).bind String.fromUTF8?).map k.ofText).getD k.fallback

namespace Cache

def byte (c : Cache) : Setting → UInt8
  | .level => c.level
  | .policy => c.policy
  | .priority => c.priority

def get (c : Cache) (env : Environment) : (k : Setting) → k.Value × Cache
  | .level => c.getLevel env
  | .policy => c.getPolicy env
  | .priority => c.getPriority env

def set (c : Cache) : (k : Setting) → k.Value → Cache
  | .level, v => c.setLevel v
  | .policy, v => c.setPolicy v
  | .priority, v => c.setPriority v

variable {c : Cache} {vars : Variables} {j k : Setting} {v : k.Value}

theorem byte_get : (c.get vars.environment k).2.byte j =
    if k = j then settle (c.byte j) (j.toByte (j.read vars)) else c.byte j := by
  cases j <;> cases k <;> rfl

theorem value_get : (c.get vars.environment k).1 =
    k.ofByte (settle (c.byte k) (k.toByte (k.read vars))) := by
  cases k <;> rfl

theorem byte_resolveAll : (c.resolveAll vars.environment).byte j =
    settle (c.byte j) (j.toByte (j.read vars)) := by
  cases j <;> rfl

theorem isLogged_eq (p : LogPriority) : c.isLogged vars.environment p =
    ((c.get vars.environment .priority).1.passes p, (c.get vars.environment .priority).2) :=
  rfl

theorem byte_set_self : (c.set k v).byte k = k.toByte v := by
  cases k <;> rfl

theorem byte_set_of_ne (h : j ≠ k) : (c.set k v).byte j = c.byte j := by
  cases j <;> cases k <;> first | rfl | exact absurd rfl h

theorem settle_of_ne {b : UInt8} (h : b ≠ unresolved) (fresh : UInt8) : settle b fresh = b :=
  if_neg h

end Cache

/-! ## Calls -/

/-- What a process does about its settings. -/
inductive Call where
  /-- A variable gets bytes, or none any more. -/
  | assign (name : String) (bytes : Option ByteArray)
  | get (k : Setting)
  | set (k : Setting) (v : k.Value)
  | resolveAll
  /-- Asks whether a line of priority `p` would be written. -/
  | isLogged (p : LogPriority)

namespace Call

variable {j k : Setting} {v : k.Value}

def changes : Call → Variables → Variables
  | assign name bytes, vars => Function.update vars name bytes
  | get _, vars | set _ _, vars | resolveAll, vars | isLogged _, vars => vars

/-- Whether the call needs the value of the setting. -/
def asks (k : Setting) : Call → Bool
  | get j => j = k
  | resolveAll => true
  | isLogged _ => Setting.priority = k
  | assign _ _ | set _ _ => false

/-- The value that the call gives to the setting by hand. -/
def pinned? (k : Setting) : Call → Option k.Value
  | set j v => if h : j = k then some (h ▸ v) else none
  | assign _ _ | get _ | resolveAll | isLogged _ => none

/-- Whether the call has to do with the setting or its variable. -/
def concerns (k : Setting) : Call → Bool
  | assign name _ => name = k.variableName
  | set j _ => j = k
  | e => e.asks k

@[simp] theorem pinned?_set_self : (set k v).pinned? k = some v := by
  simp [pinned?]

theorem pinned?_set_of_ne {v : j.Value} (h : j ≠ k) : (set j v).pinned? k = none := by
  simp [pinned?, h]

theorem pinned?_of_asks {e : Call} (h : e.asks k = true) : e.pinned? k = none := by
  cases e <;> first | rfl | exact absurd h (by simp [asks])

theorem of_not_concerns {e : Call} (h : e.concerns k = false) :
    e.asks k = false ∧ e.pinned? k = none := by
  cases e with
  | assign name bytes => exact ⟨rfl, rfl⟩
  | set j v => exact ⟨rfl, pinned?_set_of_ne (by simpa [concerns] using h)⟩
  | get j => exact ⟨h, rfl⟩
  | resolveAll => exact ⟨h, rfl⟩
  | isLogged p => exact ⟨h, rfl⟩

end Call

/-- The value that was set last. -/
def lastPinned (k : Setting) (es : List Call) : Option k.Value :=
  es.reverse.findSome? (·.pinned? k)

theorem lastPinned_cons (k : Setting) (e : Call) (es : List Call) :
    lastPinned k (e :: es) = (lastPinned k es).or (e.pinned? k) := by
  rw [lastPinned, List.reverse_cons, List.findSome?_append]
  simp [lastPinned]

/-- The variables after some calls. -/
def Variables.after (vars : Variables) (es : List Call) : Variables :=
  es.foldl (fun vars e => e.changes vars) vars

structure Process where
  vars : Variables
  cache : Cache

namespace Process

variable {s s' : Process} {e : Call} {j k : Setting} {v : k.Value}

/-- Before the first call. -/
def start (vars : Variables) : Process := ⟨vars, {}⟩

/-- What the process is told when it asks for a setting. -/
def told (s : Process) (k : Setting) : k.Value := (s.cache.get s.vars.environment k).1

/-- What it is told when it asks whether a line would be written. -/
def toldLogged (s : Process) (p : LogPriority) : Bool :=
  (s.cache.isLogged s.vars.environment p).1

def call (s : Process) (e : Call) : Process where
  vars := e.changes s.vars
  cache :=
    match e with
    | .assign _ _ => s.cache
    | .get k => (s.cache.get s.vars.environment k).2
    | .set k v => s.cache.set k v
    | .resolveAll => s.cache.resolveAll s.vars.environment
    | .isLogged p => (s.cache.isLogged s.vars.environment p).2

def run (s : Process) (es : List Call) : Process := es.foldl call s

@[simp] theorem run_nil : s.run [] = s := rfl

@[simp] theorem run_cons (e : Call) (es : List Call) : s.run (e :: es) = (s.call e).run es := rfl

/-- The kept byte of a setting. -/
def byte (s : Process) (k : Setting) : UInt8 := s.cache.byte k

/-- All that a call does to the byte of a setting. -/
theorem byte_call (s : Process) (e : Call) (k : Setting) : (s.call e).byte k =
    if e.asks k then Cache.settle (s.byte k) (k.toByte (k.read s.vars))
    else ((e.pinned? k).map k.toByte).getD (s.byte k) := by
  cases e with
  | assign name bytes => rfl
  | get j =>
    rw [byte, call, Cache.byte_get]
    simp [Call.asks, Call.pinned?, byte]
  | set j v =>
    by_cases h : j = k
    · subst h
      simp [byte, call, Call.asks, Cache.byte_set_self]
    · rw [byte, call, Cache.byte_set_of_ne (Ne.symm h), Call.pinned?_set_of_ne h]
      rfl
  | resolveAll => exact Cache.byte_resolveAll
  | isLogged p =>
    rw [byte, call, Cache.isLogged_eq, Cache.byte_get]
    simp [Call.asks, Call.pinned?, byte]

theorem told_eq (s : Process) (k : Setting) :
    s.told k = k.ofByte (Cache.settle (s.byte k) (k.toByte (k.read s.vars))) :=
  Cache.value_get

theorem toldLogged_eq (s : Process) (p : LogPriority) :
    s.toldLogged p = (s.told .priority : LogPriority).passes p :=
  congrArg Prod.fst (Cache.isLogged_eq p)

/-! ## Every run -/

/-- A byte that says something already stays until a value is set. -/
theorem byte_call_of_settled (h : s.byte k ≠ Cache.unresolved) (e : Call) :
    (s.call e).byte k = ((e.pinned? k).map k.toByte).getD (s.byte k) := by
  rw [byte_call]
  split
  next hasks =>
    rw [Call.pinned?_of_asks hasks, Cache.settle_of_ne h]
    rfl
  · rfl

theorem byte_run_of_settled (h : s.byte k ≠ Cache.unresolved) (es : List Call) :
    (s.run es).byte k = ((lastPinned k es).map k.toByte).getD (s.byte k) := by
  induction es generalizing s with
  | nil => rfl
  | cons e es ih =>
    have hbyte := byte_call_of_settled h e
    rw [run_cons, lastPinned_cons]
    cases hpin : e.pinned? k with
    | none =>
      rw [hpin] at hbyte
      rw [ih (ne_of_eq_of_ne hbyte h), hbyte, Option.or_none]
      rfl
    | some v =>
      rw [hpin] at hbyte
      rw [ih (ne_of_eq_of_ne hbyte (k.toByte_ne_unresolved v)), hbyte]
      cases lastPinned k es <;> rfl

theorem told_of_settled (h : s.byte k ≠ Cache.unresolved) : s.told k = k.ofByte (s.byte k) := by
  rw [told_eq, Cache.settle_of_ne h]

/-- Once a byte keeps a value, it is the answer until another one is set. -/
theorem told_run_of_byte (h : s.byte k = k.toByte v) (es : List Call) :
    (s.run es).told k = (lastPinned k es).getD v := by
  have hne : s.byte k ≠ Cache.unresolved := ne_of_eq_of_ne h (k.toByte_ne_unresolved v)
  have hbyte := byte_run_of_settled hne es
  cases hlast : lastPinned k es with
  | none =>
    rw [hlast, h] at hbyte
    rw [told_of_settled (ne_of_eq_of_ne hbyte (k.toByte_ne_unresolved v)), hbyte]
    exact Setting.ofByte_toByte v
  | some u =>
    rw [hlast] at hbyte
    rw [told_of_settled (ne_of_eq_of_ne hbyte (k.toByte_ne_unresolved u)), hbyte]
    exact Setting.ofByte_toByte u

/-- The variable is read by the first call that needs it, or by the question itself. -/
theorem told_run (h : s.byte k = Cache.unresolved) (es : List Call) : (s.run es).told k =
    (lastPinned k es).getD (k.read (s.vars.after (es.takeWhile fun e => !e.asks k))) := by
  induction es generalizing s with
  | nil =>
    rw [run_nil, told_eq, h]
    exact Setting.ofByte_toByte _
  | cons e es ih =>
    have hbyte := byte_call s e k
    rw [run_cons, lastPinned_cons]
    cases hasks : e.asks k with
    | true =>
      rw [hasks, h] at hbyte
      rw [told_run_of_byte hbyte, Call.pinned?_of_asks hasks, Option.or_none]
      simp [hasks, Variables.after]
    | false =>
      rw [hasks] at hbyte
      cases hpin : e.pinned? k with
      | some v =>
        rw [hpin] at hbyte
        rw [told_run_of_byte hbyte]
        cases lastPinned k es <;> rfl
      | none =>
        rw [hpin] at hbyte
        rw [ih (hbyte.trans h), Option.or_none]
        simp [hasks, Variables.after, call]

/-! ## Other settings -/

/-- The processes cannot be told apart by what concerns one setting. -/
structure Agrees (k : Setting) (s s' : Process) : Prop where
  byte : s.byte k = s'.byte k
  bytes : s.vars k.variableName = s'.vars k.variableName

theorem Agrees.read (h : Agrees k s s') : k.read s.vars = k.read s'.vars := by
  rw [Setting.read, Setting.read, h.bytes]

theorem Agrees.told (h : Agrees k s s') : s.told k = s'.told k := by
  rw [told_eq, told_eq, h.byte, h.read]

theorem Agrees.trans {s₁ : Process} (h : Agrees k s s') (h' : Agrees k s' s₁) : Agrees k s s₁ :=
  ⟨h.byte.trans h'.byte, h.bytes.trans h'.bytes⟩

theorem Agrees.call (h : Agrees k s s') (e : Call) : Agrees k (s.call e) (s'.call e) := by
  constructor
  · rw [byte_call, byte_call, h.byte, h.read]
  · cases e with
    | assign name bytes =>
      by_cases hname : k.variableName = name
      · simp [Process.call, Call.changes, hname]
      · simp [Process.call, Call.changes, hname, h.bytes]
    | _ => exact h.bytes

theorem agrees_call (s : Process) (h : e.concerns k = false) : Agrees k (s.call e) s := by
  obtain ⟨hasks, hpin⟩ := Call.of_not_concerns h
  constructor
  · simp [byte_call, hasks, hpin]
  · cases e with
    | assign name bytes =>
      have hname : k.variableName ≠ name := by
        rintro rfl
        simp [Call.concerns] at h
      simp [Process.call, Call.changes, hname]
    | _ => rfl

/-- Leaving out the calls that concern other settings changes nothing for this one. -/
theorem Agrees.run_filter (h : Agrees k s s') (es : List Call) :
    Agrees k (s.run es) (s'.run (es.filter (·.concerns k))) := by
  induction es generalizing s s' with
  | nil => exact h
  | cons e es ih =>
    cases hconcerns : e.concerns k with
    | true =>
      rw [List.filter_cons_of_pos hconcerns]
      exact ih (h.call e)
    | false =>
      rw [List.filter_cons_of_neg (by simp [hconcerns])]
      exact ih ((agrees_call s hconcerns).trans h)

/-- What a process is told of its settings, whatever it has done before. -/
theorem reads_once (vars : Variables) (es : List Call) (k : Setting) :
    ((start vars).run es).told k =
        (lastPinned k es).getD (k.read (vars.after (es.takeWhile fun e => !e.asks k))) ∧
      (∀ (s : Process) p, s.toldLogged p = (s.told .priority : LogPriority).passes p) ∧
      (∀ s s' : Process, Agrees k s s' →
        Agrees k (s.run es) (s'.run (es.filter (·.concerns k))) ∧
          (s.run es).told k = (s'.run (es.filter (·.concerns k))).told k) ∧
      ∀ s : Process, s.byte k = Cache.resolving → lastPinned k es = none →
        (s.run es).told k = k.fallback ∧ (s.run es).byte k = Cache.resolving := by
  refine ⟨told_run (by cases k <;> rfl) es, toldLogged_eq, ?_, ?_⟩
  · intro s s' h
    exact ⟨h.run_filter es, (h.run_filter es).told⟩
  · intro s h hlast
    have hne : s.byte k ≠ Cache.unresolved := by
      rw [h]
      decide
    have hbyte := byte_run_of_settled hne es
    rw [hlast, Option.map_none, Option.getD_none] at hbyte
    rw [told_of_settled (ne_of_eq_of_ne hbyte hne), hbyte, h]
    exact ⟨k.ofByte_resolving, rfl⟩

/-- A variable changes after it was read, one was read too late, and one is no text. -/
def reassigned : List Call :=
  [.assign "STRAND_LOG" (some ⟨#[119, 97, 114, 110]⟩), .set .level .enabled, .isLogged .info,
    .assign "STRAND_LOG" none, .assign "STRAND_PTHREAD_DEBUG" (some ⟨#[50]⟩),
    .assign "STRAND_SCHED_FAILURE" (some ⟨#[255]⟩), .resolveAll,
    .assign "STRAND_SCHED_FAILURE" (some ⟨#[108, 111, 103]⟩), .get .policy]

theorem reads_once_reassigned :
    let s := (start fun _ => none).run reassigned
    let s' : Process := ⟨fun _ => none, { level := Cache.resolving }⟩
    (s.told .level = LockDebugLevel.enabled ∧ s.told .policy = SchedFailurePolicy.fail ∧
        s.told .priority = LogPriority.warn) ∧
      (s'.run reassigned.tail.tail).told .level = LockDebugLevel.disabled ∧
      (s'.run reassigned.tail.tail).byte .level = Cache.resolving := by
  have hrun (k : Setting) := (reads_once (fun _ => none) reassigned k).1
  refine ⟨⟨(hrun .level).trans ?_, (hrun .policy).trans ?_, (hrun .priority).trans ?_⟩, ?_⟩
  · decide +kernel
  · decide +kernel
  · decide +kernel
  · exact (reads_once (fun _ => none) reassigned.tail.tail .level).2.2.2 _ rfl rfl

end Process
end Threading.Settings

import Threading.Proofs.Log.Lines
import Threading.Proofs.Scenario.Employment
import Threading.Proofs.Text.Splitting

/-!
# The opposite order

It is predicted to deadlock just if the established order has been recorded, and a report shows
in the captured lines just if there is a prediction: the mark of a report has a line of its own,
which is never cut, and the only other line is the one that announces the level. So the three
checks on the opposite order are met or missed together.
-/
namespace Threading.Scenario.Inversion

open Function (update update_eq_self_iff update_idem update_of_ne update_self)
open LockOrder (CallStack Ledger Notice Report Symbols)
open Performance (Returns)
open Record (Emitter Entry)

variable {c : Inversion} {k : Kernel} {s : Settings} {p p' : ThreadGroup} {t me pid : Tid}
variable {lines : List Log.Line} {line : Log.Line} {sum : Summary} {stage : Stage} {m : UInt64}

/-! ## The mark of a report -/

theorem hasReport_iff :
    hasReport lines = true ↔ ∃ line ∈ lines, reportMark.toList <:+: line.text.toList := by
  simp only [hasReport, List.any_eq_true, Text.isSome_splitFirst?_iff]

/-- The heads of the observer's lines leave room. -/
theorem utf8ByteSize_head_le (h : line.tag = LockOrder.logTag) :
    line.head.utf8ByteSize ≤ 26 := by
  have hle := line.utf8ByteSize_head_le
  rw [h] at hle
  exact hle

/-- The mark has a line of its own, which is delivered whole. -/
theorem infix_text_of_mark (htag : line.tag = LockOrder.logTag)
    (hmessage : line.message = reportMark) : reportMark.toList <:+: line.text.toList := by
  have hhead := utf8ByteSize_head_le htag
  have hsize : Log.byteLength reportMark.toList = 21 := rfl
  rw [Log.Line.text_eq (Nat.le_trans hhead (by decide)), hmessage,
    Log.fitting_of_le (by rw [hsize, Log.lineCapacity]; omega), String.ofList_toList,
    String.toList_append]
  exact (List.suffix_append _ _).isInfix

/-- The announcement of the level does not look like a report: it has no `g`. -/
theorem not_infix_text_of_enabled {level : LockDebugLevel} {here : CallStack} {symbols : Symbols}
    (h : line ∈ (Notice.enabled level).lines pid t here symbols) :
    ¬ reportMark.toList <:+: line.text.toList := by
  have hsigned (n : Int) : 'g' ∉ (Text.signedDecimal n).toList :=
    (Text.spells_signedDecimal n).notMem rfl (by decide) (by decide)
  have hdecimal (n : Nat) : 'g' ∉ (Text.decimal n).toList := by
    have hnat := hsigned n
    rwa [Text.signedDecimal, if_neg (by omega), Int.natAbs_natCast] at hnat
  obtain rfl := List.mem_singleton.1 h
  intro hmark
  have hmem : 'g' ∈ _ := hmark.subset (by decide)
  rw [Log.Line.text_eq (Nat.le_trans (utf8ByteSize_head_le rfl) (by decide)),
    String.toList_append, String.toList_ofList, List.mem_append] at hmem
  obtain hhead | hmessage := hmem
  · simp [Log.Line.head, hsigned, Notice.priority, LogPriority.letter, LockOrder.logTag] at hhead
  · have hmessage := (Log.fitting_isPrefix _ _).subset hmessage
    simp [hsigned, hdecimal] at hmessage

/-! ## The lines of an acquisition -/

section Captured

variable {least : LogPriority} {o : LockOrder.Observer} {level : LockDebugLevel}
variable {here : CallStack} {symbols : Symbols} {report : Option Report} {notices : List Notice}

/-- What is delivered of some notices. -/
def deliveredOf (least : LogPriority) (pid t : Tid) (here : CallStack) (symbols : Symbols)
    (notices : List Notice) : List Log.Line :=
  Log.delivered least (notices.flatMap (·.lines pid t here symbols))

theorem hasReport_append (lines later : List Log.Line) :
    hasReport (lines ++ later) = (hasReport lines || hasReport later) :=
  List.any_append

/-- No report shows where the level is announced. -/
theorem hasReport_prepare :
    hasReport (deliveredOf least pid t here symbols (o.prepare level).2) = false := by
  rw [← Bool.not_eq_true, hasReport_iff]
  rintro ⟨line, hline, hmark⟩
  obtain ⟨n, hn, hmem⟩ := List.mem_flatMap.1 (List.mem_of_mem_filter hline)
  rw [LockOrder.Observer.prepare] at hn
  split at hn
  · obtain rfl := List.mem_singleton.1 hn
    exact not_infix_text_of_enabled hmem hmark
  · exact absurd hn List.not_mem_nil

/-- Warnings are delivered, so a report shows if there is one. -/
theorem hasReport_predicted (hwarn : least.passes .warn = true) :
    hasReport (deliveredOf least pid t here symbols (report.map Notice.predicted).toList) =
      report.isSome := by
  cases report with
  | none => rfl
  | some r =>
    refine hasReport_iff.2 ⟨⟨.warn, LockOrder.logTag, t, reportMark⟩, ?_, infix_text_of_mark rfl rfl⟩
    refine List.mem_filter.2 ⟨List.mem_flatMap.2 ⟨.predicted r, by simp, ?_⟩, hwarn⟩
    exact List.mem_map.2 ⟨reportMark, by simp [Notice.messages, Report.lines, reportMark], rfl⟩

theorem length_prepare_le :
    (deliveredOf least pid t here symbols (o.prepare level).2).length ≤ 1 := by
  refine Nat.le_trans (List.length_filter_le _ _) ?_
  rw [LockOrder.Observer.prepare]
  split <;> simp [Notice.lines, Notice.messages]

theorem length_predicted_le (h : ∀ r ∈ report, r.held.length ≤ 2 ∧ r.order.length ≤ 2) :
    (deliveredOf least pid t here symbols (report.map Notice.predicted).toList).length ≤ 91 := by
  refine Nat.le_trans (List.length_filter_le _ _) ?_
  cases report with
  | none => exact Nat.zero_le _
  | some r =>
    have hlines := r.length_lines_le pid here symbols
    have hsizes := h r rfl
    simp only [Option.map_some, Option.toList_some, List.flatMap_singleton, Notice.lines,
      Notice.messages, List.length_map]
    omega

end Captured

/-! ## The conductor alone -/

/-- The conductor holds these locks, and nobody else holds any. -/
def only (k : Kernel) (l : Ledger UInt32) : Tid → Ledger UInt32 :=
  update (fun _ => []) k.conductor l

@[simp] theorem only_conductor (k : Kernel) (l : Ledger UInt32) : only k l k.conductor = l :=
  update_self _ _ _

@[simp] theorem update_only (k : Kernel) (l l' : Ledger UInt32) :
    update (only k l) k.conductor l' = only k l' :=
  update_idem _ _ _

theorem only_nil (k : Kernel) : only k [] = fun _ => [] := update_eq_self_iff.2 rfl

theorem mem_only {l : Ledger UInt32} (h : m ∈ (only k l t).mutexes) : m ∈ l.mutexes := by
  by_cases ht : t = k.conductor
  · rwa [ht, only_conductor] at h
  · rw [only, update_of_ne ht] at h
    exact absurd h List.not_mem_nil

section Alone

variable {l : Ledger UInt32} (hcrew : stage.crew = []) (hconductor : k.conductor ≠ 0)
variable (hm : m ∈ ids k) (hnot : m ∉ l.mutexes)

include hcrew hconductor hm hnot in
/-- A lock that the conductor does not hold is had at once. -/
theorem exists_lock_alone (hholdings : stage.group.Holdings (ids k) (only k l))
    (hepoch : (graph stage.group).epoch.toNat < 2 ^ 32 - 1) :
    ∃ p' here outcome report, Returns (Performance.lock k m) stage (.ok ())
        { stage with group := p', point := stage.point + 1 } ∧
      stage.group.Gains (ids k) (only k l) m k.conductor here p' outcome report ∧
      p'.Holdings (ids k) (only k (⟨m, 0⟩ :: l)) ∧
      (graph stage.group).Acquired (graph p') l.mutexes.head? m outcome := by
  have hfree : (stage.group.locks.mutexes.get m).isLocked = false := by
    rw [← Bool.not_eq_true, hholdings.isLocked_iff hm]
    rintro ⟨t, ht⟩
    exact hnot (mem_only ht)
  obtain ⟨⟨p', outcome, report, hlock, hgains⟩, -⟩ :=
    hholdings.exists_gains hm hconductor hfree hepoch (k.here (stage.point + 1))
  have hacquired := hgains.order
  rw [only_conductor] at hacquired
  refine ⟨p', _, outcome, report, (Performance.turn_alone hcrew).bind ((Returns.get _).bind ?_), hgains,
    by simpa using hgains.holdings, hacquired⟩
  exact (Returns.onGroup? (by dsimp only; rw [hlock]; rfl)).bind (Returns.pure _ _)

include hcrew hconductor hm hnot in
theorem exists_unlock_alone
    (hholdings : stage.group.Holdings (ids k) (only k (⟨m, 0⟩ :: l))) :
    ∃ p', Returns (Performance.unlock k m) stage (.ok ())
        { stage with group := p', point := stage.point + 1 } ∧
      p'.settings = stage.group.settings ∧ stage.group.SameThreads p' ∧
      p'.Holdings (ids k) (only k l) ∧
      (graph p').orderPart = (graph stage.group).orderPart ∧ p'.lines = stage.group.lines := by
  obtain ⟨p', hunlock, hsettings, hsame, hheld, hrest⟩ :=
    hholdings.exists_unlock hm hconductor (only_conductor k _) hnot
  exact ⟨p', (Performance.turn_alone hcrew).bind (Returns.onGroup? (by dsimp only; rw [hunlock]; rfl)),
    hsettings, hsame, by simpa using hheld, hrest⟩

end Alone

/-- Both locks are released, the outer one first, and the order is as before. -/
theorem exists_unlock_both (hcrew : stage.crew = []) (hconductor : k.conductor ≠ 0)
    (hholdings : stage.group.Holdings (ids k) (only k [⟨k.locks.outer, 0⟩, ⟨k.locks.inner, 0⟩])) :
    ∃ p' stage', Returns (Performance.unlock k k.locks.outer) stage (.ok ()) stage' ∧
      Returns (Performance.unlock k k.locks.inner) stage' (.ok ())
        { stage with group := p', point := stage.point + 2 } ∧
      p'.settings = stage.group.settings ∧ stage.group.SameThreads p' ∧
      p'.Holdings (ids k) (only k []) ∧
      (graph p').orderPart = (graph stage.group).orderPart ∧ p'.lines = stage.group.lines := by
  obtain ⟨p₁, hunlock₁, hsettings₁, hsame₁, hheld₁, hpart₁, hlines₁⟩ :=
    exists_unlock_alone hcrew hconductor (outer_mem_ids k) (by simpa using k.locks.distinct)
      hholdings
  let stage₁ : Stage := { stage with group := p₁, point := stage.point + 1 }
  have hcrew₁ : stage₁.crew = [] := hcrew
  obtain ⟨p₂, hunlock₂, hsettings₂, hsame₂, hheld₂, hpart₂, hlines₂⟩ :=
    exists_unlock_alone hcrew₁ hconductor (inner_mem_ids k) List.not_mem_nil hheld₁
  exact ⟨p₂, stage₁, hunlock₁, hunlock₂, hsettings₂.trans hsettings₁,
    ⟨hsame₂.registry.trans hsame₁.registry, hsame₂.mapped.trans hsame₁.mapped⟩, hheld₂,
    hpart₂.trans hpart₁, hlines₂.trans hlines₁⟩

/-- The conductor is alone, and nobody holds a lock. -/
structure Idle (k : Kernel) (s : Settings) (stage : Stage) : Prop where
  crew : stage.crew = []
  settings : stage.group.settings = s
  lists : ∃ l, stage.group.registry.Lists l
  sited : stage.group.Sited
  holdings : stage.group.Holdings (ids k) (only k [])

/-! ## The opposite order -/

/-- What is captured is put aside, and the log is as before. -/
theorem returns_capturing {α : Type} {x : Performance α} {a : α} {stage' : Stage}
    (h : Returns x { stage with group := { stage.group with lines := #[] } } a stage') :
    Returns (capturing x) stage (a, stage'.group.lines.toList)
      { stage' with group := { stage'.group with lines := stage.group.lines } } :=
  (Returns.get stage).bind ((Returns.modifyGroup _ stage).bind (h.bind ((Returns.get stage').bind
    ((Returns.modifyGroup (fun p => { p with lines := stage.group.lines }) stage').bind
      (Returns.pure _ _)))))

theorem report_eq_none {outcome : LockOrder.Outcome} {report : Option Report} {here : CallStack}
    {held : Tid → LockOrder.Ledger UInt32} (h : p.Gains (ids k) held m t here p' outcome report)
    (houtcome : outcome ≠ .predictedDeadlock) : report = none := by
  obtain ⟨_, _, hlock⟩ := h.onLock
  rw [← Option.not_isSome_iff_eq_none, LockOrder.Graph.isSome_report_iff hlock]
  exact houtcome

/-- Of two acquisitions in a row, only the first one announces the level. -/
theorem lines_of_gains {p₁ p₂ : ThreadGroup} {held held' : Tid → Ledger UInt32} {m' : UInt64}
    {here here' : CallStack} {outcome outcome' : LockOrder.Outcome} {report : Option Report}
    (hempty : p.lines = #[]) (h : p.Gains (ids k) held m t here p₁ outcome none)
    (h' : p₁.Gains (ids k) held' m' t here' p₂ outcome' report) :
    p₂.lines.toList =
      deliveredOf p.settings.priority p.pid t here (p.symbolsOn t)
          (p.locks.observer.prepare p.settings.level).2 ++
        deliveredOf p.settings.priority p₁.pid t here' (p₁.symbolsOn t)
          (report.map Notice.predicted).toList := by
  have hfirst := h.lines
  have hsecond := h'.lines
  rw [hempty, Option.map_none, Option.toList_none, List.append_nil] at hfirst
  rw [h.announced, h.settings, hfirst] at hsecond
  exact hsecond

/-- A report on one of the two locks names each of them once at most. -/
theorem report_sizes {outcome : LockOrder.Outcome} {report : Option Report} {here : CallStack}
    {held : Tid → LockOrder.Ledger UInt32} (h : p.Gains (ids k) held m t here p' outcome report)
    (hholdings : p.Holdings (ids k) held)
    (horder : (graph p).OnlyOrder k.locks.outer k.locks.inner) (hm : m ∈ ids k) :
    ∀ r ∈ report, r.held.length ≤ 2 ∧ r.order.length ≤ 2 := by
  rintro r rfl
  obtain ⟨hwell, hordered⟩ := hholdings.wellFormed
  obtain ⟨_, _, hlock⟩ := h.onLock
  obtain rfl := (LockOrder.Graph.isSome_report_iff hlock).1 rfl
  obtain ⟨hheld, hpath⟩ := hwell.report_sizes hordered horder.epoch_lt hlock
  have hnodes := (hwell.onLock hlock).indexed.nodes_le (horder.mutexes_acquired h.order hm)
  exact ⟨Nat.le_trans hheld hnodes, Nat.le_trans hpath hnodes⟩

/-- Taking the locks in the opposite order succeeds. It is predicted to deadlock, and reported,
just if the established order has been recorded, and is recorded itself otherwise. -/
theorem Idle.exists_invert (h : Idle k s stage) (hconductor : k.conductor ≠ 0)
    (horder : (graph stage.group).OnlyOrder k.locks.outer k.locks.inner)
    (hwarn : s.priority.passes .warn = true) :
    ∃ lines stage', Returns (capturing (invert k)) stage (.ok (), lines) stage' ∧
      hasReport lines = (graph stage.group).hasEdge k.locks.outer k.locks.inner ∧
      lines.length ≤ 92 ∧
      (graph stage'.group).predicted =
        (if (graph stage.group).hasEdge k.locks.outer k.locks.inner then 1 else 0) ∧
      (graph stage'.group).hasEdge k.locks.inner k.locks.outer =
        !(graph stage.group).hasEdge k.locks.outer k.locks.inner ∧
      Idle k s stage' ∧ stage'.emitter = stage.emitter := by
  have hne := k.locks.distinct
  let stage₀ : Stage := { stage with group := { stage.group with lines := #[] } }
  have hheld₀ : stage₀.group.Holdings (ids k) (only k []) := h.holdings.congr ⟨rfl, rfl, rfl⟩
  -- the inner lock first, then the outer one within it
  have hcrew₀ : stage₀.crew = [] := h.crew
  obtain ⟨p₁, here₁, outcome₁, report₁, hlock₁, hgains₁, hheld₁, hacquired₁⟩ :=
    exists_lock_alone hcrew₀ hconductor (inner_mem_ids k) List.not_mem_nil hheld₀ horder.epoch_lt
  let stage₁ : Stage := { stage₀ with group := p₁, point := stage₀.point + 1 }
  have hcrew₁ : stage₁.crew = [] := h.crew
  obtain ⟨rfl, horder₁, hedge₁⟩ := horder.alone hacquired₁ (inner_mem_ids k)
  obtain rfl := report_eq_none hgains₁ nofun
  obtain ⟨p₂, here₂, outcome₂, report₂, hlock₂, hgains₂, hheld₂, hacquired₂⟩ :=
    exists_lock_alone hcrew₁ hconductor (outer_mem_ids k) (by simpa using hne) hheld₁
      horder₁.epoch_lt
  obtain ⟨hiff, hpredicted, hback⟩ := horder₁.inverted hacquired₂ hne
  rw [hedge₁] at hiff hpredicted hback
  obtain ⟨stack, capture, honLock⟩ := hgains₂.onLock
  have hsizes := report_sizes hgains₂ hheld₁ horder₁ (outer_mem_ids k)
  -- both are released
  let stage₂ : Stage := { stage₁ with group := p₂, point := stage₁.point + 1 }
  have hcrew₂ : stage₂.crew = [] := h.crew
  obtain ⟨p₃, stage₃, hunlock₃, hunlock₄, hsettings₃, hsame₃, hheld₃, hpart, hlines₃⟩ :=
    exists_unlock_both hcrew₂ hconductor hheld₂
  have hinvert : Returns (invert k) stage₀ (.ok ())
      { stage₂ with group := p₃, point := stage₂.point + 2 } :=
    hlock₁.bind (hlock₂.bind (hunlock₃.bind hunlock₄))
  have hregistry : p₃.registry = stage.group.registry :=
    (hsame₃.registry.trans hgains₂.same.registry).trans hgains₁.same.registry
  have hlines := (congrArg Array.toList hlines₃).trans (lines_of_gains rfl hgains₁ hgains₂)
  have hsettings₀ : stage₀.group.settings = s := h.settings
  rw [hsettings₀] at hlines
  refine ⟨p₃.lines.toList, _, returns_capturing hinvert, ?_, ?_, ?_, ?_,
    ⟨h.crew, ?_, ?_, ?_, ?_⟩, rfl⟩
  · rw [hlines, hasReport_append, hasReport_prepare, hasReport_predicted hwarn, Bool.false_or,
      Bool.eq_iff_iff, LockOrder.Graph.isSome_report_iff honLock]
    exact hiff
  · rw [hlines, List.length_append]
    exact Nat.add_le_add length_prepare_le (length_predicted_le hsizes)
  · exact (LockOrder.Graph.predicted_eq_of_orderPart hpart).trans hpredicted
  · exact (Bool.eq_iff_iff.2 (LockOrder.Graph.precedes_of_orderPart hpart _ _)).trans hback
  · exact (hsettings₃.trans hgains₂.settings).trans (hgains₁.settings.trans h.settings)
  · exact hregistry ▸ h.lists
  · exact h.sited.congr fun i => by rw [← hregistry]
  · exact hheld₃.congr ⟨rfl, rfl, rfl⟩

/-! ## The verdict on it -/

theorem exists_emitLines (stage : Stage) (h : stage.emitter.failing = false) (k : Kernel)
    (lines : List Log.Line) :
    ∃ e' records, Returns (emitLines k lines) stage () { stage with emitter := e' } ∧
      stage.emitter.Adds e' records ∧ ∀ record ∈ records, record.event = "core_log" := by
  induction lines generalizing stage with
  | nil => exact ⟨stage.emitter, [], rfl, .refl _, fun _ h => absurd h List.not_mem_nil⟩
  | cons line lines ih =>
    obtain ⟨e₁, records₁, hline, hadds₁, hevents₁⟩ := Performance.exists_emitLine stage h k line
    obtain ⟨e', records', hlines, hadds', hevents'⟩ :=
      ih { stage with emitter := e₁ } (hadds₁.failing.trans h)
    refine ⟨e', records₁ ++ records', hline.bind hlines, hadds₁.trans hadds', fun r hr => ?_⟩
    exact (List.mem_append.1 hr).elim (hevents₁ r) (hevents' r)

/-- What is wrong if the opposite order meets no established one. -/
def unprovoked : List String :=
  ["expected one predicted deadlock, saw 0", "no report was logged for the inversion",
    "cycle-closing edge was kept"]

theorem fills_inversion (predicted : UInt64) {n : Nat} (hn : n < 2 ^ 64) : Entry.Fills fun e =>
    { e with
      stream := some .scenario
      predictedDeadlocks := some predicted
      details := some (.object [("report_lines", .int n)]) } where
  traceId _ := rfl
  event _ := rfl
  proper e he := by
    refine ⟨Entry.exactDetails_object rfl (List.pairwise_singleton _ _) ?_, he.errno, nofun⟩
    simp [Json.exact_int hn, Json.depth]

/-- What has happened when the opposite order has been tried, if it is to be tried at all. -/
structure Tried (k : Kernel) (s : Settings) (tried : Bool) (stage stage' : Stage)
    (sum sum' : Summary) (records : List Entry) : Prop where
  honest : sum'.Honest
  threads : sum'.threads = sum.threads
  failures : sum'.failures = sum.failures ++
    if tried && !(graph stage.group).hasEdge k.locks.outer k.locks.inner then unprovoked else []
  predicted : (graph stage'.group).predicted =
    if tried && (graph stage.group).hasEdge k.locks.outer k.locks.inner then 1 else 0
  adds : stage.emitter.Adds stage'.emitter records
  events : ∃ n, records.map (·.event) =
    if tried then List.replicate n "core_log" ++ ["inversion"] else []
  idle : Idle k s stage'

/-- The opposite order is judged by whether the established one has been recorded. -/
theorem Idle.exists_runInversion (h : Idle k s stage) (hconductor : k.conductor ≠ 0)
    (horder : (graph stage.group).OnlyOrder k.locks.outer k.locks.inner)
    (hwarn : s.priority.passes .warn = true) (hlog : stage.emitter.failing = false)
    (hsum : sum.Honest) :
    ∃ sum' stage' records, Returns (runInversion k sum) stage sum' stage' ∧
      Tried k s true stage stage' sum sum' records := by
  obtain ⟨lines, stage₁, hinvert, hreport, hlength, hpredicted, hback, hidle, hemitter⟩ :=
    h.exists_invert hconductor horder hwarn
  obtain ⟨e₁, records, hlines, hadds₁, hevents⟩ :=
    exists_emitLines stage₁ (hemitter ▸ hlog) k lines
  have hlog₁ : e₁.failing = false := hadds₁.failing.trans (hemitter ▸ hlog)
  obtain ⟨e', record, hemit, hadds', hevent⟩ := Performance.exists_emit
    { stage₁ with emitter := e₁ } hlog₁
    (fills_inversion (UInt64.ofNat (graph stage₁.group).predicted)
      (Nat.lt_of_le_of_lt hlength (by decide)))
    k .warn "inversion"
  let judged := ((sum.failIf ((graph stage₁.group).predicted != 1)
    ("expected one predicted deadlock, saw " ++
      Text.decimal (graph stage₁.group).predicted)).failIf
      (!hasReport lines) "no report was logged for the inversion").failIf
        ((graph stage₁.group).hasEdge k.locks.inner k.locks.outer) "cycle-closing edge was kept"
  have hreturns : Returns (runInversion k sum) stage judged { stage₁ with emitter := e' } := by
    refine hinvert.bind (hlines.bind ((Returns.get _).bind ?_))
    exact hemit.bind (Returns.pure _ _)
  have hcore : (records.map (·.event)) = List.replicate records.length "core_log" := by
    refine List.eq_replicate_iff.2 ⟨List.length_map _, fun event hmem => ?_⟩
    obtain ⟨r, hr, rfl⟩ := List.mem_map.1 hmem
    exact hevents r hr
  rw [hemitter] at hadds₁
  refine ⟨judged, { stage₁ with emitter := e' }, records ++ [record], hreturns, ?_, ?_, ?_,
    hpredicted, hadds₁.trans hadds', ⟨records.length, ?_⟩,
    ⟨hidle.crew, hidle.settings, hidle.lists, hidle.sited, hidle.holdings⟩⟩
  · exact ((hsum.failIf _ _).failIf _ _).failIf _ _
  · simp only [judged, Summary.threads_failIf]
  · simp only [judged, Summary.failures_failIf, hreport, hpredicted, hback, List.append_assoc]
    cases (graph stage.group).hasEdge k.locks.outer k.locks.inner <;> rfl
  · rw [List.map_append, hcore, List.map_singleton, hevent]
    rfl

theorem Idle.exists_tried (tried : Bool) (h : Idle k s stage) (hconductor : k.conductor ≠ 0)
    (horder : (graph stage.group).OnlyOrder k.locks.outer k.locks.inner)
    (hwarn : s.priority.passes .warn = true) (hlog : stage.emitter.failing = false)
    (hsum : sum.Honest) :
    ∃ sum' stage' records,
      Returns (if tried then runInversion k sum else pure sum) stage sum' stage' ∧
      Tried k s tried stage stage' sum sum' records := by
  cases tried with
  | true => exact h.exists_runInversion hconductor horder hwarn hlog hsum
  | false =>
    exact ⟨sum, stage, [], Returns.pure _ _, hsum, rfl, (List.append_nil _).symm,
      horder.predicted, .refl _, ⟨0, rfl⟩, h⟩

end Threading.Scenario.Inversion

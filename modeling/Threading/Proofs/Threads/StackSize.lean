import Threading.Proofs.Threads.Deeds
import Threading.Proofs.Threads.Layout

/-!
# The stack a thread reports

A thread is created where its memory has room for it, and no call ever writes to what its
control block says of its stack. So whenever it is asked for its attributes, it reports the size
that the layout left for the stack.
-/
namespace Threading

theorem Registry.block?_of_get? {α : Type} {r : Registry α} {i : BlockId} {b : α}
    (h : r.get? i = some b) : r.block? i = some b := by
  rw [get?] at h
  split at h
  · exact h
  · exact absurd h (by simp)

namespace ThreadGroup

open LockOrder (CallStack)

variable {p p' p₁ : ThreadGroup} {i : BlockId} {c : Control} {l : List BlockId} {t : Tid}
variable {r r' r₁ : Registry Control} {d : Deed} {reply : Reply}

/-! ## What no call writes -/

/-- The blocks say the same of the stack of their thread. -/
structure SameStack (c c' : Control) : Prop where
  attributes : c'.attributes = c.attributes
  region : c'.region = c.region
  stackTop : c'.stackTop = c.stackTop
  isMain : c'.isMain = c.isMain

theorem SameStack.trans {c' c₁ : Control} (h : SameStack c c') (h' : SameStack c' c₁) :
    SameStack c c₁ where
  attributes := h'.attributes.trans h.attributes
  region := h'.region.trans h.region
  stackTop := h'.stackTop.trans h.stackTop
  isMain := h'.isMain.trans h.isMain

/-- A registry in order has become another one, and every block says the same of its stack,
listed or not. -/
structure Upholds (r r' : Registry Control) : Prop where
  lists : ∃ l, r'.Lists l
  kept : ∀ i c, r.block? i = some c → ∃ c', r'.block? i = some c' ∧ SameStack c c'

theorem Upholds.trans (h : Upholds r r') (h' : Upholds r' r₁) : Upholds r r₁ := by
  refine ⟨h'.lists, ?_⟩
  intro i c hi
  obtain ⟨c', hi', hc'⟩ := h.kept i c hi
  obtain ⟨c₁, hi₁, hc₁⟩ := h'.kept i c' hi'
  exact ⟨c₁, hi₁, hc'.trans hc₁⟩

theorem upholds_refl (hl : r.Lists l) : Upholds r r :=
  ⟨⟨l, hl⟩, fun _ c hi => ⟨c, hi, rfl, rfl, rfl, rfl⟩⟩

theorem upholds_add (hl : r.Lists l) (c : Control) : Upholds r (r.add c) := by
  refine ⟨⟨_, hl.add c⟩, ?_⟩
  intro i d hi
  have hne : i ≠ r.cells.size := by
    rintro rfl
    simp [Registry.block?] at hi
  exact ⟨d, by rw [Registry.block?_add, if_neg hne, hi], rfl, rfl, rfl, rfl⟩

theorem upholds_modify (hl : r.Lists l) (i : BlockId) (f : Control → Control)
    (hf : ∀ c, SameStack c (f c)) : Upholds r (r.modify i f) := by
  refine ⟨⟨l, hl.modify i f⟩, ?_⟩
  intro j c hj
  rw [Registry.block?_modify]
  split
  · exact ⟨f c, by rw [hj, Option.map_some], hf c⟩
  · exact ⟨c, hj, rfl, rfl, rfl, rfl⟩

theorem upholds_remove (hl : r.Lists l) (i : BlockId) : Upholds r (r.remove i).2 := by
  constructor
  · by_cases hi : i ∈ l
    · exact ⟨_, hl.remove hi⟩
    · rw [hl.remove_of_notMem hi]
      exact ⟨l, hl⟩
  · intro j c hj
    exact ⟨c, by rw [Registry.block?_remove, hj], rfl, rfl, rfl, rfl⟩

/-! ## One call -/

theorem upholds_launch (hl : p.registry.Lists l) (t : Tid) (here : CallStack)
    (request : Option Attributes) (launch : Launch) :
    Upholds p.registry (p.launch t here request launch).group.registry := by
  obtain ⟨e, -, -, hsame⟩ | ⟨region, layout, c, -, -, -, hregistry, -⟩ :=
    launch_cases hl t here request launch
  · rw [hsame.registry]
    exact upholds_refl hl
  · rw [hregistry]
    exact upholds_add hl c

theorem upholds_depart (hl : p.registry.Lists l) (i : BlockId) (v : UInt64) :
    Upholds p.registry (p.depart i v).registry := by
  cases hi : p.registry.get? i with
  | none =>
    rw [depart, hi]
    exact upholds_refl hl
  | some c =>
    cases hs : c.joinState with
    | joinable =>
      rw [depart_joinable hi hs]
      exact upholds_modify hl i (leavesAs · v .exitedNotJoined) fun _ => ⟨rfl, rfl, rfl, rfl⟩
    | joined =>
      rw [depart_joined hi hs]
      exact upholds_modify hl i (leavesAs · v .joined) fun _ => ⟨rfl, rfl, rfl, rfl⟩
    | exitedNotJoined =>
      rw [depart_reclaims hi (.inl hs), registry_reclaim]
      exact upholds_remove hl i
    | detached =>
      rw [depart_reclaims hi (.inr hs), registry_reclaim]
      exact upholds_remove hl i

theorem upholds_reclaim (hl : p.registry.Lists l) (i : BlockId) (c : Control) :
    Upholds p.registry (p.reclaim i c).registry := by
  rw [registry_reclaim]
  exact upholds_remove hl i

theorem upholds_perform? (hl : p.registry.Lists l) (h : p.perform? d = some (reply, p')) :
    Upholds p.registry p'.registry := by
  have hclaim (i : BlockId) : Upholds p.registry (p.claim i).registry :=
    upholds_modify hl i ({ · with joinState := .joined }) fun _ => ⟨rfl, rfl, rfl, rfl⟩
  cases alters_perform? h with
  | same => exact upholds_refl hl
  | launched t here request launch => exact upholds_launch hl t here request launch
  | departed i v => exact upholds_depart hl i v
  | expired i => exact upholds_modify hl i expired fun _ => ⟨rfl, rfl, rfl, rfl⟩
  | claimed i => exact hclaim i
  | claimedAndReclaimed i c =>
    have hl' : (p.claim i).registry.Lists l := hl.modify i ({ · with joinState := .joined })
    exact (hclaim i).trans (upholds_reclaim hl' i c)
  | reclaimed i c => exact upholds_reclaim hl i c
  | detached i =>
    exact upholds_modify hl i ({ · with joinState := .detached }) fun _ => ⟨rfl, rfl, rfl, rfl⟩

/-! ## Any calls -/

/-- Something is done about threads. -/
def Acts (p p' : ThreadGroup) : Prop := ∃ d reply, p.perform? d = some (reply, p')

theorem upholds_acts (hl : p.registry.Lists l) (h : Relation.ReflTransGen Acts p p') :
    Upholds p.registry p'.registry := by
  induction h with
  | refl => exact upholds_refl hl
  | tail _ hact ih =>
    obtain ⟨l', hl'⟩ := ih.lists
    obtain ⟨d, reply, hperform⟩ := hact
    exact ih.trans (upholds_perform? hl' hperform)

/-- The size of the stack that a created thread reports. -/
def reportedSize (c : Control) : UInt64 :=
  if c.region.owned then c.stackTop - c.region.stackBase else c.attributes.stackSize

theorem SameStack.reportedSize {c' : Control} (h : SameStack c c') :
    reportedSize c' = reportedSize c := by
  rw [ThreadGroup.reportedSize, h.region, h.stackTop, h.attributes]
  rfl

theorem exists_attributes (hi : p.registry.get? i = some c) (hmain : c.isMain = false)
    (mainStack : Except Error (UInt64 × UInt64)) :
    ∃ a, p.attributes i mainStack = .ok a ∧ a.stackSize = reportedSize c := by
  rw [attributes, control, hi, reportedSize]
  simp only [hmain, bind, Except.bind, Bool.false_eq_true, if_false]
  refine ⟨_, rfl, ?_⟩
  cases c.region.owned <;> cases c.joinState <;> rfl

/-- While it is registered, a thread reports the size that it had at first. -/
theorem exists_attributes_of_acts (hl : p.registry.Lists l) (hi : p.registry.get? i = some c)
    (hmain : c.isMain = false) (h : Relation.ReflTransGen Acts p p')
    (hlisted : (p'.registry.get? i).isSome = true) (mainStack : Except Error (UInt64 × UInt64)) :
    ∃ a, p'.attributes i mainStack = .ok a ∧ a.stackSize = reportedSize c := by
  obtain ⟨c', hi'⟩ := Option.isSome_iff_exists.1 hlisted
  obtain ⟨c₁, hi₁, hsame⟩ := (upholds_acts hl h).kept i c (Registry.block?_of_get? hi)
  obtain rfl : c' = c₁ := Option.some.inj ((Registry.block?_of_get? hi').symm.trans hi₁)
  rw [← hsame.reportedSize]
  exact exists_attributes hi' (hsame.isMain.trans hmain) mainStack

/-! ## A new thread -/

variable {a : Attributes} {region : Region}
variable {request : Option Attributes} {launch : Launch} {layout : Layout} {e : Error}

/-- Memory without a layout is refused, and with one there is a thread if there is a task. -/
theorem launch_of_provided? (hvalid : (request.getD {}).validate = .ok ())
    (hregion : provided? (request.getD {}) launch = some region) (p : ThreadGroup) (t : Tid)
    (here : CallStack) :
    (∀ e, region.layout = .error e → (p.launch t here request launch).result = .error e ∧
        (p.launch t here request launch).launched = none) ∧
      ∀ layout, region.layout = .ok layout → launch.clone = none →
        (p.launch t here request launch).launched ≠ none := by
  constructor
  · intro e hlayout
    have hhousing : housing (request.getD {}) launch = .error e := by
      simp only [housing, hvalid, hregion, hlayout]
    obtain ⟨hresult, hlaunched, -⟩ := launch_of_error hhousing p t here
    exact ⟨hresult, hlaunched⟩
  · intro layout hlayout hclone
    have hhousing : housing (request.getD {}) launch = .ok (region, layout) := by
      simp only [housing, hvalid, hregion, hlayout, hclone]
    rw [← Option.isSome_iff_ne_none, isSome_launched_iff]
    exact ⟨_, hhousing⟩

theorem reportedSize_of_divides {d : Control} (h : region.Divides layout)
    (hd : SameStack (newControl a region layout t) d) : reportedSize d = layout.usableStack := by
  rw [hd.reportedSize, reportedSize, newControl]
  split
  · rw [Layout.usableStack, h.stackBase]
  · rfl

/-- For attributes that pass their check, memory is divided among a guard, a stack with room for
its first frame, the slots and the control block, unless it is borrowed and wraps around. From
then on the thread reports the size that is left for the stack. -/
theorem launch_lays_out (hl : p.registry.Lists l) (t : Tid) (here : CallStack)
    (request : Option Attributes) (launch : Launch)
    (hvalid : (request.getD {}).validate = .ok ()) (hmap : MapsPages launch.map)
    (hregion : (p.provideRegion t (request.getD {}) launch).1 = .ok region) :
    (region.owned = false ∧ UInt64.size ≤ region.base.toNat + region.size.toNat ∧
      region.layout = .error (.invalidArgument "stack too small for thread metadata") ∧
      (p.launch t here request launch).result =
        .error (.invalidArgument "stack too small for thread metadata")) ∨
    ∃ layout, region.layout = .ok layout ∧ region.Divides layout ∧
      (launch.clone = none → ∃ i c, (p.launch t here request launch).launched = some i ∧
        (p.launch t here request launch).group.registry.get? i = some c ∧
        (c.region = region ∧ c.stackTop = layout.stackTop ∧ c.tls = layout.tls ∧
          c.address = layout.control) ∧
        ∀ p', Relation.ReflTransGen Acts (p.launch t here request launch).group p' →
          (p'.registry.get? i).isSome = true → ∀ mainStack,
            ∃ a, p'.attributes i mainStack = .ok a ∧ (request.getD {}).Leaves a.stackSize) := by
  have hregion := provided?_of_provideRegion hregion
  obtain ⟨hrefused, hlaunched⟩ := launch_of_provided? hvalid hregion p t here
  obtain ⟨hborrowed, hwraps, herror⟩ | ⟨layout, hlayout, hdivides, hleaves⟩ :=
    layout_provided hvalid hmap hregion
  · exact .inl ⟨hborrowed, hwraps, herror, (hrefused _ herror).1⟩
  refine .inr ⟨layout, hlayout, hdivides, ?_⟩
  intro hclone
  obtain ⟨e, -, hnone, -⟩ | ⟨region', layout', c, hregion', hlayout', hsome, hregistry, -, hhow⟩ :=
    launch_cases hl t here request launch
  · exact absurd hnone (hlaunched layout hlayout hclone)
  obtain rfl := Option.some.inj (hregion.symm.trans hregion')
  obtain rfl := Except.ok.inj (hlayout.symm.trans hlayout')
  have hsame : SameStack (newControl (request.getD {}) region layout launch.tid) c := by
    obtain ⟨-, rfl⟩ | ⟨-, rfl⟩ := hhow <;> exact ⟨rfl, rfl, rfl, rfl⟩
  have hplace : c.tls = layout.tls ∧ c.address = layout.control := by
    obtain ⟨-, rfl⟩ | ⟨-, rfl⟩ := hhow <;> exact ⟨rfl, rfl⟩
  have hget : (p.launch t here request launch).group.registry.get? p.registry.cells.size =
      some c := by
    rw [hregistry, hl.get?_add, if_pos rfl]
  refine ⟨_, c, hsome, hget, ⟨hsame.region, hsame.stackTop, hplace⟩, ?_⟩
  intro p' hacts hlisted mainStack
  have hl' : (p.launch t here request launch).group.registry.Lists (p.registry.cells.size :: l) :=
    hregistry ▸ hl.add c
  obtain ⟨a, ha, hsize⟩ := exists_attributes_of_acts hl' hget hsame.isMain hacts hlisted mainStack
  refine ⟨a, ha, ?_⟩
  rw [hsize, reportedSize_of_divides hdivides hsame]
  exact hleaves

theorem mapsPages_mapAt {base : UInt64} (hpage : 4096 ∣ base.toNat)
    (hlow : base.toNat + 0x800000000000 ≤ UInt64.size) : MapsPages (mapAt base) := by
  intro size address hmap
  rw [mapAt] at hmap
  split at hmap
  · exact absurd hmap (by simp)
  split at hmap
  · exact absurd hmap (by simp)
  · obtain rfl := Except.ok.inj hmap
    exact ⟨hpage, by omega⟩

/-- A stack of the usual size in memory of its own, and a borrowed one that ends behind the last
address. -/
theorem launch_lays_out_ownedAndWrapped :
    (∃ layout, Region.layout ⟨0x10000000, 2101248, 4096, true⟩ = .ok layout ∧
      Region.Divides ⟨0x10000000, 2101248, 4096, true⟩ layout ∧
      ∃ i creation, creation =
          (initial 100 {}).launch 100 .empty none { map := mapAt 0x10000000, tid := 101 } ∧
        creation.launched = some i ∧
        ∀ p', Relation.ReflTransGen Acts creation.group p' →
          (p'.registry.get? i).isSome = true → ∀ mainStack,
            ∃ a, p'.attributes i mainStack = .ok a ∧ ({} : Attributes).Leaves a.stackSize) ∧
    ((initial 100 {}).launch 100 .empty
        (some { stackBase := 0xfffffffffffff000, stackSize := 0x4000 })
        { map := mapAt 0x10000000, tid := 101 }).result =
      .error (.invalidArgument "stack too small for thread metadata") := by
  have hl : (initial 100 {}).registry.Lists [0] := Registry.lists_empty.add (mainControl 100)
  have hmap : MapsPages (mapAt 0x10000000) := mapsPages_mapAt (by decide) (by decide)
  constructor
  · have hregion : ((initial 100 {}).provideRegion 100 {} { map := mapAt 0x10000000, tid := 101 }).1 =
        .ok ⟨0x10000000, 2101248, 4096, true⟩ := by decide
    obtain ⟨howned, -⟩ | ⟨layout, hlayout, hdivides, hthread⟩ := launch_lays_out hl 100 .empty none
      { map := mapAt 0x10000000, tid := 101 } (by decide) hmap hregion
    · exact absurd howned (by decide)
    · obtain ⟨i, c, hlaunched, -, -, hreports⟩ := hthread rfl
      exact ⟨layout, hlayout, hdivides, i, _, rfl, hlaunched, hreports⟩
  · have hregion : ((initial 100 {}).provideRegion 100
        { stackBase := 0xfffffffffffff000, stackSize := 0x4000 }
        { map := mapAt 0x10000000, tid := 101 }).1 =
        .ok (.borrowed 0xfffffffffffff000 0x4000) := by decide
    have hwraps : (Region.borrowed 0xfffffffffffff000 0x4000).layout = .error Layout.tooSmall := by
      decide
    obtain ⟨-, -, -, hresult⟩ | ⟨layout, hlayout, -⟩ := launch_lays_out hl 100 .empty
      (some { stackBase := 0xfffffffffffff000, stackSize := 0x4000 })
      { map := mapAt 0x10000000, tid := 101 } (by decide) hmap hregion
    · exact hresult
    · exact absurd (hwraps.symm.trans hlayout) (by simp)

end ThreadGroup
end Threading

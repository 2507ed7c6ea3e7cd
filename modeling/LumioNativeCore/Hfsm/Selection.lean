import LumioNativeCore.Hfsm.Graph

/-! Bubbling selects the declared transition: the code's pass from the leaf
upwards, over the candidate tables, finds the deepest active state with an
enabled transition and the enabled one of least priority there. -/
namespace Hfsm

/-- A compiled transition is unguarded or its guard is true. -/
def CompiledTransition.passes (guards : GuardFrame) (t : CompiledTransition) : Bool :=
  match t.guard with
  | none => true
  | some g => decide (guards.lookup g = .true)

theorem passes_iff {guards : GuardFrame} {t : CompiledTransition} :
    t.passes guards = true ↔ ∀ g, t.guard = some g → guards.lookup g = .true := by
  rw [CompiledTransition.passes]
  cases t.guard with
  | none => simp
  | some g => simp

theorem compileTransition_injective : Function.Injective compileTransition := by
  rintro ⟨⟩ ⟨⟩ h
  simpa [compileTransition] using h

/-- Picking from resolved candidates whose guards are all supplied is a search
for the first that passes. -/
theorem pick_eq {def_ : CompiledDefinition} {guards : GuardFrame}
    {group : List CompiledTransition}
    (hResolved : ∀ t ∈ group, def_.transition t.id = some t)
    (hSupplied : ∀ t ∈ group, ∀ g, t.guard = some g → guards.lookup g ≠ .missing) :
    pick def_ guards (group.map CompiledTransition.id) =
      .ok (group.find? (CompiledTransition.passes guards)) := by
  induction group with
  | nil => rfl
  | cons t rest ih =>
      rw [List.forall_mem_cons] at hResolved hSupplied
      have hRest := ih hResolved.2 hSupplied.2
      rw [List.map_cons, pick, hResolved.1, List.find?_cons]
      cases hGuard : t.guard with
      | none => simp [CompiledTransition.passes, hGuard]
      | some g =>
          cases hLookup : guards.lookup g with
          | true => simp [CompiledTransition.passes, hGuard, hLookup]
          | false => simpa [CompiledTransition.passes, hGuard, hLookup] using hRest
          | missing => exact absurd hLookup (hSupplied.1 g hGuard)

/-- The guards collected along an ancestry, without their order. -/
theorem mem_guardsAlong {def_ : CompiledDefinition} {leaf : StateId} {event : EventKind}
    {g : GuardId} :
    g ∈ def_.guardsAlong leaf event ↔ ∃ state ∈ def_.ancestry (some leaf),
      ∃ id ∈ def_.candidatesOf state event,
        (def_.transition id).bind CompiledTransition.guard = some g := by
  rw [CompiledDefinition.guardsAlong, Check.mem_foldl fun state =>
    ∃ id ∈ def_.candidatesOf state event,
      (def_.transition id).bind CompiledTransition.guard = some g]
  · simp
  intro guards state
  apply Check.mem_foldl fun id => (def_.transition id).bind CompiledTransition.guard = some g
  intro guards id
  cases (def_.transition id).bind CompiledTransition.guard with
  | none => simp
  | some found =>
      by_cases hKnown : found ∈ guards
      · have hSame : g = found → g ∈ guards := fun h => h ▸ hKnown
        simp [hKnown, eq_comm, or_iff_left_of_imp hSame]
      · simp [hKnown, eq_comm]

/-- The transition that bubbling from the leaf should find, with its level. -/
def DefinitionSpec.bubble (spec : DefinitionSpec) (event : EventKind) (guards : GuardFrame)
    (a : ActiveState) : Option CompiledTransition :=
  (spec.candidatesOf (a.state, event)).find? (CompiledTransition.passes guards)

namespace Accepted

variable {spec : DefinitionSpec} {def_ : CompiledDefinition}

theorem mem_candidatesOf {key : StateId × EventKind} {c : CompiledTransition} :
    c ∈ spec.candidatesOf key ↔
      ∃ t, spec.IsCandidate key.1 key.2 t ∧ compileTransition t = c := by
  rw [DefinitionSpec.mem_candidatesOf, List.mem_map]
  constructor
  · rintro ⟨⟨t, ht, rfl⟩, rfl⟩
    exact ⟨t, ⟨ht, rfl, rfl⟩, rfl⟩
  · rintro ⟨t, ⟨ht, hSource, hEvent⟩, rfl⟩
    exact ⟨⟨t, ht, rfl⟩, Prod.ext hSource hEvent⟩

theorem transition_of_mem (h : Accepted spec def_) {t : TransitionSpec}
    (ht : t ∈ spec.transitions) : def_.transition t.id = some (compileTransition t) := by
  rw [h.transition, Check.find_of_nodup h.transitionIds ht]
  rfl

/-- A guard of a candidate on the way up from the leaf is among the required ones. -/
theorem required_of_candidate (h : Accepted spec def_) {leaf : StateId} {event : EventKind}
    (hLeaf : spec.IsLeaf leaf) (hEvent : def_.hasEvent event = true) {state : StateId}
    (hState : state ∈ spec.ancestry leaf) {t : TransitionSpec}
    (ht : spec.IsCandidate state event t) {g : GuardId} (hGuard : t.guard = some g) :
    g ∈ def_.requiredGuardsOf leaf event := by
  rw [h.requiredGuards, if_pos ⟨(h.isLeaf_iff leaf).mpr hLeaf, hEvent⟩, mem_guardsAlong,
    h.ancestry_eq]
  refine ⟨state, hState, t.id, ?_, ?_⟩
  · rw [h.candidates]
    exact List.mem_map.mpr ⟨compileTransition t, mem_candidatesOf.mpr ⟨t, ht, rfl⟩, rfl⟩
  · rw [h.transition_of_mem ht.1]
    exact hGuard

/-- With its guards supplied, a pass over levels is the search for the first
level where a candidate passes. -/
theorem selectFrom_eq (h : Accepted spec def_) {event : EventKind} {guards : GuardFrame}
    {levels : List (ActiveState × Nat)}
    (hSupplied : ∀ entry ∈ levels, ∀ t, spec.IsCandidate entry.1.state event t →
      ∀ g, t.guard = some g → guards.lookup g ≠ .missing) :
    selectFrom def_ event guards levels = .ok (levels.findSome?
      fun (a, level) => (spec.bubble event guards a).map (level, ·)) := by
  induction levels with
  | nil => rfl
  | cons entry rest ih =>
      rw [List.forall_mem_cons] at hSupplied
      rcases entry with ⟨a, level⟩
      have hPick : pick def_ guards (def_.candidatesOf a.state event) =
          .ok (spec.bubble event guards a) := by
        rw [h.candidates]
        apply pick_eq
        · intro c hc
          obtain ⟨t, ht, rfl⟩ := mem_candidatesOf.mp hc
          exact h.transition_of_mem ht.1
        · intro c hc g hGuard
          obtain ⟨t, ht, rfl⟩ := mem_candidatesOf.mp hc
          exact hSupplied.1 t ht g hGuard
      rw [selectFrom, hPick, List.findSome?_cons, ih hSupplied.2]
      cases hBubble : spec.bubble event guards a <;> simp [hBubble]

/-- With every required guard supplied, selection is the bubbling search. -/
theorem select_eq (h : Accepted spec def_) {s : Snapshot} {event : EventKind}
    {guards : GuardFrame} {leaf : StateId} (hPath : spec.IsPathTo leaf s.activePath)
    (hEvent : def_.hasEvent event = true)
    (hSupplied : ∀ g ∈ def_.requiredGuardsOf leaf event, guards.lookup g ≠ .missing) :
    select def_ s event guards = .ok (s.activePath.zipIdx.reverse.findSome?
      fun (a, level) => (spec.bubble event guards a).map (level, ·)) := by
  apply h.selectFrom_eq
  intro entry hEntry t ht g hGuard
  apply hSupplied
  apply h.required_of_candidate hPath.1 hEvent ?_ ht hGuard
  have hMem : entry.1 ∈ s.activePath :=
    List.fst_mem_of_mem_zipIdx (List.mem_reverse.mp hEntry)
  rw [← hPath.2, List.mem_reverse]
  exact List.mem_map_of_mem hMem

/-! The found transition is the selected one. -/

/-- The part of a path down to one of its states is that state's ancestry. -/
theorem ancestry_of_split (h : Accepted spec def_) {leaf : StateId}
    {outer inner : List ActiveState} {a : ActiveState}
    (hPath : spec.IsPathTo leaf (outer ++ a :: inner)) :
    ((outer ++ [a]).map ActiveState.state).reverse = spec.ancestry a.state := by
  have hLinked := (h.falls.ascent_trail leaf).linked.1
  change Forest.Linked spec.parentOf none (spec.ancestry leaf).reverse at hLinked
  have hSplit : outer ++ a :: inner = (outer ++ [a]) ++ inner := by simp
  rw [← hPath.2, List.reverse_reverse, hSplit, List.map_append,
    Forest.linked_append] at hLinked
  have hAscent := hLinked.1.ascent Forest.Ascent.nil
  rw [Option.or_none, List.append_nil] at hAscent
  have hLast : ((outer ++ [a]).map ActiveState.state).getLast? = some a.state := by simp
  rw [hLast] at hAscent
  exact hAscent.unique (h.falls.ascent_trail a.state)

theorem path_nodup (h : Accepted spec def_) {leaf : StateId} {path : List ActiveState}
    (hPath : spec.IsPathTo leaf path) : (path.map ActiveState.state).Nodup := by
  rw [← List.nodup_reverse, hPath.2]
  exact h.falls.trail_nodup leaf

/-- A state of the path reaches every state above it. -/
theorem reaches_of_split (h : Accepted spec def_) {leaf : StateId}
    {outer inner : List ActiveState} {a b : ActiveState}
    (hPath : spec.IsPathTo leaf (outer ++ a :: inner)) (hb : b ∈ outer ++ [a]) :
    Forest.Reaches spec.parentOf a.state b.state := by
  rw [← h.mem_ancestry, ← h.ancestry_of_split hPath, List.mem_reverse]
  exact List.mem_map_of_mem hb

theorem bubble_eq_none {event : EventKind} {guards : GuardFrame} {a : ActiveState} :
    spec.bubble event guards a = none ↔ ∀ t, ¬spec.IsEnabled guards a.state event t := by
  rw [DefinitionSpec.bubble, List.find?_eq_none]
  constructor
  · intro hNone t ht
    exact hNone _ (mem_candidatesOf.mpr ⟨t, ht.1, rfl⟩) (passes_iff.mpr ht.2)
  · intro hNone c hc hPasses
    obtain ⟨t, ht, rfl⟩ := mem_candidatesOf.mp hc
    exact hNone t ⟨ht, passes_iff.mp hPasses⟩

/-- Bubbling finds nothing only where no active state has an enabled transition;
otherwise it finds the selected one, at the level of its source. -/
theorem bubbling_selects (h : Accepted spec def_) {event : EventKind} {guards : GuardFrame}
    {leaf : StateId} {path : List ActiveState} (hPath : spec.IsPathTo leaf path) :
    (path.zipIdx.reverse.findSome?
          (fun (a, level) => (spec.bubble event guards a).map (level, ·)) = none ∧
        ∀ a ∈ path, ∀ t, ¬spec.IsEnabled guards a.state event t) ∨
      ∃ outer source inner t, path = outer ++ source :: inner ∧
        spec.IsSelected guards path event source t ∧
        path.zipIdx.reverse.findSome?
          (fun (a, level) => (spec.bubble event guards a).map (level, ·)) =
            some (outer.length, compileTransition t) := by
  rcases Check.findSome_zipIdx_reverse (f := spec.bubble event guards) path with
    ⟨hNone, hAll⟩ | ⟨outer, source, inner, c, rfl, hSource, hInner, hFound⟩
  · exact Or.inl ⟨hNone, fun a ha => bubble_eq_none.mp (hAll a ha)⟩
  · obtain ⟨hMem, hPasses, hLeast⟩ :=
      Check.find_sorted (h.priorities (source.state, event)) hSource
    obtain ⟨t, ht, rfl⟩ := mem_candidatesOf.mp hMem
    refine Or.inr ⟨outer, source, inner, t, rfl, ?_, hFound⟩
    exact
      { active := by simp
        enabled := ⟨ht, passes_iff.mp hPasses⟩
        deepest := by
          intro b hb u hu
          have hSplit : b ∈ (outer ++ [source]) ++ inner := by simpa using hb
          rcases List.mem_append.mp hSplit with hb | hb
          · exact h.reaches_of_split hPath hb
          · exact absurd hu (bubble_eq_none.mp (hInner b hb) u)
        least := by
          intro u hu
          rcases hLeast _ (mem_candidatesOf.mpr ⟨u, hu.1, rfl⟩) (passes_iff.mpr hu.2) with
            hSame | hLt
          · rw [compileTransition_injective hSame]
            exact UInt32.le_refl _
          · exact UInt32.le_of_lt hLt }

/-- At most one transition is selected. -/
theorem selected_unique (h : Accepted spec def_) {event : EventKind} {guards : GuardFrame}
    {leaf : StateId} {path : List ActiveState} (hPath : spec.IsPathTo leaf path)
    {source source' : ActiveState} {t t' : TransitionSpec}
    (hSelected : spec.IsSelected guards path event source t)
    (hSelected' : spec.IsSelected guards path event source' t') :
    source = source' ∧ t = t' := by
  have hState : source.state = source'.state := by
    apply h.falls.reaches_antisymm
    · exact hSelected.deepest source' hSelected'.active t' hSelected'.enabled
    · exact hSelected'.deepest source hSelected.active t hSelected.enabled
  obtain rfl := List.inj_on_of_nodup_map (h.path_nodup hPath) hSelected.active
    hSelected'.active hState
  have hLe := hSelected.least t' hSelected'.enabled
  have hLe' := hSelected'.least t hSelected.enabled
  refine ⟨rfl, compileTransition_injective ?_⟩
  rcases Check.pairwise_trichotomy (h.priorities (source.state, event))
    (mem_candidatesOf.mpr ⟨t, hSelected.enabled.1, rfl⟩)
    (mem_candidatesOf.mpr ⟨t', hSelected'.enabled.1, rfl⟩) with hSame | hLt | hLt
  · exact hSame
  · exact absurd hLe' (UInt32.not_le.mpr hLt)
  · exact absurd hLe (UInt32.not_le.mpr hLt)

end Accepted
end Hfsm

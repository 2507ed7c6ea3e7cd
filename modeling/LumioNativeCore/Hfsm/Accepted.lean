import LumioNativeCore.Hfsm.Semantics

/-! What compilation has checked, and how the compiled graph answers queries:
every query of an accepted definition is the corresponding reading of the flat
definition it was compiled from. -/
namespace Hfsm

/-- A successful climb has followed the whole ascent, within its fuel. -/
theorem climb_eq_some {parentOf : StateId → Option StateId} {fuel depth result : Nat}
    {cursor : Option StateId} :
    climb parentOf fuel depth cursor = some result ↔
      ∃ nodes, Forest.Ascent parentOf none cursor nodes ∧ result = depth + nodes.length ∧
        nodes.length ≤ fuel := by
  induction fuel generalizing depth cursor with
  | zero =>
      cases cursor with
      | none =>
          simp only [climb, Option.some.injEq]
          constructor
          · rintro rfl
            exact ⟨[], Forest.Ascent.nil, rfl, Nat.le_refl _⟩
          · rintro ⟨nodes, hAscent, rfl, hLength⟩
            rw [Nat.le_zero.mp hLength, Nat.add_zero]
      | some p =>
          simp only [climb, reduceCtorEq, false_iff]
          rintro ⟨nodes, hAscent, -, hLength⟩
          cases hAscent with
          | cons hStop hRest => simp at hLength
  | succ fuel ih =>
      cases cursor with
      | none =>
          simp only [climb, Option.some.injEq]
          constructor
          · rintro rfl
            exact ⟨[], Forest.Ascent.nil, rfl, Nat.zero_le _⟩
          · rintro ⟨nodes, hAscent, rfl, -⟩
            cases hAscent
            rfl
      | some p =>
          rw [climb, ih]
          constructor
          · rintro ⟨nodes, hAscent, rfl, hLength⟩
            refine ⟨p :: nodes, Forest.Ascent.cons (Option.some_ne_none _) hAscent, ?_, ?_⟩
            · simp [Nat.add_assoc, Nat.add_comm 1]
            · simpa using hLength
          · rintro ⟨nodes, hAscent, rfl, hLength⟩
            cases hAscent with
            | cons hStop hRest =>
                refine ⟨_, hRest, ?_, ?_⟩
                · simp [Nat.add_assoc, Nat.add_comm 1]
                · simpa using hLength

/-- Ancestors plus one, as the depth loop counts them. -/
def DefinitionSpec.depthOf (spec : DefinitionSpec) (id : StateId) : Nat :=
  (climb spec.parentOf (spec.states.length - 1) 1 (spec.parentOf id)).getD 0

/-- The transitions declared for one state and event, by priority. -/
def DefinitionSpec.candidatesOf (spec : DefinitionSpec) (key : StateId × EventKind) :
    List CompiledTransition :=
  ((spec.transitions.map compileTransition).filter fun t =>
    decide ((t.source, t.event) = key)).insertionSort CompiledDefinition.priorityLe

theorem DefinitionSpec.mem_candidatesOf {spec : DefinitionSpec} {key : StateId × EventKind}
    {t : CompiledTransition} :
    t ∈ spec.candidatesOf key ↔
      t ∈ spec.transitions.map compileTransition ∧ (t.source, t.event) = key := by
  rw [candidatesOf, List.mem_insertionSort, List.mem_filter, decide_eq_true_eq]

/-- What the first passes have checked of the state tree, and how the graph stores it. -/
structure Grounded (spec : DefinitionSpec) (def_ : CompiledDefinition) : Prop where
  idsNodup : (spec.states.map StateSpec.id).Nodup
  nonempty : spec.states ≠ []
  indexed : ∀ id, def_.contains id = (spec.findState id).isSome
  found : ∀ id, def_.state id =
    (spec.findState id).map fun s => compileState s (spec.depthOf s.id)
  states : def_.states = spec.states.map fun s => compileState s (spec.depthOf s.id)
  parentKnown : ∀ s ∈ spec.states, ∀ p, s.parent = some p → (spec.findState p).isSome
  initialKnown : ∀ s ∈ spec.states, ∀ i, s.initial = some i → (spec.findState i).isSome
  rootKnown : (spec.findState spec.initial).isSome
  rootTop : spec.parentOf spec.initial = none
  rootInitial : def_.rootInitial = spec.initial
  climbed : ∀ s ∈ spec.states,
    climb spec.parentOf (spec.states.length - 1) 1 s.parent = some (spec.depthOf s.id)
  leafless : ∀ s ∈ spec.states, s.initial = none → ∀ child ∈ spec.states,
    child.parent ≠ some s.id
  initialChild : ∀ s ∈ spec.states, ∀ i, s.initial = some i → spec.parentOf i = some s.id

/-- The checks a definition has passed, and the tables built from it. -/
structure Accepted (spec : DefinitionSpec) (def_ : CompiledDefinition) : Prop
    extends Grounded spec def_ where
  version : spec.formatVersion = formatVersion
  sourceKnown : ∀ t ∈ spec.transitions, (spec.findState t.source).isSome
  targetKnown : ∀ t ∈ spec.transitions, ∀ target, t.kind.target = some target →
    (spec.findState target).isSome
  depth : ∀ s ∈ spec.states, spec.depthOf s.id ≤ def_.maxDepth
  depthReached : ∃ s ∈ spec.states, spec.depthOf s.id = def_.maxDepth
  maxDepth : def_.maxDepth ≤ def_.limits.maxDepth
  transitionIds : (spec.transitions.map TransitionSpec.id).Nodup
  transition : ∀ id, def_.transition id =
    (spec.transitions.find? fun t => decide (t.id = id)).map compileTransition
  localBelow : ∀ t ∈ spec.transitions, ∀ target, t.kind = .local target →
    def_.isStrictDescendant target t.source = true
  candidates : ∀ state event, def_.candidatesOf state event =
    (spec.candidatesOf (state, event)).map CompiledTransition.id
  priorities : ∀ key, (spec.candidatesOf key).Pairwise fun t u => t.priority < u.priority
  events : ∀ event, def_.hasEvent event = true ↔ ∃ t ∈ spec.transitions, t.event = event
  requiredGuards : ∀ leaf event, def_.requiredGuardsOf leaf event =
    if def_.isLeaf leaf = some true ∧ def_.hasEvent event = true then
      def_.guardsAlong leaf event
    else []
  fingerprint : def_.fingerprint = computeFingerprint spec

/-- Only the states, their index and the root initial matter to the tree. -/
theorem Grounded.of_same {spec : DefinitionSpec} {c d : CompiledDefinition}
    (h : Grounded spec c) (hIndex : d.index = c.index) (hStates : d.states = c.states)
    (hRoot : d.rootInitial = c.rootInitial) : Grounded spec d :=
  { h with
    indexed := by
      intro id
      rw [CompiledDefinition.contains, hIndex]
      exact h.indexed id
    found := by
      intro id
      rw [CompiledDefinition.state, hIndex, hStates]
      exact h.found id
    states := hStates.trans h.states
    rootInitial := hRoot.trans h.rootInitial }

/-! What each pass has checked. -/

section Passes

variable {spec : DefinitionSpec} {limits : HfsmLimits} {index : List (StateId × Nat)}

theorem stateIn_eq (hIndex : indexStates spec.states = .ok index) (id : StateId) :
    stateIn spec.states index id = spec.findState id :=
  Check.index_find hIndex id

theorem lookup_isSome (hIndex : indexStates spec.states = .ok index) (id : StateId) :
    (index.lookup id).isSome = (spec.findState id).isSome :=
  Check.index_isSome hIndex id

theorem unknownReference_eq_none {referenced : List (Option StateId)} :
    unknownReference index referenced = none ↔
      ∀ id, some id ∈ referenced → (index.lookup id).isSome := by
  rw [unknownReference, List.find?_eq_none]
  simp only [List.mem_filterMap, id_eq, exists_eq_right, Bool.not_eq_true,
    Option.isNone_eq_false_iff]

/-- `findState` finds every declared state under its id. -/
theorem findState_of_mem (hNodup : (spec.states.map StateSpec.id).Nodup) {s : StateSpec}
    (h : s ∈ spec.states) : spec.findState s.id = some s :=
  Check.find_of_nodup hNodup h

theorem mem_of_findState {id : StateId} {s : StateSpec} (h : spec.findState id = some s) :
    s ∈ spec.states ∧ s.id = id :=
  ⟨List.mem_of_find?_eq_some h, by simpa using List.find?_some h⟩

theorem checkReferences_eq_ok (hIndex : indexStates spec.states = .ok index) :
    checkReferences spec index = .ok () ↔
      (∀ s ∈ spec.states, ∀ id, some id ∈ [s.parent, s.initial] → (spec.findState id).isSome) ∧
      (∃ s, spec.findState spec.initial = some s ∧ s.parent = none) ∧
      ∀ t ∈ spec.transitions, ∀ id, some id ∈ [some t.source, t.kind.target] →
        (spec.findState id).isSome := by
  have hState : ∀ s, checkStateReferences index s = .ok () ↔
      ∀ id, some id ∈ [s.parent, s.initial] → (spec.findState id).isSome := by
    intro s
    simp only [← lookup_isSome hIndex, ← unknownReference_eq_none]
    rw [checkStateReferences]
    cases unknownReference index [s.parent, s.initial] <;> simp
  have hTransition : ∀ t, checkTransitionReferences index t = .ok () ↔
      ∀ id, some id ∈ [some t.source, t.kind.target] → (spec.findState id).isSome := by
    intro t
    simp only [← lookup_isSome hIndex, ← unknownReference_eq_none]
    rw [checkTransitionReferences]
    cases unknownReference index [some t.source, t.kind.target] <;> simp
  have hRoot : checkRootInitial spec index = .ok () ↔
      ∃ s, spec.findState spec.initial = some s ∧ s.parent = none := by
    rw [checkRootInitial, stateIn_eq hIndex]
    cases spec.findState spec.initial with
    | none => simp
    | some s => cases hParent : s.parent <;> simp [hParent]
  simp only [checkReferences, Check.then_eq_ok, Check.each_eq_ok, hState, hTransition, hRoot]

theorem computeDepth_eq_ok (hIndex : indexStates spec.states = .ok index)
    (hNodup : (spec.states.map StateSpec.id).Nodup) {s : StateSpec} (hs : s ∈ spec.states)
    {depth : Nat} :
    computeDepth spec.states index limits s = .ok depth ↔
      climb spec.parentOf (spec.states.length - 1) 1 s.parent = some (spec.depthOf s.id) ∧
        depth = spec.depthOf s.id ∧ depth ≤ limits.maxDepth := by
  have hParent : (fun p => (stateIn spec.states index p).bind StateSpec.parent) =
      spec.parentOf := by
    funext p
    rw [stateIn_eq hIndex]
    rfl
  have hSelf : spec.parentOf s.id = s.parent := by
    rw [DefinitionSpec.parentOf, findState_of_mem hNodup hs]
    rfl
  rw [computeDepth, hParent, DefinitionSpec.depthOf, hSelf]
  cases hClimb : climb spec.parentOf (spec.states.length - 1) 1 s.parent with
  | none => simp
  | some found =>
      simp only [Option.getD_some, true_and]
      split_ifs with hMax
      · simp only [false_iff, not_and]
        omega
      · rw [Except.ok.injEq, eq_comm]
        constructor
        · rintro rfl
          exact ⟨rfl, Nat.le_of_not_lt hMax⟩
        · exact And.left

theorem computeDepths_eq_ok (hIndex : indexStates spec.states = .ok index)
    (hNodup : (spec.states.map StateSpec.id).Nodup) {depths : List Nat}
    (h : computeDepths spec.states index limits = .ok depths) :
    depths = spec.states.map (fun s => spec.depthOf s.id) ∧ ∀ s ∈ spec.states,
      climb spec.parentOf (spec.states.length - 1) 1 s.parent = some (spec.depthOf s.id) ∧
        spec.depthOf s.id ≤ limits.maxDepth := by
  rw [computeDepths] at h
  constructor
  · apply Check.collect_eq_map _ h
    intro s hs depth hCompute
    exact ((computeDepth_eq_ok hIndex hNodup hs).mp hCompute).2.1
  · intro s hs
    obtain ⟨depth, -, hCompute⟩ := Check.collect_mem h hs
    obtain ⟨hClimb, rfl, hMax⟩ := (computeDepth_eq_ok hIndex hNodup hs).mp hCompute
    exact ⟨hClimb, hMax⟩

theorem hasChildren_iff (hIndex : indexStates spec.states = .ok index) {s : StateSpec}
    {position : Nat} (hAt : spec.states[position]? = some s) :
    hasChildren spec.states index position = true ↔
      ∃ child ∈ spec.states, child.parent = some s.id := by
  rw [hasChildren, List.any_eq_true]
  apply exists_congr
  intro child
  apply and_congr_right
  intro _
  cases child.parent with
  | none => simp
  | some p =>
      rw [beq_iff_eq, Check.index_at hIndex hAt, Option.some.injEq]
      exact eq_comm

theorem checkInitials_eq_ok (hIndex : indexStates spec.states = .ok index) :
    checkInitials spec.states index = .ok () ↔ ∀ s ∈ spec.states,
      (s.initial = none → ∀ child ∈ spec.states, child.parent ≠ some s.id) ∧
      ∀ i, s.initial = some i →
        spec.parentOf i = some s.id ∧ ∃ child ∈ spec.states, child.parent = some s.id := by
  have hCheck : ∀ s position, spec.states[position]? = some s →
      (checkInitial spec.states index (s, position) = .ok () ↔
        (s.initial = none → ∀ child ∈ spec.states, child.parent ≠ some s.id) ∧
        ∀ i, s.initial = some i →
          spec.parentOf i = some s.id ∧ ∃ child ∈ spec.states, child.parent = some s.id) := by
    intro s position hAt
    have hChildren := hasChildren_iff hIndex hAt
    rw [checkInitial]
    cases hHas : hasChildren spec.states index position with
    | true =>
        have hChild := hChildren.mp hHas
        cases s.initial with
        | none => simpa using hChild
        | some i => simp [stateIn_eq hIndex, DefinitionSpec.parentOf, hChild]
    | false =>
        have hChild : ¬∃ child ∈ spec.states, child.parent = some s.id := by
          rw [← hChildren, hHas]
          exact Bool.false_ne_true
        cases s.initial with
        | none => simpa using hChild
        | some i => simp [hChild]
  rw [checkInitials, Check.each_eq_ok]
  constructor
  · intro h s hs
    obtain ⟨position, hPosition, hAt⟩ := List.getElem_of_mem hs
    have hSome : spec.states[position]? = some s := List.getElem?_eq_some_iff.mpr ⟨hPosition, hAt⟩
    exact (hCheck s position hSome).mp
      (h (s, position) (List.mk_mem_zipIdx_iff_getElem?.mpr hSome))
  · rintro h ⟨s, position⟩ hMem
    have hSome := List.mk_mem_zipIdx_iff_getElem?.mp hMem
    exact (hCheck s position hSome).mpr (h s (List.mem_of_getElem? hSome))

theorem checkLocalTarget_eq_ok {def_ : CompiledDefinition} {t : CompiledTransition} :
    def_.checkLocalTarget t = .ok () ↔
      ∀ target, t.kind = .local target → def_.isStrictDescendant target t.source = true := by
  rw [CompiledDefinition.checkLocalTarget]
  cases t.kind with
  | internal => simp
  | «local» target => simp
  | external target => simp

theorem indexTransitions_eq_ok {transitions : List CompiledTransition}
    {transitionIndex : List (TransitionId × Nat)}
    (h : indexTransitions spec.transitions = .ok (transitions, transitionIndex)) :
    transitions = spec.transitions.map compileTransition ∧
      (spec.transitions.map TransitionSpec.id).Nodup ∧
      ∀ id, (transitionIndex.lookup id).bind (transitions[·]?) =
        (spec.transitions.find? fun t => decide (t.id = id)).map compileTransition := by
  simp only [indexTransitions, Check.bind_eq_ok] at h
  obtain ⟨found, hIndex, hResult⟩ := h
  obtain ⟨rfl, rfl⟩ := Prod.mk.inj (Except.ok.inj hResult)
  refine ⟨rfl, (Check.index_eq_ok hIndex).1, fun id => ?_⟩
  rw [← Check.index_find hIndex id]
  cases found.lookup id with
  | none => rfl
  | some position => simp

section Candidates

variable {def_ : CompiledDefinition}

/-- Neighbours of different priority in a list sorted by priority: strictly sorted. -/
theorem checkPriorities_eq_ok {group : List CompiledTransition}
    (hSorted : group.Pairwise CompiledDefinition.priorityLe) :
    CompiledDefinition.checkPriorities group = .ok () ↔
      group.Pairwise fun t u => t.priority < u.priority := by
  induction group with
  | nil => simp [CompiledDefinition.checkPriorities]
  | cons a rest ih =>
      have hRest := ih hSorted.of_cons
      cases rest with
      | nil => simp [CompiledDefinition.checkPriorities]
      | cons b rest =>
          have hLe : a.priority ≤ b.priority := List.rel_of_pairwise_cons hSorted (by simp)
          rw [CompiledDefinition.checkPriorities]
          split_ifs with hSame
          · simp [hSame]
          · have hLt : a.priority < b.priority := UInt32.lt_of_le_of_ne hLe hSame
            rw [hRest, List.pairwise_cons (a := a)]
            refine ⟨fun h => ⟨fun c hc => ?_, h⟩, And.right⟩
            rcases List.mem_cons.mp hc with rfl | hc
            · exact hLt
            · exact UInt32.lt_trans hLt (List.rel_of_pairwise_cons h hc)

instance : IsTrans CompiledTransition CompiledDefinition.priorityLe :=
  ⟨fun _ _ _ => UInt32.le_trans⟩

instance : Std.Total CompiledDefinition.priorityLe := ⟨fun _ _ => UInt32.le_total _ _⟩

theorem group_sorted (key : StateId × EventKind) :
    (def_.group key).Pairwise CompiledDefinition.priorityLe := List.pairwise_insertionSort _ _

theorem mem_groupKeys {key : StateId × EventKind} :
    key ∈ def_.groupKeys ↔ ∃ t ∈ def_.transitions, (t.source, t.event) = key := by
  simp [CompiledDefinition.groupKeys]

theorem buildCandidates_eq_ok {result : CompiledDefinition}
    (h : def_.buildCandidates = .ok result) :
    result = { def_ with candidates := result.candidates, events := result.events } ∧
      (∀ state event, result.candidatesOf state event =
        (def_.group (state, event)).map CompiledTransition.id) ∧
      (∀ key, (def_.group key).Pairwise fun t u => t.priority < u.priority) ∧
      ∀ event, event ∈ result.events ↔ ∃ t ∈ def_.transitions, t.event = event := by
  simp only [CompiledDefinition.buildCandidates, Check.bind_eq_ok, Except.ok.injEq] at h
  obtain ⟨table, hTable, rfl⟩ := h
  have hGroup : ∀ key entry, def_.buildGroup key = .ok entry →
      ((def_.group key).Pairwise fun t u => t.priority < u.priority) ∧
        entry = (key, (def_.group key).map CompiledTransition.id) := by
    intro key entry hBuild
    simp only [CompiledDefinition.buildGroup, Check.then_eq_ok, Except.ok.injEq] at hBuild
    exact ⟨(checkPriorities_eq_ok (group_sorted key)).mp hBuild.1, hBuild.2.2.symm⟩
  have hKeys : table = def_.groupKeys.map
      fun key => (key, (def_.group key).map CompiledTransition.id) :=
    Check.collect_eq_map (fun key _ entry h => (hGroup key entry h).2) hTable
  have hEmpty : ∀ key, key ∉ def_.groupKeys → def_.group key = [] := by
    intro key hKey
    have hFilter : (def_.transitions.filter fun t => decide ((t.source, t.event) = key)) = [] := by
      rw [List.filter_eq_nil_iff]
      intro t ht hSame
      exact hKey (mem_groupKeys.mpr ⟨t, ht, of_decide_eq_true hSame⟩)
    rw [CompiledDefinition.group, hFilter]
    rfl
  refine ⟨rfl, fun state event => ?_, fun key => ?_, fun event => ?_⟩
  · have hGraph : ∀ entry ∈ table,
        entry.2 = (def_.group entry.1).map CompiledTransition.id := by
      intro entry hEntry
      rw [hKeys] at hEntry
      obtain ⟨key, -, rfl⟩ := List.mem_map.mp hEntry
      rfl
    have hLookup := Check.lookup_of_graph
      (f := fun key => (def_.group key).map CompiledTransition.id) hGraph (state, event)
    rw [CompiledDefinition.candidatesOf]
    by_cases hKey : (state, event) ∈ table.map Prod.fst
    · simp [hLookup.1 hKey]
    · rw [hEmpty (state, event) (by simpa [hKeys] using hKey)]
      simp [hLookup.2 hKey]
  · by_cases hKey : key ∈ def_.groupKeys
    · obtain ⟨entry, -, hBuild⟩ := Check.collect_mem hTable hKey
      exact (hGroup key entry hBuild).1
    · rw [hEmpty key hKey]
      exact List.Pairwise.nil
  · simp [hKeys, CompiledDefinition.groupKeys]

theorem requiredGuardsOf_buildRequiredGuards (leaf : StateId) (event : EventKind) :
    def_.buildRequiredGuards.requiredGuardsOf leaf event =
      if (∃ s ∈ def_.states, s.initial = none ∧ s.id = leaf) ∧ event ∈ def_.events then
        def_.guardsAlong leaf event
      else [] := by
  have hGraph : ∀ entry ∈ def_.buildRequiredGuards.requiredGuards,
      entry.2 = def_.guardsAlong entry.1.1 entry.1.2 := by
    simp only [CompiledDefinition.buildRequiredGuards, List.mem_flatMap, List.mem_filterMap]
    rintro entry ⟨leaf', -, event', -, hEntry⟩
    split_ifs at hEntry
    obtain rfl := Option.some.inj hEntry
    rfl
  have hKeys : (leaf, event) ∈ def_.buildRequiredGuards.requiredGuards.map Prod.fst ↔
      ((∃ s ∈ def_.states, s.initial = none ∧ s.id = leaf) ∧ event ∈ def_.events) ∧
        def_.guardsAlong leaf event ≠ [] := by
    simp only [CompiledDefinition.buildRequiredGuards, List.mem_map, List.mem_flatMap,
      List.mem_filterMap, List.mem_filter, Option.isNone_iff_eq_none]
    constructor
    · rintro ⟨entry, ⟨leaf', ⟨s, ⟨hs, hLeaf⟩, hId⟩, event', hEvent, hEntry⟩, hKey⟩
      split_ifs at hEntry with hEmpty
      obtain rfl := Option.some.inj hEntry
      obtain ⟨rfl, rfl⟩ := Prod.mk.inj hKey
      exact ⟨⟨⟨s, hs, hLeaf, hId⟩, hEvent⟩, by simpa using hEmpty⟩
    · rintro ⟨⟨⟨s, hs, hLeaf, hId⟩, hEvent⟩, hEmpty⟩
      exact ⟨_, ⟨leaf, ⟨s, ⟨hs, hLeaf⟩, hId⟩, event, hEvent, if_neg (by simpa using hEmpty)⟩, rfl⟩
  have hLookup := Check.lookup_of_graph
    (f := fun key => def_.guardsAlong key.1 key.2) hGraph (leaf, event)
  rw [CompiledDefinition.requiredGuardsOf]
  by_cases hKey : (leaf, event) ∈ def_.buildRequiredGuards.requiredGuards.map Prod.fst
  · rw [hLookup.1 hKey, if_pos (hKeys.mp hKey).1]
    rfl
  · rw [hLookup.2 hKey]
    split_ifs with hFound
    · have hEmpty : def_.guardsAlong leaf event = [] := by
        by_contra hne
        exact hKey (hKeys.mpr ⟨hFound, hne⟩)
      exact hEmpty.symm
    · rfl

end Candidates
theorem skeleton_state (limits : HfsmLimits) {depths : List Nat}
    (transitions : List CompiledTransition) (transitionIndex : List (TransitionId × Nat))
    (hIndex : indexStates spec.states = .ok index)
    (hDepths : depths = spec.states.map fun s => spec.depthOf s.id) (id : StateId) :
    (skeleton spec limits index depths transitions transitionIndex).states =
        spec.states.map (fun s => compileState s (spec.depthOf s.id)) ∧
      (skeleton spec limits index depths transitions transitionIndex).state id =
        (spec.findState id).map fun s => compileState s (spec.depthOf s.id) := by
  have hStates : (skeleton spec limits index depths transitions transitionIndex).states =
      spec.states.map fun s => compileState s (spec.depthOf s.id) := by
    change List.zipWith compileState spec.states depths = _
    rw [hDepths, List.zipWith_map_right, List.zipWith_self]
  refine ⟨hStates, ?_⟩
  rw [CompiledDefinition.state, hStates, ← stateIn_eq hIndex id, stateIn]
  change (index.lookup id).bind _ = _
  cases index.lookup id with
  | none => rfl
  | some position => simp

/-- The checks of the tree are those in front of the transitions. -/
theorem skeleton_grounded {depths : List Nat} (transitions : List CompiledTransition)
    (transitionIndex : List (TransitionId × Nat)) (hNonempty : spec.states ≠ [])
    (hIndex : indexStates spec.states = .ok index)
    (hReferences : checkReferences spec index = .ok ())
    (hDepths : computeDepths spec.states index limits = .ok depths)
    (hInitials : checkInitials spec.states index = .ok ()) :
    Grounded spec (skeleton spec limits index depths transitions transitionIndex) := by
  have hNodup : (spec.states.map StateSpec.id).Nodup := (Check.index_eq_ok hIndex).1
  obtain ⟨hDepthsEq, hClimbs⟩ := computeDepths_eq_ok hIndex hNodup hDepths
  obtain ⟨hStateRefs, ⟨root, hRoot, hRootParent⟩, -⟩ :=
    (checkReferences_eq_ok hIndex).mp hReferences
  have hInitial := (checkInitials_eq_ok hIndex).mp hInitials
  have hState := skeleton_state limits transitions transitionIndex hIndex hDepthsEq
  exact
    { idsNodup := hNodup
      nonempty := hNonempty
      indexed := lookup_isSome hIndex
      found := fun id => (hState id).2
      states := (hState spec.initial).1
      parentKnown := fun s hs p hp => hStateRefs s hs p (by simp [hp])
      initialKnown := fun s hs i hi => hStateRefs s hs i (by simp [hi])
      rootKnown := by simp [hRoot]
      rootTop := by simp [DefinitionSpec.parentOf, hRoot, hRootParent]
      rootInitial := rfl
      climbed := fun s hs => (hClimbs s hs).1
      leafless := fun s hs => (hInitial s hs).1
      initialChild := fun s hs i hi => ((hInitial s hs).2 i hi).1 }

end Passes

theorem le_foldl_max (list : List Nat) (start : Nat) :
    start ≤ list.foldl max start ∧ ∀ n ∈ list, n ≤ list.foldl max start := by
  induction list generalizing start with
  | nil => simp
  | cons n rest ih =>
      rw [List.foldl_cons, List.forall_mem_cons]
      have := ih (max start n)
      exact ⟨by omega, by omega, this.2⟩

theorem foldl_max_mem (list : List Nat) (start : Nat) :
    list.foldl max start = start ∨ list.foldl max start ∈ list := by
  induction list generalizing start with
  | nil => exact Or.inl rfl
  | cons n rest ih =>
      rw [List.foldl_cons, List.mem_cons]
      cases ih (max start n) with
      | inl hStart => omega
      | inr hMem => exact Or.inr (Or.inr hMem)

theorem foldl_max_le {list : List Nat} {start bound : Nat} (hStart : start ≤ bound)
    (h : ∀ n ∈ list, n ≤ bound) : list.foldl max start ≤ bound := by
  induction list generalizing start with
  | nil => exact hStart
  | cons n rest ih =>
      rw [List.forall_mem_cons] at h
      exact ih (Nat.max_le.mpr ⟨hStart, h.1⟩) h.2

/-- Compilation accepts only definitions that have passed every check, and
builds its tables from them. -/
theorem accepted {spec : DefinitionSpec} {limits : HfsmLimits} {def_ : CompiledDefinition}
    (h : compile spec limits = .ok def_) : Accepted spec def_ := by
  simp only [compile, Check.unless_eq_ok, Check.bind_eq_ok] at h
  obtain ⟨-, hVersion, hNonempty, index, hIndex, -, -, ⟨⟩, hReferences, depths, hDepths, ⟨⟩, hInitials,
    ⟨transitions, transitionIndex⟩, hTransitions, ⟨⟩, hLocal, table, hTable, plan, hPlan,
    hResult⟩ := h
  have hSkeleton := skeleton_grounded transitions transitionIndex (by simpa using hNonempty)
    hIndex hReferences hDepths hInitials
  obtain ⟨hTableEq, hCandidates, hPriorities, hEvents⟩ := buildCandidates_eq_ok hTable
  obtain ⟨rfl, hTransitionIds, hTransitionIndex⟩ := indexTransitions_eq_ok hTransitions
  obtain ⟨hDepthsEq, hClimbs⟩ := computeDepths_eq_ok hIndex hSkeleton.idsNodup hDepths
  obtain ⟨-, -, hTransitionRefs⟩ := (checkReferences_eq_ok hIndex).mp hReferences
  obtain rfl := Except.ok.inj hResult
  have hGround : Grounded spec table := by
    rw [hTableEq]
    exact hSkeleton.of_same rfl rfl rfl
  have hTableEvents : ∀ event, event ∈ table.events ↔
      ∃ t ∈ spec.transitions, t.event = event := by
    intro event
    rw [hEvents event]
    change (∃ t ∈ spec.transitions.map compileTransition, t.event = event) ↔ _
    simp [compileTransition]
  have hLeaf : ∀ leaf, (∃ s ∈ table.states, s.initial = none ∧ s.id = leaf) ↔
      table.isLeaf leaf = some true := by
    intro leaf
    rw [hGround.states, CompiledDefinition.isLeaf, hGround.found]
    constructor
    · rintro ⟨_, hMem, hInitial, rfl⟩
      obtain ⟨s, hs, rfl⟩ := List.mem_map.mp hMem
      change ((spec.findState s.id).map _).map _ = _
      rw [findState_of_mem hSkeleton.idsNodup hs]
      simp [hInitial]
    · intro hIsLeaf
      cases hFind : spec.findState leaf with
      | none => simp [hFind] at hIsLeaf
      | some s =>
          obtain ⟨hs, rfl⟩ := mem_of_findState hFind
          exact ⟨_, List.mem_map_of_mem hs, by simpa [hFind] using hIsLeaf, rfl⟩
  have hMax : ∀ s ∈ spec.states, spec.depthOf s.id ≤ depths.foldl max 0 := by
    intro s hs
    rw [hDepthsEq]
    exact (le_foldl_max _ 0).2 _ (List.mem_map_of_mem hs)
  have hReached : ∃ s ∈ spec.states, spec.depthOf s.id = depths.foldl max 0 := by
    obtain ⟨s, hs⟩ := List.exists_mem_of_ne_nil _ hSkeleton.nonempty
    cases foldl_max_mem depths 0 with
    | inl hZero =>
        have hLe := hMax s hs
        exact ⟨s, hs, by omega⟩
    | inr hMem =>
        nth_rewrite 1 [hDepthsEq] at hMem
        exact List.mem_map.mp hMem
  have hMaxLimit : depths.foldl max 0 ≤ limits.maxDepth := by
    apply foldl_max_le (Nat.zero_le _)
    intro depth hDepth
    rw [hDepthsEq] at hDepth
    obtain ⟨s, hs, rfl⟩ := List.mem_map.mp hDepth
    exact (hClimbs s hs).2
  exact
    { toGrounded := hGround.of_same rfl rfl rfl
      version := not_not.mp hVersion
      sourceKnown := fun t ht => hTransitionRefs t ht t.source (by simp)
      targetKnown := fun t ht target hTarget => hTransitionRefs t ht target (by simp [hTarget])
      depth := by
        change ∀ s ∈ spec.states, spec.depthOf s.id ≤ table.maxDepth
        rw [hTableEq]
        exact hMax
      depthReached := by
        change ∃ s ∈ spec.states, spec.depthOf s.id = table.maxDepth
        rw [hTableEq]
        exact hReached
      maxDepth := by
        change table.maxDepth ≤ table.limits.maxDepth
        rw [hTableEq]
        exact hMaxLimit
      transitionIds := hTransitionIds
      transition := by
        change ∀ id, table.transition id = _
        rw [hTableEq]
        exact hTransitionIndex
      localBelow := by
        intro t ht target hKind
        change table.isStrictDescendant target t.source = true
        rw [hTableEq]
        have := Check.each_eq_ok.mp hLocal (compileTransition t) (List.mem_map_of_mem ht)
        exact checkLocalTarget_eq_ok.mp this target hKind
      candidates := hCandidates
      priorities := hPriorities
      events := by
        intro event
        rw [← hTableEvents event]
        exact List.contains_iff_mem
      requiredGuards := by
        intro leaf event
        refine (requiredGuardsOf_buildRequiredGuards leaf event).trans ?_
        apply if_congr _ rfl rfl
        apply and_congr
        · exact hLeaf leaf
        · exact List.contains_iff_mem.symm
      fingerprint := by dsimp only }

end Hfsm

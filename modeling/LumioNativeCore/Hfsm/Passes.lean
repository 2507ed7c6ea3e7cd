import LumioNativeCore.Hfsm.Graph

/-! What `compile` accepts, pass by pass. Every pass but the last is a condition on the
flat definition alone; the last one bounds the plans of the graph drafted so far. -/
namespace Hfsm

/-- The conditions checked before the plans are bounded. -/
structure Checked (spec : DefinitionSpec) (limits : HfsmLimits) : Prop where
  valid : limits.isValid = true
  version : spec.formatVersion = formatVersion
  nonempty : spec.states ≠ []
  stateIds : (spec.states.map StateSpec.id).Nodup
  stateCount : Word.asU32 spec.states.length ≤ limits.maxStates
  transitionCount : Word.asU32 spec.transitions.length ≤ limits.maxTransitions
  stateReferences : ∀ s ∈ spec.states, ∀ id, some id ∈ [s.parent, s.initial] →
    (spec.findState id).isSome
  root : ∃ s, spec.findState spec.initial = some s ∧ s.parent = none
  transitionReferences : ∀ t ∈ spec.transitions, ∀ id, some id ∈ [some t.source, t.kind.target] →
    (spec.findState id).isSome
  depths : ∀ s ∈ spec.states,
    climb spec.parentOf (spec.states.length - 1) 1 s.parent = some (spec.depthOf s.id) ∧
      spec.depthOf s.id ≤ limits.maxDepth
  initials : ∀ s ∈ spec.states,
    (s.initial = none → ∀ child ∈ spec.states, child.parent ≠ some s.id) ∧
    ∀ i, s.initial = some i →
      spec.parentOf i = some s.id ∧ ∃ child ∈ spec.states, child.parent = some s.id
  transitionIds : (spec.transitions.map TransitionSpec.id).Nodup
  localBelow : ∀ t ∈ spec.transitions, ∀ target, t.kind = .local target →
    Forest.Above spec.parentOf target t.source
  groups : ∀ key, (spec.candidatesOf key).Pairwise (fun t u => t.priority < u.priority) ∧
    CompiledDefinition.checkShadowing none (spec.candidatesOf key) = .ok ()

/-- `draft` is the graph of `spec` with its tables, before its plans are bounded. -/
def Drafted (spec : DefinitionSpec) (limits : HfsmLimits) (draft : CompiledDefinition) : Prop :=
  ∃ index depths transitions transitionIndex table,
    indexStates spec.states = .ok index ∧
    computeDepths spec.states index limits = .ok depths ∧
    indexTransitions spec.transitions = .ok (transitions, transitionIndex) ∧
    (skeleton spec limits index depths transitions transitionIndex).buildCandidates = .ok table ∧
    draft = table.buildRequiredGuards

section Groups

variable {def_ : CompiledDefinition}

theorem groups_pass (key : StateId × EventKind) (hKey : key ∉ def_.groupKeys) :
    def_.group key = [] := by
  have hFilter : (def_.transitions.filter fun t => decide ((t.source, t.event) = key)) = [] := by
    rw [List.filter_eq_nil_iff]
    intro t ht hSame
    exact hKey (mem_groupKeys.mpr ⟨t, ht, of_decide_eq_true hSame⟩)
  rw [CompiledDefinition.group, hFilter]
  rfl

theorem buildCandidates_isOk :
    (∃ table, def_.buildCandidates = .ok table) ↔
      ∀ key, (def_.group key).Pairwise (fun t u => t.priority < u.priority) ∧
        CompiledDefinition.checkShadowing none (def_.group key) = .ok () := by
  have hBuild : (∃ table, def_.buildCandidates = .ok table) ↔
      ∀ key ∈ def_.groupKeys, ∃ entry, def_.buildGroup key = .ok entry := by
    rw [← Check.collect_isOk]
    simp only [CompiledDefinition.buildCandidates, Check.bind_eq_ok, Except.ok.injEq]
    constructor
    · rintro ⟨table, candidates, hCandidates, -⟩
      exact ⟨candidates, hCandidates⟩
    · rintro ⟨candidates, hCandidates⟩
      exact ⟨_, candidates, hCandidates, rfl⟩
  have hGroup : ∀ key, (∃ entry, def_.buildGroup key = .ok entry) ↔
      (def_.group key).Pairwise (fun t u => t.priority < u.priority) ∧
        CompiledDefinition.checkShadowing none (def_.group key) = .ok () := by
    intro key
    simp only [CompiledDefinition.buildGroup, Check.then_eq_ok, Except.ok.injEq,
      exists_and_left, exists_eq', and_true, checkPriorities_eq_ok (group_sorted key)]
  rw [hBuild]
  constructor
  · intro hKeys key
    by_cases hKey : key ∈ def_.groupKeys
    · exact (hGroup key).mp (hKeys key hKey)
    · rw [groups_pass key hKey]
      exact ⟨List.Pairwise.nil, rfl⟩
  · intro hAll key _
    exact (hGroup key).mpr (hAll key)

end Groups

/-! The last pass. -/

section Plans

variable {def_ : CompiledDefinition}

/-- `start` and `stop` of `compute_max_plan_actions`. -/
def CompiledDefinition.startActions (def_ : CompiledDefinition) : Nat :=
  add32 (Word.asU32 (def_.entryActions def_.rootInitial).length)
    (def_.initialChainActions def_.rootInitial)

def CompiledDefinition.stopActions (def_ : CompiledDefinition) : Nat :=
  def_.states.foldl (fun stop s =>
    if s.parent.isNone then
      max stop (add32 (Word.asU32 s.exit.length) (def_.maxExitBelow def_.states.length s.id))
    else stop) 0

/-- The bound is found exactly when none of the counts exceeds the limit. -/
theorem computeMaxPlanActions_eq_ok {count : Nat} :
    def_.computeMaxPlanActions = .ok count ↔
      def_.startActions ≤ def_.limits.maxActionsPerPlan ∧
      def_.stopActions ≤ def_.limits.maxActionsPerPlan ∧
      (∀ t ∈ def_.transitions, def_.worstCaseActions t ≤ def_.limits.maxActionsPerPlan) ∧
      count = (def_.transitions.map def_.worstCaseActions).foldl max
        (max def_.startActions def_.stopActions) := by
  simp only [CompiledDefinition.computeMaxPlanActions, Check.unless_eq_ok, Check.bind_eq_ok,
    Except.ok.injEq, gt_iff_lt, Nat.not_lt, Check.collect_unless]
  constructor
  · rintro ⟨hStart, hStop, _, ⟨hTransitions, rfl⟩, rfl⟩
    exact ⟨hStart, hStop, hTransitions, rfl⟩
  · rintro ⟨hStart, hStop, hTransitions, rfl⟩
    exact ⟨hStart, hStop, _, ⟨hTransitions, rfl⟩, rfl⟩

end Plans

section Passes

variable {spec : DefinitionSpec} {limits : HfsmLimits} {index : List (StateId × Nat)}

theorem computeDepths_isOk (hIndex : indexStates spec.states = .ok index)
    (hNodup : (spec.states.map StateSpec.id).Nodup) :
    (∃ depths, computeDepths spec.states index limits = .ok depths) ↔ ∀ s ∈ spec.states,
      climb spec.parentOf (spec.states.length - 1) 1 s.parent = some (spec.depthOf s.id) ∧
        spec.depthOf s.id ≤ limits.maxDepth := by
  rw [computeDepths, Check.collect_isOk]
  apply forall₂_congr
  intro s hs
  simp only [computeDepth_eq_ok hIndex hNodup hs]
  constructor
  · rintro ⟨depth, hClimb, rfl, hMax⟩
    exact ⟨hClimb, hMax⟩
  · rintro ⟨hClimb, hMax⟩
    exact ⟨_, hClimb, rfl, hMax⟩

theorem indexTransitions_isOk :
    (∃ transitions transitionIndex,
        indexTransitions spec.transitions = .ok (transitions, transitionIndex)) ↔
      (spec.transitions.map TransitionSpec.id).Nodup := by
  constructor
  · rintro ⟨transitions, transitionIndex, h⟩
    exact (indexTransitions_eq_ok h).2.1
  · intro hNodup
    have hIndex : ∃ found, Check.index TransitionSpec.id
        (fun t => CompileError.atTransition .duplicateTransitionId t.id) spec.transitions 0 [] =
          .ok found := Check.index_of_nodup hNodup fun _ _ => rfl
    obtain ⟨found, hFound⟩ := hIndex
    refine ⟨spec.transitions.map compileTransition, found, ?_⟩
    rw [indexTransitions, hFound]
    rfl

theorem indexStates_isOk :
    (∃ index, indexStates spec.states = .ok index) ↔ (spec.states.map StateSpec.id).Nodup := by
  constructor
  · rintro ⟨index, h⟩
    exact (Check.index_eq_ok h).1
  · intro hNodup
    exact Check.index_of_nodup hNodup fun _ _ => rfl

/-- A draft has the tree of its definition, and stores its transitions as they are. -/
theorem Drafted.grounded {draft : CompiledDefinition} (hChecked : Checked spec limits)
    (h : Drafted spec limits draft) :
    Grounded spec draft ∧ draft.limits = limits ∧
      draft.transitions = spec.transitions.map compileTransition := by
  obtain ⟨index, depths, transitions, transitionIndex, table, hIndex, hDepths, hTransitions,
    hTable, rfl⟩ := h
  have hSkeleton := skeleton_grounded transitions transitionIndex hChecked.nonempty hIndex
    ((checkReferences_eq_ok hIndex).mpr
      ⟨hChecked.stateReferences, hChecked.root, hChecked.transitionReferences⟩) hDepths
    ((checkInitials_eq_ok hIndex).mpr hChecked.initials)
  have hTableEq := (buildCandidates_eq_ok hTable).1
  obtain ⟨rfl, -⟩ := indexTransitions_eq_ok hTransitions
  rw [hTableEq]
  exact ⟨hSkeleton.of_same rfl rfl rfl, rfl, rfl⟩

theorem localTargets_eq_ok {def_ : CompiledDefinition} (h : Grounded spec def_)
    (hTransitions : def_.transitions = spec.transitions.map compileTransition) :
    def_.checkLocalTargets = .ok () ↔ ∀ t ∈ spec.transitions, ∀ target,
      t.kind = .local target → Forest.Above spec.parentOf target t.source := by
  simp only [CompiledDefinition.checkLocalTargets, Check.each_eq_ok, hTransitions,
    List.forall_mem_map, checkLocalTarget_eq_ok, h.isStrictDescendant_iff]
  rfl

/-- What the passes before the last one have checked. -/
theorem checked_of_passes {depths : List Nat} {transitions : List CompiledTransition}
    {transitionIndex : List (TransitionId × Nat)} {table : CompiledDefinition}
    (hValid : limits.isValid = true) (hVersion : spec.formatVersion = formatVersion)
    (hNonempty : spec.states ≠ []) (hIndex : indexStates spec.states = .ok index)
    (hCount : Word.asU32 spec.states.length ≤ limits.maxStates)
    (hTransitionCount : Word.asU32 spec.transitions.length ≤ limits.maxTransitions)
    (hReferences : checkReferences spec index = .ok ())
    (hDepths : computeDepths spec.states index limits = .ok depths)
    (hInitials : checkInitials spec.states index = .ok ())
    (hTransitions : indexTransitions spec.transitions = .ok (transitions, transitionIndex))
    (hLocal : (skeleton spec limits index depths transitions transitionIndex).checkLocalTargets =
      .ok ())
    (hTable : (skeleton spec limits index depths transitions transitionIndex).buildCandidates =
      .ok table) : Checked spec limits := by
  have hSkeleton := skeleton_grounded transitions transitionIndex hNonempty hIndex hReferences
    hDepths hInitials
  obtain ⟨hStateRefs, hRoot, hTransitionRefs⟩ := (checkReferences_eq_ok hIndex).mp hReferences
  have hIds := (indexTransitions_eq_ok hTransitions).2.1
  have hStored := (indexTransitions_eq_ok hTransitions).1
  exact
    { valid := hValid
      version := hVersion
      nonempty := hNonempty
      stateIds := hSkeleton.idsNodup
      stateCount := hCount
      transitionCount := hTransitionCount
      stateReferences := hStateRefs
      root := hRoot
      transitionReferences := hTransitionRefs
      depths := (computeDepths_isOk hIndex hSkeleton.idsNodup).mp ⟨depths, hDepths⟩
      initials := (checkInitials_eq_ok hIndex).mp hInitials
      transitionIds := hIds
      localBelow := (localTargets_eq_ok hSkeleton hStored).mp hLocal
      groups := by
        have hGroups := buildCandidates_isOk.mp ⟨table, hTable⟩
        subst hStored
        exact hGroups }

/-- A definition is compiled exactly when it passes the checks and its draft bounds its plans. -/
theorem compile_eq_ok {def_ : CompiledDefinition} :
    compile spec limits = .ok def_ ↔ Checked spec limits ∧ ∃ draft maxPlanActions,
      Drafted spec limits draft ∧ draft.computeMaxPlanActions = .ok maxPlanActions ∧
      def_ = { draft with
        maxPlanActions := maxPlanActions
        fingerprint := computeFingerprint spec } := by
  simp only [compile, Check.unless_eq_ok, Check.bind_eq_ok]
  constructor
  · rintro ⟨hValid, hVersion, hNonempty, index, hIndex, hCount, hTransitionCount, ⟨⟩, hReferences,
      depths, hDepths, ⟨⟩, hInitials, ⟨transitions, transitionIndex⟩, hTransitions, ⟨⟩, hLocal,
      table, hTable, plan, hPlan, hResult⟩
    have hChecked := checked_of_passes (by simpa using hValid) (not_not.mp hVersion)
      (by simpa using hNonempty) hIndex (Nat.le_of_not_lt hCount)
      (Nat.le_of_not_lt hTransitionCount) hReferences hDepths hInitials hTransitions hLocal hTable
    exact ⟨hChecked, table.buildRequiredGuards, plan,
      ⟨index, depths, transitions, transitionIndex, table, hIndex, hDepths, hTransitions, hTable,
        rfl⟩, hPlan, (Except.ok.inj hResult).symm⟩
  · rintro ⟨hChecked, draft, plan, ⟨index, depths, transitions, transitionIndex, table, hIndex,
      hDepths, hTransitions, hTable, rfl⟩, hPlan, rfl⟩
    have hReferences := (checkReferences_eq_ok hIndex).mpr
      ⟨hChecked.stateReferences, hChecked.root, hChecked.transitionReferences⟩
    have hInitials := (checkInitials_eq_ok hIndex).mpr hChecked.initials
    have hSkeleton := skeleton_grounded transitions transitionIndex hChecked.nonempty hIndex
      hReferences hDepths hInitials
    have hStored := (indexTransitions_eq_ok hTransitions).1
    have hLocal := (localTargets_eq_ok hSkeleton hStored).mpr hChecked.localBelow
    exact ⟨by simp [hChecked.valid], not_not.mpr hChecked.version, by simp [hChecked.nonempty],
      index, hIndex, Nat.not_lt.mpr hChecked.stateCount, Nat.not_lt.mpr hChecked.transitionCount,
      (), hReferences, depths, hDepths, (), hInitials, (transitions, transitionIndex), hTransitions,
      (), hLocal, table, hTable, plan, hPlan, rfl⟩

theorem compile_maxDepth {def_ : CompiledDefinition} (hCompile : compile spec limits = .ok def_) :
    def_.maxDepth ≤ limits.maxDepth := by
  have hDepth := (accepted hCompile).maxDepth
  obtain ⟨hChecked, draft, _, hDraft, -, rfl⟩ := compile_eq_ok.mp hCompile
  rw [← (hDraft.grounded hChecked).2.1]
  exact hDepth

/-- Every checked definition has one draft. -/
theorem Checked.drafted (hChecked : Checked spec limits) : ∃ draft, Drafted spec limits draft := by
  obtain ⟨index, hIndex⟩ := indexStates_isOk.mpr hChecked.stateIds
  obtain ⟨depths, hDepths⟩ := (computeDepths_isOk hIndex hChecked.stateIds).mpr hChecked.depths
  obtain ⟨transitions, transitionIndex, hTransitions⟩ :=
    indexTransitions_isOk.mpr hChecked.transitionIds
  have hStored := (indexTransitions_eq_ok hTransitions).1
  have hTable : ∃ table, (skeleton spec limits index depths transitions
      transitionIndex).buildCandidates = .ok table := by
    rw [buildCandidates_isOk]
    subst hStored
    exact hChecked.groups
  obtain ⟨table, hTable⟩ := hTable
  exact ⟨_, index, depths, transitions, transitionIndex, table, hIndex, hDepths, hTransitions,
    hTable, rfl⟩

theorem Drafted.unique {draft draft' : CompiledDefinition} (h : Drafted spec limits draft)
    (h' : Drafted spec limits draft') : draft = draft' := by
  obtain ⟨index, depths, transitions, transitionIndex, table, hIndex, hDepths, hTransitions,
    hTable, rfl⟩ := h
  obtain ⟨index', depths', transitions', transitionIndex', table', hIndex', hDepths',
    hTransitions', hTable', rfl⟩ := h'
  obtain rfl := Except.ok.inj (hIndex.symm.trans hIndex')
  obtain rfl := Except.ok.inj (hDepths.symm.trans hDepths')
  obtain ⟨rfl, rfl⟩ := Prod.mk.inj (Except.ok.inj (hTransitions.symm.trans hTransitions'))
  obtain rfl := Except.ok.inj (hTable.symm.trans hTable')
  rfl

end Passes
end Hfsm

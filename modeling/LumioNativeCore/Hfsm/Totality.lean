import LumioNativeCore.Hfsm.Traversal
import LumioNativeCore.Hfsm.Conformance

/-! Compilation of a definition whose states, transitions and actions a `u32` counts: it
returns, and accepts exactly the well-formed definitions, unless the depth pass is reached and
counts too far, or the last pass is reached and the tree is deeper than the stack. -/
namespace Hfsm.Strict

/-- What `compile` checks before the depths is in order, and the depth pass counts too far. -/
structure Overcounted (spec : DefinitionSpec) (limits : HfsmLimits) : Prop where
  valid : limits.isValid = true
  version : spec.formatVersion = formatVersion
  stateIds : (spec.states.map StateSpec.id).Nodup
  stateCount : spec.states.length ≤ limits.maxStates
  references : ∀ s ∈ spec.states, ∀ id, some id ∈ [s.parent, s.initial] →
    (spec.findState id).isSome
  root : ∃ s, spec.findState spec.initial = some s ∧ s.parent = none
  counts : CountsOver spec limits

/-- What `compile` checks before it bounds the exits is in order, and the tree has more levels
than the stack has room for. -/
structure Outgrown (spec : DefinitionSpec) (limits : HfsmLimits) (stack : Nat) : Prop where
  checked : Checked spec limits
  start : ∀ entered, spec.Enters none spec.initial entered →
    (entered.flatMap spec.entryActions).length ≤ limits.maxActionsPerPlan
  deep : ∃ s ∈ spec.states, ∃ nodes, Forest.Ascent spec.parentOf none (some s.id) nodes ∧
    stack < nodes.length

section Compile

variable {spec : DefinitionSpec} {limits : HfsmLimits} {stack : Nat}

theorem transitions_of_counts (hSize : spec.size < 2 ^ 32) (hCounts : CountsOver spec limits) :
    spec.transitions = [] := by
  have hFull := hCounts.1
  rw [DefinitionSpec.size] at hSize
  apply List.length_eq_zero_iff.mp
  omega

theorem indexTransitions_places {transitions : List CompiledTransition}
    {transitionIndex : List (TransitionId × Nat)}
    (h : indexTransitions spec.transitions = .ok (transitions, transitionIndex))
    (id : TransitionId) :
    (transitionIndex.lookup id).isSome =
      ((transitionIndex.lookup id).bind (transitions[·]?)).isSome := by
  rw [(indexTransitions_eq_ok h).2.2 id, Option.isSome_map]
  simp only [indexTransitions, Check.bind_eq_ok] at h
  obtain ⟨found, hIndex, hResult⟩ := h
  obtain ⟨rfl, rfl⟩ := Prod.mk.inj (Except.ok.inj hResult)
  exact Check.index_isSome hIndex id

/-- The table of candidates stands on the same tree, and every walk of the guard pass through it
finds its transitions. -/
theorem table_grounded {def_ table : CompiledDefinition} (hGround : Grounded spec def_)
    (hTransitions : indexTransitions spec.transitions =
      .ok (def_.transitions, def_.transitionIndex))
    (hTable : def_.buildCandidates = .ok table) :
    Grounded spec table ∧ buildRequiredGuards table = .ok table.buildRequiredGuards := by
  have hTableEq := (buildCandidates_eq_ok hTable).1
  have hTableGround : Grounded spec table := by
    rw [hTableEq]
    exact hGround.of_same rfl rfl rfl
  refine ⟨hTableGround, buildRequiredGuards_eq hTableGround fun id => ?_⟩
  rw [hTableEq, CompiledDefinition.transition]
  exact indexTransitions_places hTransitions id

theorem startActions_le {draft : CompiledDefinition} (hGround : Grounded spec draft)
    (hSize : spec.size < 2 ^ 32) {bound : Nat} :
    draft.startActions ≤ bound ↔ ∀ entered, spec.Enters none spec.initial entered →
      (entered.flatMap spec.entryActions).length ≤ bound := by
  constructor
  · intro hStart entered hEnters
    show spec.entryCount entered ≤ bound
    rw [← hGround.start_eq (actionCount_lt hSize) hEnters]
    exact hStart
  · intro hAll
    exact (hGround.start_eq (actionCount_lt hSize) hGround.enters_root).le.trans
      (hAll _ hGround.enters_root)

/-- Compilation returns what `compile` does unless it counts too far or outgrows the stack. -/
theorem compile_lift (hSize : spec.size < 2 ^ 32) (h : ¬Overcounted spec limits)
    (hStack : ¬Outgrown spec limits stack) :
    compile stack spec limits = lift (Hfsm.compile spec limits) := by
  rw [compile, Hfsm.compile]
  apply unless_lift
  intro hValid
  apply unless_lift
  intro hVersion
  apply unless_lift
  intro hNonempty
  apply bind_lift rfl
  intro index hIndex
  apply unless_lift
  intro hCount
  apply unless_lift
  intro hTransitionCount
  apply bind_lift (checkReferences_lift hIndex)
  rintro ⟨⟩ hReferences
  obtain ⟨hStateRefs, hRoot, hTransitionRefs⟩ := (checkReferences_eq_ok hIndex).mp hReferences
  have hNodup : (spec.states.map StateSpec.id).Nodup := (Check.index_eq_ok hIndex).1
  have hCounts : ¬CountsOver spec limits := by
    intro hCounts
    apply h
    refine ⟨by simpa using hValid, not_not.mp hVersion, hNodup, ?_, hStateRefs, hRoot, hCounts⟩
    rw [Word.asU32_of_lt (states_length_lt hSize)] at hCount
    exact Nat.le_of_not_lt hCount
  have hParents : ∀ s ∈ spec.states, ∀ p, s.parent = some p → (spec.findState p).isSome :=
    fun s hs p hp => hStateRefs s hs p (by simp [hp])
  apply bind_lift ((computeDepths_strict hIndex (states_length_lt hSize) hParents).1 hCounts)
  intro depths hDepths
  apply bind_lift (checkInitials_lift hIndex hStateRefs)
  rintro ⟨⟩ hInitials
  apply bind_lift rfl
  rintro ⟨transitions, transitionIndex⟩ hTransitions
  have hGround := skeleton_grounded transitions transitionIndex (by simpa using hNonempty)
    hIndex hReferences hDepths hInitials
  obtain ⟨hStored, -, hFound⟩ := indexTransitions_eq_ok hTransitions
  apply bind_lift (each_lift fun t _ => checkLocalTarget_lift hGround t)
  rintro ⟨⟩ hLocal
  apply bind_lift buildCandidates_lift
  intro table hTable
  have hTableEq := (buildCandidates_eq_ok hTable).1
  obtain ⟨hTableGround, hGuards⟩ := table_grounded hGround hTransitions hTable
  have hGuardsGround : Grounded spec table.buildRequiredGuards := hTableGround.of_same rfl rfl rfl
  rw [hGuards, Check.ok_bind]
  apply bind_lift
  · apply computeMaxPlanActions_lift hGuardsGround (actionCount_lt hSize)
    · intro hStart
      have hLimits : table.limits = limits := by rw [hTableEq]; rfl
      have hChecked := checked_of_passes (by simpa using hValid) (not_not.mp hVersion)
        (by simpa using hNonempty) hIndex (Nat.le_of_not_lt hCount)
        (Nat.le_of_not_lt hTransitionCount) hReferences hDepths hInitials hTransitions hLocal hTable
      by_contra hDeep
      simp only [Shallow, not_forall] at hDeep
      obtain ⟨s, hs, nodes, hAscent, hLong⟩ := hDeep
      rw [startActions_le hGuardsGround hSize] at hStart
      exact hStack ⟨hChecked, fun entered hEnters => hLimits ▸ hStart entered hEnters, s, hs,
        nodes, hAscent, Nat.lt_of_not_le hLong⟩
    · show table.transitions = _
      rw [hTableEq]
      exact hStored
    · exact fun t ht => hTransitionRefs t ht _ (by simp)
    · exact (localTargets_eq_ok hGround hStored).mp hLocal
  · exact fun _ _ => rfl

/-- Otherwise the depth pass overflows. -/
theorem compile_overflows (hSize : spec.size < 2 ^ 32) (h : Overcounted spec limits) :
    compile stack spec limits = .error .overflow := by
  obtain ⟨index, hIndex⟩ := indexStates_isOk.mpr h.stateIds
  have hCount : Word.asU32 spec.states.length ≤ limits.maxStates := by
    rw [Word.asU32_of_lt (states_length_lt hSize)]
    exact h.stateCount
  have hNonempty : spec.states ≠ [] := by
    obtain ⟨first, s, rest, hSplit, -⟩ := h.counts.2
    simp [hSplit]
  have hNone := transitions_of_counts hSize h.counts
  have hReferences : Hfsm.checkReferences spec index = .ok () :=
    (checkReferences_eq_ok hIndex).mpr ⟨h.references, h.root, by simp [hNone]⟩
  have hDepths := (computeDepths_strict hIndex (states_length_lt hSize)
    (fun s hs p hp => h.references s hs p (by simp [hp]))).2 h.counts
  rw [compile]
  refine (if_neg (by simp [h.valid])).trans ?_
  refine (if_neg (not_not.mpr h.version)).trans ?_
  refine (if_neg (by simp [hNonempty])).trans ?_
  rw [hIndex]
  refine (if_neg (Nat.not_lt.mpr hCount)).trans ?_
  refine (if_neg (by simp [hNone, Word.asU32])).trans ?_
  rw [checkReferences_lift hIndex, hReferences]
  show (Check.collect (computeDepth spec.states index limits) spec.states >>= _) = _
  rw [hDepths]
  rfl

theorem not_countsOver (h : Checked spec limits) : ¬CountsOver spec limits := by
  rintro ⟨-, first, s, rest, hSplit, -, hEndless⟩
  have hs : s ∈ spec.states := by simp [hSplit]
  obtain ⟨nodes, hAscent, -⟩ := climb_eq_some.mp (h.depths s hs).1
  have hParent := parentOf_id h.stateIds hs
  exact hEndless (s.id :: nodes) (.cons (Option.some_ne_none _) (hParent ▸ hAscent))

/-- A definition whose checks are in order comes to the last pass. -/
theorem compile_drafted (hSize : spec.size < 2 ^ 32) (hChecked : Checked spec limits)
    {draft : CompiledDefinition} (hDraft : Drafted spec limits draft) :
    compile stack spec limits = (do
      let maxPlanActions ← computeMaxPlanActions stack draft
      .ok { draft with
        maxPlanActions := maxPlanActions
        fingerprint := computeFingerprint spec }) := by
  obtain ⟨index, depths, transitions, transitionIndex, table, hIndex, hDepths, hTransitions,
    hTable, rfl⟩ := hDraft
  have hReferences := (checkReferences_eq_ok hIndex).mpr
    ⟨hChecked.stateReferences, hChecked.root, hChecked.transitionReferences⟩
  have hParents : ∀ s ∈ spec.states, ∀ p, s.parent = some p → (spec.findState p).isSome :=
    fun s hs p hp => hChecked.stateReferences s hs p (by simp [hp])
  have hClimbs := (computeDepths_strict hIndex (states_length_lt hSize) hParents).1
    (not_countsOver hChecked)
  have hInitials := (checkInitials_eq_ok hIndex).mpr hChecked.initials
  have hSkeleton := skeleton_grounded transitions transitionIndex hChecked.nonempty hIndex
    hReferences hDepths hInitials
  have hLocal := (localTargets_eq_ok hSkeleton (indexTransitions_eq_ok hTransitions).1).mpr
    hChecked.localBelow
  have hGuards := (table_grounded hSkeleton hTransitions hTable).2
  rw [compile]
  refine (if_neg (by simp [hChecked.valid])).trans ?_
  refine (if_neg (not_not.mpr hChecked.version)).trans ?_
  refine (if_neg (by simp [hChecked.nonempty])).trans ?_
  rw [hIndex]
  refine (if_neg (Nat.not_lt.mpr hChecked.stateCount)).trans ?_
  refine (if_neg (Nat.not_lt.mpr hChecked.transitionCount)).trans ?_
  rw [checkReferences_lift hIndex, hReferences]
  show (Check.collect (computeDepth spec.states index limits) spec.states >>= _) = _
  rw [hClimbs, hDepths]
  show (checkInitials spec.states index >>= _) = _
  rw [checkInitials_lift hIndex hChecked.stateReferences, hInitials, hTransitions]
  show (Check.each (checkLocalTarget _) _ >>= _) = _
  rw [each_lift fun t _ => checkLocalTarget_lift hSkeleton t]
  show (lift (CompiledDefinition.checkLocalTargets _) >>= _) = _
  rw [hLocal]
  show (buildCandidates _ >>= _) = _
  rw [buildCandidates_lift, hTable]
  show (buildRequiredGuards table >>= _) = _
  rw [hGuards, Check.ok_bind]

/-- There it overruns the stack if the tree is deeper. -/
theorem compile_overruns (hSize : spec.size < 2 ^ 32) (h : Outgrown spec limits stack) :
    compile stack spec limits = .error .overrun := by
  obtain ⟨draft, hDraft⟩ := h.checked.drafted
  obtain ⟨hGround, hLimits, -⟩ := hDraft.grounded h.checked
  have hDeep : ¬Shallow spec stack := by
    obtain ⟨s, hs, nodes, hAscent, hLong⟩ := h.deep
    exact fun hShallow => Nat.not_le_of_lt hLong (hShallow s hs nodes hAscent)
  have hStart : draft.startActions ≤ draft.limits.maxActionsPerPlan := by
    rw [startActions_le hGround hSize, hLimits]
    exact h.start
  rw [compile_drafted hSize h.checked hDraft,
    computeMaxPlanActions_overruns hGround (actionCount_lt hSize) hStart hDeep]
  rfl

/-- Compilation returns, and accepts exactly the well-formed definitions, unless the depth pass
counts too far or the tree is deeper than the stack. -/
theorem compile_total_iff (hSize : spec.size < 2 ^ 32) :
    ((∃ result, compile stack spec limits = lift result) ∧
        ((∃ def_, compile stack spec limits = .ok def_) ↔ spec.WellFormed limits)) ↔
      ¬Overcounted spec limits ∧ ¬Outgrown spec limits stack := by
  constructor
  · rintro ⟨⟨result, hResult⟩, -⟩
    constructor
    · intro hOver
      rw [compile_overflows hSize hOver] at hResult
      cases result <;> cases hResult
    · intro hDeep
      rw [compile_overruns hSize hDeep] at hResult
      cases result <;> cases hResult
  · rintro ⟨hOver, hDeep⟩
    have hLift := compile_lift hSize hOver hDeep
    refine ⟨⟨_, hLift⟩, ?_⟩
    rw [← compile_isOk hSize, hLift]
    cases Hfsm.compile spec limits with
    | error failure => simp [lift]
    | ok def_ => simp [lift]

end Compile

/-- The tree of two levels, on a stack with room for two calls. -/
theorem compile_total_iff_boundary :
    (∃ result, compile 2 boundarySpec .default = lift result) ∧
      ((∃ def_, compile 2 boundarySpec .default = .ok def_) ↔ boundarySpec.WellFormed .default) := by
  refine (compile_total_iff (by decide)).mpr ⟨fun hOver => ?_, fun hDeep => ?_⟩
  · have hFull := hOver.counts.1
    simp [boundarySpec] at hFull
  · have hAccepted := accepted compile_boundarySpec
    have hShallow : Shallow boundarySpec 2 := (shallow_iff hAccepted.toGrounded).mpr fun s hs =>
      (hAccepted.depth s hs).trans (by decide +kernel)
    obtain ⟨s, hs, nodes, hAscent, hLong⟩ := hDeep.deep
    exact Nat.not_le_of_lt hLong (hShallow s hs nodes hAscent)

/-! A state that is its own parent, in front of `count` states on the top level. -/

section Crowd

variable {count : Nat}

def topLevel (id : StateId) : StateSpec where
  id := id
  parent := none
  initial := none
  entry := []
  exit := []
  name := none

def crowd (count : Nat) : DefinitionSpec where
  formatVersion := formatVersion
  initial := ⟨1⟩
  states := { topLevel ⟨0⟩ with parent := some ⟨0⟩ } ::
    (List.range count).map fun n => topLevel ⟨UInt32.ofNat (n + 1)⟩
  transitions := []

def crowdLimits : HfsmLimits := { HfsmLimits.default with maxStates := 2 ^ 32 - 1 }

theorem crowd_length : (crowd count).states.length = count + 1 := by
  simp [crowd]

theorem crowd_size : (crowd count).size = count + 1 := by
  rw [DefinitionSpec.size, crowd_length]
  simp [crowd, topLevel, Function.comp_def]

theorem crowd_stateIds (hCount : count + 2 = 2 ^ 32) :
    ((crowd count).states.map StateSpec.id).Nodup := by
  have hIds : (crowd count).states.map StateSpec.id =
      (List.range (count + 1)).map fun n => StateId.mk (UInt32.ofNat n) := by
    rw [List.range_succ_eq_map]
    simp [crowd, topLevel, Function.comp_def]
  rw [hIds]
  apply List.nodup_range.map_on
  intro m hm n hn hSame
  rw [List.mem_range] at hm hn
  have hNat := congrArg UInt32.toNat (StateId.mk.inj hSame)
  have hFits : count + 1 < UInt32.size := by
    show count + 1 < 2 ^ 32
    omega
  rwa [UInt32.toNat_ofNat_of_lt' (hm.trans hFits), UInt32.toNat_ofNat_of_lt' (hn.trans hFits)]
    at hNat

theorem crowd_parentOf (hCount : count + 2 = 2 ^ 32) : (crowd count).parentOf ⟨0⟩ = some ⟨0⟩ :=
  parentOf_id (crowd_stateIds hCount) List.mem_cons_self

theorem crowd_overcounted (hCount : count + 2 = 2 ^ 32) : Overcounted (crowd count) crowdLimits where
  valid := by decide
  version := rfl
  stateIds := crowd_stateIds hCount
  stateCount := by
    rw [crowd_length]
    show _ ≤ 2 ^ 32 - 1
    omega
  references := by
    intro s hs id hId
    rcases List.mem_cons.mp hs with rfl | hs
    · have hZero : id = ⟨0⟩ := by simpa [topLevel] using hId
      subst hZero
      rw [← declares_iff]
      exact ⟨_, List.mem_cons_self, rfl⟩
    · obtain ⟨n, -, rfl⟩ := List.mem_map.mp hs
      simp [topLevel] at hId
  root := by
    have hFirst : topLevel ⟨1⟩ ∈ (crowd count).states := by
      apply List.mem_cons_of_mem
      exact List.mem_map.mpr ⟨0, List.mem_range.mpr (by omega), rfl⟩
    exact ⟨_, findState_of_mem (crowd_stateIds hCount) hFirst, rfl⟩
  counts := by
    refine ⟨by rw [crowd_length]; exact hCount, [], _, _, rfl, List.forall_mem_nil _, ?_⟩
    intro nodes hAscent
    induction nodes with
    | nil => cases hAscent
    | cons a rest ih =>
        cases hAscent with
        | cons hStop hRest => exact ih (crowd_parentOf hCount ▸ hRest)

/-- On as many states as a `u32` counts, with a parent cycle in front, compilation does not
return. -/
theorem compile_crowd : (crowd 4294967294).size < 2 ^ 32 ∧ ∀ stack,
    compile stack (crowd 4294967294) crowdLimits = .error .overflow ∧
    ¬∃ result, compile stack (crowd 4294967294) crowdLimits = lift result := by
  have hSize : (crowd 4294967294).size < 2 ^ 32 := by
    rw [crowd_size]
    omega
  refine ⟨hSize, fun stack => ?_⟩
  have hOver : compile stack (crowd 4294967294) crowdLimits = .error .overflow :=
    compile_overflows hSize (crowd_overcounted (by omega))
  refine ⟨hOver, ?_⟩
  rintro ⟨result, hResult⟩
  rw [hOver] at hResult
  cases result <;> cases hResult

end Crowd

/-! A chain of `count` states, each the parent and the initial of the next. -/

section Chain

variable {count : Nat}

def link (count n : Nat) : StateSpec where
  id := ⟨UInt32.ofNat n⟩
  parent := if n = 0 then none else some ⟨UInt32.ofNat (n - 1)⟩
  initial := if n + 1 < count then some ⟨UInt32.ofNat (n + 1)⟩ else none
  entry := []
  exit := []
  name := none

def chain (count : Nat) : DefinitionSpec where
  formatVersion := formatVersion
  initial := ⟨0⟩
  states := (List.range count).map (link count)
  transitions := []

def chainLimits (count : Nat) : HfsmLimits :=
  { HfsmLimits.default with maxDepth := count, maxStates := count }

theorem mem_chain {s : StateSpec} :
    s ∈ (chain count).states ↔ ∃ n < count, link count n = s := by
  simp [chain]

theorem chain_length : (chain count).states.length = count := by
  simp [chain]

theorem chain_size : (chain count).size = count := by
  rw [DefinitionSpec.size, chain_length]
  simp [chain, link, Function.comp_def]

/-- The numbers of the states do not wrap. -/
theorem ofNat_inj {m n : Nat} (hCount : count < 2 ^ 32) (hm : m < count) (hn : n < count)
    (hSame : StateId.mk (UInt32.ofNat m) = ⟨UInt32.ofNat n⟩) : m = n := by
  have hNat := congrArg UInt32.toNat (StateId.mk.inj hSame)
  have hFits : count < UInt32.size := hCount
  rwa [UInt32.toNat_ofNat_of_lt' (hm.trans hFits), UInt32.toNat_ofNat_of_lt' (hn.trans hFits)]
    at hNat

theorem chain_stateIds (hCount : count < 2 ^ 32) :
    ((chain count).states.map StateSpec.id).Nodup := by
  have hIds : (chain count).states.map StateSpec.id =
      (List.range count).map fun n => StateId.mk (UInt32.ofNat n) := by
    simp [chain, link, Function.comp_def]
  rw [hIds]
  apply List.nodup_range.map_on
  intro m hm n hn hSame
  exact ofNat_inj hCount (List.mem_range.mp hm) (List.mem_range.mp hn) hSame

theorem chain_parentOf (hCount : count < 2 ^ 32) {n : Nat} (hn : n < count) :
    (chain count).parentOf ⟨UInt32.ofNat n⟩ = (link count n).parent :=
  parentOf_id (chain_stateIds hCount) (mem_chain.mpr ⟨n, hn, rfl⟩)

theorem chain_known (hCount : count < 2 ^ 32) {n : Nat} (hn : n < count) :
    (chain count).findState ⟨UInt32.ofNat n⟩ = some (link count n) :=
  findState_of_mem (chain_stateIds hCount) (mem_chain.mpr ⟨n, hn, rfl⟩)

theorem chain_ascent (hCount : count < 2 ^ 32) {n : Nat} (hn : n < count) :
    ∃ nodes, Forest.Ascent (chain count).parentOf none (link count n).parent nodes ∧
      nodes.length = n := by
  induction n with
  | zero => exact ⟨[], .nil, rfl⟩
  | succ n ih =>
      have hPrevious : n < count := Nat.lt_of_succ_lt hn
      obtain ⟨nodes, hAscent, hLength⟩ := ih hPrevious
      rw [← chain_parentOf hCount hPrevious] at hAscent
      exact ⟨⟨UInt32.ofNat n⟩ :: nodes, .cons (Option.some_ne_none _) hAscent,
        congrArg Nat.succ hLength⟩

theorem chain_climb (hCount : count < 2 ^ 32) {n : Nat} (hn : n < count) :
    Hfsm.climb (chain count).parentOf ((chain count).states.length - 1) 1 (link count n).parent =
        some ((chain count).depthOf (link count n).id) ∧
      (chain count).depthOf (link count n).id = n + 1 := by
  obtain ⟨nodes, hAscent, rfl⟩ := chain_ascent hCount hn
  have hClimb : Hfsm.climb (chain count).parentOf ((chain count).states.length - 1) 1
      (link count nodes.length).parent = some (1 + nodes.length) := by
    refine climb_eq_some.mpr ⟨nodes, hAscent, rfl, ?_⟩
    rw [chain_length]
    omega
  have hDepth : (chain count).depthOf (link count nodes.length).id = 1 + nodes.length := by
    have hParent : (chain count).parentOf (link count nodes.length).id = _ :=
      chain_parentOf hCount hn
    rw [DefinitionSpec.depthOf, hParent, hClimb]
    rfl
  exact ⟨hDepth ▸ hClimb, hDepth.trans (Nat.add_comm _ _)⟩

theorem chain_checked (hPos : 0 < count) (hCount : count < 2 ^ 32) :
    Checked (chain count) (chainLimits count) where
  valid := by
    simp [HfsmLimits.isValid, chainLimits, HfsmLimits.default]
    omega
  version := rfl
  nonempty := by
    apply List.ne_nil_of_length_pos
    rw [chain_length]
    exact hPos
  stateIds := chain_stateIds hCount
  stateCount := by
    rw [chain_length, Word.asU32_of_lt hCount]
    exact Nat.le_refl _
  transitionCount := Nat.zero_le _
  stateReferences := by
    intro s hs id hId
    obtain ⟨n, hn, rfl⟩ := mem_chain.mp hs
    have hPlace : ∃ m < count, id = ⟨UInt32.ofNat m⟩ := by
      rcases List.mem_pair.mp hId with hParent | hInitial
      · simp only [link] at hParent
        split_ifs at hParent
        exact ⟨n - 1, by omega, Option.some.inj hParent⟩
      · simp only [link] at hInitial
        split_ifs at hInitial with hNext
        exact ⟨n + 1, hNext, Option.some.inj hInitial⟩
    obtain ⟨m, hm, rfl⟩ := hPlace
    rw [chain_known hCount hm]
    rfl
  root := ⟨_, chain_known hCount hPos, rfl⟩
  transitionReferences := nofun
  depths := by
    intro s hs
    obtain ⟨n, hn, rfl⟩ := mem_chain.mp hs
    obtain ⟨hClimb, hDepth⟩ := chain_climb hCount hn
    exact ⟨hClimb, hDepth ▸ hn⟩
  initials := by
    intro s hs
    obtain ⟨n, hn, rfl⟩ := mem_chain.mp hs
    constructor
    · intro hNone child hChild hParent
      obtain ⟨m, hm, rfl⟩ := mem_chain.mp hChild
      simp only [link, ite_eq_right_iff, reduceCtorEq, imp_false, Nat.not_lt] at hNone
      simp only [link] at hParent
      split_ifs at hParent with hFirst
      have hSame := ofNat_inj hCount (by omega) hn (Option.some.inj hParent)
      omega
    · intro i hi
      simp only [link] at hi
      split_ifs at hi with hNext
      obtain rfl := Option.some.inj hi
      have hParent : (link count (n + 1)).parent = some (link count n).id := rfl
      exact ⟨(chain_parentOf hCount hNext).trans hParent,
        _, mem_chain.mpr ⟨n + 1, hNext, rfl⟩, hParent⟩
  transitionIds := List.nodup_nil
  localBelow := nofun
  groups key := ⟨.nil, rfl⟩

theorem chain_plans (states : List StateId) :
    states.flatMap (chain count).entryActions = [] ∧
      states.flatMap (chain count).exitActions = [] := by
  simp only [List.flatMap_eq_nil_iff, ← forall₂_and]
  intro id _
  rw [DefinitionSpec.entryActions, DefinitionSpec.exitActions]
  cases hFind : (chain count).findState id with
  | none => exact ⟨rfl, rfl⟩
  | some s =>
      obtain ⟨n, -, rfl⟩ := mem_chain.mp (mem_of_findState hFind).1
      exact ⟨rfl, rfl⟩

theorem chain_wellFormed (hPos : 0 < count) (hCount : count < 2 ^ 32) :
    (chain count).WellFormed (chainLimits count) := by
  refine (chain_checked hPos hCount).wellFormed (by rwa [chain_size]) ⟨?_, ?_, nofun⟩
  · intro entered _
    rw [(chain_plans entered).1]
    exact Nat.zero_le _
  · intro leaf exited _ _
    rw [(chain_plans exited).2]
    exact Nat.zero_le _

theorem chain_outgrown {stack : Nat} (hStack : stack < count) (hCount : count < 2 ^ 32) :
    Outgrown (chain count) (chainLimits count) stack where
  checked := chain_checked (Nat.zero_lt_of_lt hStack) hCount
  start := by
    intro entered _
    rw [(chain_plans entered).1]
    exact Nat.zero_le _
  deep := by
    have hLast : count - 1 < count := by omega
    obtain ⟨nodes, hAscent, hLength⟩ := chain_ascent hCount hLast
    rw [← chain_parentOf hCount hLast] at hAscent
    refine ⟨_, mem_chain.mpr ⟨count - 1, hLast, rfl⟩, _,
      .cons (Option.some_ne_none _) hAscent, ?_⟩
    rw [List.length_cons]
    omega

/-- A chain of 40000 states is well formed, and compilation does not return on a stack with room
for fewer calls. -/
theorem compile_chain : (chain 40000).size < 2 ^ 32 ∧
    (chain 40000).WellFormed (chainLimits 40000) ∧ ∀ stack < 40000,
      compile stack (chain 40000) (chainLimits 40000) = .error .overrun := by
  have hSize : (chain 40000).size < 2 ^ 32 := by
    rw [chain_size]
    omega
  exact ⟨hSize, chain_wellFormed (by omega) (by omega), fun stack hStack =>
    compile_overruns hSize (chain_outgrown hStack (by omega))⟩

end Chain
end Hfsm.Strict

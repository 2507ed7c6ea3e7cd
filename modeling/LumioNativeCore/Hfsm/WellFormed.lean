import LumioNativeCore.Hfsm.Passes
import LumioNativeCore.Hfsm.Selection

/-! The definitions that the contract calls well formed (section 7.1), in its own terms:
references, a forest of parents, initial links to direct children, priorities, and
plans that stay within the limit of actions. -/
namespace Hfsm
namespace DefinitionSpec

variable (spec : DefinitionSpec)

/-- States, transitions and action ids, all counted. -/
def size : Nat :=
  spec.states.length + spec.transitions.length +
    (spec.states.map fun s => s.entry.length).sum + (spec.states.map fun s => s.exit.length).sum +
    (spec.transitions.map fun t => t.actions.length).sum

/-- The action ids of all states and transitions. -/
def actionCount : Nat :=
  (spec.states.map fun s => s.entry.length).sum + (spec.states.map fun s => s.exit.length).sum +
    (spec.transitions.map fun t => t.actions.length).sum

def Declares (id : StateId) : Prop := ∃ s ∈ spec.states, s.id = id

/-- How many actions the plan of `t` has when `leaf` is active: the exits from the leaf up to
the domain, its own actions, and the entries down to a leaf. -/
inductive Emits (t : TransitionSpec) (leaf : StateId) : Nat → Prop where
  | internal (hKind : t.kind = .internal) : Emits t leaf t.actions.length
  | crossing {target : StateId} {domain : Option StateId} {exited entered : List StateId}
      (hDomain : spec.IsDomain t target domain)
      (hExited : Forest.Ascent spec.parentOf domain (some leaf) exited)
      (hEntered : spec.Enters domain target entered) :
      Emits t leaf ((exited.flatMap spec.exitActions).length + t.actions.length +
        (entered.flatMap spec.entryActions).length)

/-- No plan has more actions than `bound`: not a start, not a stop on any leaf, and no
transition on any leaf at or below its source. -/
structure PlansFit (bound : Nat) : Prop where
  start : ∀ entered, spec.Enters none spec.initial entered →
    (entered.flatMap spec.entryActions).length ≤ bound
  stop : ∀ leaf exited, spec.IsLeaf leaf → Forest.Ascent spec.parentOf none (some leaf) exited →
    (exited.flatMap spec.exitActions).length ≤ bound
  transition : ∀ t ∈ spec.transitions, ∀ leaf count, spec.IsLeaf leaf →
    Forest.Reaches spec.parentOf leaf t.source → spec.Emits t leaf count → count ≤ bound

/-- The definitions that are accepted under `limits`. -/
structure WellFormed (limits : HfsmLimits) : Prop where
  limitsNonzero : limits.maxDepth ≠ 0 ∧ limits.maxStates ≠ 0 ∧ limits.maxTransitions ≠ 0 ∧
    limits.maxActionsPerPlan ≠ 0 ∧ limits.maxBatch ≠ 0
  version : spec.formatVersion = Hfsm.formatVersion
  nonempty : spec.states ≠ []
  stateIds : (spec.states.map StateSpec.id).Nodup
  transitionIds : (spec.transitions.map TransitionSpec.id).Nodup
  parents : ∀ s ∈ spec.states, ∀ p, s.parent = some p → spec.Declares p
  initials : ∀ s ∈ spec.states, ∀ i, s.initial = some i → spec.Declares i
  sources : ∀ t ∈ spec.transitions, spec.Declares t.source
  targets : ∀ t ∈ spec.transitions, ∀ target, t.kind.target = some target → spec.Declares target
  root : spec.Declares spec.initial
  rootTop : ∀ s ∈ spec.states, s.id = spec.initial → s.parent = none
  acyclic : ∀ id, ¬Forest.Above spec.parentOf id id
  depth : ∀ s ∈ spec.states, ∀ nodes, Forest.Ascent spec.parentOf none (some s.id) nodes →
    nodes.length ≤ limits.maxDepth
  stateCount : spec.states.length ≤ limits.maxStates
  transitionCount : spec.transitions.length ≤ limits.maxTransitions
  composite : ∀ s ∈ spec.states, s.initial.isSome ↔ ∃ child ∈ spec.states, child.parent = some s.id
  initialChild : ∀ s ∈ spec.states, ∀ i, s.initial = some i →
    ∃ child ∈ spec.states, child.id = i ∧ child.parent = some s.id
  localBelow : ∀ t ∈ spec.transitions, ∀ target, t.kind = .local target →
    Forest.Above spec.parentOf target t.source
  priorities : (spec.transitions.map fun t => (t.source, t.event, t.priority)).Nodup
  unguardedLast : ∀ t ∈ spec.transitions, t.guard = none → ∀ u ∈ spec.transitions,
    u.source = t.source → u.event = t.event → u.priority ≤ t.priority
  plans : spec.PlansFit limits.maxActionsPerPlan

end DefinitionSpec

section References

variable {spec : DefinitionSpec}

theorem declares_iff {id : StateId} : spec.Declares id ↔ (spec.findState id).isSome := by
  rw [DefinitionSpec.findState, List.find?_isSome, DefinitionSpec.Declares]
  simp

/-- A parent link says that some state is declared with that parent. -/
theorem parentOf_eq_some (hNodup : (spec.states.map StateSpec.id).Nodup) {id p : StateId} :
    spec.parentOf id = some p ↔ ∃ child ∈ spec.states, child.id = id ∧ child.parent = some p := by
  rw [DefinitionSpec.parentOf, Option.bind_eq_some_iff]
  constructor
  · rintro ⟨s, hFind, hParent⟩
    obtain ⟨hs, hId⟩ := mem_of_findState hFind
    exact ⟨s, hs, hId, hParent⟩
  · rintro ⟨s, hs, rfl, hParent⟩
    exact ⟨s, findState_of_mem hNodup hs, hParent⟩

theorem parentOf_id (hNodup : (spec.states.map StateSpec.id).Nodup) {s : StateSpec}
    (hs : s ∈ spec.states) : spec.parentOf s.id = s.parent := by
  rw [DefinitionSpec.parentOf, findState_of_mem hNodup hs]
  rfl

/-- Without a cycle, the ascent from a state ends after at most as many steps as there are
states. -/
theorem exists_ascent (hNodup : (spec.states.map StateSpec.id).Nodup)
    (hParents : ∀ s ∈ spec.states, ∀ p, s.parent = some p → spec.Declares p)
    (hAcyclic : ∀ id, ¬Forest.Above spec.parentOf id id) {s : StateSpec} (hs : s ∈ spec.states) :
    ∃ nodes, Forest.Ascent spec.parentOf none s.parent nodes ∧
      nodes.length + 1 ≤ spec.states.length := by
  have hKnown : ∀ a b, spec.parentOf a = some b →
      b ∈ (spec.states.map StateSpec.id).toFinset := by
    intro a b hParent
    obtain ⟨child, hChild, -, hParent⟩ := (parentOf_eq_some hNodup).mp hParent
    obtain ⟨p, hp, rfl⟩ := hParents child hChild b hParent
    exact List.mem_toFinset.mpr (List.mem_map_of_mem hp)
  have hFalls := Forest.falls_of_acyclic hAcyclic hKnown
  have hRank := Forest.countAbove_lt hAcyclic
    (List.mem_toFinset.mpr (List.mem_map_of_mem (f := StateSpec.id) hs))
  rw [List.toFinset_card_of_nodup hNodup, List.length_map] at hRank
  have hLength := hFalls.trail_length_le s.id
  cases hTrail : Forest.trail spec.parentOf _ s.id with
  | nil => cases hTrail
  | cons head nodes =>
      have hAscent := hFalls.ascent_trail s.id
      rw [hTrail] at hAscent hLength
      cases hAscent with
      | cons hStop hRest =>
          rw [parentOf_id hNodup hs] at hRest
          rw [List.length_cons] at hLength
          exact ⟨nodes, hRest, by omega⟩

end References

/-! Candidates. -/

section Candidates

variable {spec : DefinitionSpec}

theorem candidatesOf_sorted (key : StateId × EventKind) :
    (spec.candidatesOf key).Pairwise CompiledDefinition.priorityLe :=
  List.pairwise_insertionSort _ _

/-- The candidates of one key have different priorities exactly when they are in strict order. -/
theorem candidatesOf_strict (key : StateId × EventKind) :
    (spec.candidatesOf key).Pairwise (fun t u => t.priority < u.priority) ↔
      ((spec.candidatesOf key).map CompiledTransition.priority).Nodup := by
  rw [List.Nodup, List.pairwise_map]
  constructor
  · intro hStrict
    exact hStrict.imp fun hLess => UInt32.ne_of_lt hLess
  · intro hDistinct
    exact (candidatesOf_sorted key).and hDistinct |>.imp fun h =>
      UInt32.lt_of_le_of_ne h.1 h.2

/-- Nothing follows an unguarded transition. -/
theorem checkShadowing_eq_ok {group : List CompiledTransition} {shadowedBy : Option TransitionId} :
    CompiledDefinition.checkShadowing shadowedBy group = .ok () ↔
      (shadowedBy.isSome → group = []) ∧
        group.Pairwise fun t _ => t.guard ≠ none := by
  induction group generalizing shadowedBy with
  | nil => simp [CompiledDefinition.checkShadowing]
  | cons t rest ih =>
      cases shadowedBy with
      | some id => simp [CompiledDefinition.checkShadowing]
      | none =>
          rw [CompiledDefinition.checkShadowing, ih, List.pairwise_cons]
          cases hGuard : t.guard with
          | none => simp [← List.eq_nil_iff_forall_not_mem]
          | some g => simp

theorem candidatesOf_nodup (hNodup : (spec.transitions.map TransitionSpec.id).Nodup)
    (key : StateId × EventKind) : (spec.candidatesOf key).Nodup := by
  rw [DefinitionSpec.candidatesOf, (List.perm_insertionSort _ _).nodup_iff]
  exact ((List.nodup_map_iff compileTransition_injective).mpr hNodup.of_map).filter _

/-- Priorities are distinct in every group exactly when no two transitions share source, event
and priority. -/
theorem priorities_iff (hNodup : (spec.transitions.map TransitionSpec.id).Nodup) :
    (∀ key, (spec.candidatesOf key).Pairwise fun t u => t.priority < u.priority) ↔
      (spec.transitions.map fun t => (t.source, t.event, t.priority)).Nodup := by
  rw [List.nodup_map_iff_inj_on hNodup.of_map]
  simp only [candidatesOf_strict]
  constructor
  · intro hGroups t ht u hu hSame
    obtain ⟨hSource, hRest⟩ := Prod.mk.inj hSame
    obtain ⟨hEvent, hPriority⟩ := Prod.mk.inj hRest
    have hGroup := hGroups (u.source, u.event)
    rw [List.nodup_map_iff_inj_on (candidatesOf_nodup hNodup _)] at hGroup
    apply compileTransition_injective
    apply hGroup
    · exact Accepted.mem_candidatesOf.mpr ⟨t, ⟨ht, hSource, hEvent⟩, rfl⟩
    · exact Accepted.mem_candidatesOf.mpr ⟨u, ⟨hu, rfl, rfl⟩, rfl⟩
    · exact hPriority
  · intro hInjective key
    rw [List.nodup_map_iff_inj_on (candidatesOf_nodup hNodup _)]
    intro c hc d hd hPriority
    obtain ⟨t, ⟨ht, hSource, hEvent⟩, rfl⟩ := Accepted.mem_candidatesOf.mp hc
    obtain ⟨u, ⟨hu, hSource', hEvent'⟩, rfl⟩ := Accepted.mem_candidatesOf.mp hd
    have hPriority : t.priority = u.priority := hPriority
    rw [hInjective t ht u hu (by rw [hSource, hSource', hEvent, hEvent', hPriority])]

/-- In a group in strict order, only the last transition may be unguarded. -/
theorem unguardedLast_iff {group : List CompiledTransition}
    (hStrict : group.Pairwise fun t u => t.priority < u.priority) :
    (group.Pairwise fun t _ => t.guard ≠ none) ↔
      ∀ t ∈ group, t.guard = none → ∀ u ∈ group, u.priority ≤ t.priority := by
  induction group with
  | nil => simp
  | cons t rest ih =>
      rw [List.pairwise_cons] at hStrict ⊢
      rw [ih hStrict.2, List.forall_mem_cons]
      constructor
      · rintro ⟨hGuarded, hRest⟩
        constructor
        · intro hNone u hu
          rcases List.mem_cons.mp hu with rfl | hu
          · exact UInt32.le_refl _
          · exact absurd hNone (hGuarded u hu)
        · intro u hu hNone v hv
          rcases List.mem_cons.mp hv with rfl | hv
          · exact UInt32.le_of_lt (hStrict.1 u hu)
          · exact hRest u hu hNone v hv
      · rintro ⟨hFirst, hRest⟩
        constructor
        · intro u hu hNone
          have hLe := hFirst hNone u (List.mem_cons_of_mem _ hu)
          exact absurd (hStrict.1 u hu) (UInt32.not_lt.mpr hLe)
        · intro u hu hNone v hv
          exact hRest u hu hNone v (List.mem_cons_of_mem _ hv)

/-- The two checks on every group, on the flat definition. -/
theorem groups_iff (hNodup : (spec.transitions.map TransitionSpec.id).Nodup) :
    (∀ key, (spec.candidatesOf key).Pairwise (fun t u => t.priority < u.priority) ∧
        CompiledDefinition.checkShadowing none (spec.candidatesOf key) = .ok ()) ↔
      (spec.transitions.map fun t => (t.source, t.event, t.priority)).Nodup ∧
        ∀ t ∈ spec.transitions, t.guard = none → ∀ u ∈ spec.transitions,
          u.source = t.source → u.event = t.event → u.priority ≤ t.priority := by
  rw [forall_and, priorities_iff hNodup]
  apply and_congr_right
  intro hPriorities
  have hStrict := (priorities_iff hNodup).mpr hPriorities
  simp only [checkShadowing_eq_ok, Option.isSome_none, Bool.false_eq_true, false_implies,
    true_and, unguardedLast_iff (hStrict _)]
  constructor
  · intro hGroups t ht hNone u hu hSource hEvent
    exact hGroups (t.source, t.event) _
      (Accepted.mem_candidatesOf.mpr ⟨t, ⟨ht, rfl, rfl⟩, rfl⟩) hNone _
      (Accepted.mem_candidatesOf.mpr ⟨u, ⟨hu, hSource, hEvent⟩, rfl⟩)
  · intro hLast key c hc hNone d hd
    obtain ⟨t, ⟨ht, hSource, hEvent⟩, rfl⟩ := Accepted.mem_candidatesOf.mp hc
    obtain ⟨u, ⟨hu, hSource', hEvent'⟩, rfl⟩ := Accepted.mem_candidatesOf.mp hd
    exact hLast t ht hNone u hu (hSource'.trans hSource.symm) (hEvent'.trans hEvent.symm)

end Candidates
/-! Well-formed definitions pass the checks. -/

section Checked

variable {spec : DefinitionSpec} {limits : HfsmLimits}

theorem isValid_iff : limits.isValid = true ↔ limits.maxDepth ≠ 0 ∧ limits.maxStates ≠ 0 ∧
    limits.maxTransitions ≠ 0 ∧ limits.maxActionsPerPlan ≠ 0 ∧ limits.maxBatch ≠ 0 := by
  simp [HfsmLimits.isValid, and_assoc]

theorem actionCount_lt (hSize : spec.size < 2 ^ 32) : spec.actionCount < 2 ^ 32 := by
  rw [DefinitionSpec.size] at hSize
  rw [DefinitionSpec.actionCount]
  omega

theorem states_length_lt (hSize : spec.size < 2 ^ 32) : spec.states.length < 2 ^ 32 := by
  rw [DefinitionSpec.size] at hSize
  omega

theorem transitions_length_lt (hSize : spec.size < 2 ^ 32) :
    spec.transitions.length < 2 ^ 32 := by
  rw [DefinitionSpec.size] at hSize
  omega

theorem wellFormed_checked (h : spec.WellFormed limits) (hSize : spec.size < 2 ^ 32) :
    Checked spec limits where
  valid := isValid_iff.mpr h.limitsNonzero
  version := h.version
  nonempty := h.nonempty
  stateIds := h.stateIds
  stateCount := by
    rw [Word.asU32_of_lt (states_length_lt hSize)]
    exact h.stateCount
  transitionCount := by
    rw [Word.asU32_of_lt (transitions_length_lt hSize)]
    exact h.transitionCount
  stateReferences := by
    intro s hs id hId
    rw [← declares_iff]
    rcases List.mem_pair.mp hId with hParent | hInitial
    · exact h.parents s hs id hParent.symm
    · exact h.initials s hs id hInitial.symm
  root := by
    obtain ⟨s, hs, hId⟩ := h.root
    exact ⟨s, hId ▸ findState_of_mem h.stateIds hs, h.rootTop s hs hId⟩
  transitionReferences := by
    intro t ht id hId
    rw [← declares_iff]
    rcases List.mem_pair.mp hId with hSource | hTarget
    · exact Option.some.inj hSource ▸ h.sources t ht
    · exact h.targets t ht id hTarget.symm
  depths := by
    intro s hs
    obtain ⟨nodes, hAscent, hLength⟩ := exists_ascent h.stateIds h.parents h.acyclic hs
    have hClimb : climb spec.parentOf (spec.states.length - 1) 1 s.parent =
        some (1 + nodes.length) := climb_eq_some.mpr ⟨nodes, hAscent, rfl, by omega⟩
    have hDepth : spec.depthOf s.id = 1 + nodes.length := by
      rw [DefinitionSpec.depthOf, parentOf_id h.stateIds hs, hClimb]
      rfl
    have hSelf : Forest.Ascent spec.parentOf none (some s.id) (s.id :: nodes) :=
      .cons (Option.some_ne_none _) ((parentOf_id h.stateIds hs).symm ▸ hAscent)
    have hMax := h.depth s hs _ hSelf
    rw [List.length_cons] at hMax
    exact ⟨hDepth ▸ hClimb, by omega⟩
  initials := by
    intro s hs
    constructor
    · intro hNone child hChild hParent
      have hSome := (h.composite s hs).mpr ⟨child, hChild, hParent⟩
      rw [hNone] at hSome
      exact Bool.false_ne_true hSome
    · intro i hi
      exact ⟨(parentOf_eq_some h.stateIds).mpr (h.initialChild s hs i hi),
        (h.composite s hs).mp (by rw [hi]; rfl)⟩
  transitionIds := h.transitionIds
  localBelow := h.localBelow
  groups := (groups_iff h.transitionIds).mpr ⟨h.priorities, h.unguardedLast⟩

theorem Checked.wellFormed (h : Checked spec limits) (hSize : spec.size < 2 ^ 32)
    (hPlans : spec.PlansFit limits.maxActionsPerPlan) : spec.WellFormed limits := by
  obtain ⟨draft, hDraft⟩ := h.drafted
  have hGround := (hDraft.grounded h).1
  obtain ⟨root, hRoot, hRootParent⟩ := h.root
  exact
    { limitsNonzero := isValid_iff.mp h.valid
      version := h.version
      nonempty := h.nonempty
      stateIds := h.stateIds
      transitionIds := h.transitionIds
      parents := fun s hs p hp => declares_iff.mpr (h.stateReferences s hs p (by simp [hp]))
      initials := fun s hs i hi => declares_iff.mpr (h.stateReferences s hs i (by simp [hi]))
      sources := fun t ht => declares_iff.mpr (h.transitionReferences t ht _ (by simp))
      targets := fun t ht target hTarget =>
        declares_iff.mpr (h.transitionReferences t ht target (by simp [hTarget]))
      root := declares_iff.mpr (by simp [hRoot])
      rootTop := by
        intro s hs hId
        have hFind := findState_of_mem h.stateIds hs
        rw [hId, hRoot] at hFind
        exact Option.some.inj hFind ▸ hRootParent
      acyclic := fun id hAbove => Nat.lt_irrefl _ (hGround.falls.rank_lt hAbove)
      depth := by
        intro s hs nodes hAscent
        obtain ⟨nodes', hAscent', hDepth, -⟩ :=
          hGround.depthOf_eq (declares_iff.mp ⟨s, hs, rfl⟩)
        have hSelf : Forest.Ascent spec.parentOf none (some s.id) (s.id :: nodes') :=
          .cons (Option.some_ne_none _) hAscent'
        have hMax := (h.depths s hs).2
        rw [hAscent.unique hSelf, List.length_cons]
        omega
      stateCount := by
        have hCount := h.stateCount
        rwa [Word.asU32_of_lt (states_length_lt hSize)] at hCount
      transitionCount := by
        have hCount := h.transitionCount
        rwa [Word.asU32_of_lt (transitions_length_lt hSize)] at hCount
      composite := by
        intro s hs
        constructor
        · intro hSome
          obtain ⟨i, hi⟩ := Option.isSome_iff_exists.mp hSome
          exact ((h.initials s hs).2 i hi).2
        · rintro ⟨child, hChild, hParent⟩
          rw [Option.isSome_iff_ne_none]
          intro hNone
          exact (h.initials s hs).1 hNone child hChild hParent
      initialChild := fun s hs i hi =>
        (parentOf_eq_some h.stateIds).mp ((h.initials s hs).2 i hi).1
      localBelow := h.localBelow
      priorities := ((groups_iff h.transitionIds).mp h.groups).1
      unguardedLast := ((groups_iff h.transitionIds).mp h.groups).2
      plans := hPlans }

end Checked
end Hfsm

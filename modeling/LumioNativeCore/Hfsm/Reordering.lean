import LumioNativeCore.Hfsm.Presentation
import LumioNativeCore.Hfsm.Passes
import LumioNativeCore.Hfsm.Batch
import LumioNativeCore.Hfsm.Conformance

/-! Compilation of definitions that differ only in the order of their arrays and in names: the
passes accept the same ones, and the compiled graphs agree. -/
namespace Hfsm

section Same

variable {a b : DefinitionSpec} {c d : CompiledDefinition} {limits : HfsmLimits}

/-- A property that does not look at names holds of all states of both or of neither. -/
theorem SameDefinition.forall_states (h : SameDefinition a b) (p : StateSpec → Prop)
    (hName : ∀ s, p s.unnamed ↔ p s) (hAll : ∀ s ∈ a.states, p s) : ∀ s ∈ b.states, p s := by
  intro s hs
  obtain ⟨s', hs', hSame⟩ := List.mem_map.mp (h.states.mem_iff.mpr (List.mem_map_of_mem hs))
  rw [← hName, ← hSame, hName]
  exact hAll s' hs'

theorem SameDefinition.exists_state (h : SameDefinition a b) (p : StateSpec → Prop)
    (hName : ∀ s, p s.unnamed ↔ p s) : (∃ s ∈ a.states, p s) → ∃ s ∈ b.states, p s := by
  rintro ⟨s, hs, hp⟩
  obtain ⟨s', hs', hSame⟩ := List.mem_map.mp (h.states.mem_iff.mp (List.mem_map_of_mem hs))
  refine ⟨s', hs', ?_⟩
  rwa [← hName, hSame, hName]

/-- A fold over the states in which their order and their names do not matter. -/
theorem SameDefinition.foldl_states {β : Type} (h : SameDefinition a b)
    {step : β → StateSpec → β} (hName : ∀ n s, step n s.unnamed = step n s)
    (hOrder : ∀ n s t, step (step n s) t = step (step n t) s) (start : β) :
    a.states.foldl step start = b.states.foldl step start := by
  have hUnnamed : ∀ list : List StateSpec,
      (list.map StateSpec.unnamed).foldl step start = list.foldl step start := by
    intro list
    rw [List.foldl_map]
    congr 1
    funext n s
    exact hName n s
  rw [← hUnnamed a.states, ← hUnnamed b.states]
  exact h.states.foldl_eq' (fun s _ t _ n => hOrder n s t) start

theorem SameDefinition.stateIds (h : SameDefinition a b)
    (hNodup : (a.states.map StateSpec.id).Nodup) : (b.states.map StateSpec.id).Nodup := by
  have hIds := h.states.map StateSpec.id
  rw [List.map_map, List.map_map] at hIds
  exact hIds.nodup hNodup

theorem SameDefinition.declared (h : SameDefinition a b)
    (hNodup : (a.states.map StateSpec.id).Nodup) (id : StateId) :
    (a.findState id).isSome = (b.findState id).isSome := by
  apply h.reading hNodup Option.isSome
  intro s
  cases s <;> rfl

/-! Acceptance. -/

/-- The checks before the plans are bounded do not depend on the presentation. -/
theorem SameDefinition.checked (h : SameDefinition a b) (hA : Checked a limits) :
    Checked b limits where
  valid := hA.valid
  version := h.formatVersion ▸ hA.version
  nonempty := by
    rw [← List.length_pos_iff, ← h.states_length, List.length_pos_iff]
    exact hA.nonempty
  stateIds := h.stateIds hA.stateIds
  stateCount := h.states_length ▸ hA.stateCount
  transitionCount := h.transitions.length_eq ▸ hA.transitionCount
  stateReferences := by
    simp only [← h.declared hA.stateIds]
    exact h.forall_states (fun s => ∀ id, some id ∈ [s.parent, s.initial] →
      (a.findState id).isSome) (fun _ => Iff.rfl) hA.stateReferences
  root := by
    have hRead := h.reading hA.stateIds (fun s => s.map StateSpec.parent)
      (fun s => by cases s <;> rfl) a.initial
    obtain ⟨s, hFind, hParent⟩ := hA.root
    rw [hFind, h.initial, Option.map_some, hParent] at hRead
    obtain ⟨s', hFind', hParent'⟩ := Option.map_eq_some_iff.mp hRead.symm
    exact ⟨s', hFind', hParent'⟩
  transitionReferences := by
    intro t ht id hId
    rw [← h.declared hA.stateIds]
    exact hA.transitionReferences t (h.transitions.mem_iff.mpr ht) id hId
  depths := by
    rw [← h.parentOf hA.stateIds, ← h.depthOf hA.stateIds, ← h.states_length]
    exact h.forall_states (fun s => climb a.parentOf (a.states.length - 1) 1 s.parent =
      some (a.depthOf s.id) ∧ a.depthOf s.id ≤ limits.maxDepth) (fun _ => Iff.rfl) hA.depths
  initials := by
    rw [← h.parentOf hA.stateIds]
    refine h.forall_states (fun s =>
      (s.initial = none → ∀ child ∈ b.states, child.parent ≠ some s.id) ∧
        ∀ i, s.initial = some i →
          a.parentOf i = some s.id ∧ ∃ child ∈ b.states, child.parent = some s.id)
      (fun _ => Iff.rfl) fun s hs => ?_
    obtain ⟨hLeaf, hComposite⟩ := hA.initials s hs
    refine ⟨fun hNone => ?_, fun i hi => ⟨(hComposite i hi).1, ?_⟩⟩
    · exact h.forall_states (fun child => child.parent ≠ some s.id) (fun _ => Iff.rfl)
        (hLeaf hNone)
    · exact h.exists_state (fun child => child.parent = some s.id) (fun _ => Iff.rfl)
        (hComposite i hi).2
  transitionIds := (h.transitions.map TransitionSpec.id).nodup hA.transitionIds
  localBelow := by
    intro t ht
    rw [← h.parentOf hA.stateIds]
    exact hA.localBelow t (h.transitions.mem_iff.mpr ht)
  groups := by
    intro key
    rw [← h.candidatesOf (hA.groups key).1]
    exact hA.groups key

/-! Worst cases. -/

theorem SameDefinition.foldl_max (h : SameDefinition a b) {p : StateSpec → Prop} [DecidablePred p]
    {value : StateSpec → Nat} (hValue : ∀ s, value s.unnamed = value s)
    (hName : ∀ s, p s.unnamed ↔ p s) :
    a.states.foldl (fun best s => if p s then max best (value s) else best) 0 =
      b.states.foldl (fun best s => if p s then max best (value s) else best) 0 := by
  apply h.foldl_states
  · intro n s
    simp only [hValue, hName]
  · intro n s t
    split_ifs
    · exact Nat.max_right_comm n (value s) (value t)
    all_goals rfl

theorem SameDefinition.maxExitBelow (h : SameDefinition a b) (hA : Grounded a c)
    (hB : Grounded b d) (fuel : Nat) : c.maxExitBelow fuel = d.maxExitBelow fuel := by
  induction fuel with
  | zero => rfl
  | succ fuel ih =>
      funext state
      rw [CompiledDefinition.maxExitBelow, CompiledDefinition.maxExitBelow, hA.states, hB.states,
        List.foldl_map, List.foldl_map, ih]
      exact h.foldl_max (p := fun s => s.parent = some state) (fun _ => rfl) (fun _ => Iff.rfl)

theorem SameDefinition.stopActions (h : SameDefinition a b) (hA : Grounded a c)
    (hB : Grounded b d) : c.stopActions = d.stopActions := by
  have hSize : c.states.length = d.states.length := (h.sameTree hA hB).size
  rw [CompiledDefinition.stopActions, CompiledDefinition.stopActions, hSize,
    h.maxExitBelow hA hB]
  generalize d.maxExitBelow d.states.length = below
  rw [hA.states, hB.states, List.foldl_map, List.foldl_map]
  exact h.foldl_max (p := fun s => s.parent.isNone) (fun _ => rfl) (fun _ => Iff.rfl)

theorem SameDefinition.worstCaseActions (h : SameDefinition a b) (hA : Grounded a c)
    (hB : Grounded b d) : c.worstCaseActions = d.worstCaseActions := by
  have hTree := h.sameTree hA hB
  funext t
  simp only [CompiledDefinition.worstCaseActions, CompiledDefinition.entryActionsBetween,
    CompiledDefinition.exitActionsBetween, CompiledDefinition.initialChainActions,
    hTree.size, h.maxExitBelow hA hB, hTree.ancestryBelow, hTree.initialChain,
    hTree.strictCommonAncestor, hTree.entryActions, hTree.exitActions]

theorem SameDefinition.startActions (h : SameDefinition a b) (hA : Grounded a c)
    (hB : Grounded b d) : c.startActions = d.startActions := by
  have hTree := h.sameTree hA hB
  simp only [CompiledDefinition.startActions, CompiledDefinition.initialChainActions,
    hTree.entryActions, hTree.rootInitial, hTree.initialChain]

theorem foldl_max_perm {list list' : List Nat} (hPerm : list.Perm list') (start : Nat) :
    list.foldl max start = list'.foldl max start :=
  hPerm.foldl_eq' (fun _ _ _ _ _ => Nat.max_right_comm _ _ _) start

/-- The last pass finds the same bound for both. -/
theorem SameDefinition.computeMaxPlanActions (h : SameDefinition a b) (hA : Checked a limits)
    (hB : Checked b limits) (hC : Drafted a limits c) (hD : Drafted b limits d) {count : Nat}
    (hPlan : c.computeMaxPlanActions = .ok count) : d.computeMaxPlanActions = .ok count := by
  obtain ⟨hGroundC, hLimitsC, hStoredC⟩ := hC.grounded hA
  obtain ⟨hGroundD, hLimitsD, hStoredD⟩ := hD.grounded hB
  have hPerm : c.transitions.Perm d.transitions := by
    rw [hStoredC, hStoredD]
    exact h.transitions.map compileTransition
  obtain ⟨hStart, hStop, hTransitions, rfl⟩ := computeMaxPlanActions_eq_ok.mp hPlan
  rw [computeMaxPlanActions_eq_ok, ← h.startActions hGroundC hGroundD,
    ← h.stopActions hGroundC hGroundD, ← h.worstCaseActions hGroundC hGroundD, hLimitsD, ← hLimitsC]
  refine ⟨hStart, hStop, fun t ht => hTransitions t (hPerm.mem_iff.mpr ht), ?_⟩
  exact foldl_max_perm (hPerm.map c.worstCaseActions) _

/-- What compiles in one presentation compiles in the other, with the same bound. -/
theorem SameDefinition.compiles (h : SameDefinition a b) (hCompile : compile a limits = .ok c) :
    ∃ d, compile b limits = .ok d ∧ d.maxPlanActions = c.maxPlanActions := by
  obtain ⟨hA, draft, count, hDraft, hPlan, rfl⟩ := compile_eq_ok.mp hCompile
  have hB := h.checked hA
  obtain ⟨draft', hDraft'⟩ := hB.drafted
  have hPlan' := h.computeMaxPlanActions hA hB hDraft hDraft' hPlan
  exact ⟨_, compile_eq_ok.mpr ⟨hB, draft', count, hDraft', hPlan', rfl⟩, rfl⟩

/-! Batches. -/

/-- `y` is `x`, or has the graph `d` where `x` has `c`. -/
def Replaces (c d : CompiledDefinition) (x y : BatchItem) : Prop :=
  y = x ∨ x.definition = c ∧ y = { x with definition := d }

theorem Agrees.evaluateItem_replaces (h : Agrees c d) {x y : BatchItem} (hItem : Replaces c d x y)
    (index : Nat) (scratch : Scratch) :
    Hfsm.evaluateItem index x scratch = Hfsm.evaluateItem index y scratch := by
  rcases hItem with rfl | ⟨rfl, rfl⟩
  · rfl
  · exact h.evaluateItem index x scratch

theorem Replaces.machineKey {x y : BatchItem} (hItem : Replaces c d x y) :
    x.machineKey = y.machineKey := by
  rcases hItem with rfl | ⟨-, rfl⟩ <;> rfl

theorem Agrees.evaluateItems (h : Agrees c d) {items items' : List BatchItem}
    (hItems : List.Forall₂ (Replaces c d) items items') (index : Nat) (scratch : Scratch) :
    Hfsm.evaluateItems index items scratch = Hfsm.evaluateItems index items' scratch := by
  induction hItems generalizing index scratch with
  | nil => rfl
  | cons hItem _ ih =>
      rw [Hfsm.evaluateItems, Hfsm.evaluateItems, h.evaluateItem_replaces hItem]
      exact ih _ _

/-- A batch in which one graph stands for the other has the same result. -/
theorem Agrees.evaluateBatch (h : Agrees c d) {items items' : List BatchItem}
    (hItems : List.Forall₂ (Replaces c d) items items') (limits : HfsmLimits) (out : PlanOutput)
    (scratch : Scratch) :
    Hfsm.evaluateBatch items limits out scratch = Hfsm.evaluateBatch items' limits out scratch := by
  have hKeys : items.map BatchItem.machineKey = items'.map BatchItem.machineKey := by
    induction hItems with
    | nil => rfl
    | cons hItem _ ih => rw [List.map_cons, List.map_cons, hItem.machineKey, ih]
  rw [Hfsm.evaluateBatch, Hfsm.evaluateBatch, hItems.length_eq, hKeys]
  simp only [h.evaluateItems hItems]

end Same

/-- Compilation does not depend on the order of the arrays or on names: both presentations
compile or neither does, and the graphs are alike in all that is observable. -/
theorem compile_presentation {a b : DefinitionSpec} (h : SameDefinition a b)
    (limits : HfsmLimits) :
    ((∃ c, compile a limits = .ok c) ↔ ∃ d, compile b limits = .ok d) ∧
      ∀ c d, compile a limits = .ok c → compile b limits = .ok d →
        c.fingerprint = d.fingerprint ∧ c.maxDepth = d.maxDepth ∧
        c.maxPlanActions = d.maxPlanActions ∧
        (∀ state event, c.candidatesOf state event = d.candidatesOf state event) ∧
        (∀ leaf event, c.requiredGuardsOf leaf event = d.requiredGuardsOf leaf event) ∧
        (∀ state, c.initialChain state = d.initialChain state) ∧
        ∀ items items', List.Forall₂ (Replaces c d) items items' → ∀ batchLimits out scratch,
          evaluateBatch items batchLimits out scratch =
            evaluateBatch items' batchLimits out scratch := by
  constructor
  · constructor
    · rintro ⟨c, hC⟩
      obtain ⟨d, hD, -⟩ := h.compiles hC
      exact ⟨d, hD⟩
    · rintro ⟨d, hD⟩
      obtain ⟨c, hC, -⟩ := h.symm.compiles hD
      exact ⟨c, hC⟩
  · intro c d hC hD
    have hAgrees := h.agrees (accepted hC) (accepted hD)
    obtain ⟨d', hD', hBound⟩ := h.compiles hC
    obtain rfl := Except.ok.inj (hD.symm.trans hD')
    exact ⟨hAgrees.fingerprint, hAgrees.maxDepth, hBound.symm,
      fun state event => congrFun (congrFun hAgrees.candidatesOf state) event,
      fun leaf event => congrFun (congrFun hAgrees.requiredGuardsOf leaf) event,
      fun state => congrFun hAgrees.initialChain state,
      fun _ _ hItems => hAgrees.evaluateBatch hItems⟩

/-- The boundary tree with its states reversed and without names. -/
def boundaryReversed : DefinitionSpec :=
  { boundarySpec with states := (boundarySpec.states.map StateSpec.unnamed).reverse }

theorem boundary_same : SameDefinition boundarySpec boundaryReversed where
  formatVersion := rfl
  initial := rfl
  states := (List.reverse_perm _).symm
  transitions := .refl _

theorem compile_presentation_boundary :
    ∃ d, compile boundaryReversed .default = .ok d ∧
      boundaryDefinition.fingerprint = d.fingerprint ∧
      boundaryDefinition.maxPlanActions = d.maxPlanActions := by
  obtain ⟨hBoth, hAlike⟩ := compile_presentation boundary_same .default
  obtain ⟨d, hD⟩ := hBoth.mp ⟨_, compile_boundarySpec⟩
  obtain ⟨hFingerprint, -, hBound, -⟩ := hAlike _ d compile_boundarySpec hD
  exact ⟨d, hD, hFingerprint, hBound⟩

end Hfsm

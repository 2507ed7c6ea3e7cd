import LumioNativeCore.Hfsm.Advance
import LumioNativeCore.Hfsm.Batching
import LumioNativeCore.Hfsm.WorstCase

/-! The two numbers that a compiled definition promises its host: no plan has a longer path
than `max_depth` or more actions than `max_plan_actions`, so that buffers of these lengths
take any batch. -/
namespace Hfsm

/-! What `compile` has bounded. -/

theorem compile_plansFit {spec : DefinitionSpec} {limits : HfsmLimits} {def_ : CompiledDefinition}
    (hCompile : compile spec limits = .ok def_) (hActions : spec.actionCount < 2 ^ 32) :
    spec.PlansFit def_.maxPlanActions ∧ def_.maxPlanActions ≤ limits.maxActionsPerPlan := by
  obtain ⟨hChecked, draft, maxPlanActions, hDraft, hBounded, rfl⟩ := compile_eq_ok.mp hCompile
  obtain ⟨hGround, hLimits, hStored⟩ := hDraft.grounded hChecked
  obtain ⟨hStart, hStop, hTransitions, rfl⟩ := computeMaxPlanActions_eq_ok.mp hBounded
  have hLe := le_foldl_max (draft.transitions.map draft.worstCaseActions)
    (max draft.startActions draft.stopActions)
  rw [← hLimits]
  constructor
  · apply (hGround.plansFit_iff hActions hStored
      (fun t ht => hChecked.transitionReferences t ht _ (by simp)) hChecked.localBelow).mp
    refine ⟨(le_max_left _ _).trans hLe.1, (le_max_right _ _).trans hLe.1, fun t ht => ?_⟩
    exact hLe.2 _ (List.mem_map_of_mem ht)
  · apply foldl_max_le (Nat.max_le.mpr ⟨hStart, hStop⟩)
    exact List.forall_mem_map.mpr hTransitions

/-! The actions of a reading. -/

section Reading

variable {spec : DefinitionSpec}

theorem length_actionRecords (index : Nat) (lines : List ActionLine) :
    (actionRecords index lines).length = (lines.flatMap ActionLine.actions).length := by
  simp [actionRecords, List.length_flatMap]

theorem exitLines_actions (active : List ActiveState) :
    (active.map spec.exitLine).flatMap ActionLine.actions =
      (active.map ActiveState.state).flatMap spec.exitActions := by
  rw [List.flatMap_map, List.flatMap_map]
  rfl

theorem enterLines_actions (seq : Nat) (states : List StateId) :
    ((activate seq states).map spec.enterLine).flatMap ActionLine.actions =
      states.flatMap spec.entryActions := by
  rw [List.flatMap_map]
  nth_rewrite 2 [← activate_map_state seq states]
  rw [List.flatMap_map]
  rfl

namespace Accepted

variable {def_ : CompiledDefinition} {bound : Nat}

/-- What is exited from a path leads from its leaf up to the domain. -/
theorem ascent_exited (h : Accepted spec def_) {leaf : StateId} {path kept exited : List ActiveState}
    (hPath : spec.IsPathTo leaf path) (hSplit : path = kept ++ exited) :
    Forest.Ascent spec.parentOf (kept.getLast?.map ActiveState.state) (some leaf)
      (exited.reverse.map ActiveState.state) := by
  have hAscent := h.falls.ascent_trail leaf
  change Forest.Ascent spec.parentOf none (some leaf) (spec.ancestry leaf) at hAscent
  rw [← hPath.2, hSplit, List.map_append, List.reverse_append, ← List.map_reverse] at hAscent
  rcases List.eq_nil_or_concat kept with rfl | ⟨front, last, rfl⟩
  · simpa using hAscent
  · rw [List.concat_eq_append, List.map_append, List.reverse_append] at hAscent
    rw [List.concat_eq_append, List.getLast?_concat]
    exact h.falls.ascent_below hAscent

/-- The plan of an event stays within the bound of its transition. -/
theorem reacts_fits (h : Accepted spec def_) (hFit : spec.PlansFit bound) {s : Snapshot}
    {event : EventKind} {guards : GuardFrame} {leaf : StateId} {reading : PlanReading}
    (hPath : spec.IsPathTo leaf s.activePath) (hReacts : spec.Reacts s event guards reading) :
    (reading.lines.flatMap ActionLine.actions).length ≤ bound := by
  have hReaches : ∀ source t, spec.IsSelected guards s.activePath event source t →
      Forest.Reaches spec.parentOf leaf t.source := by
    intro source t hSelected
    rw [hSelected.enabled.1.2.1, ← h.mem_ancestry, ← hPath.2, List.mem_reverse]
    exact List.mem_map_of_mem hSelected.active
  cases hReacts with
  | unhandled => exact Nat.zero_le _
  | @internal source t hSelected hKind =>
      have hLe := hFit.transition t hSelected.enabled.1.1 leaf _ hPath.1
        (hReaches source t hSelected) (.internal hKind)
      simpa [DefinitionSpec.transitionLine] using hLe
  | @crossing source t target domain kept exited entered hSelected hDomain hSplit hKept hEntered =>
      have hExited := h.ascent_exited hPath hSplit
      rw [hKept] at hExited
      have hLe := hFit.transition t hSelected.enabled.1.1 leaf _ hPath.1
        (hReaches source t hSelected) (.crossing hDomain hExited hEntered)
      show (List.flatMap ActionLine.actions (exited.reverse.map spec.exitLine ++
        [DefinitionSpec.transitionLine source t] ++
        (activate s.nextActivationSeq entered).map spec.enterLine)).length ≤ bound
      rw [List.flatMap_append, List.flatMap_append, exitLines_actions, enterLines_actions,
        List.length_append, List.length_append, List.flatMap_singleton]
      exact hLe

theorem readItem_fits {item : BatchItem} {header : SnapshotHeader} {reading : PlanReading}
    (h : Accepted spec item.definition) (hFit : spec.PlansFit bound)
    (hRead : readItem item = .ok (header, reading)) :
    (reading.lines.flatMap ActionLine.actions).length ≤ bound := by
  rw [readItem] at hRead
  cases hKind : item.kind with
  | start epoch =>
      simp only [hKind, readStart, Check.bind_eq_ok, Except.ok.injEq, Prod.mk.injEq] at hRead
      obtain ⟨counters, -, step, -, active, hEnter, -, rfl⟩ := hRead
      obtain ⟨rfl, -⟩ := enterStates_eq_ok.mp hEnter
      rw [h.enterLine_eq, enterLines_actions, h.rootInitial]
      exact hFit.start _ h.enters_root
  | event event =>
      rw [hKind] at hRead
      obtain ⟨s, step, leaf, -, -, -, hPath, hReacts, -, -⟩ := h.readEvent_reacts hRead
      exact h.reacts_fits hFit hPath hReacts
  | stop =>
      simp only [hKind, readStop, Check.bind_eq_ok] at hRead
      obtain ⟨s, hAdmit, hRead⟩ := hRead
      split_ifs at hRead with hRunning
      simp only [Check.bind_eq_ok, Except.ok.injEq, Prod.mk.injEq] at hRead
      obtain ⟨step, -, -, rfl⟩ := hRead
      obtain ⟨leaf, -, hPath, -⟩ :=
        h.running_path (admit_eq_ok.mp hAdmit).2.2 (not_not.mp hRunning)
      rw [h.exitLine_eq, exitLines_actions, List.map_reverse, hPath.2]
      exact hFit.stop leaf _ hPath.1 (h.falls.ascent_trail leaf)

/-- The records of an item stay within the two numbers of its definition. -/
theorem records_fit {item : BatchItem} (h : Accepted spec item.definition)
    (hFit : spec.PlansFit item.definition.maxPlanActions) (index : Nat) :
    (readActions (item, index)).length ≤ item.definition.maxPlanActions ∧
      (readPath item).length ≤ item.definition.maxDepth := by
  rw [readActions, readPath]
  cases hRead : readItem item with
  | error failure => exact ⟨Nat.zero_le _, Nat.zero_le _⟩
  | ok read =>
      refine ⟨?_, h.path_length_le (h.readItem_advances hRead)⟩
      show (actionRecords _ read.2.lines).length ≤ _
      rw [length_actionRecords]
      exact h.readItem_fits hFit hRead

end Accepted

end Reading

/-! Batches. -/

/-- The definition comes from a spec whose action ids are counted by a `u32`. -/
def CompiledDefinition.IsCompiled (def_ : CompiledDefinition) : Prop :=
  ∃ spec limits, compile spec limits = .ok def_ ∧ spec.actionCount < 2 ^ 32

theorem CompiledDefinition.IsCompiled.records_fit {item : BatchItem}
    (h : item.definition.IsCompiled) (index : Nat) :
    (readActions (item, index)).length ≤ item.definition.maxPlanActions ∧
      (readPath item).length ≤ item.definition.maxDepth := by
  obtain ⟨spec, limits, hCompile, hActions⟩ := h
  exact (accepted hCompile).records_fit (compile_plansFit hCompile hActions).1 index

/-- Buffers that are as long as the definitions ask take every record. -/
theorem room_of_bounds {items : List BatchItem} {out : PlanOutput}
    (hCompiled : ∀ item ∈ items, item.definition.IsCompiled)
    (hItems : items.length ≤ out.items.length)
    (hPaths : (items.map fun item => item.definition.maxDepth).sum ≤ out.paths.length)
    (hActions : (items.map fun item => item.definition.maxPlanActions).sum ≤ out.actions.length) :
    Room items out where
  plans := (length_batchPlans items).symm ▸ hItems
  paths := by
    rw [batchPaths, List.length_flatMap]
    apply le_trans ?_ hPaths
    exact List.sum_le_sum fun item hItem => ((hCompiled item hItem).records_fit 0).2
  actions := by
    have hSum : (items.map fun item => item.definition.maxPlanActions) =
        items.zipIdx.map fun entry => entry.1.definition.maxPlanActions := by
      nth_rewrite 1 [← List.zipIdx_map_fst 0 items]
      rw [List.map_map]
      rfl
    rw [hSum] at hActions
    rw [batchActions, List.length_flatMap]
    apply le_trans ?_ hActions
    apply List.sum_le_sum
    rintro ⟨item, index⟩ hEntry
    exact ((hCompiled item (List.fst_mem_of_mem_zipIdx hEntry)).records_fit index).1

/-- The numbers that `compile` finds bound every plan, so that a host which sizes its buffers
by them is never told that they are too small. -/
theorem plan_bounds_sound :
    (∀ spec limits def_, compile spec limits = .ok def_ → spec.actionCount < 2 ^ 32 →
      def_.maxPlanActions ≤ limits.maxActionsPerPlan ∧ def_.maxDepth ≤ limits.maxDepth ∧
      ∀ index item scratch, item.definition = def_ →
        (evaluateItem index item scratch).1.actionLen ≤ def_.maxPlanActions ∧
        (evaluateItem index item scratch).1.pathLen ≤ def_.maxDepth) ∧
    ∀ items limits out scratch, (∀ item ∈ items, item.definition.IsCompiled) →
      items.length ≤ out.items.length →
      (items.map fun item => item.definition.maxDepth).sum ≤ out.paths.length →
      (items.map fun item => item.definition.maxPlanActions).sum ≤ out.actions.length →
      ∀ requiredItems requiredPaths requiredActions,
        (evaluateBatch items limits out scratch).1 ≠
          .error (.bufferTooSmall requiredItems requiredPaths requiredActions) := by
  constructor
  · intro spec limits def_ hCompile hActions
    obtain ⟨hFit, hPlan⟩ := compile_plansFit hCompile hActions
    refine ⟨hPlan, compile_maxDepth hCompile, ?_⟩
    rintro index item scratch rfl
    have h := accepted hCompile
    rw [evaluateItem_eq]
    cases hRead : readItem item with
    | error failure => exact ⟨Nat.zero_le _, Nat.zero_le _⟩
    | ok read =>
        show Word.asU32 (actionRecords index read.2.lines).length ≤ _ ∧
          Word.asU32 read.2.path.length ≤ _
        rw [length_actionRecords]
        exact ⟨(Nat.mod_le _ _).trans (h.readItem_fits hFit hRead),
          (Nat.mod_le _ _).trans (h.path_length_le (h.readItem_advances hRead))⟩
  · intro items limits out scratch hCompiled hItems hPaths hActions p q r
    have hRoom := room_of_bounds hCompiled hItems hPaths hActions
    by_cases h : Admissible items limits
    · obtain ⟨scratch', hBatch⟩ := @evaluateBatch_room items limits out scratch h hRoom
      rw [hBatch]
      exact fun hError => by cases hError
    · obtain ⟨failure, scratch', hBatch, hOther⟩ :=
        @evaluateBatch_refused items limits out scratch h
      rw [hBatch]
      exact fun hError => hOther p q r (Except.error.inj hError)

/-- The event on the tree of the boundary examples exits, acts and enters once each. -/
theorem plan_bounds_sound_boundary :
    (evaluateItem 0 boundaryItem .empty).1.actionLen = 3 ∧
      (evaluateItem 0 boundaryItem .empty).1.actionLen ≤ boundaryDefinition.maxPlanActions ∧
      boundaryDefinition.maxPlanActions ≤ HfsmLimits.default.maxActionsPerPlan := by
  obtain ⟨hPlan, -, hItems⟩ := plan_bounds_sound.1 boundarySpec .default boundaryDefinition
    compile_boundarySpec (by decide)
  exact ⟨by decide +kernel, (hItems 0 boundaryItem .empty rfl).1, hPlan⟩

end Hfsm

import LumioNativeCore.Hfsm.Batch
import LumioNativeCore.Hfsm.Conformance

/-! What a batch is to its items and to its caller: every item is evaluated as if it
stood alone, and the caller's buffers hold all of the batch or are not touched. -/
namespace Hfsm

/-- The record totals of a batch fit the integers that count them. -/
structure Totals (items : List BatchItem) : Prop where
  plans : (batchPlans items).length < 2 ^ 32
  paths : (batchPaths items).length < 2 ^ 32
  actions : (batchActions items).length < 2 ^ 32

def ItemPlan.pathSlice (plan : ItemPlan) (out : PlanOutput) : List ActiveState :=
  Buffer.slice out.paths plan.pathStart plan.pathLen

def ItemPlan.actionSlice (plan : ItemPlan) (out : PlanOutput) : List ActionRecord :=
  Buffer.slice out.actions plan.actionStart plan.actionLen

/-- Two plans of an item, the first of them at position `i` of its batch, say the same. -/
structure SameResult (i : Nat) (plan : ItemPlan) (out : PlanOutput) (plan' : ItemPlan)
    (out' : PlanOutput) : Prop where
  outcome : plan.outcome = plan'.outcome
  next : plan.next = plan'.next
  path : plan.pathSlice out = plan'.pathSlice out'
  actions : plan.actionSlice out =
    (plan'.actionSlice out').map fun record => { record with itemIndex := i }

section Item

variable {item : BatchItem} {header : SnapshotHeader} {reading : PlanReading}

/-- What has a reading is not rejected. -/
theorem readSelected_accepted {def_ : CompiledDefinition} {s : Snapshot}
    {selected : Option (Nat × CompiledTransition)}
    (h : def_.readSelected s selected = .ok reading) :
    ∀ failure, reading.outcome ≠ .rejected failure := by
  intro failure hRejected
  cases selected with
  | none =>
      obtain rfl := Except.ok.inj h
      cases hRejected
  | some chosen =>
      obtain ⟨level, t⟩ := chosen
      rw [CompiledDefinition.readSelected] at h
      have hCrossing : ∀ keep source target, def_.readCrossing s keep source t target = .ok reading →
          False := by
        intro keep source target hRead
        rw [CompiledDefinition.readCrossing] at hRead
        cases hEnter : enterStates s.nextActivationSeq
            (def_.enteredBelow ((s.activePath.take keep).getLast?.map ActiveState.state) target) with
        | error failure' => simp [hEnter, Except.map] at hRead
        | ok entered =>
            simp only [hEnter, Except.map, Except.ok.injEq] at hRead
            rw [← hRead] at hRejected
            cases hRejected
      cases hSource : s.activePath[level]? with
      | none => simp [hSource] at h
      | some source =>
          simp only [hSource, CompiledDefinition.readTransition] at h
          cases hKind : t.kind with
          | internal =>
              simp only [hKind, Except.ok.injEq] at h
              rw [← h] at hRejected
              cases hRejected
          | «local» target =>
              rw [hKind] at h
              exact hCrossing _ _ _ h
          | external target =>
              rw [hKind] at h
              exact hCrossing _ _ _ h

theorem readItem_accepted (h : readItem item = .ok (header, reading)) :
    ∀ failure, reading.outcome ≠ .rejected failure := by
  intro failure hRejected
  rw [readItem] at h
  cases hKind : item.kind with
  | start epoch =>
      simp only [hKind, readStart, Check.bind_eq_ok] at h
      obtain ⟨_, -, _, -, _, -, hRead⟩ := h
      obtain ⟨-, rfl⟩ := Prod.mk.inj (Except.ok.inj hRead)
      cases hRejected
  | event event =>
      simp only [hKind, readEvent, Check.bind_eq_ok] at h
      obtain ⟨s, -, _, -, selected, -, _, hSelected, hRead⟩ := h
      obtain ⟨-, rfl⟩ := Prod.mk.inj (Except.ok.inj hRead)
      exact readSelected_accepted hSelected failure hRejected
  | stop =>
      simp only [hKind, readStop, Check.bind_eq_ok] at h
      obtain ⟨s, -, h⟩ := h
      split_ifs at h
      obtain ⟨_, -, hRead⟩ := Check.bind_eq_ok.mp h
      obtain ⟨-, rfl⟩ := Prod.mk.inj (Except.ok.inj hRead)
      cases hRejected

/-- The outcome says of an item without a reading why it has none. -/
theorem evaluateItem_rejected {index : Nat} {scratch : Scratch} {failure : ItemError} :
    (evaluateItem index item scratch).1.outcome = .rejected failure ↔
      readItem item = .error failure := by
  rw [evaluateItem_eq]
  cases hRead : readItem item with
  | error found => simp [writeResult, rejectedPlan]
  | ok result =>
      have hAccepted := readItem_accepted hRead failure
      simpa [writeResult, PlanReading.write] using hAccepted

/-- The position of an item shows in its records only as their `item_index`. -/
theorem readActions_reindex (item : BatchItem) (i j : Nat) :
    readActions (item, i) =
      (readActions (item, j)).map fun record => { record with itemIndex := Word.asU32 i } := by
  rw [readActions, readActions]
  cases readItem item with
  | error failure => rfl
  | ok read =>
      apply List.ext_getElem?
      intro n
      simp [actionRecords, List.getElem?_mapIdx, Function.comp_def]

theorem readActions_length (item : BatchItem) (i j : Nat) :
    (readActions (item, i)).length = (readActions (item, j)).length := by
  rw [readActions_reindex item i j, List.length_map]

end Item
section Batch

variable {items : List BatchItem} {limits : HfsmLimits} {out out' : PlanOutput}
  {scratch scratch' : Scratch} {status : BatchStatus} {i : Nat} {item : BatchItem}

theorem length_batchPlans (items : List BatchItem) : (batchPlans items).length = items.length := by
  simp [batchPlans]

theorem entry_of_getElem? (h : items[i]? = some item) : items.zipIdx[i]? = some (item, i) := by
  rw [List.getElem?_zipIdx, h]
  simp

/-- What an accepted batch has done to the buffers. -/
theorem written_of_accepted (hTotals : Totals items)
    (hBatch : evaluateBatch items limits out scratch = (.ok status, out', scratch')) :
    out' = out.written items ∧ Room items out ∧ Admissible items limits ∧
      status = ⟨(batchPlans items).length, (batchPaths items).length,
        (batchActions items).length⟩ := by
  have hAccepted : ∃ status, (evaluateBatch items limits out scratch).1 = .ok status :=
    ⟨status, by rw [hBatch]⟩
  obtain ⟨hAdmissible, hRoom⟩ := evaluateBatch_accepts.mp hAccepted
  obtain ⟨_, hWritten⟩ := @evaluateBatch_room items limits out scratch hAdmissible hRoom
  rw [hBatch, Word.asU32_of_lt hTotals.plans, Word.asU32_of_lt hTotals.paths,
    Word.asU32_of_lt hTotals.actions] at hWritten
  obtain ⟨hStatus, hRest⟩ := Prod.mk.inj hWritten
  exact ⟨(Prod.mk.inj hRest).1, hRoom, hAdmissible, Except.ok.inj hStatus⟩

theorem planAt_actionLen (item : BatchItem) {index : Nat}
    (hActions : (readActions (item, index)).length < 2 ^ 32) (pathStart actionStart : Nat) :
    (planAt item (Word.asU32 index) pathStart actionStart).actionLen =
      (readActions (item, index)).length := by
  rw [planAt, readActions]
  rw [readActions] at hActions
  cases hRead : readItem item with
  | error failure => rfl
  | ok read =>
      simp only [hRead] at hActions
      exact Word.asU32_of_lt hActions

/-- The lengths of a plan are those of its records. -/
theorem planAt_lengths (hTotals : Totals items) (h : items[i]? = some item)
    (index pathStart actionStart : Nat) :
    (planAt item (Word.asU32 index) pathStart actionStart).pathLen = (readPath item).length ∧
      (planAt item (Word.asU32 index) pathStart actionStart).actionLen =
        (readActions (item, index)).length := by
  have hPaths : (readPath item).length < 2 ^ 32 := by
    have hLe := Buffer.start_le readPath h
    have hTotal := hTotals.paths
    rw [batchPaths] at hTotal
    omega
  have hActions : (readActions (item, index)).length < 2 ^ 32 := by
    have hLe := Buffer.start_le readActions (entry_of_getElem? h)
    have hTotal := hTotals.actions
    rw [batchActions] at hTotal
    rw [readActions_length item index i]
    omega
  refine ⟨?_, planAt_actionLen item hActions pathStart actionStart⟩
  rw [planAt, readPath]
  rw [readPath] at hPaths
  cases hRead : readItem item with
  | error failure => rfl
  | ok read =>
      simp only [hRead] at hPaths
      exact Word.asU32_of_lt hPaths

theorem planAt_starts (item : BatchItem) (index pathStart actionStart : Nat) :
    (planAt item index pathStart actionStart).pathStart = Word.asU32 pathStart ∧
      (planAt item index pathStart actionStart).actionStart = Word.asU32 actionStart := by
  rw [planAt]
  cases readItem item with
  | error failure => exact ⟨rfl, rfl⟩
  | ok read => exact ⟨rfl, rfl⟩

/-- The plan of each item starts where the records of the items before it end. -/
theorem start_of_accepted (hTotals : Totals items) (h : items[i]? = some item) :
    Word.asU32 (Buffer.start readPath items i) = Buffer.start readPath items i ∧
      Word.asU32 (Buffer.start readActions items.zipIdx i) =
        Buffer.start readActions items.zipIdx i := by
  have hPaths := Buffer.start_le readPath h
  have hActions := Buffer.start_le readActions (entry_of_getElem? h)
  have hTotalPaths := hTotals.paths
  have hTotalActions := hTotals.actions
  rw [batchPaths] at hTotalPaths
  rw [batchActions] at hTotalActions
  exact ⟨Word.asU32_of_lt (by omega), Word.asU32_of_lt (by omega)⟩

/-- Every item of an accepted batch has its own plan and its own slices. -/
theorem item_of_accepted (hTotals : Totals items)
    (hBatch : evaluateBatch items limits out scratch = (.ok status, out', scratch'))
    (h : items[i]? = some item) :
    ∃ plan, out'.items[i]? = some plan ∧
      plan = planAt item (Word.asU32 i) (Buffer.start readPath items i)
        (Buffer.start readActions items.zipIdx i) ∧
      plan.pathSlice out' = readPath item ∧ plan.actionSlice out' = readActions (item, i) := by
  obtain ⟨rfl, -⟩ := written_of_accepted hTotals hBatch
  have hPlan := batchPlans_of_getElem? h
  obtain ⟨hIndex, -⟩ := List.getElem?_eq_some_iff.mp hPlan
  obtain ⟨hPathLen, hActionLen⟩ := planAt_lengths hTotals h i (Buffer.start readPath items i)
    (Buffer.start readActions items.zipIdx i)
  obtain ⟨hPathStart, hActionStart⟩ := planAt_starts item (Word.asU32 i)
    (Buffer.start readPath items i) (Buffer.start readActions items.zipIdx i)
  obtain ⟨hPathFits, hActionFits⟩ := start_of_accepted hTotals h
  refine ⟨_, (List.getElem?_append_left hIndex).trans hPlan, rfl, ?_, ?_⟩
  · rw [ItemPlan.pathSlice, hPathLen, hPathStart, hPathFits]
    exact Buffer.slice_start readPath h _
  · rw [ItemPlan.actionSlice, hActionLen, hActionStart, hActionFits]
    exact Buffer.slice_start readActions (entry_of_getElem? h) _

theorem planAt_outcome (item : BatchItem) (index index' start start' begin begin' : Nat) :
    (planAt item index start begin).outcome = (planAt item index' start' begin').outcome ∧
      (planAt item index start begin).next = (planAt item index' start' begin').next := by
  rw [planAt, planAt]
  cases readItem item with
  | error failure => exact ⟨rfl, rfl⟩
  | ok read => exact ⟨rfl, rfl⟩

/-- An item gives the same result in any two batches that are accepted. -/
theorem sameResult_of_accepted {items₂ : List BatchItem} {limits₂ : HfsmLimits}
    {out₂ out₂' : PlanOutput} {scratch₂ scratch₂' : Scratch} {status₂ : BatchStatus} {j : Nat}
    (hTotals : Totals items) (hTotals₂ : Totals items₂)
    (hBatch : evaluateBatch items limits out scratch = (.ok status, out', scratch'))
    (hBatch₂ : evaluateBatch items₂ limits₂ out₂ scratch₂ = (.ok status₂, out₂', scratch₂'))
    (h : items[i]? = some item) (h₂ : items₂[j]? = some item) {plan : ItemPlan}
    (hPlan : out'.items[i]? = some plan) :
    ∃ plan₂, out₂'.items[j]? = some plan₂ ∧ SameResult i plan out' plan₂ out₂' := by
  obtain ⟨found, hFound, hSpec, hPath, hActions⟩ := item_of_accepted hTotals hBatch h
  obtain rfl := Option.some.inj (hFound.symm.trans hPlan)
  obtain ⟨plan₂, hPlan₂, hSpec₂, hPath₂, hActions₂⟩ := item_of_accepted hTotals₂ hBatch₂ h₂
  refine ⟨plan₂, hPlan₂, ?_, ?_, hPath.trans hPath₂.symm, ?_⟩
  · rw [hSpec, hSpec₂]
    exact (planAt_outcome item _ _ _ _ _ _).1
  · rw [hSpec, hSpec₂]
    exact (planAt_outcome item _ _ _ _ _ _).2
  · have hIndex : Word.asU32 i = i := by
      obtain ⟨hLess, -⟩ := List.getElem?_eq_some_iff.mp h
      have hTotal := hTotals.plans
      rw [length_batchPlans] at hTotal
      exact Word.asU32_of_lt (by omega)
    rw [hActions, hActions₂, readActions_reindex item i j, hIndex]

/-- An item of an accepted batch is accepted alone, by the same limits and buffers. -/
theorem accepted_alone (hTotals : Totals items)
    (hBatch : evaluateBatch items limits out scratch = (.ok status, out', scratch'))
    (h : items[i]? = some item) :
    Totals [item] ∧ ∃ status₁ out₁ scratch₁,
      evaluateBatch [item] limits out .empty = (.ok status₁, out₁, scratch₁) := by
  obtain ⟨-, hRoom, hAdmissible, -⟩ := written_of_accepted hTotals hBatch
  obtain ⟨hIndex, -⟩ := List.getElem?_eq_some_iff.mp h
  have hPaths : (batchPaths [item]).length ≤ (batchPaths items).length := by
    have hLe := Buffer.start_le readPath h
    rw [batchPaths, batchPaths, List.flatMap_singleton]
    omega
  have hActions : (batchActions [item]).length ≤ (batchActions items).length := by
    have hLe := Buffer.start_le readActions (entry_of_getElem? h)
    have hOne : batchActions [item] = readActions (item, 0) := by simp [batchActions]
    rw [hOne, readActions_length item 0 i, batchActions]
    omega
  have hPlans : (batchPlans [item]).length ≤ (batchPlans items).length := by
    rw [length_batchPlans, length_batchPlans, List.length_singleton]
    omega
  have hAlone : Admissible [item] limits := by
    refine ⟨hAdmissible.valid, ?_, List.nodup_singleton _⟩
    have hShort := hAdmissible.short
    have hTotal := hTotals.plans
    rw [length_batchPlans] at hTotal
    rw [Word.asU32_of_lt hTotal] at hShort
    show Word.asU32 1 ≤ limits.maxBatch
    have hOne : Word.asU32 1 = 1 := rfl
    omega
  refine ⟨⟨hPlans.trans_lt hTotals.plans, hPaths.trans_lt hTotals.paths,
    hActions.trans_lt hTotals.actions⟩, ?_⟩
  obtain ⟨scratch₁, hOne⟩ := @evaluateBatch_room [item] limits out .empty hAlone
    ⟨hPlans.trans hRoom.plans, hPaths.trans hRoom.paths, hActions.trans hRoom.actions⟩
  exact ⟨_, _, scratch₁, hOne⟩

/-- The lengths of the first plans add up to where the next one starts. -/
theorem sum_lengths (hTotals : Totals items) (hBound : i ≤ items.length) :
    (((batchPlans items).take i).map ItemPlan.pathLen).sum = Buffer.start readPath items i ∧
      (((batchPlans items).take i).map ItemPlan.actionLen).sum =
        Buffer.start readActions items.zipIdx i := by
  induction i with
  | zero => exact ⟨rfl, rfl⟩
  | succ i ih =>
      obtain ⟨hPaths, hActions⟩ := ih (by omega)
      have hItem : items[i]? = some items[i] := List.getElem?_eq_getElem (by omega)
      obtain ⟨hPathLen, hActionLen⟩ := planAt_lengths hTotals hItem i
        (Buffer.start readPath items i) (Buffer.start readActions items.zipIdx i)
      rw [List.take_add_one, batchPlans_of_getElem? hItem, Option.toList_some,
        Buffer.start_succ readPath hItem, Buffer.start_succ readActions (entry_of_getElem? hItem),
        ← hPathLen, ← hActionLen, ← hPaths, ← hActions]
      simp

/-- A batch is its items, one by one: each has the result it has alone in an empty
scratch, or in any other batch; the slices follow one another and cover what was
written; and a rejected item owns none of it. -/
theorem batch_homomorphism (hTotals : Totals items)
    (hBatch : evaluateBatch items limits out scratch = (.ok status, out', scratch')) :
    (∀ i item, items[i]? = some item → ∃ plan, out'.items[i]? = some plan ∧
      (∃ status₁ out₁ scratch₁ single,
        evaluateBatch [item] limits out .empty = (.ok status₁, out₁, scratch₁) ∧
          out₁.items[0]? = some single ∧ SameResult i plan out' single out₁) ∧
      (∀ (items₂ : List BatchItem) (limits₂ : HfsmLimits) (out₂ : PlanOutput) (scratch₂ : Scratch)
        (status₂ : BatchStatus) (out₂' : PlanOutput) (scratch₂' : Scratch) (j : Nat), Totals items₂ →
        evaluateBatch items₂ limits₂ out₂ scratch₂ = (.ok status₂, out₂', scratch₂') →
          items₂[j]? = some item →
            ∃ plan₂, out₂'.items[j]? = some plan₂ ∧ SameResult i plan out' plan₂ out₂') ∧
      plan.pathStart = ((out'.items.take i).map ItemPlan.pathLen).sum ∧
      plan.actionStart = ((out'.items.take i).map ItemPlan.actionLen).sum ∧
      ∀ failure, plan.outcome = .rejected failure → plan.pathLen = 0 ∧ plan.actionLen = 0) ∧
    status.itemsWritten = items.length ∧
    status.pathsWritten = ((out'.items.take items.length).map ItemPlan.pathLen).sum ∧
    status.actionsWritten = ((out'.items.take items.length).map ItemPlan.actionLen).sum := by
  obtain ⟨hWritten, -, -, hStatus⟩ := written_of_accepted hTotals hBatch
  have hTake : ∀ n ≤ items.length, out'.items.take n = (batchPlans items).take n := by
    intro n hn
    rw [hWritten]
    exact List.take_append_of_le_length (by rw [length_batchPlans]; exact hn)
  refine ⟨fun i item h => ?_, ?_, ?_, ?_⟩
  · obtain ⟨hIndex, -⟩ := List.getElem?_eq_some_iff.mp h
    obtain ⟨plan, hPlan, hSpec, -⟩ := item_of_accepted hTotals hBatch h
    obtain ⟨hTotals₁, status₁, out₁, scratch₁, hAlone⟩ := accepted_alone hTotals hBatch h
    obtain ⟨single, hSingle, hSame⟩ :=
      sameResult_of_accepted hTotals hTotals₁ hBatch hAlone h (j := 0) rfl hPlan
    obtain ⟨hPathStart, hActionStart⟩ := planAt_starts item (Word.asU32 i)
      (Buffer.start readPath items i) (Buffer.start readActions items.zipIdx i)
    obtain ⟨hPathFits, hActionFits⟩ := start_of_accepted hTotals h
    obtain ⟨hPathSum, hActionSum⟩ := sum_lengths hTotals (Nat.le_of_lt hIndex)
    refine ⟨plan, hPlan, ⟨status₁, out₁, scratch₁, single, hAlone, hSingle, hSame⟩, ?_, ?_, ?_, ?_⟩
    · intro items₂ limits₂ out₂ scratch₂ status₂ out₂' scratch₂' j hTotals₂ hBatch₂ h₂
      exact sameResult_of_accepted hTotals hTotals₂ hBatch hBatch₂ h h₂ hPlan
    · rw [hTake i (Nat.le_of_lt hIndex), hPathSum, hSpec, hPathStart, hPathFits]
    · rw [hTake i (Nat.le_of_lt hIndex), hActionSum, hSpec, hActionStart, hActionFits]
    · intro failure hRejected
      rw [hSpec, planAt] at hRejected ⊢
      cases hRead : readItem item with
      | error failure' => exact ⟨rfl, rfl⟩
      | ok read =>
          simp only [hRead] at hRejected
          exact absurd hRejected (readItem_accepted hRead failure)
  · rw [hStatus]
    exact length_batchPlans items
  · rw [hStatus, hTake items.length (Nat.le_refl _), (sum_lengths hTotals (Nat.le_refl _)).1,
      Buffer.start_length]
    rfl
  · rw [hStatus, hTake items.length (Nat.le_refl _), (sum_lengths hTotals (Nat.le_refl _)).2,
      ← List.length_zipIdx (l := items), Buffer.start_length]
    rfl

end Batch

/-- The boundary item beside one whose snapshot belongs to another machine. -/
def pairBatch : List BatchItem := [{ boundaryItem with machineKey := 2 }, boundaryItem]

def roomyOutput : PlanOutput where
  items := List.replicate 3 ⟨.notEvaluated, none, 0, 0, 0, 0⟩
  paths := List.replicate 4 ⟨⟨0⟩, 0⟩
  actions := List.replicate 8 ⟨0, 0, .exit, ⟨0⟩, ⟨0⟩, 0⟩

theorem pairBatch_totals : Totals pairBatch :=
  ⟨by decide +kernel, by decide +kernel, by decide +kernel⟩

theorem pairBatch_accepted : ∃ status out' scratch',
    evaluateBatch pairBatch .default roomyOutput .empty = (.ok status, out', scratch') := by
  obtain ⟨scratch', hBatch⟩ := @evaluateBatch_room pairBatch .default roomyOutput .empty
    ⟨rfl, by decide +kernel, by decide⟩ ⟨by decide +kernel, by decide +kernel, by decide +kernel⟩
  exact ⟨_, _, scratch', hBatch⟩

/-- The rejected neighbour leaves the transition what it is alone. -/
theorem batch_homomorphism_pair : ∃ status out' scratch' plan,
    evaluateBatch pairBatch .default roomyOutput .empty = (.ok status, out', scratch') ∧
      out'.items[1]? = some plan ∧ ∃ status₁ out₁ scratch₁ single,
        evaluateBatch [boundaryItem] .default roomyOutput .empty = (.ok status₁, out₁, scratch₁) ∧
          out₁.items[0]? = some single ∧ SameResult 1 plan out' single out₁ := by
  obtain ⟨status, out', scratch', hBatch⟩ := pairBatch_accepted
  obtain ⟨plan, hPlan, hAlone, -⟩ :=
    (batch_homomorphism pairBatch_totals hBatch).1 1 boundaryItem rfl
  exact ⟨status, out', scratch', plan, hBatch, hPlan, hAlone⟩

/-- The output of a batch is all or nothing, and its size is known exactly: the three
numbers of a refusal, and of a success, are the lengths that any buffers must have for
the same batch, and every success writes the same prefix. -/
theorem batch_all_or_nothing {items : List BatchItem} (hTotals : Totals items)
    (limits : HfsmLimits) (out : PlanOutput) (scratch : Scratch) :
    ((∃ status, (evaluateBatch items limits out scratch).1 = .ok status) ↔
      limits.isValid = true ∧ items.length ≤ limits.maxBatch ∧
        (items.map BatchItem.machineKey).Nodup ∧ Room items out) ∧
    (∀ failure, (evaluateBatch items limits out scratch).1 = .error failure →
      (evaluateBatch items limits out scratch).2.1 = out) ∧
    ∀ p q r, (evaluateBatch items limits out scratch).1 = .error (.bufferTooSmall p q r) ∨
        (evaluateBatch items limits out scratch).1 = .ok ⟨p, q, r⟩ →
      ∃ written : PlanOutput, written.items.length = p ∧ written.paths.length = q ∧
        written.actions.length = r ∧ ∀ (out' : PlanOutput) (scratch' : Scratch),
          (p ≤ out'.items.length ∧ q ≤ out'.paths.length ∧ r ≤ out'.actions.length →
            (evaluateBatch items limits out' scratch').1 = .ok ⟨p, q, r⟩ ∧
              (evaluateBatch items limits out' scratch').2.1 =
                { items := written.items ++ out'.items.drop p
                  paths := written.paths ++ out'.paths.drop q
                  actions := written.actions ++ out'.actions.drop r }) ∧
          (¬(p ≤ out'.items.length ∧ q ≤ out'.paths.length ∧ r ≤ out'.actions.length) →
            (evaluateBatch items limits out' scratch').1 = .error (.bufferTooSmall p q r) ∧
              (evaluateBatch items limits out' scratch').2.1 = out') := by
  have hShort : Word.asU32 items.length = items.length := by
    have hTotal := hTotals.plans
    rw [length_batchPlans] at hTotal
    exact Word.asU32_of_lt hTotal
  refine ⟨?_, ?_, ?_⟩
  · rw [evaluateBatch_accepts]
    constructor
    · rintro ⟨⟨hValid, hLength, hDistinct⟩, hRoom⟩
      exact ⟨hValid, hShort ▸ hLength, hDistinct, hRoom⟩
    · rintro ⟨hValid, hLength, hDistinct, hRoom⟩
      exact ⟨⟨hValid, hShort.symm ▸ hLength, hDistinct⟩, hRoom⟩
  · intro failure hFailure
    by_cases h : Admissible items limits
    · by_cases hRoom : Room items out
      · obtain ⟨_, hBatch⟩ := @evaluateBatch_room items limits out scratch h hRoom
        rw [hBatch] at hFailure
        cases hFailure
      · obtain ⟨_, hBatch⟩ := @evaluateBatch_small items limits out scratch h hRoom
        rw [hBatch]
    · obtain ⟨_, _, hBatch, -⟩ := @evaluateBatch_refused items limits out scratch h
      rw [hBatch]
  · intro p q r hSized
    have h : Admissible items limits := by
      by_contra hNot
      obtain ⟨failure, _, hBatch, hOther⟩ := @evaluateBatch_refused items limits out scratch hNot
      rw [hBatch] at hSized
      rcases hSized with hSmall | hOk
      · exact hOther p q r (Except.error.inj hSmall)
      · cases hOk
    have hNumbers : p = (batchPlans items).length ∧ q = (batchPaths items).length ∧
        r = (batchActions items).length := by
      by_cases hRoom : Room items out
      · obtain ⟨_, hBatch⟩ := @evaluateBatch_room items limits out scratch h hRoom
        rw [hBatch, Word.asU32_of_lt hTotals.plans, Word.asU32_of_lt hTotals.paths,
          Word.asU32_of_lt hTotals.actions] at hSized
        rcases hSized with hSmall | hOk
        · cases hSmall
        · cases hOk
          exact ⟨rfl, rfl, rfl⟩
      · obtain ⟨_, hBatch⟩ := @evaluateBatch_small items limits out scratch h hRoom
        rw [hBatch, Word.asU32_of_lt hTotals.plans, Word.asU32_of_lt hTotals.paths,
          Word.asU32_of_lt hTotals.actions] at hSized
        rcases hSized with hSmall | hOk
        · cases hSmall
          exact ⟨rfl, rfl, rfl⟩
        · cases hOk
    obtain ⟨rfl, rfl, rfl⟩ := hNumbers
    refine ⟨⟨batchPlans items, batchPaths items, batchActions items⟩, rfl, rfl, rfl, ?_⟩
    intro out' scratch'
    constructor
    · rintro ⟨hPlans, hPaths, hActions⟩
      obtain ⟨_, hBatch⟩ :=
        @evaluateBatch_room items limits out' scratch' h ⟨hPlans, hPaths, hActions⟩
      rw [hBatch, Word.asU32_of_lt hTotals.plans, Word.asU32_of_lt hTotals.paths,
        Word.asU32_of_lt hTotals.actions]
      exact ⟨rfl, rfl⟩
    · intro hNot
      obtain ⟨_, hBatch⟩ := @evaluateBatch_small items limits out' scratch' h
        fun hRoom => hNot ⟨hRoom.plans, hRoom.paths, hRoom.actions⟩
      rw [hBatch, Word.asU32_of_lt hTotals.plans, Word.asU32_of_lt hTotals.paths,
        Word.asU32_of_lt hTotals.actions]
      exact ⟨rfl, rfl⟩

/-- The batch of two is accepted as soon as its buffers have the lengths it needs. -/
theorem batch_all_or_nothing_pair :
    ∃ status, (evaluateBatch pairBatch .default roomyOutput .empty).1 = .ok status := by
  apply (batch_all_or_nothing pairBatch_totals .default roomyOutput .empty).1.mpr
  exact ⟨rfl, by decide +kernel, by decide,
    by decide +kernel, by decide +kernel, by decide +kernel⟩

end Hfsm

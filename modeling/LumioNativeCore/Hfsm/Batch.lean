import LumioNativeCore.Hfsm.Reading
import LumioNativeCore.Library.Buffer

/-! The batch evaluator (`evaluate.rs`, `evaluate_batch`). Every item is computed into
the scratch first; the caller's buffers are written once the whole batch fits. -/
namespace Hfsm

/-- Caller-owned output slices. -/
structure PlanOutput where
  items : List ItemPlan
  paths : List ActiveState
  actions : List ActionRecord
  deriving DecidableEq, Repr

structure BatchStatus where
  itemsWritten : Nat
  pathsWritten : Nat
  actionsWritten : Nat
  deriving DecidableEq, Repr

/-- The loop over the items, from one position on. -/
def evaluateItems (index : Nat) : List BatchItem → Scratch → Scratch
  | [], scratch => scratch
  | item :: rest, scratch =>
      let (plan, scratch) := evaluateItem (Word.asU32 index) item scratch
      evaluateItems (index + 1) rest { scratch with items := scratch.items ++ [plan] }

def evaluateBatch (items : List BatchItem) (limits : HfsmLimits) (out : PlanOutput)
    (scratch : Scratch) : Except HfsmError BatchStatus × PlanOutput × Scratch :=
  if !limits.isValid then (.error .limitsInvalid, out, scratch)
  else
    let len := Word.asU32 items.length
    if len > limits.maxBatch then (.error (.batchTooLarge len limits.maxBatch), out, scratch)
    else
      let scratch := { scratch with
        keys := (items.map BatchItem.machineKey).insertionSort (· ≤ ·) }
      match (Buffer.windows scratch.keys).find? fun pair => decide (pair.1 = pair.2) with
      | some pair => (.error (.duplicateMachineInBatch pair.1), out, scratch)
      | none =>
          let scratch := evaluateItems 0 items
            { scratch with items := [], paths := [], actions := [] }
          let requiredItems := Word.asU32 scratch.items.length
          let requiredPaths := Word.asU32 scratch.paths.length
          let requiredActions := Word.asU32 scratch.actions.length
          if out.items.length < scratch.items.length ∨ out.paths.length < scratch.paths.length ∨
              out.actions.length < scratch.actions.length then
            (.error (.bufferTooSmall requiredItems requiredPaths requiredActions), out, scratch)
          else
            (.ok ⟨requiredItems, requiredPaths, requiredActions⟩,
              { items := Buffer.overwrite out.items scratch.items
                paths := Buffer.overwrite out.paths scratch.paths
                actions := Buffer.overwrite out.actions scratch.actions },
              scratch)

/-! The records of a batch, item by item. -/

def readPath (item : BatchItem) : List ActiveState :=
  match readItem item with
  | .ok (_, reading) => reading.path
  | .error _ => []

/-- The action records of an item at a position of its batch. -/
def readActions (entry : BatchItem × Nat) : List ActionRecord :=
  match readItem entry.1 with
  | .ok (_, reading) => actionRecords (Word.asU32 entry.2) reading.lines
  | .error _ => []

/-- The plan of an item whose records start at two positions of the buffers. -/
def planAt (item : BatchItem) (index pathStart actionStart : Nat) : ItemPlan :=
  match readItem item with
  | .ok (header, reading) =>
      { outcome := reading.outcome
        next := some { header with nextActivationSeq := reading.nextSeq }
        pathStart := Word.asU32 pathStart
        pathLen := Word.asU32 reading.path.length
        actionStart := Word.asU32 actionStart
        actionLen := Word.asU32 (actionRecords index reading.lines).length }
  | .error failure =>
      { outcome := .rejected failure
        next := none
        pathStart := Word.asU32 pathStart
        pathLen := 0
        actionStart := Word.asU32 actionStart
        actionLen := 0 }

def batchPaths (items : List BatchItem) : List ActiveState := items.flatMap readPath

def batchActions (items : List BatchItem) : List ActionRecord :=
  items.zipIdx.flatMap readActions

/-- The plans of a batch, each where the records before it end. -/
def batchPlans (items : List BatchItem) : List ItemPlan :=
  items.zipIdx.map fun (item, i) =>
    planAt item (Word.asU32 i) (Buffer.start readPath items i)
      (Buffer.start readActions items.zipIdx i)

theorem evaluateItem_records (index : Nat) (item : BatchItem) (scratch : Scratch) :
    evaluateItem (Word.asU32 index) item scratch =
      (planAt item (Word.asU32 index) scratch.paths.length scratch.actions.length,
        { scratch with
          paths := scratch.paths ++ readPath item
          actions := scratch.actions ++ readActions (item, index)
          entered := residue item scratch.entered }) := by
  rw [evaluateItem_eq, planAt, readPath, readActions]
  cases readItem item with
  | ok read => rfl
  | error failure => simp [writeResult, rejectedPlan]

theorem batchPlans_of_getElem? {items : List BatchItem} {i : Nat} {item : BatchItem}
    (h : items[i]? = some item) :
    (batchPlans items)[i]? = some (planAt item (Word.asU32 i) (Buffer.start readPath items i)
      (Buffer.start readActions items.zipIdx i)) := by
  rw [batchPlans, List.getElem?_map, List.getElem?_zipIdx, h]
  simp

/-- The loop appends the records of the items that are left, whatever the scratch holds. -/
theorem evaluateItems_eq {before rest items : List BatchItem} {scratch : Scratch}
    (hItems : items = before ++ rest)
    (hPlans : scratch.items = (batchPlans items).take before.length)
    (hPaths : scratch.paths = before.flatMap readPath)
    (hActions : scratch.actions = before.zipIdx.flatMap readActions) :
    ∃ entered, evaluateItems before.length rest scratch =
      { items := batchPlans items
        paths := batchPaths items
        actions := batchActions items
        keys := scratch.keys
        entered := entered } := by
  induction rest generalizing before scratch with
  | nil =>
      rw [List.append_nil] at hItems
      subst hItems
      have hAll : (batchPlans items).take items.length = batchPlans items := by
        apply List.take_of_length_le
        simp [batchPlans]
      refine ⟨scratch.entered, ?_⟩
      rw [evaluateItems, batchPaths, batchActions, ← hPaths, ← hActions, ← hAll, ← hPlans]
  | cons item rest ih =>
      have hHere : items[before.length]? = some item := by simp [hItems]
      have hBefore : items.take before.length = before := by simp [hItems]
      have hEntries : items.zipIdx.take before.length = before.zipIdx := by
        simp [hItems, List.zipIdx_append]
      have hNext : before.length + 1 = (before ++ [item]).length := by simp
      rw [evaluateItems, evaluateItem_records, hNext]
      apply ih
      · simp [hItems]
      · have hPlan : (batchPlans items)[before.length]? = some (planAt item
            (Word.asU32 before.length) scratch.paths.length scratch.actions.length) := by
          rw [batchPlans_of_getElem? hHere, hPaths, hActions, Buffer.start, Buffer.start, hBefore,
            hEntries]
        rw [← hNext, List.take_add_one, hPlan, ← hPlans]
        rfl
      · simp [hPaths]
      · simp [hActions, List.zipIdx_append]

/-- What a batch is refused for before any item is evaluated. -/
structure Admissible (items : List BatchItem) (limits : HfsmLimits) : Prop where
  valid : limits.isValid = true
  short : Word.asU32 items.length ≤ limits.maxBatch
  distinct : (items.map BatchItem.machineKey).Nodup

/-- Every buffer is at least as long as the batch needs. -/
structure Room (items : List BatchItem) (out : PlanOutput) : Prop where
  plans : (batchPlans items).length ≤ out.items.length
  paths : (batchPaths items).length ≤ out.paths.length
  actions : (batchActions items).length ≤ out.actions.length

/-- The buffers after a batch was written to them. -/
def PlanOutput.written (out : PlanOutput) (items : List BatchItem) : PlanOutput where
  items := Buffer.overwrite out.items (batchPlans items)
  paths := Buffer.overwrite out.paths (batchPaths items)
  actions := Buffer.overwrite out.actions (batchActions items)

section Batch

variable {items : List BatchItem} {limits : HfsmLimits} {out : PlanOutput} {scratch : Scratch}

/-- A batch that is not admissible is refused for a reason of its own. -/
theorem evaluateBatch_refused (h : ¬Admissible items limits) :
    ∃ failure scratch', evaluateBatch items limits out scratch = (.error failure, out, scratch') ∧
      ∀ p q r, failure ≠ .bufferTooSmall p q r := by
  rw [evaluateBatch]
  by_cases hLimits : limits.isValid = true
  · rw [if_neg (by simp [hLimits])]
    by_cases hLength : Word.asU32 items.length ≤ limits.maxBatch
    · rw [if_neg (Nat.not_lt.mpr hLength)]
      cases hFind : (Buffer.windows ((items.map BatchItem.machineKey).insertionSort
          (· ≤ ·))).find? fun pair => decide (pair.1 = pair.2) with
      | none => exact absurd ⟨hLimits, hLength, (Buffer.find_windows_sort_eq_none _).mp hFind⟩ h
      | some pair =>
          simp only [hFind]
          exact ⟨_, _, rfl, fun _ _ _ hSame => by cases hSame⟩
    · rw [if_pos (Nat.lt_of_not_le hLength)]
      exact ⟨_, _, rfl, fun _ _ _ hSame => by cases hSame⟩
  · rw [if_pos (by simp [hLimits])]
    exact ⟨_, _, rfl, fun _ _ _ hSame => by cases hSame⟩

/-- An admissible batch is written or measured; what the scratch held plays no part. -/
theorem evaluateBatch_eq (h : Admissible items limits) :
    ∃ scratch', evaluateBatch items limits out scratch =
      if out.items.length < (batchPlans items).length ∨
          out.paths.length < (batchPaths items).length ∨
          out.actions.length < (batchActions items).length then
        (.error (.bufferTooSmall (Word.asU32 (batchPlans items).length)
          (Word.asU32 (batchPaths items).length) (Word.asU32 (batchActions items).length)),
          out, scratch')
      else
        (.ok ⟨Word.asU32 (batchPlans items).length, Word.asU32 (batchPaths items).length,
          Word.asU32 (batchActions items).length⟩, out.written items, scratch') := by
  have hFind := (Buffer.find_windows_sort_eq_none _).mpr h.distinct
  obtain ⟨entered, hLoop⟩ := @evaluateItems_eq [] items items
    { scratch with
      keys := (items.map BatchItem.machineKey).insertionSort (· ≤ ·)
      items := []
      paths := []
      actions := [] } rfl rfl rfl rfl
  rw [evaluateBatch, if_neg (by simp [h.valid])]
  simp only [if_neg (Nat.not_lt.mpr h.short), hFind]
  rw [List.length_nil] at hLoop
  rw [hLoop]
  exact ⟨_, rfl⟩

theorem evaluateBatch_room (h : Admissible items limits) (hRoom : Room items out) :
    ∃ scratch', evaluateBatch items limits out scratch =
      (.ok ⟨Word.asU32 (batchPlans items).length, Word.asU32 (batchPaths items).length,
        Word.asU32 (batchActions items).length⟩, out.written items, scratch') := by
  obtain ⟨scratch', hBatch⟩ := @evaluateBatch_eq items limits out scratch h
  obtain ⟨hPlans, hPaths, hActions⟩ := hRoom
  rw [if_neg (by omega)] at hBatch
  exact ⟨scratch', hBatch⟩

theorem evaluateBatch_small (h : Admissible items limits) (hRoom : ¬Room items out) :
    ∃ scratch', evaluateBatch items limits out scratch =
      (.error (.bufferTooSmall (Word.asU32 (batchPlans items).length)
        (Word.asU32 (batchPaths items).length) (Word.asU32 (batchActions items).length)),
        out, scratch') := by
  obtain ⟨scratch', hBatch⟩ := @evaluateBatch_eq items limits out scratch h
  have hSmall : out.items.length < (batchPlans items).length ∨
      out.paths.length < (batchPaths items).length ∨
      out.actions.length < (batchActions items).length := by
    by_contra hNone
    exact hRoom ⟨by omega, by omega, by omega⟩
  rw [if_pos hSmall] at hBatch
  exact ⟨scratch', hBatch⟩

/-- A batch is accepted exactly when it is admissible and fits. -/
theorem evaluateBatch_accepts :
    (∃ status, (evaluateBatch items limits out scratch).1 = .ok status) ↔
      Admissible items limits ∧ Room items out := by
  by_cases h : Admissible items limits
  · by_cases hRoom : Room items out
    · obtain ⟨scratch', hBatch⟩ := @evaluateBatch_room items limits out scratch h hRoom
      rw [hBatch]
      exact iff_of_true ⟨_, rfl⟩ ⟨h, hRoom⟩
    · obtain ⟨scratch', hBatch⟩ := @evaluateBatch_small items limits out scratch h hRoom
      rw [hBatch]
      exact iff_of_false (fun ⟨_, hOk⟩ => by cases hOk) fun hBoth => hRoom hBoth.2
  · obtain ⟨failure, scratch', hBatch, -⟩ := @evaluateBatch_refused items limits out scratch h
    rw [hBatch]
    exact iff_of_false (fun ⟨_, hOk⟩ => by cases hOk) fun hBoth => h hBoth.1

end Batch
end Hfsm

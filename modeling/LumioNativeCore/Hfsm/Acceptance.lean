import LumioNativeCore.Hfsm.Guards
import LumioNativeCore.Hfsm.Passes

/-! Which items are accepted, read off the item alone, and what acceptance and rejection
leave. The conditions are those of the contract; the evaluator meets them in pieces, two of
them in the middle of its emission. -/
namespace Hfsm

/-- What a stop needs: a running snapshot of this machine that counts on. -/
structure Stoppable (item : BatchItem) (s : Snapshot) : Prop where
  snapshot : item.snapshot = some s
  machineKey : s.machineKey = item.machineKey
  valid : s.validate item.definition = .ok ()
  running : s.lifecycle = .running
  stepSeq : s.stepSeq + 1 ≤ Word.max64

/-- What a start needs of the snapshot it continues from: a machine at rest, and room in
both counters. -/
structure Startable (item : BatchItem) (s : Snapshot) : Prop where
  snapshot : item.snapshot = some s
  machineKey : s.machineKey = item.machineKey
  valid : s.validate item.definition = .ok ()
  notRunning : s.lifecycle ≠ .running
  stepSeq : s.stepSeq + 1 ≤ Word.max64
  activations : s.nextActivationSeq + (Accepted.rootChain item.definition).length ≤ Word.max64

/-- What an event needs besides what a stop needs. -/
structure Deliverable (spec : DefinitionSpec) (item : BatchItem) (event : EventKind)
    (s : Snapshot) : Prop extends Stoppable item s where
  scope : ∀ scope, item.scope = some scope →
    scope.epoch = s.epoch ∧ ⟨scope.state, scope.activationSeq⟩ ∈ s.activePath
  registered : item.definition.hasEvent event = true
  frame : (item.guards.entries.map Prod.fst).Nodup
  supplied : ∀ leaf, s.leaf = some leaf →
    ∀ g ∈ item.definition.requiredGuardsOf leaf event, item.guards.lookup g ≠ .missing
  activations : ∀ reading, spec.Reacts s event item.guards reading →
    s.nextActivationSeq + reading.enters.length ≤ Word.max64

/-- The items that are accepted. -/
def Acceptable (spec : DefinitionSpec) (item : BatchItem) : Prop :=
  match item.kind with
  | .start _ => item.snapshot = none ∨ ∃ s, Startable item s
  | .stop => ∃ s, Stoppable item s
  | .event event => ∃ s, Deliverable spec item event s

/-- The steps that a machine has counted; none before its first start. -/
def stepSeqOf (snapshot : Option Snapshot) : Nat := (snapshot.map fun s => s.stepSeq).getD 0

/-- The next header of an accepted item continues that of its snapshot. -/
structure Continues (item : BatchItem) (header : SnapshotHeader) : Prop where
  stepSeq : header.stepSeq = stepSeqOf item.snapshot + 1
  fingerprint : header.fingerprint = item.definition.fingerprint
  machineKey : header.machineKey = item.machineKey
  kept : ∀ s, item.snapshot = some s →
    header.fingerprint = s.fingerprint ∧ header.machineKey = s.machineKey
  started : ∀ epoch, item.kind = .start epoch → header.epoch = epoch
  epoch : (∀ epoch, item.kind ≠ .start epoch) → ∀ s, item.snapshot = some s →
    header.epoch = s.epoch

/-- A frame is well formed if its guard ids are distinct. -/
theorem isWellFormed_iff {frame : GuardFrame} :
    frame.isWellFormed = true ↔ (frame.entries.map Prod.fst).Nodup := by
  rw [List.Nodup, List.pairwise_map, List.pairwise_iff_getElem, GuardFrame.isWellFormed,
    List.all_eq_true]
  constructor
  · intro hAll i j hi hj hij hSame
    have hEntry := hAll (frame.entries[j], j) (List.mk_mem_zipIdx_iff_getElem?.mpr (by simp [hj]))
    rw [Bool.not_eq_true', List.any_eq_false] at hEntry
    apply hEntry frame.entries[i]
    · exact List.mem_take_iff_getElem.mpr ⟨i, by omega, rfl⟩
    · simpa using hSame
  · rintro hDistinct ⟨entry, j⟩ hEntry
    obtain ⟨hj, rfl⟩ := List.getElem?_eq_some_iff.mp (List.mk_mem_zipIdx_iff_getElem?.mp hEntry)
    rw [Bool.not_eq_true', List.any_eq_false]
    intro other hOther
    obtain ⟨i, hi, rfl⟩ := List.mem_take_iff_getElem.mp hOther
    simpa using hDistinct i j (by omega) hj (by omega)

namespace Accepted

variable {spec : DefinitionSpec} {item : BatchItem} {event : EventKind} {s : Snapshot}

theorem rootChain_length_le (h : Accepted spec item.definition) :
    (rootChain item.definition).length ≤ item.definition.maxDepth := by
  obtain ⟨leaf, hPath⟩ := h.rootChain_isPathTo 0
  have hLength := h.length_le_of_isPathTo hPath
  rwa [activate_length] at hLength

/-- A start is read exactly if its snapshot is at rest and its counters have room; the first
start of a machine always has it. -/
theorem readStart_isOk (h : Accepted spec item.definition)
    (hDepth : item.definition.maxDepth < 2 ^ 32) (epoch : MachineEpoch) :
    (∃ result, readStart item epoch = .ok result) ↔
      item.snapshot = none ∨ ∃ s, Startable item s := by
  have hChain := h.rootChain_length_le
  have hNonempty : rootChain item.definition ≠ [] := List.cons_ne_nil _ _
  have hWord : (2 : Nat) ^ 32 < Word.max64 := by decide
  constructor
  · rintro ⟨result, hRead⟩
    simp only [readStart, Check.bind_eq_ok] at hRead
    obtain ⟨⟨step, nextSeq⟩, hCounters, next, hBump, active, hEnter, -⟩ := hRead
    have hStep := (bump_eq_ok.mp hBump).2
    have hRoom := (enterStates_eq_ok.mp hEnter).2 hNonempty
    rcases startCounters_eq_ok.mp hCounters with ⟨hNone, -⟩ | ⟨s, hAdmit, hRest, rfl, rfl⟩
    · exact Or.inl hNone
    · obtain ⟨hSnapshot, hKey, hValid⟩ := admit_eq_ok.mp hAdmit
      exact Or.inr ⟨s, hSnapshot, hKey, hValid, hRest, hStep, hRoom⟩
  · have hRead : ∀ step nextSeq, startCounters item = .ok (step, nextSeq) →
        step + 1 ≤ Word.max64 →
        nextSeq + (rootChain item.definition).length ≤ Word.max64 →
        ∃ result, readStart item epoch = .ok result := by
      intro step nextSeq hCounters hStep hRoom
      simp only [readStart, Check.bind_eq_ok]
      exact ⟨_, _, hCounters, _, bump_eq_ok.mpr ⟨rfl, hStep⟩, _,
        enterStates_eq_ok.mpr ⟨rfl, fun _ => hRoom⟩, rfl⟩
    rintro (hNone | ⟨s, hStart⟩)
    · apply hRead 0 1 (startCounters_eq_ok.mpr (Or.inl ⟨hNone, rfl, rfl⟩)) (by decide)
      omega
    · have hAdmit := admit_eq_ok.mpr ⟨hStart.snapshot, hStart.machineKey, hStart.valid⟩
      exact hRead _ _
        (startCounters_eq_ok.mpr (Or.inr ⟨s, hAdmit, hStart.notRunning, rfl, rfl⟩))
        hStart.stepSeq hStart.activations

theorem readStop_isOk : (∃ result, readStop item = .ok result) ↔ ∃ s, Stoppable item s := by
  constructor
  · rintro ⟨result, hRead⟩
    simp only [readStop, Check.bind_eq_ok] at hRead
    obtain ⟨s, hAdmit, hRead⟩ := hRead
    split_ifs at hRead with hRunning
    simp only [Check.bind_eq_ok] at hRead
    obtain ⟨step, hBump, -⟩ := hRead
    obtain ⟨hSnapshot, hKey, hValid⟩ := admit_eq_ok.mp hAdmit
    exact ⟨s, hSnapshot, hKey, hValid, not_not.mp hRunning, (bump_eq_ok.mp hBump).2⟩
  · rintro ⟨s, hStop⟩
    have hAdmit := admit_eq_ok.mpr ⟨hStop.snapshot, hStop.machineKey, hStop.valid⟩
    have hBump := bump_eq_ok.mpr ⟨rfl, hStop.stepSeq⟩
    rw [readStop, hAdmit, Check.ok_bind, if_neg (not_not.mpr hStop.running), hBump]
    exact ⟨_, rfl⟩

/-- The counter of a plan moves by the activations that it enters. -/
theorem reacts_enters (h : Accepted spec item.definition) {leaf : StateId}
    {reading : PlanReading} (hPath : spec.IsPathTo leaf s.activePath)
    (hReacts : spec.Reacts s event item.guards reading) :
    reading.nextSeq = s.nextActivationSeq + reading.enters.length := by
  obtain ⟨-, kept, exited, entered, -, -, hSeq, -, hEnters⟩ := h.reacts_isPathTo hPath hReacts
  rw [hSeq, hEnters, activate_length]

/-- An event is read exactly if it passes its checks and the activations that its reference
plan enters have room. -/
theorem readEvent_isOk (h : Accepted spec item.definition)
    (hWord : ∀ s, item.snapshot = some s → s.nextActivationSeq ≤ Word.max64) :
    (∃ result, readEvent item event = .ok result) ↔ ∃ s, Deliverable spec item event s := by
  constructor
  · rintro ⟨⟨header, reading⟩, hRead⟩
    obtain ⟨s, step, leaf, hAdmit, hEvent, hLeaf, hPath, hReacts, hFits, -⟩ :=
      h.readEvent_reacts hRead
    obtain ⟨hSnapshot, hKey, hValid⟩ := admit_eq_ok.mp hAdmit
    obtain ⟨hRunning, hScope, hHas, hFrame, ⟨leaf', hLeaf', hGuards⟩, -, hStep⟩ :=
      admitEvent_eq_ok.mp hEvent
    refine ⟨s, ⟨hSnapshot, hKey, hValid, hRunning, hStep⟩, checkScope_eq_ok.mp hScope, hHas,
      isWellFormed_iff.mp hFrame, ?_, ?_⟩
    · intro other hOther
      obtain rfl : leaf' = other := Option.some.inj (hLeaf'.symm.trans hOther)
      exact checkGuards_eq_ok.mp hGuards
    · intro other hOther
      obtain rfl := h.reacts_unique hPath hReacts hOther
      rw [← h.reacts_enters hPath hReacts]
      rcases hFits with hNone | hFits
      · rw [h.reacts_enters hPath hReacts, hNone]
        exact hWord s hSnapshot
      · exact hFits
  · rintro ⟨s, hDeliver⟩
    have hAdmit := admit_eq_ok.mpr ⟨hDeliver.snapshot, hDeliver.machineKey, hDeliver.valid⟩
    obtain ⟨leaf, hLeaf, -⟩ := h.running_path hDeliver.valid hDeliver.running
    have hEvent : admitEvent item event s = .ok (s.stepSeq + 1) :=
      admitEvent_eq_ok.mpr ⟨hDeliver.running, checkScope_eq_ok.mpr hDeliver.scope,
        hDeliver.registered, isWellFormed_iff.mpr hDeliver.frame,
        ⟨leaf, hLeaf, checkGuards_eq_ok.mpr (hDeliver.supplied leaf hLeaf)⟩, rfl,
        hDeliver.stepSeq⟩
    obtain ⟨leaf', reading, -, hPath, hReacts, hRead⟩ := h.readEvent_eq hAdmit hEvent
    have hFits := hDeliver.activations reading hReacts
    rw [← h.reacts_enters hPath hReacts] at hFits
    exact ⟨_, hRead.trans (if_pos (Or.inr hFits))⟩

theorem readItem_isOk (h : Accepted spec item.definition)
    (hDepth : item.definition.maxDepth < 2 ^ 32)
    (hWord : ∀ s, item.snapshot = some s → s.nextActivationSeq ≤ Word.max64) :
    (∃ result, readItem item = .ok result) ↔ Acceptable spec item := by
  rw [readItem, Acceptable]
  cases item.kind with
  | start epoch => exact h.readStart_isOk hDepth epoch
  | event event => exact h.readEvent_isOk hWord
  | stop => exact readStop_isOk

variable {header : SnapshotHeader} {reading : PlanReading}

/-- An accepted start counts on from its snapshot, or from zero, in its own epoch. -/
theorem readStart_counts {epoch : MachineEpoch}
    (hRead : readStart item epoch = .ok (header, reading)) :
    header.stepSeq = stepSeqOf item.snapshot + 1 ∧ header.epoch = epoch ∧
      ∀ s, item.snapshot = some s → admitSnapshot item = .ok s := by
  simp only [readStart, Check.bind_eq_ok] at hRead
  obtain ⟨⟨step, nextSeq⟩, hCounters, next, hBump, active, -, hRead⟩ := hRead
  obtain ⟨rfl, -⟩ := Prod.mk.inj (Except.ok.inj hRead)
  obtain ⟨rfl, -⟩ := bump_eq_ok.mp hBump
  rcases startCounters_eq_ok.mp hCounters with ⟨hNone, rfl, -⟩ | ⟨s, hAdmit, -, rfl, -⟩
  · rw [hNone]
    exact ⟨rfl, rfl, fun s hSnapshot => by cases hSnapshot⟩
  · have hSnapshot := (admit_eq_ok.mp hAdmit).1
    rw [hSnapshot]
    refine ⟨rfl, rfl, fun other hOther => ?_⟩
    obtain rfl := Option.some.inj hOther
    exact hAdmit

/-- Any other accepted item counts on from its snapshot, in the epoch of that. -/
theorem readItem_counts (hKind : ∀ epoch, item.kind ≠ .start epoch)
    (hRead : readItem item = .ok (header, reading)) :
    ∃ s, admitSnapshot item = .ok s ∧ header.stepSeq = s.stepSeq + 1 ∧
      header.epoch = s.epoch := by
  rw [readItem] at hRead
  cases hItem : item.kind with
  | start epoch => exact absurd hItem (hKind epoch)
  | event event =>
      simp only [hItem, readEvent, Check.bind_eq_ok] at hRead
      obtain ⟨s, hAdmit, step, hEvent, _, -, _, -, hRead⟩ := hRead
      obtain ⟨-, -, -, -, -, rfl, -⟩ := admitEvent_eq_ok.mp hEvent
      obtain ⟨rfl, -⟩ := Prod.mk.inj (Except.ok.inj hRead)
      exact ⟨s, hAdmit, rfl, rfl⟩
  | stop =>
      simp only [hItem, readStop, Check.bind_eq_ok] at hRead
      obtain ⟨s, hAdmit, hRead⟩ := hRead
      split_ifs at hRead
      obtain ⟨step, hBump, hRead⟩ := Check.bind_eq_ok.mp hRead
      obtain ⟨rfl, -⟩ := bump_eq_ok.mp hBump
      obtain ⟨rfl, -⟩ := Prod.mk.inj (Except.ok.inj hRead)
      exact ⟨s, hAdmit, rfl, rfl⟩

theorem readItem_continues (h : Accepted spec item.definition)
    (hRead : readItem item = .ok (header, reading)) : Continues item header := by
  have hAdvances := h.readItem_advances hRead
  have hKept : ∀ s, admitSnapshot item = .ok s →
      header.fingerprint = s.fingerprint ∧ header.machineKey = s.machineKey := by
    intro s hAdmit
    obtain ⟨-, hKey, hValid⟩ := admit_eq_ok.mp hAdmit
    rw [hAdvances.fingerprint, hAdvances.machineKey, hKey, (h.validate_eq_ok.mp hValid).1]
    exact ⟨rfl, rfl⟩
  by_cases hStart : ∃ epoch, item.kind = .start epoch
  · obtain ⟨epoch, hKind⟩ := hStart
    rw [readItem, hKind] at hRead
    obtain ⟨hStep, hEpoch, hAdmit⟩ := readStart_counts hRead
    refine ⟨hStep, hAdvances.fingerprint, hAdvances.machineKey,
      fun s hSnapshot => hKept s (hAdmit s hSnapshot), fun other hOther => ?_,
      fun hNot => absurd hKind (hNot epoch)⟩
    obtain rfl := ItemKind.start.inj (hKind.symm.trans hOther)
    exact hEpoch
  · have hKind : ∀ epoch, item.kind ≠ .start epoch := not_exists.mp hStart
    obtain ⟨s, hAdmit, hStep, hEpoch⟩ := readItem_counts hKind hRead
    have hSnapshot := (admit_eq_ok.mp hAdmit).1
    have hOnly : ∀ other, item.snapshot = some other → s = other :=
      fun other hOther => Option.some.inj (hSnapshot.symm.trans hOther)
    refine ⟨?_, hAdvances.fingerprint, hAdvances.machineKey, fun other hOther => ?_,
      fun epoch hEpoch => absurd hEpoch (hKind epoch), fun _ other hOther => ?_⟩
    · rw [hStep, hSnapshot]
      rfl
    · obtain rfl := hOnly other hOther
      exact hKept s hAdmit
    · obtain rfl := hOnly other hOther
      exact hEpoch

end Accepted

/-- An item is accepted exactly if it is acceptable. An accepted item counts one step and
continues its machine; a rejected item has no next header, and no path element or action of it
is left, at whatever point it was rejected. The depth limit is a `u32` of the source and the
counter of a snapshot is a `u64`. -/
theorem item_acceptance_exact {spec : DefinitionSpec} {limits : HfsmLimits} (index : Nat)
    (scratch : Scratch) (item : BatchItem)
    (hCompile : compile spec limits = .ok item.definition)
    (hDepth : limits.maxDepth < 2 ^ 32)
    (hWord : ∀ s, item.snapshot = some s → s.nextActivationSeq ≤ Word.max64) :
    ((∀ failure, (evaluateItem index item scratch).1.outcome ≠ .rejected failure) ↔
      Acceptable spec item) ∧
    ((∀ failure, (evaluateItem index item scratch).1.outcome ≠ .rejected failure) →
      ∃ header, (evaluateItem index item scratch).1.next = some header ∧
        Continues item header) ∧
    ∀ failure, (evaluateItem index item scratch).1.outcome = .rejected failure →
      (evaluateItem index item scratch).1.next = none ∧
      (evaluateItem index item scratch).1.pathLen = 0 ∧
      (evaluateItem index item scratch).1.actionLen = 0 ∧
      (evaluateItem index item scratch).2.paths = scratch.paths ∧
      (evaluateItem index item scratch).2.actions = scratch.actions := by
  have h := accepted hCompile
  have hMaxDepth : item.definition.maxDepth < 2 ^ 32 :=
    Nat.lt_of_le_of_lt (compile_maxDepth hCompile) hDepth
  simp only [ne_eq, evaluateItem_rejected]
  rw [← h.readItem_isOk hMaxDepth hWord, evaluateItem_eq]
  cases hRead : readItem item with
  | error failure =>
      refine ⟨by simp, by simp, fun _ _ => ⟨rfl, rfl, rfl, rfl, rfl⟩⟩
  | ok read =>
      have hContinues := h.readItem_continues hRead
      refine ⟨by simp, fun _ => ⟨_, rfl, ?_⟩, by simp⟩
      exact
        { stepSeq := hContinues.stepSeq
          fingerprint := hContinues.fingerprint
          machineKey := hContinues.machineKey
          kept := hContinues.kept
          started := hContinues.started
          epoch := hContinues.epoch }

theorem item_acceptance_exact_boundary :
    Acceptable boundarySpec boundaryItem ∧
      ∃ header, (evaluateItem 0 boundaryItem .empty).1.next = some header ∧
        Continues boundaryItem header := by
  have hWord : ∀ s, boundaryItem.snapshot = some s → s.nextActivationSeq ≤ Word.max64 := by
    intro s hSnapshot
    obtain rfl : boundarySnapshot = s := Option.some.inj hSnapshot
    decide
  have hOutcome : (evaluateItem 0 boundaryItem .empty).1.outcome = .transitioned ⟨1⟩ := by
    decide +kernel
  have hAccepted : ∀ failure, (evaluateItem 0 boundaryItem .empty).1.outcome ≠
      .rejected failure := by
    rw [hOutcome]
    exact fun _ => Outcome.noConfusion
  obtain ⟨hExact, hNext, -⟩ := item_acceptance_exact 0 .empty boundaryItem compile_boundarySpec
    (by decide) hWord
  exact ⟨hExact.mp hAccepted, hNext hAccepted⟩

end Hfsm

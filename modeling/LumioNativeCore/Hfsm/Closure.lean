import LumioNativeCore.Hfsm.Advance

/-! Validity under evaluation. The snapshot rebuilt from an accepted plan is valid
again, except after a start that continues from the counter zero: validation
leaves that counter unconstrained while the machine is not running. -/
namespace Hfsm

/-- The snapshot that a reading stands for. -/
def committed (header : SnapshotHeader) (reading : PlanReading) : Snapshot :=
  { header with
    nextActivationSeq := reading.nextSeq
    activePath := reading.path }

/-- `from_plan` finds the path of an item in the paths buffer, whatever later
items append, while positions fit their type. -/
theorem fromPlan_write {index : Nat} {header : SnapshotHeader} {reading : PlanReading}
    {scratch : Scratch} (hFits : scratch.paths.length + reading.path.length < 2 ^ 32)
    (later : List ActiveState) :
    Snapshot.fromPlan (reading.write index header scratch).1
        ((reading.write index header scratch).2.paths ++ later) =
      some (committed header reading) := by
  have hStart : Word.asU32 scratch.paths.length = scratch.paths.length :=
    Word.asU32_of_lt (by omega)
  have hLength : Word.asU32 reading.path.length = reading.path.length :=
    Word.asU32_of_lt (by omega)
  have hSlice : Snapshot.slice (scratch.paths ++ reading.path ++ later) scratch.paths.length
      (scratch.paths.length + reading.path.length) = some reading.path := by
    rw [Snapshot.slice, if_pos (by simp)]
    simp [List.take_append]
  simp only [Snapshot.fromPlan, PlanReading.write, hStart, hLength, hSlice]
  rfl

/-- A start that is admitted on a stored counter of zero. -/
def StartsFromZero (item : BatchItem) : Prop :=
  ∃ epoch s, item.kind = .start epoch ∧ item.snapshot = some s ∧
    s.machineKey = item.machineKey ∧ s.nextActivationSeq = 0 ∧ s.stepSeq + 1 ≤ Word.max64

namespace Accepted

variable {spec : DefinitionSpec} {item : BatchItem} {header : SnapshotHeader}
  {reading : PlanReading}

/-- What the host stores after an item that has a reading. -/
theorem fromPlan_evaluateItem (h : Accepted spec item.definition)
    (hRead : readItem item = .ok (header, reading)) (index : Nat) {scratch : Scratch}
    (hFits : scratch.paths.length + item.definition.maxDepth < 2 ^ 32)
    (later : List ActiveState) :
    Snapshot.fromPlan (evaluateItem index item scratch).1
        ((evaluateItem index item scratch).2.paths ++ later) = some (committed header reading) := by
  have hLength := h.path_length_le (h.readItem_advances hRead)
  rw [evaluateItem_eq, hRead]
  apply fromPlan_write
  show scratch.paths.length + reading.path.length < 2 ^ 32
  omega

/-- The rebuilt snapshot is valid exactly when its activations are numbered from
one and below its counter. -/
theorem committed_valid (h : Accepted spec item.definition)
    (hAdvances : Advances spec item header reading) :
    (committed header reading).validate item.definition = .ok () ↔
      SeqsBelow reading.path reading.nextSeq := by
  rw [h.validate_eq_ok]
  constructor
  · rintro ⟨-, ⟨-, hPath⟩ | ⟨-, -, -, -, hSeqs⟩⟩
    · change reading.path = [] at hPath
      rw [hPath]
      exact List.forall_mem_nil _
    · exact hSeqs
  · intro hSeqs
    refine ⟨hAdvances.fingerprint, ?_⟩
    rcases hAdvances.configuration with hStopped | ⟨hRunning, leaf, hPath⟩
    · exact Or.inl hStopped
    · exact Or.inr ⟨hRunning, leaf, hPath.leaf_eq, hPath, hSeqs⟩

/-- A plan numbers its activations below its new counter. -/
theorem seqsBelow_advances (hAdvances : Advances spec item header reading)
    (hBefore : SeqsBelow (pathOf item.snapshot) (nextSeqOf item.snapshot))
    (hNext : 0 < nextSeqOf item.snapshot) : SeqsBelow reading.path reading.nextSeq := by
  obtain ⟨kept, exited, entered, hSplit, hPath, hSeq, -, -⟩ := hAdvances.moves
  rw [hPath, hSeq]
  intro a ha
  rcases List.mem_append.mp ha with ha | ha
  · have := hBefore a (hSplit ▸ List.mem_append_left _ ha)
    omega
  · have := mem_activate ha
    omega

theorem seqsBelow_valid (h : Accepted spec item.definition)
    (hValid : ∀ s, item.snapshot = some s → s.validate item.definition = .ok ()) :
    SeqsBelow (pathOf item.snapshot) (nextSeqOf item.snapshot) := by
  cases hSnapshot : item.snapshot with
  | none => exact List.forall_mem_nil _
  | some s =>
      rcases (h.validate_eq_ok.mp (hValid s hSnapshot)).2 with ⟨-, hPath⟩ | ⟨-, -, -, -, hSeqs⟩
      · change SeqsBelow s.activePath s.nextActivationSeq
        rw [hPath]
        exact List.forall_mem_nil _
      · exact hSeqs

/-- Only a start can continue from the counter zero of a valid snapshot. -/
theorem startsFromZero_of_read (h : Accepted spec item.definition)
    (hValid : ∀ s, item.snapshot = some s → s.validate item.definition = .ok ())
    (hRead : readItem item = .ok (header, reading)) (hZero : nextSeqOf item.snapshot = 0) :
    StartsFromZero item := by
  have hSeqs := h.seqsBelow_valid hValid
  have hEmpty : pathOf item.snapshot = [] := by
    apply List.eq_nil_iff_forall_not_mem.mpr
    intro a ha
    have := hSeqs a ha
    omega
  have hNotRunning : ∀ s, admitSnapshot item = .ok s → s.lifecycle ≠ .running := by
    intro s hAdmit hRunning
    obtain ⟨hSnapshot, -, hOk⟩ := admit_eq_ok.mp hAdmit
    obtain ⟨leaf, hLeaf, -⟩ := h.running_path hOk hRunning
    have hPath : s.activePath = [] := by simpa [pathOf, hSnapshot] using hEmpty
    simp [Snapshot.leaf, hPath] at hLeaf
  rw [readItem] at hRead
  cases hKind : item.kind with
  | start epoch =>
      simp only [hKind, readStart, Check.bind_eq_ok] at hRead
      obtain ⟨⟨step, nextSeq⟩, hCounters, next, hBump, -⟩ := hRead
      rcases startCounters_eq_ok.mp hCounters with ⟨hNone, -⟩ | ⟨s, hAdmit, -, rfl, -⟩
      · simp [nextSeqOf, hNone] at hZero
      · obtain ⟨hSnapshot, hKey, -⟩ := admit_eq_ok.mp hAdmit
        exact ⟨epoch, s, hKind, hSnapshot, hKey, by simpa [nextSeqOf, hSnapshot] using hZero,
          (bump_eq_ok.mp hBump).2⟩
  | event event =>
      simp only [hKind, readEvent, Check.bind_eq_ok] at hRead
      obtain ⟨s, hAdmit, step, hEvent, -⟩ := hRead
      exact absurd (admitEvent_eq_ok.mp hEvent).1 (hNotRunning s hAdmit)
  | stop =>
      simp only [hKind, readStop, Check.bind_eq_ok] at hRead
      obtain ⟨s, hAdmit, hRead⟩ := hRead
      rw [if_pos (hNotRunning s hAdmit)] at hRead
      cases hRead

/-- A start from zero is accepted and numbers the first state zero. -/
theorem read_of_startsFromZero (h : Accepted spec item.definition)
    (hValid : ∀ s, item.snapshot = some s → s.validate item.definition = .ok ())
    (hFits : item.definition.maxDepth < 2 ^ 32) (hStarts : StartsFromZero item) :
    ∃ header reading, readItem item = .ok (header, reading) ∧
      ¬SeqsBelow reading.path reading.nextSeq := by
  obtain ⟨epoch, s, hKind, hSnapshot, hKey, hZero, hStep⟩ := hStarts
  have hOk := hValid s hSnapshot
  have hStopped : s.lifecycle ≠ .running := by
    intro hRunning
    obtain ⟨leaf, -, hPath, hSeqs⟩ := h.running_path hOk hRunning
    obtain ⟨a, ha, -⟩ := Option.map_eq_some_iff.mp hPath.leaf_eq
    have := hSeqs a (List.mem_of_getLast? ha)
    omega
  obtain ⟨leaf, hPath⟩ := h.rootChain_isPathTo 0
  have hLength : (rootChain item.definition).length ≤ item.definition.maxDepth := by
    have := h.length_le_of_isPathTo hPath
    rwa [activate_length] at this
  have hEnter : enterStates 0 (rootChain item.definition) =
      .ok (activate 0 (rootChain item.definition)) := by
    apply enterStates_of_le
    intro _
    have hMax : (2 : Nat) ^ 32 ≤ Word.max64 := by decide
    omega
  have hCounters : startCounters item = .ok (s.stepSeq, 0) :=
    startCounters_eq_ok.mpr (Or.inr ⟨s, admit_eq_ok.mpr ⟨hSnapshot, hKey, hOk⟩, hStopped, rfl,
      hZero.symm⟩)
  have hStart : readStart item epoch = .ok (startHeader item epoch (s.stepSeq + 1) 0,
      { outcome := .started
        path := activate 0 (rootChain item.definition)
        lines := (activate 0 (rootChain item.definition)).map item.definition.enterLine
        nextSeq := 0 + (activate 0 (rootChain item.definition)).length }) := by
    simp only [readStart, Check.bind_eq_ok]
    exact ⟨_, hCounters, _, bump_eq_ok.mpr ⟨rfl, hStep⟩, _, hEnter, rfl⟩
  refine ⟨_, _, by rw [readItem, hKind]; exact hStart, fun hSeqs => ?_⟩
  have := hSeqs ⟨item.definition.rootInitial, 0⟩ List.mem_cons_self
  exact absurd this.1 (Nat.lt_irrefl 0)

end Accepted

/-- The rebuilt snapshot of a plan that is not rejected, with its key, is valid
again. -/
def StaysValid (item : BatchItem) (result : ItemPlan × Scratch) (later : List ActiveState) :
    Prop :=
  (∀ failure, result.1.outcome ≠ .rejected failure) →
    ∃ next, Snapshot.fromPlan result.1 (result.2.paths ++ later) = some next ∧
      next.machineKey = item.machineKey ∧ next.validate item.definition = .ok ()

/-- For every item on a valid snapshot, an accepted plan gives a valid snapshot
again exactly when it is not a start from the counter zero. -/
theorem snapshots_closed_iff {spec : DefinitionSpec} {limits : HfsmLimits} (index : Nat)
    (item : BatchItem) (scratch : Scratch) (later : List ActiveState)
    (hCompile : compile spec limits = .ok item.definition)
    (hValid : ∀ s, item.snapshot = some s → s.validate item.definition = .ok ())
    (hFits : scratch.paths.length + item.definition.maxDepth < 2 ^ 32) :
    StaysValid item (evaluateItem index item scratch) later ↔ ¬StartsFromZero item := by
  have h := accepted hCompile
  cases hRead : readItem item with
  | error failure =>
      rw [evaluateItem_eq, hRead]
      have hNot : ¬StartsFromZero item := by
        intro hStarts
        obtain ⟨header, reading, hRead', -⟩ :=
          h.read_of_startsFromZero hValid (by omega) hStarts
        simp [hRead] at hRead'
      exact iff_of_true (fun hAccepted => absurd rfl (hAccepted failure)) hNot
  | ok result =>
      rcases result with ⟨header, reading⟩
      have hAdvances := h.readItem_advances hRead
      have hPlan := h.fromPlan_evaluateItem hRead index hFits later
      constructor
      · intro hStays hStarts
        have hAccepted : ∀ failure,
            (evaluateItem index item scratch).1.outcome ≠ .rejected failure := by
          rw [evaluateItem_eq, hRead]
          exact hAdvances.accepted
        obtain ⟨next, hNext, -, hOk⟩ := hStays hAccepted
        obtain rfl := Option.some.inj (hPlan.symm.trans hNext)
        obtain ⟨header', reading', hRead', hSeqs⟩ :=
          h.read_of_startsFromZero hValid (by omega) hStarts
        obtain ⟨rfl, rfl⟩ := Prod.mk.inj (Except.ok.inj (hRead.symm.trans hRead'))
        exact hSeqs ((h.committed_valid hAdvances).mp hOk)
      · intro hStarts _
        have hNext : 0 < nextSeqOf item.snapshot :=
          Nat.pos_of_ne_zero fun hZero => hStarts (h.startsFromZero_of_read hValid hRead hZero)
        refine ⟨_, hPlan, hAdvances.machineKey, (h.committed_valid hAdvances).mpr ?_⟩
        exact Accepted.seqsBelow_advances hAdvances (h.seqsBelow_valid hValid) hNext

theorem snapshots_closed_iff_boundary :
    StaysValid boundaryItem (evaluateItem 0 boundaryItem .empty) [] ↔
      ¬StartsFromZero boundaryItem := by
  apply snapshots_closed_iff 0 boundaryItem .empty [] compile_boundarySpec
  · intro s hSnapshot
    obtain rfl : boundarySnapshot = s := Option.some.inj hSnapshot
    decide +kernel
  · decide +kernel

/-- A snapshot that was never started, with the counter zero. -/
def zeroSnapshot : Snapshot :=
  { Snapshot.notStarted boundaryDefinition.fingerprint 1 with nextActivationSeq := 0 }

def zeroItem : BatchItem where
  machineKey := 1
  definition := boundaryDefinition
  kind := .start 0
  snapshot := some zeroSnapshot
  guards := ⟨[]⟩
  scope := none

/-- The snapshot is valid and its start is accepted, but the result is refused. -/
theorem start_from_zero_not_closed :
    zeroSnapshot.validate boundaryDefinition = .ok () ∧
      (evaluateItem 0 zeroItem .empty).1.outcome = .started ∧
      ¬StaysValid zeroItem (evaluateItem 0 zeroItem .empty) [] := by
  have hOutcome : (evaluateItem 0 zeroItem .empty).1.outcome = .started := by decide +kernel
  refine ⟨by decide +kernel, hOutcome, fun hStays => ?_⟩
  obtain ⟨next, hNext, -, hOk⟩ := hStays (by rw [hOutcome]; exact fun _ => Outcome.noConfusion)
  have hInvalid : (Snapshot.fromPlan (evaluateItem 0 zeroItem .empty).1
      ((evaluateItem 0 zeroItem .empty).2.paths ++ [])).map
        (fun s => s.validate boundaryDefinition) = some (.error (.activationSeqInvalid 0)) := by
    decide +kernel
  rw [hNext] at hInvalid
  simp [zeroItem] at hOk
  simp [hOk] at hInvalid

end Hfsm

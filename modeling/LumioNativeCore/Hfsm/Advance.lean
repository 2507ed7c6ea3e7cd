import LumioNativeCore.Hfsm.Conformance

/-! What an accepted item does to its machine, said once for starts, events and
stops: a prefix of the path is kept, the rest is exited, fresh activations are
entered, and the machine is at a leaf again or has no path. -/
namespace Hfsm

/-- The path and the counters of a machine; before its first start, an empty path
and the initial counter. -/
def pathOf (snapshot : Option Snapshot) : List ActiveState :=
  (snapshot.map Snapshot.activePath).getD []

def nextSeqOf (snapshot : Option Snapshot) : Nat :=
  (snapshot.map fun s => s.nextActivationSeq).getD 1

/-- What an accepted item does, from the machine it was given. -/
structure Advances (spec : DefinitionSpec) (item : BatchItem) (header : SnapshotHeader)
    (reading : PlanReading) : Prop where
  moves : ∃ kept exited entered, pathOf item.snapshot = kept ++ exited ∧
    reading.path = kept ++ activate (nextSeqOf item.snapshot) entered ∧
    reading.nextSeq = nextSeqOf item.snapshot + entered.length ∧
    reading.exits = exited.reverse ∧
    reading.enters = activate (nextSeqOf item.snapshot) entered
  configuration : header.lifecycle ≠ .running ∧ reading.path = [] ∨
    header.lifecycle = .running ∧ ∃ leaf, spec.IsPathTo leaf reading.path
  fingerprint : header.fingerprint = item.definition.fingerprint
  machineKey : header.machineKey = item.machineKey
  accepted : ∀ failure, reading.outcome ≠ .rejected failure

namespace Accepted

variable {spec : DefinitionSpec} {item : BatchItem} {header : SnapshotHeader}
  {reading : PlanReading}

theorem running_path {def_ : CompiledDefinition} (h : Accepted spec def_) {s : Snapshot}
    (hValid : s.validate def_ = .ok ()) (hRunning : s.lifecycle = .running) :
    ∃ leaf, s.leaf = some leaf ∧ spec.IsPathTo leaf s.activePath ∧
      SeqsBelow s.activePath s.nextActivationSeq := by
  rcases (h.validate_eq_ok.mp hValid).2 with ⟨hNot, -⟩ | ⟨-, hPath⟩
  · exact absurd hRunning hNot
  · exact hPath

theorem stopped_path {def_ : CompiledDefinition} (h : Accepted spec def_) {s : Snapshot}
    (hValid : s.validate def_ = .ok ()) (hStopped : s.lifecycle ≠ .running) :
    s.activePath = [] := by
  rcases (h.validate_eq_ok.mp hValid).2 with ⟨-, hPath⟩ | ⟨hRunning, -⟩
  · exact hPath
  · exact absurd hRunning hStopped

theorem startCounters_eq_ok {step nextSeq : Nat} :
    startCounters item = .ok (step, nextSeq) ↔
      item.snapshot = none ∧ step = 0 ∧ nextSeq = 1 ∨
      ∃ s, admitSnapshot item = .ok s ∧ s.lifecycle ≠ .running ∧ step = s.stepSeq ∧
        nextSeq = s.nextActivationSeq := by
  rw [startCounters]
  cases hSnapshot : item.snapshot with
  | none => simp [admitSnapshot, hSnapshot, eq_comm]
  | some found =>
      simp only [Check.bind_eq_ok, reduceCtorEq, false_and, false_or]
      apply exists_congr
      intro s
      by_cases hRunning : s.lifecycle = .running
      · simp [hRunning]
      · simp [hRunning, eq_comm]

theorem readStart_advances (h : Accepted spec item.definition) {epoch : Nat}
    (hRead : readStart item epoch = .ok (header, reading)) :
    Advances spec item header reading := by
  simp only [readStart, Check.bind_eq_ok, Except.ok.injEq, Prod.mk.injEq] at hRead
  obtain ⟨⟨step, nextSeq⟩, hCounters, next, hBump, active, hEnter, rfl, rfl⟩ := hRead
  obtain ⟨rfl, -⟩ := enterStates_eq_ok.mp hEnter
  have hPath : pathOf item.snapshot = [] ∧ nextSeqOf item.snapshot = nextSeq := by
    rcases startCounters_eq_ok.mp hCounters with ⟨hNone, -, rfl⟩ | ⟨s, hAdmit, hStopped, -, rfl⟩
    · simp [pathOf, nextSeqOf, hNone]
    · obtain ⟨hSnapshot, -, hValid⟩ := admit_eq_ok.mp hAdmit
      simp [pathOf, nextSeqOf, hSnapshot, h.stopped_path hValid hStopped]
  have hLine : ∀ a, (item.definition.enterLine a).phase = .enter ∧
      (item.definition.enterLine a).active = a := fun a => ⟨rfl, rfl⟩
  refine ⟨⟨[], [], rootChain item.definition, hPath.1, ?_, ?_, ?_, ?_⟩,
    Or.inr ⟨rfl, h.rootChain_isPathTo nextSeq⟩, rfl, rfl,
    fun _ => Outcome.noConfusion⟩
  · rw [hPath.2]
    rfl
  · rw [hPath.2, activate_length]
    rfl
  · rw [PlanReading.exits, activeIn_map hLine]
    rfl
  · rw [PlanReading.enters, activeIn_map hLine, hPath.2]
    rfl

theorem readStop_advances (h : Accepted spec item.definition)
    (hRead : readStop item = .ok (header, reading)) : Advances spec item header reading := by
  simp only [readStop, Check.bind_eq_ok] at hRead
  obtain ⟨s, hAdmit, hRead⟩ := hRead
  split_ifs at hRead with hRunning
  simp only [Check.bind_eq_ok, Except.ok.injEq, Prod.mk.injEq] at hRead
  obtain ⟨step, hBump, rfl, rfl⟩ := hRead
  obtain ⟨hSnapshot, hKey, hValid⟩ := admit_eq_ok.mp hAdmit
  have hLine : ∀ a, (item.definition.exitLine a).phase = .exit ∧
      (item.definition.exitLine a).active = a := fun a => ⟨rfl, rfl⟩
  refine ⟨⟨[], s.activePath, [], ?_, rfl, ?_, ?_, ?_⟩, Or.inl ⟨by simp, rfl⟩, ?_, hKey,
    fun _ => Outcome.noConfusion⟩
  · simp [pathOf, hSnapshot]
  · simp [nextSeqOf, hSnapshot]
  · rw [PlanReading.exits, activeIn_map hLine]
    rfl
  · rw [PlanReading.enters, activeIn_map hLine]
    rfl
  · exact (h.validate_eq_ok.mp hValid).1

/-- An event past its checks has its reference plan, unless that counts too far. -/
theorem readEvent_eq (h : Accepted spec item.definition) {event : EventKind} {s : Snapshot}
    {step : Nat} (hAdmit : admitSnapshot item = .ok s)
    (hEvent : admitEvent item event s = .ok step) :
    ∃ leaf reading, s.leaf = some leaf ∧ spec.IsPathTo leaf s.activePath ∧
      spec.Reacts s event item.guards reading ∧
      readEvent item event = if reading.enters = [] ∨ reading.nextSeq ≤ Word.max64 then
        .ok ({ s.header with stepSeq := step }, reading) else .error .counterOverflow := by
  obtain ⟨hRunning, -, hHas, -, ⟨leaf', hLeaf', hGuards⟩, -⟩ := admitEvent_eq_ok.mp hEvent
  obtain ⟨leaf, hLeaf, hPath, -⟩ := h.running_path (admit_eq_ok.mp hAdmit).2.2 hRunning
  obtain rfl : leaf' = leaf := Option.some.inj (hLeaf'.symm.trans hLeaf)
  obtain ⟨selected, reading, hSelect, hReacts, hYields⟩ :=
    h.readSelected_reacts hPath hHas (checkGuards_eq_ok.mp hGuards)
  refine ⟨leaf', reading, hLeaf, hPath, hReacts, ?_⟩
  rw [readEvent, hAdmit, Check.ok_bind, hEvent, Check.ok_bind, hSelect, Check.ok_bind, hYields]
  split_ifs
  · rfl
  · rfl

/-- The reading of an event is its reference plan. -/
theorem readEvent_reacts (h : Accepted spec item.definition) {event : EventKind}
    (hRead : readEvent item event = .ok (header, reading)) :
    ∃ s step leaf, admitSnapshot item = .ok s ∧ admitEvent item event s = .ok step ∧
      s.leaf = some leaf ∧ spec.IsPathTo leaf s.activePath ∧
      spec.Reacts s event item.guards reading ∧
      (reading.enters = [] ∨ reading.nextSeq ≤ Word.max64) ∧
      header = { s.header with stepSeq := step } := by
  have hRead' := hRead
  rw [readEvent, Check.bind_eq_ok] at hRead'
  obtain ⟨s, hAdmit, hRead'⟩ := hRead'
  obtain ⟨step, hEvent, -⟩ := Check.bind_eq_ok.mp hRead'
  obtain ⟨leaf, found, hLeaf, hPath, hReacts, hFound⟩ := h.readEvent_eq hAdmit hEvent
  rw [hFound] at hRead
  split_ifs at hRead with hFits
  obtain ⟨rfl, rfl⟩ := Prod.mk.inj (Except.ok.inj hRead)
  exact ⟨s, step, leaf, hAdmit, hEvent, hLeaf, hPath, hReacts, hFits, rfl⟩

theorem readEvent_advances (h : Accepted spec item.definition) {event : EventKind}
    (hRead : readEvent item event = .ok (header, reading)) :
    Advances spec item header reading := by
  obtain ⟨s, step, leaf, hAdmit, hEvent, -, hPath, hReacts, -, rfl⟩ := h.readEvent_reacts hRead
  obtain ⟨hSnapshot, hKey, hValid⟩ := admit_eq_ok.mp hAdmit
  have hRunning := (admitEvent_eq_ok.mp hEvent).1
  obtain ⟨hNext, hMoves⟩ := h.reacts_isPathTo hPath hReacts
  have hBefore : pathOf item.snapshot = s.activePath ∧
      nextSeqOf item.snapshot = s.nextActivationSeq := by
    simp [pathOf, nextSeqOf, hSnapshot]
  refine ⟨?_, Or.inr ⟨hRunning, hNext⟩, (h.validate_eq_ok.mp hValid).1, hKey, ?_⟩
  · rw [hBefore.1, hBefore.2]
    exact hMoves
  · cases hReacts with
    | unhandled => exact fun _ => Outcome.noConfusion
    | internal => exact fun _ => Outcome.noConfusion
    | crossing => exact fun _ => Outcome.noConfusion

theorem readItem_advances (h : Accepted spec item.definition)
    (hRead : readItem item = .ok (header, reading)) : Advances spec item header reading := by
  rw [readItem] at hRead
  cases hKind : item.kind with
  | start epoch => exact h.readStart_advances (by rwa [hKind] at hRead)
  | event event => exact h.readEvent_advances (by rwa [hKind] at hRead)
  | stop => exact h.readStop_advances (by rwa [hKind] at hRead)

theorem path_length_le {def_ : CompiledDefinition} (h : Accepted spec def_)
    (hAdvances : Advances spec item header reading) : reading.path.length ≤ def_.maxDepth := by
  rcases hAdvances.configuration with ⟨-, hPath⟩ | ⟨-, leaf, hPath⟩
  · rw [hPath]
    exact Nat.zero_le _
  · exact h.length_le_of_isPathTo hPath

end Accepted
end Hfsm

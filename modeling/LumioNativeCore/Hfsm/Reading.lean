import LumioNativeCore.Hfsm.Evaluate

/-! The evaluator without its buffers. An item either is rejected or has a
reading: the next header, the next path and the lines of actions. Evaluation
writes the reading after what the scratch already holds, and leaves the scratch
as it was when the item is rejected. -/
namespace Hfsm

/-- Fresh activations of the states entered, numbered consecutively. -/
def activate (seq : Nat) : List StateId → List ActiveState
  | [] => []
  | state :: rest => ⟨state, seq⟩ :: activate (seq + 1) rest

/-- One line of a plan: the actions of one phase of one activation. -/
structure ActionLine where
  phase : ActionPhase
  active : ActiveState
  actions : List ActionId

/-- The action records of a plan, numbered from zero. -/
def actionRecords (itemIndex : Nat) (lines : List ActionLine) : List ActionRecord :=
  (lines.flatMap fun line => line.actions.map (line.phase, line.active, ·)).mapIdx
    fun ordinal (phase, active, action) =>
      { itemIndex := itemIndex
        ordinal := Word.asU32 ordinal
        phase := phase
        action := action
        state := active.state
        activationSeq := active.activationSeq }

/-- What a plan says: its outcome, the next path, the lines of actions in order,
and the next unused activation sequence. -/
structure PlanReading where
  outcome : Outcome
  path : List ActiveState
  lines : List ActionLine
  nextSeq : Nat

/-- The activations of one phase, in the order of their lines. -/
def activeIn (phase : ActionPhase) (lines : List ActionLine) : List ActiveState :=
  (lines.filter fun line => decide (line.phase = phase)).map ActionLine.active

def PlanReading.exits (reading : PlanReading) : List ActiveState := activeIn .exit reading.lines

def PlanReading.enters (reading : PlanReading) : List ActiveState := activeIn .enter reading.lines

/-- The plan and scratch that a reading is written to, after what the scratch
already holds. -/
def PlanReading.write (reading : PlanReading) (index : Nat) (header : SnapshotHeader)
    (scratch : Scratch) : ItemPlan × Scratch :=
  ({ outcome := reading.outcome
     next := some { header with nextActivationSeq := reading.nextSeq }
     pathStart := Word.asU32 scratch.paths.length
     pathLen := Word.asU32 reading.path.length
     actionStart := Word.asU32 scratch.actions.length
     actionLen := Word.asU32 (actionRecords index reading.lines).length },
    { scratch with
      paths := scratch.paths ++ reading.path
      actions := scratch.actions ++ actionRecords index reading.lines })

/-- Activate the states to enter; the counter must stay below its bound. -/
def enterStates : Nat → List StateId → Except ItemError (List ActiveState)
  | _, [] => .ok []
  | seq, state :: rest =>
      match Word.checkedAdd Word.max64 seq 1 with
      | none => .error .counterOverflow
      | some next => (enterStates next rest).map (⟨state, seq⟩ :: ·)

namespace CompiledDefinition

variable (def_ : CompiledDefinition)

def exitLine (a : ActiveState) : ActionLine := ⟨.exit, a, def_.exitActions a.state⟩

def enterLine (a : ActiveState) : ActionLine := ⟨.enter, a, def_.entryActions a.state⟩

/-- The states entered below `boundary` towards `target` and on to a leaf. -/
def enteredBelow (boundary : Option StateId) (target : StateId) : List StateId :=
  (def_.ancestryBelow target boundary).reverse ++ def_.initialChain target

/-- The reading of a transition that keeps the first `keep` states of the path. -/
def readCrossing (s : Snapshot) (keep : Nat) (source : ActiveState) (t : CompiledTransition)
    (target : StateId) : Except ItemError PlanReading :=
  let kept := s.activePath.take keep
  (enterStates s.nextActivationSeq
    (def_.enteredBelow (kept.getLast?.map ActiveState.state) target)).map fun entered =>
      { outcome := .transitioned t.id
        path := kept ++ entered
        lines := (s.activePath.drop keep).reverse.map def_.exitLine ++
          [⟨.transition, source, t.actions⟩] ++ entered.map def_.enterLine
        nextSeq := s.nextActivationSeq + entered.length }

def readTransition (s : Snapshot) (level : Nat) (source : ActiveState)
    (t : CompiledTransition) : Except ItemError PlanReading :=
  match t.kind with
  | .internal =>
      .ok { outcome := .transitioned t.id
            path := s.activePath
            lines := [⟨.transition, source, t.actions⟩]
            nextSeq := s.nextActivationSeq }
  | .local target => def_.readCrossing s (level + 1) source t target
  | .external target =>
      def_.readCrossing s (keepExternal def_ s t.source target) source t target

def readSelected (s : Snapshot) :
    Option (Nat × CompiledTransition) → Except ItemError PlanReading
  | none =>
      .ok { outcome := .unhandled
            path := s.activePath
            lines := []
            nextSeq := s.nextActivationSeq }
  | some (level, t) =>
      match s.activePath[level]? with
      | none => .error .lifecycleViolation
      | some source => def_.readTransition s level source t

end CompiledDefinition

def readStart (item : BatchItem) (epoch : MachineEpoch) :
    Except ItemError (SnapshotHeader × PlanReading) := do
  let def_ := item.definition
  let (step, nextSeq) ← startCounters item
  let step ← bump step
  let entered ← enterStates nextSeq (def_.rootInitial :: def_.initialChain def_.rootInitial)
  .ok (startHeader item epoch step nextSeq,
    { outcome := .started
      path := entered
      lines := entered.map def_.enterLine
      nextSeq := nextSeq + entered.length })

def readStop (item : BatchItem) : Except ItemError (SnapshotHeader × PlanReading) := do
  let s ← admitSnapshot item
  if s.lifecycle ≠ .running then .error .lifecycleViolation
  else
    let step ← bump s.stepSeq
    .ok ({ s.header with stepSeq := step, lifecycle := .stopped },
      { outcome := .stopped
        path := []
        lines := s.activePath.reverse.map item.definition.exitLine
        nextSeq := s.nextActivationSeq })

def readEvent (item : BatchItem) (event : EventKind) :
    Except ItemError (SnapshotHeader × PlanReading) := do
  let s ← admitSnapshot item
  let step ← admitEvent item event s
  let selected ← select item.definition s event item.guards
  let reading ← item.definition.readSelected s selected
  .ok ({ s.header with stepSeq := step }, reading)

def readItem (item : BatchItem) : Except ItemError (SnapshotHeader × PlanReading) :=
  match item.kind with
  | .start epoch => readStart item epoch
  | .event event => readEvent item event
  | .stop => readStop item

/-! The vector of entered states. -/

/-- What a selected transition fills the vector with, if it crosses states. -/
def CompiledDefinition.filledBy (def_ : CompiledDefinition) (s : Snapshot) (level : Nat)
    (t : CompiledTransition) : Option (List StateId) :=
  let fill := fun keep target =>
    def_.enteredBelow ((s.activePath.take keep).getLast?.map ActiveState.state) target
  match t.kind with
  | .internal => none
  | .local target => some (fill (level + 1) target)
  | .external target => some (fill (keepExternal def_ s t.source target) target)

def filledByStart (item : BatchItem) : Option (List StateId) :=
  match startCounters item >>= fun counters => bump counters.1 with
  | .ok _ => some (item.definition.rootInitial ::
      item.definition.initialChain item.definition.rootInitial)
  | .error _ => none

def filledByEvent (item : BatchItem) (event : EventKind) : Option (List StateId) :=
  match admitSnapshot item with
  | .error _ => none
  | .ok s =>
      match admitEvent item event s >>= fun _ => select item.definition s event item.guards with
      | .ok (some (level, t)) =>
          if level < s.activePath.length then item.definition.filledBy s level t else none
      | _ => none

/-- What evaluation leaves in the vector. It is filled anew or not touched, so that no
plan depends on what was in it. -/
def residue (item : BatchItem) (entered : List StateId) : List StateId :=
  match item.kind with
  | .start _ => (filledByStart item).getD entered
  | .event event => (filledByEvent item event).getD entered
  | .stop => entered

theorem readItem_event {item : BatchItem} {event : EventKind} (hKind : item.kind = .event event) :
    readItem item = readEvent item event := by
  rw [readItem, hKind]

theorem residue_event {item : BatchItem} {event : EventKind} (hKind : item.kind = .event event)
    (entered : List StateId) :
    residue item entered = (filledByEvent item event).getD entered := by
  rw [residue, hKind]

theorem activeIn_append (phase : ActionPhase) (first second : List ActionLine) :
    activeIn phase (first ++ second) = activeIn phase first ++ activeIn phase second := by
  simp [activeIn]

/-- Lines of one phase name their activations in that phase and none in another. -/
theorem activeIn_map {phase phase' : ActionPhase} {line : ActiveState → ActionLine}
    (hLine : ∀ a, (line a).phase = phase' ∧ (line a).active = a) (active : List ActiveState) :
    activeIn phase (active.map line) = if phase' = phase then active else [] := by
  have hPhase : ∀ a, (line a).phase = phase' := fun a => (hLine a).1
  have hActive : ActionLine.active ∘ line = id := funext fun a => (hLine a).2
  by_cases h : phase' = phase
  · simp [activeIn, List.filter_map, hPhase, h, hActive]
  · simp [activeIn, hPhase, h]

/-! Emission writes readings. -/

theorem activate_length (seq : Nat) (states : List StateId) :
    (activate seq states).length = states.length := by
  induction states generalizing seq with
  | nil => rfl
  | cons state rest ih => simp [activate, ih]

theorem activate_eq_nil {seq : Nat} {states : List StateId} :
    activate seq states = [] ↔ states = [] := by
  rw [← List.length_eq_zero_iff, activate_length, List.length_eq_zero_iff]

theorem mem_activate {seq : Nat} {states : List StateId} {a : ActiveState}
    (h : a ∈ activate seq states) :
    a.state ∈ states ∧ seq ≤ a.activationSeq ∧ a.activationSeq < seq + states.length := by
  induction states generalizing seq with
  | nil => exact absurd h List.not_mem_nil
  | cons state rest ih =>
      rw [List.length_cons]
      rcases List.mem_cons.mp h with rfl | h
      · exact ⟨List.mem_cons_self, Nat.le_refl _, by change seq < _; omega⟩
      · have hRest := ih h
        exact ⟨List.mem_cons_of_mem _ hRest.1, by omega, by omega⟩

theorem activate_map_state (seq : Nat) (states : List StateId) :
    (activate seq states).map ActiveState.state = states := by
  induction states generalizing seq with
  | nil => rfl
  | cons state rest ih => rw [activate, List.map_cons, ih]

theorem enterStates_of_le {seq : Nat} {states : List StateId}
    (h : states ≠ [] → seq + states.length ≤ Word.max64) :
    enterStates seq states = .ok (activate seq states) := by
  induction states generalizing seq with
  | nil => rfl
  | cons state rest ih =>
      have hBound : seq + (rest.length + 1) ≤ Word.max64 := h (List.cons_ne_nil _ _)
      have hAdd : Word.checkedAdd Word.max64 seq 1 = some (seq + 1) :=
        Word.checkedAdd_eq_some.mpr ⟨rfl, by omega⟩
      have hRest := @ih (seq + 1) fun _ => by omega
      rw [enterStates, hAdd]
      simp only [hRest]
      rfl

theorem enterStates_of_lt {seq : Nat} {states : List StateId} (hStates : states ≠ [])
    (h : Word.max64 < seq + states.length) :
    enterStates seq states = .error .counterOverflow := by
  induction states generalizing seq with
  | nil => exact absurd rfl hStates
  | cons state rest ih =>
      rw [enterStates]
      cases hAdd : Word.checkedAdd Word.max64 seq 1 with
      | none => rfl
      | some next =>
          rcases Word.checkedAdd_eq_some.mp hAdd with ⟨rfl, hBound⟩
          rw [List.length_cons] at h
          have hRest : rest ≠ [] := by
            intro hNil
            rw [hNil, List.length_nil] at h
            omega
          have hFull := @ih (seq + 1) hRest (by omega)
          simp only [hFull]
          rfl

theorem enterStates_eq_ok {seq : Nat} {states : List StateId}
    {active : List ActiveState} :
    enterStates seq states = .ok active ↔
      active = activate seq states ∧ (states ≠ [] → seq + states.length ≤ Word.max64) := by
  by_cases h : states ≠ [] → seq + states.length ≤ Word.max64
  · rw [enterStates_of_le h, Except.ok.injEq, eq_comm]
    exact (and_iff_left h).symm
  · have hFull := Classical.not_imp.mp h
    rw [enterStates_of_lt hFull.1 (Nat.lt_of_not_le hFull.2)]
    simp only [reduceCtorEq, false_iff]
    exact fun hEq => h hEq.2

/-- The emitter that has written a path and lines of actions after `base`. -/
def Emitter.of (base : Scratch) (index : Nat) (path : List ActiveState)
    (lines : List ActionLine) (nextSeq : Nat) : Emitter where
  scratch :=
    { base with
      paths := base.paths ++ path
      actions := base.actions ++ actionRecords index lines }
  itemIndex := index
  pathStart := base.paths.length
  actionStart := base.actions.length
  nextSeq := nextSeq

theorem actionRecords_push (index : Nat) (lines : List ActionLine) (phase : ActionPhase)
    (active : ActiveState) (actions : List ActionId) (action : ActionId) :
    actionRecords index (lines ++ [⟨phase, active, actions ++ [action]⟩]) =
      actionRecords index (lines ++ [⟨phase, active, actions⟩]) ++
        [{ itemIndex := index
           ordinal := Word.asU32 (actionRecords index (lines ++ [⟨phase, active, actions⟩])).length
           phase := phase
           action := action
           state := active.state
           activationSeq := active.activationSeq }] := by
  simp [actionRecords, List.flatMap_append, List.mapIdx_append, ← List.append_assoc,
    Nat.add_comm]

theorem actionRecords_skip (index : Nat) (lines : List ActionLine) (phase : ActionPhase)
    (active : ActiveState) :
    actionRecords index (lines ++ [⟨phase, active, []⟩]) = actionRecords index lines := by
  simp [actionRecords]

namespace Emitter

theorem new_eq (scratch : Scratch) (index : Nat) (nextSeq : Nat) :
    new scratch index nextSeq = of scratch index [] [] nextSeq := by
  simp [new, of, actionRecords]

variable {base : Scratch} {index : Nat} {path : List ActiveState} {lines : List ActionLine}
  {nextSeq : Nat}

theorem of_pushAction (phase : ActionPhase) (active : ActiveState) (actions : List ActionId)
    (action : ActionId) :
    (of base index path (lines ++ [⟨phase, active, actions⟩]) nextSeq).pushAction phase
        active.state active.activationSeq action =
      of base index path (lines ++ [⟨phase, active, actions ++ [action]⟩]) nextSeq := by
  simp only [of, pushAction, actionRecords_push, List.append_assoc, List.length_append,
    Nat.add_sub_cancel_left]

/-- Recording extends the last line action by action. -/
theorem of_record_from (phase : ActionPhase) (active : ActiveState)
    (done actions : List ActionId) :
    (of base index path (lines ++ [⟨phase, active, done⟩]) nextSeq).record phase
        active.state active.activationSeq actions =
      of base index path (lines ++ [⟨phase, active, done ++ actions⟩]) nextSeq := by
  induction actions generalizing done with
  | nil => simp [record]
  | cons action rest ih =>
      change ((of _ _ _ _ _).pushAction _ _ _ action).record _ _ _ rest = _
      rw [of_pushAction, ih, List.append_assoc]
      rfl

theorem of_record (phase : ActionPhase) (active : ActiveState) (actions : List ActionId) :
    (of base index path lines nextSeq).record phase active.state active.activationSeq actions =
      of base index path (lines ++ [⟨phase, active, actions⟩]) nextSeq := by
  have hSkip : of base index path lines nextSeq =
      of base index path (lines ++ [⟨phase, active, []⟩]) nextSeq := by
    simp only [of, actionRecords_skip]
  rw [hSkip, of_record_from, List.nil_append]

theorem of_keepAll (active : List ActiveState) :
    (of base index path lines nextSeq).keepAll active =
      of base index (path ++ active) lines nextSeq := by
  induction active generalizing path with
  | nil => simp [keepAll]
  | cons a rest ih =>
      have hKeep : (of base index path lines nextSeq).keep a =
          of base index (path ++ [a]) lines nextSeq := by
        simp [of, keep]
      change ((of base index path lines nextSeq).keep a).keepAll rest = _
      rw [hKeep, ih, List.append_assoc]
      rfl

theorem of_exitAll (def_ : CompiledDefinition) (active : List ActiveState) :
    (of base index path lines nextSeq).exitAll def_ active =
      of base index path (lines ++ active.map def_.exitLine) nextSeq := by
  induction active generalizing lines with
  | nil => simp [exitAll]
  | cons a rest ih =>
      change ((of base index path lines nextSeq).record _ _ _ _).exitAll def_ rest = _
      rw [of_record, ih, List.append_assoc]
      rfl

theorem of_enter (def_ : CompiledDefinition) (state : StateId)
    (h : nextSeq + 1 ≤ Word.max64) :
    (of base index path lines nextSeq).enter def_ state =
      (of base index (path ++ [⟨state, nextSeq⟩])
        (lines ++ [def_.enterLine ⟨state, nextSeq⟩]) (nextSeq + 1), .ok ()) := by
  have hAdd : Word.checkedAdd Word.max64 (of base index path lines nextSeq).nextSeq 1 =
      some (nextSeq + 1) := Word.checkedAdd_eq_some.mpr ⟨rfl, h⟩
  have hKeep : ({ of base index path lines nextSeq with nextSeq := nextSeq + 1 }).keep
      ⟨state, nextSeq⟩ = of base index (path ++ [⟨state, nextSeq⟩]) lines (nextSeq + 1) := by
    simp [of, keep]
  have hRecord := @of_record base index (path ++ [⟨state, nextSeq⟩]) lines (nextSeq + 1)
    .enter ⟨state, nextSeq⟩ (def_.entryActions state)
  rw [← hKeep] at hRecord
  rw [enter]
  simp only [hAdd]
  exact congrArg (·, Except.ok ()) hRecord

/-- Entering a list of states writes their activations and entry lines. -/
theorem of_enterAll (def_ : CompiledDefinition) {states : List StateId}
    {active : List ActiveState} (h : enterStates nextSeq states = .ok active) :
    (of base index path lines nextSeq).enterAll def_ states =
      (of base index (path ++ active) (lines ++ active.map def_.enterLine)
        (nextSeq + active.length), .ok ()) := by
  induction states generalizing path lines nextSeq active with
  | nil =>
      obtain rfl : [] = active := Except.ok.inj h
      simp [enterAll]
  | cons state rest ih =>
      obtain ⟨rfl, hBound⟩ := enterStates_eq_ok.mp h
      have hBound : nextSeq + (rest.length + 1) ≤ Word.max64 := hBound (List.cons_ne_nil _ _)
      have hRest : enterStates (nextSeq + 1) rest = .ok (activate (nextSeq + 1) rest) :=
        enterStates_of_le fun _ => by omega
      rw [enterAll, of_enter def_ state (by omega)]
      simp only [ih hRest]
      simp [activate, Nat.add_assoc, Nat.add_comm 1]

/-- A failed entry leaves what was written so far, for `reject` to cut back. -/
theorem of_enterAll_error (def_ : CompiledDefinition) {states : List StateId}
    {failure : ItemError} (h : enterStates nextSeq states = .error failure) :
    ∃ path' lines' nextSeq',
      (of base index path lines nextSeq).enterAll def_ states =
        (of base index path' lines' nextSeq', .error failure) := by
  induction states generalizing path lines nextSeq with
  | nil => cases h
  | cons state rest ih =>
      rw [enterStates] at h
      cases hAdd : Word.checkedAdd Word.max64 nextSeq 1 with
      | none =>
          rw [hAdd] at h
          obtain rfl : ItemError.counterOverflow = failure := Except.error.inj h
          have hAdd : Word.checkedAdd Word.max64 (of base index path lines nextSeq).nextSeq 1 =
              none := hAdd
          refine ⟨path, lines, nextSeq, ?_⟩
          simp only [enterAll, enter, hAdd]
      | some next =>
          obtain ⟨rfl, hBound⟩ := Word.checkedAdd_eq_some.mp hAdd
          have hTail : enterStates (nextSeq + 1) rest = .error failure := by
            rw [hAdd] at h
            cases hTail : enterStates (nextSeq + 1) rest with
            | error failure' => simpa [hTail, Except.map] using h
            | ok tail => simp [hTail, Except.map] at h
          rw [enterAll, of_enter def_ state hBound]
          exact ih hTail

/-- Closing what was emitted for a reading writes it. -/
theorem of_finish (outcome : Outcome) (header : SnapshotHeader) :
    (of base index path lines nextSeq).finish outcome header =
      PlanReading.write ⟨outcome, path, lines, nextSeq⟩ index header base := by
  simp [of, finish, PlanReading.write]

theorem of_reject (failure : ItemError) :
    (of base index path lines nextSeq).reject failure = (rejectedPlan base failure, base) := by
  simp [of, reject, rejectedPlan]

end Emitter

/-- What a reading, or the lack of one, leaves in the plan and the scratch. -/
def writeResult (index : Nat) (scratch : Scratch) :
    Except ItemError (SnapshotHeader × PlanReading) → ItemPlan × Scratch
  | .ok (header, reading) => reading.write index header scratch
  | .error failure => (rejectedPlan scratch failure, scratch)

theorem close_enterTaken {base : Scratch} {index : Nat} {path : List ActiveState}
    {lines : List ActionLine} {nextSeq : Nat} (outcome : Outcome) (header : SnapshotHeader)
    (def_ : CompiledDefinition) (states : List StateId) :
    Emitter.close outcome header
        ((Emitter.of base index path lines nextSeq).enterTaken def_ states) =
      writeResult index { base with entered := states } ((enterStates nextSeq states).map
        fun active => (header, ⟨outcome, path ++ active, lines ++ active.map def_.enterLine,
          nextSeq + active.length⟩)) := by
  have hTaken : ∀ em result,
      (Emitter.of { base with entered := [] } index path lines nextSeq).enterAll def_ states =
        (em, result) →
      (Emitter.of base index path lines nextSeq).enterTaken def_ states =
        ({ em with scratch := { em.scratch with entered := states } }, result) := by
    intro em result hEnter
    rw [Emitter.enterTaken]
    exact congrArg (fun after : Emitter × Except ItemError Unit =>
      ({ after.1 with scratch := { after.1.scratch with entered := states } }, after.2)) hEnter
  cases hEnter : enterStates nextSeq states with
  | ok active =>
      rw [hTaken _ _ (Emitter.of_enterAll def_ hEnter)]
      exact @Emitter.of_finish { base with entered := states } _ _ _ _ outcome header
  | error failure =>
      obtain ⟨path', lines', nextSeq', hResult⟩ := Emitter.of_enterAll_error def_ hEnter
      rw [hTaken _ _ hResult]
      exact @Emitter.of_reject { base with entered := states } _ _ _ _ failure

theorem close_apply (scratch : Scratch) (index : Nat) (header : SnapshotHeader)
    (def_ : CompiledDefinition) (s : Snapshot) (keep : Nat) (source : ActiveState)
    (t : CompiledTransition) (target : StateId) {kept : Nat}
    (hKept : (match t.kind with
      | .local _ => keep + 1
      | _ => keep) = kept) :
    Emitter.close (.transitioned t.id) header
        (apply (Emitter.new scratch index s.nextActivationSeq) def_ s keep source t target) =
      writeResult index
        { scratch with entered :=
            def_.enteredBelow ((s.activePath.take kept).getLast?.map ActiveState.state) target }
        ((def_.readCrossing s kept source t target).map fun reading => (header, reading)) := by
  subst hKept
  rw [apply, Emitter.new_eq, Emitter.of_exitAll, Emitter.of_record, Emitter.of_keepAll,
    close_enterTaken, CompiledDefinition.readCrossing, CompiledDefinition.enteredBelow]
  cases enterStates s.nextActivationSeq _ <;> rfl

theorem close_fire (scratch : Scratch) (index : Nat) (header : SnapshotHeader)
    (def_ : CompiledDefinition) (s : Snapshot) (level : Nat) (source : ActiveState)
    (t : CompiledTransition) :
    Emitter.close (.transitioned t.id) header
        (fire (Emitter.new scratch index s.nextActivationSeq) def_ s level source t) =
      writeResult index { scratch with entered := (def_.filledBy s level t).getD scratch.entered }
        ((def_.readTransition s level source t).map fun reading => (header, reading)) := by
  rw [fire, CompiledDefinition.readTransition, CompiledDefinition.filledBy]
  cases hKind : t.kind with
  | internal =>
      simp only [Emitter.new_eq, Emitter.of_keepAll, Emitter.of_record]
      exact Emitter.of_finish _ header
  | «local» target =>
      exact close_apply scratch index header def_ s level source t target (by rw [hKind])
  | external target =>
      exact close_apply scratch index header def_ s (keepExternal def_ s t.source target) source t
        target (by rw [hKind])

theorem start_eq (index : Nat) (item : BatchItem) (epoch : MachineEpoch) (scratch : Scratch) :
    (match start index item epoch scratch with
      | .ok written => written
      | .error failure => (rejectedPlan scratch failure, scratch)) =
      writeResult index { scratch with entered := (filledByStart item).getD scratch.entered }
        (readStart item epoch) := by
  rw [start, readStart, filledByStart]
  cases startCounters item with
  | error failure => rfl
  | ok counters =>
      cases hBump : bump counters.1 with
      | error failure =>
          simp only [bind, Except.bind, hBump]
          rfl
      | ok step =>
          have hClose := @close_enterTaken scratch index [] [] counters.2 .started
            (startHeader item epoch step counters.2) item.definition
            (item.definition.rootInitial ::
              item.definition.initialChain item.definition.rootInitial)
          rw [← Emitter.new_eq] at hClose
          simp only [bind, Except.bind, hBump, hClose]
          cases enterStates counters.2 _ <;> rfl

theorem stop_eq (index : Nat) (item : BatchItem) (scratch : Scratch) :
    (match stop index item scratch with
      | .ok written => written
      | .error failure => (rejectedPlan scratch failure, scratch)) =
      writeResult index scratch (readStop item) := by
  rw [stop, readStop]
  cases admitSnapshot item with
  | error failure => rfl
  | ok s =>
      by_cases hRunning : s.lifecycle = .running
      · cases hBump : bump s.stepSeq with
        | error failure => simp [bind, Except.bind, hRunning, hBump, writeResult]
        | ok step =>
            have hExit := @Emitter.of_exitAll scratch index [] [] s.nextActivationSeq
              item.definition s.activePath.reverse
            rw [← Emitter.new_eq] at hExit
            simp only [bind, Except.bind, hRunning, hBump, hExit, ne_eq, not_true_eq_false,
              if_false]
            exact Emitter.of_finish _ _
      · simp [bind, Except.bind, hRunning, writeResult]

theorem event_eq (index : Nat) (item : BatchItem) (event : EventKind) (scratch : Scratch) :
    (match eventItem index item event scratch with
      | .ok written => written
      | .error failure => (rejectedPlan scratch failure, scratch)) =
      writeResult index { scratch with entered := (filledByEvent item event).getD scratch.entered }
        (readEvent item event) := by
  rw [eventItem, readEvent, filledByEvent]
  cases admitSnapshot item with
  | error failure => rfl
  | ok s =>
      simp only [bind, Except.bind]
      cases admitEvent item event s with
      | error failure => rfl
      | ok step =>
          cases select item.definition s event item.guards with
          | error failure => rfl
          | ok selected =>
              cases selected with
              | none =>
                  rw [Emitter.new_eq, Emitter.of_keepAll]
                  exact Emitter.of_finish _ _
              | some chosen =>
                  cases hSource : s.activePath[chosen.1]? with
                  | none =>
                      have hOut := List.getElem?_eq_none_iff.mp hSource
                      simp only [CompiledDefinition.readSelected, hSource,
                        if_neg (Nat.not_lt.mpr hOut)]
                      rfl
                  | some source =>
                      obtain ⟨hLevel, -⟩ := List.getElem?_eq_some_iff.mp hSource
                      simp only [CompiledDefinition.readSelected, hSource, close_fire, hLevel,
                        if_true]
                      cases item.definition.readTransition s chosen.1 source chosen.2 <;> rfl

/-- Evaluation writes the reading of the item, wherever the scratch stands. -/
theorem evaluateItem_eq (index : Nat) (item : BatchItem) (scratch : Scratch) :
    evaluateItem index item scratch =
      writeResult index { scratch with entered := residue item scratch.entered }
        (readItem item) := by
  rw [evaluateItem, readItem, residue]
  cases item.kind with
  | start epoch => exact start_eq index item epoch scratch
  | event event => exact event_eq index item event scratch
  | stop => exact stop_eq index item scratch

end Hfsm

import LumioNativeCore.Library.Nesting
import LumioNativeCore.Hfsm.Activation

/-! The entry and exit records of a run. A host that acquires on entry and releases on
exit reads them as brackets: one opens an activation, one closes it. -/
namespace Hfsm
open Nesting

/-- What a host reads of a record: its phase, its activation and its action. -/
abbrev Letter := ActionPhase × ActiveState × ActionId

def ActionRecord.letter (record : ActionRecord) : Letter :=
  (record.phase, ⟨record.state, record.activationSeq⟩, record.action)

/-- The entry and exit records among the records of a plan. -/
def lettersOf (records : List ActionRecord) : List Letter :=
  (records.map ActionRecord.letter).filter fun letter => decide (letter.1 ≠ .transition)

namespace DefinitionSpec

/-- A bracket is spelled by the full entry list or the full exit list of its state. -/
def spell (spec : DefinitionSpec) : Bracket ActiveState → List Letter
  | .opened a => (spec.entryActions a.state).map (.enter, a, ·)
  | .closed a => (spec.exitActions a.state).map (.exit, a, ·)

/-- `a` is an activation of a declared state whose parent is that of `prev`, or of a top
level state. -/
def IsChild (spec : DefinitionSpec) (prev : Option ActiveState) (a : ActiveState) : Prop :=
  ∃ s ∈ spec.states, s.id = a.state ∧ s.parent = prev.map ActiveState.state

end DefinitionSpec

/-- An item with its plan and the action records of that plan. -/
structure Planned where
  item : BatchItem
  plan : ItemPlan
  records : List ActionRecord

/-- The host evaluates an item anywhere in a batch, reads its records out of the actions
buffer, and stores the snapshot of the plan unless the item was rejected. -/
inductive PlanStep (def_ : CompiledDefinition) (key : MachineKey) :
    Option Snapshot → Planned → Option Snapshot → Prop where
  | evaluate {before : Option Snapshot} {item : BatchItem} {plan : ItemPlan} {written : Scratch}
      (index : Nat) (scratch : Scratch) (laterPaths : List ActiveState)
      (laterActions : List ActionRecord) (hItem : IsAbout def_ key before item)
      (hPlan : evaluateItem (Word.asU32 index) item scratch = (plan, written))
      (hPaths : scratch.paths.length + def_.maxDepth < 2 ^ 32)
      (hActions : written.actions.length < 2 ^ 32) :
      PlanStep def_ key before
        ⟨item, plan, Buffer.slice (written.actions ++ laterActions) plan.actionStart plan.actionLen⟩
        ((Snapshot.fromPlan plan (written.paths ++ laterPaths)).or before)

/-- The entry and exit records of a plan spell a word of brackets. -/
structure Spells (spec : DefinitionSpec) (planned : Planned) (word : List (Bracket ActiveState)) :
    Prop where
  letters : lettersOf planned.records = word.flatMap spec.spell
  nonempty : ∀ b ∈ word, spec.spell b ≠ []

/-- The brackets of an item: what it exits, then what it enters. -/
def bracketsOf (item : BatchItem) : List (Bracket ActiveState) :=
  (exitedBy item).map .closed ++ (enteredBy item).map .opened

/-! The lines of a reading: exits, transition actions, entries. -/

/-- The lines of a plan, with those between its exits and its entries. -/
def linesOf (def_ : CompiledDefinition) (exited : List ActiveState) (between : List ActionLine)
    (entered : List ActiveState) : List ActionLine :=
  exited.map def_.exitLine ++ between ++ entered.map def_.enterLine

def IsArranged (def_ : CompiledDefinition) (reading : PlanReading) : Prop :=
  ∃ exited between entered, (∀ line ∈ between, line.phase = .transition) ∧
    reading.lines = linesOf def_ exited between entered

theorem activeIn_linesOf (def_ : CompiledDefinition) (exited entered : List ActiveState)
    {between : List ActionLine} (hBetween : ∀ line ∈ between, line.phase = .transition) :
    activeIn .exit (linesOf def_ exited between entered) = exited ∧
      activeIn .enter (linesOf def_ exited between entered) = entered := by
  have hExit : ∀ a, (def_.exitLine a).phase = .exit ∧ (def_.exitLine a).active = a :=
    fun a => ⟨rfl, rfl⟩
  have hEnter : ∀ a, (def_.enterLine a).phase = .enter ∧ (def_.enterLine a).active = a :=
    fun a => ⟨rfl, rfl⟩
  have hNone : ∀ phase, phase ≠ .transition → activeIn phase between = [] := by
    intro phase hPhase
    rw [activeIn, List.map_eq_nil_iff, List.filter_eq_nil_iff]
    intro line hLine hSame
    exact hPhase ((of_decide_eq_true hSame).symm.trans (hBetween line hLine))
  simp only [linesOf, activeIn_append, activeIn_map hExit, activeIn_map hEnter]
  rw [hNone .exit (by simp), hNone .enter (by simp)]
  simp

section Reading

variable {def_ : CompiledDefinition} {s : Snapshot} {reading : PlanReading}

theorem readCrossing_arranged {keep : Nat} {source : ActiveState} {t : CompiledTransition}
    {target : StateId} (h : def_.readCrossing s keep source t target = .ok reading) :
    IsArranged def_ reading := by
  rw [CompiledDefinition.readCrossing] at h
  cases hEnter : enterStates s.nextActivationSeq (def_.enteredBelow
      ((s.activePath.take keep).getLast?.map ActiveState.state) target) with
  | error failure => simp [hEnter, Except.map] at h
  | ok entered =>
      simp only [hEnter, Except.map, Except.ok.injEq] at h
      refine ⟨(s.activePath.drop keep).reverse, [⟨.transition, source, t.actions⟩], entered, ?_, ?_⟩
      · intro line hLine
        rw [List.mem_singleton.mp hLine]
      · rw [← h]
        rfl

theorem readSelected_arranged {selected : Option (Nat × CompiledTransition)}
    (h : def_.readSelected s selected = .ok reading) : IsArranged def_ reading := by
  cases selected with
  | none =>
      rw [← Except.ok.inj h]
      exact ⟨[], [], [], List.forall_mem_nil _, rfl⟩
  | some chosen =>
      obtain ⟨level, t⟩ := chosen
      rw [CompiledDefinition.readSelected] at h
      cases hSource : s.activePath[level]? with
      | none => simp [hSource] at h
      | some source =>
          simp only [hSource, CompiledDefinition.readTransition] at h
          cases hKind : t.kind with
          | internal =>
              simp only [hKind, Except.ok.injEq] at h
              refine ⟨[], [⟨.transition, source, t.actions⟩], [], ?_, by rw [← h]; rfl⟩
              intro line hLine
              rw [List.mem_singleton.mp hLine]
          | «local» target =>
              rw [hKind] at h
              exact readCrossing_arranged h
          | external target =>
              rw [hKind] at h
              exact readCrossing_arranged h

theorem readItem_arranged {item : BatchItem} {header : SnapshotHeader}
    (h : readItem item = .ok (header, reading)) : IsArranged item.definition reading := by
  rw [readItem] at h
  cases hKind : item.kind with
  | start epoch =>
      simp only [hKind, readStart, Check.bind_eq_ok, Except.ok.injEq, Prod.mk.injEq] at h
      obtain ⟨counters, -, step, -, entered, -, -, rfl⟩ := h
      exact ⟨[], [], entered, List.forall_mem_nil _, rfl⟩
  | event event =>
      simp only [hKind, readEvent, Check.bind_eq_ok, Except.ok.injEq, Prod.mk.injEq] at h
      obtain ⟨s, -, step, -, selected, -, found, hFound, -, rfl⟩ := h
      exact readSelected_arranged hFound
  | stop =>
      simp only [hKind, readStop, Check.bind_eq_ok] at h
      obtain ⟨s, -, h⟩ := h
      split_ifs at h
      simp only [Check.bind_eq_ok, Except.ok.injEq, Prod.mk.injEq] at h
      obtain ⟨step, -, -, rfl⟩ := h
      refine ⟨s.activePath.reverse, [], [], List.forall_mem_nil _, ?_⟩
      simp [linesOf]

end Reading

/-! Letters of a reading. -/

theorem lettersOf_actionRecords (index : Nat) (lines : List ActionLine) :
    lettersOf (actionRecords index lines) =
      (lines.flatMap fun line => line.actions.map (line.phase, line.active, ·)).filter
        fun letter => decide (letter.1 ≠ .transition) := by
  have hLetters : ∀ letters : List Letter,
      (letters.mapIdx fun ordinal (phase, active, action) =>
        { itemIndex := index
          ordinal := Word.asU32 ordinal
          phase := phase
          action := action
          state := active.state
          activationSeq := active.activationSeq : ActionRecord }).map ActionRecord.letter =
        letters := by
    intro letters
    rw [List.mapIdx_eq_zipIdx_map, List.map_map]
    exact List.zipIdx_map_fst 0 letters
  rw [lettersOf, actionRecords, hLetters]

section Letters

variable {spec : DefinitionSpec} {def_ : CompiledDefinition}

/-- The records of one phase of some activations, all kept or all left out. -/
theorem filter_lines {line : ActiveState → ActionLine} {bracket : ActiveState → Bracket ActiveState}
    (hLine : ∀ a, (line a).actions.map ((line a).phase, (line a).active, ·) =
      spec.spell (bracket a))
    (hPhase : ∀ a, (line a).phase ≠ .transition) (active : List ActiveState) :
    ((active.map line).flatMap fun line => line.actions.map (line.phase, line.active, ·)).filter
        (fun letter => decide (letter.1 ≠ .transition)) =
      (active.map bracket).flatMap spec.spell := by
  induction active with
  | nil => rfl
  | cons a rest ih =>
      have hKept : ((line a).actions.map ((line a).phase, (line a).active, ·)).filter
          (fun letter => decide (letter.1 ≠ .transition)) = spec.spell (bracket a) := by
        rw [← hLine a, List.filter_eq_self]
        intro letter hLetter
        obtain ⟨action, -, rfl⟩ := List.mem_map.mp hLetter
        exact decide_eq_true (hPhase a)
      rw [List.map_cons, List.map_cons, List.flatMap_cons, List.flatMap_cons, List.filter_append,
        hKept, ih]

theorem Accepted.lettersOf_linesOf (h : Accepted spec def_) (index : Nat)
    (exited entered : List ActiveState) {between : List ActionLine}
    (hBetween : ∀ line ∈ between, line.phase = .transition) :
    lettersOf (actionRecords index (linesOf def_ exited between entered)) =
      (exited.map Bracket.closed ++ entered.map Bracket.opened).flatMap spec.spell := by
  have hExit : ∀ a, (def_.exitLine a).actions.map
      ((def_.exitLine a).phase, (def_.exitLine a).active, ·) = spec.spell (.closed a) := by
    intro a
    show (def_.exitActions a.state).map _ = _
    rw [h.exitActions_eq]
    rfl
  have hEnter : ∀ a, (def_.enterLine a).actions.map
      ((def_.enterLine a).phase, (def_.enterLine a).active, ·) = spec.spell (.opened a) := by
    intro a
    show (def_.entryActions a.state).map _ = _
    rw [h.entryActions_eq]
    rfl
  have hNone : (between.flatMap fun line => line.actions.map (line.phase, line.active, ·)).filter
      (fun letter => decide (letter.1 ≠ .transition)) = [] := by
    rw [List.filter_eq_nil_iff]
    intro letter hLetter
    obtain ⟨line, hLine, hLetter⟩ := List.mem_flatMap.mp hLetter
    obtain ⟨action, -, rfl⟩ := List.mem_map.mp hLetter
    simp [hBetween line hLine]
  rw [lettersOf_actionRecords, linesOf, List.flatMap_append, List.flatMap_append,
    List.filter_append, List.filter_append, filter_lines hExit (by simp [CompiledDefinition.exitLine]),
    filter_lines hEnter (by simp [CompiledDefinition.enterLine]), hNone, List.append_nil,
    List.flatMap_append]

/-- The letters of an item, whatever its place in the batch. -/
theorem Accepted.lettersOf_readActions {item : BatchItem} (h : Accepted spec item.definition)
    (index : Nat) :
    lettersOf (readActions (item, index)) = (bracketsOf item).flatMap spec.spell := by
  rw [bracketsOf, exitedBy, enteredBy, readActions]
  cases hRead : readItem item with
  | error failure => rfl
  | ok read =>
      obtain ⟨header, reading⟩ := read
      obtain ⟨exited, between, entered, hBetween, hLines⟩ := readItem_arranged hRead
      obtain ⟨hExits, hEnters⟩ := activeIn_linesOf item.definition exited entered hBetween
      show lettersOf (actionRecords _ reading.lines) =
        ((activeIn .exit reading.lines).map Bracket.closed ++
          (activeIn .enter reading.lines).map Bracket.opened).flatMap spec.spell
      rw [hLines, hExits, hEnters]
      exact h.lettersOf_linesOf _ exited entered hBetween

end Letters

/-! Steps. -/

section Step

variable {spec : DefinitionSpec} {def_ : CompiledDefinition} {key : MachineKey}
  {before after : Option Snapshot} {planned : Planned}

/-- The step of the host, without its records. -/
theorem PlanStep.host (h : Accepted spec def_) (step : PlanStep def_ key before planned after) :
    HostStep def_ key before planned.item after := by
  cases step with
  | @evaluate item plan written index scratch laterPaths laterActions hItem hPlan hPaths hActions =>
      cases hRead : readItem item with
      | error failure =>
          have hRejected : plan = rejectedPlan scratch failure := by
            rw [evaluateItem_eq, hRead] at hPlan
            exact (Prod.mk.inj hPlan).1.symm
          subst hRejected
          exact HostStep.reject (Word.asU32 index) scratch failure hItem (by rw [hPlan]; rfl)
      | ok read =>
          have h' : Accepted spec item.definition := hItem.definition ▸ h
          have hNext := h'.fromPlan_evaluateItem hRead (Word.asU32 index)
            (hItem.definition ▸ hPaths) laterPaths
          rw [hPlan] at hNext
          show HostStep def_ key before item
            ((Snapshot.fromPlan plan (written.paths ++ laterPaths)).or before)
          rw [hNext, Option.some_or]
          apply HostStep.commit (Word.asU32 index) scratch laterPaths hItem hPaths
          rw [hPlan]
          exact hNext

/-- The records of a plan are those of its item at the position the item had. -/
theorem PlanStep.records_eq (step : PlanStep def_ key before planned after) :
    ∃ index, planned.records = readActions (planned.item, index) := by
  cases step with
  | @evaluate item plan written index scratch laterPaths laterActions hItem hPlan hPaths hActions =>
      refine ⟨index, ?_⟩
      rw [evaluateItem_records] at hPlan
      obtain ⟨rfl, rfl⟩ := Prod.mk.inj hPlan
      rw [List.length_append] at hActions
      show Buffer.slice (scratch.actions ++ readActions (item, index) ++ laterActions) _ _ = _
      rw [(planAt_starts _ _ _ _).2, planAt_actionLen item (by omega),
        Word.asU32_of_lt (by omega), Buffer.slice_append]

/-- What is stored after a stop that was not rejected has no path. -/
theorem PlanStep.stopped (h : Accepted spec def_) (step : PlanStep def_ key before planned after)
    (hKind : planned.item.kind = .stop)
    (hAccepted : ∀ failure, planned.plan.outcome ≠ .rejected failure) : pathOf after = [] := by
  have hHost := step.host h
  cases step with
  | @evaluate item plan written index scratch laterPaths laterActions hItem hPlan hPaths hActions =>
      obtain ⟨-, ⟨failure, hRead, -⟩ | ⟨header, reading, hRead, hAfter⟩⟩ := hHost.cases_read h
      · rw [evaluateItem_eq, hRead] at hPlan
        obtain ⟨rfl, -⟩ := Prod.mk.inj hPlan
        exact absurd rfl (hAccepted failure)
      · rw [hAfter]
        have hKind : item.kind = .stop := hKind
        simp only [readItem, hKind, readStop, Check.bind_eq_ok] at hRead
        obtain ⟨s, -, hRead⟩ := hRead
        split_ifs at hRead
        simp only [Check.bind_eq_ok, Except.ok.injEq, Prod.mk.injEq] at hRead
        obtain ⟨step, -, -, rfl⟩ := hRead
        rfl

end Step

/-! Runs. -/

section Run
open Transition

variable {spec : DefinitionSpec} {def_ : CompiledDefinition} {key : MachineKey}

theorem descends_of_linked {prev : Option ActiveState} {path : List ActiveState}
    (hKnown : ∀ a ∈ path, (spec.findState a.state).isSome)
    (hLinked : Forest.Linked spec.parentOf (prev.map ActiveState.state)
      (path.map ActiveState.state)) : Descends spec.IsChild prev path := by
  induction path generalizing prev with
  | nil => trivial
  | cons a rest ih =>
      rw [List.forall_mem_cons] at hKnown
      obtain ⟨hParent, hRest⟩ := hLinked
      obtain ⟨s, hFind⟩ := Option.isSome_iff_exists.mp hKnown.1
      obtain ⟨hs, hId⟩ := mem_of_findState hFind
      rw [DefinitionSpec.parentOf, hFind] at hParent
      exact ⟨⟨s, hs, hId, hParent⟩, ih hKnown.2 hRest⟩

/-- An active path leads from a top level state to a leaf, child by child. -/
theorem Accepted.descends_of_isPathTo (h : Accepted spec def_) {leaf : StateId}
    {path : List ActiveState} (hPath : spec.IsPathTo leaf path) :
    Descends spec.IsChild none path := by
  apply descends_of_linked _ (h.linked_of_isPathTo hPath)
  intro a ha
  apply h.ancestry_known hPath.1.1
  rw [← hPath.2, List.mem_reverse]
  exact List.mem_map_of_mem ha

theorem HostStep.descends (h : Accepted spec def_) {before after : Option Snapshot}
    {item : BatchItem} (step : HostStep def_ key before item after)
    (hBefore : Descends spec.IsChild none (pathOf before)) :
    Descends spec.IsChild none (pathOf after) := by
  obtain ⟨hItem, ⟨failure, hRead, rfl⟩ | ⟨header, reading, hRead, rfl⟩⟩ := step.cases_read h
  · exact hBefore
  · have h' : Accepted spec item.definition := hItem.definition ▸ h
    show Descends spec.IsChild none reading.path
    cases (h'.readItem_advances hRead).configuration with
    | inl hStopped =>
        rw [hStopped.2]
        trivial
    | inr hRunning =>
        obtain ⟨-, leaf, hPath⟩ := hRunning
        exact h'.descends_of_isPathTo hPath

/-- One item closes the end of the path, the innermost first, and opens children on what
is left of it. -/
theorem Moves.nested {before after : Option Snapshot} {item : BatchItem}
    (hMoves : Moves before item after) (hAfter : Descends spec.IsChild none (pathOf after)) :
    Nested spec.IsChild (pathOf before) (bracketsOf item) (pathOf after) := by
  obtain ⟨kept, exited, entered, hBefore, hPath, -, hExited, hEntered⟩ := hMoves
  rw [hPath, descends_append, Option.or_none] at hAfter
  rw [bracketsOf, hBefore, hPath, hExited, hEntered]
  exact (nested_closes spec.IsChild kept exited).trans (nested_opens hAfter.2)

/-- Every bracket of an item that exits and enters declared states can be told from its
spelling. -/
theorem spell_ne_nil (hNodup : (spec.states.map StateSpec.id).Nodup)
    (hActions : ∀ s ∈ spec.states, s.entry ≠ [] ∧ s.exit ≠ []) {prev : Option ActiveState}
    {a : ActiveState} (hChild : spec.IsChild prev a) :
    spec.spell (.opened a) ≠ [] ∧ spec.spell (.closed a) ≠ [] := by
  obtain ⟨s, hs, hId, -⟩ := hChild
  have hFind := findState_of_mem hNodup hs
  rw [hId] at hFind
  simp [DefinitionSpec.spell, DefinitionSpec.entryActions, DefinitionSpec.exitActions, hFind,
    hActions s hs]

/-- The bracket that a letter belongs to. -/
def Letter.bracket (letter : Letter) : Option (Bracket ActiveState) :=
  match letter.1 with
  | .exit => some (.closed letter.2.1)
  | .transition => none
  | .enter => some (.opened letter.2.1)

theorem bracket_of_mem_spell {b : Bracket ActiveState} {letter : Letter}
    (h : letter ∈ spec.spell b) : letter.bracket = some b := by
  cases b with
  | opened a =>
      obtain ⟨action, -, rfl⟩ := List.mem_map.mp h
      rfl
  | closed a =>
      obtain ⟨action, -, rfl⟩ := List.mem_map.mp h
      rfl

/-- The first letter of a bracket tells which bracket it is, and so how long it is. -/
theorem legible_of_spell {word : List (Bracket ActiveState)}
    (hWord : ∀ b ∈ word, spec.spell b ≠ []) : Legible spec.spell word := by
  intro b hb
  refine ⟨hWord b hb, fun b' rest rest' hb' hSame => ?_⟩
  obtain ⟨letter, tail, hSpell⟩ := List.exists_cons_of_ne_nil (hWord b hb)
  obtain ⟨letter', tail', hSpell'⟩ := List.exists_cons_of_ne_nil hb'
  have hLetter : letter = letter' := by
    rw [hSpell, hSpell'] at hSame
    exact List.head_eq_of_cons_eq hSame
  have hLeft : letter ∈ spec.spell b := hSpell ▸ List.mem_cons_self
  have hRight : letter ∈ spec.spell b' := hSpell' ▸ hLetter ▸ List.mem_cons_self
  obtain rfl := Option.some.inj
    ((bracket_of_mem_spell hLeft).symm.trans (bracket_of_mem_spell hRight))
  exact ⟨rfl, List.append_cancel_left hSame⟩

/-- The records of a plan are read in one way only. -/
theorem spells_rightUnique : Relator.RightUnique (Spells spec) := by
  intro planned word word' hWord hWord'
  apply (legible_of_spell hWord.nonempty).unique hWord'.nonempty
  rw [← hWord.letters, hWord'.letters]

variable {start final : Option Snapshot} {trace : List Planned}

/-- The run of the host without the records of its plans. -/
theorem run_host (h : Accepted spec def_) (run : Run (PlanStep def_ key) start trace final) :
    Run (HostStep def_ key) start (trace.map Planned.item) final := by
  induction run with
  | nil => exact Run.nil _
  | snoc prior last ih =>
      rw [List.map_append]
      exact Run.snoc ih (last.host h)

/-- The word of a run is nested, and what is open after it is the active path. -/
theorem run_nested (h : Accepted spec def_) (hStart : pathOf start = [])
    (run : Run (PlanStep def_ key) start trace final) :
    Nested spec.IsChild [] (trace.flatMap fun planned => bracketsOf planned.item) (pathOf final) ∧
      Descends spec.IsChild none (pathOf final) := by
  apply run.invariant fun trace final =>
    Nested spec.IsChild [] (trace.flatMap fun planned => bracketsOf planned.item) (pathOf final) ∧
      Descends spec.IsChild none (pathOf final)
  · rw [hStart]
    exact ⟨Nested.nil [], trivial⟩
  · intro trace before planned after hPrior last
    have hHost := last.host h
    have hAfter := hHost.descends h hPrior.2
    refine ⟨?_, hAfter⟩
    rw [List.flatMap_append, List.flatMap_singleton]
    exact hPrior.1.trans ((hHost.moves h).nested hAfter)

/-- The brackets of every item of a run are spelled by the records of its plan. -/
theorem run_spelled (h : Accepted spec def_)
    (hActions : ∀ s ∈ spec.states, s.entry ≠ [] ∧ s.exit ≠ []) (hStart : pathOf start = [])
    (run : Run (PlanStep def_ key) start trace final) :
    ∀ planned ∈ trace, Spells spec planned (bracketsOf planned.item) := by
  have hRun : (∀ planned ∈ trace, Spells spec planned (bracketsOf planned.item)) ∧
      Descends spec.IsChild none (pathOf final) := by
    apply run.invariant fun trace final =>
      (∀ planned ∈ trace, Spells spec planned (bracketsOf planned.item)) ∧
        Descends spec.IsChild none (pathOf final)
    · rw [hStart]
      exact ⟨List.forall_mem_nil _, trivial⟩
    · intro trace before planned after hPrior last
      have hHost := last.host h
      have hAfter := hHost.descends h hPrior.2
      refine ⟨?_, hAfter⟩
      rw [List.forall_mem_append, List.forall_mem_singleton]
      refine ⟨hPrior.1, ?_, ?_⟩
      · obtain ⟨index, hRecords⟩ := last.records_eq
        have h' : Accepted spec planned.item.definition :=
          (hHost.cases_read h).1.definition ▸ h
        rw [hRecords]
        exact h'.lettersOf_readActions index
      · obtain ⟨kept, exited, entered, hBefore, hPath, -, hExited, hEntered⟩ := hHost.moves h
        intro b hb
        rw [bracketsOf, List.mem_append, hExited, hEntered] at hb
        rcases hb with hb | hb
        · obtain ⟨a, ha, rfl⟩ := List.mem_map.mp hb
          have hOpen : a ∈ pathOf before := by
            rw [hBefore]
            exact List.mem_append_right _ (List.mem_reverse.mp ha)
          obtain ⟨prev, hChild⟩ := hPrior.2.child_of_mem hOpen
          exact (spell_ne_nil h.idsNodup hActions hChild).2
        · obtain ⟨a, ha, rfl⟩ := List.mem_map.mp hb
          have hOpen : a ∈ pathOf after := by
            rw [hPath]
            exact List.mem_append_right _ ha
          obtain ⟨prev, hChild⟩ := hAfter.child_of_mem hOpen
          exact (spell_ne_nil h.idsNodup hActions hChild).1
  exact hRun.1

end Run

/-- For every definition whose states all have entry and exit actions, and every run of one
machine that begins without a path: the entry and exit records of the plans spell exactly
one word of brackets. No activation is opened twice or closed twice, and after each step
the word so far has opened children of the innermost open activation, closed the innermost
open one, and left open what is on the active path, which is nothing after a stop. -/
theorem actions_well_nested {spec : DefinitionSpec} {limits : HfsmLimits}
    {def_ : CompiledDefinition} (hCompile : compile spec limits = .ok def_)
    (hActions : ∀ s ∈ spec.states, s.entry ≠ [] ∧ s.exit ≠ []) (key : MachineKey)
    {start final : Option Snapshot} {trace : List Planned} (hStart : pathOf start = [])
    (run : Transition.Run (PlanStep def_ key) start trace final) :
    ∃ words : List (List (Bracket ActiveState)),
      List.Forall₂ (Spells spec) trace words ∧
      (∀ others, List.Forall₂ (Spells spec) trace others → others = words) ∧
      (opensIn words.flatten).Nodup ∧ (closesIn words.flatten).Nodup ∧
      ∀ first second, trace = first ++ second → ∃ middle,
        Transition.Run (PlanStep def_ key) start first middle ∧
        Transition.Run (PlanStep def_ key) middle second final ∧
        Nested spec.IsChild [] (words.take first.length).flatten (pathOf middle) ∧
        ∀ planned, first.getLast? = some planned → planned.item.kind = .stop →
          (∀ failure, planned.plan.outcome ≠ .rejected failure) → pathOf middle = [] := by
  have h := accepted hCompile
  have hSpelled := run_spelled h hActions hStart run
  have hOpens : opensIn (trace.map fun planned => bracketsOf planned.item).flatten =
      (trace.map Planned.item).flatMap enteredBy := by
    clear hSpelled run
    induction trace with
    | nil => rfl
    | cons planned rest ih =>
        rw [List.map_cons, List.flatten_cons, opensIn_append, ih, bracketsOf]
        simp
  have hOpened : (opensIn (trace.map fun planned => bracketsOf planned.item).flatten).Nodup := by
    rw [hOpens]
    apply (run_entered h (run_host h run)).1.imp
    rintro a b hLess rfl
    exact Nat.lt_irrefl _ hLess
  have hWords : List.Forall₂ (Spells spec) trace
      (trace.map fun planned => bracketsOf planned.item) := by
    rw [List.forall₂_map_right_iff, List.forall₂_same]
    exact hSpelled
  refine ⟨_, hWords, ?_, hOpened, ?_, ?_⟩
  · intro others hOthers
    exact spells_rightUnique.forall₂ hOthers hWords
  · have hNested := (run_nested h hStart run).1
    rw [List.flatMap_def] at hNested
    exact (List.nodup_append.mp (hNested.opens_perm.nodup_iff.mp hOpened)).1
  · rintro first second rfl
    obtain ⟨middle, hFirst, hSecond⟩ := run.split
    refine ⟨middle, hFirst, hSecond, ?_, ?_⟩
    · have hNested := (run_nested h hStart hFirst).1
      rw [List.flatMap_def] at hNested
      simpa using hNested
    · intro planned hLast hKind hAccepted
      obtain ⟨front, rfl⟩ := List.getLast?_eq_some_iff.mp hLast
      obtain ⟨before, -, last⟩ := hFirst.last
      exact last.stopped h hKind hAccepted

/-- An item evaluated alone. -/
def plannedAlone (item : BatchItem) : Planned where
  item := item
  plan := (evaluateItem 0 item .empty).1
  records := Buffer.slice ((evaluateItem 0 item .empty).2.actions ++ [])
    (evaluateItem 0 item .empty).1.actionStart (evaluateItem 0 item .empty).1.actionLen

theorem PlanStep.alone {def_ : CompiledDefinition} {key : MachineKey}
    {before after : Option Snapshot} {item : BatchItem} (hItem : IsAbout def_ key before item)
    (hPaths : def_.maxDepth < 2 ^ 32)
    (hActions : (evaluateItem 0 item .empty).2.actions.length < 2 ^ 32)
    (hAfter : (Snapshot.fromPlan (evaluateItem 0 item .empty).1
      ((evaluateItem 0 item .empty).2.paths ++ [])).or before = after) :
    PlanStep def_ key before (plannedAlone item) after := by
  rw [← hAfter]
  exact PlanStep.evaluate 0 .empty [] [] hItem rfl (by simpa [Scratch.empty] using hPaths) hActions

/-- The boundary machine is started and moved. -/
theorem boundary_planned :
    Transition.Run (PlanStep boundaryDefinition 1) none
      [plannedAlone boundaryStart, plannedAlone boundaryItem] (some boundaryAfter) := by
  have hStart : PlanStep boundaryDefinition 1 none (plannedAlone boundaryStart)
      (some boundarySnapshot) := by
    exact PlanStep.alone ⟨rfl, rfl, rfl⟩ (by decide +kernel) (by decide +kernel)
      (by decide +kernel)
  have hMove : PlanStep boundaryDefinition 1 (some boundarySnapshot) (plannedAlone boundaryItem)
      (some boundaryAfter) := by
    exact PlanStep.alone ⟨rfl, rfl, rfl⟩ (by decide +kernel) (by decide +kernel)
      (by decide +kernel)
  exact Transition.Run.snoc (Transition.Run.snoc (Transition.Run.nil none) hStart) hMove

theorem actions_well_nested_boundary : ∃ words,
    List.Forall₂ (Spells boundarySpec) [plannedAlone boundaryStart, plannedAlone boundaryItem]
      words ∧
    Nested boundarySpec.IsChild [] words.flatten boundaryAfter.activePath := by
  obtain ⟨words, hWords, -, -, -, hPrefixes⟩ := actions_well_nested compile_boundarySpec
    (by decide) 1 rfl boundary_planned
  obtain ⟨middle, -, hRest, hNested, -⟩ := hPrefixes _ [] (List.append_nil _).symm
  refine ⟨words, hWords, ?_⟩
  have hLength := hWords.length_eq
  rw [hLength, List.take_length] at hNested
  have hFinal : middle = some boundaryAfter := by
    generalize hTrace : ([] : List Planned) = rest at hRest
    cases hRest with
    | nil => rfl
    | snoc prior last => simp at hTrace
  rw [hFinal] at hNested
  exact hNested

end Hfsm

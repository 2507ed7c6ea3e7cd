import LumioNativeCore.Hfsm.Plan

/-! The stateless evaluator of one item (`evaluate.rs`). The scratch buffers are
passed from item to item; the emitter appends to them and cuts them back when
the item is rejected. -/
namespace Hfsm

inductive ItemKind where
  | start (epoch : MachineEpoch)
  | event (event : EventKind)
  | stop
  deriving DecidableEq, Repr

/-- Token of an asynchronous completion, checked when it is consumed. -/
structure DeliveryScope where
  state : StateId
  activationSeq : Nat
  epoch : MachineEpoch
  deriving DecidableEq, Repr

structure BatchItem where
  machineKey : MachineKey
  definition : CompiledDefinition
  kind : ItemKind
  /-- `none` only for `start`. -/
  snapshot : Option Snapshot
  guards : GuardFrame
  /-- Only consulted for `event`. -/
  scope : Option DeliveryScope
  deriving DecidableEq, Repr

/-- Reusable working memory. Whatever an earlier batch left in it stays until it is
cleared. -/
structure Scratch where
  items : List ItemPlan
  paths : List ActiveState
  actions : List ActionRecord
  keys : List MachineKey
  entered : List StateId
  deriving DecidableEq, Repr

def Scratch.empty : Scratch := ⟨[], [], [], [], []⟩

/-- Per-item writer over the scratch buffers. -/
structure Emitter where
  scratch : Scratch
  itemIndex : Nat
  pathStart : Nat
  actionStart : Nat
  nextSeq : Nat
  deriving DecidableEq, Repr

namespace Emitter

def new (scratch : Scratch) (itemIndex : Nat) (nextSeq : Nat) : Emitter where
  scratch := scratch
  itemIndex := itemIndex
  pathStart := scratch.paths.length
  actionStart := scratch.actions.length
  nextSeq := nextSeq

def pushAction (em : Emitter) (phase : ActionPhase) (state : StateId) (seq : Nat)
    (action : ActionId) : Emitter :=
  { em with scratch := { em.scratch with actions := em.scratch.actions ++
      [{ itemIndex := em.itemIndex
         ordinal := Word.asU32 (em.scratch.actions.length - em.actionStart)
         phase := phase
         action := action
         state := state
         activationSeq := seq }] } }

def record (em : Emitter) (phase : ActionPhase) (state : StateId) (seq : Nat)
    (actions : List ActionId) : Emitter :=
  actions.foldl (fun em action => em.pushAction phase state seq action) em

def keep (em : Emitter) (a : ActiveState) : Emitter :=
  { em with scratch := { em.scratch with paths := em.scratch.paths ++ [a] } }

/-- Allocate a fresh activation sequence, push the state, emit its entry actions. -/
def enter (em : Emitter) (def_ : CompiledDefinition) (state : StateId) :
    Emitter × Except ItemError Unit :=
  match Word.checkedAdd Word.max64 em.nextSeq 1 with
  | none => (em, .error .counterOverflow)
  | some next =>
      (({ em with nextSeq := next }.keep ⟨state, em.nextSeq⟩).record .enter state em.nextSeq
        (def_.entryActions state), .ok ())

/-- `try_for_each` over the states to enter. -/
def enterAll (em : Emitter) (def_ : CompiledDefinition) :
    List StateId → Emitter × Except ItemError Unit
  | [] => (em, .ok ())
  | state :: rest =>
      match em.enter def_ state with
      | (em, .ok _) => em.enterAll def_ rest
      | (em, .error failure) => (em, .error failure)

/-- Enter the states of the vector `entered`, which is taken out of the scratch while
the emitter writes to it, and put back. -/
def enterTaken (em : Emitter) (def_ : CompiledDefinition) (entered : List StateId) :
    Emitter × Except ItemError Unit :=
  let em := { em with scratch := { em.scratch with entered := [] } }
  let (em, result) := em.enterAll def_ entered
  ({ em with scratch := { em.scratch with entered := entered } }, result)

def exit (em : Emitter) (def_ : CompiledDefinition) (a : ActiveState) : Emitter :=
  em.record .exit a.state a.activationSeq (def_.exitActions a.state)

def exitAll (em : Emitter) (def_ : CompiledDefinition) (active : List ActiveState) : Emitter :=
  active.foldl (fun em a => em.exit def_ a) em

def keepAll (em : Emitter) (active : List ActiveState) : Emitter :=
  active.foldl keep em

def finish (em : Emitter) (outcome : Outcome) (header : SnapshotHeader) : ItemPlan × Scratch :=
  ({ outcome := outcome
     next := some { header with nextActivationSeq := em.nextSeq }
     pathStart := Word.asU32 em.pathStart
     pathLen := Word.asU32 (em.scratch.paths.length - em.pathStart)
     actionStart := Word.asU32 em.actionStart
     actionLen := Word.asU32 (em.scratch.actions.length - em.actionStart) },
    em.scratch)

def reject (em : Emitter) (failure : ItemError) : ItemPlan × Scratch :=
  ({ outcome := .rejected failure
     next := none
     pathStart := Word.asU32 em.pathStart
     pathLen := 0
     actionStart := Word.asU32 em.actionStart
     actionLen := 0 },
    { em.scratch with
      paths := em.scratch.paths.take em.pathStart
      actions := em.scratch.actions.take em.actionStart })

/-- `finish` after success, `reject` after an error. -/
def close (outcome : Outcome) (header : SnapshotHeader) :
    Emitter × Except ItemError Unit → ItemPlan × Scratch
  | (em, .ok _) => em.finish outcome header
  | (em, .error failure) => em.reject failure

end Emitter

/-- Shared admission for items that carry a snapshot. -/
def admitSnapshot (item : BatchItem) : Except ItemError Snapshot :=
  match item.snapshot with
  | none => .error .lifecycleViolation
  | some s =>
      if s.machineKey ≠ item.machineKey then .error .machineKeyMismatch
      else
        match s.validate item.definition with
        | .error failure => .error (.invalidSnapshot failure)
        | .ok _ => .ok s

def bump (step : Nat) : Except ItemError Nat :=
  match Word.checkedAdd Word.max64 step 1 with
  | some next => .ok next
  | none => .error .counterOverflow

def startHeader (item : BatchItem) (epoch : MachineEpoch) (step : Nat)
    (nextSeq : Nat) : SnapshotHeader where
  fingerprint := item.definition.fingerprint
  machineKey := item.machineKey
  epoch := epoch
  stepSeq := step
  nextActivationSeq := nextSeq
  lifecycle := .running

/-- The two counters a start continues from. -/
def startCounters (item : BatchItem) : Except ItemError (Nat × Nat) :=
  match item.snapshot with
  | none => .ok (0, 1)
  | some _ => do
      let s ← admitSnapshot item
      if s.lifecycle = .running then .error .lifecycleViolation
      else .ok (s.stepSeq, s.nextActivationSeq)

def start (index : Nat) (item : BatchItem) (epoch : MachineEpoch) (scratch : Scratch) :
    Except ItemError (ItemPlan × Scratch) := do
  let (step, nextSeq) ← startCounters item
  let step ← bump step
  let chain := item.definition.rootInitial ::
    item.definition.initialChain item.definition.rootInitial
  .ok (Emitter.close .started (startHeader item epoch step nextSeq)
    ((Emitter.new scratch index nextSeq).enterTaken item.definition chain))

def stop (index : Nat) (item : BatchItem) (scratch : Scratch) :
    Except ItemError (ItemPlan × Scratch) := do
  let s ← admitSnapshot item
  if s.lifecycle ≠ .running then .error .lifecycleViolation
  else
    let step ← bump s.stepSeq
    let em := (Emitter.new scratch index s.nextActivationSeq).exitAll item.definition
      s.activePath.reverse
    .ok (em.finish .stopped { s.header with stepSeq := step, lifecycle := .stopped })

/-- Exit everything above `keep` from the leaf inward, record the transition,
then enter the path from `keep` down to `target` and its initial chain. -/
def apply (em : Emitter) (def_ : CompiledDefinition) (s : Snapshot) (keep : Nat)
    (source : ActiveState) (t : CompiledTransition) (target : StateId) :
    Emitter × Except ItemError Unit :=
  -- `local` keeps the source itself
  let keep := match t.kind with
    | .local _ => keep + 1
    | _ => keep
  let em := em.exitAll def_ (s.activePath.drop keep).reverse
  let em := em.record .transition source.state source.activationSeq t.actions
  let em := em.keepAll (s.activePath.take keep)
  let boundary := (s.activePath.take keep).getLast?.map ActiveState.state
  let entered := (def_.ancestryBelow target boundary).reverse
  em.enterTaken def_ (entered ++ def_.initialChain target)

/-- The first candidate of one level that is unguarded or whose guard is true.
An id without a transition cannot occur: candidate ids come from the same
definition. -/
def pick (def_ : CompiledDefinition) (guards : GuardFrame) :
    List TransitionId → Except ItemError (Option CompiledTransition)
  | [] => .ok none
  | id :: rest =>
      match def_.transition id with
      | none => pick def_ guards rest
      | some t =>
          match t.guard with
          | none => .ok (some t)
          | some g =>
              match guards.lookup g with
              | .true => .ok (some t)
              | .false => pick def_ guards rest
              | .missing => .error (.guardMissing g)

/-- Bubble from the leaf: the level and transition of the first selected candidate. -/
def selectFrom (def_ : CompiledDefinition) (event : EventKind) (guards : GuardFrame) :
    List (ActiveState × Nat) → Except ItemError (Option (Nat × CompiledTransition))
  | [] => .ok none
  | (a, level) :: rest =>
      match pick def_ guards (def_.candidatesOf a.state event) with
      | .error failure => .error failure
      | .ok (some t) => .ok (some (level, t))
      | .ok none => selectFrom def_ event guards rest

def select (def_ : CompiledDefinition) (s : Snapshot) (event : EventKind)
    (guards : GuardFrame) : Except ItemError (Option (Nat × CompiledTransition)) :=
  selectFrom def_ event guards s.activePath.zipIdx.reverse

/-- The scope check of an event: the token's epoch and activation are current. -/
def scopeFresh (s : Snapshot) (scope : DeliveryScope) : Bool :=
  scope.epoch == s.epoch && s.activePath.any fun a =>
    a.state == scope.state && a.activationSeq == scope.activationSeq

def checkScope (s : Snapshot) : Option DeliveryScope → Except ItemError Unit
  | none => .ok ()
  | some scope => if scopeFresh s scope then .ok () else .error .staleDelivery

/-- The first required guard that the frame does not supply. -/
def checkGuards (def_ : CompiledDefinition) (guards : GuardFrame) (leaf : StateId)
    (event : EventKind) : Except ItemError Unit :=
  match (def_.requiredGuardsOf leaf event).find? fun g => guards.lookup g = .missing with
  | some missing => .error (.guardMissing missing)
  | none => .ok ()

/-- How many states of the path an external transition keeps. -/
def keepExternal (def_ : CompiledDefinition) (s : Snapshot) (source target : StateId) : Nat :=
  match def_.strictCommonAncestor source target with
  | none => 0
  | some d =>
      match s.activePath.findIdx? fun a => decide (a.state = d) with
      | none => 0
      | some i => i + 1

/-- The emission of a selected transition. -/
def fire (em : Emitter) (def_ : CompiledDefinition) (s : Snapshot) (level : Nat)
    (source : ActiveState) (t : CompiledTransition) : Emitter × Except ItemError Unit :=
  match t.kind with
  | .internal =>
      ((em.keepAll s.activePath).record .transition source.state source.activationSeq
        t.actions, .ok ())
  | .local target => apply em def_ s level source t target
  | .external target => apply em def_ s (keepExternal def_ s t.source target) source t target

/-- The checks of an event on a snapshot: scope, event, guards and the counter. -/
def admitEvent (item : BatchItem) (event : EventKind) (s : Snapshot) :
    Except ItemError Nat := do
  if s.lifecycle ≠ .running then .error .lifecycleViolation
  checkScope s item.scope
  if !item.definition.hasEvent event then .error .unknownEvent
  if !item.guards.isWellFormed then .error .guardFrameInvalid
  match s.leaf with
  | none => .error .lifecycleViolation
  | some leaf => do
      checkGuards item.definition item.guards leaf event
      bump s.stepSeq

def eventItem (index : Nat) (item : BatchItem) (event : EventKind) (scratch : Scratch) :
    Except ItemError (ItemPlan × Scratch) := do
  let def_ := item.definition
  let s ← admitSnapshot item
  let step ← admitEvent item event s
  let selected ← select def_ s event item.guards
  let header := { s.header with stepSeq := step }
  let em := Emitter.new scratch index s.nextActivationSeq
  match selected with
  | none => .ok ((em.keepAll s.activePath).finish .unhandled header)
  | some (level, t) =>
      match s.activePath[level]? with
      -- unreachable: `level` is a position of the path
      | none => .error .lifecycleViolation
      | some source =>
          .ok (Emitter.close (.transitioned t.id) header (fire em def_ s level source t))

/-- The plan of an item that is rejected before anything is emitted. -/
def rejectedPlan (scratch : Scratch) (failure : ItemError) : ItemPlan where
  outcome := .rejected failure
  next := none
  pathStart := Word.asU32 scratch.paths.length
  pathLen := 0
  actionStart := Word.asU32 scratch.actions.length
  actionLen := 0

def evaluateItem (index : Nat) (item : BatchItem) (scratch : Scratch) : ItemPlan × Scratch :=
  let result := match item.kind with
    | .start epoch => start index item epoch scratch
    | .event event => eventItem index item event scratch
    | .stop => stop index item scratch
  match result with
  | .ok written => written
  | .error failure => (rejectedPlan scratch failure, scratch)

/-! What the checks accept. -/

theorem admit_eq_ok {item : BatchItem} {s : Snapshot} :
    admitSnapshot item = .ok s ↔ item.snapshot = some s ∧ s.machineKey = item.machineKey ∧
      s.validate item.definition = .ok () := by
  constructor
  · intro h
    rw [admitSnapshot] at h
    cases hSnapshot : item.snapshot with
    | none => simp [hSnapshot] at h
    | some found =>
        simp only [hSnapshot] at h
        split_ifs at h with hKey
        cases hValid : found.validate item.definition with
        | error failure => simp [hValid] at h
        | ok _ =>
            simp only [hValid, Except.ok.injEq] at h
            subst h
            exact ⟨rfl, not_not.mp hKey, hValid⟩
  · rintro ⟨hSnapshot, hKey, hValid⟩
    simp [admitSnapshot, hSnapshot, hKey, hValid]

theorem bump_eq_ok {step next : Nat} :
    bump step = .ok next ↔ next = step + 1 ∧ step + 1 ≤ Word.max64 := by
  rw [bump, ← Word.checkedAdd_eq_some]
  cases Word.checkedAdd Word.max64 step 1 <;> simp

theorem bump_eq_error {step : Nat} {failure : ItemError} (h : bump step = .error failure) :
    failure = .counterOverflow := by
  rw [bump] at h
  cases hAdd : Word.checkedAdd Word.max64 step 1 with
  | some next => simp [hAdd] at h
  | none =>
      rw [hAdd] at h
      exact (Except.error.inj h).symm

theorem checkScope_eq_ok {s : Snapshot} {token : Option DeliveryScope} :
    checkScope s token = .ok () ↔ ∀ scope, token = some scope →
      scope.epoch = s.epoch ∧ ⟨scope.state, scope.activationSeq⟩ ∈ s.activePath := by
  cases token with
  | none => simp [checkScope]
  | some scope =>
      have hFresh : scopeFresh s scope = true ↔
          scope.epoch = s.epoch ∧ ⟨scope.state, scope.activationSeq⟩ ∈ s.activePath := by
        rw [scopeFresh, Bool.and_eq_true, beq_iff_eq, List.any_eq_true]
        apply and_congr_right
        intro _
        constructor
        · rintro ⟨⟨state, seq⟩, ha, hSame⟩
          rw [Bool.and_eq_true, beq_iff_eq, beq_iff_eq] at hSame
          rcases hSame with ⟨rfl, rfl⟩
          exact ha
        · intro hMem
          exact ⟨_, hMem, by simp⟩
      simp only [checkScope, Option.some.injEq, forall_eq', ← hFresh]
      cases scopeFresh s scope <;> simp

theorem checkGuards_eq_ok {def_ : CompiledDefinition} {guards : GuardFrame} {leaf : StateId}
    {event : EventKind} :
    checkGuards def_ guards leaf event = .ok () ↔
      ∀ g ∈ def_.requiredGuardsOf leaf event, guards.lookup g ≠ .missing := by
  have hNone : ((def_.requiredGuardsOf leaf event).find?
      fun g => guards.lookup g = .missing) = none ↔
      ∀ g ∈ def_.requiredGuardsOf leaf event, guards.lookup g ≠ .missing := by
    simp
  rw [checkGuards, ← hNone]
  cases (def_.requiredGuardsOf leaf event).find? _ <;> simp

theorem admitEvent_eq_ok {item : BatchItem} {event : EventKind} {s : Snapshot} {step : Nat} :
    admitEvent item event s = .ok step ↔
      s.lifecycle = .running ∧ checkScope s item.scope = .ok () ∧
      item.definition.hasEvent event = true ∧ item.guards.isWellFormed = true ∧
      (∃ leaf, s.leaf = some leaf ∧
        checkGuards item.definition item.guards leaf event = .ok ()) ∧
      step = s.stepSeq + 1 ∧ s.stepSeq + 1 ≤ Word.max64 := by
  simp only [admitEvent, Check.unless_eq_ok, Check.then_eq_ok]
  cases s.leaf with
  | none => simp
  | some leaf => simp [Check.then_eq_ok, bump_eq_ok]

end Hfsm

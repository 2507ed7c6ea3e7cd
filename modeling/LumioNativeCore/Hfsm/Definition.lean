import LumioNativeCore.Library.Word
import LumioNativeCore.Kernel.Error

/-! Graph-local identifiers, limits and the flat, host-built definition input
(`ids.rs`, `definition.rs`, `error.rs`). -/
namespace Hfsm

/-- `SEMANTICS_VERSION` and `FORMAT_VERSION` of `lib.rs`. -/
def semanticsVersion : UInt32 := 1

def formatVersion : UInt32 := 1

structure StateId where
  raw : UInt32
  deriving DecidableEq, Repr

structure EventKind where
  raw : UInt32
  deriving DecidableEq, Repr

structure GuardId where
  raw : UInt32
  deriving DecidableEq, Repr

structure ActionId where
  raw : UInt32
  deriving DecidableEq, Repr

structure TransitionId where
  raw : UInt32
  deriving DecidableEq, Repr

/-- Host-assigned `u64` identities. The `u64` counters `ActivationSeq` and
`StepSeq` are natural numbers: their only arithmetic is a checked increment. -/
abbrev MachineKey := Nat
abbrev MachineEpoch := Nat

inductive TransitionKind where
  | internal
  | local (target : StateId)
  | external (target : StateId)
  deriving DecidableEq, Repr

def TransitionKind.target : TransitionKind → Option StateId
  | .internal => none
  | .local target => some target
  | .external target => some target

def TransitionKind.tag : TransitionKind → UInt32
  | .internal => 0
  | .local _ => 1
  | .external _ => 2

inductive Lifecycle where
  | notStarted
  | running
  | stopped
  deriving DecidableEq, Repr

/-- Resource ceilings. Every field must be non-zero. -/
structure HfsmLimits where
  maxDepth : Nat
  maxStates : Nat
  maxTransitions : Nat
  maxActionsPerPlan : Nat
  maxBatch : Nat
  deriving DecidableEq, Repr

def HfsmLimits.default : HfsmLimits where
  maxDepth := 32
  maxStates := 4096
  maxTransitions := 16384
  maxActionsPerPlan := 128
  maxBatch := 1024

def HfsmLimits.isValid (limits : HfsmLimits) : Bool :=
  limits.maxDepth != 0 && limits.maxStates != 0 && limits.maxTransitions != 0 &&
    limits.maxActionsPerPlan != 0 && limits.maxBatch != 0

structure StateSpec where
  id : StateId
  /-- `none` is a direct child of the synthetic root. -/
  parent : Option StateId
  initial : Option StateId
  entry : List ActionId
  exit : List ActionId
  name : Option String
  deriving DecidableEq, Repr

structure TransitionSpec where
  id : TransitionId
  source : StateId
  event : EventKind
  /-- Unique within `(source, event)`; lower runs first. -/
  priority : UInt32
  guard : Option GuardId
  kind : TransitionKind
  actions : List ActionId
  deriving DecidableEq, Repr

structure DefinitionSpec where
  formatVersion : UInt32
  initial : StateId
  states : List StateSpec
  transitions : List TransitionSpec
  deriving DecidableEq, Repr

inductive CompileErrorKind where
  | limitsInvalid
  | formatVersionUnsupported (found : UInt32)
  | emptyDefinition
  | duplicateStateId
  | duplicateTransitionId
  | unknownState (referenced : StateId)
  | rootInitialNotTopLevel
  | initialNotDirectChild
  | compositeWithoutInitial
  | leafWithInitial
  | structuralCycle
  | depthExceeded (depth max : Nat)
  | stateCountExceeded (count max : Nat)
  | transitionCountExceeded (count max : Nat)
  | duplicatePriority (other : TransitionId)
  | unreachableTransition (shadowedBy : TransitionId)
  | localTargetNotStrictDescendant
  | actionsPerPlanExceeded (required max : Nat)
  deriving DecidableEq, Repr

/-- Compile failure located to a state and/or transition. -/
structure CompileError where
  kind : CompileErrorKind
  state : Option StateId
  transition : Option TransitionId
  deriving DecidableEq, Repr

def CompileError.new (kind : CompileErrorKind) : CompileError := ⟨kind, none, none⟩

def CompileError.atState (kind : CompileErrorKind) (state : StateId) : CompileError :=
  ⟨kind, some state, none⟩

def CompileError.atTransition (kind : CompileErrorKind) (transition : TransitionId) :
    CompileError :=
  ⟨kind, none, some transition⟩

inductive SnapshotError where
  | fingerprintMismatch
  | lifecycleMismatch
  | pathTooDeep
  | unknownState (state : StateId)
  | pathNotChain (index : Nat)
  | pathNotEndingAtLeaf
  | activationSeqInvalid (index : Nat)
  | counterOverflow
  deriving DecidableEq, Repr

/-- Batch-level failure: nothing is written when one of these is returned. -/
inductive HfsmError where
  | compile (failure : CompileError)
  | handle (category : Kernel.ErrorCategory)
  | limitsInvalid
  | batchTooLarge (len max : Nat)
  | duplicateMachineInBatch (key : MachineKey)
  | bufferTooSmall (requiredItems requiredPaths requiredActions : Nat)
  deriving DecidableEq, Repr

end Hfsm

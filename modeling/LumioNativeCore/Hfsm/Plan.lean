import LumioNativeCore.Hfsm.Compile

/-! Guard frames, plans and host-owned snapshots (`guard.rs`, `plan.rs`,
`snapshot.rs`). -/
namespace Hfsm

/-! Guards. -/

inductive GuardValue where
  | true
  | false
  /-- Not supplied by the host: an error, never treated as `false`. -/
  | missing
  deriving DecidableEq, Repr

structure GuardFrame where
  entries : List (GuardId × Bool)
  deriving DecidableEq, Repr

def GuardFrame.lookup (frame : GuardFrame) (guard : GuardId) : GuardValue :=
  match frame.entries.find? fun entry => decide (entry.1 = guard) with
  | some (_, true) => .true
  | some (_, false) => .false
  | none => .missing

/-- No guard id appears twice. -/
def GuardFrame.isWellFormed (frame : GuardFrame) : Bool :=
  frame.entries.zipIdx.all fun (entry, position) =>
    !(frame.entries.take position).any fun other => other.1 == entry.1

/-! Snapshots. -/

structure ActiveState where
  state : StateId
  activationSeq : Nat
  deriving DecidableEq, Repr

/-- Everything in a snapshot except the path. -/
structure SnapshotHeader where
  fingerprint : UInt64
  machineKey : MachineKey
  epoch : MachineEpoch
  stepSeq : Nat
  nextActivationSeq : Nat
  lifecycle : Lifecycle
  deriving DecidableEq, Repr

structure Snapshot extends SnapshotHeader where
  /-- Top level to leaf, without the synthetic root. Empty unless running. -/
  activePath : List ActiveState
  deriving DecidableEq, Repr

/-! Plans. -/

inductive ItemError where
  | staleDelivery
  | lifecycleViolation
  | unknownEvent
  | guardMissing (guard : GuardId)
  | guardFrameInvalid
  | machineKeyMismatch
  | invalidSnapshot (error : SnapshotError)
  | counterOverflow
  deriving DecidableEq, Repr

inductive Outcome where
  | notEvaluated
  | started
  | transitioned (transition : TransitionId)
  | unhandled
  | stopped
  | rejected (error : ItemError)
  deriving DecidableEq, Repr

inductive ActionPhase where
  | exit
  | transition
  | enter
  deriving DecidableEq, Repr

structure ActionRecord where
  itemIndex : Nat
  ordinal : Nat
  phase : ActionPhase
  action : ActionId
  /-- The state exited (old sequence), entered (new sequence), or the declared
  source of the transition (old sequence). -/
  state : StateId
  activationSeq : Nat
  deriving DecidableEq, Repr

structure ItemPlan where
  outcome : Outcome
  /-- `none` when rejected. -/
  next : Option SnapshotHeader
  pathStart : Nat
  pathLen : Nat
  actionStart : Nat
  actionLen : Nat
  deriving DecidableEq, Repr

namespace Snapshot

def notStarted (fingerprint : UInt64) (machineKey : MachineKey) : Snapshot where
  fingerprint := fingerprint
  machineKey := machineKey
  epoch := 0
  stepSeq := 0
  nextActivationSeq := 1
  lifecycle := .notStarted
  activePath := []

/-- `paths.get(start..end)`. -/
def slice (paths : List ActiveState) (start stop : Nat) : Option (List ActiveState) :=
  if start ≤ stop ∧ stop ≤ paths.length then some ((paths.take stop).drop start) else none

/-- The next snapshot of a plan; `none` for rejected items. -/
def fromPlan (plan : ItemPlan) (paths : List ActiveState) : Option Snapshot :=
  match plan.next with
  | none => none
  | some header =>
      (slice paths plan.pathStart (plan.pathStart + plan.pathLen)).map fun path =>
        { header with activePath := path }

def header (s : Snapshot) : SnapshotHeader := s.toSnapshotHeader

def leaf (s : Snapshot) : Option StateId := s.activePath.getLast?.map ActiveState.state

/-- The path loop of `validate`, from one position with the state before it. -/
def checkPath (def_ : CompiledDefinition) (nextSeq : Nat) :
    Nat → Option StateId → List ActiveState → Except SnapshotError (Option StateId)
  | _, prev, [] => .ok prev
  | index, prev, a :: rest =>
      if !def_.contains a.state then .error (.unknownState a.state)
      else if def_.parentOf a.state ≠ prev then .error (.pathNotChain (Word.asU32 index))
      else if a.activationSeq = 0 ∨ a.activationSeq ≥ nextSeq then
        .error (.activationSeqInvalid (Word.asU32 index))
      else checkPath def_ nextSeq (index + 1) (some a.state) rest

def validate (s : Snapshot) (def_ : CompiledDefinition) : Except SnapshotError Unit :=
  if s.fingerprint ≠ def_.fingerprint then .error .fingerprintMismatch
  else if decide (s.lifecycle = .running) ≠ !s.activePath.isEmpty then
    .error .lifecycleMismatch
  else if Word.asU32 s.activePath.length > def_.maxDepth then .error .pathTooDeep
  else
    match checkPath def_ s.nextActivationSeq 0 none s.activePath with
    | .error failure => .error failure
    | .ok none => .ok ()
    | .ok (some leaf) =>
        if def_.isLeaf leaf ≠ some true then .error .pathNotEndingAtLeaf else .ok ()

end Snapshot
end Hfsm

import LumioNativeCore.Hfsm.Compile
import LumioNativeCore.Kernel.Handle.Arena
import LumioNativeCore.Library.Run

/-! The registry of definitions of one context (`registry.rs`), shared by any number
of calls. Every read of a flag and every section under the arena lock is a step of its
own; compilation runs between two of them. -/
namespace Hfsm

open Kernel

/-- Read-only summary of a registered definition. -/
structure DefinitionInfo where
  fingerprint : UInt64
  stateCount : Nat
  transitionCount : Nat
  maxDepth : Nat
  maxPlanActions : Nat
  deriving DecidableEq, Repr

def DefinitionInfo.of (def_ : CompiledDefinition) : DefinitionInfo where
  fingerprint := def_.fingerprint
  stateCount := Word.asU32 def_.states.length
  transitionCount := Word.asU32 def_.transitions.length
  maxDepth := def_.maxDepth
  maxPlanActions := def_.maxPlanActions

/-- What is done with a handle. -/
inductive Access where
  | lease
  | inspect
  | release
  deriving DecidableEq, Repr

inductive Accessed where
  | leased (def_ : CompiledDefinition)
  | inspected (info : DefinitionInfo)
  | released
  deriving DecidableEq, Repr

/-- How far a call has come. -/
inductive RegistryCall where
  | idle
  | create (spec : DefinitionSpec)
  | createLive (spec : DefinitionSpec)
  | compiling (spec : DefinitionSpec)
  | compiled (def_ : CompiledDefinition)
  | access (kind : Access) (handle : HandleKey)
  | accessLive (kind : Access) (handle : HandleKey)
  | destroying

/-- `leases` are the definitions that callers hold. -/
structure HfsmDefinitionRegistry (capacity : Nat) where
  limits : HfsmLimits
  arena : HandleArena capacity CompiledDefinition
  closing : Bool
  destroyed : Bool
  calls : Nat → RegistryCall
  leases : List CompiledDefinition

def handleErr (failure : KernelError) : HfsmError := .handle failure.category

/-- A step of a call. The results of the sections under the arena lock are kept apart
from those of calls that are refused before it. -/
inductive RegistryEvent where
  | step
  | refused (failure : HfsmError)
  | inserted (result : Except HfsmError HandleKey)
  | accessed (kind : Access) (handle : HandleKey) (result : Except HfsmError Accessed)
  | cancelRequested
  | destroyed

namespace HfsmDefinitionRegistry

variable {capacity : Nat}

def new (context : ContextKey) (capacity : UInt32) (limits : HfsmLimits) :
    HfsmDefinitionRegistry capacity.toNat where
  limits := limits
  arena := .withCapacity context capacity CompiledDefinition
  closing := false
  destroyed := false
  calls := fun _ => .idle
  leases := []

def ensureLive (reg : HfsmDefinitionRegistry capacity) : Except HfsmError Unit :=
  if reg.destroyed then .error (.handle .contextDestroyed) else .ok ()

def ensureOpen (reg : HfsmDefinitionRegistry capacity) : Except HfsmError Unit :=
  if reg.closing then .error (.handle .contextClosing) else .ok ()

/-- Move one call on. -/
def setCall (reg : HfsmDefinitionRegistry capacity) (call : Nat) (next : RegistryCall) :
    HfsmDefinitionRegistry capacity :=
  { reg with calls := Function.update reg.calls call next }

/-- The last section of `create`. -/
def insert (reg : HfsmDefinitionRegistry capacity) (def_ : CompiledDefinition) :
    Except HfsmError HandleKey × HfsmDefinitionRegistry capacity :=
  ((reg.arena.insert def_).1.mapError handleErr, { reg with arena := (reg.arena.insert def_).2 })

/-- The section of `lease`, `inspect` and `release` under the arena lock. -/
def access (reg : HfsmDefinitionRegistry capacity) (kind : Access) (handle : HandleKey) :
    Except HfsmError Accessed × HfsmDefinitionRegistry capacity :=
  match kind with
  | .lease =>
      match reg.arena.get handle with
      | .error failure => (.error (handleErr failure), reg)
      | .ok def_ => (.ok (.leased def_), { reg with leases := reg.leases ++ [def_] })
  | .inspect =>
      match reg.arena.get handle with
      | .error failure => (.error (handleErr failure), reg)
      | .ok def_ => (.ok (.inspected (.of def_)), reg)
  | .release =>
      ((reg.arena.remove handle).1.mapError handleErr |>.map fun _ => .released,
        { reg with arena := (reg.arena.remove handle).2 })

def retireAll (reg : HfsmDefinitionRegistry capacity) : HfsmDefinitionRegistry capacity :=
  { reg with arena := reg.arena.drainOccupied.1 }

/-- The steps of all calls. -/
inductive Step : HfsmDefinitionRegistry capacity → RegistryEvent →
    HfsmDefinitionRegistry capacity → Prop where
  | begin (reg : HfsmDefinitionRegistry capacity) (call : Nat) (next : RegistryCall)
      (hCall : reg.calls call = .idle)
      (hNext : (∃ spec, next = .create spec) ∨ ∃ kind handle, next = .access kind handle) :
      Step reg .step (reg.setCall call next)
  | createLive (reg : HfsmDefinitionRegistry capacity) (call : Nat) (spec : DefinitionSpec)
      (hCall : reg.calls call = .create spec) (hLive : reg.ensureLive = .ok ()) :
      Step reg .step (reg.setCall call (.createLive spec))
  | createDestroyed (reg : HfsmDefinitionRegistry capacity) (call : Nat) (spec : DefinitionSpec)
      (failure : HfsmError) (hCall : reg.calls call = .create spec)
      (hLive : reg.ensureLive = .error failure) :
      Step reg (.refused failure) (reg.setCall call .idle)
  | createOpen (reg : HfsmDefinitionRegistry capacity) (call : Nat) (spec : DefinitionSpec)
      (hCall : reg.calls call = .createLive spec) (hOpen : reg.ensureOpen = .ok ()) :
      Step reg .step (reg.setCall call (.compiling spec))
  | createClosing (reg : HfsmDefinitionRegistry capacity) (call : Nat) (spec : DefinitionSpec)
      (failure : HfsmError) (hCall : reg.calls call = .createLive spec)
      (hOpen : reg.ensureOpen = .error failure) :
      Step reg (.refused failure) (reg.setCall call .idle)
  | compile (reg : HfsmDefinitionRegistry capacity) (call : Nat) (spec : DefinitionSpec)
      (def_ : CompiledDefinition) (hCall : reg.calls call = .compiling spec)
      (hCompile : Hfsm.compile spec reg.limits = .ok def_) :
      Step reg .step (reg.setCall call (.compiled def_))
  | compileError (reg : HfsmDefinitionRegistry capacity) (call : Nat) (spec : DefinitionSpec)
      (failure : CompileError) (hCall : reg.calls call = .compiling spec)
      (hCompile : Hfsm.compile spec reg.limits = .error failure) :
      Step reg (.refused (.compile failure)) (reg.setCall call .idle)
  | insert (reg : HfsmDefinitionRegistry capacity) (call : Nat) (def_ : CompiledDefinition)
      (hCall : reg.calls call = .compiled def_) :
      Step reg (.inserted (reg.insert def_).1) ((reg.insert def_).2.setCall call .idle)
  | accessLive (reg : HfsmDefinitionRegistry capacity) (call : Nat) (kind : Access)
      (handle : HandleKey) (hCall : reg.calls call = .access kind handle)
      (hLive : reg.ensureLive = .ok ()) :
      Step reg .step (reg.setCall call (.accessLive kind handle))
  | accessDestroyed (reg : HfsmDefinitionRegistry capacity) (call : Nat) (kind : Access)
      (handle : HandleKey) (failure : HfsmError) (hCall : reg.calls call = .access kind handle)
      (hLive : reg.ensureLive = .error failure) :
      Step reg (.refused failure) (reg.setCall call .idle)
  | access (reg : HfsmDefinitionRegistry capacity) (call : Nat) (kind : Access)
      (handle : HandleKey) (hCall : reg.calls call = .accessLive kind handle) :
      Step reg (.accessed kind handle (reg.access kind handle).1)
        ((reg.access kind handle).2.setCall call .idle)
  | cancelRequested (reg : HfsmDefinitionRegistry capacity) :
      Step reg .cancelRequested { reg with closing := true }
  | destroyMark (reg : HfsmDefinitionRegistry capacity) (call : Nat)
      (hCall : reg.calls call = .idle) :
      Step reg .step { reg.setCall call .destroying with destroyed := true }
  | destroyRetire (reg : HfsmDefinitionRegistry capacity) (call : Nat)
      (hCall : reg.calls call = .destroying) :
      Step reg .destroyed (reg.retireAll.setCall call .idle)

end HfsmDefinitionRegistry
end Hfsm

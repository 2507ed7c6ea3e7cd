import LumioNativeCore.Kernel.Context.Lifecycle
import LumioNativeCore.Library.Run
import LumioNativeCore.Library.RwLock
import LumioNativeCore.Spatial.Query

/-! The index of a context behind a read/write lock (`resource.rs`), shared by any number of
calls. Every access to a flag or to the lock is a step of its own. -/
namespace Spatial

open Kernel (KernelError ErrorCategory QuiesceState error)
open Concurrent

/-- What is done to the index under the lock. -/
inductive Operation where
  | upsert (id : SpatialObjectId) (aabb : Aabb3)
  | queryAabbBatch (queries : List AabbQuery) (out : List SpatialHit)

/-- What an operation returns, and leaves in its output buffer. -/
inductive Outcome where
  | upserted (result : Except KernelError Unit)
  | queried (result : Except KernelError Nat) (out : List SpatialHit)

def Operation.mode : Operation → Mode
  | .upsert _ _ => .write
  | .queryAabbBatch _ _ => .read

def Operation.fail (category : ErrorCategory) : Operation → Outcome
  | .upsert _ _ => .upserted (.error (error category))
  | .queryAabbBatch _ out => .queried (.error (error category)) out

def Operation.perform {S : Type} (backend : SpatialIndexBackend S) (context : SpatialContext S) :
    Operation → Outcome × SpatialContext S
  | .upsert id aabb =>
      let (result, context) := context.upsert backend id aabb
      (.upserted result, context)
  | .queryAabbBatch queries out =>
      let (result, out) := context.queryAabbBatch backend queries out
      (.queried result out, context)

/-- How far a call has come; `held` tells the check under the lock from the one before it. -/
inductive ResourceCall where
  | idle
  | ensureNotDestroyed (operation : Operation) (held : Bool)
  | ensureNotClosing (operation : Operation) (held : Bool)
  | acquire (operation : Operation)
  | operate (operation : Operation)
  | unlock (operation : Operation) (outcome : Outcome)
  | returning (outcome : Outcome)
  | quiescing
  | quiesced (result : Except KernelError QuiesceState)
  | destroying
  | destroyRefused
  | taking
  | taken
  | destroyed

/-- The mode in which a call holds the lock. -/
def ResourceCall.mode : ResourceCall → Option Mode
  | ensureNotDestroyed operation true => some operation.mode
  | ensureNotClosing operation true => some operation.mode
  | operate operation => some operation.mode
  | unlock operation _ => some operation.mode
  | quiesced _ => some .write
  | destroyRefused => some .write
  | taking => some .write
  | taken => some .write
  | _ => none

structure SpatialResource (S : Type) where
  inner : Option (SpatialContext S)
  lock : RwLock Nat
  poisoned : Bool
  closing : Bool
  destroyed : Bool
  calls : Nat → ResourceCall

/-- What a step of a call shows; a call first looks at a flag without the lock. -/
inductive ResourceEvent where
  | step
  | looked (held : Bool)
  | acquired
  | returned (outcome : Outcome)
  | panicked
  | cancelRequested
  | quiesced (result : Except KernelError QuiesceState)
  | taken
  | destroyed (result : Except KernelError Unit)

namespace SpatialResource

variable {S : Type}

def new (context : SpatialContext S) : SpatialResource S where
  inner := some context
  lock := .unlocked
  poisoned := false
  closing := false
  destroyed := false
  calls := fun _ => .idle

/-- Move one call on. -/
def setCall (r : SpatialResource S) (call : Nat) (next : ResourceCall) : SpatialResource S :=
  { r with calls := Function.update r.calls call next }

def acquire (r : SpatialResource S) (call : Nat) (mode : Mode) : SpatialResource S :=
  { r with lock := r.lock.acquire call mode }

def release (r : SpatialResource S) (call : Nat) (mode : Mode) : SpatialResource S :=
  { r with lock := r.lock.release call mode }

/-- Where a failed check takes a call: with the lock, the guard is dropped first. -/
def refuse (held : Bool) (operation : Operation) (category : ErrorCategory) : ResourceCall :=
  if held then .unlock operation (operation.fail category)
  else .returning (operation.fail category)

/-- The index of `guard.as_mut()` and what is done with it. -/
def perform (backend : SpatialIndexBackend S) (r : SpatialResource S) (operation : Operation) :
    Outcome × SpatialResource S :=
  match r.inner with
  | none => (operation.fail .contextDestroyed, r)
  | some context =>
      let (outcome, context) := operation.perform backend context
      (outcome, { r with inner := some context })

/-- The steps of all calls, each with the call that takes it. -/
inductive Step (backend : SpatialIndexBackend S) :
    SpatialResource S → Nat × ResourceEvent → SpatialResource S → Prop where
  | begin (r : SpatialResource S) (call : Nat) (operation : Operation)
      (hCall : r.calls call = .idle) :
      Step backend r (call, .step) (r.setCall call (.ensureNotDestroyed operation false))
  | notDestroyed (r : SpatialResource S) (call : Nat) (operation : Operation) (held : Bool)
      (hCall : r.calls call = .ensureNotDestroyed operation held) (hFlag : r.destroyed = false) :
      Step backend r (call, .looked held) (r.setCall call (.ensureNotClosing operation held))
  | isDestroyed (r : SpatialResource S) (call : Nat) (operation : Operation) (held : Bool)
      (hCall : r.calls call = .ensureNotDestroyed operation held) (hFlag : r.destroyed = true) :
      Step backend r (call, .looked held)
        (r.setCall call (refuse held operation .contextDestroyed))
  | notClosing (r : SpatialResource S) (call : Nat) (operation : Operation) (held : Bool)
      (hCall : r.calls call = .ensureNotClosing operation held) (hFlag : r.closing = false) :
      Step backend r (call, .step)
        (r.setCall call (if held then .operate operation else .acquire operation))
  | isClosing (r : SpatialResource S) (call : Nat) (operation : Operation) (held : Bool)
      (hCall : r.calls call = .ensureNotClosing operation held) (hFlag : r.closing = true) :
      Step backend r (call, .step) (r.setCall call (refuse held operation .contextClosing))
  | acquire (r : SpatialResource S) (call : Nat) (operation : Operation)
      (hCall : r.calls call = .acquire operation) (hGrants : r.lock.Grants operation.mode)
      (hSound : r.poisoned = false) :
      Step backend r (call, .acquired) ((r.acquire call operation.mode).setCall call
        (.ensureNotDestroyed operation true))
  | acquirePoisoned (r : SpatialResource S) (call : Nat) (operation : Operation)
      (hCall : r.calls call = .acquire operation) (hGrants : r.lock.Grants operation.mode)
      (hPoisoned : r.poisoned = true) :
      Step backend r (call, .acquired) ((r.acquire call operation.mode).setCall call
        (.unlock operation (operation.fail .internalInvariant)))
  | operate (r : SpatialResource S) (call : Nat) (operation : Operation)
      (hCall : r.calls call = .operate operation) :
      Step backend r (call, .step) ((r.perform backend operation).2.setCall call
        (.unlock operation (r.perform backend operation).1))
  | upsertPanic (r : SpatialResource S) (call : Nat) (id : SpatialObjectId) (aabb : Aabb3)
      (partialUpdate : SpatialContext S) (hCall : r.calls call = .operate (.upsert id aabb)) :
      -- the guard is dropped while unwinding, which poisons the lock
      Step backend r (call, .panicked)
        ({ r.release call .write with
            inner := r.inner.map fun _ => partialUpdate, poisoned := true }.setCall call .idle)
  | queryPanic (r : SpatialResource S) (call : Nat) (queries : List AabbQuery)
      (out : List SpatialHit) (hCall : r.calls call = .operate (.queryAabbBatch queries out)) :
      Step backend r (call, .panicked) ((r.release call .read).setCall call .idle)
  | unlock (r : SpatialResource S) (call : Nat) (operation : Operation) (outcome : Outcome)
      (hCall : r.calls call = .unlock operation outcome) :
      Step backend r (call, .step)
        ((r.release call operation.mode).setCall call (.returning outcome))
  | return (r : SpatialResource S) (call : Nat) (outcome : Outcome)
      (hCall : r.calls call = .returning outcome) :
      Step backend r (call, .returned outcome) (r.setCall call .idle)
  | cancelRequested (r : SpatialResource S) (call : Nat) (hCall : r.calls call = .idle) :
      Step backend r (call, .cancelRequested) { r with closing := true }
  | quiesce (r : SpatialResource S) (call : Nat) (hCall : r.calls call = .idle) :
      Step backend r (call, .step) { r.setCall call .quiescing with closing := true }
  | quiesceBusy (r : SpatialResource S) (call : Nat) (hCall : r.calls call = .quiescing)
      (hBusy : ¬r.lock.Free) :
      Step backend r (call, .quiesced (.ok (.pending 1))) (r.setCall call .idle)
  | quiesceLock (r : SpatialResource S) (call : Nat) (hCall : r.calls call = .quiescing)
      (hFree : r.lock.Free) :
      Step backend r (call, .step) ((r.acquire call .write).setCall call
        (.quiesced (if r.poisoned then .error (error .internalInvariant) else .ok .quiesced)))
  | quiesceUnlock (r : SpatialResource S) (call : Nat) (result : Except KernelError QuiesceState)
      (hCall : r.calls call = .quiesced result) :
      Step backend r (call, .quiesced result) ((r.release call .write).setCall call .idle)
  | destroy (r : SpatialResource S) (call : Nat) (hCall : r.calls call = .idle) :
      Step backend r (call, .step) { r.setCall call .destroying with closing := true }
  | destroyBusy (r : SpatialResource S) (call : Nat) (hCall : r.calls call = .destroying)
      (hBusy : ¬r.lock.Free) :
      Step backend r (call, .destroyed (.error (error .contextClosing))) (r.setCall call .idle)
  | destroyLock (r : SpatialResource S) (call : Nat) (hCall : r.calls call = .destroying)
      (hFree : r.lock.Free) :
      Step backend r (call, .step) ((r.acquire call .write).setCall call
        (if r.poisoned then .destroyRefused else .taking))
  | destroyPoisoned (r : SpatialResource S) (call : Nat) (hCall : r.calls call = .destroyRefused) :
      Step backend r (call, .destroyed (.error (error .contextClosing)))
        ((r.release call .write).setCall call .idle)
  | take (r : SpatialResource S) (call : Nat) (hCall : r.calls call = .taking) :
      Step backend r (call, .taken) { r.setCall call .taken with inner := none }
  | takeUnlock (r : SpatialResource S) (call : Nat) (hCall : r.calls call = .taken) :
      Step backend r (call, .step) ((r.release call .write).setCall call .destroyed)
  | destroyMark (r : SpatialResource S) (call : Nat) (hCall : r.calls call = .destroyed) :
      Step backend r (call, .destroyed (.ok ())) { r.setCall call .idle with destroyed := true }

end SpatialResource
end Spatial

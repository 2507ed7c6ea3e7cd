import LumioNativeCore.Kernel.Error

/-! Context admission and resumable, non-blocking close (`context/lifecycle.rs`,
`context/registry.rs`, `context/state.rs`). `ρ` is the type of what is registered; a pass
finds a resource by its place in the list that the first pass froze.

The callbacks of a resource are not part of this repository: a pass is run
against every possible answer, and an answer may call the context again before it
returns. Such a call finds the close lock taken, so a re-entrant close does not
run. A panic of a callback is caught and is an answer as well. -/
namespace Kernel

inductive ContextPhase where
  | creating
  | running
  | quiescing
  | closed
  | faulted
  deriving DecidableEq, Repr

inductive CancelReason where
  | contextClosing
  | contextFaulted
  | ownerRequested
  deriving DecidableEq, Repr

inductive QuiesceState where
  | quiesced
  | pending (remaining : Nat)
  deriving DecidableEq, Repr

/-- The tick at which a wait ends, if it ends. -/
structure Deadline where
  at? : Option Nat
  deriving DecidableEq, Repr

def Deadline.none : Deadline := ⟨.none⟩

def Deadline.isExpired (deadline : Deadline) (now : Nat) : Bool :=
  match deadline.at? with
  | .none => false
  | some t => now ≥ t

structure ContextCloseReport where
  steps : List String
  phase : ContextPhase
  deriving DecidableEq, Repr

def closeSteps : List String :=
  ["reject_new_work", "cancel_requested", "quiesce", "wait_quiesce", "drain", "destroy",
    "mark_closed"]

structure CloseProgress (ρ : Type) where
  started : Bool
  cancelled : Nat
  resources : List ρ
  quiesced : List Bool
  destroyRemaining : Nat
  report : Option ContextCloseReport
  failure : Option KernelError

def CloseProgress.default {ρ : Type} : CloseProgress ρ where
  started := false
  cancelled := 0
  resources := []
  quiesced := []
  destroyRemaining := 0
  report := none
  failure := none

/-- `poisoned` is set once a holder of an admission guard panics. -/
structure KernelContext (ρ : Type) where
  maxHandles : Nat
  quiesceDeadline : Deadline
  phase : ContextPhase
  poisoned : Bool
  resources : List ρ
  progress : CloseProgress ρ

/-- A call that a callback makes before it returns. -/
inductive Call (ρ : Type) where
  | registerResource (resource : ρ)
  | admitWork (panics : Bool)
  | close (reason : CancelReason) (deadline : Deadline)

/-- What a callback does: the calls it makes, and the value it returns unless it panics. -/
structure Answer (ρ α : Type) where
  nested : List (Call ρ)
  value : Option α

/-- The callbacks of one pass. A resource that is registered twice may answer each
registration in its own way. -/
structure Callbacks (ρ : Type) where
  cancelRequested : ρ → Nat → CancelReason → Answer ρ Unit
  quiesce : ρ → Nat → Deadline → Answer ρ (Except KernelError QuiesceState)
  destroy : ρ → Nat → Answer ρ (Except KernelError Unit)

/-- A callback that was made, by the index of the turn, with what came back. -/
inductive CallbackEvent where
  | cancelRequested (index : Nat) (value : Option Unit)
  | quiesce (index : Nat) (value : Option (Except KernelError QuiesceState))
  | destroy (index : Nat) (value : Option (Except KernelError Unit))
  deriving DecidableEq

def CallbackEvent.index : CallbackEvent → Nat
  | cancelRequested index _ => index
  | quiesce index _ => index
  | destroy index _ => index

/-- A part of a pass: what it returns, the callbacks it made, each with the resource that was
called, and the context it leaves. -/
structure Pass (ρ α : Type) where
  result : Except KernelError α
  log : List (ρ × CallbackEvent)
  context : KernelContext ρ

def Pass.events {ρ α : Type} (pass : Pass ρ α) : List CallbackEvent := pass.log.map Prod.snd

/-- The `?` and the early returns of a pass. -/
def Pass.andThen {ρ α β : Type} (pass : Pass ρ α) (next : α → KernelContext ρ → Pass ρ β) :
    Pass ρ β :=
  match pass.result with
  | .error failure => ⟨.error failure, pass.log, pass.context⟩
  | .ok a =>
      let rest := next a pass.context
      ⟨rest.result, pass.log ++ rest.log, rest.context⟩

namespace KernelContext

variable {ρ : Type}

def create (maxHandles : Nat) (quiesceDeadline : Deadline) : KernelContext ρ where
  maxHandles := maxHandles
  quiesceDeadline := quiesceDeadline
  phase := .running
  poisoned := false
  resources := []
  progress := .default

def tryAdmit (phase : ContextPhase) : Except KernelError Unit :=
  match phase with
  | .running => .ok ()
  | .quiescing => .error (error .contextClosing)
  | .creating => .error (error .contextDestroyed)
  | .closed => .error (error .contextDestroyed)
  | .faulted => .error (error .contextDestroyed)

/-- The guard of `admit_work`. -/
def ensureAdmitted (ctx : KernelContext ρ) : Except KernelError Unit :=
  if ctx.poisoned then .error (error .internalInvariant) else tryAdmit ctx.phase

/-- `admit_work` with the whole life of its guard, during which the caller may panic. -/
def admitWork (ctx : KernelContext ρ) (panics : Bool) : Except KernelError Unit × KernelContext ρ :=
  match ctx.ensureAdmitted with
  | .error failure => (.error failure, ctx)
  | .ok _ => (.ok (), { ctx with poisoned := panics })

def registerResource (ctx : KernelContext ρ) (resource : ρ) :
    Except KernelError Nat × KernelContext ρ :=
  match ctx.ensureAdmitted with
  | .error failure => (.error failure, ctx)
  | .ok _ =>
      if ctx.resources.length ≥ ctx.maxHandles then
        (.error ⟨.capacityExceeded, .limitExceeded ctx.maxHandles (ctx.resources.length + 1)⟩, ctx)
      else (.ok ctx.resources.length, { ctx with resources := ctx.resources ++ [resource] })

/-- A call from inside a callback. The pass holds the close lock. -/
def reenter (ctx : KernelContext ρ) : Call ρ → KernelContext ρ
  | .registerResource resource => (ctx.registerResource resource).2
  | .admitWork panics => (ctx.admitWork panics).2
  | .close _ _ => ctx

def reenterAll (ctx : KernelContext ρ) (calls : List (Call ρ)) : KernelContext ρ :=
  calls.foldl reenter ctx

/-- Keep a failure for every later close. -/
def fail (ctx : KernelContext ρ) (failure : KernelError) : KernelContext ρ :=
  { ctx with progress := { ctx.progress with failure := some failure } }

def beginClose (phase : ContextPhase) : ContextPhase :=
  if phase = .running then .quiescing else phase

/-- The first pass freezes the resources. -/
def start (ctx : KernelContext ρ) : Except KernelError (KernelContext ρ) :=
  if ctx.progress.started then .ok ctx
  else if ctx.poisoned then .error (error .internalInvariant)
  else
    .ok { ctx with
      phase := beginClose ctx.phase
      progress := { ctx.progress with
        resources := ctx.resources
        quiesced := List.replicate ctx.resources.length false
        destroyRemaining := ctx.resources.length
        started := true } }

/-- The snapshot of the first pass. -/
def freeze (ctx : KernelContext ρ) : KernelContext ρ :=
  { ctx with progress := { ctx.progress with
      resources := ctx.resources
      quiesced := List.replicate ctx.resources.length false
      destroyRemaining := ctx.resources.length
      started := true } }

theorem start_eq (ctx : KernelContext ρ) :
    ctx.start =
      if ctx.progress.started then .ok ctx
      else if ctx.poisoned then .error (error .internalInvariant)
      else .ok (freeze { ctx with phase := beginClose ctx.phase }) := rfl

/-- A turn whose index is out of bounds: the panic is caught like that of a callback. -/
def outOfBounds (ctx : KernelContext ρ) : Pass ρ Unit :=
  ⟨.error (error .panicBoundary), [], ctx.fail (error .panicBoundary)⟩

def cancelTurn (callbacks : Callbacks ρ) (reason : CancelReason) (ctx : KernelContext ρ) :
    Pass ρ Unit :=
  let index := ctx.progress.cancelled
  match ctx.progress.resources[index]? with
  | none => ctx.outOfBounds
  | some resource =>
      let answer := callbacks.cancelRequested resource index reason
      let ctx := ctx.reenterAll answer.nested
      let log := [(resource, .cancelRequested index answer.value)]
      match answer.value with
      | none => ⟨.error (error .panicBoundary), log, ctx.fail (error .panicBoundary)⟩
      | some _ =>
          { result := .ok ()
            log := log
            context := { ctx with progress := { ctx.progress with cancelled := index + 1 } } }

/-- Every turn that does not return cancels one more resource. -/
def cancelLoop (callbacks : Callbacks ρ) (reason : CancelReason) :
    Nat → KernelContext ρ → Pass ρ Unit
  | 0, ctx => ⟨.ok (), [], ctx⟩
  | turns + 1, ctx =>
      (cancelTurn callbacks reason ctx).andThen fun _ => cancelLoop callbacks reason turns

def quiesceTurn (callbacks : Callbacks ρ) (effective : Deadline) (index : Nat)
    (ctx : KernelContext ρ) : Pass ρ Unit :=
  match ctx.progress.resources[index]? with
  | none => ctx.outOfBounds
  | some resource =>
      let answer := callbacks.quiesce resource index effective
      let ctx := ctx.reenterAll answer.nested
      let log := [(resource, .quiesce index answer.value)]
      match answer.value with
      | some (.ok state) =>
          { result := .ok ()
            log := log
            context := { ctx with progress := { ctx.progress with
              quiesced := ctx.progress.quiesced.set index (state = .quiesced) } } }
      | some (.error failure) =>
          if failure.category = .timedOut then ⟨.error failure, log, ctx⟩
          else ⟨.error failure, log, ctx.fail failure⟩
      | none => ⟨.error (error .panicBoundary), log, ctx.fail (error .panicBoundary)⟩

def quiesceLoop (callbacks : Callbacks ρ) (effective : Deadline) :
    List Nat → KernelContext ρ → Pass ρ Unit
  | [], ctx => ⟨.ok (), [], ctx⟩
  | index :: rest, ctx =>
      if ctx.progress.quiesced[index]? = some true then quiesceLoop callbacks effective rest ctx
      else
        (quiesceTurn callbacks effective index ctx).andThen fun _ =>
          quiesceLoop callbacks effective rest

/-- An ambiguously failed destructor is not invoked a second time. -/
def destroyTurn (callbacks : Callbacks ρ) (ctx : KernelContext ρ) : Pass ρ Unit :=
  let index := ctx.progress.destroyRemaining - 1
  match ctx.progress.resources[index]? with
  | none => ctx.outOfBounds
  | some resource =>
      let answer := callbacks.destroy resource index
      let ctx := ctx.reenterAll answer.nested
      let log := [(resource, .destroy index answer.value)]
      match answer.value with
      | some (.ok _) =>
          { result := .ok ()
            log := log
            context := { ctx with progress := { ctx.progress with
              destroyRemaining := ctx.progress.destroyRemaining - 1 } } }
      | some (.error failure) => ⟨.error failure, log, ctx.fail failure⟩
      | none => ⟨.error (error .panicBoundary), log, ctx.fail (error .panicBoundary)⟩

def destroyLoop (callbacks : Callbacks ρ) : Nat → KernelContext ρ → Pass ρ Unit
  | 0, ctx => ⟨.ok (), [], ctx⟩
  | turns + 1, ctx => (destroyTurn callbacks ctx).andThen fun _ => destroyLoop callbacks turns

def quiescingReport : ContextCloseReport := ⟨closeSteps.take 3, .quiescing⟩

def closedReport : ContextCloseReport := ⟨closeSteps, .closed⟩

def finish (ctx : KernelContext ρ) : Pass ρ ContextCloseReport where
  result := .ok closedReport
  log := []
  context := { ctx with
    resources := []
    phase := .closed
    progress := { ctx.progress with resources := [], report := some closedReport } }

/-- The end of a pass: wait for pending resources, or destroy. -/
def settle (callbacks : Callbacks ρ) (effective : Deadline) (now : Nat) (ctx : KernelContext ρ) :
    Pass ρ ContextCloseReport :=
  if ctx.progress.quiesced.any (!·) then
    if effective.isExpired now then ⟨.error (error .timedOut), [], ctx⟩
    else ⟨.ok quiescingReport, [], ctx⟩
  else (destroyLoop callbacks ctx.progress.destroyRemaining ctx).andThen fun _ => finish

/-- A pass that was started: the three loops. -/
def drive (callbacks : Callbacks ρ) (reason : CancelReason) (deadline : Deadline) (now : Nat)
    (ctx : KernelContext ρ) : Pass ρ ContextCloseReport :=
  let effective := if deadline = .none then ctx.quiesceDeadline else deadline
  let total := ctx.progress.resources.length
  (cancelLoop callbacks reason (total - ctx.progress.cancelled) ctx).andThen fun _ ctx =>
    (quiesceLoop callbacks effective (List.range total) ctx).andThen fun _ =>
      settle callbacks effective now

/-- Drive one close pass. `now` is the clock reading after the callbacks. -/
def close (callbacks : Callbacks ρ) (reason : CancelReason) (deadline : Deadline) (now : Nat)
    (ctx : KernelContext ρ) : Pass ρ ContextCloseReport :=
  match ctx.progress.report with
  | some report => ⟨.ok report, [], ctx⟩
  | none =>
      match ctx.progress.failure with
      | some failure => ⟨.error failure, [], ctx⟩
      | none =>
          match ctx.start with
          | .error failure => ⟨.error failure, [], ctx⟩
          | .ok ctx => ctx.drive callbacks reason deadline now

end KernelContext
end Kernel

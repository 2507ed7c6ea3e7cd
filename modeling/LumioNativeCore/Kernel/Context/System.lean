import LumioNativeCore.Kernel.Context.Close

/-! Threads that call one context at the same time (`context/lifecycle.rs`,
`context/registry.rs`, `context/state.rs`), one access to what they share after the
other: the admission lock, the phase, the resource list and the close lock.

A callback runs outside the admission lock and the registry lock. What it calls on
the context is a call of a thread like any other, and so is `name()` of a resource,
which precedes its registration. The destructors that the last step of a pass runs
are taken not to panic. -/
namespace Kernel

/-- What a caller of `admit_work` wants the guard for. `register_resource` is one. -/
inductive Work (ρ : Type) where
  | resource (resource : ρ)
  | publication

/-- Where a close pass stands. -/
inductive Position where
  | holding
  | waiting
  | barred
  | gated
  | begun
  | frozen
  | cancelling
  | inCancel
  | quiescing (index : Nat)
  | inQuiesce (index : Nat)
  | settling
  | destroying
  | inDestroy
  | clearing
  | marking
  | reporting
  | answering (reply : Except KernelError ContextCloseReport)

/-- Where a thread stands in its call. -/
inductive ContextCall (ρ : Type) where
  | idle
  | seeking (work : Work ρ)
  | locked (work : Work ρ)
  | admitted (work : Work ρ)
  | refused (work : Work ρ) (failure : KernelError)
  | registered (resource : ρ) (index : Nat)
  | close (reason : CancelReason) (deadline : Deadline)
  | pass (reason : CancelReason) (deadline : Deadline) (position : Position)

/-- What one step of a thread does that can be seen. -/
inductive Action (ρ : Type) where
  | silent
  | phaseChecked (result : Except KernelError Unit)
  | pushed (resource : ρ)
  | published
  | registered (resource : ρ) (index : Nat)
  | failed (work : Work ρ) (failure : KernelError)
  | released
  | beganClose
  | froze (resources : List ρ)
  | callback (resource : ρ) (event : CallbackEvent)
  | cleared (resources : List ρ)
  | closed (reply : Except KernelError ContextCloseReport)

/-- What the threads share. A lock names the thread that holds it. -/
structure Shared (ρ : Type) where
  context : KernelContext ρ
  admission : Option Nat
  closing : Option Nat

structure System (ρ : Type) extends Shared ρ where
  calls : Nat → ContextCall ρ

variable {ρ : Type}

/-- The positions of a pass inside the block that freezes the resources. -/
def Position.holdsAdmission : Position → Bool
  | barred | gated | begun | frozen => true
  | _ => false

namespace ContextCall

def holdsAdmission : ContextCall ρ → Bool
  | locked _ | admitted _ | refused _ _ | registered _ _ => true
  | pass _ _ position => position.holdsAdmission
  | idle | seeking _ | close _ _ => false

def inPass : ContextCall ρ → Bool
  | pass _ _ _ => true
  | _ => false

end ContextCall

namespace KernelContext

/-- `register_named`: one access to the resource list. -/
def registerNamed (ctx : KernelContext ρ) (resource : ρ) :
    Except KernelError Nat × KernelContext ρ :=
  if ctx.resources.length ≥ ctx.maxHandles then
    (.error ⟨.capacityExceeded, .limitExceeded ctx.maxHandles (ctx.resources.length + 1)⟩, ctx)
  else (.ok ctx.resources.length, { ctx with resources := ctx.resources ++ [resource] })

theorem registerNamed_cases (ctx : KernelContext ρ) (resource : ρ) :
    (∃ failure, ctx.registerNamed resource = (.error failure, ctx)) ∨
      ctx.registerNamed resource =
        (.ok ctx.resources.length, { ctx with resources := ctx.resources ++ [resource] }) := by
  rw [registerNamed]
  split_ifs
  · exact Or.inl ⟨_, rfl⟩
  · exact Or.inr rfl

def effective (ctx : KernelContext ρ) (deadline : Deadline) : Deadline :=
  if deadline = .none then ctx.quiesceDeadline else deadline

end KernelContext

/-- Callbacks that return these values. -/
def Callbacks.returning (cancel : Option Unit) (quiesce : Option (Except KernelError QuiesceState))
    (destroy : Option (Except KernelError Unit)) : Callbacks ρ where
  cancelRequested _ _ _ := ⟨[], cancel⟩
  quiesce _ _ _ := ⟨[], quiesce⟩
  destroy _ _ := ⟨[], destroy⟩

/-- A turn that fails ends the pass. -/
def Position.after (result : Except KernelError Unit) (next : Position) : Position :=
  match result with
  | .ok _ => next
  | .error failure => .answering (.error failure)

open KernelContext

/-- The steps of a pass between its uses of the locks. -/
inductive PassStep (reason : CancelReason) (deadline : Deadline) :
    KernelContext ρ → Position → Action ρ → KernelContext ρ → Position → Prop where
  | again (ctx) (reply : Except KernelError ContextCloseReport)
      (hSealed : ctx.sealedReply = some reply) :
      PassStep reason deadline ctx .holding .silent ctx (.answering reply)
  | resume (ctx) (hOpen : ctx.sealedReply = none) (hStarted : ctx.progress.started = true) :
      PassStep reason deadline ctx .holding .silent ctx .cancelling
  | first (ctx) (hOpen : ctx.sealedReply = none) (hStarted : ctx.progress.started = false) :
      PassStep reason deadline ctx .holding .silent ctx .waiting
  | beginClose (ctx) :
      PassStep reason deadline ctx .gated .beganClose
        { ctx with phase := KernelContext.beginClose ctx.phase } .begun
  | freeze (ctx) :
      PassStep reason deadline ctx .begun (.froze ctx.resources) ctx.freeze .frozen
  | callCancel (ctx) (hLeft : ctx.progress.cancelled < ctx.progress.resources.length) :
      PassStep reason deadline ctx .cancelling .silent ctx .inCancel
  | cancelReturns (ctx) (resource : ρ) (value : Option Unit)
      (hResource : ctx.progress.resources[ctx.progress.cancelled]? = some resource) :
      PassStep reason deadline ctx .inCancel
        (.callback resource (.cancelRequested ctx.progress.cancelled value))
        (cancelTurn (.returning value none none) reason ctx).context
        (.after (cancelTurn (.returning value none none) reason ctx).result .cancelling)
  | cancelledAll (ctx) (hAll : ¬ctx.progress.cancelled < ctx.progress.resources.length) :
      PassStep reason deadline ctx .cancelling .silent ctx (.quiescing 0)
  | skip (ctx) (index : Nat) (hIndex : index < ctx.progress.resources.length)
      (hMark : ctx.progress.quiesced[index]? = some true) :
      PassStep reason deadline ctx (.quiescing index) .silent ctx (.quiescing (index + 1))
  | callQuiesce (ctx) (index : Nat) (hIndex : index < ctx.progress.resources.length)
      (hMark : ctx.progress.quiesced[index]? ≠ some true) :
      PassStep reason deadline ctx (.quiescing index) .silent ctx (.inQuiesce index)
  | quiesceReturns (ctx) (index : Nat) (resource : ρ)
      (value : Option (Except KernelError QuiesceState))
      (hResource : ctx.progress.resources[index]? = some resource) :
      PassStep reason deadline ctx (.inQuiesce index) (.callback resource (.quiesce index value))
        (quiesceTurn (.returning none value none) (ctx.effective deadline) index ctx).context
        (.after (quiesceTurn (.returning none value none) (ctx.effective deadline) index ctx).result
          (.quiescing (index + 1)))
  | quiescedAll (ctx) (index : Nat) (hAll : ¬index < ctx.progress.resources.length) :
      PassStep reason deadline ctx (.quiescing index) .silent ctx .settling
  | expire (ctx) (now : Nat) (hWaits : ctx.progress.quiesced.any (!·) = true)
      (hExpired : (ctx.effective deadline).isExpired now = true) :
      PassStep reason deadline ctx .settling .silent ctx (.answering (.error (error .timedOut)))
  | wait (ctx) (now : Nat) (hWaits : ctx.progress.quiesced.any (!·) = true)
      (hExpired : (ctx.effective deadline).isExpired now = false) :
      PassStep reason deadline ctx .settling .silent ctx (.answering (.ok quiescingReport))
  | confirm (ctx) (hQuiet : ctx.progress.quiesced.any (!·) = false) :
      PassStep reason deadline ctx .settling .silent ctx .destroying
  | callDestroy (ctx) (hLeft : ctx.progress.destroyRemaining ≠ 0) :
      PassStep reason deadline ctx .destroying .silent ctx .inDestroy
  | destroyReturns (ctx) (resource : ρ) (value : Option (Except KernelError Unit))
      (hResource : ctx.progress.resources[ctx.progress.destroyRemaining - 1]? = some resource) :
      PassStep reason deadline ctx .inDestroy
        (.callback resource (.destroy (ctx.progress.destroyRemaining - 1) value))
        (destroyTurn (.returning none none value) ctx).context
        (.after (destroyTurn (.returning none none value) ctx).result .destroying)
  | destroyedAll (ctx) (hNone : ctx.progress.destroyRemaining = 0) :
      PassStep reason deadline ctx .destroying .silent ctx .clearing
  | clear (ctx) :
      PassStep reason deadline ctx .clearing (.cleared ctx.resources)
        { ctx with resources := [], progress := { ctx.progress with resources := [] } } .marking
  | markClosed (ctx) :
      PassStep reason deadline ctx .marking .silent { ctx with phase := .closed } .reporting
  | report (ctx) :
      PassStep reason deadline ctx .reporting .silent
        { ctx with progress := { ctx.progress with report := some closedReport } }
        (.answering (.ok closedReport))

/-- The stage after the phase was read under the admission lock. -/
def ContextCall.checked (work : Work ρ) (result : Except KernelError Unit) : ContextCall ρ :=
  match result with
  | .ok _ => .admitted work
  | .error failure => .refused work failure

/-- One step of thread `t`. Who finds the admission lock poisoned holds it all the
same until it returns. -/
inductive Act (t : Nat) :
    Shared ρ → ContextCall ρ → Action ρ → Shared ρ → ContextCall ρ → Prop where
  | call (s : Shared ρ) (work : Work ρ) : Act t s .idle .silent s (.seeking work)
  | callClose (s : Shared ρ) (reason : CancelReason) (deadline : Deadline) :
      Act t s .idle .silent s (.close reason deadline)
  | lock (s : Shared ρ) (work : Work ρ) (hFree : s.admission = none)
      (hSound : s.context.poisoned = false) :
      Act t s (.seeking work) .silent { s with admission := some t } (.locked work)
  | lockPoisoned (s : Shared ρ) (work : Work ρ) (hFree : s.admission = none)
      (hPoisoned : s.context.poisoned = true) :
      Act t s (.seeking work) .silent { s with admission := some t }
        (.refused work (error .internalInvariant))
  | check (s : Shared ρ) (work : Work ρ) :
      Act t s (.locked work) (.phaseChecked (tryAdmit s.context.phase)) s
        (.checked work (tryAdmit s.context.phase))
  | push (s : Shared ρ) (resource : ρ) (index : Nat) (ctx : KernelContext ρ)
      (hPush : s.context.registerNamed resource = (.ok index, ctx)) :
      Act t s (.admitted (.resource resource)) (.pushed resource) { s with context := ctx }
        (.registered resource index)
  | full (s : Shared ρ) (resource : ρ) (failure : KernelError) (ctx : KernelContext ρ)
      (hPush : s.context.registerNamed resource = (.error failure, ctx)) :
      Act t s (.admitted (.resource resource)) .silent { s with context := ctx }
        (.refused (.resource resource) failure)
  | publish (s : Shared ρ) :
      Act t s (.admitted .publication) .published s (.admitted .publication)
  | release (s : Shared ρ) (panics : Bool) :
      Act t s (.admitted .publication) .released
        { s with context := { s.context with poisoned := panics }, admission := none } .idle
  | returnRegistered (s : Shared ρ) (resource : ρ) (index : Nat) :
      Act t s (.registered resource index) (.registered resource index)
        { s with admission := none } .idle
  | returnFailed (s : Shared ρ) (work : Work ρ) (failure : KernelError) :
      Act t s (.refused work failure) (.failed work failure) { s with admission := none } .idle
  | closeBusy (s : Shared ρ) (reason : CancelReason) (deadline : Deadline) (other : Nat)
      (hBusy : s.closing = some other) :
      Act t s (.close reason deadline) (.closed (.error (error .contextClosing))) s .idle
  | closeEnter (s : Shared ρ) (reason : CancelReason) (deadline : Deadline)
      (hFree : s.closing = none) :
      Act t s (.close reason deadline) .silent { s with closing := some t }
        (.pass reason deadline .holding)
  | gate (s : Shared ρ) (reason : CancelReason) (deadline : Deadline) (hFree : s.admission = none)
      (hSound : s.context.poisoned = false) :
      Act t s (.pass reason deadline .waiting) .silent { s with admission := some t }
        (.pass reason deadline .gated)
  | gatePoisoned (s : Shared ρ) (reason : CancelReason) (deadline : Deadline)
      (hFree : s.admission = none) (hPoisoned : s.context.poisoned = true) :
      Act t s (.pass reason deadline .waiting) .silent { s with admission := some t }
        (.pass reason deadline .barred)
  | bar (s : Shared ρ) (reason : CancelReason) (deadline : Deadline) :
      Act t s (.pass reason deadline .barred) .silent { s with admission := none }
        (.pass reason deadline (.answering (.error (error .internalInvariant))))
  | ungate (s : Shared ρ) (reason : CancelReason) (deadline : Deadline) :
      Act t s (.pass reason deadline .frozen) .silent { s with admission := none }
        (.pass reason deadline .cancelling)
  | drive (s : Shared ρ) (reason : CancelReason) (deadline : Deadline) (position : Position)
      (action : Action ρ) (ctx : KernelContext ρ) (position' : Position)
      (hPass : PassStep reason deadline s.context position action ctx position') :
      Act t s (.pass reason deadline position) action { s with context := ctx }
        (.pass reason deadline position')
  | returnClosed (s : Shared ρ) (reason : CancelReason) (deadline : Deadline)
      (reply : Except KernelError ContextCloseReport) :
      Act t s (.pass reason deadline (.answering reply)) (.closed reply)
        { s with closing := none } .idle

namespace System

/-- A new context that no thread has called. -/
def create (maxHandles : Nat) (quiesceDeadline : Deadline) : System ρ where
  context := .create maxHandles quiesceDeadline
  admission := none
  closing := none
  calls _ := .idle

/-- Any thread may take the next step. -/
inductive Step : System ρ → Nat × Action ρ → System ρ → Prop where
  | act (s : System ρ) (t : Nat) (action : Action ρ) (shared : Shared ρ) (next : ContextCall ρ)
      (hAct : Act t s.toShared (s.calls t) action shared next) :
      Step s (t, action) ⟨shared, Function.update s.calls t next⟩

end System
end Kernel

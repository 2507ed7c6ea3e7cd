import LumioNativeCore.Kernel.Context.System
import LumioNativeCore.Library.Lock

/-! What holds of a context between any two steps of its threads. The admission lock
orders the registrations against the freeze; the close lock makes a pass the only
writer of the progress record. -/
namespace Kernel

open Concurrent KernelContext

variable {ρ : Type}

/-- The failures of a phase check once a close has begun. -/
def Late (failure : KernelError) : Prop :=
  failure = error .contextClosing ∨ failure = error .contextDestroyed

theorem late_of_tryAdmit {phase : ContextPhase} {failure : KernelError}
    (h : tryAdmit phase = .error failure) : Late failure := by
  cases phase with
  | running => cases h
  | quiescing => exact Or.inl (Except.error.inj h).symm
  | creating => exact Or.inr (Except.error.inj h).symm
  | closed => exact Or.inr (Except.error.inj h).symm
  | faulted => exact Or.inr (Except.error.inj h).symm

theorem running_of_tryAdmit {phase : ContextPhase} {u : Unit} (h : tryAdmit phase = .ok u) :
    phase = .running := by
  cases phase with
  | running => rfl
  | quiescing => cases h
  | creating => cases h
  | closed => cases h
  | faulted => cases h

/-! What a trace has done. -/

namespace Action

def pushed? : Action ρ → Option ρ
  | pushed resource => some resource
  | _ => none

def registered? : Action ρ → Option (ρ × Nat)
  | registered resource index => some (resource, index)
  | _ => none

def froze? : Action ρ → Option (List ρ)
  | froze resources => some resources
  | _ => none

def cleared? : Action ρ → Option (List ρ)
  | cleared resources => some resources
  | _ => none

def callback? : Action ρ → Option (ρ × CallbackEvent)
  | callback resource event => some (resource, event)
  | _ => none

/-- What may still be done once a close has begun. -/
def AfterClose : Action ρ → Prop
  | phaseChecked result => ∃ failure, result = .error failure ∧ Late failure
  | failed _ failure => Late failure
  | pushed _ | published | registered _ _ | released | beganClose => False
  | silent | froze _ | callback _ _ | cleared _ | closed _ => True

end Action

/-- What a trace did to the registrations, and the callbacks it made. -/
structure History (ρ : Type) where
  pushed : List ρ
  registered : List (ρ × Nat)
  frozen : List (List ρ)
  cleared : List (List ρ)
  called : List (ρ × CallbackEvent)

namespace History

def log (h : History ρ) : List CallbackEvent := h.called.map Prod.snd

def add (h : History ρ) : Action ρ → History ρ
  | .pushed resource => { h with pushed := h.pushed ++ [resource] }
  | .registered resource index => { h with registered := h.registered ++ [(resource, index)] }
  | .froze resources => { h with frozen := h.frozen ++ [resources] }
  | .cleared resources => { h with cleared := h.cleared ++ [resources] }
  | .callback resource event => { h with called := h.called ++ [(resource, event)] }
  | _ => h

@[simp] theorem log_callback (h : History ρ) (resource : ρ) (event : CallbackEvent) :
    (h.add (.callback resource event)).log = h.log ++ [event] := by
  simp [add, log]

end History

def historyOf (trace : List (Nat × Action ρ)) : History ρ where
  pushed := trace.filterMap fun label => label.2.pushed?
  registered := trace.filterMap fun label => label.2.registered?
  frozen := trace.filterMap fun label => label.2.froze?
  cleared := trace.filterMap fun label => label.2.cleared?
  called := trace.filterMap fun label => label.2.callback?

theorem historyOf_snoc (trace : List (Nat × Action ρ)) (t : Nat) (action : Action ρ) :
    historyOf (trace ++ [(t, action)]) = (historyOf trace).add action := by
  cases action <;>
    simp [historyOf, History.add, Action.pushed?, Action.registered?, Action.froze?,
      Action.cleared?, Action.callback?]

/-! The resource list. -/

/-- Nothing is frozen yet. -/
structure Opened (h : History ρ) (ctx : KernelContext ρ) : Prop where
  frozen : h.frozen = []
  cleared : h.cleared = []
  registry : ctx.resources = h.pushed

/-- Everything that was pushed is frozen. -/
structure Frozen (h : History ρ) (ctx : KernelContext ρ) : Prop where
  frozen : h.frozen = [h.pushed]
  cleared : h.cleared = []
  registry : ctx.resources = h.pushed
  resources : ctx.progress.resources = h.pushed

/-- The frozen resources were dropped. -/
structure Dropped (h : History ρ) : Prop where
  frozen : h.frozen = [h.pushed]
  cleared : h.cleared = [h.pushed]

/-- No pass has begun. -/
structure Fresh (h : History ρ) (ctx : KernelContext ρ) : Prop where
  idle : Idle h.pushed.length h.log ctx
  opened : Opened h ctx

/-- The phase has changed and the resources are not frozen yet. -/
structure Begun (h : History ρ) (ctx : KernelContext ρ) : Prop where
  phase : ctx.phase = .quiescing
  fresh : ctx.progress = .default
  silent : h.log = []
  opened : Opened h ctx

structure Busy (h : History ρ) (ctx : KernelContext ρ) : Prop where
  steady : Steady h.pushed.length h.log ctx
  frozen : Frozen h ctx

/-- The last resource was destroyed; the phase is still to be set and reported. -/
structure Emptied (h : History ρ) (ctx : KernelContext ρ) (phase : ContextPhase) : Prop where
  legal : LegalLog h.pushed.length h.log
  phase : ctx.phase = phase
  registry : ctx.resources = []
  calm : ∀ event ∈ h.log, event.failure = none
  destroyed : ∀ index < h.pushed.length, .destroy index (some (.ok ())) ∈ h.log
  dropped : Dropped h

/-- Between two passes. -/
inductive AtRest (h : History ρ) (ctx : KernelContext ρ) : Prop where
  | fresh (hFresh : Fresh h ctx)
  | waiting (hBusy : Busy h ctx)
  | stuck (failure : KernelError) (hStuck : Stuck h.pushed.length h.log ctx failure)
      (hFrozen : Frozen h ctx)
  | done (hDone : Done h.pushed.length h.log ctx) (hDropped : Dropped h)

/-- What holds at each position of a pass. -/
def Position.Holds (h : History ρ) (ctx : KernelContext ρ) : Position → Prop
  | holding | answering _ => AtRest h ctx
  | waiting | barred | gated => Fresh h ctx
  | begun => Begun h ctx
  | frozen | cancelling => Busy h ctx
  | inCancel => Busy h ctx ∧ ctx.progress.cancelled < h.pushed.length
  | quiescing _ | settling => Busy h ctx ∧ ctx.progress.cancelled = h.pushed.length
  | inQuiesce index =>
      Busy h ctx ∧ ctx.progress.cancelled = h.pushed.length ∧ index < h.pushed.length ∧
        quietReport index ∉ h.log
  | destroying => Busy h ctx ∧ ∀ index < h.pushed.length, quietReport index ∈ h.log
  | inDestroy =>
      Busy h ctx ∧ (∀ index < h.pushed.length, quietReport index ∈ h.log) ∧
        0 < ctx.progress.destroyRemaining
  | clearing => Busy h ctx ∧ ctx.progress.destroyRemaining = 0
  | marking => Emptied h ctx .quiescing
  | reporting => Emptied h ctx .closed

section Turns

variable {h : History ρ} {ctx : KernelContext ρ}

/-- A turn of a pass writes its progress record only, and not the frozen resources. -/
structure Kept (ctx ctx' : KernelContext ρ) : Prop where
  phase : ctx'.phase = ctx.phase
  poisoned : ctx'.poisoned = ctx.poisoned
  registry : ctx'.resources = ctx.resources
  resources : ctx'.progress.resources = ctx.progress.resources

theorem kept_cancelTurn (value : Option Unit) (reason : CancelReason) {resource : ρ}
    (hResource : ctx.progress.resources[ctx.progress.cancelled]? = some resource) :
    Kept ctx (cancelTurn (.returning value none none) reason ctx).context ∧
      (cancelTurn (.returning value none none) reason ctx).events =
        [.cancelRequested ctx.progress.cancelled value] := by
  simp only [cancelTurn, hResource]
  cases value with
  | none => exact ⟨⟨rfl, rfl, rfl, rfl⟩, rfl⟩
  | some value => exact ⟨⟨rfl, rfl, rfl, rfl⟩, rfl⟩

theorem kept_quiesceTurn (value : Option (Except KernelError QuiesceState)) (deadline : Deadline)
    {index : Nat} {resource : ρ} (hResource : ctx.progress.resources[index]? = some resource) :
    Kept ctx (quiesceTurn (.returning none value none) deadline index ctx).context ∧
      (quiesceTurn (.returning none value none) deadline index ctx).events =
        [.quiesce index value] := by
  simp only [quiesceTurn, hResource]
  cases value with
  | none => exact ⟨⟨rfl, rfl, rfl, rfl⟩, rfl⟩
  | some result =>
      cases result with
      | ok state => exact ⟨⟨rfl, rfl, rfl, rfl⟩, rfl⟩
      | error failure =>
          by_cases hTimed : failure.category = .timedOut
          · simp only [Callbacks.returning, reenterAll, List.foldl_nil, if_pos hTimed]
            exact ⟨⟨rfl, rfl, rfl, rfl⟩, rfl⟩
          · simp only [Callbacks.returning, reenterAll, List.foldl_nil, if_neg hTimed]
            exact ⟨⟨rfl, rfl, rfl, rfl⟩, rfl⟩

theorem kept_destroyTurn (value : Option (Except KernelError Unit)) {resource : ρ}
    (hResource : ctx.progress.resources[ctx.progress.destroyRemaining - 1]? = some resource) :
    Kept ctx (destroyTurn (.returning none none value) ctx).context ∧
      (destroyTurn (.returning none none value) ctx).events =
        [.destroy (ctx.progress.destroyRemaining - 1) value] := by
  simp only [destroyTurn, hResource]
  cases value with
  | none => exact ⟨⟨rfl, rfl, rfl, rfl⟩, rfl⟩
  | some result =>
      cases result with
      | ok _ => exact ⟨⟨rfl, rfl, rfl, rfl⟩, rfl⟩
      | error failure => exact ⟨⟨rfl, rfl, rfl, rfl⟩, rfl⟩

theorem Frozen.callback (hFrozen : Frozen h ctx) {ctx' : KernelContext ρ} (hKept : Kept ctx ctx')
    (resource : ρ) (event : CallbackEvent) : Frozen (h.add (.callback resource event)) ctx' where
  frozen := hFrozen.frozen
  cleared := hFrozen.cleared
  registry := hKept.registry.trans hFrozen.registry
  resources := hKept.resources.trans hFrozen.resources

/-- The position after a turn, whatever the callback returned. -/
theorem Position.holds_after {pass : Pass ρ Unit} {next : Position} {resource : ρ}
    {event : CallbackEvent} {good : Unit → List CallbackEvent → KernelContext ρ → Prop}
    (hFrozen : Frozen h ctx) (hKept : Kept ctx pass.context ∧ pass.events = [event])
    (hSequel : Sequel h.pushed.length h.log pass good)
    (hNext : Frozen (h.add (.callback resource event)) pass.context →
      good () (h.add (.callback resource event)).log pass.context →
        next.Holds (h.add (.callback resource event)) pass.context) :
    (Position.after pass.result next).Holds (h.add (.callback resource event)) pass.context := by
  have hFrozen' := hFrozen.callback hKept.1 resource event
  rw [Sequel, hKept.2, ← h.log_callback resource] at hSequel
  cases hResult : pass.result with
  | ok u =>
      simp only [hResult] at hSequel
      exact hNext hFrozen' hSequel
  | error failure =>
      simp only [hResult] at hSequel
      rcases hSequel with hStuck | ⟨-, hSteady, -⟩
      · exact .stuck failure hStuck hFrozen'
      · exact .waiting ⟨hSteady, hFrozen'⟩

theorem AtRest.unsealed (hRest : AtRest h ctx) (hOpen : ctx.sealedReply = none) :
    Fresh h ctx ∨ Busy h ctx := by
  cases hRest with
  | fresh hFresh => exact Or.inl hFresh
  | waiting hBusy => exact Or.inr hBusy
  | stuck failure hStuck =>
      rw [sealedReply, hStuck.pending, hStuck.recorded] at hOpen
      cases hOpen
  | done hDone =>
      rw [sealedReply, hDone.report] at hOpen
      cases hOpen

/-- A step of a pass moves it from a position to a position. -/
theorem PassStep.holds {reason : CancelReason} {deadline : Deadline} {position position' : Position}
    {action : Action ρ} {ctx' : KernelContext ρ} (hHolds : position.Holds h ctx)
    (hStep : PassStep reason deadline ctx position action ctx' position') :
    position'.Holds (h.add action) ctx' := by
  cases hStep with
  | again reply hSealed => exact hHolds
  | resume hOpen hStarted =>
      rcases AtRest.unsealed hHolds hOpen with hFresh | hBusy
      · rw [hFresh.idle.fresh] at hStarted
        cases hStarted
      · exact hBusy
  | first hOpen hStarted =>
      rcases AtRest.unsealed hHolds hOpen with hFresh | hBusy
      · exact hFresh
      · rw [hBusy.steady.started] at hStarted
        cases hStarted
  | beginClose =>
      obtain ⟨hIdle, hOpened⟩ := hHolds
      exact ⟨by simp [KernelContext.beginClose, hIdle.phase], hIdle.fresh, hIdle.silent,
        hOpened.frozen, hOpened.cleared, hOpened.registry⟩
  | freeze =>
      obtain ⟨hPhase, hFresh, hSilent, hOpened⟩ := hHolds
      have hSteady := freeze_steady hPhase hFresh
      rw [hOpened.registry, ← hSilent] at hSteady
      refine ⟨hSteady, ?_, hOpened.cleared, hOpened.registry, hOpened.registry⟩
      show h.frozen ++ [ctx.resources] = [h.pushed]
      rw [hOpened.frozen, hOpened.registry]
      rfl
  | callCancel hLeft => exact ⟨hHolds, Nat.lt_of_lt_of_eq hLeft hHolds.steady.frozen⟩
  | cancelReturns resource value hResource =>
      obtain ⟨⟨hSteady, hFrozen⟩, hLeft⟩ := hHolds
      apply Position.holds_after hFrozen (kept_cancelTurn value reason hResource)
        (sequel_cancelTurn _ reason hSteady hLeft)
      intro hFrozen' hGood
      exact ⟨hGood.1, hFrozen'⟩
  | cancelledAll hAll =>
      have hBound := hHolds.steady.bound
      rw [hHolds.steady.frozen] at hAll
      exact ⟨hHolds, Nat.le_antisymm hBound (Nat.le_of_not_lt hAll)⟩
  | skip index hIndex hMark => exact hHolds
  | callQuiesce index hIndex hMark =>
      obtain ⟨hBusy, hAll⟩ := hHolds
      rw [hBusy.steady.frozen] at hIndex
      refine ⟨hBusy, hAll, hIndex, fun hMem => hMark ?_⟩
      exact (hBusy.steady.marked index).mpr ⟨hIndex, hMem⟩
  | quiesceReturns index resource value hResource =>
      obtain ⟨⟨hSteady, hFrozen⟩, hAll, hIndex, hWaits⟩ := hHolds
      apply Position.holds_after hFrozen (kept_quiesceTurn value _ hResource)
        (sequel_quiesceTurn _ _ hSteady hAll hIndex hWaits)
      intro hFrozen' hGood
      exact ⟨⟨hGood.1, hFrozen'⟩, hGood.2⟩
  | quiescedAll index hAll => exact hHolds
  | expire now hWaits hExpired => exact .waiting hHolds.1
  | wait now hWaits hExpired => exact .waiting hHolds.1
  | confirm hQuiet => exact ⟨hHolds.1, hHolds.1.steady.quiet hQuiet⟩
  | callDestroy hLeft => exact ⟨hHolds.1, hHolds.2, Nat.pos_of_ne_zero hLeft⟩
  | destroyReturns resource value hResource =>
      obtain ⟨⟨hSteady, hFrozen⟩, hQuiet, hLeft⟩ := hHolds
      apply Position.holds_after hFrozen (kept_destroyTurn value hResource)
        (sequel_destroyTurn _ hSteady hQuiet hLeft)
      intro hFrozen' hGood
      exact ⟨⟨hGood.1, hFrozen'⟩, hGood.2.1⟩
  | destroyedAll hNone => exact ⟨hHolds.1, hNone⟩
  | clear =>
      obtain ⟨⟨hSteady, hFrozen⟩, hNone⟩ := hHolds
      refine ⟨hSteady.legal, hSteady.phase, rfl, hSteady.calm, hSteady.destroys hNone,
        hFrozen.frozen, ?_⟩
      show h.cleared ++ [ctx.resources] = [h.pushed]
      rw [hFrozen.cleared, hFrozen.registry]
      rfl
  | markClosed =>
      exact ⟨hHolds.legal, rfl, hHolds.registry, hHolds.calm, hHolds.destroyed, hHolds.dropped⟩
  | report =>
      exact .done ⟨hHolds.legal, hHolds.phase, hHolds.registry, rfl, hHolds.calm, hHolds.destroyed⟩
        hHolds.dropped

end Turns
end Kernel

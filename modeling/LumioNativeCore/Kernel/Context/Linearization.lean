import LumioNativeCore.Kernel.Context.Interleaving

/-! Every step of every thread keeps the invariant: the phase changes under the
admission lock, so that it is the one point between admission and close. -/
namespace Kernel

open Concurrent KernelContext Transition

variable {ρ : Type}

namespace ContextCall

/-- The registration that the holder of the admission lock has made and not returned. -/
def unreturned : ContextCall ρ → List (ρ × Nat)
  | registered resource index => [(resource, index)]
  | _ => []

/-- What the holder of the admission lock has seen under it. -/
def Fits (ctx : KernelContext ρ) : ContextCall ρ → Prop
  | locked _ => ctx.poisoned = false
  | admitted _ => ctx.poisoned = false ∧ ctx.phase = .running
  | refused _ failure => ctx.phase = .running ∨ Late failure
  | registered _ _ => ctx.phase = .running
  | pass _ _ position => position.holdsAdmission = true → position ≠ .barred → ctx.poisoned = false
  | idle | seeking _ | close _ _ => True

/-- What the holder of the close lock leaves between two of its steps. -/
def Holds (h : History ρ) (ctx : KernelContext ρ) : ContextCall ρ → Prop
  | pass _ _ position => position.Holds h ctx
  | _ => AtRest h ctx

end ContextCall

section Views

variable {h : History ρ} {ctx : KernelContext ρ} {holding : ContextCall ρ}

theorem AtRest.running (hRest : AtRest h ctx) (hPhase : ctx.phase = .running) : Fresh h ctx := by
  cases hRest with
  | fresh hFresh => exact hFresh
  | waiting hBusy => cases hBusy.steady.phase.symm.trans hPhase
  | stuck failure hStuck => cases hStuck.phase.symm.trans hPhase
  | done hDone => cases hDone.phase.symm.trans hPhase

theorem Busy.not_running (hBusy : Busy h ctx) : ctx.phase ≠ .running := by
  rw [hBusy.steady.phase]
  intro hPhase
  cases hPhase

/-- While the phase is running no pass has begun, and a registration is no matter to
the holder of the close lock. -/
theorem Position.holds_running {position : Position} (hHolds : position.Holds h ctx)
    (hPhase : ctx.phase = .running) :
    Fresh h ctx ∧ ∀ h' ctx', Fresh h' ctx' → position.Holds h' (ctx' : KernelContext ρ) := by
  cases position with
  | holding => exact ⟨AtRest.running hHolds hPhase, fun h' ctx' hFresh => .fresh hFresh⟩
  | answering reply => exact ⟨AtRest.running hHolds hPhase, fun h' ctx' hFresh => .fresh hFresh⟩
  | waiting => exact ⟨hHolds, fun h' ctx' hFresh => hFresh⟩
  | barred => exact ⟨hHolds, fun h' ctx' hFresh => hFresh⟩
  | gated => exact ⟨hHolds, fun h' ctx' hFresh => hFresh⟩
  | begun => cases (Begun.phase hHolds).symm.trans hPhase
  | frozen => exact absurd hPhase (Busy.not_running hHolds)
  | cancelling => exact absurd hPhase (Busy.not_running hHolds)
  | inCancel => exact absurd hPhase hHolds.1.not_running
  | quiescing index => exact absurd hPhase hHolds.1.not_running
  | inQuiesce index => exact absurd hPhase hHolds.1.not_running
  | settling => exact absurd hPhase hHolds.1.not_running
  | destroying => exact absurd hPhase hHolds.1.not_running
  | inDestroy => exact absurd hPhase hHolds.1.not_running
  | clearing => exact absurd hPhase hHolds.1.not_running
  | marking => cases (Emptied.phase hHolds).symm.trans hPhase
  | reporting => cases (Emptied.phase hHolds).symm.trans hPhase

theorem ContextCall.holds_running {call : ContextCall ρ} (hHolds : call.Holds h ctx)
    (hPhase : ctx.phase = .running) :
    Fresh h ctx ∧ ∀ h' ctx', Fresh h' ctx' → call.Holds h' ctx' := by
  cases call with
  | pass reason deadline position => exact Position.holds_running hHolds hPhase
  | idle => exact ⟨AtRest.running hHolds hPhase, fun h' ctx' hFresh => .fresh hFresh⟩
  | seeking => exact ⟨AtRest.running hHolds hPhase, fun h' ctx' hFresh => .fresh hFresh⟩
  | locked => exact ⟨AtRest.running hHolds hPhase, fun h' ctx' hFresh => .fresh hFresh⟩
  | admitted => exact ⟨AtRest.running hHolds hPhase, fun h' ctx' hFresh => .fresh hFresh⟩
  | refused => exact ⟨AtRest.running hHolds hPhase, fun h' ctx' hFresh => .fresh hFresh⟩
  | registered => exact ⟨AtRest.running hHolds hPhase, fun h' ctx' hFresh => .fresh hFresh⟩
  | close => exact ⟨AtRest.running hHolds hPhase, fun h' ctx' hFresh => .fresh hFresh⟩

/-- The registrations as the holder of the admission lock leaves them. -/
structure Gate (h : History ρ) (ctx : KernelContext ρ) (call : ContextCall ρ) : Prop where
  returned : h.pushed.zipIdx = h.registered ++ call.unreturned
  fits : call.Fits ctx
  sound : ctx.phase ≠ .running → ctx.poisoned = false

/-- What one step may do to the phase and the trace. -/
structure Allowed (h : History ρ) (ctx : KernelContext ρ) (action : Action ρ)
    (ctx' : KernelContext ρ) : Prop where
  phase : ctx'.phase = .running → ctx.phase = .running ∧ action ≠ .beganClose
  late : ctx.phase ≠ .running → action.AfterClose
  named : ∀ resource event, action = .callback resource event →
    h.pushed[event.index]? = some resource

theorem Allowed.same {action : Action ρ} (hBegan : action ≠ .beganClose)
    (hLate : action.AfterClose) (hNamed : ∀ resource event, action ≠ .callback resource event) :
    Allowed h ctx action ctx where
  phase hRunning := ⟨hRunning, hBegan⟩
  late _ := hLate
  named resource event hAction := absurd hAction (hNamed resource event)

theorem Allowed.silent {ctx' : KernelContext ρ}
    (hPhase : ctx'.phase = .running → ctx.phase = .running) : Allowed h ctx .silent ctx' where
  phase hRunning := ⟨hPhase hRunning, fun hAction => by cases hAction⟩
  late _ := trivial
  named _ _ hAction := by cases hAction

theorem Allowed.running {action : Action ρ} {ctx' : KernelContext ρ} (hPhase : ctx.phase = .running)
    (hBegan : action = .beganClose → ctx'.phase ≠ .running)
    (hNamed : ∀ resource event, action ≠ .callback resource event) : Allowed h ctx action ctx' where
  phase hRunning := ⟨hPhase, fun hAction => hBegan hAction hRunning⟩
  late hOver := absurd hPhase hOver
  named resource event hAction := absurd hAction (hNamed resource event)

theorem Gate.frame {h' : History ρ} {ctx' : KernelContext ρ} (hGate : Gate h ctx holding)
    (hPushed : h'.pushed = h.pushed) (hRegistered : h'.registered = h.registered)
    (hPoisoned : ctx'.poisoned = ctx.poisoned)
    (hPhase : ctx'.phase = .running ↔ ctx.phase = .running) : Gate h' ctx' holding where
  returned := by
    rw [hPushed, hRegistered]
    exact hGate.returned
  fits := by
    have hFits := hGate.fits
    cases holding with
    | idle => trivial
    | seeking => trivial
    | close => trivial
    | locked => exact hPoisoned.trans hFits
    | admitted => exact ⟨hPoisoned.trans hFits.1, hPhase.mpr hFits.2⟩
    | refused => exact hFits.imp_left hPhase.mpr
    | registered => exact hPhase.mpr hFits
    | pass => exact fun hGated hBarred => hPoisoned.trans (hFits hGated hBarred)
  sound hOver := hPoisoned.trans (hGate.sound fun hRunning => hOver (hPhase.mpr hRunning))

section Drive

variable {reason : CancelReason} {deadline : Deadline} {position position' : Position}
  {action : Action ρ} {ctx' : KernelContext ρ}

theorem Position.after_open (result : Except KernelError Unit) {next : Position}
    (hNext : next.holdsAdmission = false) : (Position.after result next).holdsAdmission = false := by
  cases result with
  | ok => exact hNext
  | error => rfl

/-- A pass enters and leaves the admission lock by its own steps only. -/
theorem PassStep.keeps_lock (hStep : PassStep reason deadline ctx position action ctx' position') :
    position'.holdsAdmission = position.holdsAdmission := by
  cases hStep with
  | cancelReturns => exact Position.after_open _ rfl
  | quiesceReturns => exact Position.after_open _ rfl
  | destroyReturns => exact Position.after_open _ rfl
  | _ => rfl

theorem PassStep.poisoned (hStep : PassStep reason deadline ctx position action ctx' position') :
    ctx'.poisoned = ctx.poisoned := by
  cases hStep with
  | cancelReturns resource value hResource =>
      exact (kept_cancelTurn value reason hResource).1.poisoned
  | quiesceReturns index resource value hResource =>
      exact (kept_quiesceTurn value _ hResource).1.poisoned
  | destroyReturns resource value hResource => exact (kept_destroyTurn value hResource).1.poisoned
  | _ => rfl

/-- A pass registers nothing. -/
theorem PassStep.pushed (hStep : PassStep reason deadline ctx position action ctx' position') :
    (h.add action).pushed = h.pushed ∧ (h.add action).registered = h.registered := by
  cases hStep with
  | _ => exact ⟨rfl, rfl⟩

theorem Frozen.named (hFrozen : Frozen h ctx) {resource : ρ} {event : CallbackEvent}
    (hResource : ctx.progress.resources[event.index]? = some resource) :
    ∀ resource' event', (.callback resource event : Action ρ) = .callback resource' event' →
      h.pushed[event'.index]? = some resource' := by
  intro resource' event' hSame
  cases hSame
  rw [← hFrozen.resources]
  exact hResource

/-- Outside the admission lock a pass does not leave the running phase. -/
theorem PassStep.allowed (hHolds : position.Holds h ctx)
    (hStep : PassStep reason deadline ctx position action ctx' position') :
    Allowed h ctx action ctx' ∧
      (position.holdsAdmission = false → ctx.phase = .running → ctx'.phase = .running) := by
  have hKept : ∀ {next : KernelContext ρ} {resource event}, Kept ctx next → Frozen h ctx →
      ctx.progress.resources[event.index]? = some resource →
        Allowed h ctx (.callback resource event) next ∧
          (position.holdsAdmission = false → ctx.phase = .running → next.phase = .running) := by
    intro next resource event hKept hFrozen hResource
    refine ⟨⟨fun hRunning => ?_, fun _ => trivial, hFrozen.named hResource⟩, fun _ hRunning => ?_⟩
    · exact ⟨hKept.phase.symm.trans hRunning, fun hAction => by cases hAction⟩
    · exact hKept.phase.trans hRunning
  cases hStep with
  | beginClose =>
      have hRunning := (Fresh.idle hHolds).phase
      refine ⟨.running hRunning ?_ (fun _ _ hAction => by cases hAction), fun hOpen => ?_⟩
      · intro _ hPhase
        simp [KernelContext.beginClose, hRunning] at hPhase
      · cases hOpen
  | freeze =>
      refine ⟨⟨fun hRunning => ⟨hRunning, fun hAction => by cases hAction⟩, fun _ => trivial,
        fun _ _ hAction => by cases hAction⟩, fun _ hRunning => hRunning⟩
  | cancelReturns resource value hResource =>
      exact hKept (kept_cancelTurn value reason hResource).1 hHolds.1.frozen hResource
  | quiesceReturns index resource value hResource =>
      exact hKept (kept_quiesceTurn value _ hResource).1 hHolds.1.frozen hResource
  | destroyReturns resource value hResource =>
      exact hKept (kept_destroyTurn value hResource).1 hHolds.1.frozen hResource
  | clear =>
      refine ⟨⟨fun hRunning => ⟨hRunning, fun hAction => by cases hAction⟩, fun _ => trivial,
        fun _ _ hAction => by cases hAction⟩, fun _ hRunning => hRunning⟩
  | markClosed =>
      refine ⟨.silent (fun hRunning => by cases hRunning), fun _ hRunning => ?_⟩
      cases (Emptied.phase hHolds).symm.trans hRunning
  | report => exact ⟨.silent id, fun _ => id⟩
  | _ => exact ⟨.silent id, fun _ => id⟩

/-- A step of a pass inside the admission lock. -/
theorem Gate.drive (hGate : Gate h ctx (.pass reason deadline position))
    (hGated : position.holdsAdmission = true)
    (hStep : PassStep reason deadline ctx position action ctx' position') :
    Gate (h.add action) ctx' (.pass reason deadline position') := by
  have hBarred : position ≠ .barred := by
    rintro rfl
    cases hStep
  have hSound : ctx'.poisoned = false := hStep.poisoned.trans (hGate.fits hGated hBarred)
  refine ⟨?_, fun _ _ => hSound, fun _ => hSound⟩
  rw [hStep.pushed.1, hStep.pushed.2]
  exact hGate.returned

end Drive
end Views

/-! Systems. -/

/-- What holds between any two steps. -/
structure Sound (trace : List (Nat × Action ρ)) (s : System ρ) : Prop where
  admission : Owned ContextCall.holdsAdmission s.calls s.admission
  closing : Owned ContextCall.inPass s.calls s.closing
  gate : Gate (historyOf trace) s.context (holder .idle s.calls s.admission)
  pass : (holder .idle s.calls s.closing).Holds (historyOf trace) s.context
  named : ∀ resource event, (resource, event) ∈ (historyOf trace).called →
    (historyOf trace).pushed[event.index]? = some resource
  began : ∀ t, (t, .beganClose) ∈ trace → s.context.phase ≠ .running
  late : ∀ before t after, trace = before ++ (t, .beganClose) :: after →
    ∀ label ∈ after, label.2.AfterClose

theorem History.called_add (h : History ρ) (action : Action ρ) {resource : ρ}
    {event : CallbackEvent} (hMem : (resource, event) ∈ (h.add action).called) :
    (resource, event) ∈ h.called ∨ action = .callback resource event := by
  cases action with
  | callback resource' event' =>
      rcases List.mem_append.mp hMem with hOld | hNew
      · exact Or.inl hOld
      · cases List.mem_singleton.mp hNew
        exact Or.inr rfl
  | _ => exact Or.inl hMem

/-- A registration keeps its index. -/
theorem History.pushed_add (h : History ρ) (action : Action ρ) {index : Nat} {resource : ρ}
    (hOld : h.pushed[index]? = some resource) :
    (h.add action).pushed[index]? = some resource := by
  cases action with
  | pushed other =>
      obtain ⟨hIndex, -⟩ := List.getElem?_eq_some_iff.mp hOld
      exact (List.getElem?_append_left hIndex).trans hOld
  | _ => exact hOld

section Step

variable {trace : List (Nat × Action ρ)} {s : System ρ} {t : Nat} {action : Action ρ}
  {shared : Shared ρ} {next : ContextCall ρ}

/-- The parts of the invariant that are about the trace. -/
theorem Sound.snoc {calls : Nat → ContextCall ρ} (hSound : Sound trace s)
    (hAllowed : Allowed (historyOf trace) s.context action shared.context)
    (hAdmission : Owned ContextCall.holdsAdmission calls shared.admission)
    (hClosing : Owned ContextCall.inPass calls shared.closing)
    (hGate : Gate ((historyOf trace).add action) shared.context
      (holder .idle calls shared.admission))
    (hPass : (holder .idle calls shared.closing).Holds ((historyOf trace).add action)
      shared.context) :
    Sound (trace ++ [(t, action)]) ⟨shared, calls⟩ where
  admission := hAdmission
  closing := hClosing
  gate := by
    rw [historyOf_snoc]
    exact hGate
  pass := by
    rw [historyOf_snoc]
    exact hPass
  named := by
    intro resource event hMem
    rw [historyOf_snoc] at hMem ⊢
    apply (historyOf trace).pushed_add action
    rcases (historyOf trace).called_add action hMem with hOld | hNew
    · exact hSound.named resource event hOld
    · exact hAllowed.named resource event hNew
  began := by
    intro t' hMem hRunning
    obtain ⟨hBefore, hAction⟩ := hAllowed.phase hRunning
    rcases List.mem_append.mp hMem with hOld | hNew
    · exact hSound.began t' hOld hBefore
    · cases List.mem_singleton.mp hNew
      exact hAction rfl
  late := by
    intro before t' after hTrace label hLabel
    rcases List.eq_nil_or_concat after with rfl | ⟨front, final, rfl⟩
    · cases hLabel
    · rw [List.concat_eq_append, ← List.cons_append, ← List.append_assoc] at hTrace
      obtain ⟨rfl, hFinal⟩ := List.append_inj' hTrace rfl
      obtain rfl := List.head_eq_of_cons_eq hFinal
      rw [List.concat_eq_append] at hLabel
      rcases List.mem_append.mp hLabel with hOld | hNew
      · exact hSound.late before t' front rfl label hOld
      · rw [List.mem_singleton.mp hNew]
        exact hAllowed.late (hSound.began t' (by simp))

/-- A step outside both locks. -/
theorem Sound.bystander (hSound : Sound trace s)
    (hAllowed : Allowed (historyOf trace) s.context action s.context)
    (hOut : (s.calls t).holdsAdmission = false ∧ (s.calls t).inPass = false)
    (hNext : next.holdsAdmission = false ∧ next.inPass = false)
    (hHistory : (historyOf trace).add action = historyOf trace) :
    Sound (trace ++ [(t, action)]) ⟨s.toShared, Function.update s.calls t next⟩ := by
  apply hSound.snoc hAllowed
  · exact hSound.admission.keep (hNext.1.trans hOut.1.symm)
  · exact hSound.closing.keep (hNext.2.trans hOut.2.symm)
  · rw [hHistory, hSound.admission.holder_other hOut.1]
    exact hSound.gate
  · rw [hHistory, hSound.closing.holder_other hOut.2]
    exact hSound.pass

/-- A thread that is not in a pass takes the admission lock. -/
theorem Sound.takes (hSound : Sound trace s) (hFree : s.admission = none)
    (hOut : (s.calls t).inPass = false) (hNext : next.inPass = false)
    (hHolds : next.holdsAdmission = true) (hNone : next.unreturned = [])
    (hFits : next.Fits s.context) :
    Sound (trace ++ [(t, .silent)])
      ⟨{ s.toShared with admission := some t }, Function.update s.calls t next⟩ := by
  have hGate := hSound.gate
  rw [hFree, holder_none] at hGate
  refine hSound.snoc (.silent id) (hSound.admission.acquire hFree hHolds)
    (hSound.closing.keep (hNext.trans hOut.symm)) ?_ ?_
  · rw [holder_some, Function.update_self]
    refine ⟨?_, hFits, hGate.sound⟩
    rw [hNone]
    exact hGate.returned
  · show ContextCall.Holds _ _ (holder _ _ s.closing)
    rw [hSound.closing.holder_other hOut]
    exact hSound.pass

/-- A thread that is not in a pass goes on under the admission lock. -/
theorem Sound.stays {ctx : KernelContext ρ} (hSound : Sound trace s)
    (hAllowed : Allowed (historyOf trace) s.context action ctx)
    (hHeld : (s.calls t).holdsAdmission = true) (hHolds : next.holdsAdmission = true)
    (hOut : (s.calls t).inPass = false) (hNext : next.inPass = false)
    (hGate : Gate ((historyOf trace).add action) ctx next)
    (hPass : (holder .idle s.calls s.closing).Holds ((historyOf trace).add action) ctx) :
    Sound (trace ++ [(t, action)])
      ⟨{ s.toShared with context := ctx }, Function.update s.calls t next⟩ := by
  refine hSound.snoc hAllowed (hSound.admission.keep (hHolds.trans hHeld.symm))
    (hSound.closing.keep (hNext.trans hOut.symm)) ?_ ?_
  · show Gate _ _ (holder _ _ s.admission)
    rw [hSound.admission.holder_keep hHeld]
    exact hGate
  · show ContextCall.Holds _ _ (holder _ _ s.closing)
    rw [hSound.closing.holder_other hOut]
    exact hPass

/-- A thread that is not in a pass returns and drops the admission lock. -/
theorem Sound.drops {ctx : KernelContext ρ} (hSound : Sound trace s)
    (hAllowed : Allowed (historyOf trace) s.context action ctx)
    (hHeld : (s.calls t).holdsAdmission = true) (hOut : (s.calls t).inPass = false)
    (hReturned : ((historyOf trace).add action).pushed.zipIdx =
      ((historyOf trace).add action).registered)
    (hUnpoisoned : ctx.phase ≠ .running → ctx.poisoned = false)
    (hPass : (holder .idle s.calls s.closing).Holds ((historyOf trace).add action) ctx) :
    Sound (trace ++ [(t, action)])
      ⟨{ s.toShared with context := ctx, admission := none },
        Function.update s.calls t .idle⟩ := by
  refine hSound.snoc hAllowed (hSound.admission.release hHeld rfl)
    (hSound.closing.keep hOut.symm) ?_ ?_
  · refine ⟨?_, trivial, hUnpoisoned⟩
    rw [hReturned]
    exact (List.append_nil _).symm
  · show ContextCall.Holds _ _ (holder _ _ s.closing)
    rw [hSound.closing.holder_other hOut]
    exact hPass

section Passes

variable {reason : CancelReason} {deadline : Deadline} {position position' : Position}

/-- A pass takes the admission lock. -/
theorem Sound.passTakes (hSound : Sound trace s) (hFree : s.admission = none)
    (hStage : s.calls t = .pass reason deadline position) (hHolds : position'.holdsAdmission = true)
    (hFits : position' ≠ .barred → s.context.poisoned = false)
    (hPass : position.Holds (historyOf trace) s.context →
      position'.Holds (historyOf trace) s.context) :
    Sound (trace ++ [(t, .silent)])
      ⟨{ s.toShared with admission := some t },
        Function.update s.calls t (.pass reason deadline position')⟩ := by
  have hHeld : (s.calls t).inPass = true := by rw [hStage]; rfl
  have hGate := hSound.gate
  have hBefore := hSound.pass
  rw [hFree, holder_none] at hGate
  rw [hSound.closing.holder_eq hHeld, hStage] at hBefore
  refine hSound.snoc (.silent id) (hSound.admission.acquire hFree hHolds)
    (hSound.closing.keep hHeld.symm) ?_ ?_
  · rw [holder_some, Function.update_self]
    exact ⟨hGate.returned, fun _ => hFits, hGate.sound⟩
  · show ContextCall.Holds _ _ (holder _ _ s.closing)
    rw [hSound.closing.holder_keep hHeld]
    exact hPass hBefore

/-- A pass drops the admission lock. -/
theorem Sound.passDrops (hSound : Sound trace s)
    (hStage : s.calls t = .pass reason deadline position) (hHolds : position.holdsAdmission = true)
    (hOpen : position'.holdsAdmission = false)
    (hPass : position.Holds (historyOf trace) s.context →
      position'.Holds (historyOf trace) s.context) :
    Sound (trace ++ [(t, .silent)])
      ⟨{ s.toShared with admission := none },
        Function.update s.calls t (.pass reason deadline position')⟩ := by
  have hHeld : (s.calls t).inPass = true := by rw [hStage]; rfl
  have hGated : (s.calls t).holdsAdmission = true := by rw [hStage]; exact hHolds
  have hGate := hSound.gate
  have hBefore := hSound.pass
  rw [hSound.admission.holder_eq hGated, hStage] at hGate
  rw [hSound.closing.holder_eq hHeld, hStage] at hBefore
  refine hSound.snoc (.silent id) (hSound.admission.release hGated hOpen)
    (hSound.closing.keep hHeld.symm) ?_ ?_
  · exact ⟨hGate.returned, trivial, hGate.sound⟩
  · show ContextCall.Holds _ _ (holder _ _ s.closing)
    rw [hSound.closing.holder_keep hHeld]
    exact hPass hBefore

end Passes

/-- A registration under the admission lock. -/
theorem Gate.push {h : History ρ} {ctx ctx' : KernelContext ρ} {resource : ρ} {index : Nat}
    (hGate : Gate h ctx (.admitted (.resource resource))) (hFresh : Fresh h ctx)
    (hPush : ctx.registerNamed resource = (.ok index, ctx')) :
    Gate (h.add (.pushed resource)) ctx' (.registered resource index) ∧
      Fresh (h.add (.pushed resource)) ctx' := by
  obtain ⟨hIdle, hOpened⟩ := hFresh
  have hPushed := ctx.registerNamed_cases resource
  rw [hPush] at hPushed
  obtain ⟨rfl, rfl⟩ : index = ctx.resources.length ∧
      ctx' = { ctx with resources := ctx.resources ++ [resource] } := by
    rcases hPushed with ⟨failure, hFull⟩ | hPushed
    · cases (Prod.mk.inj hFull).1
    · obtain ⟨hIndex, hContext⟩ := Prod.mk.inj hPushed
      exact ⟨Except.ok.inj hIndex, hContext⟩
  refine ⟨⟨?_, hGate.fits.2, hGate.sound⟩, ⟨hIdle.phase, hIdle.fresh, ?_, hIdle.silent⟩,
    hOpened.frozen, hOpened.cleared, ?_⟩
  · show (h.pushed ++ [resource]).zipIdx = h.registered ++ [(resource, ctx.resources.length)]
    rw [List.zipIdx_append, hGate.returned, hOpened.registry]
    simp [ContextCall.unreturned]
  · show (ctx.resources ++ [resource]).length = (h.pushed ++ [resource]).length
    rw [hOpened.registry]
  · show ctx.resources ++ [resource] = h.pushed ++ [resource]
    rw [hOpened.registry]

/-- One step of any thread. -/
theorem Sound.act (hSound : Sound trace s) (hAct : Act t s.toShared (s.calls t) action shared next) :
    Sound (trace ++ [(t, action)]) ⟨shared, Function.update s.calls t next⟩ := by
  have hPass := hSound.pass
  have hGate : (s.calls t).holdsAdmission = true → Gate (historyOf trace) s.context (s.calls t) := by
    intro hHeld
    have hGate := hSound.gate
    rwa [hSound.admission.holder_eq hHeld] at hGate
  generalize hStage : s.calls t = stage at hAct hGate
  cases hAct with
  | call work =>
      exact hSound.bystander (.silent id) (by rw [hStage]; exact ⟨rfl, rfl⟩) ⟨rfl, rfl⟩ rfl
  | callClose reason deadline =>
      exact hSound.bystander (.silent id) (by rw [hStage]; exact ⟨rfl, rfl⟩) ⟨rfl, rfl⟩ rfl
  | closeBusy reason deadline other hBusy =>
      have hAllowed : Allowed (historyOf trace) s.context
          (.closed (.error (error .contextClosing))) s.context :=
        .same (fun h => by cases h) trivial (fun _ _ h => by cases h)
      exact hSound.bystander hAllowed (by rw [hStage]; exact ⟨rfl, rfl⟩) ⟨rfl, rfl⟩ rfl
  | lock work hFree hUnpoisoned =>
      exact hSound.takes hFree (by rw [hStage]; rfl) rfl rfl rfl hUnpoisoned
  | lockPoisoned work hFree hPoisoned =>
      have hRunning : s.context.phase = .running := by
        by_contra hOver
        rw [hSound.gate.sound hOver] at hPoisoned
        cases hPoisoned
      exact hSound.takes hFree (by rw [hStage]; rfl) rfl rfl rfl (Or.inl hRunning)
  | check work =>
      obtain ⟨hReturned, hFits, hUnpoisoned⟩ := hGate rfl
      cases hCheck : tryAdmit s.context.phase with
      | ok u =>
          have hRunning := running_of_tryAdmit hCheck
          exact hSound.stays
            (.running hRunning (fun h => by cases h) (fun _ _ h => by cases h))
            (by rw [hStage]; rfl) rfl (by rw [hStage]; rfl) rfl
            ⟨hReturned, ⟨hFits, hRunning⟩, hUnpoisoned⟩ hPass
      | error failure =>
          have hLate := late_of_tryAdmit hCheck
          have hAllowed : Allowed (historyOf trace) s.context (.phaseChecked (.error failure))
              s.context :=
            .same (fun h => by cases h) ⟨failure, rfl, hLate⟩ (fun _ _ h => by cases h)
          exact hSound.stays hAllowed (by rw [hStage]; rfl) rfl (by rw [hStage]; rfl) rfl
            ⟨hReturned, Or.inr hLate, hUnpoisoned⟩ hPass
  | push resource index ctx hPush =>
      have hHeld := hGate rfl
      have hRunning : s.context.phase = .running := hHeld.fits.2
      obtain ⟨hFresh, hKept⟩ := ContextCall.holds_running hPass hRunning
      obtain ⟨hNext, hFresh'⟩ := hHeld.push hFresh hPush
      exact hSound.stays (.running hRunning (fun h => by cases h) (fun _ _ h => by cases h))
        (by rw [hStage]; rfl) rfl (by rw [hStage]; rfl) rfl hNext (hKept _ _ hFresh')
  | full resource failure ctx hPush =>
      have hHeld := hGate rfl
      have hSame : ctx = s.context := by
        have hPushed := s.context.registerNamed_cases resource
        rw [hPush] at hPushed
        rcases hPushed with ⟨failure', hFull⟩ | hPushed
        · exact (Prod.mk.inj hFull).2
        · cases (Prod.mk.inj hPushed).1
      subst hSame
      exact hSound.stays (.silent id) (by rw [hStage]; rfl) rfl (by rw [hStage]; rfl) rfl
        ⟨hHeld.returned, Or.inl hHeld.fits.2, hHeld.sound⟩ hPass
  | publish =>
      have hHeld := hGate rfl
      exact hSound.stays (.running hHeld.fits.2 (fun h => by cases h) (fun _ _ h => by cases h))
        (by rw [hStage]; rfl) rfl (by rw [hStage]; rfl) rfl
        ⟨hHeld.returned, hHeld.fits, hHeld.sound⟩ hPass
  | release panics =>
      have hHeld := hGate rfl
      have hRunning : s.context.phase = .running := hHeld.fits.2
      obtain ⟨⟨hIdle, hOpened⟩, hKept⟩ := ContextCall.holds_running hPass hRunning
      refine hSound.drops (.running hRunning (fun h => by cases h) (fun _ _ h => by cases h))
        (by rw [hStage]; rfl) (by rw [hStage]; rfl) ?_ (fun hOver => absurd hRunning hOver) ?_
      · exact hHeld.returned.trans (List.append_nil _)
      · exact hKept _ _ ⟨⟨hIdle.phase, hIdle.fresh, hIdle.registry, hIdle.silent⟩,
          hOpened.frozen, hOpened.cleared, hOpened.registry⟩
  | returnRegistered resource index =>
      have hHeld := hGate rfl
      have hRunning : s.context.phase = .running := hHeld.fits
      obtain ⟨hFresh, hKept⟩ := ContextCall.holds_running hPass hRunning
      exact hSound.drops (.running hRunning (fun h => by cases h) (fun _ _ h => by cases h))
        (by rw [hStage]; rfl) (by rw [hStage]; rfl) hHeld.returned hHeld.sound
        (hKept _ _ ⟨hFresh.idle, hFresh.opened.frozen, hFresh.opened.cleared, hFresh.opened.registry⟩)
  | returnFailed work failure =>
      have hHeld := hGate rfl
      have hAllowed : Allowed (historyOf trace) s.context (.failed work failure) s.context := by
        refine ⟨fun hRunning => ⟨hRunning, fun h => by cases h⟩, fun hOver => ?_,
          fun _ _ h => by cases h⟩
        exact hHeld.fits.resolve_left hOver
      exact hSound.drops hAllowed (by rw [hStage]; rfl) (by rw [hStage]; rfl)
        (hHeld.returned.trans (List.append_nil _)) hHeld.sound hPass
  | closeEnter reason deadline hFree =>
      have hOut : (s.calls t).holdsAdmission = false := by rw [hStage]; rfl
      rw [hFree, holder_none] at hPass
      refine hSound.snoc (.silent id) (hSound.admission.keep hOut.symm)
        (hSound.closing.acquire hFree rfl) ?_ ?_
      · show Gate _ _ (holder _ _ s.admission)
        rw [hSound.admission.holder_other hOut]
        exact hSound.gate
      · rw [holder_some, Function.update_self]
        exact hPass
  | returnClosed reason deadline reply =>
      have hOut : (s.calls t).holdsAdmission = false := by rw [hStage]; rfl
      have hHeld : (s.calls t).inPass = true := by rw [hStage]; rfl
      rw [hSound.closing.holder_eq hHeld, hStage] at hPass
      refine hSound.snoc (.same (fun h => by cases h) trivial (fun _ _ h => by cases h))
        (hSound.admission.keep hOut.symm) (hSound.closing.release hHeld rfl) ?_ hPass
      show Gate _ _ (holder _ _ s.admission)
      rw [hSound.admission.holder_other hOut]
      exact hSound.gate
  | gate reason deadline hFree hUnpoisoned =>
      exact hSound.passTakes hFree hStage rfl (fun _ => hUnpoisoned) id
  | gatePoisoned reason deadline hFree hPoisoned =>
      exact hSound.passTakes hFree hStage rfl (fun hBarred => absurd rfl hBarred) id
  | bar reason deadline => exact hSound.passDrops hStage rfl rfl .fresh
  | ungate reason deadline => exact hSound.passDrops hStage rfl rfl id
  | drive reason deadline position action ctx position' hStep =>
      have hHeld : (s.calls t).inPass = true := by rw [hStage]; rfl
      rw [hSound.closing.holder_eq hHeld, hStage] at hPass
      obtain ⟨hAllowed, hOpen⟩ := hStep.allowed hPass
      have hLock : (ContextCall.pass reason deadline position' : ContextCall ρ).holdsAdmission =
          (s.calls t).holdsAdmission := by
        rw [hStage]
        exact hStep.keeps_lock
      refine hSound.snoc hAllowed (hSound.admission.keep hLock)
        (hSound.closing.keep hHeld.symm) ?_ ?_
      · show Gate _ _ (holder _ _ s.admission)
        by_cases hGated : (s.calls t).holdsAdmission = true
        · rw [hSound.admission.holder_keep hGated]
          rw [hStage] at hGated
          exact (hGate hGated).drive hGated hStep
        · rw [Bool.not_eq_true] at hGated
          rw [hSound.admission.holder_other hGated]
          rw [hStage] at hGated
          exact hSound.gate.frame hStep.pushed.1 hStep.pushed.2 hStep.poisoned
            ⟨fun hRunning => (hAllowed.phase hRunning).1, hOpen hGated⟩
      · show ContextCall.Holds _ _ (holder _ _ s.closing)
        rw [hSound.closing.holder_keep hHeld]
        exact hStep.holds hPass

end Step

theorem Sound.of_run {maxHandles : Nat} {quiesceDeadline : Deadline}
    {trace : List (Nat × Action ρ)} {s : System ρ}
    (run : Run System.Step (System.create maxHandles quiesceDeadline) trace s) : Sound trace s := by
  apply run.invariant Sound
  · exact
      { admission := owned_free fun _ => rfl
        closing := owned_free fun _ => rfl
        gate := ⟨rfl, trivial, fun _ => rfl⟩
        pass := .fresh ⟨⟨rfl, rfl, rfl, rfl⟩, rfl, rfl, rfl⟩
        named := fun _ _ hMem => absurd hMem List.not_mem_nil
        began := fun _ hMem => absurd hMem List.not_mem_nil
        late := fun _ _ _ hTrace => by simp at hTrace }
  · rintro trace s label s' hSound ⟨t, action, shared, next, hAct⟩
    exact hSound.act hAct

end Kernel

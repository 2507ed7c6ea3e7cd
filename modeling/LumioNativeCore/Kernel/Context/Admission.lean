import LumioNativeCore.Kernel.Context.Linearization

/-! Admission and close have one linearization point and lose nothing. -/
namespace Kernel

open Concurrent KernelContext Transition

variable {ρ : Type}

/-! Readings of the invariant. -/

section Readings

variable {h : History ρ} {ctx : KernelContext ρ}

theorem mem_reading {α : Type} {trace : List (Nat × Action ρ)} {read : Action ρ → Option α}
    {a : α} {action : Action ρ} (hRead : ∀ other, read other = some a ↔ other = action) :
    (a ∈ trace.filterMap fun label => read label.2) ↔ ∃ t, (t, action) ∈ trace := by
  rw [List.mem_filterMap]
  constructor
  · rintro ⟨⟨t, other⟩, hMem, hOther⟩
    rw [(hRead other).mp hOther] at hMem
    exact ⟨t, hMem⟩
  · rintro ⟨t, hMem⟩
    exact ⟨_, hMem, (hRead action).mpr rfl⟩

theorem mem_called {trace : List (Nat × Action ρ)} {resource : ρ} {event : CallbackEvent} :
    (resource, event) ∈ (historyOf trace).called ↔ ∃ t, (t, .callback resource event) ∈ trace :=
  mem_reading fun other => by cases other <;> simp [Action.callback?]

theorem mem_registered {trace : List (Nat × Action ρ)} {resource : ρ} {index : Nat} :
    (resource, index) ∈ (historyOf trace).registered ↔
      ∃ t, (t, .registered resource index) ∈ trace :=
  mem_reading fun other => by cases other <;> simp [Action.registered?]

theorem mem_frozen {trace : List (Nat × Action ρ)} {resources : List ρ} :
    resources ∈ (historyOf trace).frozen ↔ ∃ t, (t, .froze resources) ∈ trace :=
  mem_reading fun other => by cases other <;> simp [Action.froze?]

theorem mem_cleared {trace : List (Nat × Action ρ)} {resources : List ρ} :
    resources ∈ (historyOf trace).cleared ↔ ∃ t, (t, .cleared resources) ∈ trace :=
  mem_reading fun other => by cases other <;> simp [Action.cleared?]

/-- The registry has not been dropped, or every resource was destroyed before. -/
inductive Outcome (h : History ρ) (ctx : KernelContext ρ) : Prop where
  | kept (hFrozen : h.frozen = [] ∨ h.frozen = [h.pushed]) (hCleared : h.cleared = [])
      (hPhase : ctx.phase ≠ .closed)
  | dropped (hDropped : Dropped h) (hLegal : LegalLog h.pushed.length h.log)
      (hDestroyed : ∀ index < h.pushed.length, .destroy index (some (.ok ())) ∈ h.log)

theorem Fresh.outcome (hFresh : Fresh h ctx) : Outcome h ctx := by
  apply Outcome.kept (Or.inl hFresh.opened.frozen) hFresh.opened.cleared
  rw [hFresh.idle.phase]
  intro hPhase
  cases hPhase

theorem Frozen.outcome (hFrozen : Frozen h ctx) (hPhase : ctx.phase = .quiescing) :
    Outcome h ctx := by
  apply Outcome.kept (Or.inr hFrozen.frozen) hFrozen.cleared
  rw [hPhase]
  intro hPhase
  cases hPhase

theorem Busy.outcome (hBusy : Busy h ctx) : Outcome h ctx :=
  hBusy.frozen.outcome hBusy.steady.phase

theorem AtRest.outcome (hRest : AtRest h ctx) : Outcome h ctx := by
  cases hRest with
  | fresh hFresh => exact hFresh.outcome
  | waiting hBusy => exact hBusy.outcome
  | stuck failure hStuck hFrozen => exact hFrozen.outcome hStuck.phase
  | done hDone hDropped => exact .dropped hDropped hDone.legal hDone.destroyed

theorem Emptied.outcome {phase : ContextPhase} (hEmptied : Emptied h ctx phase) : Outcome h ctx :=
  .dropped hEmptied.dropped hEmptied.legal hEmptied.destroyed

theorem Position.outcome {position : Position} (hHolds : position.Holds h ctx) : Outcome h ctx := by
  cases position with
  | holding => exact AtRest.outcome hHolds
  | answering reply => exact AtRest.outcome hHolds
  | waiting => exact Fresh.outcome hHolds
  | barred => exact Fresh.outcome hHolds
  | gated => exact Fresh.outcome hHolds
  | begun =>
      obtain ⟨hPhase, -, -, hOpened⟩ := hHolds
      apply Outcome.kept (Or.inl hOpened.frozen) hOpened.cleared
      rw [hPhase]
      intro hClosed
      cases hClosed
  | frozen => exact Busy.outcome hHolds
  | cancelling => exact Busy.outcome hHolds
  | inCancel => exact hHolds.1.outcome
  | quiescing index => exact hHolds.1.outcome
  | inQuiesce index => exact hHolds.1.outcome
  | settling => exact hHolds.1.outcome
  | destroying => exact hHolds.1.outcome
  | inDestroy => exact hHolds.1.outcome
  | clearing => exact hHolds.1.outcome
  | marking => exact Emptied.outcome hHolds
  | reporting => exact Emptied.outcome hHolds

theorem ContextCall.outcome {call : ContextCall ρ} (hHolds : call.Holds h ctx) : Outcome h ctx := by
  cases call with
  | pass reason deadline position => exact Position.outcome hHolds
  | _ => exact AtRest.outcome hHolds

/-- A resource that was destroyed had been asked to cancel. -/
theorem LegalLog.confirmed {total : Nat} {log : List CallbackEvent} (h : LegalLog total log)
    {index : Nat} {value : Option (Except KernelError Unit)}
    (hMem : .destroy index value ∈ log) :
    ∀ other < total, .cancelRequested other (some ()) ∈ log := by
  intro other hOther
  obtain ⟨before, after, rfl⟩ := List.append_of_mem hMem
  have hQuiet := ((h before _ after rfl).destroy index value rfl).2.1 other hOther
  obtain ⟨earlier, rest, rfl⟩ := List.append_of_mem hQuiet
  have hLegal := h earlier _ (rest ++ .destroy index value :: after) (by simp; rfl)
  have hCancelled := (hLegal.quiesce other _ rfl).2.1 other hOther
  simp [hCancelled]

end Readings

namespace Sound

variable {trace : List (Nat × Action ρ)} {s : System ρ}

theorem registered_pushed (hSound : Sound trace s) {t : Nat} {resource : ρ} {index : Nat}
    (hMem : (t, .registered resource index) ∈ trace) :
    (historyOf trace).pushed[index]? = some resource := by
  rw [← List.mk_mem_zipIdx_iff_getElem?, hSound.gate.returned]
  exact List.mem_append_left _ (mem_registered.mpr ⟨t, hMem⟩)

theorem called_of_log (hSound : Sound trace s) {resource : ρ} {event : CallbackEvent}
    (hResource : (historyOf trace).pushed[event.index]? = some resource)
    (hLog : event ∈ (historyOf trace).log) : ∃ t, (t, .callback resource event) ∈ trace := by
  obtain ⟨⟨other, event'⟩, hMem, rfl⟩ := List.mem_map.mp hLog
  have hOther := hSound.named other event' hMem
  rw [hResource] at hOther
  rw [Option.some.inj hOther]
  exact mem_called.mp hMem

/-- The frozen resources are the registrations that returned, at the indices they returned. -/
theorem frozen_eq (hSound : Sound trace s) {t : Nat} {frozen : List ρ}
    (hMem : (t, .froze frozen) ∈ trace) : frozen.zipIdx = (historyOf trace).registered := by
  have hFrozen := mem_frozen.mpr ⟨t, hMem⟩
  have hPhase : s.context.phase ≠ .running := by
    intro hRunning
    have hFresh := (ContextCall.holds_running hSound.pass hRunning).1
    rw [hFresh.opened.frozen] at hFrozen
    cases hFrozen
  have hReturned := hSound.gate.returned
  have hNone : (holder .idle s.calls s.admission).unreturned = [] := by
    have hFits := hSound.gate.fits
    cases hCall : holder .idle s.calls s.admission with
    | registered resource index =>
        rw [hCall] at hFits
        exact absurd hFits hPhase
    | _ => rfl
  rw [hNone, List.append_nil] at hReturned
  cases ContextCall.outcome hSound.pass with
  | kept hKept =>
      rcases hKept with hNil | hOne
      · rw [hNil] at hFrozen
        cases hFrozen
      · rw [hOne] at hFrozen
        rw [List.mem_singleton.mp hFrozen, hReturned]
  | dropped hDropped =>
      rw [hDropped.frozen] at hFrozen
      rw [List.mem_singleton.mp hFrozen, hReturned]

theorem closed_called (hSound : Sound trace s) (hPhase : s.context.phase = .closed) {t : Nat}
    {resource : ρ} {index : Nat} (hMem : (t, .registered resource index) ∈ trace) :
    (∃ t', (t', .callback resource (.cancelRequested index (some ()))) ∈ trace) ∧
      ∃ t', (t', .callback resource (.destroy index (some (.ok ())))) ∈ trace := by
  have hPushed := hSound.registered_pushed hMem
  obtain ⟨hIndex, -⟩ := List.getElem?_eq_some_iff.mp hPushed
  cases ContextCall.outcome hSound.pass with
  | kept hFrozen hCleared hOpen => exact absurd hPhase hOpen
  | dropped hDropped hLegal hDestroyed =>
      have hDestroy := hDestroyed index hIndex
      have hCancel := hLegal.confirmed hDestroy index hIndex
      exact ⟨hSound.called_of_log hPushed hCancel, hSound.called_of_log hPushed hDestroy⟩

/-- What is dropped was frozen. -/
theorem cleared_frozen (hSound : Sound trace s) {t : Nat} {dropped : List ρ}
    (hMem : (t, .cleared dropped) ∈ trace) :
    (historyOf trace).cleared.length = 1 ∧ ∃ t', (t', .froze dropped) ∈ trace := by
  have hCleared := mem_cleared.mpr ⟨t, hMem⟩
  cases ContextCall.outcome hSound.pass with
  | kept hFrozen hNone =>
      rw [hNone] at hCleared
      cases hCleared
  | dropped hDropped =>
      rw [hDropped.cleared] at hCleared ⊢
      refine ⟨rfl, mem_frozen.mp ?_⟩
      rw [hDropped.frozen]
      exact hCleared

end Sound

/-- A close that finds a pass running returns at once. -/
theorem System.close_busy {s s' : System ρ} {trace : List (Nat × Action ρ)} (hSound : Sound trace s)
    {t t' : Nat} {reason : CancelReason} {deadline : Deadline} {action : Action ρ}
    (hStage : s.calls t = .close reason deadline) (hPass : (s.calls t').inPass = true)
    (hStep : System.Step s (t, action) s') :
    action = .closed (.error (error .contextClosing)) ∧
      s' = ⟨s.toShared, Function.update s.calls t .idle⟩ := by
  have hBusy := (hSound.closing t').mp hPass
  cases hStep with
  | act _ _ shared next hAct =>
      rw [hStage] at hAct
      cases hAct with
      | closeBusy => exact ⟨rfl, rfl⟩
      | closeEnter _ _ hFree =>
          rw [hFree] at hBusy
          cases hBusy

/-- Callbacks are made by the pass alone. -/
theorem System.callback_inPass {s s' : System ρ} {t : Nat} {resource : ρ} {event : CallbackEvent}
    (hStep : System.Step s (t, .callback resource event) s') : (s.calls t).inPass = true := by
  generalize hLabel : (t, Action.callback resource event) = label at hStep
  cases hStep with
  | act t' action shared next hAct =>
      obtain ⟨rfl, rfl⟩ := Prod.mk.inj hLabel
      generalize hStage : s.calls t = stage at hAct
      generalize hAction : Action.callback resource event = action at hAct
      cases hAct with
      | drive => rfl
      | _ => cases hAction

/-- Admission and close over every interleaving: what was registered is what is
frozen, and is cancelled and destroyed before the context is closed; no phase check
after the phase change succeeds, and nothing is published after it; what is dropped
is what was frozen, once; and one pass runs at a time. -/
theorem System.admission_linearized {maxHandles : Nat} {quiesceDeadline : Deadline}
    {trace : List (Nat × Action ρ)} {s : System ρ}
    (run : Run System.Step (System.create maxHandles quiesceDeadline) trace s) :
    (∀ t frozen, (t, .froze frozen) ∈ trace → frozen.zipIdx = (historyOf trace).registered) ∧
    (s.context.phase = .closed → ∀ t resource index, (t, .registered resource index) ∈ trace →
      (∃ t', (t', .callback resource (.cancelRequested index (some ()))) ∈ trace) ∧
        ∃ t', (t', .callback resource (.destroy index (some (.ok ())))) ∈ trace) ∧
    (∀ before t after, trace = before ++ (t, .beganClose) :: after →
      ∀ label ∈ after, label.2.AfterClose) ∧
    (∀ before t dropped after, trace = before ++ (t, .cleared dropped) :: after →
      (∃ t', (t', .froze dropped) ∈ before) ∧ ∀ t' dropped', (t', .cleared dropped') ∉ after) ∧
    (∀ t t', (s.calls t).inPass = true → (s.calls t').inPass = true → t = t') ∧
    (∀ t t' reason deadline action s', s.calls t = .close reason deadline →
      (s.calls t').inPass = true → System.Step s (t, action) s' →
        action = .closed (.error (error .contextClosing)) ∧
          s' = ⟨s.toShared, Function.update s.calls t .idle⟩) ∧
    ∀ t resource event s', System.Step s (t, .callback resource event) s' →
      (s.calls t).inPass = true := by
  have hSound := Sound.of_run run
  refine ⟨fun _ _ => hSound.frozen_eq, fun hPhase _ _ _ => hSound.closed_called hPhase,
    hSound.late, ?_, fun _ _ => hSound.closing.unique,
    fun _ _ _ _ _ _ hStage hPass => System.close_busy hSound hStage hPass,
    fun _ _ _ _ => System.callback_inPass⟩
  rintro before t dropped after rfl
  constructor
  · rw [← List.singleton_append, ← List.append_assoc] at run
    obtain ⟨s', hBefore, -⟩ := run.split
    have hLast : (t, .cleared dropped) ∈ before ++ [(t, .cleared dropped)] :=
      List.mem_append_right _ (List.mem_singleton_self _)
    obtain ⟨-, t', hFroze⟩ := (Sound.of_run hBefore).cleared_frozen hLast
    rcases List.mem_append.mp hFroze with hOld | hNew
    · exact ⟨t', hOld⟩
    · cases List.mem_singleton.mp hNew
  · intro t' dropped' hMem
    have hSplit : (historyOf (before ++ (t, .cleared dropped) :: after)).cleared =
        (historyOf before).cleared ++ dropped :: (historyOf after).cleared := by
      simp [historyOf, Action.cleared?]
    have hHere : (t, .cleared dropped) ∈ before ++ (t, .cleared dropped) :: after :=
      List.mem_append_right _ List.mem_cons_self
    have hOnce := (hSound.cleared_frozen hHere).1
    have hLater := List.length_pos_of_mem (mem_cleared.mpr ⟨t', hMem⟩)
    rw [hSplit, List.length_append, List.length_cons] at hOnce
    omega

/-- A registration that is admitted before a close and pushes after it has been called. -/
def race : List (Nat × Action Unit) :=
  [(0, .silent), (0, .silent), (0, .phaseChecked (.ok ())), (1, .silent), (1, .silent), (1, .silent),
    (0, .pushed ()), (0, .registered () 0), (1, .silent), (1, .beganClose), (1, .froze [()])]

theorem race_runs : ∃ s, Run System.Step (System.create 1 .none) race s := by
  have hCalled : Run System.Step (System.create 1 .none) _ _ :=
    .snoc (.snoc (.snoc (.nil (System.create 1 .none))
      (.act _ 0 _ _ _ (.call _ (.resource ()))))
      (.act _ 0 _ _ _ (.lock _ _ rfl rfl)))
      (.act _ 0 _ _ _ (.check _ _))
  have hClosing := Run.snoc (.snoc (.snoc hCalled
    (.act _ 1 _ _ _ (.callClose _ .contextClosing .none)))
    (.act _ 1 _ _ _ (.closeEnter _ _ _ rfl)))
    (.act _ 1 _ _ _ (.drive _ _ _ _ _ _ _ (.first _ rfl rfl)))
  have hPushed := Run.snoc (.snoc hClosing
    (.act _ 0 _ _ _ (.push _ () 0 _ rfl)))
    (.act _ 0 _ _ _ (.returnRegistered _ _ _))
  have hFrozen := Run.snoc (.snoc (.snoc hPushed
    (.act _ 1 _ _ _ (.gate _ _ _ rfl rfl)))
    (.act _ 1 _ _ _ (.drive _ _ _ _ _ _ _ (.beginClose _))))
    (.act _ 1 _ _ _ (.drive _ _ _ _ _ _ _ (.freeze _)))
  exact ⟨_, hFrozen⟩

/-- The pass freezes the resource that was pushed behind its back. -/
theorem System.admission_linearized_race : [()].zipIdx = (historyOf race).registered := by
  obtain ⟨s, run⟩ := race_runs
  exact (System.admission_linearized run).1 1 [()] (by simp [race])

end Kernel

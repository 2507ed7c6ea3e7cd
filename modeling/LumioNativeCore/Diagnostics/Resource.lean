import LumioNativeCore.Diagnostics.Recorder

/-! The recorder of a context (`resource.rs`): a producer looks at the closed flag and records
afterwards. -/
namespace Diagnostics

open Kernel Transition

/-- `checking` are the records of the calls that have not looked at the flag yet. -/
structure DiagnosticsResource where
  recorder : BoundedRecorder
  closed : Bool
  checking : List KernelRecordRef

inductive ResourceEvent where
  | begin
  | passed
  | refused (disposition : RecordDisposition)
  | within (event : RecorderEvent)
  | destroyed

namespace ResourceEvent

def isPassed : ResourceEvent → Bool
  | passed => true
  | _ => false

/-- An attempt to record something, also one that panics. -/
def isAttempt : ResourceEvent → Bool
  | within (.attempted _ _) => true
  | within (.panicked _) => true
  | _ => false

end ResourceEvent

/-- The events of `try_record`. -/
def RecorderEvent.isProducer : RecorderEvent → Bool
  | attempted _ _ => true
  | panicked _ => true
  | counted => true
  | returned _ => true
  | _ => false

def RecorderCall.isRecording : RecorderCall → Bool
  | recording _ => true
  | _ => false

namespace DiagnosticsResource

def new (recorder : BoundedRecorder) : DiagnosticsResource := ⟨recorder, false, []⟩

/-- The steps of all producers and of the context. The resource owns its recorder and lets
nobody drain it. -/
inductive Step : DiagnosticsResource → ResourceEvent → DiagnosticsResource → Prop where
  | begin (resource : DiagnosticsResource) (r : KernelRecordRef) :
      Step resource .begin { resource with checking := resource.checking ++ [r] }
  | pass {resource : DiagnosticsResource} {before after : List KernelRecordRef}
      {r : KernelRecordRef} (hChecking : resource.checking = before ++ r :: after)
      (hOpen : resource.closed = false) :
      Step resource .passed
        { resource with
          recorder :=
            { resource.recorder with calls := resource.recorder.calls ++ [.recording r] }
          checking := before ++ after }
  | refuse {resource : DiagnosticsResource} {before after : List KernelRecordRef}
      {r : KernelRecordRef} (hChecking : resource.checking = before ++ r :: after)
      (hClosed : resource.closed = true) :
      Step resource (.refused .droppedFull) { resource with checking := before ++ after }
  | within {resource : DiagnosticsResource} {event : RecorderEvent} {recorder : BoundedRecorder}
      (hProducer : event.isProducer = true)
      (hStep : BoundedRecorder.Step resource.recorder event recorder) :
      Step resource (.within event) { resource with recorder := recorder }
  | destroy (resource : DiagnosticsResource) :
      Step resource .destroyed { resource with closed := true }

variable {resource resource' : DiagnosticsResource} {event : ResourceEvent}

/-- The producers that are past the flag. -/
def pending (resource : DiagnosticsResource) : Nat :=
  resource.recorder.calls.countP RecorderCall.isRecording

theorem recorder_pending {recorder recorder' : BoundedRecorder} {event : RecorderEvent}
    (hStep : BoundedRecorder.Step recorder event recorder') (hProducer : event.isProducer = true) :
    recorder'.calls.countP RecorderCall.isRecording +
        (if (ResourceEvent.within event).isAttempt then 1 else 0) =
      recorder.calls.countP RecorderCall.isRecording := by
  cases hStep with
  | @attempt before after r found stage queue hCalls hAttempt =>
      have hLater : stage.isRecording = false := by
        rcases BoundedRecorder.attempt_stage hAttempt with ⟨-, rfl⟩ | ⟨-, rfl⟩ | ⟨-, rfl⟩
        · rfl
        · rfl
        · rfl
      rw [hCalls, List.countP_append, List.countP_append, List.countP_cons, List.countP_cons, hLater]
      rfl
  | panic hCalls =>
      rw [hCalls, List.countP_append, List.countP_append, List.countP_cons]
      rfl
  | count hCalls => simp [hCalls, RecorderCall.isRecording, ResourceEvent.isAttempt]
  | «return» hCalls => simp [hCalls, RecorderCall.isRecording, ResourceEvent.isAttempt]
  | _ => cases hProducer

/-- Every attempt is one of a producer that passed the flag. -/
theorem Step.pending (hStep : Step resource event resource') :
    resource'.pending + (if event.isAttempt then 1 else 0) =
      resource.pending + (if event.isPassed then 1 else 0) := by
  cases hStep with
  | pass hChecking hOpen =>
      simp [DiagnosticsResource.pending, RecorderCall.isRecording, ResourceEvent.isAttempt,
        ResourceEvent.isPassed]
  | within hProducer hRecorder => exact recorder_pending hRecorder hProducer
  | _ => rfl

/-- What passed and has not been attempted is pending. -/
theorem pending_of_run {trace : List ResourceEvent} (run : Run Step resource trace resource') :
    resource'.pending + trace.countP ResourceEvent.isAttempt =
      resource.pending + trace.countP ResourceEvent.isPassed := by
  refine run.invariant (fun trace resource' =>
    resource'.pending + trace.countP ResourceEvent.isAttempt =
      resource.pending + trace.countP ResourceEvent.isPassed) rfl ?_
  intro trace middle event next hCount hStep
  have hPending := hStep.pending
  rw [List.countP_append, List.countP_append, List.countP_singleton, List.countP_singleton]
  omega

theorem Step.closed (hStep : Step resource event resource') (h : resource.closed = true) :
    resource'.closed = true ∧ event ≠ .passed := by
  cases hStep with
  | pass hChecking hOpen =>
      rw [hOpen] at h
      cases h
  | begin => exact ⟨h, nofun⟩
  | refuse => exact ⟨h, nofun⟩
  | within => exact ⟨h, nofun⟩
  | destroy => exact ⟨rfl, nofun⟩

theorem closed_run {trace : List ResourceEvent} (run : Run Step resource trace resource')
    (h : resource.closed = true) : resource'.closed = true ∧ .passed ∉ trace := by
  refine run.invariant (fun trace resource' => resource'.closed = true ∧ .passed ∉ trace)
    ⟨h, List.not_mem_nil⟩ ?_
  intro trace middle event next ⟨hClosed, hNone⟩ hStep
  obtain ⟨hStill, hEvent⟩ := hStep.closed hClosed
  refine ⟨hStill, fun hMem => ?_⟩
  rcases List.mem_append.mp hMem with hOld | hNew
  · exact hNone hOld
  · exact hEvent (List.mem_singleton.mp hNew).symm

theorem passed_mem_of_countP {trace : List ResourceEvent}
    (h : trace.countP ResourceEvent.isPassed ≠ 0) : .passed ∈ trace := by
  obtain ⟨event, hMem, hPassed⟩ := List.countP_pos_iff.mp (Nat.pos_of_ne_zero h)
  cases event with
  | passed => exact hMem
  | _ => cases hPassed

/-- The queue only changes at an attempt. -/
theorem Step.queue (hStep : Step resource event resource') (hAttempt : event.isAttempt = false) :
    resource'.recorder.queue = resource.recorder.queue := by
  cases hStep with
  | within hProducer hRecorder =>
      cases hRecorder with
      | attempt => cases hAttempt
      | panic => cases hAttempt
      | @count before after accepted hCalls => cases accepted <;> rfl
      | «return» => rfl
      | _ => cases hProducer
  | _ => rfl

theorem queue_run {trace : List ResourceEvent} (run : Run Step resource trace resource')
    (hNone : trace.countP ResourceEvent.isAttempt = 0) :
    resource'.recorder.queue = resource.recorder.queue := by
  rw [List.countP_eq_zero] at hNone
  induction run with
  | nil => rfl
  | snoc prior last ih =>
      obtain ⟨hPrior, hLast⟩ := List.forall_mem_append.mp hNone
      have hQuiet := Bool.eq_false_of_not_eq_true (hLast _ (List.mem_singleton_self _))
      exact (last.queue hQuiet).trans (ih hPrior)

/-- After the resource was destroyed no producer passes the flag: what is still attempted are
records of producers that had passed it before, each once, and if there are none the queue
stays as it is. -/
theorem late_records {recorder : BoundedRecorder} (hOwned : recorder.calls = [])
    {before after : List ResourceEvent} {middle : DiagnosticsResource}
    (hBefore : Run Step (new recorder) before middle)
    (hAfter : Run Step middle (.destroyed :: after) resource) :
    .passed ∉ after ∧
    before.countP ResourceEvent.isAttempt + after.countP ResourceEvent.isAttempt ≤
      before.countP ResourceEvent.isPassed ∧
    (before.countP ResourceEvent.isAttempt = before.countP ResourceEvent.isPassed →
      resource.recorder.queue = middle.recorder.queue) := by
  obtain ⟨second, hDestroy, hLater⟩ := hAfter.uncons
  have hClosed : second.closed = true := by
    cases hDestroy with
    | destroy => rfl
  have hNone := (closed_run hLater hClosed).2
  have hPassed : after.countP ResourceEvent.isPassed = 0 := by
    by_contra hSome
    exact hNone (passed_mem_of_countP hSome)
  have hFirst := pending_of_run hBefore
  have hRest := pending_of_run hAfter
  have hStart : (new recorder).pending = 0 := by
    rw [DiagnosticsResource.pending, new, hOwned, List.countP_nil]
  have hAttempts : (ResourceEvent.destroyed :: after).countP ResourceEvent.isAttempt =
      after.countP ResourceEvent.isAttempt := List.countP_cons_of_neg nofun
  have hPasses : (ResourceEvent.destroyed :: after).countP ResourceEvent.isPassed =
      after.countP ResourceEvent.isPassed := List.countP_cons_of_neg nofun
  refine ⟨hNone, by omega, fun hEven => ?_⟩
  exact queue_run hAfter (by omega)

/-- A producer that passed the flag in time records afterwards. -/
theorem late_records_one :
    ∃ resource trace, Run Step ⟨⟨⟨[], 1⟩, 32, 0, 0, [.recording ⟨[], [1]⟩]⟩, false, []⟩
        (.destroyed :: trace) resource ∧
      resource.recorder.queue.records.length = 1 ∧ trace.countP ResourceEvent.isAttempt ≤ 1 := by
  have hBefore : Run Step (new ⟨⟨[], 1⟩, 32, 0, 0, []⟩) _ _ := Run.snoc (Run.snoc (Run.nil _)
    (.begin _ ⟨[], [1]⟩)) (@Step.pass _ [] [] _ rfl rfl)
  have hAfter : Run Step ⟨⟨⟨[], 1⟩, 32, 0, 0, [.recording ⟨[], [1]⟩]⟩, false, []⟩ _ _ :=
    Run.snoc (Run.snoc (Run.nil _) (.destroy _))
      (.within rfl (@BoundedRecorder.Step.attempt _ [] [] ⟨[], [1]⟩ _ _ _ rfl rfl))
  obtain ⟨-, hAttempts, -⟩ := late_records rfl hBefore hAfter
  exact ⟨_, _, hAfter, rfl, hAttempts⟩

end DiagnosticsResource
end Diagnostics

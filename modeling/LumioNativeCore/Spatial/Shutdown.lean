import LumioNativeCore.Spatial.Resource

/-! Quiescence and destruction of the index are final. The check under the lock is what makes
them so: once a writer has found the lock free with `closing` set, no call gets past it. -/
namespace Spatial

open Kernel (KernelError ErrorCategory QuiesceState error)
open Concurrent Transition

def Outcome.category : Outcome → Option ErrorCategory
  | .upserted (.error failure) => some failure.category
  | .queried (.error failure) _ => some failure.category
  | _ => none

/-- The operation has failed because of the closing. -/
def Outcome.Closed (outcome : Outcome) : Prop :=
  outcome.category = some .contextClosing ∨ outcome.category = some .contextDestroyed

/-- Whatever a call returns after this event of its own has failed because of the closing. -/
def ReturnsClosed (entry : ResourceEvent) (trace : List (Nat × ResourceEvent)) : Prop :=
  ∀ before call middle outcome later,
    trace = before ++ (call, entry) :: (middle ++ (call, .returned outcome) :: later) →
    (∀ earlier, (call, .returned earlier) ∉ middle) → outcome.Closed

namespace SpatialResource

/-- From here on no operation that acquires the lock succeeds, and nothing but a destroy
changes the index. -/
def Quiet {S : Type} (backend : SpatialIndexBackend S) (r : SpatialResource S) : Prop :=
  ∀ after r', Run (Step backend) r after r' → ReturnsClosed .acquired after ∧
    ∀ label r'', Step backend r' label r'' → label.2 ≠ .taken → r''.inner = r'.inner

/-- From here on the index is absent, and no operation that looks at the flags or acquires the
lock succeeds. -/
def Gone {S : Type} (backend : SpatialIndexBackend S) (r : SpatialResource S) : Prop :=
  ∀ after r', Run (Step backend) r after r' →
    r'.inner = none ∧ ReturnsClosed .acquired after ∧ ReturnsClosed (.looked false) after

variable {S : Type} {backend : SpatialIndexBackend S} {r r' : SpatialResource S} {call : Nat}
  {event : ResourceEvent} {label : Nat × ResourceEvent}

/-- No call works on the index, and none will. -/
structure Shut (r : SpatialResource S) : Prop where
  closing : r.closing = true
  unpoisoned : r.poisoned = false
  quiet : ∀ call operation, r.calls call ≠ .operate operation

theorem Shut.setCall (h : r.Shut) (call : Nat) {next : ResourceCall}
    (hNext : ∀ operation, next ≠ .operate operation) : (r.setCall call next).Shut where
  closing := h.closing
  unpoisoned := h.unpoisoned
  quiet other operation := by
    show Function.update r.calls call next other ≠ _
    by_cases hSame : other = call
    · rw [hSame, Function.update_self]
      exact hNext operation
    · rw [Function.update_of_ne hSame]
      exact h.quiet other operation

/-- The index, the lock and the destroyed flag do not matter. -/
theorem Shut.congr (h : r.Shut) (hClosing : r'.closing = true) (hSound : r'.poisoned = r.poisoned)
    (hCalls : r'.calls = r.calls) : r'.Shut where
  closing := hClosing
  unpoisoned := hSound.trans h.unpoisoned
  quiet := by
    rw [hCalls]
    exact h.quiet

theorem Shut.acquire (h : r.Shut) (call : Nat) (mode : Mode) : (r.acquire call mode).Shut :=
  h.congr h.closing rfl rfl

theorem Shut.release (h : r.Shut) (call : Nat) (mode : Mode) : (r.release call mode).Shut :=
  h.congr h.closing rfl rfl

theorem refuse_ne_operate (held : Bool) (operation operation' : Operation)
    (category : ErrorCategory) : refuse held operation category ≠ .operate operation' := by
  cases held <;> exact ResourceCall.noConfusion

/-- A writer that finds the lock free of a closing resource has shut it. -/
theorem shut_of_free (hOwned : RwOwned ResourceCall.mode r.calls r.lock) (hFree : r.lock.Free)
    (hClosing : r.closing = true) (hSound : r.poisoned = false) : r.Shut where
  closing := hClosing
  unpoisoned := hSound
  quiet other operation hCall := by
    have hMode := hOwned.free hFree other
    rw [hCall] at hMode
    cases hMode

/-- What no step undoes. -/
structure Kept (r r' : SpatialResource S) : Prop where
  closing : r.closing = true → r'.closing = true
  destroyed : r.destroyed = true → r'.destroyed = true
  absent : r.inner = none → r'.inner = none
  shut : r.Shut → r'.Shut

theorem step_kept (hStep : Step backend r label r') : Kept r r' := by
  cases hStep with
  | operate call operation hCall =>
      have hInner : r.inner = none → (r.perform backend operation).2.inner = none := by
        intro hNone
        rw [perform, hNone]
        exact hNone
      have hFlags : (r.perform backend operation).2.closing = r.closing ∧
          (r.perform backend operation).2.destroyed = r.destroyed := by
        rw [perform]
        cases r.inner <;> exact ⟨rfl, rfl⟩
      refine ⟨fun h => ?_, fun h => ?_, hInner, fun h => absurd hCall (h.quiet call operation)⟩
      · exact hFlags.1.trans h
      · exact hFlags.2.trans h
  | upsertPanic call key aabb context hCall =>
      refine ⟨id, id, fun hNone => ?_, fun h => absurd hCall (h.quiet call _)⟩
      show r.inner.map _ = none
      rw [hNone]
      rfl
  | queryPanic call queries out hCall =>
      exact ⟨id, id, id, fun h => absurd hCall (h.quiet call _)⟩
  | notClosing call operation held hCall hFlag =>
      refine ⟨id, id, id, fun h => ?_⟩
      rw [h.closing] at hFlag
      cases hFlag
  | begin call operation hCall => exact ⟨id, id, id, fun h => h.setCall call (by simp)⟩
  | notDestroyed call operation held hCall hFlag =>
      exact ⟨id, id, id, fun h => h.setCall call (by simp)⟩
  | isDestroyed call operation held hCall hFlag =>
      exact ⟨id, id, id, fun h => h.setCall call (refuse_ne_operate held operation · _)⟩
  | isClosing call operation held hCall hFlag =>
      exact ⟨id, id, id, fun h => h.setCall call (refuse_ne_operate held operation · _)⟩
  | acquire call operation hCall hGrants hSound =>
      exact ⟨id, id, id, fun h => (h.acquire call _).setCall call (by simp)⟩
  | acquirePoisoned call operation hCall hGrants hPoisoned =>
      exact ⟨id, id, id, fun h => (h.acquire call _).setCall call (by simp)⟩
  | unlock call operation outcome hCall =>
      exact ⟨id, id, id, fun h => (h.release call _).setCall call (by simp)⟩
  | «return» call outcome hCall => exact ⟨id, id, id, fun h => h.setCall call (by simp)⟩
  | cancelRequested call hCall => exact ⟨fun _ => rfl, id, id, fun h => h.congr rfl rfl rfl⟩
  | quiesce call hCall =>
      have hNext : ∀ operation, ResourceCall.quiescing ≠ .operate operation := by simp
      exact ⟨fun _ => rfl, id, id, fun h => (h.setCall call hNext).congr rfl rfl rfl⟩
  | quiesceBusy call hCall hBusy => exact ⟨id, id, id, fun h => h.setCall call (by simp)⟩
  | quiesceLock call hCall hFree =>
      exact ⟨id, id, id, fun h => (h.acquire call _).setCall call (by simp)⟩
  | quiesceUnlock call result hCall =>
      exact ⟨id, id, id, fun h => (h.release call _).setCall call (by simp)⟩
  | destroy call hCall =>
      have hNext : ∀ operation, ResourceCall.destroying ≠ .operate operation := by simp
      exact ⟨fun _ => rfl, id, id, fun h => (h.setCall call hNext).congr rfl rfl rfl⟩
  | destroyBusy call hCall hBusy => exact ⟨id, id, id, fun h => h.setCall call (by simp)⟩
  | destroyLock call hCall hFree =>
      refine ⟨id, id, id, fun h => (h.acquire call _).setCall call fun operation => ?_⟩
      split_ifs <;> exact ResourceCall.noConfusion
  | destroyPoisoned call hCall =>
      exact ⟨id, id, id, fun h => (h.release call _).setCall call (by simp)⟩
  | take call hCall =>
      have hNext : ∀ operation, ResourceCall.taken ≠ .operate operation := by simp
      exact ⟨id, id, fun _ => rfl, fun h => (h.setCall call hNext).congr h.closing rfl rfl⟩
  | takeUnlock call hCall =>
      exact ⟨id, id, id, fun h => (h.release call _).setCall call (by simp)⟩
  | destroyMark call hCall =>
      have hNext : ∀ operation, ResourceCall.idle ≠ .operate operation := by simp
      exact ⟨id, fun _ => rfl, id, fun h => (h.setCall call hNext).congr h.closing rfl rfl⟩

/-! Reachable states. -/

theorem step_other (hStep : Step backend r (call, event) r') {other : Nat} (h : other ≠ call) :
    r'.calls other = r.calls other := by
  cases hStep with
  | operate _ operation hCall =>
      show Function.update (r.perform backend operation).2.calls call _ other = _
      rw [Function.update_of_ne h, perform]
      cases r.inner <;> rfl
  | cancelRequested hCall => rfl
  | _ => exact Function.update_of_ne h _ _

theorem owned_acquire (hOwned : RwOwned ResourceCall.mode r.calls r.lock) {mode : Mode}
    {next : ResourceCall} (hOut : (r.calls call).mode = none) (hGrants : r.lock.Grants mode)
    (hNext : next.mode = some mode) : RwOwned ResourceCall.mode
      ((r.acquire call mode).setCall call next).calls
      ((r.acquire call mode).setCall call next).lock := hOwned.acquire hOut hGrants hNext

theorem owned_release (hOwned : RwOwned ResourceCall.mode r.calls r.lock) {mode : Mode}
    {next : ResourceCall} (hHeld : (r.calls call).mode = some mode) (hNext : next.mode = none) :
    RwOwned ResourceCall.mode ((r.release call mode).setCall call next).calls
      ((r.release call mode).setCall call next).lock := hOwned.release hHeld hNext

/-- A step hands out and takes back the guard that its call then holds or held before. -/
theorem step_owned (hOwned : RwOwned ResourceCall.mode r.calls r.lock)
    (hStep : Step backend r label r') : RwOwned ResourceCall.mode r'.calls r'.lock := by
  cases hStep with
  | begin call operation hCall => exact hOwned.keep (by rw [hCall]; rfl)
  | notDestroyed call operation held hCall hFlag =>
      exact hOwned.keep (by rw [hCall]; cases held <;> rfl)
  | isDestroyed call operation held hCall hFlag =>
      exact hOwned.keep (by rw [hCall]; cases held <;> rfl)
  | notClosing call operation held hCall hFlag =>
      exact hOwned.keep (by rw [hCall]; cases held <;> rfl)
  | isClosing call operation held hCall hFlag =>
      exact hOwned.keep (by rw [hCall]; cases held <;> rfl)
  | acquire call operation hCall hGrants hSound =>
      exact owned_acquire hOwned (by rw [hCall]; rfl) hGrants rfl
  | acquirePoisoned call operation hCall hGrants hPoisoned =>
      exact owned_acquire hOwned (by rw [hCall]; rfl) hGrants rfl
  | operate call operation hCall =>
      have hSame : (r.perform backend operation).2.calls = r.calls ∧
          (r.perform backend operation).2.lock = r.lock := by
        rw [perform]
        cases r.inner <;> exact ⟨rfl, rfl⟩
      show RwOwned _ (Function.update (r.perform backend operation).2.calls call _)
        (r.perform backend operation).2.lock
      rw [hSame.1, hSame.2]
      exact hOwned.keep (by rw [hCall]; rfl)
  | upsertPanic call key aabb context hCall =>
      show RwOwned _ (Function.update r.calls call .idle) (r.lock.release call .write)
      exact hOwned.release (by rw [hCall]; rfl) rfl
  | queryPanic call queries out hCall => exact owned_release hOwned (by rw [hCall]; rfl) rfl
  | unlock call operation outcome hCall => exact owned_release hOwned (by rw [hCall]; rfl) rfl
  | «return» call outcome hCall => exact hOwned.keep (by rw [hCall]; rfl)
  | cancelRequested call hCall => exact hOwned
  | quiesce call hCall => exact hOwned.keep (by rw [hCall]; rfl)
  | quiesceBusy call hCall hBusy => exact hOwned.keep (by rw [hCall]; rfl)
  | quiesceLock call hCall hFree => exact owned_acquire hOwned (by rw [hCall]; rfl) hFree rfl
  | quiesceUnlock call result hCall => exact owned_release hOwned (by rw [hCall]; rfl) rfl
  | destroy call hCall => exact hOwned.keep (by rw [hCall]; rfl)
  | destroyBusy call hCall hBusy => exact hOwned.keep (by rw [hCall]; rfl)
  | destroyLock call hCall hFree =>
      exact owned_acquire hOwned (by rw [hCall]; rfl) hFree (by cases r.poisoned <;> rfl)
  | destroyPoisoned call hCall => exact owned_release hOwned (by rw [hCall]; rfl) rfl
  | take call hCall => exact hOwned.keep (by rw [hCall]; rfl)
  | takeUnlock call hCall => exact owned_release hOwned (by rw [hCall]; rfl) rfl
  | destroyMark call hCall => exact hOwned.keep (by rw [hCall]; rfl)

/-- What a call that is closing the resource has reached already. -/
def Reached (r : SpatialResource S) : ResourceCall → Prop
  | .quiescing => r.closing = true
  | .quiesced (.ok _) => r.Shut
  | .destroying => r.closing = true
  | .taking => r.Shut
  | .taken => r.Shut ∧ r.inner = none
  | .destroyed => r.Shut ∧ r.inner = none
  | _ => True

theorem Reached.mono (hKept : Kept r r') {stage : ResourceCall} (h : Reached r stage) :
    Reached r' stage := by
  cases stage with
  | quiesced result =>
      cases result with
      | ok _ => exact hKept.shut h
      | error _ => trivial
  | quiescing => exact hKept.closing h
  | destroying => exact hKept.closing h
  | taking => exact hKept.shut h
  | taken => exact ⟨hKept.shut h.1, hKept.absent h.2⟩
  | destroyed => exact ⟨hKept.shut h.1, hKept.absent h.2⟩
  | _ => trivial

structure Sound (r : SpatialResource S) : Prop where
  owned : RwOwned ResourceCall.mode r.calls r.lock
  reached : ∀ call, Reached r (r.calls call)

theorem Sound.reached_at (h : r.Sound) {stage : ResourceCall} (hCall : r.calls call = stage) :
    Reached r stage := hCall ▸ h.reached call

theorem reached_setCall {next : ResourceCall} (h : Reached (r.setCall call next) next) :
    Reached (r.setCall call next) ((r.setCall call next).calls call) := by
  have hCall : (r.setCall call next).calls call = next := Function.update_self _ _ _
  rwa [hCall]

theorem reached_refuse (held : Bool) (operation : Operation) (category : ErrorCategory) :
    Reached r (refuse held operation category) := by
  cases held <;> trivial

/-- The call that takes a step has reached what its next stage says. -/
theorem Sound.step_reached (h : r.Sound) (hStep : Step backend r (call, event) r') :
    Reached r' (r'.calls call) := by
  have hKept := step_kept hStep
  cases hStep with
  | begin _ operation hCall => exact reached_setCall trivial
  | notDestroyed _ operation held hCall hFlag => exact reached_setCall trivial
  | isDestroyed _ operation held hCall hFlag =>
      exact reached_setCall (reached_refuse held operation _)
  | notClosing _ operation held hCall hFlag =>
      apply reached_setCall
      cases held <;> trivial
  | isClosing _ operation held hCall hFlag =>
      exact reached_setCall (reached_refuse held operation _)
  | acquire _ operation hCall hGrants hSound => exact reached_setCall trivial
  | acquirePoisoned _ operation hCall hGrants hPoisoned => exact reached_setCall trivial
  | operate _ operation hCall => exact reached_setCall trivial
  | upsertPanic _ key aabb context hCall => exact reached_setCall trivial
  | queryPanic _ queries out hCall => exact reached_setCall trivial
  | unlock _ operation outcome hCall => exact reached_setCall trivial
  | «return» _ outcome hCall => exact reached_setCall trivial
  | cancelRequested _ hCall => exact (h.reached call).mono hKept
  | quiesce _ hCall =>
      have hStage : Function.update r.calls call .quiescing call = .quiescing :=
        Function.update_self _ _ _
      show Reached _ (Function.update r.calls call .quiescing call)
      rw [hStage]
      rfl
  | quiesceBusy _ hCall hBusy => exact reached_setCall trivial
  | quiesceLock _ hCall hFree =>
      apply reached_setCall
      split_ifs with hPoisoned
      · trivial
      · have hShut := shut_of_free h.owned hFree (h.reached_at hCall)
          (Bool.eq_false_iff.mpr hPoisoned)
        exact (hShut.acquire call _).setCall call (by simp)
  | quiesceUnlock _ result hCall => exact reached_setCall trivial
  | destroy _ hCall =>
      have hStage : Function.update r.calls call .destroying call = .destroying :=
        Function.update_self _ _ _
      show Reached _ (Function.update r.calls call .destroying call)
      rw [hStage]
      rfl
  | destroyBusy _ hCall hBusy => exact reached_setCall trivial
  | destroyLock _ hCall hFree =>
      apply reached_setCall
      split_ifs with hPoisoned
      · trivial
      · have hShut := shut_of_free h.owned hFree (h.reached_at hCall)
          (Bool.eq_false_iff.mpr hPoisoned)
        exact (hShut.acquire call _).setCall call (by simp)
  | destroyPoisoned _ hCall => exact reached_setCall trivial
  | take _ hCall =>
      have hShut : r.Shut := h.reached_at hCall
      have hStage : Function.update r.calls call .taken call = .taken :=
        Function.update_self _ _ _
      show Reached _ (Function.update r.calls call .taken call)
      rw [hStage]
      exact ⟨hKept.shut hShut, rfl⟩
  | takeUnlock _ hCall =>
      have hTaken : r.Shut ∧ r.inner = none := h.reached_at hCall
      exact reached_setCall ⟨hKept.shut hTaken.1, hTaken.2⟩
  | destroyMark _ hCall =>
      have hStage : Function.update r.calls call .idle call = .idle := Function.update_self _ _ _
      show Reached _ (Function.update r.calls call .idle call)
      rw [hStage]
      trivial

theorem Sound.step (h : r.Sound) (hStep : Step backend r label r') : r'.Sound where
  owned := step_owned h.owned hStep
  reached other := by
    by_cases hSame : other = label.1
    · rw [hSame]
      exact h.step_reached hStep
    · rw [step_other hStep hSame]
      exact (h.reached other).mono (step_kept hStep)

theorem sound_new (context : SpatialContext S) : (new context).Sound where
  owned := rwOwned_unlocked fun _ => rfl
  reached _ := trivial

theorem sound_run {context : SpatialContext S} {trace : List (Nat × ResourceEvent)}
    (run : Run (Step backend) (new context) trace r) : r.Sound :=
  run.preserves Sound (fun _ _ _ h hStep => h.step hStep) (sound_new context)

/-! After the end. -/

theorem closed_fail (operation : Operation) {category : ErrorCategory}
    (h : category = .contextClosing ∨ category = .contextDestroyed) :
    (operation.fail category).Closed := by
  rcases h with rfl | rfl
  · cases operation <;> exact Or.inl rfl
  · cases operation <;> exact Or.inr rfl

/-- A call that can only return a failure because of the closing, once the resource is shut. -/
def Doomed : ResourceCall → Prop
  | .ensureNotDestroyed _ true => True
  | .ensureNotClosing _ true => True
  | .unlock _ outcome => outcome.Closed
  | .returning outcome => outcome.Closed
  | _ => False

theorem doomed_refuse (held : Bool) (operation : Operation) {category : ErrorCategory}
    (h : category = .contextClosing ∨ category = .contextDestroyed) :
    Doomed (refuse held operation category) := by
  cases held <;> exact closed_fail operation h

theorem doomed_setCall {next : ResourceCall} (h : Doomed next) :
    Doomed ((r.setCall call next).calls call) := by
  have hCall : (r.setCall call next).calls call = next := Function.update_self _ _ _
  rwa [hCall]

theorem step_doomed (hShut : r.Shut) (h : Doomed (r.calls call))
    (hStep : Step backend r label r') (hReturn : ∀ outcome, label ≠ (call, .returned outcome)) :
    Doomed (r'.calls call) := by
  obtain ⟨mover, event⟩ := label
  by_cases hSame : call = mover
  · subst hSame
    cases hStep with
    | notDestroyed _ operation held hCall hFlag =>
        rw [hCall] at h
        cases held with
        | false => cases h
        | true => exact doomed_setCall trivial
    | isDestroyed _ operation held hCall hFlag =>
        exact doomed_setCall (doomed_refuse held operation (Or.inr rfl))
    | notClosing _ operation held hCall hFlag =>
        rw [hShut.closing] at hFlag
        cases hFlag
    | isClosing _ operation held hCall hFlag =>
        exact doomed_setCall (doomed_refuse held operation (Or.inl rfl))
    | unlock _ operation outcome hCall =>
        rw [hCall] at h
        exact doomed_setCall h
    | «return» _ outcome hCall => exact absurd rfl (hReturn outcome)
    | operate _ operation hCall => exact absurd hCall (hShut.quiet _ _)
    | upsertPanic _ key aabb context hCall => exact absurd hCall (hShut.quiet _ _)
    | queryPanic _ queries out hCall => exact absurd hCall (hShut.quiet _ _)
    | cancelRequested _ hCall => exact h
    | _ =>
        rename_i hCall
        rw [hCall] at h
        cases h
  · rwa [step_other hStep hSame]

theorem run_doomed {trace : List (Nat × ResourceEvent)} (run : Run (Step backend) r trace r')
    (hShut : r.Shut) (h : Doomed (r.calls call))
    (hReturn : ∀ outcome, (call, .returned outcome) ∉ trace) : Doomed (r'.calls call) := by
  have hBoth : r'.Shut ∧
      ((∀ outcome, (call, .returned outcome) ∉ trace) → Doomed (r'.calls call)) := by
    apply run.invariant fun trace q => q.Shut ∧
      ((∀ outcome, (call, .returned outcome) ∉ trace) → Doomed (q.calls call))
    · exact ⟨hShut, fun _ => h⟩
    · intro trace q label q' ⟨hShut, hDoomed⟩ hStep
      refine ⟨(step_kept hStep).shut hShut, fun hReturn => ?_⟩
      apply step_doomed hShut _ hStep
      · rintro outcome rfl
        exact hReturn outcome (by simp)
      · exact hDoomed fun outcome hMem => hReturn outcome (List.mem_append_left _ hMem)
  exact hBoth.2 hReturn

/-- A call that an event of its own dooms returns a failure. -/
theorem returnsClosed {entry : ResourceEvent} {property : SpatialResource S → Prop}
    (hProperty : ∀ q label q', property q → Step backend q label q' → property q')
    (hShut : ∀ q, property q → q.Shut)
    (hEntry : ∀ q call q', property q → Step backend q (call, entry) q' → Doomed (q'.calls call))
    (h : property r) {after : List (Nat × ResourceEvent)} (run : Run (Step backend) r after r') :
    ReturnsClosed entry after := by
  intro before call middle outcome later hTrace hReturn
  subst hTrace
  obtain ⟨q, q', hBefore, hFirst, hRest⟩ := run.at
  have hProperty' := hBefore.preserves property hProperty h
  obtain ⟨w, w', hMiddle, hLast, -⟩ := hRest.at
  have hDoomed := run_doomed hMiddle ((step_kept hFirst).shut (hShut q hProperty'))
    (hEntry q call q' hProperty' hFirst) hReturn
  cases hLast with
  | «return» _ _ hCall =>
      rw [hCall] at hDoomed
      exact hDoomed

theorem Shut.step (h : r.Shut) (hStep : Step backend r label r') : r'.Shut :=
  (step_kept hStep).shut h

theorem Shut.acquired (h : r.Shut) (hStep : Step backend r (call, .acquired) r') :
    Doomed (r'.calls call) := by
  cases hStep with
  | acquire _ operation hCall hGrants hSound => exact doomed_setCall trivial
  | acquirePoisoned _ operation hCall hGrants hPoisoned =>
      rw [h.unpoisoned] at hPoisoned
      cases hPoisoned

/-- Only a destroy takes the index of a shut resource. -/
theorem Shut.inner_eq (h : r.Shut) (hStep : Step backend r label r') (hTaken : label.2 ≠ .taken) :
    r'.inner = r.inner := by
  cases hStep with
  | operate call operation hCall => exact absurd hCall (h.quiet _ _)
  | upsertPanic call key aabb context hCall => exact absurd hCall (h.quiet _ _)
  | take call hCall => exact absurd rfl hTaken
  | _ => rfl

theorem Shut.isQuiet (h : r.Shut) : r.Quiet backend := by
  intro after r' run
  refine ⟨returnsClosed (fun _ _ _ => Shut.step) (fun _ => id) (fun _ _ _ => Shut.acquired) h run,
    fun label r'' hStep hTaken => ?_⟩
  have hLater : r'.Shut := run.preserves Shut (fun _ _ _ => Shut.step) h
  exact hLater.inner_eq hStep hTaken

/-- A destroyed resource. -/
structure Over (r : SpatialResource S) : Prop where
  shut : r.Shut
  absent : r.inner = none
  destroyed : r.destroyed = true

theorem Over.step (h : r.Over) (hStep : Step backend r label r') : r'.Over where
  shut := h.shut.step hStep
  absent := (step_kept hStep).absent h.absent
  destroyed := (step_kept hStep).destroyed h.destroyed

theorem Over.looked (h : r.Over) (hStep : Step backend r (call, .looked false) r') :
    Doomed (r'.calls call) := by
  cases hStep with
  | notDestroyed _ operation _ hCall hFlag =>
      rw [h.destroyed] at hFlag
      cases hFlag
  | isDestroyed _ operation _ hCall hFlag =>
      exact doomed_setCall (doomed_refuse false operation (Or.inr rfl))

theorem Over.isGone (h : r.Over) : r.Gone backend := by
  intro after r' run
  have hLater : r'.Over := run.preserves Over (fun _ _ _ => Over.step) h
  refine ⟨hLater.absent, ?_, ?_⟩
  · exact returnsClosed (fun _ _ _ => Over.step) (fun _ => Over.shut)
      (fun _ _ _ hOver => hOver.shut.acquired) h run
  · exact returnsClosed (fun _ _ _ => Over.step) (fun _ => Over.shut)
      (fun _ _ _ => Over.looked) h run

/-! Any run. -/

theorem Sound.quiesced (h : r.Sound) (hStep : Step backend r (call, .quiesced (.ok .quiesced)) r') :
    r'.Shut := by
  have hKept := step_kept hStep
  cases hStep with
  | quiesceUnlock _ _ hCall =>
      have hShut : r.Shut := h.reached_at hCall
      exact hKept.shut hShut

theorem Sound.destroyed (h : r.Sound) (hStep : Step backend r (call, .destroyed (.ok ())) r') :
    r'.Over := by
  have hKept := step_kept hStep
  cases hStep with
  | destroyMark _ hCall =>
      have hDone : r.Shut ∧ r.inner = none := h.reached_at hCall
      exact ⟨hKept.shut hDone.1, hDone.2, rfl⟩

/-- The index is taken under the lock. -/
theorem Sound.taken_alone (h : r.Sound) (hStep : Step backend r (call, .taken) r') {other : Nat}
    (hOther : other ≠ call) : (r.calls other).mode = none := by
  cases hStep with
  | take _ hCall => exact h.owned.alone (by rw [hCall]; rfl) hOther

/-- An attempt to destroy a resource that is in use fails. -/
theorem Sound.destroy_busy (h : r.Sound) (hCall : r.calls call = .destroying) {other : Nat}
    (hOther : (r.calls other).mode ≠ none) (hStep : Step backend r (call, event) r') :
    event = .destroyed (.error (error .contextClosing)) ∧ r'.inner = r.inner := by
  obtain ⟨mode, hMode⟩ := Option.ne_none_iff_exists'.mp hOther
  cases hStep with
  | destroyBusy _ hStage hBusy => exact ⟨rfl, rfl⟩
  | destroyLock _ hStage hFree => exact absurd hFree (h.owned.not_free hMode)
  -- every other step is taken at another stage
  | _ => simp_all

/-- Quiescence and destruction are stable, whatever the calls do and in whatever order. -/
theorem shutdown_stable (context : SpatialContext S) {trace : List (Nat × ResourceEvent)}
    (run : Run (Step backend) (new context) trace r) :
    (∀ before call, trace = before ++ [(call, .quiesced (.ok .quiesced))] → r.Quiet backend) ∧
    (∀ call r', Step backend r (call, .taken) r' →
      ∀ other, other ≠ call → (r.calls other).mode = none) ∧
    (∀ call other, r.calls call = .destroying → (r.calls other).mode ≠ none →
      (∃ r', Step backend r (call, .destroyed (.error (error .contextClosing))) r') ∧
      ∀ event r', Step backend r (call, event) r' →
        event = .destroyed (.error (error .contextClosing)) ∧ r'.inner = r.inner) ∧
    (∀ before call, trace = before ++ [(call, .destroyed (.ok ()))] → r.Gone backend) := by
  have hSound := sound_run run
  refine ⟨?_, ?_, ?_, ?_⟩
  · rintro before call rfl
    obtain ⟨q, hBefore, hStep⟩ := run.last
    exact ((sound_run hBefore).quiesced hStep).isQuiet
  · exact fun call r' hStep other hOther => hSound.taken_alone hStep hOther
  · intro call other hCall hOther
    obtain ⟨mode, hMode⟩ := Option.ne_none_iff_exists'.mp hOther
    refine ⟨⟨_, .destroyBusy r call hCall (hSound.owned.not_free hMode)⟩, ?_⟩
    exact fun event r' hStep => hSound.destroy_busy hCall hOther hStep
  · rintro before call rfl
    obtain ⟨q, hBefore, hStep⟩ := run.last
    exact ((sound_run hBefore).destroyed hStep).isGone

/-- An upsert has the lock while the resource is destroyed: the first destroy fails, the upsert is
refused, and the second destroy takes the index. -/
theorem shutdown_stable_busy :
    ∃ trace busy r,
      Run (Step GridReferenceIndex.backend) (new ⟨.withCapacity 1, ⟨1, 1, by decide⟩⟩) trace busy ∧
      busy.calls 1 = .ensureNotDestroyed (.upsert ⟨1⟩ (.cube 0)) true ∧
      (∃ next, Step GridReferenceIndex.backend busy
        (0, .destroyed (.error (error .contextClosing))) next) ∧
      Run (Step GridReferenceIndex.backend) (new ⟨.withCapacity 1, ⟨1, 1, by decide⟩⟩)
        (trace ++ [(0, .destroyed (.error (error .contextClosing))), (1, .looked true), (1, .step),
          (1, .step), (1, .returned (.upserted (.error (error .contextClosing)))), (0, .step),
          (0, .step), (0, .taken), (0, .step), (0, .destroyed (.ok ()))]) r ∧
      r.Gone GridReferenceIndex.backend := by
  have hBusy : Run (Step GridReferenceIndex.backend) (new ⟨.withCapacity 1, ⟨1, 1, by decide⟩⟩)
      _ _ := (((((Run.nil _).snoc (.begin _ 1 (.upsert ⟨1⟩ (.cube 0)) rfl)).snoc
    (.notDestroyed _ 1 _ false rfl rfl)).snoc (.notClosing _ 1 _ false rfl rfl)).snoc
    (.acquire _ 1 _ rfl ⟨rfl, rfl⟩ rfl)).snoc (.destroy _ 0 rfl)
  have hRefused := ((((hBusy.snoc (.destroyBusy _ 0 rfl fun hFree => by cases hFree.1)).snoc
    (.notDestroyed _ 1 _ true rfl rfl)).snoc (.isClosing _ 1 _ true rfl rfl)).snoc
    (.unlock _ 1 _ _ rfl)).snoc (.return _ 1 _ rfl)
  have hDestroyed := ((((hRefused.snoc (.destroy _ 0 rfl)).snoc
    (.destroyLock _ 0 rfl ⟨rfl, rfl⟩)).snoc (.take _ 0 rfl)).snoc (.takeUnlock _ 0 rfl)).snoc
    (.destroyMark _ 0 rfl)
  refine ⟨_, _, _, hBusy, rfl, ?_, hDestroyed, ?_⟩
  · exact ((shutdown_stable _ hBusy).2.2.1 0 1 rfl nofun).1
  · exact (shutdown_stable _ hDestroyed).2.2.2 _ 0 rfl

end SpatialResource
end Spatial

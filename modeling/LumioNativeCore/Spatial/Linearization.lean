import LumioNativeCore.Library.Machine
import LumioNativeCore.Spatial.Shutdown

/-! The index is used by one operation after the other: what a call returns is what its
operation did to the index at one moment of the call, unless it was refused and did nothing. -/
namespace Spatial

open Kernel (KernelError ErrorCategory error)
open Concurrent Transition

/-- A step, the operation that a call is asked for by it, and what it did to the index. -/
structure Shown where
  label : Nat × ResourceEvent
  asked : Option Operation
  effect : Option (Operation × Outcome)

/-- The operations with their outcomes, in the order in which they were performed. -/
def effects (trace : List Shown) : List (Operation × Outcome) := trace.filterMap Shown.effect

theorem effects_snoc (trace : List Shown) (shown : Shown) :
    effects (trace ++ [shown]) = effects trace ++ shown.effect.toList := by
  rw [effects, effects, List.filterMap_append]
  cases hEffect : shown.effect with
  | none => simp [hEffect]
  | some entry => simp [hEffect]

/-- The call returns, or panics. -/
def Ends (call : Nat) (shown : Shown) : Prop :=
  (∃ outcome, shown.label = (call, .returned outcome)) ∨ shown.label = (call, .panicked)

/-- The call is under way and was asked for this. -/
def Asked (trace : List Shown) (call : Nat) (operation : Operation) : Prop :=
  Since (fun shown => shown.label.1 = call ∧ shown.asked = some operation) (Ends call) trace

/-- The call is under way and has performed this. -/
def Performed (trace : List Shown) (call : Nat) (operation : Operation) (outcome : Outcome) :
    Prop :=
  Since (fun shown => shown.label.1 = call ∧ shown.effect = some (operation, outcome)) (Ends call)
    trace

/-- The call has performed nothing since the last one ended. -/
def Untouched (trace : List Shown) (call : Nat) : Prop :=
  ∀ operation outcome, ¬Performed trace call operation outcome

/-- The resource was being closed, or a panic had poisoned the lock. -/
def Refused (operation : Operation) (outcome : Outcome) : Prop :=
  outcome = operation.fail .contextDestroyed ∨ outcome = operation.fail .contextClosing ∨
    outcome = operation.fail .internalInvariant

/-- Past the checks on the lock. -/
def ResourceCall.works : ResourceCall → Bool
  | ensureNotDestroyed _ held => held
  | ensureNotClosing _ held => held
  | operate _ => true
  | _ => false

/-- What a call returns is what it has performed, or it was refused and has performed nothing. -/
def Answers (trace : List Shown) (call : Nat) (operation : Operation) (outcome : Outcome) : Prop :=
  Asked trace call operation ∧
    (Performed trace call operation outcome ∨ Untouched trace call ∧ Refused operation outcome)

/-- How a call stands to the trace. -/
def Placed (trace : List Shown) (call : Nat) : ResourceCall → Prop
  | .ensureNotDestroyed operation _ => Asked trace call operation ∧ Untouched trace call
  | .ensureNotClosing operation _ => Asked trace call operation ∧ Untouched trace call
  | .acquire operation => Asked trace call operation ∧ Untouched trace call
  | .operate operation => Asked trace call operation ∧ Untouched trace call
  | .unlock operation outcome => Answers trace call operation outcome
  | .returning outcome => ∃ operation, Answers trace call operation outcome
  | _ => Untouched trace call

section Placed

variable {trace : List Shown} {shown : Shown} {call : Nat} {operation : Operation}
  {outcome : Outcome}

theorem Asked.snoc (h : Asked trace call operation) (hOpen : ¬Ends call shown) :
    Asked (trace ++ [shown]) call operation :=
  since_snoc.mpr (Or.inr ⟨h, hOpen⟩)

theorem Performed.snoc (h : Performed trace call operation outcome) (hOpen : ¬Ends call shown) :
    Performed (trace ++ [shown]) call operation outcome :=
  since_snoc.mpr (Or.inr ⟨h, hOpen⟩)

theorem Untouched.snoc (h : Untouched trace call)
    (hQuiet : shown.label.1 = call → shown.effect = none) :
    Untouched (trace ++ [shown]) call := by
  intro operation outcome hSince
  rcases since_snoc.mp hSince with ⟨hCall, hEffect⟩ | ⟨hOld, -⟩
  · rw [hQuiet hCall] at hEffect
    cases hEffect
  · exact h operation outcome hOld

/-- A call that has ended starts anew. -/
theorem untouched_of_ends (hEnds : Ends call shown) (hNone : shown.effect = none) :
    Untouched (trace ++ [shown]) call := by
  intro operation outcome hSince
  rcases since_snoc.mp hSince with ⟨-, hEffect⟩ | ⟨-, hOpen⟩
  · rw [hNone] at hEffect
    cases hEffect
  · exact hOpen hEnds

theorem Answers.snoc (h : Answers trace call operation outcome) (hOpen : ¬Ends call shown)
    (hQuiet : shown.label.1 = call → shown.effect = none) :
    Answers (trace ++ [shown]) call operation outcome :=
  ⟨h.1.snoc hOpen, h.2.imp (fun h => h.snoc hOpen) fun ⟨h, hRefused⟩ => ⟨h.snoc hQuiet, hRefused⟩⟩

/-- A step that does not end the call and performs nothing for it leaves it where it is. -/
theorem Placed.snoc {stage : ResourceCall} (h : Placed trace call stage) (hOpen : ¬Ends call shown)
    (hQuiet : shown.label.1 = call → shown.effect = none) :
    Placed (trace ++ [shown]) call stage := by
  cases stage with
  | ensureNotDestroyed => exact ⟨h.1.snoc hOpen, h.2.snoc hQuiet⟩
  | ensureNotClosing => exact ⟨h.1.snoc hOpen, h.2.snoc hQuiet⟩
  | acquire => exact ⟨h.1.snoc hOpen, h.2.snoc hQuiet⟩
  | operate => exact ⟨h.1.snoc hOpen, h.2.snoc hQuiet⟩
  | unlock => exact Answers.snoc h hOpen hQuiet
  | returning =>
      obtain ⟨operation, h⟩ := h
      exact ⟨operation, h.snoc hOpen hQuiet⟩
  | _ => exact Untouched.snoc h hQuiet

/-- The steps of the others leave a call where it is. -/
theorem Placed.other {stage : ResourceCall} (h : Placed trace call stage)
    (hOther : shown.label.1 ≠ call) : Placed (trace ++ [shown]) call stage := by
  refine h.snoc ?_ fun hCall => absurd hCall hOther
  rintro (⟨outcome, hLabel⟩ | hLabel)
  · exact hOther (by rw [hLabel])
  · exact hOther (by rw [hLabel])

/-- A call that has no outcome yet has performed nothing. -/
theorem Placed.untouched {stage : ResourceCall} (h : Placed trace call stage)
    (hUnlock : ∀ operation outcome, stage ≠ .unlock operation outcome)
    (hReturning : ∀ outcome, stage ≠ .returning outcome) : Untouched trace call := by
  cases stage with
  | ensureNotDestroyed => exact h.2
  | ensureNotClosing => exact h.2
  | acquire => exact h.2
  | operate => exact h.2
  | unlock operation outcome => exact absurd rfl (hUnlock operation outcome)
  | returning outcome => exact absurd rfl (hReturning outcome)
  | _ => exact h

theorem placed_refuse (h : Asked trace call operation ∧ Untouched trace call) (held : Bool)
    {category : ErrorCategory} (hRefused : Refused operation (operation.fail category)) :
    Placed trace call (SpatialResource.refuse held operation category) := by
  have hAnswers : Answers trace call operation (operation.fail category) :=
    ⟨h.1, Or.inr ⟨h.2, hRefused⟩⟩
  cases held with
  | false => exact ⟨operation, hAnswers⟩
  | true => exact hAnswers

end Placed

theorem not_ends {call : Nat} {event : ResourceEvent} {asked : Option Operation}
    {effect : Option (Operation × Outcome)} (hReturned : ∀ outcome, event ≠ .returned outcome)
    (hPanicked : event ≠ .panicked) : ¬Ends call ⟨(call, event), asked, effect⟩ := by
  rintro (⟨outcome, hLabel⟩ | hLabel)
  · exact hReturned outcome (Prod.mk.inj hLabel).2
  · exact hPanicked (Prod.mk.inj hLabel).2

namespace SpatialResource

variable {S : Type} (backend : SpatialIndexBackend S)

/-- What the next step of a call does to the index. -/
def effect (r : SpatialResource S) (label : Nat × ResourceEvent) : Option (Operation × Outcome) :=
  match label.2, r.calls label.1 with
  | .step, .operate operation => some (operation, (r.perform backend operation).1)
  | _, _ => none

/-- What a step that begins a call asks for. -/
def asked (r : SpatialResource S) (label : Nat × ResourceEvent) : Option Operation :=
  match label.2, r.calls label.1 with
  | .step, .ensureNotDestroyed operation false => some operation
  | _, _ => none

inductive ShownStep : SpatialResource S → Shown → SpatialResource S → Prop where
  | intro {r r' : SpatialResource S} {label : Nat × ResourceEvent}
      (hStep : Step backend r label r') :
      ShownStep r ⟨label, r'.asked label, r.effect backend label⟩ r'

variable {backend} {r r' : SpatialResource S} {label : Nat × ResourceEvent}

/-- Every run can be shown. -/
theorem shown_of_run {trace : List (Nat × ResourceEvent)} (run : Run (Step backend) r trace r') :
    ∃ shown : List Shown, shown.map Shown.label = trace ∧ Run (ShownStep backend) r shown r' := by
  induction run with
  | nil => exact ⟨[], rfl, .nil _⟩
  | @snoc middle last trace label prior hStep ih =>
      obtain ⟨shown, hTrace, hShown⟩ := ih
      refine ⟨shown ++ [⟨label, last.asked label, middle.effect backend label⟩], ?_,
        hShown.snoc (.intro hStep)⟩
      rw [List.map_append, hTrace]
      rfl

/-- Only a call at its operation performs one. -/
theorem effect_cases (hStep : Step backend r label r') :
    (∃ operation, r.calls label.1 = .operate operation ∧ label.2 = .step ∧
        r' = (r.perform backend operation).2.setCall label.1
          (.unlock operation (r.perform backend operation).1)) ∨
      r.effect backend label = none ∧
        (r'.inner = r.inner ∧ r'.poisoned = r.poisoned ∨ r'.poisoned = true ∨ r'.inner = none) := by
  cases hStep with
  | operate call operation hCall => exact Or.inl ⟨operation, hCall, rfl, rfl⟩
  | upsertPanic call id aabb partialUpdate hCall => exact Or.inr ⟨rfl, Or.inr (Or.inl rfl)⟩
  | take call hCall => exact Or.inr ⟨rfl, Or.inr (Or.inr rfl)⟩
  | _ =>
      refine Or.inr ⟨?_, Or.inl ⟨rfl, rfl⟩⟩
      simp [effect, *]

/-- Where a step takes the call that makes it. -/
theorem placed_step {trace : List Shown} (hStep : Step backend r label r')
    (h : Placed trace label.1 (r.calls label.1)) :
    Placed (trace ++ [⟨label, r'.asked label, r.effect backend label⟩]) label.1
      (r'.calls label.1) := by
  have hNext : ∀ {call : Nat} {next : ResourceCall} {trace : List Shown} {r : SpatialResource S},
      Placed trace call next → Placed trace call ((r.setCall call next).calls call) := by
    intro call next trace r h
    rwa [show (r.setCall call next).calls call = next from Function.update_self _ _ _]
  rcases effect_cases hStep with ⟨operation, hCall, hEvent, rfl⟩ | ⟨hNone, -⟩
  · obtain ⟨call, event⟩ := label
    cases hEvent
    have hAsked : Asked trace call operation ∧ Untouched trace call := by
      rw [hCall] at h
      exact h
    refine hNext ⟨hAsked.1.snoc (not_ends nofun nofun), Or.inl (since_snoc.mpr (Or.inl ⟨rfl, ?_⟩))⟩
    simp [effect, hCall]
  · rw [hNone]
    cases hStep with
    | operate call operation hCall => simp [effect, hCall] at hNone
    | begin call operation hCall =>
        rw [hCall] at h
        refine hNext ⟨since_snoc.mpr (Or.inl ⟨rfl, ?_⟩), Untouched.snoc h fun _ => rfl⟩
        simp [asked, setCall]
    | isDestroyed call operation held hCall hFlag =>
        rw [hCall] at h
        have hOpen : ∀ asked effect, ¬Ends call ⟨(call, .looked held), asked, effect⟩ :=
          fun _ _ => not_ends nofun nofun
        exact hNext (placed_refuse ⟨h.1.snoc (hOpen _ _), h.2.snoc fun _ => rfl⟩ held (Or.inl rfl))
    | isClosing call operation held hCall hFlag =>
        rw [hCall] at h
        have hOpen : ∀ asked effect, ¬Ends call ⟨(call, .step), asked, effect⟩ :=
          fun _ _ => not_ends nofun nofun
        exact hNext (placed_refuse ⟨h.1.snoc (hOpen _ _), h.2.snoc fun _ => rfl⟩ held
          (Or.inr (Or.inl rfl)))
    | notDestroyed call operation held hCall hFlag =>
        rw [hCall] at h
        exact hNext ⟨h.1.snoc (not_ends nofun nofun), h.2.snoc fun _ => rfl⟩
    | notClosing call operation held hCall hFlag =>
        rw [hCall] at h
        cases held with
        | false => exact hNext ⟨h.1.snoc (not_ends nofun nofun), h.2.snoc fun _ => rfl⟩
        | true => exact hNext ⟨h.1.snoc (not_ends nofun nofun), h.2.snoc fun _ => rfl⟩
    | acquire call operation hCall hGrants hSound =>
        rw [hCall] at h
        exact hNext ⟨h.1.snoc (not_ends nofun nofun), h.2.snoc fun _ => rfl⟩
    | acquirePoisoned call operation hCall hGrants hPoisoned =>
        rw [hCall] at h
        exact hNext ⟨h.1.snoc (not_ends nofun nofun),
          Or.inr ⟨h.2.snoc fun _ => rfl, Or.inr (Or.inr rfl)⟩⟩
    | unlock call operation outcome hCall =>
        rw [hCall] at h
        exact hNext ⟨operation, Answers.snoc h (not_ends nofun nofun) fun _ => rfl⟩
    | «return» call outcome hCall => exact hNext (untouched_of_ends (Or.inl ⟨outcome, rfl⟩) rfl)
    | upsertPanic call id aabb partialUpdate hCall =>
        exact hNext (untouched_of_ends (Or.inr rfl) rfl)
    | queryPanic call queries out hCall => exact hNext (untouched_of_ends (Or.inr rfl) rfl)
    | cancelRequested call hCall =>
        have hUntouched := h.untouched (by simp [hCall]) (by simp [hCall])
        show Placed _ call (r.calls call)
        rw [hCall]
        exact hUntouched.snoc fun _ => rfl
    | destroyLock call hCall hFree =>
        have hUntouched := h.untouched (by simp [hCall]) (by simp [hCall])
        apply hNext
        split_ifs
        · exact hUntouched.snoc fun _ => rfl
        · exact hUntouched.snoc fun _ => rfl
    | _ =>
        have hUntouched := h.untouched (by simp [*]) (by simp [*])
        exact hNext (hUntouched.snoc fun _ => rfl)

/-- A panic is the only thing that poisons the lock. -/
theorem step_poisoned (hStep : Step backend r label r') :
    r'.poisoned = r.poisoned ∨ (r.calls label.1).mode = some .write ∧
      r'.calls label.1 = .idle := by
  cases hStep with
  | upsertPanic call id aabb partialUpdate hCall =>
      exact Or.inr ⟨by rw [hCall]; rfl, Function.update_self _ _ _⟩
  | operate call operation hCall =>
      left
      show (r.perform backend operation).2.poisoned = r.poisoned
      rw [perform]
      cases r.inner <;> rfl
  | _ => exact Or.inl rfl

/-- Nobody gets past the check of a poisoned lock. -/
theorem works_step (hStep : Step backend r label r') (hPoisoned : r.poisoned = true)
    (hWorks : (r'.calls label.1).works = true) : (r.calls label.1).works = true := by
  have hNext : ∀ {call : Nat} {next : ResourceCall} {r : SpatialResource S},
      ((r.setCall call next).calls call).works = true → next.works = true := by
    intro call next r h
    rwa [show (r.setCall call next).calls call = next from Function.update_self _ _ _] at h
  cases hStep with
  | acquire call operation hCall hGrants hSound =>
      rw [hPoisoned] at hSound
      cases hSound
  | notDestroyed call operation held hCall hFlag =>
      have hHeld : (ResourceCall.ensureNotClosing operation held).works = true := hNext hWorks
      rw [hCall]
      exact hHeld
  | isDestroyed call operation held hCall hFlag =>
      have hRefused := hNext hWorks
      cases held <;> cases hRefused
  | isClosing call operation held hCall hFlag =>
      have hRefused := hNext hWorks
      cases held <;> cases hRefused
  | notClosing call operation held hCall hFlag =>
      rw [hCall]
      have hHeld := hNext hWorks
      cases held with
      | false => cases hHeld
      | true => rfl
  | cancelRequested call hCall => exact hWorks
  | destroyLock call hCall hFree =>
      have hRefused := hNext hWorks
      rw [if_pos hPoisoned] at hRefused
      cases hRefused
  | _ => cases hNext hWorks

theorem works_mode {stage : ResourceCall} (h : stage.works = true) : stage.mode ≠ none := by
  cases stage with
  | ensureNotDestroyed operation held =>
      rw [show held = true from h]
      exact Option.some_ne_none _
  | ensureNotClosing operation held =>
      rw [show held = true from h]
      exact Option.some_ne_none _
  | operate operation => simp [ResourceCall.mode]
  | _ => cases h

/-- The index goes with a shut resource. -/
theorem step_absent (hSound : r.Sound) (hStep : Step backend r label r')
    (hInner : r'.inner = none) : r.inner = none ∨ r'.Shut := by
  have hKept := step_kept hStep
  cases hStep with
  | take call hCall =>
      have hShut : r.Shut := hSound.reached_at hCall
      exact Or.inr (hKept.shut hShut)
  | operate call operation hCall =>
      left
      have hPerform : (r.perform backend operation).2.inner = none := hInner
      rw [perform] at hPerform
      cases hSome : r.inner with
      | none => rfl
      | some context =>
          rw [hSome] at hPerform
          cases hPerform
  | upsertPanic call id aabb partialUpdate hCall =>
      left
      exact Option.map_eq_none_iff.mp hInner
  | _ => exact Or.inl hInner

/-- What holds between any two steps. `performed` is what the index has become. -/
structure Served (backend : SpatialIndexBackend S) (context : SpatialContext S) (trace : List Shown)
    (r : SpatialResource S) : Prop where
  sound : r.Sound
  log : ∃ performed, Machine.run (fun context operation => operation.perform backend context)
      context ((effects trace).map Prod.fst) = (effects trace, performed) ∧
    (r.poisoned = false → ∀ current, r.inner = some current → current = performed)
  harmless : r.poisoned = true → ∀ call, (r.calls call).works = false
  absent : r.inner = none → r.Shut
  placed : ∀ call, Placed trace call (r.calls call)

variable {context : SpatialContext S} {trace : List Shown} {shown : Shown}

theorem served_new (context : SpatialContext S) : Served backend context [] (new context) where
  sound := sound_new context
  log := ⟨context, rfl, fun _ current hCurrent => (Option.some.inj hCurrent).symm⟩
  harmless hPoisoned := by cases hPoisoned
  absent hInner := by cases hInner
  placed _ := fun _ _ hSince => not_since_nil _ _ hSince

/-- An operation is performed on what the operations before it have left. -/
theorem Served.log_step (h : Served backend context trace r) (hStep : Step backend r label r') :
    ∃ performed, Machine.run (fun context operation => operation.perform backend context)
      context ((effects (trace ++ [⟨label, r'.asked label, r.effect backend label⟩])).map Prod.fst) =
        (effects (trace ++ [⟨label, r'.asked label, r.effect backend label⟩]), performed) ∧
      (r'.poisoned = false → ∀ current, r'.inner = some current → current = performed) := by
  obtain ⟨performed, hRun, hInner⟩ := h.log
  rw [effects_snoc]
  rcases effect_cases hStep with ⟨operation, hCall, hEvent, rfl⟩ | ⟨hNone, hKept⟩
  · have hWorks : (r.calls label.1).works = true := by
      rw [hCall]
      rfl
    have hSafe : r.poisoned = false := by
      by_contra hPoisoned
      have hIdle := h.harmless (Bool.eq_true_of_not_eq_false hPoisoned) label.1
      rw [hIdle] at hWorks
      cases hWorks
    cases hSome : r.inner with
    | none => exact absurd hCall ((h.absent hSome).quiet label.1 operation)
    | some current =>
        obtain rfl := hInner hSafe current hSome
        have hEffect : r.effect backend label =
            some (operation, (operation.perform backend current).1) := by
          simp only [effect, hEvent, hCall, perform, hSome]
        refine ⟨(operation.perform backend current).2, ?_, fun _ next hNext => ?_⟩
        · rw [hEffect, List.map_append, Machine.run_append, hRun]
          rfl
        · have hPerformed : (r.perform backend operation).2.inner = some next := hNext
          rw [perform, hSome] at hPerformed
          exact (Option.some.inj hPerformed).symm
  · rw [hNone]
    refine ⟨performed, by simpa using hRun, fun hSafe current hCurrent => ?_⟩
    rcases hKept with ⟨hSame, hPoisoned⟩ | hPoisoned | hAbsent
    · exact hInner (hPoisoned.symm.trans hSafe) current (hSame.symm.trans hCurrent)
    · rw [hPoisoned] at hSafe
      cases hSafe
    · rw [hAbsent] at hCurrent
      cases hCurrent

theorem Served.harmless_step (h : Served backend context trace r) (hStep : Step backend r label r')
    (hPoisoned : r'.poisoned = true) (other : Nat) : (r'.calls other).works = false := by
  rcases step_poisoned hStep with hSame | ⟨hWrites, hIdle⟩
  · have hBefore := h.harmless (hSame.symm.trans hPoisoned)
    by_cases hOther : other = label.1
    · rw [hOther]
      by_contra hWorks
      have hWorked := works_step hStep (hSame.symm.trans hPoisoned)
        (Bool.eq_true_of_not_eq_false hWorks)
      rw [hBefore] at hWorked
      cases hWorked
    · rw [step_other hStep hOther]
      exact hBefore other
  · by_cases hOther : other = label.1
    · rw [hOther, hIdle]
      rfl
    · -- the call that panicked had the lock for itself
      have hOut := h.sound.owned.alone hWrites hOther
      rw [step_other hStep hOther]
      by_contra hWorks
      exact works_mode (Bool.eq_true_of_not_eq_false hWorks) hOut

theorem Served.step (h : Served backend context trace r) (hStep : ShownStep backend r shown r') :
    Served backend context (trace ++ [shown]) r' := by
  cases hStep with
  | @intro _ label hStep =>
      refine ⟨h.sound.step hStep, h.log_step hStep, h.harmless_step hStep, ?_, ?_⟩
      · intro hInner
        rcases step_absent h.sound hStep hInner with hBefore | hShut
        · exact (h.absent hBefore).step hStep
        · exact hShut
      · intro other
        by_cases hOther : label.1 = other
        · subst hOther
          exact placed_step hStep (h.placed label.1)
        · rw [step_other hStep (Ne.symm hOther)]
          exact (h.placed other).other hOther

/-- The index is linearizable: every run can be shown with the operations in the order in which
they are performed, and however it is shown each is performed on what those before it have left,
and whatever a call returns is the outcome of the operation that it was asked for and has performed
in the meantime, or a refusal without any effect. While no panic has poisoned the lock, the index
is what the last operation has left. -/
theorem calls_linearize (context : SpatialContext S) :
    (∀ trace r, Run (Step backend) (new context) trace r →
      ∃ shown : List Shown, shown.map Shown.label = trace ∧
        Run (ShownStep backend) (new context) shown r) ∧
    ∀ (shown : List Shown) (r : SpatialResource S), Run (ShownStep backend) (new context) shown r →
      (∃ performed, Machine.run (fun context operation => operation.perform backend context) context
          ((effects shown).map Prod.fst) = (effects shown, performed) ∧
        (r.poisoned = false → ∀ current, r.inner = some current → current = performed)) ∧
      ∀ before call outcome asked effect after,
        shown = before ++ ⟨(call, .returned outcome), asked, effect⟩ :: after →
        ∃ operation, Answers before call operation outcome := by
  refine ⟨fun trace r run => shown_of_run run, fun shown r hShown => ?_⟩
  have hServed : ∀ {trace : List Shown} {r : SpatialResource S},
      Run (ShownStep backend) (new context) trace r → Served backend context trace r :=
    fun run => run.invariant (Served backend context) (served_new context) fun _ _ _ _ h => h.step
  refine ⟨(hServed hShown).log, ?_⟩
  rintro before call outcome asked effect after rfl
  obtain ⟨first, second, hBefore, hStep, -⟩ := hShown.at
  have hPlaced := (hServed hBefore).placed call
  generalize hLast : Shown.mk (call, .returned outcome) asked effect = last at hStep
  cases hStep with
  | intro hStep =>
      cases hLast
      cases hStep with
      | «return» _ _ hCall =>
          rw [hCall] at hPlaced
          exact hPlaced

/-- A query and an upsert are under way together: the query, which came second, reads first. -/
theorem calls_linearize_overlap :
    ∃ before outcome operation r, Run (ShownStep GridReferenceIndex.backend)
        (new ⟨.withCapacity 1, ⟨1, 1, by decide⟩⟩)
        (before ++ [⟨(0, .returned outcome), none, none⟩]) r ∧
      before.map (fun shown => (shown.label.1, shown.asked.isSome, shown.effect.isSome)) =
        [(0, true, false), (1, true, false), (0, false, false), (1, false, false),
          (0, false, false), (1, false, false), (1, false, false), (1, false, false),
          (1, false, false), (1, false, true), (1, false, false), (0, false, false),
          (1, false, false), (0, false, false), (0, false, false), (0, false, true),
          (0, false, false)] ∧
      Answers before 0 operation outcome := by
  have hBegun : Run (ShownStep GridReferenceIndex.backend)
      (new ⟨.withCapacity 1, ⟨1, 1, by decide⟩⟩) _ _ :=
    ((Run.nil _).snoc (.intro (.begin _ 0 (.upsert ⟨1⟩ (.cube 0)) rfl))).snoc
      (.intro (.begin _ 1 (.queryAabbBatch [⟨.cube 0⟩] []) rfl))
  have hChecked := (((hBegun.snoc (.intro (.notDestroyed _ 0 _ false rfl rfl))).snoc
    (.intro (.notDestroyed _ 1 _ false rfl rfl))).snoc
    (.intro (.notClosing _ 0 _ false rfl rfl))).snoc (.intro (.notClosing _ 1 _ false rfl rfl))
  have hRead := (((hChecked.snoc (.intro (.acquire _ 1 _ rfl rfl rfl))).snoc
    (.intro (.notDestroyed _ 1 _ true rfl rfl))).snoc
    (.intro (.notClosing _ 1 _ true rfl rfl))).snoc (.intro (.operate _ 1 _ rfl))
  have hWritten := ((((((hRead.snoc (.intro (.unlock _ 1 _ _ rfl))).snoc
    (.intro (.acquire _ 0 _ rfl ⟨rfl, rfl⟩ rfl))).snoc (.intro (.return _ 1 _ rfl))).snoc
    (.intro (.notDestroyed _ 0 _ true rfl rfl))).snoc
    (.intro (.notClosing _ 0 _ true rfl rfl))).snoc (.intro (.operate _ 0 _ rfl)))
  have run := (hWritten.snoc (.intro (.unlock _ 0 _ _ rfl))).snoc (.intro (.return _ 0 _ rfl))
  obtain ⟨operation, hAnswers⟩ := ((calls_linearize _).2 _ _ run).2 _ 0 _ _ _ [] rfl
  exact ⟨_, _, operation, _, run, rfl, hAnswers⟩

end SpatialResource
end Spatial

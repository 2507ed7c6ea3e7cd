import LumioNativeCore.Library.Run
import Mathlib.Data.Fintype.Card
import Mathlib.Tactic

/-! The barrier with which two threads replay an interleaving
(`lumio-test-support/src/interleaving.rs`): a call of `arrive_and_wait` from the lock to where it
gives the lock up again is one section. -/
namespace Platform

open Transition

/-- `PARTICIPANTS`. -/
def participants : Nat := 2

abbrev Participant : Type := Fin participants

/-- Where a thread stands in its call. It sleeps `ahead` of its step, or `waiting` for the end of
a phase; one that was woken looks again. -/
inductive ArrivalStage where
  | idle
  | arriving (step : String)
  | ahead (step : String)
  | waiting (phase : Nat)
  | woken (phase : Nat)
  | panicked
  deriving DecidableEq

namespace ArrivalStage

/-- What `notify_all` does to a thread. -/
def wake : ArrivalStage → ArrivalStage
  | ahead step => arriving step
  | waiting phase => woken phase
  | stage => stage

def sleeps : ArrivalStage → Bool
  | ahead _ => true
  | waiting _ => true
  | _ => false

end ArrivalStage

inductive ArrivalEvent where
  | called (step : String)
  | slept
  | returned
  | panicked
  | roused
  deriving DecidableEq

structure Interleaving where
  steps : List String
  phase : Nat
  arrived : Nat
  poisoned : Bool
  stages : Participant → ArrivalStage

namespace Interleaving

def new (steps : List String) : Interleaving where
  steps := steps
  phase := 0
  arrived := 0
  poisoned := false
  stages _ := .idle

def move (s : Interleaving) (t : Participant) (stage : ArrivalStage) : Interleaving :=
  { s with stages := Function.update s.stages t stage }

/-- A thread that panics with the lock poisons it. -/
def panic (s : Interleaving) (t : Participant) : ArrivalEvent × Interleaving :=
  (.panicked, { s.move t .panicked with poisoned := true })

/-- The last one to arrive ends the phase. -/
def release (s : Interleaving) (t : Participant) : Interleaving :=
  { s with
    arrived := 0
    phase := s.phase + 1
    stages := Function.update (fun t => (s.stages t).wake) t .idle }

/-- From the lock, or from the first wait, on. -/
def arrive (s : Interleaving) (t : Participant) (step : String) : ArrivalEvent × Interleaving :=
  if s.poisoned then s.panic t
  else
    match s.steps[s.phase]? with
    | some current =>
        if current = step then
          if s.arrived + 1 = participants then (.returned, s.release t)
          else (.slept, { s.move t (.waiting s.phase) with arrived := s.arrived + 1 })
        else if step ∈ s.steps.drop s.phase then (.slept, s.move t (.ahead step))
        else s.panic t
    | none => s.panic t

/-- From the second wait on. -/
def resume (s : Interleaving) (t : Participant) (waitingPhase : Nat) :
    ArrivalEvent × Interleaving :=
  if s.poisoned then s.panic t
  else if s.phase = waitingPhase then (.slept, s.move t (.waiting waitingPhase))
  else (.returned, s.move t .idle)

/-- A thread may also wake up without a notification. -/
inductive Step : Interleaving → Participant × ArrivalEvent → Interleaving → Prop where
  | call {s : Interleaving} {t : Participant} (step : String) (hIdle : s.stages t = .idle) :
      Step s (t, .called step) (s.move t (.arriving step))
  | arrive {s : Interleaving} {t : Participant} {step : String}
      (hStage : s.stages t = .arriving step) :
      Step s (t, (s.arrive t step).1) (s.arrive t step).2
  | resume {s : Interleaving} {t : Participant} {waitingPhase : Nat}
      (hStage : s.stages t = .woken waitingPhase) :
      Step s (t, (s.resume t waitingPhase).1) (s.resume t waitingPhase).2
  | rouse {s : Interleaving} {t : Participant} (hSleeps : (s.stages t).sleeps) :
      Step s (t, .roused) (s.move t (s.stages t).wake)

end Interleaving

/-! Readings of a trace. -/

namespace ArrivalEvent

def called? : ArrivalEvent → Option String
  | called step => some step
  | _ => none

def isCalled : ArrivalEvent → Bool
  | called _ => true
  | _ => false

/-- A section of a call in progress. -/
def isInner : ArrivalEvent → Bool
  | slept => true
  | returned => true
  | panicked => true
  | _ => false

end ArrivalEvent

/-- The steps that a thread has called for. -/
def calledBy (t : Participant) (trace : List (Participant × ArrivalEvent)) : List String :=
  trace.filterMap fun entry => if entry.1 = t then entry.2.called? else none

/-- How often a thread has done what `p` picks. -/
def countBy (t : Participant) (p : ArrivalEvent → Bool)
    (trace : List (Participant × ArrivalEvent)) : Nat :=
  trace.countP fun entry => entry.1 = t && p entry.2

section Readings

variable {t t' : Participant} (trace : List (Participant × ArrivalEvent)) (event : ArrivalEvent)

theorem calledBy_own : calledBy t (trace ++ [(t, event)]) =
    calledBy t trace ++ event.called?.toList := by
  rw [calledBy, calledBy, List.filterMap_append]
  cases hCalled : event.called? with
  | none => simp [hCalled]
  | some step => simp [hCalled]

theorem countBy_own (p : ArrivalEvent → Bool) : countBy t p (trace ++ [(t, event)]) =
    countBy t p trace + if p event then 1 else 0 := by
  rw [countBy, countBy, List.countP_append, List.countP_singleton]
  simp

theorem countBy_other (h : t' ≠ t) (p : ArrivalEvent → Bool) :
    countBy t p (trace ++ [(t', event)]) = countBy t p trace := by
  rw [countBy, countBy, List.countP_append, List.countP_singleton]
  simp [h]

theorem calledBy_length (t : Participant) (trace : List (Participant × ArrivalEvent)) :
    (calledBy t trace).length = countBy t ArrivalEvent.isCalled trace := by
  rw [calledBy, countBy, List.length_filterMap_eq_countP]
  congr 1
  funext entry
  obtain ⟨t', event⟩ := entry
  by_cases hThread : t' = t
  · cases event <;> simp [hThread, ArrivalEvent.called?, ArrivalEvent.isCalled]
  · simp [hThread]

theorem calledBy_before (t : Participant) (before after : List (Participant × ArrivalEvent)) :
    calledBy t before <+: calledBy t (before ++ after) := by
  rw [calledBy, calledBy, List.filterMap_append]
  exact List.prefix_append _ _

theorem walks_snoc {called steps : List String} (h : called <+: steps)
    (hNext : called.length < steps.length) : called ++ [steps[called.length]] <+: steps := by
  obtain ⟨rest, rfl⟩ := h
  cases rest with
  | nil => simp at hNext
  | cons step rest => simp

end Readings

/-- What a thread has done so far. -/
structure Tally where
  called : Nat
  returned : Nat
  slept : Nat
  roused : Nat

def tallyOf (t : Participant) (trace : List (Participant × ArrivalEvent)) : Tally where
  called := countBy t ArrivalEvent.isCalled trace
  returned := countBy t (· == .returned) trace
  slept := countBy t (· == .slept) trace
  roused := countBy t (· == .roused) trace

def Tally.add (tally : Tally) : ArrivalEvent → Tally
  | .called _ => { tally with called := tally.called + 1 }
  | .slept => { tally with slept := tally.slept + 1 }
  | .returned => { tally with returned := tally.returned + 1 }
  | .panicked => tally
  | .roused => { tally with roused := tally.roused + 1 }

theorem tallyOf_own (t : Participant) (trace : List (Participant × ArrivalEvent))
    (event : ArrivalEvent) : tallyOf t (trace ++ [(t, event)]) = (tallyOf t trace).add event := by
  simp only [tallyOf, countBy_own]
  cases event <;> rfl

theorem tallyOf_other {t t' : Participant} (trace : List (Participant × ArrivalEvent))
    (event : ArrivalEvent) (h : t' ≠ t) :
    tallyOf t (trace ++ [(t', event)]) = tallyOf t trace := by
  simp only [tallyOf, countBy_other trace event h]

/-- Without a panic, what is not a wake-up by chance is a call, its return or a sleep in it. -/
theorem countBy_turns {trace : List (Participant × ArrivalEvent)}
    (hCalm : ∀ t, (t, .panicked) ∉ trace) (t : Participant) :
    countBy t (· != .roused) trace =
      (tallyOf t trace).called + (tallyOf t trace).returned + (tallyOf t trace).slept := by
  induction trace using List.reverseRecOn with
  | nil => rfl
  | append_singleton before entry ih =>
      have hBefore := ih fun t hMem => hCalm t (List.mem_append_left _ hMem)
      obtain ⟨t', event⟩ := entry
      rcases eq_or_ne t' t with rfl | hThread
      · rw [countBy_own, tallyOf_own, hBefore]
        cases event with
        | panicked => exact absurd (List.mem_append_right _ (List.mem_singleton_self _)) (hCalm t')
        | roused => rfl
        | _ =>
            simp only [Tally.add, bne_iff_ne, ne_eq, reduceCtorEq, not_false_eq_true, if_true]
            omega
      · rw [countBy_other before event hThread, tallyOf_other before event hThread]
        exact hBefore

namespace ArrivalStage

/-- A thread is counted for the phase it waits for, also after it woke up. -/
def isAt (phase : Nat) : ArrivalStage → Bool
  | waiting w => w = phase
  | woken w => w = phase
  | _ => false

/-- The stage of a thread that walks the steps, while the barrier is in a phase. Nobody is ahead
or behind by more than the call in progress, and every sleep of a call but one is owed to a
wake-up without a notification. -/
def Stands (steps : List String) (phase : Nat) (tally : Tally) : ArrivalStage → Prop
  | idle => tally.called = phase ∧ tally.returned = phase ∧
      tally.slept ≤ tally.called + tally.roused
  | arriving step => tally.called = phase + 1 ∧ tally.returned = phase ∧
      steps[phase]? = some step ∧ tally.slept + 1 ≤ tally.called + tally.roused
  | ahead _ => False
  | waiting w => w = phase ∧ tally.called = phase + 1 ∧ tally.returned = phase ∧
      tally.slept ≤ tally.called + tally.roused
  | woken w => tally.called = w + 1 ∧ tally.returned = w ∧
      (w = phase ∧ tally.slept + 1 ≤ tally.called + tally.roused ∨
        w + 1 = phase ∧ tally.slept ≤ tally.called + tally.roused)
  | panicked => False

variable {steps : List String} {phase : Nat} {tally : Tally} {stage : ArrivalStage}

/-- Everyone who waits for the phase is released by its end. -/
theorem Stands.wake (h : stage.Stands steps phase tally) (hAt : stage.isAt phase) :
    stage.wake.Stands steps (phase + 1) tally ∧ stage.wake.isAt (phase + 1) = false := by
  cases stage with
  | waiting w =>
      obtain ⟨rfl, hCalled, hReturned, hSlept⟩ := h
      exact ⟨⟨hCalled, hReturned, Or.inr ⟨rfl, hSlept⟩⟩, by simp [ArrivalStage.wake, isAt]⟩
  | woken w =>
      obtain rfl : w = phase := by simpa [isAt] using hAt
      obtain ⟨hCalled, hReturned, ⟨-, hSlept⟩ | ⟨hNext, -⟩⟩ := h
      · exact ⟨⟨hCalled, hReturned, Or.inr ⟨rfl, by omega⟩⟩, by simp [ArrivalStage.wake, isAt]⟩
      · omega
  | _ => cases hAt

/-- A thread waking up on its own. -/
theorem Stands.rouse (h : stage.Stands steps phase tally) (hSleeps : stage.sleeps) :
    stage.wake.Stands steps phase (tally.add .roused) ∧
      stage.wake.isAt phase = stage.isAt phase := by
  cases stage with
  | waiting w =>
      obtain ⟨rfl, hCalled, hReturned, hSlept⟩ := h
      exact ⟨⟨hCalled, hReturned, Or.inl ⟨rfl, by simp only [Tally.add]; omega⟩⟩, rfl⟩
  | ahead step => exact h.elim
  | _ => cases hSleeps

theorem Stands.called (h : stage.Stands steps phase tally) :
    phase ≤ tally.called ∧ tally.called ≤ tally.returned + 1 ∧ tally.returned ≤ phase ∧
      tally.slept ≤ tally.called + tally.roused := by
  cases stage with
  | idle =>
      obtain ⟨hCalled, hReturned, hSlept⟩ := h
      omega
  | arriving step =>
      obtain ⟨hCalled, hReturned, -, hSlept⟩ := h
      omega
  | waiting w =>
      obtain ⟨hPhase, hCalled, hReturned, hSlept⟩ := h
      omega
  | woken w =>
      obtain ⟨hCalled, hReturned, ⟨hPhase, hSlept⟩ | ⟨hPhase, hSlept⟩⟩ := h
      · omega
      · omega
  | ahead step => exact h.elim
  | panicked => exact h.elim

end ArrivalStage

namespace Interleaving

variable {s s' : Interleaving} {t : Participant} {event : ArrivalEvent} {steps : List String}
  {trace : List (Participant × ArrivalEvent)}

/-- The threads that are counted for the current phase. -/
def atBarrier (s : Interleaving) : Finset Participant :=
  Finset.univ.filter fun t => (s.stages t).isAt s.phase

theorem mem_atBarrier : t ∈ s.atBarrier ↔ (s.stages t).isAt s.phase = true := by
  simp [atBarrier]

/-- What holds between the sections of threads that walk the steps. -/
structure Walking (steps : List String) (trace : List (Participant × ArrivalEvent))
    (s : Interleaving) : Prop where
  sameSteps : s.steps = steps
  sound : s.poisoned = false
  stands : ∀ t, (s.stages t).Stands steps s.phase (tallyOf t trace)
  arrived : s.arrived = s.atBarrier.card
  within : s.arrived < participants
  calm : ∀ t, (t, .panicked) ∉ trace

theorem walking_new (steps : List String) : Walking steps [] (new steps) where
  sameSteps := rfl
  sound := rfl
  stands _ := ⟨rfl, rfl, Nat.zero_le _⟩
  arrived := by simp [atBarrier, new, ArrivalStage.isAt]
  within := Nat.zero_lt_two
  calm _ := List.not_mem_nil

/-- A section that leaves the phase and the other threads alone. -/
theorem Walking.move (h : Walking steps trace s) (hEvent : event ≠ .panicked)
    {stage : ArrivalStage} {arrived : Nat}
    (hStands : stage.Stands steps s.phase ((tallyOf t trace).add event))
    (hArrived : arrived = ({ s.move t stage with arrived := arrived } : Interleaving).atBarrier.card)
    (hWithin : arrived < participants) :
    Walking steps (trace ++ [(t, event)]) { s.move t stage with arrived := arrived } where
  sameSteps := h.sameSteps
  sound := h.sound
  stands t' := by
    rcases eq_or_ne t' t with rfl | hThread
    · rw [tallyOf_own]
      simpa [Interleaving.move] using hStands
    · rw [tallyOf_other trace event hThread.symm]
      simpa [Interleaving.move, hThread] using h.stands t'
  arrived := hArrived
  within := hWithin
  calm t' := by
    rw [List.mem_append, not_or]
    exact ⟨h.calm t', by simpa using fun _ hSame => hEvent hSame.symm⟩

/-- A section that also leaves the count alone. -/
theorem Walking.stay (h : Walking steps trace s) (hEvent : event ≠ .panicked)
    {stage : ArrivalStage}
    (hStands : stage.Stands steps s.phase ((tallyOf t trace).add event))
    (hAt : stage.isAt s.phase = (s.stages t).isAt s.phase) :
    Walking steps (trace ++ [(t, event)]) (s.move t stage) := by
  refine h.move hEvent hStands ?_ h.within
  rw [h.arrived]
  congr 1
  ext t'
  rw [mem_atBarrier, mem_atBarrier]
  rcases eq_or_ne t' t with rfl | hThread
  · simp [Interleaving.move, hAt]
  · simp [Interleaving.move, hThread]

/-- The last one to arrive finds everyone else at the barrier. -/
theorem Walking.others_at (h : Walking steps trace s) (hOut : (s.stages t).isAt s.phase = false)
    (hLast : s.arrived + 1 = participants) {t' : Participant} (hThread : t' ≠ t) :
    (s.stages t').isAt s.phase = true := by
  have hSubset : s.atBarrier ⊆ Finset.univ.erase t := by
    intro other hOther
    refine Finset.mem_erase.mpr ⟨?_, Finset.mem_univ other⟩
    rintro rfl
    rw [mem_atBarrier, hOut] at hOther
    cases hOther
  have hCard : (Finset.univ.erase t).card ≤ s.atBarrier.card := by
    rw [Finset.card_erase_of_mem (Finset.mem_univ t), Finset.card_univ, Fintype.card_fin,
      ← h.arrived]
    omega
  rw [← mem_atBarrier, Finset.eq_of_subset_of_card_le hSubset hCard]
  exact Finset.mem_erase.mpr ⟨hThread, Finset.mem_univ t'⟩

@[simp] theorem release_self (s : Interleaving) (t : Participant) :
    (s.release t).stages t = .idle := by
  simp [Interleaving.release]

theorem release_of_ne (s : Interleaving) {t t' : Participant} (hThread : t' ≠ t) :
    (s.release t).stages t' = (s.stages t').wake := by
  simp [Interleaving.release, hThread]

theorem Walking.release (h : Walking steps trace s) {step : String}
    (hStage : s.stages t = .arriving step) (hLast : s.arrived + 1 = participants) :
    Walking steps (trace ++ [(t, .returned)]) (s.release t) := by
  have hOut : (s.stages t).isAt s.phase = false := by rw [hStage]; rfl
  have hWoken := fun t' (hThread : t' ≠ t) => (h.stands t').wake (h.others_at hOut hLast hThread)
  have hStands := h.stands t
  rw [hStage] at hStands
  obtain ⟨hCalled, hReturned, -, hSlept⟩ := hStands
  constructor
  case sameSteps => exact h.sameSteps
  case sound => exact h.sound
  case within => exact Nat.zero_lt_two
  case calm => simpa using h.calm
  case stands =>
    intro t'
    rcases eq_or_ne t' t with rfl | hThread
    · rw [tallyOf_own, release_self]
      simp only [ArrivalStage.Stands, Tally.add, Interleaving.release]
      omega
    · rw [tallyOf_other trace _ hThread.symm, release_of_ne s hThread]
      exact (hWoken t' hThread).1
  case arrived =>
    symm
    show (s.release t).atBarrier.card = 0
    rw [Finset.card_eq_zero, Finset.eq_empty_iff_forall_notMem]
    intro t'
    rw [mem_atBarrier]
    rcases eq_or_ne t' t with rfl | hThread
    · simp [ArrivalStage.isAt]
    · rw [release_of_ne s hThread]
      exact Bool.eq_false_iff.mp (hWoken t' hThread).2

theorem Walking.arrive (h : Walking steps trace s) {step : String}
    (hStage : s.stages t = .arriving step) :
    Walking steps (trace ++ [(t, (s.arrive t step).1)]) (s.arrive t step).2 := by
  have hStands := h.stands t
  rw [hStage] at hStands
  obtain ⟨hCalled, hReturned, hStep, hSlept⟩ := hStands
  have hOut : (s.stages t).isAt s.phase = false := by rw [hStage]; rfl
  have hWithin := h.within
  obtain rfl := h.sameSteps
  simp only [Interleaving.arrive, h.sound, hStep, if_true, Bool.false_eq_true, if_false]
  split_ifs with hLast
  · exact h.release hStage hLast
  · refine h.move (by simp) ?_ ?_ (by omega)
    · simp only [ArrivalStage.Stands, Tally.add, true_and]
      omega
    · have hInsert : ({ s.move t (.waiting s.phase) with
          arrived := s.arrived + 1 } : Interleaving).atBarrier = insert t s.atBarrier := by
        ext t'
        rw [Finset.mem_insert, mem_atBarrier, mem_atBarrier]
        rcases eq_or_ne t' t with rfl | hThread
        · simp [Interleaving.move, ArrivalStage.isAt]
        · simp [Interleaving.move, hThread]
      have hNew : t ∉ s.atBarrier := by rw [mem_atBarrier, hOut]; simp
      rw [hInsert, Finset.card_insert_of_notMem hNew, h.arrived]

theorem Walking.resume (h : Walking steps trace s) {waitingPhase : Nat}
    (hStage : s.stages t = .woken waitingPhase) :
    Walking steps (trace ++ [(t, (s.resume t waitingPhase).1)]) (s.resume t waitingPhase).2 := by
  have hStands := h.stands t
  rw [hStage] at hStands
  obtain ⟨hCalled, hReturned, hPhase⟩ := hStands
  simp only [Interleaving.resume, h.sound, Bool.false_eq_true, if_false]
  split_ifs with hSame
  · refine h.stay (by simp) ?_ (by simp [hStage, ArrivalStage.isAt])
    simp only [ArrivalStage.Stands, Tally.add]
    omega
  · refine h.stay (by simp) ?_ ?_
    · simp only [ArrivalStage.Stands, Tally.add]
      omega
    · rw [hStage]
      simpa [ArrivalStage.isAt] using Ne.symm hSame

theorem Walking.call (h : Walking steps trace s) {step : String} (hIdle : s.stages t = .idle)
    (hStep : steps[(tallyOf t trace).called]? = some step) :
    Walking steps (trace ++ [(t, .called step)]) (s.move t (.arriving step)) := by
  have hStands := h.stands t
  rw [hIdle] at hStands
  obtain ⟨hCalled, hReturned, hSlept⟩ := hStands
  refine h.stay (by simp) ?_ (by rw [hIdle]; rfl)
  refine ⟨by simp only [Tally.add]; omega, hReturned, hCalled ▸ hStep, ?_⟩
  simp only [Tally.add]
  omega

theorem Walking.step (h : Walking steps trace s) (hStep : Step s (t, event) s')
    (hScript : calledBy t (trace ++ [(t, event)]) <+: steps) :
    Walking steps (trace ++ [(t, event)]) s' := by
  cases hStep with
  | call step hIdle =>
      refine h.call hIdle ?_
      rw [calledBy_own] at hScript
      obtain ⟨rest, rfl⟩ := hScript
      rw [tallyOf, ← calledBy_length]
      simp [ArrivalEvent.called?]
  | arrive hStage => exact h.arrive hStage
  | resume hStage => exact h.resume hStage
  | rouse hSleeps =>
      obtain ⟨hStands, hAt⟩ := (h.stands t).rouse hSleeps
      exact h.stay (by simp) hStands hAt

theorem walking_of_run (run : Run Step (new steps) trace s)
    (hScript : ∀ t, calledBy t trace <+: steps) : Walking steps trace s := by
  induction run with
  | nil => exact walking_new steps
  | @snoc w s' before entry _ hStep ih =>
      have hBefore := ih fun t => (calledBy_before t before [entry]).trans (hScript t)
      exact hBefore.step hStep (hScript entry.1)

theorem arrive_isInner (s : Interleaving) (t : Participant) (step : String) :
    (s.arrive t step).1.isInner = true := by
  rw [Interleaving.arrive]
  cases s.poisoned with
  | true => rfl
  | false =>
      cases s.steps[s.phase]? with
      | none => rfl
      | some current =>
          simp only [Bool.false_eq_true, if_false]
          split_ifs <;> rfl

theorem resume_isInner (s : Interleaving) (t : Participant) (waitingPhase : Nat) :
    (s.resume t waitingPhase).1.isInner = true := by
  rw [Interleaving.resume]
  split_ifs <;> rfl

/-- A thread that cannot go on is between its calls or waits for the others. -/
theorem Walking.stuck (h : Walking steps trace s)
    (hStuck : ∀ event s', event.isInner → ¬Step s (t, event) s') :
    s.stages t = .idle ∨ s.stages t = .waiting s.phase := by
  have hStands := h.stands t
  cases hStage : s.stages t with
  | idle => exact Or.inl rfl
  | arriving step => exact absurd (.arrive hStage) (hStuck _ _ (s.arrive_isInner t step))
  | waiting w =>
      rw [hStage] at hStands
      exact Or.inr (congrArg ArrivalStage.waiting hStands.1)
  | woken waitingPhase =>
      exact absurd (.resume hStage) (hStuck _ _ (s.resume_isInner t waitingPhase))
  | ahead step =>
      rw [hStage] at hStands
      exact hStands.elim
  | panicked =>
      rw [hStage] at hStands
      exact hStands.elim

/-- Short of the end some thread can go on without being woken by chance. -/
theorem Walking.progress (h : Walking steps trace s) (hScript : ∀ t, calledBy t trace <+: steps)
    (hEnd : ∃ t, (tallyOf t trace).returned ≠ steps.length) :
    ∃ t event s', Step s (t, event) s' ∧ (event.isInner = true ∨
      ∃ step, event = .called step ∧ calledBy t (trace ++ [(t, event)]) <+: steps) := by
  by_contra hNone
  push Not at hNone
  have hStages : ∀ t, s.stages t = .idle ∨ s.stages t = .waiting s.phase := fun t =>
    h.stuck fun event s' hInner hStep => absurd hInner (hNone t event s' hStep).1
  have hCalled : ∀ t, (tallyOf t trace).called ≤ steps.length := by
    intro t
    rw [tallyOf, ← calledBy_length]
    exact (hScript t).length_le
  -- an idle thread has walked all steps, or it could call for the next
  have hIdle : ∀ t, s.stages t = .idle → s.phase = steps.length := by
    intro t hStage
    have hStands := h.stands t
    rw [hStage] at hStands
    obtain ⟨hPhase, -⟩ := hStands
    by_contra hShort
    have hNext : (calledBy t trace).length < steps.length := by
      have hLength := hCalled t
      rw [tallyOf, ← calledBy_length] at hPhase hLength
      dsimp only at hPhase hLength
      omega
    refine (hNone t _ _ (.call steps[(calledBy t trace).length] hStage)).2 _ rfl ?_
    rw [calledBy_own]
    exact walks_snoc (hScript t) hNext
  by_cases hAll : ∀ t, s.stages t = .waiting s.phase
  · have hFull : s.atBarrier = Finset.univ := by
      ext t
      rw [mem_atBarrier, hAll t]
      simp [ArrivalStage.isAt]
    have hWithin := h.within
    rw [h.arrived, hFull, Finset.card_univ, Fintype.card_fin] at hWithin
    exact absurd hWithin (Nat.lt_irrefl _)
  · obtain ⟨t, hOther⟩ := not_forall.mp hAll
    have hPhase := hIdle t ((hStages t).resolve_right hOther)
    obtain ⟨t', hReturned⟩ := hEnd
    have hStands := h.stands t'
    have hLength := hCalled t'
    rcases hStages t' with hStage | hStage
    · rw [hStage] at hStands
      exact hReturned (hStands.2.1.trans hPhase)
    · rw [hStage] at hStands
      obtain ⟨-, hBeyond, -⟩ := hStands
      omega

/-- Threads that walk the same steps meet at each of them, in any order of their sections and
with any wake-ups by chance. None panics, none leaves a step before all have come to it, some
thread can go on until all have walked to the end, and a thread takes no more turns than three
for each step and one for each of its wake-ups by chance. -/
theorem rendezvous (run : Run Step (new steps) trace s)
    (hScript : ∀ t, calledBy t trace <+: steps) :
    (∀ t, (t, .panicked) ∉ trace) ∧
    (∀ t t', countBy t (· == .returned) trace ≤ (calledBy t' trace).length) ∧
    ((∃ t, countBy t (· == .returned) trace ≠ steps.length) →
      ∃ t event s', Step s (t, event) s' ∧ (event.isInner = true ∨
        ∃ step, event = .called step ∧ calledBy t (trace ++ [(t, event)]) <+: steps)) ∧
    ∀ t, countBy t (· != .roused) trace ≤
      3 * steps.length + countBy t (· == .roused) trace := by
  have h := walking_of_run run hScript
  refine ⟨h.calm, fun t t' => ?_, h.progress hScript, fun t => ?_⟩
  · obtain ⟨-, -, hLeft, -⟩ := (h.stands t).called
    obtain ⟨hCame, -⟩ := (h.stands t').called
    rw [calledBy_length]
    exact hLeft.trans hCame
  · obtain ⟨hPhase, -, hReturned, hSlept⟩ := (h.stands t).called
    have hLength := (hScript t).length_le
    have hRoused : (tallyOf t trace).roused = countBy t (· == .roused) trace := rfl
    have hCalled : (tallyOf t trace).called = (calledBy t trace).length :=
      (calledBy_length t trace).symm
    rw [countBy_turns h.calm]
    omega

/-- One thread arrives and sleeps, the other one arrives and releases it. -/
def pairTrace : List (Participant × ArrivalEvent) :=
  [(⟨0, Nat.zero_lt_two⟩, .called "a"), (⟨0, Nat.zero_lt_two⟩, .slept),
    (⟨1, Nat.one_lt_two⟩, .called "a"), (⟨1, Nat.one_lt_two⟩, .returned),
    (⟨0, Nat.zero_lt_two⟩, .returned)]

theorem rendezvous_pair :
    ∃ s, Run Step (new ["a"]) pairTrace s ∧ (∀ t, calledBy t pairTrace <+: ["a"]) ∧
      s.phase = 1 ∧ ∀ t, (t, .panicked) ∉ pairTrace := by
  have run : Run Step (new ["a"]) pairTrace _ :=
    (((((Run.nil _).snoc (@Step.call _ ⟨0, Nat.zero_lt_two⟩ "a" rfl)).snoc
      (@Step.arrive _ ⟨0, Nat.zero_lt_two⟩ "a" rfl)).snoc
      (@Step.call _ ⟨1, Nat.one_lt_two⟩ "a" rfl)).snoc
      (@Step.arrive _ ⟨1, Nat.one_lt_two⟩ "a" rfl)).snoc
      (@Step.resume _ ⟨0, Nat.zero_lt_two⟩ 0 rfl)
  have hScript : ∀ t, calledBy t pairTrace <+: ["a"] := by decide
  exact ⟨_, run, hScript, rfl, (rendezvous run hScript).1⟩

end Interleaving
end Platform

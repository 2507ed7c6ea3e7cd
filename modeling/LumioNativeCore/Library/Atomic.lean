import LumioNativeCore.Library.Machine
import LumioNativeCore.Library.Run
import Mathlib.Algebra.BigOperators.Group.Finset.Piecewise

/-! Code that shares one atomic cell. A call goes through stages, each of which makes
one access to the cell, and the accesses of all threads interleave in any order. -/
namespace Atomic

open Transition

universe u v w x y z
variable {V : Type u} {Stage : Type v} {Call : Type w} {Answer : Type x} {Thread : Type y}

/-- What code does next. An exchange that fails has the value it found for its error,
and a weak one may fail at any value. -/
inductive Access (V : Type u) (Stage : Type v) (Answer : Type x) where
  | load (next : V → Stage)
  | compareExchange (weak : Bool) (current new : V) (next : Except V V → Stage)
  | done (answer : Answer)

/-- What an access saw of the cell. -/
inductive Observation (V : Type u) where
  | loaded (value : V)
  | exchanged (previous : V)
  | refused (actual : V)

def Observation.isLoad : Observation V → Bool
  | loaded _ => true
  | _ => false

namespace Access

def answer : Access V Stage Answer → Option Answer
  | done answer => some answer
  | _ => none

/-- One access at a cell that holds the first value and keeps the second. -/
inductive Runs : Access V Stage Answer → V → Observation V → V → Stage → Prop where
  | load {next : V → Stage} {value : V} :
      Runs (.load next) value (.loaded value) value (next value)
  | exchanged {weak : Bool} {current new : V} {next : Except V V → Stage} :
      Runs (.compareExchange weak current new next) current (.exchanged current) new
        (next (.ok current))
  | refused {weak : Bool} {current new actual : V} {next : Except V V → Stage}
      (hRefused : weak = true ∨ actual ≠ current) :
      Runs (.compareExchange weak current new next) actual (.refused actual) actual
        (next (.error actual))

theorem Runs.unanswered {access : Access V Stage Answer} {value value' : V} {outcome : Observation V}
    {stage : Stage} (hRuns : access.Runs value outcome value' stage) : access.answer = none := by
  cases hRuns with
  | load => rfl
  | exchanged => rfl
  | refused => rfl

theorem runs_load {next : V → Stage} {value value' : V} {outcome : Observation V} {stage : Stage}
    (hRuns : (load next : Access V Stage Answer).Runs value outcome value' stage) :
    outcome = .loaded value ∧ value' = value ∧ stage = next value := by
  cases hRuns with
  | load => exact ⟨rfl, rfl, rfl⟩

theorem runs_compareExchange {weak : Bool} {current new value value' : V}
    {next : Except V V → Stage} {outcome : Observation V} {stage : Stage}
    (hRuns : (compareExchange weak current new next : Access V Stage Answer).Runs value outcome
      value' stage) :
    (value = current ∧ value' = new ∧ stage = next (.ok current)) ∨
      ((weak = true ∨ value ≠ current) ∧ outcome = .refused value ∧ value' = value ∧
        stage = next (.error value)) := by
  cases hRuns with
  | exchanged => exact Or.inl ⟨rfl, rfl, rfl⟩
  | refused hRefused => exact Or.inr ⟨hRefused, rfl, rfl, rfl⟩

end Access

/-- The code of the calls on a cell. No call returns before its first access. -/
structure Code (V : Type u) (Stage : Type v) (Call : Type w) (Answer : Type x) where
  start : Call → Stage
  call : Stage → Call
  access : Stage → Access V Stage Answer
  call_start : ∀ c, call (start c) = c
  start_open : ∀ c, (access (start c)).answer = none
  call_next : ∀ {stage value outcome value' stage'},
    (access stage).Runs value outcome value' stage' → call stage' = call stage

/-- The answer that is all a stage has left to return. -/
def Code.answer (code : Code V Stage Call Answer) (stage : Stage) : Option Answer :=
  (code.access stage).answer

/-- A thread without a stage is in no call. -/
structure State (V : Type u) (Stage : Type v) (Thread : Type y) where
  cell : V
  stages : Thread → Option Stage

def State.initial (value : V) : State V Stage Thread where
  cell := value
  stages _ := none

/-- A thread moves to a stage and leaves a value in the cell. -/
def State.move [DecidableEq Thread] (s : State V Stage Thread) (t : Thread) (value : V)
    (stage : Option Stage) : State V Stage Thread where
  cell := value
  stages := Function.update s.stages t stage

section Move

variable [DecidableEq Thread] (s : State V Stage Thread) (t : Thread) (value : V)
  (stage : Option Stage)

@[simp] theorem State.move_self : (s.move t value stage).stages t = stage :=
  Function.update_self _ _ _

theorem State.move_of_ne {t' : Thread} (hThread : t' ≠ t) :
    (s.move t value stage).stages t' = s.stages t' :=
  Function.update_of_ne hThread _ _

end Move

/-- The effect of an access is the answer of its call when that is settled by it. -/
inductive Event (V : Type u) (Call : Type w) (Answer : Type x) where
  | invoke (call : Call)
  | access (call : Call) (outcome : Observation V) (effect : Option Answer)
  | returns (call : Call) (answer : Answer)

/-- A step of one thread. -/
inductive Step [DecidableEq Thread] (code : Code V Stage Call Answer) :
    State V Stage Thread → Thread × Event V Call Answer → State V Stage Thread → Prop where
  | invoke {s : State V Stage Thread} {t : Thread} {call : Call} (hIdle : s.stages t = none) :
      Step code s (t, .invoke call) (s.move t s.cell (some (code.start call)))
  | access {s : State V Stage Thread} {t : Thread} {stage stage' : Stage} {outcome : Observation V}
      {value : V} (hStage : s.stages t = some stage)
      (hRuns : (code.access stage).Runs s.cell outcome value stage') :
      Step code s (t, .access (code.call stage) outcome (code.answer stage'))
        (s.move t value (some stage'))
  | returns {s : State V Stage Thread} {t : Thread} {stage : Stage} {answer : Answer}
      (hStage : s.stages t = some stage) (hDone : code.answer stage = some answer) :
      Step code s (t, .returns (code.call stage) answer) (s.move t s.cell none)

namespace Event

def invoked : Event V Call Answer → Option Call
  | invoke call => some call
  | _ => none

def effect : Event V Call Answer → Option (Call × Answer)
  | access call _ (some answer) => some (call, answer)
  | _ => none

def returned : Event V Call Answer → Option (Call × Answer)
  | returns call answer => some (call, answer)
  | _ => none

def isLoad : Event V Call Answer → Bool
  | access _ outcome _ => outcome.isLoad
  | _ => false

end Event

/-- The calls with their answers in the order in which they took effect. -/
def effects (trace : List (Thread × Event V Call Answer)) : List (Call × Answer) :=
  trace.filterMap (·.2.effect)

def invocations (trace : List (Thread × Event V Call Answer)) : List Call :=
  trace.filterMap (·.2.invoked)

def returns (trace : List (Thread × Event V Call Answer)) : List (Call × Answer) :=
  trace.filterMap (·.2.returned)

theorem effects_snoc (trace : List (Thread × Event V Call Answer))
    (label : Thread × Event V Call Answer) :
    effects (trace ++ [label]) = effects trace ++ label.2.effect.toList := by
  rw [effects, effects, List.filterMap_append]
  cases hEffect : label.2.effect with
  | none => simp [hEffect]
  | some entry => simp [hEffect]

theorem effects_append (before after : List (Thread × Event V Call Answer)) :
    effects (before ++ after) = effects before ++ effects after :=
  List.filterMap_append

/-! Where a call stands in the trace. -/

/-- The thread is in the call and has only made accesses without effect in it. -/
def Invoked (t : Thread) (call : Call) (trace : List (Thread × Event V Call Answer)) : Prop :=
  ∃ before during, trace = before ++ (t, .invoke call) :: during ∧
    ∀ event ∈ during, event.1 = t → ∃ outcome, event.2 = .access call outcome none

/-- The thread's last step is the effect of the call. -/
def Effected (t : Thread) (call : Call) (answer : Answer)
    (trace : List (Thread × Event V Call Answer)) : Prop :=
  ∃ before outcome rest, trace = before ++ (t, .access call outcome (some answer)) :: rest ∧
    Invoked t call before ∧ ∀ event ∈ rest, event.1 ≠ t

/-- Calls of which each still has an access to make when the one before it returns. -/
inductive Sequential : List (Thread × Event V Call Answer) → List (Call × Answer) → Prop where
  | nil (trace : List (Thread × Event V Call Answer)) : Sequential trace []
  | snoc {before middle : List (Thread × Event V Call Answer)} {calls : List (Call × Answer)}
      {t : Thread} {call : Call} {answer : Answer} (prior : Sequential before calls)
      (hSince : ∃ event ∈ middle, event.1 = t) :
      Sequential (before ++ middle ++ [(t, .returns call answer)]) (calls ++ [(call, answer)])

theorem Sequential.single {middle : List (Thread × Event V Call Answer)} {t : Thread} {call : Call}
    {answer : Answer} (hSince : ∃ event ∈ middle, event.1 = t) :
    Sequential (middle ++ [(t, .returns call answer)]) [(call, answer)] :=
  .snoc (.nil []) hSince

section Brackets

variable {t t' : Thread} {call : Call} {answer : Answer} {event : Event V Call Answer}
  {trace : List (Thread × Event V Call Answer)}

theorem Invoked.fresh (t : Thread) (call : Call) (trace : List (Thread × Event V Call Answer)) :
    Invoked t call (trace ++ [(t, .invoke call)]) :=
  ⟨trace, [], rfl, by simp⟩

theorem Invoked.snoc (h : Invoked t call trace)
    (hEvent : t' = t → ∃ outcome, event = .access call outcome none) :
    Invoked t call (trace ++ [(t', event)]) := by
  obtain ⟨before, during, rfl, hQuiet⟩ := h
  exact ⟨before, during ++ [(t', event)], by simp,
    List.forall_mem_append.mpr ⟨hQuiet, List.forall_mem_singleton.mpr hEvent⟩⟩

theorem Effected.snoc (h : Effected t call answer trace) (hOther : t' ≠ t) :
    Effected t call answer (trace ++ [(t', event)]) := by
  obtain ⟨before, outcome, rest, rfl, hInvoked, hRest⟩ := h
  exact ⟨before, outcome, rest ++ [(t', event)], by simp, hInvoked,
    List.forall_mem_append.mpr ⟨hRest, List.forall_mem_singleton.mpr hOther⟩⟩

end Brackets

section Runs

variable [DecidableEq Thread] {code : Code V Stage Call Answer}
  {trace : List (Thread × Event V Call Answer)} {value : V} {s : State V Stage Thread}

/-- A thread's stage tells where its call stands in the trace. -/
def Placed (code : Code V Stage Call Answer) (trace : List (Thread × Event V Call Answer))
    (s : State V Stage Thread) : Prop :=
  ∀ t stage, s.stages t = some stage →
    (code.answer stage = none → Invoked t (code.call stage) trace) ∧
      ∀ answer, code.answer stage = some answer → Effected t (code.call stage) answer trace

/-- A step leaves the other threads at their stages. -/
theorem Step.stages_of_ne {s' : State V Stage Thread} {t t' : Thread} {event : Event V Call Answer}
    (hStep : Step code s (t, event) s') (hThread : t ≠ t') : s'.stages t' = s.stages t' := by
  cases hStep with
  | invoke => exact s.move_of_ne t _ _ (Ne.symm hThread)
  | access => exact s.move_of_ne t _ _ (Ne.symm hThread)
  | returns => exact s.move_of_ne t _ _ (Ne.symm hThread)

/-- What an access of a thread does, whether it has an effect or not. -/
theorem Step.access_cases {s' : State V Stage Thread} {t : Thread} {call : Call}
    {outcome : Observation V} {effect : Option Answer}
    (hStep : Step code s (t, .access call outcome effect) s') :
    ∃ stage stage', s.stages t = some stage ∧ code.call stage = call ∧
      (code.access stage).Runs s.cell outcome s'.cell stage' ∧ code.answer stage' = effect ∧
        s' = s.move t s'.cell (some stage') := by
  cases hStep with
  | access hStage hRuns => exact ⟨_, _, hStage, rfl, hRuns, rfl, rfl⟩

theorem placed_of_run (run : Run (Step code) (State.initial value) trace s) :
    Placed code trace s := by
  refine run.invariant (Placed code) ?_ ?_
  · intro t stage hStage
    cases hStage
  · intro trace s label s' hPlaced hStep t stage hStage
    obtain ⟨t', event⟩ := label
    rcases eq_or_ne t' t with rfl | hThread
    · cases hStep with
      | invoke =>
          obtain rfl : _ = stage := by simpa using hStage
          rw [code.call_start, Code.answer, code.start_open]
          exact ⟨fun _ => Invoked.fresh _ _ _, by simp⟩
      | @access _ before _ outcome _ hBefore hRuns =>
          obtain rfl : _ = stage := by simpa using hStage
          have hInvoked := (hPlaced t' before hBefore).1 hRuns.unanswered
          rw [code.call_next hRuns]
          refine ⟨fun hOpen => ?_, fun answer hAnswer => ?_⟩
          · rw [hOpen]
            exact hInvoked.snoc fun _ => ⟨outcome, rfl⟩
          · rw [hAnswer]
            exact ⟨trace, outcome, [], rfl, hInvoked, by simp⟩
      | returns => simp at hStage
    · rw [hStep.stages_of_ne hThread] at hStage
      obtain ⟨hOpen, hDone⟩ := hPlaced t stage hStage
      exact ⟨fun h => (hOpen h).snoc fun h => absurd h hThread,
        fun answer h => (hDone answer h).snoc hThread⟩

/-- A call returns what its one effect answered, after its invocation. -/
theorem effected_of_returns {before after : List (Thread × Event V Call Answer)} {t : Thread}
    {call : Call} {answer : Answer}
    (run : Run (Step code) (State.initial value) (before ++ (t, .returns call answer) :: after) s) :
    Effected t call answer before := by
  obtain ⟨middle, _, prior, last, _⟩ := run.at
  cases last with
  | returns hStage hDone => exact (placed_of_run prior t _ hStage).2 _ hDone

theorem invoked_of_effect {before after : List (Thread × Event V Call Answer)} {t : Thread}
    {call : Call} {outcome : Observation V} {answer : Answer}
    (run : Run (Step code) (State.initial value)
      (before ++ (t, .access call outcome (some answer)) :: after) s) :
    Invoked t call before := by
  obtain ⟨middle, _, prior, last, _⟩ := run.at
  obtain ⟨stage, _, hStage, rfl, hRuns, -⟩ := last.access_cases
  exact (placed_of_run prior t stage hStage).1 hRuns.unanswered

end Runs

/-! Schedules: runs that are computed from the choices in them. -/

/-- A thread invokes a call or takes its next step, at which a weak exchange may be refused. -/
inductive Choice (Call : Type w) where
  | invoke (call : Call)
  | advance
  | refuse

section Schedules

variable [DecidableEq Thread] [DecidableEq V] (code : Code V Stage Call Answer)

/-- The access of a thread at a stage. -/
def Code.advance (s : State V Stage Thread) (t : Thread) (stage : Stage) (refuse : Bool) :
    (Thread × Event V Call Answer) × State V Stage Thread :=
  match code.access stage with
  | .load next =>
      ((t, .access (code.call stage) (.loaded s.cell) (code.answer (next s.cell))),
        s.move t s.cell (some (next s.cell)))
  | .compareExchange weak current new next =>
      if s.cell = current ∧ (weak && refuse) = false then
        ((t, .access (code.call stage) (.exchanged s.cell) (code.answer (next (.ok s.cell)))),
          s.move t new (some (next (.ok s.cell))))
      else
        ((t, .access (code.call stage) (.refused s.cell) (code.answer (next (.error s.cell)))),
          s.move t s.cell (some (next (.error s.cell))))
  | .done answer => ((t, .returns (code.call stage) answer), s.move t s.cell none)

def Code.choose (s : State V Stage Thread) (t : Thread) :
    Choice Call → Option ((Thread × Event V Call Answer) × State V Stage Thread)
  | .invoke call =>
      if (s.stages t).isNone then
        some ((t, .invoke call), s.move t s.cell (some (code.start call)))
      else none
  | .advance => (s.stages t).map fun stage => code.advance s t stage false
  | .refuse => (s.stages t).map fun stage => code.advance s t stage true

def Code.schedule (s : State V Stage Thread) :
    List (Thread × Choice Call) →
      Option (List (Thread × Event V Call Answer) × State V Stage Thread)
  | [] => some ([], s)
  | (t, choice) :: rest =>
      (code.choose s t choice).bind fun (label, next) =>
        (schedule next rest).map fun (trace, last) => (label :: trace, last)

variable {code} {s s' : State V Stage Thread} {t : Thread}

theorem Code.step_advance {stage : Stage} (hStage : s.stages t = some stage) (refuse : Bool) :
    Step code s (code.advance s t stage refuse).1 (code.advance s t stage refuse).2 := by
  cases hAccess : code.access stage with
  | load next =>
      simp only [Code.advance, hAccess]
      exact .access hStage (hAccess ▸ .load)
  | done answer =>
      simp only [Code.advance, hAccess]
      exact .returns hStage (by rw [Code.answer, hAccess, Access.answer])
  | compareExchange weak current new next =>
      simp only [Code.advance, hAccess]
      split
      · next hTaken =>
          obtain ⟨rfl, -⟩ := hTaken
          exact .access hStage (hAccess ▸ .exchanged)
      · next hRefused =>
          refine .access hStage (hAccess ▸ .refused ?_)
          cases weak with
          | true => exact Or.inl rfl
          | false => exact Or.inr fun hSame => hRefused ⟨hSame, rfl⟩

theorem Code.step_choose {choice : Choice Call} {label : Thread × Event V Call Answer}
    (h : code.choose s t choice = some (label, s')) : Step code s label s' := by
  cases choice with
  | invoke call =>
      obtain ⟨hIdle, hNext⟩ := Option.ite_none_right_eq_some.mp h
      cases hNext
      exact .invoke (Option.isNone_iff_eq_none.mp hIdle)
  | advance =>
      obtain ⟨stage, hStage, hNext⟩ := Option.map_eq_some_iff.mp h
      have hStep := code.step_advance hStage false
      rwa [hNext] at hStep
  | refuse =>
      obtain ⟨stage, hStage, hNext⟩ := Option.map_eq_some_iff.mp h
      have hStep := code.step_advance hStage true
      rwa [hNext] at hStep

theorem Code.run_schedule {choices : List (Thread × Choice Call)}
    {trace : List (Thread × Event V Call Answer)}
    (h : code.schedule s choices = some (trace, s')) : Run (Step code) s trace s' := by
  induction choices generalizing s trace with
  | nil =>
      cases h
      exact Run.nil _
  | cons choice rest ih =>
      rw [Code.schedule, Option.bind_eq_some_iff] at h
      obtain ⟨⟨label, next⟩, hChoice, h⟩ := h
      obtain ⟨⟨later, last⟩, hLater, h⟩ := Option.map_eq_some_iff.mp h
      cases h
      exact ((Run.nil s).snoc (Code.step_choose hChoice)).trans (ih hLater)

end Schedules
end Atomic

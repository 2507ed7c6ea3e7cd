import LumioNativeCore.Library.Linear

/-! Calls on an atomic cell that read it, compute what shall follow and exchange the two until
nobody has come between, as `fetch_update` does. -/
namespace Atomic

open Transition

universe u v w x y
variable {V : Type u} {Call : Type v} {Answer : Type w} {Thread : Type y}

/-- What shall follow a value, if anything, and what is answered to the value that was replaced
or to the one that was not. -/
structure Update (V : Type u) (Call : Type v) (Answer : Type w) where
  next : Call → V → Option V
  reply : Call → Except V V → Answer

/-- A call has found `current` at the top of its loop, or has replaced `previous`. -/
inductive UpdateStage (V : Type u) (Call : Type v) where
  | start (call : Call)
  | loaded (call : Call) (current : V)
  | replaced (call : Call) (previous : V)

namespace UpdateStage

def call : UpdateStage V Call → Call
  | start call => call
  | loaded call _ => call
  | replaced call _ => call

/-- How a turn of the loop ends. -/
def turn (call : Call) : Except V V → UpdateStage V Call
  | .ok previous => replaced call previous
  | .error actual => loaded call actual

end UpdateStage

namespace Update

open UpdateStage

variable (update : Update V Call Answer)

def access : UpdateStage V Call → Access V (UpdateStage V Call) Answer
  | start call => .load (loaded call)
  | loaded call current =>
      match update.next call current with
      | some new => .compareExchange true current new (turn call)
      | none => .done (update.reply call (.error current))
  | replaced call previous => .done (update.reply call (.ok previous))

/-- The call as a whole. -/
def serve (value : V) (call : Call) : Answer × V :=
  match update.next call value with
  | some new => (update.reply call (.ok value), new)
  | none => (update.reply call (.error value), value)

theorem serve_of_next {call : Call} {value new : V} (h : update.next call value = some new) :
    update.serve value call = (update.reply call (.ok value), new) := by
  simp only [serve, h]

theorem serve_of_none {call : Call} {value : V} (h : update.next call value = none) :
    update.serve value call = (update.reply call (.error value), value) := by
  simp only [serve, h]

variable {update} {stage stage' : UpdateStage V Call} {value value' : V} {outcome : Observation V}

/-- A read, or an exchange that fails, goes to the top of the loop. -/
theorem runs_cases (hRuns : (update.access stage).Runs value outcome value' stage') :
    value' = value ∧ stage' = loaded stage.call value ∨
      update.next stage.call value = some value' ∧ stage' = replaced stage.call value := by
  cases stage with
  | start call =>
      obtain ⟨-, rfl, rfl⟩ := Access.runs_load hRuns
      exact Or.inl ⟨rfl, rfl⟩
  | loaded call current =>
      cases hNext : update.next call current with
      | none =>
          simp only [access, hNext] at hRuns
          cases hRuns
      | some new =>
          simp only [access, hNext] at hRuns
          rcases Access.runs_compareExchange hRuns with ⟨rfl, rfl, rfl⟩ | ⟨-, -, rfl, rfl⟩
          · exact Or.inr ⟨hNext, rfl⟩
          · exact Or.inl ⟨rfl, rfl⟩
  | replaced call previous => cases hRuns

variable (update)

def code : Code V (UpdateStage V Call) Call Answer where
  start := start
  call := UpdateStage.call
  access := update.access
  call_start _ := rfl
  start_open _ := rfl
  call_next hRuns := by
    rcases runs_cases hRuns with ⟨-, rfl⟩ | ⟨-, rfl⟩
    · rfl
    · rfl

variable {update}

theorem answer_loaded {call : Call} {current : V} {answer : Answer}
    (h : update.code.answer (loaded call current) = some answer) :
    update.serve current call = (answer, current) := by
  have hAccess : (update.access (loaded call current)).answer = some answer := h
  cases hNext : update.next call current with
  | some new =>
      simp only [access, hNext] at hAccess
      cases hAccess
  | none =>
      simp only [access, hNext] at hAccess
      cases hAccess
      exact update.serve_of_none hNext

/-- The calls happen one after the other, each at its last access. -/
theorem linear : Linear update.code update.serve Eq where
  waits := by
    rintro σ stage value outcome value' stage' rfl hRuns hOpen
    rcases runs_cases hRuns with ⟨rfl, -⟩ | ⟨-, rfl⟩
    · rfl
    · cases hOpen
  serves := by
    rintro σ stage value outcome value' stage' answer rfl hRuns hAnswer
    rcases runs_cases hRuns with ⟨rfl, rfl⟩ | ⟨hNext, rfl⟩
    · exact Prod.mk.inj (answer_loaded hAnswer)
    · rw [show update.code.call stage = stage.call from rfl, update.serve_of_next hNext]
      cases hAnswer
      exact ⟨rfl, rfl⟩

variable [DecidableEq Thread] {trace : List (Thread × Event V Call Answer)}
  {s s' : State V (UpdateStage V Call) Thread}

/-- What holds between a value and the next holds between any two moments. -/
theorem kept (relation : V → V → Prop) (hRefl : ∀ value, relation value value)
    (hTrans : ∀ {value value' value''}, relation value value' → relation value' value'' →
      relation value value'')
    (hNext : ∀ call value new, update.next call value = some new → relation value new)
    (run : Run (Step update.code) s trace s') : relation s.cell s'.cell := by
  obtain ⟨_, rfl, hKept⟩ := update.linear.kept relation hRefl hTrans (fun value call => by
    rw [serve]
    cases h : update.next call value with
    | some new => exact hNext call value new h
    | none => exact hRefl value) rfl run
  exact hKept

end Update
end Atomic

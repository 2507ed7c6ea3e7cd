import LumioNativeCore.Library.Update
import LumioNativeCore.Library.Word
import LumioNativeCore.Kernel.Context.Lifecycle

/-! Ticks, and the clock that is only moved by its callers (`lumio-platform/src/clock.rs`,
`lumio-test-support/src/clock.rs`). -/
namespace Platform

open Atomic Transition

/-- Nanoseconds since the epoch of a clock. -/
structure Ticks where
  nanos : Nat
  bounded : nanos ≤ Word.max64
  deriving DecidableEq, Repr

namespace Ticks

def fromNanos (v : Fin (2 ^ 64)) : Ticks := ⟨v, Nat.le_pred_of_lt v.isLt⟩

def max : Ticks := ⟨Word.max64, le_rfl⟩

/-- A duration has more bits than the ticks. -/
def checkedAdd (ticks : Ticks) (duration : Nat) : Option Ticks :=
  if duration ≤ Word.max64 then
    if h : ticks.nanos + duration ≤ Word.max64 then some ⟨ticks.nanos + duration, h⟩ else none
  else none

def saturatingAdd (ticks : Ticks) (duration : Nat) : Ticks :=
  (ticks.checkedAdd duration).getD max

def saturatingDurationSince (ticks earlier : Ticks) : Nat := ticks.nanos - earlier.nanos

theorem saturatingAdd_nanos (ticks : Ticks) (duration : Nat) :
    (ticks.saturatingAdd duration).nanos = min Word.max64 (ticks.nanos + duration) := by
  rw [saturatingAdd, checkedAdd]
  split_ifs with hDuration hSum
  · exact (min_eq_right hSum).symm
  · exact (min_eq_left (not_le.mp hSum).le).symm
  · exact (min_eq_left ((not_le.mp hDuration).le.trans (Nat.le_add_left _ _))).symm

/-- What is added is what has passed, up to the end of the range. -/
theorem saturatingDurationSince_add (ticks : Ticks) (duration : Nat) :
    (ticks.saturatingAdd duration).saturatingDurationSince ticks =
      min (Word.max64 - ticks.nanos) duration := by
  rw [saturatingDurationSince, saturatingAdd_nanos]
  omega

end Ticks

inductive FakeClockError where
  | backward
  deriving DecidableEq, Repr

inductive ClockCall where
  | now
  | advance (duration : Nat)
  | setForward (target : Ticks)
  deriving DecidableEq

inductive ClockAnswer where
  | reading (ticks : Ticks)
  | advanced
  | forwarded (result : Except FakeClockError Unit)

/-- `now` is the load alone. -/
def fakeClock : Update Ticks ClockCall ClockAnswer where
  next
    | .now, _ => none
    | .advance duration, now => some (now.saturatingAdd duration)
    | .setForward target, current => if target.nanos < current.nanos then none else some target
  reply
    | .now, .ok ticks | .now, .error ticks => .reading ticks
    | .advance _, _ => .advanced
    | .setForward _, .ok _ => .forwarded (.ok ())
    | .setForward _, .error _ => .forwarded (.error .backward)

/-- What a call tells about the clock, if `low` was reached before. -/
def bound (low : Nat) : ClockCall × ClockAnswer → Nat
  | (.now, .reading ticks) => ticks.nanos
  | (.advance duration, _) => min Word.max64 (low + duration)
  | (.setForward target, .forwarded (.ok _)) => target.nanos
  | (.setForward target, .forwarded (.error _)) => target.nanos + 1
  | _ => low

def reached (low : Nat) (calls : List (ClockCall × ClockAnswer)) : Nat :=
  calls.foldl (fun low entry => max low (bound low entry)) low

theorem le_reached (low : Nat) (calls : List (ClockCall × ClockAnswer)) : low ≤ reached low calls := by
  induction calls generalizing low with
  | nil => exact le_rfl
  | cons entry rest ih => exact (le_max_left _ _).trans (ih _)

/-- The clock only moves forward, and moves to where the call says. -/
theorem serve_bound {low : Nat} {now : Ticks} (hLow : low ≤ now.nanos) (call : ClockCall) :
    now.nanos ≤ (fakeClock.serve now call).2.nanos ∧
      bound low (call, (fakeClock.serve now call).1) ≤ (fakeClock.serve now call).2.nanos := by
  cases call with
  | now => exact ⟨le_rfl, le_rfl⟩
  | advance duration =>
      show now.nanos ≤ (now.saturatingAdd duration).nanos ∧
        min Word.max64 (low + duration) ≤ (now.saturatingAdd duration).nanos
      have hNow := now.bounded
      rw [Ticks.saturatingAdd_nanos]
      omega
  | setForward target =>
      by_cases hBackward : target.nanos < now.nanos
      · have hNext : fakeClock.next (.setForward target) now = none := if_pos hBackward
        rw [fakeClock.serve_of_none hNext]
        exact ⟨le_rfl, hBackward⟩
      · have hNext : fakeClock.next (.setForward target) now = some target := if_neg hBackward
        rw [fakeClock.serve_of_next hNext]
        exact ⟨not_lt.mp hBackward, le_rfl⟩

/-- Every reading has reached what the calls before it have reached. -/
def Forward (low : Nat) (calls : List (ClockCall × ClockAnswer)) : Prop :=
  ∀ earlier ticks later, calls = earlier ++ (.now, .reading ticks) :: later →
    reached low earlier ≤ ticks.nanos

theorem forward_cons {low : Nat} {entry : ClockCall × ClockAnswer}
    {calls : List (ClockCall × ClockAnswer)}
    (hFirst : ∀ ticks, entry = (.now, .reading ticks) → low ≤ ticks.nanos)
    (hRest : Forward (max low (bound low entry)) calls) : Forward low (entry :: calls) := by
  intro earlier ticks later hCalls
  cases earlier with
  | nil =>
      obtain ⟨hEntry, -⟩ := List.cons.inj hCalls
      exact hFirst ticks hEntry
  | cons first front =>
      obtain ⟨rfl, hRestCalls⟩ := List.cons.inj hCalls
      exact hRest front ticks later hRestCalls

/-- Some of the calls that were served one after the other. -/
theorem forward_of_sublist {low : Nat} {now last : Ticks} {log calls : List (ClockCall × ClockAnswer)}
    (hLow : low ≤ now.nanos) (hRun : Machine.run fakeClock.serve now (log.map Prod.fst) = (log, last))
    (hCalls : calls.Sublist log) : Forward low calls ∧ reached low calls ≤ last.nanos := by
  induction log generalizing now low calls with
  | nil =>
      cases hCalls
      cases hRun
      exact ⟨fun earlier ticks later h => by simp at h, hLow⟩
  | cons entry rest ih =>
      obtain ⟨call, answer⟩ := entry
      obtain ⟨hAnswer, hLater⟩ := Machine.run_log_cons hRun
      obtain ⟨hForward, hBound⟩ := serve_bound hLow call
      rw [hAnswer] at hBound
      cases hCalls with
      | cons _ hSkip => exact ih (hLow.trans hForward) hLater hSkip
      | cons_cons _ hKeep =>
          obtain ⟨hOrder, hReached⟩ := ih (max_le (hLow.trans hForward) hBound) hLater hKeep
          refine ⟨forward_cons ?_ hOrder, hReached⟩
          intro ticks hReading
          obtain ⟨rfl, rfl⟩ := Prod.mk.inj hReading
          cases hAnswer
          exact hLow

section Threads

universe u
variable {Thread : Type u} [DecidableEq Thread] {start : Ticks}
  {trace : List (Thread × Event Ticks ClockCall ClockAnswer)}
  {s : State Ticks (UpdateStage Ticks ClockCall) Thread}

/-- However the threads interleave, calls that are made one after the other find the clock
where the calls before them have moved it or farther, so that what has expired stays so. -/
theorem clock_monotone (run : Run (Step fakeClock.code) (State.initial start) trace s)
    {calls : List (ClockCall × ClockAnswer)} (hCalls : Sequential trace calls) :
    Forward start.nanos calls ∧ reached start.nanos calls ≤ s.cell.nanos ∧
    ∀ deadline : Kernel.Deadline, ∀ earlier ticks between ticks' later,
      calls = earlier ++ (.now, .reading ticks) :: (between ++ (.now, .reading ticks') :: later) →
        deadline.isExpired ticks.nanos = true → deadline.isExpired ticks'.nanos = true := by
  obtain ⟨_, hLog, rfl⟩ := fakeClock.linear.run rfl run
  obtain ⟨hForward, hReached⟩ := forward_of_sublist le_rfl hLog (hCalls.sublist run)
  refine ⟨hForward, hReached, ?_⟩
  intro deadline earlier ticks between ticks' later hSplit hExpired
  have hLater : ticks.nanos ≤ ticks'.nanos := by
    have hBound := hForward (earlier ++ (.now, .reading ticks) :: between) ticks' later
      (by simp [hSplit])
    rw [reached, List.foldl_append, List.foldl_cons] at hBound
    exact ((le_max_right _ _).trans (le_reached _ between)).trans hBound
  cases hAt : deadline.at? with
  | none =>
      rw [Kernel.Deadline.isExpired, hAt] at hExpired
      cases hExpired
  | some t =>
      rw [Kernel.Deadline.isExpired, hAt] at hExpired ⊢
      exact decide_eq_true ((of_decide_eq_true hExpired).trans hLater)

end Threads

/-- A thread that sets the clock is overtaken by one that advances it. -/
theorem clock_monotone_race :
    ∃ s : State Ticks (UpdateStage Ticks ClockCall) Bool,
      fakeClock.code.schedule (State.initial (.fromNanos 100))
        [(false, .invoke (.setForward (.fromNanos 105))), (false, .advance),
          (true, .invoke (.advance 10)), (true, .advance), (true, .advance), (false, .advance),
          (false, .advance), (true, .advance), (true, .invoke .now), (true, .advance),
          (true, .advance)] =
        some ([(false, .invoke (.setForward (.fromNanos 105))),
          (false, .access (.setForward (.fromNanos 105)) (.loaded (.fromNanos 100)) none),
          (true, .invoke (.advance 10)),
          (true, .access (.advance 10) (.loaded (.fromNanos 100)) none),
          (true, .access (.advance 10) (.exchanged (.fromNanos 100)) (some .advanced)),
          (false, .access (.setForward (.fromNanos 105)) (.refused (.fromNanos 110))
            (some (.forwarded (.error .backward))))] ++
          [(false, .returns (.setForward (.fromNanos 105)) (.forwarded (.error .backward)))] ++
          [(true, .returns (.advance 10) .advanced), (true, .invoke .now),
            (true, .access .now (.loaded (.fromNanos 110))
              (some (.reading (.fromNanos 110))))] ++
          [(true, .returns .now (.reading (.fromNanos 110)))], s) ∧
      Forward 100 [(.setForward (.fromNanos 105), .forwarded (.error .backward)),
        (.now, .reading (.fromNanos 110))] := by
  refine Exists.imp (fun s hSchedule => ⟨hSchedule, ?_⟩) ⟨_, rfl⟩
  exact (clock_monotone (Code.run_schedule hSchedule)
    (.snoc (.single ⟨_, List.mem_cons_self, rfl⟩) ⟨_, List.mem_cons_self, rfl⟩)).1

end Platform

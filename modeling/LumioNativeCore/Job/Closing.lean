import LumioNativeCore.Job.Order

/-! A job system that was destroyed: it holds nothing, and everything that was ever submitted
to it has ended. -/
namespace Job

open Kernel Transition

/-- What entered has ended, or it is still queued or running. -/
def Unlost (trace : List JobEvent) (state : SchedulerState) : Prop :=
  ∀ id ∈ enteredIn trace, state.phase id = some .queued ∨ state.phase id = some .running ∨
    ∃ ended, ⟨id, ended⟩ ∈ endedIn trace

/-- No record and no work is left, and none comes. -/
structure Site.Dead (site : Site) : Prop where
  closed : site.system.state.accepting = false
  empty : site.system.state.jobs = .empty
  idle : site.system.works = []

namespace Site

variable {site site' : Site} {event : JobEvent} {trace : List JobEvent}

theorem Dead.step (h : site.Dead) (hSound : site.Sound) (hStep : Step site event site') :
    site'.Dead := by
  obtain ⟨hClosed, -, hWorks, -⟩ := hStep.stopped hSound h.closed
  obtain ⟨hAfter, hEffect⟩ := hStep.effect hSound
  refine ⟨hClosed, Table.eq_empty fun id => ?_, ?_⟩
  · have hMoves := hEffect.moves id
    have hNone : site.system.state.phase id = none := by
      rw [SchedulerState.phase, h.empty]
      rfl
    rw [hNone] at hMoves
    by_cases hEnters : id ∈ event.entered
    · -- a closed system has an empty queue
      have hQueued := hMoves.of_entered hEnters
      rw [← hAfter.state.queued, hAfter.state.stopped hClosed] at hQueued
      cases hQueued
    · exact Option.map_eq_none_iff.mp (hMoves.of_none hEnters)
  · rw [h.idle] at hWorks
    exact List.length_eq_zero_iff.mp (Nat.le_zero.mp hWorks)

theorem dead_of_destroyed {leases : List (JobId × Nat)} (h : site.Sound)
    (hStep : Step site (.destroyed leases (.ok ())) site') : site'.Dead := by
  generalize hEvent : JobEvent.destroyed leases (.ok ()) = event at hStep
  cases hStep with
  | destroyClear call hCall =>
      have hFenced := h.calls call
      rw [hCall] at hFenced
      refine ⟨hFenced.1, rfl, List.length_eq_zero_iff.mp ?_⟩
      exact h.running.symm.trans hFenced.2
  | _ => cases hEvent

end Site

section Unlost

variable {trace : List JobEvent} {site site' : Site} {event : JobEvent}

/-- An unfinished job stays so or ends. -/
theorem Moves.unfinished {id : JobId} {before after : Option JobState}
    (h : Moves event id before after) (hBefore : before = some .queued ∨ before = some .running) :
    after = some .queued ∨ after = some .running ∨ ∃ state, ⟨id, state⟩ ∈ event.ended := by
  cases h with
  | stays => exact hBefore.imp_right Or.inl
  | enters => rcases hBefore with hQueued | hRunning <;> contradiction
  | starts => exact Or.inr (Or.inl rfl)
  | ends _ _ hEnded => exact Or.inr (Or.inr ⟨_, (hEnded _).mpr rfl⟩)
  | leaves _ _ _ _ hTerminal =>
      rcases hBefore with hQueued | hRunning
      · cases hQueued
        cases hTerminal
      · cases hRunning
        cases hTerminal

theorem Unlost.step (h : Unlost trace site.system.state) (hSound : site.Sound)
    (hStep : Site.Step site event site') : Unlost (trace ++ [event]) site'.system.state := by
  intro id hId
  rw [enteredIn_snoc] at hId
  rw [endedIn_snoc]
  have hMoves := (hStep.effect hSound).2.moves id
  rcases List.mem_append.mp hId with hOld | hNew
  · have hEarlier := h id hOld
    rw [← or_assoc] at hEarlier
    rcases hEarlier with hLive | ⟨ended, hEnded⟩
    · rcases hMoves.unfinished hLive with hQueued | hRunning | ⟨ended, hEnds⟩
      · exact Or.inl hQueued
      · exact Or.inr (Or.inl hRunning)
      · exact Or.inr (Or.inr ⟨ended, List.mem_append_right _ hEnds⟩)
    · exact Or.inr (Or.inr ⟨ended, List.mem_append_left _ hEnded⟩)
  · exact Or.inl (hMoves.of_entered hNew)

theorem unlost_of_run {config : JobConfig} {env : Environment}
    (run : Run Site.Step ⟨env, .create config⟩ trace site) :
    site.Sound ∧ Unlost trace site.system.state := by
  refine run.invariant (fun trace site => site.Sound ∧ Unlost trace site.system.state)
    ⟨Site.sound_create config env, fun _ hMem => absurd hMem List.not_mem_nil⟩ ?_
  intro trace site event site' ⟨hSound, hUnlost⟩ hStep
  exact ⟨(hStep.effect hSound).1, hUnlost.step hSound hStep⟩

/-- Every job of a dead system has ended. -/
theorem Site.Dead.all_ended {config : JobConfig} {env : Environment} (h : site.Dead)
    (run : Run Site.Step ⟨env, .create config⟩ trace site) :
    ∀ id ∈ enteredIn trace, ∃ state, ⟨id, state⟩ ∈ endedIn trace := by
  intro id hId
  have hNone : site.system.state.phase id = none := by
    rw [SchedulerState.phase, h.empty]
    rfl
  rcases (unlost_of_run run).2 id hId with hQueued | hRunning | hEnded
  · rw [hNone] at hQueued
    cases hQueued
  · rw [hNone] at hRunning
    cases hRunning
  · exact hEnded

end Unlost
end Job

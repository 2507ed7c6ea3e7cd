import LumioNativeCore.Job.Lifecycle

/-! The queue is served in order: a job starts after every job that was submitted before it,
unless that one was cancelled. -/
namespace Job

open Kernel Transition

namespace Site

variable {site site' : Site} {event : JobEvent}

theorem Step.config (hStep : Step site event site') : site'.system.config = site.system.config := by
  cases hStep with
  | _ => rfl

theorem queue_kept (hStarted : event.started = []) (hEntered : event.entered = [])
    (hQueue : site'.system.state.queue.Sublist site.system.state.queue) :
    (event.started ++ site'.system.state.queue).Sublist
      (site.system.state.queue ++ event.entered) := by
  rw [hStarted, hEntered, List.nil_append, List.append_nil]
  exact hQueue

/-- What starts leaves the queue at its front, what enters joins it at its back, and what
is cancelled leaves it in between. -/
theorem Step.queue (h : site.Sound) (hStep : Step site event site') :
    (event.started ++ site'.system.state.queue).Sublist
      (site.system.state.queue ++ event.entered) := by
  cases hStep with
  | submitInput path request input outputCapacity result env state hSubmit =>
      rcases submitInput_cases site.system.config path request input outputCapacity site.env
        site.system.state with ⟨failure, hCase⟩ | ⟨-, -, -, -, hCase⟩
      · cases hSubmit.symm.trans hCase
        exact queue_kept rfl rfl (List.Sublist.refl _)
      · cases hSubmit.symm.trans hCase
        exact List.Sublist.refl _
  | takeWork work state hTake =>
      rcases SchedulerState.takeWork_eq h.state site.system.config.maxRunning with hCase |
        ⟨id, rest, record, -, -, hQueue, -, -, hCase⟩
      · cases hTake.symm.trans hCase
        exact queue_kept rfl rfl (List.Sublist.refl _)
      · cases hTake.symm.trans hCase
        simp [JobEvent.started, JobEvent.entered, SchedulerState.start, hQueue]
  | finish before after work cancelled exceeded now run hWorks =>
      have hPhase := (h.working work.id).mp (by simp [hWorks])
      rw [SchedulerState.finish_eq hPhase]
      exact queue_kept rfl rfl (List.Sublist.refl _)
  | cancel handle =>
      have hCancelled : (site.system.cancel handle).2.queue.Sublist site.system.state.queue := by
        rcases site.system.cancel_cases h.state handle with ⟨failure, hCase⟩ | ⟨phase, hCase⟩ |
          ⟨-, hCase⟩ | ⟨-, hEnds, -, -⟩
        · rw [hCase]
        · rw [hCase]
        · rw [hCase]
        · rw [hEnds.queue]
          exact List.filter_sublist
      exact queue_kept rfl rfl hCancelled
  | cancelRequested =>
      refine queue_kept rfl rfl ?_
      exact (SchedulerState.stop_spec h.state).2.1 ▸ List.nil_sublist _
  | closeStop call destroys hCall =>
      refine queue_kept rfl rfl ?_
      exact (SchedulerState.stop_spec h.state).2.1 ▸ List.nil_sublist _
  | drainCompletions room =>
      obtain ⟨completions, -, -, -, hState⟩ := SchedulerState.drainCompletions_spec h.state room
      rw [hState]
      exact queue_kept rfl rfl (List.Sublist.refl _)
  | takeResult handle result state hTake =>
      rcases site.system.takeResult_cases handle with ⟨failure, hCase⟩ | ⟨record, -, -, hCase⟩
      · cases hTake.symm.trans hCase
        exact queue_kept rfl rfl (List.Sublist.refl _)
      · cases hTake.symm.trans hCase
        exact queue_kept rfl rfl (List.Sublist.refl _)
  | destroyClear => exact queue_kept rfl rfl (List.nil_sublist _)
  | _ => exact queue_kept rfl rfl (List.Sublist.refl _)

end Site

/-- What entered is still in the queue, in the order of its entrance and behind what has
started, or it has left the queue. -/
structure Ordered (trace : List JobEvent) (site : Site) : Prop where
  sound : site.Sound
  served : (startedIn trace ++ site.system.state.queue).Sublist (enteredIn trace)
  ascending : (enteredIn trace).Pairwise (· < ·)
  bounded : ∀ id ∈ enteredIn trace, id < site.env.nextJob
  waiting : ∀ id ∈ enteredIn trace, id ∈ site.system.state.queue ∨ id ∈ startedIn trace ∨
    ∃ state, ⟨id, state⟩ ∈ endedIn trace

section Order

variable {trace : List JobEvent} {site site' : Site} {event : JobEvent}

/-- A queued job starts, ends or stays in the queue. -/
theorem Moves.from_queued {id : JobId} {after : Option JobState}
    (h : Moves event id (some .queued) after) :
    after = some .queued ∨ id ∈ event.started ∨ ∃ state, ⟨id, state⟩ ∈ event.ended := by
  cases h with
  | stays => exact Or.inl rfl
  | starts _ hStarted => exact Or.inr (Or.inl hStarted)
  | ends _ _ hEnded => exact Or.inr (Or.inr ⟨_, (hEnded _).mpr rfl⟩)
  | leaves _ _ _ _ hTerminal => cases hTerminal

theorem Ordered.step (h : Ordered trace site) (hStep : Site.Step site event site') :
    Ordered (trace ++ [event]) site' := by
  obtain ⟨hSound, hEffect⟩ := hStep.effect h.sound
  obtain ⟨hNext, hEntered, hOnce, -⟩ := hStep.counts
  refine ⟨hSound, ?_, ?_, ?_, ?_⟩
  · rw [startedIn_snoc, enteredIn_snoc, List.append_assoc]
    calc List.Sublist (startedIn trace ++ (event.started ++ site'.system.state.queue))
          (startedIn trace ++ (site.system.state.queue ++ event.entered)) :=
        (hStep.queue h.sound).append_left _
      List.Sublist _ (enteredIn trace ++ event.entered) := by
        rw [← List.append_assoc]
        exact h.served.append_right _
  · rw [enteredIn_snoc, List.pairwise_append]
    refine ⟨h.ascending, ?_, fun id hOld id' hNew => ?_⟩
    · -- at most one job enters at a time
      refine hOnce.pairwise_of_forall_ne fun id hId id' hId' hNe => ?_
      exact absurd ((hEntered id hId).1.trans (hEntered id' hId').1.symm) hNe
    · rw [(hEntered id' hNew).1]
      exact h.bounded id hOld
  · rw [enteredIn_snoc]
    refine List.forall_mem_append.mpr ⟨fun id hOld => ?_, fun id hNew => ?_⟩
    · exact Nat.lt_of_lt_of_le (h.bounded id hOld) hNext
    · exact (hEntered id hNew).1 ▸ (hEntered id hNew).2
  · intro id hId
    rw [enteredIn_snoc] at hId
    rw [startedIn_snoc, endedIn, List.flatMap_append, ← endedIn, List.flatMap_singleton]
    have hMoves := hEffect.moves id
    rcases List.mem_append.mp hId with hOld | hNew
    · rcases h.waiting id hOld with hQueue | hStarted | ⟨state, hEnded⟩
      · rw [(h.sound.state.queued id).mp hQueue] at hMoves
        rcases hMoves.from_queued with hStill | hStarts | ⟨state, hEnds⟩
        · exact Or.inl ((hSound.state.queued id).mpr hStill)
        · exact Or.inr (Or.inl (List.mem_append_right _ hStarts))
        · exact Or.inr (Or.inr ⟨state, List.mem_append_right _ hEnds⟩)
      · exact Or.inr (Or.inl (List.mem_append_left _ hStarted))
      · exact Or.inr (Or.inr ⟨state, List.mem_append_left _ hEnded⟩)
    · exact Or.inl ((hSound.state.queued id).mpr (hMoves.of_entered hNew))

theorem ordered_of_run {config : JobConfig} {env : Environment}
    (run : Run Site.Step ⟨env, .create config⟩ trace site) : Ordered trace site := by
  refine run.invariant Ordered ?_ fun _ _ _ _ h hStep => h.step hStep
  exact
    { sound := Site.sound_create config env
      served := List.Sublist.refl _
      ascending := List.Pairwise.nil
      bounded := fun _ hMem => absurd hMem List.not_mem_nil
      waiting := fun _ hMem => absurd hMem List.not_mem_nil }

/-- The work that is handed out stands in front of the queue. -/
theorem Site.Step.taken_some {work : Work} (h : site.Sound)
    (hStep : Site.Step site (.taken (some work)) site') :
    site.system.state.queue = work.id :: site'.system.state.queue := by
  generalize hEvent : JobEvent.taken (some work) = event at hStep
  cases hStep with
  | takeWork taken state hTake =>
      cases hEvent
      rcases SchedulerState.takeWork_eq h.state site.system.config.maxRunning with hCase |
        ⟨id, rest, record, -, -, hQueue, -, -, hCase⟩
      · cases hTake.symm.trans hCase
      · cases hTake.symm.trans hCase
        exact hQueue
  | _ => cases hEvent

/-- A drain lists what it publishes by ascending number. -/
theorem Site.Step.drained_ascending {completions : List JobCompletion} (h : site.Sound)
    (hStep : Site.Step site (.drained (some completions)) site') :
    (completions.map JobCompletion.id).Pairwise (· < ·) := by
  generalize hEvent : JobEvent.drained (some completions) = event at hStep
  cases hStep with
  | drainCompletions room =>
      obtain ⟨published, hPublished, hIds, -, -⟩ :=
        SchedulerState.drainCompletions_spec h.state room
      rw [hPublished] at hEvent
      cases hEvent
      rw [hIds]
      have hSorted : (site.system.state.ready.mergeSort (· ≤ ·)).Pairwise (· ≤ ·) :=
        List.pairwise_mergeSort' _ _
      have hNodup : (site.system.state.ready.mergeSort (· ≤ ·)).Nodup :=
        List.nodup_mergeSort.mpr h.state.readyNodup
      refine ((hSorted.imp₂ ?_ hNodup)).sublist (List.take_sublist _ _)
      exact fun _ _ hLe hNe => Nat.lt_of_le_of_ne hLe hNe
  | _ => cases hEvent

/-- Jobs start in the order in which they were submitted, whatever threads, callers and
cancellations come in between, and every drain lists its completions in that order. -/
theorem starts_in_order {config : JobConfig} {env : Environment} {trace : List JobEvent}
    {site : Site} (run : Run Site.Step ⟨env, .create config⟩ trace site) :
    (startedIn trace ++ site.system.state.queue).Sublist (enteredIn trace) ∧
    (startedIn trace).Pairwise (· < ·) ∧
    (∀ before work after, trace = before ++ .taken (some work) :: after →
      ∀ id ∈ enteredIn before, id < work.id →
        id ∈ startedIn before ∨ ∃ state, ⟨id, state⟩ ∈ endedIn before) ∧
    ∀ completions, .drained (some completions) ∈ trace →
      (completions.map JobCompletion.id).Pairwise (· < ·) := by
  have hOrdered := ordered_of_run run
  have hStarted := (List.sublist_append_left _ _).trans hOrdered.served
  refine ⟨hOrdered.served, hOrdered.ascending.sublist hStarted, ?_, ?_⟩
  · rintro before work after rfl id hEntered hLess
    obtain ⟨first, second, hBefore, hStep, -⟩ := run.at
    have hFirst := ordered_of_run hBefore
    rcases hFirst.waiting id hEntered with hQueue | hLeft
    · -- what is in the queue comes after its front
      have hBehind := hFirst.ascending.sublist ((List.sublist_append_right _ _).trans hFirst.served)
      rw [hStep.taken_some hFirst.sound, List.pairwise_cons] at hBehind
      rw [hStep.taken_some hFirst.sound] at hQueue
      rcases List.mem_cons.mp hQueue with rfl | hRest
      · exact absurd hLess (Nat.lt_irrefl _)
      · exact absurd (hBehind.1 id hRest) (Nat.lt_asymm hLess)
    · exact hLeft
  · intro completions hMem
    obtain ⟨before, after, rfl⟩ := List.append_of_mem hMem
    obtain ⟨first, second, hBefore, hStep, -⟩ := run.at
    exact hStep.drained_ascending (ordered_of_run hBefore).sound

/-- The second job starts after the first one was cancelled. -/
theorem starts_in_order_two :
    ∃ trace site, Run Site.Step ⟨⟨.new 8, 0⟩, .create ⟨1, ⟨1⟩, 2, 2, 1⟩⟩ trace site ∧
      startedIn trace = [1] ∧ ∃ state, ⟨0, state⟩ ∈ endedIn trace := by
  have run := Run.snoc (Run.snoc (Run.snoc (Run.snoc
    (Run.nil (⟨⟨.new 8, 0⟩, .create ⟨1, ⟨1⟩, 2, 2, 1⟩⟩ : Site))
    (Site.Step.submitInput _ ⟨.ok (), true, true, true⟩ ⟨7, .none⟩ [1] 1 _ _ _ rfl))
    (Site.Step.submitInput _ ⟨.ok (), true, true, true⟩ ⟨7, .none⟩ [2] 1 _ _ _ rfl))
    (Site.Step.cancel _ ⟨0, 1, ⟨1⟩⟩))
    (Site.Step.takeWork _ _ _ rfl)
  obtain ⟨-, -, hOlder, -⟩ := starts_in_order run
  refine ⟨_, _, run, rfl, ?_⟩
  rcases hOlder _ _ [] rfl 0 List.mem_cons_self Nat.zero_lt_one with hStarted | ⟨state, hEnded⟩
  · cases hStarted
  · exact ⟨state, List.mem_append_left [] hEnded⟩

end Order
end Job

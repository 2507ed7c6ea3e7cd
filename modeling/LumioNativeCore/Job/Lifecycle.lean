import LumioNativeCore.Job.Interleaving

/-! The life of a job over every interleaving: it is entered, handed out, ended,
published and removed at most once each, in that order. -/
namespace Job

open Kernel Transition

/-! Readings of a trace. -/

def enteredIn (trace : List JobEvent) : List JobId := trace.flatMap JobEvent.entered

def startedIn (trace : List JobEvent) : List JobId := trace.flatMap JobEvent.started

def endedIn (trace : List JobEvent) : List JobCompletion := trace.flatMap JobEvent.ended

def publishedIn (trace : List JobEvent) : List JobCompletion := trace.flatMap JobEvent.published

def removedIn (trace : List JobEvent) : List JobId := trace.flatMap JobEvent.removed

section Readings

variable (trace : List JobEvent) (event : JobEvent)

@[simp] theorem enteredIn_snoc : enteredIn (trace ++ [event]) = enteredIn trace ++ event.entered := by
  simp [enteredIn]

@[simp] theorem startedIn_snoc : startedIn (trace ++ [event]) = startedIn trace ++ event.started := by
  simp [startedIn]

@[simp] theorem endedIn_snoc : endedIn (trace ++ [event]) = endedIn trace ++ event.ended := by
  simp [endedIn]

@[simp] theorem publishedIn_snoc :
    publishedIn (trace ++ [event]) = publishedIn trace ++ event.published := by
  simp [publishedIn]

@[simp] theorem removedIn_snoc : removedIn (trace ++ [event]) = removedIn trace ++ event.removed := by
  simp [removedIn]

end Readings

/-- What a trace says about the jobs is what the scheduler holds. -/
structure Tracks (trace : List JobEvent) (nextJob : Nat) (state : SchedulerState) : Prop where
  retained : ∀ id, state.phase id ≠ none → id ∈ enteredIn trace
  bounded : ∀ id ∈ enteredIn trace, id < nextJob
  enteredNodup : (enteredIn trace).Nodup
  started : ∀ id ∈ startedIn trace, id ∈ enteredIn trace ∧ state.phase id ≠ some .queued
  startedNodup : (startedIn trace).Nodup
  ended : ∀ completion ∈ endedIn trace, completion.id ∈ enteredIn trace ∧
    ∀ phase, state.phase completion.id = some phase → phase = completion.state
  final : ∀ id phase, state.phase id = some phase → phase.isTerminal = true →
    ⟨id, phase⟩ ∈ endedIn trace
  terminal : ∀ completion ∈ endedIn trace, completion.state.isTerminal = true
  endedNodup : ((endedIn trace).map JobCompletion.id).Nodup
  published : ∀ completion ∈ publishedIn trace, completion ∈ endedIn trace ∧
    completion.id ∉ state.ready
  publishedNodup : ((publishedIn trace).map JobCompletion.id).Nodup
  waiting : ∀ id phase, state.phase id = some phase → phase.isTerminal = true →
    id ∈ state.ready ∨ id ∈ (publishedIn trace).map JobCompletion.id
  removed : ∀ id ∈ removedIn trace, id ∈ enteredIn trace ∧ state.phase id = none
  removedNodup : (removedIn trace).Nodup

theorem tracks_new (nextJob : Nat) : Tracks [] nextJob .new where
  retained := fun _ hPhase => absurd rfl hPhase
  bounded := fun _ hMem => absurd hMem List.not_mem_nil
  enteredNodup := List.nodup_nil
  started := fun _ hMem => absurd hMem List.not_mem_nil
  startedNodup := List.nodup_nil
  ended := fun _ hMem => absurd hMem List.not_mem_nil
  final := fun _ _ hPhase => by cases hPhase
  terminal := fun _ hMem => absurd hMem List.not_mem_nil
  endedNodup := List.nodup_nil
  published := fun _ hMem => absurd hMem List.not_mem_nil
  publishedNodup := List.nodup_nil
  waiting := fun _ _ hPhase => by cases hPhase
  removed := fun _ hMem => absurd hMem List.not_mem_nil
  removedNodup := List.nodup_nil

section Step

variable {trace : List JobEvent} {event : JobEvent} {nextJob nextJob' : Nat}
  {state state' : SchedulerState}

/-- A list without duplicates grows by new elements. -/
theorem nodup_snoc {α : Type} {front back : List α} (hFront : front.Nodup) (hBack : back.Nodup)
    (hNew : ∀ a ∈ back, a ∉ front) : (front ++ back).Nodup :=
  List.Nodup.append hFront hBack fun a hOld hLater => hNew a hLater hOld

/-- A job that has ended does not end again. -/
theorem Tracks.ended_once (h : Tracks trace nextJob state) (hEffect : Effect event state state')
    {completion : JobCompletion} (hOld : completion ∈ endedIn trace) {phase : JobState}
    (hNew : ⟨completion.id, phase⟩ ∈ event.ended) : False := by
  have hTerminal := h.terminal completion hOld
  have hPhase := (h.ended completion hOld).2
  rcases ((hEffect.moves completion.id).of_ended hNew).1 with hRunning | ⟨hQueued, -⟩
  · rw [← hPhase _ hRunning] at hTerminal
    cases hTerminal
  · rw [← hPhase _ hQueued] at hTerminal
    cases hTerminal

theorem Tracks.held (h : Tracks trace nextJob state) {id : JobId} {phase : JobState}
    (hPhase : state.phase id = some phase) : id ∈ enteredIn trace := by
  apply h.retained
  rw [hPhase]
  simp

/-! The steps of the stages of a job, one after the other. -/

theorem Tracks.started_step (h : Tracks trace nextJob state) (hEffect : Effect event state state')
    (hOld : ∀ id ∈ enteredIn trace, id ∉ event.entered) :
    ∀ id ∈ startedIn (trace ++ [event]),
      id ∈ enteredIn (trace ++ [event]) ∧ state'.phase id ≠ some .queued := by
  intro id hMem
  rw [startedIn_snoc, List.mem_append] at hMem
  rw [enteredIn_snoc, List.mem_append]
  rcases hMem with hMem | hNew
  · obtain ⟨hKnown, hLeft⟩ := h.started id hMem
    refine ⟨Or.inl hKnown, fun hQueued => hLeft ?_⟩
    exact (hQueued ▸ hEffect.moves id).into_queued (hOld id hKnown)
  · obtain ⟨hQueued, hRunning⟩ := (hEffect.moves id).of_started hNew
    refine ⟨Or.inl (h.held hQueued), ?_⟩
    rw [hRunning]
    simp

theorem Tracks.ended_step (h : Tracks trace nextJob state) (hEffect : Effect event state state')
    (hOld : ∀ id ∈ enteredIn trace, id ∉ event.entered) :
    ∀ completion ∈ endedIn (trace ++ [event]), completion.id ∈ enteredIn (trace ++ [event]) ∧
      ∀ phase, state'.phase completion.id = some phase → phase = completion.state := by
  intro completion hMem
  rw [endedIn_snoc, List.mem_append] at hMem
  rw [enteredIn_snoc, List.mem_append]
  have hMoves := hEffect.moves completion.id
  rcases hMem with hMem | hNew
  · obtain ⟨hKnown, hPhase⟩ := h.ended completion hMem
    refine ⟨Or.inl hKnown, fun phase hAfter => ?_⟩
    rw [hAfter] at hMoves
    cases hBefore : state.phase completion.id with
    | none =>
        rw [hBefore] at hMoves
        cases hMoves.of_none (hOld _ hKnown)
    | some before =>
        have hSame := hPhase before hBefore
        rw [hBefore] at hMoves
        rw [← hSame]
        exact hMoves.of_terminal (hSame ▸ h.terminal completion hMem)
  · obtain ⟨hBefore, hAfter, -⟩ := hMoves.of_ended hNew
    refine ⟨Or.inl ?_, fun phase hPhase => ?_⟩
    · rcases hBefore with hRunning | ⟨hQueued, -⟩
      · exact h.held hRunning
      · exact h.held hQueued
    · rw [hAfter] at hPhase
      exact (Option.some.inj hPhase).symm

theorem Tracks.published_step (h : Tracks trace nextJob state) (hEffect : Effect event state state')
    (hSound : state.Sound) :
    ∀ completion ∈ publishedIn (trace ++ [event]),
      completion ∈ endedIn (trace ++ [event]) ∧ completion.id ∉ state'.ready := by
  intro completion hMem
  rw [publishedIn_snoc, List.mem_append] at hMem
  rw [endedIn_snoc, List.mem_append, hEffect.ready]
  rcases hMem with hMem | hNew
  · obtain ⟨hEnded, hReady⟩ := h.published completion hMem
    refine ⟨Or.inl hEnded, ?_⟩
    rintro ⟨hAgain | ⟨phase, hAgain⟩, -⟩
    · exact hReady hAgain
    · exact h.ended_once hEffect hEnded hAgain
  · obtain ⟨hReady, hPhase⟩ := hEffect.published completion hNew
    obtain ⟨phase, hTerminal, hSame⟩ := hSound.ready _ hReady
    rw [hPhase] at hSame
    obtain rfl := Option.some.inj hSame
    exact ⟨Or.inl (h.final _ _ hPhase hTerminal), fun hStill => hStill.2.1 _ hNew⟩

/-- A job at its end is ready until it is published. -/
theorem Tracks.waiting_step (h : Tracks trace nextJob state) (hEffect : Effect event state state') :
    ∀ id phase, state'.phase id = some phase → phase.isTerminal = true →
      id ∈ state'.ready ∨ id ∈ (publishedIn (trace ++ [event])).map JobCompletion.id := by
  intro id phase hPhase hTerminal
  rw [publishedIn_snoc, List.map_append, List.mem_append, hEffect.ready]
  by_cases hNow : ∃ phase, ⟨id, phase⟩ ∈ event.published
  · obtain ⟨phase, hNow⟩ := hNow
    exact Or.inr (Or.inr (List.mem_map.mpr ⟨_, hNow, rfl⟩))
  · have hKept : id ∉ event.removed := by
      intro hRemoved
      rw [((hEffect.moves id).of_removed hRemoved).2] at hPhase
      cases hPhase
    have hUnpublished := not_exists.mp hNow
    rcases (hPhase ▸ hEffect.moves id).into_terminal hTerminal with hBefore | hEnded
    · rcases h.waiting id phase hBefore hTerminal with hReady | hEarlier
      · exact Or.inl ⟨Or.inl hReady, hUnpublished, hKept⟩
      · exact Or.inr (Or.inl hEarlier)
    · exact Or.inl ⟨Or.inr ⟨phase, hEnded⟩, hUnpublished, hKept⟩

theorem Tracks.step (h : Tracks trace nextJob state) (hEffect : Effect event state state')
    (hNext : nextJob ≤ nextJob') (hSound : state.Sound)
    (hEntered : ∀ id ∈ event.entered, id = nextJob ∧ nextJob < nextJob')
    (hOnce : event.entered.Nodup) (hTaken : event.started.Nodup) :
    Tracks (trace ++ [event]) nextJob' state' := by
  have hOld : ∀ id ∈ enteredIn trace, id ∉ event.entered := by
    intro id hKnown hEnters
    exact absurd ((hEntered id hEnters).1 ▸ h.bounded id hKnown) (Nat.lt_irrefl _)
  exact
    { retained := by
        intro id hPhase
        rw [enteredIn_snoc, List.mem_append]
        by_contra hUnknown
        rw [not_or] at hUnknown
        have hMoves := hEffect.moves id
        have hNone : state.phase id = none := by
          by_contra hSome
          exact hUnknown.1 (h.retained id hSome)
        rw [hNone] at hMoves
        exact hPhase (hMoves.of_none hUnknown.2)
      bounded := by
        intro id hMem
        rw [enteredIn_snoc, List.mem_append] at hMem
        rcases hMem with hMem | hNew
        · exact Nat.lt_of_lt_of_le (h.bounded id hMem) hNext
        · obtain ⟨rfl, hLess⟩ := hEntered id hNew
          exact hLess
      enteredNodup := by
        rw [enteredIn_snoc]
        exact nodup_snoc h.enteredNodup hOnce fun id hNew hMem => hOld id hMem hNew
      started := h.started_step hEffect hOld
      startedNodup := by
        rw [startedIn_snoc]
        apply nodup_snoc h.startedNodup hTaken
        intro id hNew hMem
        exact (h.started id hMem).2 ((hEffect.moves id).of_started hNew).1
      ended := h.ended_step hEffect hOld
      final := by
        intro id phase hPhase hTerminal
        rw [endedIn_snoc, List.mem_append]
        rcases (hPhase ▸ hEffect.moves id).into_terminal hTerminal with hBefore | hEnded
        · exact Or.inl (h.final id phase hBefore hTerminal)
        · exact Or.inr hEnded
      terminal := by
        intro completion hMem
        rw [endedIn_snoc, List.mem_append] at hMem
        rcases hMem with hMem | hNew
        · exact h.terminal completion hMem
        · exact ((hEffect.moves completion.id).of_ended hNew).2.2
      endedNodup := by
        rw [endedIn_snoc, List.map_append]
        apply nodup_snoc h.endedNodup hEffect.endedNodup
        intro id hNew hMem
        obtain ⟨later, hLater, rfl⟩ := List.mem_map.mp hNew
        obtain ⟨earlier, hEarlier, hSame⟩ := List.mem_map.mp hMem
        have hAgain : ⟨earlier.id, later.state⟩ ∈ event.ended := by
          rw [hSame]
          exact hLater
        exact h.ended_once hEffect hEarlier hAgain
      published := h.published_step hEffect hSound
      publishedNodup := by
        rw [publishedIn_snoc, List.map_append]
        apply nodup_snoc h.publishedNodup hEffect.publishedNodup
        intro id hNew hMem
        obtain ⟨later, hLater, rfl⟩ := List.mem_map.mp hNew
        obtain ⟨earlier, hEarlier, hSame⟩ := List.mem_map.mp hMem
        exact (h.published earlier hEarlier).2 (hSame ▸ (hEffect.published later hLater).1)
      waiting := h.waiting_step hEffect
      removed := by
        intro id hMem
        rw [removedIn_snoc, List.mem_append] at hMem
        rw [enteredIn_snoc, List.mem_append]
        rcases hMem with hMem | hNew
        · obtain ⟨hKnown, hGone⟩ := h.removed id hMem
          exact ⟨Or.inl hKnown, (hGone ▸ hEffect.moves id).of_none (hOld id hKnown)⟩
        · obtain ⟨hBefore, hAfter⟩ := (hEffect.moves id).of_removed hNew
          exact ⟨Or.inl (h.retained id hBefore), hAfter⟩
      removedNodup := by
        rw [removedIn_snoc]
        apply nodup_snoc h.removedNodup hEffect.removedNodup
        intro id hNew hMem
        exact ((hEffect.moves id).of_removed hNew).1 (h.removed id hMem).2 }

end Step

/-! Runs. -/

namespace Site

variable {site site' : Site} {event : JobEvent}

theorem sound_create (config : JobConfig) (env : Environment) :
    Sound ⟨env, .create config⟩ where
  state := @SchedulerState.sound_clear .new
  worksNodup := List.nodup_nil
  working := fun _ => by simp [JobSystem.create, SchedulerState.new, SchedulerState.phase]
  running := rfl
  runningBound := Nat.zero_le _
  queueBound := Nat.zero_le _
  liveBound := Nat.zero_le _
  fresh := fun _ hPhase => absurd rfl hPhase
  calls := fun _ => trivial

/-- A new job has the next number, and at most one job enters or starts at a time. -/
theorem Step.counts (hStep : Step site event site') :
    site.env.nextJob ≤ site'.env.nextJob ∧
      (∀ id ∈ event.entered, id = site.env.nextJob ∧ site.env.nextJob < site'.env.nextJob) ∧
      event.entered.Nodup ∧ event.started.Nodup := by
  cases hStep with
  | submitInput path request input outputCapacity result env state hSubmit =>
      rcases submitInput_cases site.system.config path request input outputCapacity site.env
        site.system.state with ⟨failure, hCase⟩ | ⟨-, -, -, -, hCase⟩
      · cases hSubmit.symm.trans hCase
        exact ⟨Nat.le_refl _, fun _ hMem => absurd hMem List.not_mem_nil, List.nodup_nil,
          List.nodup_nil⟩
      · cases hSubmit.symm.trans hCase
        refine ⟨Nat.le_succ _, fun id hMem => ?_, List.nodup_singleton _, List.nodup_nil⟩
        exact ⟨List.mem_singleton.mp hMem, Nat.lt_succ_self _⟩
  | takeWork work state hTake =>
      refine ⟨Nat.le_refl _, fun _ hMem => absurd hMem List.not_mem_nil, List.nodup_nil, ?_⟩
      cases work with
      | none => exact List.nodup_nil
      | some work => exact List.nodup_singleton _
  | elsewhere env hNext =>
      exact ⟨hNext, fun _ hMem => absurd hMem List.not_mem_nil, List.nodup_nil, List.nodup_nil⟩
  | _ =>
      exact ⟨Nat.le_refl _, fun _ hMem => absurd hMem List.not_mem_nil, List.nodup_nil,
        List.nodup_nil⟩

theorem of_run {config : JobConfig} {env : Environment} {trace : List JobEvent}
    (run : Run Step ⟨env, .create config⟩ trace site) :
    site.Sound ∧ Tracks trace site.env.nextJob site.system.state := by
  apply run.invariant fun trace site =>
    site.Sound ∧ Tracks trace site.env.nextJob site.system.state
  · exact ⟨sound_create config env, tracks_new _⟩
  · intro trace site event site' h hStep
    obtain ⟨hSound, hEffect⟩ := Step.effect h.1 hStep
    obtain ⟨hNext, hEntered, hOnce, hTaken⟩ := hStep.counts
    exact ⟨hSound, h.2.step hEffect hNext h.1.state hEntered hOnce hTaken⟩

/-- `accepting` is written by `stop` alone. -/
theorem cancel_accepting (system : JobSystem) (handle : JobHandle) :
    (system.cancel handle).2.accepting = system.state.accepting := by
  rw [JobSystem.cancel]
  cases validateHandle system.config handle with
  | error failure => rfl
  | ok _ =>
      simp only [SchedulerState.cancel]
      cases system.state.jobs.get handle.id with
      | none => rfl
      | some record =>
          simp only
          split_ifs
          · rfl
          · rfl
          · rfl

theorem takeResult_accepting (system : JobSystem) (handle : JobHandle) :
    (system.takeResult handle).2.accepting = system.state.accepting := by
  rcases system.takeResult_cases handle with ⟨failure, hCase⟩ | ⟨record, -, -, hCase⟩
  · rw [hCase]
  · rw [hCase]
    rfl

/-- A system that has stopped hands out no work and gets none back. -/
theorem Step.stopped (h : site.Sound) (hAccepting : site.system.state.accepting = false)
    (hStep : Step site event site') :
    site'.system.state.accepting = false ∧ event.started = [] ∧
      site'.system.works.length ≤ site.system.works.length ∧
      ∀ id state, event = .finished id state → site.system.works ≠ [] := by
  have hOther : (∀ id state, event ≠ .finished id state) →
      ∀ id state, event = .finished id state → site.system.works ≠ [] :=
    fun hNone id state hEvent => absurd hEvent (hNone id state)
  cases hStep with
  | submitInput path request input outputCapacity result env state hSubmit =>
      refine ⟨?_, rfl, Nat.le_refl _, hOther fun _ _ hEvent => by cases hEvent⟩
      rcases submitInput_cases site.system.config path request input outputCapacity site.env
        site.system.state with ⟨failure, hCase⟩ | ⟨hRunning, -⟩
      · cases hSubmit.symm.trans hCase
        exact hAccepting
      · rw [hAccepting] at hRunning
        cases hRunning
  | takeWork work state hTake =>
      rw [SchedulerState.takeWork, hAccepting] at hTake
      cases hTake
      refine ⟨hAccepting, rfl, ?_, hOther fun _ _ hEvent => by cases hEvent⟩
      exact Nat.le_of_eq (congrArg List.length (List.append_nil _))
  | finish before after work cancelled exceeded now run hWorks =>
      have hPhase := (h.working work.id).mp (by simp [hWorks])
      refine ⟨?_, rfl, ?_, fun _ _ _ hNone => by simp [hNone] at hWorks⟩
      · rw [SchedulerState.finish_eq hPhase]
        exact hAccepting
      · rw [hWorks]
        simp
  | cancel handle =>
      refine ⟨?_, rfl, Nat.le_refl _, hOther fun _ _ hEvent => by cases hEvent⟩
      exact (cancel_accepting _ _).trans hAccepting
  | cancelRequested =>
      exact ⟨(SchedulerState.stop_spec h.state).1, rfl, Nat.le_refl _,
        hOther fun _ _ hEvent => by cases hEvent⟩
  | drainCompletions room =>
      obtain ⟨completions, -, -, -, hState⟩ := SchedulerState.drainCompletions_spec h.state room
      refine ⟨?_, rfl, Nat.le_refl _, hOther fun _ _ hEvent => by cases hEvent⟩
      rw [hState]
      exact hAccepting
  | takeResult handle result state hTake =>
      refine ⟨?_, rfl, Nat.le_refl _, hOther fun _ _ hEvent => by cases hEvent⟩
      have hSame := takeResult_accepting site.system handle
      rw [hTake] at hSame
      exact hSame.trans hAccepting
  | closeStop call destroys hCall =>
      exact ⟨(SchedulerState.stop_spec h.state).1, rfl, Nat.le_refl _,
        hOther fun _ _ hEvent => by cases hEvent⟩
  | _ =>
      exact ⟨hAccepting, rfl, Nat.le_refl _, hOther fun _ _ hEvent => by cases hEvent⟩

/-- No work is handed out once a system has stopped. -/
theorem stopped_run (h : site.Sound) (hAccepting : site.system.state.accepting = false)
    {trace : List JobEvent} (run : Run Step site trace site') :
    site'.Sound ∧ site'.system.state.accepting = false ∧ startedIn trace = [] ∧
      (site.system.works = [] → site'.system.works = [] ∧
        ∀ id state, .finished id state ∉ trace) := by
  apply run.invariant fun trace site' => site'.Sound ∧ site'.system.state.accepting = false ∧
    startedIn trace = [] ∧ (site.system.works = [] → site'.system.works = [] ∧
      ∀ id state, .finished id state ∉ trace)
  · exact ⟨h, hAccepting, rfl, fun hNone => ⟨hNone, fun _ _ => List.not_mem_nil⟩⟩
  · intro trace site' event site'' ⟨hSound, hClosed, hStarted, hWorks⟩ hStep
    obtain ⟨hClosed', hNone, hLength, hFinished⟩ := hStep.stopped hSound hClosed
    refine ⟨(hStep.effect hSound).1, hClosed', ?_, fun hEmpty => ?_⟩
    · rw [startedIn_snoc, hStarted, hNone]
      rfl
    · obtain ⟨hEmpty', hEvents⟩ := hWorks hEmpty
      rw [hEmpty'] at hLength
      refine ⟨List.length_eq_zero_iff.mp (Nat.le_zero.mp hLength), fun id state hMem => ?_⟩
      rcases List.mem_append.mp hMem with hOld | hNew
      · exact hEvents id state hOld
      · exact hFinished id state (List.mem_singleton.mp hNew).symm hEmpty'

/-- Only an ended job is reaped, with what its record holds. -/
theorem Step.reaped {id : JobId} {result : JobResult}
    (hStep : Step site (.reaped id (.ok result)) site') :
    ∃ record, site.system.state.jobs.get id = some record ∧ record.state.isTerminal = true ∧
      result = ⟨id, record.state, record.deadlineExceeded, record.error,
        record.output.take record.outputLen, record.reservation⟩ := by
  generalize hEvent : JobEvent.reaped id (.ok result) = event at hStep
  cases hStep with
  | takeResult handle reply state hTake =>
      cases hEvent
      rcases site.system.takeResult_cases handle with
        ⟨failure, hCase⟩ | ⟨record, hRecord, hTerminal, hCase⟩
      · cases hTake.symm.trans hCase
      · cases hTake.symm.trans hCase
        exact ⟨record, hRecord, hTerminal, rfl⟩
  | _ => cases hEvent

/-- A `quiesce` that returned Quiesced has seen the system stopped and idle. -/
theorem Step.quiesced (h : site.Sound) (hStep : Step site (.quiesced .quiesced) site') :
    site'.system.state.accepting = false ∧ site'.system.works = [] := by
  generalize hEvent : JobEvent.quiesced .quiesced = event at hStep
  cases hStep with
  | quiesceReturn call running workers hCall =>
      have hFenced := h.calls call
      rw [hCall] at hFenced
      have hQuiet := quiesceState_eq (JobEvent.quiesced.inj hEvent).symm
      refine ⟨hFenced.1, List.length_eq_zero_iff.mp ?_⟩
      exact h.running.symm.trans (hFenced.2 hQuiet)
  | _ => cases hEvent

theorem Step.closed {ids : List JobId} (h : site.Sound) (hStep : Step site (.stopped ids) site') :
    site'.system.state.accepting = false := by
  generalize hEvent : JobEvent.stopped ids = event at hStep
  cases hStep with
  | cancelRequested => exact (SchedulerState.stop_spec h.state).1
  | closeStop => exact (SchedulerState.stop_spec h.state).1
  | _ => cases hEvent

end Site

/-- The edges of the life cycle. -/
inductive JobState.Next : JobState → JobState → Prop where
  | start : Next .queued .running
  | succeed : Next .running .succeeded
  | fail : Next .running .failed
  | cancelRunning : Next .running .cancelled
  | cancelQueued : Next .queued .cancelled

theorem Moves.next {event : JobEvent} {id : JobId} {before after : JobState}
    (h : Moves event id (some before) (some after)) : after = before ∨ before.Next after := by
  cases h with
  | stays => exact Or.inl rfl
  | starts => exact Or.inr .start
  | ends _ _ _ _ hTerminal hEdge =>
      apply Or.inr
      rcases hEdge with rfl | ⟨rfl, rfl⟩
      · cases after with
        | queued => cases hTerminal
        | running => cases hTerminal
        | succeeded => exact .succeed
        | failed => exact .fail
        | cancelled => exact .cancelRunning
        | timedOut => cases hTerminal
      · exact .cancelQueued

/-- The life of every job, exactly once, in every run of a job system beside any
other systems: its states, its execution, its result, its publication and its close. -/
theorem job_lifecycle {config : JobConfig} {env : Environment} {trace : List JobEvent} {site : Site}
    (run : Run Site.Step ⟨env, .create config⟩ trace site) :
    (∀ event site', Site.Step site event site' → ∀ id after,
      site'.system.state.phase id = some after →
        (site.system.state.phase id = none ∧ after = .queued ∧ id ∉ enteredIn trace) ∨
        ∃ before, site.system.state.phase id = some before ∧
          (after = before ∨ before.Next after)) ∧
    (startedIn trace).Nodup ∧
    (∀ before event after id, trace = before ++ event :: after →
      ((∃ previous, event = .cancelReplied id (.ok (.cancelled previous))) ∨
        ∃ ids, event = .stopped ids ∧ id ∈ ids) →
      id ∉ startedIn after) ∧
    (removedIn trace).Nodup ∧
    (∀ before id result after, trace = before ++ .reaped id (.ok result) :: after →
      result.id = id ∧ ⟨id, result.state⟩ ∈ endedIn before ∧ result.state.isTerminal = true) ∧
    ((endedIn trace).map JobCompletion.id).Nodup ∧
    ((publishedIn trace).map JobCompletion.id).Nodup ∧
    (∀ completion ∈ publishedIn trace, completion ∈ endedIn trace ∧
      completion.state.isTerminal = true) ∧
    (∀ id phase, site.system.state.phase id = some phase → phase.isTerminal = true →
      id ∉ (publishedIn trace).map JobCompletion.id → id ∈ site.system.state.ready) ∧
    (∀ room, ∃ completions : List JobCompletion,
      (site.system.state.drainCompletions room).1 = some completions ∧
      completions.map JobCompletion.id = (site.system.state.ready.mergeSort (· ≤ ·)).take room ∧
      ∀ completion ∈ completions,
        site.system.state.phase completion.id = some completion.state) ∧
    (∀ before ids after, trace = before ++ .stopped ids :: after → startedIn after = []) ∧
    ∀ before after, trace = before ++ .quiesced .quiesced :: after →
      site.system.state.running = 0 ∧ startedIn after = [] ∧
        ∀ id state, .finished id state ∉ after := by
  obtain ⟨hSound, hTracks⟩ := Site.of_run run
  refine ⟨?_, hTracks.startedNodup, ?_, hTracks.removedNodup, ?_, hTracks.endedNodup,
    hTracks.publishedNodup, ?_, ?_, fun room => ?_, ?_, ?_⟩
  · intro event site' hStep id after hAfter
    have hMoves := (hStep.effect hSound).2.moves id
    rw [hAfter] at hMoves
    cases hBefore : site.system.state.phase id with
    | none =>
        rw [hBefore] at hMoves
        by_cases hEnters : id ∈ event.entered
        · have hNew := hStep.counts.2.1 id hEnters
          refine Or.inl ⟨rfl, ?_, fun hKnown => ?_⟩
          · cases hMoves with
            | enters => rfl
          · rw [hNew.1] at hKnown
            exact Nat.lt_irrefl _ (hTracks.bounded _ hKnown)
        · cases hMoves.of_none hEnters
    | some before =>
        rw [hBefore] at hMoves
        exact Or.inr ⟨before, rfl, hMoves.next⟩
  · rintro before event after id rfl hCancels
    have hEnds : ⟨id, .cancelled⟩ ∈ event.ended := by
      rcases hCancels with ⟨previous, rfl⟩ | ⟨ids, rfl, hMem⟩
      · exact List.mem_singleton_self _
      · exact List.mem_map.mpr ⟨id, hMem, rfl⟩
    intro hStarted
    obtain ⟨later, hLater, hTaken⟩ := List.mem_flatMap.mp hStarted
    obtain ⟨front, back, rfl⟩ := List.append_of_mem hLater
    rw [← List.cons_append, ← List.append_assoc] at run
    obtain ⟨site₁, site₂, hBefore, hStep, -⟩ := run.at
    obtain ⟨hSound₁, hTracks₁⟩ := Site.of_run hBefore
    have hEarlier : ⟨id, .cancelled⟩ ∈ endedIn (before ++ event :: front) := by
      rw [endedIn, List.flatMap_append, List.flatMap_cons]
      exact List.mem_append_right _ (List.mem_append_left _ hEnds)
    have hQueued := (((hStep.effect hSound₁).2.moves id).of_started hTaken).1
    cases (hTracks₁.ended _ hEarlier).2 _ hQueued
  · rintro before id result after rfl
    obtain ⟨site₁, site₂, hBefore, hStep, -⟩ := run.at
    obtain ⟨-, hTracks₁⟩ := Site.of_run hBefore
    obtain ⟨record, hRecord, hTerminal, rfl⟩ := hStep.reaped
    have hPhase := SchedulerState.phase_eq_some.mpr ⟨record, hRecord, rfl⟩
    exact ⟨rfl, hTracks₁.final _ _ hPhase hTerminal, hTerminal⟩
  · intro completion hMem
    have hEnded := (hTracks.published completion hMem).1
    exact ⟨hEnded, hTracks.terminal completion hEnded⟩
  · intro id phase hPhase hTerminal hNever
    exact (hTracks.waiting id phase hPhase hTerminal).resolve_right hNever
  · obtain ⟨completions, hResult, hIds, hStates, -⟩ :=
      SchedulerState.drainCompletions_spec hSound.state room
    exact ⟨completions, hResult, hIds, hStates⟩
  · rintro before ids after rfl
    obtain ⟨site₁, site₂, hBefore, hStep, hAfter⟩ := run.at
    have hSound₁ := (Site.of_run hBefore).1
    exact (Site.stopped_run (hStep.effect hSound₁).1 (hStep.closed hSound₁) hAfter).2.2.1
  · rintro before after rfl
    obtain ⟨site₁, site₂, hBefore, hStep, hAfter⟩ := run.at
    have hSound₁ := (Site.of_run hBefore).1
    obtain ⟨hAccepting, hIdle⟩ := hStep.quiesced hSound₁
    obtain ⟨-, -, hStarted, hWorks⟩ :=
      Site.stopped_run (hStep.effect hSound₁).1 hAccepting hAfter
    obtain ⟨hNone, hFinished⟩ := hWorks hIdle
    exact ⟨by rw [hSound.running, hNone]; rfl, hStarted, hFinished⟩

/-- One job is submitted, pumped by its caller and published by the next drain. -/
theorem job_lifecycle_one :
    ∃ site : Site, site.system.state.phase 0 = some .succeeded ∧
      0 ∈ site.system.state.ready ∧
      (site.system.state.drainCompletions 4).1 = some [⟨0, .succeeded⟩] := by
  have run := Run.snoc (Run.snoc (Run.snoc
    (Run.nil (⟨⟨.new 8, 0⟩, .create ⟨1, ⟨1⟩, 1, 1, 1⟩⟩ : Site))
    (Site.Step.submitInput _ ⟨.ok (), true, true, true⟩ ⟨7, .none⟩ [1, 2] 1 _ _ _ rfl))
    (Site.Step.takeWork _ _ _ rfl))
    (Site.Step.finish _ [] [] _ false false 0 (some ⟨[9], some (.ok 1), rfl⟩) rfl)
  obtain ⟨-, -, -, -, -, -, -, -, hReady, hDrain, -⟩ := job_lifecycle run
  obtain ⟨completions, hResult, hIds, hStates⟩ := hDrain 4
  refine ⟨_, rfl, hReady 0 .succeeded rfl rfl (by simp [publishedIn, JobEvent.published]), ?_⟩
  have hSorted : ([0] : List JobId).mergeSort (· ≤ ·) = [0] := List.mergeSort_singleton 0
  have hSingle : completions.map JobCompletion.id = [0] := by
    exact hIds.trans (congrArg (List.take 4) hSorted)
  obtain ⟨completion, rfl, hId⟩ := List.map_eq_singleton_iff.mp hSingle
  have hState := hStates completion (List.mem_singleton_self _)
  rw [hId] at hState
  rw [hResult]
  cases completion
  cases hId
  cases hState
  rfl

end Job

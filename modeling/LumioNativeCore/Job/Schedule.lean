import LumioNativeCore.Job.System

/-! What one section under the scheduler lock does to the jobs: the state of a
record moves one edge of the life cycle, and the queue and the ready list follow. -/
namespace Job

open Kernel

/-! What an event says about single jobs. -/

namespace JobEvent

def entered : JobEvent → List JobId
  | submitted _ _ (.ok handle) => [handle.id]
  | _ => []

def started : JobEvent → List JobId
  | taken (some work) => [work.id]
  | _ => []

def ended : JobEvent → List JobCompletion
  | finished id state => [⟨id, state⟩]
  | cancelReplied id (.ok (.cancelled _)) => [⟨id, .cancelled⟩]
  | stopped ids => ids.map fun id => ⟨id, .cancelled⟩
  | _ => []

def published : JobEvent → List JobCompletion
  | drained (some completions) => completions
  | _ => []

def removed : JobEvent → List JobId
  | reaped id (.ok _) => [id]
  | destroyed leases (.ok _) => leases.map Prod.fst
  | _ => []

end JobEvent

/-- The state of a job, while it is retained. -/
def SchedulerState.phase (state : SchedulerState) (id : JobId) : Option JobState :=
  (state.jobs.get id).map JobRecord.state

/-- The edge of the life cycle that an event makes one job take. -/
inductive Moves (event : JobEvent) (id : JobId) : Option JobState → Option JobState → Prop where
  | stays {phase : Option JobState} (hEntered : id ∉ event.entered)
      (hStarted : id ∉ event.started) (hEnded : ∀ state, ⟨id, state⟩ ∉ event.ended)
      (hRemoved : id ∉ event.removed) : Moves event id phase phase
  | enters (hEntered : id ∈ event.entered) (hStarted : id ∉ event.started)
      (hEnded : ∀ state, ⟨id, state⟩ ∉ event.ended) (hRemoved : id ∉ event.removed) :
      Moves event id none (some .queued)
  | starts (hEntered : id ∉ event.entered) (hStarted : id ∈ event.started)
      (hEnded : ∀ state, ⟨id, state⟩ ∉ event.ended) (hRemoved : id ∉ event.removed) :
      Moves event id (some .queued) (some .running)
  | ends {before after : JobState} (hEntered : id ∉ event.entered)
      (hStarted : id ∉ event.started) (hEnded : ∀ state, ⟨id, state⟩ ∈ event.ended ↔ state = after)
      (hRemoved : id ∉ event.removed) (hTerminal : after.isTerminal = true)
      (hEdge : before = .running ∨ before = .queued ∧ after = .cancelled) :
      Moves event id (some before) (some after)
  | leaves {state : JobState} (hEntered : id ∉ event.entered) (hStarted : id ∉ event.started)
      (hEnded : ∀ state, ⟨id, state⟩ ∉ event.ended) (hRemoved : id ∈ event.removed)
      (hTerminal : state.isTerminal = true) : Moves event id (some state) none

section Moves

variable {event : JobEvent} {id : JobId} {before after : Option JobState} {state : JobState}

theorem Moves.of_started (h : Moves event id before after) (hMem : id ∈ event.started) :
    before = some .queued ∧ after = some .running := by
  cases h with
  | starts => exact ⟨rfl, rfl⟩
  | stays _ hStarted => exact absurd hMem hStarted
  | enters _ hStarted => exact absurd hMem hStarted
  | ends _ hStarted => exact absurd hMem hStarted
  | leaves _ hStarted => exact absurd hMem hStarted

theorem Moves.of_ended (h : Moves event id before after) (hMem : ⟨id, state⟩ ∈ event.ended) :
    (before = some .running ∨ before = some .queued ∧ state = .cancelled) ∧
      after = some state ∧ state.isTerminal = true := by
  cases h with
  | ends _ _ hEnded _ hTerminal hEdge =>
      obtain rfl := (hEnded state).mp hMem
      refine ⟨?_, rfl, hTerminal⟩
      rcases hEdge with rfl | ⟨rfl, rfl⟩
      · exact Or.inl rfl
      · exact Or.inr ⟨rfl, rfl⟩
  | stays _ _ hEnded => exact absurd hMem (hEnded _)
  | enters _ _ hEnded => exact absurd hMem (hEnded _)
  | starts _ _ hEnded => exact absurd hMem (hEnded _)
  | leaves _ _ hEnded => exact absurd hMem (hEnded _)

theorem Moves.of_removed (h : Moves event id before after) (hMem : id ∈ event.removed) :
    before ≠ none ∧ after = none := by
  cases h with
  | leaves => exact ⟨by simp, rfl⟩
  | stays _ _ _ hRemoved => exact absurd hMem hRemoved
  | enters _ _ _ hRemoved => exact absurd hMem hRemoved
  | starts _ _ _ hRemoved => exact absurd hMem hRemoved
  | ends _ _ _ hRemoved => exact absurd hMem hRemoved

theorem Moves.of_entered (h : Moves event id before after) (hMem : id ∈ event.entered) :
    after = some .queued := by
  cases h with
  | enters => rfl
  | stays hEntered => exact absurd hMem hEntered
  | starts hEntered => exact absurd hMem hEntered
  | ends hEntered => exact absurd hMem hEntered
  | leaves hEntered => exact absurd hMem hEntered

/-- A job that is not held comes only by entering. -/
theorem Moves.of_none (h : Moves event id none after) (hOld : id ∉ event.entered) :
    after = none := by
  cases h with
  | stays => rfl
  | enters hEntered => exact absurd hEntered hOld

/-- A job is queued only since it entered. -/
theorem Moves.into_queued (h : Moves event id before (some .queued)) (hOld : id ∉ event.entered) :
    before = some .queued := by
  cases h with
  | stays => rfl
  | enters hEntered => exact absurd hEntered hOld
  | ends _ _ _ _ hTerminal => cases hTerminal

theorem Moves.into_terminal (h : Moves event id before (some state))
    (hTerminal : state.isTerminal = true) :
    before = some state ∨ ⟨id, state⟩ ∈ event.ended := by
  cases h with
  | stays => exact Or.inl rfl
  | enters => cases hTerminal
  | starts => cases hTerminal
  | ends _ _ hEnded => exact Or.inr ((hEnded state).mpr rfl)

/-- An ended job keeps its state as long as it is held. -/
theorem Moves.of_terminal {state' : JobState} (h : Moves event id (some state) (some state'))
    (hTerminal : state.isTerminal = true) : state' = state := by
  cases h with
  | stays => rfl
  | starts => cases hTerminal
  | ends _ _ _ _ _ hEdge =>
      rcases hEdge with rfl | ⟨rfl, -⟩
      · cases hTerminal
      · cases hTerminal

end Moves

/-- The queue lists the queued jobs, the ready list only ended ones. -/
structure SchedulerState.Sound (state : SchedulerState) : Prop where
  queueNodup : state.queue.Nodup
  queued : ∀ id, id ∈ state.queue ↔ state.phase id = some .queued
  readyNodup : state.ready.Nodup
  ready : ∀ id ∈ state.ready, ∃ phase, phase.isTerminal = true ∧ state.phase id = some phase
  known : ∀ id, state.phase id ≠ some .timedOut
  stopped : state.accepting = false → state.queue = []

/-- What one event does to the scheduler. -/
structure Effect (event : JobEvent) (state state' : SchedulerState) : Prop where
  moves : ∀ id, Moves event id (state.phase id) (state'.phase id)
  ready : ∀ id, id ∈ state'.ready ↔
    (id ∈ state.ready ∨ ∃ phase, ⟨id, phase⟩ ∈ event.ended) ∧
      (∀ phase, ⟨id, phase⟩ ∉ event.published) ∧ id ∉ event.removed
  published : ∀ completion ∈ event.published,
    completion.id ∈ state.ready ∧ state.phase completion.id = some completion.state
  endedNodup : (event.ended.map JobCompletion.id).Nodup
  publishedNodup : (event.published.map JobCompletion.id).Nodup
  removedNodup : event.removed.Nodup

namespace SchedulerState

variable {state : SchedulerState}

/-! Each section. -/

theorem phase_modify (jobs : Table JobId JobRecord) (id id' : JobId) (f : JobRecord → JobRecord)
    (accepting : Bool) (queue ready : List JobId) (running : Nat) :
    SchedulerState.phase ⟨accepting, jobs.modify id f, queue, ready, running⟩ id' =
      if id' = id then (jobs.get id').map fun record => (f record).state
      else (jobs.get id').map JobRecord.state := by
  rw [phase]
  simp only [Table.get_modify, Option.map_map]
  split_ifs
  · rfl
  · rfl

theorem phase_eq_some {id : JobId} {phase : JobState} :
    state.phase id = some phase ↔ ∃ record, state.jobs.get id = some record ∧
      record.state = phase := by
  rw [SchedulerState.phase, Option.map_eq_some_iff]

/-- An event that says nothing about any job leaves the scheduler's view alone. -/
theorem effect_quiet {event : JobEvent} {state' : SchedulerState} (hEntered : event.entered = [])
    (hStarted : event.started = []) (hEnded : event.ended = []) (hPublished : event.published = [])
    (hRemoved : event.removed = []) (hPhase : ∀ id, state'.phase id = state.phase id)
    (hReady : state'.ready = state.ready) : Effect event state state' where
  moves := by
    intro id
    rw [hPhase]
    apply Moves.stays
    · rw [hEntered]
      exact List.not_mem_nil
    · rw [hStarted]
      exact List.not_mem_nil
    · intro phase
      rw [hEnded]
      exact List.not_mem_nil
    · rw [hRemoved]
      exact List.not_mem_nil
  ready := by
    intro id
    rw [hEnded, hPublished, hRemoved, hReady]
    simp
  published := by
    intro completion hMem
    rw [hPublished] at hMem
    exact absurd hMem List.not_mem_nil
  endedNodup := by
    rw [hEnded]
    exact List.nodup_nil
  publishedNodup := by
    rw [hPublished]
    exact List.nodup_nil
  removedNodup := by
    rw [hRemoved]
    exact List.nodup_nil

/-- The front of the queue becomes a work. -/
def start (state : SchedulerState) (id : JobId) (rest : List JobId) : SchedulerState :=
  { state with
    jobs := state.jobs.modify id fun record =>
      { record with state := .running, input := [], output := [] }
    queue := rest
    running := state.running + 1 }

/-- In a sound state the front of the queue is the next work. -/
theorem takeWork_eq (h : state.Sound) (maxRunning : Nat) :
    state.takeWork maxRunning = (none, state) ∨
      ∃ id rest record, state.accepting = true ∧ state.running < maxRunning ∧
        state.queue = id :: rest ∧ state.jobs.get id = some record ∧ record.state = .queued ∧
        state.takeWork maxRunning =
          (some ⟨id, record.request.operation, record.request.deadline, record.input,
              record.output⟩, state.start id rest) := by
  rw [takeWork]
  by_cases hRefused : !state.accepting ∨ state.running ≥ maxRunning
  · rw [if_pos hRefused]
    exact Or.inl rfl
  · rw [if_neg hRefused]
    simp only [Bool.not_eq_true', ge_iff_le, not_or, Bool.not_eq_false, not_le] at hRefused
    cases hQueue : state.queue with
    | nil =>
        apply Or.inl
        rw [popQueued, ← hQueue]
    | cons id rest =>
        apply Or.inr
        have hMem : id ∈ state.queue := hQueue ▸ List.mem_cons_self
        obtain ⟨record, hRecord, hState⟩ := phase_eq_some.mp ((h.queued id).mp hMem)
        refine ⟨id, rest, record, hRefused.1, hRefused.2, rfl, hRecord, hState, ?_⟩
        simp [popQueued, hRecord, hState, start]

/-- A write that keeps the reservation keeps every lease. -/
theorem leasesOf_modify (jobs : Table JobId JobRecord) (id : JobId) {f : JobRecord → JobRecord}
    (hf : ∀ record, (f record).reservation = record.reservation) :
    leasesOf (jobs.modify id f) = leasesOf jobs := by
  rw [leasesOf, leasesOf, Table.modify, List.map_map]
  apply List.map_congr_left
  intro entry _
  simp only [Function.comp_apply]
  split_ifs
  · rw [hf]
  · rfl

theorem leasesOf_keys (jobs : Table JobId JobRecord) : (leasesOf jobs).map Prod.fst = jobs.keys := by
  rw [leasesOf, List.map_map]
  rfl

/-- The loop of `stop` cancels every job of the queue. -/
theorem cancelQueue_eq {ids : List JobId}
    (hQueued : ∀ id ∈ ids, ∃ record, state.jobs.get id = some record) :
    ∃ jobs : Table JobId JobRecord,
      cancelQueue ids state =
        { state with jobs := jobs, queue := [], ready := state.ready ++ ids } ∧
      leasesOf jobs = leasesOf state.jobs ∧
      ∀ id, jobs.get id = (state.jobs.get id).map fun record =>
        if id ∈ ids then record.cancelQueued else record := by
  induction ids generalizing state with
  | nil =>
      refine ⟨state.jobs, ?_, rfl, fun id => ?_⟩
      · rw [cancelQueue, List.append_nil]
      · simp
  | cons id rest ih =>
      obtain ⟨record, hRecord⟩ := hQueued id List.mem_cons_self
      rw [cancelQueue]
      simp only [hRecord]
      have hRest : ∀ other ∈ rest, ∃ record,
          (state.jobs.modify id JobRecord.cancelQueued).get other = some record := by
        intro other hOther
        obtain ⟨found, hFound⟩ := hQueued other (List.mem_cons_of_mem _ hOther)
        rw [Table.get_modify, hFound]
        exact ⟨_, rfl⟩
      obtain ⟨jobs, hJobs, hLeases, hGet⟩ := @ih
        { state with
          jobs := state.jobs.modify id JobRecord.cancelQueued
          queue := rest
          ready := state.ready ++ [id] } hRest
      refine ⟨jobs, ?_, ?_, fun other => ?_⟩
      · rw [hJobs]
        simp
      · rw [hLeases]
        exact leasesOf_modify _ _ fun _ => rfl
      · rw [hGet, Table.get_modify, Option.map_map]
        apply congrArg (fun f => Option.map f (state.jobs.get other))
        funext record
        by_cases hSame : other = id
        · subst hSame
          simp only [Function.comp_apply, List.mem_cons, true_or, if_true]
          split_ifs
          · rfl
          · rfl
        · simp [hSame]

theorem Sound.of_phases {state' : SchedulerState} (h : state.Sound)
    (hPhases : ∀ id, state'.phase id = state.phase id) (hAccepting : state'.accepting = state.accepting)
    (hQueue : state'.queue = state.queue) (hReady : state'.ready = state.ready) : state'.Sound where
  queueNodup := hQueue ▸ h.queueNodup
  queued := by
    intro id
    rw [hQueue, hPhases]
    exact h.queued id
  readyNodup := hReady ▸ h.readyNodup
  ready := by
    intro id hId
    rw [hPhases]
    exact h.ready id (hReady ▸ hId)
  known := by
    intro id
    rw [hPhases]
    exact h.known id
  stopped := by
    rw [hAccepting, hQueue]
    exact h.stopped

theorem terminal_ne {phase : JobState} (hTerminal : phase.isTerminal = true) :
    phase ≠ .queued ∧ phase ≠ .running ∧ phase ≠ .timedOut := by
  cases phase with
  | queued => cases hTerminal
  | running => cases hTerminal
  | timedOut => cases hTerminal
  | succeeded => exact ⟨by decide, by decide, by decide⟩
  | failed => exact ⟨by decide, by decide, by decide⟩
  | cancelled => exact ⟨by decide, by decide, by decide⟩

section Enter

variable {id : JobId} {record : JobRecord}

/-- The publication of a new job. -/
def enter (state : SchedulerState) (id : JobId) (record : JobRecord) : SchedulerState :=
  { state with jobs := state.jobs.put id record, queue := state.queue ++ [id] }

theorem phase_enter (id' : JobId) :
    (state.enter id record).phase id' = if id' = id then some record.state else state.phase id' := by
  rw [SchedulerState.phase, enter, Table.get_put]
  split_ifs
  · rfl
  · rfl

theorem sound_enter (h : state.Sound) (hAccepting : state.accepting = true)
    (hFresh : state.phase id = none) (hQueued : record.state = .queued) :
    (state.enter id record).Sound where
  queueNodup := by
    apply List.Nodup.append h.queueNodup (List.nodup_singleton id)
    intro other hOther hSame
    rw [List.mem_singleton] at hSame
    subst hSame
    rw [h.queued, hFresh] at hOther
    cases hOther
  queued := by
    intro other
    rw [phase_enter]
    show other ∈ state.queue ++ [id] ↔ _
    rw [List.mem_append, List.mem_singleton, h.queued]
    split_ifs with hSame
    · simp [hSame, hQueued]
    · simp [hSame]
  readyNodup := h.readyNodup
  ready := by
    intro other hOther
    obtain ⟨phase, hTerminal, hPhase⟩ := h.ready other hOther
    refine ⟨phase, hTerminal, ?_⟩
    rw [phase_enter, if_neg, hPhase]
    rintro rfl
    cases hFresh.symm.trans hPhase
  known := by
    intro other
    rw [phase_enter]
    split_ifs
    · simp [hQueued]
    · exact h.known other
  stopped := fun hRefused => by
    rw [enter, hAccepting] at hRefused
    cases hRefused

theorem effect_enter (hFresh : state.phase id = none)
    (hQueued : record.state = .queued) {input : List UInt8} {outputCapacity : Nat}
    {handle : JobHandle} (hHandle : handle.id = id) :
    Effect (.submitted input outputCapacity (.ok handle)) state (state.enter id record) where
  moves := by
    intro other
    rw [phase_enter]
    by_cases hSame : other = id
    · subst hSame
      rw [if_pos rfl, hFresh, hQueued]
      exact .enters (by simp [JobEvent.entered, hHandle]) List.not_mem_nil
        (fun _ => List.not_mem_nil) List.not_mem_nil
    · rw [if_neg hSame]
      exact .stays (by simp [JobEvent.entered, hHandle, hSame]) List.not_mem_nil
        (fun _ => List.not_mem_nil) List.not_mem_nil
  ready := by
    intro other
    simp [enter, JobEvent.ended, JobEvent.published, JobEvent.removed]
  published := fun _ hMem => absurd hMem List.not_mem_nil
  endedNodup := List.nodup_nil
  publishedNodup := List.nodup_nil
  removedNodup := List.nodup_nil

end Enter

section Start

variable {id : JobId} {rest : List JobId} {record : JobRecord}

theorem phase_start (hRecord : state.jobs.get id = some record) (id' : JobId) :
    (state.start id rest).phase id' = if id' = id then some .running else state.phase id' := by
  rw [start, phase_modify]
  split_ifs with hSame
  · rw [hSame, hRecord]
    rfl
  · rfl

theorem sound_start (h : state.Sound) (hAccepting : state.accepting = true)
    (hQueue : state.queue = id :: rest) (hRecord : state.jobs.get id = some record)
    (hQueued : record.state = .queued) : (state.start id rest).Sound where
  queueNodup := by
    have hNodup := h.queueNodup
    rw [hQueue] at hNodup
    exact hNodup.of_cons
  queued := by
    intro other
    have hNodup := h.queueNodup
    have hOther := h.queued other
    rw [hQueue] at hNodup hOther
    rw [phase_start hRecord]
    show other ∈ rest ↔ _
    split_ifs with hSame
    · subst hSame
      simpa using hNodup.notMem
    · simpa [hSame] using hOther
  readyNodup := h.readyNodup
  ready := by
    intro other hOther
    obtain ⟨phase, hTerminal, hPhase⟩ := h.ready other hOther
    refine ⟨phase, hTerminal, ?_⟩
    rw [phase_start hRecord, if_neg, hPhase]
    rintro rfl
    rw [phase_eq_some] at hPhase
    obtain ⟨found, hFound, rfl⟩ := hPhase
    obtain rfl := Option.some.inj (hRecord.symm.trans hFound)
    exact (terminal_ne hTerminal).1 hQueued
  known := by
    intro other
    rw [phase_start hRecord]
    split_ifs
    · simp
    · exact h.known other
  stopped := fun hRefused => by
    rw [start, hAccepting] at hRefused
    cases hRefused

theorem effect_start (hRecord : state.jobs.get id = some record) (hQueued : record.state = .queued)
    {work : Work} (hWork : work.id = id) :
    Effect (.taken (some work)) state (state.start id rest) where
  moves := by
    intro other
    rw [phase_start hRecord]
    by_cases hSame : other = id
    · subst hSame
      rw [if_pos rfl, phase_eq_some.mpr ⟨record, hRecord, hQueued⟩]
      exact .starts List.not_mem_nil (by simp [JobEvent.started, hWork])
        (fun _ => List.not_mem_nil) List.not_mem_nil
    · rw [if_neg hSame]
      exact .stays List.not_mem_nil (by simp [JobEvent.started, hWork, hSame])
        (fun _ => List.not_mem_nil) List.not_mem_nil
  ready := by
    intro other
    simp [start, JobEvent.ended, JobEvent.published, JobEvent.removed]
  published := fun _ hMem => absurd hMem List.not_mem_nil
  endedNodup := List.nodup_nil
  publishedNodup := List.nodup_nil
  removedNodup := List.nodup_nil

end Start

section Finish

variable {state' : SchedulerState} {id : JobId} {before after : JobState}

/-- A job ends: a queued one leaves the queue, a running one was not in it. -/
structure Ends (state state' : SchedulerState) (id : JobId) (before after : JobState) : Prop where
  phase : state.phase id = some before
  edge : before = .running ∨ before = .queued ∧ after = .cancelled
  terminal : after.isTerminal = true
  phases : ∀ other, state'.phase other = if other = id then some after else state.phase other
  queue : state'.queue = retain state.queue id
  ready : state'.ready = state.ready ++ [id]
  accepting : state'.accepting = state.accepting

theorem Ends.sound (h : Ends state state' id before after) (hSound : state.Sound) :
    state'.Sound where
  queueNodup := by
    rw [h.queue]
    exact hSound.queueNodup.filter _
  queued := by
    intro other
    rw [h.queue, h.phases, retain, List.mem_filter, hSound.queued]
    split_ifs with hSame
    · simp [hSame, (terminal_ne h.terminal).1]
    · simp [hSame]
  readyNodup := by
    rw [h.ready]
    apply List.Nodup.append hSound.readyNodup (List.nodup_singleton id)
    intro other hOther hSame
    rw [List.mem_singleton] at hSame
    subst hSame
    obtain ⟨phase, hTerminal, hPhase⟩ := hSound.ready other hOther
    rw [h.phase] at hPhase
    obtain rfl := Option.some.inj hPhase
    rcases h.edge with rfl | ⟨rfl, -⟩
    · cases hTerminal
    · cases hTerminal
  ready := by
    intro other hOther
    rw [h.phases]
    split_ifs with hSame
    · exact ⟨after, h.terminal, rfl⟩
    · rw [h.ready, List.mem_append, List.mem_singleton, or_iff_left hSame] at hOther
      exact hSound.ready other hOther
  known := by
    intro other
    rw [h.phases]
    split_ifs
    · simpa using (terminal_ne h.terminal).2.2
    · exact hSound.known other
  stopped := by
    intro hRefused
    rw [h.accepting] at hRefused
    rw [h.queue, hSound.stopped hRefused]
    rfl

theorem Ends.effect (h : Ends state state' id before after) {event : JobEvent}
    (hEntered : event.entered = []) (hStarted : event.started = [])
    (hEnded : event.ended = [⟨id, after⟩]) (hPublished : event.published = [])
    (hRemoved : event.removed = []) : Effect event state state' where
  moves := by
    intro other
    rw [h.phases]
    by_cases hSame : other = id
    · subst hSame
      rw [if_pos rfl, h.phase]
      exact .ends (by simp [hEntered]) (by simp [hStarted]) (by simp [hEnded])
        (by simp [hRemoved]) h.terminal h.edge
    · rw [if_neg hSame]
      exact .stays (by simp [hEntered]) (by simp [hStarted]) (by simp [hEnded, hSame])
        (by simp [hRemoved])
  ready := by
    intro other
    rw [h.ready, hEnded, hPublished, hRemoved]
    simp
  published := by
    intro completion hMem
    rw [hPublished] at hMem
    exact absurd hMem List.not_mem_nil
  endedNodup := by
    rw [hEnded]
    exact List.nodup_singleton id
  publishedNodup := by
    rw [hPublished]
    exact List.nodup_nil
  removedNodup := by
    rw [hRemoved]
    exact List.nodup_nil

theorem failureState_terminal (failure : KernelError) :
    (failureState failure).isTerminal = true := by
  rw [failureState]
  split_ifs
  · rfl
  · rfl

theorem finalState_terminal (outcome : Except KernelError Nat) :
    (finalState outcome).isTerminal = true := by
  cases outcome with
  | ok => rfl
  | error failure => exact failureState_terminal failure

theorem finished_state (record : JobRecord) (output : List UInt8) (exceeded : Bool)
    (outcome : Except KernelError Nat) :
    (record.finished output exceeded outcome).state = finalState outcome := by
  cases outcome with
  | ok => rfl
  | error => rfl

theorem retain_of_not_mem {ids : List JobId} (h : id ∉ ids) : retain ids id = ids := by
  rw [retain, List.filter_eq_self]
  intro other hOther
  simp only [decide_eq_true_eq]
  rintro rfl
  exact h hOther

theorem Ends.queue_length (h : Ends state state' id before after) :
    state'.queue.length ≤ state.queue.length := by
  rw [h.queue]
  exact List.length_filter_le _ _

/-- An execution that is over finds its record. -/
theorem finish_eq (hPhase : state.phase id = some .running) (output : List UInt8)
    (exceeded : Bool) (outcome : Except KernelError Nat) :
    state.finish id output exceeded outcome =
      { state with
        jobs := state.jobs.modify id fun record => record.finished output exceeded outcome
        ready := state.ready ++ [id]
        running := state.running - 1 } := by
  obtain ⟨record, hRecord, -⟩ := phase_eq_some.mp hPhase
  rw [finish, hRecord]

theorem ends_finish (hSound : state.Sound) (hPhase : state.phase id = some .running)
    (output : List UInt8) (exceeded : Bool) (outcome : Except KernelError Nat) :
    Ends state (state.finish id output exceeded outcome) id .running (finalState outcome) := by
  obtain ⟨record, hRecord, -⟩ := phase_eq_some.mp hPhase
  rw [finish_eq hPhase]
  exact
    { phase := hPhase
      edge := Or.inl rfl
      terminal := finalState_terminal outcome
      phases := by
        intro other
        rw [phase_modify]
        split_ifs with hSame
        · rw [hSame, hRecord, Option.map_some, finished_state]
        · rfl
      queue := by
        refine (retain_of_not_mem ?_).symm
        rw [hSound.queued, hPhase]
        simp
      ready := rfl
      accepting := rfl }

/-- What `cancel` comes to, for each state it may find. -/
theorem cancel_cases (hSound : state.Sound) (id : JobId) :
    (state.phase id = none ∧ state.cancel id = (.error (Kernel.error .invalidHandle), state)) ∨
    (∃ phase, phase.isTerminal = true ∧ state.phase id = some phase ∧
      state.cancel id = (.ok (.alreadyTerminal phase), state)) ∨
    (state.phase id = some .running ∧
      state.cancel id = (.ok .requested,
        { state with jobs := state.jobs.modify id fun record =>
            { record with cancelled := true } })) ∨
    ((state.cancel id).1 = .ok (.cancelled .queued) ∧
      Ends state (state.cancel id).2 id .queued .cancelled ∧
      (state.cancel id).2.jobs = state.jobs.modify id (fun record =>
        JobRecord.cancelQueued { record with cancelled := true }) ∧
      (state.cancel id).2.running = state.running) := by
  cases hRecord : state.jobs.get id with
  | none =>
      refine Or.inl ⟨?_, ?_⟩
      · rw [SchedulerState.phase, hRecord]
        rfl
      · rw [SchedulerState.cancel, hRecord]
  | some record =>
      have hPhase : state.phase id = some record.state := by
        rw [SchedulerState.phase, hRecord]
        rfl
      cases hState : record.state with
      | succeeded =>
          refine Or.inr (Or.inl ⟨.succeeded, rfl, hState ▸ hPhase, ?_⟩)
          simp [SchedulerState.cancel, hRecord, hState, JobState.isTerminal]
      | failed =>
          refine Or.inr (Or.inl ⟨.failed, rfl, hState ▸ hPhase, ?_⟩)
          simp [SchedulerState.cancel, hRecord, hState, JobState.isTerminal]
      | cancelled =>
          refine Or.inr (Or.inl ⟨.cancelled, rfl, hState ▸ hPhase, ?_⟩)
          simp [SchedulerState.cancel, hRecord, hState, JobState.isTerminal]
      | timedOut => exact absurd (hState ▸ hPhase) (hSound.known id)
      | running =>
          refine Or.inr (Or.inr (Or.inl ⟨hState ▸ hPhase, ?_⟩))
          simp [SchedulerState.cancel, hRecord, hState, JobState.isTerminal]
      | queued =>
          have hCancel : state.cancel id = (.ok (.cancelled .queued),
              { state with
                jobs := state.jobs.modify id fun record =>
                  JobRecord.cancelQueued { record with cancelled := true }
                queue := retain state.queue id
                ready := state.ready ++ [id] }) := by
            simp [SchedulerState.cancel, hRecord, hState, JobState.isTerminal]
          rw [hCancel]
          refine Or.inr (Or.inr (Or.inr ⟨rfl, ?_, rfl, rfl⟩))
          exact
            { phase := hState ▸ hPhase
              edge := Or.inr ⟨rfl, rfl⟩
              terminal := rfl
              phases := by
                intro other
                rw [phase_modify]
                split_ifs with hSame
                · rw [hSame, hRecord]
                  rfl
                · rfl
              queue := rfl
              ready := rfl
              accepting := rfl }

end Finish

section Stop

/-- What `stop` leaves behind. -/
theorem stop_spec (h : state.Sound) :
    state.stop.accepting = false ∧ state.stop.queue = [] ∧
      state.stop.ready = state.ready ++ state.queue ∧ state.stop.running = state.running ∧
      leasesOf state.stop.jobs = leasesOf state.jobs ∧
      ∀ id, state.stop.jobs.get id = (state.jobs.get id).map fun record =>
        if id ∈ state.queue then JobRecord.cancelQueued { record with cancelled := true }
        else { record with cancelled := true } := by
  have hQueued : ∀ id ∈ state.queue, ∃ record,
      (state.jobs.map fun record => { record with cancelled := true }).get id = some record := by
    intro id hId
    obtain ⟨record, hRecord, -⟩ := phase_eq_some.mp ((h.queued id).mp hId)
    rw [Table.get_map, hRecord]
    exact ⟨_, rfl⟩
  obtain ⟨jobs, hStop, hLeases, hGet⟩ := @cancelQueue_eq
    { state with
      accepting := false
      jobs := state.jobs.map fun record => { record with cancelled := true } } _ hQueued
  rw [stop, hStop]
  refine ⟨rfl, rfl, rfl, rfl, ?_, fun id => ?_⟩
  · rw [hLeases, leasesOf, leasesOf, Table.map, List.map_map]
    rfl
  · rw [hGet, Table.get_map, Option.map_map]
    rfl

theorem phase_stop (h : state.Sound) (id : JobId) :
    state.stop.phase id = if id ∈ state.queue then some .cancelled else state.phase id := by
  rw [SchedulerState.phase, (stop_spec h).2.2.2.2.2, Option.map_map]
  split_ifs with hQueue
  · obtain ⟨record, hRecord, -⟩ := phase_eq_some.mp ((h.queued id).mp hQueue)
    rw [hRecord]
    rfl
  · rfl

theorem sound_stop (h : state.Sound) : state.stop.Sound := by
  obtain ⟨hAccepting, hQueue, hReady, -, -, -⟩ := stop_spec h
  exact
    { queueNodup := by
        rw [hQueue]
        exact List.nodup_nil
      queued := by
        intro id
        rw [hQueue, phase_stop h]
        split_ifs with hMem
        · simp
        · simpa [h.queued] using hMem
      readyNodup := by
        rw [hReady]
        apply List.Nodup.append h.readyNodup h.queueNodup
        intro id hId hMem
        obtain ⟨phase, hTerminal, hPhase⟩ := h.ready id hId
        rw [(h.queued id).mp hMem] at hPhase
        obtain rfl := Option.some.inj hPhase
        cases hTerminal
      ready := by
        intro id hId
        rw [phase_stop h]
        split_ifs with hMem
        · exact ⟨.cancelled, rfl, rfl⟩
        · rw [hReady, List.mem_append, or_iff_left hMem] at hId
          exact h.ready id hId
      known := by
        intro id
        rw [phase_stop h]
        split_ifs
        · simp
        · exact h.known id
      stopped := fun _ => hQueue }

theorem effect_stop (h : state.Sound) : Effect (.stopped state.queue) state state.stop where
  moves := by
    intro id
    rw [phase_stop h]
    split_ifs with hMem
    · rw [(h.queued id).mp hMem]
      exact .ends List.not_mem_nil List.not_mem_nil (by simp [JobEvent.ended, hMem, eq_comm])
        List.not_mem_nil rfl (Or.inr ⟨rfl, rfl⟩)
    · exact .stays List.not_mem_nil List.not_mem_nil (by simp [JobEvent.ended, hMem])
        List.not_mem_nil
  ready := by
    intro id
    rw [(stop_spec h).2.2.1]
    simp [JobEvent.ended, JobEvent.published, JobEvent.removed]
  published := fun _ hMem => absurd hMem List.not_mem_nil
  endedNodup := by
    simpa [JobEvent.ended, Function.comp_def] using h.queueNodup
  publishedNodup := List.nodup_nil
  removedNodup := List.nodup_nil

end Stop

end SchedulerState
end Job

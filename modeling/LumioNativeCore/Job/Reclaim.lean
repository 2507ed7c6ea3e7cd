import LumioNativeCore.Job.Schedule

/-! The sections that publish and reap ended jobs. -/
namespace Job

open Kernel

namespace SchedulerState

variable {state : SchedulerState}

section Drain

/-- The list is long enough and no lookup of the loop fails. -/
theorem drainLoop_eq {jobs : Table JobId JobRecord} {count : Nat} {ids : List JobId}
    (hCount : count ≤ ids.length) (hRetained : ∀ id ∈ ids, ∃ record, jobs.get id = some record) :
    ∃ completions : List JobCompletion,
      drainLoop jobs count ids = (some completions, ids.drop count) ∧
      completions.map JobCompletion.id = ids.take count ∧
      ∀ completion ∈ completions,
        (jobs.get completion.id).map JobRecord.state = some completion.state := by
  induction ids generalizing count with
  | nil =>
      obtain rfl := Nat.le_zero.mp hCount
      exact ⟨[], rfl, rfl, fun _ hMem => absurd hMem List.not_mem_nil⟩
  | cons id rest ih =>
      cases count with
      | zero => exact ⟨[], rfl, rfl, fun _ hMem => absurd hMem List.not_mem_nil⟩
      | succ count =>
          obtain ⟨record, hRecord⟩ := hRetained id List.mem_cons_self
          obtain ⟨completions, hLoop, hIds, hStates⟩ := ih (Nat.le_of_succ_le_succ hCount)
            fun other hOther => hRetained other (List.mem_cons_of_mem _ hOther)
          refine ⟨⟨id, record.state⟩ :: completions, ?_, ?_, ?_⟩
          · rw [drainLoop]
            simp only [hRecord, hLoop]
            rfl
          · rw [List.map_cons, hIds]
            rfl
          · intro completion hMem
            rcases List.mem_cons.mp hMem with rfl | hRest
            · rw [hRecord]
              rfl
            · exact hStates completion hRest

/-- A drain publishes the smallest ready ids and leaves the others. -/
theorem drainCompletions_spec (h : state.Sound) (room : Nat) :
    ∃ completions : List JobCompletion,
      (state.drainCompletions room).1 = some completions ∧
      completions.map JobCompletion.id = (state.ready.mergeSort (· ≤ ·)).take room ∧
      (∀ completion ∈ completions, state.phase completion.id = some completion.state) ∧
      (state.drainCompletions room).2 =
        { state with ready := (state.ready.mergeSort (· ≤ ·)).drop room } := by
  have hSorted : ∀ id ∈ state.ready.mergeSort (· ≤ ·), ∃ record,
      state.jobs.get id = some record := by
    intro id hId
    obtain ⟨phase, -, hPhase⟩ := h.ready id (List.mem_mergeSort.mp hId)
    obtain ⟨record, hRecord, -⟩ := phase_eq_some.mp hPhase
    exact ⟨record, hRecord⟩
  have hLength : (state.ready.mergeSort (· ≤ ·)).length = state.ready.length :=
    List.length_mergeSort state.ready
  have hCount : min room state.ready.length ≤ (state.ready.mergeSort (· ≤ ·)).length := by
    rw [hLength]
    exact Nat.min_le_right _ _
  obtain ⟨completions, hLoop, hIds, hStates⟩ := drainLoop_eq hCount hSorted
  refine ⟨completions, ?_, ?_, hStates, ?_⟩
  · rw [drainCompletions]
    simp only [hLoop]
  · rw [hIds, ← hLength, ← List.take_eq_take_min]
  · rw [drainCompletions]
    simp only [hLoop]
    rw [← hLength, ← List.drop_eq_drop_min]

theorem mem_drained (room : Nat) (id : JobId) (h : state.ready.Nodup) :
    (id ∈ (state.ready.mergeSort (· ≤ ·)).drop room ↔
      id ∈ state.ready ∧ id ∉ (state.ready.mergeSort (· ≤ ·)).take room) := by
  have hPerm := List.mergeSort_perm state.ready (· ≤ ·)
  have hNodup := hPerm.nodup_iff.mpr h
  have hSorted : id ∈ state.ready.mergeSort (· ≤ ·) ↔ id ∈ state.ready := List.mem_mergeSort
  rw [← hSorted]
  rw [← List.take_append_drop room (state.ready.mergeSort (· ≤ ·))] at hNodup
  have hDisjoint := List.disjoint_of_nodup_append hNodup
  constructor
  · intro hDrop
    exact ⟨List.mem_of_mem_drop hDrop, fun hTake => hDisjoint hTake hDrop⟩
  · rintro ⟨hAll, hTake⟩
    rw [← List.take_append_drop room (state.ready.mergeSort (· ≤ ·)), List.mem_append] at hAll
    exact hAll.resolve_left hTake

theorem sound_drain (h : state.Sound) (room : Nat) : (state.drainCompletions room).2.Sound := by
  obtain ⟨completions, -, -, -, hState⟩ := drainCompletions_spec h room
  rw [hState]
  have hPerm := List.mergeSort_perm state.ready (· ≤ ·)
  exact
    { queueNodup := h.queueNodup
      queued := h.queued
      readyNodup := (hPerm.nodup_iff.mpr h.readyNodup).sublist (List.drop_sublist _ _)
      ready := fun id hId => h.ready id (List.mem_mergeSort.mp (List.mem_of_mem_drop hId))
      known := h.known
      stopped := h.stopped }

theorem effect_drain (h : state.Sound) (room : Nat) :
    Effect (.drained (state.drainCompletions room).1) state (state.drainCompletions room).2 := by
  obtain ⟨completions, hResult, hIds, hStates, hState⟩ := drainCompletions_spec h room
  rw [hResult, hState]
  have hPerm := List.mergeSort_perm state.ready (· ≤ ·)
  have hMem : ∀ id, (∃ phase, ⟨id, phase⟩ ∈ completions) ↔
      id ∈ (state.ready.mergeSort (· ≤ ·)).take room := by
    intro id
    rw [← hIds, List.mem_map]
    constructor
    · rintro ⟨phase, hMem⟩
      exact ⟨_, hMem, rfl⟩
    · rintro ⟨⟨id', phase⟩, hMem, rfl⟩
      exact ⟨phase, hMem⟩
  exact
    { moves := fun id => .stays List.not_mem_nil List.not_mem_nil (fun _ => List.not_mem_nil)
        List.not_mem_nil
      ready := by
        intro id
        show id ∈ (state.ready.mergeSort (· ≤ ·)).drop room ↔ _
        rw [mem_drained room id h.readyNodup, ← hMem]
        simp [JobEvent.ended, JobEvent.published, JobEvent.removed]
      published := by
        intro completion hCompletion
        refine ⟨?_, hStates completion hCompletion⟩
        exact List.mem_mergeSort.mp
          (List.mem_of_mem_take ((hMem completion.id).mp ⟨_, hCompletion⟩))
      endedNodup := List.nodup_nil
      publishedNodup := by
        show (completions.map JobCompletion.id).Nodup
        rw [hIds]
        exact (hPerm.nodup_iff.mpr h.readyNodup).sublist (List.take_sublist _ _)
      removedNodup := List.nodup_nil }

end Drain

section Remove

variable {id : JobId}

/-- The reaped record is gone from every list. -/
def reap (state : SchedulerState) (id : JobId) : SchedulerState :=
  { state with jobs := state.jobs.erase id, ready := retain state.ready id }

/-- What `take_result` comes to. -/
theorem takeResult_cases (state : SchedulerState) (id : JobId) :
    (∃ failure, state.takeResult id = (.error failure, state) ∧
      ∀ phase, state.phase id = some phase → phase.isTerminal = false) ∨
    ∃ record, state.jobs.get id = some record ∧ record.state.isTerminal = true ∧
      state.takeResult id =
        (.ok ⟨id, record.state, record.deadlineExceeded, record.error,
            record.output.take record.outputLen, record.reservation⟩, state.reap id) := by
  cases hRecord : state.jobs.get id with
  | none =>
      refine Or.inl ⟨Kernel.error .invalidHandle, ?_, ?_⟩
      · rw [takeResult, hRecord]
      · intro phase hPhase
        rw [SchedulerState.phase, hRecord] at hPhase
        cases hPhase
  | some record =>
      cases hTerminal : record.state.isTerminal with
      | false =>
          refine Or.inl ⟨Kernel.error .invalidArgument, ?_, ?_⟩
          · simp [takeResult, hRecord, hTerminal]
          · intro phase hPhase
            rw [SchedulerState.phase, hRecord] at hPhase
            rw [← Option.some.inj hPhase]
            exact hTerminal
      | true =>
          refine Or.inr ⟨record, rfl, hTerminal, ?_⟩
          simp [takeResult, hRecord, hTerminal, reap]

theorem phase_reap (id' : JobId) :
    (state.reap id).phase id' = if id' = id then none else state.phase id' := by
  rw [SchedulerState.phase, reap, Table.get_erase]
  split_ifs
  · rfl
  · rfl

theorem sound_reap (h : state.Sound) {phase : JobState} (hTerminal : phase.isTerminal = true)
    (hPhase : state.phase id = some phase) : (state.reap id).Sound where
  queueNodup := h.queueNodup
  queued := by
    intro other
    rw [phase_reap]
    show other ∈ state.queue ↔ _
    rw [h.queued]
    split_ifs with hSame
    · simp [hSame, hPhase, (terminal_ne hTerminal).1]
    · rfl
  readyNodup := h.readyNodup.filter _
  ready := by
    intro other hOther
    obtain ⟨hReady, hOther⟩ := List.mem_filter.mp hOther
    rw [phase_reap, if_neg (by simpa using hOther)]
    exact h.ready other hReady
  known := by
    intro other
    rw [phase_reap]
    split_ifs
    · simp
    · exact h.known other
  stopped := h.stopped

theorem effect_reap {phase : JobState} (hTerminal : phase.isTerminal = true)
    (hPhase : state.phase id = some phase) (result : JobResult) :
    Effect (.reaped id (.ok result)) state (state.reap id) where
  moves := by
    intro other
    rw [phase_reap]
    by_cases hSame : other = id
    · subst hSame
      rw [if_pos rfl, hPhase]
      exact .leaves List.not_mem_nil List.not_mem_nil (fun _ => List.not_mem_nil)
        (List.mem_singleton_self _) hTerminal
    · rw [if_neg hSame]
      exact .stays List.not_mem_nil List.not_mem_nil (fun _ => List.not_mem_nil)
        (by simpa [JobEvent.removed] using hSame)
  ready := by
    intro other
    simp [reap, retain, JobEvent.ended, JobEvent.published, JobEvent.removed]
  published := fun _ hMem => absurd hMem List.not_mem_nil
  endedNodup := List.nodup_nil
  publishedNodup := List.nodup_nil
  removedNodup := List.nodup_singleton id

theorem phase_clear (id : JobId) : state.clear.phase id = none := rfl

theorem sound_clear : state.clear.Sound where
  queueNodup := List.nodup_nil
  queued := fun id => by simp [clear, SchedulerState.phase]
  readyNodup := List.nodup_nil
  ready := fun _ hMem => absurd hMem List.not_mem_nil
  known := fun id => by simp [clear, SchedulerState.phase]
  stopped := fun _ => rfl

theorem mem_keys {jobs : Table JobId JobRecord} {id : JobId} :
    id ∈ jobs.keys ↔ ∃ record, jobs.get id = some record := by
  rw [← Option.isSome_iff_exists, Option.isSome_iff_ne_none, Ne, Table.get_eq_none, not_not]

/-- Where nothing is queued and nothing runs, only ended jobs are cleared. -/
theorem effect_clear (h : state.Sound) (hQueue : state.queue = [])
    (hIdle : ∀ id, state.phase id ≠ some .running) :
    Effect (.destroyed (leasesOf state.jobs) (.ok ())) state state.clear where
  moves := by
    intro id
    rw [phase_clear]
    cases hPhase : state.phase id with
    | none =>
        refine .stays List.not_mem_nil List.not_mem_nil (fun _ => List.not_mem_nil) ?_
        rw [JobEvent.removed, leasesOf_keys, mem_keys]
        rintro ⟨record, hRecord⟩
        rw [SchedulerState.phase, hRecord] at hPhase
        cases hPhase
    | some phase =>
        obtain ⟨record, hRecord, -⟩ := phase_eq_some.mp hPhase
        have hRemoved : id ∈ (leasesOf state.jobs).map Prod.fst := by
          rw [leasesOf_keys]
          exact mem_keys.mpr ⟨record, hRecord⟩
        refine .leaves List.not_mem_nil List.not_mem_nil (fun _ => List.not_mem_nil) hRemoved ?_
        cases phase with
        | queued =>
            rw [← h.queued, hQueue] at hPhase
            cases hPhase
        | running => exact absurd hPhase (hIdle id)
        | timedOut => exact absurd hPhase (h.known id)
        | succeeded => rfl
        | failed => rfl
        | cancelled => rfl
  ready := by
    intro id
    simp only [clear, List.not_mem_nil, false_iff, JobEvent.ended, JobEvent.published,
      JobEvent.removed, leasesOf_keys, exists_false, or_false, not_false_eq_true, implies_true, true_and,
      not_and, not_not]
    intro hReady
    obtain ⟨phase, -, hPhase⟩ := h.ready id hReady
    obtain ⟨record, hRecord, -⟩ := phase_eq_some.mp hPhase
    exact mem_keys.mpr ⟨record, hRecord⟩
  published := fun _ hMem => absurd hMem List.not_mem_nil
  endedNodup := List.nodup_nil
  publishedNodup := List.nodup_nil
  removedNodup := by
    rw [JobEvent.removed, leasesOf_keys]
    exact state.jobs.distinct

end Remove

end SchedulerState
/-! What the calls through a handle come to: one of another system is refused. -/

namespace JobSystem

theorem cancel_cases {system : JobSystem} (h : system.state.Sound) (handle : JobHandle) :
    (∃ failure, system.cancel handle = (.error failure, system.state)) ∨
    (∃ phase, system.cancel handle = (.ok (.alreadyTerminal phase), system.state)) ∨
    (system.state.phase handle.id = some .running ∧
      system.cancel handle = (.ok .requested,
        { system.state with jobs := system.state.jobs.modify handle.id fun record =>
            { record with cancelled := true } })) ∨
    ((system.cancel handle).1 = .ok (.cancelled .queued) ∧
      SchedulerState.Ends system.state (system.cancel handle).2 handle.id .queued .cancelled ∧
      (system.cancel handle).2.jobs = system.state.jobs.modify handle.id (fun record =>
        JobRecord.cancelQueued { record with cancelled := true }) ∧
      (system.cancel handle).2.running = system.state.running) := by
  rw [JobSystem.cancel]
  cases validateHandle system.config handle with
  | error failure => exact Or.inl ⟨failure, rfl⟩
  | ok _ =>
      rcases SchedulerState.cancel_cases h handle.id with ⟨-, hCase⟩ | ⟨phase, -, -, hCase⟩ |
        hRunning | hQueued
      · exact Or.inl ⟨_, hCase⟩
      · exact Or.inr (Or.inl ⟨phase, hCase⟩)
      · exact Or.inr (Or.inr (Or.inl hRunning))
      · exact Or.inr (Or.inr (Or.inr hQueued))

theorem takeResult_cases (system : JobSystem) (handle : JobHandle) :
    (∃ failure, system.takeResult handle = (.error failure, system.state)) ∨
    ∃ record, system.state.jobs.get handle.id = some record ∧ record.state.isTerminal = true ∧
      system.takeResult handle =
        (.ok ⟨handle.id, record.state, record.deadlineExceeded, record.error,
            record.output.take record.outputLen, record.reservation⟩,
          system.state.reap handle.id) := by
  rw [JobSystem.takeResult]
  cases validateHandle system.config handle with
  | error failure => exact Or.inl ⟨failure, rfl⟩
  | ok _ =>
      rcases system.state.takeResult_cases handle.id with ⟨failure, hCase, -⟩ | hReaped
      · exact Or.inl ⟨failure, hCase⟩
      · exact Or.inr hReaped

end JobSystem
end Job

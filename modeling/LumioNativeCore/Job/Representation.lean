import LumioNativeCore.Job.Lifecycle

/-! The representation of the scheduler: what its lists and its counter say about the
records, and which bytes a record gives to the caller that reaps it. -/
namespace Job

open Kernel Transition

/-! The bytes of a job. -/

/-- A kernel that succeeds has filled the buffer of its work. -/
theorem Work.outcome_eq_ok {work : Work} {cancelled : Bool} {now written : Nat}
    {run : Option (KernelRun work)} (h : (work.outcome cancelled now run).1 = .ok written) :
    ∃ kernel, run = some kernel ∧ kernel.result = some (.ok written) ∧
      written ≤ work.output.length ∧ (work.outcome cancelled now run).2 = kernel.output := by
  rw [Work.outcome.eq_def] at h ⊢
  cases hCheck : checkCancelled work.deadline cancelled now with
  | error failure =>
      rw [hCheck] at h
      cases h
  | ok _ =>
      rw [hCheck] at h
      cases run with
      | none => cases h
      | some kernel =>
          cases hResult : kernel.result with
          | none =>
              simp only [hResult] at h
              cases h
          | some result =>
              cases result with
              | error failure =>
                  simp only [hResult] at h
                  cases h
              | ok count =>
                  simp only [hResult] at h ⊢
                  split_ifs at h with hCount
                  · cases h
                    rw [if_neg hCount]
                    exact ⟨kernel, rfl, hResult, kernel.sameLength ▸ not_lt.mp hCount, rfl⟩

theorem finalState_eq_succeeded {outcome : Except KernelError Nat}
    (h : finalState outcome = .succeeded) : ∃ written, outcome = .ok written := by
  cases outcome with
  | ok written => exact ⟨written, rfl⟩
  | error failure =>
      rw [finalState, failureState] at h
      split_ifs at h

/-! The works in flight. -/

def JobEvent.finishes : JobEvent → List JobId
  | finished id _ => [id]
  | _ => []

/-- The works that a trace has finished. -/
def finishedIn (trace : List JobEvent) : List JobId := trace.flatMap JobEvent.finishes

/-- The trace says that a job was submitted with this output capacity. -/
def Submits (trace : List JobEvent) (id : JobId) (outputCapacity : Nat) : Prop :=
  ∃ input handle, .submitted input outputCapacity (.ok handle) ∈ trace ∧ handle.id = id

theorem Submits.mono {trace : List JobEvent} {id : JobId} {outputCapacity : Nat}
    (h : Submits trace id outputCapacity) (event : JobEvent) :
    Submits (trace ++ [event]) id outputCapacity := by
  obtain ⟨input, handle, hMem, hId⟩ := h
  exact ⟨input, handle, List.mem_append_left _ hMem, hId⟩

/-- On its way to a site, a run has finished the work of a job whose kernel returned `written`,
and the bytes are the first `written` ones of the buffer that the kernel left. -/
def Delivers (start : Site) (trace : List JobEvent) (site : Site) (id : JobId)
    (bytes : List UInt8) : Prop :=
  ∃ before after site₁ site₂ work exceeded written, ∃ kernel : KernelRun work,
    trace = before ++ .finished id .succeeded :: after ∧
    Run Site.Step start before site₁ ∧ Site.Step site₁ (.finished id .succeeded) site₂ ∧
    Run Site.Step site₂ after site ∧
    site₂.system.state = site₁.system.state.finish id kernel.output exceeded (.ok written) ∧
    work ∈ site₁.system.works ∧ work.id = id ∧ Submits before id work.output.length ∧
    kernel.result = some (.ok written) ∧ written ≤ work.output.length ∧
    bytes = kernel.output.take written

theorem Delivers.step {start site site' : Site} {trace : List JobEvent} {event : JobEvent}
    {id : JobId} {bytes : List UInt8} (h : Delivers start trace site id bytes)
    (hStep : Site.Step site event site') : Delivers start (trace ++ [event]) site' id bytes := by
  obtain ⟨before, after, site₁, site₂, work, exceeded, written, kernel, rfl, hBefore, hFinish,
    hAfter, hRest⟩ := h
  refine ⟨before, after ++ [event], site₁, site₂, work, exceeded, written, kernel, ?_, hBefore,
    hFinish, .snoc hAfter hStep, hRest⟩
  simp

/-- What a section makes of the record of one job. -/
inductive Becomes (site : Site) (event : JobEvent) (site' : Site) (id : JobId) :
    JobRecord → Prop where
  | submitted (request : JobRequest) (input : List UInt8) (outputCapacity bytes : Nat)
      (handle : JobHandle) (hEvent : event = .submitted input outputCapacity (.ok handle))
      (hId : handle.id = id) :
      Becomes site event site' id
        (.submitted request input (List.replicate outputCapacity 0) bytes)
  | kept (record : JobRecord) (cancelled : Bool)
      (hRecord : site.system.state.jobs.get id = some record) :
      Becomes site event site' id { record with cancelled := cancelled }
  | cancelled (record : JobRecord) (hRecord : site.system.state.jobs.get id = some record)
      (hQueued : record.state = .queued) :
      Becomes site event site' id (JobRecord.cancelQueued { record with cancelled := true })
  | started (record : JobRecord) (hRecord : site.system.state.jobs.get id = some record)
      (hQueued : record.state = .queued) :
      Becomes site event site' id { record with state := .running, input := [], output := [] }
  | finished (record : JobRecord) (hRecord : site.system.state.jobs.get id = some record)
      (hRunning : record.state = .running) (work : Work) (hWork : work ∈ site.system.works)
      (hId : work.id = id) (cancelled exceeded : Bool) (now : Nat) (run : Option (KernelRun work))
      (hEvent : event = .finished id (finalState (work.outcome cancelled now run).1))
      (hState : site'.system.state = site.system.state.finish id
        (work.outcome cancelled now run).2 exceeded (work.outcome cancelled now run).1) :
      Becomes site event site' id
        (record.finished (work.outcome cancelled now run).2 exceeded
          (work.outcome cancelled now run).1)

namespace Site

variable {site site' : Site} {event : JobEvent}

theorem becomes_modify (id : JobId) {f : JobRecord → JobRecord}
    (hJobs : site'.system.state.jobs = site.system.state.jobs.modify id f)
    (hChanged : ∀ record, site.system.state.jobs.get id = some record →
      Becomes site event site' id (f record))
    {other : JobId} {record : JobRecord} (hRecord : site'.system.state.jobs.get other = some record) :
    Becomes site event site' other record := by
  rw [hJobs, Table.get_modify, Option.map_eq_some_iff] at hRecord
  obtain ⟨record, hRecord, rfl⟩ := hRecord
  split_ifs with hSame
  · subst hSame
    exact hChanged record hRecord
  · exact .kept record record.cancelled hRecord

theorem becomes_stop (h : site.Sound) (hState : site'.system.state = site.system.state.stop)
    {id : JobId} {record : JobRecord} (hRecord : site'.system.state.jobs.get id = some record) :
    Becomes site event site' id record := by
  rw [hState, (SchedulerState.stop_spec h.state).2.2.2.2.2, Option.map_eq_some_iff] at hRecord
  obtain ⟨record, hRecord, rfl⟩ := hRecord
  split_ifs with hQueue
  · refine .cancelled record hRecord ?_
    obtain ⟨found, hFound, hQueued⟩ :=
      SchedulerState.phase_eq_some.mp ((h.state.queued id).mp hQueue)
    obtain rfl := Option.some.inj (hRecord.symm.trans hFound)
    exact hQueued
  · exact .kept record true hRecord

/-- Every record after a section is a new one, or one that the section found. -/
theorem Step.becomes (h : site.Sound) (hStep : Step site event site') {id : JobId}
    {record : JobRecord} (hRecord : site'.system.state.jobs.get id = some record) :
    Becomes site event site' id record := by
  cases hStep with
  | submitInput path request input outputCapacity result env state hSubmit =>
      rcases submitInput_cases site.system.config path request input outputCapacity site.env
        site.system.state with ⟨failure, hCase⟩ | ⟨-, -, -, -, hCase⟩
      · cases hSubmit.symm.trans hCase
        exact .kept record record.cancelled hRecord
      · cases hSubmit.symm.trans hCase
        simp only [SchedulerState.enter, Table.get_put] at hRecord
        split_ifs at hRecord with hSame
        · obtain rfl := Option.some.inj hRecord
          exact .submitted request input outputCapacity _ _ rfl hSame.symm
        · exact .kept record record.cancelled hRecord
  | takeWork work state hTake =>
      rcases SchedulerState.takeWork_eq h.state site.system.config.maxRunning with hCase |
        ⟨started, rest, front, -, -, -, hFront, hQueued, hCase⟩
      · cases hTake.symm.trans hCase
        exact .kept record record.cancelled hRecord
      · cases hTake.symm.trans hCase
        have hJobs : (site.system.state.start started rest).jobs =
            site.system.state.jobs.modify started fun record =>
              { record with state := .running, input := [], output := [] } := rfl
        apply becomes_modify started hJobs ?_ hRecord
        intro record hFound
        obtain rfl := Option.some.inj (hFound.symm.trans hFront)
        exact .started record hFound hQueued
  | finish before after work cancelled exceeded now run hWorks =>
      have hMem : work ∈ site.system.works := by simp [hWorks]
      have hPhase := (h.working work.id).mp (List.mem_map_of_mem hMem)
      have hJobs : (site.system.state.finish work.id (work.outcome cancelled now run).2 exceeded
          (work.outcome cancelled now run).1).jobs = site.system.state.jobs.modify work.id
            fun record => record.finished (work.outcome cancelled now run).2 exceeded
              (work.outcome cancelled now run).1 := by
        rw [SchedulerState.finish_eq hPhase]
      apply becomes_modify work.id hJobs ?_ hRecord
      intro record hFound
      obtain ⟨found, hSame, hRunning⟩ := SchedulerState.phase_eq_some.mp hPhase
      obtain rfl := Option.some.inj (hFound.symm.trans hSame)
      exact .finished record hFound hRunning work hMem rfl cancelled exceeded now run rfl rfl
  | cancel handle =>
      change (site.system.cancel handle).2.jobs.get _ = _ at hRecord
      rcases JobSystem.cancel_cases h.state handle with ⟨failure, hCase⟩ | ⟨phase, hCase⟩ |
        ⟨-, hCase⟩ | ⟨-, hEnds, hJobs, -⟩
      · rw [hCase] at hRecord
        exact .kept record record.cancelled hRecord
      · rw [hCase] at hRecord
        exact .kept record record.cancelled hRecord
      · simp only [hCase, Table.get_modify, Option.map_eq_some_iff] at hRecord
        obtain ⟨record, hRecord, rfl⟩ := hRecord
        split_ifs
        · exact .kept record true hRecord
        · exact .kept record record.cancelled hRecord
      · simp only [hJobs, Table.get_modify, Option.map_eq_some_iff] at hRecord
        obtain ⟨record, hRecord, rfl⟩ := hRecord
        split_ifs with hSame
        · subst hSame
          obtain ⟨found, hFound, hQueued⟩ := SchedulerState.phase_eq_some.mp hEnds.phase
          obtain rfl := Option.some.inj (hRecord.symm.trans hFound)
          exact .cancelled record hRecord hQueued
        · exact .kept record record.cancelled hRecord
  | cancelRequested => exact becomes_stop h rfl hRecord
  | closeStop call destroys hCall => exact becomes_stop h rfl hRecord
  | drainCompletions room =>
      obtain ⟨completions, -, -, -, hState⟩ := SchedulerState.drainCompletions_spec h.state room
      rw [hState] at hRecord
      exact .kept record record.cancelled hRecord
  | takeResult handle result state hTake =>
      rcases site.system.takeResult_cases handle with ⟨failure, hCase⟩ | ⟨reaped, -, -, hCase⟩
      · cases hTake.symm.trans hCase
        exact .kept record record.cancelled hRecord
      · cases hTake.symm.trans hCase
        simp only [SchedulerState.reap, Table.get_erase] at hRecord
        split_ifs at hRecord
        exact .kept record record.cancelled hRecord
  | destroyClear call hCall => cases hRecord
  | _ => exact .kept record record.cancelled hRecord

/-- A work takes the buffer of its record along. -/
theorem Step.works (h : site.Sound) (hStep : Step site event site') {work : Work}
    (hWork : work ∈ site'.system.works) : work ∈ site.system.works ∨
      ∃ record, site.system.state.jobs.get work.id = some record ∧ record.state = .queued ∧
        work.output = record.output := by
  cases hStep with
  | takeWork taken state hTake =>
      rcases SchedulerState.takeWork_eq h.state site.system.config.maxRunning with hCase |
        ⟨id, rest, record, -, -, -, hRecord, hQueued, hCase⟩
      · cases hTake.symm.trans hCase
        exact Or.inl (List.append_nil site.system.works ▸ hWork)
      · cases hTake.symm.trans hCase
        rcases List.mem_append.mp hWork with hOld | hNew
        · exact Or.inl hOld
        · obtain rfl := List.mem_singleton.mp hNew
          exact Or.inr ⟨record, hRecord, hQueued, rfl⟩
  | finish before after finished cancelled exceeded now run hWorks =>
      apply Or.inl
      rw [hWorks]
      rcases List.mem_append.mp hWork with hBefore | hAfter
      · exact List.mem_append_left _ hBefore
      · exact List.mem_append_right _ (List.mem_cons_of_mem _ hAfter)
  | _ => exact Or.inl hWork

/-- A work is handed out, and it is finished. -/
theorem Step.handed (hStep : Step site event site') :
    (event.started ++ site.system.works.map Work.id).Perm
      (event.finishes ++ site'.system.works.map Work.id) := by
  cases hStep with
  | takeWork work state hTake =>
      show (JobEvent.started _ ++ _).Perm ([] ++ (site.system.works ++ work.toList).map Work.id)
      rw [List.nil_append, List.map_append]
      cases work with
      | none => exact List.Perm.of_eq (List.append_nil _).symm
      | some work => exact List.perm_append_comm
  | finish before after work cancelled exceeded now run hWorks =>
      show (site.system.works.map Work.id).Perm ([work.id] ++ (before ++ after).map Work.id)
      rw [hWorks, List.map_append, List.map_cons, List.map_append]
      exact List.perm_middle
  | _ => exact List.Perm.refl _

/-- What the buffers of a site come from. -/
structure Backed (start : Site) (trace : List JobEvent) (site : Site) : Prop where
  queued : ∀ id record, site.system.state.jobs.get id = some record → record.state = .queued →
    Submits trace id record.output.length
  works : ∀ work ∈ site.system.works, Submits trace work.id work.output.length
  hidden : ∀ id record, site.system.state.jobs.get id = some record →
    record.state ≠ .succeeded → record.outputLen = 0
  delivered : ∀ id record, site.system.state.jobs.get id = some record →
    record.state = .succeeded →
    Delivers start trace site id (record.output.take record.outputLen)
  handed : (startedIn trace).Perm (finishedIn trace ++ site.system.works.map Work.id)

theorem backed_create (config : JobConfig) (env : Environment) :
    Backed ⟨env, .create config⟩ [] ⟨env, .create config⟩ where
  queued := fun _ _ hRecord => by cases hRecord
  works := fun _ hWork => absurd hWork List.not_mem_nil
  hidden := fun _ _ hRecord => by cases hRecord
  delivered := fun _ _ hRecord => by cases hRecord
  handed := List.Perm.nil

theorem Backed.step {start : Site} {trace : List JobEvent} (run : Run Step start trace site)
    (hSound : site.Sound) (h : Backed start trace site) (hStep : Step site event site') :
    Backed start (trace ++ [event]) site' where
  queued := by
    intro id record hHeld hQueued
    cases hStep.becomes hSound hHeld with
    | submitted request input outputCapacity bytes handle hEvent hId =>
        refine ⟨input, handle, ?_, hId⟩
        rw [JobRecord.submitted, List.length_replicate, hEvent]
        simp
    | kept record cancelled hRecord => exact (h.queued id record hRecord hQueued).mono event
    | cancelled => cases hQueued
    | started => cases hQueued
    | finished record hRecord hRunning work hWork hId cancelled exceeded now run =>
        rw [SchedulerState.finished_state] at hQueued
        have hTerminal := SchedulerState.finalState_terminal (work.outcome cancelled now run).1
        exact absurd hQueued (SchedulerState.terminal_ne hTerminal).1
  works := by
    intro work hWork
    rcases hStep.works hSound hWork with hOld | ⟨record, hRecord, hQueued, hOutput⟩
    · exact (h.works work hOld).mono event
    · rw [hOutput]
      exact (h.queued _ record hRecord hQueued).mono event
  hidden := by
    intro id record hHeld hState
    cases hStep.becomes hSound hHeld with
    | submitted => rfl
    | kept record cancelled hRecord => exact h.hidden id record hRecord hState
    | cancelled record hRecord hQueued => exact h.hidden id record hRecord (by simp [hQueued])
    | started record hRecord hQueued => exact h.hidden id record hRecord (by simp [hQueued])
    | finished record hRecord hRunning work hWork hId cancelled exceeded now run =>
        have hUnset := h.hidden id record hRecord (by simp [hRunning])
        rw [SchedulerState.finished_state] at hState
        cases hOutcome : (work.outcome cancelled now run).1 with
        | ok written =>
            rw [hOutcome] at hState
            exact absurd rfl hState
        | error failure => exact hUnset
  delivered := by
    intro id record hHeld hState
    cases hStep.becomes hSound hHeld with
    | submitted => cases hState
    | kept record cancelled hRecord => exact (h.delivered id record hRecord hState).step hStep
    | cancelled => cases hState
    | started => cases hState
    | finished record hRecord hRunning work hWork hId cancelled exceeded now run' hEvent hAfter =>
        rw [SchedulerState.finished_state] at hState
        rw [hState] at hEvent
        obtain ⟨written, hWritten⟩ := finalState_eq_succeeded hState
        obtain ⟨kernel, -, hResult, hCount, hOutput⟩ := Work.outcome_eq_ok hWritten
        rw [hWritten, hOutput] at hAfter ⊢
        subst hEvent
        exact ⟨trace, [], site, site', work, exceeded, written, kernel, rfl, run, hStep,
          .nil site', hAfter, hWork, hId, hId ▸ h.works work hWork, hResult, hCount, rfl⟩
  handed := by
    have hFinished : finishedIn (trace ++ [event]) = finishedIn trace ++ event.finishes := by
      simp [finishedIn]
    rw [startedIn_snoc, hFinished, List.append_assoc]
    apply (h.handed.append_right event.started).trans
    rw [List.append_assoc]
    apply List.Perm.append_left
    exact List.perm_append_comm.trans hStep.handed

theorem backed_run {config : JobConfig} {env : Environment} {trace : List JobEvent}
    (run : Run Step ⟨env, .create config⟩ trace site) :
    Backed ⟨env, .create config⟩ trace site := by
  induction run with
  | nil => exact backed_create config env
  | snoc prior last ih => exact ih.step prior (of_run prior).1 last

end Site

/-- The lists and the counter of the scheduler are those of its records. -/
structure Represented (trace : List JobEvent) (site : Site) : Prop where
  queueNodup : site.system.state.queue.Nodup
  queue : ∀ id, id ∈ site.system.state.queue ↔
    ∃ record, site.system.state.jobs.get id = some record ∧ record.state = .queued
  readyNodup : site.system.state.ready.Nodup
  ready : ∀ id ∈ site.system.state.ready,
    ∃ record, site.system.state.jobs.get id = some record ∧ record.state.isTerminal = true
  running : site.system.state.running =
    (site.system.state.jobs.entries.filter fun entry => entry.2.state = .running).length
  works : site.system.state.running = site.system.works.length
  handed : (startedIn trace).Perm (finishedIn trace ++ site.system.works.map Work.id)
  runningBound : site.system.state.running ≤ site.system.config.maxRunning
  queueBound : site.system.state.queue.length ≤ site.system.config.queueCapacity
  liveBound : site.system.state.jobs.size ≤ site.system.config.maxLive

/-- The works in flight are the records that run. -/
theorem Site.Sound.running_filter {site : Site} (h : site.Sound) : site.system.state.running =
    (site.system.state.jobs.entries.filter fun entry => entry.2.state = .running).length := by
  have hIds : ((site.system.state.jobs.entries.filter fun entry =>
      entry.2.state = .running).map Prod.fst).Perm (site.system.works.map Work.id) := by
    rw [List.perm_ext_iff_of_nodup
      (site.system.state.jobs.distinct.sublist (List.filter_sublist.map _)) h.worksNodup]
    intro id
    rw [h.working, SchedulerState.phase_eq_some, List.mem_map]
    constructor
    · rintro ⟨⟨id', record⟩, hEntry, rfl⟩
      obtain ⟨hMem, hRunning⟩ := List.mem_filter.mp hEntry
      exact ⟨record, Table.mem_entries.mp hMem, of_decide_eq_true hRunning⟩
    · rintro ⟨record, hRecord, hRunning⟩
      exact ⟨(id, record), List.mem_filter.mpr ⟨Table.mem_entries.mpr hRecord,
        decide_eq_true hRunning⟩, rfl⟩
  rw [h.running, ← List.length_map Work.id, ← hIds.length_eq, List.length_map]

namespace SchedulerState

/-- A call of `drain_completions` does not panic: it publishes the smallest ready ids, in
increasing order. -/
def Drains (state : SchedulerState) (room : Nat) : Prop :=
  ∃ completions : List JobCompletion, (state.drainCompletions room).1 = some completions ∧
    completions.length = min room state.ready.length ∧
    (completions.map JobCompletion.id).Pairwise (· < ·) ∧
    (∀ completion ∈ completions, completion.id ∈ state.ready ∧
      ∃ record, state.jobs.get completion.id = some record ∧ record.state = completion.state) ∧
    ∀ id ∈ state.ready, id ∉ completions.map JobCompletion.id →
      id ∈ (state.drainCompletions room).2.ready ∧ ∀ completion ∈ completions, completion.id < id

variable {state : SchedulerState}

theorem sorted_ready (h : state.ready.Nodup) :
    (state.ready.mergeSort (· ≤ ·)).Pairwise (· < ·) := by
  have hSorted : (state.ready.mergeSort (· ≤ ·)).Pairwise (· ≤ ·) := by
    have hTrans : ∀ a b c : JobId, decide (a ≤ b) → decide (b ≤ c) → decide (a ≤ c) := by
      simp only [decide_eq_true_eq]
      exact fun _ _ _ => le_trans
    have hTotal : ∀ a b : JobId, decide (a ≤ b) || decide (b ≤ a) := by
      simpa using le_total
    exact (List.pairwise_mergeSort hTrans hTotal state.ready).imp of_decide_eq_true
  have hNodup := (List.mergeSort_perm state.ready (· ≤ ·)).nodup_iff.mpr h
  exact hSorted.imp₂ (fun _ _ => lt_of_le_of_ne) hNodup

theorem Sound.drains (h : state.Sound) (room : Nat) : state.Drains room := by
  obtain ⟨completions, hResult, hIds, hStates, hState⟩ := drainCompletions_spec h room
  have hSorted := sorted_ready h.readyNodup
  rw [← List.take_append_drop room (state.ready.mergeSort (· ≤ ·)), List.pairwise_append] at hSorted
  have hMem : ∀ completion ∈ completions,
      completion.id ∈ (state.ready.mergeSort (· ≤ ·)).take room := by
    intro completion hCompletion
    rw [← hIds]
    exact List.mem_map_of_mem hCompletion
  refine ⟨completions, hResult, ?_, ?_, ?_, ?_⟩
  · rw [← List.length_map JobCompletion.id, hIds, List.length_take, List.length_mergeSort]
  · rw [hIds]
    exact hSorted.1
  · intro completion hCompletion
    refine ⟨?_, phase_eq_some.mp (hStates completion hCompletion)⟩
    exact List.mem_mergeSort.mp (List.mem_of_mem_take (hMem completion hCompletion))
  · intro id hReady hLeft
    rw [hIds] at hLeft
    have hDropped := (mem_drained room id h.readyNodup).mpr ⟨hReady, hLeft⟩
    rw [hState]
    exact ⟨hDropped, fun completion hCompletion =>
      hSorted.2.2 _ (hMem completion hCompletion) id hDropped⟩

end SchedulerState

/-- In every interleaving the lists and the counter of a job system are those of its records
and of its works in flight, no lookup fails, and a caller sees what the kernel has written. -/
theorem scheduler_representation {config : JobConfig} {env : Environment} {trace : List JobEvent}
    {site : Site} (run : Run Site.Step ⟨env, .create config⟩ trace site) :
    Represented trace site ∧ (∀ room, site.system.state.Drains room) ∧
    (∀ work ∈ site.system.works, 0 < site.system.state.running ∧
      ∃ record, site.system.state.jobs.get work.id = some record ∧ record.state = .running) ∧
    (∀ id result next, site.system.state.takeResult id = (.ok result, next) →
      ∃ record, site.system.state.jobs.entries.Perm ((id, record) :: next.jobs.entries)) ∧
    ∀ before id result after, trace = before ++ .reaped id (.ok result) :: after →
      ∃ site₁, Run Site.Step ⟨env, .create config⟩ before site₁ ∧
        if result.state = .succeeded then
          Delivers ⟨env, .create config⟩ before site₁ id result.output
        else result.output = [] := by
  obtain ⟨hSound, hTracks⟩ := Site.of_run run
  refine ⟨?_, hSound.state.drains, ?_, ?_, ?_⟩
  · exact
      { queueNodup := hSound.state.queueNodup
        queue := fun id => (hSound.state.queued id).trans SchedulerState.phase_eq_some
        readyNodup := hSound.state.readyNodup
        ready := by
          intro id hId
          obtain ⟨phase, hTerminal, hPhase⟩ := hSound.state.ready id hId
          obtain ⟨record, hRecord, rfl⟩ := SchedulerState.phase_eq_some.mp hPhase
          exact ⟨record, hRecord, hTerminal⟩
        running := hSound.running_filter
        works := hSound.running
        handed := (Site.backed_run run).handed
        runningBound := hSound.runningBound
        queueBound := hSound.queueBound
        liveBound := hSound.liveBound }
  · intro work hWork
    refine ⟨?_, SchedulerState.phase_eq_some.mp ((hSound.working _).mp (List.mem_map_of_mem hWork))⟩
    rw [hSound.running]
    exact List.length_pos_of_mem hWork
  · intro id result next hTake
    rcases site.system.state.takeResult_cases id with
      ⟨failure, hCase, -⟩ | ⟨record, hRecord, -, hCase⟩
    · cases hTake.symm.trans hCase
    · cases hTake.symm.trans hCase
      refine ⟨record, (Table.erase_perm hRecord).symm.trans ?_⟩
      exact List.perm_append_singleton _ _
  · rintro before id result after rfl
    obtain ⟨site₁, site₂, hBefore, hStep, -⟩ := run.at
    have hBacked := Site.backed_run hBefore
    obtain ⟨record, hRecord, -, rfl⟩ := hStep.reaped
    refine ⟨site₁, hBefore, ?_⟩
    split_ifs with hState
    · exact hBacked.delivered id record hRecord hState
    · show record.output.take record.outputLen = []
      rw [hBacked.hidden id record hRecord hState, List.take_zero]

/-- A kernel fills one of the two bytes it was given, and its caller reaps that one. -/
theorem scheduler_representation_one :
    ∃ trace site, Delivers ⟨⟨.new 8, 0⟩, .create ⟨1, ⟨1⟩, 1, 1, 1⟩⟩ trace site 0 [9] := by
  have run := Run.snoc (Run.snoc (Run.snoc (Run.snoc
    (Run.nil (⟨⟨.new 8, 0⟩, .create ⟨1, ⟨1⟩, 1, 1, 1⟩⟩ : Site))
    (Site.Step.submitInput _ ⟨.ok (), true, true, true⟩ ⟨7, .none⟩ [1] 2 _ _ _ rfl))
    (Site.Step.takeWork _ _ _ rfl))
    (Site.Step.finish _ [] [] _ false false 0 (some ⟨[9, 8], some (.ok 1), rfl⟩) rfl))
    (Site.Step.takeResult _ ⟨0, 1, ⟨1⟩⟩ _ _ rfl)
  obtain ⟨-, -, -, -, hReaped⟩ := scheduler_representation run
  obtain ⟨site, -, hDelivers⟩ := hReaped _ _ _ [] rfl
  exact ⟨_, site, hDelivers⟩

end Job

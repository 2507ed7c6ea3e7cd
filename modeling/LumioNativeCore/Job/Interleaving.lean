import LumioNativeCore.Job.Reclaim

/-! Every interleaving of the sections of a system keeps its scheduler sound and
moves each job one edge of its life cycle at a time. -/
namespace Job

open Kernel

/-- What a close call in progress may rely on. -/
def CloseCall.Fenced (state : SchedulerState) : CloseCall → Prop
  | idle => True
  | stopped _ => state.accepting = false
  | observed _ running => state.accepting = false ∧ (running = 0 → state.running = 0)
  | joining => state.accepting = false ∧ state.running = 0

/-- The works in flight are the running jobs. -/
structure Site.Sound (site : Site) : Prop where
  state : site.system.state.Sound
  worksNodup : (site.system.works.map Work.id).Nodup
  working : ∀ id, id ∈ site.system.works.map Work.id ↔
    site.system.state.phase id = some .running
  running : site.system.state.running = site.system.works.length
  runningBound : site.system.state.running ≤ site.system.config.maxRunning
  queueBound : site.system.state.queue.length ≤ site.system.config.queueCapacity
  liveBound : site.system.state.jobs.size ≤ site.system.config.maxLive
  fresh : ∀ id, site.system.state.phase id ≠ none → id < site.env.nextJob
  calls : ∀ call, (site.system.calls call).Fenced site.system.state

theorem CloseCall.Fenced.mono {call : CloseCall} {state state' : SchedulerState}
    (h : call.Fenced state) (hAccepting : state.accepting = false → state'.accepting = false)
    (hRunning : state.accepting = false → state'.running ≤ state.running) :
    call.Fenced state' := by
  cases call with
  | idle => trivial
  | stopped => exact hAccepting h
  | observed destroys running =>
      refine ⟨hAccepting h.1, fun hZero => ?_⟩
      have hNone := h.2 hZero
      have hFewer := hRunning h.1
      omega
  | joining =>
      have hFewer := hRunning h.1
      exact ⟨hAccepting h.1, Nat.le_zero.mp (h.2 ▸ hFewer)⟩

namespace Site

variable {site site' : Site}

/-- A section that neither starts nor finishes an execution. -/
theorem Sound.settle (h : site.Sound) (hState : site'.system.state.Sound)
    (hConfig : site'.system.config = site.system.config)
    (hNext : site.env.nextJob ≤ site'.env.nextJob)
    (hWorks : site'.system.works = site.system.works)
    (hRunning : site'.system.state.running = site.system.state.running)
    (hWorking : ∀ id, site'.system.state.phase id = some .running ↔
      site.system.state.phase id = some .running)
    (hQueue : site'.system.state.queue.length ≤ site.system.state.queue.length)
    (hSize : site'.system.state.jobs.size ≤ site.system.state.jobs.size)
    (hKnown : ∀ id, site'.system.state.phase id ≠ none → site.system.state.phase id ≠ none)
    (hAccepting : site.system.state.accepting = false → site'.system.state.accepting = false)
    (hCalls : ∀ call, site'.system.calls call = site.system.calls call ∨
      (site'.system.calls call).Fenced site'.system.state) : site'.Sound where
  state := hState
  worksNodup := hWorks ▸ h.worksNodup
  working := by
    intro id
    rw [hWorks, hWorking]
    exact h.working id
  running := by
    rw [hRunning, hWorks]
    exact h.running
  runningBound := by
    rw [hRunning, hConfig]
    exact h.runningBound
  queueBound := by
    rw [hConfig]
    exact Nat.le_trans hQueue h.queueBound
  liveBound := by
    rw [hConfig]
    exact Nat.le_trans hSize h.liveBound
  fresh := fun id hPhase => Nat.lt_of_lt_of_le (h.fresh id (hKnown id hPhase)) hNext
  calls := by
    intro call
    rcases hCalls call with hSame | hFenced
    · rw [hSame]
      exact (h.calls call).mono hAccepting fun _ => Nat.le_of_eq hRunning
    · exact hFenced

/-- Every call in progress but one is as it was. -/
theorem calls_update (calls : Nat → CloseCall) (call : Nat) {next : CloseCall}
    {state : SchedulerState} (hNext : next.Fenced state) (other : Nat) :
    Function.update calls call next other = calls other ∨
      (Function.update calls call next other).Fenced state := by
  by_cases hSame : other = call
  · subst hSame
    rw [Function.update_self]
    exact Or.inr hNext
  · rw [Function.update_of_ne hSame]
    exact Or.inl rfl

/-- A section that writes no state of the scheduler. -/
theorem Sound.aside (h : site.Sound) (hState : site'.system.state = site.system.state)
    (hConfig : site'.system.config = site.system.config)
    (hNext : site.env.nextJob ≤ site'.env.nextJob)
    (hWorks : site'.system.works = site.system.works)
    (hCalls : ∀ call, site'.system.calls call = site.system.calls call ∨
      (site'.system.calls call).Fenced site.system.state) : site'.Sound := by
  apply h.settle (hState ▸ h.state) hConfig hNext hWorks
  · rw [hState]
  · rw [hState]
    exact fun _ => Iff.rfl
  · rw [hState]
  · rw [hState]
  · rw [hState]
    exact fun _ hPhase => hPhase
  · rw [hState]
    exact id
  · rw [hState]
    exact hCalls

theorem quiesceState_eq {running workers : Nat}
    (h : JobSystem.quiesceState running workers = .quiesced) : running = 0 := by
  rw [JobSystem.quiesceState] at h
  split_ifs at h with hNone
  exact (Nat.add_eq_zero_iff.mp hNone).1

theorem Sound.stop (h : site.Sound) {calls : Nat → CloseCall}
    (hCalls : ∀ call, calls call = site.system.calls call ∨
      (calls call).Fenced site.system.state.stop) :
    Sound { site with system :=
      { site.system with state := site.system.state.stop, calls := calls } } := by
  obtain ⟨hAccepting, hQueue, -, hRunning, hLeases, -⟩ := SchedulerState.stop_spec h.state
  have hPhases := SchedulerState.phase_stop h.state
  have hQueued := h.state.queued
  refine h.settle (SchedulerState.sound_stop h.state) rfl (Nat.le_refl _) rfl hRunning ?_ ?_ ?_ ?_
    ?_ ?_
  · intro id
    rw [hPhases]
    split_ifs with hMem
    · rw [(hQueued id).mp hMem]
      simp
    · rfl
  · show site.system.state.stop.queue.length ≤ _
    rw [hQueue]
    exact Nat.zero_le _
  · have hSize := congrArg List.length hLeases
    rw [leasesOf, leasesOf, List.length_map, List.length_map] at hSize
    exact Nat.le_of_eq hSize
  · intro id hKnown
    rw [hPhases] at hKnown
    split_ifs at hKnown with hMem
    · rw [(hQueued id).mp hMem]
      simp
    · exact hKnown
  · exact fun _ => hAccepting
  · exact hCalls

/-- What `submit_input` comes to: nothing at all, or one new queued job and its bytes. -/
theorem submitInput_cases (config : JobConfig) (path : SubmitPath) (request : JobRequest)
    (input : List UInt8) (outputCapacity : Nat) (env : Environment) (state : SchedulerState) :
    (∃ failure, submitInput config path request input outputCapacity env state =
      (.error failure, env, state)) ∨
    (state.accepting = true ∧ state.queue.length < config.queueCapacity ∧
      state.jobs.size < config.maxLive ∧
      env.budget.charged + (input.length + outputCapacity) ≤ env.budget.limit ∧
      submitInput config path request input outputCapacity env state =
        (.ok ⟨env.nextJob, config.systemId, config.contextKey⟩,
          { budget :=
              { env.budget with
                charged := env.budget.charged + (input.length + outputCapacity) }
            nextJob := env.nextJob + 1 },
          state.enter env.nextJob (JobRecord.submitted request input
            (List.replicate outputCapacity 0) (input.length + outputCapacity)))) := by
  rw [submitInput]
  cases path.admission with
  | error failure => exact Or.inl ⟨failure, rfl⟩
  | ok _ =>
      simp only
      split_ifs with hAccepting hFull hRegistered
      · exact Or.inl ⟨_, rfl⟩
      · exact Or.inl ⟨_, rfl⟩
      · exact Or.inl ⟨_, rfl⟩
      · simp only [Bool.not_eq_true', Bool.not_eq_false] at hAccepting
        simp only [ge_iff_le, not_or, not_le] at hFull
        cases Word.checkedAdd Word.max64 input.length outputCapacity with
        | none => exact Or.inl ⟨_, rfl⟩
        | some _ =>
            simp only [publish]
            cases hReserve : env.budget.tryReserve (input.length + outputCapacity) with
            | error failure => exact Or.inl ⟨failure, rfl⟩
            | ok budget =>
                obtain ⟨rfl, hLimit⟩ := MemoryBudget.tryReserve_eq_ok hReserve
                have hRelease : Environment.release
                    { env with budget :=
                      { env.budget with
                        charged := env.budget.charged + (input.length + outputCapacity) } }
                    (input.length + outputCapacity) = env := by
                  rw [Environment.release]
                  simp only [MemoryBudget.release_reserved]
                simp only [SchedulerState.zeroed, Environment.nextId]
                cases path.allocatesInput with
                | false => exact Or.inl ⟨error .capacityExceeded, by simp [hRelease]⟩
                | true =>
                    cases path.allocatesOutput with
                    | false => exact Or.inl ⟨error .capacityExceeded, by simp [hRelease]⟩
                    | true =>
                        cases hNext : Word.checkedAdd Word.max64 env.nextJob 1 with
                        | none => exact Or.inl ⟨error .capacityExceeded, by simp [hRelease]⟩
                        | some next =>
                            obtain ⟨rfl, -⟩ := Word.checkedAdd_eq_some.mp hNext
                            refine Or.inr ⟨hAccepting, hFull.1, hFull.2, hLimit, ?_⟩
                            simp [SchedulerState.enter]

/-- A section that says nothing about jobs. -/
theorem effect_aside {event : JobEvent} {state : SchedulerState} (hEntered : event.entered = [])
    (hStarted : event.started = []) (hEnded : event.ended = []) (hPublished : event.published = [])
    (hRemoved : event.removed = []) : Effect event state state :=
  SchedulerState.effect_quiet hEntered hStarted hEnded hPublished hRemoved (fun _ => rfl) rfl

/-- A job enters, or nothing happens. -/
theorem Sound.submitInput (h : site.Sound) (path : SubmitPath) (request : JobRequest)
    (input : List UInt8) (outputCapacity : Nat) {result : Except KernelError JobHandle}
    {env : Environment} {state : SchedulerState}
    (hSubmit : Job.submitInput site.system.config path request input outputCapacity site.env
      site.system.state = (result, env, state)) :
    Sound ⟨env, { site.system with state := state }⟩ ∧
      Effect (.submitted input outputCapacity result) site.system.state state := by
  rcases submitInput_cases site.system.config path request input outputCapacity site.env
    site.system.state with ⟨failure, hCase⟩ | ⟨hAccepting, hQueue, hSize, -, hCase⟩
  · cases hSubmit.symm.trans hCase
    exact ⟨h.aside rfl rfl (Nat.le_refl _) rfl fun _ => Or.inl rfl,
      effect_aside rfl rfl rfl rfl rfl⟩
  · cases hSubmit.symm.trans hCase
    have hFresh : site.system.state.phase site.env.nextJob = none := by
      by_contra hPhase
      exact Nat.lt_irrefl _ (h.fresh _ hPhase)
    refine ⟨?_, SchedulerState.effect_enter hFresh rfl rfl⟩
    exact
      { state := SchedulerState.sound_enter h.state hAccepting hFresh rfl
        worksNodup := h.worksNodup
        working := by
          intro id
          rw [SchedulerState.phase_enter]
          split_ifs with hSame
          · rw [h.working, hSame, hFresh]
            simp [JobRecord.submitted]
          · exact h.working id
        running := h.running
        runningBound := h.runningBound
        queueBound := by
          show (site.system.state.queue ++ [site.env.nextJob]).length ≤ _
          rw [List.length_append]
          exact hQueue
        liveBound := by
          have hAbsent : site.system.state.jobs.get site.env.nextJob = none :=
            Option.map_eq_none_iff.mp hFresh
          show (site.system.state.jobs.put _ _).size ≤ _
          rw [Table.put_absent hAbsent, Table.size_insert]
          exact hSize
        fresh := by
          intro id hPhase
          rw [SchedulerState.phase_enter] at hPhase
          split_ifs at hPhase with hSame
          · exact hSame ▸ Nat.lt_succ_self _
          · exact Nat.lt_succ_of_lt (h.fresh id hPhase)
        calls := by
          intro call
          exact (h.calls call).mono id fun _ => Nat.le_refl _ }

/-- A queued job starts, or nothing happens. -/
theorem Sound.takeWork (h : site.Sound) {work : Option Work} {state : SchedulerState}
    (hTake : site.system.state.takeWork site.system.config.maxRunning = (work, state)) :
    Sound { site with system :=
        { site.system with state := state, works := site.system.works ++ work.toList } } ∧
      Effect (.taken work) site.system.state state := by
  rcases SchedulerState.takeWork_eq h.state site.system.config.maxRunning with hCase |
    ⟨id, rest, record, hAccepting, hBelow, hQueue, hRecord, hQueued, hCase⟩
  · cases hTake.symm.trans hCase
    exact ⟨h.aside rfl rfl (Nat.le_refl _) (List.append_nil _) fun _ => Or.inl rfl,
      effect_aside rfl rfl rfl rfl rfl⟩
  · cases hTake.symm.trans hCase
    refine ⟨?_, SchedulerState.effect_start hRecord hQueued rfl⟩
    have hPhase := SchedulerState.phase_eq_some.mpr ⟨record, hRecord, hQueued⟩
    exact
      { state := SchedulerState.sound_start h.state hAccepting hQueue hRecord hQueued
        worksNodup := by
          rw [List.map_append]
          apply List.Nodup.append h.worksNodup (List.nodup_singleton id)
          intro other hOther hSame
          obtain rfl := List.mem_singleton.mp hSame
          rw [h.working, hPhase] at hOther
          cases hOther
        working := by
          intro other
          rw [SchedulerState.phase_start hRecord, List.map_append, List.mem_append, h.working]
          split_ifs with hSame
          · simp [hSame]
          · simp [hSame]
        running := by
          rw [List.length_append, ← h.running]
          rfl
        runningBound := hBelow
        queueBound := by
          have hBound := h.queueBound
          rw [hQueue] at hBound
          exact Nat.le_of_succ_le hBound
        liveBound := by
          show (site.system.state.jobs.modify id _).size ≤ _
          rw [Table.size_modify]
          exact h.liveBound
        fresh := by
          intro other hOther
          apply h.fresh
          rw [SchedulerState.phase_start hRecord] at hOther
          split_ifs at hOther with hSame
          · rw [hSame, hPhase]
            simp
          · exact hOther
        calls := by
          intro call
          apply (h.calls call).mono
          · exact fun hRefused => hRefused
          · intro hRefused
            rw [hAccepting] at hRefused
            cases hRefused }

/-- A running job ends with its work. -/
theorem Sound.finish (h : site.Sound) {before after : List Work} {work : Work}
    (cancelled exceeded : Bool) (now : Nat) (run : Option (KernelRun work))
    (hWorks : site.system.works = before ++ work :: after) :
    Sound { site with system :=
        { site.system with
          state := site.system.state.finish work.id (work.outcome cancelled now run).2 exceeded
            (work.outcome cancelled now run).1
          works := before ++ after } } ∧
      Effect (.finished work.id (finalState (work.outcome cancelled now run).1)) site.system.state
        (site.system.state.finish work.id (work.outcome cancelled now run).2 exceeded
          (work.outcome cancelled now run).1) := by
  have hMem : work.id ∈ site.system.works.map Work.id := by
    rw [hWorks]
    simp
  have hPhase := (h.working _).mp hMem
  have hEnds := SchedulerState.ends_finish h.state hPhase
    (work.outcome cancelled now run).2 exceeded (work.outcome cancelled now run).1
  have hFinish := SchedulerState.finish_eq hPhase
    (work.outcome cancelled now run).2 exceeded (work.outcome cancelled now run).1
  have hRunning := h.running
  have hNodup := h.worksNodup
  rw [hWorks, List.map_append, List.map_cons] at hNodup
  rw [hWorks, List.length_append, List.length_cons] at hRunning
  have hFewer : (site.system.state.finish work.id (work.outcome cancelled now run).2 exceeded
      (work.outcome cancelled now run).1).running = (before ++ after).length := by
    rw [hFinish, List.length_append]
    show site.system.state.running - 1 = _
    omega
  have hLess : (before ++ after).length ≤ site.system.state.running := by
    rw [List.length_append]
    omega
  refine ⟨?_, hEnds.effect rfl rfl rfl rfl rfl⟩
  exact
    { state := hEnds.sound h.state
      worksNodup := by
        rw [List.map_append]
        exact (List.nodup_middle.mp hNodup).of_cons
      working := by
        intro id
        rw [hEnds.phases, List.map_append]
        have hOthers := (List.nodup_middle.mp hNodup).notMem
        have hWorking := h.working id
        rw [hWorks, List.map_append, List.map_cons] at hWorking
        split_ifs with hSame
        · rw [hSame, Option.some.injEq]
          exact iff_of_false hOthers (SchedulerState.terminal_ne hEnds.terminal).2.1
        · rw [← hWorking]
          simp [hSame]
      running := hFewer
      runningBound := by
        show SchedulerState.running _ ≤ _
        rw [hFewer]
        exact Nat.le_trans hLess h.runningBound
      queueBound := Nat.le_trans hEnds.queue_length h.queueBound
      liveBound := by
        show (SchedulerState.jobs _).size ≤ _
        rw [hFinish]
        simp only [Table.size_modify]
        exact h.liveBound
      fresh := by
        intro id hKnown
        apply h.fresh
        rw [hEnds.phases] at hKnown
        split_ifs at hKnown with hSame
        · rw [hSame, hPhase]
          simp
        · exact hKnown
      calls := by
        intro call
        apply (h.calls call).mono
        · rw [hEnds.accepting]
          exact id
        · intro _
          rw [hFewer]
          exact hLess }

/-- A queued job ends, a running one is marked, or nothing happens. -/
theorem Sound.cancel (h : site.Sound) (handle : JobHandle) :
    Sound { site with system := { site.system with state := (site.system.cancel handle).2 } } ∧
      Effect (.cancelReplied handle.id (site.system.cancel handle).1) site.system.state
        (site.system.cancel handle).2 := by
  rcases JobSystem.cancel_cases h.state handle with ⟨failure, hCase⟩ | ⟨phase, hCase⟩ |
    ⟨hPhase, hCase⟩ | ⟨hResult, hEnds, hJobs, hRunning⟩
  · rw [hCase]
    exact ⟨h.aside rfl rfl (Nat.le_refl _) rfl fun _ => Or.inl rfl,
      effect_aside rfl rfl rfl rfl rfl⟩
  · rw [hCase]
    exact ⟨h.aside rfl rfl (Nat.le_refl _) rfl fun _ => Or.inl rfl,
      effect_aside rfl rfl rfl rfl rfl⟩
  · rw [hCase]
    have hPhases : ∀ id, SchedulerState.phase { site.system.state with
        jobs := site.system.state.jobs.modify handle.id fun record =>
          { record with cancelled := true } } id = site.system.state.phase id := by
      intro id
      rw [SchedulerState.phase_modify]
      split_ifs
      · rfl
      · rfl
    refine ⟨?_, SchedulerState.effect_quiet rfl rfl rfl rfl rfl hPhases rfl⟩
    refine h.settle (h.state.of_phases hPhases rfl rfl rfl) rfl (Nat.le_refl _) rfl rfl
      ?_ ?_ ?_ ?_ ?_ ?_
    · intro id
      rw [hPhases]
    · exact Nat.le_refl _
    · exact Nat.le_of_eq (Table.size_modify _ _ _)
    · intro id
      rw [hPhases]
      exact fun hKnown => hKnown
    · exact fun hRefused => hRefused
    · exact fun _ => Or.inl rfl
  · rw [hResult]
    refine ⟨?_, hEnds.effect rfl rfl rfl rfl rfl⟩
    refine h.settle (hEnds.sound h.state) rfl (Nat.le_refl _) rfl hRunning ?_ ?_ ?_ ?_ ?_ ?_
    · intro id
      rw [hEnds.phases]
      split_ifs with hSame
      · rw [hSame, hEnds.phase]
        simp
      · rfl
    · exact hEnds.queue_length
    · show (SchedulerState.jobs _).size ≤ _
      rw [hJobs, Table.size_modify]
    · intro id hKnown
      rw [hEnds.phases] at hKnown
      split_ifs at hKnown with hSame
      · rw [hSame, hEnds.phase]
        simp
      · exact hKnown
    · rw [hEnds.accepting]
      exact id
    · exact fun _ => Or.inl rfl

/-- A job that ended is removed, or nothing happens. -/
theorem Sound.takeResult (h : site.Sound) {handle : JobHandle}
    {result : Except KernelError JobResult} {state : SchedulerState}
    (hTake : site.system.takeResult handle = (result, state)) :
    Sound { site with system :=
        { site.system with
          state := state
          results := site.system.results ++ result.toOption.toList } } ∧
      Effect (.reaped handle.id result) site.system.state state := by
  rcases site.system.takeResult_cases handle with
    ⟨failure, hCase⟩ | ⟨record, hRecord, hTerminal, hCase⟩
  · cases hTake.symm.trans hCase
    exact ⟨h.aside rfl rfl (Nat.le_refl _) rfl fun _ => Or.inl rfl,
      effect_aside rfl rfl rfl rfl rfl⟩
  · cases hTake.symm.trans hCase
    have hPhase := SchedulerState.phase_eq_some.mpr ⟨record, hRecord, rfl⟩
    refine ⟨?_, SchedulerState.effect_reap hTerminal hPhase _⟩
    refine h.settle (SchedulerState.sound_reap h.state hTerminal hPhase) rfl
      (Nat.le_refl _) rfl rfl ?_ ?_ ?_ ?_ ?_ ?_
    · intro id
      rw [SchedulerState.phase_reap]
      split_ifs with hSame
      · simp [hSame, hPhase, (SchedulerState.terminal_ne hTerminal).2.1]
      · rfl
    · exact Nat.le_refl _
    · exact Table.size_erase_le _ _
    · intro id hKnown
      rw [SchedulerState.phase_reap] at hKnown
      split_ifs at hKnown
      · exact absurd rfl hKnown
      · exact hKnown
    · exact fun hRefused => hRefused
    · exact fun _ => Or.inl rfl

/-- Every job is removed. -/
theorem Sound.destroyClear (h : site.Sound) {call : Nat}
    (hCall : site.system.calls call = .joining) :
    Sound ⟨site.env.release (chargeOf (leasesOf site.system.state.jobs)),
        { site.system with
          state := site.system.state.clear
          calls := Function.update site.system.calls call .idle }⟩ ∧
      Effect (.destroyed (leasesOf site.system.state.jobs) (.ok ())) site.system.state
        site.system.state.clear := by
  have hFenced := h.calls call
  rw [hCall] at hFenced
  have hIdle : ∀ id, site.system.state.phase id ≠ some .running := by
    intro id
    have hNone : site.system.works = [] := by
      rw [← List.length_eq_zero_iff, ← h.running]
      exact hFenced.2
    rw [Ne, ← h.working, hNone]
    exact List.not_mem_nil
  refine ⟨?_, SchedulerState.effect_clear h.state (h.state.stopped hFenced.1) hIdle⟩
  refine h.settle SchedulerState.sound_clear rfl (Nat.le_refl _) rfl rfl ?_ ?_ ?_ ?_ ?_ ?_
  · intro id
    rw [SchedulerState.phase_clear]
    simpa using hIdle id
  · exact Nat.zero_le _
  · exact Nat.zero_le _
  · exact fun id hKnown => absurd (SchedulerState.phase_clear id) hKnown
  · exact fun hRefused => hRefused
  · exact calls_update _ _ trivial

/-- Every section, from every sound site. -/
theorem Step.effect {event : JobEvent} (h : site.Sound) (hStep : Step site event site') :
    site'.Sound ∧ Effect event site.system.state site'.system.state := by
  cases hStep with
  | submitInput path request input outputCapacity result env state hSubmit =>
      exact h.submitInput path request input outputCapacity hSubmit
  | takeWork work state hTake => exact h.takeWork hTake
  | finish before after work cancelled exceeded now run hWorks =>
      exact h.finish cancelled exceeded now run hWorks
  | cancel handle => exact h.cancel handle
  | cancelRequested => exact ⟨h.stop fun _ => Or.inl rfl, SchedulerState.effect_stop h.state⟩
  | drainCompletions room =>
      obtain ⟨completions, -, -, -, hState⟩ := SchedulerState.drainCompletions_spec h.state room
      have hSound := SchedulerState.sound_drain h.state room
      refine ⟨?_, SchedulerState.effect_drain h.state room⟩
      rw [hState] at hSound ⊢
      exact h.settle hSound rfl (Nat.le_refl _) rfl rfl (fun _ => Iff.rfl) (Nat.le_refl _)
        (Nat.le_refl _) (fun _ hKnown => hKnown) (fun hRefused => hRefused) fun _ => Or.inl rfl
  | takeResult handle result state hTake => exact h.takeResult hTake
  | dropResult before after result hResults =>
      exact ⟨h.aside rfl rfl (Nat.le_refl _) rfl fun _ => Or.inl rfl,
        effect_aside rfl rfl rfl rfl rfl⟩
  | closeStop call destroys hCall =>
      refine ⟨h.stop ?_, SchedulerState.effect_stop h.state⟩
      exact calls_update _ _ (SchedulerState.stop_spec h.state).1
  | closeObserve call destroys hCall =>
      have hFenced := h.calls call
      rw [hCall] at hFenced
      refine ⟨h.aside rfl rfl (Nat.le_refl _) rfl ?_, effect_aside rfl rfl rfl rfl rfl⟩
      exact calls_update _ _ ⟨hFenced, id⟩
  | quiesceReturn call running workers hCall =>
      refine ⟨h.aside rfl rfl (Nat.le_refl _) rfl ?_, effect_aside rfl rfl rfl rfl rfl⟩
      exact calls_update _ _ trivial
  | destroyRefuse call running workers hCall hBusy =>
      refine ⟨h.aside rfl rfl (Nat.le_refl _) rfl ?_, effect_aside rfl rfl rfl rfl rfl⟩
      exact calls_update _ _ trivial
  | destroyJoin call running workers hCall hQuiet =>
      have hFenced := h.calls call
      rw [hCall] at hFenced
      refine ⟨h.aside rfl rfl (Nat.le_refl _) rfl ?_, effect_aside rfl rfl rfl rfl rfl⟩
      exact calls_update _ _ ⟨hFenced.1, hFenced.2 (quiesceState_eq hQuiet)⟩
  | destroyPanic call hCall =>
      refine ⟨h.aside rfl rfl (Nat.le_refl _) rfl ?_, effect_aside rfl rfl rfl rfl rfl⟩
      exact calls_update _ _ trivial
  | destroyClear call hCall => exact h.destroyClear hCall
  | elsewhere env hNext =>
      exact ⟨h.aside rfl rfl hNext rfl fun _ => Or.inl rfl, effect_aside rfl rfl rfl rfl rfl⟩

end Site
end Job

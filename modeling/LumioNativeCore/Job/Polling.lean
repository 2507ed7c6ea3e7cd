import LumioNativeCore.Job.Order

/-! What the callers of a job system see of a job (`poll`, and what the other calls report of
its end): all of them see the same life. -/
namespace Job

open Kernel Transition

structure JobSnapshot where
  id : JobId
  state : JobState
  deriving DecidableEq, Repr

def SchedulerState.poll (id : JobId) (state : SchedulerState) : Except KernelError JobSnapshot :=
  match state.jobs.get id with
  | none => .error (error .invalidHandle)
  | some record => .ok ⟨id, record.state⟩

def JobSystem.poll (system : JobSystem) (handle : JobHandle) : Except KernelError JobSnapshot :=
  match validateHandle system.config handle with
  | .error failure => .error failure
  | .ok _ => system.state.poll handle.id

/-- A step of the system, or a poll between two of them. -/
inductive Watched where
  | step (event : JobEvent)
  | polled (handle : JobHandle) (result : Except KernelError JobSnapshot)

inductive Watches : Site → Watched → Site → Prop where
  | step {site site' : Site} {event : JobEvent} (hStep : Site.Step site event site') :
      Watches site (.step event) site'
  | poll (site : Site) (handle : JobHandle) :
      Watches site (.polled handle (site.system.poll handle)) site

def Watched.step? : Watched → Option JobEvent
  | .step event => some event
  | .polled _ _ => none

/-- The steps among what is watched. -/
def stepsIn (trace : List Watched) : List JobEvent := trace.filterMap Watched.step?

/-- What a caller is told of the end of a job. -/
def Watched.reports : Watched → List JobCompletion
  | .polled _ (.ok snapshot) =>
      if snapshot.state.isTerminal then [⟨snapshot.id, snapshot.state⟩] else []
  | .step (.cancelReplied id (.ok (.cancelled _))) => [⟨id, .cancelled⟩]
  | .step (.cancelReplied id (.ok (.alreadyTerminal state))) => [⟨id, state⟩]
  | .step (.drained (some completions)) => completions
  | .step (.reaped id (.ok result)) => [⟨id, result.state⟩]
  | _ => []

theorem stepsIn_append (trace more : List Watched) :
    stepsIn (trace ++ more) = stepsIn trace ++ stepsIn more := List.filterMap_append

theorem stepsIn_step (trace : List Watched) (event : JobEvent) :
    stepsIn (trace ++ [.step event]) = stepsIn trace ++ [event] := stepsIn_append _ _

theorem stepsIn_polled (trace : List Watched) (handle : JobHandle)
    (result : Except KernelError JobSnapshot) :
    stepsIn (trace ++ [.polled handle result]) = stepsIn trace :=
  (stepsIn_append _ _).trans (List.append_nil _)

/-- What is watched is a run of the system. -/
theorem run_of_watched {site site' : Site} {trace : List Watched}
    (run : Run Watches site trace site') : Run Site.Step site (stepsIn trace) site' := by
  induction run with
  | nil => exact .nil _
  | snoc prior hWatch ih =>
      cases hWatch with
      | step hStep =>
          rw [stepsIn_step]
          exact ih.snoc hStep
      | poll handle =>
          rw [stepsIn_polled]
          exact ih

theorem JobSystem.poll_eq_ok {system : JobSystem} {handle : JobHandle} {snapshot : JobSnapshot} :
    system.poll handle = .ok snapshot ↔ validateHandle system.config handle = .ok () ∧
      snapshot.id = handle.id ∧ system.state.phase handle.id = some snapshot.state := by
  rw [poll, SchedulerState.poll, SchedulerState.phase]
  cases validateHandle system.config handle with
  | error failure => simp
  | ok _ =>
      cases system.state.jobs.get handle.id with
      | none => simp
      | some record =>
          obtain ⟨id, state⟩ := snapshot
          simp [eq_comm]

/-- A cancel that comes too late finds the job ended. -/
theorem SchedulerState.cancel_alreadyTerminal {state : SchedulerState} {id : JobId}
    {phase : JobState} (h : (state.cancel id).1 = .ok (.alreadyTerminal phase)) :
    state.phase id = some phase ∧ phase.isTerminal = true := by
  rw [SchedulerState.cancel] at h
  rw [SchedulerState.phase]
  cases hRecord : state.jobs.get id with
  | none => simp [hRecord] at h
  | some record =>
      simp only [hRecord] at h
      split_ifs at h with hTerminal hRunning
      · obtain rfl := CancelOutcome.alreadyTerminal.inj (Except.ok.inj h)
        exact ⟨rfl, hTerminal⟩
      · cases Except.ok.inj h
      · cases Except.ok.inj h

namespace Site

variable {site site' : Site} {event : JobEvent} {id : JobId}

theorem Step.alreadyTerminal {phase : JobState}
    (hStep : Step site (.cancelReplied id (.ok (.alreadyTerminal phase))) site') :
    site.system.state.phase id = some phase ∧ phase.isTerminal = true := by
  generalize hEvent : JobEvent.cancelReplied id (.ok (.alreadyTerminal phase)) = event at hStep
  cases hStep with
  | cancel handle =>
      obtain ⟨rfl, hReply⟩ := JobEvent.cancelReplied.inj hEvent
      rw [JobSystem.cancel] at hReply
      cases hValid : validateHandle site.system.config handle with
      | error failure => simp [hValid] at hReply
      | ok _ =>
          simp only [hValid] at hReply
          exact SchedulerState.cancel_alreadyTerminal hReply.symm
  | _ => cases hEvent

/-- A job that is submitted is queued under a handle of this system. -/
theorem Step.submitted {input : List UInt8} {outputCapacity : Nat} {handle : JobHandle}
    (h : site.Sound) (hStep : Step site (.submitted input outputCapacity (.ok handle)) site') :
    validateHandle site'.system.config handle = .ok () ∧ handle.id < site'.env.nextJob ∧
      site'.system.state.phase handle.id = some .queued := by
  have hEntered : handle.id ∈ (JobEvent.submitted input outputCapacity (.ok handle)).entered :=
    List.mem_singleton_self _
  obtain ⟨hId, hNext⟩ := hStep.counts.2.1 _ hEntered
  have hQueued := ((hStep.effect h).2.moves handle.id).of_entered hEntered
  refine ⟨?_, by rw [hId]; exact hNext, hQueued⟩
  rw [hStep.config]
  generalize hEvent : JobEvent.submitted input outputCapacity (.ok handle) = event at hStep
  cases hStep with
  | submitInput path request input outputCapacity result env state hSubmit =>
      obtain ⟨rfl, rfl, rfl⟩ := JobEvent.submitted.inj hEvent
      rcases submitInput_cases site.system.config path request _ _ site.env
        site.system.state with ⟨failure, hCase⟩ | ⟨-, -, -, -, hCase⟩
      · cases hSubmit.symm.trans hCase
      · cases hSubmit.symm.trans hCase
        simp [validateHandle]
  | _ => cases hEvent

end Site

section Runs

variable {config : JobConfig} {env : Environment} {site site' : Site} {trace : List Watched}
  {watched : Watched}

/-- What a caller is told has happened. -/
theorem reported_ended (run : Run Watches ⟨env, .create config⟩ (trace ++ [watched]) site)
    {report : JobCompletion} (hReport : report ∈ watched.reports) :
    report ∈ endedIn (stepsIn (trace ++ [watched])) := by
  obtain ⟨before, hBefore, hWatch⟩ := run.last
  have hTracks := (Site.of_run (run_of_watched hBefore)).2
  have hAfter := (Site.of_run (run_of_watched run)).2
  cases hWatch with
  | poll handle =>
      rw [stepsIn_polled]
      cases hPoll : site.system.poll handle with
      | error failure =>
          rw [hPoll] at hReport
          cases hReport
      | ok snapshot =>
          obtain ⟨-, hId, hPhase⟩ := JobSystem.poll_eq_ok.mp hPoll
          rw [hPoll, Watched.reports] at hReport
          split_ifs at hReport with hTerminal
          · obtain rfl := List.mem_singleton.mp hReport
            rw [← hId] at hPhase
            exact hTracks.final _ _ hPhase hTerminal
          · cases hReport
  | @step _ event hStep =>
      rw [stepsIn_step] at hAfter ⊢
      cases event with
      | cancelReplied id result =>
          cases result with
          | error failure => cases hReport
          | ok reply =>
              cases reply with
              | cancelled previous =>
                  rw [endedIn_snoc]
                  exact List.mem_append_right _ hReport
              | requested => cases hReport
              | alreadyTerminal phase =>
                  obtain ⟨hPhase, hTerminal⟩ := hStep.alreadyTerminal
                  obtain rfl := List.mem_singleton.mp hReport
                  rw [endedIn_snoc]
                  exact List.mem_append_left _ (hTracks.final _ _ hPhase hTerminal)
      | drained completions =>
          cases completions with
          | none => cases hReport
          | some completions =>
              refine (hAfter.published report ?_).1
              rw [publishedIn_snoc]
              exact List.mem_append_right _ hReport
      | reaped id result =>
          cases result with
          | error failure => cases hReport
          | ok result =>
              obtain ⟨record, hRecord, hTerminal, rfl⟩ := hStep.reaped
              have hPhase := SchedulerState.phase_eq_some.mpr ⟨record, hRecord, rfl⟩
              obtain rfl := List.mem_singleton.mp hReport
              rw [endedIn_snoc]
              exact List.mem_append_left _ (hTracks.final _ _ hPhase hTerminal)
      | _ => cases hReport

/-- The states of a job that an observer may see after one another; a job that is gone stays
gone. -/
inductive Follows : Option JobState → Option JobState → Prop where
  | lives {before after : JobState} (hPath : Relation.ReflTransGen JobState.Next before after) :
      Follows (some before) (some after)
  | gone (before : Option JobState) : Follows before none

theorem Follows.refl (phase : Option JobState) : Follows phase phase := by
  cases phase with
  | none => exact .gone none
  | some phase => exact .lives .refl

theorem Follows.moves {first before after : Option JobState} {event : JobEvent} {id : JobId}
    (h : Follows first before) (hMoves : Moves event id before after)
    (hOld : id ∉ event.entered) : Follows first after := by
  cases h with
  | gone =>
      rw [hMoves.of_none hOld]
      exact .gone first
  | lives hPath =>
      cases after with
      | none => exact .gone _
      | some after =>
          rcases hMoves.next with rfl | hNext
          · exact .lives hPath
          · exact .lives (hPath.tail hNext)

theorem Moves.there {before after : Option JobState} {event : JobEvent} {id : JobId}
    (h : Moves event id before after) (hOld : id ∉ event.entered) :
    after ≠ none ↔ before ≠ none ∧ id ∉ event.removed := by
  cases h with
  | stays _ _ _ hRemoved => simp [hRemoved]
  | enters hEntered => exact absurd hEntered hOld
  | starts _ _ _ hRemoved => simp [hRemoved]
  | ends _ _ _ hRemoved => simp [hRemoved]
  | leaves _ _ _ hRemoved => simp [hRemoved]

/-- A job that has entered follows its life, and is there until it is removed. -/
theorem follows_run {id : JobId} {trace : List JobEvent} (h : site.Sound)
    (hOld : id < site.env.nextJob) (run : Run Site.Step site trace site') :
    Follows (site.system.state.phase id) (site'.system.state.phase id) ∧
      (site.system.state.phase id ≠ none →
        (site'.system.state.phase id ≠ none ↔ id ∉ removedIn trace)) := by
  suffices hAll : site'.Sound ∧ id < site'.env.nextJob ∧
      Follows (site.system.state.phase id) (site'.system.state.phase id) ∧
      (site.system.state.phase id ≠ none →
        (site'.system.state.phase id ≠ none ↔ id ∉ removedIn trace)) from hAll.2.2
  apply run.invariant fun trace site' => site'.Sound ∧ id < site'.env.nextJob ∧
    Follows (site.system.state.phase id) (site'.system.state.phase id) ∧
    (site.system.state.phase id ≠ none →
      (site'.system.state.phase id ≠ none ↔ id ∉ removedIn trace))
  · exact ⟨h, hOld, .refl _, fun hThere => iff_of_true hThere List.not_mem_nil⟩
  · rintro trace middle event last ⟨hSound, hBelow, hFollows, hThere⟩ hStep
    obtain ⟨hNext, hEffect⟩ := hStep.effect hSound
    obtain ⟨hMore, hEntered, -, -⟩ := hStep.counts
    have hKnown : id ∉ event.entered := by
      intro hMem
      rw [(hEntered id hMem).1] at hBelow
      exact Nat.lt_irrefl _ hBelow
    have hMoves := hEffect.moves id
    refine ⟨hNext, Nat.lt_of_lt_of_le hBelow hMore, hFollows.moves hMoves hKnown, fun hFirst => ?_⟩
    rw [removedIn_snoc, List.mem_append, not_or, ← hThere hFirst]
    exact hMoves.there hKnown

/-- All observers of a job see the same life. Whatever a caller is told of its end by `poll`,
`cancel`, `drain_completions` or `take_result` has happened by then, so that all of them are told
the same; two polls show states in the order of the life cycle, whoever makes them; and a poll of
a handle that `submit` has returned is answered until the job is reaped or destroyed, and never
after that. -/
theorem observers_agree (run : Run Watches ⟨env, .create config⟩ trace site) :
    (∀ before watched after report, trace = before ++ watched :: after →
      report ∈ watched.reports → report ∈ endedIn (stepsIn (before ++ [watched]))) ∧
    (∀ report ∈ trace.flatMap Watched.reports, ∀ report' ∈ trace.flatMap Watched.reports,
      report.id = report'.id → report = report') ∧
    (∀ before handle snapshot middle handle' snapshot' after,
      trace = before ++ .polled handle (.ok snapshot) ::
        (middle ++ .polled handle' (.ok snapshot') :: after) → snapshot'.id = snapshot.id →
      Relation.ReflTransGen JobState.Next snapshot.state snapshot'.state) ∧
    ∀ before input outputCapacity handle middle result after,
      trace = before ++ .step (.submitted input outputCapacity (.ok handle)) ::
        (middle ++ .polled handle result :: after) →
      ((∃ snapshot, result = .ok snapshot) ↔ handle.id ∉ removedIn (stepsIn middle)) := by
  have hReported : ∀ before watched after report, trace = before ++ watched :: after →
      report ∈ watched.reports → report ∈ endedIn (stepsIn (before ++ [watched])) := by
    rintro before watched after report rfl hReport
    obtain ⟨first, second, hBefore, hWatch, -⟩ := run.at
    exact reported_ended (hBefore.snoc hWatch) hReport
  have hEnded : ∀ report ∈ trace.flatMap Watched.reports, report ∈ endedIn (stepsIn trace) := by
    intro report hMem
    obtain ⟨watched, hWatched, hReport⟩ := List.mem_flatMap.mp hMem
    obtain ⟨before, after, rfl⟩ := List.append_of_mem hWatched
    rw [List.append_cons, stepsIn_append, endedIn, List.flatMap_append]
    exact List.mem_append_left _ (hReported before watched after report rfl hReport)
  refine ⟨hReported, ?_, ?_, ?_⟩
  · intro report hMem report' hMem' hSame
    have hTracks := (Site.of_run (run_of_watched run)).2
    exact List.inj_on_of_nodup_map hTracks.endedNodup (hEnded report hMem) (hEnded report' hMem')
      hSame
  · rintro before handle snapshot middle handle' snapshot' after rfl hSame
    obtain ⟨site₁, _, hBefore, hFirst, hRest⟩ := run.at
    obtain ⟨site₂, _, hMiddle, hSecond, -⟩ := hRest.at
    obtain ⟨hSound, -⟩ := Site.of_run (run_of_watched hBefore)
    generalize hWatched : Watched.polled handle (.ok snapshot) = watched at hFirst
    generalize hWatched' : Watched.polled handle' (.ok snapshot') = watched' at hSecond
    cases hFirst with
    | step => cases hWatched
    | poll =>
        cases hSecond with
        | step => cases hWatched'
        | poll =>
            obtain ⟨rfl, hPoll⟩ := Watched.polled.inj hWatched
            obtain ⟨rfl, hPoll'⟩ := Watched.polled.inj hWatched'
            obtain ⟨-, hId, hPhase⟩ := JobSystem.poll_eq_ok.mp hPoll.symm
            obtain ⟨-, hId', hPhase'⟩ := JobSystem.poll_eq_ok.mp hPoll'.symm
            have hOld := hSound.fresh _ (by rw [hPhase]; exact Option.some_ne_none _)
            have hFollows := (follows_run hSound hOld (run_of_watched hMiddle)).1
            rw [← hId', hSame, hId] at hPhase'
            rw [hPhase, hPhase'] at hFollows
            cases hFollows with
            | lives hPath => exact hPath
  · rintro before input outputCapacity handle middle result after rfl
    obtain ⟨site₁, site₂, hBefore, hFirst, hRest⟩ := run.at
    obtain ⟨site₃, _, hMiddle, hSecond, -⟩ := hRest.at
    obtain ⟨hSound, -⟩ := Site.of_run (run_of_watched hBefore)
    cases hFirst with
    | step hStep =>
        obtain ⟨hValid, hOld, hQueued⟩ := hStep.submitted hSound
        have hThere := (follows_run (hStep.effect hSound).1 hOld (run_of_watched hMiddle)).2
          (by rw [hQueued]; exact Option.some_ne_none _)
        have hConfig : site₃.system.config = site₂.system.config :=
          (run_of_watched hMiddle).preserves
            (fun site => site.system.config = site₂.system.config)
            (fun _ _ _ hSame hStep => hStep.config.trans hSame) rfl
        generalize hWatched : Watched.polled handle result = watched at hSecond
        cases hSecond with
        | step => cases hWatched
        | poll =>
            obtain ⟨rfl, rfl⟩ := Watched.polled.inj hWatched
            rw [← hThere, Option.ne_none_iff_exists']
            constructor
            · rintro ⟨snapshot, hPoll⟩
              exact ⟨snapshot.state, (JobSystem.poll_eq_ok.mp hPoll).2.2⟩
            · rintro ⟨phase, hPhase⟩
              exact ⟨⟨handle.id, phase⟩,
                JobSystem.poll_eq_ok.mpr ⟨hConfig ▸ hValid, rfl, hPhase⟩⟩

end Runs

/-- A job is polled while it is queued and after it has succeeded. -/
theorem observers_agree_one : ∃ (before middle : List Watched) (handle : JobHandle) (site : Site),
    Run Watches ⟨⟨.new 8, 0⟩, .create ⟨1, ⟨1⟩, 1, 1, 1⟩⟩
      (before ++ .polled handle (.ok ⟨0, .queued⟩) ::
        (middle ++ [.polled handle (.ok ⟨0, .succeeded⟩)])) site ∧
      Relation.ReflTransGen JobState.Next .queued .succeeded := by
  have hQueued : Run Watches ⟨⟨.new 8, 0⟩, .create ⟨1, ⟨1⟩, 1, 1, 1⟩⟩ _ _ := .snoc (.snoc (.nil _)
    (.step (Site.Step.submitInput _ ⟨.ok (), true, true, true⟩ ⟨7, .none⟩ [1, 2] 1 _ _ _ rfl)))
    (.poll _ ⟨0, 1, ⟨1⟩⟩)
  have hSucceeded := Run.snoc (.snoc (.snoc hQueued
    (.step (Site.Step.takeWork _ _ _ rfl)))
    (.step (Site.Step.finish _ [] [] _ false false 0 (some ⟨[9], some (.ok 1), rfl⟩) rfl)))
    (.poll _ ⟨0, 1, ⟨1⟩⟩)
  exact ⟨[_], [_, _], _, _, hSucceeded,
    (observers_agree hSucceeded).2.2.1 [_] _ ⟨0, .queued⟩ [_, _] _ ⟨0, .succeeded⟩ [] rfl rfl⟩

end Job

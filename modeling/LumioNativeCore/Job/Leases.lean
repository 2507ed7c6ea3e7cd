import LumioNativeCore.Job.Lifecycle

/-! The bytes of all job systems over one context budget. -/
namespace Job

open Kernel Transition

namespace JobEvent

/-- The lease that an accepted job takes. -/
def reserved : JobEvent → List (JobId × Nat)
  | submitted input outputCapacity (.ok handle) => [(handle.id, input.length + outputCapacity)]
  | _ => []

/-- The leases that are given back. -/
def released : JobEvent → List (JobId × Nat)
  | dropped result => [(result.id, result.reservation)]
  | destroyed leases (.ok _) => leases
  | _ => []

end JobEvent

def JobResult.lease (result : JobResult) : JobId × Nat := (result.id, result.reservation)

/-- Every lease of a system: of its records and of the results its callers hold. -/
def JobSystem.holdings (system : JobSystem) : List (JobId × Nat) :=
  leasesOf system.state.jobs ++ system.results.map JobResult.lease

theorem leasesOf_insert (jobs : Table JobId JobRecord) (id : JobId) (record : JobRecord)
    (h : jobs.get id = none) :
    leasesOf (jobs.insert id record h) = leasesOf jobs ++ [(id, record.reservation)] := by
  rw [leasesOf, Table.insert, List.map_append]
  rfl

theorem leasesOf_erase {jobs : Table JobId JobRecord} {id : JobId} {record : JobRecord}
    (h : jobs.get id = some record) :
    (leasesOf (jobs.erase id) ++ [(id, record.reservation)]).Perm (leasesOf jobs) := by
  have hPerm := (Table.erase_perm h).map fun entry => (entry.1, entry.2.reservation)
  rw [List.map_append] at hPerm
  exact hPerm

theorem mem_leasesOf {jobs : Table JobId JobRecord} {id : JobId} {record : JobRecord}
    (h : jobs.get id = some record) : (id, record.reservation) ∈ leasesOf jobs :=
  (leasesOf_erase h).mem_iff.mp (by simp)

theorem finished_reservation (record : JobRecord) (output : List UInt8) (exceeded : Bool)
    (outcome : Except KernelError Nat) :
    (record.finished output exceeded outcome).reservation = record.reservation := by
  cases outcome with
  | ok => rfl
  | error => rfl

theorem chargeOf_append (leases leases' : List (JobId × Nat)) :
    chargeOf (leases ++ leases') = chargeOf leases + chargeOf leases' := by
  rw [chargeOf, chargeOf, chargeOf, List.map_append, List.sum_append]

theorem chargeOf_perm {leases leases' : List (JobId × Nat)} (h : leases.Perm leases') :
    chargeOf leases = chargeOf leases' := (h.map Prod.snd).sum_eq

namespace Site

variable {site site' : Site} {event : JobEvent}

/-- What one section does to the leases and to the budget. -/
structure Accounts (site : Site) (event : JobEvent) (site' : Site) : Prop where
  leases : (site'.system.holdings ++ event.released).Perm (site.system.holdings ++ event.reserved)
  charged : site'.env.budget.charged =
    site.env.budget.charged + chargeOf event.reserved - chargeOf event.released
  limit : site'.env.budget.limit = site.env.budget.limit
  within : event.reserved ≠ [] →
    site.env.budget.charged + chargeOf event.reserved ≤ site.env.budget.limit

theorem accounts_quiet (hLeases : leasesOf site'.system.state.jobs = leasesOf site.system.state.jobs)
    (hResults : site'.system.results = site.system.results) (hEnv : site'.env.budget = site.env.budget)
    (hReserved : event.reserved = []) (hReleased : event.released = []) :
    Accounts site event site' where
  leases := by
    rw [hReserved, hReleased, JobSystem.holdings, JobSystem.holdings, hLeases, hResults]
  charged := by
    rw [hReserved, hReleased, hEnv]
    rfl
  limit := by rw [hEnv]
  within := fun hSome => absurd hReserved hSome

theorem accounts_submitInput (h : site.Sound) {path : SubmitPath} {request : JobRequest}
    {input : List UInt8} {outputCapacity : Nat} {result : Except KernelError JobHandle}
    {env : Environment} {state : SchedulerState}
    (hSubmit : Job.submitInput site.system.config path request input outputCapacity site.env
      site.system.state = (result, env, state)) :
    Accounts site (.submitted input outputCapacity result)
      ⟨env, { site.system with state := state }⟩ := by
  rcases submitInput_cases site.system.config path request input outputCapacity site.env
    site.system.state with ⟨failure, hCase⟩ | ⟨-, -, -, hLimit, hCase⟩
  · cases hSubmit.symm.trans hCase
    exact accounts_quiet rfl rfl rfl rfl rfl
  · cases hSubmit.symm.trans hCase
    have hFresh : site.system.state.jobs.get site.env.nextJob = none := by
      by_contra hSome
      apply Nat.lt_irrefl site.env.nextJob
      apply h.fresh
      rw [SchedulerState.phase, Ne, Option.map_eq_none_iff]
      exact hSome
    have hCharge : chargeOf [(site.env.nextJob, input.length + outputCapacity)] =
        input.length + outputCapacity := List.sum_singleton
    exact
      { leases := by
          show ((leasesOf (site.system.state.jobs.put _ _) ++ _) ++ []).Perm _
          rw [Table.put_absent hFresh, leasesOf_insert, List.append_nil, List.append_assoc]
          rw [JobSystem.holdings, List.append_assoc]
          exact List.Perm.append_left _ List.perm_append_comm
        charged := by
          show _ = site.env.budget.charged +
            chargeOf [(site.env.nextJob, input.length + outputCapacity)] - 0
          rw [hCharge]
          rfl
        limit := rfl
        within := by
          intro _
          show site.env.budget.charged +
            chargeOf [(site.env.nextJob, input.length + outputCapacity)] ≤ _
          rw [hCharge]
          exact hLimit }

/-- The lease of a record goes to its result. -/
theorem accounts_takeResult {handle : JobHandle} {result : Except KernelError JobResult}
    {state : SchedulerState} (hTake : site.system.takeResult handle = (result, state)) :
    Accounts site (.reaped handle.id result)
      { site with system :=
        { site.system with
          state := state
          results := site.system.results ++ result.toOption.toList } } := by
  rcases site.system.takeResult_cases handle with
    ⟨failure, hCase⟩ | ⟨record, hRecord, -, hCase⟩
  · cases hTake.symm.trans hCase
    exact accounts_quiet rfl (List.append_nil _) rfl rfl rfl
  · cases hTake.symm.trans hCase
    exact
      { leases := by
          show ((leasesOf (site.system.state.jobs.erase handle.id) ++
            (site.system.results ++ [_]).map JobResult.lease) ++ []).Perm
            ((leasesOf site.system.state.jobs ++ _) ++ [])
          rw [List.append_nil, List.append_nil, List.map_append, ← List.append_assoc]
          apply List.perm_append_comm.trans
          rw [List.map_singleton, ← List.append_assoc]
          apply List.Perm.append_right
          exact List.perm_append_comm.trans (leasesOf_erase hRecord)
        charged := rfl
        limit := rfl
        within := fun hSome => absurd rfl hSome }

theorem accounts_dropResult {before after : List JobResult} {result : JobResult}
    (hResults : site.system.results = before ++ result :: after) :
    Accounts site (.dropped result)
      ⟨site.env.release result.reservation, { site.system with results := before ++ after }⟩ := by
  exact
    { leases := by
        show ((leasesOf site.system.state.jobs ++ (before ++ after).map JobResult.lease) ++
          [result.lease]).Perm ((leasesOf site.system.state.jobs ++ _) ++ [])
        rw [hResults, List.append_nil, List.append_assoc]
        apply List.Perm.append_left
        rw [List.map_append, List.map_append, List.map_cons]
        apply List.perm_append_comm.trans
        rw [List.singleton_append]
        exact List.perm_middle.symm
      charged := by
        show site.env.budget.charged - result.reservation =
          site.env.budget.charged + 0 - chargeOf [result.lease]
        rfl
      limit := rfl
      within := fun hSome => absurd rfl hSome }

/-- The records that are left are released all at once. -/
theorem accounts_destroyClear (site : Site) (calls : Nat → CloseCall) :
    Accounts site (.destroyed (leasesOf site.system.state.jobs) (.ok ()))
      ⟨site.env.release (chargeOf (leasesOf site.system.state.jobs)),
        { site.system with state := site.system.state.clear, calls := calls }⟩ := by
  exact
    { leases := by
        show (site.system.results.map JobResult.lease ++
          leasesOf site.system.state.jobs).Perm ((_ ++ _) ++ [])
        rw [List.append_nil]
        exact List.perm_append_comm
      charged := rfl
      limit := rfl
      within := fun hSome => absurd rfl hSome }

theorem Step.accounts (h : site.Sound) (hStep : Step site event site') (hHere : event ≠ .elsewhere) :
    Accounts site event site' := by
  cases hStep with
  | submitInput path request input outputCapacity result env state hSubmit =>
      exact accounts_submitInput h hSubmit
  | takeWork work state hTake =>
      rcases SchedulerState.takeWork_eq h.state site.system.config.maxRunning with hCase |
        ⟨id, rest, record, -, -, -, -, -, hCase⟩
      · cases hTake.symm.trans hCase
        exact accounts_quiet rfl rfl rfl rfl rfl
      · cases hTake.symm.trans hCase
        exact accounts_quiet (SchedulerState.leasesOf_modify _ _ fun _ => rfl) rfl rfl rfl rfl
  | finish before after work cancelled exceeded now run hWorks =>
      have hPhase := (h.working work.id).mp (by simp [hWorks])
      refine accounts_quiet ?_ rfl rfl rfl rfl
      rw [SchedulerState.finish_eq hPhase]
      exact SchedulerState.leasesOf_modify _ _ fun record => finished_reservation record _ _ _
  | cancel handle =>
      refine accounts_quiet ?_ rfl rfl rfl rfl
      show leasesOf (JobSystem.cancel site.system handle).2.jobs = _
      rcases JobSystem.cancel_cases h.state handle with ⟨failure, hCase⟩ | ⟨phase, hCase⟩ |
        ⟨-, hCase⟩ | ⟨-, -, hJobs, -⟩
      · rw [hCase]
      · rw [hCase]
      · rw [hCase]
        exact SchedulerState.leasesOf_modify _ _ fun _ => rfl
      · rw [hJobs]
        exact SchedulerState.leasesOf_modify _ _ fun _ => rfl
  | cancelRequested => exact accounts_quiet (SchedulerState.stop_spec h.state).2.2.2.2.1 rfl rfl rfl rfl
  | closeStop call destroys hCall =>
      exact accounts_quiet (SchedulerState.stop_spec h.state).2.2.2.2.1 rfl rfl rfl rfl
  | drainCompletions room =>
      obtain ⟨completions, -, -, -, hState⟩ := SchedulerState.drainCompletions_spec h.state room
      refine accounts_quiet ?_ rfl rfl rfl rfl
      rw [hState]
  | takeResult handle result state hTake => exact accounts_takeResult hTake
  | dropResult before after result hResults => exact accounts_dropResult hResults
  | destroyClear call hCall => exact accounts_destroyClear site _
  | elsewhere env hNext => exact absurd rfl hHere
  | _ => exact accounts_quiet rfl rfl rfl rfl rfl

end Site
/-! The systems over one budget. -/

structure World where
  env : Environment
  systems : List JobSystem

def World.new (maxNativeBytes nextJob : Nat) : World := ⟨⟨.new maxNativeBytes, nextJob⟩, []⟩

/-- Any system takes a step, or a new one is created. The systems of other contexts
share the counter of jobs. -/
inductive World.Step : World → Option (Nat × JobEvent) → World → Prop where
  | within (env env' : Environment) (before after : List JobSystem) (system system' : JobSystem)
      (event : JobEvent) (hStep : Site.Step ⟨env, system⟩ event ⟨env', system'⟩)
      (hHere : event ≠ .elsewhere) :
      Step ⟨env, before ++ system :: after⟩ (some (before.length, event))
        ⟨env', before ++ system' :: after⟩
  | create (world : World) (config : JobConfig) :
      Step world none { world with systems := world.systems ++ [.create config] }
  | elsewhere (world : World) (nextJob : Nat) (hNext : world.env.nextJob ≤ nextJob) :
      Step world none { world with env := { world.env with nextJob := nextJob } }

def World.holdings (world : World) : List (JobId × Nat) :=
  world.systems.flatMap JobSystem.holdings

/-- The leases that a trace has taken. -/
def reservedIn (trace : List (Option (Nat × JobEvent))) : List (JobId × Nat) :=
  trace.flatMap fun label => (label.map fun entry => entry.2.reserved).getD []

/-- The leases that a trace has given back. -/
def releasedIn (trace : List (Option (Nat × JobEvent))) : List (JobId × Nat) :=
  trace.flatMap fun label => (label.map fun entry => entry.2.released).getD []

namespace World

/-- The charge is exact, and every lease was taken once and is held or was given back once. -/
structure Sound (maxNativeBytes : Nat) (trace : List (Option (Nat × JobEvent))) (world : World) :
    Prop where
  systems : ∀ system ∈ world.systems, Site.Sound ⟨world.env, system⟩
  leases : (world.holdings ++ releasedIn trace).Perm (reservedIn trace)
  distinct : ((reservedIn trace).map Prod.fst).Nodup
  bounded : ∀ lease ∈ reservedIn trace, lease.1 < world.env.nextJob
  charged : world.env.budget.charged = chargeOf world.holdings
  limit : world.env.budget.limit = maxNativeBytes
  within : world.env.budget.charged ≤ maxNativeBytes

theorem sound_new (maxNativeBytes nextJob : Nat) :
    Sound maxNativeBytes [] (.new maxNativeBytes nextJob) where
  systems := fun _ hMem => absurd hMem List.not_mem_nil
  leases := List.Perm.nil
  distinct := List.nodup_nil
  bounded := fun _ hMem => absurd hMem List.not_mem_nil
  charged := rfl
  limit := rfl
  within := Nat.zero_le _

/-- A later counter and another budget leave a system sound. -/
theorem sound_env {env env' : Environment} {system : JobSystem} (h : Site.Sound ⟨env, system⟩)
    (hNext : env.nextJob ≤ env'.nextJob) : Site.Sound ⟨env', system⟩ :=
  (Site.Step.effect h (.elsewhere _ env' hNext)).1

theorem holdings_middle (env : Environment) (before after : List JobSystem) (system : JobSystem) :
    World.holdings ⟨env, before ++ system :: after⟩ =
      before.flatMap JobSystem.holdings ++
        (system.holdings ++ after.flatMap JobSystem.holdings) := by
  rw [World.holdings, List.flatMap_append, List.flatMap_cons]

theorem reserved_entered (event : JobEvent) : event.reserved.map Prod.fst = event.entered := by
  cases event with
  | submitted input outputCapacity result =>
      cases result with
      | ok handle => rfl
      | error failure => rfl
  | _ => rfl

@[simp] theorem reservedIn_snoc (trace : List (Option (Nat × JobEvent))) (index : Nat)
    (event : JobEvent) :
    reservedIn (trace ++ [some (index, event)]) = reservedIn trace ++ event.reserved := by
  simp [reservedIn]

@[simp] theorem releasedIn_snoc (trace : List (Option (Nat × JobEvent))) (index : Nat)
    (event : JobEvent) :
    releasedIn (trace ++ [some (index, event)]) = releasedIn trace ++ event.released := by
  simp [releasedIn]

@[simp] theorem reservedIn_none (trace : List (Option (Nat × JobEvent))) :
    reservedIn (trace ++ [none]) = reservedIn trace := by
  simp [reservedIn]

@[simp] theorem releasedIn_none (trace : List (Option (Nat × JobEvent))) :
    releasedIn (trace ++ [none]) = releasedIn trace := by
  simp [releasedIn]

variable {maxNativeBytes : Nat} {trace : List (Option (Nat × JobEvent))} {world world' : World}

/-- A step that no system takes part in. -/
theorem Sound.unlabelled (h : Sound maxNativeBytes trace world)
    (hSystems : ∀ system ∈ world'.systems, Site.Sound ⟨world'.env, system⟩)
    (hHoldings : world'.holdings = world.holdings) (hBudget : world'.env.budget = world.env.budget)
    (hNext : world.env.nextJob ≤ world'.env.nextJob) :
    Sound maxNativeBytes (trace ++ [none]) world' where
  systems := hSystems
  leases := by
    rw [hHoldings, reservedIn_none, releasedIn_none]
    exact h.leases
  distinct := by
    rw [reservedIn_none]
    exact h.distinct
  bounded := by
    rw [reservedIn_none]
    exact fun lease hMem => Nat.lt_of_lt_of_le (h.bounded lease hMem) hNext
  charged := by
    rw [hBudget, hHoldings]
    exact h.charged
  limit := hBudget ▸ h.limit
  within := hBudget ▸ h.within

theorem Sound.within_system {env env' : Environment} {before after : List JobSystem}
    {system system' : JobSystem} {event : JobEvent}
    (h : Sound maxNativeBytes trace ⟨env, before ++ system :: after⟩)
    (hSite : Site.Step ⟨env, system⟩ event ⟨env', system'⟩) (hHere : event ≠ .elsewhere) :
    Sound maxNativeBytes (trace ++ [some (before.length, event)])
      ⟨env', before ++ system' :: after⟩ := by
  have hSystem := h.systems system (by simp)
  obtain ⟨hLeases, hCharged, hLimit, hWithin⟩ := hSite.accounts hSystem hHere
  obtain ⟨hNext, hEntered, hOnce, -⟩ := hSite.counts
  have hOld := h.charged
  have hSums := chargeOf_perm hLeases
  rw [chargeOf_append, chargeOf_append] at hSums
  rw [holdings_middle, chargeOf_append, chargeOf_append] at hOld
  simp only at hCharged hOld hLimit hWithin hSums
  have hNew : env'.budget.charged =
      chargeOf (World.holdings ⟨env', before ++ system' :: after⟩) := by
    rw [holdings_middle, chargeOf_append, chargeOf_append]
    omega
  exact
    { systems := by
        intro other hMem
        rcases List.mem_append.mp hMem with hBefore | hRest
        · exact sound_env (h.systems other (by simp [hBefore])) hNext
        · rcases List.mem_cons.mp hRest with rfl | hAfter
          · exact (hSite.effect hSystem).1
          · exact sound_env (h.systems other (by simp [hAfter])) hNext
      leases := by
        rw [reservedIn_snoc, releasedIn_snoc, List.perm_iff_count]
        intro lease
        have hStepCount := hLeases.count_eq lease
        have hOldCount := h.leases.count_eq lease
        simp only [holdings_middle, List.count_append] at hStepCount hOldCount ⊢
        omega
      distinct := by
        rw [reservedIn_snoc, List.map_append, reserved_entered]
        apply nodup_snoc h.distinct hOnce
        intro id hEnters hKnown
        obtain ⟨lease, hLease, rfl⟩ := List.mem_map.mp hKnown
        have hBound := h.bounded lease hLease
        rw [(hEntered _ hEnters).1] at hBound
        exact Nat.lt_irrefl _ hBound
      bounded := by
        intro lease hMem
        rw [reservedIn_snoc, List.mem_append] at hMem
        rcases hMem with hMem | hMem
        · exact Nat.lt_of_lt_of_le (h.bounded lease hMem) hNext
        · have hEnters : lease.1 ∈ event.entered := by
            rw [← reserved_entered]
            exact List.mem_map_of_mem hMem
          obtain ⟨hSame, hLess⟩ := hEntered _ hEnters
          rw [hSame]
          exact hLess
      charged := hNew
      limit := hLimit.trans h.limit
      within := by
        show env'.budget.charged ≤ maxNativeBytes
        have hBefore := h.within
        have hSameLimit := h.limit
        simp only at hBefore hSameLimit
        by_cases hNone : event.reserved = []
        · rw [hNone] at hCharged
          have hZero : chargeOf [] = 0 := rfl
          omega
        · have hRoom := hWithin hNone
          omega }

theorem Sound.step {label : Option (Nat × JobEvent)} (h : Sound maxNativeBytes trace world)
    (hStep : Step world label world') : Sound maxNativeBytes (trace ++ [label]) world' := by
  cases hStep with
  | within env env' before after system system' event hSite hHere =>
      exact h.within_system hSite hHere
  | elsewhere _ nextJob hNext =>
      exact h.unlabelled (fun system hMem => sound_env (h.systems system hMem) hNext) rfl rfl hNext
  | create _ config =>
      refine h.unlabelled ?_ ?_ rfl (Nat.le_refl _)
      · intro system hMem
        rcases List.mem_append.mp hMem with hOld | hNew
        · exact h.systems system hOld
        · rw [List.mem_singleton.mp hNew]
          exact Site.sound_create config world.env
      · rw [World.holdings, World.holdings, List.flatMap_append]
        exact List.append_nil _

theorem sound_run {nextJob : Nat} (run : Run Step (.new maxNativeBytes nextJob) trace world) :
    Sound maxNativeBytes trace world :=
  run.invariant (Sound maxNativeBytes) (sound_new maxNativeBytes nextJob)
    fun _ _ _ _ h hStep => h.step hStep

/-- A submission that fails changes nothing at all. -/
theorem submit_failed {index : Nat} {input : List UInt8} {outputCapacity : Nat}
    {failure : KernelError}
    (hStep : Step world (some (index, .submitted input outputCapacity (.error failure))) world') :
    world' = world := by
  generalize hLabel : some (index, JobEvent.submitted input outputCapacity (.error failure)) = label
    at hStep
  cases hStep with
  | create _ config => cases hLabel
  | elsewhere _ nextJob hNext => cases hLabel
  | within env env' before after system system' event hSite hHere =>
      cases hLabel
      generalize hEvent : JobEvent.submitted input outputCapacity (.error failure) = event at hSite
      generalize hTarget : Site.mk env' system' = target at hSite
      cases hSite with
      | submitInput path request input outputCapacity result env'' state hSubmit =>
          rcases Site.submitInput_cases system.config path request input outputCapacity env
            system.state with ⟨failure, hCase⟩ | ⟨-, -, -, -, hCase⟩
          · cases hSubmit.symm.trans hCase
            cases hTarget
            rfl
          · cases hSubmit.symm.trans hCase
            cases hEvent
      | _ => cases hEvent

/-- No release saturates: what is given back is charged. -/
theorem Sound.release_le {index : Nat} {event : JobEvent} (h : Sound maxNativeBytes trace world)
    (hStep : Step world (some (index, event)) world') :
    chargeOf event.released ≤ world.env.budget.charged := by
  generalize hLabel : some (index, event) = label at hStep
  cases hStep with
  | create _ config => cases hLabel
  | elsewhere _ nextJob hNext => cases hLabel
  | within env env' before after system system' event hSite hHere =>
      cases hLabel
      have hOld := h.charged
      have hLeases := (hSite.accounts (h.systems system (by simp)) hHere).leases
      have hSums := chargeOf_perm hLeases
      rw [chargeOf_append, chargeOf_append] at hSums
      rw [holdings_middle, chargeOf_append, chargeOf_append] at hOld
      simp only at hOld hSums ⊢
      by_cases hNone : event.reserved = []
      · rw [hNone] at hSums
        have hZero : chargeOf [] = 0 := rfl
        omega
      · have hReleased : event.released = [] := by
          cases event with
          | submitted => rfl
          | _ => exact absurd rfl hNone
        rw [hReleased]
        exact Nat.zero_le _

/-- A system that was destroyed holds no record again. -/
def Emptied (index : Nat) (world : World) : Prop :=
  ∃ system, world.systems[index]? = some system ∧ system.state.accepting = false ∧
    system.state.jobs = .empty

theorem Emptied.step {index : Nat} {label : Option (Nat × JobEvent)} (h : Emptied index world)
    (hSound : Sound maxNativeBytes trace world) (hStep : Step world label world') :
    Emptied index world' := by
  obtain ⟨found, hFound, hAccepting, hJobs⟩ := h
  cases hStep with
  | create _ config =>
      refine ⟨found, ?_, hAccepting, hJobs⟩
      have hBound := (List.getElem?_eq_some_iff.mp hFound).1
      show (world.systems ++ _)[index]? = _
      rw [List.getElem?_append_left hBound]
      exact hFound
  | elsewhere _ nextJob hNext => exact ⟨found, hFound, hAccepting, hJobs⟩
  | within env env' before after system system' event hSite hHere =>
      by_cases hIndex : index = before.length
      · subst hIndex
        have hSame : system = found := by simpa using hFound
        subst hSame
        have hSystem := hSound.systems system (by simp)
        obtain ⟨hClosed, -⟩ := hSite.stopped hSystem hAccepting
        obtain ⟨hAfter, hEffect⟩ := hSite.effect hSystem
        refine ⟨system', by simp, hClosed, Table.eq_empty fun id => ?_⟩
        have hMoves := hEffect.moves id
        have hNone : system.state.phase id = none := by
          rw [SchedulerState.phase, hJobs]
          rfl
        simp only [hNone] at hMoves
        by_cases hEnters : id ∈ event.entered
        · have hQueued := hMoves.of_entered hEnters
          rw [← hAfter.state.queued, hAfter.state.stopped hClosed] at hQueued
          cases hQueued
        · exact Option.map_eq_none_iff.mp (hMoves.of_none hEnters)
      · refine ⟨found, ?_, hAccepting, hJobs⟩
        show (before ++ system' :: after)[index]? = _
        rw [← hFound]
        show _ = (before ++ system :: after)[index]?
        rw [List.getElem?_append, List.getElem?_append]
        split_ifs with hLess
        · rfl
        · obtain ⟨k, hk⟩ : ∃ k, index - before.length = k + 1 :=
            ⟨index - before.length - 1, by omega⟩
          rw [hk]
          rfl

theorem emptied_destroy {index : Nat} {leases : List (JobId × Nat)}
    (h : Sound maxNativeBytes trace world)
    (hStep : Step world (some (index, .destroyed leases (.ok ()))) world') :
    Emptied index world' := by
  generalize hLabel : some (index, JobEvent.destroyed leases (.ok ())) = label at hStep
  cases hStep with
  | create _ config => cases hLabel
  | elsewhere _ nextJob hNext => cases hLabel
  | within env env' before after system system' event hSite hHere =>
      cases hLabel
      have hSystem := h.systems system (by simp)
      generalize hEvent : JobEvent.destroyed leases (.ok ()) = event at hSite
      generalize hTarget : Site.mk env' system' = target at hSite
      cases hSite with
      | destroyClear call hCall =>
          cases hTarget
          have hFenced := hSystem.calls call
          rw [hCall] at hFenced
          have hThere : ∀ other : JobSystem,
              (before ++ other :: after)[before.length]? = some other := fun _ => by simp
          exact ⟨_, hThere _, hFenced.1, rfl⟩
      | _ => cases hEvent

end World

/-- The byte budget that job systems share is charged exactly for what they own: the
charge is the sum of all held leases, every lease is taken once and given back at most
once, and a destroyed system leaves only the results of its callers charged. -/
theorem budget_exact {maxNativeBytes nextJob : Nat} {trace : List (Option (Nat × JobEvent))}
    {world : World} (run : Run World.Step (.new maxNativeBytes nextJob) trace world) :
    world.env.budget.charged = chargeOf world.holdings ∧
    world.env.budget.charged ≤ maxNativeBytes ∧
    (world.holdings ++ releasedIn trace).Perm (reservedIn trace) ∧
    ((reservedIn trace).map Prod.fst).Nodup ∧
    (∀ index event world', World.Step world (some (index, event)) world' →
      chargeOf event.released ≤ world.env.budget.charged ∧
      ∀ input outputCapacity failure,
        event = .submitted input outputCapacity (.error failure) → world' = world) ∧
    (∀ system ∈ world.systems, ∀ work ∈ system.works, ∃ record,
      system.state.jobs.get work.id = some record ∧ record.state = .running ∧
        (work.id, record.reservation) ∈ world.holdings) ∧
    ∀ before index leases after, trace = before ++ some (index, .destroyed leases (.ok ())) :: after →
      ∃ system, world.systems[index]? = some system ∧ system.state.jobs = .empty ∧
        system.holdings = system.results.map JobResult.lease := by
  have hSound := World.sound_run run
  refine ⟨hSound.charged, hSound.within, hSound.leases, hSound.distinct, ?_, ?_, ?_⟩
  · intro index event world' hStep
    refine ⟨hSound.release_le hStep, ?_⟩
    rintro input outputCapacity failure rfl
    exact World.submit_failed hStep
  · intro system hSystem work hWork
    have hPhase := ((hSound.systems system hSystem).working work.id).mp
      (List.mem_map_of_mem hWork)
    obtain ⟨record, hRecord, hRunning⟩ := SchedulerState.phase_eq_some.mp hPhase
    refine ⟨record, hRecord, hRunning, ?_⟩
    apply List.mem_flatMap.mpr
    refine ⟨system, hSystem, List.mem_append_left _ ?_⟩
    exact mem_leasesOf hRecord
  · rintro before index leases after rfl
    obtain ⟨world₁, world₂, hBefore, hStep, hAfter⟩ := run.at
    have hSound₁ := World.sound_run hBefore
    have hEmptied : World.Emptied index world := by
      apply And.right (a := World.Sound maxNativeBytes
        (before ++ some (index, .destroyed leases (.ok ())) :: after) world)
      have hSuffix := hAfter.invariant (fun suffix world => World.Sound maxNativeBytes
        ((before ++ [some (index, .destroyed leases (.ok ()))]) ++ suffix) world ∧
          World.Emptied index world)
        ⟨by simpa using hSound₁.step hStep, World.emptied_destroy hSound₁ hStep⟩
        fun suffix world label world' h hNext =>
          ⟨List.append_assoc _ _ _ ▸ h.1.step hNext, h.2.step h.1 hNext⟩
      simpa using hSuffix
    obtain ⟨system, hSystem, -, hJobs⟩ := hEmptied
    refine ⟨system, hSystem, hJobs, ?_⟩
    rw [JobSystem.holdings, hJobs]
    rfl

/-- A system on a budget of eight bytes, with one job of three. -/
theorem budget_exact_one :
    ∃ world : World, world.env.budget.charged = 3 ∧ chargeOf world.holdings = 3 := by
  have run := Run.snoc (Run.snoc (Run.nil (World.new 8 0)) (World.Step.create _ ⟨1, ⟨1⟩, 1, 1, 1⟩))
    (World.Step.within ⟨.new 8, 0⟩ _ [] [] _ _ _
      (Site.Step.submitInput _ ⟨.ok (), true, true, true⟩ ⟨7, .none⟩ [1, 2] 1 _ _ _ rfl)
      (fun hEvent => by cases hEvent))
  exact ⟨_, rfl, (budget_exact run).1.symm⟩

end Job

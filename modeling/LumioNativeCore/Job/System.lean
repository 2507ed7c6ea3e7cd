import LumioNativeCore.Job.Worker
import LumioNativeCore.Kernel.Ids
import LumioNativeCore.Library.Run

/-! A job system with its callers: the works that are being executed, the results
that callers hold and the close calls in progress. Every step is one section under
the scheduler lock; kernels run between the steps.

The byte budget and the job counter are shared with other systems. -/
namespace Job

open Kernel

/-- What the systems of a process share. -/
structure Environment where
  budget : MemoryBudget
  nextJob : Nat
  deriving DecidableEq, Repr

/-- `next_id` on the counter of jobs. -/
def Environment.nextId (env : Environment) : Except KernelError (JobId × Environment) :=
  match Word.checkedAdd Word.max64 env.nextJob 1 with
  | none => .error (error .capacityExceeded)
  | some next => .ok (env.nextJob, { env with nextJob := next })

/-- It is one draw from the counter. -/
theorem Environment.nextId_eq (env : Environment) :
    env.nextId = (Kernel.nextId.serve env.nextJob ()).1.map fun id =>
      (id, { env with nextJob := (Kernel.nextId.serve env.nextJob ()).2 }) := by
  rw [nextId]
  cases hNext : Word.checkedAdd Word.max64 env.nextJob 1 with
  | none =>
      rw [Kernel.nextId.serve_of_none hNext]
      rfl
  | some next =>
      rw [Kernel.nextId.serve_of_next hNext]
      rfl

def Environment.release (env : Environment) (bytes : Nat) : Environment :=
  { env with budget := env.budget.release bytes }

/-- What `submit_input` meets outside the scheduler: the admission guard of the
context, the registry of operations and the allocator. -/
structure SubmitPath where
  admission : Except KernelError Unit
  registered : Bool
  allocatesInput : Bool
  allocatesOutput : Bool

def JobRecord.submitted (request : JobRequest) (input output : List UInt8) (reservation : Nat) :
    JobRecord where
  request := request
  state := .queued
  cancelled := false
  input := input
  output := output
  outputLen := 0
  error := none
  deadlineExceeded := false
  reservation := reservation

/-- From the reservation to the publication. An early return drops the reservation. -/
def publish (config : JobConfig) (path : SubmitPath) (request : JobRequest) (input : List UInt8)
    (outputCapacity : Nat) (env : Environment) (state : SchedulerState) :
    Except KernelError JobHandle × Environment × SchedulerState :=
  let bytes := input.length + outputCapacity
  match env.budget.tryReserve bytes with
  | .error failure => (.error failure, env, state)
  | .ok budget =>
      let reserved := { env with budget := budget }
      match SchedulerState.zeroed path.allocatesInput input.length with
      | .error failure => (.error failure, reserved.release bytes, state)
      | .ok _ =>
          match SchedulerState.zeroed path.allocatesOutput outputCapacity with
          | .error failure => (.error failure, reserved.release bytes, state)
          | .ok output =>
              match reserved.nextId with
              | .error failure => (.error failure, reserved.release bytes, state)
              | .ok (id, env) =>
                  (.ok ⟨id, config.systemId, config.contextKey⟩, env,
                    { state with
                      jobs := state.jobs.put id (JobRecord.submitted request input output bytes)
                      queue := state.queue ++ [id] })

def submitInput (config : JobConfig) (path : SubmitPath) (request : JobRequest)
    (input : List UInt8) (outputCapacity : Nat) (env : Environment) (state : SchedulerState) :
    Except KernelError JobHandle × Environment × SchedulerState :=
  match path.admission with
  | .error failure => (.error failure, env, state)
  | .ok _ =>
      if !state.accepting then (.error (error .contextClosing), env, state)
      else if state.queue.length ≥ config.queueCapacity ∨ state.jobs.size ≥ config.maxLive then
        (.error (error .capacityExceeded), env, state)
      else if !path.registered then (.error (error .capabilityUnavailable), env, state)
      else
        match Word.checkedAdd Word.max64 input.length outputCapacity with
        | none => (.error (error .capacityExceeded), env, state)
        | some _ => publish config path request input outputCapacity env state

def validateHandle (config : JobConfig) (handle : JobHandle) : Except KernelError Unit :=
  if handle.context ≠ config.contextKey then .error (error .wrongContext)
  else if handle.system ≠ config.systemId then .error (error .invalidHandle)
  else .ok ()

/-- How far a call of `quiesce` or of `destroy` has come. -/
inductive CloseCall where
  | idle
  | stopped (destroys : Bool)
  | observed (destroys : Bool) (running : Nat)
  | joining
  deriving DecidableEq, Repr

structure JobSystem where
  config : JobConfig
  state : SchedulerState
  works : List Work
  results : List JobResult
  calls : Nat → CloseCall

namespace JobSystem

def create (config : JobConfig) : JobSystem where
  config := config
  state := .new
  works := []
  results := []
  calls := fun _ => .idle

def cancel (system : JobSystem) (handle : JobHandle) :
    Except KernelError CancelOutcome × SchedulerState :=
  match validateHandle system.config handle with
  | .error failure => (.error failure, system.state)
  | .ok _ => system.state.cancel handle.id

def takeResult (system : JobSystem) (handle : JobHandle) :
    Except KernelError JobResult × SchedulerState :=
  match validateHandle system.config handle with
  | .error failure => (.error failure, system.state)
  | .ok _ => system.state.takeResult handle.id

/-- `quiesce` reports what it found, with the workers that have not left. -/
def quiesceState (running workers : Nat) : QuiesceState :=
  if running + workers = 0 then .quiesced else .pending (min (running + workers) Word.max32)

end JobSystem

/-- A section under the lock, or a caller that drops a result. -/
inductive JobEvent where
  | submitted (input : List UInt8) (outputCapacity : Nat) (result : Except KernelError JobHandle)
  | taken (work : Option Work)
  | finished (id : JobId) (state : JobState)
  | cancelReplied (id : JobId) (result : Except KernelError CancelOutcome)
  | stopped (ids : List JobId)
  | drained (completions : Option (List JobCompletion))
  | reaped (id : JobId) (result : Except KernelError JobResult)
  | dropped (result : JobResult)
  | observed (running : Nat)
  | quiesced (reply : QuiesceState)
  | destroying
  | destroyed (leases : List (JobId × Nat)) (reply : Except KernelError Unit)
  | elsewhere

structure Site where
  env : Environment
  system : JobSystem

/-- The bytes that the records of a table hold, job by job. -/
def leasesOf (jobs : Table JobId JobRecord) : List (JobId × Nat) :=
  jobs.entries.map fun entry => (entry.1, entry.2.reservation)

def chargeOf (leases : List (JobId × Nat)) : Nat := (leases.map Prod.snd).sum

def finalState : Except KernelError Nat → JobState
  | .ok _ => .succeeded
  | .error failure => failureState failure

/-- The steps of one system. `elsewhere` is whatever other systems do to what is shared. -/
inductive Site.Step : Site → JobEvent → Site → Prop where
  | submitInput (site : Site) (path : SubmitPath) (request : JobRequest) (input : List UInt8)
      (outputCapacity : Nat) (result : Except KernelError JobHandle) (env : Environment)
      (state : SchedulerState)
      (hSubmit : Job.submitInput site.system.config path request input outputCapacity site.env
        site.system.state = (result, env, state)) :
      Step site (.submitted input outputCapacity result)
        ⟨env, { site.system with state := state }⟩
  | takeWork (site : Site) (work : Option Work) (state : SchedulerState)
      (hTake : site.system.state.takeWork site.system.config.maxRunning = (work, state)) :
      Step site (.taken work)
        { site with system :=
          { site.system with state := state, works := site.system.works ++ work.toList } }
  | finish (site : Site) (before after : List Work) (work : Work) (cancelled exceeded : Bool)
      (now : Nat) (run : Option (KernelRun work))
      (hWorks : site.system.works = before ++ work :: after) :
      Step site (.finished work.id (finalState (work.outcome cancelled now run).1))
        { site with system :=
          { site.system with
            state := site.system.state.finish work.id (work.outcome cancelled now run).2 exceeded
              (work.outcome cancelled now run).1
            works := before ++ after } }
  | cancel (site : Site) (handle : JobHandle) :
      Step site (.cancelReplied handle.id (site.system.cancel handle).1)
        { site with system := { site.system with state := (site.system.cancel handle).2 } }
  | cancelRequested (site : Site) :
      Step site (.stopped site.system.state.queue)
        { site with system := { site.system with state := site.system.state.stop } }
  | drainCompletions (site : Site) (room : Nat) :
      Step site (.drained (site.system.state.drainCompletions room).1)
        { site with system :=
          { site.system with state := (site.system.state.drainCompletions room).2 } }
  | takeResult (site : Site) (handle : JobHandle) (result : Except KernelError JobResult)
      (state : SchedulerState) (hTake : site.system.takeResult handle = (result, state)) :
      Step site (.reaped handle.id result)
        { site with system :=
          { site.system with
            state := state
            results := site.system.results ++ result.toOption.toList } }
  | dropResult (site : Site) (before after : List JobResult) (result : JobResult)
      (hResults : site.system.results = before ++ result :: after) :
      Step site (.dropped result)
        ⟨site.env.release result.reservation, { site.system with results := before ++ after }⟩
  | closeStop (site : Site) (call : Nat) (destroys : Bool)
      (hCall : site.system.calls call = .idle) :
      Step site (.stopped site.system.state.queue)
        { site with system :=
          { site.system with
            state := site.system.state.stop
            calls := Function.update site.system.calls call (.stopped destroys) } }
  | closeObserve (site : Site) (call : Nat) (destroys : Bool)
      (hCall : site.system.calls call = .stopped destroys) :
      Step site (.observed site.system.state.running)
        { site with system :=
          { site.system with
            calls := Function.update site.system.calls call
              (.observed destroys site.system.state.running) } }
  | quiesceReturn (site : Site) (call running workers : Nat)
      (hCall : site.system.calls call = .observed false running) :
      Step site (.quiesced (JobSystem.quiesceState running workers))
        { site with system :=
          { site.system with calls := Function.update site.system.calls call .idle } }
  | destroyRefuse (site : Site) (call running workers : Nat)
      (hCall : site.system.calls call = .observed true running)
      (hBusy : JobSystem.quiesceState running workers ≠ .quiesced) :
      Step site (.destroyed [] (.error (error .contextClosing)))
        { site with system :=
          { site.system with calls := Function.update site.system.calls call .idle } }
  | destroyJoin (site : Site) (call running workers : Nat)
      (hCall : site.system.calls call = .observed true running)
      (hQuiet : JobSystem.quiesceState running workers = .quiesced) :
      Step site .destroying
        { site with system :=
          { site.system with calls := Function.update site.system.calls call .joining } }
  | destroyPanic (site : Site) (call : Nat) (hCall : site.system.calls call = .joining) :
      Step site (.destroyed [] (.error (error .panicBoundary)))
        { site with system :=
          { site.system with calls := Function.update site.system.calls call .idle } }
  | destroyClear (site : Site) (call : Nat) (hCall : site.system.calls call = .joining) :
      Step site (.destroyed (leasesOf site.system.state.jobs) (.ok ()))
        ⟨site.env.release (chargeOf (leasesOf site.system.state.jobs)),
          { site.system with
            state := site.system.state.clear
            calls := Function.update site.system.calls call .idle }⟩
  | elsewhere (site : Site) (env : Environment) (hNext : site.env.nextJob ≤ env.nextJob) :
      Step site .elsewhere { site with env := env }

end Job

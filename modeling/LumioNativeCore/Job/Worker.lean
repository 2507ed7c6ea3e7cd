import LumioNativeCore.Library.Table
import LumioNativeCore.Kernel.Context.Lifecycle
import LumioNativeCore.Kernel.Handle.Arena
import LumioNativeCore.Kernel.Memory.Budget

/-! Bounded executable jobs (`worker.rs`, `state.rs`): the sections that run under
the scheduler lock, each as a function of the state it finds. -/
namespace Job

open Kernel

abbrev JobId := Nat

abbrev OperationId := Nat

inductive JobState where
  | queued
  | running
  | succeeded
  | failed
  | cancelled
  | timedOut
  deriving DecidableEq, Repr

def JobState.isTerminal : JobState → Bool
  | .succeeded => true
  | .failed => true
  | .cancelled => true
  | _ => false

structure JobRequest where
  operation : OperationId
  deadline : Deadline
  deriving DecidableEq, Repr

structure JobHandle where
  id : JobId
  system : Nat
  context : ContextKey
  deriving DecidableEq, Repr

inductive CancelOutcome where
  | cancelled (previous : JobState)
  | requested
  | alreadyTerminal (state : JobState)
  deriving DecidableEq, Repr

/-- `reservation` is the number of bytes that the record's lease holds. -/
structure JobResult where
  id : JobId
  state : JobState
  deadlineExceeded : Bool
  error : Option KernelError
  output : List UInt8
  reservation : Nat
  deriving DecidableEq, Repr

/-- The control of a job is the token `cancelled` and the deadline of its request. -/
structure JobRecord where
  request : JobRequest
  state : JobState
  cancelled : Bool
  input : List UInt8
  output : List UInt8
  outputLen : Nat
  error : Option KernelError
  deadlineExceeded : Bool
  reservation : Nat
  deriving DecidableEq, Repr

structure JobCompletion where
  id : JobId
  state : JobState
  deriving DecidableEq, Repr

structure SchedulerState where
  accepting : Bool
  jobs : Table JobId JobRecord
  queue : List JobId
  ready : List JobId
  running : Nat

structure Work where
  id : JobId
  operation : OperationId
  deadline : Deadline
  input : List UInt8
  output : List UInt8
  deriving DecidableEq, Repr

/-- What does not change over the life of a system. -/
structure JobConfig where
  systemId : Nat
  contextKey : ContextKey
  queueCapacity : Nat
  maxLive : Nat
  maxRunning : Nat
  deriving DecidableEq, Repr

def SchedulerState.new : SchedulerState where
  accepting := true
  jobs := .empty
  queue := []
  ready := []
  running := 0

/-! `execute` before it takes the lock. -/

/-- A kernel writes into a slice and so cannot change its length. It returns a
result or panics. -/
structure KernelRun (work : Work) where
  output : List UInt8
  result : Option (Except KernelError Nat)
  sameLength : output.length = work.output.length

def checkCancelled (deadline : Deadline) (cancelled : Bool) (now : Nat) : Except KernelError Unit :=
  if deadline.isExpired now then .error (error .timedOut)
  else if cancelled then .error (error .cancelled)
  else .ok ()

/-- What the closure of `execute` comes to, and the output it leaves. There is no
`run` where the operation is not registered. -/
def Work.outcome (work : Work) (cancelled : Bool) (now : Nat) (run : Option (KernelRun work)) :
    Except KernelError Nat × List UInt8 :=
  match checkCancelled work.deadline cancelled now with
  | .error failure => (.error failure, work.output)
  | .ok _ =>
      match run with
      | none => (.error (error .capabilityUnavailable), work.output)
      | some run =>
          match run.result with
          | none => (.error (error .panicBoundary), run.output)
          | some (.error failure) => (.error failure, run.output)
          | some (.ok written) =>
              if written > run.output.length then (.error (error .internalInvariant), run.output)
              else (.ok written, run.output)

/-- The state in which a failed job ends. -/
def failureState (failure : KernelError) : JobState :=
  if failure.category = .cancelled ∨ failure.category = .timedOut then .cancelled else .failed

/-! The sections under the lock. -/

/-- The record of a job whose execution is over. -/
def JobRecord.finished (record : JobRecord) (output : List UInt8) (exceeded : Bool) :
    Except KernelError Nat → JobRecord
  | .ok written =>
      { record with
        output := output
        deadlineExceeded := exceeded
        outputLen := written
        state := .succeeded }
  | .error failure =>
      { record with
        output := output
        deadlineExceeded := exceeded
        state := failureState failure
        error := some failure }

def JobRecord.cancelQueued (record : JobRecord) : JobRecord :=
  { record with state := .cancelled, error := some (Kernel.error .cancelled) }

namespace SchedulerState

/-- The first job of the queue that is still queued, and what stays behind it. -/
def popQueued (jobs : Table JobId JobRecord) :
    List JobId → Option (JobId × JobRecord) × List JobId
  | [] => (none, [])
  | id :: rest =>
      match jobs.get id with
      | none => popQueued jobs rest
      | some record =>
          if record.state ≠ .queued then popQueued jobs rest else (some (id, record), rest)

def takeWork (maxRunning : Nat) (state : SchedulerState) : Option Work × SchedulerState :=
  if !state.accepting ∨ state.running ≥ maxRunning then (none, state)
  else
    match popQueued state.jobs state.queue with
    | (none, rest) => (none, { state with queue := rest })
    | (some (id, record), rest) =>
        (some ⟨id, record.request.operation, record.request.deadline, record.input,
            record.output⟩,
          { state with
            jobs := state.jobs.modify id fun record =>
              { record with state := .running, input := [], output := [] }
            queue := rest
            running := state.running + 1 })

/-- The section of `execute` under the lock. -/
def finish (id : JobId) (output : List UInt8) (exceeded : Bool) (outcome : Except KernelError Nat)
    (state : SchedulerState) : SchedulerState :=
  match state.jobs.get id with
  | none => { state with running := state.running - 1 }
  | some _ =>
      { state with
        jobs := state.jobs.modify id fun record =>
          record.finished output exceeded outcome
        ready := state.ready ++ [id]
        running := state.running - 1 }

/-- Cancel the jobs of the queue, from its front. -/
def cancelQueue : List JobId → SchedulerState → SchedulerState
  | [], state => { state with queue := [] }
  | id :: rest, state =>
      match state.jobs.get id with
      | none => cancelQueue rest { state with queue := rest }
      | some _ =>
          cancelQueue rest
            { state with
              jobs := state.jobs.modify id JobRecord.cancelQueued
              queue := rest
              ready := state.ready ++ [id] }

def stop (state : SchedulerState) : SchedulerState :=
  cancelQueue state.queue
    { state with
      accepting := false
      jobs := state.jobs.map fun record => { record with cancelled := true } }

/-- Any number of bytes of this length, or the allocator refuses. -/
def zeroed (allocates : Bool) (bytes : Nat) : Except KernelError (List UInt8) :=
  if allocates then .ok (List.replicate bytes 0) else .error (error .capacityExceeded)

def retain (ids : List JobId) (id : JobId) : List JobId := ids.filter (· ≠ id)

def cancel (id : JobId) (state : SchedulerState) :
    Except KernelError CancelOutcome × SchedulerState :=
  match state.jobs.get id with
  | none => (.error (error .invalidHandle), state)
  | some record =>
      if record.state.isTerminal then (.ok (.alreadyTerminal record.state), state)
      else if record.state = .running then
        (.ok .requested,
          { state with jobs := state.jobs.modify id fun record =>
              { record with cancelled := true } })
      else
        (.ok (.cancelled record.state),
          { state with
            jobs := state.jobs.modify id fun record =>
              JobRecord.cancelQueued { record with cancelled := true }
            queue := retain state.queue id
            ready := state.ready ++ [id] })

/-- The loop of `drain_completions` over the sorted ready list; `none` is a panic, where the
list is too short or a lookup fails. -/
def drainLoop (jobs : Table JobId JobRecord) :
    Nat → List JobId → Option (List JobCompletion) × List JobId
  | 0, ready => (some [], ready)
  | _ + 1, [] => (none, [])
  | count + 1, id :: rest =>
      match jobs.get id with
      | none => (none, rest)
      | some record =>
          let (completions, ready) := drainLoop jobs count rest
          (completions.map (⟨id, record.state⟩ :: ·), ready)

/-- `room` is the length of the caller's buffer. -/
def drainCompletions (room : Nat) (state : SchedulerState) :
    Option (List JobCompletion) × SchedulerState :=
  let sorted := state.ready.mergeSort (· ≤ ·)
  let (completions, ready) := drainLoop state.jobs (min room state.ready.length) sorted
  (completions, { state with ready := ready })

def takeResult (id : JobId) (state : SchedulerState) :
    Except KernelError JobResult × SchedulerState :=
  match state.jobs.get id with
  | none => (.error (error .invalidHandle), state)
  | some record =>
      if !record.state.isTerminal then (.error (error .invalidArgument), state)
      else
        (.ok ⟨id, record.state, record.deadlineExceeded, record.error,
            record.output.take record.outputLen, record.reservation⟩,
          { state with
            jobs := state.jobs.erase id
            ready := retain state.ready id })

/-- The last section of `destroy`. -/
def clear (state : SchedulerState) : SchedulerState :=
  { state with queue := [], ready := [], jobs := .empty }

end SchedulerState
end Job

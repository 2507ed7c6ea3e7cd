import LumioNativeCore.Library.Word

/-! Timer identities, budgets, records and bounded diagnostics (`ids.rs`,
`error.rs`). -/
namespace Timer

inductive TimerError where
  | staleHandle
  | scopeInvalid
  | scopeGenerationMismatch
  | invalidDueTick
  | invalidInterval
  | scheduleBudgetExceeded
  | slotClosed
  | slotUnbound
  | slotDispatchMismatch
  | slotQueueFull
  | lateCompletion
  | managerShutdown
  deriving DecidableEq, Repr

inductive TimerMode where
  | wallClock
  | tickFrame
  deriving DecidableEq, Repr

structure TimerLimits where
  maxActiveTimersPerScope : Nat
  maxSchedulesPerTick : Nat
  maxSchedulesPerPump : Nat
  deliveryQueueDepthPerSlot : Nat
  minIntervalTicks : Nat
  minIntervalMs : Nat
  deriving DecidableEq, Repr

def TimerLimits.contract : TimerLimits where
  maxActiveTimersPerScope := 1024
  maxSchedulesPerTick := 4096
  maxSchedulesPerPump := 4096
  deliveryQueueDepthPerSlot := 256
  minIntervalTicks := 1
  minIntervalMs := 1

def TimerLimits.validate (limits : TimerLimits) : Except TimerError Unit :=
  if limits.minIntervalTicks = 0 ∨ limits.minIntervalMs = 0 then .error .invalidInterval
  else if limits.maxActiveTimersPerScope = 0 ∨ limits.maxSchedulesPerTick = 0 ∨
      limits.maxSchedulesPerPump = 0 ∨ limits.deliveryQueueDepthPerSlot = 0 then
    .error .scheduleBudgetExceeded
  else .ok ()

/-- Manager-wide bounds, including tombstones, invalid queue entries and staging. -/
structure TimerBudget where
  maxScopes : Nat
  maxSlots : Nat
  maxTimers : Nat
  maxPendingRecords : Nat
  maxFiringsPerAdvance : Nat
  maxDiagnostics : Nat
  deriving DecidableEq, Repr

def TimerBudget.default : TimerBudget where
  maxScopes := 4096
  maxSlots := 4096
  maxTimers := 65536
  maxPendingRecords := 65536
  maxFiringsPerAdvance := 16384
  maxDiagnostics := 1024

def TimerBudget.validate (budget : TimerBudget) : Except TimerError Unit :=
  if budget.maxScopes = 0 ∨ budget.maxSlots = 0 ∨ budget.maxTimers = 0 ∨
      budget.maxSlots > Word.max32 ∨ budget.maxTimers > Word.max32 ∨
      budget.maxPendingRecords = 0 ∨ budget.maxPendingRecords > Word.max32 ∨
      budget.maxFiringsPerAdvance = 0 then
    .error .scheduleBudgetExceeded
  else .ok ()

@[ext] structure TimerHandle where
  index : Nat
  generation : Nat
  context : Nat
  deriving DecidableEq, Repr

structure DispatchId where
  raw : Nat
  deriving DecidableEq, Repr

structure CallbackSlot where
  index : Nat
  generation : Nat
  deriving DecidableEq, Repr

inductive ScopeKind where
  | world
  | session
  | adapter
  deriving DecidableEq, Repr

def ScopeKind.fromAbi : Nat → Except TimerError ScopeKind
  | 0 => .ok .world
  | 1 => .ok .session
  | 2 => .ok .adapter
  | _ => .error .scopeInvalid

structure TimerScope where
  scopeId : Nat
  kind : ScopeKind
  generation : Nat
  deriving DecidableEq, Repr

structure FiringRecord where
  handle : TimerHandle
  dueTick : Nat
  scheduleSequence : Nat
  slotDispatchId : DispatchId
  deriving DecidableEq, Repr

structure FiringRejection where
  handle : TimerHandle
  dueTick : Nat
  scheduleSequence : Nat
  code : TimerError
  deriving DecidableEq, Repr

structure AdvanceReport where
  firings : List FiringRecord
  rejections : List FiringRejection
  deriving DecidableEq, Repr

structure Delivery where
  dispatchId : DispatchId
  dueTick : Nat
  handle : TimerHandle
  deriving DecidableEq, Repr

structure DrainReport where
  delivered : List Delivery
  rejections : List FiringRejection
  records : List FiringRecord
  deriving DecidableEq, Repr

structure TimerDiagnostic where
  code : TimerError
  dueTick : Option Nat
  scheduleSequence : Option Nat
  deriving DecidableEq, Repr

inductive SliceTraceEvent where
  | dispatched (dispatchId : DispatchId) (dueTick : Nat)
  deriving DecidableEq, Repr

structure SliceTrace where
  events : List SliceTraceEvent
  dropped : Nat
  deriving DecidableEq, Repr

def SliceTrace.new : SliceTrace := ⟨[], 0⟩

def SliceTrace.push (trace : SliceTrace) (event : SliceTraceEvent) : SliceTrace :=
  if trace.events.length < 1024 then { trace with events := trace.events ++ [event] }
  else { trace with dropped := Word.saturatingAdd Word.max64 trace.dropped 1 }

def SliceTrace.dispatchedTicks (trace : SliceTrace) (id : DispatchId) : List Nat :=
  trace.events.filterMap fun
    | .dispatched dispatchId dueTick => if dispatchId = id then some dueTick else none

/-- The rejection of one record. -/
def FiringRecord.reject (record : FiringRecord) (code : TimerError) : FiringRejection where
  handle := record.handle
  dueTick := record.dueTick
  scheduleSequence := record.scheduleSequence
  code := code

/-- The key both `advance` and a drain sort by. -/
def firingLe (a b : FiringRecord) : Prop :=
  a.dueTick < b.dueTick ∨ a.dueTick = b.dueTick ∧
    (a.scheduleSequence < b.scheduleSequence ∨ a.scheduleSequence = b.scheduleSequence ∧
      a.handle.index ≤ b.handle.index)

instance : DecidableRel firingLe := fun a b => inferInstanceAs (Decidable
  (a.dueTick < b.dueTick ∨ a.dueTick = b.dueTick ∧
    (a.scheduleSequence < b.scheduleSequence ∨ a.scheduleSequence = b.scheduleSequence ∧
      a.handle.index ≤ b.handle.index)))

end Timer

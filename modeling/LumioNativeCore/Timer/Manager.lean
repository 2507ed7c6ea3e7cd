import LumioNativeCore.Library.Table
import LumioNativeCore.Timer.Ids
import Mathlib.Data.Finset.Card
import Mathlib.Data.List.Sort

/-! The single-thread-owned timer kernel (`manager.rs`). An operation that can
fail returns the manager it leaves with its result, and an error means that the
manager is unchanged; only `bindSlot` returns a manager beside an error.

Vectors are lists. Their lengths stay below the validated budget, so the casts
of indices to `u32` are the identity. `bump_generation` panics at `u32::MAX`:
the runs of the source are the runs here in which no generation exceeds it. -/
namespace Timer

inductive SlotState where
  | unbound
  | armed
  | closed
  deriving DecidableEq, Repr

structure ScopeRecord where
  kind : ScopeKind
  generation : Nat
  active : Nat
  alive : Bool
  deriving DecidableEq, Repr

structure QueueItem where
  record : FiringRecord
  scope : TimerScope
  valid : Bool
  deriving DecidableEq, Repr

structure SlotRecord where
  generation : Nat
  state : SlotState
  dispatchId : Option DispatchId
  queue : List QueueItem
  deriving DecidableEq, Repr

structure TimerRecord where
  scope : TimerScope
  due : Nat
  interval : Option Nat
  sequence : Nat
  slot : CallbackSlot
  dispatch : DispatchId
  queued : Bool
  deriving DecidableEq, Repr

structure TimerSlot where
  generation : Nat
  record : Option TimerRecord
  deriving DecidableEq, Repr

/-! The fields of the manager, grouped by what an operation touches. -/

structure TimerConfig where
  context : Nat
  mode : TimerMode
  limits : TimerLimits
  budget : TimerBudget
  configError : Option TimerError

/-- `timerFree` has the index pushed last, the next one to be popped, first. -/
structure Roster where
  live : Nat
  scopes : Table Nat ScopeRecord
  timers : List TimerSlot
  timerFree : List Nat

structure Desk where
  pending : Nat
  slots : List SlotRecord

structure Clock where
  committedTick : Nat
  schedulesThisTick : Nat
  nextSequence : Nat

structure Journal where
  trace : SliceTrace
  diagnostics : List TimerDiagnostic
  diagnosticsDropped : Nat

structure TimerManager extends TimerConfig, Roster, Desk, Clock, Journal where
  running : Bool
  dispatchTable : Finset DispatchId

def bumpGeneration (current : Nat) : Nat := current + 1

/-- `limits.validate().and_then(|()| budget.validate()).err()`. -/
def configErrorOf (limits : TimerLimits) (budget : TimerBudget) : Option TimerError :=
  match limits.validate with
  | .error failure => some failure
  | .ok _ =>
      match budget.validate with
      | .error failure => some failure
      | .ok _ => none

/-! Timers and their scopes. -/

namespace Roster

/-- Write to one scope. -/
def updateScope (r : Roster) (id : Nat) (f : ScopeRecord → ScopeRecord) : Roster :=
  { r with scopes := r.scopes.modify id f }

/-- Write to the record of an occupied timer. -/
def updateTimer (r : Roster) (index : Nat) (f : TimerRecord → TimerRecord) : Roster :=
  { r with timers := r.timers.modify index fun t => { t with record := t.record.map f } }

def getTimer (r : Roster) (context : Nat) (handle : TimerHandle) :
    Except TimerError TimerRecord :=
  if handle.context ≠ context then .error .staleHandle
  else
    match r.timers[handle.index]? with
    | none => .error .staleHandle
    | some t =>
        if t.generation ≠ handle.generation then .error .staleHandle
        else
          match t.record with
          | none => .error .staleHandle
          | some record => .ok record

/-- Callers pass the index of a timer slot; an empty one is left alone. -/
def retireIndex (r : Roster) (index : Nat) : Roster :=
  match r.timers[index]? with
  | none => r
  | some t =>
      match t.record with
      | none => r
      | some record =>
          { r.updateScope record.scope.scopeId (fun scope =>
              { scope with active := scope.active - 1 }) with
            live := r.live - 1
            timers := r.timers.set index
              { generation := bumpGeneration t.generation, record := none }
            timerFree := index :: r.timerFree }

/-- Full identity validation is mandatory even for internal error paths. -/
def retire (r : Roster) (context : Nat) (handle : TimerHandle) : Roster :=
  match r.getTimer context handle with
  | .error _ => r
  | .ok _ => r.retireIndex handle.index

/-- The timer at `index` is occupied and belongs to the scope `id`. -/
def inScope (r : Roster) (id index : Nat) : Bool :=
  ((r.timers[index]?).bind TimerSlot.record).any fun record => record.scope.scopeId == id

/-- The first loop of `retire_scope_timers`. -/
def retireScope (r : Roster) (id : Nat) : Roster :=
  (List.range r.timers.length).foldl
    (fun r index => if r.inScope id index then r.retireIndex index else r) r

/-- Store a record in a free timer slot, or in a new one. -/
def place (r : Roster) (context : Nat) (record : TimerRecord) : TimerHandle × Roster :=
  match r.timerFree with
  | index :: rest =>
      (⟨index, ((r.timers[index]?).map TimerSlot.generation).getD 0, context⟩,
        { r with
          timerFree := rest
          timers := r.timers.modify index fun t => { t with record := some record } })
  | [] =>
      (⟨r.timers.length, 1, context⟩,
        { r with timers := r.timers ++ [{ generation := 1, record := some record }] })

end Roster

/-! Callback slots and their queues. -/

/-- Clear the validity bit of the items that `p` picks. -/
def SlotRecord.invalidate (p : QueueItem → Bool) (s : SlotRecord) : SlotRecord :=
  { s with queue := s.queue.map fun item => { item with valid := item.valid && !p item } }

namespace Desk

def slot (d : Desk) (slot : CallbackSlot) : Except TimerError SlotRecord :=
  match d.slots[slot.index]? with
  | some s => if s.generation = slot.generation then .ok s else .error .slotClosed
  | none => .error .slotClosed

/-- Write through `slot_mut`. -/
def updateSlot (d : Desk) (index : Nat) (f : SlotRecord → SlotRecord) : Desk :=
  { d with slots := d.slots.modify index f }

/-- Clear the validity bit of the queued items that `p` picks, in every queue. -/
def invalidate (d : Desk) (p : QueueItem → Bool) : Desk :=
  { d with slots := d.slots.map (SlotRecord.invalidate p) }

def enqueue (d : Desk) (limits : TimerLimits) (budget : TimerBudget) (record : FiringRecord)
    (scope : TimerScope) (slot : CallbackSlot) : Except TimerError Desk :=
  if d.pending ≥ budget.maxPendingRecords then .error .slotQueueFull
  else
    match d.slot slot with
    | .error failure => .error failure
    | .ok s =>
        match s.state with
        | .closed => .error .slotClosed
        | .unbound => .error .slotUnbound
        | .armed =>
            -- invalid entries still occupy memory until drained and count toward capacity
            if s.queue.length ≥ limits.deliveryQueueDepthPerSlot then .error .slotQueueFull
            else
              .ok { d.updateSlot slot.index (fun s =>
                  { s with queue := s.queue ++ [⟨record, scope, true⟩] }) with
                pending := d.pending + 1 }

/-- The start of a drain: every queue is taken. -/
def clear (d : Desk) : Desk where
  pending := 0
  slots := d.slots.map fun s => { s with queue := [] }

end Desk

def Journal.diagnose (j : Journal) (budget : TimerBudget) (code : TimerError)
    (record : FiringRecord) : Journal :=
  if j.diagnostics.length < budget.maxDiagnostics then
    { j with diagnostics := j.diagnostics ++
        [⟨code, some record.dueTick, some record.scheduleSequence⟩] }
  else
    { j with diagnosticsDropped := Word.saturatingAdd Word.max64 j.diagnosticsDropped 1 }

namespace TimerManager

def withBudget (context : Nat) (mode : TimerMode) (limits : TimerLimits) (budget : TimerBudget) :
    TimerManager where
  context := context
  mode := mode
  limits := limits
  budget := budget
  configError := configErrorOf limits budget
  running := true
  committedTick := 0
  schedulesThisTick := 0
  nextSequence := 1
  live := 0
  pending := 0
  scopes := .empty
  timers := []
  timerFree := []
  slots := []
  dispatchTable := ∅
  trace := .new
  diagnostics := []
  diagnosticsDropped := 0

def ensureRunning (m : TimerManager) : Except TimerError Unit :=
  if !m.running then .error .managerShutdown
  else
    match m.configError with
    | some failure => .error failure
    | none => .ok ()

def isRunning (m : TimerManager) : Bool := m.running && m.configError.isNone

def slot (m : TimerManager) (slot : CallbackSlot) : Except TimerError SlotRecord :=
  m.toDesk.slot slot

def updateSlot (m : TimerManager) (index : Nat) (f : SlotRecord → SlotRecord) : TimerManager :=
  { m with toDesk := m.toDesk.updateSlot index f }

def invalidate (m : TimerManager) (p : QueueItem → Bool) : TimerManager :=
  { m with toDesk := m.toDesk.invalidate p }

def updateScope (m : TimerManager) (id : Nat) (f : ScopeRecord → ScopeRecord) : TimerManager :=
  { m with toRoster := m.toRoster.updateScope id f }

def getTimer (m : TimerManager) (handle : TimerHandle) : Except TimerError TimerRecord :=
  m.toRoster.getTimer m.context handle

def retire (m : TimerManager) (handle : TimerHandle) : TimerManager :=
  { m with toRoster := m.toRoster.retire m.context handle }

def shutdown (m : TimerManager) : TimerManager :=
  { m.invalidate (fun _ => true) with
    running := false
    timers := m.timers.map fun t => { t with record := none }
    scopes := m.scopes.map fun scope => { scope with active := 0 }
    live := 0 }

/-! Callback slots and dispatch ids. -/

def createSlot (m : TimerManager) : Except TimerError (CallbackSlot × TimerManager) := do
  m.ensureRunning
  if m.slots.length ≥ m.budget.maxSlots then .error .scheduleBudgetExceeded
  else
    .ok (⟨m.slots.length, 1⟩, { m with slots := m.slots ++
      [{ generation := 1, state := .unbound, dispatchId := none, queue := [] }] })

def tryRegisterDispatch (m : TimerManager) (id : DispatchId) :
    Except TimerError TimerManager := do
  m.ensureRunning
  if id ∉ m.dispatchTable ∧ m.dispatchTable.card ≥ m.budget.maxSlots then
    .error .scheduleBudgetExceeded
  else .ok { m with dispatchTable := insert id m.dispatchTable }

def removeDispatchBinding (m : TimerManager) (id : DispatchId) : TimerManager :=
  { m with dispatchTable := m.dispatchTable.erase id }

def armSlot (m : TimerManager) (slot : CallbackSlot) (id : DispatchId) :
    Except TimerError TimerManager := do
  m.ensureRunning
  if id ∉ m.dispatchTable then .error .slotDispatchMismatch
  else
    let s ← m.slot slot
    match s.state with
    | .unbound =>
        .ok (m.updateSlot slot.index fun s => { s with state := .armed, dispatchId := some id })
    | .armed => if s.dispatchId = some id then .ok m else .error .slotClosed
    | .closed => .error .slotClosed

/-- The checks `bind_slot` makes before it registers the id. -/
def checkBind (m : TimerManager) (slot : CallbackSlot) (id : DispatchId) :
    Except TimerError Unit := do
  m.ensureRunning
  let s ← m.slot slot
  if s.state = .closed ∨ (s.state = .armed ∧ s.dispatchId ≠ some id) then .error .slotClosed
  else .ok ()

def bindSlot (m : TimerManager) (slot : CallbackSlot) (id : DispatchId) :
    Except TimerError Unit × TimerManager :=
  match m.checkBind slot id with
  | .error failure => (.error failure, m)
  | .ok _ =>
      match m.tryRegisterDispatch id with
      | .error failure => (.error failure, m)
      | .ok registered =>
          match registered.armSlot slot id with
          | .error failure => (.error failure, registered)
          | .ok armed => (.ok (), armed)

def closeSlot (m : TimerManager) (slot : CallbackSlot) : Except TimerError TimerManager := do
  m.ensureRunning
  let s ← m.slot slot
  match s.state with
  | .unbound => .error .slotUnbound
  | .closed => .error .slotClosed
  | .armed =>
      .ok (m.updateSlot slot.index fun s =>
        { s.invalidate (fun _ => true) with state := .closed })

/-! Scopes. -/

def isScopeAlive (m : TimerManager) (id : Nat) : Bool :=
  (m.scopes.get id).any ScopeRecord.alive

def registerScope (m : TimerManager) (id : Nat) (kind : ScopeKind) :
    Except TimerError (TimerScope × TimerManager) := do
  m.ensureRunning
  match h : m.scopes.get id with
  | some scope =>
      if scope.alive ∧ scope.kind ≠ kind then .error .scopeInvalid
      else if scope.alive then .ok (⟨id, kind, scope.generation⟩, m)
      else
        let generation := bumpGeneration scope.generation
        .ok (⟨id, kind, generation⟩, m.updateScope id fun _ =>
          { kind := kind, generation := generation, active := 0, alive := true })
  | none =>
      if m.scopes.size ≥ m.budget.maxScopes then .error .scheduleBudgetExceeded
      else
        let fresh : ScopeRecord := { kind := kind, generation := 1, active := 0, alive := true }
        .ok (⟨id, kind, 1⟩, { m with scopes := m.scopes.insert id fresh h })

def resolveScope (m : TimerManager) (scope : TimerScope) : Except TimerError ScopeRecord :=
  match m.scopes.get scope.scopeId with
  | none => .error .scopeInvalid
  | some s =>
      if !s.alive then .error .scopeInvalid
      else if s.generation ≠ scope.generation then .error .scopeGenerationMismatch
      else if s.kind ≠ scope.kind then .error .scopeInvalid
      else .ok s

def retireScopeTimers (m : TimerManager) (id : Nat) : TimerManager :=
  { m with
    toRoster := m.toRoster.retireScope id
    toDesk := m.toDesk.invalidate fun item => item.scope.scopeId == id }

def teardownScope (m : TimerManager) (id : Nat) :
    Except TimerError (TimerScope × TimerManager) := do
  m.ensureRunning
  match m.scopes.get id with
  | none => .error .scopeInvalid
  | some scope =>
      if !scope.alive then .error .scopeInvalid
      else
        let generation := bumpGeneration scope.generation
        .ok (⟨id, scope.kind, generation⟩, (m.retireScopeTimers id).updateScope id fun scope =>
          { scope with generation := generation })

def destroyScope (m : TimerManager) (id : Nat) : Except TimerError TimerManager := do
  m.ensureRunning
  if !m.isScopeAlive id then .error .scopeInvalid
  else .ok ((m.retireScopeTimers id).updateScope id fun scope => { scope with alive := false })

/-! Timers. -/

/-- The schedules one tick (or one pump) may make. -/
def scheduleLimit (m : TimerManager) : Nat :=
  match m.mode with
  | .wallClock => m.limits.maxSchedulesPerPump
  | .tickFrame => m.limits.maxSchedulesPerTick

/-- The armed slot and its dispatch id, under which a timer is scheduled. -/
def scheduleTarget (m : TimerManager) (slot : CallbackSlot) : Except TimerError DispatchId := do
  let s ← m.slot slot
  match s.state with
  | .unbound => .error .slotUnbound
  | .closed => .error .slotClosed
  | .armed =>
      match s.dispatchId with
      | none => .error .slotUnbound
      | some dispatch => .ok dispatch

def schedule (m : TimerManager) (scope : TimerScope) (due : Nat) (interval : Option Nat)
    (slot : CallbackSlot) : Except TimerError (TimerHandle × TimerManager) := do
  m.ensureRunning
  let resolved ← m.resolveScope scope
  let dispatch ← m.scheduleTarget slot
  if due ≤ m.committedTick then .error .invalidDueTick
  else if m.schedulesThisTick ≥ m.scheduleLimit ∨
      resolved.active ≥ m.limits.maxActiveTimersPerScope ∨
      (m.timerFree = [] ∧ m.timers.length ≥ m.budget.maxTimers) then
    .error .scheduleBudgetExceeded
  else
    match Word.checkedAdd Word.max64 m.nextSequence 1 with
    | none => .error .scheduleBudgetExceeded
    | some next =>
        let (handle, placed) := m.toRoster.place m.context
          { scope := scope, due := due, interval := interval, sequence := m.nextSequence
            slot := slot, dispatch := dispatch, queued := false }
        .ok (handle,
          { m with
            toRoster :=
              { placed.updateScope scope.scopeId (fun s => { s with active := s.active + 1 }) with
                live := m.live + 1 }
            nextSequence := next
            schedulesThisTick := m.schedulesThisTick + 1 })

def scheduleOneShot (m : TimerManager) (scope : TimerScope) (due : Nat) (slot : CallbackSlot) :
    Except TimerError (TimerHandle × TimerManager) :=
  m.schedule scope due none slot

def minInterval (m : TimerManager) : Nat :=
  match m.mode with
  | .wallClock => m.limits.minIntervalMs
  | .tickFrame => m.limits.minIntervalTicks

def scheduleRepeating (m : TimerManager) (scope : TimerScope) (due interval : Nat)
    (slot : CallbackSlot) : Except TimerError (TimerHandle × TimerManager) := do
  m.ensureRunning
  if interval < m.minInterval then .error .invalidInterval
  else m.schedule scope due (some interval) slot

def cancel (m : TimerManager) (handle : TimerHandle) : Except TimerError (Bool × TimerManager) := do
  m.ensureRunning
  let _ ← m.getTimer handle
  .ok (true, (m.invalidate fun item => item.record.handle == handle).retire handle)

/-! Advancing. -/

/-- The firings of one timer that the preflight counts. -/
def countDue (toTick : Nat) (t : TimerSlot) : Nat :=
  match t.record with
  | none => 0
  | some record =>
      if record.queued ∨ record.due > toTick then 0
      else
        match record.interval with
        | some interval => (toTick - record.due) / interval + 1
        | none => 1

/-- The preflight loop. A timer that is not due adds nothing and skips the checks. -/
def preflight (max toTick : Nat) : Nat → List TimerSlot → Except TimerError Nat
  | total, [] => .ok total
  | total, t :: rest =>
      if countDue toTick t = 0 then preflight max toTick total rest
      else
        match Word.checkedAdd Word.max64 total (countDue toTick t) with
        | none => .error .scheduleBudgetExceeded
        | some total =>
            if total > max then .error .scheduleBudgetExceeded
            else preflight max toTick total rest

/-- The inner collection loop of a repeating timer: the ticks from `due` on, and
where the timer goes next. Every turn but the last adds at least one to `due`, so
the fuel `toTick - due` is enough. -/
def dueTicks (toTick interval : Nat) : Nat → Nat → List Nat × Option Nat
  | fuel, due =>
      match Word.checkedAdd Word.max64 due interval, fuel with
      | some next, fuel + 1 =>
          if next ≤ toTick then
            let (ticks, last) := dueTicks toTick interval fuel next
            (due :: ticks, last)
          else ([due], some next)
      | next, _ => ([due], next)

/-- What one timer contributes: its firings, and its next due tick if it repeats. -/
def collectTimer (m : TimerManager) (toTick : Nat) :
    TimerSlot × Nat → List FiringRecord × List (TimerHandle × Option Nat)
  | (t, index) =>
      match t.record with
      | none => ([], [])
      | some record =>
          if record.queued ∨ record.due > toTick then ([], [])
          else
            let handle : TimerHandle := ⟨index, t.generation, m.context⟩
            let firing := fun due => ⟨handle, due, record.sequence, record.dispatch⟩
            match record.interval with
            | none => ([firing record.due], [])
            | some interval =>
                let (ticks, next) := dueTicks toTick interval (toTick - record.due) record.due
                (ticks.map firing, [(handle, next)])

def collected (m : TimerManager) (toTick : Nat) : List FiringRecord :=
  m.timers.zipIdx.flatMap fun entry => (m.collectTimer toTick entry).1

def nextDue (m : TimerManager) (toTick : Nat) : List (TimerHandle × Option Nat) :=
  m.timers.zipIdx.flatMap fun entry => (m.collectTimer toTick entry).2

/-- One turn of the firing loop. -/
def serve (state : AdvanceReport × TimerManager) (record : FiringRecord) :
    AdvanceReport × TimerManager :=
  let (report, m) := state
  match m.getTimer record.handle with
  | .error _ => (report, m)
  | .ok timer =>
      match m.toDesk.enqueue m.limits m.budget record timer.scope timer.slot with
      | .ok desk =>
          ({ report with firings := report.firings ++ [record] },
            { m with
              toDesk := desk
              toRoster :=
                if timer.interval.isNone then
                  m.toRoster.updateTimer record.handle.index fun t => { t with queued := true }
                else m.toRoster })
      | .error code =>
          ({ report with rejections := report.rejections ++ [record.reject code] },
            { m with
              toJournal := m.toJournal.diagnose m.budget code record
              toRoster := m.toRoster.retire m.context record.handle })

/-- One turn of the loop that moves repeating timers on. -/
def rearm (m : TimerManager) (entry : TimerHandle × Option Nat) : TimerManager :=
  match m.getTimer entry.1 with
  | .error _ => m
  | .ok _ =>
      match entry.2 with
      | some due =>
          { m with
            toRoster := m.toRoster.updateTimer entry.1.index fun t => { t with due := due } }
      | none => m.retire entry.1

/-- What becomes of a window once the buffer for its records is there, see `advance?`. -/
def advance (m : TimerManager) (toTick : Nat) :
    Except TimerError (AdvanceReport × TimerManager) := do
  m.ensureRunning
  if toTick < m.committedTick then .error .invalidDueTick
  else if toTick = m.committedTick then .ok (⟨[], []⟩, m)
  else
    let _ ← preflight m.budget.maxFiringsPerAdvance toTick 0 m.timers
    let (report, served) :=
      ((m.collected toTick).insertionSort firingLe).foldl serve (⟨[], []⟩, m)
    .ok (report,
      { (m.nextDue toTick).foldl rearm served with
        committedTick := toTick
        schedulesThisTick := 0 })

/-- The size of a `FiringRecord`: a handle of two words, the due tick, the sequence, and a dispatch
id with its padding. -/
def firingRecordBytes : Nat := 40

/-- `advance` with its buffer. `Vec::with_capacity` comes between the preflight and the
collection, and panics when the records do not fit into an allocation. -/
def advance? (m : TimerManager) (toTick : Nat) :
    Option (Except TimerError (AdvanceReport × TimerManager)) :=
  if m.committedTick < toTick then
    match m.ensureRunning *> preflight m.budget.maxFiringsPerAdvance toTick 0 m.timers with
    | .ok total =>
        if total * firingRecordBytes > Word.maxIsize then none else some (m.advance toTick)
    | .error failure => some (.error failure)
  else some (m.advance toTick)

/-! Draining. -/

/-- A queued item with the state and dispatch id of the slot it was taken from. -/
structure Pending where
  state : SlotState
  dispatch : Option DispatchId
  item : QueueItem
  deriving DecidableEq, Repr

def pendingLe (a b : Pending) : Prop := firingLe a.item.record b.item.record

instance : DecidableRel pendingLe := fun a b =>
  inferInstanceAs (Decidable (firingLe a.item.record b.item.record))

def takePending (m : TimerManager) : List Pending :=
  m.slots.flatMap fun s => s.queue.map fun item => ⟨s.state, s.dispatchId, item⟩

/-- Why an item is not delivered, if it is not. -/
def rejectionCode (m : TimerManager) (p : Pending) : Option TimerError :=
  if !m.running ∨ !p.item.valid ∨ p.state = .closed ∨
      (m.resolveScope p.item.scope).toOption.isNone then
    some .lateCompletion
  else if p.dispatch ≠ some p.item.record.slotDispatchId ∨
      p.item.record.slotDispatchId ∉ m.dispatchTable then
    some .slotDispatchMismatch
  else none

/-- One turn of the drain loop. -/
def deliver (emitTrace : Bool) (state : DrainReport × TimerManager) (p : Pending) :
    DrainReport × TimerManager :=
  let (report, m) := state
  let record := p.item.record
  match m.rejectionCode p with
  | some code =>
      ({ report with rejections := report.rejections ++ [record.reject code] },
        m.retire record.handle)
  | none =>
      let report :=
        { report with
          records := report.records ++ [record]
          delivered := report.delivered ++
            [⟨record.slotDispatchId, record.dueTick, record.handle⟩] }
      let m :=
        if emitTrace then
          { m with trace := m.trace.push (.dispatched record.slotDispatchId record.dueTick) }
        else m
      match m.getTimer record.handle with
      | .ok timer => (report, if timer.interval.isNone then m.retire record.handle else m)
      | .error _ => (report, m)

def drainInternal (m : TimerManager) (emitTrace : Bool) : DrainReport × TimerManager :=
  ((m.takePending).insertionSort pendingLe).foldl (deliver emitTrace)
    (⟨[], [], []⟩, { m with toDesk := m.toDesk.clear })

def drain (m : TimerManager) : DrainReport × TimerManager := m.drainInternal true

/-- `drain_records` returns the records of the report. -/
def drainRecords (m : TimerManager) : Except TimerError (DrainReport × TimerManager) := do
  m.ensureRunning
  .ok (m.drainInternal false)

/-! Diagnostics. -/

def takeDiagnostics (m : TimerManager) : TimerManager := { m with diagnostics := [] }

def clearTrace (m : TimerManager) : TimerManager := { m with trace := .new }

end TimerManager
end Timer

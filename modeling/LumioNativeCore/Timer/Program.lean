import LumioNativeCore.Library.Attempt
import LumioNativeCore.Timer.Serving

/-! The failing operations statement by statement (`manager.rs`): each check where the source
makes it, each write where the source writes. Run to the end they are the operations of the
manager, and a failure finds every field as it was before the call. -/
namespace Timer

open Attempt

/-- A method of the manager on `&mut self` that returns a `TimerResult`. -/
abbrev TimerProgram (α : Type) := Attempt.Program TimerManager TimerError α

namespace TimerProgram

def ensureRunning : TimerProgram Unit := check TimerManager.ensureRunning

def createSlot : TimerProgram CallbackSlot := do
  ensureRunning
  let m ← get
  if m.slots.length ≥ m.budget.maxSlots then throw .scheduleBudgetExceeded
  modify fun m => { m with slots := m.slots ++
    [{ generation := 1, state := .unbound, dispatchId := none, queue := [] }] }
  return ⟨m.slots.length, 1⟩

def tryRegisterDispatch (id : DispatchId) : TimerProgram Unit := do
  ensureRunning
  let m ← get
  if id ∉ m.dispatchTable ∧ m.dispatchTable.card ≥ m.budget.maxSlots then
    throw .scheduleBudgetExceeded
  modify fun m => { m with dispatchTable := insert id m.dispatchTable }

def armSlot (slot : CallbackSlot) (id : DispatchId) : TimerProgram Unit := do
  ensureRunning
  if id ∉ (← get).dispatchTable then throw .slotDispatchMismatch
  let s ← check fun m => m.slot slot
  match s.state with
  | .unbound =>
      modify fun m => m.updateSlot slot.index fun s => { s with state := .armed }
      modify fun m => m.updateSlot slot.index fun s => { s with dispatchId := some id }
  | .armed => if s.dispatchId = some id then return () else throw .slotClosed
  | .closed => throw .slotClosed

def bindSlot (slot : CallbackSlot) (id : DispatchId) : TimerProgram Unit := do
  ensureRunning
  let s ← check fun m => m.slot slot
  if s.state = .closed ∨ (s.state = .armed ∧ s.dispatchId ≠ some id) then throw .slotClosed
  tryRegisterDispatch id
  armSlot slot id

def closeSlot (slot : CallbackSlot) : TimerProgram Unit := do
  ensureRunning
  let s ← check fun m => m.slot slot
  match s.state with
  | .unbound => throw .slotUnbound
  | .closed => throw .slotClosed
  | .armed =>
      modify fun m => m.updateSlot slot.index fun s => { s with state := .closed }
      modify fun m => m.updateSlot slot.index (SlotRecord.invalidate fun _ => true)

def registerScope (id : Nat) (kind : ScopeKind) : TimerProgram TimerScope := do
  ensureRunning
  let m ← get
  match m.scopes.get id with
  | some scope =>
      if scope.alive ∧ scope.kind ≠ kind then throw .scopeInvalid
      if scope.alive then return ⟨id, kind, scope.generation⟩
      modify fun m => m.updateScope id fun s => { s with generation := bumpGeneration s.generation }
      modify fun m => m.updateScope id fun s => { s with kind := kind }
      modify fun m => m.updateScope id fun s => { s with active := 0 }
      modify fun m => m.updateScope id fun s => { s with alive := true }
      return ⟨id, kind, bumpGeneration scope.generation⟩
  | none =>
      if m.scopes.size ≥ m.budget.maxScopes then throw .scheduleBudgetExceeded
      let fresh : ScopeRecord := { kind := kind, generation := 1, active := 0, alive := true }
      modify fun m => { m with scopes := m.scopes.put id fresh }
      return ⟨id, kind, 1⟩

/-- The loop over the timers of the scope, then the one over the queues. -/
def retireScopeTimers (id : Nat) : TimerProgram Unit := do
  (List.range (← get).timers.length).forM fun index => modify fun m =>
    { m with toRoster := if m.inScope id index then m.toRoster.retireIndex index else m.toRoster }
  modify fun m => m.invalidate fun item => item.scope.scopeId == id

def teardownScope (id : Nat) : TimerProgram TimerScope := do
  ensureRunning
  match (← get).scopes.get id with
  | none => throw .scopeInvalid
  | some scope =>
      if !scope.alive then throw .scopeInvalid
      let generation := bumpGeneration scope.generation
      retireScopeTimers id
      modify fun m => m.updateScope id fun scope => { scope with generation := generation }
      return ⟨id, scope.kind, generation⟩

def destroyScope (id : Nat) : TimerProgram Unit := do
  ensureRunning
  if !(← get).isScopeAlive id then throw .scopeInvalid
  retireScopeTimers id
  modify fun m => m.updateScope id fun scope => { scope with alive := false }

def schedule (scope : TimerScope) (due : Nat) (interval : Option Nat) (slot : CallbackSlot) :
    TimerProgram TimerHandle := do
  ensureRunning
  let resolved ← check fun m => m.resolveScope scope
  let dispatch ← check fun m => m.scheduleTarget slot
  let m ← get
  if due ≤ m.committedTick then throw .invalidDueTick
  if m.schedulesThisTick ≥ m.scheduleLimit ∨
      resolved.active ≥ m.limits.maxActiveTimersPerScope ∨
      (m.timerFree = [] ∧ m.timers.length ≥ m.budget.maxTimers) then
    throw .scheduleBudgetExceeded
  match Word.checkedAdd Word.max64 m.nextSequence 1 with
  | none => throw .scheduleBudgetExceeded
  | some next =>
      let handle ← step fun m =>
        let (handle, placed) := m.toRoster.place m.context
          { scope := scope, due := due, interval := interval, sequence := m.nextSequence
            slot := slot, dispatch := dispatch, queued := false }
        (handle, { m with toRoster := placed })
      modify fun m => { m with nextSequence := next }
      modify fun m => { m with schedulesThisTick := m.schedulesThisTick + 1 }
      modify fun m => { m with live := m.live + 1 }
      modify fun m => m.updateScope scope.scopeId fun s => { s with active := s.active + 1 }
      return handle

def scheduleOneShot (scope : TimerScope) (due : Nat) (slot : CallbackSlot) :
    TimerProgram TimerHandle :=
  schedule scope due none slot

def scheduleRepeating (scope : TimerScope) (due interval : Nat) (slot : CallbackSlot) :
    TimerProgram TimerHandle := do
  ensureRunning
  if interval < (← get).minInterval then throw .invalidInterval
  schedule scope due (some interval) slot

def cancel (handle : TimerHandle) : TimerProgram Bool := do
  ensureRunning
  let _ ← check fun m => m.getTimer handle
  modify fun m => m.invalidate fun item => item.record.handle == handle
  modify fun m => m.retire handle
  return true

def enqueue (record : FiringRecord) (scope : TimerScope) (slot : CallbackSlot) :
    TimerProgram Unit := do
  let m ← get
  if m.pending ≥ m.budget.maxPendingRecords then throw .slotQueueFull
  let s ← check fun m => m.slot slot
  match s.state with
  | .closed => throw .slotClosed
  | .unbound => throw .slotUnbound
  | .armed =>
      if s.queue.length ≥ m.limits.deliveryQueueDepthPerSlot then throw .slotQueueFull
      modify fun m => m.updateSlot slot.index fun s =>
        { s with queue := s.queue ++ [⟨record, scope, true⟩] }
      modify fun m => { m with pending := m.pending + 1 }

/-- One turn of the firing loop; an error of `enqueue` is reported, not returned. -/
def serve (report : AdvanceReport) (record : FiringRecord) : TimerProgram AdvanceReport := do
  match (← get).getTimer record.handle with
  | .error _ => return report
  | .ok timer =>
      match ← attempt (enqueue record timer.scope timer.slot) with
      | .ok _ =>
          if timer.interval.isNone then
            modify fun m => { m with
              toRoster := m.toRoster.updateTimer record.handle.index fun t =>
                { t with queued := true } }
          return { report with firings := report.firings ++ [record] }
      | .error code =>
          modify fun m => { m with toJournal := m.toJournal.diagnose m.budget code record }
          modify fun m => m.retire record.handle
          return { report with rejections := report.rejections ++ [record.reject code] }

def advance (toTick : Nat) : TimerProgram AdvanceReport := do
  ensureRunning
  let m ← get
  if toTick < m.committedTick then throw .invalidDueTick
  if toTick = m.committedTick then return ⟨[], []⟩
  let _ ← check fun m => TimerManager.preflight m.budget.maxFiringsPerAdvance toTick 0 m.timers
  let report ← ((m.collected toTick).insertionSort firingLe).foldlM serve ⟨[], []⟩
  (m.nextDue toTick).forM fun entry => modify fun m => m.rearm entry
  modify fun m => { m with committedTick := toTick }
  modify fun m => { m with schedulesThisTick := 0 }
  return report

/-- `drain_internal` has no failing path. -/
def drainRecords : TimerProgram DrainReport := do
  ensureRunning
  step fun m => m.drainInternal false

/-! Run to the end, the programs are the operations. -/

section Runs

variable (m : TimerManager)

theorem run_createSlot : run createSlot m = settle m m.createSlot := by
  rw [createSlot, TimerManager.createSlot, ensureRunning, run_check_bind]
  cases m.ensureRunning with
  | error failure => rfl
  | ok _ =>
      simp only [run_bind, run_get]
      show run _ m = settle m (if _ then _ else _)
      split_ifs <;> rfl

theorem run_tryRegisterDispatch (id : DispatchId) :
    run (tryRegisterDispatch id) m =
      settle m ((m.tryRegisterDispatch id).map fun m' => ((), m')) := by
  rw [tryRegisterDispatch, TimerManager.tryRegisterDispatch, ensureRunning, run_check_bind]
  cases m.ensureRunning with
  | error failure => rfl
  | ok _ =>
      simp only [run_bind, run_get]
      show run _ m = settle m (Except.map _ (if _ then _ else _))
      split_ifs <;> rfl

theorem updateSlot_updateSlot (i : Nat) (f g : SlotRecord → SlotRecord) :
    (m.updateSlot i f).updateSlot i g = m.updateSlot i (g ∘ f) := by
  simp only [TimerManager.updateSlot, Desk.updateSlot, List.modify_modify_eq]

theorem updateScope_updateScope (id : Nat) (f g : ScopeRecord → ScopeRecord) :
    (m.updateScope id f).updateScope id g = m.updateScope id fun s => g (f s) := by
  simp only [TimerManager.updateScope, Roster.updateScope, Table.modify_modify]

theorem updateScope_congr {id : Nat} {f g : ScopeRecord → ScopeRecord}
    (h : ∀ s, m.scopes.get id = some s → f s = g s) : m.updateScope id f = m.updateScope id g := by
  simp only [TimerManager.updateScope, Roster.updateScope, Table.modify_congr h]

theorem run_armSlot (slot : CallbackSlot) (id : DispatchId) :
    run (armSlot slot id) m = settle m ((m.armSlot slot id).map fun m' => ((), m')) := by
  rw [armSlot, TimerManager.armSlot, ensureRunning, run_check_bind]
  cases m.ensureRunning with
  | error failure => rfl
  | ok _ =>
      simp only [run_bind, run_get]
      show run _ m = settle m (Except.map _ (if _ then _ else _))
      split_ifs with hTable
      · rw [run_check_bind]
        cases m.slot slot with
        | error failure => rfl
        | ok s =>
            obtain ⟨generation, state, dispatchId, queue⟩ := s
            cases state with
            | unbound =>
                simp only [run_bind, run_modify, updateSlot_updateSlot]
                rfl
            | armed =>
                show run (if _ then _ else _) m = settle m (Except.map _ (if _ then _ else _))
                split_ifs <;> rfl
            | closed => rfl
      · rfl

theorem run_closeSlot (slot : CallbackSlot) :
    run (closeSlot slot) m = settle m ((m.closeSlot slot).map fun m' => ((), m')) := by
  rw [closeSlot, TimerManager.closeSlot, ensureRunning, run_check_bind]
  cases m.ensureRunning with
  | error failure => rfl
  | ok _ =>
      dsimp only
      rw [run_check_bind]
      cases m.slot slot with
      | error failure => rfl
      | ok s =>
          obtain ⟨generation, state, dispatchId, queue⟩ := s
          cases state with
          | unbound => rfl
          | closed => rfl
          | armed =>
              simp only [run_bind, run_modify, updateSlot_updateSlot]
              rfl

theorem run_bindSlot (slot : CallbackSlot) (id : DispatchId) :
    run (bindSlot slot id) m = m.bindSlot slot id := by
  rw [bindSlot, TimerManager.bindSlot, TimerManager.checkBind, ensureRunning, run_check_bind]
  cases m.ensureRunning with
  | error failure => rfl
  | ok _ =>
      dsimp only
      rw [run_check_bind]
      cases m.slot slot with
      | error failure => rfl
      | ok s =>
          simp only [Check.ok_bind]
          split_ifs
          · rfl
          · rw [run_bind, run_tryRegisterDispatch]
            cases m.tryRegisterDispatch id with
            | error failure => rfl
            | ok registered =>
                show run (armSlot slot id) registered = _
                rw [run_armSlot]
                dsimp only
                cases registered.armSlot slot id <;> rfl

theorem run_registerScope (id : Nat) (kind : ScopeKind) :
    run (registerScope id kind) m = settle m (m.registerScope id kind) := by
  rw [TimerManager.registerScope]
  cases hRunning : m.ensureRunning with
  | error failure =>
      rw [registerScope, ensureRunning, run_check_bind, hRunning]
      rfl
  | ok _ =>
      rw [Check.ok_bind]
      split
      · rename_i scope hGet
        rw [registerScope, ensureRunning, run_check_bind, hRunning]
        simp only [run_bind, run_get, hGet]
        by_cases hKind : scope.alive ∧ scope.kind ≠ kind
        · rw [if_pos hKind, if_pos hKind]
          rfl
        · rw [if_neg hKind, if_neg hKind]
          by_cases hAlive : scope.alive
          · rw [if_pos hAlive, if_pos hAlive]
            rfl
          · rw [if_neg hAlive, if_neg hAlive]
            simp only [run_bind, run_modify, run_pure, updateScope_updateScope]
            refine Prod.ext rfl (updateScope_congr m ?_)
            intro s hs
            obtain rfl : scope = s := Option.some.inj (hGet.symm.trans hs)
            rfl
      · rename_i hGet
        rw [registerScope, ensureRunning, run_check_bind, hRunning]
        simp only [run_bind, run_get, hGet]
        show run (if _ then _ else _) m = settle m (if _ then _ else _)
        split_ifs
        · rfl
        · simp only [run_bind, run_modify, run_pure, Table.put_absent hGet]
          rfl

theorem run_retireScopeTimers (id : Nat) :
    run (retireScopeTimers id) m = (.ok (), m.retireScopeTimers id) := by
  have hLoop : ∀ indices, run (List.forM indices fun index => (modify fun m : TimerManager =>
      { m with toRoster := if m.inScope id index then m.toRoster.retireIndex index else m.toRoster } :
        TimerProgram PUnit)) m = (.ok ⟨⟩, indices.foldl (fun m index =>
      { m with toRoster := if m.inScope id index then m.toRoster.retireIndex index else m.toRoster })
        m) := fun indices => run_forM (fun _ _ => rfl) indices m
  have hFold : (List.range m.timers.length).foldl (fun m index =>
      { m with toRoster := if m.inScope id index then m.toRoster.retireIndex index else m.toRoster })
        m = { m with toRoster := m.toRoster.retireScope id } :=
    List.foldl_hom (fun r => { m with toRoster := r }) fun _ _ => rfl
  simp only [retireScopeTimers, run_bind, run_get, hLoop, hFold, run_modify]
  rfl

theorem run_teardownScope (id : Nat) :
    run (teardownScope id) m = settle m (m.teardownScope id) := by
  rw [teardownScope, TimerManager.teardownScope, ensureRunning, run_check_bind]
  cases m.ensureRunning with
  | error failure => rfl
  | ok _ =>
      simp only [run_bind, run_get]
      cases m.scopes.get id with
      | none => rfl
      | some scope =>
          show run (if _ then _ else _) m = settle m (if _ then _ else _)
          split_ifs
          · rfl
          · simp only [run_bind, run_retireScopeTimers]
            rfl

theorem run_destroyScope (id : Nat) :
    run (destroyScope id) m = settle m ((m.destroyScope id).map fun m' => ((), m')) := by
  rw [destroyScope, TimerManager.destroyScope, ensureRunning, run_check_bind]
  cases m.ensureRunning with
  | error failure => rfl
  | ok _ =>
      simp only [run_bind, run_get]
      show run (if _ then _ else _) m = settle m (Except.map _ (if _ then _ else _))
      split_ifs
      · rfl
      · simp only [run_bind, run_retireScopeTimers]
        rfl

theorem run_schedule (scope : TimerScope) (due : Nat) (interval : Option Nat)
    (slot : CallbackSlot) :
    run (schedule scope due interval slot) m = settle m (m.schedule scope due interval slot) := by
  rw [schedule, TimerManager.schedule, ensureRunning, run_check_bind]
  cases m.ensureRunning with
  | error failure => rfl
  | ok _ =>
      dsimp only
      rw [run_check_bind]
      cases m.resolveScope scope with
      | error failure => rfl
      | ok resolved =>
          dsimp only
          rw [run_check_bind]
          cases m.scheduleTarget slot with
          | error failure => rfl
          | ok dispatch =>
              simp only [run_bind, run_get]
              show run (if _ then _ else _) m =
                settle m (if _ then _ else if _ then _ else _)
              by_cases hDue : due ≤ m.committedTick
              · rw [if_pos hDue, if_pos hDue]
                rfl
              · rw [if_neg hDue, if_neg hDue]
                show run (if _ then _ else _) m = settle m (if _ then _ else _)
                split_ifs
                · rfl
                · cases Word.checkedAdd Word.max64 m.nextSequence 1 with
                  | none => rfl
                  | some next =>
                      simp only [run_bind, run_step, run_modify, run_pure, settle, Roster.place]
                      cases m.timerFree <;> rfl

theorem run_scheduleRepeating (scope : TimerScope) (due interval : Nat) (slot : CallbackSlot) :
    run (scheduleRepeating scope due interval slot) m =
      settle m (m.scheduleRepeating scope due interval slot) := by
  rw [scheduleRepeating, TimerManager.scheduleRepeating, ensureRunning, run_check_bind]
  cases m.ensureRunning with
  | error failure => rfl
  | ok _ =>
      simp only [run_bind, run_get]
      show run (if _ then _ else _) m = settle m (if _ then _ else _)
      split_ifs
      · rfl
      · exact run_schedule m scope due (some interval) slot

theorem run_cancel (handle : TimerHandle) :
    run (cancel handle) m = settle m (m.cancel handle) := by
  rw [cancel, TimerManager.cancel, ensureRunning, run_check_bind]
  cases m.ensureRunning with
  | error failure => rfl
  | ok _ =>
      dsimp only
      rw [run_check_bind]
      cases m.getTimer handle <;> rfl

theorem run_enqueue (record : FiringRecord) (scope : TimerScope) (slot : CallbackSlot) :
    run (enqueue record scope slot) m = settle m
      ((m.toDesk.enqueue m.limits m.budget record scope slot).map fun desk =>
        ((), { m with toDesk := desk })) := by
  rw [enqueue, Desk.enqueue]
  simp only [run_bind, run_get]
  show run (if _ then _ else _) m = settle m (Except.map _ (if _ then _ else _))
  split_ifs
  · rfl
  · rw [run_check_bind, TimerManager.slot]
    cases m.toDesk.slot slot with
    | error failure => rfl
    | ok s =>
        obtain ⟨generation, state, dispatchId, queue⟩ := s
        cases state with
        | unbound => rfl
        | closed => rfl
        | armed =>
            show run (if _ then _ else _) m = settle m (Except.map _ (if _ then _ else _))
            split_ifs <;> rfl

theorem run_serve (report : AdvanceReport) (record : FiringRecord) :
    run (serve report record) m =
      (.ok (TimerManager.serve (report, m) record).1, (TimerManager.serve (report, m) record).2) := by
  rw [serve, TimerManager.serve]
  simp only [run_bind, run_get]
  cases m.getTimer record.handle with
  | error failure => rfl
  | ok timer =>
      simp only [run_bind, run_attempt, run_enqueue]
      cases m.toDesk.enqueue m.limits m.budget record timer.scope timer.slot with
      | error code => rfl
      | ok desk =>
          simp only [Except.map, settle]
          split_ifs <;> rfl

theorem run_advance (toTick : Nat) :
    run (advance toTick) m = settle m (m.advance toTick) := by
  rw [advance, TimerManager.advance, ensureRunning, run_check_bind]
  cases m.ensureRunning with
  | error failure => rfl
  | ok _ =>
      simp only [run_bind, run_get]
      show run (if _ then _ else _) m = settle m (if _ then _ else if _ then _ else _)
      by_cases hBack : toTick < m.committedTick
      · rw [if_pos hBack, if_pos hBack]
        rfl
      · rw [if_neg hBack, if_neg hBack]
        show run (if _ then _ else _) m = settle m (if _ then _ else _)
        by_cases hStay : toTick = m.committedTick
        · rw [if_pos hStay, if_pos hStay]
          rfl
        · rw [if_neg hStay, if_neg hStay, run_check_bind]
          cases TimerManager.preflight m.budget.maxFiringsPerAdvance toTick 0 m.timers with
          | error failure => rfl
          | ok total =>
              have hServe := run_foldlM (f := serve) (g := TimerManager.serve)
                (fun report record m => run_serve m report record)
              have hRearm : ∀ entries m, run (List.forM entries fun entry =>
                  (modify fun m => TimerManager.rearm m entry : TimerProgram PUnit)) m =
                    (.ok ⟨⟩, entries.foldl TimerManager.rearm m) :=
                run_forM fun _ _ => rfl
              simp only [run_bind, hServe, hRearm, run_modify, run_pure]
              rfl

theorem run_drainRecords : run drainRecords m = settle m m.drainRecords := by
  rw [drainRecords, TimerManager.drainRecords, ensureRunning, run_check_bind]
  cases m.ensureRunning <;> rfl

end Runs

/-! Failures. -/

/-- After the checks of `bind_slot` and the registration of the id, arming cannot fail. -/
theorem bindSlot_error {m : TimerManager} {slot : CallbackSlot} {id : DispatchId}
    {failure : TimerError} (h : (m.bindSlot slot id).1 = .error failure) :
    (m.bindSlot slot id).2 = m := by
  rw [TimerManager.bindSlot] at h ⊢
  cases hCheck : m.checkBind slot id with
  | error failure => rfl
  | ok _ =>
      cases hRegister : m.tryRegisterDispatch id with
      | error failure => rfl
      | ok registered =>
          exfalso
          simp only [hCheck, hRegister] at h
          have hTable := TimerManager.tryRegisterDispatch_eq_ok hRegister
          subst hTable
          simp only [TimerManager.checkBind, Check.bind_eq_ok] at hCheck
          obtain ⟨⟨⟩, hRunning, s, hSlot, hOpen⟩ := hCheck
          split_ifs at hOpen with hShut
          rw [not_or, not_and_not_right] at hShut
          have hArm : ∃ armed, TimerManager.armSlot
              { m with dispatchTable := insert id m.dispatchTable } slot id = .ok armed := by
            rw [TimerManager.armSlot]
            show ∃ armed, (m.ensureRunning >>= fun _ =>
              if id ∉ insert id m.dispatchTable then _ else m.slot slot >>= _) = .ok armed
            rw [hRunning, Check.ok_bind, if_neg (not_not.mpr (Finset.mem_insert_self id _)), hSlot,
              Check.ok_bind]
            cases hState : s.state with
            | unbound => exact ⟨_, rfl⟩
            | armed =>
                rw [if_pos (hShut.2 hState)]
                exact ⟨_, rfl⟩
            | closed => exact absurd hState hShut.1
          obtain ⟨armed, hArm⟩ := hArm
          rw [hArm] at h
          cases h

end TimerProgram

/-- A call of an operation that can fail, with its arguments. `pump` is `advance`. -/
inductive TimerCall where
  | createSlot
  | tryRegisterDispatch (id : DispatchId)
  | bindSlot (slot : CallbackSlot) (id : DispatchId)
  | armSlot (slot : CallbackSlot) (id : DispatchId)
  | closeSlot (slot : CallbackSlot)
  | registerScope (id : Nat) (kind : ScopeKind)
  | teardownScope (id : Nat)
  | destroyScope (id : Nat)
  | scheduleOneShot (scope : TimerScope) (due : Nat) (slot : CallbackSlot)
  | scheduleRepeating (scope : TimerScope) (due interval : Nat) (slot : CallbackSlot)
  | cancel (handle : TimerHandle)
  | advance (toTick : Nat)
  | pump (nowMs : Nat)
  | drainRecords
  deriving DecidableEq, Repr

inductive TimerReply where
  | done
  | slot (slot : CallbackSlot)
  | scope (scope : TimerScope)
  | handle (handle : TimerHandle)
  | flag (flag : Bool)
  | advanced (report : AdvanceReport)
  | drained (records : List FiringRecord)
  deriving DecidableEq, Repr

def TimerCall.exec : TimerCall → TimerProgram TimerReply
  | .createSlot => .slot <$> TimerProgram.createSlot
  | .tryRegisterDispatch id => (fun _ => .done) <$> TimerProgram.tryRegisterDispatch id
  | .bindSlot slot id => (fun _ => .done) <$> TimerProgram.bindSlot slot id
  | .armSlot slot id => (fun _ => .done) <$> TimerProgram.armSlot slot id
  | .closeSlot slot => (fun _ => .done) <$> TimerProgram.closeSlot slot
  | .registerScope id kind => .scope <$> TimerProgram.registerScope id kind
  | .teardownScope id => .scope <$> TimerProgram.teardownScope id
  | .destroyScope id => (fun _ => .done) <$> TimerProgram.destroyScope id
  | .scheduleOneShot scope due slot => .handle <$> TimerProgram.scheduleOneShot scope due slot
  | .scheduleRepeating scope due interval slot =>
      .handle <$> TimerProgram.scheduleRepeating scope due interval slot
  | .cancel handle => .flag <$> TimerProgram.cancel handle
  | .advance toTick => .advanced <$> TimerProgram.advance toTick
  | .pump nowMs => .advanced <$> TimerProgram.advance nowMs
  | .drainRecords => (fun report => .drained report.records) <$> TimerProgram.drainRecords

/-- An operation that returns an error leaves the whole manager as it was. -/
theorem operations_atomic (m : TimerManager) (call : TimerCall) (failure : TimerError)
    (h : (Attempt.run call.exec m).1 = .error failure) : (Attempt.run call.exec m).2 = m := by
  have hAtomic : Attempt.Atomic call.exec := by
    open TimerProgram in
    cases call with
    | createSlot => exact (atomic_of_settle run_createSlot).map _
    | tryRegisterDispatch id =>
        exact (atomic_of_settle fun m => run_tryRegisterDispatch m id).map _
    | bindSlot slot id =>
        apply Atomic.map
        intro m failure hFails
        rw [run_bindSlot] at hFails ⊢
        exact bindSlot_error hFails
    | armSlot slot id => exact (atomic_of_settle fun m => run_armSlot m slot id).map _
    | closeSlot slot => exact (atomic_of_settle fun m => run_closeSlot m slot).map _
    | registerScope id kind => exact (atomic_of_settle fun m => run_registerScope m id kind).map _
    | teardownScope id => exact (atomic_of_settle fun m => run_teardownScope m id).map _
    | destroyScope id => exact (atomic_of_settle fun m => run_destroyScope m id).map _
    | scheduleOneShot scope due slot =>
        exact (atomic_of_settle fun m => run_schedule m scope due none slot).map _
    | scheduleRepeating scope due interval slot =>
        exact (atomic_of_settle fun m => run_scheduleRepeating m scope due interval slot).map _
    | cancel handle => exact (atomic_of_settle fun m => run_cancel m handle).map _
    | advance toTick => exact (atomic_of_settle fun m => run_advance m toTick).map _
    | pump nowMs => exact (atomic_of_settle fun m => run_advance m nowMs).map _
    | drainRecords => exact (atomic_of_settle run_drainRecords).map _
  exact hAtomic m failure h

/-- An advance whose second timer exceeds the budget, a slot that is bound to another id, and a
timer of a cancelled generation: the timers and what waits for them are as before. -/
theorem operations_atomic_late :
    ∃ trace m, Transition.Run TimerManager.Step
      (.withBudget 7 .tickFrame .contract { TimerBudget.default with maxFiringsPerAdvance := 3 })
      trace m ∧
      m.timers.map (fun t => t.record.isSome) = [true, true] ∧
      (m.slots.map fun s => s.queue.length) = [1, 0] ∧
      (Attempt.run (TimerCall.advance 9).exec m).1 = .error .scheduleBudgetExceeded ∧
      (Attempt.run (TimerCall.advance 9).exec m).2 = m ∧
      (Attempt.run (TimerCall.bindSlot ⟨0, 1⟩ ⟨9⟩).exec m).2 = m ∧
      (Attempt.run (TimerCall.cancel ⟨1, 2, 7⟩).exec m).2 = m := by
  have run : Transition.Run TimerManager.Step (.withBudget 7 .tickFrame .contract
      { TimerBudget.default with maxFiringsPerAdvance := 3 }) _ _ :=
    ((((((((Transition.Run.nil _).snoc
      (@TimerManager.Step.registerScope _ _ 1 .world _ rfl)).snoc
      (.createSlot rfl)).snoc (.createSlot rfl)).snoc (.bindSlot _ ⟨0, 1⟩ ⟨8⟩)).snoc
      (.bindSlot _ ⟨1, 1⟩ ⟨9⟩)).snoc
      (@TimerManager.Step.scheduleRepeating _ _ ⟨1, .world, 1⟩ 3 3 ⟨0, 1⟩ _ rfl)).snoc
      (@TimerManager.Step.scheduleRepeating _ _ ⟨1, .world, 1⟩ 4 1 ⟨1, 1⟩ _ rfl)).snoc
      (@TimerManager.Step.advance _ _ 3 _ rfl)
  exact ⟨_, _, run, rfl, rfl, rfl, operations_atomic _ (.advance 9) _ rfl,
    operations_atomic _ (.bindSlot ⟨0, 1⟩ ⟨9⟩) .slotClosed rfl,
    operations_atomic _ (.cancel ⟨1, 2, 7⟩) .staleHandle rfl⟩

end Timer

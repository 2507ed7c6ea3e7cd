import LumioNativeCore.Timer.Effect

/-! The configured maxima. No call takes the manager past one of them. -/
namespace Timer

namespace Roster

variable {limits : TimerLimits} {budget : TimerBudget} {r r' : Roster}

structure Bounded (limits : TimerLimits) (budget : TimerBudget) (r : Roster) : Prop where
  scopes : r.scopes.size ≤ budget.maxScopes
  timers : r.timers.length ≤ budget.maxTimers
  active : ∀ id s, r.scopes.get id = some s → s.active ≤ limits.maxActiveTimersPerScope

theorem Bounded.updateScope (h : r.Bounded limits budget) (id : Nat)
    {f : ScopeRecord → ScopeRecord}
    (hActive : ∀ s, r.scopes.get id = some s → (f s).active ≤ limits.maxActiveTimersPerScope) :
    (r.updateScope id f).Bounded limits budget where
  scopes := by
    rw [Roster.updateScope, Table.size_modify]
    exact h.scopes
  timers := h.timers
  active := by
    intro other s hGet
    rw [Roster.updateScope, Table.get_modify] at hGet
    obtain ⟨before, hBefore, rfl⟩ := Option.map_eq_some_iff.mp hGet
    split_ifs with hSame
    · exact hActive before (hSame ▸ hBefore)
    · exact h.active other before hBefore

theorem Bounded.retireIndex (h : r.Bounded limits budget) (i : Nat) :
    (r.retireIndex i).Bounded limits budget := by
  have hSize : (r.retireIndex i).timers.length = r.timers.length := by
    rw [timers_retireIndex, List.length_modify]
  rw [Roster.retireIndex] at hSize ⊢
  cases hCell : r.timers[i]? with
  | none => exact h
  | some t =>
      cases hRecord : t.record with
      | none => simpa only [hRecord] using h
      | some record =>
          simp only [hCell, hRecord] at hSize ⊢
          have hScope := h.updateScope record.scope.scopeId
            (f := fun s => { s with active := s.active - 1 })
            fun s hGet => (Nat.sub_le _ 1).trans (h.active _ s hGet)
          exact ⟨hScope.scopes, hSize.trans_le h.timers, hScope.active⟩

/-- Writing to timers and retiring them takes no more room. -/
theorem Bounded.interim (h : r.Bounded limits budget) (hInterim : Interim r r') :
    r'.Bounded limits budget := by
  induction hInterim with
  | refl => exact h
  | retireIndex i _ ih => exact ih.retireIndex i
  | updateTimer i _ _ ih =>
      refine ⟨ih.scopes, ?_, ih.active⟩
      rw [Roster.updateTimer, List.length_modify]
      exact ih.timers

theorem scopes_place (r : Roster) (c : Nat) (record : TimerRecord) :
    (r.place c record).2.scopes = r.scopes := by
  rw [Roster.place]
  cases r.timerFree <;> rfl

/-- A record is placed in a new cell only if no cell is free. -/
theorem Bounded.place (h : r.Bounded limits budget) (c : Nat) (record : TimerRecord)
    (hRoom : r.timerFree = [] → r.timers.length < budget.maxTimers) :
    (r.place c record).2.Bounded limits budget := by
  rw [Roster.place]
  cases hList : r.timerFree with
  | nil =>
      refine ⟨h.scopes, ?_, h.active⟩
      rw [List.length_append, List.length_singleton]
      exact hRoom hList
  | cons index rest =>
      refine ⟨h.scopes, ?_, h.active⟩
      rw [List.length_modify]
      exact h.timers

end Roster

namespace Desk

variable {limits : TimerLimits} {budget : TimerBudget} {d d' : Desk}

structure Bounded (limits : TimerLimits) (budget : TimerBudget) (d : Desk) : Prop where
  slots : d.slots.length ≤ budget.maxSlots
  pending : d.pending ≤ budget.maxPendingRecords
  depth : ∀ s ∈ d.slots, s.queue.length ≤ limits.deliveryQueueDepthPerSlot

/-- Writing every slot, with no queue made longer. -/
theorem Bounded.map (h : d.Bounded limits budget) {pending : Nat} (hPending : pending ≤ d.pending)
    {f : SlotRecord → SlotRecord} (hQueue : ∀ s, (f s).queue.length ≤ s.queue.length) :
    Bounded limits budget { pending := pending, slots := d.slots.map f } where
  slots := by
    rw [List.length_map]
    exact h.slots
  pending := hPending.trans h.pending
  depth := by
    intro s hSlot
    obtain ⟨before, hBefore, rfl⟩ := List.mem_map.mp hSlot
    exact (hQueue before).trans (h.depth before hBefore)

theorem Bounded.updateSlot (h : d.Bounded limits budget) (i : Nat) {f : SlotRecord → SlotRecord}
    (hQueue : ∀ s, d.slots[i]? = some s →
      (f s).queue.length ≤ limits.deliveryQueueDepthPerSlot) :
    (d.updateSlot i f).Bounded limits budget where
  slots := by
    rw [Desk.updateSlot, List.length_modify]
    exact h.slots
  pending := h.pending
  depth := by
    intro s hSlot
    obtain ⟨k, hCell⟩ := List.mem_iff_getElem?.mp hSlot
    rw [Desk.updateSlot, List.getElem?_modify] at hCell
    obtain ⟨before, hBefore, rfl⟩ := Option.map_eq_some_iff.mp hCell
    split_ifs with hSame
    · exact hQueue before (hSame ▸ hBefore)
    · exact h.depth before (List.mem_of_getElem? hBefore)

theorem Bounded.enqueue (h : d.Bounded limits budget) {record : FiringRecord} {scope : TimerScope}
    {slot : CallbackSlot} (hResult : d.enqueue limits budget record scope slot = .ok d') :
    d'.Bounded limits budget := by
  obtain ⟨hPending, ⟨s, hSlot, -, hDepth⟩, rfl⟩ := enqueue_eq_ok.mp hResult
  have hWrite := h.updateSlot slot.index
    (f := fun s => { s with queue := s.queue ++ [⟨record, scope, true⟩] }) <| by
      intro other hOther
      obtain rfl := Option.some.inj ((slot_eq_ok.mp hSlot).1.symm.trans hOther)
      rw [List.length_append, List.length_singleton]
      exact hDepth
  exact ⟨hWrite.slots, hPending, hWrite.depth⟩

end Desk

theorem Journal.length_diagnose {budget : TimerBudget} {j : Journal}
    (h : j.diagnostics.length ≤ budget.maxDiagnostics) (code : TimerError)
    (record : FiringRecord) :
    (j.diagnose budget code record).diagnostics.length ≤ budget.maxDiagnostics := by
  rw [Journal.diagnose]
  split_ifs with hRoom
  · rw [List.length_append, List.length_singleton]
    exact hRoom
  · exact h

namespace TimerManager

variable {limits : TimerLimits} {budget : TimerBudget} {m m' : TimerManager}

/-- The manager is configured with `limits` and `budget` and keeps to them. -/
structure Bounded (limits : TimerLimits) (budget : TimerBudget) (m : TimerManager) : Prop where
  sameLimits : m.limits = limits
  sameBudget : m.budget = budget
  roster : m.toRoster.Bounded limits budget
  desk : m.toDesk.Bounded limits budget
  diagnostics : m.diagnostics.length ≤ budget.maxDiagnostics

theorem bounded_withBudget (context : Nat) (mode : TimerMode) (limits : TimerLimits)
    (budget : TimerBudget) : (withBudget context mode limits budget).Bounded limits budget where
  sameLimits := rfl
  sameBudget := rfl
  roster := ⟨Nat.zero_le _, Nat.zero_le _, fun id s hGet => by cases hGet⟩
  desk := ⟨Nat.zero_le _, Nat.zero_le _, fun s hSlot => absurd hSlot List.not_mem_nil⟩
  diagnostics := Nat.zero_le _

namespace Bounded

/-! Slots. -/

theorem createSlot (h : m.Bounded limits budget) {slot : CallbackSlot}
    (hResult : m.createSlot = .ok (slot, m')) : m'.Bounded limits budget := by
  simp only [TimerManager.createSlot, Check.then_eq_ok] at hResult
  obtain ⟨-, hResult⟩ := hResult
  split_ifs at hResult with hFull
  obtain ⟨-, rfl⟩ := Prod.mk.inj (Except.ok.inj hResult)
  rw [h.sameBudget, ge_iff_le, Nat.not_le] at hFull
  refine { h with desk := ⟨?_, h.desk.pending, ?_⟩ }
  · rw [List.length_append, List.length_singleton]
    exact hFull
  · intro s hSlot
    rcases List.mem_append.mp hSlot with hOld | hNew
    · exact h.desk.depth s hOld
    · rw [List.mem_singleton.mp hNew]
      exact Nat.zero_le _

theorem armSlot (h : m.Bounded limits budget) {slot : CallbackSlot} {id : DispatchId}
    (hResult : m.armSlot slot id = .ok m') : m'.Bounded limits budget := by
  simp only [TimerManager.armSlot, Check.then_eq_ok] at hResult
  obtain ⟨-, hResult⟩ := hResult
  split_ifs at hResult
  obtain ⟨s, hSlot, hResult⟩ := Check.bind_eq_ok.mp hResult
  cases hState : s.state with
  | unbound =>
      simp only [hState, Except.ok.injEq] at hResult
      subst hResult
      have hDesk := h.desk.updateSlot slot.index
        (f := fun s => { s with state := .armed, dispatchId := some id })
        fun s hSlot => h.desk.depth s (List.mem_of_getElem? hSlot)
      exact { h with desk := hDesk }
  | armed =>
      simp only [hState] at hResult
      split_ifs at hResult
      obtain rfl := Except.ok.inj hResult
      exact h
  | closed => simp [hState] at hResult

theorem registerDispatch (h : m.Bounded limits budget) {id : DispatchId}
    (hResult : m.tryRegisterDispatch id = .ok m') : m'.Bounded limits budget := by
  rw [tryRegisterDispatch_eq_ok hResult]
  exact { h with }

theorem bindSlot (h : m.Bounded limits budget) (slot : CallbackSlot) (id : DispatchId) :
    (m.bindSlot slot id).2.Bounded limits budget := by
  rw [TimerManager.bindSlot]
  cases m.checkBind slot id with
  | error failure => exact h
  | ok _ =>
      cases hRegister : m.tryRegisterDispatch id with
      | error failure => exact h
      | ok registered =>
          have hRegistered := h.registerDispatch hRegister
          cases hArm : registered.armSlot slot id with
          | error failure =>
              simp only [hArm]
              exact hRegistered
          | ok armed =>
              simp only [hArm]
              exact hRegistered.armSlot hArm

theorem closeSlot (h : m.Bounded limits budget) {slot : CallbackSlot}
    (hResult : m.closeSlot slot = .ok m') : m'.Bounded limits budget := by
  obtain ⟨s, hSlot, rfl⟩ := closeSlot_eq_ok hResult
  refine { h with desk := h.desk.updateSlot slot.index fun s hSlot => ?_ }
  rw [SlotRecord.invalidate, List.length_map]
  exact h.desk.depth s (List.mem_of_getElem? hSlot)

theorem invalidate (h : m.Bounded limits budget) (p : QueueItem → Bool) :
    (m.invalidate p).Bounded limits budget :=
  { h with desk := h.desk.map (Nat.le_refl _) fun _ => (List.length_map _).le }

/-! Scopes. -/

theorem registerScope (h : m.Bounded limits budget) {id : Nat} {kind : ScopeKind}
    {scope : TimerScope} (hResult : m.registerScope id kind = .ok (scope, m')) :
    m'.Bounded limits budget := by
  simp only [TimerManager.registerScope, Check.then_eq_ok] at hResult
  obtain ⟨-, hResult⟩ := hResult
  split at hResult
  · split_ifs at hResult
    · obtain ⟨-, rfl⟩ := Prod.mk.inj (Except.ok.inj hResult)
      exact h
    · obtain ⟨-, rfl⟩ := Prod.mk.inj (Except.ok.inj hResult)
      exact { h with roster := h.roster.updateScope id fun _ _ => Nat.zero_le _ }
  · rename_i hAbsent
    split_ifs at hResult with hFull
    obtain ⟨-, rfl⟩ := Prod.mk.inj (Except.ok.inj hResult)
    rw [h.sameBudget, ge_iff_le, Nat.not_le] at hFull
    refine { h with roster := ⟨?_, h.roster.timers, ?_⟩ }
    · rw [Table.size_insert]
      exact hFull
    · intro other s hGet
      rw [Table.get_insert] at hGet
      split_ifs at hGet
      · obtain rfl := Option.some.inj hGet
        exact Nat.zero_le _
      · exact h.roster.active other s hGet

theorem retireScope (h : m.Bounded limits budget) (id : Nat) {f : ScopeRecord → ScopeRecord}
    (hActive : ∀ s, (f s).active = s.active) :
    ((m.retireScopeTimers id).updateScope id f).Bounded limits budget := by
  have hRetired : (m.toRoster.retireScope id).Bounded limits budget :=
    h.roster.interim (Roster.Interim.refl.retireScope id)
  refine { h.invalidate fun item => item.scope.scopeId == id with
    roster := hRetired.updateScope id fun s hGet => ?_ }
  rw [hActive]
  exact hRetired.active id s hGet

/-! Timers. -/

theorem schedule (h : m.Bounded limits budget) {scope : TimerScope} {due : Nat}
    {interval : Option Nat} {slot : CallbackSlot} {handle : TimerHandle}
    (hResult : m.schedule scope due interval slot = .ok (handle, m')) :
    m'.Bounded limits budget := by
  simp only [TimerManager.schedule, Check.then_eq_ok] at hResult
  obtain ⟨-, hResult⟩ := hResult
  obtain ⟨resolved, hScope, hResult⟩ := Check.bind_eq_ok.mp hResult
  obtain ⟨dispatch, -, hResult⟩ := Check.bind_eq_ok.mp hResult
  split_ifs at hResult with hDue hFull
  simp only [h.sameLimits, h.sameBudget, not_or, not_and, ge_iff_le, Nat.not_le] at hFull
  obtain ⟨-, hActive, hRoom⟩ := hFull
  cases hNext : Word.checkedAdd Word.max64 m.nextSequence 1 with
  | none => simp [hNext] at hResult
  | some next =>
      simp only [hNext, Except.ok.injEq, Prod.mk.injEq] at hResult
      obtain ⟨-, rfl⟩ := hResult
      have hPlaced := h.roster.place m.context (m.scheduledRecord scope due interval slot dispatch)
        hRoom
      have hCounted := hPlaced.updateScope scope.scopeId
        (f := fun s => { s with active := s.active + 1 }) <| by
          intro s hGet
          rw [Roster.scopes_place, (resolveScope_eq_ok.mp hScope).1] at hGet
          obtain rfl := Option.some.inj hGet
          exact hActive
      exact { h with roster := ⟨hCounted.scopes, hCounted.timers, hCounted.active⟩ }

theorem retire (h : m.Bounded limits budget) (handle : TimerHandle) :
    (m.retire handle).Bounded limits budget :=
  { h with roster := h.roster.interim (Roster.Interim.refl.retire m.context handle) }

/-- The firing loop queues a record only where there is room. -/
theorem serveAll (h : m.Bounded limits budget) (records : List FiringRecord) :
    (m.serveAll records).2.Bounded limits budget := by
  revert h
  apply serveAll_induction (motive := fun m _ result =>
    m.Bounded limits budget → result.2.Bounded limits budget)
  · exact fun m h => h
  · exact fun _ _ _ _ ih => ih
  · intro m record rest timer desk _ hQueue ih h
    rw [h.sameLimits, h.sameBudget] at hQueue
    have hRoster : (m.fired record timer desk).toRoster.Bounded limits budget := by
      rw [fired]
      split_ifs
      · exact h.roster.interim (Roster.Interim.refl.updateTimer _ fun _ => rfl)
      · exact h.roster
    exact ih { h with roster := hRoster, desk := h.desk.enqueue hQueue }
  · intro m record rest timer code _ _ ih h
    have hJournal := Journal.length_diagnose h.diagnostics code record
    rw [← h.sameBudget] at hJournal
    exact ih { h.retire record.handle with diagnostics := h.sameBudget ▸ hJournal }

theorem traversed (h : m.Bounded limits budget) (toTick : Nat) :
    (m.traversed toTick).2.Bounded limits budget := by
  have hServed := h.serveAll (m.window toTick)
  obtain ⟨r, hInterim, hRearm⟩ := (m.serveAll (m.window toTick)).2.rearmAll_frame (m.nextDue toTick)
  rw [TimerManager.traversed, hRearm]
  exact { hServed with roster := hServed.roster.interim hInterim }

theorem drainInternal (h : m.Bounded limits budget) (emitTrace : Bool) :
    (m.drainInternal emitTrace).2.Bounded limits budget := by
  obtain ⟨hInterim, hDiagnostics⟩ := m.drainInternal_interim emitTrace
  have hDrained := (m.drainInternal_spec emitTrace).drained
  exact
    { sameLimits := (congrArg TimerConfig.limits hDrained.config).trans h.sameLimits
      sameBudget := (congrArg TimerConfig.budget hDrained.config).trans h.sameBudget
      roster := h.roster.interim hInterim
      desk := by
        rw [hDrained.desk]
        exact h.desk.map (Nat.zero_le _) fun _ => Nat.zero_le _
      diagnostics := by
        rw [hDiagnostics]
        exact h.diagnostics }

theorem shutdown (h : m.Bounded limits budget) : m.shutdown.Bounded limits budget := by
  refine { h.invalidate fun _ => true with roster := ⟨?_, ?_, ?_⟩ }
  · rw [TimerManager.shutdown, Table.size_map]
    exact h.roster.scopes
  · rw [TimerManager.shutdown, List.length_map]
    exact h.roster.timers
  · intro id s hGet
    rw [TimerManager.shutdown, Table.get_map] at hGet
    obtain ⟨before, -, rfl⟩ := Option.map_eq_some_iff.mp hGet
    exact Nat.zero_le _

/-- No call takes the manager past a configured maximum. -/
theorem step (h : m.Bounded limits budget) {event : TimerEvent} (hStep : Step m event m') :
    m'.Bounded limits budget := by
  cases hStep with
  | failed => exact h
  | createSlot result => exact h.createSlot result
  | registerDispatch result => exact h.registerDispatch result
  | removeDispatch id => exact { h with }
  | bindSlot slot id => exact h.bindSlot slot id
  | armSlot result => exact h.armSlot result
  | closeSlot result => exact h.closeSlot result
  | registerScope result => exact h.registerScope result
  | teardownScope result =>
      obtain ⟨generation, rfl⟩ := teardownScope_eq_ok result
      exact h.retireScope _ fun _ => rfl
  | destroyScope result =>
      rw [destroyScope_eq_ok result]
      exact h.retireScope _ fun _ => rfl
  | scheduleOneShot result => exact h.schedule result
  | scheduleRepeating result =>
      simp only [TimerManager.scheduleRepeating, Check.then_eq_ok] at result
      obtain ⟨-, result⟩ := result
      split_ifs at result
      exact h.schedule result
  | cancel result =>
      rw [cancel_eq_ok result]
      exact (h.invalidate _).retire _
  | @advance m' toTick report result =>
      obtain ⟨-, ⟨-, -, rfl⟩ | ⟨-, -, hTraversed⟩⟩ := advance_eq_ok.mp result
      · exact h
      · obtain rfl : m' = (m.traversed toTick).2 := congrArg Prod.snd hTraversed
        exact h.traversed toTick
  | drain => exact h.drainInternal true
  | drainRecords result =>
      simp only [TimerManager.drainRecords, Check.then_eq_ok, Except.ok.injEq] at result
      obtain rfl : (m.drainInternal false).2 = m' := congrArg Prod.snd result.2
      exact h.drainInternal false
  | shutdown => exact h.shutdown
  | takeDiagnostics => exact { h with diagnostics := Nat.zero_le _ }
  | clearTrace => exact { h with }

theorem run (h : m.Bounded limits budget) {trace : List TimerEvent}
    (run : Transition.Run Step m trace m') : m'.Bounded limits budget :=
  run.preserves (Bounded limits budget) (fun _ _ _ h hStep => h.step hStep) h

/-- Under a valid budget the indices and counts that are cast to `u32` fit. -/
theorem fits (h : m.Bounded limits budget) (hValid : budget.validate = .ok ()) :
    m.timers.length ≤ Word.max32 ∧ m.slots.length ≤ Word.max32 ∧ m.pending ≤ Word.max32 := by
  rw [TimerBudget.validate] at hValid
  split_ifs at hValid with hInvalid
  simp only [not_or, gt_iff_lt, Nat.not_lt] at hInvalid
  obtain ⟨-, -, -, hSlots, hTimers, -, hPending, -⟩ := hInvalid
  exact ⟨h.roster.timers.trans hTimers, h.desk.slots.trans hSlots, h.desk.pending.trans hPending⟩

end Bounded
end TimerManager
end Timer

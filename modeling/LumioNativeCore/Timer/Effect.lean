import LumioNativeCore.Timer.Draining

/-! What a call can do, told apart by what it does to timers and queued items.
The invariant and the properties of deliveries are proved along these cases. -/
namespace Timer

/-- The call neither schedules, advances nor drains. -/
def TimerEvent.IsPlain : TimerEvent → Prop
  | .scheduled .. => False
  | .advanced _ => False
  | .drained _ => False
  | _ => True

namespace TimerManager

variable {m m' : TimerManager}

/-- `m'` is `m` with some timers retired, some items invalidated and some slots
bound, closed or added. -/
structure Shrinks (m m' : TimerManager) : Prop where
  context : m'.context = m.context
  clock : m'.toClock = m.toClock
  running : m'.running = true → m.running = true
  getTimer : ∀ h record, m'.getTimer h = .ok record → m.getTimer h = .ok record
  issued : m'.running = true → ∀ h, m'.Issued m'.context h ↔ m.Issued m.context h
  desk : ∃ keep, Desk.Rewrites keep m.toDesk m'.toDesk

theorem Shrinks.refl (m : TimerManager) : Shrinks m m :=
  ⟨rfl, rfl, fun h => h, fun _ _ h => h, fun _ _ => Iff.rfl, _, Desk.rewrites_refl m.toDesk⟩

theorem shrinks_rebinds (h : Rebinds m m') : Shrinks m m' := by
  obtain ⟨d, table, hRewrites, rfl⟩ := h
  exact ⟨rfl, rfl, fun h => h, fun _ _ h => h, fun _ _ => Iff.rfl, _, hRewrites⟩

theorem shrinks_retireScope (m : TimerManager) (id : Nat) (f : ScopeRecord → ScopeRecord) :
    Shrinks m ((m.retireScopeTimers id).updateScope id f) where
  context := rfl
  clock := rfl
  running h := h
  getTimer := (Roster.retires_retireScope m.context m.toRoster id).getTimer
  issued _ := (Roster.retires_retireScope m.context m.toRoster id).issued
  desk := ⟨_, Desk.rewrites_invalidate m.toDesk fun item => item.scope.scopeId == id⟩

theorem shrinks_cancel (m : TimerManager) (h : TimerHandle) :
    Shrinks m ((m.invalidate fun item => item.record.handle == h).retire h) where
  context := rfl
  clock := rfl
  running h := h
  getTimer := (Roster.retires_retire m.context m.toRoster h).getTimer
  issued _ := (Roster.retires_retire m.context m.toRoster h).issued
  desk := ⟨_, Desk.rewrites_invalidate m.toDesk fun item => item.record.handle == h⟩

theorem shrinks_shutdown (m : TimerManager) : Shrinks m m.shutdown where
  context := rfl
  clock := rfl
  running h := Bool.noConfusion h
  getTimer h record hGet := absurd hGet (getTimer_shutdown m h record)
  issued h := Bool.noConfusion h
  desk := ⟨_, Desk.rewrites_invalidate m.toDesk fun _ => true⟩

/-- The clearing of diagnostics and traces. -/
theorem shrinks_journal (m : TimerManager) (j : Journal) :
    Shrinks m { m with toJournal := j } :=
  ⟨rfl, rfl, fun h => h, fun _ _ h => h, fun _ _ => Iff.rfl, _, Desk.rewrites_refl m.toDesk⟩

theorem shrinks_closeSlot {slot : CallbackSlot} (hResult : m.closeSlot slot = .ok m') :
    Shrinks m m' := by
  obtain ⟨s, hSlot, rfl⟩ := closeSlot_eq_ok hResult
  exact ⟨rfl, rfl, fun h => h, fun _ _ h => h, fun _ _ => Iff.rfl, _, rewrites_closeSlot hSlot⟩

theorem shrinks_registerScope {id : Nat} {kind : ScopeKind} {scope : TimerScope}
    (hResult : m.registerScope id kind = .ok (scope, m')) : Shrinks m m' := by
  obtain rfl | ⟨scopes, rfl, -⟩ := registerScope_eq_ok hResult
  · exact Shrinks.refl m'
  · exact ⟨rfl, rfl, fun h => h, fun _ _ h => h, fun _ _ => Iff.rfl, _,
      Desk.rewrites_refl m.toDesk⟩

/-- A call, by what it does to timers and items. -/
inductive Effect (m : TimerManager) : TimerEvent → TimerManager → Prop where
  | shrinks {event : TimerEvent} {m' : TimerManager} (plain : event.IsPlain)
      (shrinks : Shrinks m m') : Effect m event m'
  | placed {record : TimerRecord} (running : m.running = true)
      (scope : Roster.Resolves m.scopes record.scope) (due : m.committedTick < record.due)
      (interval : record.interval ≠ some 0) (sequence : record.sequence = m.nextSequence)
      (queued : record.queued = false) :
      Effect m (.scheduled (m.toRoster.place m.context record).1 record.scope record.interval
        record.slot) (m.placed record)
  | paused : Effect m (.advanced ⟨[], []⟩) m
  | traversed {toTick : Nat} (running : m.running = true) (later : m.committedTick < toTick) :
      Effect m (.advanced (m.traversed toTick).1) (m.traversed toTick).2
  | drained {report : DrainReport} {m' : TimerManager} (spec : DrainSpec m report m') :
      Effect m (.drained report) m'

theorem minInterval_pos {horizon : Nat} (h : Sound horizon m) (hRunning : m.ensureRunning = .ok ()) :
    0 < m.minInterval := by
  have hValid := h.config.symm.trans (ensureRunning_eq_ok.mp hRunning).2
  rw [configErrorOf, TimerLimits.validate] at hValid
  rw [minInterval]
  split_ifs at hValid with hInterval
  rw [not_or] at hInterval
  cases m.mode
  · exact Nat.pos_of_ne_zero hInterval.2
  · exact Nat.pos_of_ne_zero hInterval.1

theorem Step.effect {horizon : Nat} {event : TimerEvent} (hSound : Sound horizon m)
    (hStep : Step m event m') : Effect m event m' := by
  cases hStep with
  | failed => exact .shrinks trivial (Shrinks.refl m)
  | createSlot result => exact .shrinks trivial (shrinks_rebinds (rebinds_createSlot result))
  | registerDispatch result =>
      rw [tryRegisterDispatch_eq_ok result]
      exact .shrinks trivial (shrinks_rebinds ⟨m.toDesk, _, Desk.rewrites_refl m.toDesk, rfl⟩)
  | removeDispatch id =>
      exact .shrinks trivial (shrinks_rebinds ⟨m.toDesk, _, Desk.rewrites_refl m.toDesk, rfl⟩)
  | bindSlot slot id => exact .shrinks trivial (shrinks_rebinds (rebinds_bindSlot m slot id))
  | armSlot result => exact .shrinks trivial (shrinks_rebinds (rebinds_armSlot result))
  | closeSlot result => exact .shrinks trivial (shrinks_closeSlot result)
  | registerScope result => exact .shrinks trivial (shrinks_registerScope result)
  | teardownScope result =>
      obtain ⟨generation, rfl⟩ := teardownScope_eq_ok result
      exact .shrinks trivial (shrinks_retireScope m _ _)
  | destroyScope result =>
      rw [destroyScope_eq_ok result]
      exact .shrinks trivial (shrinks_retireScope m _ _)
  | scheduleOneShot result =>
      obtain ⟨hRunning, hScope, hDue, dispatch, rfl, rfl⟩ := schedule_eq_ok result
      exact .placed hRunning hScope hDue (by simp [scheduledRecord]) rfl rfl
  | @scheduleRepeating m' scope due interval slot handle result =>
      simp only [TimerManager.scheduleRepeating, Check.then_eq_ok] at result
      obtain ⟨hChecked, result⟩ := result
      have hMin := minInterval_pos hSound hChecked
      split_ifs at result with hInterval
      obtain ⟨hRunning, hScope, hDue, dispatch, rfl, rfl⟩ := schedule_eq_ok result
      apply Effect.placed hRunning hScope hDue _ rfl rfl
      simp only [scheduledRecord, ne_eq, Option.some.injEq]
      omega
  | cancel result =>
      rw [cancel_eq_ok result]
      exact .shrinks trivial (shrinks_cancel m _)
  | advance result =>
      obtain ⟨hRunning, ⟨-, rfl, rfl⟩ | ⟨hLater, -, hTraversed⟩⟩ := advance_eq_ok.mp result
      · exact .paused
      · obtain ⟨rfl, rfl⟩ := Prod.mk.inj hTraversed
        exact .traversed (ensureRunning_eq_ok.mp hRunning).1 hLater
  | drain => exact .drained (m.drainInternal_spec true)
  | drainRecords result => exact .drained (drainRecords_eq_ok result)
  | shutdown => exact .shrinks trivial (shrinks_shutdown m)
  | takeDiagnostics => exact .shrinks trivial (shrinks_journal m _)
  | clearTrace => exact .shrinks trivial (shrinks_journal m _)

/-! The invariant holds between the calls of every run. -/

theorem Upcoming.shrinks (h : Upcoming m) (hShrinks : Shrinks m m') : Upcoming m' := by
  intro handle record hGet
  rw [hShrinks.clock]
  exact h handle record (hShrinks.getTimer handle record hGet)

theorem Settled.schedule (h : Settled m) {scope : TimerScope} {due : Nat} {interval : Option Nat}
    {slot : CallbackSlot} {handle : TimerHandle} (hInterval : interval ≠ some 0)
    (hResult : m.schedule scope due interval slot = .ok (handle, m')) : Settled m' := by
  obtain ⟨hRunning, hScope, hDue, dispatch, -, rfl⟩ := schedule_eq_ok hResult
  exact ⟨h.sound.placed hRunning hScope rfl hInterval rfl,
    h.upcoming.placed (h.sound.free hRunning) hDue⟩

theorem Settled.step {event : TimerEvent} (h : Settled m) (hStep : Step m event m') :
    Settled m' := by
  have hPlain : Shrinks m m' → Sound m.committedTick m' → Settled m' := by
    intro hShrinks hSound
    refine ⟨?_, h.upcoming.shrinks hShrinks⟩
    rwa [hShrinks.clock]
  cases hStep with
  | failed => exact h
  | createSlot result =>
      have hRebinds := rebinds_createSlot result
      exact hPlain (shrinks_rebinds hRebinds) (h.sound.rebinds hRebinds)
  | registerDispatch result =>
      have hRebinds : Rebinds m m' :=
        ⟨m.toDesk, _, Desk.rewrites_refl m.toDesk, tryRegisterDispatch_eq_ok result⟩
      exact hPlain (shrinks_rebinds hRebinds) (h.sound.rebinds hRebinds)
  | removeDispatch id =>
      have hRebinds : Rebinds m (m.removeDispatchBinding id) :=
        ⟨m.toDesk, _, Desk.rewrites_refl m.toDesk, rfl⟩
      exact hPlain (shrinks_rebinds hRebinds) (h.sound.rebinds hRebinds)
  | bindSlot slot id =>
      have hRebinds := rebinds_bindSlot m slot id
      exact hPlain (shrinks_rebinds hRebinds) (h.sound.rebinds hRebinds)
  | armSlot result =>
      have hRebinds := rebinds_armSlot result
      exact hPlain (shrinks_rebinds hRebinds) (h.sound.rebinds hRebinds)
  | closeSlot result => exact hPlain (shrinks_closeSlot result) (h.sound.closeSlot result)
  | registerScope result =>
      exact hPlain (shrinks_registerScope result) (h.sound.registerScope result)
  | teardownScope result =>
      obtain ⟨generation, rfl⟩ := teardownScope_eq_ok result
      exact hPlain (shrinks_retireScope m _ _) (h.sound.retireScope_rescope _ fun _ => rfl)
  | destroyScope result =>
      obtain rfl := destroyScope_eq_ok result
      exact hPlain (shrinks_retireScope m _ _) (h.sound.retireScope_rescope _ fun _ => rfl)
  | scheduleOneShot result =>
      exact h.schedule (by simp) result
  | @scheduleRepeating m' scope due interval slot handle result =>
      simp only [TimerManager.scheduleRepeating, Check.then_eq_ok] at result
      obtain ⟨hChecked, result⟩ := result
      have hMin := minInterval_pos h.sound hChecked
      split_ifs at result with hInterval
      apply h.schedule _ result
      rw [ne_eq, Option.some.injEq]
      omega
  | cancel result =>
      obtain rfl := cancel_eq_ok result
      exact hPlain (shrinks_cancel m _) (h.sound.cancelled _)
  | advance result => exact h.advance result
  | drain => exact (m.drainInternal_spec true).settled h
  | drainRecords result => exact (drainRecords_eq_ok result).settled h
  | shutdown => exact hPlain (shrinks_shutdown m) h.sound.shutdown
  | takeDiagnostics => exact ⟨{ h.sound with }, h.upcoming⟩
  | clearTrace => exact ⟨{ h.sound with }, h.upcoming⟩

theorem settled_withBudget (context : Nat) (mode : TimerMode) (limits : TimerLimits)
    (budget : TimerBudget) : Settled (withBudget context mode limits budget) := by
  have hNone : ∀ h record, (withBudget context mode limits budget).getTimer h ≠ .ok record := by
    intro h record hGet
    obtain ⟨-, t, hCell, -⟩ := Roster.getTimer_eq_ok.mp hGet
    cases hCell
  have hEmpty : ∀ k item, ¬(withBudget context mode limits budget).toDesk.Holds k item := by
    rintro k item ⟨s, hSlot, -⟩
    cases hSlot
  constructor
  · exact
      { config := rfl
        booked := ⟨rfl, fun id scope hGet => by cases hGet⟩
        resolving := fun h record hGet => absurd hGet (hNone h record)
        free := fun _ => ⟨List.nodup_nil, fun i => by simp [withBudget]⟩
        counted := rfl
        sequence := fun h record hGet => absurd hGet (hNone h record)
        distinct := fun h _ record _ hGet => absurd hGet (hNone h record)
        interval := fun h record hGet => absurd hGet (hNone h record)
        queued := fun h record hGet => absurd hGet (hNone h record)
        issued := fun _ k item hItem => absurd hItem (hEmpty k item)
        due := fun item hItem => absurd hItem (List.not_mem_nil)
        keys := List.nodup_nil
        owner := fun k item _ hItem => absurd hItem (hEmpty k item)
        siblings := fun k item _ _ hItem => absurd hItem (hEmpty k item) }
  · exact fun h record hGet => absurd hGet (hNone h record)

theorem Settled.run {trace : List TimerEvent} (h : Settled m)
    (run : Transition.Run Step m trace m') : Settled m' :=
  run.preserves Settled (fun _ _ _ h hStep => h.step hStep) h

/-- What every call keeps by its effect holds along every run. -/
theorem Settled.along (h : Settled m) (property : List TimerEvent → TimerManager → Prop)
    (hInitial : property [] m)
    (hCall : ∀ trace t event w, property trace t → Settled t → Step t event w → Effect t event w →
      property (trace ++ [event]) w)
    {trace : List TimerEvent} (run : Transition.Run Step m trace m') : property trace m' := by
  have hRun : property trace m' ∧ Settled m' := by
    apply run.invariant (fun trace m => property trace m ∧ Settled m) ⟨hInitial, h⟩
    rintro trace t event w ⟨hProperty, hSettled⟩ hStep
    exact ⟨hCall trace t event w hProperty hSettled hStep (hStep.effect hSettled.sound),
      hSettled.step hStep⟩
  exact hRun.1

end TimerManager
end Timer

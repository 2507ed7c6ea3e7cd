import LumioNativeCore.Timer.Bounds
import LumioNativeCore.Timer.Delivery

/-! The bookkeeping of the manager over whole runs: its counters, free list and queues agree,
its handles are never handed out twice, and a handle that went stale reaches no timer. -/
namespace Timer

def TimerEvent.handles : TimerEvent → List TimerHandle
  | .scheduled handle _ _ _ => [handle]
  | _ => []

/-- The handles a trace hands out. -/
def handlesOf (trace : List TimerEvent) : List TimerHandle := trace.flatMap TimerEvent.handles

@[simp] theorem handlesOf_snoc (trace : List TimerEvent) (event : TimerEvent) :
    handlesOf (trace ++ [event]) = handlesOf trace ++ event.handles := by
  simp [handlesOf]

theorem mem_handlesOf {trace : List TimerEvent} {h : TimerHandle} :
    h ∈ handlesOf trace ↔ ∃ scope interval slot, .scheduled h scope interval slot ∈ trace := by
  rw [handlesOf, List.mem_flatMap]
  constructor
  · rintro ⟨event, hEvent, hHandle⟩
    cases event with
    | scheduled handle scope interval slot =>
        obtain rfl := List.mem_singleton.mp hHandle
        exact ⟨scope, interval, slot, hEvent⟩
    | _ => exact absurd hHandle List.not_mem_nil
  · rintro ⟨scope, interval, slot, hEvent⟩
    exact ⟨_, hEvent, List.mem_singleton_self h⟩

/-- Where the counters count an occupied cell, decrementing them loses nothing. -/
theorem Roster.Booked.counts {r : Roster} (h : r.Booked) {i : Nat} {t : TimerSlot}
    {record : TimerRecord} (hCell : r.timers[i]? = some t) (hRecord : t.record = some record) :
    0 < r.live ∧ ∀ s, r.scopes.get record.scope.scopeId = some s → 0 < s.active := by
  have hMem := List.mem_of_getElem? hCell
  constructor
  · rw [h.live, List.countP_pos_iff]
    exact ⟨t, hMem, by rw [hRecord]; rfl⟩
  · intro s hScope
    rw [h.active _ s hScope, List.countP_pos_iff]
    exact ⟨t, hMem, by simp [TimerSlot.inScope, hRecord]⟩

namespace TimerManager

variable {m m' : TimerManager}

/-! One-shot timers and their items. -/

/-- How many queued items carry `h`. -/
def queuedBy (m : TimerManager) (h : TimerHandle) : Nat :=
  m.toDesk.items.countP fun item => item.record.handle == h

theorem queuedBy_eq (m : TimerManager) (h : TimerHandle) :
    m.queuedBy h = m.queuedRecords.countP fun record => record.handle == h := by
  rw [queuedRecords, List.countP_map]
  rfl

/-- One item is queued of a one-shot timer that is marked so, and none of any other. -/
def OnceQueued (m : TimerManager) : Prop :=
  ∀ h record, m.getTimer h = .ok record → record.interval = none →
    m.queuedBy h = if record.queued then 1 else 0

/-- A record of a live timer is queued unless the timer is refused. -/
theorem serveAll_queues (m : TimerManager) (records : List FiringRecord) {record : FiringRecord}
    {timer : TimerRecord} (hRecord : record ∈ records)
    (hGet : m.getTimer record.handle = .ok timer)
    (hServed : record.handle ∉ (m.serveAll records).1.rejections.map FiringRejection.handle) :
    record ∈ (m.serveAll records).1.firings := by
  revert timer
  revert hRecord hServed
  apply serveAll_induction (motive := fun m records result => record ∈ records →
    record.handle ∉ result.1.rejections.map FiringRejection.handle →
      ∀ {timer}, m.getTimer record.handle = .ok timer → record ∈ result.1.firings)
  · exact fun _ hNone => absurd hNone List.not_mem_nil
  · intro m first rest hDead ih hRecord hServed timer hGet
    rcases List.mem_cons.mp hRecord with rfl | hRest
    · cases hDead.symm.trans hGet
    · exact ih hRest hServed hGet
  · intro m first rest own desk hOwn hQueue ih hRecord hServed timer hGet
    rcases List.mem_cons.mp hRecord with rfl | hRest
    · exact List.mem_cons_self
    · have hNext := getTimer_fired desk hOwn record.handle
      rw [hGet] at hNext
      split_ifs at hNext
      · exact List.mem_cons_of_mem _ (ih hRest hServed hNext)
      · exact List.mem_cons_of_mem _ (ih hRest hServed hNext)
  · intro m first rest own code hOwn hQueue ih hRecord hServed timer hGet
    rw [List.map_cons, List.mem_cons, not_or] at hServed
    have hOther : record.handle ≠ first.handle := hServed.1
    rcases List.mem_cons.mp hRecord with rfl | hRest
    · exact absurd rfl hOther
    · apply ih hRest hServed.2
      rw [getTimer_refused, if_neg hOther]
      exact hGet

theorem OnceQueued.traversed (h : m.OnceQueued) (hSettled : Settled m) (toTick : Nat) :
    (m.traversed toTick).2.OnceQueued := by
  intro handle record' hGet hOnce
  obtain ⟨record, hBefore, hServed, hAdvanced⟩ :=
    (getTimer_traversed hSettled.sound handle record').mp hGet
  obtain ⟨-, -, hInterval, -⟩ := advanced_place hAdvanced
  have hNone : record.interval = none := hInterval.symm.trans hOnce
  have hOld := h handle record hBefore hNone
  have hFirings := firings_once hSettled.sound toTick hBefore hNone
  rw [queuedBy_eq] at hOld ⊢
  rw [(queuedRecords_traversed m toTick).countP_eq, List.countP_append, hOld]
  rw [TimerRecord.advanced, TimerRecord.next, hNone] at hAdvanced
  split_ifs at hAdvanced with hDue
  · -- a timer that comes due was not queued, and fires
    obtain rfl := Option.some.inj hAdvanced
    rw [if_pos hDue] at hFirings
    have hFires : record.firing handle record.due ∈ (m.traversed toTick).1.firings := by
      apply serveAll_queues m (m.window toTick) _ hBefore hServed
      exact mem_window.mpr (mem_collected.mpr ⟨record, hBefore, hDue,
        due_mem_ticks (hSettled.sound.interval handle record hBefore), rfl⟩)
    have hPositive : 0 < (m.traversed toTick).1.firings.countP fun r => r.handle == handle :=
      List.countP_pos_iff.mpr ⟨_, hFires, beq_self_eq_true handle⟩
    rw [hDue.1]
    simp only [Bool.false_eq_true, if_false, if_true]
    omega
  · obtain rfl := Option.some.inj hAdvanced
    rw [if_neg hDue] at hFirings
    omega

theorem OnceQueued.drained (h : m.OnceQueued) {report : DrainReport}
    (spec : DrainSpec m report m') : m'.OnceQueued := by
  intro handle record hGet hOnce
  obtain ⟨hBefore, hSurvives⟩ := (spec.getTimer handle record).mp hGet
  have hNone : m'.queuedBy handle = 0 := by
    rw [queuedBy, spec.no_items]
    rfl
  rw [hNone]
  split_ifs with hQueued
  · -- its item would have been delivered or rejected, and the timer retired
    have hOld := h handle record hBefore hOnce
    rw [if_pos hQueued, queuedBy] at hOld
    obtain ⟨item, hItem, hHandle⟩ := List.countP_pos_iff.mp (hOld ▸ Nat.one_pos)
    obtain ⟨p, hp, rfl⟩ := List.mem_map.mp (m.drainQueue_items.mem_iff.mpr hItem)
    exact absurd hOnce (hSurvives p hp (beq_iff_eq.mp hHandle)).2
  · rfl

theorem OnceQueued.effect (h : m.OnceQueued) (hSettled : Settled m) {event : TimerEvent}
    (hEffect : Effect m event m') : m'.OnceQueued := by
  cases hEffect with
  | shrinks plain shrinks =>
      obtain ⟨keep, hRewrites⟩ := shrinks.desk
      intro handle record hGet hOnce
      have hOld := h handle record (shrinks.getTimer handle record hGet) hOnce
      rw [queuedBy_eq] at hOld ⊢
      rwa [queuedRecords, queuedRecords_rewrites hRewrites]
  | @placed record running _ _ _ _ queued =>
      have hFree := hSettled.sound.free running
      intro handle other hGet hOnce
      rw [getTimer_placed hFree] at hGet
      split_ifs at hGet with hNew
      · -- no item carries a handle that was not issued before
        obtain rfl := Except.ok.inj hGet
        rw [queued, if_neg Bool.false_ne_true, queuedBy, List.countP_eq_zero]
        intro item hItem hHandle
        obtain ⟨k, hHolds⟩ := Desk.mem_items.mp hItem
        have hOld := (hSettled.sound.issued running k item hHolds).ne_place hFree record
        exact hOld ((beq_iff_eq.mp hHandle).trans hNew)
      · exact h handle other hGet hOnce
  | paused => exact h
  | @traversed toTick running later => exact h.traversed hSettled toTick
  | drained spec => exact h.drained spec

/-! Handles. -/

/-- The trace handed out every handle once. -/
def Fresh (trace : List TimerEvent) : Prop :=
  ((handlesOf trace).map fun h => (h.index, h.generation)).Nodup

theorem Fresh.effect {trace : List TimerEvent} {event : TimerEvent} (h : Fresh trace)
    (hHistory : History trace m) (hSettled : Settled m) (hEffect : Effect m event m') :
    Fresh (trace ++ [event]) := by
  have hSilent : event.handles = [] → Fresh (trace ++ [event]) := by
    intro hNone
    rw [Fresh, handlesOf_snoc, hNone, List.append_nil]
    exact h
  cases hEffect with
  | shrinks plain =>
      apply hSilent
      cases event <;> first | rfl | exact plain.elim
  | @placed record running _ _ _ _ _ =>
      have hFree := hSettled.sound.free running
      have hContext := (Roster.place_cases hFree m.context record).1
      rw [Fresh, handlesOf_snoc, List.map_append, List.nodup_append]
      refine ⟨h, List.nodup_singleton _, ?_⟩
      intro key hOld key' hNew hSame
      obtain ⟨old, hOldMem, rfl⟩ := List.mem_map.mp hOld
      obtain rfl := List.mem_singleton.mp hNew
      obtain ⟨hIndex, hGeneration⟩ := Prod.mk.inj hSame
      obtain ⟨scope, interval, slot, hEvent⟩ := mem_handlesOf.mp hOldMem
      have hIssued := hHistory.scheduled running old scope interval slot hEvent
      exact hIssued.ne_place hFree record
        (TimerHandle.ext hIndex hGeneration (hIssued.1.trans hContext.symm))
  | paused => exact hSilent rfl
  | traversed => exact hSilent rfl
  | drained => exact hSilent rfl

/-- The handle was handed out, and its timer is gone. -/
structure Stale (h : TimerHandle) (m : TimerManager) : Prop where
  issued : m.running = true → m.Issued m.context h
  gone : m.getTimer h = .error .staleHandle

theorem Stale.of_not_live {h : TimerHandle} (hIssued : m.running = true → m.Issued m.context h)
    (hDead : ∀ record, m.getTimer h ≠ .ok record) : Stale h m := by
  refine ⟨hIssued, ?_⟩
  cases hGet : m.getTimer h with
  | error failure => rw [Roster.getTimer_error hGet]
  | ok record => exact absurd hGet (hDead record)

theorem Stale.dead {h : TimerHandle} (hStale : Stale h m) (record : TimerRecord) :
    m.getTimer h ≠ .ok record := by
  intro hGet
  cases hStale.gone.symm.trans hGet

theorem Stale.effect {h : TimerHandle} (hStale : Stale h m) (hSettled : Settled m)
    {event : TimerEvent} (hEffect : Effect m event m') : Stale h m' := by
  cases hEffect with
  | shrinks plain shrinks =>
      apply Stale.of_not_live
      · exact fun hAlive =>
          (shrinks.issued hAlive h).mpr (hStale.issued (shrinks.running hAlive))
      · exact fun record hGet => hStale.dead record (shrinks.getTimer h record hGet)
  | @placed record running _ _ _ _ _ =>
      have hFree := hSettled.sound.free running
      have hIssued := hStale.issued running
      refine ⟨fun _ => hIssued.place hFree record, ?_⟩
      rw [getTimer_placed hFree, if_neg (hIssued.ne_place hFree record)]
      exact hStale.gone
  | paused => exact hStale
  | @traversed toTick running later =>
      apply Stale.of_not_live
      · obtain ⟨r, hInterim, hFrame⟩ := m.traversed_frame toTick
        rw [hFrame]
        exact fun _ => ((hInterim.evolves m.context).issued h).mpr (hStale.issued running)
      · intro record hGet
        obtain ⟨before, hBefore, -⟩ := (getTimer_traversed hSettled.sound h record).mp hGet
        exact hStale.dead before hBefore
  | drained spec =>
      apply Stale.of_not_live
      · rw [spec.drained.context, spec.drained.running]
        exact fun hAlive => (spec.drained.retires.issued h).mpr (hStale.issued hAlive)
      · exact fun record hGet => hStale.dead record ((spec.getTimer h record).mp hGet).1

theorem Stale.run {h : TimerHandle} (hStale : Stale h m) (hSettled : Settled m)
    {trace : List TimerEvent} (run : Transition.Run Step m trace m') : Stale h m' :=
  hSettled.along (fun _ m => Stale h m) hStale
    (fun _ _ _ _ hStale hSettled _ hEffect => hStale.effect hSettled hEffect) run

/-- No timer is cancelled or retired through `h`, by a call or inside one. -/
structure Inert (m : TimerManager) (h : TimerHandle) : Prop where
  cancel : ∀ result, m.cancel h ≠ .ok result
  retire : ∀ r, Roster.Interim m.toRoster r → r.retire m.context h = r

theorem Stale.inert {h : TimerHandle} (hStale : Stale h m) : m.Inert h where
  cancel result hCancel := by
    simp only [TimerManager.cancel, Check.then_eq_ok] at hCancel
    obtain ⟨record, hGet, -⟩ := Check.bind_eq_ok.mp hCancel.2
    exact hStale.dead record hGet
  retire r hInterim := by
    rw [Roster.retire]
    cases hGet : r.getTimer m.context h with
    | error failure => rfl
    | ok record' =>
        obtain ⟨record, hBefore, -⟩ := hInterim.getTimer hGet
        exact absurd hBefore (hStale.dead record)

/-- A drain touches no timer but those of the records it takes. -/
theorem getTimer_drainInternal (m : TimerManager) (emitTrace : Bool) {h : TimerHandle}
    (hNone : ∀ item ∈ m.toDesk.items, item.record.handle ≠ h) :
    (m.drainInternal emitTrace).2.getTimer h = m.getTimer h := by
  have hSpec := m.drainInternal_spec emitTrace
  have hSurvives : ∀ record, m.Survives m.drainQueue h record := by
    intro record p hp hHandle
    exact absurd hHandle (hNone p.item (m.drainQueue_items.mem_iff.mp (List.mem_map_of_mem hp)))
  cases hGet : m.getTimer h with
  | ok record => exact (hSpec.getTimer h record).mpr ⟨hGet, hSurvives record⟩
  | error failure =>
      cases hGet' : (m.drainInternal emitTrace).2.getTimer h with
      | error failure' => rw [Roster.getTimer_error hGet, Roster.getTimer_error hGet']
      | ok record => cases hGet.symm.trans ((hSpec.getTimer h record).mp hGet').1

/-! Whole runs. -/

/-- The counters, the free list and the queues of the manager agree. -/
structure Bookkept (m : TimerManager) : Prop where
  live : m.live = m.timers.countP fun t => t.record.isSome
  active : ∀ id s, m.scopes.get id = some s → s.active = m.timers.countP (TimerSlot.inScope id)
  /-- Wherever a loop could retire a timer, both counters it decrements are positive. -/
  counted : ∀ r, Roster.Interim m.toRoster r → ∀ (i : Nat) (t : TimerSlot) (record : TimerRecord),
    r.timers[i]? = some t → t.record = some record →
      0 < r.live ∧ ∃ s, r.scopes.get record.scope.scopeId = some s ∧ 0 < s.active
  free : m.running = true → m.timerFree.Nodup ∧
    ∀ i, i ∈ m.timerFree ↔ ∃ t, m.timers[i]? = some t ∧ t.record = none
  pending : m.pending = (m.slots.map fun s => s.queue.length).sum
  resolving : ∀ h record, m.getTimer h = .ok record → Roster.Resolves m.scopes record.scope
  queued : m.OnceQueued

theorem Settled.bookkept (h : Settled m) (hQueued : m.OnceQueued) : m.Bookkept where
  live := h.sound.booked.live
  active := h.sound.booked.active
  counted := by
    intro r hInterim i t record hCell hRecord
    have hEvolves := hInterim.evolves m.context
    have hGet : r.getTimer m.context ⟨i, t.generation, m.context⟩ = .ok record :=
      Roster.getTimer_eq_ok.mpr ⟨rfl, t, hCell, rfl, hRecord⟩
    obtain ⟨before, hBefore, hScope⟩ := hInterim.getTimer hGet
    obtain ⟨s, hFound, -⟩ :=
      (hEvolves.resolves record.scope).mpr (hScope ▸ h.sound.resolving _ before hBefore)
    obtain ⟨hLive, hActive⟩ := (hEvolves.booked h.sound.booked).counts hCell hRecord
    exact ⟨hLive, s, hFound, hActive s hFound⟩
  free hRunning := ⟨(h.sound.free hRunning).nodup, (h.sound.free hRunning).mem⟩
  pending := by
    rw [h.sound.counted, Desk.items, List.length_flatMap]
  resolving := h.sound.resolving
  queued := hQueued

section Runs

variable {context : Nat} {mode : TimerMode} {limits : TimerLimits} {budget : TimerBudget}
  {trace : List TimerEvent}

theorem queued_of_run (run : Transition.Run Step (withBudget context mode limits budget) trace m) :
    m.OnceQueued ∧ Fresh trace ∧ History trace m := by
  apply (settled_withBudget context mode limits budget).along
    (fun trace m => m.OnceQueued ∧ Fresh trace ∧ History trace m) _ _ run
  · refine ⟨fun h record hGet => ?_, List.nodup_nil, History.nil _⟩
    obtain ⟨-, t, hCell, -⟩ := Roster.getTimer_eq_ok.mp hGet
    cases hCell
  · rintro trace t event w ⟨hQueued, hFresh, hHistory⟩ hSettled - hEffect
    exact ⟨hQueued.effect hSettled hEffect, hFresh.effect hHistory hSettled hEffect,
      hHistory.effect hSettled hEffect⟩

/-- In every reachable state the bookkeeping is exact and keeps to the configured maxima, and
no handle was handed out twice. Through a handle whose timer is gone none is ever cancelled or
retired again, and a drain touches no timer but those of the records it takes. -/
theorem bookkeeping_exact
    (run : Transition.Run Step (withBudget context mode limits budget) trace m) :
    m.Bookkept ∧ m.Bounded limits budget ∧ Fresh trace ∧
    (∀ h ∈ handlesOf trace, (∀ record, m.getTimer h ≠ .ok record) →
      ∀ after m', Transition.Run Step m after m' → m'.Inert h) ∧
    ∀ emitTrace h, (∀ item ∈ m.toDesk.items, item.record.handle ≠ h) →
      (m.drainInternal emitTrace).2.getTimer h = m.getTimer h := by
  obtain ⟨hQueued, hFresh, hHistory⟩ := queued_of_run run
  have hSettled := (settled_withBudget context mode limits budget).run run
  refine ⟨hSettled.bookkept hQueued, (bounded_withBudget context mode limits budget).run run,
    hFresh, ?_, fun emitTrace h hNone => m.getTimer_drainInternal emitTrace hNone⟩
  intro h hHandle hDead after m' hAfter
  obtain ⟨scope, interval, slot, hEvent⟩ := mem_handlesOf.mp hHandle
  have hStale : Stale h m := Stale.of_not_live
    (fun hRunning => hHistory.scheduled hRunning h scope interval slot hEvent) hDead
  exact (hStale.run hSettled hAfter).inert

/-- A timer slot is reused while a record of its first timer is still queued. -/
theorem bookkeeping_exact_reused :
    ∃ trace m, Transition.Run Step (withBudget 1 .wallClock
        { TimerLimits.contract with deliveryQueueDepthPerSlot := 1 } .default) trace m ∧
      handlesOf trace = [⟨0, 1, 1⟩, ⟨0, 2, 1⟩] ∧ m.pending = 1 ∧ m.Bookkept ∧ Fresh trace ∧
      m.drain.2.Inert ⟨0, 1, 1⟩ ∧ m.drain.2.live = 1 := by
  have run : Transition.Run Step (withBudget 1 .wallClock
      { TimerLimits.contract with deliveryQueueDepthPerSlot := 1 } .default) _ _ :=
    (((((((((Transition.Run.nil _).snoc (@Step.registerScope _ _ 1 .world _ rfl)).snoc
      (.createSlot rfl)).snoc (.bindSlot _ ⟨0, 1⟩ ⟨7⟩)).snoc
      (@Step.scheduleRepeating _ _ ⟨1, .world, 1⟩ 1 1 ⟨0, 1⟩ _ rfl)).snoc
      (@Step.advance _ _ 2 _ rfl)).snoc (.createSlot rfl)).snoc (.bindSlot _ ⟨1, 1⟩ ⟨8⟩)).snoc
      (@Step.scheduleOneShot _ _ ⟨1, .world, 1⟩ 3 ⟨1, 1⟩ _ rfl)).snoc (.removeDispatch _ ⟨7⟩)
  obtain ⟨hBookkept, -, hFresh, hInert, -⟩ := bookkeeping_exact run
  refine ⟨_, _, run, rfl, rfl, hBookkept, hFresh, ?_, rfl⟩
  apply hInert ⟨0, 1, 1⟩ (by decide) _ _ _ ((Transition.Run.nil _).snoc (.drain _))
  intro record hGet
  cases hGet

end Runs

end TimerManager
end Timer

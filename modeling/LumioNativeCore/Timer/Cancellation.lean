import LumioNativeCore.Timer.Delivery

/-! Cancellation is final: what is cancelled, torn down, closed, shut down or
rejected once is never delivered again. -/
namespace Timer
namespace TimerManager

variable {m m' : TimerManager} {h : TimerHandle}

/-! Where queued items come from. -/

theorem stateOf_serveAll (m : TimerManager) (records : List FiringRecord) (k : Nat) :
    (m.serveAll records).2.toDesk.stateOf k = m.toDesk.stateOf k := by
  apply serveAll_induction (motive := fun m _ result =>
    result.2.toDesk.stateOf k = m.toDesk.stateOf k)
  · exact fun _ => rfl
  · exact fun _ _ _ _ ih => ih
  · exact fun _ _ _ _ _ _ hQueue ih => ih.trans (Desk.stateOf_enqueue hQueue k)
  · exact fun _ _ _ _ _ _ _ ih => ih

/-- What the firing loop queues belongs to a live timer with an armed slot. -/
theorem holds_serveAll (m : TimerManager) (records : List FiringRecord) (k : Nat)
    (item : QueueItem) :
    (m.serveAll records).2.toDesk.Holds k item → m.toDesk.Holds k item ∨
      ∃ timer, m.getTimer item.record.handle = .ok timer ∧ item.scope = timer.scope ∧
        k = timer.slot.index ∧ m.toDesk.stateOf k = some .armed := by
  apply serveAll_induction (motive := fun m _ result => result.2.toDesk.Holds k item →
    m.toDesk.Holds k item ∨
      ∃ timer, m.getTimer item.record.handle = .ok timer ∧ item.scope = timer.scope ∧
        k = timer.slot.index ∧ m.toDesk.stateOf k = some .armed)
  · exact fun _ => Or.inl
  · exact fun _ _ _ _ ih => ih
  · intro m record rest timer desk hGet hQueue ih hItem
    rcases ih hItem with hHolds | ⟨other, hOther, hScope, hSlot, hState⟩
    · rcases (Desk.holds_enqueue hQueue k item).mp hHolds with hOld | ⟨rfl, rfl⟩
      · exact Or.inl hOld
      · exact Or.inr ⟨timer, hGet, rfl, rfl, Desk.enqueue_armed hQueue⟩
    · right
      have hArmed : m.toDesk.stateOf k = some .armed :=
        (Desk.stateOf_enqueue hQueue k).symm.trans hState
      rw [getTimer_fired desk hGet] at hOther
      split_ifs at hOther with hSame
      · obtain rfl := Except.ok.inj hOther
        exact ⟨timer, hSame.1 ▸ hGet, hScope, hSlot, hArmed⟩
      · exact ⟨other, hOther, hScope, hSlot, hArmed⟩
  · intro m record rest timer code _ _ ih hItem
    rcases ih hItem with hHolds | ⟨other, hOther, hRest⟩
    · exact Or.inl hHolds
    · rw [getTimer_refused] at hOther
      split_ifs at hOther
      exact Or.inr ⟨other, hOther, hRest⟩

theorem holds_traversed {toTick k : Nat} {item : QueueItem}
    (hItem : (m.traversed toTick).2.toDesk.Holds k item) : m.toDesk.Holds k item ∨
      ∃ timer, m.getTimer item.record.handle = .ok timer ∧ item.scope = timer.scope ∧
        k = timer.slot.index ∧ m.toDesk.stateOf k = some .armed := by
  obtain ⟨r, -, hFrame⟩ := m.traversed_frame toTick
  rw [hFrame] at hItem
  exact holds_serveAll m _ k item hItem

theorem stateOf_traversed (m : TimerManager) (toTick k : Nat) :
    (m.traversed toTick).2.toDesk.stateOf k = m.toDesk.stateOf k := by
  obtain ⟨r, -, hFrame⟩ := m.traversed_frame toTick
  rw [hFrame]
  exact stateOf_serveAll m _ k

/-! Timers that can never be delivered again. -/

/-- Nothing queued for the timer can be delivered, and nothing more can be queued. -/
structure Muted (h : TimerHandle) (m : TimerManager) : Prop where
  issued : m.running = true → m.Issued m.context h
  live : ∀ timer, m.getTimer h = .ok timer → m.toDesk.stateOf timer.slot.index = some .closed
  items : ∀ k item, m.toDesk.Holds k item → item.record.handle = h →
    item.valid = false ∨ m.toDesk.stateOf k = some .closed

theorem Muted.effect {event : TimerEvent} (hMuted : Muted h m) (hSettled : Settled m)
    (hEffect : Effect m event m') : Muted h m' := by
  cases hEffect with
  | shrinks plain shrinks =>
      obtain ⟨keep, hRewrites⟩ := shrinks.desk
      refine ⟨fun hAlive => ?_, fun timer hGet => ?_, fun k item hItem hHandle => ?_⟩
      · exact (shrinks.issued hAlive h).mpr (hMuted.issued (shrinks.running hAlive))
      · exact hRewrites.closed _ (hMuted.live timer (shrinks.getTimer h timer hGet))
      · obtain ⟨before, hBefore, hRecord, -, hValid⟩ := hRewrites.mem_keys hItem
        rcases hMuted.items k before hBefore (hRecord ▸ hHandle) with hInvalid | hClosed
        · rw [hValid, hInvalid]
          exact Or.inl rfl
        · exact Or.inr (hRewrites.closed k hClosed)
  | @placed record running _ _ _ _ _ =>
      have hFree := hSettled.sound.free running
      have hIssued := hMuted.issued running
      refine ⟨fun _ => hIssued.place hFree record, fun timer hGet => ?_, hMuted.items⟩
      rw [getTimer_placed hFree, if_neg (hIssued.ne_place hFree record)] at hGet
      exact hMuted.live timer hGet
  | paused => exact hMuted
  | @traversed toTick running later =>
      refine ⟨fun hAlive => ?_, fun timer hGet => ?_, fun k item hItem hHandle => ?_⟩
      · obtain ⟨r, hInterim, hFrame⟩ := m.traversed_frame toTick
        rw [hFrame]
        exact ((hInterim.evolves m.context).issued h).mpr (hMuted.issued running)
      · obtain ⟨before, hBefore, -, hAdvanced⟩ :=
          (getTimer_traversed hSettled.sound h timer).mp hGet
        rw [stateOf_traversed, (advanced_place hAdvanced).2.1]
        exact hMuted.live before hBefore
      · rw [stateOf_traversed]
        rcases holds_traversed hItem with hOld | ⟨timer, hGet, -, hSlot, hArmed⟩
        · exact hMuted.items k item hOld hHandle
        · rw [hHandle] at hGet
          exact Or.inr (hSlot ▸ hMuted.live timer hGet)
  | drained spec =>
      have hDesk : ∀ k, m'.toDesk.stateOf k = m.toDesk.stateOf k := by
        rw [spec.drained.desk]
        exact m.toDesk.stateOf_clear
      refine ⟨fun hAlive => ?_, fun timer hGet => ?_, fun k item hItem _ => ?_⟩
      · rw [spec.drained.context]
        rw [spec.drained.running] at hAlive
        exact (spec.drained.retires.issued h).mpr (hMuted.issued hAlive)
      · rw [hDesk]
        exact hMuted.live timer ((spec.getTimer h timer).mp hGet).1
      · rw [spec.drained.desk] at hItem
        exact absurd hItem (m.toDesk.not_holds_clear k item)

/-- A drain delivers what it takes without a rejection code. -/
theorem DrainSpec.mem_records {report : DrainReport} (spec : DrainSpec m report m')
    {record : FiringRecord} : record ∈ report.records ↔
      ∃ (k : Nat) (s : SlotRecord) (item : QueueItem), m.slots[k]? = some s ∧ item ∈ s.queue ∧
        item.record = record ∧ m.rejectionCode ⟨s.state, s.dispatchId, item⟩ = none := by
  rw [spec.report]
  simp only [reportOf, accepted, List.mem_map, List.mem_filter, m.drainQueue_perm.mem_iff,
    mem_takePending, Option.isNone_iff_eq_none]
  constructor
  · rintro ⟨⟨state, dispatch, item⟩, ⟨⟨k, s, hSlot, hItem, rfl, rfl⟩, hCode⟩, hRecord⟩
    exact ⟨k, s, item, hSlot, hItem, hRecord, hCode⟩
  · rintro ⟨k, s, item, hSlot, hItem, hRecord, hCode⟩
    exact ⟨_, ⟨⟨k, s, hSlot, hItem, rfl, rfl⟩, hCode⟩, hRecord⟩

theorem Muted.not_delivered {event : TimerEvent} (hMuted : Muted h m) (hEffect : Effect m event m') :
    ∀ record ∈ event.delivered, record.handle ≠ h := by
  cases hEffect with
  | shrinks plain =>
      rw [plain.silent.2.1]
      exact fun _ hRecord => absurd hRecord List.not_mem_nil
  | placed => exact fun _ hRecord => absurd hRecord List.not_mem_nil
  | paused => exact fun _ hRecord => absurd hRecord List.not_mem_nil
  | traversed => exact fun _ hRecord => absurd hRecord List.not_mem_nil
  | drained spec =>
      intro record hRecord hHandle
      obtain ⟨k, s, item, hSlot, hItem, rfl, hCode⟩ := spec.mem_records.mp hRecord
      have hState : m.toDesk.stateOf k = some s.state := by rw [Desk.stateOf, hSlot, Option.map_some]
      have hBlocked : item.valid = false ∨ s.state = .closed := by
        rcases hMuted.items k item ⟨s, hSlot, hItem⟩ hHandle with hInvalid | hClosed
        · exact Or.inl hInvalid
        · rw [hState] at hClosed
          exact Or.inr (Option.some.inj hClosed)
      rw [rejectionCode, if_pos] at hCode
      · cases hCode
      · rcases hBlocked with hInvalid | hClosed
        · simp [hInvalid]
        · simp [hClosed]

theorem Muted.run {trace : List TimerEvent} (hMuted : Muted h m) (hSettled : Settled m)
    (run : Transition.Run Step m trace m') : ∀ record ∈ deliveriesOf trace, record.handle ≠ h := by
  have hRun : (∀ record ∈ deliveriesOf trace, record.handle ≠ h) ∧ Muted h m' := by
    apply hSettled.along
      (fun trace m => (∀ record ∈ deliveriesOf trace, record.handle ≠ h) ∧ Muted h m) _ _ run
    · exact ⟨fun _ hRecord => absurd hRecord List.not_mem_nil, hMuted⟩
    · rintro trace t event w ⟨hNone, hMuted⟩ hSettled - hEffect
      refine ⟨fun record hRecord => ?_, hMuted.effect hSettled hEffect⟩
      rw [deliveriesOf_snoc] at hRecord
      rcases List.mem_append.mp hRecord with hOld | hNew
      · exact hNone record hOld
      · exact hMuted.not_delivered hEffect record hNew
  exact hRun.1

/-! What mutes a timer. -/

/-- Where the timers of a trace were scheduled is where they and their items are. -/
def Origin (trace : List TimerEvent) (m : TimerManager) : Prop :=
  ∀ handle scope interval slot, .scheduled handle scope interval slot ∈ trace →
    (∀ timer, m.getTimer handle = .ok timer → timer.scope = scope ∧ timer.slot = slot) ∧
      ∀ k item, m.toDesk.Holds k item → item.record.handle = handle →
        item.scope = scope ∧ k = slot.index

/-- A call that does not schedule leaves a timer, and what is queued of it, where it was. -/
theorem Origin.keep {trace : List TimerEvent} {event : TimerEvent} (hOrigin : Origin trace m)
    (hNone : ∀ handle scope interval slot, event ≠ .scheduled handle scope interval slot)
    (hTimers : ∀ handle timer, m'.getTimer handle = .ok timer →
      ∃ before, m.getTimer handle = .ok before ∧
        timer.scope = before.scope ∧ timer.slot = before.slot)
    (hItems : ∀ k item, m'.toDesk.Holds k item →
      (∃ before, m.toDesk.Holds k before ∧ item.record = before.record ∧
        item.scope = before.scope) ∨
      ∃ timer, m.getTimer item.record.handle = .ok timer ∧ item.scope = timer.scope ∧
        k = timer.slot.index) :
    Origin (trace ++ [event]) m' := by
  intro handle scope interval slot hEvent
  have hOld : .scheduled handle scope interval slot ∈ trace := by
    rcases List.mem_append.mp hEvent with hOld | hNew
    · exact hOld
    · exact absurd (List.mem_singleton.mp hNew).symm (hNone handle scope interval slot)
  obtain ⟨hLive, hQueued⟩ := hOrigin handle scope interval slot hOld
  refine ⟨fun timer hGet => ?_, fun k item hItem hHandle => ?_⟩
  · obtain ⟨before, hBefore, hScope, hSlot⟩ := hTimers handle timer hGet
    rw [hScope, hSlot]
    exact hLive before hBefore
  · rcases hItems k item hItem with ⟨before, hBefore, hRecord, hScope⟩ | ⟨timer, hGet, hScope, hk⟩
    · rw [hScope]
      exact hQueued k before hBefore (hRecord ▸ hHandle)
    · rw [hHandle] at hGet
      obtain ⟨hSame, hSlot⟩ := hLive timer hGet
      exact ⟨hScope.trans hSame, hk.trans (congrArg CallbackSlot.index hSlot)⟩

theorem Origin.place {trace : List TimerEvent} {record : TimerRecord} (hOrigin : Origin trace m)
    (hHistory : History trace m) (hSettled : Settled m) (running : m.running = true) :
    Origin (trace ++ [.scheduled (m.toRoster.place m.context record).1 record.scope
      record.interval record.slot]) (m.placed record) := by
  have hFree := hSettled.sound.free running
  have hFresh := Roster.not_issued_place hFree m.context record
  intro handle scope interval slot hEvent
  simp only [getTimer_placed hFree]
  rcases List.mem_append.mp hEvent with hOld | hNew
  · have hOther :=
      (hHistory.scheduled running handle scope interval slot hOld).ne_place hFree record
    obtain ⟨hLive, hQueued⟩ := hOrigin handle scope interval slot hOld
    rw [if_neg hOther]
    exact ⟨hLive, hQueued⟩
  · obtain ⟨rfl, rfl, -, rfl⟩ := TimerEvent.scheduled.inj (List.mem_singleton.mp hNew)
    rw [if_pos rfl]
    refine ⟨fun timer hGet => ?_, fun k item hItem hHandle => ?_⟩
    · obtain rfl := Except.ok.inj hGet
      exact ⟨rfl, rfl⟩
    · exact absurd (hHandle ▸ hSettled.sound.issued running k item hItem) hFresh

theorem Origin.effect {trace : List TimerEvent} {event : TimerEvent} (hOrigin : Origin trace m)
    (hHistory : History trace m) (hSettled : Settled m) (hEffect : Effect m event m') :
    Origin (trace ++ [event]) m' := by
  cases hEffect with
  | shrinks plain shrinks =>
      obtain ⟨keep, hRewrites⟩ := shrinks.desk
      apply hOrigin.keep
      · rintro handle scope interval slot rfl
        exact plain
      · exact fun handle timer hGet => ⟨timer, shrinks.getTimer handle timer hGet, rfl, rfl⟩
      · intro k item hItem
        obtain ⟨before, hBefore, hRecord, hScope, -⟩ := hRewrites.mem_keys hItem
        exact Or.inl ⟨before, hBefore, hRecord, hScope⟩
  | paused =>
      apply hOrigin.keep
      · exact fun _ _ _ _ hEvent => TimerEvent.noConfusion hEvent
      · exact fun handle timer hGet => ⟨timer, hGet, rfl, rfl⟩
      · exact fun k item hItem => Or.inl ⟨item, hItem, rfl, rfl⟩
  | traversed =>
      apply hOrigin.keep
      · exact fun _ _ _ _ hEvent => TimerEvent.noConfusion hEvent
      · intro handle timer hGet
        obtain ⟨before, hBefore, -, hAdvanced⟩ :=
          (getTimer_traversed hSettled.sound handle timer).mp hGet
        obtain ⟨hScope, hSlot, -⟩ := advanced_place hAdvanced
        exact ⟨before, hBefore, hScope, hSlot⟩
      · intro k item hItem
        rcases holds_traversed hItem with hOld | ⟨timer, hGet, hScope, hk, -⟩
        · exact Or.inl ⟨item, hOld, rfl, rfl⟩
        · exact Or.inr ⟨timer, hGet, hScope, hk⟩
  | drained spec =>
      apply hOrigin.keep
      · exact fun _ _ _ _ hEvent => TimerEvent.noConfusion hEvent
      · exact fun handle timer hGet => ⟨timer, ((spec.getTimer handle timer).mp hGet).1, rfl, rfl⟩
      · intro k item hItem
        rw [spec.drained.desk] at hItem
        exact absurd hItem (m.toDesk.not_holds_clear k item)
  | placed running _ _ _ _ _ => exact hOrigin.place hHistory hSettled running

theorem muted_cancel {h : TimerHandle} {flag : Bool} (hResult : m.cancel h = .ok (flag, m')) :
    Muted h m' := by
  have hLive : ∃ timer, m.getTimer h = .ok timer := by
    simp only [cancel, Check.then_eq_ok] at hResult
    obtain ⟨timer, hGet, -⟩ := Check.bind_eq_ok.mp hResult.2
    exact ⟨timer, hGet⟩
  obtain ⟨timer, hGet⟩ := hLive
  obtain rfl := cancel_eq_ok hResult
  have hDesk := Desk.rewrites_invalidate m.toDesk fun item => item.record.handle == h
  refine ⟨fun _ => ?_, fun other hOther => ?_, fun k item hItem hHandle => ?_⟩
  · exact ((Roster.retires_retire m.context m.toRoster h).issued h).mpr
      (Roster.issued_of_getTimer hGet)
  · exact absurd rfl (getTimer_retire_eq_ok.mp hOther).2
  · obtain ⟨before, -, hRecord, -, hValid⟩ := hDesk.mem_keys hItem
    left
    rw [hValid, ← hRecord, hHandle, beq_self_eq_true]
    exact Bool.and_false _

theorem muted_retireScope {id : Nat} {f : ScopeRecord → ScopeRecord} {trace : List TimerEvent}
    (hOrigin : Origin trace m) (hHistory : History trace m) {scope : TimerScope}
    {interval : Option Nat} {slot : CallbackSlot}
    (hEvent : .scheduled h scope interval slot ∈ trace) (hScope : scope.scopeId = id) :
    Muted h ((m.retireScopeTimers id).updateScope id f) := by
  obtain ⟨hLive, hQueued⟩ := hOrigin h scope interval slot hEvent
  have hDesk := Desk.rewrites_invalidate m.toDesk fun item => item.scope.scopeId == id
  refine ⟨fun hAlive => ?_, fun timer hGet => ?_, fun k item hItem hHandle => ?_⟩
  · exact ((Roster.retires_retireScope m.context m.toRoster id).issued h).mpr
      (hHistory.scheduled hAlive h scope interval slot hEvent)
  · change (m.retireScopeTimers id).getTimer h = .ok timer at hGet
    obtain ⟨hBefore, hOther⟩ := getTimer_retireScopeTimers.mp hGet
    rw [(hLive timer hBefore).1] at hOther
    exact absurd hScope hOther
  · obtain ⟨before, hBefore, hRecord, -, hValid⟩ := hDesk.mem_keys hItem
    left
    rw [hValid, (hQueued k before hBefore (hRecord ▸ hHandle)).1, hScope, beq_self_eq_true]
    exact Bool.and_false _

/-- The slot is closed. -/
def Closed (m : TimerManager) (slot : CallbackSlot) : Prop :=
  m.toDesk.stateOf slot.index = some .closed

theorem closed_closeSlot {slot : CallbackSlot} (hResult : m.closeSlot slot = .ok m') :
    m'.Closed slot := by
  obtain ⟨s, hSlot, rfl⟩ := closeSlot_eq_ok hResult
  apply (stateOf_updateSlot m.toDesk slot.index _ slot.index).trans
  rw [if_pos rfl, hSlot]
  rfl

theorem muted_closed {slot : CallbackSlot} (hClosed : m.Closed slot) {trace : List TimerEvent}
    (hOrigin : Origin trace m) (hHistory : History trace m) {scope : TimerScope}
    {interval : Option Nat} (hEvent : .scheduled h scope interval slot ∈ trace) : Muted h m := by
  obtain ⟨hLive, hQueued⟩ := hOrigin h scope interval slot hEvent
  refine ⟨fun hAlive => hHistory.scheduled hAlive h scope interval slot hEvent,
    fun timer hGet => ?_, fun k item hItem hHandle => ?_⟩
  · rw [(hLive timer hGet).2]
    exact hClosed
  · rw [(hQueued k item hItem hHandle).2]
    exact Or.inr hClosed

/-- A drain treats the items of one timer alike. -/
theorem rejectionCode_siblings {horizon : Nat} (hSound : Sound horizon m) {p p' : Pending}
    (hp : p ∈ m.takePending) (hp' : p' ∈ m.takePending)
    (hHandle : p.item.record.handle = p'.item.record.handle) :
    m.rejectionCode p = m.rejectionCode p' := by
  obtain ⟨k, s, hSlot, hItem, hState, hDispatch⟩ := mem_takePending.mp hp
  obtain ⟨k', s', hSlot', hItem', hState', hDispatch'⟩ := mem_takePending.mp hp'
  obtain ⟨rfl, hScope, hId, hValid⟩ :=
    hSound.siblings k p.item k' p'.item ⟨s, hSlot, hItem⟩ ⟨s', hSlot', hItem'⟩ hHandle
  rw [hSlot] at hSlot'
  obtain rfl := Option.some.inj hSlot'
  rw [rejectionCode, rejectionCode, hScope, hId, hValid, hState, hState', hDispatch, hDispatch']

theorem muted_rejected {report : DrainReport} (spec : DrainSpec m report m')
    (hSound : Sound m.committedTick m) {rejection : FiringRejection}
    (hRejection : rejection ∈ report.rejections) :
    Muted rejection.handle m' ∧ ∀ record ∈ report.records, record.handle ≠ rejection.handle := by
  rw [spec.report] at hRejection
  obtain ⟨p, hp, hReject⟩ := List.mem_filterMap.mp hRejection
  obtain ⟨code, hCode, rfl⟩ := Option.map_eq_some_iff.mp hReject
  have hTaken := m.drainQueue_perm.mem_iff.mp hp
  obtain ⟨k, s, hSlot, hItem, -⟩ := mem_takePending.mp hTaken
  refine ⟨⟨fun hAlive => ?_, fun timer hGet => ?_, fun k item hHolds _ => ?_⟩,
    fun record hRecord hHandle => ?_⟩
  · rw [spec.drained.running] at hAlive
    rw [spec.drained.context]
    exact (spec.drained.retires.issued _).mpr (hSound.issued hAlive k p.item ⟨s, hSlot, hItem⟩)
  · have hPassed := (((spec.getTimer _ timer).mp hGet).2 p hp rfl).1
    rw [hCode] at hPassed
    cases hPassed
  · rw [spec.drained.desk] at hHolds
    exact absurd hHolds (m.toDesk.not_holds_clear k item)
  · obtain ⟨k', s', item', hSlot', hItem', rfl, hPassed⟩ := spec.mem_records.mp hRecord
    have hOther : ⟨s'.state, s'.dispatchId, item'⟩ ∈ m.takePending :=
      mem_takePending.mpr ⟨k', s', hSlot', hItem', rfl, rfl⟩
    rw [rejectionCode_siblings hSound hOther hTaken hHandle, hCode] at hPassed
    cases hPassed

/-! Closed slots and stopped managers. -/

theorem Closed.effect {slot : CallbackSlot} {event : TimerEvent} (hClosed : m.Closed slot)
    (hEffect : Effect m event m') : m'.Closed slot := by
  cases hEffect with
  | shrinks plain shrinks =>
      obtain ⟨keep, hRewrites⟩ := shrinks.desk
      exact hRewrites.closed _ hClosed
  | placed => exact hClosed
  | paused => exact hClosed
  | traversed => exact (stateOf_traversed m _ _).trans hClosed
  | drained spec =>
      rw [Closed, spec.drained.desk]
      exact (m.toDesk.stateOf_clear _).trans hClosed

/-- Nothing is scheduled on a closed slot. -/
theorem not_closed_schedule {scope : TimerScope} {due : Nat} {interval : Option Nat}
    {slot : CallbackSlot} {handle : TimerHandle}
    (hResult : m.schedule scope due interval slot = .ok (handle, m')) : ¬m.Closed slot := by
  simp only [schedule, Check.then_eq_ok] at hResult
  obtain ⟨-, hResult⟩ := hResult
  obtain ⟨_, -, hResult⟩ := Check.bind_eq_ok.mp hResult
  obtain ⟨dispatch, hTarget, -⟩ := Check.bind_eq_ok.mp hResult
  obtain ⟨s, hSlot, hTarget⟩ := Check.bind_eq_ok.mp hTarget
  rw [Closed, Desk.stateOf, (Desk.slot_eq_ok.mp hSlot).1, Option.map_some, Option.some.injEq]
  intro hState
  simp [hState] at hTarget

theorem not_closed_scheduled {scope : TimerScope} {interval : Option Nat} {slot : CallbackSlot}
    (hStep : Step m (.scheduled h scope interval slot) m') : ¬m.Closed slot := by
  cases hStep with
  | scheduleOneShot result => exact not_closed_schedule result
  | scheduleRepeating result =>
      simp only [TimerManager.scheduleRepeating, Check.then_eq_ok] at result
      obtain ⟨-, result⟩ := result
      split_ifs at result
      exact not_closed_schedule result

theorem Closed.run {slot : CallbackSlot} {trace : List TimerEvent} (hClosed : m.Closed slot)
    (hSettled : Settled m) (run : Transition.Run Step m trace m') (scope : TimerScope)
    (interval : Option Nat) : .scheduled h scope interval slot ∉ trace := by
  have hRun : .scheduled h scope interval slot ∉ trace ∧ m'.Closed slot := by
    apply hSettled.along
      (fun trace m => .scheduled h scope interval slot ∉ trace ∧ m.Closed slot) _ _ run
    · exact ⟨List.not_mem_nil, hClosed⟩
    · rintro trace t event w ⟨hNone, hClosed⟩ - hStep hEffect
      refine ⟨fun hEvent => ?_, hClosed.effect hEffect⟩
      rcases List.mem_append.mp hEvent with hOld | hNew
      · exact hNone hOld
      · obtain rfl := List.mem_singleton.mp hNew
        exact not_closed_scheduled hStep hClosed
  exact hRun.1

theorem stopped_effect {event : TimerEvent} (hStopped : m.running = false)
    (hEffect : Effect m event m') : m'.running = false ∧ event.delivered = [] := by
  cases hEffect with
  | shrinks plain shrinks =>
      refine ⟨?_, plain.silent.2.1⟩
      rw [← Bool.not_eq_true]
      intro hAlive
      rw [shrinks.running hAlive] at hStopped
      cases hStopped
  | placed running =>
      rw [running] at hStopped
      cases hStopped
  | paused => exact ⟨hStopped, rfl⟩
  | traversed running =>
      rw [running] at hStopped
      cases hStopped
  | @drained report m' spec =>
      refine ⟨spec.drained.running.trans hStopped, ?_⟩
      apply List.eq_nil_iff_forall_not_mem.mpr
      intro record hRecord
      obtain ⟨k, s, item, -, -, -, hCode⟩ := spec.mem_records.mp hRecord
      simp [rejectionCode, hStopped] at hCode

theorem stopped_run {trace : List TimerEvent} (hStopped : m.running = false)
    (hSettled : Settled m) (run : Transition.Run Step m trace m') : deliveriesOf trace = [] := by
  have hRun : deliveriesOf trace = [] ∧ m'.running = false := by
    apply hSettled.along (fun trace m => deliveriesOf trace = [] ∧ m.running = false) _ _ run
    · exact ⟨rfl, hStopped⟩
    · rintro trace t event w ⟨hNone, hStopped⟩ - - hEffect
      obtain ⟨hStill, hDelivered⟩ := stopped_effect hStopped hEffect
      rw [deliveriesOf_snoc, hNone, hDelivered]
      exact ⟨rfl, hStill⟩
  exact hRun.1

/-! Runs. -/

section Runs

variable {context : Nat} {mode : TimerMode} {limits : TimerLimits} {budget : TimerBudget}
  {trace : List TimerEvent}

theorem origin_of_run (run : Transition.Run Step (withBudget context mode limits budget) trace m) :
    Origin trace m ∧ History trace m := by
  apply (settled_withBudget context mode limits budget).along
    (fun trace m => Origin trace m ∧ History trace m) _ _ run
  · exact ⟨fun _ _ _ _ hEvent => absurd hEvent List.not_mem_nil, History.nil _⟩
  · rintro trace t event w ⟨hOrigin, hHistory⟩ hSettled - hEffect
    exact ⟨hOrigin.effect hHistory hSettled hEffect, hHistory.effect hSettled hEffect⟩

/-- Over every run, no drain delivers a timer after it was cancelled, after its
scope was torn down or destroyed, after its slot was closed, after the manager was
shut down, or once a drain rejected one of its records; that drain itself delivers
none of them either. -/
theorem cancellation_final {before after : List TimerEvent} {event : TimerEvent}
    (run : Transition.Run Step (withBudget context mode limits budget)
      (before ++ event :: after) m) :
    (∀ handle, event = .cancelled handle → ∀ record ∈ deliveriesOf after,
      record.handle ≠ handle) ∧
    (∀ id, event = .tornDown id ∨ event = .destroyed id → ∀ handle scope interval slot,
      .scheduled handle scope interval slot ∈ before → scope.scopeId = id →
      ∀ record ∈ deliveriesOf after, record.handle ≠ handle) ∧
    (∀ slot, event = .closed slot → ∀ handle scope interval,
      .scheduled handle scope interval slot ∈ before ++ event :: after →
      ∀ record ∈ deliveriesOf after, record.handle ≠ handle) ∧
    (event = .shutdown → deliveriesOf after = []) ∧
    (∀ report, event = .drained report → ∀ rejection ∈ report.rejections,
      (∀ record ∈ report.records, record.handle ≠ rejection.handle) ∧
      ∀ record ∈ deliveriesOf after, record.handle ≠ rejection.handle) := by
  obtain ⟨t, t', hBefore, hStep, hAfter⟩ := run.at
  obtain ⟨hOrigin, hHistory⟩ := origin_of_run hBefore
  have hSettled := (settled_withBudget context mode limits budget).run hBefore
  have hSettled' := hSettled.step hStep
  have hEffect := hStep.effect hSettled.sound
  refine ⟨?_, ?_, ?_, ?_, ?_⟩
  · rintro handle rfl
    cases hStep with
    | cancel result => exact (muted_cancel result).run hSettled' hAfter
  · rintro id hEvent handle scope interval slot hScheduled hScope
    apply Muted.run _ hSettled' hAfter
    rcases hEvent with rfl | rfl
    · cases hStep with
      | teardownScope result =>
          obtain ⟨generation, rfl⟩ := teardownScope_eq_ok result
          exact muted_retireScope hOrigin hHistory hScheduled hScope
    · cases hStep with
      | destroyScope result =>
          obtain rfl := destroyScope_eq_ok result
          exact muted_retireScope hOrigin hHistory hScheduled hScope
  · rintro slot rfl handle scope interval hScheduled
    cases hStep with
    | closeSlot result =>
        have hClosed := closed_closeSlot result
        have hOld : .scheduled handle scope interval slot ∈ before ++ [.closed slot] := by
          rw [← List.singleton_append, ← List.append_assoc] at hScheduled
          exact (List.mem_append.mp hScheduled).resolve_right
            (hClosed.run hSettled' hAfter scope interval)
        have hMuted := muted_closed hClosed (hOrigin.effect hHistory hSettled hEffect)
          (hHistory.effect hSettled hEffect) hOld
        exact hMuted.run hSettled' hAfter
  · rintro rfl
    cases hStep with
    | shutdown => exact stopped_run rfl hSettled' hAfter
  · rintro report rfl rejection hRejection
    cases hEffect with
    | shrinks plain => exact plain.elim
    | drained spec =>
        obtain ⟨hMuted, hNone⟩ := muted_rejected spec hSettled.sound hRejection
        exact ⟨hNone, hMuted.run hSettled' hAfter⟩

/-- A timer that is cancelled after it fired. -/
theorem cancellation_final_fired :
    ∃ before after m, Transition.Run Step (withBudget 7 .tickFrame .contract .default)
        (before ++ .cancelled ⟨0, 1, 7⟩ :: after) m ∧
      firingsOf before = [⟨⟨0, 1, 7⟩, 5, 1, ⟨9⟩⟩] ∧
      ∀ record ∈ deliveriesOf after, record.handle ≠ ⟨0, 1, 7⟩ := by
  have run : Transition.Run Step (withBudget 7 .tickFrame .contract .default) _ _ :=
    (((((((Transition.Run.nil _).snoc (@Step.registerScope _ _ 1 .world _ rfl)).snoc
      (.createSlot rfl)).snoc (.bindSlot _ ⟨0, 1⟩ ⟨9⟩)).snoc
      (@Step.scheduleOneShot _ _ ⟨1, .world, 1⟩ 5 ⟨0, 1⟩ _ rfl)).snoc
      (@Step.advance _ _ 6 _ rfl)).snoc (@Step.cancel _ _ ⟨0, 1, 7⟩ true rfl)).snoc (.drain _)
  rw [List.append_assoc] at run
  exact ⟨_, _, _, run, rfl, (cancellation_final run).1 _ rfl⟩

end Runs

end TimerManager
end Timer

import LumioNativeCore.Timer.Window

/-! The two loops of `advance`: firing what was collected, and moving the
repeating timers on. -/
namespace Timer

/-- A roster read after a write to a live timer. -/
theorem Roster.getTimer_updateTimer_live {r : Roster} {c : Nat} {target : TimerHandle}
    {live : TimerRecord} (hLive : r.getTimer c target = .ok live)
    (f : TimerRecord → TimerRecord) (h : TimerHandle) :
    (r.updateTimer target.index f).getTimer c h =
      if h = target then .ok (f live) else r.getTimer c h := by
  rw [getTimer_updateTimer]
  by_cases hSame : h = target
  · subst hSame
    rw [if_pos rfl, if_pos rfl, hLive]
    rfl
  · rw [if_neg hSame]
    split_ifs with hIndex
    · cases hGet : r.getTimer c h with
      | error failure => rfl
      | ok other =>
          obtain ⟨hContext, t, hCell, hGeneration, -⟩ := getTimer_eq_ok.mp hLive
          obtain ⟨hContext', t', hCell', hGeneration', -⟩ := getTimer_eq_ok.mp hGet
          rw [hIndex, hCell] at hCell'
          obtain rfl := Option.some.inj hCell'
          exact absurd (TimerHandle.ext hIndex (hGeneration'.symm.trans hGeneration)
            (hContext'.trans hContext.symm)) hSame
    · rfl

namespace TimerManager

variable {m : TimerManager}

/-- The manager after a record was queued. -/
def fired (m : TimerManager) (record : FiringRecord) (timer : TimerRecord) (desk : Desk) :
    TimerManager :=
  { m with
    toDesk := desk
    toRoster :=
      if timer.interval.isNone then
        m.toRoster.updateTimer record.handle.index fun t => { t with queued := true }
      else m.toRoster }

/-- The manager after a record was refused. -/
def refused (m : TimerManager) (record : FiringRecord) (code : TimerError) : TimerManager :=
  { m with
    toJournal := m.toJournal.diagnose m.budget code record
    toRoster := m.toRoster.retire m.context record.handle }

def serveAll (m : TimerManager) (records : List FiringRecord) : AdvanceReport × TimerManager :=
  records.foldl serve (⟨[], []⟩, m)

theorem serve_report (report : AdvanceReport) (m : TimerManager) (record : FiringRecord) :
    serve (report, m) record =
      (⟨report.firings ++ (serve (⟨[], []⟩, m) record).1.firings,
        report.rejections ++ (serve (⟨[], []⟩, m) record).1.rejections⟩,
        (serve (⟨[], []⟩, m) record).2) := by
  simp only [serve]
  cases m.getTimer record.handle with
  | error failure => simp
  | ok timer =>
      dsimp only
      cases m.toDesk.enqueue m.limits m.budget record timer.scope timer.slot <;> simp

/-- The loop appends to the report it starts with. -/
theorem foldl_serve (report : AdvanceReport) (m : TimerManager) (records : List FiringRecord) :
    records.foldl serve (report, m) =
      (⟨report.firings ++ (m.serveAll records).1.firings,
        report.rejections ++ (m.serveAll records).1.rejections⟩, (m.serveAll records).2) := by
  induction records generalizing report m with
  | nil => simp [serveAll]
  | cons record rest ih =>
      have hTail : m.serveAll (record :: rest) = rest.foldl serve (serve (⟨[], []⟩, m) record) := rfl
      rw [List.foldl_cons, serve_report, ih, hTail, serve_report ⟨[], []⟩ m record, ih]
      simp only [List.nil_append, List.append_assoc]

theorem serveAll_append (m : TimerManager) (first second : List FiringRecord) :
    m.serveAll (first ++ second) =
      (⟨(m.serveAll first).1.firings ++ ((m.serveAll first).2.serveAll second).1.firings,
        (m.serveAll first).1.rejections ++ ((m.serveAll first).2.serveAll second).1.rejections⟩,
        ((m.serveAll first).2.serveAll second).2) := by
  rw [serveAll, List.foldl_append]
  exact foldl_serve (m.serveAll first).1 (m.serveAll first).2 second

section Turns

variable {record : FiringRecord} (rest : List FiringRecord)

theorem serveAll_dead (hGet : m.getTimer record.handle = .error .staleHandle) :
    m.serveAll (record :: rest) = m.serveAll rest := by
  rw [serveAll, List.foldl_cons]
  simp only [serve, hGet]
  rfl

theorem serveAll_fired {timer : TimerRecord} {desk : Desk}
    (hGet : m.getTimer record.handle = .ok timer)
    (hQueue : m.toDesk.enqueue m.limits m.budget record timer.scope timer.slot = .ok desk) :
    m.serveAll (record :: rest) =
      (⟨record :: ((m.fired record timer desk).serveAll rest).1.firings,
        ((m.fired record timer desk).serveAll rest).1.rejections⟩,
        ((m.fired record timer desk).serveAll rest).2) := by
  rw [serveAll, List.foldl_cons]
  simp only [serve, hGet, hQueue]
  exact foldl_serve ⟨[record], []⟩ (m.fired record timer desk) rest

theorem serveAll_refused {timer : TimerRecord} {code : TimerError}
    (hGet : m.getTimer record.handle = .ok timer)
    (hQueue : m.toDesk.enqueue m.limits m.budget record timer.scope timer.slot = .error code) :
    m.serveAll (record :: rest) =
      (⟨((m.refused record code).serveAll rest).1.firings,
        record.reject code :: ((m.refused record code).serveAll rest).1.rejections⟩,
        ((m.refused record code).serveAll rest).2) := by
  rw [serveAll, List.foldl_cons]
  simp only [serve, hGet, hQueue]
  exact foldl_serve ⟨[], [record.reject code]⟩ (m.refused record code) rest

end Turns

/-- Induction along the firing loop, one case for each way a turn can go. -/
theorem serveAll_induction
    {motive : TimerManager → List FiringRecord → AdvanceReport × TimerManager → Prop}
    (nil : ∀ m, motive m [] (⟨[], []⟩, m))
    (dead : ∀ m record rest, m.getTimer record.handle = .error .staleHandle →
      motive m rest (m.serveAll rest) → motive m (record :: rest) (m.serveAll rest))
    (fired : ∀ m record rest timer desk, m.getTimer record.handle = .ok timer →
      m.toDesk.enqueue m.limits m.budget record timer.scope timer.slot = .ok desk →
      motive (m.fired record timer desk) rest ((m.fired record timer desk).serveAll rest) →
      motive m (record :: rest)
        (⟨record :: ((m.fired record timer desk).serveAll rest).1.firings,
          ((m.fired record timer desk).serveAll rest).1.rejections⟩,
          ((m.fired record timer desk).serveAll rest).2))
    (refused : ∀ m record rest timer code, m.getTimer record.handle = .ok timer →
      m.toDesk.enqueue m.limits m.budget record timer.scope timer.slot = .error code →
      motive (m.refused record code) rest ((m.refused record code).serveAll rest) →
      motive m (record :: rest)
        (⟨((m.refused record code).serveAll rest).1.firings,
          record.reject code :: ((m.refused record code).serveAll rest).1.rejections⟩,
          ((m.refused record code).serveAll rest).2))
    (m : TimerManager) (records : List FiringRecord) : motive m records (m.serveAll records) := by
  induction records generalizing m with
  | nil => exact nil m
  | cons record rest ih =>
      cases hGet : m.getTimer record.handle with
      | error failure =>
          rw [Roster.getTimer_error hGet] at hGet
          rw [serveAll_dead rest hGet]
          exact dead m record rest hGet (ih m)
      | ok timer =>
          cases hQueue : m.toDesk.enqueue m.limits m.budget record timer.scope timer.slot with
          | ok desk =>
              rw [serveAll_fired rest hGet hQueue]
              exact fired m record rest timer desk hGet hQueue (ih _)
          | error code =>
              rw [serveAll_refused rest hGet hQueue]
              exact refused m record rest timer code hGet hQueue (ih _)

/-! Readings after a turn. -/

theorem getTimer_fired {record : FiringRecord} {timer : TimerRecord} (desk : Desk)
    (hGet : m.getTimer record.handle = .ok timer) (h : TimerHandle) :
    (m.fired record timer desk).getTimer h =
      if h = record.handle ∧ timer.interval = none then .ok { timer with queued := true }
      else m.getTimer h := by
  rw [fired]
  by_cases hOnce : timer.interval = none
  · have hNone : timer.interval.isNone = true := by rw [hOnce]; rfl
    rw [if_pos hNone, if_congr (and_iff_left hOnce) rfl rfl]
    exact Roster.getTimer_updateTimer_live hGet _ h
  · have hSome : ¬timer.interval.isNone = true := by simpa using hOnce
    rw [if_neg hSome, if_neg fun h => hOnce h.2]
    rfl

theorem getTimer_refused (record : FiringRecord) (code : TimerError) (h : TimerHandle) :
    (m.refused record code).getTimer h =
      if h = record.handle then .error .staleHandle else m.getTimer h :=
  Roster.getTimer_retire m.toRoster m.context record.handle h

/-- Whether the loop met a record of `h`, for the readings below. -/
theorem getTimer_serveAll (m : TimerManager) (records : List FiringRecord) (h : TimerHandle)
    (record' : TimerRecord) :
    (m.serveAll records).2.getTimer h = .ok record' ↔
      ∃ record, m.getTimer h = .ok record ∧
        h ∉ (m.serveAll records).1.rejections.map FiringRejection.handle ∧
        record' = if h ∈ records.map FiringRecord.handle ∧ record.interval = none then
          { record with queued := true } else record := by
  apply serveAll_induction (motive := fun m records result =>
    result.2.getTimer h = .ok record' ↔
      ∃ record, m.getTimer h = .ok record ∧
        h ∉ result.1.rejections.map FiringRejection.handle ∧
        record' = if h ∈ records.map FiringRecord.handle ∧ record.interval = none then
          { record with queued := true } else record)
  · intro m
    simp [eq_comm]
  · intro m r rest hDead ih
    rw [ih]
    by_cases hSame : h = r.handle
    · subst hSame
      simp [hDead]
    · simp [hSame]
  · intro m r rest timer desk hGet hQueue ih
    rw [ih, getTimer_fired desk hGet]
    by_cases hSame : h = r.handle
    · subst hSame
      by_cases hOnce : timer.interval = none
      · simp [hGet, hOnce]
      · simp [hGet, hOnce]
    · simp [hSame]
  · intro m r rest timer code hGet hQueue ih
    rw [ih, getTimer_refused]
    by_cases hSame : h = r.handle
    · subst hSame
      simp [FiringRecord.reject]
    · simp [hSame, FiringRecord.reject]

/-! What the loop leaves alone. -/

/-- Two managers that differ in their timers, queues and journal only. -/
structure SameFrame (m m' : TimerManager) : Prop where
  config : m'.toTimerConfig = m.toTimerConfig
  clock : m'.toClock = m.toClock
  running : m'.running = m.running
  dispatchTable : m'.dispatchTable = m.dispatchTable

theorem SameFrame.refl (m : TimerManager) : SameFrame m m := ⟨rfl, rfl, rfl, rfl⟩

theorem SameFrame.trans {m m' m'' : TimerManager} (h : SameFrame m m') (h' : SameFrame m' m'') :
    SameFrame m m'' :=
  ⟨h'.config.trans h.config, h'.clock.trans h.clock, h'.running.trans h.running,
    h'.dispatchTable.trans h.dispatchTable⟩

theorem serveAll_frame (m : TimerManager) (records : List FiringRecord) :
    SameFrame m (m.serveAll records).2 := by
  apply serveAll_induction (motive := fun m _ result => SameFrame m result.2)
  · exact fun m => SameFrame.refl m
  · exact fun _ _ _ _ ih => ih
  · intro m record rest timer desk _ _ ih
    have hTurn : SameFrame m (m.fired record timer desk) := ⟨rfl, rfl, rfl, rfl⟩
    exact hTurn.trans ih
  · intro m record rest timer code _ _ ih
    have hTurn : SameFrame m (m.refused record code) := ⟨rfl, rfl, rfl, rfl⟩
    exact hTurn.trans ih

theorem serveAll_interim (m : TimerManager) (records : List FiringRecord) :
    Roster.Interim m.toRoster (m.serveAll records).2.toRoster := by
  apply serveAll_induction (motive := fun m _ result =>
    Roster.Interim m.toRoster result.2.toRoster)
  · exact fun m => Roster.Interim.refl
  · exact fun _ _ _ _ ih => ih
  · intro m record rest timer desk _ _ ih
    have hTurn : Roster.Interim m.toRoster (m.fired record timer desk).toRoster := by
      rw [fired]
      split_ifs
      · exact Roster.Interim.refl.updateTimer _ fun _ => rfl
      · exact Roster.Interim.refl
    exact hTurn.trans ih
  · intro m record rest timer code _ _ ih
    have hTurn : Roster.Interim m.toRoster (m.refused record code).toRoster :=
      Roster.Interim.refl.retire m.context record.handle
    exact hTurn.trans ih

theorem serveAll_firings (m : TimerManager) (records : List FiringRecord) :
    (m.serveAll records).1.firings.Sublist records := by
  apply serveAll_induction (motive := fun _ records result => result.1.firings.Sublist records)
  · exact fun _ => List.Sublist.refl _
  · exact fun _ _ _ _ ih => ih.cons _
  · exact fun _ _ _ _ _ _ _ ih => ih.cons_cons _
  · exact fun _ _ _ _ _ _ _ ih => ih.cons _

/-- The firings are what was queued. -/
theorem serveAll_items (m : TimerManager) (records : List FiringRecord) :
    ((m.serveAll records).2.toDesk.items.map QueueItem.record).Perm
      (m.toDesk.items.map QueueItem.record ++ (m.serveAll records).1.firings) := by
  apply serveAll_induction (motive := fun m _ result =>
    (result.2.toDesk.items.map QueueItem.record).Perm
      (m.toDesk.items.map QueueItem.record ++ result.1.firings))
  · intro m
    simp
  · exact fun _ _ _ _ ih => ih
  · intro m record rest timer desk hGet hQueue ih
    apply ih.trans
    have hItems := (Desk.items_enqueue hQueue).map QueueItem.record
    rw [List.map_append, List.map_singleton] at hItems
    have hAppend := hItems.append_right ((m.fired record timer desk).serveAll rest).1.firings
    rw [List.append_assoc] at hAppend
    exact hAppend
  · exact fun _ _ _ _ _ _ _ ih => ih

/-! The loop keeps the invariant. -/

section Turns

variable {horizon : Nat}

/-- Writes to a timer that leave alone what the queues know of it. -/
structure Gentle (f : TimerRecord → TimerRecord) : Prop where
  scope : ∀ record, (f record).scope = record.scope
  interval : ∀ record, (f record).interval = record.interval
  sequence : ∀ record, (f record).sequence = record.sequence
  slot : ∀ record, (f record).slot = record.slot
  dispatch : ∀ record, (f record).dispatch = record.dispatch

theorem Sound.updateTimer (h : Sound horizon m) (i : Nat) {f : TimerRecord → TimerRecord}
    (hGentle : Gentle f)
    (hQueued : ∀ handle record, m.getTimer handle = .ok record → handle.index = i →
      (f record).queued = true → record.interval = none) :
    Sound horizon { m with toRoster := m.toRoster.updateTimer i f } := by
  have hRead : ∀ handle record,
      (m.toRoster.updateTimer i f).getTimer m.context handle = .ok record →
      ∃ before, m.getTimer handle = .ok before ∧
        (record = before ∨ handle.index = i ∧ record = f before) := by
    intro handle record hGet
    rw [Roster.getTimer_updateTimer] at hGet
    split_ifs at hGet with hIndex
    · cases hBefore : m.toRoster.getTimer m.context handle with
      | error failure => simp [hBefore, Except.map] at hGet
      | ok before =>
          rw [hBefore] at hGet
          exact ⟨before, hBefore, Or.inr ⟨hIndex, (Except.ok.inj hGet).symm⟩⟩
    · exact ⟨record, hGet, Or.inl rfl⟩
  have hSame : ∀ handle record,
      (m.toRoster.updateTimer i f).getTimer m.context handle = .ok record →
      ∃ before, m.getTimer handle = .ok before ∧ record.scope = before.scope ∧
        record.interval = before.interval ∧ record.sequence = before.sequence ∧
        record.slot = before.slot ∧ record.dispatch = before.dispatch := by
    intro handle record hGet
    obtain ⟨before, hBefore, rfl | ⟨-, rfl⟩⟩ := hRead handle record hGet
    · exact ⟨record, hBefore, rfl, rfl, rfl, rfl, rfl⟩
    · exact ⟨before, hBefore, hGentle.scope _, hGentle.interval _, hGentle.sequence _,
        hGentle.slot _, hGentle.dispatch _⟩
  exact
    { config := h.config
      booked := h.booked.updateTimer i hGentle.scope
      resolving := by
        intro handle record hGet
        obtain ⟨before, hBefore, hScope, -⟩ := hSame handle record hGet
        rw [hScope]
        exact h.resolving handle before hBefore
      free := fun hRunning => (h.free hRunning).updateTimer i f
      counted := h.counted
      sequence := by
        intro handle record hGet
        obtain ⟨before, hBefore, -, -, hSequence, -⟩ := hSame handle record hGet
        rw [hSequence]
        exact h.sequence handle before hBefore
      distinct := by
        intro handle handle' record record' hGet hGet' hEqual
        obtain ⟨before, hBefore, -, -, hSequence, -⟩ := hSame handle record hGet
        obtain ⟨before', hBefore', -, -, hSequence', -⟩ := hSame handle' record' hGet'
        rw [hSequence, hSequence'] at hEqual
        exact h.distinct handle handle' before before' hBefore hBefore' hEqual
      interval := by
        intro handle record hGet
        obtain ⟨before, hBefore, -, hInterval, -⟩ := hSame handle record hGet
        rw [hInterval]
        exact h.interval handle before hBefore
      queued := by
        intro handle record hGet hRecord
        obtain ⟨before, hBefore, rfl | ⟨hIndex, rfl⟩⟩ := hRead handle record hGet
        · exact h.queued handle record hBefore hRecord
        · rw [hGentle.interval]
          exact hQueued handle before hBefore hIndex hRecord
      issued := fun hRunning k item hItem =>
        (Roster.issued_updateTimer i f).mpr (h.issued hRunning k item hItem)
      due := h.due
      keys := h.keys
      owner := by
        intro k item record hItem hGet
        obtain ⟨before, hBefore, hScope, -, -, hSlot, hDispatch⟩ := hSame _ record hGet
        rw [hScope, hSlot, hDispatch]
        exact h.owner k item before hItem hBefore
      siblings := h.siblings }

variable {record : FiringRecord} {timer : TimerRecord} {desk : Desk}

theorem Sound.enqueued (h : Sound horizon m) (hGet : m.getTimer record.handle = .ok timer)
    (hQueue : m.toDesk.enqueue m.limits m.budget record timer.scope timer.slot = .ok desk)
    (hDispatch : record.slotDispatchId = timer.dispatch) (hDue : record.dueTick ≤ horizon)
    (hFresh : record.key ∉ m.toDesk.items.map fun item => item.record.key) :
    Sound horizon { m with toDesk := desk } := by
  have hHolds := Desk.holds_enqueue hQueue
  have hItems := Desk.items_enqueue hQueue
  -- the queued items of the timer are valid, as its slot is armed
  have hSibling : ∀ k item, m.toDesk.Holds k item → item.record.handle = record.handle →
      k = timer.slot.index ∧ item.scope = timer.scope ∧
        item.record.slotDispatchId = record.slotDispatchId ∧ item.valid = true := by
    intro k item hItem hHandle
    rw [← hHandle] at hGet
    obtain ⟨hScope, hSlot, hSameDispatch, hState⟩ := h.owner k item timer hItem hGet
    refine ⟨hSlot, hScope, hSameDispatch.trans hDispatch.symm, hState.resolve_right ?_⟩
    rw [hSlot, Desk.enqueue_armed hQueue]
    exact fun hClosed => SlotState.noConfusion (Option.some.inj hClosed)
  exact
    { h with
      counted := by
        have hLength := hItems.length_eq
        rw [List.length_append, List.length_singleton] at hLength
        change desk.pending = desk.items.length
        rw [Desk.pending_enqueue hQueue, hLength, h.counted]
      free := fun hRunning => h.free hRunning
      issued := by
        intro hRunning k item hItem
        rcases (hHolds k item).mp hItem with hOld | ⟨-, rfl⟩
        · exact h.issued hRunning k item hOld
        · exact Roster.issued_of_getTimer hGet
      due := by
        intro item hItem
        rcases List.mem_append.mp (hItems.mem_iff.mp hItem) with hOld | hNew
        · exact h.due item hOld
        · obtain rfl := List.mem_singleton.mp hNew
          exact hDue
      keys := by
        have hKeys := hItems.map fun item => item.record.key
        rw [List.map_append, List.map_singleton] at hKeys
        apply hKeys.nodup_iff.mpr
        rw [List.nodup_append_comm, List.singleton_append, List.nodup_cons]
        exact ⟨hFresh, h.keys⟩
      owner := by
        intro k item other hItem hFound
        rw [show desk.stateOf k = m.toDesk.stateOf k from Desk.stateOf_enqueue hQueue k]
        rcases (hHolds k item).mp hItem with hOld | ⟨rfl, rfl⟩
        · exact h.owner k item other hOld hFound
        · obtain rfl := Except.ok.inj (hGet.symm.trans hFound)
          exact ⟨rfl, rfl, hDispatch, Or.inl rfl⟩
      siblings := by
        intro k item k' item' hItem hItem' hHandle
        rcases (hHolds k item).mp hItem with hOld | ⟨rfl, rfl⟩ <;>
          rcases (hHolds k' item').mp hItem' with hOld' | ⟨rfl, rfl⟩
        · exact h.siblings k item k' item' hOld hOld' hHandle
        · exact hSibling k item hOld hHandle
        · obtain ⟨hSlot, hScope, hSame, hValid⟩ := hSibling k' item' hOld' hHandle.symm
          exact ⟨hSlot.symm, hScope.symm, hSame.symm, hValid.symm⟩
        · exact ⟨rfl, rfl, rfl, rfl⟩ }

theorem Sound.fired (h : Sound horizon m) (hGet : m.getTimer record.handle = .ok timer)
    (hQueue : m.toDesk.enqueue m.limits m.budget record timer.scope timer.slot = .ok desk)
    (hDispatch : record.slotDispatchId = timer.dispatch) (hDue : record.dueTick ≤ horizon)
    (hFresh : record.key ∉ m.toDesk.items.map fun item => item.record.key) :
    Sound horizon (m.fired record timer desk) := by
  have hQueued := h.enqueued hGet hQueue hDispatch hDue hFresh
  rw [TimerManager.fired]
  split_ifs with hOnce
  · apply hQueued.updateTimer record.handle.index
      (show Gentle fun t => { t with queued := true } from
        ⟨fun _ => rfl, fun _ => rfl, fun _ => rfl, fun _ => rfl, fun _ => rfl⟩)
    intro handle other hFound hIndex _
    obtain ⟨hContext, t, hCell, -, hRecord⟩ := Roster.getTimer_eq_ok.mp hGet
    obtain ⟨hContext', t', hCell', -, hRecord'⟩ := Roster.getTimer_eq_ok.mp hFound
    change m.timers[handle.index]? = some t' at hCell'
    rw [hIndex, hCell] at hCell'
    obtain rfl := Option.some.inj hCell'
    rw [hRecord] at hRecord'
    obtain rfl := Option.some.inj hRecord'
    simpa using hOnce
  · exact hQueued

theorem Sound.refused (h : Sound horizon m) (record : FiringRecord) (code : TimerError) :
    Sound horizon (m.refused record code) := by
  have hRetired := h.retires (Roster.retires_retire m.context m.toRoster record.handle)
  exact { hRetired with }

end Turns

/-- The loop keeps the invariant when the records are those of the live timers,
due by the horizon and new to the queues. -/
theorem Sound.serveAll {horizon : Nat} (h : Sound horizon m) {records : List FiringRecord}
    (hDispatch : ∀ record ∈ records, ∀ timer, m.getTimer record.handle = .ok timer →
      record.slotDispatchId = timer.dispatch)
    (hDue : ∀ record ∈ records, record.dueTick ≤ horizon)
    (hFresh : ∀ record ∈ records, record.key ∉ m.toDesk.items.map fun item => item.record.key)
    (hKeys : (records.map FiringRecord.key).Nodup) :
    Sound horizon (m.serveAll records).2 := by
  revert h hDispatch hDue hFresh hKeys
  apply serveAll_induction (motive := fun m records result =>
    Sound horizon m →
    (∀ record ∈ records, ∀ timer, m.getTimer record.handle = .ok timer →
      record.slotDispatchId = timer.dispatch) →
    (∀ record ∈ records, record.dueTick ≤ horizon) →
    (∀ record ∈ records, record.key ∉ m.toDesk.items.map fun item => item.record.key) →
    (records.map FiringRecord.key).Nodup → Sound horizon result.2)
  · intro m h _ _ _ _
    exact h
  · intro m record rest _ ih h hDispatch hDue hFresh hKeys
    rw [List.map_cons, List.nodup_cons] at hKeys
    exact ih h (fun r hr => hDispatch r (List.mem_cons_of_mem _ hr))
      (fun r hr => hDue r (List.mem_cons_of_mem _ hr))
      (fun r hr => hFresh r (List.mem_cons_of_mem _ hr)) hKeys.2
  · intro m record rest timer desk hGet hQueue ih h hDispatch hDue hFresh hKeys
    rw [List.map_cons, List.nodup_cons] at hKeys
    have hTurn := h.fired hGet hQueue (hDispatch record List.mem_cons_self timer hGet)
      (hDue record List.mem_cons_self) (hFresh record List.mem_cons_self)
    apply ih hTurn
    · intro r hr other hOther
      rw [getTimer_fired desk hGet] at hOther
      split_ifs at hOther with hSame
      · obtain rfl := Except.ok.inj hOther
        exact hDispatch r (List.mem_cons_of_mem _ hr) timer (hSame.1 ▸ hGet)
      · exact hDispatch r (List.mem_cons_of_mem _ hr) other hOther
    · exact fun r hr => hDue r (List.mem_cons_of_mem _ hr)
    · intro r hr hMem
      have hItems := (Desk.items_enqueue hQueue).map fun item => item.record.key
      rw [List.map_append, List.map_singleton] at hItems
      rcases List.mem_append.mp (hItems.mem_iff.mp hMem) with hOld | hNew
      · exact hFresh r (List.mem_cons_of_mem _ hr) hOld
      · rw [List.mem_singleton] at hNew
        exact hKeys.1 (hNew ▸ List.mem_map_of_mem hr)
    · exact hKeys.2
  · intro m record rest timer code hGet _ ih h hDispatch hDue hFresh hKeys
    rw [List.map_cons, List.nodup_cons] at hKeys
    apply ih (h.refused record code)
    · intro r hr other hOther
      rw [getTimer_refused] at hOther
      split_ifs at hOther
      exact hDispatch r (List.mem_cons_of_mem _ hr) other hOther
    · exact fun r hr => hDue r (List.mem_cons_of_mem _ hr)
    · exact fun r hr => hFresh r (List.mem_cons_of_mem _ hr)
    · exact hKeys.2

end TimerManager
end Timer

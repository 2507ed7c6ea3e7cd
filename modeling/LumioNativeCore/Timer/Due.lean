import LumioNativeCore.Timer.Effect

/-! What one call of `advance` does, against the timers' own progressions: which firings are
due in a window, which of them are made and which refused, and where every timer stands
afterwards. -/
namespace Timer

/-- The ticks at which a timer fires as it stands: its due tick, and if it repeats, any number
of intervals after it. -/
def TimerRecord.FiresAt (record : TimerRecord) (tick : Nat) : Prop :=
  match record.interval with
  | none => tick = record.due
  | some interval => TimerManager.OnBeat record.due interval tick

/-- Where a timer stands after a window in which none of its firings is refused; nowhere, if
it is retired. -/
inductive TimerRecord.Passes (toTick : Nat) (record : TimerRecord) : Option TimerRecord → Prop
  | waits (hIdle : record.queued = true ∨ toTick < record.due) : Passes toTick record (some record)
  | fired (hDue : record.IsDue toTick) (hOnce : record.interval = none) :
      Passes toTick record (some { record with queued := true })
  | moved {interval next : Nat} (hDue : record.IsDue toTick)
      (hEvery : record.interval = some interval)
      (hNext : TimerManager.IsNextBeat record.due interval toTick next) :
      Passes toTick record (some { record with due := next })
  | ended {interval : Nat} (hDue : record.IsDue toTick)
      (hEvery : record.interval = some interval)
      (hEnd : TimerManager.BeatsEnd record.due interval toTick) : Passes toTick record none

/-- A due firing whose turn comes, with the slot of its timer and the reason if it is refused. -/
structure Turn where
  record : FiringRecord
  slot : CallbackSlot
  code : Option TimerError

namespace Turn

def fires (turn : Turn) : Bool := turn.code.isNone

/-- The turn queues a record at the slot. -/
def firesInto (slot : CallbackSlot) (turn : Turn) : Bool :=
  turn.fires && turn.slot.index == slot.index

def rejection (turn : Turn) : Option FiringRejection := turn.code.map turn.record.reject

end Turn

theorem FiringRecord.Precedes.asymm {a b : FiringRecord} (h : a.Precedes b) : ¬b.Precedes a := by
  unfold FiringRecord.Precedes at *
  omega

namespace TimerManager

variable {m : TimerManager} {toTick : Nat}

/-- `r` is a firing of a live timer that is not queued, at one of its ticks in the window. -/
def Due (m : TimerManager) (toTick : Nat) (r : FiringRecord) : Prop :=
  ∃ record, m.getTimer r.handle = .ok record ∧ record.queued = false ∧
    record.FiresAt r.dueTick ∧ m.committedTick < r.dueTick ∧ r.dueTick ≤ toTick ∧
    r = record.firing r.handle r.dueTick

/-- What a firing needs when the turns `before` have been taken: room among the pending
records, an armed slot and room in its queue. -/
def HasRoom (m : TimerManager) (before : List Turn) (slot : CallbackSlot) : Prop :=
  m.pending + before.countP Turn.fires < m.budget.maxPendingRecords ∧
    ∃ s, m.slot slot = .ok s ∧ s.state = .armed ∧
      s.queue.length + before.countP (Turn.firesInto slot) < m.limits.deliveryQueueDepthPerSlot

/-- The turns taken of `records` and the report they make. A record of a live timer loses its
turn only to an earlier refusal of that timer, and a turn fires exactly if it has room. -/
structure Serves (m : TimerManager) (records : List FiringRecord) (report : AdvanceReport)
    (turns : List Turn) : Prop where
  ordered : (turns.map Turn.record).Sublist records
  taken : ∀ r ∈ records, r ∈ turns.map Turn.record ↔
    (∃ timer, m.getTimer r.handle = .ok timer) ∧
      ∀ turn ∈ turns, turn.code ≠ none → turn.record.handle = r.handle →
        ¬turn.record.Precedes r
  slots : ∀ turn ∈ turns, ∃ timer, m.getTimer turn.record.handle = .ok timer ∧
    turn.slot = timer.slot
  room : ∀ before turn after, turns = before ++ turn :: after →
    (turn.code = none ↔ m.HasRoom before turn.slot)
  firings : report.firings = (turns.filter Turn.fires).map Turn.record
  rejections : report.rejections = turns.filterMap Turn.rejection

/-! The due firings are what is collected. -/

theorem mem_ticks {record : TimerRecord} (hInterval : record.interval ≠ some 0)
    (hWord : toTick ≤ Word.max64) (hDue : record.due ≤ toTick) {tick : Nat} :
    tick ∈ record.ticks toTick ↔ record.FiresAt tick ∧ tick ≤ toTick := by
  rw [TimerRecord.ticks, TimerRecord.FiresAt]
  cases hEvery : record.interval with
  | none =>
      rw [List.mem_singleton]
      exact ⟨fun h => ⟨h, h ▸ hDue⟩, fun h => h.1⟩
  | some interval => exact mem_ticksFrom (interval_pos hInterval hEvery) hWord hDue

theorem FiresAt.le {record : TimerRecord} {tick : Nat} (h : record.FiresAt tick) :
    record.due ≤ tick := by
  rw [TimerRecord.FiresAt] at h
  cases hEvery : record.interval with
  | none =>
      rw [hEvery] at h
      exact h.ge
  | some interval =>
      rw [hEvery] at h
      exact h.le

theorem due_iff_mem_window (h : Settled m) (hWord : toTick ≤ Word.max64) {r : FiringRecord} :
    m.Due toTick r ↔ r ∈ m.window toTick := by
  rw [mem_window, mem_collected]
  apply exists_congr
  intro record
  apply and_congr_right
  intro hGet
  constructor
  · rintro ⟨hQueued, hTick, hLater, hWithin, hFiring⟩
    have hDue : record.due ≤ toTick := (FiresAt.le hTick).trans hWithin
    exact ⟨⟨hQueued, hDue⟩,
      (mem_ticks (h.sound.interval _ record hGet) hWord hDue).mpr ⟨hTick, hWithin⟩, hFiring⟩
  · rintro ⟨hDue, hTick, hFiring⟩
    obtain ⟨hFires, hWithin⟩ :=
      (mem_ticks (h.sound.interval _ record hGet) hWord hDue.2).mp hTick
    have hUpcoming := h.upcoming r.handle record hGet hDue.1
    exact ⟨hDue.1, hFires, hUpcoming.trans_le (FiresAt.le hFires), hWithin, hFiring⟩

/-! One turn of the firing loop. -/

section Turns

variable {record : FiringRecord} {timer : TimerRecord} {desk : Desk} {code : TimerError}
  {rest : List FiringRecord} {report : AdvanceReport} {turns : List Turn}

/-- A firing takes one place among the pending records and one in the queue of its slot. -/
theorem hasRoom_fired
    (hQueue : m.toDesk.enqueue m.limits m.budget record timer.scope timer.slot = .ok desk)
    (before : List Turn) (slot : CallbackSlot) :
    (m.fired record timer desk).HasRoom before slot ↔
      m.HasRoom (⟨record, timer.slot, none⟩ :: before) slot := by
  have hPending : desk.pending = m.pending + 1 := Desk.pending_enqueue hQueue
  have hCount : ∀ slot', (⟨record, timer.slot, none⟩ :: before).countP (Turn.firesInto slot') =
      before.countP (Turn.firesInto slot') + if timer.slot.index = slot'.index then 1 else 0 := by
    intro slot'
    simp [List.countP_cons, Turn.firesInto, Turn.fires]
  have hFires : (⟨record, timer.slot, none⟩ :: before).countP Turn.fires =
      before.countP Turn.fires + 1 := by
    simp [List.countP_cons, Turn.fires]
  rw [HasRoom, HasRoom, hCount, hFires]
  change desk.pending + _ < m.budget.maxPendingRecords ∧ (∃ s, desk.slot slot = .ok s ∧
    s.state = .armed ∧ s.queue.length + _ < m.limits.deliveryQueueDepthPerSlot) ↔ _
  rw [hPending]
  apply and_congr
  · omega
  · simp only [Desk.slot_enqueue hQueue]
    constructor
    · rintro ⟨_, ⟨s, hSlot, rfl⟩, hArmed, hDepth⟩
      refine ⟨s, hSlot, ?_⟩
      split_ifs at hArmed hDepth ⊢ with hSame
      · rw [List.length_append, List.length_singleton] at hDepth
        exact ⟨hArmed, by omega⟩
      · exact ⟨hArmed, hDepth⟩
    · rintro ⟨s, hSlot, hArmed, hDepth⟩
      refine ⟨_, ⟨s, hSlot, rfl⟩, ?_⟩
      split_ifs at hDepth ⊢ with hSame
      · rw [List.length_append, List.length_singleton]
        exact ⟨hArmed, by omega⟩
      · exact ⟨hArmed, hDepth⟩

theorem hasRoom_refused (record : FiringRecord) (code : TimerError) (own : CallbackSlot)
    (before : List Turn) (slot : CallbackSlot) :
    (m.refused record code).HasRoom before slot ↔
      m.HasRoom (⟨record, own, some code⟩ :: before) slot := by
  simp [HasRoom, refused, Turn.firesInto, Turn.fires, TimerManager.slot]

theorem enqueue_iff_hasRoom {scope : TimerScope} {slot : CallbackSlot} :
    (∃ desk, m.toDesk.enqueue m.limits m.budget record scope slot = .ok desk) ↔
      m.HasRoom [] slot := by
  simp [Desk.enqueue_eq_ok, HasRoom, TimerManager.slot]

theorem Serves.nil (m : TimerManager) : m.Serves [] ⟨[], []⟩ [] where
  ordered := List.Sublist.refl _
  taken := fun _ hr => absurd hr List.not_mem_nil
  slots := fun _ hTurn => absurd hTurn List.not_mem_nil
  room := fun before turn after hSplit => by simp at hSplit
  firings := rfl
  rejections := rfl

/-- In an ordered list no record comes again. -/
theorem not_mem_rest (hOrder : (record :: rest).Pairwise FiringRecord.Precedes) :
    record ∉ rest := by
  intro hMem
  have hSelf := (List.pairwise_cons.mp hOrder).1 record hMem
  exact hSelf.asymm hSelf

theorem Serves.dead (h : m.Serves rest report turns)
    (hOrder : (record :: rest).Pairwise FiringRecord.Precedes)
    (hDead : m.getTimer record.handle = .error .staleHandle) :
    m.Serves (record :: rest) report turns where
  ordered := h.ordered.cons record
  taken := by
    intro r hr
    rcases List.mem_cons.mp hr with rfl | hr
    · constructor
      · intro hTaken
        exact absurd (h.ordered.subset hTaken) (not_mem_rest hOrder)
      · rintro ⟨⟨timer, hGet⟩, -⟩
        cases hDead.symm.trans hGet
    · exact h.taken r hr
  slots := h.slots
  room := h.room
  firings := h.firings
  rejections := h.rejections

/-- A turn in front of those of the rest. -/
theorem taken_cons {other : TimerManager} (slot : CallbackSlot) (outcome : Option TimerError)
    (hServes : other.Serves rest report turns)
    (hOrder : (record :: rest).Pairwise FiringRecord.Precedes)
    (hGet : m.getTimer record.handle = .ok timer)
    (hLive : ∀ r ∈ rest, (∃ timer, other.getTimer r.handle = .ok timer) ↔
      (∃ timer, m.getTimer r.handle = .ok timer) ∧
        (outcome ≠ none → record.handle ≠ r.handle)) :
    ∀ r ∈ record :: rest, r ∈ (⟨record, slot, outcome⟩ :: turns).map Turn.record ↔
      (∃ timer, m.getTimer r.handle = .ok timer) ∧
        ∀ turn ∈ ⟨record, slot, outcome⟩ :: turns, turn.code ≠ none →
          turn.record.handle = r.handle → ¬turn.record.Precedes r := by
  obtain ⟨hHead, -⟩ := List.pairwise_cons.mp hOrder
  intro r hr
  rw [List.map_cons, List.mem_cons, List.forall_mem_cons]
  rcases List.mem_cons.mp hr with rfl | hr
  · refine iff_of_true (Or.inl rfl) ⟨⟨timer, hGet⟩, fun _ _ hSelf => hSelf.asymm hSelf, ?_⟩
    intro turn hTurn _ _
    have hLater := hHead _ (hServes.ordered.subset (List.mem_map_of_mem hTurn))
    exact hLater.asymm
  · have hOther : r ≠ record := fun hSame => not_mem_rest hOrder (hSame ▸ hr)
    have hBefore := hHead r hr
    rw [or_iff_right hOther, hServes.taken r hr, hLive r hr, and_assoc]
    apply and_congr_right
    intro _
    apply and_congr_left
    intro _
    constructor
    · exact fun hNot hCode hSame => absurd hSame (hNot hCode)
    · exact fun hNot hCode hSame => hNot hCode hSame hBefore

/-- The room of the turns behind the first, with the first among those before. -/
theorem room_cons {other : TimerManager} {turn : Turn} (hServes : other.Serves rest report turns)
    (hRoom : ∀ before slot, other.HasRoom before slot ↔ m.HasRoom (turn :: before) slot)
    (hTurn : turn.code = none ↔ m.HasRoom [] turn.slot) :
    ∀ before taken after, turn :: turns = before ++ taken :: after →
      (taken.code = none ↔ m.HasRoom before taken.slot) := by
  intro before taken after hSplit
  cases before with
  | nil =>
      obtain ⟨rfl, -⟩ := List.cons.inj hSplit
      exact hTurn
  | cons first before =>
      obtain ⟨rfl, hRest⟩ := List.cons.inj hSplit
      rw [hServes.room before taken after hRest, hRoom]

theorem Serves.fired (hGet : m.getTimer record.handle = .ok timer)
    (hQueue : m.toDesk.enqueue m.limits m.budget record timer.scope timer.slot = .ok desk)
    (hOrder : (record :: rest).Pairwise FiringRecord.Precedes)
    (h : (m.fired record timer desk).Serves rest report turns) :
    m.Serves (record :: rest) ⟨record :: report.firings, report.rejections⟩
      (⟨record, timer.slot, none⟩ :: turns) where
  ordered := h.ordered.cons_cons record
  taken := by
    apply taken_cons _ _ h hOrder hGet
    intro r hr
    rw [getTimer_fired desk hGet]
    split_ifs with hSame
    · simp [hSame.1, hGet]
    · simp
  slots := by
    intro turn hTurn
    rcases List.mem_cons.mp hTurn with rfl | hTurn
    · exact ⟨timer, hGet, rfl⟩
    · obtain ⟨found, hFound, hSlot⟩ := h.slots turn hTurn
      rw [getTimer_fired desk hGet] at hFound
      split_ifs at hFound with hSame
      · obtain rfl := Except.ok.inj hFound
        exact ⟨timer, hSame.1 ▸ hGet, hSlot⟩
      · exact ⟨found, hFound, hSlot⟩
  room := by
    apply room_cons h (hasRoom_fired hQueue)
    exact iff_of_true rfl (enqueue_iff_hasRoom.mp ⟨desk, hQueue⟩)
  firings := by
    rw [h.firings]
    rfl
  rejections := by
    rw [h.rejections]
    rfl

theorem Serves.refused (hGet : m.getTimer record.handle = .ok timer)
    (hQueue : m.toDesk.enqueue m.limits m.budget record timer.scope timer.slot = .error code)
    (hOrder : (record :: rest).Pairwise FiringRecord.Precedes)
    (h : (m.refused record code).Serves rest report turns) :
    m.Serves (record :: rest) ⟨report.firings, record.reject code :: report.rejections⟩
      (⟨record, timer.slot, some code⟩ :: turns) where
  ordered := h.ordered.cons_cons record
  taken := by
    apply taken_cons _ _ h hOrder hGet
    intro r hr
    rw [getTimer_refused]
    split_ifs with hSame
    · simp [hSame]
    · simp [Ne.symm hSame]
  slots := by
    intro turn hTurn
    rcases List.mem_cons.mp hTurn with rfl | hTurn
    · exact ⟨timer, hGet, rfl⟩
    · obtain ⟨found, hFound, hSlot⟩ := h.slots turn hTurn
      rw [getTimer_refused] at hFound
      split_ifs at hFound
      exact ⟨found, hFound, hSlot⟩
  room := by
    apply room_cons h (hasRoom_refused record code timer.slot)
    refine iff_of_false (Option.some_ne_none code) fun hRoom => ?_
    obtain ⟨desk, hOk⟩ := enqueue_iff_hasRoom.mpr hRoom
    cases hQueue.symm.trans hOk
  firings := by
    rw [h.firings]
    rfl
  rejections := by
    rw [h.rejections]
    rfl

end Turns

/-- The firing loop over an ordered list takes its turns. -/
theorem serveAll_serves (m : TimerManager) (records : List FiringRecord)
    (hOrder : records.Pairwise FiringRecord.Precedes) :
    ∃ turns, m.Serves records (m.serveAll records).1 turns := by
  revert hOrder
  apply serveAll_induction (motive := fun m records result =>
    records.Pairwise FiringRecord.Precedes → ∃ turns, m.Serves records result.1 turns)
  · intro m _
    exact ⟨[], Serves.nil m⟩
  · intro m record rest hDead ih hOrder
    obtain ⟨turns, hServes⟩ := ih (List.pairwise_cons.mp hOrder).2
    exact ⟨turns, hServes.dead hOrder hDead⟩
  · intro m record rest timer desk hGet hQueue ih hOrder
    obtain ⟨turns, hServes⟩ := ih (List.pairwise_cons.mp hOrder).2
    exact ⟨_, Serves.fired hGet hQueue hOrder hServes⟩
  · intro m record rest timer code hGet hQueue ih hOrder
    obtain ⟨turns, hServes⟩ := ih (List.pairwise_cons.mp hOrder).2
    exact ⟨_, Serves.refused hGet hQueue hOrder hServes⟩

/-! Where the timers stand afterwards. -/

/-- The code's next state of a timer is the one its progression gives. -/
theorem passes_advanced {record : TimerRecord} (hInterval : record.interval ≠ some 0) :
    record.Passes toTick (record.advanced toTick) := by
  rw [TimerRecord.advanced]
  split_ifs with hDue
  · by_cases hOnce : record.interval = none
    · have hNext : record.next toTick = none := by
        rw [TimerRecord.next, hOnce]
        rfl
      rw [hNext]
      exact .fired hDue hOnce
    · obtain ⟨interval, hEvery⟩ := Option.ne_none_iff_exists'.mp hOnce
      obtain ⟨hSome, hNone⟩ := ticksFrom_after (interval_pos hInterval hEvery) hDue.2
      have hNext : record.next toTick = some (ticksFrom toTick interval record.due).2 := by
        rw [TimerRecord.next, hEvery]
        rfl
      rw [hNext]
      cases hAfter : (ticksFrom toTick interval record.due).2 with
      | none => exact .ended hDue hEvery (hNone hAfter)
      | some next => exact .moved hDue hEvery (hSome next hAfter)
  · apply TimerRecord.Passes.waits
    by_contra hNot
    rw [not_or, Bool.not_eq_true, Nat.not_lt] at hNot
    exact hDue hNot

/-- How the timers of `m'` come from those of `m` when `report` is made of the window. -/
structure Leaves (m : TimerManager) (toTick : Nat) (report : AdvanceReport) (m' : TimerManager) :
    Prop where
  refused : ∀ h ∈ report.rejections.map FiringRejection.handle,
    m'.getTimer h = .error .staleHandle
  passed : ∀ h record, m.getTimer h = .ok record →
    h ∉ report.rejections.map FiringRejection.handle →
    ∃ after, record.Passes toTick after ∧ m'.getTimer h = after.elim (.error .staleHandle) .ok
  known : ∀ h record', m'.getTimer h = .ok record' → ∃ record, m.getTimer h = .ok record

theorem traversed_leaves {horizon : Nat} (hSound : Sound horizon m) :
    m.Leaves toTick (m.traversed toTick).1 (m.traversed toTick).2 where
  refused := by
    intro h hRefused
    cases hGet : (m.traversed toTick).2.getTimer h with
    | error failure => rw [Roster.getTimer_error hGet]
    | ok record' =>
        obtain ⟨-, -, hServed, -⟩ := (getTimer_traversed hSound h record').mp hGet
        exact absurd hRefused hServed
  passed := by
    intro h record hGet hServed
    refine ⟨_, passes_advanced (hSound.interval h record hGet), ?_⟩
    cases hAfter : record.advanced toTick with
    | some record' =>
        exact (getTimer_traversed hSound h record').mpr ⟨record, hGet, hServed, hAfter⟩
    | none =>
        cases hGet' : (m.traversed toTick).2.getTimer h with
        | error failure =>
            rw [Roster.getTimer_error hGet']
            rfl
        | ok record' =>
            obtain ⟨other, hOther, -, hMoved⟩ := (getTimer_traversed hSound h record').mp hGet'
            obtain rfl := Except.ok.inj (hGet.symm.trans hOther)
            cases hAfter.symm.trans hMoved
  known := by
    intro h record' hGet
    obtain ⟨record, hBefore, -⟩ := (getTimer_traversed hSound h record').mp hGet
    exact ⟨record, hBefore⟩

section Runs

variable {context : Nat} {mode : TimerMode} {limits : TimerLimits} {budget : TimerBudget}

/-- In every reachable state a window makes exactly its due firings. In the order of due tick
and sequence each of them takes its turn unless its timer was refused before, and fires exactly
if it has room; a refused timer is retired, and every other one stands where its progression
puts it. Ticks are `u64`s of the source. -/
theorem advance_fires_due {trace : List TimerEvent} {m' : TimerManager} {report : AdvanceReport}
    (run : Transition.Run Step (withBudget context mode limits budget) trace m)
    (hWord : toTick ≤ Word.max64) (hLater : m.committedTick < toTick)
    (hResult : m.advance toTick = .ok (report, m')) :
    ∃ due turns, (∀ r, r ∈ due ↔ m.Due toTick r) ∧ due.Pairwise FiringRecord.Precedes ∧
      m.Serves due report turns ∧ m'.committedTick = toTick ∧ m.Leaves toTick report m' := by
  have hSettled := (settled_withBudget context mode limits budget).run run
  obtain ⟨-, ⟨hSame, -⟩ | ⟨-, -, hTraversed⟩⟩ := advance_eq_ok.mp hResult
  · exact absurd hSame.symm (Nat.ne_of_lt hLater)
  · obtain ⟨rfl, rfl⟩ := Prod.mk.inj hTraversed
    have hSorted : (m.window toTick).Pairwise firingLe := List.pairwise_insertionSort firingLe _
    have hKeys : ((m.window toTick).map FiringRecord.key).Nodup :=
      ((window_perm m toTick).map _).nodup_iff.mpr (collected_keys hSettled.sound toTick)
    have hOrder := pairwise_precedes hSorted hKeys
    obtain ⟨turns, hServes⟩ := serveAll_serves m (m.window toTick) hOrder
    exact ⟨m.window toTick, turns, fun r => (due_iff_mem_window hSettled hWord).symm, hOrder,
      hServes, rfl, traversed_leaves hSettled.sound⟩

/-- A one-shot timer and one that repeats, in a window that holds two ticks of the latter. -/
theorem advance_fires_due_repeating :
    ∃ trace m report m', Transition.Run Step (withBudget 7 .tickFrame .contract .default) trace m ∧
      m.advance 6 = .ok (report, m') ∧ report.firings.map FiringRecord.dueTick = [3, 5, 5] ∧
      ∃ due turns, (∀ r, r ∈ due ↔ m.Due 6 r) ∧ m.Serves due report turns := by
  have run : Transition.Run Step (withBudget 7 .tickFrame .contract .default) _ _ :=
    (((((Transition.Run.nil _).snoc (@Step.registerScope _ _ 1 .world _ rfl)).snoc
      (.createSlot rfl)).snoc (.bindSlot _ ⟨0, 1⟩ ⟨9⟩)).snoc
      (@Step.scheduleOneShot _ _ ⟨1, .world, 1⟩ 5 ⟨0, 1⟩ _ rfl)).snoc
      (@Step.scheduleRepeating _ _ ⟨1, .world, 1⟩ 3 2 ⟨0, 1⟩ _ rfl)
  obtain ⟨due, turns, hDue, -, hServes, -⟩ :=
    @advance_fires_due _ 6 7 .tickFrame .contract .default _ _ _ run (by decide) (by decide) rfl
  exact ⟨_, _, _, _, run, rfl, rfl, due, turns, hDue, hServes⟩

end Runs

end TimerManager
end Timer

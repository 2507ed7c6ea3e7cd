import LumioNativeCore.Timer.Effect

/-! One window or two: the firings of a window are those of its earlier part
followed by those of its later part, and the timers end up in the same place. -/
namespace Timer

/-! One timer. -/

namespace TimerRecord

variable {record : TimerRecord} {a b : Nat}

/-- The ticks at which a timer fires in a window. -/
def fires (toTick : Nat) (record : TimerRecord) : List Nat :=
  if record.IsDue toTick then record.ticks toTick else []

/-- The firings of a timer that may be none, as an overflowing one is. -/
def firesNext (toTick : Nat) (next : Option TimerRecord) : List Nat :=
  next.elim [] (fires toTick)

theorem IsDue.mono (hDue : record.IsDue a) (hab : a ≤ b) : record.IsDue b :=
  ⟨hDue.1, hDue.2.trans hab⟩

/-- A timer fires in a window as it does in the earlier part, and then as it does
in the later part from where it stands there. -/
theorem fires_split (hInterval : record.interval ≠ some 0) (hab : a ≤ b) :
    record.fires b = record.fires a ++ firesNext b (record.advanced a) ∧
      record.advanced b = (record.advanced a).bind (advanced b) := by
  by_cases hDue : record.IsDue a
  · have hDueLater := hDue.mono hab
    rw [fires, fires, if_pos hDueLater, if_pos hDue, advanced, advanced, if_pos hDueLater,
      if_pos hDue, ticks, ticks, next, next]
    cases hEvery : record.interval with
    | none => simp [firesNext, fires, advanced, IsDue]
    | some interval =>
        have hPos : 0 < interval := by
          apply Nat.pos_of_ne_zero
          rintro rfl
          exact hInterval hEvery
        dsimp only [Option.map_some]
        rw [TimerManager.ticksFrom_split hPos hab record.due]
        cases hNext : (TimerManager.ticksFrom a interval record.due).2 with
        | none => simp [firesNext]
        | some due =>
            by_cases hWithin : due ≤ b
            · simp only [firesNext, fires, advanced, IsDue, hWithin, hDue.1, ticks, next, if_true,
                Option.elim, Option.bind, and_self, Option.map_some, true_and]
              cases (TimerManager.ticksFrom b interval due).2 <;> rfl
            · simp [firesNext, fires, advanced, IsDue, hWithin]
  · simp [fires, advanced, hDue, firesNext]

theorem fires_bound (hInterval : record.interval ≠ some 0) {tick : Nat}
    (hTick : tick ∈ record.fires a) : record.due ≤ tick ∧ tick ≤ a ∧ record.queued = false := by
  rw [fires] at hTick
  split_ifs at hTick with hDue
  · have hBound := TimerManager.ticks_bound hInterval hDue.2 hTick
    exact ⟨hBound.1, hBound.2, hDue.1⟩
  · exact absurd hTick List.not_mem_nil

theorem fires_later (hInterval : record.interval ≠ some 0) {tick : Nat}
    (hTick : tick ∈ firesNext b (record.advanced a)) : a < tick := by
  cases hAdvanced : record.advanced a with
  | none =>
      rw [hAdvanced] at hTick
      exact absurd hTick List.not_mem_nil
  | some record' =>
      rw [hAdvanced] at hTick
      have hSame := (TimerManager.advanced_place hAdvanced).2.2.1
      obtain ⟨hBound, -, hWaits⟩ := fires_bound (a := b) (hSame ▸ hInterval) hTick
      exact (TimerManager.advanced_waits hInterval hAdvanced hWaits).trans_le hBound

theorem mem_fires_earlier (hInterval : record.interval ≠ some 0) (hab : a ≤ b) (tick : Nat) :
    tick ∈ record.fires a ↔ tick ∈ record.fires b ∧ tick ≤ a := by
  rw [(fires_split hInterval hab).1, List.mem_append]
  constructor
  · exact fun hTick => ⟨Or.inl hTick, (fires_bound hInterval hTick).2.1⟩
  · rintro ⟨hTick | hTick, hBound⟩
    · exact hTick
    · have hLater := fires_later hInterval hTick
      omega

theorem mem_fires_later (hInterval : record.interval ≠ some 0) (hab : a ≤ b) (tick : Nat) :
    tick ∈ firesNext b (record.advanced a) ↔ tick ∈ record.fires b ∧ a < tick := by
  rw [(fires_split hInterval hab).1, List.mem_append]
  constructor
  · exact fun hTick => ⟨Or.inr hTick, fires_later hInterval hTick⟩
  · rintro ⟨hTick | hTick, hBound⟩
    · have hEarlier := (fires_bound hInterval hTick).2.1
      omega
    · exact hTick

end TimerRecord

namespace TimerManager

variable {m m' : TimerManager} {a b horizon : Nat}

theorem mem_collected_fires {toTick : Nat} {r : FiringRecord} :
    r ∈ m.collected toTick ↔ ∃ record, m.getTimer r.handle = .ok record ∧
      r.dueTick ∈ record.fires toTick ∧ r = record.firing r.handle r.dueTick := by
  rw [mem_collected]
  apply exists_congr
  intro record
  rw [TimerRecord.fires]
  split_ifs with hDue
  · simp [hDue]
  · simp [hDue]

/-! The firings of a window. -/

theorem window_precedes (hSound : Sound horizon m) (toTick : Nat) :
    (m.window toTick).Pairwise FiringRecord.Precedes :=
  pairwise_precedes (List.pairwise_insertionSort firingLe _)
    (((window_perm m toTick).map _).nodup_iff.mpr (collected_keys hSound toTick))

/-- A list in strict firing order is determined by its members. -/
theorem eq_of_precedes {records records' : List FiringRecord}
    (hSorted : records.Pairwise FiringRecord.Precedes)
    (hSorted' : records'.Pairwise FiringRecord.Precedes)
    (hMem : ∀ record, record ∈ records ↔ record ∈ records') : records = records' := by
  have hIrrefl : ∀ record : FiringRecord, ¬record.Precedes record := by
    intro record h
    unfold FiringRecord.Precedes at h
    omega
  have hNodup : ∀ {list : List FiringRecord}, list.Pairwise FiringRecord.Precedes → list.Nodup := by
    intro list hList
    apply hList.imp
    rintro record _ hBefore rfl
    exact hIrrefl record hBefore
  apply ((List.perm_ext_iff_of_nodup (hNodup hSorted) (hNodup hSorted')).mpr hMem).eq_of_pairwise
    _ hSorted hSorted'
  intro record record' _ _ hBefore hAfter
  unfold FiringRecord.Precedes at hBefore hAfter
  omega

/-- The firings of a window that lie behind a tick in it. -/
def remainder (m : TimerManager) (a b : Nat) : List FiringRecord :=
  (m.window b).filter fun record => a < record.dueTick

theorem mem_remainder {record : FiringRecord} :
    record ∈ m.remainder a b ↔ record ∈ m.collected b ∧ a < record.dueTick := by
  rw [remainder, List.mem_filter, mem_window, decide_eq_true_iff]

theorem window_split (hSound : Sound horizon m) (hab : a ≤ b) :
    m.window b = m.window a ++ m.remainder a b := by
  have hEarlier : ∀ record, record ∈ m.collected a ↔
      record ∈ m.collected b ∧ record.dueTick ≤ a := by
    intro record
    rw [mem_collected_fires, mem_collected_fires]
    constructor
    · rintro ⟨timer, hGet, hTick, hFiring⟩
      rw [TimerRecord.mem_fires_earlier (hSound.interval _ timer hGet) hab] at hTick
      exact ⟨⟨timer, hGet, hTick.1, hFiring⟩, hTick.2⟩
    · rintro ⟨⟨timer, hGet, hTick, hFiring⟩, hBound⟩
      refine ⟨timer, hGet, ?_, hFiring⟩
      exact (TimerRecord.mem_fires_earlier (hSound.interval _ timer hGet) hab _).mpr ⟨hTick, hBound⟩
  apply eq_of_precedes (window_precedes hSound b)
  · rw [List.pairwise_append]
    refine ⟨window_precedes hSound a, (window_precedes hSound b).filter _, ?_⟩
    intro record hRecord later hLater
    left
    have hBound := ((hEarlier record).mp (mem_window.mp hRecord)).2
    have hBeyond := (mem_remainder.mp hLater).2
    omega
  · intro record
    rw [List.mem_append, mem_window, mem_window, mem_remainder, hEarlier]
    constructor
    · intro hRecord
      rcases Nat.lt_or_ge a record.dueTick with hBeyond | hBound
      · exact Or.inr ⟨hRecord, hBeyond⟩
      · exact Or.inl ⟨hRecord, hBound⟩
    · rintro (hRecord | hRecord)
      · exact hRecord.1
      · exact hRecord.1

/-- What the later window collects: the rest of the firings, but for the timers
that a refusal retired in the earlier one. -/
theorem window_traversed (hSettled : Settled m) (hLater : m.committedTick < a) (hab : a ≤ b) :
    (m.traversed a).2.window b = (m.remainder a b).filter fun record =>
      record.handle ∉ (m.traversed a).1.rejections.map FiringRejection.handle := by
  have hSound := hSettled.sound
  apply eq_of_precedes
  · exact window_precedes (hSound.traversed hSettled.upcoming hLater) b
  · exact (window_precedes hSound b).filter _ |>.filter _
  · intro record
    rw [mem_window, mem_collected_fires, List.mem_filter, mem_remainder, mem_collected_fires,
      decide_eq_true_iff]
    simp only [getTimer_traversed hSound]
    constructor
    · rintro ⟨timer', ⟨timer, hGet, hServed, hAdvanced⟩, hTick, hFiring⟩
      have hSplit := TimerRecord.mem_fires_later (hSound.interval _ timer hGet) hab record.dueTick
      rw [hAdvanced] at hSplit
      obtain ⟨hFires, hBeyond⟩ := hSplit.mp hTick
      obtain ⟨-, -, -, hSequence, hDispatch⟩ := advanced_place hAdvanced
      refine ⟨⟨⟨timer, hGet, hFires, ?_⟩, hBeyond⟩, hServed⟩
      rw [hFiring, TimerRecord.firing, hSequence, hDispatch]
      rfl
    · rintro ⟨⟨⟨timer, hGet, hTick, hFiring⟩, hBeyond⟩, hServed⟩
      have hSplit := TimerRecord.mem_fires_later (hSound.interval _ timer hGet) hab record.dueTick
      have hNext := hSplit.mpr ⟨hTick, hBeyond⟩
      cases hAdvanced : timer.advanced a with
      | none =>
          rw [hAdvanced] at hNext
          exact absurd hNext List.not_mem_nil
      | some timer' =>
          rw [hAdvanced] at hNext
          obtain ⟨-, -, -, hSequence, hDispatch⟩ := advanced_place hAdvanced
          refine ⟨timer', ⟨timer, hGet, hServed, hAdvanced⟩, hNext, ?_⟩
          rw [hFiring, TimerRecord.firing, TimerRecord.firing, hSequence, hDispatch]

/-! Two firing loops in step. -/

/-- What the firing loop reads of a timer. -/
def target (m : TimerManager) (h : TimerHandle) : Option (TimerScope × CallbackSlot) :=
  (m.getTimer h).toOption.map fun timer => (timer.scope, timer.slot)

theorem target_eq_some {h : TimerHandle} {place : TimerScope × CallbackSlot} :
    m.target h = some place ↔
      ∃ timer, m.getTimer h = .ok timer ∧ (timer.scope, timer.slot) = place := by
  rw [target]
  cases m.getTimer h <;> simp [Except.toOption]

theorem target_eq_none {h : TimerHandle} : m.target h = none ↔ m.getTimer h = .error .staleHandle := by
  rw [target]
  cases hGet : m.getTimer h with
  | ok timer => simp [Except.toOption]
  | error failure => simp [Except.toOption, Roster.getTimer_error hGet]

theorem target_fired {record : FiringRecord} {timer : TimerRecord} (desk : Desk)
    (hGet : m.getTimer record.handle = .ok timer) (h : TimerHandle) :
    (m.fired record timer desk).target h = m.target h := by
  rw [target, target, getTimer_fired desk hGet]
  split_ifs with hSame
  · rw [hSame.1, hGet]
    rfl
  · rfl

theorem target_refused (record : FiringRecord) (code : TimerError) (h : TimerHandle) :
    (m.refused record code).target h = if h = record.handle then none else m.target h := by
  rw [target, target, getTimer_refused]
  split_ifs <;> rfl

/-- Two managers with the same bounds, queues and journal. -/
structure Alike (m m' : TimerManager) : Prop where
  config : m'.toTimerConfig = m.toTimerConfig
  desk : m'.toDesk = m.toDesk
  journal : m'.toJournal = m.toJournal

/-- The firing loop does the same for two managers, and one of them may be spared
the records of timers that the other no longer has. -/
theorem serveAll_alike (p : FiringRecord → Bool) (m : TimerManager)
    (records : List FiringRecord) :
    ∀ m', Alike m m' →
    (∀ record ∈ records, p record = true → m'.target record.handle = m.target record.handle) →
    (∀ record ∈ records, p record = false → m.target record.handle = none) →
    (m'.serveAll (records.filter p)).1 = (m.serveAll records).1 ∧
      Alike (m.serveAll records).2 (m'.serveAll (records.filter p)).2 := by
  induction records generalizing m with
  | nil => exact fun m' hAlike _ _ => ⟨rfl, hAlike⟩
  | cons record rest ih =>
      intro m' hAlike hKept hDropped
      have hRest := fun r hr => hKept r (List.mem_cons_of_mem record hr)
      have hRestDropped := fun r hr => hDropped r (List.mem_cons_of_mem record hr)
      cases hTarget : m.target record.handle with
      | none =>
          rw [serveAll_dead rest (target_eq_none.mp hTarget)]
          cases hp : p record with
          | false =>
              rw [List.filter_cons_of_neg (by simp [hp])]
              exact ih m m' hAlike hRest hRestDropped
          | true =>
              have hTarget' := (hKept record List.mem_cons_self hp).trans hTarget
              rw [List.filter_cons_of_pos hp, serveAll_dead _ (target_eq_none.mp hTarget')]
              exact ih m m' hAlike hRest hRestDropped
      | some place =>
          have hp : p record = true := by
            rw [← Bool.not_eq_false]
            intro hp
            rw [hDropped record List.mem_cons_self hp] at hTarget
            cases hTarget
          have hTarget' := (hKept record List.mem_cons_self hp).trans hTarget
          obtain ⟨timer, hGet, rfl⟩ := target_eq_some.mp hTarget
          obtain ⟨timer', hGet', hPlace⟩ := target_eq_some.mp hTarget'
          obtain ⟨hScope, hSlot⟩ := Prod.mk.inj hPlace
          have hLimits := congrArg TimerConfig.limits hAlike.config
          have hBudget := congrArg TimerConfig.budget hAlike.config
          rw [List.filter_cons_of_pos hp]
          cases hQueue : m.toDesk.enqueue m.limits m.budget record timer.scope timer.slot with
          | ok desk =>
              have hQueue' : m'.toDesk.enqueue m'.limits m'.budget record timer'.scope timer'.slot =
                  .ok desk := by
                rw [hAlike.desk, hLimits, hBudget, hScope, hSlot, hQueue]
              rw [serveAll_fired rest hGet hQueue, serveAll_fired _ hGet' hQueue']
              obtain ⟨hReport, hAlike'⟩ := ih (m.fired record timer desk) (m'.fired record timer' desk)
                ⟨hAlike.config, rfl, hAlike.journal⟩
                (fun r hr hKeep => by
                  rw [target_fired desk hGet, target_fired desk hGet', hRest r hr hKeep])
                (fun r hr hDrop => by rw [target_fired desk hGet, hRestDropped r hr hDrop])
              rw [hReport]
              exact ⟨rfl, hAlike'⟩
          | error code =>
              have hQueue' : m'.toDesk.enqueue m'.limits m'.budget record timer'.scope timer'.slot =
                  .error code := by
                rw [hAlike.desk, hLimits, hBudget, hScope, hSlot, hQueue]
              rw [serveAll_refused rest hGet hQueue, serveAll_refused _ hGet' hQueue']
              have hJournal : m'.toJournal.diagnose m'.budget code record =
                  m.toJournal.diagnose m.budget code record := by
                rw [hAlike.journal, hBudget]
              obtain ⟨hReport, hAlike'⟩ := ih (m.refused record code) (m'.refused record code)
                ⟨hAlike.config, hAlike.desk, hJournal⟩
                (fun r hr hKeep => by rw [target_refused, target_refused, hRest r hr hKeep])
                (fun r hr hDrop => by rw [target_refused, hRestDropped r hr hDrop, ite_self])
              rw [hReport]
              exact ⟨rfl, hAlike'⟩

/-! The preflight. -/

theorem preflight_ok_iff (max toTick total : Nat) (timers : List TimerSlot) :
    (∃ count, preflight max toTick total timers = .ok count) ↔
      (∀ t ∈ timers, countDue toTick t = 0) ∨
        total + (timers.map (countDue toTick)).sum ≤ min max Word.max64 := by
  induction timers generalizing total with
  | nil => simp [preflight]
  | cons t rest ih =>
      rw [preflight]
      by_cases hNone : countDue toTick t = 0
      · rw [if_pos hNone, ih total]
        simp [hNone]
      · rw [if_neg hNone]
        cases hNext : Word.checkedAdd Word.max64 total (countDue toTick t) with
        | none =>
            have hOver := Word.checkedAdd_eq_none.mp hNext
            simp [hNone]
            omega
        | some next =>
            obtain ⟨rfl, hBound⟩ := Word.checkedAdd_eq_some.mp hNext
            dsimp only
            split_ifs with hMax
            · simp [hNone]
              omega
            · rw [ih]
              have hZero : (∀ t ∈ rest, countDue toTick t = 0) →
                  (rest.map (countDue toTick)).sum = 0 := by
                intro hAll
                rw [List.sum_eq_zero_iff]
                simpa using hAll
              simp [hNone]
              constructor
              · rintro (hAll | hSum)
                · have := hZero hAll
                  omega
                · omega
              · exact fun hSum => Or.inr (by omega)

/-- The preflight counts what a timer collects. -/
theorem length_collectTimer (hSound : Sound horizon m) {toTick : Nat} (hTick : toTick ≤ Word.max64)
    {t : TimerSlot} {index : Nat} (hEntry : (t, index) ∈ m.timers.zipIdx) :
    (m.collectTimer toTick (t, index)).1.length = countDue toTick t := by
  rw [List.mem_zipIdx_iff_getElem?] at hEntry
  rw [collectTimer_eq, countDue]
  cases hRecord : t.record with
  | none => rfl
  | some record =>
      have hGet : m.getTimer ⟨index, t.generation, m.context⟩ = .ok record :=
        Roster.getTimer_eq_ok.mpr ⟨rfl, t, hEntry, rfl, hRecord⟩
      dsimp only
      by_cases hDue : record.IsDue toTick
      · have hCounted : ¬(record.queued = true ∨ record.due > toTick) := by
          simpa [TimerRecord.IsDue, not_or] using hDue
        rw [if_pos hDue, if_neg hCounted, List.length_map, TimerRecord.ticks]
        cases hEvery : record.interval with
        | none => rfl
        | some interval =>
            exact length_ticksFrom (interval_pos (hSound.interval _ record hGet) hEvery) hTick
              record.due hDue.2
      · have hSkipped : record.queued = true ∨ record.due > toTick := by
          by_contra hCounted
          apply hDue
          simpa [TimerRecord.IsDue, not_or] using hCounted
        rw [if_neg hDue, if_pos hSkipped]
        rfl

theorem sum_countDue (hSound : Sound horizon m) {toTick : Nat} (hTick : toTick ≤ Word.max64) :
    (m.timers.map (countDue toTick)).sum = (m.collected toTick).length := by
  calc (m.timers.map (countDue toTick)).sum
      = ((m.timers.zipIdx.map Prod.fst).map (countDue toTick)).sum := by
        rw [List.zipIdx_map_fst]
    _ = (m.timers.zipIdx.map fun entry => (m.collectTimer toTick entry).1.length).sum := by
        rw [List.map_map, List.map_congr_left fun entry hEntry =>
          length_collectTimer hSound hTick hEntry]
        rfl
    _ = (m.collected toTick).length := by rw [collected, List.length_flatMap]

/-- The preflight passes exactly when the window's firings fit the budget. -/
theorem preflight_passes (hSound : Sound horizon m) {toTick : Nat} (hTick : toTick ≤ Word.max64)
    (max : Nat) : (∃ count, preflight max toTick 0 m.timers = .ok count) ↔
      (m.collected toTick).length ≤ min max Word.max64 := by
  rw [preflight_ok_iff, sum_countDue hSound hTick, Nat.zero_add]
  apply or_iff_right_of_imp
  intro hNone
  rw [← sum_countDue hSound hTick]
  have hZero : (m.timers.map (countDue toTick)).sum = 0 := by
    rw [List.sum_eq_zero_iff]
    simpa using hNone
  omega

/-! The two runs. -/

/-- The same manager but for the order in which free indices are taken. -/
def SameButFree (m m' : TimerManager) : Prop :=
  m' = { m with timerFree := m'.timerFree } ∧ m'.timerFree.Perm m.timerFree

theorem SameButFree.refl (m : TimerManager) : SameButFree m m := ⟨rfl, List.Perm.refl _⟩

/-- The later of two windows reports what the whole window reports after the earlier. -/
theorem traversed_reports (hSettled : Settled m) (hLater : m.committedTick < a) (hab : a ≤ b) :
    (m.traversed b).1 =
      ⟨(m.traversed a).1.firings ++ ((m.traversed a).2.traversed b).1.firings,
        (m.traversed a).1.rejections ++ ((m.traversed a).2.traversed b).1.rejections⟩ ∧
      ((m.traversed a).2.traversed b).2.toDesk = (m.traversed b).2.toDesk ∧
      ((m.traversed a).2.traversed b).2.toJournal = (m.traversed b).2.toJournal := by
  have hSound := hSettled.sound
  have hSplit := window_split hSound hab
  obtain ⟨rWhole, -, hWhole⟩ := m.traversed_frame b
  obtain ⟨rFirst, -, hFirst⟩ := m.traversed_frame a
  obtain ⟨rSecond, -, hSecond⟩ := (m.traversed a).2.traversed_frame b
  have hFrame := serveAll_frame m (m.window a)
  have hAlike : Alike (m.serveAll (m.window a)).2 (m.traversed a).2 := by
    rw [hFirst]
    exact ⟨hFrame.config.symm, rfl, rfl⟩
  -- a timer that was not refused is still there, with the scope and slot it had
  have hStep := serveAll_alike
    (fun record => record.handle ∉ (m.traversed a).1.rejections.map FiringRejection.handle)
    (m.serveAll (m.window a)).2 (m.remainder a b) (m.traversed a).2 hAlike ?_ ?_
  · rw [← window_traversed hSettled hLater hab] at hStep
    have hAppend := serveAll_append m (m.window a) (m.remainder a b)
    rw [← hSplit] at hAppend
    refine ⟨?_, ?_, ?_⟩
    · change (m.serveAll (m.window b)).1 = ⟨_ ++ ((m.traversed a).2.serveAll _).1.firings,
        _ ++ ((m.traversed a).2.serveAll _).1.rejections⟩
      rw [hAppend, hStep.1]
      rfl
    · rw [hSecond, hWhole, hAppend]
      exact hStep.2.desk
    · rw [hSecond, hWhole, hAppend]
      exact hStep.2.journal
  · intro record hRecord hServed
    have hServed : record.handle ∉ (m.traversed a).1.rejections.map FiringRejection.handle := by
      simpa using hServed
    obtain ⟨hCollected, hBeyond⟩ := mem_remainder.mp hRecord
    obtain ⟨timer, hGet, hTick, -⟩ := mem_collected_fires.mp hCollected
    have hNext := (TimerRecord.mem_fires_later (hSound.interval _ timer hGet) hab
      record.dueTick).mpr ⟨hTick, hBeyond⟩
    cases hAdvanced : timer.advanced a with
    | none =>
        rw [hAdvanced] at hNext
        exact absurd hNext List.not_mem_nil
    | some timer' =>
        obtain ⟨hScope, hSlot, -⟩ := advanced_place hAdvanced
        have hAfter : (m.traversed a).2.target record.handle = some (timer.scope, timer.slot) :=
          target_eq_some.mpr ⟨timer', (getTimer_traversed hSound _ timer').mpr
            ⟨timer, hGet, hServed, hAdvanced⟩, by rw [hScope, hSlot]⟩
        have hBefore : (m.serveAll (m.window a)).2.target record.handle =
            some (timer.scope, timer.slot) := by
          refine target_eq_some.mpr ⟨_, (getTimer_serveAll m _ _ _).mpr
            ⟨timer, hGet, hServed, rfl⟩, ?_⟩
          split_ifs <;> rfl
        rw [hAfter, hBefore]
  · intro record _ hRefused
    rw [target_eq_none]
    cases hGet : (m.serveAll (m.window a)).2.getTimer record.handle with
    | error failure => rw [Roster.getTimer_error hGet]
    | ok timer =>
        obtain ⟨-, -, hServed, -⟩ := (getTimer_serveAll m _ _ timer).mp hGet
        have hMem : record.handle ∈ (m.traversed a).1.rejections.map FiringRejection.handle := by
          simpa using hRefused
        exact absurd hMem hServed

theorem traversed_timers (hSettled : Settled m) (hLater : m.committedTick < a) (hab : a ≤ b)
    (h : TimerHandle) :
    ((m.traversed a).2.traversed b).2.getTimer h = (m.traversed b).2.getTimer h := by
  have hSound := hSettled.sound
  have hReports := congrArg AdvanceReport.rejections (traversed_reports hSettled hLater hab).1
  have hContext : ((m.traversed a).2.traversed b).2.context = (m.traversed b).2.context := by
    obtain ⟨_, -, hWhole⟩ := m.traversed_frame b
    obtain ⟨_, -, hFirst⟩ := m.traversed_frame a
    obtain ⟨_, -, hSecond⟩ := (m.traversed a).2.traversed_frame b
    rw [hSecond, hWhole, hFirst]
  rw [getTimer, getTimer, hContext]
  apply Roster.getTimer_congr
  intro timer
  rw [← hContext]
  change ((m.traversed a).2.traversed b).2.getTimer h = .ok timer ↔ _
  rw [hContext]
  change _ ↔ (m.traversed b).2.getTimer h = .ok timer
  rw [getTimer_traversed (hSound.traversed hSettled.upcoming hLater), getTimer_traversed hSound]
  simp only [getTimer_traversed hSound, hReports, List.map_append, List.mem_append, not_or]
  constructor
  · rintro ⟨middle, ⟨before, hGet, hFirst, hAdvanced⟩, hSecond, hAdvanced'⟩
    refine ⟨before, hGet, ⟨hFirst, hSecond⟩, ?_⟩
    rw [(TimerRecord.fires_split (hSound.interval h before hGet) hab).2, hAdvanced]
    exact hAdvanced'
  · rintro ⟨before, hGet, ⟨hFirst, hSecond⟩, hAdvanced⟩
    rw [(TimerRecord.fires_split (hSound.interval h before hGet) hab).2] at hAdvanced
    obtain ⟨middle, hMiddle, hAdvanced'⟩ := Option.bind_eq_some_iff.mp hAdvanced
    exact ⟨middle, ⟨before, hGet, hFirst, hMiddle⟩, hSecond, hAdvanced'⟩

theorem SameFrame.eq_with (h : SameFrame m m') (hDesk : m'.toDesk = m.toDesk)
    (hJournal : m'.toJournal = m.toJournal) : m' = { m with toRoster := m'.toRoster } := by
  obtain ⟨hConfig, hClock, hRunning, hTable⟩ := h
  cases m'
  subst hConfig hClock hRunning hTable hDesk hJournal
  rfl

theorem traversed_twice (hSettled : Settled m) (hRunning : m.running = true)
    (hLater : m.committedTick < a) (hab : a ≤ b) :
    SameButFree (m.traversed b).2 ((m.traversed a).2.traversed b).2 := by
  have hTimers := traversed_timers hSettled hLater hab
  obtain ⟨-, hDesk, hJournal⟩ := traversed_reports hSettled hLater hab
  obtain ⟨whole, hWholeInterim, hWhole⟩ := m.traversed_frame b
  obtain ⟨first, hFirstInterim, hFirst⟩ := m.traversed_frame a
  obtain ⟨second, hSecondInterim, hSecond⟩ := (m.traversed a).2.traversed_frame b
  have hInterim : Roster.Interim m.toRoster second := by
    apply Roster.Interim.trans _ hSecondInterim
    rw [hFirst]
    exact hFirstInterim
  have hGet : ∀ h, second.getTimer m.context h = whole.getTimer m.context h := by
    intro h
    have hSame := hTimers h
    rw [hWhole, hSecond, hFirst] at hSame
    exact hSame
  obtain ⟨hRoster, hFree⟩ := (hWholeInterim.evolves m.context).ext (hInterim.evolves m.context)
    hSettled.sound.booked (hSettled.sound.free hRunning) hGet
  have hFrame : SameFrame (m.traversed b).2 ((m.traversed a).2.traversed b).2 := by
    rw [hSecond, hWhole, hFirst]
    exact ⟨rfl, rfl, rfl, rfl⟩
  have hShape := hFrame.eq_with hDesk hJournal
  have hWholeRoster : (m.traversed b).2.toRoster = whole := by rw [hWhole]
  have hSecondRoster : ((m.traversed a).2.traversed b).2.toRoster = second := by rw [hSecond]
  refine ⟨?_, ?_⟩
  · rw [hShape, hSecondRoster, hRoster, ← hWholeRoster]
  · rw [hWholeRoster, hSecondRoster]
    exact hFree

/-- Advancing in one window or in two is the same: whenever `advance` succeeds over a
window, it succeeds over the two parts into which a tick splits it, reports what it
reports over the whole, and leaves the same manager, but for the order in which free
timer indices are taken. -/
theorem advance_in_two {context : Nat} {mode : TimerMode} {limits : TimerLimits}
    {budget : TimerBudget} {trace : List TimerEvent} {report : AdvanceReport}
    (run : Transition.Run Step (withBudget context mode limits budget) trace m)
    (hTick : b ≤ Word.max64) (hFrom : m.committedTick ≤ a) (hab : a ≤ b)
    (hResult : m.advance b = .ok (report, m')) :
    ∃ first middle second final, m.advance a = .ok (first, middle) ∧
      middle.advance b = .ok (second, final) ∧
      report.firings = first.firings ++ second.firings ∧
      report.rejections = first.rejections ++ second.rejections ∧ SameButFree m' final := by
  have hSettled := (settled_withBudget context mode limits budget).run run
  obtain ⟨hRunning, hCases⟩ := advance_eq_ok.mp hResult
  have hAlive := (ensureRunning_eq_ok.mp hRunning).1
  rcases Nat.eq_or_lt_of_le hFrom with rfl | hLater
  · -- the first part is empty
    exact ⟨⟨[], []⟩, m, report, m', advance_eq_ok.mpr ⟨hRunning, Or.inl ⟨rfl, rfl, rfl⟩⟩, hResult,
      rfl, rfl, SameButFree.refl m'⟩
  · obtain ⟨rfl, -⟩ | ⟨-, ⟨count, hCount⟩, hTraversed⟩ := hCases
    · omega
    · obtain rfl : report = (m.traversed b).1 := congrArg Prod.fst hTraversed
      obtain rfl : m' = (m.traversed b).2 := congrArg Prod.snd hTraversed
      have hSound := hSettled.sound
      have hSoundLater := hSound.traversed hSettled.upcoming hLater
      have hBudget := (preflight_passes hSound hTick _).mp ⟨count, hCount⟩
      have hSplit := congrArg List.length (window_split hSound hab)
      rw [List.length_append, (window_perm m b).length_eq, (window_perm m a).length_eq] at hSplit
      have hSecond : ((m.traversed a).2.collected b).length ≤ (m.remainder a b).length := by
        rw [← ((m.traversed a).2.window_perm b).length_eq, window_traversed hSettled hLater hab]
        exact List.length_filter_le _ _
      obtain ⟨r, -, hFrame⟩ := m.traversed_frame a
      have hFirstOk : m.advance a = .ok ((m.traversed a).1, (m.traversed a).2) := by
        refine advance_eq_ok.mpr ⟨hRunning, Or.inr ⟨hLater, ?_, rfl⟩⟩
        exact (preflight_passes hSound (hab.trans hTick) _).mpr (by omega)
      have hRunning' : (m.traversed a).2.ensureRunning = .ok () := by
        rw [hFrame]
        exact hRunning
      rcases Nat.eq_or_lt_of_le hab with rfl | hBeyond
      · -- the second part is empty
        refine ⟨_, _, ⟨[], []⟩, (m.traversed a).2, hFirstOk, advance_eq_ok.mpr ⟨hRunning', ?_⟩, ?_⟩
        · exact Or.inl ⟨rfl, rfl, rfl⟩
        · exact ⟨(List.append_nil _).symm, (List.append_nil _).symm, SameButFree.refl _⟩
      · have hReports := (traversed_reports hSettled hLater hab).1
        refine ⟨_, _, ((m.traversed a).2.traversed b).1, ((m.traversed a).2.traversed b).2, hFirstOk,
          advance_eq_ok.mpr ⟨hRunning', Or.inr ⟨hBeyond, ?_, rfl⟩⟩, ?_, ?_,
          traversed_twice hSettled hAlive hLater hab⟩
        · have hSame : (m.traversed a).2.budget = m.budget := by rw [hFrame]
          rw [hSame]
          exact (preflight_passes hSoundLater hTick _).mpr (by omega)
        · rw [hReports]
        · rw [hReports]

/-- A repeating timer, advanced past three firings in one window and in two. -/
theorem advance_in_two_repeating :
    ∃ (m middle final : TimerManager) (first second : AdvanceReport),
      m.advance 7 = .ok (first, middle) ∧ middle.advance 12 = .ok (second, final) ∧
      first.firings.map FiringRecord.dueTick ++ second.firings.map FiringRecord.dueTick =
        [5, 8, 11] := by
  have run : Transition.Run Step (withBudget 7 .tickFrame .contract .default) _ _ :=
    (((((Transition.Run.nil _).snoc (@Step.registerScope _ _ 1 .world _ rfl)).snoc
      (.createSlot rfl)).snoc (.bindSlot _ ⟨0, 1⟩ ⟨9⟩)).snoc
      (@Step.scheduleRepeating _ _ ⟨1, .world, 1⟩ 5 3 ⟨0, 1⟩ _ rfl))
  obtain ⟨first, middle, second, final, hFirst, hSecond, hFirings, -, -⟩ :=
    advance_in_two run (a := 7) (b := 12) (by decide) (by decide) (by decide) rfl
  refine ⟨_, middle, final, first, second, hFirst, hSecond, ?_⟩
  rw [← List.map_append, ← hFirings]
  rfl

end TimerManager
end Timer

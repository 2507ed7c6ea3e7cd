import LumioNativeCore.Timer.Splitting

/-! The preflight counts in closed form what the collection loop then pushes, at any due
tick and interval that the counter holds. -/
namespace Timer

namespace TimerManager

variable {m : TimerManager} {toTick horizon : Nat}

/-- The collection loop of one timer as the source has it, which may run forever: the due
ticks that it pushes and its entry in the list of next due ticks. -/
inductive Collects (toTick : Nat) (interval : Option Nat) :
    Nat → List Nat → Option (Option Nat) → Prop where
  | once {due : Nat} (hOnce : interval = none) : Collects toTick interval due [due] none
  | leave {due every : Nat} (hEvery : interval = some every)
      (hLast : ∀ next, Word.checkedAdd Word.max64 due every = some next → toTick < next) :
      Collects toTick interval due [due] (some (Word.checkedAdd Word.max64 due every))
  | turn {due every next : Nat} {ticks : List Nat} {last : Option (Option Nat)}
      (hEvery : interval = some every) (hNext : Word.checkedAdd Word.max64 due every = some next)
      (hWithin : next ≤ toTick) (rest : Collects toTick interval next ticks last) :
      Collects toTick interval due (due :: ticks) last

/-- The loop has no choice. -/
theorem Collects.unique {interval : Option Nat} {due : Nat} {ticks ticks' : List Nat}
    {last last' : Option (Option Nat)} (h : Collects toTick interval due ticks last)
    (h' : Collects toTick interval due ticks' last') : ticks' = ticks ∧ last' = last := by
  induction h generalizing ticks' with
  | once hOnce =>
      cases h' with
      | once => exact ⟨rfl, rfl⟩
      | leave hEvery => cases hOnce.symm.trans hEvery
      | turn hEvery => cases hOnce.symm.trans hEvery
  | leave hEvery hLast =>
      cases h' with
      | once hOnce => cases hOnce.symm.trans hEvery
      | leave hEvery' =>
          obtain rfl := Option.some.inj (hEvery.symm.trans hEvery')
          exact ⟨rfl, rfl⟩
      | turn hEvery' hNext hWithin =>
          obtain rfl := Option.some.inj (hEvery.symm.trans hEvery')
          exact absurd hWithin (Nat.not_le.mpr (hLast _ hNext))
  | turn hEvery hNext hWithin rest ih =>
      cases h' with
      | once hOnce => cases hOnce.symm.trans hEvery
      | leave hEvery' hLast =>
          obtain rfl := Option.some.inj (hEvery.symm.trans hEvery')
          exact absurd hWithin (Nat.not_le.mpr (hLast _ hNext))
      | turn hEvery' hNext' hWithin' rest' =>
          obtain rfl := Option.some.inj (hEvery.symm.trans hEvery')
          obtain rfl := Option.some.inj (hNext.symm.trans hNext')
          obtain ⟨rfl, rfl⟩ := ih rest'
          exact ⟨rfl, rfl⟩

/-- The loop ends for every timer that does not stand still. -/
theorem collects_record {record : TimerRecord} (hInterval : record.interval ≠ some 0) :
    Collects toTick record.interval record.due (record.ticks toTick) (record.next toTick) := by
  rw [TimerRecord.ticks, TimerRecord.next]
  cases hEvery : record.interval with
  | none => exact .once rfl
  | some interval =>
      have hPos := interval_pos hInterval hEvery
      apply ticksFrom_induction (motive := fun due result =>
        Collects toTick (some interval) due result.1 (some result.2)) hPos
      · intro due hBound
        have hNone := Word.checkedAdd_eq_none.mpr hBound
        have hLeave : Collects toTick (some interval) due [due]
            (some (Word.checkedAdd Word.max64 due interval)) :=
          .leave rfl fun next hNext => by cases hNone.symm.trans hNext
        rwa [hNone] at hLeave
      · intro due hBound hBeyond
        have hNext := Word.checkedAdd_eq_some.mpr ⟨rfl, hBound⟩
        have hLeave : Collects toTick (some interval) due [due]
            (some (Word.checkedAdd Word.max64 due interval)) :=
          .leave rfl fun next hNext' => by
            obtain rfl := Option.some.inj (hNext.symm.trans hNext')
            exact hBeyond
        rwa [hNext] at hLeave
      · intro due hBound hWithin ih
        exact .turn rfl (Word.checkedAdd_eq_some.mpr ⟨rfl, hBound⟩) hWithin ih

/-! The preflight. -/

theorem preflight_eq_error {max total : Nat} {timers : List TimerSlot} {failure : TimerError}
    (h : preflight max toTick total timers = .error failure) : failure = .scheduleBudgetExceeded := by
  induction timers generalizing total with
  | nil => cases h
  | cons t rest ih =>
      rw [preflight] at h
      split_ifs at h with hNone
      · exact ih h
      · cases hNext : Word.checkedAdd Word.max64 total (countDue toTick t) with
        | none =>
            rw [hNext] at h
            cases h
            rfl
        | some next =>
            simp only [hNext] at h
            split_ifs at h with hMax
            · cases h
              rfl
            · exact ih h

theorem preflight_eq_ok {max total count : Nat} {timers : List TimerSlot}
    (h : preflight max toTick total timers = .ok count) :
    count = total + (timers.map (countDue toTick)).sum := by
  induction timers generalizing total with
  | nil =>
      cases h
      rfl
  | cons t rest ih =>
      rw [preflight] at h
      rw [List.map_cons, List.sum_cons]
      split_ifs at h with hNone
      · rw [ih h, hNone, Nat.zero_add]
      · cases hNext : Word.checkedAdd Word.max64 total (countDue toTick t) with
        | none =>
            rw [hNext] at h
            cases h
        | some next =>
            obtain ⟨rfl, -⟩ := Word.checkedAdd_eq_some.mp hNext
            simp only [hNext] at h
            split_ifs at h with hMax
            rw [ih h, Nat.add_assoc]

/-- The preflight passes with the sum of the counts, or that sum is beyond the budget. -/
theorem preflight_cases (hSound : Sound horizon m) (hTick : toTick ≤ Word.max64) {max : Nat}
    (hMax : max ≤ Word.max64) :
    ((m.timers.map (countDue toTick)).sum ≤ max ∧
        preflight max toTick 0 m.timers = .ok (m.timers.map (countDue toTick)).sum) ∨
      (max < (m.timers.map (countDue toTick)).sum ∧
        preflight max toTick 0 m.timers = .error .scheduleBudgetExceeded) := by
  have hPasses := preflight_passes hSound hTick max
  rw [← sum_countDue hSound hTick, Nat.min_eq_left hMax] at hPasses
  cases hPreflight : preflight max toTick 0 m.timers with
  | ok count =>
      left
      have hCount := preflight_eq_ok hPreflight
      rw [Nat.zero_add] at hCount
      exact ⟨hPasses.mp ⟨count, hPreflight⟩, by rw [hCount]⟩
  | error failure =>
      right
      refine ⟨Nat.lt_of_not_le fun hWithin => ?_, by rw [preflight_eq_error hPreflight]⟩
      obtain ⟨count, hCount⟩ := hPasses.mpr hWithin
      cases hPreflight.symm.trans hCount

/-- Ahead of the clock nothing but the preflight keeps a window from being traversed. -/
theorem advance_later (hOpen : m.ensureRunning = .ok ()) (hLater : m.committedTick < toTick) :
    m.advance toTick = (preflight m.budget.maxFiringsPerAdvance toTick 0 m.timers).map
      fun _ => m.traversed toTick := by
  rw [advance, hOpen]
  change (if toTick < m.committedTick then _ else if toTick = m.committedTick then _ else _) = _
  rw [if_neg (Nat.not_lt.mpr hLater.le), if_neg hLater.ne']
  cases preflight m.budget.maxFiringsPerAdvance toTick 0 m.timers with
  | error failure => rfl
  | ok count => rfl

/-- The count of a due timer stays in the counter: its due tick is behind the clock, so at
least one, and it does not stand still. -/
theorem count_fits (hSettled : Settled m) (hTick : toTick ≤ Word.max64) {t : TimerSlot}
    {record : TimerRecord} (hMem : t ∈ m.timers) (hRecord : t.record = some record)
    (hDue : record.IsDue toTick) :
    0 < record.due ∧ ∀ interval, record.interval = some interval →
      0 < interval ∧ (toTick - record.due) / interval + 1 ≤ Word.max64 := by
  obtain ⟨index, hIndex⟩ := List.getElem?_of_mem hMem
  have hGet : m.getTimer ⟨index, t.generation, m.context⟩ = .ok record :=
    Roster.getTimer_eq_ok.mpr ⟨rfl, t, hIndex, rfl, hRecord⟩
  have hUpcoming := hSettled.upcoming _ record hGet hDue.1
  refine ⟨Nat.zero_lt_of_lt hUpcoming, fun interval hEvery => ?_⟩
  refine ⟨interval_pos (hSettled.sound.interval _ record hGet) hEvery, ?_⟩
  calc (toTick - record.due) / interval + 1
    _ ≤ toTick - record.due + 1 := Nat.succ_le_succ (Nat.div_le_self _ _)
    _ ≤ toTick := by
      have := hDue.2
      omega
    _ ≤ Word.max64 := hTick

/-- What the collection does for a due timer is what its loop does. -/
theorem collectTimer_of_collects (hSettled : Settled m) (hTick : toTick ≤ Word.max64)
    {t : TimerSlot} {index : Nat} {record : TimerRecord} (hEntry : (t, index) ∈ m.timers.zipIdx)
    (hRecord : t.record = some record) (hDue : record.IsDue toTick) :
    (∃ ticks next, Collects toTick record.interval record.due ticks next) ∧
      ∀ ticks next, Collects toTick record.interval record.due ticks next →
        ticks.length = countDue toTick t ∧
        m.collectTimer toTick (t, index) =
          (ticks.map (record.firing ⟨index, t.generation, m.context⟩),
            next.toList.map fun due => (⟨index, t.generation, m.context⟩, due)) := by
  have hLength := length_collectTimer hSettled.sound hTick hEntry
  rw [List.mem_zipIdx_iff_getElem?] at hEntry
  have hGet : m.getTimer ⟨index, t.generation, m.context⟩ = .ok record :=
    Roster.getTimer_eq_ok.mpr ⟨rfl, t, hEntry, rfl, hRecord⟩
  have hLoop : Collects toTick record.interval record.due (record.ticks toTick)
      (record.next toTick) := collects_record (hSettled.sound.interval _ record hGet)
  refine ⟨⟨_, _, hLoop⟩, fun ticks next hCollects => ?_⟩
  obtain ⟨rfl, rfl⟩ := hLoop.unique hCollects
  have hCollect : m.collectTimer toTick (t, index) =
      ((record.ticks toTick).map (record.firing ⟨index, t.generation, m.context⟩),
        (record.next toTick).toList.map fun due => (⟨index, t.generation, m.context⟩, due)) := by
    rw [collectTimer_eq, hRecord]
    exact if_pos hDue
  refine ⟨?_, hCollect⟩
  rw [hCollect, List.length_map] at hLength
  exact hLength

/-- Ahead of the clock `advance` is its own model unless the preflight passes with records that
do not fit into an allocation. -/
theorem advance?_later (hSound : Sound horizon m) (hOpen : m.ensureRunning = .ok ())
    (hLater : m.committedTick < toTick) (hTick : toTick ≤ Word.max64)
    (hMax : m.budget.maxFiringsPerAdvance ≤ Word.max64) :
    m.advance? toTick =
      if (m.timers.map (countDue toTick)).sum ≤ m.budget.maxFiringsPerAdvance ∧
          Word.maxIsize < (m.timers.map (countDue toTick)).sum * firingRecordBytes then none
      else some (m.advance toTick) := by
  rw [advance?, if_pos hLater, hOpen]
  rcases preflight_cases hSound hTick hMax with ⟨hWithin, hPreflight⟩ | ⟨hOver, hPreflight⟩
  · simp only [hPreflight, hWithin, true_and]
    rfl
  · rw [if_neg fun hFits => Nat.not_lt.mpr hFits.1 hOver, advance_later hOpen hLater, hPreflight]
    rfl

/-- The preflight of a window is exact, and stays in the counter. -/
structure Preflighted (m : TimerManager) (toTick : Nat) : Prop where
  counts : ∀ t ∈ m.timers, ∀ record, t.record = some record → record.IsDue toTick →
    0 < record.due ∧ ∀ interval, record.interval = some interval →
      0 < interval ∧ (toTick - record.due) / interval + 1 ≤ Word.max64
  refused : m.advance? toTick = some (.error .scheduleBudgetExceeded) ↔
    m.budget.maxFiringsPerAdvance < (m.timers.map (countDue toTick)).sum
  ends : (m.timers.map (countDue toTick)).sum ≤ m.budget.maxFiringsPerAdvance →
    ∃ report m', m.advance? toTick = some (.ok (report, m'))
  passes : (m.timers.map (countDue toTick)).sum ≤ m.budget.maxFiringsPerAdvance →
    preflight m.budget.maxFiringsPerAdvance toTick 0 m.timers =
      .ok (m.timers.map (countDue toTick)).sum
  collects : (m.timers.map (countDue toTick)).sum ≤ m.budget.maxFiringsPerAdvance →
    ∀ t index record, (t, index) ∈ m.timers.zipIdx → t.record = some record →
      record.IsDue toTick →
        (∃ ticks next, Collects toTick record.interval record.due ticks next) ∧
        ∀ ticks next, Collects toTick record.interval record.due ticks next →
          ticks.length = countDue toTick t ∧
          m.collectTimer toTick (t, index) =
            (ticks.map (record.firing ⟨index, t.generation, m.context⟩),
              next.toList.map fun due => (⟨index, t.generation, m.context⟩, due))
  total : (m.timers.map (countDue toTick)).sum ≤ m.budget.maxFiringsPerAdvance →
    (m.collected toTick).length = (m.timers.map (countDue toTick)).sum ∧
    (m.collected toTick).length ≤ m.budget.maxFiringsPerAdvance

/-- In every state of a running manager the preflight is exact, if and only if the records that
it lets pass fit into an allocation. -/
theorem preflight_exact_iff {context : Nat} {mode : TimerMode} {limits : TimerLimits}
    {budget : TimerBudget} {trace : List TimerEvent}
    (run : Transition.Run Step (withBudget context mode limits budget) trace m)
    (hRunning : m.isRunning = true) (hLater : m.committedTick < toTick)
    (hTick : toTick ≤ Word.max64) (hMax : m.budget.maxFiringsPerAdvance ≤ Word.max64) :
    Preflighted m toTick ↔
      m.budget.maxFiringsPerAdvance < (m.timers.map (countDue toTick)).sum ∨
      (m.timers.map (countDue toTick)).sum * firingRecordBytes ≤ Word.maxIsize := by
  have hSettled := (settled_withBudget context mode limits budget).run run
  have hOpen : m.ensureRunning = .ok () := by
    rw [isRunning, Bool.and_eq_true, Option.isNone_iff_eq_none] at hRunning
    exact ensureRunning_eq_ok.mpr hRunning
  have hCollected := sum_countDue hSettled.sound hTick
  have hCases := preflight_cases hSettled.sound hTick hMax
  have hAdvance := advance_later hOpen hLater
  have hBuffer := advance?_later hSettled.sound hOpen hLater hTick hMax
  constructor
  · intro hExact
    by_contra hBeyond
    obtain ⟨hWithin, hLarge⟩ := not_or.mp hBeyond
    obtain ⟨report, m', hEnds⟩ := hExact.ends (not_lt.mp hWithin)
    rw [hBuffer, if_pos ⟨not_lt.mp hWithin, not_le.mp hLarge⟩] at hEnds
    cases hEnds
  · intro hFits
    have hSame : m.advance? toTick = some (m.advance toTick) := by
      rw [hBuffer, if_neg]
      rintro ⟨hWithin, hLarge⟩
      exact hFits.elim (Nat.not_lt.mpr hWithin) (Nat.not_le.mpr hLarge)
    have hPasses (hWithin : (m.timers.map (countDue toTick)).sum ≤ m.budget.maxFiringsPerAdvance) :=
      (hCases.resolve_right fun hOver => Nat.not_lt.mpr hWithin hOver.1).2
    refine ⟨fun t hMem record hRecord hDue => count_fits hSettled hTick hMem hRecord hDue, ?_,
      fun hWithin => ⟨(m.traversed toTick).1, (m.traversed toTick).2, ?_⟩, hPasses, ?_,
      fun hWithin => ⟨hCollected.symm, hCollected ▸ hWithin⟩⟩
    · rw [hSame, hAdvance]
      rcases hCases with ⟨hWithin, hPreflight⟩ | ⟨hOver, hPreflight⟩
      · rw [hPreflight]
        exact iff_of_false (fun hFailed => by cases hFailed) (Nat.not_lt.mpr hWithin)
      · rw [hPreflight]
        exact iff_of_true rfl hOver
    · rw [hSame, hAdvance, hPasses hWithin]
      rfl
    · intro _ t index record hEntry hRecord hDue
      exact collectTimer_of_collects hSettled hTick hEntry hRecord hDue

/-- Timers at the end of the counter: one whose next due tick does not fit, one that fires at
each of the last three ticks, and one that fires once. -/
theorem preflight_exact_last :
    ∃ (m : TimerManager) (report : AdvanceReport) (m' : TimerManager),
      m.advance? Word.max64 = some (.ok (report, m')) ∧
      m.timers.map (countDue Word.max64) = [1, 3, 1] ∧ (m.collected Word.max64).length = 5 := by
  have run : Transition.Run Step (withBudget 7 .tickFrame .contract .default) _ _ :=
    (((((((Transition.Run.nil _).snoc (@Step.registerScope _ _ 1 .world _ rfl)).snoc
      (.createSlot rfl)).snoc (.bindSlot _ ⟨0, 1⟩ ⟨9⟩)).snoc
      (@Step.scheduleRepeating _ _ ⟨1, .world, 1⟩ 18446744073709551613 9223372036854775808 ⟨0, 1⟩
        _ rfl)).snoc
      (@Step.scheduleRepeating _ _ ⟨1, .world, 1⟩ 18446744073709551613 1 ⟨0, 1⟩ _ rfl)).snoc
      (@Step.scheduleOneShot _ _ ⟨1, .world, 1⟩ 18446744073709551615 ⟨0, 1⟩ _ rfl))
  have h := (preflight_exact_iff run rfl (by decide) (Nat.le_refl Word.max64) (by decide)).mpr
    (Or.inr (by decide))
  obtain ⟨report, m', hEnds⟩ := h.ends (by decide)
  exact ⟨_, report, m', hEnds, rfl, (h.total (by decide)).1⟩

/-- A timer that is due at every tick, and a budget of `usize::MAX`: the whole counter passes the
preflight, and its records fit into no allocation. -/
theorem preflight_exact_overflow :
    ∃ (trace : List TimerEvent) (m : TimerManager),
      Transition.Run Step
        (withBudget 7 .tickFrame .contract { TimerBudget.default with
          maxFiringsPerAdvance := Word.max64 }) trace m ∧
      m.isRunning = true ∧ m.timers.map (countDue Word.max64) = [Word.max64] ∧
      m.advance? Word.max64 = none ∧ ¬Preflighted m Word.max64 := by
  have run : Transition.Run Step (withBudget 7 .tickFrame .contract
      { TimerBudget.default with maxFiringsPerAdvance := Word.max64 }) _ _ :=
    (((((Transition.Run.nil _).snoc (@Step.registerScope _ _ 1 .world _ rfl)).snoc
      (.createSlot rfl)).snoc (.bindSlot _ ⟨0, 1⟩ ⟨9⟩)).snoc
      (@Step.scheduleRepeating _ _ ⟨1, .world, 1⟩ 1 1 ⟨0, 1⟩ _ rfl))
  refine ⟨_, _, run, rfl, rfl, rfl, fun hExact => ?_⟩
  obtain ⟨report, m', hEnds⟩ := hExact.ends (by decide)
  cases hEnds

end TimerManager
end Timer

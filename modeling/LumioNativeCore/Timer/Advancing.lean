import LumioNativeCore.Timer.Serving

/-! The whole of `advance`: the loop that moves repeating timers on, and where
every timer stands afterwards. -/
namespace Timer

/-- Where a timer stands after a window in which none of its firings was refused. -/
def TimerRecord.advanced (toTick : Nat) (record : TimerRecord) : Option TimerRecord :=
  if record.IsDue toTick then
    match record.next toTick with
    | none => some { record with queued := true }
    | some (some due) => some { record with due := due }
    | some none => none
  else some record

namespace TimerManager

variable {m : TimerManager} {toTick : Nat}

/-! Moving the repeating timers on. -/

def rearmAll (m : TimerManager) (entries : List (TimerHandle × Option Nat)) : TimerManager :=
  entries.foldl rearm m

theorem getTimer_rearm (m : TimerManager) (entry : TimerHandle × Option Nat) (h : TimerHandle) :
    (m.rearm entry).getTimer h =
      if h = entry.1 then
        match entry.2 with
        | some due => (m.getTimer h).map fun t => { t with due := due }
        | none => .error .staleHandle
      else m.getTimer h := by
  rw [rearm]
  cases hGet : m.getTimer entry.1 with
  | error failure =>
      split_ifs with hSame
      · subst hSame
        rw [hGet]
        have hStale : failure = .staleHandle := Roster.getTimer_error hGet
        subst hStale
        cases entry.2 <;> rfl
      · rfl
  | ok timer =>
      cases hNext : entry.2 with
      | none =>
          apply (Roster.getTimer_retire m.toRoster m.context entry.1 h).trans
          rfl
      | some due =>
          apply (Roster.getTimer_updateTimer_live hGet (fun t => { t with due := due }) h).trans
          split_ifs with hSame
          · rw [hSame, hGet]
            rfl
          · rfl

/-- The loop writes to the roster only. -/
theorem rearmAll_frame (m : TimerManager) (entries : List (TimerHandle × Option Nat)) :
    ∃ r, Roster.Interim m.toRoster r ∧ m.rearmAll entries = { m with toRoster := r } := by
  induction entries generalizing m with
  | nil => exact ⟨m.toRoster, Roster.Interim.refl, rfl⟩
  | cons entry rest ih =>
      have hTurn : ∃ r, Roster.Interim m.toRoster r ∧ m.rearm entry = { m with toRoster := r } := by
        rw [rearm]
        cases m.getTimer entry.1 with
        | error failure => exact ⟨m.toRoster, Roster.Interim.refl, rfl⟩
        | ok timer =>
            cases entry.2 with
            | none => exact ⟨_, Roster.Interim.refl.retire m.context entry.1, rfl⟩
            | some due =>
                have hWrite := (@Roster.Interim.refl m.toRoster).updateTimer entry.1.index
                  (show ∀ t : TimerRecord, { t with due := due }.scope = t.scope from fun _ => rfl)
                exact ⟨_, hWrite, rfl⟩
      obtain ⟨r, hInterim, hStep⟩ := hTurn
      obtain ⟨r', hInterim', hRest⟩ := ih (m.rearm entry)
      refine ⟨r', ?_, ?_⟩
      · rw [hStep] at hInterim'
        exact hInterim.trans hInterim'
      · change (m.rearm entry).rearmAll rest = _
        rw [hRest, hStep]

theorem getTimer_rearmAll (m : TimerManager) {entries : List (TimerHandle × Option Nat)}
    (hNodup : (entries.map Prod.fst).Nodup) (h : TimerHandle) (record' : TimerRecord) :
    (m.rearmAll entries).getTimer h = .ok record' ↔
      ∃ record, m.getTimer h = .ok record ∧
        (h ∉ entries.map Prod.fst ∧ record' = record ∨
          ∃ due, (h, some due) ∈ entries ∧ record' = { record with due := due }) := by
  induction entries generalizing m with
  | nil => simp [rearmAll, eq_comm]
  | cons entry rest ih =>
      obtain ⟨hHead, hRest⟩ := List.nodup_cons.mp hNodup
      change ((m.rearm entry).rearmAll rest).getTimer h = _ ↔ _
      rw [ih (m.rearm entry) hRest, getTimer_rearm]
      by_cases hSame : h = entry.1
      · -- the rest does not touch this timer again
        obtain ⟨handle, next⟩ := entry
        subst hSame
        have hNone : ∀ due, (h, some due) ∉ rest :=
          fun due hMem => hHead (List.mem_map.mpr ⟨(h, some due), hMem, rfl⟩)
        cases next with
        | none => simp [hNone]
        | some due =>
            cases hGet : m.getTimer h with
            | error failure => simp [Except.map]
            | ok record => simp [Except.map, hHead, hNone]
      · have hEntry : ∀ due, (h, some due) ≠ entry := by
          rintro due rfl
          exact hSame rfl
        simp [hSame, hEntry]

theorem Sound.rearmAll {horizon : Nat} (h : Sound horizon m)
    (entries : List (TimerHandle × Option Nat)) : Sound horizon (m.rearmAll entries) := by
  induction entries generalizing m with
  | nil => exact h
  | cons entry rest ih =>
      apply ih
      rw [rearm]
      cases m.getTimer entry.1 with
      | error failure => exact h
      | ok timer =>
          cases entry.2 with
          | none => exact h.retires (Roster.retires_retire m.context m.toRoster entry.1)
          | some due =>
              apply h.updateTimer entry.1.index
                (show Gentle fun t => { t with due := due } from
                  ⟨fun _ => rfl, fun _ => rfl, fun _ => rfl, fun _ => rfl, fun _ => rfl⟩)
              intro handle record hGet _ hQueued
              exact h.queued handle record hGet hQueued

/-! The window. -/

/-- What a window collects, in firing order. -/
def window (m : TimerManager) (toTick : Nat) : List FiringRecord :=
  (m.collected toTick).insertionSort firingLe

theorem window_perm (m : TimerManager) (toTick : Nat) :
    (m.window toTick).Perm (m.collected toTick) := List.perm_insertionSort firingLe _

/-- The manager and the report a window leads to when it passes the preflight. -/
def traversed (m : TimerManager) (toTick : Nat) : AdvanceReport × TimerManager :=
  ((m.serveAll (m.window toTick)).1,
    { (m.serveAll (m.window toTick)).2.rearmAll (m.nextDue toTick) with
      committedTick := toTick
      schedulesThisTick := 0 })

/-- A window changes timers, queues, the journal and the clock. -/
theorem traversed_frame (m : TimerManager) (toTick : Nat) :
    ∃ r, Roster.Interim m.toRoster r ∧ (m.traversed toTick).2 =
      { m with
        toRoster := r
        toDesk := (m.serveAll (m.window toTick)).2.toDesk
        toJournal := (m.serveAll (m.window toTick)).2.toJournal
        committedTick := toTick
        schedulesThisTick := 0 } := by
  have hFrame := serveAll_frame m (m.window toTick)
  have hInterim := serveAll_interim m (m.window toTick)
  generalize hServed : (m.serveAll (m.window toTick)).2 = served at hFrame hInterim
  obtain ⟨r, hRearmed, hRearm⟩ := served.rearmAll_frame (m.nextDue toTick)
  obtain ⟨hConfig, hClock, hRunning, hTable⟩ := hFrame
  refine ⟨r, hInterim.trans hRearmed, ?_⟩
  simp only [traversed, hServed, hRearm, hConfig, hClock, hRunning, hTable]

theorem advance_eq_ok {report : AdvanceReport} {m' : TimerManager} :
    m.advance toTick = .ok (report, m') ↔ m.ensureRunning = .ok () ∧
      (toTick = m.committedTick ∧ report = ⟨[], []⟩ ∧ m' = m ∨
        m.committedTick < toTick ∧
          (∃ count, preflight m.budget.maxFiringsPerAdvance toTick 0 m.timers = .ok count) ∧
          (report, m') = m.traversed toTick) := by
  simp only [advance, Check.then_eq_ok]
  apply and_congr_right
  intro _
  split_ifs with hPast hNow
  · simp only [false_iff, not_or]
    exact ⟨fun h => by omega, fun h => by omega⟩
  · simp [hNow, eq_comm]
  · have hLater : m.committedTick < toTick := by omega
    simp only [hNow, hLater, false_and, false_or, true_and, Check.bind_eq_ok, exists_and_right]
    apply and_congr_right
    intro _
    simp only [Except.ok.injEq, traversed]
    exact eq_comm

theorem mem_window {record : FiringRecord} : record ∈ m.window toTick ↔ record ∈ m.collected toTick :=
  (window_perm m toTick).mem_iff

section Traversed

variable {horizon : Nat} {h : TimerHandle} {record : TimerRecord}

/-- The timers with a firing in the window are those that are due in it. -/
theorem mem_window_handles (hSound : Sound horizon m) (hGet : m.getTimer h = .ok record) :
    h ∈ (m.window toTick).map FiringRecord.handle ↔ record.IsDue toTick := by
  rw [List.mem_map]
  constructor
  · rintro ⟨r, hr, rfl⟩
    obtain ⟨other, hOther, hDue, -⟩ := mem_collected.mp (mem_window.mp hr)
    rw [hGet] at hOther
    obtain rfl := Except.ok.inj hOther
    exact hDue
  · intro hDue
    have hMem : record.firing h record.due ∈ m.collected toTick :=
      mem_collected.mpr ⟨record, hGet, hDue, due_mem_ticks (hSound.interval h record hGet), rfl⟩
    exact ⟨_, mem_window.mpr hMem, rfl⟩

theorem mem_nextDue_self (hGet : m.getTimer h = .ok record) (next : Option Nat) :
    (h, next) ∈ m.nextDue toTick ↔ record.IsDue toTick ∧ record.next toTick = some next := by
  rw [mem_nextDue]
  constructor
  · rintro ⟨other, hOther, hDue⟩
    obtain rfl := Except.ok.inj (hGet.symm.trans hOther)
    exact hDue
  · exact fun hDue => ⟨record, hGet, hDue⟩

/-- A window takes a timer none of whose firings it refuses to where it stands next. -/
theorem getTimer_traversed (hSound : Sound horizon m) (h : TimerHandle) (record' : TimerRecord) :
    (m.traversed toTick).2.getTimer h = .ok record' ↔
      ∃ record, m.getTimer h = .ok record ∧
        h ∉ (m.traversed toTick).1.rejections.map FiringRejection.handle ∧
        record.advanced toTick = some record' := by
  have hMoved : ∀ record, m.getTimer h = .ok record →
      ((h ∉ (m.nextDue toTick).map Prod.fst ∧ record' =
          (if h ∈ (m.window toTick).map FiringRecord.handle ∧ record.interval = none then
            { record with queued := true } else record)) ∨
        (∃ due, (h, some due) ∈ m.nextDue toTick ∧ record' =
          { (if h ∈ (m.window toTick).map FiringRecord.handle ∧ record.interval = none then
            { record with queued := true } else record) with due := due }) ↔
        record.advanced toTick = some record') := by
    intro record hGet
    have hMem : ∀ next, (h, next) ∈ m.nextDue toTick ↔
        record.IsDue toTick ∧ record.next toTick = some next := mem_nextDue_self hGet
    have hAbsent : h ∉ (m.nextDue toTick).map Prod.fst ↔
        ¬∃ next, record.IsDue toTick ∧ record.next toTick = some next := by
      simp [← hMem]
    rw [hAbsent, TimerRecord.advanced]
    simp only [hMem, mem_window_handles hSound hGet]
    by_cases hDue : record.IsDue toTick
    · cases hInterval : record.interval with
      | none => simp [hDue, TimerRecord.next, hInterval, eq_comm]
      | some interval =>
          cases hNext : record.next toTick with
          | none => simp [TimerRecord.next, hInterval] at hNext
          | some next => cases next <;> simp [hDue, hInterval, eq_comm]
    · simp [hDue, eq_comm]
  change ((m.serveAll (m.window toTick)).2.rearmAll (m.nextDue toTick)).getTimer h = _ ↔ _
  rw [getTimer_rearmAll _ (nextDue_nodup m toTick)]
  simp only [getTimer_serveAll]
  constructor
  · rintro ⟨_, ⟨record, hGet, hServed, rfl⟩, hNext⟩
    exact ⟨record, hGet, hServed, (hMoved record hGet).mp hNext⟩
  · rintro ⟨record, hGet, hServed, hNext⟩
    exact ⟨_, ⟨record, hGet, hServed, rfl⟩, (hMoved record hGet).mpr hNext⟩

/-- Where a timer stands after a window is after the window. -/
theorem advanced_waits (hInterval : record.interval ≠ some 0) {record' : TimerRecord}
    (hAdvanced : record.advanced toTick = some record') (hQueued : record'.queued = false) :
    toTick < record'.due := by
  rw [TimerRecord.advanced] at hAdvanced
  split_ifs at hAdvanced with hDue
  · cases hEvery : record.interval with
    | none =>
        simp only [TimerRecord.next, hEvery, Option.map_none, Option.some.injEq] at hAdvanced
        subst hAdvanced
        cases hQueued
    | some interval =>
        cases hNext : (ticksFrom toTick interval record.due).2 with
        | none => simp [TimerRecord.next, hEvery, hNext] at hAdvanced
        | some next =>
            simp only [TimerRecord.next, hEvery, Option.map_some, hNext,
              Option.some.injEq] at hAdvanced
            subst hAdvanced
            exact ticksFrom_next (interval_pos hInterval hEvery) record.due hNext
  · obtain rfl := Option.some.inj hAdvanced
    exact Nat.not_le.mp fun hPast => hDue ⟨hQueued, hPast⟩

/-- A timer keeps its scope and slot, and whether it repeats. -/
theorem advanced_place {record' : TimerRecord}
    (hAdvanced : record.advanced toTick = some record') :
    record'.scope = record.scope ∧ record'.slot = record.slot ∧
      record'.interval = record.interval ∧ record'.sequence = record.sequence ∧
      record'.dispatch = record.dispatch := by
  rw [TimerRecord.advanced] at hAdvanced
  split_ifs at hAdvanced
  · cases hNext : record.next toTick with
    | none =>
        simp only [hNext, Option.some.injEq] at hAdvanced
        subst hAdvanced
        exact ⟨rfl, rfl, rfl, rfl, rfl⟩
    | some next =>
        cases next with
        | none => simp [hNext] at hAdvanced
        | some due =>
            simp only [hNext, Option.some.injEq] at hAdvanced
            subst hAdvanced
            exact ⟨rfl, rfl, rfl, rfl, rfl⟩
  · obtain rfl := Option.some.inj hAdvanced
    exact ⟨rfl, rfl, rfl, rfl, rfl⟩

end Traversed

/-- What a window collects belongs to the timers that are live, lies in the window
and is new to the queues. -/
theorem collected_fresh {horizon : Nat} (hSound : Sound horizon m) (hUpcoming : Upcoming m)
    (hHorizon : horizon ≤ m.committedTick) {record : FiringRecord}
    (hRecord : record ∈ m.collected toTick) :
    m.committedTick < record.dueTick ∧ record.dueTick ≤ toTick ∧
      record.key ∉ m.toDesk.items.map fun item => item.record.key := by
  obtain ⟨timer, hGet, hDue, hTick, -⟩ := mem_collected.mp hRecord
  have hBound := ticks_bound (hSound.interval _ timer hGet) hDue.2 hTick
  have hLater := hUpcoming record.handle timer hGet hDue.1
  refine ⟨by omega, hBound.2, fun hMem => ?_⟩
  obtain ⟨item, hItem, hKey⟩ := List.mem_map.mp hMem
  have hOld := hSound.due item hItem
  have hSame : item.record.dueTick = record.dueTick := (Prod.mk.inj hKey).1
  omega

theorem Sound.traversed (hSound : Sound m.committedTick m) (hUpcoming : Upcoming m)
    (hLater : m.committedTick < toTick) : Sound toTick (m.traversed toTick).2 := by
  have hWide : Sound toTick m :=
    { hSound with due := fun item hItem => (hSound.due item hItem).trans hLater.le }
  have hServed : Sound toTick (m.serveAll (m.window toTick)).2 := by
    apply hWide.serveAll
    · intro record hRecord timer hGet
      obtain ⟨other, hOther, -, -, hFiring⟩ := mem_collected.mp (mem_window.mp hRecord)
      obtain rfl := Except.ok.inj (hGet.symm.trans hOther)
      rw [hFiring]
      rfl
    · intro record hRecord
      exact (collected_fresh hSound hUpcoming (Nat.le_refl _) (mem_window.mp hRecord)).2.1
    · intro record hRecord
      exact (collected_fresh hSound hUpcoming (Nat.le_refl _) (mem_window.mp hRecord)).2.2
    · exact ((window_perm m toTick).map _).nodup_iff.mpr (collected_keys hSound toTick)
  exact { hServed.rearmAll (m.nextDue toTick) with }

theorem Upcoming.traversed {horizon : Nat} (hSound : Sound horizon m) :
    Upcoming (m.traversed toTick).2 := by
  intro handle record' hGet hQueued
  obtain ⟨record, hBefore, -, hAdvanced⟩ := (getTimer_traversed hSound handle record').mp hGet
  exact advanced_waits (hSound.interval handle record hBefore) hAdvanced hQueued

/-- The invariant between the calls. -/
structure Settled (m : TimerManager) : Prop where
  sound : Sound m.committedTick m
  upcoming : Upcoming m

theorem Settled.advance {report : AdvanceReport} {m' : TimerManager} (h : Settled m)
    (hResult : m.advance toTick = .ok (report, m')) : Settled m' := by
  obtain ⟨-, ⟨-, -, rfl⟩ | ⟨hLater, -, hTraversed⟩⟩ := advance_eq_ok.mp hResult
  · exact h
  · obtain rfl := congrArg Prod.snd hTraversed
    exact ⟨h.sound.traversed h.upcoming hLater, Upcoming.traversed h.sound⟩

end TimerManager
end Timer

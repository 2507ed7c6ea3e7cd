import LumioNativeCore.Timer.Advancing

/-! What a drain delivers and rejects, and what it does to the timers. -/
namespace Timer

def FiringRecord.delivery (record : FiringRecord) : Delivery :=
  ⟨record.slotDispatchId, record.dueTick, record.handle⟩

namespace TimerManager

variable {m m' : TimerManager}

/-! What is taken. -/

theorem mem_takePending {p : Pending} :
    p ∈ m.takePending ↔ ∃ (k : Nat) (s : SlotRecord), m.slots[k]? = some s ∧ p.item ∈ s.queue ∧ p.state = s.state ∧
      p.dispatch = s.dispatchId := by
  simp only [takePending, List.mem_flatMap, List.mem_map]
  constructor
  · rintro ⟨s, hSlot, item, hItem, rfl⟩
    obtain ⟨k, hSlot⟩ := List.mem_iff_getElem?.mp hSlot
    exact ⟨k, s, hSlot, hItem, rfl, rfl⟩
  · rintro ⟨k, s, hSlot, hItem, hState, hDispatch⟩
    refine ⟨s, List.mem_of_getElem? hSlot, p.item, hItem, ?_⟩
    rw [← hState, ← hDispatch]

theorem map_item_takePending (m : TimerManager) :
    m.takePending.map Pending.item = m.toDesk.items := by
  rw [takePending, List.map_flatMap, Desk.items]
  congr 1
  funext s
  rw [List.map_map]
  exact List.map_id _

/-- What is taken, in the order of the drain. -/
def drainQueue (m : TimerManager) : List Pending := m.takePending.insertionSort pendingLe

theorem drainQueue_perm (m : TimerManager) : m.drainQueue.Perm m.takePending :=
  List.perm_insertionSort pendingLe _

theorem drainQueue_items (m : TimerManager) :
    (m.drainQueue.map Pending.item).Perm m.toDesk.items := by
  rw [← map_item_takePending]
  exact m.drainQueue_perm.map Pending.item

instance : Std.Total pendingLe where
  total a b := Std.Total.total a.item.record b.item.record

instance : IsTrans Pending pendingLe where
  trans a b c := IsTrans.trans (r := firingLe) a.item.record b.item.record c.item.record

theorem drainQueue_sorted (m : TimerManager) :
    (m.drainQueue.map fun p => p.item.record).Pairwise firingLe := by
  rw [List.pairwise_map]
  exact List.pairwise_insertionSort pendingLe _

/-! The loop. -/

/-- `m'` is `m` after a drain retired some timers. -/
structure Drained (m m' : TimerManager) : Prop where
  config : m'.toTimerConfig = m.toTimerConfig
  clock : m'.toClock = m.toClock
  desk : m'.toDesk = m.toDesk
  running : m'.running = m.running
  dispatchTable : m'.dispatchTable = m.dispatchTable
  retires : Roster.Retires m.context m.toRoster m'.toRoster

theorem Drained.refl (m : TimerManager) : Drained m m :=
  ⟨rfl, rfl, rfl, rfl, rfl, Roster.Retires.refl m.context m.toRoster⟩

theorem Drained.context (h : Drained m m') : m'.context = m.context :=
  congrArg TimerConfig.context h.config

theorem Drained.trans {m'' : TimerManager} (h : Drained m m') (h' : Drained m' m'') :
    Drained m m'' where
  config := h'.config.trans h.config
  clock := h'.clock.trans h.clock
  desk := h'.desk.trans h.desk
  running := h'.running.trans h.running
  dispatchTable := h'.dispatchTable.trans h.dispatchTable
  retires := h.retires.trans (h.context ▸ h'.retires)

theorem Drained.eq_with (h : Drained m m') :
    m' = { m with toRoster := m'.toRoster, toJournal := m'.toJournal } := by
  obtain ⟨hConfig, hClock, hDesk, hRunning, hTable, -⟩ := h
  cases m'
  subst hConfig hClock hDesk hRunning hTable
  rfl

/-- Retiring timers decides nothing about the items still to come. -/
theorem Drained.rejectionCode (h : Drained m m') (p : Pending) :
    m'.rejectionCode p = m.rejectionCode p := by
  have hResolves : (m'.resolveScope p.item.scope).toOption.isNone =
      (m.resolveScope p.item.scope).toOption.isNone := by
    rw [← Option.not_isSome, ← Option.not_isSome, Bool.not_inj_iff, Bool.eq_iff_iff, resolves_iff,
      resolves_iff]
    exact h.retires.resolves p.item.scope
  rw [TimerManager.rejectionCode, TimerManager.rejectionCode, hResolves, h.running,
    h.dispatchTable]

/-- The items of a list that are delivered. -/
def accepted (m : TimerManager) (pending : List Pending) : List Pending :=
  pending.filter fun p => (m.rejectionCode p).isNone

/-- What a list of items adds to the report. -/
def reportOf (m : TimerManager) (pending : List Pending) : DrainReport where
  delivered := (m.accepted pending).map fun p => p.item.record.delivery
  rejections := pending.filterMap fun p => (m.rejectionCode p).map p.item.record.reject
  records := (m.accepted pending).map fun p => p.item.record

theorem Drained.reportOf (h : Drained m m') (pending : List Pending) :
    m'.reportOf pending = m.reportOf pending := by
  have hCode : m'.rejectionCode = m.rejectionCode := funext h.rejectionCode
  rw [TimerManager.reportOf, TimerManager.reportOf, accepted, accepted, hCode]

/-- One report after the other. -/
def append (report report' : DrainReport) : DrainReport where
  delivered := report.delivered ++ report'.delivered
  rejections := report.rejections ++ report'.rejections
  records := report.records ++ report'.records

theorem append_assoc (report report' report'' : DrainReport) :
    append (append report report') report'' = append report (append report' report'') := by
  simp only [append, List.append_assoc]

/-- The timers whose items a drain delivers stay, unless they fire once only. -/
def Survives (m : TimerManager) (pending : List Pending) (h : TimerHandle)
    (record : TimerRecord) : Prop :=
  ∀ p ∈ pending, p.item.record.handle = h → m.rejectionCode p = none ∧ record.interval ≠ none

theorem reportOf_cons (m : TimerManager) (p : Pending) (rest : List Pending) :
    m.reportOf (p :: rest) = append (m.reportOf [p]) (m.reportOf rest) := by
  rw [append, reportOf, reportOf, reportOf, DrainReport.mk.injEq]
  have hAccepted : m.accepted (p :: rest) = m.accepted [p] ++ m.accepted rest :=
    List.filter_append [p] rest
  rw [hAccepted, List.map_append, List.map_append, ← List.filterMap_append]
  exact ⟨rfl, rfl, rfl⟩

theorem survives_cons {p : Pending} {rest : List Pending} {h : TimerHandle}
    {record : TimerRecord} :
    m.Survives (p :: rest) h record ↔ m.Survives [p] h record ∧ m.Survives rest h record := by
  simp only [Survives, List.forall_mem_cons, List.mem_singleton, forall_eq]

theorem drained_retire (m : TimerManager) (h : TimerHandle) : Drained m (m.retire h) :=
  ⟨rfl, rfl, rfl, rfl, rfl, Roster.retires_retire m.context m.toRoster h⟩

theorem getTimer_retire_eq_ok {target h : TimerHandle} {record : TimerRecord} :
    (m.retire target).getTimer h = .ok record ↔ m.getTimer h = .ok record ∧ target ≠ h := by
  change (m.toRoster.retire m.context target).getTimer m.context h = _ ↔ _
  rw [Roster.getTimer_retire]
  split_ifs with hSame
  · simp [hSame]
  · simp [TimerManager.getTimer, Ne.symm hSame]

/-- The manager with one delivery traced. -/
def traced (m : TimerManager) (emitTrace : Bool) (record : FiringRecord) : TimerManager :=
  if emitTrace then
    { m with trace := m.trace.push (.dispatched record.slotDispatchId record.dueTick) }
  else m

theorem drained_traced (m : TimerManager) (emitTrace : Bool) (record : FiringRecord) :
    Drained m (m.traced emitTrace record) := by
  rw [traced]
  split_ifs
  · exact ⟨rfl, rfl, rfl, rfl, rfl, Roster.Retires.refl m.context m.toRoster⟩
  · exact Drained.refl m

theorem getTimer_traced (m : TimerManager) (emitTrace : Bool) (record : FiringRecord)
    (h : TimerHandle) : (m.traced emitTrace record).getTimer h = m.getTimer h := by
  rw [traced]
  split_ifs <;> rfl

theorem deliver_passed (emitTrace : Bool) (report : DrainReport) {p : Pending}
    (hCode : m.rejectionCode p = none) :
    deliver emitTrace (report, m) p = (append report (m.reportOf [p]),
      match m.getTimer p.item.record.handle with
      | .ok timer =>
          if timer.interval.isNone then
            (m.traced emitTrace p.item.record).retire p.item.record.handle
          else m.traced emitTrace p.item.record
      | .error _ => m.traced emitTrace p.item.record) := by
  have hReport : append report (m.reportOf [p]) =
      { report with
        records := report.records ++ [p.item.record]
        delivered := report.delivered ++ [p.item.record.delivery] } := by
    simp [append, reportOf, accepted, hCode]
  rw [hReport, ← getTimer_traced m emitTrace p.item.record]
  simp only [deliver, hCode]
  change (match (m.traced emitTrace p.item.record).getTimer p.item.record.handle with
    | .ok timer => _ | .error _ => _) = _
  cases (m.traced emitTrace p.item.record).getTimer p.item.record.handle <;> rfl

theorem deliver_spec (emitTrace : Bool) (report : DrainReport) (m : TimerManager) (p : Pending) :
    ∃ m', deliver emitTrace (report, m) p = (append report (m.reportOf [p]), m') ∧
      Drained m m' ∧ ∀ h record, m'.getTimer h = .ok record ↔
        m.getTimer h = .ok record ∧ m.Survives [p] h record := by
  cases hCode : m.rejectionCode p with
  | some code =>
      refine ⟨m.retire p.item.record.handle, ?_, drained_retire m _, fun h record => ?_⟩
      · simp [deliver, append, reportOf, accepted, hCode]
      · rw [getTimer_retire_eq_ok]
        simp [Survives, hCode]
  | none =>
      have hTraced := drained_traced m emitTrace p.item.record
      have hRead := getTimer_traced m emitTrace p.item.record
      have hSurvives : ∀ h record, m.Survives [p] h record ↔
          (p.item.record.handle = h → record.interval ≠ none) := by
        simp [Survives, hCode]
      rw [deliver_passed emitTrace report hCode]
      simp only [hSurvives]
      refine ⟨_, rfl, ?_⟩
      cases hGet : m.getTimer p.item.record.handle with
      | error failure =>
          refine ⟨hTraced, fun h record => ?_⟩
          rw [hRead]
          apply (and_iff_left_of_imp _).symm
          rintro hFound rfl
          rw [hFound] at hGet
          cases hGet
      | ok timer =>
          dsimp only
          split_ifs with hOnce
          · refine ⟨hTraced.trans (drained_retire _ _), fun h record => ?_⟩
            rw [getTimer_retire_eq_ok, hRead]
            apply and_congr_right
            intro hFound
            constructor
            · exact fun hOther hEqual => absurd hEqual hOther
            · rintro hRepeats rfl
              obtain rfl := Except.ok.inj (hGet.symm.trans hFound)
              exact hRepeats rfl (Option.isNone_iff_eq_none.mp hOnce)
          · refine ⟨hTraced, fun h record => ?_⟩
            rw [hRead]
            apply (and_iff_left_of_imp _).symm
            rintro hFound rfl hInterval
            obtain rfl := Except.ok.inj (hGet.symm.trans hFound)
            exact hOnce (Option.isNone_iff_eq_none.mpr hInterval)

theorem foldl_deliver (emitTrace : Bool) (report : DrainReport) (m : TimerManager)
    (pending : List Pending) :
    ∃ m', pending.foldl (deliver emitTrace) (report, m) =
        (append report (m.reportOf pending), m') ∧
      Drained m m' ∧ ∀ h record, m'.getTimer h = .ok record ↔
        m.getTimer h = .ok record ∧ m.Survives pending h record := by
  induction pending generalizing report m with
  | nil =>
      refine ⟨m, ?_, Drained.refl m, ?_⟩
      · simp [append, reportOf, accepted]
      · simp [Survives]
  | cons p rest ih =>
      obtain ⟨next, hTurn, hDrained, hGet⟩ := deliver_spec emitTrace report m p
      obtain ⟨m', hRest, hDrained', hGet'⟩ := ih (append report (m.reportOf [p])) next
      refine ⟨m', ?_, hDrained.trans hDrained', fun h record => ?_⟩
      · rw [List.foldl_cons, hTurn, hRest, append_assoc, hDrained.reportOf, ← reportOf_cons]
      · have hSurvives : next.Survives rest h record ↔ m.Survives rest h record := by
          simp only [Survives, hDrained.rejectionCode]
        rw [hGet', hGet, hSurvives, and_assoc]
        exact and_congr_right fun _ => survives_cons.symm

/-! The drain. -/

/-- What a drain reports, and the manager it leaves. -/
structure DrainSpec (m : TimerManager) (report : DrainReport) (m' : TimerManager) : Prop where
  report : report = m.reportOf m.drainQueue
  drained : Drained { m with toDesk := m.toDesk.clear } m'
  getTimer : ∀ h record, m'.getTimer h = .ok record ↔
    m.getTimer h = .ok record ∧ m.Survives m.drainQueue h record

theorem drainInternal_spec (m : TimerManager) (emitTrace : Bool) :
    DrainSpec m (m.drainInternal emitTrace).1 (m.drainInternal emitTrace).2 := by
  obtain ⟨m', hLoop, hDrained, hGet⟩ := foldl_deliver emitTrace ⟨[], [], []⟩
    { m with toDesk := m.toDesk.clear } m.drainQueue
  have hResult : m.drainInternal emitTrace = (m.reportOf m.drainQueue, m') := hLoop
  rw [hResult]
  exact ⟨rfl, hDrained, hGet⟩

theorem drainRecords_eq_ok {report : DrainReport} (hResult : m.drainRecords = .ok (report, m')) :
    DrainSpec m report m' := by
  simp only [drainRecords, Check.then_eq_ok, Except.ok.injEq] at hResult
  have hSpec := m.drainInternal_spec false
  rwa [hResult.2] at hSpec

/-- A turn of the drain loop writes to the roster only by retiring a timer, and makes no
diagnostics. -/
theorem deliver_interim (emitTrace : Bool) (report : DrainReport) (m : TimerManager) (p : Pending) :
    Roster.Interim m.toRoster (deliver emitTrace (report, m) p).2.toRoster ∧
      (deliver emitTrace (report, m) p).2.diagnostics = m.diagnostics := by
  have hRetired := fun m : TimerManager =>
    (@Roster.Interim.refl m.toRoster).retire m.context p.item.record.handle
  cases hCode : m.rejectionCode p with
  | some code =>
      simp only [deliver, hCode]
      exact ⟨hRetired m, rfl⟩
  | none =>
      have hTraced : (m.traced emitTrace p.item.record).toRoster = m.toRoster ∧
          (m.traced emitTrace p.item.record).diagnostics = m.diagnostics := by
        rw [traced]
        split_ifs <;> exact ⟨rfl, rfl⟩
      rw [deliver_passed emitTrace report hCode, ← hTraced.1, ← hTraced.2]
      cases m.getTimer p.item.record.handle with
      | error failure => exact ⟨Roster.Interim.refl, rfl⟩
      | ok timer =>
          dsimp only
          split_ifs
          · exact ⟨hRetired _, rfl⟩
          · exact ⟨Roster.Interim.refl, rfl⟩

theorem drainInternal_interim (m : TimerManager) (emitTrace : Bool) :
    Roster.Interim m.toRoster (m.drainInternal emitTrace).2.toRoster ∧
      (m.drainInternal emitTrace).2.diagnostics = m.diagnostics := by
  have hLoop : ∀ (pending : List Pending) (report : DrainReport) (m : TimerManager),
      Roster.Interim m.toRoster (pending.foldl (deliver emitTrace) (report, m)).2.toRoster ∧
        (pending.foldl (deliver emitTrace) (report, m)).2.diagnostics = m.diagnostics := by
    intro pending
    induction pending with
    | nil => exact fun report m => ⟨Roster.Interim.refl, rfl⟩
    | cons p rest ih =>
        intro report m
        obtain ⟨hFirst, hFirstDiagnostics⟩ := deliver_interim emitTrace report m p
        obtain ⟨hRest, hRestDiagnostics⟩ :=
          ih (deliver emitTrace (report, m) p).1 (deliver emitTrace (report, m) p).2
        exact ⟨hFirst.trans hRest, hRestDiagnostics.trans hFirstDiagnostics⟩
  exact hLoop m.drainQueue ⟨[], [], []⟩ { m with toDesk := m.toDesk.clear }

namespace DrainSpec

variable {report : DrainReport}

theorem no_items (h : DrainSpec m report m') : m'.toDesk.items = [] := by
  rw [h.drained.desk]
  exact Desk.items_clear m.toDesk

theorem settled (h : DrainSpec m report m') (hSettled : Settled m) : Settled m' := by
  have hNone : ∀ k item, ¬m.toDesk.clear.Holds k item := m.toDesk.not_holds_clear
  have hTaken : Sound m.committedTick { m with toDesk := m.toDesk.clear } :=
    { hSettled.sound with
      free := hSettled.sound.free
      counted := by
        change 0 = m.toDesk.clear.items.length
        rw [Desk.items_clear]
        rfl
      issued := fun _ k item hItem => absurd hItem (hNone k item)
      due := by
        change ∀ item ∈ m.toDesk.clear.items, _
        rw [Desk.items_clear]
        simp
      keys := by
        change (m.toDesk.clear.items.map _).Nodup
        rw [Desk.items_clear]
        exact List.nodup_nil
      owner := fun k item _ hItem => absurd hItem (hNone k item)
      siblings := fun k item _ _ hItem => absurd hItem (hNone k item) }
  have hShape := h.drained.eq_with
  constructor
  · rw [hShape]
    exact { hTaken.retires h.drained.retires with }
  · rw [hShape]
    exact hSettled.upcoming.retires h.drained.retires

end DrainSpec

end TimerManager
end Timer

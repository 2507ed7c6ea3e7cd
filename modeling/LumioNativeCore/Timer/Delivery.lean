import LumioNativeCore.Timer.Effect

/-! Deliveries over whole runs: every firing is delivered or rejected once, by the
first drain after it, and the deliveries come in firing order. -/
namespace Timer

/-! Readings of a trace. -/

def TimerEvent.fired : TimerEvent → List FiringRecord
  | .advanced report => report.firings
  | _ => []

def TimerEvent.delivered : TimerEvent → List FiringRecord
  | .drained report => report.records
  | _ => []

/-- The firings of a trace. -/
def firingsOf (trace : List TimerEvent) : List FiringRecord := trace.flatMap TimerEvent.fired

/-- The deliveries of a trace. -/
def deliveriesOf (trace : List TimerEvent) : List FiringRecord := trace.flatMap TimerEvent.delivered

/-- A firing as the reports name it. -/
def FiringRecord.identity (record : FiringRecord) : TimerHandle × Nat × Nat :=
  (record.handle, record.dueTick, record.scheduleSequence)

def FiringRejection.identity (rejection : FiringRejection) : TimerHandle × Nat × Nat :=
  (rejection.handle, rejection.dueTick, rejection.scheduleSequence)

def TimerEvent.reported : TimerEvent → List (TimerHandle × Nat × Nat)
  | .drained report =>
      report.records.map FiringRecord.identity ++ report.rejections.map FiringRejection.identity
  | _ => []

/-- What the drains of a trace report. -/
def reportedOf (trace : List TimerEvent) : List (TimerHandle × Nat × Nat) :=
  trace.flatMap TimerEvent.reported

/-- The firings that still wait after one more call: a drain takes them all. -/
def TimerEvent.await (waiting : List FiringRecord) : TimerEvent → List FiringRecord
  | .drained _ => []
  | event => waiting ++ event.fired

/-- The firings of a trace since its last drain. -/
def waitingOf (trace : List TimerEvent) : List FiringRecord := trace.foldl TimerEvent.await []

@[simp] theorem firingsOf_snoc (trace : List TimerEvent) (event : TimerEvent) :
    firingsOf (trace ++ [event]) = firingsOf trace ++ event.fired := by
  simp [firingsOf]

@[simp] theorem deliveriesOf_snoc (trace : List TimerEvent) (event : TimerEvent) :
    deliveriesOf (trace ++ [event]) = deliveriesOf trace ++ event.delivered := by
  simp [deliveriesOf]

@[simp] theorem reportedOf_snoc (trace : List TimerEvent) (event : TimerEvent) :
    reportedOf (trace ++ [event]) = reportedOf trace ++ event.reported := by
  simp [reportedOf]

@[simp] theorem waitingOf_snoc (trace : List TimerEvent) (event : TimerEvent) :
    waitingOf (trace ++ [event]) = event.await (waitingOf trace) := by
  simp [waitingOf]

theorem TimerEvent.IsPlain.silent {event : TimerEvent} (h : event.IsPlain) :
    event.fired = [] ∧ event.delivered = [] ∧ event.reported = [] ∧
      ∀ waiting, event.await waiting = waiting := by
  cases event <;> simp_all [TimerEvent.IsPlain, TimerEvent.fired, TimerEvent.delivered,
    TimerEvent.reported, TimerEvent.await]

namespace TimerManager

variable {m m' : TimerManager}

/-- The records of the queued items. -/
def queuedRecords (m : TimerManager) : List FiringRecord := m.toDesk.items.map QueueItem.record

theorem queuedRecords_rewrites {d : Desk} {keep : Nat → QueueItem → Bool}
    (h : Desk.Rewrites keep m.toDesk d) : d.items.map QueueItem.record = m.queuedRecords := h.items

theorem queuedRecords_traversed (m : TimerManager) (toTick : Nat) :
    (m.traversed toTick).2.queuedRecords.Perm
      (m.queuedRecords ++ (m.traversed toTick).1.firings) := by
  obtain ⟨r, -, hFrame⟩ := m.traversed_frame toTick
  rw [hFrame]
  exact serveAll_items m (m.window toTick)

/-- The firings of a window, as the window has them. -/
theorem firings_window {toTick : Nat} {record : FiringRecord}
    (h : record ∈ (m.traversed toTick).1.firings) : record ∈ m.collected toTick :=
  mem_window.mp ((serveAll_firings m (m.window toTick)).subset h)

theorem firings_keys {horizon : Nat} (hSound : Sound horizon m) (toTick : Nat) :
    ((m.traversed toTick).1.firings.map FiringRecord.key).Nodup := by
  have hWindow : ((m.window toTick).map FiringRecord.key).Nodup :=
    ((window_perm m toTick).map _).nodup_iff.mpr (collected_keys hSound toTick)
  exact hWindow.sublist ((serveAll_firings m (m.window toTick)).map FiringRecord.key)

/-! What drains deliver. -/

/-- What the trace says about the manager it leads to. -/
structure Ledger (trace : List TimerEvent) (m : TimerManager) : Prop where
  waiting : m.queuedRecords.Perm (waitingOf trace)
  keys : ((firingsOf trace).map FiringRecord.key).Nodup
  accounted : (reportedOf trace ++ m.queuedRecords.map FiringRecord.identity).Perm
    ((firingsOf trace).map FiringRecord.identity)
  past : ∀ record ∈ firingsOf trace, record.dueTick ≤ m.committedTick
  consumed : (deliveriesOf trace ++ m.queuedRecords).Subperm (firingsOf trace)
  ordered : (deliveriesOf trace).Pairwise FiringRecord.Precedes
  later : ∀ record ∈ deliveriesOf trace, ∀ queued ∈ m.queuedRecords,
    record.dueTick < queued.dueTick

theorem Ledger.delivered_past {trace : List TimerEvent} (h : Ledger trace m) {record : FiringRecord}
    (hRecord : record ∈ deliveriesOf trace) : record.dueTick ≤ m.committedTick :=
  h.past record (h.consumed.subset (List.mem_append_left _ hRecord))

section Drains

variable {report : DrainReport}

theorem DrainSpec.records_sublist (h : DrainSpec m report m') :
    report.records.Sublist (m.drainQueue.map fun p => p.item.record) := by
  rw [h.report]
  exact List.filter_sublist.map _

theorem drainQueue_records (m : TimerManager) :
    (m.drainQueue.map fun p => p.item.record).Perm m.queuedRecords := by
  have hItems := m.drainQueue_items.map QueueItem.record
  rwa [List.map_map] at hItems

theorem DrainSpec.ordered {horizon : Nat} (h : DrainSpec m report m') (hSound : Sound horizon m) :
    report.records.Pairwise FiringRecord.Precedes := by
  apply List.Pairwise.sublist h.records_sublist
  apply pairwise_precedes m.drainQueue_sorted
  have hKeys := m.drainQueue_records.map FiringRecord.key
  apply hKeys.nodup_iff.mpr
  rw [queuedRecords, List.map_map]
  exact hSound.keys

theorem DrainSpec.delivered (h : DrainSpec m report m') :
    report.delivered = report.records.map FiringRecord.delivery := by
  rw [h.report, reportOf, List.map_map]
  rfl

/-- Every record taken is delivered or rejected. -/
theorem DrainSpec.partition (h : DrainSpec m report m') :
    ∃ rejected : List (FiringRecord × TimerError),
      report.rejections = rejected.map (fun r => r.1.reject r.2) ∧
      (report.records ++ rejected.map Prod.fst).Perm m.queuedRecords := by
  have hLoop : ∀ pending : List Pending, ∃ rejected : List (FiringRecord × TimerError),
      (m.reportOf pending).rejections = rejected.map (fun r => r.1.reject r.2) ∧
      ((m.reportOf pending).records ++ rejected.map Prod.fst).Perm
        (pending.map fun p => p.item.record) := by
    intro pending
    induction pending with
    | nil => exact ⟨[], rfl, List.Perm.nil⟩
    | cons p rest ih =>
        obtain ⟨rejected, hRejections, hPerm⟩ := ih
        cases hCode : m.rejectionCode p with
        | none =>
            refine ⟨rejected, ?_, ?_⟩
            · simpa [reportOf, hCode] using hRejections
            · have hRecords : (m.reportOf (p :: rest)).records =
                  p.item.record :: (m.reportOf rest).records := by
                simp [reportOf, accepted, hCode]
              rw [hRecords]
              exact hPerm.cons p.item.record
        | some code =>
            refine ⟨(p.item.record, code) :: rejected, ?_, ?_⟩
            · simpa [reportOf, hCode] using hRejections
            · have hRecords : (m.reportOf (p :: rest)).records = (m.reportOf rest).records := by
                simp [reportOf, accepted, hCode]
              rw [hRecords]
              exact List.perm_middle.trans (hPerm.cons p.item.record)
  obtain ⟨rejected, hRejections, hPerm⟩ := hLoop m.drainQueue
  rw [← h.report] at hRejections hPerm
  exact ⟨rejected, hRejections, hPerm.trans m.drainQueue_records⟩

end Drains

theorem Ledger.of_silent {trace : List TimerEvent} {event : TimerEvent} (h : Ledger trace m)
    (hSilent : event.fired = [] ∧ event.delivered = [] ∧ event.reported = [] ∧
      ∀ waiting, event.await waiting = waiting)
    (hRecords : m'.queuedRecords = m.queuedRecords) (hTick : m'.committedTick = m.committedTick) :
    Ledger (trace ++ [event]) m' := by
  obtain ⟨hFired, hDelivered, hReported, hAwait⟩ := hSilent
  constructor <;> simp only [firingsOf_snoc, deliveriesOf_snoc, reportedOf_snoc, waitingOf_snoc,
    hFired, hDelivered, hReported, hAwait, List.append_nil, hRecords, hTick]
  · exact h.waiting
  · exact h.keys
  · exact h.accounted
  · exact h.past
  · exact h.consumed
  · exact h.ordered
  · exact h.later

/-- A window queues what it fires, and all of it is later than what was fired before. -/
theorem Ledger.traverse {trace : List TimerEvent} {toTick : Nat} (h : Ledger trace m)
    (hSettled : Settled m) (later : m.committedTick < toTick) :
    Ledger (trace ++ [.advanced (m.traversed toTick).1]) (m.traversed toTick).2 := by
  have hRecords := queuedRecords_traversed m toTick
  have hFresh : ∀ record ∈ (m.traversed toTick).1.firings,
      m.committedTick < record.dueTick ∧ record.dueTick ≤ toTick := by
    intro record hRecord
    have hWindow := collected_fresh hSettled.sound hSettled.upcoming (Nat.le_refl _)
      (firings_window hRecord)
    exact ⟨hWindow.1, hWindow.2.1⟩
  constructor <;> simp only [firingsOf_snoc, deliveriesOf_snoc, reportedOf_snoc, waitingOf_snoc,
    TimerEvent.fired, TimerEvent.delivered, TimerEvent.reported, TimerEvent.await,
    List.append_nil]
  · exact hRecords.trans (h.waiting.append_right _)
  · rw [List.map_append, List.nodup_append]
    refine ⟨h.keys, firings_keys hSettled.sound toTick, ?_⟩
    rintro _ hOld _ hNew rfl
    obtain ⟨old, hOldMem, hOldKey⟩ := List.mem_map.mp hOld
    obtain ⟨new, hNewMem, hNewKey⟩ := List.mem_map.mp hNew
    have hDue : old.dueTick = new.dueTick :=
      (Prod.mk.inj (hOldKey.trans hNewKey.symm)).1
    have hPast := h.past old hOldMem
    have hLater := (hFresh new hNewMem).1
    omega
  · have hIdentities := hRecords.map FiringRecord.identity
    rw [List.map_append] at hIdentities ⊢
    apply (hIdentities.append_left (reportedOf trace)).trans
    rw [← List.append_assoc]
    exact h.accounted.append_right _
  · intro record hRecord
    change record.dueTick ≤ toTick
    rcases List.mem_append.mp hRecord with hOld | hNew
    · exact (h.past record hOld).trans later.le
    · exact (hFresh record hNew).2
  · have hAppend : (deliveriesOf trace ++ m.queuedRecords ++
        (m.traversed toTick).1.firings).Subperm (firingsOf trace ++ _) :=
      (List.subperm_append_right _).mpr h.consumed
    rw [List.append_assoc] at hAppend
    exact (hRecords.append_left (deliveriesOf trace)).subperm.trans hAppend
  · exact h.ordered
  · intro record hRecord queued hQueued
    rcases List.mem_append.mp (hRecords.mem_iff.mp hQueued) with hOld | hNew
    · exact h.later record hRecord queued hOld
    · exact (h.delivered_past hRecord).trans_lt (hFresh queued hNew).1

/-- A drain empties the queue into its report, in the order of delivery. -/
theorem Ledger.drain {trace : List TimerEvent} {report : DrainReport} (h : Ledger trace m)
    (hSettled : Settled m) (spec : DrainSpec m report m') :
    Ledger (trace ++ [.drained report]) m' := by
  have hNone : m'.queuedRecords = [] := by
    rw [queuedRecords, spec.no_items]
    rfl
  have hRecords : ∀ record ∈ report.records, record ∈ m.queuedRecords := fun record hRecord =>
    m.drainQueue_records.mem_iff.mp (spec.records_sublist.subset hRecord)
  constructor <;> simp only [firingsOf_snoc, deliveriesOf_snoc, reportedOf_snoc, waitingOf_snoc,
    TimerEvent.fired, TimerEvent.delivered, TimerEvent.reported, TimerEvent.await,
    List.append_nil, hNone, List.map_nil]
  · exact List.Perm.nil
  · exact h.keys
  · obtain ⟨rejected, hRejections, hPerm⟩ := spec.partition
    have hIdentities := hPerm.map FiringRecord.identity
    have hRejected : report.rejections.map FiringRejection.identity =
        (rejected.map Prod.fst).map FiringRecord.identity := by
      rw [hRejections, List.map_map, List.map_map]
      rfl
    rw [List.map_append, ← hRejected] at hIdentities
    exact (hIdentities.append_left (reportedOf trace)).trans h.accounted
  · rw [spec.drained.clock]
    exact h.past
  · apply List.Subperm.trans _ h.consumed
    rw [List.subperm_append_left]
    exact spec.records_sublist.subperm.trans m.drainQueue_records.subperm
  · rw [List.pairwise_append]
    refine ⟨h.ordered, spec.ordered hSettled.sound, ?_⟩
    exact fun record hRecord queued hQueued =>
      Or.inl (h.later record hRecord queued (hRecords queued hQueued))
  · exact fun _ _ _ hQueued => absurd hQueued List.not_mem_nil

theorem Ledger.effect {trace : List TimerEvent} {event : TimerEvent} (h : Ledger trace m)
    (hSettled : Settled m) (hEffect : Effect m event m') : Ledger (trace ++ [event]) m' := by
  cases hEffect with
  | shrinks plain shrinks =>
      obtain ⟨keep, hRewrites⟩ := shrinks.desk
      exact h.of_silent plain.silent (queuedRecords_rewrites hRewrites)
        (congrArg Clock.committedTick shrinks.clock)
  | placed _ _ _ _ _ _ =>
      exact h.of_silent ⟨rfl, rfl, rfl, fun waiting => List.append_nil waiting⟩ rfl rfl
  | paused => exact h.of_silent ⟨rfl, rfl, rfl, fun waiting => List.append_nil waiting⟩ rfl rfl
  | traversed _ later => exact h.traverse hSettled later
  | drained spec => exact h.drain hSettled spec

/-! Which timers a trace has seen. -/

/-- The timers of a trace were issued, as long as the manager runs. -/
structure History (trace : List TimerEvent) (m : TimerManager) : Prop where
  fired : m.running = true → ∀ record ∈ firingsOf trace, m.Issued m.context record.handle
  scheduled : m.running = true → ∀ handle scope interval slot,
    .scheduled handle scope interval slot ∈ trace → m.Issued m.context handle

theorem History.nil (m : TimerManager) : History [] m where
  fired _ _ hRecord := absurd hRecord List.not_mem_nil
  scheduled _ _ _ _ _ hEvent := absurd hEvent List.not_mem_nil

/-- A call that keeps the issued timers and fires only timers that are live. -/
theorem History.snoc {trace : List TimerEvent} {event : TimerEvent} (h : History trace m)
    (hRunning : m'.running = true → m.running = true)
    (hKept : m'.running = true → ∀ handle, m.Issued m.context handle → m'.Issued m'.context handle)
    (hFired : m'.running = true → ∀ record ∈ event.fired, m'.Issued m'.context record.handle)
    (hScheduled : m'.running = true → ∀ handle scope interval slot,
      event = .scheduled handle scope interval slot → m'.Issued m'.context handle) :
    History (trace ++ [event]) m' where
  fired hAlive record hRecord := by
    rw [firingsOf_snoc] at hRecord
    rcases List.mem_append.mp hRecord with hOld | hNew
    · exact hKept hAlive _ (h.fired (hRunning hAlive) record hOld)
    · exact hFired hAlive record hNew
  scheduled hAlive handle scope interval slot hEvent := by
    rcases List.mem_append.mp hEvent with hOld | hNew
    · exact hKept hAlive _ (h.scheduled (hRunning hAlive) handle scope interval slot hOld)
    · exact hScheduled hAlive handle scope interval slot (List.mem_singleton.mp hNew).symm

theorem History.effect {trace : List TimerEvent} {event : TimerEvent} (h : History trace m)
    (hSettled : Settled m) (hEffect : Effect m event m') : History (trace ++ [event]) m' := by
  cases hEffect with
  | shrinks plain shrinks =>
      apply h.snoc shrinks.running
      · exact fun hAlive handle => (shrinks.issued hAlive handle).mpr
      · rw [plain.silent.1]
        exact fun _ _ hRecord => absurd hRecord List.not_mem_nil
      · rintro - handle scope interval slot rfl
        exact plain.elim
  | @placed record running _ _ _ _ _ =>
      have hFree := hSettled.sound.free running
      apply h.snoc
      · exact fun hAlive => hAlive
      · exact fun _ handle hIssued => hIssued.place hFree record
      · exact fun _ _ hRecord => absurd hRecord List.not_mem_nil
      · rintro - handle scope interval slot hEvent
        obtain ⟨rfl, -⟩ := TimerEvent.scheduled.inj hEvent
        have hGet := getTimer_placed hFree record (m.toRoster.place m.context record).1
        rw [if_pos rfl] at hGet
        exact Roster.issued_of_getTimer hGet
  | paused =>
      apply h.snoc
      · exact fun hAlive => hAlive
      · exact fun _ _ hIssued => hIssued
      · exact fun _ _ hRecord => absurd hRecord List.not_mem_nil
      · rintro - handle scope interval slot hEvent
        cases hEvent
  | @traversed toTick running later =>
      have hFired : ∀ record ∈ (m.traversed toTick).1.firings,
          m.Issued m.context record.handle := by
        intro record hRecord
        obtain ⟨timer, hGet, -⟩ := mem_collected.mp (firings_window hRecord)
        exact Roster.issued_of_getTimer hGet
      obtain ⟨r, hInterim, hFrame⟩ := m.traversed_frame toTick
      have hEvolves := hInterim.evolves m.context
      rw [hFrame]
      apply h.snoc
      · exact fun hAlive => hAlive
      · exact fun _ handle hIssued => (hEvolves.issued handle).mpr hIssued
      · exact fun _ record hRecord => (hEvolves.issued record.handle).mpr (hFired record hRecord)
      · rintro - handle scope interval slot hEvent
        cases hEvent
  | drained spec =>
      obtain ⟨hDrained, hRetires⟩ := And.intro spec.drained spec.drained.retires
      apply h.snoc
      · rw [hDrained.running]
        exact fun hAlive => hAlive
      · rw [hDrained.context]
        exact fun _ handle hIssued => (hRetires.issued handle).mpr hIssued
      · exact fun _ _ hRecord => absurd hRecord List.not_mem_nil
      · rintro - handle scope interval slot hEvent
        cases hEvent

/-! A timer that fires once. -/

/-- How often a trace fires a timer. -/
def firingsBy (h : TimerHandle) (trace : List TimerEvent) : Nat :=
  (firingsOf trace).countP fun record => record.handle == h

/-- A window fires a timer without an interval at most once, and only if it is due. -/
theorem firings_once {horizon : Nat} (hSound : Sound horizon m) (toTick : Nat) {h : TimerHandle}
    {timer : TimerRecord} (hGet : m.getTimer h = .ok timer) (hOnce : timer.interval = none) :
    (m.traversed toTick).1.firings.countP (fun record => record.handle == h) ≤
      if timer.IsDue toTick then 1 else 0 := by
  have hOwn : ∀ record ∈ m.collected toTick, record.handle = h →
      timer.IsDue toTick ∧ record = timer.firing h timer.due := by
    rintro record hRecord rfl
    obtain ⟨other, hOther, hDue, hTick, hFiring⟩ := mem_collected.mp hRecord
    obtain rfl := Except.ok.inj (hGet.symm.trans hOther)
    rw [TimerRecord.ticks, hOnce, List.mem_singleton] at hTick
    exact ⟨hDue, hTick ▸ hFiring⟩
  apply (serveAll_firings m (m.window toTick)).countP_le.trans
  rw [(m.window_perm toTick).countP_eq]
  split_ifs with hDue
  · have hCount : (m.collected toTick).countP (fun record => record.handle == h) ≤
        (m.collected toTick).count (timer.firing h timer.due) := by
      apply List.countP_mono_left
      intro record hRecord hHandle
      simpa using (hOwn record hRecord (by simpa using hHandle)).2
    exact hCount.trans (List.nodup_iff_count_le_one.mp (collected_nodup hSound toTick) _)
  · rw [Nat.le_zero, List.countP_eq_zero]
    intro record hRecord hHandle
    exact hDue (hOwn record hRecord (by simpa using hHandle)).1

theorem firings_dead {toTick : Nat} {h : TimerHandle}
    (hDead : ∀ timer, m.getTimer h ≠ .ok timer) :
    (m.traversed toTick).1.firings.countP (fun record => record.handle == h) = 0 := by
  rw [List.countP_eq_zero]
  intro record hRecord hHandle
  obtain ⟨timer, hGet, -⟩ := mem_collected.mp (firings_window hRecord)
  rw [beq_iff_eq] at hHandle
  exact hDead timer (hHandle ▸ hGet)

/-- A timer that was scheduled without an interval has fired at most once, and not
at all if it still waits. -/
def Once (trace : List TimerEvent) (m : TimerManager) : Prop :=
  ∀ h scope slot, .scheduled h scope none slot ∈ trace →
    firingsBy h trace ≤ 1 ∧ ∀ timer, m.getTimer h = .ok timer →
      timer.interval = none ∧ (timer.queued = false → firingsBy h trace = 0)

/-- A timer that is placed has not fired, and every other timer is left as it was. -/
theorem Once.place {trace : List TimerEvent} {record : TimerRecord} (h : Once trace m)
    (hHistory : History trace m) (hSettled : Settled m) (running : m.running = true) :
    Once (trace ++ [.scheduled (m.toRoster.place m.context record).1 record.scope
      record.interval record.slot]) (m.placed record) := by
  have hFree := hSettled.sound.free running
  have hFresh := Roster.not_issued_place hFree m.context record
  intro handle scope slot hEvent
  have hCountSame : firingsBy handle (trace ++ [.scheduled
      (m.toRoster.place m.context record).1 record.scope record.interval record.slot]) =
      firingsBy handle trace := by
    rw [firingsBy, firingsOf_snoc]
    exact congrArg _ (List.append_nil _)
  rw [hCountSame]
  simp only [getTimer_placed hFree]
  rcases List.mem_append.mp hEvent with hOld | hNew
  · have hOther := (hHistory.scheduled running handle scope none slot hOld).ne_place hFree record
    obtain ⟨hCount, hLive⟩ := h handle scope slot hOld
    refine ⟨hCount, fun timer hTimer => ?_⟩
    rw [if_neg hOther] at hTimer
    exact hLive timer hTimer
  · obtain ⟨rfl, -, hInterval, -⟩ := TimerEvent.scheduled.inj (List.mem_singleton.mp hNew)
    have hCount : firingsBy (m.toRoster.place m.context record).1 trace = 0 := by
      rw [firingsBy, List.countP_eq_zero]
      intro r hRecord hHandle
      rw [beq_iff_eq] at hHandle
      exact hFresh (hHandle ▸ hHistory.fired running r hRecord)
    rw [if_pos rfl, hCount]
    refine ⟨Nat.zero_le 1, fun timer hTimer => ⟨?_, fun _ => rfl⟩⟩
    rw [← Except.ok.inj hTimer]
    exact hInterval.symm

/-- A window fires a waiting timer at most once and queues it if it does. -/
theorem Once.traverse {trace : List TimerEvent} {toTick : Nat} (h : Once trace m)
    (hSettled : Settled m) :
    Once (trace ++ [.advanced (m.traversed toTick).1]) (m.traversed toTick).2 := by
  intro handle scope slot hEvent
  have hOld : .scheduled handle scope none slot ∈ trace := by
    rcases List.mem_append.mp hEvent with hOld | hNew
    · exact hOld
    · cases List.mem_singleton.mp hNew
  obtain ⟨hCount, hLive⟩ := h handle scope slot hOld
  rw [firingsBy] at hCount hLive
  rw [firingsBy, firingsOf_snoc, TimerEvent.fired, List.countP_append]
  cases hGet : m.getTimer handle with
  | error failure =>
      have hDead : ∀ timer, m.getTimer handle ≠ .ok timer := by simp [hGet]
      rw [firings_dead hDead, Nat.add_zero]
      refine ⟨hCount, fun timer hTimer => ?_⟩
      obtain ⟨before, hBefore, -⟩ := (getTimer_traversed hSettled.sound handle timer).mp hTimer
      exact absurd hBefore (hDead before)
  | ok timer =>
      obtain ⟨hOnce, hWaits⟩ := hLive timer hGet
      have hFirings := firings_once hSettled.sound toTick hGet hOnce
      refine ⟨?_, fun timer' hTimer => ?_⟩
      · split_ifs at hFirings with hDue
        · rw [hWaits hDue.1]
          omega
        · omega
      · obtain ⟨before, hBefore, -, hAdvanced⟩ :=
          (getTimer_traversed hSettled.sound handle timer').mp hTimer
        obtain rfl := Except.ok.inj (hGet.symm.trans hBefore)
        rw [TimerRecord.advanced] at hAdvanced
        split_ifs at hAdvanced hFirings with hDue
        · simp only [TimerRecord.next, hOnce, Option.map_none, Option.some.injEq] at hAdvanced
          subst hAdvanced
          exact ⟨rfl, fun hQueued => Bool.noConfusion hQueued⟩
        · obtain rfl := Option.some.inj hAdvanced
          refine ⟨hOnce, fun hQueued => ?_⟩
          have hBefore := hWaits hQueued
          omega

theorem Once.effect {trace : List TimerEvent} {event : TimerEvent} (h : Once trace m)
    (hHistory : History trace m) (hSettled : Settled m) (hEffect : Effect m event m') :
    Once (trace ++ [event]) m' := by
  -- calls that neither schedule nor fire
  have hQuiet : event.fired = [] →
      (∀ h scope interval slot, event ≠ .scheduled h scope interval slot) →
      (∀ h timer, m'.getTimer h = .ok timer → m.getTimer h = .ok timer) →
      Once (trace ++ [event]) m' := by
    intro hFired hNone hGet handle scope slot hEvent
    rw [firingsBy, firingsOf_snoc, hFired, List.append_nil]
    rcases List.mem_append.mp hEvent with hOld | hNew
    · obtain ⟨hCount, hLive⟩ := h handle scope slot hOld
      exact ⟨hCount, fun timer hTimer => hLive timer (hGet handle timer hTimer)⟩
    · exact absurd (List.mem_singleton.mp hNew).symm (hNone handle scope none slot)
  cases hEffect with
  | shrinks plain shrinks =>
      apply hQuiet plain.silent.1 _ shrinks.getTimer
      rintro handle scope interval slot rfl
      exact plain
  | paused => exact hQuiet rfl (fun _ _ _ _ hEvent => TimerEvent.noConfusion hEvent) fun _ _ h => h
  | drained spec =>
      apply hQuiet rfl (fun _ _ _ _ hEvent => TimerEvent.noConfusion hEvent)
      exact fun handle timer hGet => ((spec.getTimer handle timer).mp hGet).1
  | placed running _ _ _ _ _ => exact h.place hHistory hSettled running
  | traversed _ _ => exact h.traverse hSettled

/-! Runs. -/

section Runs

variable {context : Nat} {mode : TimerMode} {limits : TimerLimits} {budget : TimerBudget}
  {trace : List TimerEvent}

/-- The trace of a run, and the manager the run leads to. -/
theorem ledger_of_run (run : Transition.Run Step (withBudget context mode limits budget) trace m) :
    Ledger trace m ∧ History trace m ∧ Once trace m := by
  apply (settled_withBudget context mode limits budget).along
    (fun trace m => Ledger trace m ∧ History trace m ∧ Once trace m) _ _ run
  · refine ⟨⟨List.Perm.nil, List.nodup_nil, List.Perm.nil, ?_, List.nil_subperm, List.Pairwise.nil,
      ?_⟩, History.nil _, ?_⟩
    · exact fun _ hRecord => absurd hRecord List.not_mem_nil
    · exact fun _ hRecord => absurd hRecord List.not_mem_nil
    · exact fun _ _ _ hEvent => absurd hEvent List.not_mem_nil
  · rintro trace t event w ⟨hLedger, hHistory, hOnce⟩ hSettled - hEffect
    exact ⟨hLedger.effect hSettled hEffect, hHistory.effect hSettled hEffect,
      hOnce.effect hHistory hSettled hEffect⟩

/-- Over every run, the firings of the advances are reported by the drains: each
by the first drain after it and by no other, as a delivery or as a rejection, and
nothing else is reported. A timer without an interval is delivered at most once,
and the deliveries of all drains come in the order of due tick and sequence. -/
theorem deliveries_exactly_once
    (run : Transition.Run Step (withBudget context mode limits budget) trace m) :
    ((firingsOf trace).map FiringRecord.key).Nodup ∧
    (reportedOf trace ++ (waitingOf trace).map FiringRecord.identity).Perm
      ((firingsOf trace).map FiringRecord.identity) ∧
    (∀ before report after, trace = before ++ .drained report :: after →
      report.delivered = report.records.map FiringRecord.delivery ∧
      ∃ rejected : List (FiringRecord × TimerError),
        report.rejections = rejected.map (fun r => r.1.reject r.2) ∧
        (report.records ++ rejected.map Prod.fst).Perm (waitingOf before)) ∧
    (∀ handle scope slot, .scheduled handle scope none slot ∈ trace →
      (deliveriesOf trace).countP (fun record => record.handle == handle) ≤ 1) ∧
    (deliveriesOf trace).Pairwise FiringRecord.Precedes := by
  obtain ⟨hLedger, -, hOnce⟩ := ledger_of_run run
  refine ⟨hLedger.keys, ?_, ?_, ?_, hLedger.ordered⟩
  · have hWaiting := (hLedger.waiting.map FiringRecord.identity).symm
    exact (hWaiting.append_left (reportedOf trace)).trans hLedger.accounted
  · rintro before report after rfl
    obtain ⟨t, t', hBefore, hStep, -⟩ := run.at
    obtain ⟨hLedger', -⟩ := ledger_of_run hBefore
    have hSettled := (settled_withBudget context mode limits budget).run hBefore
    cases hStep.effect hSettled.sound with
    | shrinks plain => exact plain.elim
    | drained spec =>
        obtain ⟨rejected, hRejections, hPerm⟩ := spec.partition
        exact ⟨spec.delivered, rejected, hRejections, hPerm.trans hLedger'.waiting⟩
  · intro handle scope slot hEvent
    have hDelivered : (deliveriesOf trace).Subperm (firingsOf trace) :=
      ((List.sublist_append_left _ _).subperm).trans hLedger.consumed
    exact (hDelivered.countP_le _).trans (hOnce handle scope slot hEvent).1

/-- Two timers on two slots, one of which repeats, are delivered by two drains. -/
theorem deliveries_exactly_once_two :
    ∃ trace m, Transition.Run Step (withBudget 7 .tickFrame .contract .default) trace m ∧
      deliveriesOf trace = [⟨⟨1, 1, 7⟩, 3, 2, ⟨9⟩⟩, ⟨⟨0, 1, 7⟩, 5, 1, ⟨8⟩⟩, ⟨⟨1, 1, 7⟩, 5, 2, ⟨9⟩⟩] ∧
      (deliveriesOf trace).Pairwise FiringRecord.Precedes := by
  have run : Transition.Run Step (withBudget 7 .tickFrame .contract .default) _ _ :=
    (((((((((((Transition.Run.nil _).snoc (@Step.registerScope _ _ 1 .world _ rfl)).snoc
      (.createSlot rfl)).snoc (.createSlot rfl)).snoc (.bindSlot _ ⟨0, 1⟩ ⟨8⟩)).snoc
      (.bindSlot _ ⟨1, 1⟩ ⟨9⟩)).snoc
      (@Step.scheduleOneShot _ _ ⟨1, .world, 1⟩ 5 ⟨0, 1⟩ _ rfl)).snoc
      (@Step.scheduleRepeating _ _ ⟨1, .world, 1⟩ 3 2 ⟨1, 1⟩ _ rfl)).snoc
      (@Step.advance _ _ 3 _ rfl)).snoc (.drain _)).snoc
      (@Step.advance _ _ 6 _ rfl)).snoc (.drain _)
  exact ⟨_, _, run, rfl, (deliveries_exactly_once run).2.2.2.2⟩

end Runs

end TimerManager
end Timer

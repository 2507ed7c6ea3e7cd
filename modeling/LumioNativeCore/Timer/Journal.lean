import LumioNativeCore.Library.BoundedLog
import LumioNativeCore.Timer.Bounds
import LumioNativeCore.Timer.Delivery

/-! What the trace and the diagnostics of a manager hold after any run (`ids.rs`,
`manager.rs`). Both are logs with a capacity: a drain that traces writes its deliveries to
the one, an advance the firings it refuses to the other. -/
namespace Timer

open Transition BoundedLog

def FiringRecord.traceEvent (record : FiringRecord) : SliceTraceEvent :=
  .dispatched record.slotDispatchId record.dueTick

def SliceTraceEvent.dueTick : SliceTraceEvent → Nat
  | .dispatched _ dueTick => dueTick

def FiringRejection.diagnostic (rejection : FiringRejection) : TimerDiagnostic :=
  ⟨rejection.code, some rejection.dueTick, some rejection.scheduleSequence⟩

/-- What a call does to the journal. -/
inductive JournalNote where
  | traced (records : List FiringRecord)
  | diagnosed (rejections : List FiringRejection)
  | taken (diagnostics : List TimerDiagnostic)
  | cleared
  | silent

namespace JournalNote

def tracing : JournalNote → Act SliceTraceEvent
  | traced records => .write (records.map FiringRecord.traceEvent)
  | cleared => .reset
  | _ => .idle

def diagnosing : JournalNote → Act TimerDiagnostic
  | diagnosed rejections => .write (rejections.map FiringRejection.diagnostic)
  | taken _ => .take
  | _ => .idle

def taken? : JournalNote → Option (List TimerDiagnostic)
  | taken diagnostics => some diagnostics
  | _ => none

end JournalNote

/-- The deliveries that were to be traced. -/
def tracesOf (notes : List JournalNote) : Epochs SliceTraceEvent :=
  (notes.map JournalNote.tracing).foldl Epochs.act .start

/-- The firings that were refused. -/
def refusalsOf (notes : List JournalNote) : Epochs TimerDiagnostic :=
  (notes.map JournalNote.diagnosing).foldl Epochs.act .start

/-- What `take_diagnostics` has returned. -/
def takenIn (notes : List JournalNote) : List (List TimerDiagnostic) :=
  notes.filterMap JournalNote.taken?

section Readings

variable (notes : List JournalNote) (note : JournalNote)

theorem tracesOf_snoc : tracesOf (notes ++ [note]) = (tracesOf notes).act note.tracing := by
  simp [tracesOf]

theorem refusalsOf_snoc :
    refusalsOf (notes ++ [note]) = (refusalsOf notes).act note.diagnosing := by
  simp [refusalsOf]

theorem takenIn_snoc : takenIn (notes ++ [note]) = takenIn notes ++ note.taken?.toList := by
  rw [takenIn, takenIn, List.filterMap_append]
  cases hTaken : note.taken? with
  | none => simp [hTaken]
  | some diagnostics => simp [hTaken]

end Readings

namespace Journal

def traceLog (j : Journal) : BoundedLog SliceTraceEvent := ⟨j.trace.events, j.trace.dropped⟩

def diagnosticLog (j : Journal) : BoundedLog TimerDiagnostic :=
  ⟨j.diagnostics, j.diagnosticsDropped⟩

/-- `j'` is `j` with the note made in it. -/
structure Writes (capacity : Nat) (note : JournalNote) (j j' : Journal) : Prop where
  trace : j'.traceLog = note.tracing.apply Word.max64 1024 j.traceLog
  diagnostics : j'.diagnosticLog = note.diagnosing.apply Word.max64 capacity j.diagnosticLog

theorem writes_silent (capacity : Nat) (j : Journal) : j.Writes capacity .silent j := ⟨rfl, rfl⟩

/-- Tracing one more delivery. -/
theorem Writes.traced {capacity : Nat} {j j' : Journal} {record : FiringRecord}
    {records : List FiringRecord}
    (h : Writes capacity (.traced records) { j with trace := j.trace.push record.traceEvent } j') :
    Writes capacity (.traced (record :: records)) j j' := by
  refine ⟨h.trace.trans ?_, h.diagnostics⟩
  have hPush : traceLog { j with trace := j.trace.push record.traceEvent } =
      j.traceLog.push Word.max64 1024 record.traceEvent := by
    rw [traceLog, SliceTrace.push, BoundedLog.push, traceLog]
    split_ifs <;> rfl
  rw [hPush]
  rfl

/-- Diagnosing one more refusal. -/
theorem Writes.diagnosed {budget : TimerBudget} {j j' : Journal} {record : FiringRecord}
    {code : TimerError} {rejections : List FiringRejection}
    (h : Writes budget.maxDiagnostics (.diagnosed rejections) (j.diagnose budget code record) j') :
    Writes budget.maxDiagnostics (.diagnosed (record.reject code :: rejections)) j j' := by
  have hTrace : (j.diagnose budget code record).traceLog = j.traceLog := by
    rw [Journal.diagnose]
    split_ifs <;> rfl
  have hPush : (j.diagnose budget code record).diagnosticLog =
      j.diagnosticLog.push Word.max64 budget.maxDiagnostics (record.reject code).diagnostic := by
    rw [diagnosticLog, Journal.diagnose, BoundedLog.push, diagnosticLog]
    split_ifs <;> rfl
  refine ⟨?_, h.diagnostics.trans ?_⟩
  · rw [h.trace, hTrace]
    rfl
  · rw [hPush]
    rfl

end Journal

/-- The event of a call that neither advances nor drains and is named in the trace. -/
def TimerEvent.isNamed : TimerEvent → Bool
  | .other => false
  | .advanced _ => false
  | .drained _ => false
  | _ => true

namespace TimerManager

variable {m m' : TimerManager}

/-- The calls, each with what it does to the journal. -/
inductive Noted : TimerManager → TimerEvent × JournalNote → TimerManager → Prop where
  | advance {m m' : TimerManager} {toTick : Nat} {report : AdvanceReport}
      (result : m.advance toTick = .ok (report, m')) :
      Noted m (.advanced report, .diagnosed report.rejections) m'
  | drain (m : TimerManager) : Noted m (.drained m.drain.1, .traced m.drain.1.records) m.drain.2
  | drainRecords {m m' : TimerManager} {report : DrainReport}
      (result : m.drainRecords = .ok (report, m')) : Noted m (.drained report, .silent) m'
  | takeDiagnostics (m : TimerManager) :
      Noted m (.other, .taken m.diagnostics) m.takeDiagnostics
  | clearTrace (m : TimerManager) : Noted m (.other, .cleared) m.clearTrace
  | failed (m : TimerManager) : Noted m (.other, .silent) m
  | createSlot {m m' : TimerManager} {slot : CallbackSlot}
      (result : m.createSlot = .ok (slot, m')) : Noted m (.other, .silent) m'
  | registerDispatch {m m' : TimerManager} {id : DispatchId}
      (result : m.tryRegisterDispatch id = .ok m') : Noted m (.other, .silent) m'
  | removeDispatch (m : TimerManager) (id : DispatchId) :
      Noted m (.other, .silent) (m.removeDispatchBinding id)
  | bindSlot (m : TimerManager) (slot : CallbackSlot) (id : DispatchId) :
      Noted m (.other, .silent) (m.bindSlot slot id).2
  | armSlot {m m' : TimerManager} {slot : CallbackSlot} {id : DispatchId}
      (result : m.armSlot slot id = .ok m') : Noted m (.other, .silent) m'
  | registerScope {m m' : TimerManager} {id : Nat} {kind : ScopeKind} {scope : TimerScope}
      (result : m.registerScope id kind = .ok (scope, m')) : Noted m (.other, .silent) m'
  | named {m m' : TimerManager} {event : TimerEvent} (step : Step m event m')
      (hNamed : event.isNamed) : Noted m (event, .silent) m'

theorem Step.noted {event : TimerEvent} (hStep : Step m event m') :
    ∃ note, Noted m (event, note) m' := by
  cases hStep with
  | failed => exact ⟨_, .failed m⟩
  | createSlot result => exact ⟨_, .createSlot result⟩
  | registerDispatch result => exact ⟨_, .registerDispatch result⟩
  | removeDispatch id => exact ⟨_, .removeDispatch m id⟩
  | bindSlot slot id => exact ⟨_, .bindSlot m slot id⟩
  | armSlot result => exact ⟨_, .armSlot result⟩
  | closeSlot result => exact ⟨_, .named (.closeSlot result) rfl⟩
  | registerScope result => exact ⟨_, .registerScope result⟩
  | teardownScope result => exact ⟨_, .named (.teardownScope result) rfl⟩
  | destroyScope result => exact ⟨_, .named (.destroyScope result) rfl⟩
  | scheduleOneShot result => exact ⟨_, .named (.scheduleOneShot result) rfl⟩
  | scheduleRepeating result => exact ⟨_, .named (.scheduleRepeating result) rfl⟩
  | cancel result => exact ⟨_, .named (.cancel result) rfl⟩
  | advance result => exact ⟨_, .advance result⟩
  | drain => exact ⟨_, .drain m⟩
  | drainRecords result => exact ⟨_, .drainRecords result⟩
  | shutdown => exact ⟨_, .named (.shutdown m) rfl⟩
  | takeDiagnostics => exact ⟨_, .takeDiagnostics m⟩
  | clearTrace => exact ⟨_, .clearTrace m⟩

theorem Noted.step {event : TimerEvent} {note : JournalNote} (h : Noted m (event, note) m') :
    Step m event m' := by
  cases h with
  | advance result => exact .advance result
  | drain => exact .drain m
  | drainRecords result => exact .drainRecords result
  | takeDiagnostics => exact .takeDiagnostics m
  | clearTrace => exact .clearTrace m
  | failed => exact .failed m
  | createSlot result => exact .createSlot result
  | registerDispatch result => exact .registerDispatch result
  | removeDispatch id => exact .removeDispatch m id
  | bindSlot slot id => exact .bindSlot m slot id
  | armSlot result => exact .armSlot result
  | registerScope result => exact .registerScope result
  | named step => exact step

theorem noted_of_run {trace : List TimerEvent} (run : Run Step m trace m') :
    ∃ shown, shown.map Prod.fst = trace ∧ Run Noted m shown m' := by
  induction run with
  | nil => exact ⟨[], rfl, .nil _⟩
  | @snoc trace t w event hRun hStep ih =>
      obtain ⟨shown, hShown, hNoted⟩ := ih
      obtain ⟨note, hNote⟩ := hStep.noted
      refine ⟨shown ++ [(event, note)], ?_, hNoted.snoc hNote⟩
      rw [List.map_append, hShown, List.map_singleton]

theorem run_of_noted {shown : List (TimerEvent × JournalNote)} (run : Run Noted m shown m') :
    Run Step m (shown.map Prod.fst) m' := by
  induction run with
  | nil => exact .nil _
  | @snoc shown t w entry _ hNote ih =>
      rw [List.map_append, List.map_singleton]
      exact ih.snoc hNote.step

/-! What a call does to the journal. -/

theorem serveAll_writes (m : TimerManager) (records : List FiringRecord) :
    m.toJournal.Writes m.budget.maxDiagnostics (.diagnosed (m.serveAll records).1.rejections)
      (m.serveAll records).2.toJournal := by
  apply serveAll_induction (motive := fun m _ result =>
    m.toJournal.Writes m.budget.maxDiagnostics (.diagnosed result.1.rejections) result.2.toJournal)
  · exact fun m => ⟨rfl, rfl⟩
  · exact fun _ _ _ _ ih => ih
  · exact fun _ _ _ _ _ _ _ ih => ih
  · exact fun m record rest timer code _ _ ih => ih.diagnosed

theorem advance_writes {toTick : Nat} {report : AdvanceReport}
    (hResult : m.advance toTick = .ok (report, m')) :
    m.toJournal.Writes m.budget.maxDiagnostics (.diagnosed report.rejections) m'.toJournal := by
  obtain ⟨-, ⟨-, rfl, rfl⟩ | ⟨-, -, hTraversed⟩⟩ := advance_eq_ok.mp hResult
  · exact ⟨rfl, rfl⟩
  · obtain rfl : report = (m.traversed toTick).1 := congrArg Prod.fst hTraversed
    obtain rfl : m' = (m.traversed toTick).2 := congrArg Prod.snd hTraversed
    obtain ⟨r, -, hFrame⟩ := m.traversed_frame toTick
    rw [hFrame]
    exact m.serveAll_writes (m.window toTick)

/-- A turn of the drain loop writes its delivery to the trace, if the drain traces. -/
theorem deliver_writes (emitTrace : Bool) (report : DrainReport) (m : TimerManager)
    (p : Pending) :
    (deliver emitTrace (report, m) p).2.toJournal =
      match m.rejectionCode p with
      | some _ => m.toJournal
      | none => (m.traced emitTrace p.item.record).toJournal := by
  cases hCode : m.rejectionCode p with
  | some code => simp only [deliver, hCode, TimerManager.retire]
  | none =>
      rw [deliver_passed emitTrace report hCode]
      cases m.getTimer p.item.record.handle with
      | error failure => rfl
      | ok timer =>
          dsimp only
          split_ifs <;> rfl

theorem foldl_deliver_writes (report : DrainReport) (m : TimerManager) (capacity : Nat)
    (pending : List Pending) :
    m.toJournal.Writes capacity (.traced (m.reportOf pending).records)
      (pending.foldl (deliver true) (report, m)).2.toJournal := by
  induction pending generalizing report m with
  | nil => exact ⟨rfl, rfl⟩
  | cons p rest ih =>
      obtain ⟨next, hTurn, hDrained, -⟩ := deliver_spec true report m p
      have hWrites := deliver_writes true report m p
      have hRest := ih (append report (m.reportOf [p])) next
      rw [hTurn] at hWrites
      rw [hDrained.reportOf] at hRest
      rw [List.foldl_cons, hTurn, reportOf_cons]
      cases hCode : m.rejectionCode p with
      | some code =>
          have hNone : (m.reportOf [p]).records = [] := by simp [reportOf, accepted, hCode]
          simp only [hCode] at hWrites
          rw [append, hNone, List.nil_append, ← hWrites]
          exact hRest
      | none =>
          have hOne : (m.reportOf [p]).records = [p.item.record] := by
            simp [reportOf, accepted, hCode]
          simp only [hCode] at hWrites
          rw [hWrites] at hRest
          rw [append, hOne, List.singleton_append]
          exact Journal.Writes.traced hRest

theorem foldl_deliver_untraced (report : DrainReport) (m : TimerManager)
    (pending : List Pending) :
    (pending.foldl (deliver false) (report, m)).2.toJournal = m.toJournal := by
  induction pending generalizing report m with
  | nil => rfl
  | cons p rest ih =>
      have hWrites := deliver_writes false report m p
      rw [List.foldl_cons]
      refine (ih _ _).trans (hWrites.trans ?_)
      cases m.rejectionCode p <;> rfl

theorem drain_writes (m : TimerManager) (capacity : Nat) :
    m.toJournal.Writes capacity (.traced m.drain.1.records) m.drain.2.toJournal := by
  have hReport := (m.drainInternal_spec true).report
  have hLoop := foldl_deliver_writes ⟨[], [], []⟩ { m with toDesk := m.toDesk.clear } capacity
    m.drainQueue
  rw [drain, hReport]
  exact hLoop

theorem Noted.writes {event : TimerEvent} {note : JournalNote} (h : Noted m (event, note) m') :
    m.toJournal.Writes m.budget.maxDiagnostics note m'.toJournal := by
  have hSilent : m'.toJournal = m.toJournal →
      m.toJournal.Writes m.budget.maxDiagnostics .silent m'.toJournal := by
    intro hSame
    rw [hSame]
    exact Journal.writes_silent _ _
  have hRebinds : Rebinds m m' →
      m.toJournal.Writes m.budget.maxDiagnostics .silent m'.toJournal := by
    rintro ⟨d, table, -, rfl⟩
    exact Journal.writes_silent _ _
  have hSchedule : ∀ {scope due interval slot handle},
      m.schedule scope due interval slot = .ok (handle, m') → m'.toJournal = m.toJournal := by
    intro scope due interval slot handle hResult
    obtain ⟨-, -, -, dispatch, -, rfl⟩ := schedule_eq_ok hResult
    rfl
  cases h with
  | advance result => exact advance_writes result
  | drain => exact m.drain_writes _
  | drainRecords result =>
      simp only [TimerManager.drainRecords, Check.then_eq_ok, Except.ok.injEq] at result
      obtain rfl : (m.drainInternal false).2 = m' := congrArg Prod.snd result.2
      exact hSilent (foldl_deliver_untraced _ _ _)
  | takeDiagnostics => exact ⟨rfl, rfl⟩
  | clearTrace => exact ⟨rfl, rfl⟩
  | failed => exact hSilent rfl
  | createSlot result => exact hRebinds (rebinds_createSlot result)
  | registerDispatch result =>
      rw [tryRegisterDispatch_eq_ok result]
      exact Journal.writes_silent _ _
  | removeDispatch => exact hSilent rfl
  | bindSlot slot id => exact hRebinds (rebinds_bindSlot m slot id)
  | armSlot result => exact hRebinds (rebinds_armSlot result)
  | registerScope result =>
      obtain rfl | ⟨scopes, rfl, -⟩ := registerScope_eq_ok result
      · exact hSilent rfl
      · exact hSilent rfl
  | named step hNamed =>
      cases step with
      | closeSlot result =>
          obtain ⟨s, -, rfl⟩ := closeSlot_eq_ok result
          exact hSilent rfl
      | teardownScope result =>
          obtain ⟨generation, rfl⟩ := teardownScope_eq_ok result
          exact hSilent rfl
      | destroyScope result =>
          rw [destroyScope_eq_ok result]
          exact Journal.writes_silent _ _
      | scheduleOneShot result => exact hSilent (hSchedule result)
      | scheduleRepeating result =>
          simp only [TimerManager.scheduleRepeating, Check.then_eq_ok] at result
          obtain ⟨-, result⟩ := result
          split_ifs at result
          exact hSilent (hSchedule result)
      | cancel result =>
          rw [cancel_eq_ok result]
          exact Journal.writes_silent _ _
      | shutdown => exact hSilent rfl
      | _ => exact absurd hNamed (by simp [TimerEvent.isNamed])

/-! What the journal holds after a run. -/

theorem Noted.delivered {event : TimerEvent} {records : List FiringRecord}
    (h : Noted m (event, .traced records) m') : event.delivered = records := by
  cases h
  rfl

theorem Noted.taken {event : TimerEvent} {diagnostics : List TimerDiagnostic}
    (h : Noted m (event, .taken diagnostics) m') : diagnostics = m.diagnostics := by
  cases h
  rfl

/-- What is traced was delivered, in that order. -/
theorem tracesOf_sublist {shown : List (TimerEvent × JournalNote)} (run : Run Noted m shown m') :
    (tracesOf (shown.map Prod.snd)).current.Sublist
      ((deliveriesOf (shown.map Prod.fst)).map FiringRecord.traceEvent) := by
  induction run with
  | nil => exact List.Sublist.slnil
  | @snoc shown t w entry _ hNote ih =>
      obtain ⟨event, note⟩ := entry
      rw [List.map_append, List.map_append, List.map_singleton, List.map_singleton,
        tracesOf_snoc, deliveriesOf_snoc, List.map_append]
      cases note with
      | traced records =>
          rw [hNote.delivered]
          exact ih.append_right _
      | cleared => exact List.nil_sublist _
      | _ => exact ih.trans (List.sublist_append_left _ _)

theorem ticks_ascend {trace : SliceTrace} {records : List FiringRecord}
    (hSublist : trace.events.Sublist (records.map FiringRecord.traceEvent))
    (hOrdered : records.Pairwise FiringRecord.Precedes) (id : DispatchId) :
    (trace.dispatchedTicks id).Pairwise (· ≤ ·) := by
  have hTicks : (records.map FiringRecord.traceEvent).Pairwise
      fun first second => first.dueTick ≤ second.dueTick := by
    rw [List.pairwise_map]
    exact hOrdered.imp fun h => h.elim Nat.le_of_lt fun h => h.1.le
  rw [SliceTrace.dispatchedTicks, List.pairwise_filterMap]
  apply (hTicks.sublist hSublist).imp
  rintro ⟨firstId, first⟩ ⟨secondId, second⟩ hLe due hDue due' hDue'
  dsimp only at hDue hDue'
  split_ifs at hDue hDue'
  obtain rfl := Option.some.inj hDue
  obtain rfl := Option.some.inj hDue'
  exact hLe

/-- The journal after the notes of a run. -/
structure Journaled (budget : TimerBudget) (notes : List JournalNote) (m : TimerManager) :
    Prop where
  traces : Shows Word.max64 1024 (tracesOf notes) m.traceLog
  refusals : Shows Word.max64 budget.maxDiagnostics (refusalsOf notes) m.diagnosticLog
  taken : takenIn notes = (refusalsOf notes).closed.map (List.take budget.maxDiagnostics)

theorem Journaled.noted {budget : TimerBudget} {notes : List JournalNote} {event : TimerEvent}
    {note : JournalNote} (h : Journaled budget notes m) (hBudget : m.budget = budget)
    (hNote : Noted m (event, note) m') : Journaled budget (notes ++ [note]) m' := by
  have hWrites := hNote.writes
  rw [hBudget] at hWrites
  constructor
  · rw [tracesOf_snoc, hWrites.trace]
    exact h.traces.act note.tracing
  · rw [refusalsOf_snoc, hWrites.diagnostics]
    exact h.refusals.act note.diagnosing
  · rw [takenIn_snoc, refusalsOf_snoc]
    cases note with
    | taken diagnostics =>
        have hTaken : diagnostics = (refusalsOf notes).current.take budget.maxDiagnostics :=
          hNote.taken.trans h.refusals.kept
        simp only [JournalNote.taken?, JournalNote.diagnosing, Epochs.act, List.map_append,
          List.map_singleton, Option.toList_some, h.taken, hTaken]
    | _ =>
        simp only [JournalNote.taken?, JournalNote.diagnosing, Epochs.act, Option.toList_none,
          List.append_nil, h.taken]

section Runs

variable {context : Nat} {mode : TimerMode} {limits : TimerLimits} {budget : TimerBudget}

theorem journaled_of_run {shown : List (TimerEvent × JournalNote)}
    (run : Run Noted (withBudget context mode limits budget) shown m) :
    Journaled budget (shown.map Prod.snd) m := by
  induction run with
  | nil => exact ⟨shows_empty _ _, shows_empty _ _, rfl⟩
  | @snoc shown t w entry hRun hNote ih =>
      have hBounded := (bounded_withBudget context mode limits budget).run (run_of_noted hRun)
      rw [List.map_append, List.map_singleton]
      exact ih.noted hBounded.sameBudget hNote

/-- Every run has notes, and with whatever notes it has the journal is a function of what was
written to it. The trace holds the first deliveries since it was cleared, the diagnostics the first
refusals since they were taken, each take returned the first refusals of its time, and the counters
say how many had no room. The ticks at which a dispatch id was traced never go back. -/
theorem journal_exact (context : Nat) (mode : TimerMode) (limits : TimerLimits)
    (budget : TimerBudget) :
    (∀ trace m, Run Step (withBudget context mode limits budget) trace m →
      ∃ shown : List (TimerEvent × JournalNote), shown.map Prod.fst = trace ∧
        Run Noted (withBudget context mode limits budget) shown m) ∧
    ∀ (shown : List (TimerEvent × JournalNote)) (m : TimerManager),
      Run Noted (withBudget context mode limits budget) shown m →
        Journaled budget (shown.map Prod.snd) m ∧
        ∀ id, (m.trace.dispatchedTicks id).Pairwise (· ≤ ·) := by
  refine ⟨fun trace m run => noted_of_run run, fun shown m hNoted => ?_⟩
  have hJournaled := journaled_of_run hNoted
  refine ⟨hJournaled, ticks_ascend ?_ (ledger_of_run (run_of_noted hNoted)).1.ordered⟩
  have hKept : m.trace.events = (tracesOf (shown.map Prod.snd)).current.take 1024 :=
    hJournaled.traces.kept
  rw [hKept]
  exact (List.take_sublist _ _).trans (tracesOf_sublist hNoted)

end Runs

/-- Two slots and two drains, with the trace cleared in between. -/
theorem journal_exact_two :
    ∃ shown m, Run Noted (withBudget 7 .tickFrame .contract .default) shown m ∧
      m.trace.events = [.dispatched ⟨8⟩ 5, .dispatched ⟨9⟩ 5] ∧
      Journaled .default (shown.map Prod.snd) m := by
  have run : Run Noted (withBudget 7 .tickFrame .contract .default) _ _ :=
    ((((((((((((Run.nil _).snoc (@Noted.registerScope _ _ 1 .world _ rfl)).snoc
      (.createSlot rfl)).snoc (.createSlot rfl)).snoc (.bindSlot _ ⟨0, 1⟩ ⟨8⟩)).snoc
      (.bindSlot _ ⟨1, 1⟩ ⟨9⟩)).snoc
      (.named (@Step.scheduleOneShot _ _ ⟨1, .world, 1⟩ 5 ⟨0, 1⟩ _ rfl) rfl)).snoc
      (.named (@Step.scheduleRepeating _ _ ⟨1, .world, 1⟩ 3 2 ⟨1, 1⟩ _ rfl) rfl)).snoc
      (@Noted.advance _ _ 3 _ rfl)).snoc (.drain _)).snoc (.clearTrace _)).snoc
      (@Noted.advance _ _ 6 _ rfl)).snoc (.drain _)
  exact ⟨_, _, run, rfl, ((journal_exact 7 .tickFrame .contract .default).2 _ _ run).1⟩

end TimerManager
end Timer

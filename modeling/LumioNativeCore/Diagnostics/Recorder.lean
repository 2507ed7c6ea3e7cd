import LumioNativeCore.Diagnostics.Record
import LumioNativeCore.Library.Run

/-! The bounded recorder, shared by any number of threads (`queue.rs`, `recorder.rs`): a push
and the count of it are two accesses, and a drain pops one record at a time. -/
namespace Diagnostics

open Kernel Transition

/-- `MAX_RECORD_FIELDS`. -/
def maxRecordFields : Nat := 8

/-- `fetch_add(1)` on a counter. -/
def fetchAdd (counter : Nat) : Nat := (counter + 1) % 2 ^ 64

structure RecordQueue where
  records : List OwnedKernelRecord
  cap : Nat

namespace RecordQueue

def tryPush (queue : RecordQueue) (record : OwnedKernelRecord) :
    Except KernelError Unit × RecordQueue :=
  if queue.records.length < queue.cap then
    (.ok (), { queue with records := queue.records ++ [record] })
  else (.error (exceeded queue.cap (queue.cap + 1)), queue)

def tryPop (queue : RecordQueue) : Option OwnedKernelRecord × RecordQueue :=
  match queue.records with
  | [] => (none, queue)
  | record :: rest => (some record, { queue with records := rest })

end RecordQueue

inductive RecordDisposition where
  | accepted
  | droppedFull
  | droppedOversized
  deriving DecidableEq, Repr

structure RecorderCounters where
  accepted : Nat
  droppedFull : Nat
  deriving DecidableEq, Repr

/-- How far a call has come. `draining` holds the slots that are left and those that are
filled. -/
inductive RecorderCall where
  | recording (r : KernelRecordRef)
  | counting (accepted : Bool)
  | returning (disposition : RecordDisposition)
  | draining (room : Nat) (out : List OwnedKernelRecord)
  | reading
  | readAccepted (accepted : Nat)
  deriving DecidableEq, Repr

/-- A recorder with the calls in progress. -/
structure BoundedRecorder where
  queue : RecordQueue
  maxRecordBytes : Nat
  accepted : Nat
  droppedFull : Nat
  calls : List RecorderCall

inductive RecorderEvent where
  | begin
  | attempted (r : KernelRecordRef) (disposition : RecordDisposition)
  | panicked (r : KernelRecordRef)
  | counted
  | returned (disposition : RecordDisposition)
  | popped (record : OwnedKernelRecord)
  | drained (out : List OwnedKernelRecord)
  | loaded
  | counters (counters : RecorderCounters)

namespace BoundedRecorder

def withCapacity (capacity maxRecordBytes : Nat) : Except KernelError BoundedRecorder :=
  if capacity = 0 then .error (error .invalidArgument)
  else .ok ⟨⟨[], capacity⟩, maxRecordBytes, 0, 0, []⟩

/-- `try_record` up to its push: what it will return, the stage that is left and the queue. The
copy may panic instead. -/
def attempt (recorder : BoundedRecorder) (r : KernelRecordRef) :
    Option (RecordDisposition × RecorderCall × RecordQueue) :=
  (OwnedKernelRecord.tryFromRef r maxRecordFields recorder.maxRecordBytes).map fun
    | .error _ => (.droppedOversized, .returning .droppedOversized, recorder.queue)
    | .ok owned =>
        match recorder.queue.tryPush owned with
        | (.ok _, queue) => (.accepted, .counting true, queue)
        | (.error _, queue) => (.droppedFull, .counting false, queue)

/-- `try_record` after its push. -/
def count (recorder : BoundedRecorder) (accepted : Bool) : BoundedRecorder :=
  if accepted then { recorder with accepted := fetchAdd recorder.accepted }
  else { recorder with droppedFull := fetchAdd recorder.droppedFull }

def disposition (accepted : Bool) : RecordDisposition :=
  if accepted then .accepted else .droppedFull

/-- The steps of all calls. -/
inductive Step : BoundedRecorder → RecorderEvent → BoundedRecorder → Prop where
  | begin (recorder : BoundedRecorder) (call : RecorderCall)
      (hCall : (∃ r, call = .recording r) ∨ (∃ room, call = .draining room []) ∨
        call = .reading) :
      Step recorder .begin { recorder with calls := recorder.calls ++ [call] }
  | attempt {recorder : BoundedRecorder} {before after : List RecorderCall}
      {r : KernelRecordRef} {found : RecordDisposition} {stage : RecorderCall}
      {queue : RecordQueue} (hCalls : recorder.calls = before ++ .recording r :: after)
      (hAttempt : recorder.attempt r = some (found, stage, queue)) :
      Step recorder (.attempted r found)
        { recorder with
          queue := queue
          calls := before ++ stage :: after }
  | panic {recorder : BoundedRecorder} {before after : List RecorderCall}
      {r : KernelRecordRef} (hCalls : recorder.calls = before ++ .recording r :: after)
      (hPanics : recorder.attempt r = none) :
      Step recorder (.panicked r) { recorder with calls := before ++ after }
  | count {recorder : BoundedRecorder} {before after : List RecorderCall} {accepted : Bool}
      (hCalls : recorder.calls = before ++ .counting accepted :: after) :
      Step recorder .counted
        { recorder.count accepted with
          calls := before ++ .returning (disposition accepted) :: after }
  | return {recorder : BoundedRecorder} {before after : List RecorderCall}
      {disposition : RecordDisposition}
      (hCalls : recorder.calls = before ++ .returning disposition :: after) :
      Step recorder (.returned disposition) { recorder with calls := before ++ after }
  | pop {recorder : BoundedRecorder} {before after : List RecorderCall} {room : Nat}
      {out : List OwnedKernelRecord} {record : OwnedKernelRecord} {queue : RecordQueue}
      (hCalls : recorder.calls = before ++ .draining (room + 1) out :: after)
      (hPop : recorder.queue.tryPop = (some record, queue)) :
      Step recorder (.popped record)
        { recorder with
          queue := queue
          calls := before ++ .draining room (out ++ [record]) :: after }
  | drained {recorder : BoundedRecorder} {before after : List RecorderCall} {room : Nat}
      {out : List OwnedKernelRecord}
      (hCalls : recorder.calls = before ++ .draining room out :: after)
      (hEnd : room = 0 ∨ recorder.queue.tryPop.1 = none) :
      Step recorder (.drained out) { recorder with calls := before ++ after }
  | load {recorder : BoundedRecorder} {before after : List RecorderCall}
      (hCalls : recorder.calls = before ++ .reading :: after) :
      Step recorder .loaded
        { recorder with calls := before ++ .readAccepted recorder.accepted :: after }
  | counters {recorder : BoundedRecorder} {before after : List RecorderCall} {accepted : Nat}
      (hCalls : recorder.calls = before ++ .readAccepted accepted :: after) :
      Step recorder (.counters ⟨accepted, recorder.droppedFull⟩)
        { recorder with calls := before ++ after }

end BoundedRecorder

/-! Readings of a trace. -/

namespace RecorderEvent

def attempted? (disposition : RecordDisposition) : RecorderEvent → Option KernelRecordRef
  | attempted r found => if found = disposition then some r else none
  | _ => none

def popped? : RecorderEvent → Option OwnedKernelRecord
  | popped record => some record
  | _ => none

def isReturned (disposition : RecordDisposition) : RecorderEvent → Bool
  | returned found => found = disposition
  | _ => false

end RecorderEvent

/-- The records that were given this disposition, in order. -/
def attemptedIn (disposition : RecordDisposition) (trace : List RecorderEvent) :
    List KernelRecordRef :=
  trace.filterMap (RecorderEvent.attempted? disposition)

def poppedIn (trace : List RecorderEvent) : List OwnedKernelRecord :=
  trace.filterMap RecorderEvent.popped?

def returnedIn (disposition : RecordDisposition) (trace : List RecorderEvent) : Nat :=
  trace.countP (RecorderEvent.isReturned disposition)

section Readings

variable (disposition : RecordDisposition) (trace : List RecorderEvent) (event : RecorderEvent)

theorem attemptedIn_snoc : attemptedIn disposition (trace ++ [event]) =
    attemptedIn disposition trace ++ (event.attempted? disposition).toList := by
  rw [attemptedIn, attemptedIn, List.filterMap_append]
  cases hEvent : event.attempted? disposition with
  | none => simp [hEvent]
  | some r => simp [hEvent]

theorem poppedIn_snoc :
    poppedIn (trace ++ [event]) = poppedIn trace ++ event.popped?.toList := by
  rw [poppedIn, poppedIn, List.filterMap_append]
  cases hEvent : event.popped? with
  | none => simp [hEvent]
  | some record => simp [hEvent]

theorem returnedIn_snoc : returnedIn disposition (trace ++ [event]) =
    returnedIn disposition trace + if event.isReturned disposition then 1 else 0 := by
  rw [returnedIn, returnedIn, List.countP_append, List.countP_singleton]

end Readings

/-- The calls whose record was counted for this disposition but not reported. -/
def RecorderCall.owes (disposition : RecordDisposition) : RecorderCall → Bool
  | counting accepted => BoundedRecorder.disposition accepted = disposition
  | returning found => found = disposition
  | _ => false

def RecorderCall.isCounting (accepted : Bool) : RecorderCall → Bool
  | counting found => found = accepted
  | _ => false

/-- The records that a recorder takes. -/
def KernelRecordRef.Fits (r : KernelRecordRef) (maxRecordBytes : Nat) : Prop :=
  r.fields.length ≤ maxRecordFields ∧ r.size ≤ maxRecordBytes

namespace BoundedRecorder

variable {recorder recorder' : BoundedRecorder} {event : RecorderEvent}

def counter (recorder : BoundedRecorder) (accepted : Bool) : Nat :=
  if accepted then recorder.accepted else recorder.droppedFull

/-- The room left in the queue decides about a record that is not too large. -/
theorem attempt_cases (hBytes : recorder.maxRecordBytes ≤ Word.max64) (r : KernelRecordRef) :
    (¬r.Fits recorder.maxRecordBytes ∧ recorder.attempt r =
      some (.droppedOversized, .returning .droppedOversized, recorder.queue)) ∨
    (r.Fits recorder.maxRecordBytes ∧ r.fields.flatten.length > Word.maxIsize ∧
      recorder.attempt r = none) ∨
    (r.Fits recorder.maxRecordBytes ∧ recorder.queue.cap ≤ recorder.queue.records.length ∧
      recorder.attempt r = some (.droppedFull, .counting false, recorder.queue)) ∨
    (r.Fits recorder.maxRecordBytes ∧ recorder.queue.records.length < recorder.queue.cap ∧
      ∃ record : OwnedKernelRecord, record.original = r ∧
        record.fieldCount ≤ maxRecordFields ∧ record.byteLen ≤ recorder.maxRecordBytes ∧
        recorder.attempt r = some (.accepted, .counting true,
          { recorder.queue with records := recorder.queue.records ++ [record] })) := by
  rw [attempt]
  rcases OwnedKernelRecord.tryFromRef_eq r maxRecordFields hBytes with
    ⟨hFields, hCase⟩ | ⟨-, hSize, hCase⟩ | ⟨hFields, hSize, hLarge, hCase⟩ |
    ⟨hFields, hSize, -, record, hCase, hSame, hCount, hLength⟩
  · rw [hCase]
    exact Or.inl ⟨fun hFits => Nat.not_lt.mpr hFits.1 hFields, rfl⟩
  · rw [hCase]
    exact Or.inl ⟨fun hFits => Nat.not_lt.mpr hFits.2 hSize, rfl⟩
  · rw [hCase]
    exact Or.inr (Or.inl ⟨⟨hFields, hSize⟩, hLarge, rfl⟩)
  · rw [hCase]
    refine Or.inr (Or.inr ?_)
    simp only [Option.map_some, RecordQueue.tryPush]
    split_ifs with hRoom
    · exact Or.inr ⟨⟨hFields, hSize⟩, hRoom, record, hSame, hCount ▸ hFields, hLength ▸ hSize, rfl⟩
    · exact Or.inl ⟨⟨hFields, hSize⟩, Nat.le_of_not_lt hRoom, rfl⟩

theorem tryPop_eq_some {queue queue' : RecordQueue} {record : OwnedKernelRecord}
    (h : queue.tryPop = (some record, queue')) :
    queue.records = record :: queue'.records ∧ queue'.cap = queue.cap := by
  rw [RecordQueue.tryPop] at h
  cases hRecords : queue.records with
  | nil =>
      rw [hRecords] at h
      cases h
  | cons first rest =>
      rw [hRecords] at h
      cases h
      exact ⟨rfl, rfl⟩

/-- The stage that an attempt leaves says what the attempt came to. -/
theorem attempt_stage {r : KernelRecordRef} {found : RecordDisposition} {stage : RecorderCall}
    {queue : RecordQueue} (h : recorder.attempt r = some (found, stage, queue)) :
    (found = .droppedOversized ∧ stage = .returning .droppedOversized) ∨
      (found = .accepted ∧ stage = .counting true) ∨
      (found = .droppedFull ∧ stage = .counting false) := by
  rw [attempt, Option.map_eq_some_iff] at h
  obtain ⟨copied, -, hFound⟩ := h
  cases copied with
  | error failure =>
      cases hFound
      exact Or.inl ⟨rfl, rfl⟩
  | ok owned =>
      simp only [RecordQueue.tryPush] at hFound
      split_ifs at hFound
      · cases hFound
        exact Or.inr (Or.inl ⟨rfl, rfl⟩)
      · cases hFound
        exact Or.inr (Or.inr ⟨rfl, rfl⟩)

/-- What the stage that an attempt leaves owes is what the attempt came to. -/
theorem attempt_owes {r : KernelRecordRef} {found : RecordDisposition} {stage : RecorderCall}
    {queue : RecordQueue} (h : recorder.attempt r = some (found, stage, queue))
    (disposition : RecordDisposition) : stage.owes disposition = decide (found = disposition) := by
  rcases attempt_stage h with ⟨rfl, rfl⟩ | ⟨rfl, rfl⟩ | ⟨rfl, rfl⟩
  · rfl
  · rfl
  · rfl

/-- A disposition is owed from the attempt to the return. -/
theorem Step.owes (hStep : Step recorder event recorder') (disposition : RecordDisposition) :
    recorder'.calls.countP (RecorderCall.owes disposition) +
        (if event.isReturned disposition then 1 else 0) =
      recorder.calls.countP (RecorderCall.owes disposition) +
        (event.attempted? disposition).toList.length := by
  cases hStep with
  | begin call hCall =>
      have hNone : call.owes disposition = false := by
        rcases hCall with ⟨r, rfl⟩ | ⟨room, rfl⟩ | rfl <;> rfl
      simp [hNone, RecorderEvent.isReturned, RecorderEvent.attempted?]
  | @attempt before after r found stage queue hCalls hAttempt =>
      rw [hCalls, List.countP_append, List.countP_append, List.countP_cons, List.countP_cons,
        attempt_owes hAttempt]
      by_cases hSame : found = disposition
      · simp [hSame, RecorderCall.owes, RecorderEvent.isReturned, RecorderEvent.attempted?]
        omega
      · simp [hSame, RecorderCall.owes, RecorderEvent.isReturned, RecorderEvent.attempted?]
  | count hCalls =>
      simp [hCalls, RecorderCall.owes, RecorderEvent.isReturned, RecorderEvent.attempted?,
        List.countP_cons]
  | «return» hCalls =>
      simp [hCalls, RecorderCall.owes, RecorderEvent.isReturned, RecorderEvent.attempted?,
        List.countP_cons]
      omega
  | _ hCalls =>
      simp [hCalls, RecorderCall.owes, RecorderEvent.isReturned, RecorderEvent.attempted?]

theorem attempt_counting {r : KernelRecordRef} {found : RecordDisposition} {stage : RecorderCall}
    {queue : RecordQueue} (h : recorder.attempt r = some (found, stage, queue)) (accepted : Bool) :
    stage.isCounting accepted = decide (found = disposition accepted) := by
  rcases attempt_stage h with ⟨rfl, rfl⟩ | ⟨rfl, rfl⟩ | ⟨rfl, rfl⟩
  · cases accepted <;> rfl
  · cases accepted <;> rfl
  · cases accepted <;> rfl

theorem counter_count (recorder : BoundedRecorder) (accepted found : Bool) :
    (recorder.count found).counter accepted =
      if found = accepted then fetchAdd (recorder.counter accepted)
      else recorder.counter accepted := by
  cases accepted <;> cases found <;> rfl

/-- A counter lags behind by the calls that have not counted yet. -/
theorem Step.counter (hStep : Step recorder event recorder') (accepted : Bool)
    (h : recorder.counter accepted < 2 ^ 64) :
    recorder'.counter accepted < 2 ^ 64 ∧
      (recorder'.counter accepted +
          recorder'.calls.countP (RecorderCall.isCounting accepted)) % 2 ^ 64 =
        (recorder.counter accepted + recorder.calls.countP (RecorderCall.isCounting accepted) +
          (event.attempted? (disposition accepted)).toList.length) % 2 ^ 64 := by
  cases hStep with
  | begin call hCall =>
      have hNone : call.isCounting accepted = false := by
        rcases hCall with ⟨r, rfl⟩ | ⟨room, rfl⟩ | rfl <;> rfl
      refine ⟨h, ?_⟩
      simp [hNone, RecorderEvent.attempted?, BoundedRecorder.counter]
  | @attempt before after r found stage queue hCalls hAttempt =>
      refine ⟨h, ?_⟩
      rw [hCalls, List.countP_append, List.countP_append, List.countP_cons, List.countP_cons,
        attempt_counting hAttempt]
      by_cases hSame : found = disposition accepted
      · simp [hSame, RecorderCall.isCounting, RecorderEvent.attempted?, BoundedRecorder.counter,
          Nat.add_assoc]
      · simp [hSame, RecorderCall.isCounting, RecorderEvent.attempted?, BoundedRecorder.counter]
  | @count before after found hCalls =>
      show (recorder.count found).counter accepted < _ ∧
        ((recorder.count found).counter accepted + List.countP _ _) % _ = _
      rw [counter_count, hCalls, List.countP_append, List.countP_append, List.countP_cons,
        List.countP_cons]
      by_cases hSame : found = accepted
      · subst hSame
        refine ⟨by simpa [fetchAdd] using Nat.mod_lt _ (by decide), ?_⟩
        rw [if_pos rfl, fetchAdd, Nat.mod_add_mod]
        simp [RecorderCall.isCounting, RecorderEvent.attempted?]
        omega
      · rw [if_neg hSame]
        exact ⟨h, by simp [hSame, RecorderCall.isCounting, RecorderEvent.attempted?]⟩
  | _ hCalls =>
      refine ⟨h, ?_⟩
      simp [hCalls, RecorderCall.isCounting, RecorderEvent.attempted?, BoundedRecorder.counter]

/-- What is pushed comes out in order, and a push finds room. -/
theorem Step.queue (hStep : Step recorder event recorder')
    (hBytes : recorder.maxRecordBytes ≤ Word.max64) :
    recorder.queue.records.map OwnedKernelRecord.original ++
        (event.attempted? .accepted).toList =
      (event.popped?.toList ++ recorder'.queue.records).map OwnedKernelRecord.original := by
  cases hStep with
  | @attempt before after r found stage queue hCalls hAttempt =>
      rcases attempt_cases hBytes r with ⟨-, hCase⟩ | ⟨-, -, hCase⟩ | ⟨-, -, hCase⟩ |
        ⟨-, -, record, hSame, -, -, hCase⟩
      · cases hAttempt.symm.trans hCase
        simp [RecorderEvent.attempted?, RecorderEvent.popped?]
      · cases hAttempt.symm.trans hCase
      · cases hAttempt.symm.trans hCase
        simp [RecorderEvent.attempted?, RecorderEvent.popped?]
      · cases hAttempt.symm.trans hCase
        simp [RecorderEvent.attempted?, RecorderEvent.popped?, hSame]
  | pop hCalls hPop =>
      simp [(tryPop_eq_some hPop).1, RecorderEvent.attempted?, RecorderEvent.popped?]
  | count => 
      rename_i found _
      cases found <;> simp [BoundedRecorder.count, RecorderEvent.attempted?, RecorderEvent.popped?]
  | _ => simp [RecorderEvent.attempted?, RecorderEvent.popped?]

/-- The records that wait are within the limits of the recorder. -/
structure Bounded (recorder : BoundedRecorder) : Prop where
  bytes : recorder.maxRecordBytes ≤ Word.max64
  room : recorder.queue.records.length ≤ recorder.queue.cap
  small : ∀ record ∈ recorder.queue.records, record.fieldCount ≤ maxRecordFields ∧
    record.byteLen ≤ recorder.maxRecordBytes

theorem Step.config (hStep : Step recorder event recorder') (h : recorder.Bounded) :
    recorder'.maxRecordBytes = recorder.maxRecordBytes ∧
      recorder'.queue.cap = recorder.queue.cap := by
  cases hStep with
  | @attempt before after r found stage queue hCalls hAttempt =>
      refine ⟨rfl, ?_⟩
      rcases attempt_cases h.bytes r with ⟨-, hCase⟩ | ⟨-, -, hCase⟩ | ⟨-, -, hCase⟩ |
        ⟨-, -, record, -, -, -, hCase⟩
      · cases hAttempt.symm.trans hCase
        rfl
      · cases hAttempt.symm.trans hCase
      · cases hAttempt.symm.trans hCase
        rfl
      · cases hAttempt.symm.trans hCase
        rfl
  | @count before after found hCalls =>
      cases found with
      | true => exact ⟨rfl, rfl⟩
      | false => exact ⟨rfl, rfl⟩
  | pop hCalls hPop => exact ⟨rfl, (tryPop_eq_some hPop).2⟩
  | _ => exact ⟨rfl, rfl⟩

/-- What is popped was within the limits, and what waits still is. -/
theorem Step.bounded (hStep : Step recorder event recorder') (h : recorder.Bounded) :
    recorder'.Bounded ∧ ∀ record, event.popped? = some record →
      record.fieldCount ≤ maxRecordFields ∧ record.byteLen ≤ recorder.maxRecordBytes := by
  cases hStep with
  | @attempt before after r found stage queue hCalls hAttempt =>
      refine ⟨?_, nofun⟩
      rcases attempt_cases h.bytes r with ⟨-, hCase⟩ | ⟨-, -, hCase⟩ | ⟨-, -, hCase⟩ |
        ⟨-, hRoom, record, -, hCount, hLength, hCase⟩
      · cases hAttempt.symm.trans hCase
        exact ⟨h.bytes, h.room, h.small⟩
      · cases hAttempt.symm.trans hCase
      · cases hAttempt.symm.trans hCase
        exact ⟨h.bytes, h.room, h.small⟩
      · cases hAttempt.symm.trans hCase
        refine ⟨h.bytes, ?_, List.forall_mem_append.mpr ⟨h.small, ?_⟩⟩
        · rw [List.length_append]
          exact hRoom
        · exact List.forall_mem_singleton.mpr ⟨hCount, hLength⟩
  | @count before after found hCalls =>
      refine ⟨?_, nofun⟩
      cases found with
      | true => exact ⟨h.bytes, h.room, h.small⟩
      | false => exact ⟨h.bytes, h.room, h.small⟩
  | pop hCalls hPop =>
      obtain ⟨hRecords, hCap⟩ := tryPop_eq_some hPop
      have hRoom := h.room
      have hSmall := h.small
      rw [hRecords] at hRoom hSmall
      obtain ⟨hFirst, hRest⟩ := List.forall_mem_cons.mp hSmall
      refine ⟨⟨h.bytes, ?_, hRest⟩, fun other hOther => ?_⟩
      · exact hCap ▸ Nat.le_of_succ_le hRoom
      · cases hOther
        exact hFirst
  | _ => exact ⟨⟨h.bytes, h.room, h.small⟩, nofun⟩

/-- What a trace says is what the recorder holds, counts and still owes. -/
structure Exact (trace : List RecorderEvent) (recorder : BoundedRecorder) : Prop where
  bounded : recorder.Bounded
  queued : attemptedIn .accepted trace =
    (poppedIn trace ++ recorder.queue.records).map OwnedKernelRecord.original
  popped : ∀ record ∈ poppedIn trace, record.fieldCount ≤ maxRecordFields ∧
    record.byteLen ≤ recorder.maxRecordBytes
  wraps : ∀ accepted, recorder.counter accepted < 2 ^ 64
  counted : ∀ accepted, (recorder.counter accepted +
    recorder.calls.countP (RecorderCall.isCounting accepted)) % 2 ^ 64 =
      (attemptedIn (disposition accepted) trace).length % 2 ^ 64
  reported : ∀ disposition, returnedIn disposition trace +
    recorder.calls.countP (RecorderCall.owes disposition) =
      (attemptedIn disposition trace).length

theorem Exact.step {trace : List RecorderEvent} (h : Exact trace recorder)
    (hStep : Step recorder event recorder') : Exact (trace ++ [event]) recorder' := by
  obtain ⟨hBounded, hPopped⟩ := hStep.bounded h.bounded
  refine ⟨hBounded, ?_, ?_, ?_, ?_, ?_⟩
  · rw [attemptedIn_snoc, poppedIn_snoc, h.queued, List.map_append, List.append_assoc,
      hStep.queue h.bounded.bytes, ← List.map_append, List.append_assoc]
  · rw [poppedIn_snoc, (hStep.config h.bounded).1]
    refine List.forall_mem_append.mpr ⟨h.popped, fun record hMem => ?_⟩
    exact hPopped record (Option.mem_toList.mp hMem)
  · exact fun accepted => (hStep.counter accepted (h.wraps accepted)).1
  · intro accepted
    rw [(hStep.counter accepted (h.wraps accepted)).2, attemptedIn_snoc, List.length_append,
      Nat.add_mod, h.counted accepted, ← Nat.add_mod]
  · intro disposition
    have hOwes := hStep.owes disposition
    have hReported := h.reported disposition
    rw [returnedIn_snoc, attemptedIn_snoc, List.length_append]
    omega

theorem exact_of_run {capacity maxRecordBytes : Nat} (hBytes : maxRecordBytes ≤ Word.max64)
    {trace : List RecorderEvent}
    (run : Run Step ⟨⟨[], capacity⟩, maxRecordBytes, 0, 0, []⟩ trace recorder) :
    Exact trace recorder := by
  refine run.invariant Exact ?_ fun _ _ _ _ h hStep => h.step hStep
  refine ⟨⟨hBytes, Nat.zero_le _, fun _ hMem => absurd hMem List.not_mem_nil⟩, rfl,
    fun _ hMem => absurd hMem List.not_mem_nil, ?_, ?_, ?_⟩
  · intro accepted
    cases accepted <;> exact Nat.two_pow_pos 64
  · intro accepted
    cases accepted <;> rfl
  · exact fun _ => rfl

theorem config_of_run {capacity maxRecordBytes : Nat} (hBytes : maxRecordBytes ≤ Word.max64)
    {trace : List RecorderEvent}
    (run : Run Step ⟨⟨[], capacity⟩, maxRecordBytes, 0, 0, []⟩ trace recorder) :
    recorder.maxRecordBytes = maxRecordBytes ∧ recorder.queue.cap = capacity := by
  have hStart : Bounded ⟨⟨[], capacity⟩, maxRecordBytes, 0, 0, []⟩ :=
    (exact_of_run hBytes (Run.nil _)).bounded
  refine (run.preserves (fun recorder => recorder.Bounded ∧
    recorder.maxRecordBytes = maxRecordBytes ∧ recorder.queue.cap = capacity) ?_
    ⟨hStart, rfl, rfl⟩).2
  intro recorder event next ⟨hBounded, hSame, hCap⟩ hStep
  obtain ⟨hSame', hCap'⟩ := hStep.config hBounded
  exact ⟨(hStep.bounded hBounded).1, hSame'.trans hSame, hCap'.trans hCap⟩

/-- What an attempt comes to, from the queue it finds. -/
theorem Step.attempted {r : KernelRecordRef} {found : RecordDisposition}
    (h : recorder.Bounded) (hStep : Step recorder (.attempted r found) recorder') :
    (found = .droppedOversized ↔ ¬r.Fits recorder.maxRecordBytes) ∧
      (found = .droppedFull → recorder.queue.records.length = recorder.queue.cap) := by
  generalize hEvent : RecorderEvent.attempted r found = event at hStep
  cases hStep with
  | @attempt before after other disposition stage queue hCalls hAttempt =>
      obtain ⟨rfl, rfl⟩ := RecorderEvent.attempted.inj hEvent
      rcases attempt_cases h.bytes r with ⟨hFits, hCase⟩ | ⟨-, -, hCase⟩ | ⟨hFits, hFull, hCase⟩ |
        ⟨hFits, -, record, -, -, -, hCase⟩
      · cases hAttempt.symm.trans hCase
        exact ⟨iff_of_true rfl hFits, nofun⟩
      · cases hAttempt.symm.trans hCase
      · cases hAttempt.symm.trans hCase
        exact ⟨iff_of_false nofun (not_not.mpr hFits), fun _ => Nat.le_antisymm h.room hFull⟩
      · cases hAttempt.symm.trans hCase
        exact ⟨iff_of_false nofun (not_not.mpr hFits), nofun⟩
  | _ => cases hEvent

/-- Only a record that would be taken panics. -/
theorem Step.panicked {r : KernelRecordRef} (h : recorder.Bounded)
    (hStep : Step recorder (.panicked r) recorder') :
    r.Fits recorder.maxRecordBytes ∧ r.fields.flatten.length > Word.maxIsize := by
  generalize hEvent : RecorderEvent.panicked r = event at hStep
  cases hStep with
  | panic hCalls hPanics =>
      obtain rfl := RecorderEvent.panicked.inj hEvent
      rcases attempt_cases h.bytes r with ⟨-, hCase⟩ | ⟨hFits, hLarge, -⟩ | ⟨-, -, hCase⟩ |
        ⟨-, -, record, -, -, -, hCase⟩
      · cases hPanics.symm.trans hCase
      · exact ⟨hFits, hLarge⟩
      · cases hPanics.symm.trans hCase
      · cases hPanics.symm.trans hCase
  | _ => cases hEvent

/-- Whatever producers, drains and readers of the counters do in whatever order: the accepted
records come out exactly as they went in, in order and once, never more than the capacity
wait, a record is dropped only for its size or because the queue is full, a call panics only on
fields that no allocation can have, and between calls the counters are the numbers of records that
producers were told of. -/
theorem recorder_exact {capacity maxRecordBytes : Nat} (hBytes : maxRecordBytes ≤ Word.max64)
    {created : BoundedRecorder} (hCreated : withCapacity capacity maxRecordBytes = .ok created)
    {trace : List RecorderEvent} (run : Run Step created trace recorder) :
    attemptedIn .accepted trace =
      (poppedIn trace ++ recorder.queue.records).map OwnedKernelRecord.original ∧
    recorder.queue.records.length ≤ capacity ∧
    (∀ record ∈ poppedIn trace, record.fieldCount ≤ maxRecordFields ∧
      record.byteLen ≤ maxRecordBytes) ∧
    (∀ before r disposition after, trace = before ++ .attempted r disposition :: after →
      (disposition = .droppedOversized ↔ ¬r.Fits maxRecordBytes) ∧
      (disposition = .droppedFull →
        (attemptedIn .accepted before).length = (poppedIn before).length + capacity)) ∧
    (∀ before r after, trace = before ++ .panicked r :: after →
      r.Fits maxRecordBytes ∧ r.fields.flatten.length > Word.maxIsize) ∧
    (recorder.calls = [] →
      recorder.accepted = returnedIn .accepted trace % 2 ^ 64 ∧
      recorder.droppedFull = returnedIn .droppedFull trace % 2 ^ 64 ∧
      ∀ disposition, returnedIn disposition trace = (attemptedIn disposition trace).length) := by
  obtain rfl : created = ⟨⟨[], capacity⟩, maxRecordBytes, 0, 0, []⟩ := by
    rw [withCapacity] at hCreated
    split_ifs at hCreated
    exact (Except.ok.inj hCreated).symm
  have hExact := exact_of_run hBytes run
  obtain ⟨hSame, hCap⟩ := config_of_run hBytes run
  refine ⟨hExact.queued, hCap ▸ hExact.bounded.room, hSame ▸ hExact.popped, ?_, ?_,
    fun hQuiet => ?_⟩
  · rintro before r disposition after rfl
    obtain ⟨first, second, hBefore, hStep, -⟩ := run.at
    have hFirst := exact_of_run hBytes hBefore
    obtain ⟨hSize, hRoom⟩ := config_of_run hBytes hBefore
    have hQueued := congrArg List.length hFirst.queued
    rw [List.length_map, List.length_append] at hQueued
    obtain ⟨hOversized, hFull⟩ := hStep.attempted hFirst.bounded
    refine ⟨hSize ▸ hOversized, fun hDropped => ?_⟩
    rw [hQueued, hFull hDropped, hRoom]
  · rintro before r after rfl
    obtain ⟨first, second, hBefore, hStep, -⟩ := run.at
    rw [← (config_of_run hBytes hBefore).1]
    exact hStep.panicked (exact_of_run hBytes hBefore).bounded
  · have hReported := hExact.reported
    have hAccepted := hExact.counted true
    have hDropped := hExact.counted false
    simp only [hQuiet, List.countP_nil, Nat.add_zero] at hReported hAccepted hDropped
    refine ⟨?_, ?_, hReported⟩
    · rw [hReported]
      exact (Nat.mod_eq_of_lt (hExact.wraps true)).symm.trans hAccepted
    · rw [hReported]
      exact (Nat.mod_eq_of_lt (hExact.wraps false)).symm.trans hDropped

/-- Two records meet a queue with room for one. -/
theorem recorder_exact_two :
    ∃ created recorder trace, withCapacity 1 32 = .ok created ∧ Run Step created trace recorder ∧
      recorder.accepted = 1 ∧ recorder.droppedFull = 1 ∧ recorder.queue.records.length = 1 := by
  have hCalled := Run.snoc (Run.snoc (Run.nil (⟨⟨[], 1⟩, 32, 0, 0, []⟩ : BoundedRecorder))
    (Step.begin _ (.recording ⟨[[1]], [2]⟩) (Or.inl ⟨_, rfl⟩)))
    (Step.begin _ (.recording ⟨[[3]], []⟩) (Or.inl ⟨_, rfl⟩))
  have hAttempted := Run.snoc (Run.snoc hCalled (@Step.attempt _ [] [_] _ _ _ _ rfl rfl))
    (@Step.attempt _ [_] [] _ _ _ _ rfl rfl)
  have hCounted := Run.snoc (Run.snoc hAttempted (@Step.count _ [] [_] true rfl))
    (@Step.count _ [_] [] false rfl)
  have hReturned := Run.snoc (Run.snoc hCounted (@Step.return _ [] [_] _ rfl))
    (@Step.return _ [] [] _ rfl)
  have hCreated : withCapacity 1 32 = .ok ⟨⟨[], 1⟩, 32, 0, 0, []⟩ := rfl
  obtain ⟨-, hRoom, -, -, -, hQuiet⟩ := recorder_exact (by decide) hCreated hReturned
  obtain ⟨hAccepted, hDropped, -⟩ := hQuiet rfl
  exact ⟨_, _, _, hCreated, hReturned, hAccepted, hDropped, Nat.le_antisymm hRoom Nat.one_pos⟩

end BoundedRecorder
end Diagnostics

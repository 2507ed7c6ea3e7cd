import LumioNativeCore.Job.Worker
import LumioNativeCore.Library.Buffer
import LumioNativeCore.Library.Machine

/-! The standalone completion buffer (`completion.rs`): active leases and a window of recent
releases in bounded space, and a high-water mark that outlives both. -/
namespace Job

open Kernel

/-- A lease says whether its completion was drained. -/
structure BatchState where
  queue : List JobCompletion
  leases : Table JobId Bool
  released : List JobId
  highWater : Option Nat

structure CompletionBatch where
  capacity : Nat
  state : BatchState

namespace CompletionBatch

def withCapacity (capacity : Nat) : CompletionBatch := ⟨capacity, [], .empty, [], none⟩

def publish (batch : CompletionBatch) (completion : JobCompletion) :
    Except KernelError Unit × CompletionBatch :=
  let state := batch.state
  if !completion.state.isTerminal || state.highWater.any (completion.id ≤ ·) then
    (.error (error .invalidArgument), batch)
  else if state.leases.size ≥ batch.capacity then (.error (error .capacityExceeded), batch)
  else (.ok (), { batch with state := { state with
    queue := state.queue ++ [completion]
    leases := state.leases.put completion.id false
    highWater := some completion.id } })

/-- The completions of the front of the queue go to the front of `out`. -/
def drain (batch : CompletionBatch) (out : List JobCompletion) :
    (Except KernelError Nat × List JobCompletion) × CompletionBatch :=
  let state := batch.state
  let count := min out.length state.queue.length
  let drained := state.queue.take count
  ((.ok count, Buffer.overwrite out drained), { batch with state := { state with
    queue := state.queue.drop count
    leases := drained.foldl (fun leases slot => leases.modify slot.id fun _ => true)
      state.leases } })

def release (batch : CompletionBatch) (id : JobId) : Except KernelError Unit × CompletionBatch :=
  let state := batch.state
  match state.leases.get id with
  | some true =>
      (.ok (), { batch with state := { state with
        leases := state.leases.erase id
        released := Buffer.push state.released batch.capacity id } })
  | some false => (.error (error .invalidArgument), batch)
  | none =>
      if id ∈ state.released then (.error (error .alreadyReleased), batch)
      else (.error (error .invalidHandle), batch)

end CompletionBatch

/-! Calls and their history. -/

inductive BatchCall where
  | publish (completion : JobCompletion)
  | drain (out : List JobCompletion)
  | release (id : JobId)

/-- What a call returns, and leaves in its output buffer. -/
inductive BatchAnswer where
  | published (result : Except KernelError Unit)
  | drained (result : Except KernelError Nat) (out : List JobCompletion)
  | released (result : Except KernelError Unit)

def CompletionBatch.answer (batch : CompletionBatch) : BatchCall → BatchAnswer × CompletionBatch
  | .publish completion =>
      let (result, next) := batch.publish completion
      (.published result, next)
  | .drain out =>
      let ((result, out), next) := batch.drain out
      (.drained result out, next)
  | .release id =>
      let (result, next) := batch.release id
      (.released result, next)

/-- What has been published, drained and released with success, in order. -/
structure History where
  published : List JobCompletion
  drained : List JobCompletion
  released : List JobId

namespace History

def empty : History := ⟨[], [], []⟩

def record (history : History) : BatchCall × BatchAnswer → History
  | (.publish completion, .published (.ok _)) =>
      { history with published := history.published ++ [completion] }
  | (_, .drained (.ok count) out) =>
      { history with drained := history.drained ++ out.take count }
  | (.release id, .released (.ok _)) => { history with released := history.released ++ [id] }
  | _ => history

/-- The ids that are published and not released. -/
def unreleased (history : History) : List JobId :=
  (history.published.map JobCompletion.id).filter (· ∉ history.released)

end History

/-! What the state knows of the history. -/

structure Reflects (batch : CompletionBatch) (history : History) : Prop where
  split : history.published = history.drained ++ batch.state.queue
  increasing : (history.published.map JobCompletion.id).Pairwise (· < ·)
  highWater : batch.state.highWater = (history.published.map JobCompletion.id).getLast?
  leases : ∀ id flag, batch.state.leases.get id = some flag ↔ id ∈ history.unreleased ∧
    flag = decide (id ∈ history.drained.map JobCompletion.id)
  window : batch.state.released = history.released.rtake batch.capacity
  nodup : history.released.Nodup
  drained : ∀ id ∈ history.released, id ∈ history.drained.map JobCompletion.id
  room : batch.state.leases.size ≤ batch.capacity

theorem History.mem_unreleased {history : History} {id : JobId} :
    id ∈ history.unreleased ↔
      id ∈ history.published.map JobCompletion.id ∧ id ∉ history.released := by
  rw [unreleased, List.mem_filter, decide_eq_true_eq]

namespace Reflects

variable {batch : CompletionBatch} {history : History} (h : Reflects batch history)
include h

theorem size_leases : batch.state.leases.size = history.unreleased.length := by
  have hKeys : batch.state.leases.keys.Perm history.unreleased := by
    have hNodup : history.unreleased.Nodup :=
      (h.increasing.imp ne_of_lt).sublist List.filter_sublist
    have hKeysNodup : batch.state.leases.keys.Nodup := batch.state.leases.distinct
    rw [List.perm_ext_iff_of_nodup hKeysNodup hNodup]
    intro id
    rw [← not_iff_not, ← Table.get_eq_none]
    constructor
    · intro hNone hUnreleased
      rw [(h.leases id _).mpr ⟨hUnreleased, rfl⟩] at hNone
      cases hNone
    · intro hAbsent
      cases hLease : batch.state.leases.get id with
      | none => rfl
      | some flag => exact absurd ((h.leases id flag).mp hLease).1 hAbsent
  rw [← hKeys.length_eq, Table.keys, List.length_map, Table.size]

/-- The newest id is the largest. -/
theorem highWater_any (id : JobId) : batch.state.highWater.any (id ≤ ·) = true ↔
    ∃ published ∈ history.published, id ≤ published.id := by
  have hIncreasing := h.increasing
  rw [h.highWater]
  rcases List.eq_nil_or_concat history.published with hNil | ⟨front, last, hLast⟩
  · rw [hNil]
    simp
  · rw [List.concat_eq_append] at hLast
    rw [hLast, List.map_append, List.map_singleton, List.pairwise_append] at hIncreasing
    rw [hLast, List.map_append, List.map_singleton, List.getLast?_append_of_ne_nil _ (by simp)]
    simp only [List.getLast?_singleton, Option.any_some, decide_eq_true_eq]
    constructor
    · intro hId
      exact ⟨last, by simp, hId⟩
    · rintro ⟨published, hMem, hId⟩
      rcases List.mem_append.mp hMem with hFront | hLast
      · have hLess := hIncreasing.2.2 published.id (List.mem_map_of_mem hFront) last.id (by simp)
        exact hId.trans hLess.le
      · rwa [List.mem_singleton.mp hLast] at hId

theorem drained_published {id : JobId} (hId : id ∈ history.drained.map JobCompletion.id) :
    id ∈ history.published.map JobCompletion.id := by
  rw [h.split, List.map_append]
  exact List.mem_append_left _ hId

/-! Publication. -/

/-- A publication that is not refused as illegal. -/
theorem publish_eq (completion : JobCompletion) : batch.publish completion =
    if completion.state.isTerminal = false ∨
        ∃ published ∈ history.published, completion.id ≤ published.id then
      (.error (error .invalidArgument), batch)
    else if history.unreleased.length ≥ batch.capacity then
      (.error (error .capacityExceeded), batch)
    else (.ok (), { batch with state := { batch.state with
      queue := batch.state.queue ++ [completion]
      leases := batch.state.leases.put completion.id false
      highWater := some completion.id } }) := by
  rw [CompletionBatch.publish, h.size_leases]
  simp only [Bool.or_eq_true, Bool.not_eq_true', h.highWater_any]

theorem publish (completion : JobCompletion)
    (hLegal : ¬(completion.state.isTerminal = false ∨
      ∃ published ∈ history.published, completion.id ≤ published.id))
    (hRoom : ¬history.unreleased.length ≥ batch.capacity) :
    Reflects { batch with state := { batch.state with
        queue := batch.state.queue ++ [completion]
        leases := batch.state.leases.put completion.id false
        highWater := some completion.id } }
      { history with published := history.published ++ [completion] } := by
  rw [not_or] at hLegal
  have hNewer : ∀ id ∈ history.published.map JobCompletion.id, id < completion.id := by
    intro id hId
    obtain ⟨published, hMem, rfl⟩ := List.mem_map.mp hId
    exact not_le.mp fun hLe => hLegal.2 ⟨published, hMem, hLe⟩
  have hNew : completion.id ∉ history.published.map JobCompletion.id :=
    fun hMem => lt_irrefl _ (hNewer _ hMem)
  have hUndrained : completion.id ∉ history.drained.map JobCompletion.id :=
    fun hMem => hNew (h.drained_published hMem)
  have hUnreleased : completion.id ∉ history.released :=
    fun hMem => hUndrained (h.drained _ hMem)
  have hAbsent : batch.state.leases.get completion.id = none := by
    cases hLease : batch.state.leases.get completion.id with
    | none => rfl
    | some flag =>
        have hMem := History.mem_unreleased.mp ((h.leases _ _).mp hLease).1
        exact absurd hMem.1 hNew
  refine ⟨?_, ?_, ?_, ?_, h.window, h.nodup, h.drained, ?_⟩
  · show history.published ++ [completion] = history.drained ++ (batch.state.queue ++ [completion])
    rw [h.split, List.append_assoc]
  · rw [List.map_append, List.map_singleton, List.pairwise_append]
    refine ⟨h.increasing, List.pairwise_singleton _ _, fun id hId last hLast => ?_⟩
    rw [List.mem_singleton.mp hLast]
    exact hNewer id hId
  · rw [List.map_append, List.getLast?_append_of_ne_nil _ (by simp)]
    rfl
  · intro id flag
    rw [Table.get_put, History.mem_unreleased, List.map_append, List.map_singleton]
    by_cases hId : id = completion.id
    · subst hId
      simp [hUndrained, hUnreleased, eq_comm]
    · rw [if_neg hId, h.leases, History.mem_unreleased]
      simp [hId]
  · show (batch.state.leases.put _ _).size ≤ _
    rw [Table.put_absent hAbsent, Table.size_insert, h.size_leases]
    exact Nat.lt_of_not_le hRoom

/-! Draining. -/

omit h in
theorem get_mark (drained : List JobCompletion) (leases : Table JobId Bool) (id : JobId) :
    (drained.foldl (fun leases slot => leases.modify slot.id fun _ => true) leases).get id =
      (leases.get id).map fun flag => flag || decide (id ∈ drained.map JobCompletion.id) := by
  induction drained generalizing leases with
  | nil => simp
  | cons slot rest ih =>
      rw [List.foldl_cons, ih, Table.get_modify, Option.map_map]
      congr 1
      funext flag
      by_cases hId : id = slot.id
      · simp [hId]
      · simp [hId]

omit h in
theorem size_mark (drained : List JobCompletion) (leases : Table JobId Bool) :
    (drained.foldl (fun leases slot => leases.modify slot.id fun _ => true) leases).size =
      leases.size := by
  induction drained generalizing leases with
  | nil => rfl
  | cons slot rest ih => rw [List.foldl_cons, ih, Table.size_modify]

theorem drain (count : Nat) :
    Reflects { batch with state := { batch.state with
        queue := batch.state.queue.drop count
        leases := (batch.state.queue.take count).foldl
          (fun leases slot => leases.modify slot.id fun _ => true) batch.state.leases } }
      { history with drained := history.drained ++ batch.state.queue.take count } where
  split := by
    show history.published = history.drained ++ _ ++ batch.state.queue.drop count
    rw [List.append_assoc, List.take_append_drop, h.split]
  increasing := h.increasing
  highWater := h.highWater
  leases id flag := by
    show _ ↔ id ∈ history.unreleased ∧ flag =
      decide (id ∈ (history.drained ++ batch.state.queue.take count).map JobCompletion.id)
    rw [get_mark, Option.map_eq_some_iff, List.map_append]
    simp only [h.leases, List.mem_append, Bool.decide_or]
    constructor
    · rintro ⟨flag', ⟨hMem, rfl⟩, rfl⟩
      exact ⟨hMem, rfl⟩
    · rintro ⟨hMem, rfl⟩
      exact ⟨_, ⟨hMem, rfl⟩, rfl⟩
  window := h.window
  nodup := h.nodup
  drained id hId := by
    rw [List.map_append]
    exact List.mem_append_left _ (h.drained id hId)
  room := by
    rw [size_mark]
    exact h.room

/-! Release. -/

theorem lease_true {id : JobId} : batch.state.leases.get id = some true ↔
    id ∈ history.drained.map JobCompletion.id ∧ id ∉ history.released := by
  rw [h.leases, History.mem_unreleased, eq_comm, decide_eq_true_eq]
  constructor
  · rintro ⟨⟨-, hReleased⟩, hDrained⟩
    exact ⟨hDrained, hReleased⟩
  · rintro ⟨hDrained, hReleased⟩
    exact ⟨⟨h.drained_published hDrained, hReleased⟩, hDrained⟩

theorem lease_false {id : JobId} : batch.state.leases.get id = some false ↔
    id ∈ history.published.map JobCompletion.id ∧
      id ∉ history.drained.map JobCompletion.id := by
  rw [h.leases, History.mem_unreleased, eq_comm, decide_eq_false_iff_not]
  constructor
  · rintro ⟨⟨hPublished, -⟩, hDrained⟩
    exact ⟨hPublished, hDrained⟩
  · rintro ⟨hPublished, hDrained⟩
    exact ⟨⟨hPublished, fun hReleased => hDrained (h.drained id hReleased)⟩, hDrained⟩

theorem release_eq (id : JobId) : batch.release id =
    if id ∈ history.drained.map JobCompletion.id ∧ id ∉ history.released then
      (.ok (), { batch with state := { batch.state with
        leases := batch.state.leases.erase id
        released := Buffer.push batch.state.released batch.capacity id } })
    else if id ∈ history.published.map JobCompletion.id ∧
        id ∉ history.drained.map JobCompletion.id then (.error (error .invalidArgument), batch)
    else if id ∈ history.released.rtake batch.capacity then
      (.error (error .alreadyReleased), batch)
    else (.error (error .invalidHandle), batch) := by
  rw [CompletionBatch.release, ← h.window]
  by_cases hDrained : id ∈ history.drained.map JobCompletion.id ∧ id ∉ history.released
  · rw [if_pos hDrained, h.lease_true.mpr hDrained]
  by_cases hUndrained : id ∈ history.published.map JobCompletion.id ∧
      id ∉ history.drained.map JobCompletion.id
  · rw [if_neg hDrained, if_pos hUndrained, h.lease_false.mpr hUndrained]
  · have hNone : batch.state.leases.get id = none := by
      cases hLease : batch.state.leases.get id with
      | none => rfl
      | some flag =>
          cases flag with
          | true => exact absurd (h.lease_true.mp hLease) hDrained
          | false => exact absurd (h.lease_false.mp hLease) hUndrained
    rw [if_neg hDrained, if_neg hUndrained, hNone]

theorem capacity_pos {id : JobId} (hUnreleased : id ∈ history.unreleased) :
    0 < batch.capacity := by
  have hLength := List.length_pos_of_mem hUnreleased
  rw [← h.size_leases] at hLength
  exact hLength.trans_le h.room

theorem release {id : JobId} (hDrained : id ∈ history.drained.map JobCompletion.id)
    (hReleased : id ∉ history.released) :
    Reflects { batch with state := { batch.state with
        leases := batch.state.leases.erase id
        released := Buffer.push batch.state.released batch.capacity id } }
      { history with released := history.released ++ [id] } where
  split := h.split
  increasing := h.increasing
  highWater := h.highWater
  leases id' flag := by
    rw [Table.get_erase, History.mem_unreleased, List.mem_append, List.mem_singleton]
    split_ifs with hSame
    · simp [hSame]
    · rw [h.leases, History.mem_unreleased]
      simp [hSame]
  window := by
    have hUnreleased := History.mem_unreleased.mpr ⟨h.drained_published hDrained, hReleased⟩
    rw [h.window]
    exact Buffer.push_rtake history.released (h.capacity_pos hUnreleased) id
  nodup := by
    rw [List.nodup_append]
    refine ⟨h.nodup, List.nodup_singleton _, fun other hOther last hLast => ?_⟩
    rw [List.mem_singleton.mp hLast]
    rintro rfl
    exact hReleased hOther
  drained id' hId := by
    rcases List.mem_append.mp hId with hOld | hNew
    · exact h.drained id' hOld
    · rwa [List.mem_singleton.mp hNew]
  room := (Table.size_erase_le _ _).trans h.room

end Reflects

/-! Any sequence of calls. -/

def BatchAnswer.Failed : BatchAnswer → Prop
  | .published (.error _) => True
  | .drained (.error _) _ => True
  | .released (.error _) => True
  | _ => False

theorem reflects_withCapacity (capacity : Nat) :
    Reflects (.withCapacity capacity) .empty where
  split := rfl
  increasing := List.Pairwise.nil
  highWater := rfl
  leases id flag := by simp [CompletionBatch.withCapacity, History.unreleased, History.empty]
  window := (List.rtake_nil capacity).symm
  nodup := List.nodup_nil
  drained id hId := absurd hId List.not_mem_nil
  room := Nat.zero_le _

/-- A call is recorded as it is answered, and one that fails changes nothing. -/
theorem Reflects.answer {batch : CompletionBatch} {history : History}
    (h : Reflects batch history) (call : BatchCall) :
    Reflects (batch.answer call).2 (history.record (call, (batch.answer call).1)) ∧
      (batch.answer call).2.capacity = batch.capacity ∧
      ((batch.answer call).1.Failed → (batch.answer call).2 = batch) := by
  cases call with
  | publish completion =>
      rw [CompletionBatch.answer, h.publish_eq]
      split_ifs with hIllegal hFull
      · exact ⟨h, rfl, fun _ => rfl⟩
      · exact ⟨h, rfl, fun _ => rfl⟩
      · exact ⟨h.publish completion hIllegal hFull, rfl, fun hFailed => hFailed.elim⟩
  | drain out =>
      have hTake : (Buffer.overwrite out (batch.state.queue.take
          (min out.length batch.state.queue.length))).take
            (min out.length batch.state.queue.length) =
          batch.state.queue.take (min out.length batch.state.queue.length) := by
        have hWritten := Buffer.take_overwrite out (batch.state.queue.take
          (min out.length batch.state.queue.length))
        rwa [List.length_take, Nat.min_eq_left (Nat.min_le_right _ _)] at hWritten
      refine ⟨?_, rfl, fun hFailed => hFailed.elim⟩
      show Reflects _ { history with drained := history.drained ++ (Buffer.overwrite out _).take _ }
      rw [hTake]
      exact h.drain _
  | release id =>
      rw [CompletionBatch.answer, h.release_eq]
      split_ifs with hDrained
      · exact ⟨h.release hDrained.1 hDrained.2, rfl, fun hFailed => hFailed.elim⟩
      · exact ⟨h, rfl, fun _ => rfl⟩
      · exact ⟨h, rfl, fun _ => rfl⟩
      · exact ⟨h, rfl, fun _ => rfl⟩

/-- Every id is published, drained and released at most once, in bounded space, and every call
answers by the history of the calls before it. -/
theorem completion_batch_exact (capacity : Nat) (calls : List BatchCall) :
    let after := Machine.run CompletionBatch.answer (.withCapacity capacity) calls
    let history := after.1.foldl History.record .empty
    let batch := after.2
    (history.published.map JobCompletion.id).Pairwise (· < ·) ∧
    history.drained <+: history.published ∧ history.released.Nodup ∧
    (∀ id, (batch.release id).1 =
      if id ∈ history.drained.map JobCompletion.id ∧ id ∉ history.released then .ok ()
      else if id ∈ history.published.map JobCompletion.id ∧
          id ∉ history.drained.map JobCompletion.id then .error (error .invalidArgument)
      else if id ∈ history.released.rtake capacity then .error (error .alreadyReleased)
      else .error (error .invalidHandle)) ∧
    (∀ completion, (batch.publish completion).1 =
      if completion.state.isTerminal = false ∨
          ∃ published ∈ history.published, completion.id ≤ published.id then
        .error (error .invalidArgument)
      else if history.unreleased.length = capacity then .error (error .capacityExceeded)
      else .ok ()) ∧
    (∀ out, (batch.drain out).1 =
      (.ok (min out.length (history.published.length - history.drained.length)),
        Buffer.overwrite out
          ((history.published.drop history.drained.length).take out.length))) ∧
    (∀ call, (batch.answer call).1.Failed → (batch.answer call).2 = batch) ∧
    batch.state.leases.size ≤ capacity ∧ batch.state.released.length ≤ capacity := by
  intro after history batch
  obtain ⟨h, hCapacity⟩ : Reflects batch history ∧ batch.capacity = capacity := by
    apply Machine.run_records fun (batch : CompletionBatch) history =>
      Reflects batch history ∧ batch.capacity = capacity
    · intro batch history call ⟨h, hCapacity⟩
      exact ⟨(h.answer call).1, (h.answer call).2.1.trans hCapacity⟩
    · exact ⟨reflects_withCapacity capacity, rfl⟩
  have hRoom := h.room
  rw [h.size_leases, hCapacity] at hRoom
  refine ⟨h.increasing, ⟨_, h.split.symm⟩, h.nodup, fun id => ?_, fun completion => ?_,
    fun out => ?_, fun call => (h.answer call).2.2, hCapacity ▸ h.room, ?_⟩
  · rw [h.release_eq, hCapacity]
    split_ifs <;> rfl
  · rw [h.publish_eq, hCapacity]
    split_ifs with hIllegal hFull hExact hExact
    · rfl
    · rfl
    · omega
    · omega
    · rfl
  · rw [h.split, List.length_append, Nat.add_sub_cancel_left, List.drop_left,
      CompletionBatch.drain, ← List.take_eq_take_min]
  · rw [h.window, hCapacity, List.rtake, List.length_drop]
    omega

/-- Two jobs in a batch for two, of which one drain takes the first. -/
theorem completion_batch_exact_two :
    let after := Machine.run CompletionBatch.answer (.withCapacity 2)
      [.publish ⟨3, .succeeded⟩, .publish ⟨5, .failed⟩, .drain [⟨0, .queued⟩], .release 3]
    (after.2.drain [⟨0, .queued⟩, ⟨0, .queued⟩]).1 =
      (.ok 1, [⟨5, .failed⟩, ⟨0, .queued⟩]) ∧
    (after.2.release 3).1 = .error (error .alreadyReleased) ∧
    (after.2.release 5).1 = .error (error .invalidArgument) ∧
    (after.2.publish ⟨4, .cancelled⟩).1 = .error (error .invalidArgument) := by
  obtain ⟨-, -, -, hRelease, hPublish, hDrain, -⟩ := completion_batch_exact 2
    [.publish ⟨3, .succeeded⟩, .publish ⟨5, .failed⟩, .drain [⟨0, .queued⟩], .release 3]
  exact ⟨hDrain _, hRelease 3, hRelease 5, hPublish _⟩

end Job

import LumioNativeCore.Library.Update
import LumioNativeCore.Library.Word
import LumioNativeCore.Kernel.Error

/-! Process-wide numbers: the context keys (`context/lifecycle.rs`) and the system and job
numbers (`worker.rs`), drawn from a counter that never wraps. -/
namespace Kernel

open Atomic Transition

/-- `fetch_update` with `checked_add(1)`. -/
def nextId : Update Nat Unit (Except KernelError Nat) where
  next _ n := Word.checkedAdd Word.max64 n 1
  reply
    | _, .ok previous => .ok previous
    | _, .error _ => .error (error .capacityExceeded)

/-- The answers of draws in order: the numbers from `first`, and failures once they are used up. -/
def drawn (first count failed : Nat) : List (Except KernelError Nat) :=
  (List.range' first count).map .ok ++ List.replicate failed (.error (error .capacityExceeded))

theorem serve_nextId (n : Nat) (h : n < Word.max64) : nextId.serve n () = (.ok n, n + 1) :=
  nextId.serve_of_next (Word.checkedAdd_eq_some.mpr ⟨rfl, h⟩)

theorem serve_exhausted :
    nextId.serve Word.max64 () = (.error (error .capacityExceeded), Word.max64) :=
  nextId.serve_of_none (Word.checkedAdd_eq_none.mpr (Nat.lt_add_one Word.max64))

/-- Draws one after the other. -/
theorem run_nextId {first : Nat} (hFirst : first ≤ Word.max64) (calls : List Unit) :
    ∃ count failed, ((Machine.run nextId.serve first calls).1.map Prod.snd) =
        drawn first count failed ∧
      (Machine.run nextId.serve first calls).2 = first + count ∧ first + count ≤ Word.max64 ∧
      (failed ≠ 0 → first + count = Word.max64) := by
  induction calls generalizing first with
  | nil => exact ⟨0, 0, rfl, rfl, hFirst, fun h => absurd rfl h⟩
  | cons call rest ih =>
      rw [Machine.run_cons]
      rcases hFirst.lt_or_eq with hLess | rfl
      · obtain ⟨count, failed, hAnswers, hLast, hWithin, hFull⟩ := ih hLess
        rw [serve_nextId first hLess]
        refine ⟨count + 1, failed, ?_, by rw [hLast]; omega, by omega, fun h => ?_⟩
        · rw [List.map_cons, hAnswers, drawn, drawn, List.range'_succ, List.map_cons]
          rfl
        · rw [← hFull h]
          omega
      · obtain ⟨count, failed, hAnswers, hLast, hWithin, -⟩ := ih le_rfl
        obtain rfl : count = 0 := by omega
        rw [serve_exhausted]
        refine ⟨0, failed + 1, ?_, hLast, hWithin, fun _ => rfl⟩
        rw [List.map_cons, hAnswers]
        rfl

/-- The numbers that were given out. -/
def numbers (log : List (Unit × Except KernelError Nat)) : List Nat :=
  log.filterMap fun entry => entry.2.toOption

theorem numbers_of_drawn {log : List (Unit × Except KernelError Nat)} {first count failed : Nat}
    (h : log.map Prod.snd = drawn first count failed) : numbers log = List.range' first count := by
  have hNumbers : numbers log = (log.map Prod.snd).filterMap Except.toOption := by
    rw [List.filterMap_map]
    rfl
  rw [hNumbers, h, drawn, List.filterMap_append, List.filterMap_map]
  have hFailed : (List.replicate failed (.error (error .capacityExceeded) :
      Except KernelError Nat)).filterMap Except.toOption = [] := by
    rw [List.filterMap_eq_nil_iff]
    intro answer hMem
    rw [List.eq_of_mem_replicate hMem]
    rfl
  rw [hFailed, List.append_nil]
  exact List.filterMap_some

/-- Draws one after the other give out what lies between the counter before and after. -/
theorem numbers_of_run {first last : Nat} {log : List (Unit × Except KernelError Nat)}
    (hFirst : first ≤ Word.max64)
    (hRun : Machine.run nextId.serve first (log.map Prod.fst) = (log, last)) :
    ∃ count failed, log.map Prod.snd = drawn first count failed ∧
      numbers log = List.range' first count ∧ last = first + count ∧ last ≤ Word.max64 ∧
      (failed ≠ 0 → last = Word.max64) := by
  obtain ⟨count, failed, hAnswers, hLast, hWithin, hFull⟩ :=
    run_nextId hFirst (log.map Prod.fst)
  rw [hRun] at hAnswers hLast
  refine ⟨count, failed, hAnswers, numbers_of_drawn hAnswers, hLast, ?_, ?_⟩
  · exact hLast.trans_le hWithin
  · exact fun h => hLast.trans (hFull h)

section Threads

universe u
variable {Thread : Type u} [DecidableEq Thread] {first : Nat}
  {trace : List (Thread × Event Nat Unit (Except KernelError Nat))}
  {s : State Nat (UpdateStage Nat Unit) Thread}

theorem count_numbers (log : List (Unit × Except KernelError Nat)) (id : Nat) :
    (numbers log).count id = log.countP fun entry => entry.2.toOption == some id := by
  rw [numbers, List.count_filterMap]

/-- However the threads interleave, the draws take the numbers in order, each once, and fail
only when there is none left; draws that are made one after the other give growing numbers. -/
theorem ids_unique (hFirst : first ≤ Word.max64)
    (run : Run (Step nextId.code) (State.initial first) trace s) :
    (∃ count failed, (effects trace).map Prod.snd = drawn first count failed ∧
      s.cell = first + count ∧ s.cell ≤ Word.max64 ∧ (failed ≠ 0 → s.cell = Word.max64)) ∧
    (numbers (returns trace)).Nodup ∧
    (∀ id ∈ numbers (returns trace), first ≤ id ∧ id < s.cell) ∧
    ∀ calls, Sequential trace calls → (numbers calls).Pairwise (· < ·) := by
  obtain ⟨_, hLog, rfl⟩ := nextId.linear.run rfl run
  obtain ⟨count, failed, hAnswers, hNumbers, hLast, hWithin, hFull⟩ := numbers_of_run hFirst hLog
  have hOnce : ∀ id, (numbers (returns trace)).count id ≤ (numbers (effects trace)).count id := by
    intro id
    rw [count_numbers, count_numbers]
    exact (countP_returns_le _ run).1
  refine ⟨⟨count, failed, hAnswers, hLast, hWithin, hFull⟩, ?_, ?_, ?_⟩
  · rw [List.nodup_iff_count_le_one]
    intro id
    refine (hOnce id).trans ?_
    rw [hNumbers]
    exact List.nodup_iff_count_le_one.mp List.nodup_range' id
  · intro id hMem
    have hEffect : id ∈ numbers (effects trace) :=
      List.count_pos_iff.mp ((List.count_pos_iff.mpr hMem).trans_le (hOnce id))
    rw [hNumbers, List.mem_range'_1] at hEffect
    rw [hLast]
    exact hEffect
  · intro calls hCalls
    have hOrder : (numbers calls).Sublist (numbers (effects trace)) :=
      (hCalls.sublist run).filterMap _
    rw [hNumbers] at hOrder
    exact (List.pairwise_lt_range' 1).sublist hOrder

end Threads

/-- Two threads read the same last number: one of them takes it, and the other finds the counter
used up. -/
def lastDraws : List (Bool × Choice Unit) :=
  [(false, .invoke ()), (true, .invoke ()), (false, .advance), (true, .advance), (true, .refuse),
    (true, .advance), (false, .advance), (false, .advance), (true, .advance)]

theorem ids_unique_last :
    ∃ trace s, nextId.code.schedule (State.initial (Word.max64 - 1)) lastDraws = some (trace, s) ∧
      returns trace = [((), .error (error .capacityExceeded)), ((), .ok (Word.max64 - 1))] ∧
      (numbers (returns trace)).Nodup := by
  have hSchedule : ∃ trace s,
      nextId.code.schedule (State.initial (Word.max64 - 1)) lastDraws = some (trace, s) ∧
      returns trace = [((), .error (error .capacityExceeded)), ((), .ok (Word.max64 - 1))] :=
    ⟨_, _, rfl, rfl⟩
  obtain ⟨trace, s, hTrace, hReturns⟩ := hSchedule
  have hUnique := ids_unique (by decide) (Code.run_schedule hTrace)
  exact ⟨trace, s, hTrace, hReturns, hUnique.2.1⟩

end Kernel

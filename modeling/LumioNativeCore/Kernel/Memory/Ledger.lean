import LumioNativeCore.Library.Linear
import LumioNativeCore.Kernel.Memory.Budget

/-! The charged-byte ledger under any number of threads (`memory/budget.rs`). The loads and
weak compare-exchanges of the calls interleave; a call takes effect at its last access. -/
namespace Kernel

open Atomic Transition

universe u

/-- A call has read `current` at the top of its loop. -/
inductive LedgerStage where
  | start (call : LedgerCall)
  | loaded (call : LedgerCall) (current : Nat)
  | exchanged (call : LedgerCall)

namespace LedgerStage

def call : LedgerStage → LedgerCall
  | start call => call
  | loaded call _ => call
  | exchanged call => call

/-- How a turn of the loop ends. -/
def turn (call : LedgerCall) : Except Nat Nat → LedgerStage
  | .ok _ => exchanged call
  | .error actual => loaded call actual

def access (limit : Nat) : LedgerStage → Access Nat LedgerStage (Except KernelError Unit)
  | start call => .load (loaded call)
  | loaded (.tryReserve bytes) current =>
      match (Word.checkedAdd Word.max64 current bytes).filter (· ≤ limit) with
      | some next => .compareExchange true current next (turn (.tryReserve bytes))
      | none =>
          .done (.error ⟨.capacityExceeded,
            .limitExceeded limit (Word.saturatingAdd Word.max64 current bytes)⟩)
  | loaded (.release bytes) current =>
      .compareExchange true current (current - bytes) (turn (.release bytes))
  | exchanged _ => .done (.ok ())

end LedgerStage

namespace MemoryBudget

def answer (budget : MemoryBudget) : LedgerCall → Except KernelError Unit
  | .tryReserve bytes => (budget.tryReserve bytes).map fun _ => ()
  | .release _ => .ok ()

/-- One call at a time. -/
def serve (budget : MemoryBudget) (call : LedgerCall) : Except KernelError Unit × MemoryBudget :=
  (budget.answer call, budget.after call)

end MemoryBudget

namespace LedgerStage

variable {limit : Nat} {stage stage' : LedgerStage} {value value' : Nat} {outcome : Observation Nat}

/-- A call that gives up on the charge it has read answers as it would at that charge. -/
theorem serve_of_loaded {call : LedgerCall} {current : Nat} {answer : Except KernelError Unit}
    (h : (access limit (loaded call current)).answer = some answer) :
    MemoryBudget.serve ⟨current, limit⟩ call = (answer, ⟨current, limit⟩) := by
  cases call with
  | release bytes => cases h
  | tryReserve bytes =>
      rw [access] at h
      cases hNext : (Word.checkedAdd Word.max64 current bytes).filter (· ≤ limit) with
      | some next =>
          rw [hNext] at h
          cases h
      | none =>
          rw [hNext] at h
          cases h
          simp [MemoryBudget.serve, MemoryBudget.answer, MemoryBudget.after,
            MemoryBudget.tryReserve, hNext, Except.map, Except.toOption]

/-- An exchange of the charge that was read is the call at that charge. -/
theorem serve_of_exchange {call : LedgerCall} {current expected new : Nat} {weak : Bool}
    {next : Except Nat Nat → LedgerStage}
    (h : access limit (loaded call current) = .compareExchange weak expected new next) :
    expected = current ∧ next = turn call ∧
      MemoryBudget.serve ⟨current, limit⟩ call = (.ok (), ⟨new, limit⟩) := by
  cases call with
  | release bytes =>
      cases h
      exact ⟨rfl, rfl, rfl⟩
  | tryReserve bytes =>
      rw [access] at h
      cases hNext : (Word.checkedAdd Word.max64 current bytes).filter (· ≤ limit) with
      | none =>
          rw [hNext] at h
          cases h
      | some charged =>
          rw [hNext] at h
          cases h
          refine ⟨rfl, rfl, ?_⟩
          simp [MemoryBudget.serve, MemoryBudget.answer, MemoryBudget.after,
            MemoryBudget.tryReserve, hNext, Except.map, Except.toOption]

/-- An access only reads the charge, or it is the whole call at the charge it finds. -/
theorem runs_cases (hRuns : (access limit stage).Runs value outcome value' stage') :
    (stage' = loaded stage.call value ∧ value' = value) ∨
      (stage' = exchanged stage.call ∧
        MemoryBudget.serve ⟨value, limit⟩ stage.call = (.ok (), ⟨value', limit⟩)) := by
  cases stage with
  | start call =>
      cases hRuns with
      | load => exact Or.inl ⟨rfl, rfl⟩
  | exchanged call => cases hRuns
  | loaded call current =>
      generalize hAccess : access limit (loaded call current) = next at hRuns
      cases hRuns with
      | load =>
          cases call with
          | release => cases hAccess
          | tryReserve =>
              rw [access] at hAccess
              split at hAccess <;> cases hAccess
      | exchanged =>
          obtain ⟨rfl, rfl, hServe⟩ := serve_of_exchange hAccess
          exact Or.inr ⟨rfl, hServe⟩
      | refused =>
          obtain ⟨rfl, rfl, -⟩ := serve_of_exchange hAccess
          exact Or.inl ⟨rfl, rfl⟩

theorem call_next (hRuns : (access limit stage).Runs value outcome value' stage') :
    stage'.call = stage.call := by
  rcases runs_cases hRuns with ⟨rfl, -⟩ | ⟨rfl, -⟩
  · rfl
  · rfl

end LedgerStage

/-- The code of `try_reserve` and `release` on the charge of one ledger. -/
def ledgerCode (limit : Nat) : Code Nat LedgerStage LedgerCall (Except KernelError Unit) where
  start := .start
  call := LedgerStage.call
  access := LedgerStage.access limit
  call_start _ := rfl
  start_open _ := rfl
  call_next := LedgerStage.call_next

/-- The cell is the charge of a ledger within its limit. -/
def Charged (limit : Nat) (budget : MemoryBudget) (charged : Nat) : Prop :=
  budget = ⟨charged, limit⟩ ∧ charged ≤ limit

theorem ledger_linear (limit : Nat) :
    Linear (ledgerCode limit) MemoryBudget.serve (Charged limit) where
  waits := by
    intro _ stage value outcome value' stage' _ hRuns hOpen
    rcases LedgerStage.runs_cases hRuns with ⟨-, rfl⟩ | ⟨rfl, -⟩
    · rfl
    · cases hOpen
  serves := by
    intro budget stage value outcome value' stage' answer hCharged hRuns hAnswer
    obtain ⟨rfl, hWithin⟩ := hCharged
    have hAfter : (MemoryBudget.after ⟨value, limit⟩ stage.call).charged ≤ limit :=
      (MemoryBudget.after_within hWithin stage.call).2
    rcases LedgerStage.runs_cases hRuns with ⟨rfl, rfl⟩ | ⟨rfl, hServe⟩
    · have hServe := LedgerStage.serve_of_loaded hAnswer
      exact ⟨congrArg Prod.fst hServe, congrArg Prod.snd hServe, hWithin⟩
    · cases hAnswer
      refine ⟨congrArg Prod.fst hServe, congrArg Prod.snd hServe, ?_⟩
      have hNext : MemoryBudget.after ⟨value, limit⟩ stage.call = ⟨value', limit⟩ :=
        congrArg Prod.snd hServe
      rwa [hNext] at hAfter

/-! The bytes that the calls reserve and release. -/

def LedgerCall.released : LedgerCall → Option Nat
  | .release bytes => some bytes
  | .tryReserve _ => none

def LedgerCall.reserved : LedgerCall × Except KernelError Unit → Option Nat
  | (.tryReserve bytes, .ok _) => some bytes
  | _ => none

def releasedBytes (calls : List LedgerCall) : List Nat :=
  calls.filterMap LedgerCall.released

/-- The bytes of the successful reservations. -/
def reservedBytes (log : List (LedgerCall × Except KernelError Unit)) : List Nat :=
  log.filterMap LedgerCall.reserved

theorem sum_releasedBytes_cons (call : LedgerCall) (calls : List LedgerCall) :
    (releasedBytes (call :: calls)).sum = call.released.getD 0 + (releasedBytes calls).sum := by
  cases h : call.released with
  | none => simp [releasedBytes, h]
  | some bytes => simp [releasedBytes, h]

theorem sum_reservedBytes_cons (entry : LedgerCall × Except KernelError Unit)
    (log : List (LedgerCall × Except KernelError Unit)) :
    (reservedBytes (entry :: log)).sum =
      (LedgerCall.reserved entry).getD 0 + (reservedBytes log).sum := by
  cases h : LedgerCall.reserved entry with
  | none => simp [reservedBytes, h]
  | some bytes => simp [reservedBytes, h]

theorem sum_releasedBytes (calls : List LedgerCall) :
    (releasedBytes calls).sum = (calls.map fun call => call.released.getD 0).sum := by
  induction calls with
  | nil => rfl
  | cons call rest ih => rw [sum_releasedBytes_cons, ih, List.map_cons, List.sum_cons]

theorem sum_reservedBytes (log : List (LedgerCall × Except KernelError Unit)) :
    (reservedBytes log).sum = (log.map fun entry => (LedgerCall.reserved entry).getD 0).sum := by
  induction log with
  | nil => rfl
  | cons entry rest ih => rw [sum_reservedBytes_cons, ih, List.map_cons, List.sum_cons]

theorem sum_le_of_subperm {bytes more : List Nat} (h : bytes.Subperm more) :
    bytes.sum ≤ more.sum := by
  obtain ⟨part, hPerm, hSublist⟩ := h
  rw [← hPerm.sum_eq]
  exact hSublist.sum_le_sum fun _ _ => Nat.zero_le _

namespace MemoryBudget

theorem after_charged (budget : MemoryBudget) (call : LedgerCall)
    (h : call.released.getD 0 ≤ budget.charged) :
    (budget.after call).charged + call.released.getD 0 =
      budget.charged + (LedgerCall.reserved (call, budget.answer call)).getD 0 := by
  cases call with
  | release bytes => exact Nat.sub_add_cancel h
  | tryReserve bytes =>
      rw [after, answer]
      cases hReserve : budget.tryReserve bytes with
      | error failure => rfl
      | ok next =>
          obtain ⟨rfl, -⟩ := tryReserve_eq_ok hReserve
          rfl

/-- The charge is what has been reserved and not released when no release goes beyond that,
so that none saturates. -/
theorem run_charged (budget : MemoryBudget) (calls : List LedgerCall)
    (hCovered : ∀ log, log <+: (Machine.run serve budget calls).1 →
      (releasedBytes (log.map Prod.fst)).sum ≤ budget.charged + (reservedBytes log).sum) :
    (Machine.run serve budget calls).2.charged +
        (releasedBytes ((Machine.run serve budget calls).1.map Prod.fst)).sum =
      budget.charged + (reservedBytes (Machine.run serve budget calls).1).sum := by
  induction calls generalizing budget with
  | nil => rfl
  | cons call rest ih =>
      rw [Machine.run_cons] at hCovered ⊢
      have hFirst := hCovered [(call, budget.answer call)] (List.prefix_append [_] _)
      have hCall := after_charged budget call (by
        cases call with
        | release bytes =>
            rw [List.map_singleton, sum_releasedBytes_cons, sum_reservedBytes_cons] at hFirst
            exact hFirst
        | tryReserve bytes => exact Nat.zero_le _)
      have hRest := ih (budget.after call) fun log hLog => by
        have hMore := hCovered _ ((List.prefix_cons_inj (call, budget.answer call)).mpr hLog)
        rw [List.map_cons, sum_releasedBytes_cons, sum_reservedBytes_cons] at hMore
        dsimp only at hMore
        omega
      rw [List.map_cons, sum_releasedBytes_cons, sum_reservedBytes_cons]
      simp only [serve] at hRest ⊢
      omega

end MemoryBudget

section Threads

variable {Thread : Type u} [DecidableEq Thread] {limit : Nat}
  {trace : List (Thread × Event Nat LedgerCall (Except KernelError Unit))}
  {s : State Nat LedgerStage Thread}

theorem ledger_replay
    (run : Run (Step (ledgerCode limit)) (State.initial (MemoryBudget.new limit).charged) trace s) :
    Machine.run MemoryBudget.serve (MemoryBudget.new limit) ((effects trace).map Prod.fst) =
      (effects trace, ⟨s.cell, limit⟩) ∧ s.cell ≤ limit := by
  have hInitial : Charged limit (MemoryBudget.new limit) (MemoryBudget.new limit).charged :=
    ⟨rfl, Nat.zero_le _⟩
  obtain ⟨budget, hRun, rfl, hWithin⟩ := (ledger_linear limit).run hInitial run
  exact ⟨hRun, hWithin⟩

/-- No release in the order of the effects goes beyond the reservations before it. -/
theorem charged_of_covered
    (run : Run (Step (ledgerCode limit)) (State.initial (MemoryBudget.new limit).charged) trace s)
    (hCovered : ∀ before, before <+: trace →
      (releasedBytes ((effects before).map Prod.fst)).sum ≤ (reservedBytes (effects before)).sum) :
    s.cell + (releasedBytes ((effects trace).map Prod.fst)).sum =
      (reservedBytes (effects trace)).sum := by
  have hCharged := MemoryBudget.run_charged (MemoryBudget.new limit) ((effects trace).map Prod.fst)
  rw [(ledger_replay run).1] at hCharged
  refine (hCharged fun log hLog => ?_).trans (Nat.zero_add _)
  obtain ⟨before, hBefore, rfl⟩ := List.prefix_filterMap_iff.mp hLog
  exact (hCovered before hBefore).trans (Nat.le_add_left _ _)

/-- Callers that give back only what a returned reservation granted keep every release
covered at its effect: it comes after the invocation, and the reservation's before its return. -/
theorem covered_of_matched
    (run : Run (Step (ledgerCode limit)) (State.initial (MemoryBudget.new limit).charged) trace s)
    (hMatched : ∀ before, before <+: trace →
      (releasedBytes (invocations before)).Subperm (reservedBytes (returns before))) :
    ∀ before, before <+: trace →
      (releasedBytes ((effects before).map Prod.fst)).sum ≤ (reservedBytes (effects before)).sum := by
  intro before hBefore
  obtain ⟨after, rfl⟩ := hBefore
  obtain ⟨middle, prior, -⟩ := run.split
  calc (releasedBytes ((effects before).map Prod.fst)).sum
    _ = ((effects before).map fun entry => entry.1.released.getD 0).sum := by
      rw [sum_releasedBytes, List.map_map]
      rfl
    _ ≤ (releasedBytes (invocations before)).sum := by
      rw [sum_releasedBytes]
      exact (effects_le_invocations (fun call => call.released.getD 0) prior).1
    _ ≤ (reservedBytes (returns before)).sum :=
      sum_le_of_subperm (hMatched before (List.prefix_append before after))
    _ ≤ (reservedBytes (effects before)).sum := by
      rw [sum_reservedBytes, sum_reservedBytes]
      exact (returns_le_effects (fun entry => (LedgerCall.reserved entry).getD 0) prior).1

/-- Between calls the effects are the calls. -/
theorem quiet_bytes
    (run : Run (Step (ledgerCode limit)) (State.initial (MemoryBudget.new limit).charged) trace s)
    (hQuiet : ∀ t, s.stages t = none) :
    (releasedBytes ((effects trace).map Prod.fst)).sum = (releasedBytes (invocations trace)).sum ∧
      (reservedBytes (returns trace)).sum = (reservedBytes (effects trace)).sum := by
  rw [sum_releasedBytes, sum_releasedBytes, sum_reservedBytes, sum_reservedBytes, List.map_map]
  exact ⟨(effects_le_invocations (fun call => call.released.getD 0) run).2 hQuiet,
    (returns_le_effects (fun entry => (LedgerCall.reserved entry).getD 0) run).2 hQuiet⟩

/-- A reservation fails only over a charge that the limit does not leave room beside. -/
theorem over_of_failed (hLimit : limit ≤ Word.max64) {before after :
      List (Thread × Event Nat LedgerCall (Except KernelError Unit))} {t : Thread} {bytes : Nat}
    {failure : KernelError}
    (hTurn : Turn (ledgerCode limit) MemoryBudget.serve (Charged limit)
      (State.initial (MemoryBudget.new limit).charged) s t (.tryReserve bytes) (.error failure)
      before after) :
    ∃ earlier later moment, before = earlier ++ later ∧ Invoked t (.tryReserve bytes) earlier ∧
      Run (Step (ledgerCode limit)) (State.initial (MemoryBudget.new limit).charged) earlier moment ∧
      Run (Step (ledgerCode limit)) moment
        (later ++ (t, .returns (.tryReserve bytes) (.error failure)) :: after) s ∧
      limit < moment.cell + bytes := by
  obtain ⟨earlier, outcome, later, middle, middle', budget, rfl, hInvoked, -, prior, last, rest,
    ⟨rfl, -⟩, hServed, -⟩ := hTurn
  refine ⟨earlier, (t, .access (.tryReserve bytes) outcome (some (.error failure))) :: later, middle,
    rfl, hInvoked, prior, ((Run.nil middle).snoc last).trans rest, ?_⟩
  have hAnswer : (MemoryBudget.mk middle.cell limit).answer (.tryReserve bytes) = .error failure :=
    hServed
  rw [MemoryBudget.answer] at hAnswer
  cases hReserve : (MemoryBudget.mk middle.cell limit).tryReserve bytes with
  | error given => exact MemoryBudget.tryReserve_eq_error hLimit hReserve
  | ok next =>
      rw [hReserve] at hAnswer
      cases hAnswer

/-- The ledger is linearizable under every interleaving of its accesses. -/
theorem MemoryBudget.linearizable (hLimit : limit ≤ Word.max64)
    (run : Run (Step (ledgerCode limit)) (State.initial (MemoryBudget.new limit).charged) trace s) :
    s.cell ≤ limit ∧
    Machine.run serve (MemoryBudget.new limit) ((effects trace).map Prod.fst) =
      (effects trace, ⟨s.cell, limit⟩) ∧
    (∀ before t call answer after, trace = before ++ (t, .returns call answer) :: after →
      Turn (ledgerCode limit) serve (Charged limit) (State.initial (MemoryBudget.new limit).charged) s
        t call answer before after) ∧
    (∀ before t call outcome answer after,
      trace = before ++ (t, .access call outcome (some answer)) :: after → Invoked t call before) ∧
    (∀ before t bytes failure after,
      trace = before ++ (t, .returns (.tryReserve bytes) (.error failure)) :: after →
        ∃ earlier later moment, before = earlier ++ later ∧
          Invoked t (.tryReserve bytes) earlier ∧
          Run (Step (ledgerCode limit)) (State.initial (MemoryBudget.new limit).charged) earlier
            moment ∧
          Run (Step (ledgerCode limit)) moment
            (later ++ (t, .returns (.tryReserve bytes) (.error failure)) :: after) s ∧
          limit < moment.cell + bytes) ∧
    ((∀ before, before <+: trace →
        (releasedBytes ((effects before).map Prod.fst)).Subperm (reservedBytes (effects before))) →
      s.cell + (releasedBytes ((effects trace).map Prod.fst)).sum =
        (reservedBytes (effects trace)).sum) ∧
    ((∀ before, before <+: trace →
        (releasedBytes (invocations before)).Subperm (reservedBytes (returns before))) →
      s.cell + (releasedBytes ((effects trace).map Prod.fst)).sum =
        (reservedBytes (effects trace)).sum ∧
      ((∀ t, s.stages t = none) →
        s.cell + (releasedBytes (invocations trace)).sum = (reservedBytes (returns trace)).sum)) := by
  obtain ⟨hReplay, hWithin⟩ := ledger_replay run
  have hTurn : ∀ before t call answer after, trace = before ++ (t, .returns call answer) :: after →
      Turn (ledgerCode limit) serve (Charged limit) (State.initial (MemoryBudget.new limit).charged) s
        t call answer before after := by
    intro before t call answer after hTrace
    rw [hTrace] at run
    have hInitial : Charged limit (MemoryBudget.new limit) (MemoryBudget.new limit).charged :=
      ⟨rfl, Nat.zero_le _⟩
    exact (ledger_linear limit).turn hInitial run
  refine ⟨hWithin, hReplay, hTurn, ?_, ?_, ?_, ?_⟩
  · intro before t call outcome answer after hTrace
    rw [hTrace] at run
    exact invoked_of_effect run
  · intro before t bytes failure after hTrace
    exact over_of_failed hLimit (hTurn before t _ _ after hTrace)
  · intro hMatched
    exact charged_of_covered run fun before hBefore => sum_le_of_subperm (hMatched before hBefore)
  · intro hMatched
    have hCharged := charged_of_covered run (covered_of_matched run hMatched)
    refine ⟨hCharged, fun hQuiet => ?_⟩
    obtain ⟨hReleased, hReserved⟩ := quiet_bytes run hQuiet
    rw [← hReleased, hReserved]
    exact hCharged

end Threads

/-- Two reservations for one ledger: the first is refused once without cause, the second has
read a stale charge and fails on the one it finds instead. -/
theorem MemoryBudget.linearizable_race :
    ∃ s : State Nat LedgerStage Bool,
      (ledgerCode 100).schedule (State.initial (MemoryBudget.new 100).charged)
        [(false, .invoke (.tryReserve 40)), (true, .invoke (.tryReserve 70)), (false, .advance),
          (true, .advance), (false, .refuse), (false, .advance), (true, .advance),
          (true, .advance), (false, .advance), (false, .invoke (.release 40)), (false, .advance),
          (false, .advance), (false, .advance)] =
        some ([(false, .invoke (.tryReserve 40)), (true, .invoke (.tryReserve 70)),
          (false, .access (.tryReserve 40) (.loaded 0) none),
          (true, .access (.tryReserve 70) (.loaded 0) none),
          (false, .access (.tryReserve 40) (.refused 0) none),
          (false, .access (.tryReserve 40) (.exchanged 0) (some (.ok ()))),
          (true, .access (.tryReserve 70) (.refused 40)
            (some (.error ⟨.capacityExceeded, .limitExceeded 100 110⟩))),
          (true, .returns (.tryReserve 70)
            (.error ⟨.capacityExceeded, .limitExceeded 100 110⟩)),
          (false, .returns (.tryReserve 40) (.ok ())), (false, .invoke (.release 40)),
          (false, .access (.release 40) (.loaded 40) none),
          (false, .access (.release 40) (.exchanged 40) (some (.ok ()))),
          (false, .returns (.release 40) (.ok ()))], s) ∧
      s.cell ≤ 100 ∧ s.cell + 40 = 40 := by
  refine Exists.imp (fun s hSchedule => ⟨hSchedule, ?_⟩) ⟨_, rfl⟩
  have hLinearizable := MemoryBudget.linearizable (by decide) (Code.run_schedule hSchedule)
  refine ⟨hLinearizable.1, hLinearizable.2.2.2.2.2.1 fun before hBefore => ?_⟩
  rw [← List.mem_inits] at hBefore
  revert before
  decide

end Kernel

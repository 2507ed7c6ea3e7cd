import LumioNativeCore.Library.Word
import LumioNativeCore.Kernel.Error

/-! The charged-byte ledger of a context (`memory/budget.rs`), one call at a time. -/
namespace Kernel

structure MemoryBudget where
  charged : Nat
  limit : Nat
  deriving DecidableEq, Repr

namespace MemoryBudget

def new (maxNativeBytes : Nat) : MemoryBudget := ⟨0, maxNativeBytes⟩

def tryReserve (budget : MemoryBudget) (bytes : Nat) : Except KernelError MemoryBudget :=
  match (Word.checkedAdd Word.max64 budget.charged bytes).filter (· ≤ budget.limit) with
  | some next => .ok { budget with charged := next }
  | none =>
      .error ⟨.capacityExceeded,
        .limitExceeded budget.limit (Word.saturatingAdd Word.max64 budget.charged bytes)⟩

/-- Saturates at zero. -/
def release (budget : MemoryBudget) (bytes : Nat) : MemoryBudget :=
  { budget with charged := budget.charged - bytes }

theorem tryReserve_eq_ok {budget budget' : MemoryBudget} {bytes : Nat}
    (h : budget.tryReserve bytes = .ok budget') :
    budget' = { budget with charged := budget.charged + bytes } ∧
      budget.charged + bytes ≤ budget.limit := by
  rw [tryReserve] at h
  cases hNext : (Word.checkedAdd Word.max64 budget.charged bytes).filter (· ≤ budget.limit) with
  | none => simp [hNext] at h
  | some next =>
      simp only [hNext, Except.ok.injEq] at h
      obtain ⟨hAdd, hLimit⟩ := Option.filter_eq_some_iff.mp hNext
      obtain ⟨rfl, -⟩ := Word.checkedAdd_eq_some.mp hAdd
      exact ⟨h.symm, by simpa using hLimit⟩

theorem tryReserve_eq_error {budget : MemoryBudget} {bytes : Nat} {failure : KernelError}
    (hLimit : budget.limit ≤ Word.max64) (h : budget.tryReserve bytes = .error failure) :
    budget.limit < budget.charged + bytes := by
  rw [tryReserve] at h
  by_contra hWithin
  have hNext : (Word.checkedAdd Word.max64 budget.charged bytes).filter (· ≤ budget.limit) =
      some (budget.charged + bytes) := by
    rw [Word.checkedAdd, if_pos ((not_lt.mp hWithin).trans hLimit)]
    simpa using not_lt.mp hWithin
  simp [hNext] at h

/-- A release of bytes that are charged undoes a reservation. -/
theorem release_reserved (budget : MemoryBudget) (bytes : Nat) :
    { budget with charged := budget.charged + bytes }.release bytes = budget := by
  rw [release]
  simp

end MemoryBudget

/-! Any use of a ledger. -/

inductive LedgerCall where
  | tryReserve (bytes : Nat)
  | release (bytes : Nat)

namespace MemoryBudget

/-- The ledger after a call, whether the call was granted or not. -/
def after (budget : MemoryBudget) : LedgerCall → MemoryBudget
  | .tryReserve bytes => (budget.tryReserve bytes).toOption.getD budget
  | .release bytes => budget.release bytes

theorem after_within {budget : MemoryBudget} (h : budget.charged ≤ budget.limit)
    (call : LedgerCall) :
    (budget.after call).limit = budget.limit ∧ (budget.after call).charged ≤ budget.limit := by
  cases call with
  | tryReserve bytes =>
      rw [after]
      cases hReserve : budget.tryReserve bytes with
      | error failure => exact ⟨rfl, h⟩
      | ok next =>
          obtain ⟨rfl, hWithin⟩ := tryReserve_eq_ok hReserve
          exact ⟨rfl, hWithin⟩
  | release bytes => exact ⟨rfl, (Nat.sub_le _ _).trans h⟩

/-- A ledger is never charged beyond its limit. -/
theorem foldl_within {budget : MemoryBudget} (h : budget.charged ≤ budget.limit)
    (calls : List LedgerCall) :
    (calls.foldl after budget).limit = budget.limit ∧
      (calls.foldl after budget).charged ≤ budget.limit := by
  induction calls generalizing budget with
  | nil => exact ⟨rfl, h⟩
  | cons call rest ih =>
      obtain ⟨hLimit, hWithin⟩ := after_within h call
      rw [List.foldl_cons, ← hLimit]
      exact ih (hLimit ▸ hWithin)

end MemoryBudget
end Kernel

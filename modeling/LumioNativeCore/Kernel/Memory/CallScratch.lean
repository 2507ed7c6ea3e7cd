import LumioNativeCore.Kernel.Memory.Budget
import LumioNativeCore.Library.Machine

/-! Call-local memory on a budget of its own (`memory/call_scratch.rs`): chunks that are charged
one by one and released together. -/
namespace Kernel

structure CallScratch where
  budget : MemoryBudget
  used : Nat
  chunks : List (List UInt8)
  deriving DecidableEq

namespace CallScratch

def new (budget : MemoryBudget) : CallScratch := ⟨budget, 0, []⟩

/-- No result is a panic: `vec![0u8; n]` comes between the reservation and `used`. -/
def alloc (scratch : CallScratch) (n : Nat) :
    Option (Except KernelError (List UInt8)) × CallScratch :=
  match scratch.budget.tryReserve n with
  | .error failure => (some (.error failure), scratch)
  | .ok budget =>
      if n > Word.maxIsize then (none, { scratch with budget })
      else
        (some (.ok (List.replicate n 0)),
          { budget
            used := scratch.used + n
            chunks := scratch.chunks ++ [List.replicate n 0] })

def reset (scratch : CallScratch) : CallScratch :=
  ⟨scratch.budget.release scratch.used, 0, []⟩

def charged (scratch : CallScratch) : Nat := scratch.used

end CallScratch

/-! Calls and their history. -/

inductive ScratchCall where
  | alloc (n : Nat)
  | reset

inductive ScratchAnswer where
  | allocated (slice : Option (Except KernelError (List UInt8)))
  | reset

def CallScratch.answer (scratch : CallScratch) : ScratchCall → ScratchAnswer × CallScratch
  | .alloc n =>
      let (slice, next) := scratch.alloc n
      (.allocated slice, next)
  | .reset => (.reset, scratch.reset)

/-- The slices handed out since the last reset, and the bytes of the requests that panicked. -/
structure Slices where
  held : List (List UInt8)
  lost : Nat

namespace Slices

def empty : Slices := ⟨[], 0⟩

def record (slices : Slices) : ScratchCall × ScratchAnswer → Slices
  | (.alloc _, .allocated (some (.ok slice))) => { slices with held := slices.held ++ [slice] }
  | (.alloc n, .allocated none) => { slices with lost := slices.lost + n }
  | (.reset, _) => { slices with held := [] }
  | _ => slices

def bytes (slices : Slices) : Nat := (slices.held.map List.length).sum

@[simp] theorem bytes_append (slices : Slices) (slice : List UInt8) :
    { slices with held := slices.held ++ [slice] }.bytes = slices.bytes + slice.length := by
  simp [bytes]

end Slices

/-! The budget. -/

/-- The scratch has the slices that it handed out, and its budget is charged with them and with
what was lost. -/
structure Scratches (budget : MemoryBudget) (scratch : CallScratch) (slices : Slices) : Prop where
  chunks : scratch.chunks = slices.held
  used : scratch.used = slices.bytes
  charged : scratch.budget.charged = budget.charged + slices.bytes + slices.lost
  limit : scratch.budget.limit = budget.limit
  within : scratch.budget.charged ≤ budget.limit

namespace Scratches

variable {budget : MemoryBudget} {scratch : CallScratch} {slices : Slices}
  (h : Scratches budget scratch slices)
include h

/-- What an allocation comes to: a refusal, a panic, or a chunk of zeros. -/
theorem alloc_cases (hLimit : budget.limit ≤ Word.max64) (n : Nat) :
    (budget.limit < scratch.budget.charged + n ∧
      ∃ failure, scratch.alloc n = (some (.error failure), scratch)) ∨
    (scratch.budget.charged + n ≤ budget.limit ∧ Word.maxIsize < n ∧
      scratch.alloc n = (none, { scratch with
        budget := { scratch.budget with charged := scratch.budget.charged + n } })) ∨
    (scratch.budget.charged + n ≤ budget.limit ∧ n ≤ Word.maxIsize ∧
      scratch.alloc n = (some (.ok (List.replicate n 0)),
        { budget := { scratch.budget with charged := scratch.budget.charged + n }
          used := scratch.used + n
          chunks := scratch.chunks ++ [List.replicate n 0] })) := by
  rw [CallScratch.alloc]
  cases hReserve : scratch.budget.tryReserve n with
  | error failure =>
      have hOver := MemoryBudget.tryReserve_eq_error (h.limit ▸ hLimit) hReserve
      rw [h.limit] at hOver
      exact Or.inl ⟨hOver, failure, rfl⟩
  | ok reserved =>
      obtain ⟨rfl, hWithin⟩ := MemoryBudget.tryReserve_eq_ok hReserve
      rw [h.limit] at hWithin
      dsimp only
      split_ifs with hLarge
      · exact Or.inr (Or.inl ⟨hWithin, hLarge, rfl⟩)
      · exact Or.inr (Or.inr ⟨hWithin, not_lt.mp hLarge, rfl⟩)

theorem alloc (hLimit : budget.limit ≤ Word.max64) (n : Nat) :
    Scratches budget (scratch.alloc n).2
      (slices.record (.alloc n, .allocated (scratch.alloc n).1)) := by
  have hCharged := h.charged
  rcases h.alloc_cases hLimit n with ⟨-, failure, hRefused⟩ | ⟨hWithin, -, hPanics⟩ |
    ⟨hWithin, -, hMade⟩
  · rw [hRefused]
    exact h
  · rw [hPanics]
    refine ⟨h.chunks, h.used, ?_, h.limit, hWithin⟩
    show scratch.budget.charged + n = budget.charged + slices.bytes + (slices.lost + n)
    omega
  · rw [hMade]
    refine ⟨congrArg (· ++ [List.replicate n 0]) h.chunks, ?_, ?_, h.limit, hWithin⟩
    · rw [Slices.record, Slices.bytes_append, List.length_replicate, ← h.used]
    · rw [Slices.record, Slices.bytes_append, List.length_replicate]
      show scratch.budget.charged + n = budget.charged + (slices.bytes + n) + slices.lost
      omega

/-- A reset gives back the slices, and leaves what was lost. -/
theorem reset_charged : scratch.reset.budget.charged = budget.charged + slices.lost := by
  have hCharged := h.charged
  have hUsed := h.used
  show scratch.budget.charged - scratch.used = budget.charged + slices.lost
  omega

theorem reset : Scratches budget scratch.reset { slices with held := [] } where
  chunks := rfl
  used := rfl
  charged := h.reset_charged
  limit := h.limit
  within := by
    have hCharged := h.charged
    have hWithin := h.within
    rw [h.reset_charged]
    omega

theorem answer (hLimit : budget.limit ≤ Word.max64) (call : ScratchCall) :
    Scratches budget (scratch.answer call).2 (slices.record (call, (scratch.answer call).1)) := by
  cases call with
  | alloc n => exact h.alloc hLimit n
  | reset => exact h.reset

end Scratches

theorem scratches_new {budget : MemoryBudget} (h : budget.charged ≤ budget.limit) :
    Scratches budget (.new budget) .empty where
  chunks := rfl
  used := rfl
  charged := rfl
  limit := rfl
  within := h

/-- After any calls a scratch has the slices that it handed out since the last reset, and nothing
but a request for more bytes than an allocation can have leaves a charge behind. -/
theorem CallScratch.scratch_exact (maxNativeBytes : UInt64) (prior : List LedgerCall)
    (calls : List ScratchCall) :
    let budget := prior.foldl MemoryBudget.after (.new maxNativeBytes.toNat)
    let after := Machine.run answer (new budget) calls
    let slices := after.1.foldl Slices.record .empty
    let scratch := after.2
    scratch.chunks = slices.held ∧ scratch.charged = slices.bytes ∧
    scratch.budget.charged = budget.charged + slices.bytes + slices.lost ∧
    scratch.budget.charged ≤ maxNativeBytes.toNat ∧
    (∀ n failure, (scratch.alloc n).1 = some (.error failure) →
      (scratch.alloc n).2 = scratch ∧ maxNativeBytes.toNat < scratch.budget.charged + n) ∧
    (∀ n slice, (scratch.alloc n).1 = some (.ok slice) →
      slice = List.replicate n 0 ∧ (scratch.alloc n).2.chunks = scratch.chunks ++ [slice]) ∧
    (∀ n, (scratch.alloc n).1 = none ↔
      Word.maxIsize < n ∧ scratch.budget.charged + n ≤ maxNativeBytes.toNat) ∧
    scratch.reset.chunks = [] ∧
    scratch.reset.budget.charged = budget.charged + slices.lost := by
  intro budget after slices scratch
  have hNew : (MemoryBudget.new maxNativeBytes.toNat).charged ≤ maxNativeBytes.toNat :=
    Nat.zero_le _
  obtain ⟨hSame, hWithin⟩ : budget.limit = maxNativeBytes.toNat ∧
    budget.charged ≤ maxNativeBytes.toNat := MemoryBudget.foldl_within hNew prior
  have hLimit : budget.limit ≤ Word.max64 := by
    rw [hSame]
    exact Nat.le_sub_one_of_lt maxNativeBytes.toNat_lt
  have h : Scratches budget scratch slices := by
    apply Machine.run_records (Scratches budget)
    · exact fun scratch slices call h => h.answer hLimit call
    · exact scratches_new (hWithin.trans hSame.ge)
  have hCases := h.alloc_cases hLimit
  rw [hSame] at hCases
  refine ⟨h.chunks, h.used, h.charged, h.within.trans hSame.le, ?_, ?_, ?_, rfl,
    h.reset_charged⟩
  · intro n failure hRefused
    rcases hCases n with ⟨hOver, _, hSame⟩ | ⟨-, -, hPanics⟩ | ⟨-, -, hMade⟩
    · exact ⟨by rw [hSame], hOver⟩
    · rw [hPanics] at hRefused
      cases hRefused
    · rw [hMade] at hRefused
      cases hRefused
  · intro n slice hSlice
    rcases hCases n with ⟨-, _, hRefused⟩ | ⟨-, -, hPanics⟩ | ⟨-, -, hMade⟩
    · rw [hRefused] at hSlice
      cases hSlice
    · rw [hPanics] at hSlice
      cases hSlice
    · rw [hMade] at hSlice ⊢
      obtain rfl := Except.ok.inj (Option.some.inj hSlice)
      exact ⟨rfl, rfl⟩
  · intro n
    rcases hCases n with ⟨hOver, _, hRefused⟩ | ⟨hFits, hLarge, hPanics⟩ | ⟨-, hSmall, hMade⟩
    · rw [hRefused]
      exact ⟨nofun, fun hBoth => absurd hBoth.2 (not_le.mpr hOver)⟩
    · rw [hPanics]
      exact ⟨fun _ => ⟨hLarge, hFits⟩, fun _ => rfl⟩
    · rw [hMade]
      exact ⟨nofun, fun hBoth => absurd hBoth.1 (not_lt.mpr hSmall)⟩

end Kernel

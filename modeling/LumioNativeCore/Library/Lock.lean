import Mathlib.Logic.Function.Basic

/-! Mutual exclusion by one lock. Every thread is at a stage of its code, and
`holds` says at which stages it has the lock; the lock names its holder. -/
namespace Concurrent

universe u v
variable {Thread : Type u} {Stage : Type v} {holds : Stage → Bool} {stages : Thread → Stage}
  {lock : Option Thread} {t : Thread} {next rest : Stage}

/-- The lock names exactly the thread whose stage says that it has the lock. -/
def Owned (holds : Stage → Bool) (stages : Thread → Stage) (lock : Option Thread) : Prop :=
  ∀ t, holds (stages t) = true ↔ lock = some t

/-- The stage of the holder, or `rest` while the lock is free. -/
def holder (rest : Stage) (stages : Thread → Stage) (lock : Option Thread) : Stage :=
  match lock with
  | some t => stages t
  | none => rest

@[simp] theorem holder_none (rest : Stage) (stages : Thread → Stage) :
    holder rest stages none = rest := rfl

@[simp] theorem holder_some (rest : Stage) (stages : Thread → Stage) (t : Thread) :
    holder rest stages (some t) = stages t := rfl

theorem owned_free (hFree : ∀ t, holds (stages t) = false) : Owned holds stages none := by
  intro t
  simp [hFree t]

theorem Owned.unique (h : Owned holds stages lock) {t t' : Thread} (ht : holds (stages t) = true)
    (ht' : holds (stages t') = true) : t = t' := by
  have hLock := (h t).mp ht
  rw [(h t').mp ht'] at hLock
  exact (Option.some.inj hLock).symm

theorem Owned.holder_eq (h : Owned holds stages lock) (ht : holds (stages t) = true) :
    holder rest stages lock = stages t := by
  rw [(h t).mp ht, holder_some]

section Update

variable [DecidableEq Thread]

/-- A thread moves on without touching the lock. -/
theorem Owned.keep (h : Owned holds stages lock) (hSame : holds next = holds (stages t)) :
    Owned holds (Function.update stages t next) lock := by
  intro t'
  by_cases hThread : t' = t
  · subst hThread
    rw [Function.update_self, hSame]
    exact h t'
  · rw [Function.update_of_ne hThread]
    exact h t'

theorem Owned.acquire (h : Owned holds stages lock) (hFree : lock = none)
    (hNext : holds next = true) : Owned holds (Function.update stages t next) (some t) := by
  intro t'
  by_cases hThread : t' = t
  · subst hThread
    simp [hNext]
  · rw [Function.update_of_ne hThread, h t', hFree]
    simp [Ne.symm hThread]

theorem Owned.release (h : Owned holds stages lock) (hHeld : holds (stages t) = true)
    (hNext : holds next = false) : Owned holds (Function.update stages t next) none := by
  intro t'
  by_cases hThread : t' = t
  · subst hThread
    simp [hNext]
  · have hOther : ¬holds (stages t') = true := fun ht' => hThread (h.unique ht' hHeld)
    rw [Function.update_of_ne hThread]
    simp [hOther]

theorem Owned.holder_keep (h : Owned holds stages lock) (hHeld : holds (stages t) = true) :
    holder rest (Function.update stages t next) lock = next := by
  rw [(h t).mp hHeld, holder_some, Function.update_self]

/-- What another thread does leaves the holder where it is. -/
theorem Owned.holder_other (h : Owned holds stages lock) (hOut : holds (stages t) = false) :
    holder rest (Function.update stages t next) lock = holder rest stages lock := by
  cases lock with
  | none => rfl
  | some t' =>
      have hThread : t' ≠ t := by
        rintro rfl
        rw [(h t').mpr rfl] at hOut
        cases hOut
      rw [holder_some, holder_some, Function.update_of_ne hThread]

end Update
end Concurrent

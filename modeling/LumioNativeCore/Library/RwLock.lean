import Mathlib.Data.Finset.Basic

/-! A lock that many readers or one writer can hold. Every thread is at a stage of its code,
and `mode` says in which mode it holds the lock there. -/
namespace Concurrent

universe u v

inductive Mode where
  | read
  | write
  deriving DecidableEq, Repr

structure RwLock (Thread : Type u) where
  writer : Option Thread
  readers : Finset Thread

namespace RwLock

variable {Thread : Type u}

def unlocked : RwLock Thread := ⟨none, ∅⟩

def Free (lock : RwLock Thread) : Prop := lock.writer = none ∧ lock.readers = ∅

/-- Whether a guard of this mode is handed out. -/
def Grants (lock : RwLock Thread) : Mode → Prop
  | .read => lock.writer = none
  | .write => lock.Free

variable [DecidableEq Thread]

def acquire (lock : RwLock Thread) (t : Thread) : Mode → RwLock Thread
  | .read => { lock with readers := insert t lock.readers }
  | .write => { lock with writer := some t }

def release (lock : RwLock Thread) (t : Thread) : Mode → RwLock Thread
  | .read => { lock with readers := lock.readers.erase t }
  | .write => { lock with writer := none }

end RwLock

variable {Thread : Type u} {Stage : Type v} {mode : Stage → Option Mode}
  {stages : Thread → Stage} {lock : RwLock Thread} {t : Thread} {next : Stage} {m : Mode}

/-- The lock lists exactly the threads whose stage says that they hold it. -/
structure RwOwned (mode : Stage → Option Mode) (stages : Thread → Stage) (lock : RwLock Thread) :
    Prop where
  writer : ∀ t, mode (stages t) = some .write ↔ lock.writer = some t
  readers : ∀ t, mode (stages t) = some .read ↔ t ∈ lock.readers
  exclusive : lock.writer ≠ none → lock.readers = ∅

theorem rwOwned_unlocked (hFree : ∀ t, mode (stages t) = none) :
    RwOwned mode stages .unlocked where
  writer t := by simp [hFree t, RwLock.unlocked]
  readers t := by simp [hFree t, RwLock.unlocked]
  exclusive h := absurd rfl h

namespace RwOwned

theorem free (h : RwOwned mode stages lock) (hFree : lock.Free) (t : Thread) :
    mode (stages t) = none := by
  cases hMode : mode (stages t) with
  | none => rfl
  | some m =>
      cases m with
      | read =>
          have hReader := (h.readers t).mp hMode
          rw [hFree.2] at hReader
          simp at hReader
      | write =>
          have hWriter := (h.writer t).mp hMode
          rw [hFree.1] at hWriter
          cases hWriter

/-- A writer is alone. -/
theorem alone (h : RwOwned mode stages lock) (ht : mode (stages t) = some .write) {t' : Thread}
    (hOther : t' ≠ t) : mode (stages t') = none := by
  have hWriter := (h.writer t).mp ht
  cases hMode : mode (stages t') with
  | none => rfl
  | some m =>
      cases m with
      | read =>
          have hReader := (h.readers t').mp hMode
          rw [h.exclusive (by simp [hWriter])] at hReader
          simp at hReader
      | write =>
          have hSame := (h.writer t').mp hMode
          rw [hWriter] at hSame
          exact absurd (Option.some.inj hSame).symm hOther

/-- While a thread holds the lock, no other gets it to write. -/
theorem not_free (h : RwOwned mode stages lock) (ht : mode (stages t) = some m) : ¬lock.Free := by
  intro hFree
  rw [h.free hFree t] at ht
  cases ht

section Update

variable [DecidableEq Thread]

theorem keep (h : RwOwned mode stages lock) (hSame : mode next = mode (stages t)) :
    RwOwned mode (Function.update stages t next) lock := by
  have hModes : ∀ t', mode (Function.update stages t next t') = mode (stages t') := by
    intro t'
    by_cases hThread : t' = t
    · rw [hThread, Function.update_self, hSame]
    · rw [Function.update_of_ne hThread]
  exact ⟨fun t' => by rw [hModes, h.writer], fun t' => by rw [hModes, h.readers], h.exclusive⟩

theorem acquire (h : RwOwned mode stages lock) (hOut : mode (stages t) = none)
    (hGrants : lock.Grants m) (hNext : mode next = some m) :
    RwOwned mode (Function.update stages t next) (lock.acquire t m) := by
  cases m with
  | read =>
      refine ⟨fun t' => ?_, fun t' => ?_, fun hWriter => absurd hGrants hWriter⟩
      · by_cases hThread : t' = t
        · subst hThread
          simp [hNext, RwLock.acquire, show lock.writer = none from hGrants]
        · rw [Function.update_of_ne hThread, h.writer]
          rfl
      · by_cases hThread : t' = t
        · subst hThread
          simp [hNext, RwLock.acquire]
        · rw [Function.update_of_ne hThread, h.readers]
          simp [RwLock.acquire, hThread]
  | write =>
      refine ⟨fun t' => ?_, fun t' => ?_, fun _ => hGrants.2⟩
      · by_cases hThread : t' = t
        · subst hThread
          simp [hNext, RwLock.acquire]
        · rw [Function.update_of_ne hThread, h.free hGrants]
          simp [RwLock.acquire, Ne.symm hThread]
      · by_cases hThread : t' = t
        · subst hThread
          simp [hNext, RwLock.acquire, hGrants.2]
        · rw [Function.update_of_ne hThread, h.readers]
          rfl

theorem release (h : RwOwned mode stages lock) (hHeld : mode (stages t) = some m)
    (hNext : mode next = none) :
    RwOwned mode (Function.update stages t next) (lock.release t m) := by
  cases m with
  | read =>
      have hReader := (h.readers t).mp hHeld
      have hWriter : lock.writer = none := by
        by_contra hSome
        rw [h.exclusive hSome] at hReader
        simp at hReader
      refine ⟨fun t' => ?_, fun t' => ?_, fun hSome => absurd hWriter hSome⟩
      · by_cases hThread : t' = t
        · subst hThread
          simp [hNext, RwLock.release, hWriter]
        · rw [Function.update_of_ne hThread, h.writer]
          rfl
      · by_cases hThread : t' = t
        · subst hThread
          simp [hNext, RwLock.release]
        · rw [Function.update_of_ne hThread, h.readers]
          simp [RwLock.release, hThread]
  | write =>
      have hEmpty := h.exclusive (by simp [(h.writer t).mp hHeld])
      refine ⟨fun t' => ?_, fun t' => ?_, fun _ => hEmpty⟩
      · by_cases hThread : t' = t
        · subst hThread
          simp [hNext, RwLock.release]
        · rw [Function.update_of_ne hThread, h.alone hHeld hThread]
          simp [RwLock.release]
      · by_cases hThread : t' = t
        · subst hThread
          simp [hNext, RwLock.release, hEmpty]
        · rw [Function.update_of_ne hThread, h.readers]
          rfl

end Update

end RwOwned
end Concurrent

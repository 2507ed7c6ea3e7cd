import LumioNativeCore.Library.Word

/-! Logs that keep at most `capacity` entries and count, up to `max`, the ones they had no room
for. A reader may take what is kept, which leaves the count, or reset the log. -/

structure BoundedLog (α : Type*) where
  kept : List α
  dropped : Nat

namespace BoundedLog

variable {α : Type*}

def empty : BoundedLog α := ⟨[], 0⟩

def push (max capacity : Nat) (log : BoundedLog α) (entry : α) : BoundedLog α :=
  if log.kept.length < capacity then { log with kept := log.kept ++ [entry] }
  else { log with dropped := Word.saturatingAdd max log.dropped 1 }

/-- What is done with a log in one step. -/
inductive Act (α : Type*) where
  | write (entries : List α)
  | take
  | reset
  | idle

def Act.apply (max capacity : Nat) (log : BoundedLog α) : Act α → BoundedLog α
  | write entries => entries.foldl (push max capacity) log
  | take => { log with kept := [] }
  | reset => empty
  | idle => log

/-- What was written since the last reset, cut at the takes. -/
structure Epochs (α : Type*) where
  closed : List (List α)
  current : List α

namespace Epochs

def start : Epochs α := ⟨[], []⟩

def act (epochs : Epochs α) : Act α → Epochs α
  | .write entries => { epochs with current := epochs.current ++ entries }
  | .take => ⟨epochs.closed ++ [epochs.current], []⟩
  | .reset => start
  | .idle => epochs

/-- The entries that came after the first `capacity` of their epoch. -/
def missed (capacity : Nat) (epochs : Epochs α) : List α :=
  (epochs.closed ++ [epochs.current]).flatMap (List.drop capacity)

theorem missed_write (capacity : Nat) (epochs : Epochs α) (entry : α) :
    ((epochs.act (.write [entry])).missed capacity).length =
      (epochs.missed capacity).length + if epochs.current.length < capacity then 0 else 1 := by
  simp only [missed, act, List.flatMap_append, List.flatMap_singleton, List.length_append,
    List.length_drop, List.length_singleton]
  split_ifs <;> omega

theorem missed_take (capacity : Nat) (epochs : Epochs α) :
    (epochs.act .take).missed capacity = epochs.missed capacity := by
  simp [missed, act]

end Epochs

/-- The log holds what the epochs leave: of each the first `capacity` entries were kept, and
the others were counted. -/
structure Shows (max capacity : Nat) (epochs : Epochs α) (log : BoundedLog α) : Prop where
  kept : log.kept = epochs.current.take capacity
  dropped : log.dropped = min max (epochs.missed capacity).length

theorem shows_empty (max capacity : Nat) : Shows max capacity (.start : Epochs α) .empty :=
  ⟨List.take_nil.symm, by simp [empty, Epochs.missed, Epochs.start]⟩

theorem Shows.push {max capacity : Nat} {epochs : Epochs α} {log : BoundedLog α}
    (h : Shows max capacity epochs log) (entry : α) :
    Shows max capacity (epochs.act (.write [entry])) (log.push max capacity entry) := by
  have hLength : log.kept.length = min capacity epochs.current.length := by
    rw [h.kept, List.length_take]
  have hMissed := epochs.missed_write capacity entry
  rw [BoundedLog.push]
  by_cases hRoom : log.kept.length < capacity
  · have hShort : epochs.current.length < capacity := by omega
    rw [if_pos hRoom]
    constructor
    · have hLong : (epochs.current ++ [entry]).length ≤ capacity := by
        rw [List.length_append, List.length_singleton]
        exact hShort
      rw [Epochs.act, List.take_of_length_le hLong, h.kept, List.take_of_length_le hShort.le]
    · rw [hMissed, if_pos hShort]
      exact h.dropped
  · have hFull : ¬epochs.current.length < capacity := by omega
    rw [if_neg hRoom]
    constructor
    · rw [Epochs.act, List.take_append_of_le_length (Nat.not_lt.mp hFull)]
      exact h.kept
    · have hDropped := h.dropped
      rw [hMissed, if_neg hFull]
      simp only [Word.saturatingAdd]
      omega

theorem Shows.write {max capacity : Nat} {epochs : Epochs α} {log : BoundedLog α}
    (h : Shows max capacity epochs log) (entries : List α) :
    Shows max capacity (epochs.act (.write entries))
      ((Act.write entries).apply max capacity log) := by
  induction entries generalizing epochs log with
  | nil =>
      rw [Epochs.act, List.append_nil]
      exact h
  | cons entry rest ih =>
      have hRest := ih (h.push entry)
      have hSplit : (epochs.act (.write [entry])).act (.write rest) =
          epochs.act (.write (entry :: rest)) := by
        simp [Epochs.act]
      rw [hSplit] at hRest
      exact hRest

theorem Shows.act {max capacity : Nat} {epochs : Epochs α} {log : BoundedLog α}
    (h : Shows max capacity epochs log) (act : Act α) :
    Shows max capacity (epochs.act act) (act.apply max capacity log) := by
  cases act with
  | write entries => exact h.write entries
  | take =>
      refine ⟨List.take_nil.symm, ?_⟩
      rw [Epochs.missed_take]
      exact h.dropped
  | reset => exact shows_empty max capacity
  | idle => exact h

end BoundedLog

import Mathlib.Data.List.Chain
import Mathlib.Data.List.DropRight
import Mathlib.Data.List.Sort

/-! Buffers of records: what is written to the front of a caller's buffer, records
laid out one after the other, and equal neighbours of a sorted list. -/
namespace Buffer

universe u v
variable {α : Type u} {β : Type v}

/-- `buffer[..written.len()].copy_from_slice(written)`. -/
def overwrite (buffer written : List α) : List α := written ++ buffer.drop written.length

/-- `buffer[start..start + length]`. -/
def slice (buffer : List α) (start length : Nat) : List α := (buffer.drop start).take length

/-- `buffer.resize(length, a)`. -/
def resize (buffer : List α) (length : Nat) (a : α) : List α :=
  buffer.take length ++ List.replicate (length - buffer.length) a

@[simp] theorem length_resize (buffer : List α) (length : Nat) (a : α) :
    (resize buffer length a).length = length := by
  rw [resize, List.length_append, List.length_take, List.length_replicate]
  omega

theorem length_overwrite {buffer written : List α} (h : written.length ≤ buffer.length) :
    (overwrite buffer written).length = buffer.length := by
  rw [overwrite, List.length_append, List.length_drop]
  omega

theorem take_overwrite (buffer written : List α) :
    (overwrite buffer written).take written.length = written := List.take_left

theorem drop_overwrite (buffer written : List α) :
    (overwrite buffer written).drop written.length = buffer.drop written.length := List.drop_left

theorem overwrite_overwrite (buffer : List α) {written written' : List α}
    (h : written.length = written'.length) :
    overwrite (overwrite buffer written) written' = overwrite buffer written' := by
  rw [overwrite, ← h, drop_overwrite, h]
  rfl

theorem slice_append (before written after : List α) :
    slice (before ++ written ++ after) before.length written.length = written := by
  rw [slice, List.append_assoc, List.drop_left, List.take_left]

/-! Records of several owners, one owner after the other. -/

/-- Where the records of the owner at one position start. -/
def start (content : α → List β) (owners : List α) (i : Nat) : Nat :=
  ((owners.take i).flatMap content).length

theorem start_succ (content : α → List β) {owners : List α} {i : Nat} {owner : α}
    (h : owners[i]? = some owner) :
    start content owners (i + 1) = start content owners i + (content owner).length := by
  rw [start, start, List.take_add_one, h, Option.toList_some, List.flatMap_append,
    List.length_append, List.flatMap_singleton]

theorem start_length (content : α → List β) (owners : List α) :
    start content owners owners.length = (owners.flatMap content).length := by
  rw [start, List.take_length]

theorem start_le (content : α → List β) {owners : List α} {i : Nat} {owner : α}
    (h : owners[i]? = some owner) :
    start content owners i + (content owner).length ≤ (owners.flatMap content).length := by
  rw [← start_succ content h, start]
  have hSplit : owners.flatMap content =
      (owners.take (i + 1)).flatMap content ++ (owners.drop (i + 1)).flatMap content := by
    rw [← List.flatMap_append, List.take_append_drop]
  rw [hSplit, List.length_append]
  exact Nat.le_add_right _ _

/-- An owner finds its records between those before it and those after it. -/
theorem slice_start (content : α → List β) {owners : List α} {i : Nat} {owner : α}
    (h : owners[i]? = some owner) (rest : List β) :
    slice (owners.flatMap content ++ rest) (start content owners i) (content owner).length =
      content owner := by
  obtain ⟨hIndex, hOwner⟩ := List.getElem?_eq_some_iff.mp h
  have hSplit : owners.flatMap content ++ rest = (owners.take i).flatMap content ++
      content owner ++ ((owners.drop (i + 1)).flatMap content ++ rest) := by
    have hOwners : owners = owners.take i ++ owner :: owners.drop (i + 1) := by
      rw [← hOwner, ← List.drop_eq_getElem_cons hIndex, List.take_append_drop]
    conv_lhs => rw [hOwners]
    rw [List.flatMap_append, List.flatMap_cons]
    simp only [List.append_assoc]
  rw [hSplit, start, slice_append]

/-! A window over the newest elements. -/

/-- The oldest element leaves a full window when one is pushed. -/
def push (window : List α) (capacity : Nat) (a : α) : List α :=
  (if window.length = capacity then window.tail else window) ++ [a]

theorem push_rtake (list : List α) {capacity : Nat} (h : 0 < capacity) (a : α) :
    push (list.rtake capacity) capacity a = (list ++ [a]).rtake capacity := by
  obtain ⟨n, rfl⟩ := Nat.exists_eq_succ_of_ne_zero h.ne'
  rw [push, List.rtake_concat_succ]
  congr 1
  have hLength : (list.rtake (n + 1)).length = min (n + 1) list.length := by
    rw [List.rtake, List.length_drop]
    omega
  rw [hLength]
  split_ifs with hFull
  · rw [List.rtake, List.tail_drop, List.rtake]
    congr 1
    omega
  · rw [List.rtake, List.rtake]
    congr 1
    omega

/-! Neighbours. -/

/-- `windows(2)`. -/
def windows (list : List α) : List (α × α) := list.zip list.tail

theorem find_windows_eq_none [DecidableEq α] (list : List α) :
    ((windows list).find? fun pair => decide (pair.1 = pair.2)) = none ↔
      list.IsChain (· ≠ ·) := by
  induction list with
  | nil => simp [windows]
  | cons a rest ih =>
      cases rest with
      | nil => simp [windows]
      | cons b rest =>
          have hWindows : windows (a :: b :: rest) = (a, b) :: windows (b :: rest) := rfl
          rw [hWindows, List.find?_cons, List.isChain_cons_cons, ← ih]
          by_cases h : a = b
          · simp [h]
          · simp [h]

theorem increasing_of_isChain [LinearOrder α] {list : List α} (hSorted : list.Pairwise (· ≤ ·))
    (hChain : list.IsChain (· ≠ ·)) : list.IsChain (· < ·) := by
  induction list with
  | nil => exact .nil
  | cons a rest ih =>
      rw [List.pairwise_cons] at hSorted
      rw [List.isChain_cons] at hChain ⊢
      refine ⟨fun b hb => ?_, ih hSorted.2 hChain.2⟩
      exact lt_of_le_of_ne (hSorted.1 b (List.mem_of_mem_head? hb)) (hChain.1 b hb)

/-- A sorted list without equal neighbours has no equal elements at all. -/
theorem find_windows_sort_eq_none [LinearOrder α] (list : List α) :
    ((windows (list.insertionSort (· ≤ ·))).find? fun pair => decide (pair.1 = pair.2)) = none ↔
      list.Nodup := by
  rw [find_windows_eq_none, ← (List.perm_insertionSort (· ≤ ·) list).nodup_iff]
  have hSorted := List.pairwise_insertionSort (· ≤ ·) list
  constructor
  · intro hChain
    exact (increasing_of_isChain hSorted hChain).pairwise.imp fun hLess => ne_of_lt hLess
  · intro hNodup
    exact List.Pairwise.isChain hNodup

end Buffer

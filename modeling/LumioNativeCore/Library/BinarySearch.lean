import Mathlib.Order.Defs.LinearOrder
import Mathlib.Tactic

/-! Binary search of a sorted slice, with a loop that does not stop early: each turn halves
the window and only the last comparison tells whether the key is there. -/
namespace BinarySearch

universe u
variable {α : Type u} [LinearOrder α] {slice : List α} {key : α}

/-- Where the window of `size` elements from `base` has shrunk to one. -/
def narrow (slice : List α) (key : α) (base size : Nat) (hWindow : base + size ≤ slice.length) :
    Nat :=
  if hLong : 1 < size then
    have hMid : base + size / 2 < slice.length := by omega
    if key < slice[base + size / 2] then
      narrow slice key base (size - size / 2) (by omega)
    else
      narrow slice key (base + size / 2) (size - size / 2) (by omega)
  else base
termination_by size

/-- `binary_search`: where the key is, or else where it could be inserted. -/
def search (slice : List α) (key : α) : Except Nat Nat :=
  let base := narrow slice key 0 slice.length (by omega)
  match slice[base]? with
  | none => .error 0
  | some found =>
      if found = key then .ok base
      else .error (if found < key then base + 1 else base)

/-- What is known of a window: the key is below all that follows it, and not below its first
element unless that is the first of the slice. -/
structure Window (slice : List α) (key : α) (base size : Nat) : Prop where
  within : base + size ≤ slice.length
  above : ∀ i (h : i < slice.length), base + size ≤ i → key < slice[i]
  below : ∀ h : base < slice.length, base = 0 ∨ slice[base] ≤ key

theorem Window.all (slice : List α) (key : α) : Window slice key 0 slice.length where
  within := by omega
  above i h hOut := by omega
  below _ := Or.inl rfl

theorem le_of_sorted (hSorted : slice.Pairwise (· ≤ ·)) {i j : Nat} (hOrder : i ≤ j)
    (hBound : j < slice.length) : slice[i] ≤ slice[j] := by
  rcases hOrder.lt_or_eq with hLess | rfl
  · exact List.pairwise_iff_getElem.mp hSorted i j (hOrder.trans_lt hBound) hBound hLess
  · exact le_rfl

/-- A turn that goes left. -/
theorem Window.left (hSorted : slice.Pairwise (· ≤ ·)) {base size : Nat}
    (h : Window slice key base size) (hLong : 1 < size) (hMid : base + size / 2 < slice.length)
    (hLess : key < slice[base + size / 2]) : Window slice key base (size - size / 2) where
  within := by
    have := h.within
    omega
  above i hBound hOut := hLess.trans_le (le_of_sorted hSorted (by omega) hBound)
  below := h.below

/-- A turn that goes right. -/
theorem Window.right {base size : Nat} (h : Window slice key base size)
    (hMid : base + size / 2 < slice.length) (hNot : ¬key < slice[base + size / 2]) :
    Window slice key (base + size / 2) (size - size / 2) where
  within := by
    have := h.within
    omega
  above i hBound hOut := h.above i hBound (by omega)
  below _ := Or.inr (not_lt.mp hNot)

/-- The loop ends at a window of one element. -/
theorem Window.narrow (hSorted : slice.Pairwise (· ≤ ·)) {base size : Nat}
    (h : Window slice key base size) (hSize : 0 < size) :
    Window slice key (narrow slice key base size h.within) 1 := by
  fun_induction BinarySearch.narrow slice key base size h.within with
  | case1 base size hWindow hLong hMid hLess ih =>
      exact ih (h.left hSorted hLong hMid hLess) (by omega)
  | case2 base size hWindow hLong hMid hNot ih =>
      exact ih (h.right hMid hNot) (by omega)
  | case3 base size hWindow hShort =>
      obtain rfl : size = 1 := by omega
      exact h

/-- What is found is there, and at the place that is given instead the elements before are
smaller and those from there on are larger. -/
theorem search_spec (hSorted : slice.Pairwise (· ≤ ·)) (key : α) :
    match search slice key with
    | .ok i => slice[i]? = some key
    | .error i => i ≤ slice.length ∧ (∀ j (h : j < slice.length), j < i → slice[j] < key) ∧
        ∀ j (h : j < slice.length), i ≤ j → key < slice[j] := by
  cases slice with
  | nil =>
      rw [search]
      exact ⟨le_rfl, nofun, nofun⟩
  | cons first rest =>
      have hWindow := (Window.all (first :: rest) key).narrow hSorted (Nat.succ_pos _)
      rw [search]
      generalize BinarySearch.narrow (first :: rest) key 0 (first :: rest).length _ = base
        at hWindow ⊢
      have hBound : base < (first :: rest).length := hWindow.within
      rw [List.getElem?_eq_getElem hBound]
      dsimp only
      split_ifs with hFound hLess
      · exact (List.getElem?_eq_getElem hBound).trans (congrArg some hFound)
      · refine ⟨hBound, fun j h hBefore => ?_, fun j h hAfter => hWindow.above j h hAfter⟩
        exact (le_of_sorted hSorted (by omega) hBound).trans_lt hLess
      · have hGreater : key < (first :: rest)[base] :=
          lt_of_le_of_ne (not_lt.mp hLess) (Ne.symm hFound)
        rcases hWindow.below hBound with rfl | hBelow
        · refine ⟨Nat.zero_le _, nofun, fun j h hAfter => ?_⟩
          exact hGreater.trans_le (le_of_sorted hSorted hAfter h)
        · exact absurd hGreater (not_lt.mpr hBelow)

/-- The search decides membership. -/
theorem search_isOk (hSorted : slice.Pairwise (· ≤ ·)) (key : α) :
    (search slice key).isOk = true ↔ key ∈ slice := by
  have hSpec := search_spec hSorted key
  cases hSearch : search slice key with
  | ok i =>
      rw [hSearch] at hSpec
      exact ⟨fun _ => List.mem_of_getElem? hSpec, fun _ => rfl⟩
  | error i =>
      rw [hSearch] at hSpec
      obtain ⟨-, hBefore, hAfter⟩ := hSpec
      refine ⟨nofun, fun hMem => ?_⟩
      obtain ⟨j, hBound, rfl⟩ := List.mem_iff_getElem.mp hMem
      rcases lt_or_ge j i with hLess | hGreater
      · exact absurd (hBefore j hBound hLess) (lt_irrefl _)
      · exact absurd (hAfter j hBound hGreater) (lt_irrefl _)

end BinarySearch

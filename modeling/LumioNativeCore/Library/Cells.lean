import Mathlib.Data.List.Perm.Basic

/-! Vectors of cells, one of which is written at a time. -/
namespace Cells

universe u v
variable {α : Type u} {β : Type v}

/-- Writing one cell changes a count by what that cell contributes. -/
theorem countP_modify (p : α → Bool) (f : α → α) {cells : List α} {i : Nat} {a : α}
    (h : cells[i]? = some a) :
    (cells.modify i f).countP p + (if p a then 1 else 0) =
      cells.countP p + (if p (f a) then 1 else 0) := by
  induction cells generalizing i with
  | nil => simp at h
  | cons b rest ih =>
      cases i with
      | zero =>
          obtain rfl : b = a := by simpa using h
          rw [List.modify_zero_cons, List.countP_cons, List.countP_cons]
          omega
      | succ i =>
          have := ih (i := i) (by simpa using h)
          rw [List.modify_succ_cons, List.countP_cons, List.countP_cons]
          omega

/-- A write that the count does not see. -/
theorem countP_modify_of_eq {p : α → Bool} {f : α → α} (hf : ∀ a, p (f a) = p a)
    (cells : List α) (i : Nat) : (cells.modify i f).countP p = cells.countP p := by
  cases h : cells[i]? with
  | none => rw [List.modify_eq_self (by simpa using h)]
  | some a =>
      have := countP_modify p f h
      rw [hf] at this
      omega

/-- Appending to what one cell holds appends to what all hold, up to order. -/
theorem flatMap_modify {content : α → List β} {f : α → α} {b : β}
    (hf : ∀ a, content (f a) = content a ++ [b]) {cells : List α} {i : Nat}
    (h : i < cells.length) :
    ((cells.modify i f).flatMap content).Perm (cells.flatMap content ++ [b]) := by
  induction cells generalizing i with
  | nil => simp at h
  | cons a rest ih =>
      cases i with
      | zero =>
          rw [List.modify_zero_cons, List.flatMap_cons, List.flatMap_cons, hf,
            List.append_assoc, List.append_assoc]
          exact List.Perm.append_left _ List.perm_append_comm
      | succ i =>
          rw [List.modify_succ_cons, List.flatMap_cons, List.flatMap_cons, List.append_assoc]
          exact List.Perm.append_left _ (ih (by simpa using h))

end Cells

import LumioNativeCore.Kernel.Error
import LumioNativeCore.Library.Word

/-! Owned bounded copies of diagnostic records (`record.rs`). -/
namespace Diagnostics

open Kernel

/-- A field is known by its bytes. -/
structure KernelRecordRef where
  fields : List (List UInt8)
  payload : List UInt8
  deriving DecidableEq, Repr

structure OwnedKernelRecord where
  fieldBytes : List UInt8
  fieldEnds : List Nat
  payload : List UInt8
  deriving DecidableEq, Repr

def exceeded (limit requested : Nat) : KernelError :=
  ⟨.capacityExceeded, .limitExceeded limit requested⟩

/-- The loop of `copied_byte_len`. -/
def addLengths : List (List UInt8) → Nat → Option Nat
  | [], total => some total
  | field :: rest, total =>
      (Word.checkedAdd Word.max64 total field.length).bind (addLengths rest)

def copiedByteLen (r : KernelRecordRef) : Option Nat :=
  (addLengths r.fields 0).bind fun total => Word.checkedAdd Word.max64 total r.payload.length

/-- The loop of `try_from_ref`. -/
def copyFields : List (List UInt8) → List UInt8 × List Nat → List UInt8 × List Nat
  | [], copied => copied
  | field :: rest, (bytes, ends) =>
      copyFields rest (bytes ++ field, ends ++ [(bytes ++ field).length])

namespace OwnedKernelRecord

def copyOf (r : KernelRecordRef) : OwnedKernelRecord where
  fieldBytes := (copyFields r.fields ([], [])).1
  fieldEnds := (copyFields r.fields ([], [])).2
  payload := r.payload

/-- No result is a panic of `Vec::with_capacity`. The fields of a record may share their bytes, so
that together they are more than an allocation can have. -/
def tryFromRef (r : KernelRecordRef) (maxFields maxBytes : Nat) :
    Option (Except KernelError OwnedKernelRecord) :=
  if r.fields.length > maxFields then some (.error (exceeded maxFields r.fields.length))
  else
    match copiedByteLen r with
    | none => some (.error (exceeded maxBytes Word.max64))
    | some totalBytes =>
        if totalBytes > maxBytes then some (.error (exceeded maxBytes totalBytes))
        else if totalBytes - r.payload.length > Word.maxIsize then none
        else some (.ok (copyOf r))

def fieldCount (record : OwnedKernelRecord) : Nat := record.fieldEnds.length

def byteLen (record : OwnedKernelRecord) : Nat :=
  record.fieldBytes.length + record.payload.length

end OwnedKernelRecord

/-! What a copy stands for. -/

/-- The pieces of a text between their ends. -/
def slices (bytes : List UInt8) : Nat → List Nat → List (List UInt8)
  | _, [] => []
  | start, stop :: rest => bytes.extract start stop :: slices bytes stop rest

/-- The record of which this is a copy. -/
def OwnedKernelRecord.original (record : OwnedKernelRecord) : KernelRecordRef where
  fields := slices record.fieldBytes 0 record.fieldEnds
  payload := record.payload

/-- The bytes of a record, in exact arithmetic. -/
def KernelRecordRef.size (r : KernelRecordRef) : Nat := r.fields.flatten.length + r.payload.length

/-- The checked sum is the exact one, or that does not fit. -/
theorem addLengths_eq (fields : List (List UInt8)) {total : Nat} (h : total ≤ Word.max64) :
    addLengths fields total =
      if total + fields.flatten.length ≤ Word.max64 then some (total + fields.flatten.length)
      else none := by
  induction fields generalizing total with
  | nil => exact (if_pos h).symm
  | cons field rest ih =>
      rw [addLengths, List.flatten_cons, List.length_append, ← Nat.add_assoc]
      cases hField : Word.checkedAdd Word.max64 total field.length with
      | none =>
          have hOver := Word.checkedAdd_eq_none.mp hField
          rw [if_neg (by omega)]
          rfl
      | some next =>
          obtain ⟨rfl, hFits⟩ := Word.checkedAdd_eq_some.mp hField
          exact ih hFits

theorem copiedByteLen_eq (r : KernelRecordRef) :
    copiedByteLen r = if r.size ≤ Word.max64 then some r.size else none := by
  rw [copiedByteLen, addLengths_eq r.fields (Nat.zero_le _), Nat.zero_add, KernelRecordRef.size]
  split_ifs with hFields hSize hSize
  · exact Word.checkedAdd_eq_some.mpr ⟨rfl, hSize⟩
  · exact Word.checkedAdd_eq_none.mpr (Nat.lt_of_not_le hSize)
  · omega
  · rfl

/-- The ends that are pushed do not depend on those before them. -/
theorem copyFields_eq (fields : List (List UInt8)) (bytes : List UInt8) (ends : List Nat) :
    copyFields fields (bytes, ends) =
      (bytes ++ fields.flatten, ends ++ (copyFields fields (bytes, [])).2) := by
  induction fields generalizing bytes ends with
  | nil => simp [copyFields]
  | cons field rest ih =>
      rw [copyFields, copyFields, ih, ih _ ([] ++ _)]
      simp

theorem copyFields_ends (field : List UInt8) (rest : List (List UInt8)) (bytes : List UInt8) :
    (copyFields (field :: rest) (bytes, [])).2 =
      (bytes ++ field).length :: (copyFields rest (bytes ++ field, [])).2 := by
  rw [copyFields, copyFields_eq]
  rfl

theorem slices_copyFields (fields : List (List UInt8)) (bytes : List UInt8) :
    slices (bytes ++ fields.flatten) bytes.length (copyFields fields (bytes, [])).2 = fields := by
  induction fields generalizing bytes with
  | nil => rfl
  | cons field rest ih =>
      have hRest := ih (bytes ++ field)
      rw [List.append_assoc] at hRest
      rw [copyFields_ends, slices, List.flatten_cons, hRest]
      simp [List.extract_eq_take_drop]

namespace OwnedKernelRecord

theorem copyOf_original (r : KernelRecordRef) : (copyOf r).original = r := by
  have hFields := slices_copyFields r.fields []
  rw [original, copyOf, copyFields_eq]
  exact congrArg (fun fields => (⟨fields, r.payload⟩ : KernelRecordRef)) hFields

theorem copyOf_byteLen (r : KernelRecordRef) : (copyOf r).byteLen = r.size := by
  rw [byteLen, copyOf, copyFields_eq]
  rfl

theorem copyFields_count (fields : List (List UInt8)) (bytes : List UInt8) :
    (copyFields fields (bytes, [])).2.length = fields.length := by
  induction fields generalizing bytes with
  | nil => rfl
  | cons field rest ih => rw [copyFields_ends, List.length_cons, List.length_cons, ih]

/-- A record is copied exactly if it has no more fields and bytes than allowed, and the copy
is the record; otherwise the error names the limit that was passed, the fields first. Fields of
more bytes than an allocation can have panic if they are allowed. -/
theorem tryFromRef_eq (r : KernelRecordRef) (maxFields : Nat) {maxBytes : Nat}
    (hBytes : maxBytes ≤ Word.max64) :
    (r.fields.length > maxFields ∧
      tryFromRef r maxFields maxBytes = some (.error (exceeded maxFields r.fields.length))) ∨
    (r.fields.length ≤ maxFields ∧ r.size > maxBytes ∧
      tryFromRef r maxFields maxBytes =
        some (.error (exceeded maxBytes (min r.size Word.max64)))) ∨
    (r.fields.length ≤ maxFields ∧ r.size ≤ maxBytes ∧ r.fields.flatten.length > Word.maxIsize ∧
      tryFromRef r maxFields maxBytes = none) ∨
    (r.fields.length ≤ maxFields ∧ r.size ≤ maxBytes ∧ r.fields.flatten.length ≤ Word.maxIsize ∧
      ∃ record, tryFromRef r maxFields maxBytes = some (.ok record) ∧ record.original = r ∧
        record.fieldCount = r.fields.length ∧ record.byteLen = r.size) := by
  rw [tryFromRef, copiedByteLen_eq]
  by_cases hFields : r.fields.length > maxFields
  · exact Or.inl ⟨hFields, if_pos hFields⟩
  · right
    rw [if_neg hFields]
    have hFew := Nat.le_of_not_lt hFields
    by_cases hFits : r.size ≤ Word.max64
    · rw [if_pos hFits, Nat.min_eq_left hFits]
      by_cases hSize : r.size > maxBytes
      · exact Or.inl ⟨hFew, hSize, if_pos hSize⟩
      · have hSmall := Nat.le_of_not_lt hSize
        have hFieldBytes : r.size - r.payload.length = r.fields.flatten.length :=
          Nat.add_sub_cancel _ _
        refine Or.inr ?_
        simp only [if_neg hSize, hFieldBytes]
        split_ifs with hLarge
        · exact Or.inl ⟨hFew, hSmall, hLarge, rfl⟩
        · exact Or.inr ⟨hFew, hSmall, Nat.le_of_not_lt hLarge, copyOf r, rfl, copyOf_original r,
            copyFields_count r.fields [], copyOf_byteLen r⟩
    · rw [if_neg hFits, Nat.min_eq_right (Nat.le_of_not_le hFits)]
      exact Or.inl ⟨hFew, by omega, rfl⟩

theorem tryFromRef_eq_two :
    ∃ record, tryFromRef ⟨[[1], [2, 3]], [4]⟩ 8 32 = some (.ok record) ∧ record.byteLen = 4 := by
  rcases tryFromRef_eq ⟨[[1], [2, 3]], [4]⟩ 8 (by decide : 32 ≤ Word.max64) with
    ⟨hFields, -⟩ | ⟨-, hSize, -⟩ | ⟨-, -, hLarge, -⟩ | ⟨-, -, -, record, hRecord, -, -, hBytes⟩
  · cases Nat.lt_irrefl _ (hFields.trans_le (by decide))
  · cases Nat.lt_irrefl _ (hSize.trans_le (by decide))
  · cases Nat.lt_irrefl _ (hLarge.trans_le (by decide))
  · exact ⟨record, hRecord, hBytes⟩

end OwnedKernelRecord
end Diagnostics

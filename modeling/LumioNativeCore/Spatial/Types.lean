import LumioNativeCore.Kernel.Error
import LumioNativeCore.Library.Check
import Mathlib.Data.NNRat.Defs
import Mathlib.Order.Interval.Set.Basic

/-! Spatial data (`types.rs`): coordinates must be finite and bounds ordered. -/
namespace Spatial

/-- An `f32`, as far as comparisons tell values apart. -/
inductive F32 where
  | finite (negative : Bool) (magnitude : ℚ≥0)
  | infinite (negative : Bool)
  | nan
  deriving DecidableEq

namespace F32

def isFinite : F32 → Bool
  | finite _ _ => true
  | _ => false

/-- The number a finite float stands for. -/
def value : F32 → ℚ
  | finite false magnitude => magnitude
  | finite true magnitude => -magnitude
  | _ => 0

/-- `a < b` on floats; every comparison with a NaN is false. -/
def less : F32 → F32 → Bool
  | nan, _ => false
  | _, nan => false
  | infinite true, infinite true => false
  | infinite true, _ => true
  | infinite false, _ => false
  | finite _ _, infinite negative => !negative
  | finite s m, finite s' m' => decide ((finite s m).value < (finite s' m').value)

/-- `a == b` on floats; the two zeros are equal. -/
def equal : F32 → F32 → Bool
  | finite s m, finite s' m' => decide ((finite s m).value = (finite s' m').value)
  | infinite negative, infinite negative' => negative == negative'
  | _, _ => false

theorem less_iff {a b : F32} (ha : a.isFinite = true) (hb : b.isFinite = true) :
    a.less b = true ↔ a.value < b.value := by
  cases a with
  | finite s m =>
      cases b with
      | finite s' m' => simp [less]
      | infinite negative => cases hb
      | nan => cases hb
  | infinite negative => cases ha
  | nan => cases ha

theorem equal_self {a : F32} (ha : a.isFinite = true) : a.equal a = true := by
  cases a with
  | finite s m => simp [equal]
  | infinite negative => cases ha
  | nan => cases ha

end F32

structure SpatialObjectId where
  raw : Nat
  deriving DecidableEq, Repr

instance : LinearOrder SpatialObjectId :=
  LinearOrder.lift' SpatialObjectId.raw fun a b h => by cases a; cases b; cases h; rfl

structure Point3 where
  x : F32
  y : F32
  z : F32
  deriving DecidableEq

def Point3.isFinite (p : Point3) : Bool := p.x.isFinite && p.y.isFinite && p.z.isFinite

def Point3.validate (p : Point3) : Except Kernel.KernelError Unit :=
  if !p.isFinite then .error ⟨.invalidArgument, .staticMessage "non-finite coordinate"⟩ else .ok ()

structure Aabb3 where
  min : Point3
  max : Point3
  deriving DecidableEq

def Aabb3.validate (b : Aabb3) : Except Kernel.KernelError Unit := do
  b.min.validate
  b.max.validate
  if b.max.x.less b.min.x || b.max.y.less b.min.y || b.max.z.less b.min.z then
    .error ⟨.invalidArgument, .staticMessage "inverted AABB bounds"⟩
  else .ok ()

/-- The unit cube with this lower corner on every axis. -/
def Aabb3.cube (corner : ℚ≥0) : Aabb3 :=
  let lower := F32.finite false corner
  let upper := F32.finite false (corner + 1)
  ⟨⟨lower, lower, lower⟩, ⟨upper, upper, upper⟩⟩

/-! Boxes as sets of points. -/

/-- The points of a closed box. -/
def Aabb3.points (b : Aabb3) : Set (ℚ × ℚ × ℚ) :=
  Set.Icc b.min.x.value b.max.x.value ×ˢ Set.Icc b.min.y.value b.max.y.value ×ˢ
    Set.Icc b.min.z.value b.max.z.value

/-- Two closed boxes share a point. -/
def Aabb3.Meets (a b : Aabb3) : Prop := (a.points ∩ b.points).Nonempty

/-- What validation has checked of a box. -/
structure Aabb3.Valid (b : Aabb3) : Prop where
  minFinite : b.min.isFinite = true
  maxFinite : b.max.isFinite = true
  x : b.min.x.value ≤ b.max.x.value
  y : b.min.y.value ≤ b.max.y.value
  z : b.min.z.value ≤ b.max.z.value

theorem Point3.validate_eq_ok {p : Point3} : p.validate = .ok () ↔ p.isFinite = true := by
  rw [validate]
  cases p.isFinite <;> simp

theorem Point3.finite_coordinates {p : Point3} (h : p.isFinite = true) :
    p.x.isFinite = true ∧ p.y.isFinite = true ∧ p.z.isFinite = true := by
  rw [isFinite, Bool.and_eq_true, Bool.and_eq_true] at h
  exact ⟨h.1.1, h.1.2, h.2⟩

theorem Aabb3.validate_eq_ok {b : Aabb3} : b.validate = .ok () ↔ b.Valid := by
  rw [validate, Check.then_eq_ok, Check.then_eq_ok, Point3.validate_eq_ok, Point3.validate_eq_ok]
  constructor
  · rintro ⟨hMin, hMax, hOrder⟩
    obtain ⟨hx, hy, hz⟩ := Point3.finite_coordinates hMin
    obtain ⟨hx', hy', hz'⟩ := Point3.finite_coordinates hMax
    split_ifs at hOrder with hInverted
    simp only [Bool.or_eq_true, F32.less_iff hx' hx, F32.less_iff hy' hy, F32.less_iff hz' hz,
      not_or, not_lt] at hInverted
    exact ⟨hMin, hMax, hInverted.1.1, hInverted.1.2, hInverted.2⟩
  · intro h
    obtain ⟨hx, hy, hz⟩ := Point3.finite_coordinates h.minFinite
    obtain ⟨hx', hy', hz'⟩ := Point3.finite_coordinates h.maxFinite
    refine ⟨h.minFinite, h.maxFinite, if_neg ?_⟩
    simp only [Bool.or_eq_true, F32.less_iff hx' hx, F32.less_iff hy' hy, F32.less_iff hz' hz,
      not_or, not_lt]
    exact ⟨⟨h.x, h.y⟩, h.z⟩

theorem Aabb3.valid_of_validate {b : Aabb3} {u : Unit} (h : b.validate = .ok u) : b.Valid :=
  Aabb3.validate_eq_ok.mp h

theorem Aabb3.validate_category {b : Aabb3} {failure : Kernel.KernelError}
    (h : b.validate = .error failure) : failure.category = .invalidArgument := by
  simp only [validate, Point3.validate] at h
  split_ifs at h <;> cases h <;> rfl

theorem icc_meets_iff {a b c d : ℚ} (hFirst : a ≤ b) (hSecond : c ≤ d) :
    (Set.Icc a b ∩ Set.Icc c d).Nonempty ↔ a ≤ d ∧ c ≤ b := by
  rw [Set.Icc_inter_Icc, Set.nonempty_Icc, sup_le_iff, le_inf_iff, le_inf_iff]
  constructor
  · rintro ⟨⟨-, had⟩, hcb, -⟩
    exact ⟨had, hcb⟩
  · rintro ⟨had, hcb⟩
    exact ⟨⟨hFirst, had⟩, hcb, hSecond⟩

/-- Valid boxes share a point exactly when neither ends before the other starts, on any axis. -/
theorem Aabb3.Valid.meets_iff {a b : Aabb3} (ha : a.Valid) (hb : b.Valid) :
    a.Meets b ↔
      (a.min.x.value ≤ b.max.x.value ∧ b.min.x.value ≤ a.max.x.value) ∧
      (a.min.y.value ≤ b.max.y.value ∧ b.min.y.value ≤ a.max.y.value) ∧
      (a.min.z.value ≤ b.max.z.value ∧ b.min.z.value ≤ a.max.z.value) := by
  rw [Aabb3.Meets, Aabb3.points, Aabb3.points, Set.prod_inter_prod, Set.prod_inter_prod,
    Set.prod_nonempty_iff, Set.prod_nonempty_iff, icc_meets_iff ha.x hb.x, icc_meets_iff ha.y hb.y,
    icc_meets_iff ha.z hb.z]

end Spatial

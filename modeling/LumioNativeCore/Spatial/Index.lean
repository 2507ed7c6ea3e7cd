import LumioNativeCore.Library.Buffer
import LumioNativeCore.Library.Table
import LumioNativeCore.Library.Word
import LumioNativeCore.Spatial.Types

/-! The spatial port and its brute-force reference (`index/mod.rs`,
`index/grid_reference.rs`). -/
namespace Spatial

open Kernel (KernelError error)

/-- `KernelError::buffer_too_small`. -/
def bufferTooSmall (required provided : Nat) : KernelError :=
  ⟨.bufferTooSmall, .requiredCapacity required provided⟩

/-- `SpatialIndexBackend`, on states of type `S`; `queryAabb` returns what it leaves in `out`. -/
structure SpatialIndexBackend (S : Type) where
  upsert : S → SpatialObjectId → Aabb3 → Except KernelError Unit × S
  remove : S → SpatialObjectId → Except KernelError Unit × S
  queryAabb : S → Aabb3 → List SpatialObjectId → Except KernelError Nat × List SpatialObjectId

/-! What the port promises. -/

/-- The current box of every id. -/
abbrev Boxes := SpatialObjectId → Option Aabb3

/-- The ids of exactly the boxes that meet `box`, ascending. -/
structure IsHits (boxes : Boxes) (box : Aabb3) (hits : List SpatialObjectId) : Prop where
  ascending : hits.Pairwise (· < ·)
  exact : ∀ id, id ∈ hits ↔ ∃ stored, boxes id = some stored ∧ stored.Meets box

inductive Update where
  | upsert (id : SpatialObjectId) (aabb : Aabb3)
  | remove (id : SpatialObjectId)

/-- The boxes after an update with this result. -/
def Boxes.after (boxes : Boxes) : Update → Except KernelError Unit → Boxes
  | .upsert id aabb, .ok _ => Function.update boxes id (some aabb)
  | .remove id, .ok _ => Function.update boxes id none
  | _, .error _ => boxes

/-- The contract of the port: `stored` reads the boxes off a state. -/
structure Contract {S : Type} (backend : SpatialIndexBackend S) (stored : S → Boxes) : Prop where
  upsert : ∀ s id aabb, aabb.Valid → stored (backend.upsert s id aabb).2 =
    (stored s).after (.upsert id aabb) (backend.upsert s id aabb).1
  remove : ∀ s id, stored (backend.remove s id).2 =
    (stored s).after (.remove id) (backend.remove s id).1
  query : ∀ s aabb out, aabb.Valid → ∃ hits, IsHits (stored s) aabb hits ∧
    if hits.length > out.length then
      backend.queryAabb s aabb out = (.error (bufferTooSmall hits.length out.length), out)
    else ∃ out', backend.queryAabb s aabb out = (.ok hits.length, out') ∧
      out'.length = out.length ∧ out'.take hits.length = hits

theorem IsHits.unique {boxes : Boxes} {box : Aabb3} {hits hits' : List SpatialObjectId}
    (h : IsHits boxes box hits) (h' : IsHits boxes box hits') : hits = hits' :=
  h.ascending.eq_of_mem_iff h'.ascending fun id => (h.exact id).trans (h'.exact id).symm

/-- The hits of a query, where it has any. -/
noncomputable def Boxes.hits (boxes : Boxes) (box : Aabb3) : List SpatialObjectId :=
  open Classical in if h : ∃ hits, IsHits boxes box hits then h.choose else []

section Contract

variable {S : Type} {backend : SpatialIndexBackend S} {stored : S → Boxes} {s : S} {aabb : Aabb3}

theorem Contract.isHits (h : Contract backend stored) (hValid : aabb.Valid) :
    IsHits (stored s) aabb ((stored s).hits aabb) := by
  obtain ⟨hits, hHits, -⟩ := h.query s aabb [] hValid
  have hSome : ∃ hits, IsHits (stored s) aabb hits := ⟨hits, hHits⟩
  rw [Boxes.hits, dif_pos hSome]
  exact hSome.choose_spec

theorem Contract.answer (h : Contract backend stored) (hValid : aabb.Valid)
    (out : List SpatialObjectId) :
    if ((stored s).hits aabb).length > out.length then
      backend.queryAabb s aabb out =
        (.error (bufferTooSmall ((stored s).hits aabb).length out.length), out)
    else ∃ out', backend.queryAabb s aabb out = (.ok ((stored s).hits aabb).length, out') ∧
      out'.length = out.length ∧
      out'.take ((stored s).hits aabb).length = (stored s).hits aabb := by
  obtain ⟨hits, hHits, hAnswer⟩ := h.query s aabb out hValid
  rwa [hHits.unique (h.isHits hValid)] at hAnswer

end Contract

/-! The boxes of an index. -/

/-- Every stored box was validated when it was stored. -/
structure Objects where
  table : Table SpatialObjectId Aabb3
  valid : ∀ id aabb, table.get id = some aabb → aabb.Valid

namespace Objects

def empty : Objects := ⟨Table.empty, fun _ _ h => by cases h⟩

def insert (objects : Objects) (id : SpatialObjectId) (aabb : Aabb3) (h : aabb.Valid) :
    Objects where
  table := objects.table.put id aabb
  valid := by
    intro id' aabb' hStored
    rw [Table.get_put] at hStored
    split_ifs at hStored
    · obtain rfl := Option.some.inj hStored
      exact h
    · exact objects.valid id' aabb' hStored

def remove (objects : Objects) (id : SpatialObjectId) : Objects where
  table := objects.table.erase id
  valid := by
    intro id' aabb' hStored
    rw [Table.get_erase] at hStored
    split_ifs at hStored
    exact objects.valid id' aabb' hStored

theorem get_insert (objects : Objects) (id : SpatialObjectId) (aabb : Aabb3) (h : aabb.Valid) :
    (objects.insert id aabb h).table.get = Function.update objects.table.get id (some aabb) :=
  objects.table.get_put_eq id aabb

theorem get_remove (objects : Objects) (id : SpatialObjectId) :
    (objects.remove id).table.get = Function.update objects.table.get id none :=
  objects.table.get_erase_eq id

end Objects

/-! The reference. -/

structure GridReferenceIndex where
  objects : Objects
  capacity : Nat

def overlaps (a b : Aabb3) : Bool :=
  !(a.max.x.less b.min.x || b.max.x.less a.min.x || a.max.y.less b.min.y ||
    b.max.y.less a.min.y || a.max.z.less b.min.z || b.max.z.less a.min.z)

namespace GridReferenceIndex

def withCapacity (capacity : Nat) : GridReferenceIndex := ⟨.empty, capacity⟩

def upsert (index : GridReferenceIndex) (id : SpatialObjectId) (aabb : Aabb3) :
    Except KernelError Unit × GridReferenceIndex :=
  match hValid : aabb.validate with
  | .error failure => (.error failure, index)
  | .ok _ =>
      if (index.objects.table.get id).isNone ∧ index.objects.table.size ≥ index.capacity then
        (.error (error .capacityExceeded), index)
      else
        (.ok (), { index with
          objects := index.objects.insert id aabb (Aabb3.valid_of_validate hValid) })

def remove (index : GridReferenceIndex) (id : SpatialObjectId) :
    Except KernelError Unit × GridReferenceIndex :=
  match index.objects.table.get id with
  | some _ => (.ok (), { index with objects := index.objects.remove id })
  | none => (.error (error .invalidHandle), index)

def queryAabb (index : GridReferenceIndex) (aabb : Aabb3) (out : List SpatialObjectId) :
    Except KernelError Nat × List SpatialObjectId :=
  match aabb.validate with
  | .error failure => (.error failure, out)
  | .ok _ =>
      let found := index.objects.table.inOrder.filter fun item => overlaps item.2 aabb
      let required := found.length
      if required > out.length then (.error (bufferTooSmall required out.length), out)
      else (.ok required, Buffer.overwrite out (found.map Prod.fst))

def backend : SpatialIndexBackend GridReferenceIndex where
  upsert := upsert
  remove := remove
  queryAabb := queryAabb

end GridReferenceIndex

theorem overlaps_iff {a b : Aabb3} (ha : a.Valid) (hb : b.Valid) :
    overlaps a b = true ↔ a.Meets b := by
  obtain ⟨hax, hay, haz⟩ := Point3.finite_coordinates ha.minFinite
  obtain ⟨hax', hay', haz'⟩ := Point3.finite_coordinates ha.maxFinite
  obtain ⟨hbx, hby, hbz⟩ := Point3.finite_coordinates hb.minFinite
  obtain ⟨hbx', hby', hbz'⟩ := Point3.finite_coordinates hb.maxFinite
  rw [ha.meets_iff hb, overlaps, Bool.not_eq_true', ← Bool.not_eq_true]
  simp only [Bool.or_eq_true, F32.less_iff hax' hbx, F32.less_iff hbx' hax,
    F32.less_iff hay' hby, F32.less_iff hby' hay, F32.less_iff haz' hbz, F32.less_iff hbz' haz,
    not_or, not_lt]
  tauto

namespace GridReferenceIndex

/-- The ids that a query writes. -/
def found (index : GridReferenceIndex) (aabb : Aabb3) : List SpatialObjectId :=
  (index.objects.table.inOrder.filter fun item => overlaps item.2 aabb).map Prod.fst

theorem isHits_found (index : GridReferenceIndex) {aabb : Aabb3} (h : aabb.Valid) :
    IsHits index.objects.table.get aabb (index.found aabb) where
  ascending := List.pairwise_map.mpr (index.objects.table.inOrder_ascending.sublist
    List.filter_sublist)
  exact := by
    intro id
    have hEntry : ∀ stored, (id, stored) ∈ index.objects.table.inOrder ↔
        index.objects.table.get id = some stored := fun stored => by
      rw [index.objects.table.inOrder_perm.mem_iff, Table.mem_entries]
    simp only [found, List.mem_map, List.mem_filter, Prod.exists, exists_and_right, exists_eq_right,
      hEntry]
    apply exists_congr
    intro stored
    apply and_congr_right
    intro hStored
    exact overlaps_iff (index.objects.valid id stored hStored) h

theorem queryAabb_valid (index : GridReferenceIndex) {aabb : Aabb3} (h : aabb.Valid)
    (out : List SpatialObjectId) : index.queryAabb aabb out =
      if (index.found aabb).length > out.length then
        (.error (bufferTooSmall (index.found aabb).length out.length), out)
      else (.ok (index.found aabb).length, Buffer.overwrite out (index.found aabb)) := by
  rw [queryAabb, Aabb3.validate_eq_ok.mpr h, found, List.length_map]

theorem upsert_invalid {index : GridReferenceIndex} {id : SpatialObjectId} {aabb : Aabb3}
    {failure : KernelError} (h : aabb.validate = .error failure) :
    index.upsert id aabb = (.error failure, index) := by
  rw [upsert]
  split
  · rw [Except.error.inj (h.symm.trans ‹_›)]
  · cases h.symm.trans ‹aabb.validate = .ok _›

theorem upsert_valid {index : GridReferenceIndex} {id : SpatialObjectId} {aabb : Aabb3}
    (h : aabb.Valid) : index.upsert id aabb =
      if (index.objects.table.get id).isNone ∧ index.objects.table.size ≥ index.capacity then
        (.error (error .capacityExceeded), index)
      else (.ok (), { index with objects := index.objects.insert id aabb h }) := by
  rw [upsert]
  split
  · cases (Aabb3.validate_eq_ok.mpr h).symm.trans ‹aabb.validate = .error _›
  · rfl

/-- The reference keeps the contract of the port. -/
theorem contract : Contract backend fun index => index.objects.table.get where
  upsert index id aabb hValid := by
    show (index.upsert id aabb).2.objects.table.get = Boxes.after _ _ (index.upsert id aabb).1
    rw [upsert_valid hValid]
    split_ifs
    · rfl
    · exact Objects.get_insert _ _ _ hValid
  remove index id := by
    show (index.remove id).2.objects.table.get = Boxes.after _ _ (index.remove id).1
    rw [remove]
    cases index.objects.table.get id with
    | none => rfl
    | some stored => exact Objects.get_remove _ _
  query index aabb out hValid := by
    refine ⟨index.found aabb, index.isHits_found hValid, ?_⟩
    show if _ then index.queryAabb aabb out = _ else ∃ out', index.queryAabb aabb out = _ ∧ _
    rw [queryAabb_valid index hValid]
    split_ifs with hSmall
    · rfl
    · exact ⟨_, rfl, Buffer.length_overwrite (not_lt.mp hSmall), Buffer.take_overwrite _ _⟩

end GridReferenceIndex

end Spatial

import LumioNativeCore.Library.Machine
import LumioNativeCore.Spatial.Index
import Mathlib.Data.Multiset.AddSub
import Mathlib.Data.Multiset.Filter

/-! The R-tree backend (`index/rstar_adapter.rs`) and its simulation by the reference. -/
namespace Spatial

open Kernel (KernelError error)

structure Entry where
  id : SpatialObjectId
  bounds : Aabb3
  deriving DecidableEq

def Point3.equal (p q : Point3) : Bool := p.x.equal q.x && p.y.equal q.y && p.z.equal q.z

def Aabb3.equal (a b : Aabb3) : Bool := a.min.equal b.min && a.max.equal b.max

/-- `==` on entries, with `==` on their coordinates. -/
def Entry.equal (e e' : Entry) : Bool := decide (e.id = e'.id) && e.bounds.equal e'.bounds

/-- `AABB<[f64; 3]>`. -/
structure Envelope (F64 : Type) where
  lower : F64 × F64 × F64
  upper : F64 × F64 × F64

/-- The closed boxes share a point: on no axis does one end before the other starts. -/
def Envelope.intersects {F64 : Type} [LE F64] [DecidableLE F64] (a b : Envelope F64) : Bool :=
  decide (a.lower.1 ≤ b.upper.1 ∧ b.lower.1 ≤ a.upper.1) &&
  decide (a.lower.2.1 ≤ b.upper.2.1 ∧ b.lower.2.1 ≤ a.upper.2.1) &&
  decide (a.lower.2.2 ≤ b.upper.2.2 ∧ b.lower.2.2 ≤ a.upper.2.2)

/-- What the adapter uses of `rstar::RTree<Entry>` and its `AABB`, and the conversion
`f32 as f64`. -/
structure RTree (T F64 : Type) where
  asF64 : F32 → F64
  fromCorners : F64 × F64 × F64 → F64 × F64 × F64 → Envelope F64
  new : T
  insert : T → Entry → T
  remove : T → Entry → Option Entry × T
  locateInEnvelopeIntersecting : T → Envelope F64 → List Entry

def RTree.envelope {T F64 : Type} (rtree : RTree T F64) (a : Aabb3) : Envelope F64 :=
  rtree.fromCorners (rtree.asF64 a.min.x, rtree.asF64 a.min.y, rtree.asF64 a.min.z)
    (rtree.asF64 a.max.x, rtree.asF64 a.max.y, rtree.asF64 a.max.z)

/-- An R-tree is a multiset of entries, the box between ordered corners is these corners, and the
conversion keeps the order of finite floats. -/
structure RTree.Lawful {T F64 : Type} [LE F64] [DecidableLE F64] (rtree : RTree T F64)
    (entries : T → Multiset Entry) : Prop where
  corners : ∀ p q, p.1 ≤ q.1 → p.2.1 ≤ q.2.1 → p.2.2 ≤ q.2.2 → rtree.fromCorners p q = ⟨p, q⟩
  order : ∀ a b : F32, a.isFinite = true → b.isFinite = true →
    (rtree.asF64 a ≤ rtree.asF64 b ↔ a.value ≤ b.value)
  new : entries rtree.new = 0
  insert : ∀ tree entry, entries (rtree.insert tree entry) = entry ::ₘ entries tree
  removed : ∀ tree entry found tree', rtree.remove tree entry = (some found, tree') →
    found.equal entry = true ∧ entries tree = found ::ₘ entries tree'
  absent : ∀ tree entry tree', rtree.remove tree entry = (none, tree') →
    (∀ other ∈ entries tree, other.equal entry = false) ∧ entries tree' = entries tree
  locate : ∀ tree a, (rtree.locateInEnvelopeIntersecting tree (rtree.envelope a) : Multiset Entry) =
    (entries tree).filter fun entry =>
      (rtree.envelope entry.bounds).intersects (rtree.envelope a) = true

structure RStarIndexAdapter (T : Type) where
  tree : T
  objects : Objects
  capacity : Nat

namespace RStarIndexAdapter

variable {T F64 : Type} [LE F64] [DecidableLE F64] (rtree : RTree T F64)

def withCapacity (capacity : Nat) : RStarIndexAdapter T := ⟨rtree.new, .empty, capacity⟩

def upsert (adapter : RStarIndexAdapter T) (id : SpatialObjectId) (aabb : Aabb3) :
    Except KernelError Unit × RStarIndexAdapter T :=
  match hValid : aabb.validate with
  | .error failure => (.error failure, adapter)
  | .ok _ =>
      let objects := adapter.objects.insert id aabb (Aabb3.valid_of_validate hValid)
      if (adapter.objects.table.get id).isNone ∧
          adapter.objects.table.size ≥ adapter.capacity then
        (.error (error .capacityExceeded), adapter)
      else match adapter.objects.table.get id with
      | none => (.ok (), { adapter with tree := rtree.insert adapter.tree ⟨id, aabb⟩, objects })
      | some old => match rtree.remove adapter.tree ⟨id, old⟩ with
        | (none, tree) => (.error (error .internalInvariant), { adapter with tree })
        | (some _, tree) =>
            (.ok (), { adapter with tree := rtree.insert tree ⟨id, aabb⟩, objects })

def remove (adapter : RStarIndexAdapter T) (id : SpatialObjectId) :
    Except KernelError Unit × RStarIndexAdapter T :=
  match adapter.objects.table.get id with
  | none => (.error (error .invalidHandle), adapter)
  | some bounds => match rtree.remove adapter.tree ⟨id, bounds⟩ with
    | (none, tree) => (.error (error .internalInvariant), { adapter with tree })
    | (some _, tree) => (.ok (), { adapter with tree, objects := adapter.objects.remove id })

def queryAabb (adapter : RStarIndexAdapter T) (aabb : Aabb3) (out : List SpatialObjectId) :
    Except KernelError Nat × List SpatialObjectId :=
  match aabb.validate with
  | .error failure => (.error failure, out)
  | .ok _ =>
      let located := rtree.locateInEnvelopeIntersecting adapter.tree (rtree.envelope aabb)
      let required := located.length
      if required > out.length then (.error (bufferTooSmall required out.length), out)
      else
        let written := Buffer.overwrite out (located.map Entry.id)
        (.ok required, Buffer.overwrite written
          ((written.take required).insertionSort (· ≤ ·)))

def backend : SpatialIndexBackend (RStarIndexAdapter T) where
  upsert := upsert rtree
  remove := remove rtree
  queryAabb := queryAabb rtree

end RStarIndexAdapter

/-! The entries of a tree against the map. -/

theorem Aabb3.Valid.equal_self {a : Aabb3} (h : a.Valid) : a.equal a = true := by
  obtain ⟨hx, hy, hz⟩ := Point3.finite_coordinates h.minFinite
  obtain ⟨hx', hy', hz'⟩ := Point3.finite_coordinates h.maxFinite
  rw [equal, Point3.equal, Point3.equal, F32.equal_self hx, F32.equal_self hy, F32.equal_self hz,
    F32.equal_self hx', F32.equal_self hy', F32.equal_self hz']
  rfl

def Entry.of (item : SpatialObjectId × Aabb3) : Entry := ⟨item.1, item.2⟩

/-- One entry for every id, with its current box. -/
def Objects.contents (objects : Objects) : Multiset Entry :=
  (objects.table.entries.map Entry.of : List Entry)

namespace Objects

theorem mem_contents {objects : Objects} {entry : Entry} :
    entry ∈ objects.contents ↔ objects.table.get entry.id = some entry.bounds := by
  rw [← Table.mem_entries, contents, Multiset.mem_coe, List.mem_map]
  constructor
  · rintro ⟨item, hItem, rfl⟩
    exact hItem
  · intro hEntry
    exact ⟨(entry.id, entry.bounds), hEntry, rfl⟩

theorem contents_remove {objects : Objects} {id : SpatialObjectId} {bounds : Aabb3}
    (h : objects.table.get id = some bounds) :
    objects.contents = ⟨id, bounds⟩ ::ₘ (objects.remove id).contents := by
  have hPerm := ((Table.erase_perm h).symm.trans (List.perm_append_singleton _ _)).map Entry.of
  exact Multiset.coe_eq_coe.mpr hPerm

theorem contents_insert (objects : Objects) (id : SpatialObjectId) {aabb : Aabb3}
    (h : aabb.Valid) :
    (objects.insert id aabb h).contents = ⟨id, aabb⟩ ::ₘ (objects.remove id).contents := by
  have hPerm := (objects.table.put_perm id aabb).map Entry.of
  exact Multiset.coe_eq_coe.mpr hPerm

theorem contents_absent {objects : Objects} {id : SpatialObjectId}
    (h : objects.table.get id = none) : (objects.remove id).contents = objects.contents := by
  have hPerm : (objects.remove id).table.entries.Perm objects.table.entries := by
    apply Table.entries_perm
    intro id'
    rw [get_remove, Function.update_apply]
    split_ifs with hSame
    · rw [hSame, h]
    · rfl
  exact Multiset.coe_eq_coe.mpr (hPerm.map _)

end Objects

section Laws

variable {T F64 : Type} [LE F64] [DecidableLE F64] {rtree : RTree T F64}
  {entries : T → Multiset Entry} (hTree : rtree.Lawful entries)
include hTree

theorem RTree.Lawful.envelope_valid {a : Aabb3} (h : a.Valid) :
    rtree.envelope a =
      ⟨(rtree.asF64 a.min.x, rtree.asF64 a.min.y, rtree.asF64 a.min.z),
        (rtree.asF64 a.max.x, rtree.asF64 a.max.y, rtree.asF64 a.max.z)⟩ := by
  obtain ⟨hx, hy, hz⟩ := Point3.finite_coordinates h.minFinite
  obtain ⟨hx', hy', hz'⟩ := Point3.finite_coordinates h.maxFinite
  exact hTree.corners _ _ ((hTree.order _ _ hx hx').mpr h.x) ((hTree.order _ _ hy hy').mpr h.y)
    ((hTree.order _ _ hz hz').mpr h.z)

theorem RTree.Lawful.intersects_iff {a b : Aabb3} (ha : a.Valid) (hb : b.Valid) :
    (rtree.envelope a).intersects (rtree.envelope b) = true ↔ a.Meets b := by
  obtain ⟨hax, hay, haz⟩ := Point3.finite_coordinates ha.minFinite
  obtain ⟨hax', hay', haz'⟩ := Point3.finite_coordinates ha.maxFinite
  obtain ⟨hbx, hby, hbz⟩ := Point3.finite_coordinates hb.minFinite
  obtain ⟨hbx', hby', hbz'⟩ := Point3.finite_coordinates hb.maxFinite
  rw [ha.meets_iff hb, hTree.envelope_valid ha, hTree.envelope_valid hb]
  simp only [Envelope.intersects, Bool.and_eq_true, decide_eq_true_eq, hTree.order _ _ hax hbx',
    hTree.order _ _ hbx hax', hTree.order _ _ hay hby', hTree.order _ _ hby hay',
    hTree.order _ _ haz hbz', hTree.order _ _ hbz haz', and_assoc]

/-- The entry of a stored box can be removed, and no other one is. -/
theorem RTree.Lawful.remove_stored {tree : T} {objects : Objects} {id : SpatialObjectId}
    {bounds : Aabb3} (hEntries : entries tree = objects.contents)
    (hStored : objects.table.get id = some bounds) :
    ∃ tree', rtree.remove tree ⟨id, bounds⟩ = (some ⟨id, bounds⟩, tree') ∧
      entries tree' = (objects.remove id).contents := by
  rcases hRemove : rtree.remove tree ⟨id, bounds⟩ with ⟨_ | found, tree'⟩
  · obtain ⟨hAbsent, -⟩ := hTree.absent tree _ tree' hRemove
    have hEqual := hAbsent ⟨id, bounds⟩ (hEntries ▸ Objects.mem_contents.mpr hStored)
    rw [Entry.equal, (objects.valid id bounds hStored).equal_self] at hEqual
    simp at hEqual
  · obtain ⟨hEqual, hCons⟩ := hTree.removed tree _ found tree' hRemove
    have hFound : found ∈ objects.contents := by
      rw [← hEntries, hCons]
      exact Multiset.mem_cons_self _ _
    rw [Objects.mem_contents] at hFound
    rw [Entry.equal, Bool.and_eq_true, decide_eq_true_eq] at hEqual
    obtain ⟨foundId, foundBounds⟩ := found
    obtain ⟨rfl, -⟩ := hEqual
    obtain rfl := Option.some.inj (hFound.symm.trans hStored)
    refine ⟨tree', rfl, ?_⟩
    rw [hEntries, Objects.contents_remove hStored] at hCons
    exact (Multiset.cons_inj_right _).mp hCons.symm

end Laws

/-! The simulation. -/

inductive Call where
  | upsert (id : SpatialObjectId) (aabb : Aabb3)
  | remove (id : SpatialObjectId)
  | queryAabb (aabb : Aabb3) (out : List SpatialObjectId)

/-- What a call returns, and leaves in its output buffer. -/
inductive Answer where
  | updated (result : Except KernelError Unit)
  | queried (result : Except KernelError Nat) (out : List SpatialObjectId)
  deriving DecidableEq

def Answer.failure : Answer → Option KernelError
  | .updated (.error failure) => some failure
  | .queried (.error failure) _ => some failure
  | _ => none

def SpatialIndexBackend.answer {S : Type} (backend : SpatialIndexBackend S) (s : S) :
    Call → Answer × S
  | .upsert id aabb =>
      let (result, s') := backend.upsert s id aabb
      (.updated result, s')
  | .remove id =>
      let (result, s') := backend.remove s id
      (.updated result, s')
  | .queryAabb aabb out =>
      let (result, out) := backend.queryAabb s aabb out
      (.queried result out, s)

/-- The adapter and the reference hold the same boxes, and the tree has an entry for each. -/
structure Mirrors {T : Type} (entries : T → Multiset Entry) (adapter : RStarIndexAdapter T)
    (index : GridReferenceIndex) : Prop where
  objects : adapter.objects = index.objects
  capacity : adapter.capacity = index.capacity
  tree : entries adapter.tree = adapter.objects.contents

namespace RStarIndexAdapter

variable {T F64 : Type} [LE F64] [DecidableLE F64] {rtree : RTree T F64}
  {entries : T → Multiset Entry} {adapter : RStarIndexAdapter T} {index : GridReferenceIndex}

section Upsert

omit [LE F64] [DecidableLE F64]

variable {id : SpatialObjectId} {aabb : Aabb3}

theorem upsert_invalid {failure : KernelError} (h : aabb.validate = .error failure) :
    adapter.upsert rtree id aabb = (.error failure, adapter) := by
  rw [upsert]
  split
  · rw [Except.error.inj (h.symm.trans ‹_›)]
  · cases h.symm.trans ‹aabb.validate = .ok _›

theorem upsert_full (h : aabb.Valid) (hFull : (adapter.objects.table.get id).isNone ∧
    adapter.objects.table.size ≥ adapter.capacity) :
    adapter.upsert rtree id aabb = (.error (error .capacityExceeded), adapter) := by
  rw [upsert]
  split
  · cases (Aabb3.validate_eq_ok.mpr h).symm.trans ‹aabb.validate = .error _›
  · exact if_pos hFull

variable (h : aabb.Valid) (hRoom : ¬((adapter.objects.table.get id).isNone ∧
  adapter.objects.table.size ≥ adapter.capacity))
include hRoom

theorem upsert_new (hNew : adapter.objects.table.get id = none) :
    adapter.upsert rtree id aabb = (.ok (), { adapter with
      tree := rtree.insert adapter.tree ⟨id, aabb⟩
      objects := adapter.objects.insert id aabb h }) := by
  rw [upsert]
  split
  · cases (Aabb3.validate_eq_ok.mpr h).symm.trans ‹aabb.validate = .error _›
  · rw [if_neg hRoom]
    simp only [hNew]

theorem upsert_replace {old : Aabb3} (hOld : adapter.objects.table.get id = some old)
    {found : Entry} {tree : T} (hRemove : rtree.remove adapter.tree ⟨id, old⟩ = (some found, tree)) :
    adapter.upsert rtree id aabb = (.ok (), { adapter with
      tree := rtree.insert tree ⟨id, aabb⟩
      objects := adapter.objects.insert id aabb h }) := by
  rw [upsert]
  split
  · cases (Aabb3.validate_eq_ok.mpr h).symm.trans ‹aabb.validate = .error _›
  · rw [if_neg hRoom]
    simp only [hOld, hRemove]

end Upsert

section Step

variable (hTree : rtree.Lawful entries) (h : Mirrors entries adapter index)
include hTree h

theorem mirrors_upsert (id : SpatialObjectId) (aabb : Aabb3) :
    (adapter.upsert rtree id aabb).1 = (index.upsert id aabb).1 ∧
      Mirrors entries (adapter.upsert rtree id aabb).2 (index.upsert id aabb).2 := by
  cases hCheck : aabb.validate with
  | error failure =>
      rw [upsert_invalid hCheck, GridReferenceIndex.upsert_invalid hCheck]
      exact ⟨rfl, h⟩
  | ok _ =>
      have hValid := Aabb3.validate_eq_ok.mp hCheck
      rw [GridReferenceIndex.upsert_valid hValid, ← h.objects, ← h.capacity]
      split_ifs with hRoom
      · rw [upsert_full hValid hRoom]
        exact ⟨rfl, h⟩
      · cases hStored : adapter.objects.table.get id with
        | none =>
            rw [upsert_new hValid hRoom hStored]
            refine ⟨rfl, rfl, rfl, ?_⟩
            show entries (rtree.insert adapter.tree ⟨id, aabb⟩) = _
            rw [hTree.insert, h.tree, Objects.contents_insert, Objects.contents_absent hStored]
        | some old =>
            obtain ⟨tree, hRemove, hRest⟩ := hTree.remove_stored h.tree hStored
            rw [upsert_replace hValid hRoom hStored hRemove]
            refine ⟨rfl, rfl, rfl, ?_⟩
            show entries (rtree.insert tree ⟨id, aabb⟩) = _
            rw [hTree.insert, hRest, Objects.contents_insert]

theorem mirrors_remove (id : SpatialObjectId) :
    (adapter.remove rtree id).1 = (index.remove id).1 ∧
      Mirrors entries (adapter.remove rtree id).2 (index.remove id).2 := by
  rw [remove, GridReferenceIndex.remove, ← h.objects]
  cases hStored : adapter.objects.table.get id with
  | none => exact ⟨rfl, h⟩
  | some bounds =>
      obtain ⟨tree, hRemove, hRest⟩ := hTree.remove_stored h.tree hStored
      simp only [hRemove]
      exact ⟨trivial, rfl, h.capacity, hRest⟩

/-- What the tree locates is what the reference finds, in some order. -/
theorem located_perm {aabb : Aabb3} (hValid : aabb.Valid) :
    ((rtree.locateInEnvelopeIntersecting adapter.tree (rtree.envelope aabb)).map Entry.id).Perm
      (index.found aabb) := by
  have hOverlaps : index.objects.table.entries.filter (fun item =>
        (rtree.envelope item.2).intersects (rtree.envelope aabb)) =
      index.objects.table.entries.filter (fun item => overlaps item.2 aabb) := by
    apply List.filter_congr
    rintro ⟨id, stored⟩ hStored
    have hBox := index.objects.valid id stored (Table.mem_entries.mp hStored)
    rw [Bool.eq_iff_iff, hTree.intersects_iff hBox hValid, overlaps_iff hBox hValid]
  have hLocated := hTree.locate adapter.tree aabb
  rw [h.tree, h.objects, Objects.contents, Multiset.filter_coe, List.filter_map] at hLocated
  have hIds := (Multiset.coe_eq_coe.mp hLocated).map Entry.id
  rw [List.map_map] at hIds
  refine hIds.trans (List.Perm.map Prod.fst ?_)
  refine List.Perm.trans (List.Perm.of_eq ?_) (index.objects.table.inOrder_perm.symm.filter _)
  rw [← hOverlaps]
  apply List.filter_congr
  intro item _
  exact Bool.decide_eq_true

theorem queryAabb_eq (aabb : Aabb3) (out : List SpatialObjectId) :
    adapter.queryAabb rtree aabb out = index.queryAabb aabb out := by
  cases hCheck : aabb.validate with
  | error failure => simp only [queryAabb, GridReferenceIndex.queryAabb, hCheck]
  | ok _ =>
      have hValid := Aabb3.validate_eq_ok.mp hCheck
      have hPerm := located_perm hTree h hValid
      have hLength := hPerm.length_eq
      rw [List.length_map] at hLength
      have hSorted : ((rtree.locateInEnvelopeIntersecting adapter.tree
          (rtree.envelope aabb)).map Entry.id).insertionSort (· ≤ ·) = index.found aabb :=
        ((List.perm_insertionSort _ _).trans hPerm).eq_of_pairwise'
          (List.pairwise_insertionSort _ _)
          ((index.isHits_found hValid).ascending.imp le_of_lt)
      have hTake := Buffer.take_overwrite out
        ((rtree.locateInEnvelopeIntersecting adapter.tree (rtree.envelope aabb)).map Entry.id)
      rw [hPerm.length_eq] at hTake
      rw [index.queryAabb_valid hValid]
      simp only [queryAabb, hCheck, hLength, hTake, hSorted,
        Buffer.overwrite_overwrite out hPerm.length_eq]

end Step

theorem simulates (hTree : rtree.Lawful entries) :
    Machine.Simulates (backend rtree).answer GridReferenceIndex.backend.answer
      (Mirrors entries) := by
  intro adapter index call h
  cases call with
  | upsert id aabb =>
      obtain ⟨hResult, hNext⟩ := mirrors_upsert hTree h id aabb
      exact ⟨congrArg Answer.updated hResult, hNext⟩
  | remove id =>
      obtain ⟨hResult, hNext⟩ := mirrors_remove hTree h id
      exact ⟨congrArg Answer.updated hResult, hNext⟩
  | queryAabb aabb out =>
      have hQuery := queryAabb_eq hTree h aabb out
      refine ⟨?_, h⟩
      exact congrArg (fun answer : Except KernelError Nat × List SpatialObjectId =>
        Answer.queried answer.1 answer.2) hQuery

end RStarIndexAdapter

theorem GridReferenceIndex.failure_category (index : GridReferenceIndex) (call : Call)
    {failure : KernelError} (h : (backend.answer index call).1.failure = some failure) :
    failure.category ≠ .internalInvariant := by
  cases call with
  | upsert id aabb =>
      change (Answer.updated (index.upsert id aabb).1).failure = _ at h
      cases hCheck : aabb.validate with
      | error failure' =>
          rw [upsert_invalid hCheck] at h
          obtain rfl := Option.some.inj h
          simp [Aabb3.validate_category hCheck]
      | ok _ =>
          rw [upsert_valid (Aabb3.validate_eq_ok.mp hCheck)] at h
          split_ifs at h
          · obtain rfl := Option.some.inj h
            decide
          · cases h
  | remove id =>
      change (Answer.updated (index.remove id).1).failure = _ at h
      rw [remove] at h
      cases hStored : index.objects.table.get id with
      | none =>
          rw [hStored] at h
          obtain rfl := Option.some.inj h
          decide
      | some bounds =>
          rw [hStored] at h
          cases h
  | queryAabb aabb out =>
      change (Answer.queried (index.queryAabb aabb out).1 _).failure = _ at h
      cases hCheck : aabb.validate with
      | error failure' =>
          rw [queryAabb, hCheck] at h
          obtain rfl := Option.some.inj h
          simp [Aabb3.validate_category hCheck]
      | ok _ =>
          rw [queryAabb_valid index (Aabb3.validate_eq_ok.mp hCheck)] at h
          split_ifs at h
          · obtain rfl := Option.some.inj h
            simp [bufferTooSmall]
          · cases h

namespace RStarIndexAdapter

variable {T F64 : Type} [LE F64] [DecidableLE F64] {rtree : RTree T F64}
  {entries : T → Multiset Entry}

/-- The R-tree backend answers every sequence of calls as the reference does, its tree in step
with its map. -/
theorem matches_reference (hTree : rtree.Lawful entries) (capacity : Nat) (calls : List Call) :
    let adapter := Machine.run (backend rtree).answer (withCapacity rtree capacity) calls
    let index := Machine.run GridReferenceIndex.backend.answer (.withCapacity capacity) calls
    adapter.1 = index.1 ∧ adapter.2.objects = index.2.objects ∧
      entries adapter.2.tree = adapter.2.objects.contents ∧
      ∀ entry ∈ adapter.1, ∀ failure, entry.2.failure = some failure →
        failure.category ≠ .internalInvariant := by
  intro adapter index
  have hStart : Mirrors entries (withCapacity rtree capacity) (.withCapacity capacity) :=
    ⟨rfl, rfl, hTree.new⟩
  obtain ⟨hLog, hMirrors⟩ := (simulates hTree).run hStart calls
  refine ⟨hLog, hMirrors.objects, hMirrors.tree, ?_⟩
  rw [show adapter.1 = index.1 from hLog]
  exact Machine.run_answers (fun s call _ => GridReferenceIndex.failure_category s call) _ calls

end RStarIndexAdapter

/-- Remove the first equal entry of a list. -/
def removeFirst (tree : List Entry) (entry : Entry) : Option Entry × List Entry :=
  match tree.find? (·.equal entry) with
  | some found => (some found, tree.erase found)
  | none => (none, tree)

/-- The box between two corners, in whichever order they come. -/
def between (p q : ℚ × ℚ × ℚ) : Envelope ℚ :=
  ⟨(min p.1 q.1, min p.2.1 q.2.1, min p.2.2 q.2.2),
    (max p.1 q.1, max p.2.1 q.2.1, max p.2.2 q.2.2)⟩

/-- A list of entries in the place of the tree. -/
def listTree : RTree (List Entry) ℚ where
  asF64 := F32.value
  fromCorners := between
  new := []
  insert tree entry := entry :: tree
  remove := removeFirst
  locateInEnvelopeIntersecting tree box := tree.filter fun entry =>
    (between (entry.bounds.min.x.value, entry.bounds.min.y.value, entry.bounds.min.z.value)
      (entry.bounds.max.x.value, entry.bounds.max.y.value, entry.bounds.max.z.value)).intersects box

theorem listTree_lawful : listTree.Lawful (fun tree => (tree : Multiset Entry)) where
  corners p q hx hy hz := by
    show between p q = ⟨p, q⟩
    rw [between, min_eq_left hx, min_eq_left hy, min_eq_left hz, max_eq_right hx, max_eq_right hy,
      max_eq_right hz]
  order _ _ _ _ := Iff.rfl
  new := rfl
  insert _ _ := rfl
  removed tree entry found tree' h := by
    change removeFirst tree entry = _ at h
    rw [removeFirst] at h
    cases hFind : tree.find? (·.equal entry) with
    | none => simp [hFind] at h
    | some first =>
        simp only [hFind, Prod.mk.injEq, Option.some.injEq] at h
        obtain ⟨rfl, rfl⟩ := h
        refine ⟨List.find?_some (p := fun other => Entry.equal other entry) hFind, ?_⟩
        exact Multiset.coe_eq_coe.mpr (List.perm_cons_erase (List.mem_of_find?_eq_some hFind))
  absent tree entry tree' h := by
    change removeFirst tree entry = _ at h
    rw [removeFirst] at h
    cases hFind : tree.find? (·.equal entry) with
    | none =>
        simp only [hFind, Prod.mk.injEq, true_and] at h
        subst h
        refine ⟨fun other hOther => ?_, rfl⟩
        exact Bool.eq_false_of_not_eq_true (List.find?_eq_none.mp hFind other hOther)
    | some first => simp [hFind] at h
  locate tree a := by
    rw [Multiset.filter_coe]
    apply congrArg
    apply List.filter_congr
    intro entry _
    exact Bool.decide_eq_true.symm

theorem RStarIndexAdapter.matches_reference_list :
    let calls := [.upsert ⟨2⟩ (.cube 2), .upsert ⟨1⟩ (.cube 1), .upsert ⟨2⟩ (.cube 0),
      .upsert ⟨3⟩ (.cube 0), .remove ⟨4⟩, .queryAabb (.cube 1) [⟨9⟩, ⟨9⟩, ⟨9⟩]]
    let adapter := Machine.run (backend listTree).answer (withCapacity listTree 2) calls
    let index := Machine.run GridReferenceIndex.backend.answer (.withCapacity 2) calls
    adapter.1 = index.1 ∧ adapter.2.objects = index.2.objects ∧
      (adapter.2.tree : Multiset Entry) = adapter.2.objects.contents ∧
      ∀ entry ∈ adapter.1, ∀ failure, entry.2.failure = some failure →
        failure.category ≠ .internalInvariant :=
  matches_reference listTree_lawful 2 _

end Spatial

import LumioNativeCore.Library.Machine
import LumioNativeCore.Spatial.Index

/-! Batch queries (`query.rs`): a first pass measures every query against an empty buffer, a
second one stages the hits, and the caller's buffer is written last. -/
namespace Spatial

open Kernel (KernelError error)

structure SpatialHit where
  queryOrdinal : Nat
  objectId : SpatialObjectId
  deriving DecidableEq

/-- The derived order: by query, then by id. -/
instance : LinearOrder SpatialHit :=
  LinearOrder.lift' (fun hit => toLex (hit.queryOrdinal, hit.objectId)) fun a b h => by
    cases a
    cases b
    cases h
    rfl

theorem SpatialHit.mk_lt_mk {i j : Nat} {a b : SpatialObjectId} :
    (⟨i, a⟩ : SpatialHit) < ⟨j, b⟩ ↔ i < j ∨ i = j ∧ a < b := Prod.Lex.toLex_lt_toLex

structure AabbQuery where
  aabb : Aabb3

/-- The limits are `usize` values. -/
structure SpatialQueryLimits where
  maxQueries : Nat
  maxHits : Nat
  usize : maxHits ≤ Word.max64

structure SpatialContext (S : Type) where
  index : S
  limits : SpatialQueryLimits

/-! The hits of a batch. -/

/-- How many boxes meet a query. -/
noncomputable def Boxes.count (boxes : Boxes) (query : AabbQuery) : Nat :=
  (boxes.hits query.aabb).length

/-- The hits of the queries, numbered from `first` on. -/
noncomputable def Boxes.batchHits (boxes : Boxes) (queries : List AabbQuery) (first : Nat) :
    List SpatialHit :=
  (queries.zipIdx first).flatMap fun item =>
    (boxes.hits item.1.aabb).map (SpatialHit.mk item.2)

theorem Boxes.total_cons (boxes : Boxes) (total : Nat) (query : AabbQuery) (rest : List AabbQuery) :
    total + ((query :: rest).map boxes.count).sum = total + boxes.count query +
      (rest.map boxes.count).sum := by
  rw [List.map_cons, List.sum_cons, Nat.add_assoc]

theorem Boxes.length_batchHits (boxes : Boxes) (queries : List AabbQuery) (first : Nat) :
    (boxes.batchHits queries first).length = (queries.map boxes.count).sum := by
  rw [batchHits, List.length_flatMap]
  induction queries generalizing first with
  | nil => rfl
  | cons query rest ih =>
      rw [List.zipIdx_cons, List.map_cons, List.sum_cons, ih, List.length_map]
      rfl

theorem Boxes.mem_batchHits {boxes : Boxes} {queries : List AabbQuery} {ordinal : Nat}
    {id : SpatialObjectId} : ⟨ordinal, id⟩ ∈ boxes.batchHits queries 0 ↔
      ∃ query, queries[ordinal]? = some query ∧ id ∈ boxes.hits query.aabb := by
  simp only [batchHits, List.mem_flatMap, List.mem_map, Prod.exists, List.mem_zipIdx_iff_getElem?,
    SpatialHit.mk.injEq]
  constructor
  · rintro ⟨query, i, hQuery, id', hHit, rfl, rfl⟩
    exact ⟨query, hQuery, hHit⟩
  · rintro ⟨query, hQuery, hHit⟩
    exact ⟨query, ordinal, hQuery, id, hHit, rfl, rfl⟩

theorem Boxes.batchHits_ascending {boxes : Boxes} {queries : List AabbQuery}
    (h : ∀ query ∈ queries, (boxes.hits query.aabb).Pairwise (· < ·)) :
    (boxes.batchHits queries 0).Pairwise (· < ·) := by
  rw [batchHits, List.pairwise_flatMap]
  constructor
  · intro item hItem
    rw [List.pairwise_map]
    apply (h item.1 (List.fst_mem_of_mem_zipIdx hItem)).imp
    intro id id' hLess
    exact SpatialHit.mk_lt_mk.mpr (Or.inr ⟨rfl, hLess⟩)
  · have hOrdinals : (queries.zipIdx 0).Pairwise fun a b => a.2 < b.2 := by
      rw [← List.pairwise_map (f := Prod.snd) (R := (· < ·)), List.zipIdx_map_snd]
      exact List.pairwise_lt_range'
    apply hOrdinals.imp
    intro item item' hLess hit hHit hit' hHit'
    obtain ⟨id, -, rfl⟩ := List.mem_map.mp hHit
    obtain ⟨id', -, rfl⟩ := List.mem_map.mp hHit'
    exact SpatialHit.mk_lt_mk.mpr (Or.inl hLess)

/-- All pairs of a query and an id whose box meets it, ascending. -/
structure IsBatchHits (boxes : Boxes) (queries : List AabbQuery) (hits : List SpatialHit) :
    Prop where
  ascending : hits.Pairwise (· < ·)
  exact : ∀ ordinal id, ⟨ordinal, id⟩ ∈ hits ↔ ∃ query, queries[ordinal]? = some query ∧
    ∃ stored, boxes id = some stored ∧ stored.Meets query.aabb

namespace SpatialContext

variable {S : Type} (backend : SpatialIndexBackend S) (context : SpatialContext S)

def upsert (id : SpatialObjectId) (aabb : Aabb3) : Except KernelError Unit × SpatialContext S :=
  match aabb.validate with
  | .error failure => (.error failure, context)
  | .ok _ =>
      let (result, index) := backend.upsert context.index id aabb
      (result, { context with index })

def remove (id : SpatialObjectId) : Except KernelError Unit × SpatialContext S :=
  let (result, index) := backend.remove context.index id
  (result, { context with index })

/-- The size of one query, as the backend reports it for an empty buffer. -/
def required (query : AabbQuery) : Except KernelError Nat := do
  query.aabb.validate
  match (backend.queryAabb context.index query.aabb []).1 with
  | .ok 0 => .ok 0
  | .ok _ => .error (error .internalInvariant)
  | .error failure =>
      if failure.category = .bufferTooSmall then
        match failure.detail with
        | .requiredCapacity required _ =>
            if required ≤ Word.max64 then .ok required else .error (error .capacityExceeded)
        | _ => .error failure
      else .error failure

/-- A turn of the first pass, on the sizes so far and their sum. -/
def measure (state : List Nat × Nat) (query : AabbQuery) :
    Except KernelError (List Nat × Nat) := do
  let required ← context.required backend query
  match (Word.checkedAdd Word.max64 state.2 required).filter (· ≤ context.limits.maxHits) with
  | some total => .ok (state.1 ++ [required], total)
  | none => .error (error .capacityExceeded)

/-- A turn of the second pass, on the hits so far and the scratch buffer. -/
def stage (state : List SpatialHit × List SpatialObjectId) (item : (AabbQuery × Nat) × Nat) :
    Except KernelError (List SpatialHit × List SpatialObjectId) := do
  let ((query, required), ordinal) := item
  let (result, scratch) :=
    backend.queryAabb context.index query.aabb (Buffer.resize state.2 required ⟨0⟩)
  let written ← result
  if written ≠ required then .error (error .internalInvariant)
  else .ok (state.1 ++ scratch.map (SpatialHit.mk (Word.asU32 ordinal)), scratch)

/-- Both passes: the total and what is to be copied to the caller's buffer. -/
def gather (queries : List AabbQuery) (provided : Nat) :
    Except KernelError (Nat × List SpatialHit) :=
  if queries.length > context.limits.maxQueries ∨ queries.length > Word.max32 then
    .error (error .capacityExceeded)
  else do
    let (sizes, total) ← queries.foldlM (context.measure backend) ([], 0)
    if total > provided then .error (bufferTooSmall total provided)
    else do
      let (staged, _) ← (queries.zip sizes).zipIdx.foldlM (context.stage backend) ([], [])
      .ok (total, staged.insertionSort (· ≤ ·))

def queryAabbBatch (queries : List AabbQuery) (out : List SpatialHit) :
    Except KernelError Nat × List SpatialHit :=
  match context.gather backend queries out.length with
  | .error failure => (.error failure, out)
  | .ok (total, staged) => (.ok total, Buffer.overwrite out staged)

/-! The first pass. -/

section Passes

variable {backend context}

theorem measure_invalid {state : List Nat × Nat} {query : AabbQuery} {failure : KernelError}
    (h : query.aabb.validate = .error failure) :
    context.measure backend state query = .error failure := by
  rw [measure, required, h]
  rfl

variable {stored : S → Boxes} (hContract : Contract backend stored)
include hContract

theorem required_valid {query : AabbQuery} (h : query.aabb.Valid) :
    context.required backend query =
      if ((stored context.index).hits query.aabb).length ≤ Word.max64 then
        .ok ((stored context.index).hits query.aabb).length
      else .error (error .capacityExceeded) := by
  have hAnswer := hContract.answer (s := context.index) h []
  rw [required, Aabb3.validate_eq_ok.mpr h, Check.ok_bind]
  split_ifs at hAnswer with hSome
  · rw [hAnswer]
    rfl
  · rw [List.length_nil, not_lt, Nat.le_zero] at hSome
    obtain ⟨out, hAnswer, -⟩ := hAnswer
    rw [hAnswer, hSome]
    rfl

theorem measure_valid {state : List Nat × Nat} {query : AabbQuery} (h : query.aabb.Valid) :
    context.measure backend state query =
      if state.2 + ((stored context.index).hits query.aabb).length ≤ context.limits.maxHits then
        .ok (state.1 ++ [((stored context.index).hits query.aabb).length],
          state.2 + ((stored context.index).hits query.aabb).length)
      else .error (error .capacityExceeded) := by
  have hUsize := context.limits.usize
  rw [measure, required_valid hContract h]
  split_ifs with hWord hRoom hRoom
  · rw [Check.ok_bind, Word.checkedAdd_eq_some.mpr ⟨rfl, hRoom.trans hUsize⟩, Option.filter_some,
      if_pos (decide_eq_true hRoom)]
  · rw [Check.ok_bind, Word.checkedAdd]
    split_ifs
    · rw [Option.filter_some, if_neg (by simpa using hRoom)]
    · rfl
  · omega
  · rfl

theorem measure_all {queries : List AabbQuery} (hValid : ∀ query ∈ queries, query.aabb.Valid)
    (sizes : List Nat) {total : Nat}
    (hRoom : total + (queries.map (stored context.index).count).sum ≤ context.limits.maxHits) :
    queries.foldlM (context.measure backend) (sizes, total) =
      .ok (sizes ++ queries.map (stored context.index).count,
        total + (queries.map (stored context.index).count).sum) := by
  induction queries generalizing sizes total with
  | nil => simp [pure, Except.pure]
  | cons query rest ih =>
      rw [Boxes.total_cons] at hRoom ⊢
      rw [List.foldlM_cons, measure_valid hContract (hValid query List.mem_cons_self),
        if_pos (by rw [Boxes.count] at hRoom; omega), Check.ok_bind]
      rw [← Boxes.count, ih (fun q hq => hValid q (List.mem_cons_of_mem _ hq)) _ hRoom,
        List.append_assoc]
      rfl

theorem measure_fails {queries : List AabbQuery} (sizes : List Nat) {total : Nat}
    (hTotal : total ≤ context.limits.maxHits)
    (h : ¬((∀ query ∈ queries, query.aabb.Valid) ∧
      total + (queries.map (stored context.index).count).sum ≤ context.limits.maxHits)) :
    ∃ failure, queries.foldlM (context.measure backend) (sizes, total) = .error failure ∧
      failure.category ≠ .internalInvariant := by
  induction queries generalizing sizes total with
  | nil => exact absurd ⟨by simp, by simpa using hTotal⟩ h
  | cons query rest ih =>
      rw [List.foldlM_cons]
      cases hCheck : query.aabb.validate with
      | error failure =>
          rw [measure_invalid hCheck]
          refine ⟨failure, rfl, ?_⟩
          rw [Aabb3.validate_category hCheck]
          decide
      | ok _ =>
          have hQuery := Aabb3.validate_eq_ok.mp hCheck
          rw [measure_valid hContract hQuery]
          split_ifs with hRoom
          · apply ih _ hRoom
            rintro ⟨hRest, hSum⟩
            apply h
            rw [Boxes.total_cons]
            exact ⟨List.forall_mem_cons.mpr ⟨hQuery, hRest⟩, hSum⟩
          · exact ⟨_, rfl, by decide⟩

/-! The second pass. -/

theorem stage_valid {query : AabbQuery} (h : query.aabb.Valid) {ordinal : Nat}
    (hOrdinal : ordinal < 2 ^ 32) (state : List SpatialHit × List SpatialObjectId) :
    context.stage backend state ((query, (stored context.index).count query), ordinal) =
      .ok (state.1 ++ ((stored context.index).hits query.aabb).map (SpatialHit.mk ordinal),
        (stored context.index).hits query.aabb) := by
  have hAnswer := hContract.answer (s := context.index) h
    (Buffer.resize state.2 ((stored context.index).count query) ⟨0⟩)
  rw [Buffer.length_resize, ← Boxes.count, if_neg (lt_irrefl _)] at hAnswer
  obtain ⟨scratch, hAnswer, hLength, hHits⟩ := hAnswer
  rw [← hLength, List.take_length] at hHits
  simp only [stage, hAnswer, Check.ok_bind, Word.asU32_of_lt hOrdinal, hHits, ne_eq,
    not_true_eq_false, if_false]

theorem stage_all {queries : List AabbQuery} (hValid : ∀ query ∈ queries, query.aabb.Valid)
    (first : Nat) (hOrdinals : first + queries.length ≤ 2 ^ 32)
    (state : List SpatialHit × List SpatialObjectId) :
    ∃ scratch, ((queries.zip (queries.map (stored context.index).count)).zipIdx first).foldlM
        (context.stage backend) state =
      .ok (state.1 ++ (stored context.index).batchHits queries first, scratch) := by
  induction queries generalizing first state with
  | nil => exact ⟨state.2, by simp [Boxes.batchHits, pure, Except.pure]⟩
  | cons query rest ih =>
      rw [List.length_cons] at hOrdinals
      rw [List.map_cons, List.zip_cons_cons, List.zipIdx_cons, List.foldlM_cons,
        stage_valid hContract (hValid query List.mem_cons_self) (by omega), Check.ok_bind]
      obtain ⟨scratch, hRest⟩ := ih (fun q hq => hValid q (List.mem_cons_of_mem _ hq))
        (first + 1) (by omega)
        (state.1 ++ ((stored context.index).hits query.aabb).map (SpatialHit.mk first),
          (stored context.index).hits query.aabb)
      refine ⟨scratch, ?_⟩
      rw [hRest, List.append_assoc]
      rfl

/-! Both passes. -/

theorem gather_valid {queries : List AabbQuery} (hValid : ∀ query ∈ queries, query.aabb.Valid)
    (hRoom : (queries.map (stored context.index).count).sum ≤ context.limits.maxHits)
    (hQueries : ¬(queries.length > context.limits.maxQueries ∨ queries.length > Word.max32))
    (provided : Nat) :
    context.gather backend queries provided =
      if (queries.map (stored context.index).count).sum > provided then
        .error (bufferTooSmall (queries.map (stored context.index).count).sum provided)
      else .ok ((queries.map (stored context.index).count).sum,
        (stored context.index).batchHits queries 0) := by
  have hOrdinals : 0 + queries.length ≤ 2 ^ 32 := by
    rw [not_or, Word.max32] at hQueries
    omega
  have hSorted : ((stored context.index).batchHits queries 0).Pairwise (· ≤ ·) :=
    (Boxes.batchHits_ascending fun query hQuery =>
      (hContract.isHits (hValid query hQuery)).ascending).imp le_of_lt
  obtain ⟨scratch, hStaged⟩ := stage_all hContract hValid 0 hOrdinals ([], [])
  rw [gather, if_neg hQueries, measure_all hContract hValid [] (by omega), Check.ok_bind,
    Nat.zero_add]
  dsimp only
  split_ifs
  · rfl
  · rw [List.nil_append, hStaged, Check.ok_bind, List.nil_append, hSorted.insertionSort_eq]

theorem gather_fails {queries : List AabbQuery} (provided : Nat)
    (h : (queries.length > context.limits.maxQueries ∨ queries.length > Word.max32) ∨
      ¬((∀ query ∈ queries, query.aabb.Valid) ∧
        (queries.map (stored context.index).count).sum ≤ context.limits.maxHits)) :
    ∃ failure, context.gather backend queries provided = .error failure ∧
      failure.category ≠ .internalInvariant := by
  rw [gather]
  split_ifs with hQueries
  · exact ⟨_, rfl, by decide⟩
  · rw [← Nat.zero_add (queries.map _).sum] at h
    obtain ⟨failure, hFails, hCategory⟩ :=
      measure_fails hContract [] (Nat.zero_le _) (h.resolve_left hQueries)
    rw [hFails]
    exact ⟨failure, rfl, hCategory⟩

end Passes

/-! Batch queries after any updates. -/

def update (context : SpatialContext S) : Update → Except KernelError Unit × SpatialContext S
  | .upsert id aabb => context.upsert backend id aabb
  | .remove id => context.remove backend id

end SpatialContext

/-- The boxes after the updates of a log. -/
def Boxes.replay (boxes : Boxes) (log : List (Update × Except KernelError Unit)) : Boxes :=
  log.foldl (fun boxes entry => boxes.after entry.1 entry.2) boxes

/-- What a batch query returns and leaves in `out`, on these boxes. -/
structure IsBatchAnswer (boxes : Boxes) (limits : SpatialQueryLimits) (queries : List AabbQuery)
    (out : List SpatialHit) (answer : Except KernelError Nat × List SpatialHit) : Prop where
  ok : ∀ n, answer.1 = .ok n → n ≤ out.length ∧ answer.2.drop n = out.drop n ∧
    (answer.2.take n).length = n ∧ IsBatchHits boxes queries (answer.2.take n)
  error : ∀ failure, answer.1 = .error failure → answer.2 = out
  within : (∀ query ∈ queries, query.aabb.Valid) → queries.length ≤ limits.maxQueries →
    queries.length ≤ Word.max32 → ∃ hits, IsBatchHits boxes queries hits ∧
      (hits.length ≤ limits.maxHits →
        ((∃ failure, answer.1 = .error failure) ↔ hits.length > out.length) ∧
        ∀ failure, answer.1 = .error failure → failure = bufferTooSmall hits.length out.length)
  invariant : ∀ failure, answer.1 = .error failure → failure.category ≠ .internalInvariant

namespace SpatialContext

variable {S : Type} {backend : SpatialIndexBackend S} {stored : S → Boxes}

theorem update_stored (hContract : Contract backend stored) (context : SpatialContext S)
    (change : Update) : stored (context.update backend change).2.index =
      (stored context.index).after change (context.update backend change).1 := by
  cases change with
  | upsert id aabb =>
      rw [update, upsert]
      cases hCheck : aabb.validate with
      | error failure => rfl
      | ok _ => exact hContract.upsert context.index id aabb (Aabb3.validate_eq_ok.mp hCheck)
  | remove id => exact hContract.remove context.index id

theorem update_limits (context : SpatialContext S) (change : Update) :
    (context.update backend change).2.limits = context.limits := by
  cases change with
  | upsert id aabb =>
      rw [update, upsert]
      cases aabb.validate <;> rfl
  | remove id => rfl

theorem run_stored (hContract : Contract backend stored) (context : SpatialContext S)
    (changes : List Update) : stored (Machine.run (update backend) context changes).2.index =
      (stored context.index).replay (Machine.run (update backend) context changes).1 := by
  apply Machine.run_records fun (context : SpatialContext S) boxes => stored context.index = boxes
  · rintro context boxes change rfl
    exact update_stored hContract context change
  · rfl

theorem run_limits (context : SpatialContext S) (changes : List Update) :
    (Machine.run (update backend) context changes).2.limits = context.limits := by
  induction changes generalizing context with
  | nil => rfl
  | cons change rest ih =>
      rw [Machine.run_cons, ih, update_limits]

end SpatialContext

theorem IsBatchAnswer.refused {boxes : Boxes} {limits : SpatialQueryLimits}
    {queries : List AabbQuery} {out : List SpatialHit} {failure : KernelError}
    (hCategory : failure.category ≠ .internalInvariant)
    (hWithin : (∀ query ∈ queries, query.aabb.Valid) → queries.length ≤ limits.maxQueries →
      queries.length ≤ Word.max32 →
      ∃ hits, IsBatchHits boxes queries hits ∧ ¬hits.length ≤ limits.maxHits) :
    IsBatchAnswer boxes limits queries out (.error failure, out) where
  ok n h := by cases h
  error failure' h := rfl
  within hValid hMax hWord := by
    obtain ⟨hits, hHits, hMany⟩ := hWithin hValid hMax hWord
    exact ⟨hits, hHits, fun hRoom => absurd hRoom hMany⟩
  invariant failure' h := by
    cases h
    exact hCategory

theorem IsBatchAnswer.small {boxes : Boxes} {limits : SpatialQueryLimits}
    {queries : List AabbQuery} {out hits : List SpatialHit}
    (hHits : IsBatchHits boxes queries hits) (hSmall : hits.length > out.length) :
    IsBatchAnswer boxes limits queries out
      (.error (bufferTooSmall hits.length out.length), out) where
  ok n h := by cases h
  error failure' h := rfl
  within _ _ _ := by
    refine ⟨hits, hHits, fun _ => ⟨⟨fun _ => hSmall, fun _ => ⟨_, rfl⟩⟩, ?_⟩⟩
    intro failure h
    cases h
    rfl
  invariant failure h := by
    cases h
    simp [bufferTooSmall]

theorem IsBatchAnswer.written {boxes : Boxes} {limits : SpatialQueryLimits}
    {queries : List AabbQuery} {out hits : List SpatialHit}
    (hHits : IsBatchHits boxes queries hits) (hFits : hits.length ≤ out.length) :
    IsBatchAnswer boxes limits queries out (.ok hits.length, Buffer.overwrite out hits) where
  ok n h := by
    cases h
    rw [Buffer.take_overwrite, Buffer.drop_overwrite]
    exact ⟨hFits, rfl, rfl, hHits⟩
  error failure h := by cases h
  within _ _ _ := by
    refine ⟨hits, hHits, fun _ => ⟨⟨?_, fun hSmall => absurd hFits (not_le.mpr hSmall)⟩, ?_⟩⟩
    · rintro ⟨failure, h⟩
      cases h
    · intro failure h
      cases h
  invariant failure h := by cases h

namespace SpatialContext

variable {S : Type} {backend : SpatialIndexBackend S} {stored : S → Boxes}

theorem isBatchHits (hContract : Contract backend stored) {s : S} {queries : List AabbQuery}
    (hValid : ∀ query ∈ queries, query.aabb.Valid) :
    IsBatchHits (stored s) queries ((stored s).batchHits queries 0) where
  ascending := Boxes.batchHits_ascending fun query hQuery =>
    (hContract.isHits (hValid query hQuery)).ascending
  exact ordinal id := by
    rw [Boxes.mem_batchHits]
    apply exists_congr
    intro query
    apply and_congr_right
    intro hQuery
    exact (hContract.isHits (hValid query (List.mem_of_getElem? hQuery))).exact id

theorem queryAabbBatch_answer (hContract : Contract backend stored) (context : SpatialContext S)
    (queries : List AabbQuery) (out : List SpatialHit) :
    IsBatchAnswer (stored context.index) context.limits queries out
      (context.queryAabbBatch backend queries out) := by
  by_cases hQueries : queries.length > context.limits.maxQueries ∨ queries.length > Word.max32
  · obtain ⟨failure, hGather, hCategory⟩ :=
      gather_fails hContract out.length (Or.inl hQueries)
    rw [queryAabbBatch, hGather]
    exact .refused hCategory fun _ hMax hWord => by omega
  by_cases hMeasured : (∀ query ∈ queries, query.aabb.Valid) ∧
      (queries.map (stored context.index).count).sum ≤ context.limits.maxHits
  · obtain ⟨hValid, hRoom⟩ := hMeasured
    have hHits := isBatchHits hContract (s := context.index) hValid
    have hLength := (stored context.index).length_batchHits queries 0
    rw [queryAabbBatch, gather_valid hContract hValid hRoom hQueries, ← hLength]
    split_ifs with hSmall
    · exact .small hHits hSmall
    · exact .written hHits (not_lt.mp hSmall)
  · obtain ⟨failure, hGather, hCategory⟩ :=
      gather_fails hContract out.length (Or.inr hMeasured)
    rw [queryAabbBatch, hGather]
    refine .refused hCategory fun hValid _ _ => ⟨_, isBatchHits hContract hValid, ?_⟩
    rw [Boxes.length_batchHits]
    exact fun hRoom => absurd ⟨hValid, hRoom⟩ hMeasured

/-- After any updates, a batch query on a backend that keeps the contract returns the complete
sorted hits, or leaves the caller's buffer as it was. -/
theorem queryAabbBatch_exact (hContract : Contract backend stored) (context : SpatialContext S)
    (changes : List Update) (queries : List AabbQuery) (out : List SpatialHit) :
    let after := Machine.run (update backend) context changes
    IsBatchAnswer ((stored context.index).replay after.1) context.limits queries out
      (after.2.queryAabbBatch backend queries out) := by
  intro after
  have hLimits : after.2.limits = context.limits := run_limits context changes
  rw [← run_stored hContract, ← hLimits]
  exact queryAabbBatch_answer hContract after.2 queries out

theorem queryAabbBatch_exact_two :
    let context : SpatialContext GridReferenceIndex := ⟨.withCapacity 2, ⟨4, 4, by decide⟩⟩
    let after := Machine.run (update GridReferenceIndex.backend) context
      [.upsert ⟨1⟩ (.cube 0), .upsert ⟨2⟩ (.cube 2), .remove ⟨1⟩]
    let answer := after.2.queryAabbBatch GridReferenceIndex.backend
      [⟨.cube 2⟩, ⟨.cube 0⟩] [⟨7, ⟨7⟩⟩, ⟨8, ⟨8⟩⟩]
    answer.1 = .ok 1 ∧ IsBatchAnswer (Boxes.replay context.index.objects.table.get after.1)
      context.limits [⟨.cube 2⟩, ⟨.cube 0⟩] [⟨7, ⟨7⟩⟩, ⟨8, ⟨8⟩⟩] answer :=
  ⟨by decide +kernel, queryAabbBatch_exact GridReferenceIndex.contract _ _ _ _⟩

/-- More than `u32::MAX` queries are refused, whatever the limits. -/
theorem queryAabbBatch_crowd :
    let context : SpatialContext GridReferenceIndex := ⟨.withCapacity 0, ⟨2 ^ 32, 0, by decide⟩⟩
    let queries : List AabbQuery := List.replicate (2 ^ 32) ⟨.cube 0⟩
    (∀ query ∈ queries, query.aabb.Valid) ∧ queries.length ≤ context.limits.maxQueries ∧
    IsBatchHits context.index.objects.table.get queries [] ∧
    context.queryAabbBatch GridReferenceIndex.backend queries [] =
      (.error (error .capacityExceeded), []) := by
  refine ⟨?_, ?_, ?_, ?_⟩
  · intro query hQuery
    obtain rfl := List.eq_of_mem_replicate hQuery
    exact Aabb3.validate_eq_ok.mp (by decide +kernel)
  · rw [List.length_replicate]
  · refine ⟨List.Pairwise.nil, fun ordinal id => ?_⟩
    constructor
    · rintro ⟨⟩
    · rintro ⟨query, -, stored, hStored, -⟩
      cases hStored
  · rw [queryAabbBatch, gather, if_pos (Or.inr (by rw [List.length_replicate]; decide))]

end SpatialContext
end Spatial

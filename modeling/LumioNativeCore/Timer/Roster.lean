import LumioNativeCore.Library.Cells
import LumioNativeCore.Timer.Manager

/-! What the operations do to the timers and scopes. Handles are the view: a
roster is read through `getTimer`, and every operation is described by what it
does to that reading. -/
namespace Timer

/-- An occupied cell becomes empty under the next generation. -/
def TimerSlot.retired (t : TimerSlot) : TimerSlot :=
  match t.record with
  | none => t
  | some _ => { generation := bumpGeneration t.generation, record := none }

/-- The cell is occupied by a timer of the scope `id`. -/
def TimerSlot.inScope (id : Nat) (t : TimerSlot) : Bool :=
  t.record.any fun record => record.scope.scopeId == id

/-- A scope apart from its counter. -/
def ScopeRecord.idle (s : ScopeRecord) : ScopeRecord := { s with active := 0 }

namespace Roster

variable {r : Roster} {c : Nat}

theorem getTimer_eq_ok {h : TimerHandle} {record : TimerRecord} :
    r.getTimer c h = .ok record ↔ h.context = c ∧ ∃ t, r.timers[h.index]? = some t ∧
      t.generation = h.generation ∧ t.record = some record := by
  rw [getTimer]
  by_cases hContext : h.context = c
  · rw [if_neg (not_not.mpr hContext)]
    cases hCell : r.timers[h.index]? with
    | none => simp
    | some t =>
        by_cases hGeneration : t.generation = h.generation
        · cases hRecord : t.record <;> simp [hContext, hGeneration, hRecord]
        · simp [hGeneration]
  · simp [hContext]

theorem getTimer_error {h : TimerHandle} {failure : TimerError}
    (hError : r.getTimer c h = .error failure) : failure = .staleHandle := by
  rw [getTimer] at hError
  split_ifs at hError with hContext
  · exact (Except.error.inj hError).symm
  · cases hCell : r.timers[h.index]? with
    | none => simpa [hCell, eq_comm] using hError
    | some t =>
        simp only [hCell] at hError
        split_ifs at hError with hGeneration
        · exact (Except.error.inj hError).symm
        · cases hRecord : t.record <;> simp [hRecord] at hError
          exact hError.symm

/-- Two readings agree when they find the same records. -/
theorem getTimer_congr {r' : Roster} {h h' : TimerHandle}
    (hSame : ∀ record, r.getTimer c h = .ok record ↔ r'.getTimer c h' = .ok record) :
    r.getTimer c h = r'.getTimer c h' := by
  cases hLeft : r.getTimer c h with
  | ok record => exact ((hSame record).mp hLeft).symm
  | error failure =>
      cases hRight : r'.getTimer c h' with
      | ok record => rw [(hSame record).mpr hRight] at hLeft; cases hLeft
      | error failure' => rw [getTimer_error hLeft, getTimer_error hRight]

/-! Retiring. -/

theorem timers_retireIndex (r : Roster) (i : Nat) :
    (r.retireIndex i).timers = r.timers.modify i TimerSlot.retired := by
  rw [retireIndex]
  cases hCell : r.timers[i]? with
  | none => rw [List.modify_eq_self (by simpa using hCell)]
  | some t =>
      dsimp only
      apply List.ext_getElem?
      intro j
      rw [List.getElem?_modify]
      cases hRecord : t.record with
      | none =>
          by_cases hj : i = j
          · subst hj
            simp [hCell, TimerSlot.retired, hRecord]
          · simp [hj]
      | some record =>
          change (r.timers.set i _)[j]? = _
          rw [List.getElem?_set]
          by_cases hj : i = j
          · subst hj
            have hBound : i < r.timers.length := (List.getElem?_eq_some_iff.mp hCell).1
            rw [if_pos rfl, if_pos hBound, hCell]
            simp [TimerSlot.retired, hRecord]
          · simp [hj]

theorem getTimer_retireIndex (r : Roster) (c i : Nat) (h : TimerHandle) :
    (r.retireIndex i).getTimer c h =
      if h.index = i then .error .staleHandle else r.getTimer c h := by
  split_ifs with hIndex
  · cases hGet : (r.retireIndex i).getTimer c h with
    | error failure => rw [getTimer_error hGet]
    | ok record =>
        obtain ⟨-, t, hCell, -, hRecord⟩ := getTimer_eq_ok.mp hGet
        rw [timers_retireIndex, hIndex, List.getElem?_modify_eq] at hCell
        obtain ⟨t', -, rfl⟩ := Option.map_eq_some_iff.mp hCell
        rw [TimerSlot.retired] at hRecord
        cases hBefore : t'.record <;> simp [hBefore] at hRecord
  · apply getTimer_congr
    intro record
    rw [getTimer_eq_ok, getTimer_eq_ok, timers_retireIndex,
      List.getElem?_modify_ne _ _ (Ne.symm hIndex)]

theorem getTimer_retire (r : Roster) (c : Nat) (target h : TimerHandle) :
    (r.retire c target).getTimer c h =
      if h = target then .error .staleHandle else r.getTimer c h := by
  rw [retire]
  cases hTarget : r.getTimer c target with
  | error failure =>
      split_ifs with hSame
      · rw [hSame, ← getTimer_error hTarget, hTarget]
      · rfl
  | ok record =>
      change (r.retireIndex target.index).getTimer c h = _
      rw [getTimer_retireIndex]
      by_cases hSame : h = target
      · subst hSame
        rw [if_pos rfl, if_pos rfl]
      · rw [if_neg hSame]
        split_ifs with hIndex
        · cases hGet : r.getTimer c h with
          | error failure => rw [getTimer_error hGet]
          | ok other =>
              obtain ⟨hContext, t, hCell, hGeneration, -⟩ := getTimer_eq_ok.mp hTarget
              obtain ⟨hContext', t', hCell', hGeneration', -⟩ := getTimer_eq_ok.mp hGet
              rw [hIndex, hCell] at hCell'
              obtain rfl := Option.some.inj hCell'
              exact absurd (TimerHandle.ext_iff.mpr ⟨hIndex, hGeneration'.symm.trans hGeneration,
                hContext'.trans hContext.symm⟩) hSame
        · rfl

theorem getTimer_updateTimer (r : Roster) (c i : Nat) (f : TimerRecord → TimerRecord)
    (h : TimerHandle) :
    (r.updateTimer i f).getTimer c h =
      if h.index = i then (r.getTimer c h).map f else r.getTimer c h := by
  split_ifs with hIndex
  · subst hIndex
    simp only [getTimer, updateTimer, List.getElem?_modify_eq]
    split_ifs
    · rfl
    · cases r.timers[h.index]? with
      | none => rfl
      | some t =>
          simp only [Option.map_eq_map, Option.map_some]
          split_ifs
          · rfl
          · cases t.record <;> rfl
  · apply getTimer_congr
    intro record
    rw [getTimer_eq_ok, getTimer_eq_ok, updateTimer, List.getElem?_modify_ne _ _ (Ne.symm hIndex)]

theorem inScope_of_getTimer {h : TimerHandle} {record : TimerRecord}
    (hGet : r.getTimer c h = .ok record) (id : Nat) :
    r.inScope id h.index = true ↔ record.scope.scopeId = id := by
  obtain ⟨-, t, hCell, -, hRecord⟩ := getTimer_eq_ok.mp hGet
  rw [inScope, hCell, Option.bind_some, hRecord, Option.any_some, beq_iff_eq]

/-- What holds after every retirement holds after the loop over a scope. -/
theorem retireScope_induction {motive : Roster → Prop} (hBase : motive r)
    (hStep : ∀ r i, motive r → motive (r.retireIndex i)) (id : Nat) : motive (r.retireScope id) := by
  have hLoop : ∀ (indices : List Nat) (r : Roster), motive r → motive (indices.foldl
      (fun r index => if r.inScope id index then r.retireIndex index else r) r) := by
    intro indices
    induction indices with
    | nil => exact fun _ h => h
    | cons i rest ih =>
        intro r h
        rw [List.foldl_cons]
        apply ih
        split_ifs
        · exact hStep r i h
        · exact h
  exact hLoop _ r hBase

theorem getTimer_retireScope {id : Nat} {h : TimerHandle} {record : TimerRecord} :
    (r.retireScope id).getTimer c h = .ok record ↔
      r.getTimer c h = .ok record ∧ record.scope.scopeId ≠ id := by
  have hLoop : ∀ (indices : List Nat) (r : Roster), (indices.foldl
      (fun r index => if r.inScope id index then r.retireIndex index else r) r).getTimer c h =
        .ok record ↔
      r.getTimer c h = .ok record ∧ ¬(record.scope.scopeId = id ∧ h.index ∈ indices) := by
    intro indices
    induction indices with
    | nil => simp
    | cons i rest ih =>
        intro r
        rw [List.foldl_cons, ih, List.mem_cons]
        by_cases hScope : r.inScope id i = true
        · rw [if_pos hScope, getTimer_retireIndex]
          by_cases hIndex : h.index = i
          · subst hIndex
            simp only [if_true, reduceCtorEq, false_and, false_iff, true_or, and_true, not_and,
              not_not]
            exact fun hGet => (inScope_of_getTimer hGet id).mp hScope
          · simp [hIndex]
        · rw [if_neg hScope]
          by_cases hIndex : h.index = i
          · subst hIndex
            simp only [true_or, and_true]
            constructor
            · rintro ⟨hGet, -⟩
              exact ⟨hGet, fun hId => hScope ((inScope_of_getTimer hGet id).mpr hId)⟩
            · rintro ⟨hGet, hId⟩
              exact ⟨hGet, fun hBoth => hId hBoth.1⟩
          · simp [hIndex]
  rw [retireScope, hLoop]
  apply and_congr_right
  intro hGet
  obtain ⟨-, t, hCell, -, -⟩ := getTimer_eq_ok.mp hGet
  have hBound : h.index ∈ List.range r.timers.length :=
    List.mem_range.mpr (List.getElem?_eq_some_iff.mp hCell).1
  simp [hBound]

theorem retire_induction {motive : Roster → Prop} (hBase : motive r)
    (hStep : ∀ r i, motive r → motive (r.retireIndex i)) (c : Nat) (h : TimerHandle) :
    motive (r.retire c h) := by
  rw [retire]
  cases r.getTimer c h with
  | error failure => exact hBase
  | ok record => exact hStep r h.index hBase

/-! Handles that were handed out. -/

/-- The cell of `h` has moved past its generation, or is held by `h`. -/
def Issued (r : Roster) (c : Nat) (h : TimerHandle) : Prop :=
  h.context = c ∧ ∃ t, r.timers[h.index]? = some t ∧
    (h.generation < t.generation ∨ h.generation = t.generation ∧ t.record.isSome)

theorem issued_of_getTimer {h : TimerHandle} {record : TimerRecord}
    (hGet : r.getTimer c h = .ok record) : r.Issued c h := by
  obtain ⟨hContext, t, hCell, hGeneration, hRecord⟩ := getTimer_eq_ok.mp hGet
  exact ⟨hContext, t, hCell, Or.inr ⟨hGeneration.symm, by rw [hRecord]; rfl⟩⟩

theorem issued_retireIndex {h : TimerHandle} (i : Nat) :
    (r.retireIndex i).Issued c h ↔ r.Issued c h := by
  rw [Issued, Issued, timers_retireIndex, List.getElem?_modify]
  apply and_congr_right
  intro _
  by_cases hIndex : i = h.index
  · rw [hIndex]
    cases hCell : r.timers[h.index]? with
    | none => simp
    | some t =>
        simp only [if_true, Option.map_eq_map, Option.map_some, Option.some.injEq, exists_eq_left',
          TimerSlot.retired]
        cases hRecord : t.record with
        | none => simp [hRecord]
        | some record =>
            simp only [bumpGeneration, Option.isSome_none, Option.isSome_some, Bool.false_eq_true,
              and_false, or_false, and_true]
            omega
  · simp [hIndex]

theorem issued_updateTimer {h : TimerHandle} (i : Nat) (f : TimerRecord → TimerRecord) :
    (r.updateTimer i f).Issued c h ↔ r.Issued c h := by
  rw [Issued, Issued, updateTimer, List.getElem?_modify]
  apply and_congr_right
  intro _
  by_cases hIndex : i = h.index
  · cases hCell : r.timers[h.index]? <;> simp [hIndex]
  · simp [hIndex]

/-! The free list. -/

/-- The free list holds the empty cells, once each. -/
structure FreeListed (r : Roster) : Prop where
  nodup : r.timerFree.Nodup
  mem : ∀ i, i ∈ r.timerFree ↔ ∃ t, r.timers[i]? = some t ∧ t.record = none

theorem FreeListed.retireIndex (hFree : r.FreeListed) (i : Nat) :
    (r.retireIndex i).FreeListed := by
  have hTimers := timers_retireIndex r i
  rw [Roster.retireIndex] at hTimers ⊢
  cases hCell : r.timers[i]? with
  | none => exact hFree
  | some t =>
      cases hRecord : t.record with
      | none => simpa only [hRecord] using hFree
      | some record =>
          simp only [hCell, hRecord] at hTimers ⊢
          have hNew : i ∉ r.timerFree := by
            rw [hFree.mem, hCell]
            rintro ⟨t', hSame, hNone⟩
            obtain rfl := Option.some.inj hSame
            rw [hRecord] at hNone
            cases hNone
          refine ⟨List.nodup_cons.mpr ⟨hNew, hFree.nodup⟩, fun j => ?_⟩
          change j ∈ i :: r.timerFree ↔ _
          rw [hTimers, List.mem_cons, hFree.mem, List.getElem?_modify]
          by_cases hj : i = j
          · subst hj
            simp [hCell, TimerSlot.retired, hRecord]
          · simp [hj, Ne.symm hj]

theorem FreeListed.updateTimer (hFree : r.FreeListed) (i : Nat)
    (f : TimerRecord → TimerRecord) : (r.updateTimer i f).FreeListed where
  nodup := hFree.nodup
  mem j := by
    change j ∈ r.timerFree ↔ ∃ t, (r.timers.modify i _)[j]? = some t ∧ _
    rw [hFree.mem, List.getElem?_modify]
    by_cases hj : i = j
    · subst hj
      cases r.timers[i]? <;> simp
    · simp [hj]

/-! Placing a record. -/

/-- Where a record is placed: in the free cell popped first, or in a new cell. -/
theorem place_cases (hFree : r.FreeListed) (c : Nat) (record : TimerRecord) :
    (r.place c record).1.context = c ∧ (r.place c record).2.live = r.live ∧
      (r.place c record).2.scopes = r.scopes ∧
      ((∃ t, r.timers[(r.place c record).1.index]? = some t ∧ t.record = none ∧
          (r.place c record).1.generation = t.generation ∧
          r.timerFree = (r.place c record).1.index :: (r.place c record).2.timerFree ∧
          (r.place c record).2.timers = r.timers.modify (r.place c record).1.index
            (fun t => { t with record := some record })) ∨
        (r.timerFree = [] ∧ (r.place c record).2.timerFree = [] ∧
          (r.place c record).1.index = r.timers.length ∧ (r.place c record).1.generation = 1 ∧
          (r.place c record).2.timers = r.timers ++ [⟨1, some record⟩])) := by
  rw [place]
  cases hList : r.timerFree with
  | nil => exact ⟨rfl, rfl, rfl, Or.inr ⟨rfl, rfl, rfl, rfl, rfl⟩⟩
  | cons index rest =>
      obtain ⟨t, hCell, hNone⟩ := (hFree.mem index).mp (by simp [hList])
      refine ⟨rfl, rfl, rfl, Or.inl ⟨t, hCell, hNone, ?_, rfl, rfl⟩⟩
      change ((r.timers[index]?).map TimerSlot.generation).getD 0 = t.generation
      rw [hCell]
      rfl

theorem not_issued_place (hFree : r.FreeListed) (c : Nat) (record : TimerRecord) :
    ¬r.Issued c (r.place c record).1 := by
  rintro ⟨-, t, hCell, hAge⟩
  obtain ⟨-, -, -, ⟨t', hCell', hNone, hGeneration, -⟩ | ⟨-, -, hIndex, -⟩⟩ :=
    place_cases hFree c record
  · rw [hCell'] at hCell
    obtain rfl := Option.some.inj hCell
    simp [hNone, hGeneration] at hAge
  · rw [hIndex] at hCell
    simp at hCell

/-- A handle that was handed out is not handed out again. -/
theorem Issued.ne_place {h : TimerHandle} (hIssued : r.Issued c h) (hFree : r.FreeListed)
    (record : TimerRecord) : h ≠ (r.place c record).1 := by
  rintro rfl
  exact not_issued_place hFree c record hIssued

theorem getTimer_place (hFree : r.FreeListed) (c : Nat) (record : TimerRecord)
    (h : TimerHandle) :
    (r.place c record).2.getTimer c h =
      if h = (r.place c record).1 then .ok record else r.getTimer c h := by
  obtain ⟨hContext, -, -, hCases⟩ := place_cases hFree c record
  split_ifs with hSame
  · subst hSame
    apply getTimer_eq_ok.mpr
    rcases hCases with ⟨t, hCell, -, hGeneration, -, hTimers⟩ | ⟨-, -, hIndex, hGeneration, hTimers⟩
    · refine ⟨hContext, { t with record := some record }, ?_, hGeneration.symm, rfl⟩
      rw [hTimers, List.getElem?_modify_eq, hCell]
      rfl
    · refine ⟨hContext, ⟨1, some record⟩, ?_, hGeneration.symm, rfl⟩
      rw [hTimers, hIndex]
      simp
  · apply getTimer_congr
    intro other
    rw [getTimer_eq_ok, getTimer_eq_ok]
    apply and_congr_right
    intro hSameContext
    rcases hCases with ⟨t, hCell, hNone, hGeneration, -, hTimers⟩ | ⟨-, -, hIndex, hGeneration, hTimers⟩
    · rw [hTimers, List.getElem?_modify]
      by_cases hj : (r.place c record).1.index = h.index
      · rw [hj] at hCell ⊢
        have hDiffers : h.generation ≠ t.generation := fun hGen =>
          hSame (TimerHandle.ext hj.symm (hGen.trans hGeneration.symm)
            (hSameContext.trans hContext.symm))
        simp [hCell, hNone, Ne.symm hDiffers]
      · simp [hj]
    · rw [hTimers, List.getElem?_append]
      split_ifs with hBound
      · rfl
      · have hAbsent : r.timers[h.index]? = none := by
          rw [List.getElem?_eq_none_iff]
          omega
        rw [hAbsent]
        have hOther : ¬(h.index = r.timers.length ∧ 1 = h.generation) := by
          rintro ⟨hi, hg⟩
          exact hSame (TimerHandle.ext (hi.trans hIndex.symm) (hg.symm.trans hGeneration.symm)
            (hSameContext.trans hContext.symm))
        by_cases hi : h.index = r.timers.length
        · have hg : 1 ≠ h.generation := fun hg => hOther ⟨hi, hg⟩
          simp [hi, hg]
        · rw [List.getElem?_eq_none (by rw [List.length_singleton]; omega)]

theorem Issued.place (hFree : r.FreeListed) {h : TimerHandle} (hIssued : r.Issued c h)
    (record : TimerRecord) : (r.place c record).2.Issued c h := by
  obtain ⟨hContext, t, hCell, hAge⟩ := hIssued
  refine ⟨hContext, ?_⟩
  obtain ⟨-, -, -, ⟨t', hCell', hNone, -, -, hTimers⟩ | ⟨-, -, -, -, hTimers⟩⟩ :=
    place_cases hFree c record
  · rw [hTimers, List.getElem?_modify, hCell]
    by_cases hj : (r.place c record).1.index = h.index
    · refine ⟨{ t with record := some record }, by simp [hj], ?_⟩
      rw [hj, hCell] at hCell'
      obtain rfl := Option.some.inj hCell'
      simp only [hNone, Option.isSome_none, Bool.false_eq_true, and_false, or_false] at hAge
      exact Or.inl hAge
    · exact ⟨t, by simp [hj], hAge⟩
  · rw [hTimers]
    exact ⟨t, List.getElem?_append_left (List.getElem?_eq_some_iff.mp hCell).1 ▸ hCell, hAge⟩

theorem FreeListed.place (hFree : r.FreeListed) (c : Nat) (record : TimerRecord) :
    (r.place c record).2.FreeListed := by
  obtain ⟨-, -, -, ⟨t, hCell, hNone, -, hList, hTimers⟩ | ⟨hList, hList', hIndex, -, hTimers⟩⟩ :=
    place_cases hFree c record
  · have hNodup := hFree.nodup
    rw [hList, List.nodup_cons] at hNodup
    refine ⟨hNodup.2, fun j => ?_⟩
    have hMem := hFree.mem j
    rw [hList, List.mem_cons] at hMem
    rw [hTimers, List.getElem?_modify]
    by_cases hj : (r.place c record).1.index = j
    · subst hj
      simp [hCell, hNodup.1]
    · simp only [Ne.symm hj, false_or] at hMem
      rw [hMem]
      simp [hj]
  · refine ⟨by rw [hList']; exact List.nodup_nil, fun j => ?_⟩
    have hMem := hFree.mem j
    rw [hList] at hMem
    rw [hList', hTimers, List.getElem?_append]
    split_ifs with hBound
    · exact hMem
    · by_cases hj : j = r.timers.length
      · simp [hj]
      · rw [List.getElem?_eq_none (by rw [List.length_singleton]; omega)]
        simp

/-! The counters. -/

/-- The counters count the occupied cells. -/
structure Booked (r : Roster) : Prop where
  live : r.live = r.timers.countP fun t => t.record.isSome
  active : ∀ id scope, r.scopes.get id = some scope →
    scope.active = r.timers.countP (TimerSlot.inScope id)

theorem Booked.retireIndex (h : r.Booked) (i : Nat) : (r.retireIndex i).Booked := by
  have hTimers := timers_retireIndex r i
  rw [Roster.retireIndex] at hTimers ⊢
  cases hCell : r.timers[i]? with
  | none => exact h
  | some t =>
      cases hRecord : t.record with
      | none => simpa only [hRecord] using h
      | some record =>
          simp only [hCell, hRecord] at hTimers ⊢
          constructor
          · have hCount := Cells.countP_modify (fun t : TimerSlot => t.record.isSome)
              TimerSlot.retired hCell
            have hLive := h.live
            simp only [TimerSlot.retired, hRecord] at hCount
            simp at hCount
            rw [hTimers]
            change r.live - 1 = (r.timers.modify i TimerSlot.retired).countP _
            omega
          · intro id scope hScope
            have hCount := Cells.countP_modify (TimerSlot.inScope id) TimerSlot.retired hCell
            simp only [TimerSlot.inScope, TimerSlot.retired, hRecord] at hCount
            change (r.scopes.modify record.scope.scopeId _).get id = some scope at hScope
            rw [Table.get_modify] at hScope
            obtain ⟨before, hBefore, rfl⟩ := Option.map_eq_some_iff.mp hScope
            have hActive := h.active id before hBefore
            rw [hTimers]
            change _ = (r.timers.modify i TimerSlot.retired).countP _
            simp only [Option.any_some, beq_iff_eq, Option.any_none] at hCount
            by_cases hId : id = record.scope.scopeId
            · subst hId
              simp at hCount ⊢
              omega
            · simp [Ne.symm hId] at hCount
              simp [hId]
              omega

theorem Booked.updateTimer (h : r.Booked) (i : Nat) {f : TimerRecord → TimerRecord}
    (hScope : ∀ record, (f record).scope = record.scope) : (r.updateTimer i f).Booked where
  live := by
    change r.live = (r.timers.modify i _).countP _
    rw [Cells.countP_modify_of_eq (fun t => by simp)]
    exact h.live
  active id scope hGet := by
    change scope.active = (r.timers.modify i _).countP _
    rw [Cells.countP_modify_of_eq]
    · exact h.active id scope hGet
    · intro t
      rw [TimerSlot.inScope, TimerSlot.inScope]
      cases t.record with
      | none => rfl
      | some record => simp [hScope]

/-- Scheduling counts the placed record once. -/
theorem Booked.place (h : r.Booked) (hFree : r.FreeListed) (c : Nat) (record : TimerRecord) :
    Booked { (r.place c record).2.updateScope record.scope.scopeId
      (fun s => { s with active := s.active + 1 }) with live := r.live + 1 } := by
  have hCount : ∀ p : TimerSlot → Bool, (∀ generation, p ⟨generation, none⟩ = false) →
      (∀ generation generation', p ⟨generation, some record⟩ = p ⟨generation', some record⟩) →
      (r.place c record).2.timers.countP p =
        r.timers.countP p + if p ⟨0, some record⟩ then 1 else 0 := by
    intro p hNone hSome
    obtain ⟨-, -, -, ⟨t, hCell, hEmpty, -, -, hTimers⟩ | ⟨-, -, -, -, hTimers⟩⟩ :=
      place_cases hFree c record
    · have := Cells.countP_modify p (fun t => { t with record := some record }) hCell
      have hBefore : p t = false := by
        rw [← hNone t.generation, ← hEmpty]
      rw [hBefore, hSome t.generation 0] at this
      rw [hTimers]
      simpa using this
    · rw [hTimers, List.countP_append, List.countP_singleton, hSome 1 0]
  obtain ⟨-, -, hScopes, -⟩ := place_cases hFree c record
  constructor
  · have := hCount (fun t => t.record.isSome) (fun _ => rfl) (fun _ _ => rfl)
    change r.live + 1 = (r.place c record).2.timers.countP _
    rw [this, h.live]
    simp
  · intro id scope hGet
    change ((r.place c record).2.scopes.modify record.scope.scopeId _).get id = some scope at hGet
    rw [hScopes, Table.get_modify] at hGet
    obtain ⟨before, hBefore, rfl⟩ := Option.map_eq_some_iff.mp hGet
    have := hCount (TimerSlot.inScope id) (fun _ => rfl) (fun _ _ => rfl)
    change _ = (r.place c record).2.timers.countP _
    rw [this, ← h.active id before hBefore]
    by_cases hId : id = record.scope.scopeId
    · simp [hId, TimerSlot.inScope]
    · simp [hId, TimerSlot.inScope, Ne.symm hId]

/-! Scopes. -/

/-- The scope is registered and alive under its kind and generation. -/
def Resolves (scopes : Table Nat ScopeRecord) (scope : TimerScope) : Prop :=
  ∃ s, scopes.get scope.scopeId = some s ∧ s.alive = true ∧ s.generation = scope.generation ∧
    s.kind = scope.kind

/-- Every timer belongs to a scope that resolves. -/
def Scoped (r : Roster) (c : Nat) : Prop :=
  ∀ h record, r.getTimer c h = .ok record → Resolves r.scopes record.scope

/-- `r'` is `r` after some timers were written to and some retired. -/
structure Evolves (c : Nat) (r r' : Roster) : Prop where
  size : r'.timers.length = r.timers.length
  issued : ∀ h, r'.Issued c h ↔ r.Issued c h
  booked : r.Booked → r'.Booked
  free : r.FreeListed → r'.FreeListed
  scopeKeys : r'.scopes.keys = r.scopes.keys
  scopes : ∀ id, (r'.scopes.get id).map ScopeRecord.idle = (r.scopes.get id).map ScopeRecord.idle

theorem Evolves.refl (c : Nat) (r : Roster) : Evolves c r r :=
  ⟨rfl, fun _ => Iff.rfl, fun h => h, fun h => h, rfl, fun _ => rfl⟩

theorem Evolves.trans {r' r'' : Roster} (h : Evolves c r r') (h' : Evolves c r' r'') :
    Evolves c r r'' where
  size := h'.size.trans h.size
  issued handle := (h'.issued handle).trans (h.issued handle)
  booked hBooked := h'.booked (h.booked hBooked)
  free hFree := h'.free (h.free hFree)
  scopeKeys := h'.scopeKeys.trans h.scopeKeys
  scopes id := (h'.scopes id).trans (h.scopes id)

theorem evolves_updateTimer (c : Nat) (r : Roster) (i : Nat) {f : TimerRecord → TimerRecord}
    (hScope : ∀ record, (f record).scope = record.scope) : Evolves c r (r.updateTimer i f) where
  size := List.length_modify _ _ _
  issued _ := issued_updateTimer i f
  booked h := h.updateTimer i hScope
  free h := h.updateTimer i f
  scopeKeys := rfl
  scopes _ := rfl

/-- `r'` is `r` after some timers were retired. -/
structure Retires (c : Nat) (r r' : Roster) : Prop extends Evolves c r r' where
  getTimer : ∀ h record, r'.getTimer c h = .ok record → r.getTimer c h = .ok record

theorem Retires.refl (c : Nat) (r : Roster) : Retires c r r :=
  ⟨Evolves.refl c r, fun _ _ h => h⟩

theorem Retires.trans {r' r'' : Roster} (h : Retires c r r') (h' : Retires c r' r'') :
    Retires c r r'' :=
  ⟨h.toEvolves.trans h'.toEvolves, fun handle record hGet =>
    h.getTimer handle record (h'.getTimer handle record hGet)⟩

theorem retires_retireIndex (c : Nat) (r : Roster) (i : Nat) : Retires c r (r.retireIndex i) where
  size := by rw [timers_retireIndex, List.length_modify]
  getTimer h record hGet := by
    rw [getTimer_retireIndex] at hGet
    split_ifs at hGet
    exact hGet
  issued h := issued_retireIndex i
  booked h := h.retireIndex i
  free h := h.retireIndex i
  scopeKeys := by
    rw [Roster.retireIndex]
    cases r.timers[i]? with
    | none => rfl
    | some t =>
        cases hRecord : t.record with
        | none => simp only [hRecord]
        | some record => simp only [hRecord, updateScope, Table.keys_modify]
  scopes id := by
    rw [Roster.retireIndex]
    cases r.timers[i]? with
    | none => rfl
    | some t =>
        cases hRecord : t.record with
        | none => simp only [hRecord]
        | some record =>
            simp only [hRecord, updateScope, Table.get_modify, Option.map_map]
            congr 1
            funext s
            simp only [Function.comp_apply, ScopeRecord.idle]
            split_ifs <;> rfl

theorem retires_retire (c : Nat) (r : Roster) (h : TimerHandle) : Retires c r (r.retire c h) :=
  retire_induction (Retires.refl c r) (fun _ i h => h.trans (retires_retireIndex c _ i)) c h

theorem retires_retireScope (c : Nat) (r : Roster) (id : Nat) : Retires c r (r.retireScope id) :=
  retireScope_induction (Retires.refl c r) (fun _ i h => h.trans (retires_retireIndex c _ i)) id

/-- A roster that the loops of an operation pass through on their way from `r`: some timers
were written to and some retired. -/
inductive Interim (r : Roster) : Roster → Prop
  | refl : Interim r r
  | retireIndex {r' : Roster} (i : Nat) (prior : Interim r r') : Interim r (r'.retireIndex i)
  | updateTimer {r' : Roster} (i : Nat) {f : TimerRecord → TimerRecord}
      (hScope : ∀ record, (f record).scope = record.scope) (prior : Interim r r') :
      Interim r (r'.updateTimer i f)

namespace Interim

variable {r' r'' : Roster}

theorem trans (h : Interim r r') (h' : Interim r' r'') : Interim r r'' := by
  induction h' with
  | refl => exact h
  | retireIndex i _ ih => exact ih.retireIndex i
  | updateTimer i hScope _ ih => exact ih.updateTimer i hScope

theorem retire (h : Interim r r') (c : Nat) (handle : TimerHandle) :
    Interim r (r'.retire c handle) :=
  retire_induction h (fun _ i h => h.retireIndex i) c handle

theorem retireScope (h : Interim r r') (id : Nat) : Interim r (r'.retireScope id) :=
  retireScope_induction h (fun _ i h => h.retireIndex i) id

theorem evolves (h : Interim r r') (c : Nat) : Evolves c r r' := by
  induction h with
  | refl => exact Evolves.refl c r
  | retireIndex i _ ih => exact ih.trans (retires_retireIndex c _ i).toEvolves
  | updateTimer i hScope _ ih => exact ih.trans (evolves_updateTimer c _ i hScope)

/-- The timers in between are timers of before, in the same scopes. -/
theorem getTimer (h : Interim r r') {c : Nat} {handle : TimerHandle} {record' : TimerRecord}
    (hGet : r'.getTimer c handle = .ok record') :
    ∃ record, r.getTimer c handle = .ok record ∧ record'.scope = record.scope := by
  induction h generalizing record' with
  | refl => exact ⟨record', hGet, rfl⟩
  | retireIndex i _ ih =>
      rw [getTimer_retireIndex] at hGet
      split_ifs at hGet
      exact ih hGet
  | @updateTimer r' i f hScope _ ih =>
      rw [getTimer_updateTimer] at hGet
      split_ifs at hGet with hIndex
      · cases hBefore : r'.getTimer c handle with
        | error failure => simp [hBefore, Except.map] at hGet
        | ok before =>
            rw [hBefore] at hGet
            obtain rfl := Except.ok.inj hGet
            rw [hScope]
            exact ih hBefore
      · exact ih hGet

end Interim

theorem Evolves.resolves {r' : Roster} (h : Evolves c r r') (scope : TimerScope) :
    Resolves r'.scopes scope ↔ Resolves r.scopes scope := by
  have hRead : ∀ scopes : Table Nat ScopeRecord, Resolves scopes scope ↔
      ∃ s, (scopes.get scope.scopeId).map ScopeRecord.idle = some s ∧ s.alive = true ∧
        s.generation = scope.generation ∧ s.kind = scope.kind := by
    intro scopes
    cases hGet : scopes.get scope.scopeId with
    | none => simp [Resolves, hGet]
    | some s => simp [Resolves, hGet, ScopeRecord.idle]
  rw [hRead, hRead, h.scopes]

theorem Retires.resolving {r' : Roster} (h : Retires c r r') (hScoped : r.Scoped c) : r'.Scoped c := by
  intro handle record hGet
  rw [h.resolves]
  exact hScoped handle record (h.getTimer handle record hGet)

/-- An occupied cell is read back under its own handle. -/
theorem cell_of_getTimer {r' : Roster} (hGet : ∀ h, r.getTimer c h = r'.getTimer c h) {i : Nat}
    {t t' : TimerSlot} (hCell : r.timers[i]? = some t) (hCell' : r'.timers[i]? = some t')
    {record : TimerRecord} (hRecord : t.record = some record) : t = t' := by
  have hRead : r.getTimer c ⟨i, t.generation, c⟩ = .ok record :=
    getTimer_eq_ok.mpr ⟨rfl, t, hCell, rfl, hRecord⟩
  rw [hGet] at hRead
  obtain ⟨-, other, hOther, hGeneration, hRecord'⟩ := getTimer_eq_ok.mp hRead
  obtain rfl := Option.some.inj (hCell'.symm.trans hOther)
  cases t
  cases t'
  simp_all

/-- A roster is determined by its readings up to the counters and the free list. -/
theorem timers_ext {r' : Roster} (hSize : r.timers.length = r'.timers.length)
    (hGet : ∀ h, r.getTimer c h = r'.getTimer c h) (hIssued : ∀ h, r.Issued c h ↔ r'.Issued c h) :
    r.timers = r'.timers := by
  apply List.ext_getElem?
  intro i
  cases hCell : r.timers[i]? with
  | none =>
      rw [List.getElem?_eq_none_iff] at hCell
      rw [List.getElem?_eq_none (by omega)]
  | some t =>
      have hBound : i < r'.timers.length := by
        rw [← hSize]
        exact (List.getElem?_eq_some_iff.mp hCell).1
      have hCell' : r'.timers[i]? = some r'.timers[i] := List.getElem?_eq_getElem hBound
      rw [hCell']
      congr 1
      generalize r'.timers[i] = t' at hCell'
      cases hRecord : t.record with
      | some record => exact cell_of_getTimer hGet hCell hCell' hRecord
      | none =>
          cases hRecord' : t'.record with
          | some record =>
              exact (cell_of_getTimer (fun h => (hGet h).symm) hCell' hCell hRecord').symm
          | none =>
              have hBelow : ∀ g, g < t.generation ↔ g < t'.generation := by
                intro g
                have := hIssued ⟨i, g, c⟩
                simpa [Issued, hCell, hCell', hRecord, hRecord'] using this
              have hGeneration : t.generation = t'.generation := by
                apply Nat.le_antisymm
                · exact Nat.not_lt.mp fun h => Nat.lt_irrefl _ ((hBelow _).mp h)
                · exact Nat.not_lt.mp fun h => Nat.lt_irrefl _ ((hBelow _).mpr h)
              cases t
              cases t'
              simp_all

/-- Two evolutions with the same timers are the same, up to the order of the free list. -/
theorem Evolves.ext {r₁ r₂ : Roster} (h₁ : Evolves c r r₁) (h₂ : Evolves c r r₂)
    (hBooked : r.Booked) (hFree : r.FreeListed)
    (hGet : ∀ h, r₂.getTimer c h = r₁.getTimer c h) :
    r₂ = { r₁ with timerFree := r₂.timerFree } ∧ r₂.timerFree.Perm r₁.timerFree := by
  have hTimers : r₂.timers = r₁.timers :=
    timers_ext (h₂.size.trans h₁.size.symm) hGet fun h => (h₂.issued h).trans (h₁.issued h).symm
  have hLive : r₂.live = r₁.live := by
    rw [(h₂.booked hBooked).live, (h₁.booked hBooked).live, hTimers]
  have hScopes : r₂.scopes = r₁.scopes := by
    apply Table.ext_get (h₂.scopeKeys.trans h₁.scopeKeys.symm)
    intro id
    have hIdle := (h₂.scopes id).trans (h₁.scopes id).symm
    cases hScope : r₂.scopes.get id with
    | none => simpa [hScope, eq_comm] using hIdle
    | some s =>
        cases hScope' : r₁.scopes.get id with
        | none => simp [hScope, hScope'] at hIdle
        | some s' =>
            have hActive := (h₂.booked hBooked).active id s hScope
            rw [hTimers, ← (h₁.booked hBooked).active id s' hScope'] at hActive
            rw [hScope, hScope', Option.map_some, Option.map_some, Option.some.injEq] at hIdle
            cases s
            cases s'
            simp_all [ScopeRecord.idle]
  refine ⟨?_, (List.perm_ext_iff_of_nodup (h₂.free hFree).nodup (h₁.free hFree).nodup).mpr ?_⟩
  · cases r₂
    subst hTimers hLive hScopes
    rfl
  · intro i
    rw [(h₂.free hFree).mem, (h₁.free hFree).mem, hTimers]

end Roster
end Timer

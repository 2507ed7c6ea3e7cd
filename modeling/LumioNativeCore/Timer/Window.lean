import LumioNativeCore.Timer.Sound
import LumioNativeCore.Timer.Ticks

/-! One call of `advance`: what it collects, what the firing loop does with it
and where every timer stands afterwards. -/
namespace Timer

/-! The firing order. -/

instance : Std.Total firingLe where
  total a b := by
    unfold firingLe
    omega

instance : IsTrans FiringRecord firingLe where
  trans a b c := by
    unfold firingLe
    omega

/-- `a` is due before `b`, or at the same tick and was scheduled before it. -/
def FiringRecord.Precedes (a b : FiringRecord) : Prop :=
  a.dueTick < b.dueTick ∨ a.dueTick = b.dueTick ∧ a.scheduleSequence < b.scheduleSequence

theorem precedes_of_firingLe {a b : FiringRecord} (h : firingLe a b) (hKey : a.key ≠ b.key) :
    a.Precedes b := by
  rw [FiringRecord.key, FiringRecord.key, ne_eq, Prod.mk.injEq] at hKey
  unfold firingLe at h
  unfold FiringRecord.Precedes
  omega

/-- A list of different firings in firing order. -/
theorem pairwise_precedes {records : List FiringRecord} (hSorted : records.Pairwise firingLe)
    (hKeys : (records.map FiringRecord.key).Nodup) : records.Pairwise FiringRecord.Precedes := by
  rw [List.Nodup, List.pairwise_map] at hKeys
  exact (hSorted.and hKeys).imp fun h => precedes_of_firingLe h.1 h.2

/-- The ticks at which a waiting timer fires in a window. -/
def TimerRecord.ticks (toTick : Nat) (record : TimerRecord) : List Nat :=
  match record.interval with
  | none => [record.due]
  | some interval => (TimerManager.ticksFrom toTick interval record.due).1

/-- Where a repeating timer goes after a window: its next due tick, or none left. -/
def TimerRecord.next (toTick : Nat) (record : TimerRecord) : Option (Option Nat) :=
  record.interval.map fun interval => (TimerManager.ticksFrom toTick interval record.due).2

/-- The timer waits to fire, and does so in the window. -/
def TimerRecord.IsDue (toTick : Nat) (record : TimerRecord) : Prop :=
  record.queued = false ∧ record.due ≤ toTick

instance (toTick : Nat) (record : TimerRecord) : Decidable (record.IsDue toTick) :=
  inferInstanceAs (Decidable (_ ∧ _))

def TimerRecord.firing (record : TimerRecord) (handle : TimerHandle) (due : Nat) :
    FiringRecord where
  handle := handle
  dueTick := due
  scheduleSequence := record.sequence
  slotDispatchId := record.dispatch

namespace TimerManager

variable {m : TimerManager} {toTick : Nat}

/-! What is collected. -/

theorem collectTimer_eq (m : TimerManager) (toTick : Nat) (t : TimerSlot) (index : Nat) :
    m.collectTimer toTick (t, index) =
      match t.record with
      | none => ([], [])
      | some record =>
          if record.IsDue toTick then
            ((record.ticks toTick).map (record.firing ⟨index, t.generation, m.context⟩),
              (record.next toTick).toList.map fun next =>
                (⟨index, t.generation, m.context⟩, next))
          else ([], []) := by
  rw [collectTimer]
  cases t.record with
  | none => rfl
  | some record =>
      dsimp only
      by_cases hDue : record.IsDue toTick
      · have hIdle : ¬(record.queued = true ∨ record.due > toTick) := by
          rintro (hQueued | hLate)
          · rw [hDue.1] at hQueued
            cases hQueued
          · exact Nat.not_lt.mpr hDue.2 hLate
        rw [if_pos hDue, if_neg hIdle]
        simp only [TimerRecord.ticks, TimerRecord.next]
        cases record.interval <;> rfl
      · have hIdle : record.queued = true ∨ record.due > toTick := by
          by_contra hNone
          rw [not_or] at hNone
          exact hDue ⟨by simpa using hNone.1, Nat.not_lt.mp hNone.2⟩
        rw [if_neg hDue, if_pos hIdle]

theorem mem_collected {r : FiringRecord} :
    r ∈ m.collected toTick ↔ ∃ record, m.getTimer r.handle = .ok record ∧
      record.IsDue toTick ∧ r.dueTick ∈ record.ticks toTick ∧
      r = record.firing r.handle r.dueTick := by
  simp only [collected, List.mem_flatMap, Prod.exists, List.mem_zipIdx_iff_getElem?,
    collectTimer_eq]
  constructor
  · rintro ⟨t, index, hCell, hMem⟩
    cases hRecord : t.record with
    | none => simp [hRecord] at hMem
    | some record =>
        simp only [hRecord] at hMem
        split_ifs at hMem with hDue
        · obtain ⟨due, hTick, rfl⟩ := List.mem_map.mp hMem
          exact ⟨record, Roster.getTimer_eq_ok.mpr ⟨rfl, t, hCell, rfl, hRecord⟩, hDue, hTick, rfl⟩
        · exact absurd hMem List.not_mem_nil
  · rintro ⟨record, hGet, hDue, hTick, hFiring⟩
    obtain ⟨hContext, t, hCell, hGeneration, hRecord⟩ := Roster.getTimer_eq_ok.mp hGet
    refine ⟨t, r.handle.index, hCell, ?_⟩
    simp only [hRecord, if_pos hDue, List.mem_map]
    refine ⟨r.dueTick, hTick, ?_⟩
    rw [hFiring, hGeneration, ← hContext]
    rfl

theorem mem_nextDue {entry : TimerHandle × Option Nat} :
    entry ∈ m.nextDue toTick ↔ ∃ record, m.getTimer entry.1 = .ok record ∧
      record.IsDue toTick ∧ record.next toTick = some entry.2 := by
  simp only [nextDue, List.mem_flatMap, Prod.exists, List.mem_zipIdx_iff_getElem?,
    collectTimer_eq]
  constructor
  · rintro ⟨t, index, hCell, hMem⟩
    cases hRecord : t.record with
    | none => simp [hRecord] at hMem
    | some record =>
        simp only [hRecord] at hMem
        split_ifs at hMem with hDue
        · obtain ⟨next, hNext, rfl⟩ := List.mem_map.mp hMem
          exact ⟨record, Roster.getTimer_eq_ok.mpr ⟨rfl, t, hCell, rfl, hRecord⟩, hDue,
            Option.mem_toList.mp hNext⟩
        · exact absurd hMem List.not_mem_nil
  · rintro ⟨record, hGet, hDue, hNext⟩
    obtain ⟨hContext, t, hCell, hGeneration, hRecord⟩ := Roster.getTimer_eq_ok.mp hGet
    refine ⟨t, entry.1.index, hCell, ?_⟩
    simp only [hRecord, if_pos hDue, List.mem_map]
    refine ⟨entry.2, Option.mem_toList.mpr hNext, ?_⟩
    rw [hGeneration, ← hContext]

/-- What different cells contribute has different handles. -/
theorem pairwise_zipIdx (cells : List TimerSlot) :
    cells.zipIdx.Pairwise fun entry entry' => entry.2 ≠ entry'.2 := by
  have hNodup : (cells.zipIdx.map Prod.snd).Nodup := by
    rw [List.zipIdx_map_snd]
    exact List.nodup_range'
  rwa [List.Nodup, List.pairwise_map] at hNodup

section Ticks

variable {record : TimerRecord} (hInterval : record.interval ≠ some 0)

include hInterval

theorem interval_pos {interval : Nat} (hEvery : record.interval = some interval) :
    0 < interval := by
  apply Nat.pos_of_ne_zero
  rintro rfl
  exact hInterval hEvery

theorem ticks_nodup (hDue : record.due ≤ toTick) : (record.ticks toTick).Nodup := by
  rw [TimerRecord.ticks]
  cases hEvery : record.interval with
  | none => exact List.nodup_singleton _
  | some interval =>
      have hPos := interval_pos hInterval hEvery
      exact (ticksFrom_sorted hPos record.due hDue).2.imp Nat.ne_of_lt

theorem ticks_bound (hDue : record.due ≤ toTick) {tick : Nat} (hTick : tick ∈ record.ticks toTick) :
    record.due ≤ tick ∧ tick ≤ toTick := by
  rw [TimerRecord.ticks] at hTick
  cases hEvery : record.interval with
  | none =>
      simp only [hEvery, List.mem_singleton] at hTick
      subst hTick
      exact ⟨Nat.le_refl _, hDue⟩
  | some interval =>
      have hPos := interval_pos hInterval hEvery
      simp only [hEvery] at hTick
      exact (ticksFrom_sorted hPos record.due hDue).1 tick hTick

theorem due_mem_ticks : record.due ∈ record.ticks toTick := by
  rw [TimerRecord.ticks]
  cases hEvery : record.interval with
  | none => exact List.mem_singleton_self _
  | some interval => exact due_mem_ticksFrom (interval_pos hInterval hEvery) record.due

end Ticks

theorem collected_nodup {horizon : Nat} (h : Sound horizon m) (toTick : Nat) :
    (m.collected toTick).Nodup := by
  rw [collected, List.nodup_flatMap]
  constructor
  · rintro ⟨t, index⟩ hEntry
    rw [List.mem_zipIdx_iff_getElem?] at hEntry
    rw [collectTimer_eq]
    cases hRecord : t.record with
    | none => exact List.nodup_nil
    | some record =>
        dsimp only
        split_ifs with hDue
        · have hGet : m.getTimer ⟨index, t.generation, m.context⟩ = .ok record :=
            Roster.getTimer_eq_ok.mpr ⟨rfl, t, hEntry, rfl, hRecord⟩
          apply (ticks_nodup (h.interval _ record hGet) hDue.2).map
          intro due due' hSame
          exact congrArg FiringRecord.dueTick hSame
        · exact List.nodup_nil
  · apply (pairwise_zipIdx m.timers).imp
    rintro ⟨t, index⟩ ⟨t', index'⟩ hIndex r hMem hMem'
    have hHandle : ∀ (t : TimerSlot) (index : Nat), r ∈ (m.collectTimer toTick (t, index)).1 →
        r.handle.index = index := by
      intro t index hMem
      rw [collectTimer_eq] at hMem
      cases hRecord : t.record with
      | none => simp [hRecord] at hMem
      | some record =>
          simp only [hRecord] at hMem
          split_ifs at hMem
          · obtain ⟨due, -, rfl⟩ := List.mem_map.mp hMem
            rfl
          · exact absurd hMem List.not_mem_nil
    exact hIndex ((hHandle t index hMem).symm.trans (hHandle t' index' hMem'))

theorem nextDue_nodup (m : TimerManager) (toTick : Nat) :
    ((m.nextDue toTick).map Prod.fst).Nodup := by
  rw [nextDue, List.map_flatMap, List.nodup_flatMap]
  have hEntry : ∀ (t : TimerSlot) (index : Nat),
      ((m.collectTimer toTick (t, index)).2.map Prod.fst).Nodup ∧
        ∀ handle ∈ (m.collectTimer toTick (t, index)).2.map Prod.fst, handle.index = index := by
    intro t index
    rw [collectTimer_eq]
    cases t.record with
    | none => simp
    | some record =>
        dsimp only
        split_ifs
        · cases record.next toTick <;> simp
        · simp
  refine ⟨fun entry _ => (hEntry entry.1 entry.2).1, ?_⟩
  apply (pairwise_zipIdx m.timers).imp
  intro entry entry' hIndex handle hMem hMem'
  exact hIndex (((hEntry entry.1 entry.2).2 handle hMem).symm.trans
    ((hEntry entry'.1 entry'.2).2 handle hMem'))

/-- Firings of different ticks or timers have different keys. -/
theorem collected_keys {horizon : Nat} (h : Sound horizon m) (toTick : Nat) :
    ((m.collected toTick).map FiringRecord.key).Nodup := by
  apply List.Nodup.map_on _ (collected_nodup h toTick)
  intro r hr r' hr' hKey
  obtain ⟨record, hGet, -, -, hFiring⟩ := mem_collected.mp hr
  obtain ⟨record', hGet', -, -, hFiring'⟩ := mem_collected.mp hr'
  obtain ⟨hDue, hSequence⟩ := Prod.mk.inj hKey
  rw [hFiring, hFiring'] at hSequence
  have hHandle : r.handle = r'.handle :=
    h.distinct r.handle r'.handle record record' hGet hGet' hSequence
  rw [hHandle, hGet'] at hGet
  obtain rfl := Except.ok.inj hGet
  rw [hFiring, hFiring', hHandle, hDue]

end TimerManager
end Timer

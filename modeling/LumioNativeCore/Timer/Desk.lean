import LumioNativeCore.Library.Cells
import LumioNativeCore.Timer.Manager

/-! What the operations do to the slots and their queues. -/
namespace Timer

namespace Desk

variable {d d' : Desk}

/-- The item is queued at the slot with index `k`. -/
def Holds (d : Desk) (k : Nat) (item : QueueItem) : Prop :=
  ∃ s, d.slots[k]? = some s ∧ item ∈ s.queue

def stateOf (d : Desk) (k : Nat) : Option SlotState := (d.slots[k]?).map SlotRecord.state

/-- Every queued item. -/
def items (d : Desk) : List QueueItem := d.slots.flatMap SlotRecord.queue

theorem mem_items {item : QueueItem} : item ∈ d.items ↔ ∃ k, d.Holds k item := by
  rw [items, List.mem_flatMap]
  constructor
  · rintro ⟨s, hSlot, hItem⟩
    obtain ⟨k, hSlot⟩ := List.mem_iff_getElem?.mp hSlot
    exact ⟨k, s, hSlot, hItem⟩
  · rintro ⟨k, s, hSlot, hItem⟩
    exact ⟨s, List.mem_of_getElem? hSlot, hItem⟩

theorem slot_eq_ok {slot : CallbackSlot} {s : SlotRecord} :
    d.slot slot = .ok s ↔ d.slots[slot.index]? = some s ∧ s.generation = slot.generation := by
  rw [Desk.slot]
  cases hSlot : d.slots[slot.index]? with
  | none => simp
  | some found =>
      simp only [Option.some.injEq]
      split_ifs with hGeneration
      · simp only [Except.ok.injEq]
        constructor
        · rintro rfl
          exact ⟨rfl, hGeneration⟩
        · exact fun h => h.1
      · simp only [false_iff, not_and]
        rintro rfl
        exact hGeneration

/-! Queueing. -/

theorem enqueue_eq_ok {limits : TimerLimits} {budget : TimerBudget} {record : FiringRecord}
    {scope : TimerScope} {slot : CallbackSlot} :
    d.enqueue limits budget record scope slot = .ok d' ↔
      d.pending < budget.maxPendingRecords ∧
      (∃ s, d.slot slot = .ok s ∧ s.state = .armed ∧
        s.queue.length < limits.deliveryQueueDepthPerSlot) ∧
      d' = { d.updateSlot slot.index (fun s =>
        { s with queue := s.queue ++ [⟨record, scope, true⟩] }) with pending := d.pending + 1 } := by
  rw [enqueue]
  by_cases hPending : d.pending ≥ budget.maxPendingRecords
  · rw [if_pos hPending]
    simp [Nat.not_lt.mpr hPending]
  · rw [if_neg hPending]
    cases hSlot : d.slot slot with
    | error failure => simp
    | ok s =>
        dsimp only
        cases hState : s.state with
        | unbound => simp [hState]
        | closed => simp [hState]
        | armed =>
            dsimp only
            split_ifs with hDepth
            · simp [Nat.not_lt.mpr hDepth]
            · simp [hState, Nat.lt_of_not_le hPending, Nat.lt_of_not_le hDepth, eq_comm]

section Enqueued

variable {limits : TimerLimits} {budget : TimerBudget} {record : FiringRecord}
  {scope : TimerScope} {slot : CallbackSlot}

theorem stateOf_enqueue (h : d.enqueue limits budget record scope slot = .ok d') (k : Nat) :
    d'.stateOf k = d.stateOf k := by
  obtain ⟨-, -, rfl⟩ := enqueue_eq_ok.mp h
  simp only [stateOf, updateSlot, List.getElem?_modify]
  cases d.slots[k]? with
  | none => rfl
  | some s =>
      simp only [Option.map_eq_map, Option.map_some]
      split_ifs <;> rfl

theorem enqueue_armed (h : d.enqueue limits budget record scope slot = .ok d') :
    d.stateOf slot.index = some .armed := by
  obtain ⟨-, ⟨s, hSlot, hArmed, -⟩, -⟩ := enqueue_eq_ok.mp h
  rw [stateOf, (slot_eq_ok.mp hSlot).1, Option.map_some, hArmed]

/-- Only the queue of the slot written to grows. -/
theorem slot_enqueue (h : d.enqueue limits budget record scope slot = .ok d')
    {other : CallbackSlot} {s' : SlotRecord} :
    d'.slot other = .ok s' ↔ ∃ s, d.slot other = .ok s ∧ s' =
      if slot.index = other.index then { s with queue := s.queue ++ [⟨record, scope, true⟩] }
      else s := by
  obtain ⟨-, -, rfl⟩ := enqueue_eq_ok.mp h
  simp only [slot_eq_ok, updateSlot, List.getElem?_modify]
  by_cases hSame : slot.index = other.index
  · cases d.slots[other.index]? with
    | none => simp [hSame]
    | some s =>
        simp only [hSame, if_true, Option.map_eq_map, Option.map_some, Option.some.injEq]
        constructor
        · rintro ⟨rfl, hGeneration⟩
          exact ⟨s, ⟨rfl, hGeneration⟩, rfl⟩
        · rintro ⟨_, ⟨rfl, hGeneration⟩, rfl⟩
          exact ⟨rfl, hGeneration⟩
  · cases d.slots[other.index]? with
    | none => simp [hSame]
    | some s =>
        simp only [hSame, if_false, Option.map_eq_map, Option.map_some, Option.some.injEq]
        constructor
        · rintro ⟨rfl, hGeneration⟩
          exact ⟨s, ⟨rfl, hGeneration⟩, rfl⟩
        · rintro ⟨_, ⟨rfl, hGeneration⟩, rfl⟩
          exact ⟨rfl, hGeneration⟩

theorem holds_enqueue (h : d.enqueue limits budget record scope slot = .ok d') (k : Nat)
    (item : QueueItem) :
    d'.Holds k item ↔ d.Holds k item ∨ (k = slot.index ∧ item = ⟨record, scope, true⟩) := by
  obtain ⟨-, ⟨s, hSlot, -⟩, rfl⟩ := enqueue_eq_ok.mp h
  have hFound := (slot_eq_ok.mp hSlot).1
  simp only [Holds, updateSlot, List.getElem?_modify]
  by_cases hk : slot.index = k
  · subst hk
    simp [hFound]
  · simp [hk, Ne.symm hk]

theorem items_enqueue (h : d.enqueue limits budget record scope slot = .ok d') :
    d'.items.Perm (d.items ++ [⟨record, scope, true⟩]) := by
  obtain ⟨-, ⟨s, hSlot, -⟩, rfl⟩ := enqueue_eq_ok.mp h
  have hBound := (List.getElem?_eq_some_iff.mp (slot_eq_ok.mp hSlot).1).1
  exact Cells.flatMap_modify (fun _ => rfl) hBound

theorem pending_enqueue (h : d.enqueue limits budget record scope slot = .ok d') :
    d'.pending = d.pending + 1 := by
  obtain ⟨-, -, rfl⟩ := enqueue_eq_ok.mp h
  rfl

end Enqueued

/-! The other writes keep the items, up to their validity. -/

/-- `d'` is `d` with some items invalidated and some slots bound, closed or added. -/
structure Rewrites (keep : Nat → QueueItem → Bool) (d d' : Desk) : Prop where
  pending : d'.pending = d.pending
  holds : ∀ k item, d'.Holds k item ↔
    ∃ before, d.Holds k before ∧ item = { before with valid := before.valid && keep k before }
  items : d'.items.map QueueItem.record = d.items.map QueueItem.record
  closed : ∀ k, d.stateOf k = some .closed → d'.stateOf k = some .closed

theorem rewrites_refl (d : Desk) : Rewrites (fun _ _ => true) d d where
  pending := rfl
  holds k item := by simp
  items := rfl
  closed _ h := h

theorem rewrites_invalidate (d : Desk) (p : QueueItem → Bool) :
    Rewrites (fun _ item => !p item) d (d.invalidate p) where
  pending := rfl
  holds k item := by
    simp only [Holds, invalidate, List.getElem?_map]
    cases d.slots[k]? with
    | none => simp
    | some s => simp [SlotRecord.invalidate, eq_comm]
  items := by
    simp only [items, invalidate, List.map_flatMap, List.flatMap_map]
    congr 1
    funext s
    simp [SlotRecord.invalidate]
  closed k := by
    simp only [stateOf, invalidate, List.getElem?_map]
    cases d.slots[k]? with
    | none => simp
    | some s => exact fun h => h

/-- Writing one slot, with its items kept or all invalidated. -/
theorem rewrites_updateSlot {i : Nat} {s : SlotRecord} {f : SlotRecord → SlotRecord} {keep : Bool}
    (hSlot : d.slots[i]? = some s)
    (hQueue : (f s).queue = s.queue.map fun item => { item with valid := item.valid && keep })
    (hClosed : s.state = .closed → (f s).state = .closed) :
    Rewrites (fun k _ => k != i || keep) d (d.updateSlot i f) where
  pending := rfl
  holds k item := by
    simp only [Holds, updateSlot, List.getElem?_modify]
    by_cases hk : i = k
    · subst hk
      simp [hSlot, hQueue, eq_comm]
    · have hOther : (k != i) = true := by simpa using Ne.symm hk
      simp [hk, hOther]
  items := by
    have hRecords : ∀ (slots : List SlotRecord) (i : Nat), slots[i]? = some s →
        ((slots.modify i f).flatMap SlotRecord.queue).map QueueItem.record =
          (slots.flatMap SlotRecord.queue).map QueueItem.record := by
      intro slots
      induction slots with
      | nil => simp
      | cons first rest ih =>
          intro i hi
          cases i with
          | zero =>
              obtain rfl : first = s := by simpa using hi
              simp [hQueue]
          | succ i =>
              simpa using ih i (by simpa using hi)
    exact hRecords d.slots i hSlot
  closed k := by
    simp only [stateOf, updateSlot, List.getElem?_modify]
    by_cases hk : i = k
    · subst hk
      simpa [hSlot] using hClosed
    · simp [hk]

theorem rewrites_append {s : SlotRecord} (hQueue : s.queue = []) :
    Rewrites (fun _ _ => true) d { d with slots := d.slots ++ [s] } where
  pending := rfl
  holds k item := by
    simp only [Holds, Bool.and_true, List.getElem?_append]
    split_ifs with hBound
    · exact ⟨fun h => ⟨item, h, rfl⟩, fun ⟨_, h, hItem⟩ => hItem ▸ h⟩
    · have hNone : d.slots[k]? = none := List.getElem?_eq_none (Nat.not_lt.mp hBound)
      by_cases hk : k - d.slots.length = 0
      · simp [hk, hQueue, hNone]
      · simp [hk, hNone]
  items := by simp [items, hQueue]
  closed k h := by
    obtain ⟨found, hFound, hState⟩ := Option.map_eq_some_iff.mp h
    simp only [stateOf]
    rw [List.getElem?_append_left (List.getElem?_eq_some_iff.mp hFound).1, hFound, Option.map_some,
      hState]

theorem Rewrites.mem_keys {keep : Nat → QueueItem → Bool} (h : Rewrites keep d d') {k : Nat}
    {item : QueueItem} (hItem : d'.Holds k item) :
    ∃ before, d.Holds k before ∧ item.record = before.record ∧ item.scope = before.scope ∧
      item.valid = (before.valid && keep k before) := by
  obtain ⟨before, hBefore, rfl⟩ := (h.holds k item).mp hItem
  exact ⟨before, hBefore, rfl, rfl, rfl⟩

/-! Taking the queues. -/

theorem not_holds_clear (d : Desk) (k : Nat) (item : QueueItem) : ¬d.clear.Holds k item := by
  rintro ⟨s, hSlot, hItem⟩
  rw [clear, List.getElem?_map] at hSlot
  obtain ⟨before, -, rfl⟩ := Option.map_eq_some_iff.mp hSlot
  exact List.not_mem_nil hItem

theorem items_clear (d : Desk) : d.clear.items = [] := by
  rw [List.eq_nil_iff_forall_not_mem]
  intro item hItem
  obtain ⟨k, hHolds⟩ := mem_items.mp hItem
  exact not_holds_clear d k item hHolds

theorem stateOf_clear (d : Desk) (k : Nat) : d.clear.stateOf k = d.stateOf k := by
  simp only [stateOf, clear, List.getElem?_map]
  cases d.slots[k]? <;> rfl

end Desk
end Timer

import LumioNativeCore.Library.Run
import LumioNativeCore.Kernel.Handle.Arena
import Mathlib.Data.Fintype.Card
import Mathlib.Data.Set.Card

/-! Handles as capabilities. The abstract side is the trace of arena calls: a
key is live with a value when it was inserted under that key and neither removed
nor drained since. The arena refines this reading through generation exhaustion. -/
namespace Kernel

universe u
open Transition

/-- One call of the arena together with what it returned. -/
inductive ArenaEvent (α : Type u) where
  | insert (value : α) (result : Except KernelError HandleKey)
  | remove (key : HandleKey) (result : Except KernelError α)
  | drainOccupied (payloads : List α)

namespace ArenaEvent

variable {α : Type u}

/-- The call hands out `key` for `value`. -/
def Inserts (key : HandleKey) (value : α) (event : ArenaEvent α) : Prop :=
  event = .insert value (.ok key)

/-- The call ends the life of `key`, if it was live. -/
def Ends (key : HandleKey) : ArenaEvent α → Prop
  | .insert _ _ => False
  | .remove other result => other = key ∧ ∃ value, result = .ok value
  | .drainOccupied _ => True

/-- The key a call hands out. -/
def issued : ArenaEvent α → Option HandleKey
  | .insert _ (.ok key) => some key
  | _ => none

end ArenaEvent

namespace HandleArena

variable {capacity : Nat} {α : Type u}

/-- The arena's transitions, labelled by call and result. -/
inductive Step : HandleArena capacity α → ArenaEvent α → HandleArena capacity α → Prop where
  | insert (arena : HandleArena capacity α) (value : α) :
      Step arena (.insert value (arena.insert value).1) (arena.insert value).2
  | remove (arena : HandleArena capacity α) (key : HandleKey) :
      Step arena (.remove key (arena.remove key).1) (arena.remove key).2
  | drainOccupied (arena : HandleArena capacity α) :
      Step arena (.drainOccupied arena.drainOccupied.2) arena.drainOccupied.1

/-- Every key handed out by a trace, in order. -/
def issuedKeys (trace : List (ArenaEvent α)) : List HandleKey :=
  trace.filterMap ArenaEvent.issued

/-- `key` was returned by an insert of `value` and has since been neither
removed nor drained. -/
def LiveIn (trace : List (ArenaEvent α)) (key : HandleKey) (value : α) : Prop :=
  Since (ArenaEvent.Inserts key value) (ArenaEvent.Ends key) trace

/-! Slot states. -/

def Occupied (arena : HandleArena capacity α) (index : Fin capacity) : Prop :=
  (arena.slots index).value.isSome

def Free (arena : HandleArena capacity α) (index : Fin capacity) : Prop :=
  index ∈ arena.free

/-- A slot that is empty and outside the free list is never used again. -/
def Retired (arena : HandleArena capacity α) (index : Fin capacity) : Prop :=
  (arena.slots index).value = none ∧ index ∉ arena.free

instance (arena : HandleArena capacity α) : DecidablePred arena.Occupied :=
  fun index => inferInstanceAs (Decidable ((arena.slots index).value.isSome = true))

instance (arena : HandleArena capacity α) : DecidablePred arena.Free :=
  fun index => inferInstanceAs (Decidable (index ∈ arena.free))

instance (arena : HandleArena capacity α) : DecidablePred arena.Retired :=
  fun index => decidable_of_iff
    ((arena.slots index).value.isNone = true ∧ index ∉ arena.free) (by simp [Retired])

/-- Representation invariant: the free list holds empty slots once each, the
retired counter counts the retired slots, and these are exhausted. -/
structure WellFormed (arena : HandleArena capacity α) : Prop where
  free_nodup : arena.free.Nodup
  free_empty : ∀ index ∈ arena.free, (arena.slots index).value = none
  retired_card : (Finset.univ.filter arena.Retired).card = arena.retired
  retired_generation : ∀ index, arena.Retired index →
    (arena.slots index).generation.raw = Word.max32
  generation_le : ∀ index, (arena.slots index).generation.raw ≤ Word.max32

/-- The abstract side: keys handed out so far and the values live under them. -/
structure Ledger (α : Type u) where
  issued : List HandleKey
  live : HandleKey → Option α

def Ledger.empty (α : Type u) : Ledger α := ⟨[], fun _ => none⟩

def Ledger.insert (ledger : Ledger α) (key : HandleKey) (value : α) : Ledger α :=
  ⟨ledger.issued ++ [key], Function.update ledger.live key (some value)⟩

def Ledger.release (ledger : Ledger α) (key : HandleKey) : Ledger α :=
  { ledger with live := Function.update ledger.live key none }

def Ledger.releaseAll (ledger : Ledger α) : Ledger α :=
  { ledger with live := fun _ => none }

/-- The ledger and the arena agree on which keys were issued and which are live.
An issued key names a slot whose generation has not fallen behind it, and a free
slot has a generation above every key issued for it. -/
structure Agrees (context : ContextKey) (ledger : Ledger α)
    (arena : HandleArena capacity α) : Prop where
  context_eq : arena.context = context
  issued_nodup : ledger.issued.Nodup
  issued_slot : ∀ key ∈ ledger.issued, key.context = context ∧
    ∃ index : Fin capacity, key.slot = ⟨index.val⟩ ∧
      key.generation.raw ≤ (arena.slots index).generation.raw ∧
      (index ∈ arena.free → key.generation.raw < (arena.slots index).generation.raw)
  live : ∀ key value, ledger.live key = some value ↔
    ∃ index, key = arena.keyAt index ∧ (arena.slots index).value = some value
  live_issued : ∀ key value, ledger.live key = some value → key ∈ ledger.issued

/-! Effects of the slot updates. -/

@[simp] theorem setSlot_context (arena : HandleArena capacity α) (index : Fin capacity)
    (slot : Slot α) : (arena.setSlot index slot).context = arena.context := rfl

@[simp] theorem setSlot_free (arena : HandleArena capacity α) (index : Fin capacity)
    (slot : Slot α) : (arena.setSlot index slot).free = arena.free := rfl

@[simp] theorem setSlot_retired (arena : HandleArena capacity α) (index : Fin capacity)
    (slot : Slot α) : (arena.setSlot index slot).retired = arena.retired := rfl

@[simp] theorem setSlot_same (arena : HandleArena capacity α) (index : Fin capacity)
    (slot : Slot α) : (arena.setSlot index slot).slots index = slot := by
  simp [setSlot]

@[simp] theorem setSlot_other (arena : HandleArena capacity α) {index other : Fin capacity}
    (slot : Slot α) (h : other ≠ index) :
    (arena.setSlot index slot).slots other = arena.slots other := by
  simp [setSlot, h]

@[simp] theorem setSlot_keyAt_other (arena : HandleArena capacity α)
    {index other : Fin capacity} (slot : Slot α) (h : other ≠ index) :
    (arena.setSlot index slot).keyAt other = arena.keyAt other := by
  simp [keyAt, h]

theorem keyAt_inj {arena : HandleArena capacity α} {index other : Fin capacity}
    (h : arena.keyAt index = arena.keyAt other) : index = other := by
  have hSlot : (arena.keyAt index).slot.raw = (arena.keyAt other).slot.raw := by rw [h]
  exact Fin.ext hSlot

/-- Filling the slot on top of the free list keeps the representation invariant. -/
theorem WellFormed.fill {arena : HandleArena capacity α} (wf : arena.WellFormed)
    {index : Fin capacity} {rest : List (Fin capacity)} (hFree : arena.free = index :: rest)
    (value : α) :
    ({ arena with free := rest }.setSlot index
      ⟨(arena.slots index).generation, some value⟩).WellFormed := by
  have hNodup := wf.free_nodup
  rw [hFree, List.nodup_cons] at hNodup
  have hRetired : ∀ other, ({ arena with free := rest }.setSlot index
      ⟨(arena.slots index).generation, some value⟩).Retired other ↔ arena.Retired other := by
    intro other
    by_cases h : other = index
    · subst h
      simp [Retired, hFree]
    · simp [Retired, h, hFree]
  refine ⟨hNodup.2, ?_, ?_, ?_, ?_⟩
  · intro other hOther
    have h : other ≠ index := fun he => hNodup.1 (he ▸ hOther)
    rw [setSlot_other _ _ h]
    exact wf.free_empty other (hFree ▸ List.mem_cons_of_mem _ hOther)
  · simp only [hRetired]
    exact wf.retired_card
  · intro other hOther
    have hOld := wf.retired_generation other ((hRetired other).mp hOther)
    by_cases h : other = index
    · subst h
      simpa using hOld
    · simpa [h] using hOld
  · intro other
    by_cases h : other = index
    · subst h
      simpa using wf.generation_le other
    · simpa [h] using wf.generation_le other

/-- Releasing an occupied slot keeps the representation invariant, whether the
slot becomes free again or retires. -/
theorem WellFormed.release {arena : HandleArena capacity α} (wf : arena.WellFormed)
    {index : Fin capacity} (hOccupied : arena.Occupied index) :
    (arena.release index).WellFormed := by
  have hFree : index ∉ arena.free := by
    intro h
    simp [Occupied, wf.free_empty index h] at hOccupied
  have hLive : ¬arena.Retired index := by
    intro h
    simp [Occupied, h.1] at hOccupied
  unfold HandleArena.release
  cases hNext : Word.checkedAdd Word.max32 (arena.slots index).generation.raw 1 with
  | some next =>
      obtain ⟨rfl, hBound⟩ := Word.checkedAdd_eq_some.mp hNext
      have hRetired : ∀ other, ({ arena with free := index :: arena.free }.setSlot index
          ⟨⟨(arena.slots index).generation.raw + 1⟩, none⟩).Retired other ↔
            arena.Retired other := by
        intro other
        by_cases h : other = index
        · subst h
          simpa [Retired] using fun hNone => by_contra fun hMem => hLive ⟨hNone, hMem⟩
        · simp [Retired, h]
      refine ⟨List.nodup_cons.mpr ⟨hFree, wf.free_nodup⟩, ?_, ?_, ?_, ?_⟩
      · intro other hOther
        by_cases h : other = index
        · subst h
          simp
        · rw [setSlot_other _ _ h]
          exact wf.free_empty other ((List.mem_cons.mp hOther).resolve_left h)
      · simp only [hRetired]
        exact wf.retired_card
      · intro other hOther
        have hOld := (hRetired other).mp hOther
        have h : other ≠ index := fun he => hLive (he ▸ hOld)
        simpa [h] using wf.retired_generation other hOld
      · intro other
        by_cases h : other = index
        · subst h
          simpa using hBound
        · simpa [h] using wf.generation_le other
  | none =>
      have hMax := Word.checkedAdd_eq_none.mp hNext
      have hRetired : ∀ other, ({ arena with retired := arena.retired + 1 }.setSlot index
          ⟨(arena.slots index).generation, none⟩).Retired other ↔
            other = index ∨ arena.Retired other := by
        intro other
        by_cases h : other = index
        · subst h
          simp [Retired, hFree]
        · simp [Retired, h]
      refine ⟨wf.free_nodup, ?_, ?_, ?_, ?_⟩
      · intro other hOther
        have h : other ≠ index := fun he => hFree (he ▸ hOther)
        rw [setSlot_other _ _ h]
        exact wf.free_empty other hOther
      · simp only [hRetired]
        rw [Finset.filter_or, Finset.filter_eq' Finset.univ index,
          if_pos (Finset.mem_univ index), ← Finset.insert_eq,
          Finset.card_insert_of_notMem (by simpa using hLive), wf.retired_card]
        rfl
      · intro other hOther
        by_cases h : other = index
        · subst h
          have := wf.generation_le other
          simp only [setSlot_same]
          omega
        · simpa [h] using wf.retired_generation other (((hRetired other).mp hOther).resolve_left h)
      · intro other
        by_cases h : other = index
        · subst h
          simpa using wf.generation_le other
        · simpa [h] using wf.generation_le other

/-- A key issued for a slot lies strictly below the generation a fresh value of
that slot is keyed under. -/
theorem Agrees.keyAt_fresh {context : ContextKey} {ledger : Ledger α}
    {arena : HandleArena capacity α} (agrees : Agrees context ledger arena)
    {index : Fin capacity} (hFree : index ∈ arena.free) :
    arena.keyAt index ∉ ledger.issued := by
  intro hIssued
  obtain ⟨-, slot, hSlot, -, hBelow⟩ := agrees.issued_slot _ hIssued
  have hIndex : slot = index := by
    have : (arena.keyAt index).slot.raw = slot.val := by rw [hSlot]
    exact Fin.ext this.symm
  subst hIndex
  have := hBelow hFree
  simp [keyAt] at this

/-- Filling a free slot issues a new key and makes it live. -/
theorem Agrees.fill {context : ContextKey} {ledger : Ledger α}
    {arena : HandleArena capacity α} (agrees : Agrees context ledger arena)
    (wf : arena.WellFormed) {index : Fin capacity} {rest : List (Fin capacity)}
    (hFree : arena.free = index :: rest) (value : α) :
    Agrees context (ledger.insert (arena.keyAt index) value)
      ({ arena with free := rest }.setSlot index
        ⟨(arena.slots index).generation, some value⟩) := by
  have hMem : index ∈ arena.free := by simp [hFree]
  have hRest : index ∉ rest := (List.nodup_cons.mp (hFree ▸ wf.free_nodup)).1
  have hEmpty := wf.free_empty index hMem
  have hFresh := agrees.keyAt_fresh hMem
  have hKey : ∀ other, ({ arena with free := rest }.setSlot index
      ⟨(arena.slots index).generation, some value⟩).keyAt other = arena.keyAt other := by
    intro other
    by_cases h : other = index
    · subst h
      simp [keyAt]
    · simp [keyAt, h]
  refine ⟨agrees.context_eq, ?_, ?_, ?_, ?_⟩
  · exact List.nodup_append.mpr ⟨agrees.issued_nodup, by simp,
      fun key hOld new hNew he => hFresh (by simp_all)⟩
  · intro key hKeyMem
    rcases List.mem_append.mp hKeyMem with hOld | hNew
    · obtain ⟨hContext, slot, hSlot, hLe, hLt⟩ := agrees.issued_slot key hOld
      refine ⟨hContext, slot, hSlot, ?_⟩
      by_cases h : slot = index
      · subst h
        exact ⟨by simpa using hLe, fun hFreeNow => absurd hFreeNow hRest⟩
      · simp only [setSlot_other _ _ h, setSlot_free]
        exact ⟨hLe, fun hFreeNow => hLt (hFree ▸ List.mem_cons_of_mem _ hFreeNow)⟩
    · rw [List.mem_singleton.mp hNew]
      exact ⟨agrees.context_eq, index, rfl, by simp [keyAt],
        fun hFreeNow => absurd hFreeNow hRest⟩
  · intro key held
    simp only [Ledger.insert, Function.update_apply, hKey]
    split_ifs with hNew
    · subst hNew
      constructor
      · rintro ⟨rfl⟩
        exact ⟨index, rfl, by simp⟩
      · rintro ⟨other, hEq, hValue⟩
        obtain rfl := keyAt_inj hEq
        simpa using hValue
    · rw [agrees.live]
      refine exists_congr fun other => and_congr_right fun hEq => ?_
      have h : other ≠ index := fun he => hNew (he ▸ hEq)
      simp [h]
  · intro key held hLive
    simp only [Ledger.insert, Function.update_apply] at hLive ⊢
    split_ifs at hLive with hNew
    · simp [hNew]
    · exact List.mem_append_left _ (agrees.live_issued key held hLive)

/-- Releasing an occupied slot ends exactly the life of the key it was held under. -/
theorem Agrees.release {context : ContextKey} {ledger : Ledger α}
    {arena : HandleArena capacity α} (agrees : Agrees context ledger arena)
    (wf : arena.WellFormed) {index : Fin capacity} (hOccupied : arena.Occupied index) :
    Agrees context (ledger.release (arena.keyAt index)) (arena.release index) := by
  have hGeneration : (arena.slots index).generation.raw ≤
      ((arena.release index).slots index).generation.raw ∧
      (index ∈ (arena.release index).free →
        (arena.slots index).generation.raw <
          ((arena.release index).slots index).generation.raw) := by
    unfold HandleArena.release
    cases hNext : Word.checkedAdd Word.max32 (arena.slots index).generation.raw 1 with
    | some next =>
        obtain ⟨rfl, -⟩ := Word.checkedAdd_eq_some.mp hNext
        simp
    | none =>
        refine ⟨by simp, fun hFree => ?_⟩
        simp [Occupied, wf.free_empty index hFree] at hOccupied
  have hEmpty : ((arena.release index).slots index).value = none := by
    unfold HandleArena.release
    split <;> simp
  have hOther : ∀ other, other ≠ index →
      (arena.release index).slots other = arena.slots other ∧
      (arena.release index).keyAt other = arena.keyAt other ∧
      (other ∈ (arena.release index).free → other ∈ arena.free) := by
    intro other h
    unfold HandleArena.release
    split <;> simp [keyAt, h]
  have hContext : (arena.release index).context = arena.context := by
    unfold HandleArena.release
    split <;> rfl
  refine ⟨hContext.trans agrees.context_eq, agrees.issued_nodup, ?_, ?_, ?_⟩
  · intro key hKey
    obtain ⟨hKeyContext, slot, hSlot, hLe, hLt⟩ := agrees.issued_slot key hKey
    refine ⟨hKeyContext, slot, hSlot, ?_⟩
    by_cases h : slot = index
    · subst h
      exact ⟨hLe.trans hGeneration.1, fun hFree => hLe.trans_lt (hGeneration.2 hFree)⟩
    · obtain ⟨hSlots, -, hFree⟩ := hOther slot h
      rw [hSlots]
      exact ⟨hLe, fun hNow => hLt (hFree hNow)⟩
  · intro key held
    simp only [Ledger.release, Function.update_apply]
    split_ifs with hGone
    · subst hGone
      refine ⟨by simp, ?_⟩
      rintro ⟨other, hEq, hValue⟩
      by_cases h : other = index
      · subst h
        simp [hEmpty] at hValue
      · rw [(hOther other h).2.1] at hEq
        exact absurd (keyAt_inj hEq).symm h
    · rw [agrees.live]
      refine exists_congr fun other => ?_
      by_cases h : other = index
      · subst h
        simp [hGone, hEmpty]
      · rw [(hOther other h).1, (hOther other h).2.1]
  · intro key held hLive
    simp only [Ledger.release, Function.update_apply] at hLive
    split_ifs at hLive
    exact agrees.live_issued key held hLive

/-- The lookup shared by `get` and `remove` succeeds exactly on the slot whose
current key is the given one. -/
theorem resolve_eq_ok {arena : HandleArena capacity α} {key : HandleKey}
    {index : Fin capacity} {value : α} :
    arena.resolve key = .ok (index, value) ↔
      key = arena.keyAt index ∧ (arena.slots index).value = some value := by
  obtain ⟨context, ⟨slot⟩, generation⟩ := key
  unfold resolve
  constructor
  · intro h
    by_cases hContext : context = arena.context
    · by_cases hBound : slot < capacity
      · cases hHeld : (arena.slots ⟨slot, hBound⟩).value with
        | none => simp [hContext, hBound, hHeld] at h
        | some held =>
            by_cases hGeneration : (arena.slots ⟨slot, hBound⟩).generation = generation
            · simp only [hContext, ne_eq, not_true_eq_false, ↓reduceIte, hBound, ↓reduceDIte,
                hHeld, hGeneration, Except.ok.injEq, Prod.mk.injEq] at h
              obtain ⟨rfl, rfl⟩ := h
              exact ⟨by simp [keyAt, hContext, hGeneration], hHeld⟩
            · simp [hContext, hBound, hHeld, hGeneration] at h
      · simp [hContext, hBound] at h
    · simp [hContext] at h
  · rintro ⟨hKey, hValue⟩
    simp only [keyAt, HandleKey.mk.injEq, SlotIndex.mk.injEq] at hKey
    obtain ⟨rfl, rfl, rfl⟩ := hKey
    simp [hValue]

theorem resolve_wrongContext {arena : HandleArena capacity α} {key : HandleKey}
    (h : key.context ≠ arena.context) :
    arena.resolve key = .error (error .wrongContext) := by
  simp [resolve, h]

/-- `get` succeeds exactly on the keys live in the ledger, with their value. -/
theorem Agrees.get_eq_ok {context : ContextKey} {ledger : Ledger α}
    {arena : HandleArena capacity α} (agrees : Agrees context ledger arena)
    (key : HandleKey) (value : α) :
    arena.get key = .ok value ↔ ledger.live key = some value := by
  rw [agrees.live]
  unfold HandleArena.get
  constructor
  · intro h
    cases hResolve : arena.resolve key with
    | error failure => simp [hResolve, Except.map] at h
    | ok found =>
        obtain ⟨index, held⟩ := found
        simp only [hResolve, Except.map, Except.ok.injEq] at h
        subst h
        exact ⟨index, resolve_eq_ok.mp hResolve⟩
  · rintro ⟨index, h⟩
    rw [resolve_eq_ok.mpr h]
    rfl

/-- `remove` returns what `get` would have returned. -/
theorem remove_result (arena : HandleArena capacity α) (key : HandleKey) :
    (arena.remove key).1 = arena.get key := by
  unfold HandleArena.remove HandleArena.get
  cases arena.resolve key with
  | error failure => rfl
  | ok found => rfl

theorem release_value (arena : HandleArena capacity α) {index other : Fin capacity} :
    ((arena.release index).slots other).value =
      if other = index then none else (arena.slots other).value := by
  unfold HandleArena.release
  split <;> split_ifs with h <;> simp [h]

/-- A drain over a list of slots empties exactly those. -/
theorem drainSlots_value (indices : List (Fin capacity)) (payloads : List α)
    (arena : HandleArena capacity α) (other : Fin capacity) :
    ((indices.foldl drainSlot (arena, payloads)).1.slots other).value =
      if other ∈ indices then none else (arena.slots other).value := by
  induction indices generalizing arena payloads with
  | nil => rfl
  | cons index rest ih =>
      rw [List.foldl_cons]
      cases hHeld : (arena.slots index).value with
      | none =>
          have hSkip : drainSlot (arena, payloads) index = (arena, payloads) := by
            simp [drainSlot, hHeld]
          rw [hSkip, ih]
          by_cases hSame : other = index
          · subst hSame
            simp [hHeld]
          · simp [hSame]
      | some value =>
          have hTake : drainSlot (arena, payloads) index =
              (arena.release index, payloads ++ [value]) := by
            simp [drainSlot, hHeld]
          rw [hTake, ih, release_value]
          by_cases hSame : other = index
          · simp [hSame]
          · simp [hSame]

theorem drainOccupied_value (arena : HandleArena capacity α) (index : Fin capacity) :
    (arena.drainOccupied.1.slots index).value = none := by
  rw [HandleArena.drainOccupied, drainSlots_value, if_pos (List.mem_finRange index)]

/-- There is nothing to drain from an empty arena. -/
theorem drainOccupied_empty {arena : HandleArena capacity α}
    (h : ∀ index, (arena.slots index).value = none) : arena.drainOccupied.1 = arena := by
  have hSkip : ∀ indices : List (Fin capacity),
      indices.foldl drainSlot (arena, ([] : List α)) = (arena, []) := by
    intro indices
    induction indices with
    | nil => rfl
    | cons index rest ih =>
        have hSlot : drainSlot (arena, ([] : List α)) index = (arena, []) := by
          simp [drainSlot, h index]
        rw [List.foldl_cons, hSlot, ih]
  rw [HandleArena.drainOccupied, hSkip]

theorem resolve_empty {arena : HandleArena capacity α}
    (h : ∀ index, (arena.slots index).value = none) (key : HandleKey) :
    ∃ failure, arena.resolve key = .error failure := by
  rw [HandleArena.resolve]
  by_cases hContext : key.context ≠ arena.context
  · exact ⟨_, if_pos hContext⟩
  · rw [if_neg hContext]
    by_cases hBound : key.slot.raw < capacity
    · rw [dif_pos hBound, h]
      exact ⟨_, rfl⟩
    · exact ⟨_, dif_neg hBound⟩

/-- The part of a drain over a list of slots empties those slots and leaves the
empty ones empty. No new key becomes live in between. -/
theorem drainSlots_agrees {context : ContextKey} (indices : List (Fin capacity))
    (payloads : List α) {ledger : Ledger α} {arena : HandleArena capacity α}
    (agrees : Agrees context ledger arena) (wf : arena.WellFormed) :
    ∃ live, Agrees context { ledger with live := live }
        (indices.foldl drainSlot (arena, payloads)).1 ∧
      (indices.foldl drainSlot (arena, payloads)).1.WellFormed ∧
      ∀ index, index ∈ indices ∨ (arena.slots index).value = none →
        ((indices.foldl drainSlot (arena, payloads)).1.slots index).value = none := by
  induction indices generalizing arena payloads ledger with
  | nil => exact ⟨ledger.live, agrees, wf, by simp⟩
  | cons index rest ih =>
      cases hHeld : (arena.slots index).value with
      | none =>
          have hSkip : drainSlot (arena, payloads) index = (arena, payloads) := by
            simp [drainSlot, hHeld]
          rw [List.foldl_cons, hSkip]
          obtain ⟨live, hAgrees, hWf, hEmpty⟩ := ih payloads agrees wf
          refine ⟨live, hAgrees, hWf, fun other hOther => hEmpty other ?_⟩
          rcases hOther with hOther | hNone
          · rcases List.mem_cons.mp hOther with rfl | hRest
            · exact Or.inr hHeld
            · exact Or.inl hRest
          · exact Or.inr hNone
      | some value =>
          have hTake : drainSlot (arena, payloads) index =
              (arena.release index, payloads ++ [value]) := by
            simp [drainSlot, hHeld]
          have hOccupied : arena.Occupied index := by simp [Occupied, hHeld]
          rw [List.foldl_cons, hTake]
          obtain ⟨live, hAgrees, hWf, hEmpty⟩ :=
            ih (payloads ++ [value]) (agrees.release wf hOccupied) (wf.release hOccupied)
          refine ⟨live, hAgrees, hWf, fun other hOther => hEmpty other ?_⟩
          rw [release_value]
          rcases hOther with hOther | hNone
          · rcases List.mem_cons.mp hOther with rfl | hRest
            · exact Or.inr (by simp)
            · exact Or.inl hRest
          · exact Or.inr (by simp [hNone])

/-- A drain leaves no key live and issues none. -/
theorem Agrees.drainOccupied {context : ContextKey} {ledger : Ledger α}
    {arena : HandleArena capacity α} (agrees : Agrees context ledger arena)
    (wf : arena.WellFormed) :
    Agrees context ledger.releaseAll arena.drainOccupied.1 ∧
      arena.drainOccupied.1.WellFormed := by
  obtain ⟨live, hAgrees, hWf, hEmpty⟩ :=
    drainSlots_agrees (List.finRange capacity) [] agrees wf
  have hNone : live = fun _ => none := by
    funext key
    by_contra hLive
    obtain ⟨value, hLive⟩ := Option.ne_none_iff_exists'.mp hLive
    obtain ⟨index, -, hValue⟩ := (hAgrees.live key value).mp hLive
    rw [hEmpty index (Or.inl (List.mem_finRange index))] at hValue
    simp at hValue
  subst hNone
  exact ⟨hAgrees, hWf⟩

/-! Runs of the arena. -/

/-- The trace determines the ledger, and the ledger agrees with the arena. -/
structure Tracks (context : ContextKey) (trace : List (ArenaEvent α))
    (arena : HandleArena capacity α) : Prop where
  wf : arena.WellFormed
  agrees : ∃ ledger, Agrees context ledger arena ∧ ledger.issued = issuedKeys trace ∧
    ∀ key value, ledger.live key = some value ↔ LiveIn trace key value

theorem withCapacity_tracks (context : ContextKey) (capacity : UInt32) :
    Tracks context [] (withCapacity context capacity α) where
  wf := by
    refine ⟨List.nodup_finRange _, fun _ _ => rfl, ?_, ?_, fun _ => ?_⟩
    · change _ = 0
      rw [Finset.card_eq_zero, Finset.filter_eq_empty_iff]
      intro index _ hRetired
      exact hRetired.2 (List.mem_finRange index)
    · intro index hRetired
      exact absurd (List.mem_finRange index) hRetired.2
    · change 1 ≤ Word.max32
      decide
  agrees := by
    refine ⟨Ledger.empty α, ⟨rfl, List.nodup_nil, by simp [Ledger.empty], ?_, ?_⟩, rfl, ?_⟩
    · intro key value
      simp [Ledger.empty, withCapacity]
    · simp [Ledger.empty]
    · intro key value
      simp [Ledger.empty, LiveIn, not_since_nil]

/-- One call keeps the trace and the arena in agreement. -/
theorem Tracks.step {context : ContextKey} {trace : List (ArenaEvent α)}
    {arena next : HandleArena capacity α} {event : ArenaEvent α}
    (tracks : Tracks context trace arena) (hStep : Step arena event next) :
    Tracks context (trace ++ [event]) next := by
  obtain ⟨wf, ledger, agrees, hIssued, hLive⟩ := tracks
  cases hStep with
  | insert value =>
      unfold HandleArena.insert
      cases hFree : arena.free with
      | nil =>
          refine ⟨wf, ledger, agrees, by simp [issuedKeys, ArenaEvent.issued, hIssued], ?_⟩
          intro key held
          rw [LiveIn, since_snoc, hLive]
          simp [LiveIn, ArenaEvent.Inserts, ArenaEvent.Ends]
      | cons index rest =>
          refine ⟨wf.fill hFree value, ledger.insert (arena.keyAt index) value,
            agrees.fill wf hFree value, ?_, ?_⟩
          · simp [Ledger.insert, issuedKeys, ArenaEvent.issued, hIssued]
          · intro key held
            have hFresh := agrees.keyAt_fresh (hFree ▸ List.mem_cons_self : index ∈ arena.free)
            rw [LiveIn, since_snoc]
            simp only [Ledger.insert, Function.update_apply, ArenaEvent.Inserts,
              ArenaEvent.insert.injEq, Except.ok.injEq, ArenaEvent.Ends, not_false_eq_true,
              and_true]
            split_ifs with hKey
            · subst hKey
              constructor
              · rintro ⟨rfl⟩
                exact Or.inl ⟨rfl, rfl⟩
              · rintro (⟨rfl, -⟩ | hOld)
                · rfl
                · exact absurd (agrees.live_issued _ _ ((hLive _ _).mpr hOld)) hFresh
            · rw [hLive]
              exact ⟨Or.inr, fun h => h.resolve_left fun hNew => hKey hNew.2.symm⟩
  | remove key =>
      unfold HandleArena.remove
      cases hResolve : arena.resolve key with
      | error failure =>
          refine ⟨wf, ledger, agrees, by simp [issuedKeys, ArenaEvent.issued, hIssued], ?_⟩
          intro other held
          rw [LiveIn, since_snoc, hLive]
          simp [LiveIn, ArenaEvent.Inserts, ArenaEvent.Ends]
      | ok found =>
          obtain ⟨index, value⟩ := found
          obtain ⟨rfl, hValue⟩ := resolve_eq_ok.mp hResolve
          have hOccupied : arena.Occupied index := by simp [Occupied, hValue]
          refine ⟨wf.release hOccupied, ledger.release (arena.keyAt index),
            agrees.release wf hOccupied, ?_, ?_⟩
          · simp [Ledger.release, issuedKeys, ArenaEvent.issued, hIssued]
          · intro other held
            rw [LiveIn, since_snoc]
            simp only [Ledger.release, Function.update_apply, ArenaEvent.Inserts, reduceCtorEq,
              ArenaEvent.Ends, Except.ok.injEq, exists_eq', and_true, false_or]
            split_ifs with hKey
            · simp [hKey]
            · rw [hLive]
              exact ⟨fun h => ⟨h, fun he => hKey he.symm⟩, And.left⟩
  | drainOccupied =>
      obtain ⟨hAgrees, hWf⟩ := agrees.drainOccupied wf
      refine ⟨hWf, ledger.releaseAll, hAgrees, ?_, ?_⟩
      · simp [Ledger.releaseAll, issuedKeys, ArenaEvent.issued, hIssued]
      · intro key held
        rw [LiveIn, since_snoc]
        simp [Ledger.releaseAll, ArenaEvent.Inserts, ArenaEvent.Ends]

theorem Tracks.of_run {context : ContextKey} {capacity : UInt32}
    {trace : List (ArenaEvent α)} {arena : HandleArena capacity.toNat α}
    (run : Run Step (withCapacity context capacity α) trace arena) :
    Tracks context trace arena :=
  run.invariant (Tracks context) (withCapacity_tracks context capacity)
    fun _ _ _ _ tracks hStep => tracks.step hStep

/-! What the agreement says about an arena at the end of a run. -/

theorem Tracks.get_eq_ok {context : ContextKey} {trace : List (ArenaEvent α)}
    {arena : HandleArena capacity α} (tracks : Tracks context trace arena)
    (key : HandleKey) (value : α) : arena.get key = .ok value ↔ LiveIn trace key value := by
  obtain ⟨-, ledger, agrees, -, hLive⟩ := tracks
  rw [agrees.get_eq_ok, hLive]

theorem Tracks.issued_nodup {context : ContextKey} {trace : List (ArenaEvent α)}
    {arena : HandleArena capacity α} (tracks : Tracks context trace arena) :
    (issuedKeys trace).Nodup := by
  obtain ⟨-, ledger, agrees, hIssued, -⟩ := tracks
  exact hIssued ▸ agrees.issued_nodup

theorem Tracks.wrongContext {context : ContextKey} {trace : List (ArenaEvent α)}
    {arena : HandleArena capacity α} (tracks : Tracks context trace arena)
    {key : HandleKey} (h : key.context ≠ context) :
    arena.get key = .error (error .wrongContext) ∧
      arena.remove key = (.error (error .wrongContext), arena) := by
  obtain ⟨-, ledger, agrees, -, -⟩ := tracks
  have hResolve : arena.resolve key = _ := resolve_wrongContext (agrees.context_eq ▸ h)
  unfold HandleArena.get HandleArena.remove
  rw [hResolve]
  exact ⟨rfl, rfl⟩

/-- Occupied, free and retired slots partition the slot indices. -/
theorem WellFormed.partition {arena : HandleArena capacity α} (wf : arena.WellFormed)
    (index : Fin capacity) :
    (arena.Occupied index ∨ arena.Free index ∨ arena.Retired index) ∧
      ¬(arena.Occupied index ∧ arena.Free index) ∧
      ¬(arena.Occupied index ∧ arena.Retired index) ∧
      ¬(arena.Free index ∧ arena.Retired index) := by
  have hFree : arena.Free index → (arena.slots index).value = none := wf.free_empty index
  unfold Occupied Free Retired at *
  cases hValue : (arena.slots index).value with
  | none => by_cases h : index ∈ arena.free <;> simp [h]
  | some value =>
      have h : index ∉ arena.free := fun h => by simp [hFree h] at hValue
      simp [h]

theorem WellFormed.card {arena : HandleArena capacity α} (wf : arena.WellFormed) :
    (Finset.univ.filter arena.Occupied).card + arena.free.length + arena.retired =
      capacity := by
  have hFree : (Finset.univ.filter arena.Free).card = arena.free.length := by
    rw [← List.toFinset_card_of_nodup wf.free_nodup]
    congr 1
    ext index
    simp [Free]
  have hRest : (Finset.univ.filter fun index => ¬arena.Occupied index).card =
      arena.free.length + arena.retired := by
    rw [← hFree, ← wf.retired_card, ← Finset.card_union_of_disjoint]
    · congr 1
      ext index
      obtain ⟨hSome, hOF, hOR, -⟩ := wf.partition index
      simp only [Finset.mem_filter, Finset.mem_univ, true_and, Finset.mem_union]
      tauto
    · rw [Finset.disjoint_filter]
      intro index _ h hRetired
      exact (wf.partition index).2.2.2 ⟨h, hRetired⟩
  have hAll := Finset.card_filter_add_card_filter_not (s := Finset.univ) arena.Occupied
  rw [hRest, Finset.card_univ, Fintype.card_fin] at hAll
  omega

/-- The number of live handles is the number of occupied slots. -/
theorem Tracks.live_card {context : ContextKey} {trace : List (ArenaEvent α)}
    {arena : HandleArena capacity α} (tracks : Tracks context trace arena) :
    Set.ncard {key | ∃ value, LiveIn trace key value} =
      (Finset.univ.filter arena.Occupied).card := by
  obtain ⟨-, ledger, agrees, -, hLive⟩ := tracks
  have hImage : {key | ∃ value, LiveIn trace key value} =
      ((Finset.univ.filter arena.Occupied).image arena.keyAt : Set HandleKey) := by
    ext key
    simp only [Set.mem_ofPred_eq, ← hLive, agrees.live, Finset.coe_image, Finset.coe_filter,
      Finset.mem_univ, true_and, Set.mem_image, Occupied, Option.isSome_iff_exists]
    constructor
    · rintro ⟨value, index, rfl, hValue⟩
      exact ⟨index, ⟨value, hValue⟩, rfl⟩
    · rintro ⟨index, ⟨value, hValue⟩, rfl⟩
      exact ⟨value, index, rfl, hValue⟩
  rw [hImage, Set.ncard_coe_finset, Finset.card_image_of_injective]
  exact fun _ _ => keyAt_inj

/-- A key issued at the last generation and no longer live leaves its slot retired. -/
theorem Tracks.exhausted {context : ContextKey} {trace : List (ArenaEvent α)}
    {arena : HandleArena capacity α} (tracks : Tracks context trace arena)
    {key : HandleKey} (hIssued : key ∈ issuedKeys trace)
    (hMax : key.generation.raw = Word.max32) (hDead : ∀ value, ¬LiveIn trace key value) :
    ∃ index : Fin capacity, key.slot = ⟨index.val⟩ ∧ arena.Retired index := by
  obtain ⟨wf, ledger, agrees, hKeys, hLive⟩ := tracks
  obtain ⟨hContext, index, hSlot, hLe, hLt⟩ := agrees.issued_slot key (hKeys ▸ hIssued)
  have hBound := wf.generation_le index
  refine ⟨index, hSlot, ?_, fun hFree => ?_⟩
  · by_contra hValue
    obtain ⟨value, hValue⟩ := Option.ne_none_iff_exists'.mp hValue
    have hGeneration : key.generation.raw = (arena.slots index).generation.raw := by omega
    have hKey : key = arena.keyAt index := by
      obtain ⟨keyContext, slot, ⟨generation⟩⟩ := key
      simp_all [keyAt, agrees.context_eq]
    exact hDead value ((hLive key value).mp ((agrees.live key value).mpr ⟨index, hKey, hValue⟩))
  · have := hLt hFree
    omega

/-- `insert` fails exactly on an empty free list, and then leaves the arena as it was. -/
theorem insert_eq_error {arena : HandleArena capacity α} {value : α} {failure : KernelError} :
    (arena.insert value).1 = .error failure ↔ arena.free = [] ∧
      failure = ⟨.capacityExceeded, .limitExceeded capacity (capacity + 1)⟩ := by
  unfold HandleArena.insert
  cases arena.free <;> simp [eq_comm]

theorem insert_error_unchanged {arena : HandleArena capacity α} {value : α}
    (h : arena.free = []) : (arena.insert value).2 = arena := by
  unfold HandleArena.insert
  rw [h]

/-- The key a successful insert returns is that of the slot on top of the free list. -/
theorem insert_eq_ok {arena : HandleArena capacity α} {value : α} {key : HandleKey}
    (h : (arena.insert value).1 = .ok key) :
    ∃ index ∈ arena.free, key = arena.keyAt index := by
  unfold HandleArena.insert at h
  cases hFree : arena.free with
  | nil => simp [hFree] at h
  | cons index rest =>
      simp only [hFree, Except.ok.injEq] at h
      exact ⟨index, by simp, h.symm⟩

theorem LiveIn.issued {trace : List (ArenaEvent α)} {key : HandleKey} {value : α}
    (h : LiveIn trace key value) : key ∈ issuedKeys trace := by
  obtain ⟨before, event, after, rfl, hInserts, -⟩ := h
  subst hInserts
  simp [issuedKeys, ArenaEvent.issued]

/-- A key whose life a trace has ended is dead in every extension of the trace
that hands it out no second time. -/
theorem LiveIn.ended {before after : List (ArenaEvent α)} {event : ArenaEvent α}
    {key : HandleKey} (hEnds : ArenaEvent.Ends key event)
    (hFresh : key ∉ issuedKeys after) (value : α) :
    ¬LiveIn (before ++ event :: after) key value := by
  induction after using List.reverseRecOn with
  | nil =>
      rw [LiveIn, since_snoc]
      rintro (rfl | ⟨-, h⟩)
      · exact hEnds
      · exact h hEnds
  | append_singleton front final ih =>
      simp only [issuedKeys, List.filterMap_append, List.mem_append, not_or] at hFresh
      rw [← List.cons_append, ← List.append_assoc, LiveIn, since_snoc]
      rintro (rfl | ⟨h, -⟩)
      · exact hFresh.2 (by simp [ArenaEvent.issued])
      · exact ih hFresh.1 h

/-- A key that was released stays dead. -/
theorem Tracks.released {context : ContextKey} {before after : List (ArenaEvent α)}
    {event : ArenaEvent α} {arena : HandleArena capacity α}
    (tracks : Tracks context (before ++ event :: after) arena) {key : HandleKey} {value : α}
    (hLive : LiveIn before key value) (hEnds : ArenaEvent.Ends key event) :
    key ∈ issuedKeys (before ++ event :: after) ∧
      ∀ held, ¬LiveIn (before ++ event :: after) key held := by
  have hNodup := tracks.issued_nodup
  simp only [issuedKeys, List.filterMap_append, List.filterMap_cons] at hNodup ⊢
  refine ⟨List.mem_append_left _ hLive.issued, LiveIn.ended hEnds fun hAgain => ?_⟩
  rw [List.nodup_append] at hNodup
  refine hNodup.2.2 key hLive.issued key ?_ rfl
  cases event.issued with
  | none => exact hAgain
  | some other => exact List.mem_cons_of_mem _ hAgain

/-- A slot released at the last generation is never handed out again. -/
theorem Tracks.never_reissued {context : ContextKey} {capacity : UInt32}
    {before after : List (ArenaEvent α)} {event : ArenaEvent α}
    {arena : HandleArena capacity.toNat α}
    (run : Run Step (withCapacity context capacity α) (before ++ event :: after) arena)
    {key : HandleKey} {value : α} (hLive : LiveIn before key value)
    (hEnds : ArenaEvent.Ends key event) (hMax : key.generation.raw = Word.max32) :
    ∀ later ∈ issuedKeys after, later.slot ≠ key.slot := by
  intro later hLater hSlot
  obtain ⟨label, hLabel, hIssued⟩ := List.mem_filterMap.mp hLater
  obtain ⟨first, second, rfl⟩ := List.append_of_mem hLabel
  rw [← List.cons_append, ← List.append_assoc] at run
  obtain ⟨state, next, hPrior, hStep, -⟩ := run.at
  have tracks := Tracks.of_run hPrior
  obtain ⟨hOld, hDead⟩ := tracks.released hLive hEnds
  obtain ⟨index, hKeySlot, hRetired⟩ := tracks.exhausted hOld hMax hDead
  cases hStep with
  | insert held =>
      cases hResult : (state.insert held).1 with
      | error failure => simp [ArenaEvent.issued, hResult] at hIssued
      | ok issued =>
          simp only [ArenaEvent.issued, hResult, Option.some.injEq] at hIssued
          subst hIssued
          obtain ⟨slot, hFree, rfl⟩ := insert_eq_ok hResult
          have hIndex : slot = index := by
            rw [hKeySlot] at hSlot
            exact Fin.ext (congrArg SlotIndex.raw hSlot)
          exact hRetired.2 (hIndex ▸ hFree)
  | remove => simp [ArenaEvent.issued] at hIssued
  | drainOccupied => simp [ArenaEvent.issued] at hIssued

/-! Retirement. -/

/-- A key of the slot was removed or drained at the last generation. -/
def WornOut (trace : List (ArenaEvent α)) (index : Fin capacity) : Prop :=
  ∃ before event after key value, trace = before ++ event :: after ∧ LiveIn before key value ∧
    ArenaEvent.Ends key event ∧ key.slot = ⟨index.val⟩ ∧ key.generation.raw = Word.max32

theorem WornOut.snoc {trace : List (ArenaEvent α)} {index : Fin capacity}
    (h : WornOut trace index) (event : ArenaEvent α) : WornOut (trace ++ [event]) index := by
  obtain ⟨before, last, after, key, value, rfl, hLive, hEnds, hSlot⟩ := h
  exact ⟨before, last, after ++ [event], key, value, by simp, hLive, hEnds, hSlot⟩

theorem release_other (arena : HandleArena capacity α) {index other : Fin capacity}
    (h : other ≠ index) : (arena.release index).slots other = arena.slots other := by
  rw [HandleArena.release]
  split
  · exact setSlot_other _ _ h
  · exact setSlot_other _ _ h

/-- A release retires the released slot only, and only at the last generation. -/
theorem WellFormed.release_retired {arena : HandleArena capacity α} (wf : arena.WellFormed)
    {index other : Fin capacity} (h : (arena.release index).Retired other) :
    arena.Retired other ∨ other = index ∧ (arena.slots index).generation.raw = Word.max32 := by
  rw [HandleArena.release] at h
  by_cases hSame : other = index
  · subst hSame
    cases hNext : Word.checkedAdd Word.max32 (arena.slots other).generation.raw 1 with
    | some next =>
        simp only [hNext] at h
        exact absurd List.mem_cons_self h.2
    | none =>
        have hMax := Word.checkedAdd_eq_none.mp hNext
        have hBound := wf.generation_le other
        exact Or.inr ⟨rfl, by omega⟩
  · left
    cases hNext : Word.checkedAdd Word.max32 (arena.slots index).generation.raw 1 with
    | some next => simpa [hNext, Retired, hSame] using h
    | none => simpa [hNext, Retired, hSame] using h

theorem drainSlots_retired (indices : List (Fin capacity)) (payloads : List α)
    {arena : HandleArena capacity α} (wf : arena.WellFormed) {other : Fin capacity}
    (h : (indices.foldl drainSlot (arena, payloads)).1.Retired other) :
    arena.Retired other ∨
      arena.Occupied other ∧ (arena.slots other).generation.raw = Word.max32 := by
  induction indices generalizing arena payloads with
  | nil => exact Or.inl h
  | cons index rest ih =>
      rw [List.foldl_cons] at h
      cases hHeld : (arena.slots index).value with
      | none =>
          have hSkip : drainSlot (arena, payloads) index = (arena, payloads) := by
            simp [drainSlot, hHeld]
          exact ih payloads wf (hSkip ▸ h)
      | some value =>
          have hTake : drainSlot (arena, payloads) index =
              (arena.release index, payloads ++ [value]) := by
            simp [drainSlot, hHeld]
          have hOccupied : arena.Occupied index := by simp [Occupied, hHeld]
          rw [hTake] at h
          rcases ih _ (wf.release hOccupied) h with hRetired | ⟨hLater, hMax⟩
          · rcases wf.release_retired hRetired with hOld | ⟨rfl, hMax⟩
            · exact Or.inl hOld
            · exact Or.inr ⟨hOccupied, hMax⟩
          · have hOther : other ≠ index := by
              rintro rfl
              simp [Occupied, release_value] at hLater
            rw [Occupied, release_other _ hOther] at hLater
            rw [release_other _ hOther] at hMax
            exact Or.inr ⟨hLater, hMax⟩

/-- The key of an occupied slot is live. -/
theorem Tracks.keyAt_live {context : ContextKey} {trace : List (ArenaEvent α)}
    {arena : HandleArena capacity α} (tracks : Tracks context trace arena)
    {index : Fin capacity} (hOccupied : arena.Occupied index) :
    ∃ value, LiveIn trace (arena.keyAt index) value := by
  obtain ⟨value, hValue⟩ := Option.isSome_iff_exists.mp hOccupied
  refine ⟨value, (tracks.get_eq_ok _ value).mp ?_⟩
  rw [HandleArena.get, resolve_eq_ok.mpr ⟨rfl, hValue⟩]
  rfl

/-- One call retires worn out slots only. -/
theorem Tracks.retired_step {context : ContextKey} {trace : List (ArenaEvent α)}
    {arena next : HandleArena capacity α} {event : ArenaEvent α}
    (tracks : Tracks context trace arena) (hStep : Step arena event next) {index : Fin capacity}
    (h : next.Retired index) : arena.Retired index ∨ WornOut (trace ++ [event]) index := by
  have hWorn : arena.Occupied index → (arena.slots index).generation.raw = Word.max32 →
      ArenaEvent.Ends (arena.keyAt index) event → WornOut (trace ++ [event]) index := by
    intro hOccupied hMax hEnds
    obtain ⟨value, hLive⟩ := tracks.keyAt_live hOccupied
    exact ⟨trace, event, [], arena.keyAt index, value, rfl, hLive, hEnds, rfl, hMax⟩
  cases hStep with
  | insert value =>
      rw [HandleArena.insert] at h
      cases hFree : arena.free with
      | nil =>
          simp only [hFree] at h
          exact Or.inl h
      | cons slot rest =>
          simp only [hFree] at h
          by_cases hSame : index = slot
          · subst hSame
            simp [Retired] at h
          · left
            simpa [Retired, hSame, hFree] using h
  | remove key =>
      cases hResolve : arena.resolve key with
      | error failure =>
          simp only [HandleArena.remove, hResolve] at h
          exact Or.inl h
      | ok found =>
          obtain ⟨slot, value⟩ := found
          obtain ⟨rfl, hValue⟩ := resolve_eq_ok.mp hResolve
          simp only [HandleArena.remove, hResolve] at h hWorn ⊢
          rcases tracks.wf.release_retired h with hOld | ⟨rfl, hMax⟩
          · exact Or.inl hOld
          · exact Or.inr (hWorn (by simp [Occupied, hValue]) hMax ⟨rfl, value, rfl⟩)
  | drainOccupied =>
      rcases drainSlots_retired _ _ tracks.wf h with hOld | ⟨hOccupied, hMax⟩
      · exact Or.inl hOld
      · exact Or.inr (hWorn hOccupied hMax trivial)

/-- The slots that are retired are those that are worn out. -/
theorem Tracks.retired_iff {context : ContextKey} {capacity : UInt32}
    {trace : List (ArenaEvent α)} {arena : HandleArena capacity.toNat α}
    (run : Run Step (withCapacity context capacity α) trace arena) (index : Fin capacity.toNat) :
    arena.Retired index ↔ WornOut trace index := by
  constructor
  · refine (run.invariant (fun trace arena => Tracks context trace arena ∧
      (arena.Retired index → WornOut trace index)) ?_ ?_).2
    · refine ⟨withCapacity_tracks context capacity, fun h => ?_⟩
      exact absurd (List.mem_finRange index) h.2
    · intro trace arena event next ⟨tracks, hWorn⟩ hStep
      refine ⟨tracks.step hStep, fun h => ?_⟩
      rcases tracks.retired_step hStep h with hOld | hNew
      · exact (hWorn hOld).snoc event
      · exact hNew
  · rintro ⟨before, event, after, key, value, rfl, hLive, hEnds, hSlot, hMax⟩
    have tracks := Tracks.of_run run
    obtain ⟨hOld, hDead⟩ := tracks.released hLive hEnds
    obtain ⟨slot, hKeySlot, hRetired⟩ := tracks.exhausted hOld hMax hDead
    have hSame : slot = index := Fin.ext (congrArg SlotIndex.raw (hKeySlot.symm.trans hSlot))
    exact hSame ▸ hRetired

/-- Handles are capabilities: over every run of an arena, keys are never issued
twice, resolve exactly while they are live, and the slots are accounted for: those that are
retired were released at the last generation. -/
theorem run_capabilities {context : ContextKey} {capacity : UInt32}
    {trace : List (ArenaEvent α)} {arena : HandleArena capacity.toNat α}
    (run : Run Step (withCapacity context capacity α) trace arena) :
    (issuedKeys trace).Nodup ∧
    (∀ key value, (arena.get key = .ok value ↔ LiveIn trace key value) ∧
      ((arena.remove key).1 = .ok value ↔ LiveIn trace key value)) ∧
    (∀ key : HandleKey, key.context ≠ context →
      arena.get key = .error (error .wrongContext) ∧
      arena.remove key = (.error (error .wrongContext), arena)) ∧
    arena.free.Nodup ∧
    (∀ index, (arena.Occupied index ∨ arena.Free index ∨ arena.Retired index) ∧
      ¬(arena.Occupied index ∧ arena.Free index) ∧
      ¬(arena.Occupied index ∧ arena.Retired index) ∧
      ¬(arena.Free index ∧ arena.Retired index)) ∧
    (∀ index, arena.Retired index ↔ WornOut trace index) ∧
    (Finset.univ.filter arena.Retired).card = arena.retired ∧
    arena.free.length + arena.retired ≤ capacity.toNat ∧
    arena.len = Set.ncard {key | ∃ value, LiveIn trace key value} ∧
    (∀ before event after key value, trace = before ++ event :: after →
      LiveIn before key value → ArenaEvent.Ends key event →
      key.generation.raw = Word.max32 →
      ∀ later ∈ issuedKeys after, later.slot ≠ key.slot) ∧
    ∀ value,
      ((∃ failure, (arena.insert value).1 = .error failure) ↔
        Set.ncard {key | ∃ value, LiveIn trace key value} +
          (Finset.univ.filter arena.Retired).card = capacity.toNat) ∧
      ∀ failure, (arena.insert value).1 = .error failure →
        failure.category = .capacityExceeded ∧ (arena.insert value).2 = arena := by
  have tracks := Tracks.of_run run
  have hCard := tracks.wf.card
  have hLive := tracks.live_card
  refine ⟨tracks.issued_nodup, fun key value => ⟨tracks.get_eq_ok key value, ?_⟩,
    fun key h => tracks.wrongContext h, tracks.wf.free_nodup, tracks.wf.partition,
    Tracks.retired_iff run, tracks.wf.retired_card, by omega, ?_, ?_, fun value => ⟨?_, ?_⟩⟩
  · rw [remove_result]
    exact tracks.get_eq_ok key value
  · have hBound : capacity.toNat < 2 ^ 32 := capacity.toNat_lt
    rw [hLive, HandleArena.len, Word.asU32_of_lt (by omega)]
    omega
  · rintro before event after key value rfl hOld hEnds hMax
    exact Tracks.never_reissued run hOld hEnds hMax
  · rw [hLive, tracks.wf.retired_card]
    constructor
    · rintro ⟨failure, hFailure⟩
      have hFree := (insert_eq_error.mp hFailure).1
      rw [hFree, List.length_nil] at hCard
      omega
    · intro hFull
      exact ⟨_, insert_eq_error.mpr ⟨List.length_eq_zero_iff.mp (by omega), rfl⟩⟩
  · intro failure hFailure
    obtain ⟨hFree, rfl⟩ := insert_eq_error.mp hFailure
    exact ⟨rfl, insert_error_unchanged hFree⟩

/-- The one slot of an arena is released and used again: the old key is stale, the new one is
live, the slot is not retired, and a third insert finds no room. -/
theorem run_capabilities_reuse :
    ∃ (trace : List (ArenaEvent Nat)) (arena : HandleArena 1 Nat),
      Run Step (withCapacity ⟨7⟩ 1 Nat) trace arena ∧
      issuedKeys trace = [⟨⟨7⟩, ⟨0⟩, ⟨1⟩⟩, ⟨⟨7⟩, ⟨0⟩, ⟨2⟩⟩] ∧
      (∀ value, arena.get ⟨⟨7⟩, ⟨0⟩, ⟨1⟩⟩ ≠ .ok value) ∧
      LiveIn trace ⟨⟨7⟩, ⟨0⟩, ⟨2⟩⟩ 6 ∧ ¬WornOut trace (0 : Fin 1) ∧
      ∃ failure, (arena.insert 9).1 = .error failure := by
  have run := Run.snoc (Run.snoc (Run.snoc (Run.nil (withCapacity ⟨7⟩ 1 Nat))
    (.insert _ 5)) (.remove _ ⟨⟨7⟩, ⟨0⟩, ⟨1⟩⟩)) (Step.insert _ 6)
  have h := run_capabilities run
  refine ⟨_, _, run, rfl, fun value => ?_, ?_, ?_, _, rfl⟩
  · exact nofun
  · exact ((h.2.1 ⟨⟨7⟩, ⟨0⟩, ⟨2⟩⟩ 6).1).mp rfl
  · exact fun hWorn => absurd ((h.2.2.2.2.2.1 (0 : Fin 1)).mpr hWorn) (by decide)

end HandleArena
end Kernel

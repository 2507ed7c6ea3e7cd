import LumioNativeCore.Kernel.Handle.Capability
import LumioNativeCore.Kernel.Memory.Budget
import LumioNativeCore.Library.Machine
import LumioNativeCore.Library.Table

/-! Native buffers (`memory/native_buffers.rs`): a handle registry and a byte ledger that are
updated together. -/
namespace Kernel

universe u

/-- `TypedHandleRegistry`, one call at a time. -/
structure TypedHandleRegistry (capacity : Nat) (α : Type u) where
  arena : HandleArena capacity α
  context : ContextKey

namespace TypedHandleRegistry

variable {capacity : Nat} {α : Type u}

def new (context : ContextKey) (capacity : UInt32) (α : Type u) :
    TypedHandleRegistry capacity.toNat α := ⟨.withCapacity context capacity α, context⟩

def insert (registry : TypedHandleRegistry capacity α) (value : α) :
    Except KernelError HandleKey × TypedHandleRegistry capacity α :=
  let (result, arena) := registry.arena.insert value
  (result, { registry with arena })

def remove (registry : TypedHandleRegistry capacity α) (key : HandleKey) :
    Except KernelError α × TypedHandleRegistry capacity α :=
  if key.context ≠ registry.context then (.error (error .wrongContext), registry)
  else
    let (result, arena) := registry.arena.remove key
    (result, { registry with arena })

def takeAll (registry : TypedHandleRegistry capacity α) :
    List α × TypedHandleRegistry capacity α :=
  let (arena, payloads) := registry.arena.drainOccupied
  (payloads, { registry with arena })

end TypedHandleRegistry

structure NativeBufferReleaseReport where
  releasedBuffers : Nat
  releasedBytes : Nat
  deriving DecidableEq, Repr

structure NativeBufferOwner (capacity : Nat) where
  registry : TypedHandleRegistry capacity (List UInt8)
  budget : MemoryBudget

namespace NativeBufferOwner

variable {capacity : Nat}

def new (context : ContextKey) (maxHandles : UInt32) (budget : MemoryBudget) :
    NativeBufferOwner maxHandles.toNat := ⟨.new context maxHandles _, budget⟩

/-- No result is a panic: `vec![0u8; bytes]` comes after the reservation. -/
def allocate (owner : NativeBufferOwner capacity) (bytes : Nat) :
    Option (Except KernelError HandleKey) × NativeBufferOwner capacity :=
  match owner.budget.tryReserve bytes with
  | .error failure => (some (.error failure), owner)
  | .ok budget =>
      if bytes > Word.maxIsize then (none, { owner with budget })
      else
        match owner.registry.insert (List.replicate bytes 0) with
        | (.ok key, registry) => (some (.ok key), { registry, budget })
        | (.error failure, registry) =>
            (some (.error failure), { registry, budget := budget.release bytes })

def release (owner : NativeBufferOwner capacity) (key : HandleKey) :
    Except KernelError Unit × NativeBufferOwner capacity :=
  match owner.registry.remove key with
  | (.error failure, registry) => (.error failure, { owner with registry })
  | (.ok payload, registry) => (.ok (), { registry, budget := owner.budget.release payload.length })

def releaseAll (owner : NativeBufferOwner capacity) :
    NativeBufferReleaseReport × NativeBufferOwner capacity :=
  let (payloads, registry) := owner.registry.takeAll
  let releasedBytes := (payloads.map List.length).sum
  (⟨Word.asU32 payloads.length, releasedBytes⟩,
    { registry, budget := owner.budget.release releasedBytes })

end NativeBufferOwner

/-! Calls and their history. -/

inductive BufferCall where
  | allocate (bytes : Nat)
  | release (key : HandleKey)
  | releaseAll

inductive BufferAnswer where
  | allocated (result : Option (Except KernelError HandleKey))
  | released (result : Except KernelError Unit)
  | releasedAll (report : NativeBufferReleaseReport)
  deriving DecidableEq

def NativeBufferOwner.answer {capacity : Nat} (owner : NativeBufferOwner capacity) :
    BufferCall → BufferAnswer × NativeBufferOwner capacity
  | .allocate bytes =>
      let (result, next) := owner.allocate bytes
      (.allocated result, next)
  | .release key =>
      let (result, next) := owner.release key
      (.released result, next)
  | .releaseAll =>
      let (report, next) := owner.releaseAll
      (.releasedAll report, next)

/-- The live buffers by handle, the handles that were released, and the bytes of the requests
that panicked. -/
structure Buffers where
  live : Table HandleKey (List UInt8)
  released : List HandleKey
  lost : Nat

namespace Buffers

def empty : Buffers := ⟨.empty, [], 0⟩

def record (buffers : Buffers) : BufferCall × BufferAnswer → Buffers
  | (.allocate bytes, .allocated (some (.ok key))) =>
      { buffers with live := buffers.live.put key (List.replicate bytes 0) }
  | (.allocate bytes, .allocated none) => { buffers with lost := buffers.lost + bytes }
  | (.release key, .released (.ok _)) =>
      { buffers with
        live := buffers.live.erase key
        released := buffers.released ++ [key] }
  | (.releaseAll, _) => { buffers with live := .empty }
  | _ => buffers

/-- The bytes of all live buffers. -/
def bytes (buffers : Buffers) : Nat := (buffers.live.entries.map fun entry => entry.2.length).sum

end Buffers

/-! The slots as a list. -/

namespace HandleArena

variable {capacity : Nat} {α : Type u}

/-- The occupied slots in order, with their keys. -/
def occupied (arena : HandleArena capacity α) : List (HandleKey × α) :=
  (List.finRange capacity).filterMap fun index =>
    (arena.slots index).value.map fun value => (arena.keyAt index, value)

theorem mem_occupied {arena : HandleArena capacity α} {key : HandleKey} {value : α} :
    (key, value) ∈ arena.occupied ↔
      ∃ index, key = arena.keyAt index ∧ (arena.slots index).value = some value := by
  simp only [occupied, List.mem_filterMap, List.mem_finRange, true_and, Option.map_eq_some_iff,
    Prod.mk.injEq]
  constructor
  · rintro ⟨index, held, hHeld, rfl, rfl⟩
    exact ⟨index, rfl, hHeld⟩
  · rintro ⟨index, rfl, hValue⟩
    exact ⟨index, value, hValue, rfl, rfl⟩

theorem occupied_nodup (arena : HandleArena capacity α) : arena.occupied.Nodup := by
  apply List.Nodup.filterMap _ (List.nodup_finRange capacity)
  intro index other entry hIndex hOther
  obtain ⟨value, -, rfl⟩ := Option.map_eq_some_iff.mp hIndex
  obtain ⟨value', -, hSame⟩ := Option.map_eq_some_iff.mp hOther
  exact keyAt_inj (Prod.mk.inj hSame).1.symm

theorem drainSlots_payloads {indices : List (Fin capacity)} (hNodup : indices.Nodup)
    (arena : HandleArena capacity α) (payloads : List α) :
    (indices.foldl drainSlot (arena, payloads)).2 =
      payloads ++ indices.filterMap fun index => (arena.slots index).value := by
  induction indices generalizing arena payloads with
  | nil => simp
  | cons index rest ih =>
      rw [List.nodup_cons] at hNodup
      rw [List.foldl_cons, List.filterMap_cons]
      cases hHeld : (arena.slots index).value with
      | none =>
          have hSkip : drainSlot (arena, payloads) index = (arena, payloads) := by
            simp [drainSlot, hHeld]
          rw [hSkip, ih hNodup.2]
      | some value =>
          have hTake : drainSlot (arena, payloads) index =
              (arena.release index, payloads ++ [value]) := by
            simp [drainSlot, hHeld]
          -- the slots after this one are not touched by its release
          have hRest : (rest.filterMap fun other => ((arena.release index).slots other).value) =
              rest.filterMap fun other => (arena.slots other).value := by
            apply List.filterMap_congr
            intro other hOther
            rw [release_value, if_neg]
            rintro rfl
            exact hNodup.1 hOther
          rw [hTake, ih hNodup.2, hRest, List.append_assoc]
          rfl

/-- A drain yields the payloads of the occupied slots. -/
theorem drainOccupied_payloads (arena : HandleArena capacity α) :
    arena.drainOccupied.2 = arena.occupied.map Prod.snd := by
  rw [drainOccupied, drainSlots_payloads (List.nodup_finRange capacity), List.nil_append, occupied,
    List.map_filterMap]
  apply List.filterMap_congr
  intro index _
  rw [Option.map_map]
  exact (congrFun Option.map_id _).symm

end HandleArena

theorem TypedHandleRegistry.takeAll_payloads {capacity : Nat} {α : Type u}
    (registry : TypedHandleRegistry capacity α) :
    registry.takeAll.1 = registry.arena.occupied.map Prod.snd :=
  registry.arena.drainOccupied_payloads

namespace Buffers

variable {buffers : Buffers} {key : HandleKey} {payload : List UInt8}

theorem bytes_put (h : buffers.live.get key = none) :
    { buffers with live := buffers.live.put key payload }.bytes =
      buffers.bytes + payload.length := by
  rw [bytes, Table.put_absent h, Table.insert, List.map_append, List.sum_append, bytes]
  simp

theorem bytes_erase (h : buffers.live.get key = some payload) (released : List HandleKey) :
    { buffers with live := buffers.live.erase key, released }.bytes + payload.length =
      buffers.bytes := by
  have hPerm := ((Table.erase_perm h).map fun entry => entry.2.length).sum_nat
  rw [List.map_append, List.sum_append] at hPerm
  rw [bytes, bytes, ← hPerm]
  simp

/-- Only a request that panics is lost. -/
theorem record_lost (buffers : Buffers) (entry : BufferCall × BufferAnswer)
    (h : ∀ bytes, entry ≠ (.allocate bytes, .allocated none)) :
    (buffers.record entry).lost = buffers.lost := by
  unfold record
  split
  all_goals first | rfl | exact absurd rfl (h _)

end Buffers

/-! The two ledgers. -/

/-- The registry holds the live buffers, and the budget is charged with them and with what was
lost. -/
structure Charges {capacity : Nat} (context : ContextKey) (budget : MemoryBudget)
    (owner : NativeBufferOwner capacity) (buffers : Buffers) : Prop where
  wf : owner.registry.arena.WellFormed
  sameContext : owner.registry.context = context
  agrees : ∃ issued, HandleArena.Agrees context ⟨issued, buffers.live.get⟩ owner.registry.arena ∧
    ∀ key ∈ buffers.released, key ∈ issued ∧ buffers.live.get key = none
  nodup : buffers.released.Nodup
  charged : owner.budget.charged = budget.charged + buffers.bytes + buffers.lost
  limit : owner.budget.limit = budget.limit
  within : owner.budget.charged ≤ budget.limit

namespace Charges

variable {capacity : Nat} {context : ContextKey} {budget : MemoryBudget}
  {owner : NativeBufferOwner capacity} {buffers : Buffers} (h : Charges context budget owner buffers)
include h

theorem occupied_perm : buffers.live.entries.Perm owner.registry.arena.occupied := by
  obtain ⟨issued, hAgrees, -⟩ := h.agrees
  rw [List.perm_ext_iff_of_nodup buffers.live.entries_nodup
    owner.registry.arena.occupied_nodup]
  rintro ⟨key, payload⟩
  rw [Table.mem_entries, HandleArena.mem_occupied]
  exact hAgrees.live key payload

theorem payloads_sum :
    (owner.registry.takeAll.1.map List.length).sum = buffers.bytes := by
  rw [TypedHandleRegistry.takeAll_payloads, List.map_map, Buffers.bytes]
  exact (h.occupied_perm.map _).sum_nat.symm

theorem payloads_length : owner.registry.takeAll.1.length = buffers.live.size := by
  rw [TypedHandleRegistry.takeAll_payloads, List.length_map, ← h.occupied_perm.length_eq, Table.size]

/-- A live handle can be removed, with its payload. -/
theorem remove_live {key : HandleKey} {payload : List UInt8}
    (hLive : buffers.live.get key = some payload) :
    ∃ index, key = owner.registry.arena.keyAt index ∧ owner.registry.arena.Occupied index ∧
      owner.registry.remove key = (.ok payload,
        { owner.registry with arena := owner.registry.arena.release index }) := by
  obtain ⟨issued, hAgrees, -⟩ := h.agrees
  obtain ⟨index, rfl, hValue⟩ := (hAgrees.live key payload).mp hLive
  have hContext : (owner.registry.arena.keyAt index).context = owner.registry.context := by
    rw [h.sameContext, ← hAgrees.context_eq]
    rfl
  refine ⟨index, rfl, by simp [HandleArena.Occupied, hValue], ?_⟩
  rw [TypedHandleRegistry.remove, if_neg (not_not.mpr hContext), HandleArena.remove,
    HandleArena.resolve_eq_ok.mpr ⟨rfl, hValue⟩]

/-- No other handle can be removed, and trying changes nothing. -/
theorem remove_dead {key : HandleKey} (hDead : buffers.live.get key = none) :
    ∃ failure, owner.registry.remove key = (.error failure, owner.registry) := by
  obtain ⟨issued, hAgrees, -⟩ := h.agrees
  rw [TypedHandleRegistry.remove]
  split_ifs with hContext
  · exact ⟨_, rfl⟩
  · cases hResolve : owner.registry.arena.resolve key with
    | error failure => exact ⟨failure, by rw [HandleArena.remove, hResolve]⟩
    | ok found =>
        obtain ⟨hKey, hValue⟩ := HandleArena.resolve_eq_ok.mp hResolve
        have hLive : buffers.live.get key = some found.2 :=
          (hAgrees.live key found.2).mpr ⟨found.1, hKey, hValue⟩
        rw [hLive] at hDead
        cases hDead

/-! The calls. -/

/-- A buffer enters both ledgers. -/
theorem charge {bytes : Nat} {index : Fin capacity} {rest : List (Fin capacity)}
    (hFree : owner.registry.arena.free = index :: rest)
    (hWithin : owner.budget.charged + bytes ≤ budget.limit) :
    Charges context budget
      { registry := { owner.registry with
          arena := { owner.registry.arena with free := rest }.setSlot index
            ⟨(owner.registry.arena.slots index).generation, some (List.replicate bytes 0)⟩ }
        budget := { owner.budget with charged := owner.budget.charged + bytes } }
      { buffers with live :=
          buffers.live.put (owner.registry.arena.keyAt index) (List.replicate bytes 0) } := by
  obtain ⟨issued, hAgrees, hReleased⟩ := h.agrees
  have hFresh := hAgrees.keyAt_fresh (hFree ▸ List.mem_cons_self : index ∈ _)
  have hAbsent : buffers.live.get (owner.registry.arena.keyAt index) = none := by
    by_contra hLive
    obtain ⟨payload, hLive⟩ := Option.ne_none_iff_exists'.mp hLive
    exact hFresh (hAgrees.live_issued _ payload hLive)
  refine ⟨h.wf.fill hFree _, h.sameContext,
    ⟨issued ++ [owner.registry.arena.keyAt index], ?_, ?_⟩, h.nodup, ?_, h.limit, hWithin⟩
  · rw [Table.get_put_eq]
    exact hAgrees.fill h.wf hFree _
  · intro key hKey
    obtain ⟨hIssued, hDead⟩ := hReleased key hKey
    refine ⟨List.mem_append_left _ hIssued, ?_⟩
    rw [Table.get_put, if_neg]
    · exact hDead
    · rintro rfl
      exact hFresh hIssued
  · have hCharged := h.charged
    rw [Buffers.bytes_put hAbsent, List.length_replicate]
    show owner.budget.charged + bytes = budget.charged + (buffers.bytes + bytes) + buffers.lost
    omega

/-- A live buffer leaves both ledgers. -/
theorem discharge {index : Fin capacity} (hOccupied : owner.registry.arena.Occupied index)
    {payload : List UInt8}
    (hLive : buffers.live.get (owner.registry.arena.keyAt index) = some payload) :
    Charges context budget
      { registry := { owner.registry with arena := owner.registry.arena.release index }
        budget := owner.budget.release payload.length }
      { buffers with
        live := buffers.live.erase (owner.registry.arena.keyAt index)
        released := buffers.released ++ [owner.registry.arena.keyAt index] } := by
  obtain ⟨issued, hAgrees, hReleased⟩ := h.agrees
  have hBytes := Buffers.bytes_erase hLive
    (buffers.released ++ [owner.registry.arena.keyAt index])
  have hCharged := h.charged
  have hWithin := h.within
  refine ⟨h.wf.release hOccupied, h.sameContext, ⟨issued, ?_, ?_⟩, ?_, ?_, h.limit, ?_⟩
  · rw [Table.get_erase_eq]
    exact hAgrees.release h.wf hOccupied
  · intro key hKey
    rw [Table.get_erase]
    rcases List.mem_append.mp hKey with hOld | hNew
    · obtain ⟨hIssued, hDead⟩ := hReleased key hOld
      refine ⟨hIssued, ?_⟩
      rw [hDead]
      split_ifs <;> rfl
    · rw [List.mem_singleton.mp hNew, if_pos rfl]
      exact ⟨hAgrees.live_issued _ payload hLive, rfl⟩
  · rw [List.nodup_append]
    refine ⟨h.nodup, List.nodup_singleton _, fun key hKey last hLast => ?_⟩
    rw [List.mem_singleton.mp hLast]
    rintro rfl
    rw [(hReleased _ hKey).2] at hLive
    cases hLive
  · show owner.budget.charged - payload.length = _ + _ + buffers.lost
    omega
  · show owner.budget.charged - payload.length ≤ _
    omega

/-- A reservation whose buffer panics leaves the charge behind. -/
theorem lose {bytes : Nat} (hWithin : owner.budget.charged + bytes ≤ budget.limit) :
    Charges context budget
      { owner with budget := { owner.budget with charged := owner.budget.charged + bytes } }
      { buffers with lost := buffers.lost + bytes } where
  wf := h.wf
  sameContext := h.sameContext
  agrees := h.agrees
  nodup := h.nodup
  charged := by
    have hCharged := h.charged
    show owner.budget.charged + bytes = budget.charged + buffers.bytes + (buffers.lost + bytes)
    omega
  limit := h.limit
  within := hWithin

/-- What an allocation may come to: no room in the budget or in the registry, a panic, or a
buffer. -/
theorem allocate_cases (bytes : Nat) :
    (∃ failure, owner.allocate bytes = (some (.error failure), owner)) ∨
    (Word.maxIsize < bytes ∧ owner.budget.charged + bytes ≤ budget.limit ∧
      owner.allocate bytes = (none, { owner with
        budget := { owner.budget with charged := owner.budget.charged + bytes } })) ∨
    ∃ index rest, owner.registry.arena.free = index :: rest ∧
      owner.budget.charged + bytes ≤ budget.limit ∧
      owner.allocate bytes = (some (.ok (owner.registry.arena.keyAt index)),
        { registry := { owner.registry with
            arena := { owner.registry.arena with free := rest }.setSlot index
              ⟨(owner.registry.arena.slots index).generation, some (List.replicate bytes 0)⟩ }
          budget := { owner.budget with charged := owner.budget.charged + bytes } }) := by
  rw [NativeBufferOwner.allocate]
  cases hReserve : owner.budget.tryReserve bytes with
  | error failure => exact Or.inl ⟨failure, rfl⟩
  | ok reserved =>
      obtain ⟨rfl, hWithin⟩ := MemoryBudget.tryReserve_eq_ok hReserve
      rw [h.limit] at hWithin
      simp only
      split_ifs with hLarge
      · exact Or.inr (Or.inl ⟨hLarge, hWithin, rfl⟩)
      cases hFree : owner.registry.arena.free with
      | nil =>
          have hInsert : owner.registry.insert (List.replicate bytes 0) =
              (.error ⟨.capacityExceeded, .limitExceeded capacity (capacity + 1)⟩,
                owner.registry) := by
            rw [TypedHandleRegistry.insert, HandleArena.insert, hFree]
          simp only [hInsert, MemoryBudget.release_reserved]
          exact Or.inl ⟨_, rfl⟩
      | cons index rest =>
          have hInsert : owner.registry.insert (List.replicate bytes 0) =
              (.ok (owner.registry.arena.keyAt index), { owner.registry with
                arena := { owner.registry.arena with free := rest }.setSlot index
                  ⟨(owner.registry.arena.slots index).generation,
                    some (List.replicate bytes 0)⟩ }) := by
            rw [TypedHandleRegistry.insert, HandleArena.insert, hFree]
          simp only [hInsert]
          exact Or.inr (Or.inr ⟨index, rest, rfl, hWithin, rfl⟩)

/-- An allocation panics on what the budget grants and an allocation cannot have. -/
theorem allocate_panics_iff (hLimit : budget.limit ≤ Word.max64) (bytes : Nat) :
    (owner.allocate bytes).1 = none ↔
      Word.maxIsize < bytes ∧ owner.budget.charged + bytes ≤ budget.limit := by
  rw [NativeBufferOwner.allocate]
  cases hReserve : owner.budget.tryReserve bytes with
  | error failure =>
      have hOver := MemoryBudget.tryReserve_eq_error (h.limit ▸ hLimit) hReserve
      rw [h.limit] at hOver
      exact ⟨nofun, fun hWithin => absurd hWithin.2 (not_le.mpr hOver)⟩
  | ok reserved =>
      obtain ⟨-, hWithin⟩ := MemoryBudget.tryReserve_eq_ok hReserve
      rw [h.limit] at hWithin
      dsimp only
      split_ifs with hLarge
      · exact ⟨fun _ => ⟨hLarge, hWithin⟩, fun _ => rfl⟩
      · rcases owner.registry.insert (List.replicate bytes 0) with ⟨failure | key, registry⟩
        · exact ⟨nofun, fun hBoth => absurd hBoth.1 hLarge⟩
        · exact ⟨nofun, fun hBoth => absurd hBoth.1 hLarge⟩

theorem allocate (bytes : Nat) :
    Charges context budget (owner.allocate bytes).2
      (buffers.record (.allocate bytes, .allocated (owner.allocate bytes).1)) := by
  rcases h.allocate_cases bytes with ⟨failure, hRefused⟩ | ⟨-, hWithin, hPanics⟩ |
    ⟨index, rest, hFree, hWithin, hMade⟩
  · rw [hRefused]
    exact h
  · rw [hPanics]
    exact h.lose hWithin
  · rw [hMade]
    exact h.charge hFree hWithin

theorem allocate_refused {bytes : Nat} {failure : KernelError}
    (hRefused : (owner.allocate bytes).1 = some (.error failure)) :
    (owner.allocate bytes).2 = owner := by
  rcases h.allocate_cases bytes with ⟨_, hSame⟩ | ⟨-, -, hPanics⟩ | ⟨_, _, -, -, hMade⟩
  · rw [hSame]
  · rw [hPanics] at hRefused
    cases hRefused
  · rw [hMade] at hRefused
    cases hRefused

theorem get_eq_ok (key : HandleKey) (payload : List UInt8) :
    owner.registry.arena.get key = .ok payload ↔ buffers.live.get key = some payload := by
  obtain ⟨issued, hAgrees, -⟩ := h.agrees
  exact hAgrees.get_eq_ok key payload

/-- What is allocated is a new handle, with a buffer of as many zeros as were asked for. -/
theorem allocate_made {bytes : Nat} {key : HandleKey}
    (hAllocated : (owner.allocate bytes).1 = some (.ok key)) :
    buffers.live.get key = none ∧ key ∉ buffers.released ∧
      (owner.allocate bytes).2.registry.arena.get key = .ok (List.replicate bytes 0) := by
  have hNext := h.allocate bytes
  rw [hAllocated] at hNext
  obtain ⟨issued, hAgrees, hReleased⟩ := h.agrees
  rcases h.allocate_cases bytes with ⟨_, hSame⟩ | ⟨-, -, hPanics⟩ | ⟨index, rest, hFree, -, hMade⟩
  · rw [hSame] at hAllocated
    cases hAllocated
  · rw [hPanics] at hAllocated
    cases hAllocated
  · rw [hMade] at hAllocated
    obtain rfl := Except.ok.inj (Option.some.inj hAllocated)
    have hFresh := hAgrees.keyAt_fresh (hFree ▸ List.mem_cons_self : index ∈ _)
    refine ⟨?_, fun hOld => hFresh (hReleased _ hOld).1, ?_⟩
    · by_contra hLive
      obtain ⟨payload, hLive⟩ := Option.ne_none_iff_exists'.mp hLive
      exact hFresh (hAgrees.live_issued _ payload hLive)
    · rw [hNext.get_eq_ok]
      exact (Table.get_put _ _ _ _).trans (if_pos rfl)

theorem release (key : HandleKey) :
    Charges context budget (owner.release key).2
        (buffers.record (.release key, .released (owner.release key).1)) ∧
      (∀ failure, (owner.release key).1 = .error failure → (owner.release key).2 = owner) := by
  rw [NativeBufferOwner.release]
  cases hLive : buffers.live.get key with
  | none =>
      obtain ⟨failure, hRemove⟩ := h.remove_dead hLive
      simp only [hRemove]
      exact ⟨h, fun _ _ => trivial⟩
  | some payload =>
      obtain ⟨index, rfl, hOccupied, hRemove⟩ := h.remove_live hLive
      simp only [hRemove]
      exact ⟨h.discharge hOccupied hLive, fun failure hFails => by cases hFails⟩

/-- A bulk release reports the live buffers and returns the charge to what it was, but for what
was lost. -/
theorem releaseAll :
    owner.releaseAll.1 = ⟨Word.asU32 buffers.live.size, buffers.bytes⟩ ∧
      owner.releaseAll.2.budget =
        { owner.budget with charged := budget.charged + buffers.lost } ∧
      Charges context budget owner.releaseAll.2 { buffers with live := .empty } := by
  obtain ⟨issued, hAgrees, hReleased⟩ := h.agrees
  obtain ⟨hEmpty, hWf⟩ := hAgrees.drainOccupied h.wf
  have hBudget : owner.releaseAll.2.budget =
      { owner.budget with charged := budget.charged + buffers.lost } := by
    show owner.budget.release (owner.registry.takeAll.1.map List.length).sum = _
    rw [h.payloads_sum, MemoryBudget.release, h.charged, Nat.add_right_comm, Nat.add_sub_cancel]
  refine ⟨?_, hBudget, hWf, h.sameContext, ⟨issued, hEmpty, ?_⟩, h.nodup, ?_, ?_, ?_⟩
  · rw [← h.payloads_length, ← h.payloads_sum]
    rfl
  · exact fun key hKey => ⟨(hReleased key hKey).1, rfl⟩
  · rw [hBudget]
    rfl
  · rw [hBudget]
    exact h.limit
  · rw [hBudget]
    have hCharged := h.charged
    have hWithin := h.within
    show budget.charged + buffers.lost ≤ budget.limit
    omega

theorem answer (call : BufferCall) :
    Charges context budget (owner.answer call).2
      (buffers.record (call, (owner.answer call).1)) := by
  cases call with
  | allocate bytes => exact h.allocate bytes
  | release key => exact (h.release key).1
  | releaseAll => exact h.releaseAll.2.2

theorem remove_charged {key : HandleKey} {payload : List UInt8}
    (hRemove : (owner.registry.remove key).1 = .ok payload) :
    payload.length ≤ owner.budget.charged := by
  cases hLive : buffers.live.get key with
  | none =>
      obtain ⟨failure, hDead⟩ := h.remove_dead hLive
      rw [hDead] at hRemove
      cases hRemove
  | some held =>
      obtain ⟨index, -, -, hHeld⟩ := h.remove_live hLive
      rw [hHeld] at hRemove
      obtain rfl := Except.ok.inj hRemove
      have hBytes := Buffers.bytes_erase hLive buffers.released
      have hCharged := h.charged
      omega

theorem size_le : buffers.live.size ≤ capacity := by
  rw [Table.size, h.occupied_perm.length_eq, HandleArena.occupied]
  exact (List.length_filterMap_le _ _).trans List.length_finRange.le

end Charges

theorem charges_new (context : ContextKey) (maxHandles : UInt32) {budget : MemoryBudget}
    (h : budget.charged ≤ budget.limit) :
    Charges context budget (.new context maxHandles budget) .empty where
  wf := (HandleArena.withCapacity_tracks context maxHandles).wf
  sameContext := rfl
  agrees := by
    refine ⟨[], ⟨rfl, List.nodup_nil, by simp, ?_, ?_⟩, by simp [Buffers.empty]⟩
    · intro key payload
      simp [Buffers.empty, NativeBufferOwner.new, TypedHandleRegistry.new,
        HandleArena.withCapacity]
    · simp [Buffers.empty]
  nodup := List.nodup_nil
  charged := rfl
  limit := rfl
  within := h

/-! Runs. -/

namespace NativeBufferOwner

/-- What the calls of an owner come to: the owner, and the buffers as the caller knows them. -/
def after (context : ContextKey) (maxHandles : UInt32) (budget : MemoryBudget)
    (calls : List BufferCall) : NativeBufferOwner maxHandles.toNat × Buffers :=
  let run := Machine.run answer (new context maxHandles budget) calls
  (run.2, run.1.foldl Buffers.record .empty)

/-- The two ledgers of an owner are exact. -/
structure Exact {capacity : Nat} (budget : MemoryBudget) (owner : NativeBufferOwner capacity)
    (buffers : Buffers) : Prop where
  charged : owner.budget.charged = budget.charged + buffers.bytes
  within : owner.budget.charged ≤ budget.limit
  live : ∀ key payload, owner.registry.arena.get key = .ok payload ↔
    buffers.live.get key = some payload
  refused : ∀ bytes failure, (owner.allocate bytes).1 = some (.error failure) →
    (owner.allocate bytes).2 = owner
  made : ∀ bytes key, (owner.allocate bytes).1 = some (.ok key) →
    buffers.live.get key = none ∧ key ∉ buffers.released ∧
      (owner.allocate bytes).2.registry.arena.get key = .ok (List.replicate bytes 0)
  unreleased : ∀ key failure, (owner.release key).1 = .error failure →
    (owner.release key).2 = owner
  releasedOnce : buffers.released.Nodup
  report : owner.releaseAll.1 = ⟨buffers.live.size, buffers.bytes⟩
  returned : owner.releaseAll.2.budget.charged = budget.charged
  unsaturated : ∀ key payload, (owner.registry.remove key).1 = .ok payload →
    payload.length ≤ owner.budget.charged
  unsaturatedAll : (owner.registry.takeAll.1.map List.length).sum ≤ owner.budget.charged

end NativeBufferOwner

section Runs

variable {context : ContextKey} {maxHandles : UInt32} {budget : MemoryBudget}

open NativeBufferOwner

theorem charges_after (hBudget : budget.charged ≤ budget.limit) (calls : List BufferCall) :
    Charges context budget (after context maxHandles budget calls).1
      (after context maxHandles budget calls).2 := by
  apply Machine.run_records (Charges context budget)
  · exact fun owner buffers call h => h.answer call
  · exact charges_new context maxHandles hBudget

/-- The ledgers are exact as long as nothing was lost. -/
theorem Charges.exact_iff {owner : NativeBufferOwner maxHandles.toNat} {buffers : Buffers}
    (h : Charges context budget owner buffers) : owner.Exact budget buffers ↔ buffers.lost = 0 := by
  obtain ⟨hReport, hReturned, -⟩ := h.releaseAll
  have hCharged := h.charged
  constructor
  · intro hExact
    have hBytes := hExact.charged
    omega
  · intro hLost
    rw [hLost, Nat.add_zero] at hCharged hReturned
    exact
      { charged := hCharged
        within := h.within
        live := h.get_eq_ok
        refused := fun bytes failure => h.allocate_refused
        made := fun bytes key => h.allocate_made
        unreleased := fun key => (h.release key).2
        releasedOnce := h.nodup
        report := by
          rw [hReport, Word.asU32_of_lt (h.size_le.trans_lt maxHandles.toNat_lt)]
        returned := by rw [hReturned]
        unsaturated := fun key payload => h.remove_charged
        unsaturatedAll := by
          rw [h.payloads_sum, hCharged]
          exact Nat.le_add_left _ _ }

/-- One more call loses what it reserves and cannot allocate. -/
theorem after_snoc_lost (hBudget : budget.charged ≤ budget.limit)
    (hLimit : budget.limit ≤ Word.max64) (calls : List BufferCall) (call : BufferCall) :
    (after context maxHandles budget (calls ++ [call])).2.lost = 0 ↔
      (after context maxHandles budget calls).2.lost = 0 ∧ ∀ bytes, call = .allocate bytes →
        bytes ≤ Word.maxIsize ∨
          budget.limit < (after context maxHandles budget calls).1.budget.charged + bytes := by
  have h : Charges context budget (after context maxHandles budget calls).1 _ :=
    charges_after hBudget calls
  have hSnoc : (after context maxHandles budget (calls ++ [call])).2 =
      (after context maxHandles budget calls).2.record
        (call, ((after context maxHandles budget calls).1.answer call).1) := by
    simp only [after, Machine.run_append, List.foldl_append]
    rfl
  rw [hSnoc]
  generalize (after context maxHandles budget calls).1 = owner at h ⊢
  generalize (after context maxHandles budget calls).2 = buffers at h ⊢
  by_cases hPanics : ∃ bytes, call = .allocate bytes ∧ (owner.allocate bytes).1 = none
  · obtain ⟨bytes, rfl, hNone⟩ := hPanics
    obtain ⟨hLarge, hWithin⟩ := (h.allocate_panics_iff hLimit bytes).mp hNone
    have hLost : (buffers.record (.allocate bytes, (owner.answer (.allocate bytes)).1)).lost =
        buffers.lost + bytes := by
      show (buffers.record (.allocate bytes, .allocated (owner.allocate bytes).1)).lost = _
      rw [hNone]
      rfl
    rw [hLost]
    refine ⟨fun hZero => by omega, fun hBoth => ?_⟩
    have hFits := hBoth.2 bytes rfl
    omega
  · have hKept : (buffers.record (call, (owner.answer call).1)).lost = buffers.lost := by
      apply Buffers.record_lost
      rintro bytes hEntry
      obtain ⟨rfl, hNone⟩ := Prod.mk.inj hEntry
      exact hPanics ⟨bytes, rfl, BufferAnswer.allocated.inj hNone⟩
    rw [hKept]
    refine ⟨fun hZero => ⟨hZero, ?_⟩, And.left⟩
    rintro bytes rfl
    by_contra hLoses
    rw [not_or, not_le, not_lt] at hLoses
    exact hPanics ⟨bytes, rfl, (h.allocate_panics_iff hLimit bytes).mpr hLoses⟩

/-- Nothing is lost in a run whose requests can be allocated or are refused by the budget. -/
theorem after_lost (hBudget : budget.charged ≤ budget.limit) (hLimit : budget.limit ≤ Word.max64)
    (calls : List BufferCall) :
    (after context maxHandles budget calls).2.lost = 0 ↔
      ∀ before bytes rest, calls = before ++ .allocate bytes :: rest → bytes ≤ Word.maxIsize ∨
        budget.limit < (after context maxHandles budget before).1.budget.charged + bytes := by
  induction calls using List.reverseRecOn with
  | nil => exact ⟨fun _ before bytes rest hCalls => by simp at hCalls, fun _ => rfl⟩
  | append_singleton calls call ih =>
      rw [after_snoc_lost hBudget hLimit, ih]
      constructor
      · rintro ⟨hBefore, hLast⟩ before bytes rest hCalls
        rcases List.eq_nil_or_concat rest with rfl | ⟨rest, last, rfl⟩
        · obtain ⟨rfl, hCall⟩ := List.append_inj' hCalls rfl
          exact hLast bytes (List.cons.inj hCall).1
        · rw [List.concat_eq_append, ← List.cons_append, ← List.append_assoc] at hCalls
          exact hBefore before bytes rest (List.append_inj' hCalls rfl).1
      · intro hAll
        refine ⟨fun before bytes rest hCalls => ?_, fun bytes hCall => ?_⟩
        · exact hAll before bytes (rest ++ [call]) (by rw [hCalls]; simp)
        · exact hAll calls bytes [] (by rw [hCall])

/-- The ledgers are exact after every call of a run, if and only if no call asks for more bytes
than an allocation can have and is granted them by the budget. -/
theorem native_buffers_exact_iff (maxNativeBytes : UInt64) (prior : List LedgerCall)
    (context : ContextKey) (maxHandles : UInt32) (calls : List BufferCall) :
    let budget := prior.foldl MemoryBudget.after (.new maxNativeBytes.toNat)
    (∀ before, before <+: calls → (after context maxHandles budget before).1.Exact budget
      (after context maxHandles budget before).2) ↔
    ∀ before bytes rest, calls = before ++ .allocate bytes :: rest → bytes ≤ Word.maxIsize ∨
      maxNativeBytes.toNat < (after context maxHandles budget before).1.budget.charged + bytes := by
  intro budget
  have hNew : (MemoryBudget.new maxNativeBytes.toNat).charged ≤ maxNativeBytes.toNat :=
    Nat.zero_le _
  obtain ⟨hSame, hBudget⟩ : budget.limit = maxNativeBytes.toNat ∧
    budget.charged ≤ maxNativeBytes.toNat := MemoryBudget.foldl_within hNew prior
  rw [← hSame] at hBudget
  have hLimit : budget.limit ≤ Word.max64 := by
    rw [hSame]
    exact Nat.le_sub_one_of_lt maxNativeBytes.toNat_lt
  have hRun := @after_lost context maxHandles budget hBudget hLimit
  rw [hSame] at hRun
  constructor
  · intro hExact
    have hLast := hExact calls List.prefix_rfl
    exact (hRun calls).mp ((charges_after hBudget calls).exact_iff.mp hLast)
  · intro hFits before hBefore
    refine (charges_after hBudget before).exact_iff.mpr ((hRun before).mpr ?_)
    intro earlier bytes rest hCalls
    obtain ⟨more, rfl⟩ := hBefore
    exact hFits earlier bytes (rest ++ more) (by rw [hCalls]; simp)

/-- A buffer, its release, and a second buffer in the slot: two exact ledgers with four zeros. -/
theorem native_buffers_exact_reuse :
    let owner := after ⟨7⟩ 1 (.new 8) [.allocate 8, .release ⟨⟨7⟩, ⟨0⟩, ⟨1⟩⟩, .allocate 4]
    owner.1.Exact (.new 8) owner.2 ∧ owner.1.budget.charged = 4 ∧
      owner.1.registry.arena.get ⟨⟨7⟩, ⟨0⟩, ⟨2⟩⟩ = .ok [0, 0, 0, 0] := by
  have h := native_buffers_exact_iff 8 [] ⟨7⟩ 1
    [.allocate 8, .release ⟨⟨7⟩, ⟨0⟩, ⟨1⟩⟩, .allocate 4]
  refine ⟨h.mpr ?_ _ List.prefix_rfl, rfl, rfl⟩
  intro before bytes rest hCalls
  have hMember : BufferCall.allocate bytes ∈
      [.allocate 8, .release ⟨⟨7⟩, ⟨0⟩, ⟨1⟩⟩, .allocate 4] := by
    rw [hCalls]
    simp
  left
  simp at hMember
  rcases hMember with rfl | rfl
  · decide
  · decide

/-- A request of `isize::MAX + 1` bytes panics and leaves its charge, with no live buffer. -/
theorem native_buffers_lost :
    let owner := after ⟨7⟩ 1 (.new Word.max64) [.allocate (2 ^ 63)]
    owner.2.bytes = 0 ∧ owner.1.budget.charged = 2 ^ 63 ∧
      ¬ owner.1.Exact (.new Word.max64) owner.2 := by
  intro owner
  have hBytes : owner.2.bytes = 0 := rfl
  have hCharged : owner.1.budget.charged = 2 ^ 63 := rfl
  refine ⟨hBytes, hCharged, fun hExact => ?_⟩
  have hSame := hExact.charged
  rw [hBytes, hCharged] at hSame
  exact absurd hSame (by decide)

end Runs
end Kernel

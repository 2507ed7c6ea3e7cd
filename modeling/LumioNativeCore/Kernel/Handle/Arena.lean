import LumioNativeCore.Library.Word
import LumioNativeCore.Kernel.Error
import Mathlib.Data.List.FinRange

/-! Bounded handle slots and a free list (`handle/arena.rs`). The number of
slots never changes after construction, so it is a parameter of the type and
every slot index in the free list is in bounds by its type. -/
namespace Kernel

structure ContextKey where
  raw : Nat
  deriving DecidableEq, Repr

structure SlotIndex where
  raw : Nat
  deriving DecidableEq, Repr

structure Generation where
  raw : Nat
  deriving DecidableEq, Repr

structure HandleKey where
  context : ContextKey
  slot : SlotIndex
  generation : Generation
  deriving DecidableEq, Repr

universe u

structure Slot (α : Type u) where
  generation : Generation
  value : Option α

/-- `free` lists the slots that the source's `Vec` holds, the next one to be
popped first. -/
structure HandleArena (capacity : Nat) (α : Type u) where
  context : ContextKey
  slots : Fin capacity → Slot α
  free : List (Fin capacity)
  retired : Nat

namespace HandleArena

variable {capacity : Nat} {α : Type u}

def withCapacity (context : ContextKey) (capacity : UInt32) (α : Type u) :
    HandleArena capacity.toNat α where
  context := context
  slots := fun _ => ⟨⟨1⟩, none⟩
  free := List.finRange capacity.toNat
  retired := 0

def setSlot (arena : HandleArena capacity α) (index : Fin capacity) (slot : Slot α) :
    HandleArena capacity α :=
  { arena with slots := Function.update arena.slots index slot }

/-- The key under which the current value of a slot is held. -/
def keyAt (arena : HandleArena capacity α) (index : Fin capacity) : HandleKey :=
  ⟨arena.context, ⟨index.val⟩, (arena.slots index).generation⟩

def insert (arena : HandleArena capacity α) (value : α) :
    Except KernelError HandleKey × HandleArena capacity α :=
  match arena.free with
  | [] => (.error ⟨.capacityExceeded, .limitExceeded capacity (capacity + 1)⟩, arena)
  | index :: rest =>
      (.ok (arena.keyAt index),
        { arena with free := rest }.setSlot index
          ⟨(arena.slots index).generation, some value⟩)

/-- Resolve a live slot. Context is checked before bounds, occupancy, or generation. -/
def resolve (arena : HandleArena capacity α) (key : HandleKey) :
    Except KernelError (Fin capacity × α) :=
  if key.context ≠ arena.context then .error (error .wrongContext)
  else if hBound : key.slot.raw < capacity then
    match (arena.slots ⟨key.slot.raw, hBound⟩).value with
    | none => .error (error .alreadyReleased)
    | some value =>
        if (arena.slots ⟨key.slot.raw, hBound⟩).generation ≠ key.generation then
          .error (error .invalidHandle)
        else .ok (⟨key.slot.raw, hBound⟩, value)
  else .error (error .invalidHandle)

def get (arena : HandleArena capacity α) (key : HandleKey) : Except KernelError α :=
  (arena.resolve key).map Prod.snd

/-- Both release paths end a slot's occupancy this way: the generation is
bumped and the slot becomes free, or the slot retires at `u32::MAX`. -/
def release (arena : HandleArena capacity α) (index : Fin capacity) :
    HandleArena capacity α :=
  match Word.checkedAdd Word.max32 (arena.slots index).generation.raw 1 with
  | some next => { arena with free := index :: arena.free }.setSlot index ⟨⟨next⟩, none⟩
  | none =>
      { arena with retired := arena.retired + 1 }.setSlot index
        ⟨(arena.slots index).generation, none⟩

def remove (arena : HandleArena capacity α) (key : HandleKey) :
    Except KernelError α × HandleArena capacity α :=
  match arena.resolve key with
  | .error failure => (.error failure, arena)
  | .ok (index, value) => (.ok value, arena.release index)

/-- One slot of the bulk drain; `drained` collects the payloads in slot order. -/
def drainSlot (state : HandleArena capacity α × List α) (index : Fin capacity) :
    HandleArena capacity α × List α :=
  match (state.1.slots index).value with
  | none => state
  | some value => (state.1.release index, state.2 ++ [value])

def drainOccupied (arena : HandleArena capacity α) : HandleArena capacity α × List α :=
  (List.finRange capacity).foldl drainSlot (arena, [])

def len (arena : HandleArena capacity α) : Nat :=
  Word.asU32 (capacity - arena.free.length - arena.retired)

end HandleArena
end Kernel

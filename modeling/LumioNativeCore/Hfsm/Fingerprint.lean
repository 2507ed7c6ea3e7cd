import LumioNativeCore.Hfsm.Definition
import Mathlib.Data.List.Sort

/-! FNV-1a 64 over the canonical definition encoding (`fingerprint.rs` and
`compute_fingerprint`). The hash only ever absorbs bytes, so it is the fold of
one byte step over the bytes it is fed; the encoding is that byte sequence. -/
namespace Hfsm

/-- `FNV_OFFSET`, `FNV_PRIME` and the in-band sentinel `NONE`. -/
def fnvOffset : UInt64 := 0xcbf29ce484222325

def fnvPrime : UInt64 := 0x00000100000001b3

def sentinel : UInt32 := 0xffffffff

namespace Fnv1a

/-- One byte of `Fnv1a::bytes`. -/
def absorb (hash : UInt64) (byte : UInt8) : UInt64 := (hash ^^^ byte.toUInt64) * fnvPrime

def bytes (hash : UInt64) (input : List UInt8) : UInt64 := input.foldl absorb hash

end Fnv1a

/-- `u32::to_le_bytes`. -/
def toLeBytes (v : UInt32) : List UInt8 :=
  [v.toUInt8, (v >>> 8).toUInt8, (v >>> 16).toUInt8, (v >>> 24).toUInt8]

/-- The bytes fed by `Fnv1a::opt`. -/
def encodeOpt (v : Option UInt32) : List UInt8 := toLeBytes (v.getD sentinel)

/-- The bytes fed by `Fnv1a::list`. -/
def encodeList (items : List UInt32) : List UInt8 :=
  toLeBytes (UInt32.ofNat items.length) ++ items.flatMap toLeBytes

def encodeState (s : StateSpec) : List UInt8 :=
  toLeBytes s.id.raw ++ encodeOpt (s.parent.map StateId.raw) ++
    encodeOpt (s.initial.map StateId.raw) ++ encodeList (s.entry.map ActionId.raw) ++
    encodeList (s.exit.map ActionId.raw)

def encodeTransition (t : TransitionSpec) : List UInt8 :=
  toLeBytes t.id.raw ++ toLeBytes t.source.raw ++ toLeBytes t.event.raw ++
    toLeBytes t.priority ++ encodeOpt (t.guard.map GuardId.raw) ++ toLeBytes t.kind.tag ++
    encodeOpt (t.kind.target.map StateId.raw) ++ encodeList (t.actions.map ActionId.raw)

/-- `sort_by_key(|s| s.id)`. -/
def stateLe (a b : StateSpec) : Prop := a.id.raw ≤ b.id.raw

instance : DecidableRel stateLe := fun a b => inferInstanceAs (Decidable (a.id.raw ≤ b.id.raw))

/-- `sort_by_key(|t| (t.source, t.event, t.priority))`. -/
def transitionLe (a b : TransitionSpec) : Prop :=
  a.source.raw < b.source.raw ∨ a.source.raw = b.source.raw ∧
    (a.event.raw < b.event.raw ∨ a.event.raw = b.event.raw ∧ a.priority ≤ b.priority)

instance : DecidableRel transitionLe := fun a b => inferInstanceAs (Decidable
  (a.source.raw < b.source.raw ∨ a.source.raw = b.source.raw ∧
    (a.event.raw < b.event.raw ∨ a.event.raw = b.event.raw ∧ a.priority ≤ b.priority)))

/-- `b"LUMIO-HFSM\0"`. -/
def encodingTag : List UInt8 := [76, 85, 77, 73, 79, 45, 72, 70, 83, 77, 0]

/-- The byte sequence `compute_fingerprint` feeds to the hash. -/
def canonicalEncoding (spec : DefinitionSpec) : List UInt8 :=
  encodingTag ++ toLeBytes formatVersion ++ toLeBytes semanticsVersion ++
    toLeBytes spec.initial.raw ++ toLeBytes (UInt32.ofNat spec.states.length) ++
    (spec.states.insertionSort stateLe).flatMap encodeState ++
    toLeBytes (UInt32.ofNat spec.transitions.length) ++
    (spec.transitions.insertionSort transitionLe).flatMap encodeTransition

def computeFingerprint (spec : DefinitionSpec) : UInt64 :=
  Fnv1a.bytes fnvOffset (canonicalEncoding spec)

end Hfsm

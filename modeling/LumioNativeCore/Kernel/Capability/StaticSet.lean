import LumioNativeCore.Library.BinarySearch
import LumioNativeCore.Library.Buffer
import LumioNativeCore.Library.Framing
import LumioNativeCore.Kernel.Context.Lifecycle

/-! The capabilities of a context and its configured limits (`capability/static_set.rs`,
`capability/limits.rs`, `capability/mod.rs`). -/
namespace Kernel

open BinarySearch Buffer

/-- An opaque number, ordered by its raw value. -/
abbrev CapabilityKey := Nat

/-- The enabled keys, sorted and each once. -/
@[ext] structure StaticCapabilities where
  enabled : List CapabilityKey
  ascending : enabled.Pairwise (· < ·)

/-- Sorted keys have equal neighbours exactly when a key comes twice. -/
theorem any_windows_sort (keys : List CapabilityKey) :
    (windows (keys.insertionSort (· ≤ ·))).any (fun pair => decide (pair.1 = pair.2)) = false ↔
      keys.Nodup := by
  rw [← find_windows_sort_eq_none keys, List.any_eq_false, List.find?_eq_none]

theorem ascending_sort {keys : List CapabilityKey} (hNodup : keys.Nodup) :
    (keys.insertionSort (· ≤ ·)).Pairwise (· < ·) := by
  have hNodup' := (List.perm_insertionSort (· ≤ ·) keys).nodup_iff.mpr hNodup
  exact (List.pairwise_insertionSort (· ≤ ·) keys).imp₂ (fun _ _ => lt_of_le_of_ne) hNodup'

namespace StaticCapabilities

variable {keys keys' : List CapabilityKey} {caps : StaticCapabilities}

def fromKeys (keys : List CapabilityKey) : Except KernelError StaticCapabilities :=
  let enabled := keys.insertionSort (· ≤ ·)
  if hTwice : (windows enabled).any (fun pair => decide (pair.1 = pair.2)) = true then
    .error (error .invalidArgument)
  else
    .ok ⟨enabled, ascending_sort
      ((any_windows_sort keys).mp (Bool.not_eq_true _ ▸ hTwice))⟩

def contains (caps : StaticCapabilities) (k : CapabilityKey) : Bool :=
  (search caps.enabled k).isOk

def iter (caps : StaticCapabilities) : List CapabilityKey := caps.enabled

theorem fromKeys_eq_ok :
    fromKeys keys = .ok caps ↔ keys.Nodup ∧ caps.enabled = keys.insertionSort (· ≤ ·) := by
  rw [← any_windows_sort keys, fromKeys]
  split_ifs with hTwice
  · simp [hTwice]
  · rw [Except.ok.injEq, StaticCapabilities.ext_iff, eq_comm (a := caps.enabled)]
    simp [hTwice]

theorem fromKeys_eq_error {failure : KernelError} :
    fromKeys keys = .error failure ↔ ¬keys.Nodup ∧ failure = error .invalidArgument := by
  rw [← any_windows_sort keys, fromKeys]
  split_ifs with hTwice
  · simp [hTwice, eq_comm]
  · simp [hTwice]

theorem contains_iff (caps : StaticCapabilities) (k : CapabilityKey) :
    caps.contains k = true ↔ k ∈ caps.enabled :=
  search_isOk (caps.ascending.imp fun hLess => hLess.le) k

/-- The set holds the keys it was made of. -/
theorem iter_perm (h : fromKeys keys = .ok caps) : caps.iter.Perm keys := by
  rw [iter, (fromKeys_eq_ok.mp h).2]
  exact List.perm_insertionSort _ keys

/-- The order in which the keys are given does not matter. -/
theorem fromKeys_perm (hPerm : keys.Perm keys') : fromKeys keys = fromKeys keys' := by
  have hSort : keys.insertionSort (· ≤ ·) = keys'.insertionSort (· ≤ ·) :=
    (Framing.insertionSort_eq_iff fun _ _ _ _ => le_antisymm).mpr hPerm
  cases hKeys : fromKeys keys' with
  | ok caps =>
      obtain ⟨hNodup, hEnabled⟩ := fromKeys_eq_ok.mp hKeys
      exact fromKeys_eq_ok.mpr ⟨hPerm.nodup_iff.mpr hNodup, hEnabled.trans hSort.symm⟩
  | error failure =>
      obtain ⟨hTwice, hFailure⟩ := fromKeys_eq_error.mp hKeys
      exact fromKeys_eq_error.mpr ⟨fun hNodup => hTwice (hPerm.nodup_iff.mp hNodup), hFailure⟩

end StaticCapabilities

structure ConfiguredLimits where
  maxHandles : Nat
  maxNativeBytes : Nat
  maxJobsQueued : Nat
  maxJobsRunning : Nat
  maxCompletionItems : Nat
  deriving DecidableEq, Repr

def ConfiguredLimits.validate (limits : ConfiguredLimits) : Except KernelError Unit :=
  if limits.maxHandles = 0 ∨ limits.maxNativeBytes = 0 ∨ limits.maxJobsQueued = 0 ∨
      limits.maxJobsRunning = 0 ∨ limits.maxCompletionItems = 0 then
    .error (error .invalidArgument)
  else .ok ()

/-- `ContextConfig`. -/
structure ContextConfig where
  limits : ConfiguredLimits
  quiesceDeadline : Deadline
  deriving DecidableEq, Repr

def ContextConfig.validate (config : ContextConfig) : Except KernelError Unit :=
  config.limits.validate

structure CapabilitySource where
  staticCaps : StaticCapabilities
  limits : ConfiguredLimits

namespace CapabilitySource

def new (staticCaps : StaticCapabilities) (limits : ConfiguredLimits) :
    Except KernelError CapabilitySource := do
  limits.validate
  return ⟨staticCaps, limits⟩

def require (source : CapabilitySource) (key : CapabilityKey) : Except KernelError Unit :=
  if source.staticCaps.contains key then .ok ()
  else .error (error .capabilityUnavailable)

variable {caps : StaticCapabilities} {limits : ConfiguredLimits} {source : CapabilitySource}

theorem new_eq_ok :
    new caps limits = .ok source ↔ limits.validate = .ok () ∧ source = ⟨caps, limits⟩ := by
  rw [new]
  cases limits.validate with
  | ok _ => exact ⟨fun h => ⟨rfl, (Except.ok.inj h).symm⟩, fun h => congrArg _ h.2.symm⟩
  | error failure => exact ⟨nofun, nofun⟩

/-- A set is made of keys exactly when no key comes twice, whatever their order. It lists them
in ascending order, and a source that is made of it grants just these keys. -/
theorem require_exact (keys : List CapabilityKey) :
    (∀ keys', keys.Perm keys' →
      StaticCapabilities.fromKeys keys = StaticCapabilities.fromKeys keys') ∧
    (¬keys.Nodup → StaticCapabilities.fromKeys keys = .error (error .invalidArgument)) ∧
    (keys.Nodup → ∃ caps, StaticCapabilities.fromKeys keys = .ok caps ∧
      caps.iter.Pairwise (· < ·) ∧ caps.iter.Perm keys ∧
      ∀ limits source, new caps limits = .ok source → ∀ key,
        source.require key =
          if key ∈ keys then .ok () else .error (error .capabilityUnavailable)) := by
  refine ⟨fun keys' => StaticCapabilities.fromKeys_perm, fun hTwice => ?_, fun hNodup => ?_⟩
  · exact StaticCapabilities.fromKeys_eq_error.mpr ⟨hTwice, rfl⟩
  · have hKeys : StaticCapabilities.fromKeys keys = .ok ⟨_, ascending_sort hNodup⟩ :=
      StaticCapabilities.fromKeys_eq_ok.mpr ⟨hNodup, rfl⟩
    have hPerm := StaticCapabilities.iter_perm hKeys
    refine ⟨_, hKeys, ascending_sort hNodup, hPerm, fun limits source hNew key => ?_⟩
    obtain ⟨-, rfl⟩ := new_eq_ok.mp hNew
    have hMember : StaticCapabilities.contains ⟨_, ascending_sort hNodup⟩ key = true ↔
        key ∈ keys := (StaticCapabilities.contains_iff _ key).trans hPerm.mem_iff
    simp only [require, hMember]

end CapabilitySource
end Kernel

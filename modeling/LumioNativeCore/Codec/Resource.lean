import LumioNativeCore.Kernel.Error
import LumioNativeCore.Library.Run
import LumioNativeCore.Library.Word

/-! The codec workspace of a context (`resource.rs`): a call looks at the destroyed flag and
uses the workspace afterwards, under its lock. -/
namespace Codec

open Kernel Transition

/-- How far a call has come: before the flag, past it, or between the mark of a destroy and
its clear. -/
inductive CodecCall where
  | reserve (bytes : Nat)
  | reserving (bytes : Nat)
  | tryUse
  | using
  | clearing
  deriving DecidableEq, Repr

structure CodecResource where
  workspace : List UInt8
  destroyed : Bool
  calls : List CodecCall

inductive CodecEvent where
  | begin
  | passed
  | refused (failure : KernelError)
  | resized (bytes : Nat)
  | panicked (bytes : Nat)
  | used (bytes : Nat)
  | marked
  | destroyed
  deriving DecidableEq

/-- `Vec::resize` with zeros, where it does not panic. -/
def resize (bytes : List UInt8) (length : Nat) : List UInt8 :=
  bytes.take length ++ List.replicate (length - bytes.length) 0

/-- What a call does once it passed the flag. -/
def CodecCall.admitted? : CodecCall → Option CodecCall
  | reserve bytes => some (.reserving bytes)
  | tryUse => some .using
  | _ => none

namespace CodecResource

def new : CodecResource := ⟨[], false, []⟩

def ensureLive (resource : CodecResource) : Except KernelError Unit :=
  if resource.destroyed then .error (error .contextDestroyed) else .ok ()

inductive Step : CodecResource → CodecEvent → CodecResource → Prop where
  | begin (resource : CodecResource) (call : CodecCall) (hCall : call.admitted?.isSome = true) :
      Step resource .begin { resource with calls := resource.calls ++ [call] }
  | pass {resource : CodecResource} {before after : List CodecCall} {call next : CodecCall}
      (hCalls : resource.calls = before ++ call :: after) (hCall : call.admitted? = some next)
      (hLive : resource.ensureLive = .ok ()) :
      Step resource .passed { resource with calls := before ++ next :: after }
  | refuse {resource : CodecResource} {before after : List CodecCall} {call next : CodecCall}
      {failure : KernelError} (hCalls : resource.calls = before ++ call :: after)
      (hCall : call.admitted? = some next) (hLive : resource.ensureLive = .error failure) :
      Step resource (.refused failure) { resource with calls := before ++ after }
  | resize {resource : CodecResource} {before after : List CodecCall} {bytes : Nat}
      (hCalls : resource.calls = before ++ .reserving bytes :: after)
      (hFits : bytes ≤ Word.maxIsize) :
      Step resource (.resized bytes)
        { resource with
          workspace := resize resource.workspace bytes
          calls := before ++ after }
  -- the lock is poisoned and taken all the same afterwards
  | panic {resource : CodecResource} {before after : List CodecCall} {bytes : Nat}
      (hCalls : resource.calls = before ++ .reserving bytes :: after)
      (hLarge : Word.maxIsize < bytes) :
      Step resource (.panicked bytes) { resource with calls := before ++ after }
  | use {resource : CodecResource} {before after : List CodecCall}
      (hCalls : resource.calls = before ++ .using :: after) :
      Step resource (.used resource.workspace.length) { resource with calls := before ++ after }
  | mark (resource : CodecResource) :
      Step resource .marked
        { resource with destroyed := true, calls := resource.calls ++ [.clearing] }
  | clear {resource : CodecResource} {before after : List CodecCall}
      (hCalls : resource.calls = before ++ .clearing :: after) :
      Step resource .destroyed { resource with workspace := [], calls := before ++ after }

variable {resource resource' : CodecResource} {event : CodecEvent}

/-- No call that may still fill the workspace. -/
def Quiet (resource : CodecResource) : Prop :=
  ∀ bytes, .reserving bytes ∈ resource.calls → bytes = 0 ∨ Word.maxIsize < bytes

/-- The workspace stays empty. -/
def Fences (resource : CodecResource) : Prop :=
  ∀ trace resource', Run Step resource trace resource' → resource'.workspace = []

theorem mem_calls {before after : List CodecCall} {call other : CodecCall}
    (hCalls : resource.calls = before ++ call :: after) (hMem : other ∈ before ++ after) :
    other ∈ resource.calls := by
  rw [hCalls]
  exact ((List.sublist_cons_self call after).append_left before).subset hMem

/-- A clear comes after its mark. -/
def Marked (resource : CodecResource) : Prop := .clearing ∈ resource.calls → resource.destroyed = true

theorem Step.marked (hStep : Step resource event resource') (h : resource.Marked) :
    resource'.Marked := by
  intro hMem
  cases hStep with
  | begin call hCall =>
      rcases List.mem_append.mp hMem with hOld | hNew
      · exact h hOld
      · rw [← List.mem_singleton.mp hNew] at hCall
        cases hCall
  | @pass before after call next hCalls hCall hLive =>
      have hNext : next ≠ .clearing := by
        rintro rfl
        cases call <;> cases hCall
      apply h
      rw [hCalls]
      simp only [List.mem_append, List.mem_cons, hNext.symm, false_or] at hMem ⊢
      exact hMem.imp_right Or.inr
  | mark => rfl
  | refuse hCalls => exact h (mem_calls hCalls hMem)
  | resize hCalls => exact h (mem_calls hCalls hMem)
  | panic hCalls => exact h (mem_calls hCalls hMem)
  | use hCalls => exact h (mem_calls hCalls hMem)
  | clear hCalls => exact h (mem_calls hCalls hMem)

end CodecResource

namespace CodecCall

def isReserving : CodecCall → Bool
  | reserving _ => true
  | _ => false

end CodecCall

def CodecEvent.isResized : CodecEvent → Bool
  | resized _ => true
  | _ => false

namespace CodecResource

variable {resource resource' : CodecResource} {event : CodecEvent}

theorem countP_calls {before after : List CodecCall} {call : CodecCall}
    (hCalls : resource.calls = before ++ call :: after) :
    resource.calls.countP CodecCall.isReserving =
      (before ++ after).countP CodecCall.isReserving + if call.isReserving then 1 else 0 := by
  rw [hCalls, List.countP_append, List.countP_append, List.countP_cons]
  omega

/-- A destroyed resource admits no call, and each reservation that is past the flag resizes
the workspace at most once. -/
theorem Step.destroyed (hStep : Step resource event resource')
    (h : resource.destroyed = true) :
    resource'.destroyed = true ∧ event ≠ .passed ∧
      resource'.calls.countP CodecCall.isReserving + (if event.isResized then 1 else 0) ≤
        resource.calls.countP CodecCall.isReserving ∧
      (resource.Quiet → resource'.Quiet) := by
  cases hStep with
  | pass hCalls hCall hLive =>
      rw [ensureLive, h] at hLive
      cases hLive
  | begin call hCall =>
      have hBegun : call.isReserving = false := by
        cases call with
        | reserving => cases hCall
        | _ => rfl
      refine ⟨h, nofun, ?_, fun hQuiet bytes hMem => ?_⟩
      · simp [hBegun, CodecEvent.isResized]
      · rcases List.mem_append.mp hMem with hOld | hNew
        · exact hQuiet bytes hOld
        · rw [← List.mem_singleton.mp hNew] at hBegun
          cases hBegun
  | mark =>
      refine ⟨rfl, nofun, ?_, fun hQuiet bytes hMem => hQuiet bytes ?_⟩
      · simp [CodecCall.isReserving, CodecEvent.isResized]
      · simpa using hMem
  | refuse hCalls hCall =>
      refine ⟨h, nofun, ?_, fun hQuiet bytes hMem => hQuiet bytes (mem_calls hCalls hMem)⟩
      exact (Nat.le_add_right _ _).trans_eq (countP_calls hCalls).symm
  | resize hCalls =>
      refine ⟨h, nofun, ?_, fun hQuiet bytes hMem => hQuiet bytes (mem_calls hCalls hMem)⟩
      exact Nat.le_of_eq (countP_calls hCalls).symm
  | panic hCalls =>
      refine ⟨h, nofun, ?_, fun hQuiet bytes hMem => hQuiet bytes (mem_calls hCalls hMem)⟩
      exact (Nat.le_add_right _ _).trans_eq (countP_calls hCalls).symm
  | use hCalls =>
      refine ⟨h, nofun, ?_, fun hQuiet bytes hMem => hQuiet bytes (mem_calls hCalls hMem)⟩
      exact Nat.le_of_eq (countP_calls hCalls).symm
  | clear hCalls =>
      refine ⟨h, nofun, ?_, fun hQuiet bytes hMem => hQuiet bytes (mem_calls hCalls hMem)⟩
      exact Nat.le_of_eq (countP_calls hCalls).symm

/-- Without a pending reservation an empty workspace stays so. -/
theorem Step.empty (hStep : Step resource event resource') (hQuiet : resource.Quiet)
    (h : resource.workspace = []) : resource'.workspace = [] := by
  cases hStep with
  | @resize before after bytes hCalls hFits =>
      have hNone : bytes = 0 :=
        (hQuiet bytes (by simp [hCalls])).resolve_right (Nat.not_lt.mpr hFits)
      rw [h, hNone]
      rfl
  | clear => rfl
  | _ => exact h

theorem destroyed_run {trace : List CodecEvent} (run : Run Step resource trace resource')
    (h : resource.destroyed = true) :
    .passed ∉ trace ∧ trace.countP CodecEvent.isResized ≤
      resource.calls.countP CodecCall.isReserving := by
  constructor
  · intro hMem
    obtain ⟨before, after, rfl⟩ := List.append_of_mem hMem
    obtain ⟨first, second, hBefore, hStep, -⟩ := run.at
    have hStill := hBefore.preserves (fun resource => resource.destroyed = true)
      (fun _ _ _ hMarked hStep => (hStep.destroyed hMarked).1) h
    exact (hStep.destroyed hStill).2.1 rfl
  · have hSpent := run.spends (fun resource => resource.destroyed = true) CodecEvent.isResized
      (fun resource => resource.calls.countP CodecCall.isReserving)
      (fun _ _ _ hMarked hStep =>
        ⟨(hStep.destroyed hMarked).1, (hStep.destroyed hMarked).2.2.1⟩) h
    omega

theorem fences_of_quiet (hMarked : resource.destroyed = true) (hQuiet : resource.Quiet)
    (hEmpty : resource.workspace = []) : resource.Fences := by
  intro trace resource' run
  refine (run.preserves (fun resource => resource.destroyed = true ∧ resource.Quiet ∧
    resource.workspace = []) ?_ ⟨hMarked, hQuiet, hEmpty⟩).2.2
  intro resource event next ⟨hMarked, hQuiet, hEmpty⟩ hStep
  obtain ⟨hStill, -, -, hQuietNext⟩ := hStep.destroyed hMarked
  exact ⟨hStill, hQuietNext hQuiet, hStep.empty hQuiet hEmpty⟩

theorem marked_run {trace : List CodecEvent} (run : Run Step new trace resource) :
    resource.Marked :=
  run.preserves Marked (fun _ _ _ h hStep => hStep.marked h) (fun hMem => by cases hMem)

/-- `destroy` empties the workspace for good exactly if no reservation of some bytes that an
allocation can have had passed the destroyed flag and not been made. In any case no call passes the
flag afterwards, and each pending reservation is made at most once. -/
theorem destroy_empties_iff {trace : List CodecEvent} (run : Run Step new trace resource)
    (hStep : Step resource .destroyed resource') :
    (resource'.Fences ↔ resource.Quiet) ∧
    ∀ later resource'', Run Step resource' later resource'' → .passed ∉ later ∧
      later.countP CodecEvent.isResized ≤ resource.calls.countP CodecCall.isReserving := by
  have hMarked : resource.destroyed = true := by
    cases hStep with
    | clear hCalls => exact marked_run run (by simp [hCalls])
  obtain ⟨hStill, -, hCount, hQuiet⟩ := hStep.destroyed hMarked
  refine ⟨⟨fun hFences bytes hMem => ?_, fun h => ?_⟩, fun later resource'' hLater => ?_⟩
  · by_contra hPending
    obtain ⟨hBytes, hFits⟩ := not_or.mp hPending
    cases hStep with
    | @clear before after hCalls =>
        have hLeft : .reserving bytes ∈ before ++ after := by
          rw [hCalls] at hMem
          simpa using hMem
        obtain ⟨front, back, hSplit⟩ := List.append_of_mem hLeft
        have hEmpty := hFences _ _ (.single (.resize hSplit (Nat.le_of_not_lt hFits)))
        simp [resize] at hEmpty
        exact hBytes hEmpty
  · refine fences_of_quiet hStill (hQuiet h) ?_
    cases hStep with
    | clear => rfl
  · obtain ⟨hNone, hResized⟩ := destroyed_run hLater hStill
    exact ⟨hNone, hResized.trans (le_of_add_le_left hCount)⟩

/-- A reservation that is under way fills the workspace of a destroyed resource, unless it is so
large that it panics. -/
theorem destroy_empties_iff_late :
    (∃ resource resource', Step resource .destroyed resource' ∧
      resource.calls = [.reserving 16, .clearing] ∧ ¬resource'.Fences) ∧
    ∃ resource resource', Step resource .destroyed resource' ∧
      resource.calls = [.reserving (2 ^ 63), .clearing] ∧ resource'.Fences := by
  have run (bytes : Nat) := Run.snoc (Run.snoc (Run.snoc (Run.nil new)
    (.begin _ (.reserve bytes) rfl))
    (@Step.pass _ [] [] _ _ rfl rfl rfl))
    (.mark _)
  have hStep (bytes : Nat) : Step ⟨[], true, [.reserving bytes, .clearing]⟩ .destroyed _ :=
    @Step.clear _ [.reserving bytes] [] rfl
  refine ⟨⟨_, _, hStep 16, rfl, fun hFences => ?_⟩, _, _, hStep (2 ^ 63), rfl, ?_⟩
  · have hQuiet := (destroy_empties_iff (run 16) (hStep 16)).1.mp hFences 16 List.mem_cons_self
    exact absurd hQuiet (by decide)
  · refine (destroy_empties_iff (run (2 ^ 63)) (hStep (2 ^ 63))).1.mpr fun bytes hMem => ?_
    have hBytes : bytes = 2 ^ 63 := by simpa using hMem
    rw [hBytes]
    decide

end CodecResource
end Codec

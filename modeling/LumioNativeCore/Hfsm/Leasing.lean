import LumioNativeCore.Hfsm.Fence

/-! What the registry of definitions hands out: the definition that was compiled for a handle,
as long as the handle is live in its arena. -/
namespace Hfsm

open Kernel Transition

/-- What an access to a live handle finds. -/
def Access.found (def_ : CompiledDefinition) : Access → Accessed
  | .lease => .leased def_
  | .inspect => .inspected (.of def_)
  | .release => .released

/-- The definition that a step leases. -/
def RegistryEvent.leased : RegistryEvent → List CompiledDefinition
  | .accessed _ _ (.ok (.leased def_)) => [def_]
  | _ => []

theorem mem_leased {event : RegistryEvent} {def_ : CompiledDefinition} :
    def_ ∈ event.leased ↔ ∃ kind handle, event = .accessed kind handle (.ok (.leased def_)) := by
  rw [RegistryEvent.leased.eq_def]
  split
  · simp [eq_comm]
  · simp_all

/-- What a step shows of what it does to the arena. -/
inductive Shows (limits : HfsmLimits) : RegistryEvent → Option (ArenaEvent CompiledDefinition) →
    Prop where
  | create (spec : DefinitionSpec) (def_ : CompiledDefinition)
      (result : Except KernelError HandleKey) (hCompile : compile spec limits = .ok def_) :
      Shows limits (.inserted (result.mapError handleErr)) (some (.insert def_ result))
  | release (handle : HandleKey) (result : Except KernelError CompiledDefinition) :
      Shows limits (.accessed .release handle ((result.mapError handleErr).map fun _ => .released))
        (some (.remove handle result))
  | destroy (payloads : List CompiledDefinition) :
      Shows limits .destroyed (some (.drainOccupied payloads))
  | lease (handle : HandleKey) (result : Except HfsmError Accessed) :
      Shows limits (.accessed .lease handle result) none
  | inspect (handle : HandleKey) (result : Except HfsmError Accessed) :
      Shows limits (.accessed .inspect handle result) none
  | step : Shows limits .step none
  | refused (failure : HfsmError) : Shows limits (.refused failure) none
  | cancelRequested : Shows limits .cancelRequested none

/-- The calls of the arena among what is shown. -/
def arenaCalls (shown : List (RegistryEvent × Option (ArenaEvent CompiledDefinition))) :
    List (ArenaEvent CompiledDefinition) := shown.filterMap Prod.snd

theorem arenaCalls_snoc (shown : List (RegistryEvent × Option (ArenaEvent CompiledDefinition)))
    (entry : RegistryEvent × Option (ArenaEvent CompiledDefinition)) :
    arenaCalls (shown ++ [entry]) = arenaCalls shown ++ entry.2.toList := by
  rw [arenaCalls, arenaCalls, List.filterMap_append]
  cases hEntry : entry.2 with
  | none => simp [hEntry]
  | some event => simp [hEntry]

namespace HfsmDefinitionRegistry

variable {capacity : Nat} {reg reg' : HfsmDefinitionRegistry capacity} {event : RegistryEvent}

/-- A definition that waits for its insertion has been compiled. -/
def Compiles (reg : HfsmDefinitionRegistry capacity) : Prop :=
  ∀ call def_, reg.calls call = .compiled def_ → ∃ spec, compile spec reg.limits = .ok def_

theorem Compiles.setCall (h : reg.Compiles) (call : Nat) {next : RegistryCall}
    (hNext : ∀ def_, next = .compiled def_ → ∃ spec, compile spec reg.limits = .ok def_) :
    (reg.setCall call next).Compiles := by
  intro other def_ hOther
  change Function.update reg.calls call next other = .compiled def_ at hOther
  by_cases hSame : other = call
  · rw [hSame, Function.update_self] at hOther
    exact hNext def_ hOther
  · rw [Function.update_of_ne hSame] at hOther
    exact h other def_ hOther

/-- An access finds what the arena holds under the handle. -/
theorem access_eq_ok (kind : Access) (handle : HandleKey) (accessed : Accessed) :
    (reg.access kind handle).1 = .ok accessed ↔
      ∃ def_, reg.arena.get handle = .ok def_ ∧ accessed = kind.found def_ := by
  cases kind with
  | lease =>
      rw [HfsmDefinitionRegistry.access]
      cases reg.arena.get handle with
      | error failure => simp
      | ok def_ => simp [Access.found, eq_comm]
  | inspect =>
      rw [HfsmDefinitionRegistry.access]
      cases reg.arena.get handle with
      | error failure => simp
      | ok def_ => simp [Access.found, eq_comm]
  | release =>
      rw [HfsmDefinitionRegistry.access, HandleArena.remove_result]
      cases reg.arena.get handle with
      | error failure => simp [Except.mapError, Except.map]
      | ok def_ => simp [Access.found, Except.mapError, Except.map, eq_comm]

/-- Only a lease writes `leases`, and only a release writes the arena. -/
theorem access_shows (kind : Access) (handle : HandleKey) :
    ∃ effect, Shows reg.limits (.accessed kind handle (reg.access kind handle).1) effect ∧
      Run HandleArena.Step reg.arena effect.toList (reg.access kind handle).2.arena ∧
      (reg.access kind handle).2.limits = reg.limits ∧
      (reg.access kind handle).2.leases =
        reg.leases ++ (RegistryEvent.accessed kind handle (reg.access kind handle).1).leased := by
  cases kind with
  | lease =>
      refine ⟨none, .lease handle _, ?_⟩
      rw [HfsmDefinitionRegistry.access]
      cases reg.arena.get handle with
      | error failure => exact ⟨.nil _, rfl, (List.append_nil _).symm⟩
      | ok def_ => exact ⟨.nil _, rfl, rfl⟩
  | inspect =>
      refine ⟨none, .inspect handle _, ?_⟩
      rw [HfsmDefinitionRegistry.access]
      cases reg.arena.get handle with
      | error failure => exact ⟨.nil _, rfl, (List.append_nil _).symm⟩
      | ok def_ => exact ⟨.nil _, rfl, (List.append_nil _).symm⟩
  | release =>
      refine ⟨some _, .release handle _, .single (.remove _ handle), rfl, ?_⟩
      rw [HfsmDefinitionRegistry.access]
      cases (reg.arena.remove handle).1 with
      | error failure => exact (List.append_nil _).symm
      | ok def_ => exact (List.append_nil _).symm

/-- What a step shows of what it does. -/
theorem Step.shows (hStep : Step reg event reg') (h : reg.Compiles) :
    reg'.limits = reg.limits ∧ reg'.Compiles ∧ reg'.leases = reg.leases ++ event.leased ∧
      ∃ effect, Shows reg.limits event effect ∧
        Run HandleArena.Step reg.arena effect.toList reg'.arena := by
  have hQuiet : ∀ (reg : HfsmDefinitionRegistry capacity), Run HandleArena.Step reg.arena
      (none : Option (ArenaEvent CompiledDefinition)).toList reg.arena := fun reg => .nil _
  have hNone : reg.leases = reg.leases ++ [] := (List.append_nil _).symm
  cases hStep with
  | begin call next hCall hNext =>
      refine ⟨rfl, h.setCall call fun def_ hSame => ?_, hNone, none, .step, hQuiet reg⟩
      rcases hNext with ⟨spec, rfl⟩ | ⟨kind, handle, rfl⟩
      · cases hSame
      · cases hSame
  | compile call spec def_ hCall hCompile =>
      refine ⟨rfl, h.setCall call fun found hSame => ?_, hNone, none, .step, hQuiet reg⟩
      obtain rfl := RegistryCall.compiled.inj hSame
      exact ⟨spec, hCompile⟩
  | insert call def_ hCall =>
      obtain ⟨spec, hCompile⟩ := h call def_ hCall
      have hBefore : (reg.insert def_).2.Compiles := h
      exact ⟨rfl, hBefore.setCall call fun _ hSame => (by cases hSame), hNone, some _,
        .create spec def_ _ hCompile, .single (.insert _ def_)⟩
  | access call kind handle hCall =>
      obtain ⟨effect, hShows, hRun, hLimits, hLeases⟩ := reg.access_shows kind handle
      have hBefore : (reg.access kind handle).2.Compiles := by
        intro other def_ hOther
        rw [(reg.access_frame kind handle).1] at hOther
        rw [hLimits]
        exact h other def_ hOther
      exact ⟨hLimits, hBefore.setCall call fun _ hSame => (by cases hSame), hLeases, effect, hShows,
        hRun⟩
  | cancelRequested => exact ⟨rfl, h, hNone, none, .cancelRequested, hQuiet reg⟩
  | destroyMark call hCall =>
      have hIdle : (reg.setCall call .destroying).Compiles :=
        h.setCall call fun _ hSame => (by cases hSame)
      exact ⟨rfl, hIdle, hNone, none, .step, hQuiet reg⟩
  | destroyRetire call hCall =>
      have hBefore : reg.retireAll.Compiles := h
      exact ⟨rfl, hBefore.setCall call fun _ hSame => (by cases hSame), hNone, some _,
        .destroy _, .single (.drainOccupied _)⟩
  | createDestroyed call spec failure hCall hLive =>
      exact ⟨rfl, h.setCall call fun _ hSame => (by cases hSame), hNone, none, .refused failure,
        hQuiet reg⟩
  | createClosing call spec failure hCall hOpen =>
      exact ⟨rfl, h.setCall call fun _ hSame => (by cases hSame), hNone, none, .refused failure,
        hQuiet reg⟩
  | compileError call spec failure hCall hCompile =>
      exact ⟨rfl, h.setCall call fun _ hSame => (by cases hSame), hNone, none, .refused _,
        hQuiet reg⟩
  | accessDestroyed call kind handle failure hCall hLive =>
      exact ⟨rfl, h.setCall call fun _ hSame => (by cases hSame), hNone, none, .refused failure,
        hQuiet reg⟩
  | _ =>
      exact ⟨rfl, h.setCall _ fun _ hSame => (by cases hSame), hNone, none, .step, hQuiet reg⟩

/-- A step with what it does to the arena. -/
structure ShownStep (reg : HfsmDefinitionRegistry capacity)
    (entry : RegistryEvent × Option (ArenaEvent CompiledDefinition))
    (reg' : HfsmDefinitionRegistry capacity) : Prop where
  step : Step reg entry.1 reg'
  shows : Shows reg.limits entry.1 entry.2
  arena : Run HandleArena.Step reg.arena entry.2.toList reg'.arena

/-- What holds of a registry between any two steps. -/
structure Showing (context : ContextKey) (capacity : UInt32) (limits : HfsmLimits)
    (shown : List (RegistryEvent × Option (ArenaEvent CompiledDefinition)))
    (reg : HfsmDefinitionRegistry capacity.toNat) : Prop where
  limits_eq : reg.limits = limits
  compiles : reg.Compiles
  shows : ∀ entry ∈ shown, Shows limits entry.1 entry.2
  arena : Run HandleArena.Step (.withCapacity context capacity CompiledDefinition)
    (arenaCalls shown) reg.arena
  leases : reg.leases = shown.flatMap fun entry => entry.1.leased

section Runs

variable {context : ContextKey} {capacity : UInt32} {limits : HfsmLimits}
  {reg reg' : HfsmDefinitionRegistry capacity.toNat} {trace : List RegistryEvent}
  {shown : List (RegistryEvent × Option (ArenaEvent CompiledDefinition))}
  {entry : RegistryEvent × Option (ArenaEvent CompiledDefinition)}

theorem showing_new : Showing context capacity limits [] (new context capacity limits) where
  limits_eq := rfl
  compiles _ _ hCall := by cases hCall
  shows _ hMem := absurd hMem List.not_mem_nil
  arena := .nil _
  leases := rfl

theorem Showing.step (h : Showing context capacity limits shown reg)
    (hStep : ShownStep reg entry reg') :
    Showing context capacity limits (shown ++ [entry]) reg' := by
  obtain ⟨hStep, hShows, hArena⟩ := hStep
  obtain ⟨hLimits, hCompiles, hLeases, -⟩ := hStep.shows h.compiles
  refine ⟨hLimits.trans h.limits_eq, hCompiles, ?_, ?_, ?_⟩
  · intro other hOther
    rcases List.mem_append.mp hOther with hOld | hNew
    · exact h.shows other hOld
    · rw [List.mem_singleton.mp hNew, ← h.limits_eq]
      exact hShows
  · rw [arenaCalls_snoc]
    exact h.arena.trans hArena
  · rw [hLeases, h.leases, List.flatMap_append, List.flatMap_singleton]

theorem Showing.of_run (run : Run ShownStep (new context capacity limits) shown reg) :
    Showing context capacity limits shown reg :=
  run.invariant (Showing context capacity limits) showing_new fun _ _ _ _ h => h.step

/-- Every run can be shown. -/
theorem shown_of_run (run : Run Step (new context capacity limits) trace reg) :
    ∃ shown, shown.map Prod.fst = trace ∧
      Run ShownStep (new context capacity limits) shown reg := by
  induction run with
  | nil => exact ⟨[], rfl, .nil _⟩
  | @snoc middle last trace event prior hStep ih =>
      obtain ⟨shown, hTrace, hShown⟩ := ih
      obtain ⟨-, -, -, effect, hShows, hArena⟩ := hStep.shows (Showing.of_run hShown).compiles
      refine ⟨shown ++ [(event, effect)], ?_, hShown.snoc ⟨hStep, hShows, hArena⟩⟩
      rw [List.map_append, hTrace]
      rfl

/-- What is inserted into the arena was compiled from a specification. -/
theorem Showing.inserted (h : Showing context capacity limits shown reg) {def_ : CompiledDefinition}
    {result : Except KernelError HandleKey} (hMem : .insert def_ result ∈ arenaCalls shown) :
    ∃ spec, compile spec limits = .ok def_ := by
  obtain ⟨⟨event, effect⟩, hEntry, rfl⟩ := List.mem_filterMap.mp hMem
  have hShows := h.shows _ hEntry
  cases hShows with
  | create spec def_ result hCompile => exact ⟨spec, hCompile⟩

/-- An access answers with what is live under its handle. -/
theorem Showing.accessed (h : Showing context capacity limits shown reg) {kind : Access}
    {handle : HandleKey} {result : Except HfsmError Accessed}
    (hStep : Step reg (.accessed kind handle result) reg') (found : Accessed) :
    result = .ok found ↔
      ∃ def_, HandleArena.LiveIn (arenaCalls shown) handle def_ ∧ found = kind.found def_ := by
  cases hStep with
  | access call _ _ hCall =>
      have tracks := HandleArena.Tracks.of_run h.arena
      rw [access_eq_ok]
      exact exists_congr fun def_ => and_congr_left fun _ => tracks.get_eq_ok handle def_

/-- A definition that is leased was compiled from a specification. -/
theorem Showing.leased (h : Showing context capacity limits shown reg) {kind : Access}
    {handle : HandleKey} {def_ : CompiledDefinition}
    (hStep : Step reg (.accessed kind handle (.ok (.leased def_))) reg') :
    ∃ spec, compile spec limits = .ok def_ := by
  obtain ⟨found, hLive, hFound⟩ := (h.accessed hStep _).mp rfl
  have hSame : def_ = found := by
    cases kind with
    | lease => exact Accessed.leased.inj hFound
    | inspect => cases hFound
    | release => cases hFound
  subst hSame
  obtain ⟨before, event, after, hCalls, rfl, -⟩ := hLive
  have hMem : ArenaEvent.insert def_ (.ok handle) ∈ arenaCalls shown := by
    rw [hCalls]
    exact List.mem_append_right _ List.mem_cons_self
  exact h.inserted hMem

/-- The registry hands out what it has compiled. Every run can be shown with its steps on the
arena, and however it is shown these are a run of the arena in which only compiled definitions are
inserted; a lease, an inspection or a release that passed the destroyed flag is granted exactly
while its handle is live there, a lease with the very definition that was inserted under the handle
and an inspection with its numbers, whatever has been created, released or destroyed in between. A
call that is refused before does nothing. All leases that were ever granted are still held, in
order. -/
theorem leases_compiled (context : ContextKey) (capacity : UInt32) (limits : HfsmLimits) :
    (∀ trace reg, Run Step (new context capacity limits) trace reg →
      ∃ shown, shown.map Prod.fst = trace ∧
        Run ShownStep (new context capacity limits) shown reg) ∧
    ∀ shown reg, Run ShownStep (new context capacity limits) shown reg →
      Run HandleArena.Step (.withCapacity context capacity CompiledDefinition)
        (arenaCalls shown) reg.arena ∧
      (∀ def_ result, .insert def_ result ∈ arenaCalls shown →
        ∃ spec, compile spec limits = .ok def_) ∧
      (∀ before kind handle result effect after,
        shown = before ++ (.accessed kind handle result, effect) :: after → ∀ found,
          result = .ok found ↔ ∃ def_,
            HandleArena.LiveIn (arenaCalls before) handle def_ ∧ found = kind.found def_) ∧
      (∀ failure effect, (.refused failure, effect) ∈ shown → effect = none) ∧
      reg.leases = shown.flatMap (fun entry => entry.1.leased) ∧
      ∀ def_ ∈ reg.leases, ∃ spec, compile spec limits = .ok def_ := by
  refine ⟨fun trace reg run => shown_of_run run, fun shown reg hShown => ?_⟩
  have hShowing := Showing.of_run hShown
  refine ⟨hShowing.arena, fun def_ result hMem => hShowing.inserted hMem, ?_, ?_,
    hShowing.leases, ?_⟩
  · rintro before kind handle result effect after rfl found
    obtain ⟨first, second, hBefore, hStep, -⟩ := hShown.at
    exact (Showing.of_run hBefore).accessed hStep.step found
  · intro failure effect hMem
    cases hShowing.shows _ hMem with
    | refused => rfl
  · intro def_ hLease
    rw [hShowing.leases] at hLease
    obtain ⟨⟨event, effect⟩, hEntry, hLeased⟩ := List.mem_flatMap.mp hLease
    obtain ⟨before, after, rfl⟩ := List.append_of_mem hEntry
    obtain ⟨first, second, hBefore, hStep, -⟩ := hShown.at
    obtain ⟨kind, handle, rfl⟩ := mem_leased.mp hLeased
    exact (Showing.of_run hBefore).leased hStep.step

end Runs

/-- A definition is created and leased. -/
theorem leases_compiled_one :
    ∃ shown reg, Run ShownStep (new ⟨1⟩ 1 .default) shown reg ∧ boundaryDefinition ∈ reg.leases ∧
      ∃ spec, compile spec .default = .ok boundaryDefinition := by
  have hCreated : Run Step (new ⟨1⟩ 1 .default) _ _ := .snoc (.snoc (.snoc (.snoc (.snoc (.nil _)
    (.begin _ 0 (.create boundarySpec) rfl (Or.inl ⟨_, rfl⟩)))
    (.createLive _ 0 boundarySpec rfl rfl))
    (.createOpen _ 0 boundarySpec rfl rfl))
    (.compile _ 0 boundarySpec boundaryDefinition rfl compile_boundarySpec))
    (.insert _ 0 boundaryDefinition rfl)
  have hLeased := Run.snoc (.snoc (.snoc hCreated
    (.begin _ 1 (.access .lease ⟨⟨1⟩, ⟨0⟩, ⟨1⟩⟩) rfl (Or.inr ⟨_, _, rfl⟩)))
    (.accessLive _ 1 .lease ⟨⟨1⟩, ⟨0⟩, ⟨1⟩⟩ rfl rfl))
    (.access _ 1 .lease ⟨⟨1⟩, ⟨0⟩, ⟨1⟩⟩ rfl)
  obtain ⟨hEvery, hShows⟩ := leases_compiled ⟨1⟩ 1 .default
  obtain ⟨shown, -, hShown⟩ := hEvery _ _ hLeased
  have hLease := List.mem_singleton_self boundaryDefinition
  exact ⟨shown, _, hShown, hLease, (hShows shown _ hShown).2.2.2.2.2 boundaryDefinition hLease⟩

end HfsmDefinitionRegistry
end Hfsm

import LumioNativeCore.Hfsm.Registry
import LumioNativeCore.Hfsm.Conformance
import LumioNativeCore.Kernel.Handle.Capability

/-! When the destruction of a registry is a fence. `create` does not look at the flags
again under the arena lock, so a definition that is being compiled while the arena is
retired is inserted afterwards. -/
namespace Hfsm

open Kernel Transition

/-- A create whose definition compiles and that may still insert it: before its closing check as
long as the flag is not up, after that check whatever happens to the flags. -/
def RegistryCall.Threatens (limits : HfsmLimits) (closing : Bool) : RegistryCall → Prop
  | createLive spec => closing = false ∧ ∃ def_, compile spec limits = .ok def_
  | compiling spec => ∃ def_, compile spec limits = .ok def_
  | compiled _ => True
  | _ => False

namespace HfsmDefinitionRegistry

variable {capacity : Nat} {reg reg' : HfsmDefinitionRegistry capacity} {event : RegistryEvent}

/-- No call will insert, or no slot is left to insert into. -/
def Unthreatened (reg : HfsmDefinitionRegistry capacity) : Prop :=
  (∀ call, ¬(reg.calls call).Threatens reg.limits reg.closing) ∨ reg.arena.free = []

structure Fenced (reg : HfsmDefinitionRegistry capacity) : Prop where
  destroyed : reg.destroyed = true
  empty : ∀ index, (reg.arena.slots index).value = none
  unthreatened : reg.Unthreatened

/-- Nothing is handed out any more. -/
def RegistryEvent.Denied : RegistryEvent → Prop
  | .inserted result => ∃ failure, result = .error failure
  | .accessed _ _ result => ∃ failure, result = .error failure
  | _ => True

theorem Unthreatened.setCall (h : reg.Unthreatened) (call : Nat) {next : RegistryCall}
    (hNext : next.Threatens reg.limits reg.closing →
      (reg.calls call).Threatens reg.limits reg.closing) :
    (reg.setCall call next).Unthreatened := by
  rcases h with hNone | hFull
  · apply Or.inl
    intro other
    show ¬(Function.update reg.calls call next other).Threatens _ _
    by_cases hSame : other = call
    · rw [hSame, Function.update_self]
      exact fun hThreat => hNone call (hNext hThreat)
    · rw [Function.update_of_ne hSame]
      exact hNone other
  · exact Or.inr hFull

theorem Fenced.setCall (h : reg.Fenced) (call : Nat) {next : RegistryCall}
    (hNext : next.Threatens reg.limits reg.closing →
      (reg.calls call).Threatens reg.limits reg.closing) : (reg.setCall call next).Fenced where
  destroyed := h.destroyed
  empty := h.empty
  unthreatened := h.unthreatened.setCall call hNext

theorem Fenced.ensureLive (h : reg.Fenced) :
    reg.ensureLive = .error (.handle .contextDestroyed) := by
  rw [HfsmDefinitionRegistry.ensureLive, h.destroyed]
  rfl

/-- An access to a fenced registry finds nothing. -/
theorem Fenced.access (h : reg.Fenced) (kind : Access) (handle : HandleKey) :
    ∃ failure, reg.access kind handle = (.error failure, reg) := by
  obtain ⟨failure, hResolve⟩ := HandleArena.resolve_empty h.empty handle
  have hGet : reg.arena.get handle = .error failure := by
    rw [HandleArena.get, hResolve]
    rfl
  cases kind with
  | lease => exact ⟨handleErr failure, by rw [HfsmDefinitionRegistry.access, hGet]⟩
  | inspect => exact ⟨handleErr failure, by rw [HfsmDefinitionRegistry.access, hGet]⟩
  | release =>
      refine ⟨handleErr failure, ?_⟩
      rw [HfsmDefinitionRegistry.access, HandleArena.remove, hResolve]
      rfl

theorem Fenced.step (h : reg.Fenced) (hStep : Step reg event reg') :
    reg'.Fenced ∧ RegistryEvent.Denied event := by
  cases hStep with
  | begin call next hCall hNext =>
      refine ⟨h.setCall call fun hThreat => ?_, trivial⟩
      rcases hNext with ⟨spec, rfl⟩ | ⟨kind, handle, rfl⟩
      · exact hThreat.elim
      · exact hThreat.elim
  | createLive call spec hCall hLive =>
      rw [h.ensureLive] at hLive
      cases hLive
  | createDestroyed call spec failure hCall hLive =>
      exact ⟨h.setCall call fun hThreat => hThreat.elim, trivial⟩
  | createOpen call spec hCall hOpen =>
      refine ⟨h.setCall call fun hThreat => ?_, trivial⟩
      rw [hCall]
      refine ⟨?_, hThreat⟩
      rw [ensureOpen] at hOpen
      split_ifs at hOpen with hClosing
      exact Bool.eq_false_iff.mpr hClosing
  | createClosing call spec failure hCall hOpen =>
      exact ⟨h.setCall call fun hThreat => hThreat.elim, trivial⟩
  | compile call spec def_ hCall hCompile =>
      refine ⟨h.setCall call fun _ => ?_, trivial⟩
      rw [hCall]
      exact ⟨def_, hCompile⟩
  | compileError call spec failure hCall hCompile =>
      exact ⟨h.setCall call fun hThreat => hThreat.elim, trivial⟩
  | insert call def_ hCall =>
      rcases h.unthreatened with hNone | hFull
      · have hThreat := hNone call
        rw [hCall] at hThreat
        exact absurd trivial hThreat
      · have hInsert : reg.insert def_ =
            (.error (.handle .capacityExceeded), reg) := by
          rw [HfsmDefinitionRegistry.insert, HandleArena.insert, hFull]
          rfl
        rw [hInsert]
        exact ⟨h.setCall call fun hThreat => hThreat.elim, _, rfl⟩
  | accessLive call kind handle hCall hLive =>
      rw [h.ensureLive] at hLive
      cases hLive
  | accessDestroyed call kind handle failure hCall hLive =>
      exact ⟨h.setCall call fun hThreat => hThreat.elim, trivial⟩
  | access call kind handle hCall =>
      obtain ⟨failure, hAccess⟩ := h.access kind handle
      rw [hAccess]
      exact ⟨h.setCall call fun hThreat => hThreat.elim, failure, rfl⟩
  | cancelRequested =>
      refine ⟨⟨h.destroyed, h.empty, ?_⟩, trivial⟩
      rcases h.unthreatened with hNone | hFull
      · apply Or.inl
        intro call hThreat
        apply hNone call
        show (reg.calls call).Threatens reg.limits reg.closing
        change (reg.calls call).Threatens reg.limits true at hThreat
        cases hCall : reg.calls call with
        | createLive spec =>
            rw [hCall] at hThreat
            cases hThreat.1
        | compiling spec =>
            rw [hCall] at hThreat
            exact hThreat
        | compiled def_ => exact trivial
        | _ =>
            rw [hCall] at hThreat
            exact hThreat.elim
      · exact Or.inr hFull
  | destroyMark call hCall =>
      refine ⟨?_, trivial⟩
      have hSet : (reg.setCall call .destroying).Fenced :=
        h.setCall call fun hThreat => hThreat.elim
      exact ⟨rfl, hSet.empty, hSet.unthreatened⟩
  | destroyRetire call hCall =>
      have hSame : reg.retireAll = reg := by
        rw [retireAll, HandleArena.drainOccupied_empty h.empty]
      rw [hSame]
      exact ⟨h.setCall call fun hThreat => hThreat.elim, trivial⟩

theorem Fenced.run {trace : List RegistryEvent} (h : reg.Fenced) (run : Run Step reg trace reg') :
    reg'.Fenced ∧ ∀ event ∈ trace, RegistryEvent.Denied event := by
  apply run.invariant fun trace reg' => reg'.Fenced ∧ ∀ event ∈ trace, RegistryEvent.Denied event
  · exact ⟨h, fun _ hMem => absurd hMem List.not_mem_nil⟩
  · intro trace reg event reg' ⟨hFenced, hDenied⟩ hStep
    obtain ⟨hNext, hEvent⟩ := hFenced.step hStep
    refine ⟨hNext, fun later hMem => ?_⟩
    rcases List.mem_append.mp hMem with hOld | hNew
    · exact hDenied later hOld
    · rw [List.mem_singleton.mp hNew]
      exact hEvent

/-! Any run. -/

/-- A destroy that is under way has set its flag, which is never reset. -/
def Marked (reg : HfsmDefinitionRegistry capacity) : Prop :=
  ∀ call, reg.calls call = .destroying → reg.destroyed = true

theorem Marked.setCall (h : reg.Marked) (call : Nat) {next : RegistryCall}
    (hNext : next ≠ .destroying) : (reg.setCall call next).Marked := by
  intro other hOther
  change Function.update reg.calls call next other = .destroying at hOther
  by_cases hSame : other = call
  · rw [hSame, Function.update_self] at hOther
    exact absurd hOther hNext
  · rw [Function.update_of_ne hSame] at hOther
    exact h other hOther

/-- Only a lease writes `leases`, and only at the end. -/
theorem access_frame (reg : HfsmDefinitionRegistry capacity) (kind : Access) (handle : HandleKey) :
    (reg.access kind handle).2.calls = reg.calls ∧
      (reg.access kind handle).2.destroyed = reg.destroyed ∧
      reg.leases <+: (reg.access kind handle).2.leases := by
  cases kind with
  | lease =>
      rw [HfsmDefinitionRegistry.access]
      cases reg.arena.get handle with
      | error failure => exact ⟨rfl, rfl, List.prefix_rfl⟩
      | ok def_ => exact ⟨rfl, rfl, List.prefix_append _ _⟩
  | inspect =>
      rw [HfsmDefinitionRegistry.access]
      cases reg.arena.get handle with
      | error failure => exact ⟨rfl, rfl, List.prefix_rfl⟩
      | ok def_ => exact ⟨rfl, rfl, List.prefix_rfl⟩
  | release => exact ⟨rfl, rfl, List.prefix_rfl⟩

theorem Step.marked (hStep : Step reg event reg') (h : reg.Marked) :
    reg'.Marked ∧ reg.leases <+: reg'.leases := by
  cases hStep with
  | begin call next hCall hNext =>
      refine ⟨h.setCall call ?_, List.prefix_rfl⟩
      rcases hNext with ⟨spec, rfl⟩ | ⟨kind, handle, rfl⟩
      · exact fun hSame => by cases hSame
      · exact fun hSame => by cases hSame
  | access call kind handle hCall =>
      obtain ⟨hCalls, hDestroyed, hLeases⟩ := reg.access_frame kind handle
      refine ⟨?_, hLeases⟩
      have hMarked : (reg.access kind handle).2.Marked := by
        intro other hOther
        rw [hCalls] at hOther
        rw [hDestroyed]
        exact h other hOther
      exact hMarked.setCall call fun hSame => by cases hSame
  | insert call def_ hCall =>
      have hMarked : (reg.insert def_).2.Marked := h
      exact ⟨hMarked.setCall call fun hSame => (by cases hSame), List.prefix_rfl⟩
  | cancelRequested => exact ⟨h, List.prefix_rfl⟩
  | destroyMark call hCall => exact ⟨fun _ _ => rfl, List.prefix_rfl⟩
  | destroyRetire call hCall =>
      have hMarked : reg.retireAll.Marked := h
      exact ⟨hMarked.setCall call fun hSame => (by cases hSame), List.prefix_rfl⟩
  | _ => exact ⟨h.setCall _ fun hSame => (by cases hSame), List.prefix_rfl⟩

/-- The flag is never reset. -/
theorem Step.destroyed (hStep : Step reg event reg') (h : reg.destroyed = true) :
    reg'.destroyed = true := by
  cases hStep with
  | access call kind handle hCall => exact (reg.access_frame kind handle).2.1.trans h
  | destroyMark call hCall => rfl
  | _ => exact h

theorem marked_run {trace : List RegistryEvent} (h : reg.Marked) (run : Run Step reg trace reg') :
    reg'.Marked ∧ reg.leases <+: reg'.leases := by
  apply run.invariant fun _ reg' => reg'.Marked ∧ reg.leases <+: reg'.leases
  · exact ⟨h, List.prefix_rfl⟩
  · intro trace reg event reg' ⟨hMarked, hLeases⟩ hStep
    obtain ⟨hNext, hMore⟩ := hStep.marked hMarked
    exact ⟨hNext, hLeases.trans hMore⟩

/-- Where a destroy retires the arena: no create in flight will insert, or no slot is
left to insert into. -/
def Quiet (reg : HfsmDefinitionRegistry capacity) : Prop :=
  (∀ call, ¬(reg.calls call).Threatens reg.limits reg.closing) ∨ reg.retireAll.arena.free = []

/-- From here on the registry is and stays empty, and hands nothing out; what was
leased before is still held. -/
def Fences (reg : HfsmDefinitionRegistry capacity) : Prop :=
  ∀ after final, Run Step reg after final →
    (∀ index, (final.arena.slots index).value = none) ∧
    (∀ result, .inserted result ∈ after → ∃ failure, result = .error failure) ∧
    (∀ kind handle result, .accessed kind handle result ∈ after →
      ∃ failure, result = .error failure) ∧
    reg.leases <+: final.leases

theorem fences_of_quiet (hMarked : reg.Marked) (hQuiet : reg.Quiet)
    (hStep : Step reg .destroyed reg') : reg'.Fences := by
  have hMarked' := (hStep.marked hMarked).1
  generalize hEvent : RegistryEvent.destroyed = event at hStep
  cases hStep with
  | destroyRetire call hCall =>
      have hFenced : reg.retireAll.Fenced :=
        ⟨hMarked call hCall, HandleArena.drainOccupied_value reg.arena, hQuiet⟩
      have hStart := hFenced.setCall call (fun hThreat => hThreat.elim :
        RegistryCall.idle.Threatens _ _ → _)
      intro after final run
      obtain ⟨hFinal, hDenied⟩ := hStart.run run
      refine ⟨hFinal.empty, ?_, ?_, (marked_run hMarked' run).2⟩
      · exact fun result hMem => hDenied _ hMem
      · exact fun kind handle result hMem => hDenied _ hMem
  | _ => cases hEvent

/-- A call that threatens goes on to insert. -/
theorem threat_inserts {call : Nat}
    (hThreat : (reg.calls call).Threatens reg.limits reg.closing) (hFree : reg.arena.free ≠ []) :
    ∃ after final handle, Run Step reg after final ∧ .inserted (.ok handle) ∈ after := by
  have hInsert : ∀ (reg : HfsmDefinitionRegistry capacity) (def_ : CompiledDefinition),
      reg.arena.free ≠ [] → ∃ handle, (reg.insert def_).1 = .ok handle := by
    intro reg def_ hFree
    rw [HfsmDefinitionRegistry.insert, HandleArena.insert]
    cases hSlots : reg.arena.free with
    | nil => exact absurd hSlots hFree
    | cons index rest => exact ⟨_, rfl⟩
  have hCompiled : ∀ (reg : HfsmDefinitionRegistry capacity) (def_ : CompiledDefinition),
      reg.arena.free ≠ [] → reg.calls call = .compiled def_ →
      ∃ after final handle, Run Step reg after final ∧ .inserted (.ok handle) ∈ after := by
    intro reg def_ hFree hCall
    obtain ⟨handle, hHandle⟩ := hInsert reg def_ hFree
    refine ⟨_, _, handle, .snoc (.nil reg) (.insert reg call def_ hCall), ?_⟩
    rw [hHandle]
    exact List.mem_singleton_self _
  have hCompiling : ∀ (reg : HfsmDefinitionRegistry capacity) (spec : DefinitionSpec)
      (def_ : CompiledDefinition), reg.arena.free ≠ [] → reg.calls call = .compiling spec →
      compile spec reg.limits = .ok def_ →
      ∃ after final handle, Run Step reg after final ∧ .inserted (.ok handle) ∈ after := by
    intro reg spec def_ hFree hCall hCompile
    obtain ⟨after, final, handle, hRun, hMem⟩ :=
      hCompiled (reg.setCall call (.compiled def_)) def_ hFree (Function.update_self _ _ _)
    refine ⟨_, final, handle, Run.trans (.snoc (.nil reg)
      (.compile reg call spec def_ hCall hCompile)) hRun, ?_⟩
    exact List.mem_append_right _ hMem
  cases hCall : reg.calls call with
  | createLive spec =>
      rw [hCall] at hThreat
      obtain ⟨hClosing, def_, hCompile⟩ := hThreat
      have hOpen : reg.ensureOpen = .ok () := by
        rw [ensureOpen, hClosing]
        rfl
      obtain ⟨after, final, handle, hRun, hMem⟩ := hCompiling
        (reg.setCall call (.compiling spec)) spec def_ hFree (Function.update_self _ _ _) hCompile
      refine ⟨_, final, handle, Run.trans (.snoc (.nil reg)
        (.createOpen reg call spec hCall hOpen)) hRun, ?_⟩
      exact List.mem_append_right _ hMem
  | compiling spec =>
      rw [hCall] at hThreat
      obtain ⟨def_, hCompile⟩ := hThreat
      exact hCompiling reg spec def_ hFree hCall hCompile
  | compiled def_ => exact hCompiled reg def_ hFree hCall
  | _ =>
      rw [hCall] at hThreat
      exact hThreat.elim

theorem quiet_of_fences (hFences : reg'.Fences) (hStep : Step reg .destroyed reg') : reg.Quiet := by
  generalize hEvent : RegistryEvent.destroyed = event at hStep
  cases hStep with
  | destroyRetire call hCall =>
      by_contra hLoud
      rw [Quiet, not_or, not_forall] at hLoud
      obtain ⟨⟨other, hOther⟩, hFree⟩ := hLoud
      rw [not_not] at hOther
      have hDifferent : other ≠ call := by
        rintro rfl
        rw [hCall] at hOther
        exact hOther
      have hThreat : ((reg.retireAll.setCall call .idle).calls other).Threatens reg.limits
          reg.closing := by
        show (Function.update reg.calls call .idle other).Threatens _ _
        rw [Function.update_of_ne hDifferent]
        exact hOther
      obtain ⟨after, final, handle, hRun, hMem⟩ :=
        @threat_inserts _ (reg.retireAll.setCall call .idle) other hThreat hFree
      obtain ⟨failure, hFailure⟩ := (hFences after final hRun).2.1 _ hMem
      cases hFailure
  | _ => cases hEvent

theorem marked_new {context : ContextKey} {capacity : UInt32} {limits : HfsmLimits}
    {before : List RegistryEvent} {reg : HfsmDefinitionRegistry capacity.toNat}
    (run : Run Step (new context capacity limits) before reg) : reg.Marked :=
  (marked_run (fun _ hCall => by cases hCall) run).1

/-- The steps of a run in which every destroy finds the creates quiet. -/
def QuietStep (reg : HfsmDefinitionRegistry capacity) (event : RegistryEvent)
    (reg' : HfsmDefinitionRegistry capacity) : Prop :=
  Step reg event reg' ∧ (event = .destroyed → reg.Quiet)

/-- Destroying a registry is a fence exactly when no create that has passed its checks
with a definition that compiles is in flight while the arena is retired. -/
theorem destroy_fences_iff (context : ContextKey) (capacity : UInt32) (limits : HfsmLimits) :
    (∀ before after final,
      Run QuietStep (new context capacity limits) (before ++ .destroyed :: after) final →
        ∃ reg, Run Step (new context capacity limits) (before ++ [.destroyed]) reg ∧
          Run Step reg after final ∧ reg.Fences) ∧
    ∀ before reg reg', Run Step (new context capacity limits) before reg →
      Step reg .destroyed reg' → (reg'.Fences ↔ reg.Quiet) := by
  have hForget : ∀ {reg final : HfsmDefinitionRegistry capacity.toNat} {trace},
      Run QuietStep reg trace final → Run Step reg trace final := by
    intro reg final trace run
    induction run with
    | nil => exact .nil reg
    | snoc prior last ih => exact .snoc ih last.1
  constructor
  · intro before after final run
    obtain ⟨reg, reg', hBefore, ⟨hStep, hQuiet⟩, hAfter⟩ := run.at
    refine ⟨reg', .snoc (hForget hBefore) hStep, hForget hAfter, ?_⟩
    exact fences_of_quiet (marked_new (hForget hBefore)) (hQuiet rfl) hStep
  · intro before reg reg' run hStep
    exact ⟨fun hFences => quiet_of_fences hFences hStep,
      fun hQuiet => fences_of_quiet (marked_new run) hQuiet hStep⟩

/-- A registry of one slot with a definition compiled and a destroy under way. -/
theorem late_create_run :
    ∃ reg : HfsmDefinitionRegistry 1, Run Step (new ⟨1⟩ 1 .default)
        [.step, .step, .step, .step, .step] reg ∧
      reg.calls 0 = .compiled boundaryDefinition ∧ reg.calls 1 = .destroying ∧
      reg.retireAll.arena.free = [0] := by
  have run := Run.snoc (Run.snoc (Run.snoc (Run.snoc (Run.snoc
    (Run.nil (new ⟨1⟩ 1 .default))
    (Step.begin _ 0 (.create boundarySpec) rfl (Or.inl ⟨_, rfl⟩)))
    (Step.createLive _ 0 boundarySpec rfl rfl))
    (Step.createOpen _ 0 boundarySpec rfl rfl))
    (Step.compile _ 0 boundarySpec boundaryDefinition rfl compile_boundarySpec))
    (Step.destroyMark _ 1 rfl)
  exact ⟨_, run, rfl, rfl, rfl⟩

/-- A definition that is compiled while its registry is destroyed is inserted later. -/
theorem late_create_inserts :
    ∃ before reg reg', Run Step (new ⟨1⟩ 1 .default) before reg ∧
      Step reg .destroyed reg' ∧ ¬reg'.Fences := by
  obtain ⟨reg, run, hCreate, hDestroy, hFree⟩ := late_create_run
  refine ⟨_, reg, _, run, .destroyRetire reg 1 hDestroy, fun hFences => ?_⟩
  have hLate : (reg.retireAll.setCall 1 .idle).calls 0 = .compiled boundaryDefinition := by
    show Function.update reg.calls 1 .idle 0 = _
    rw [Function.update_of_ne (by decide)]
    exact hCreate
  have hInsert : ((reg.retireAll.setCall 1 .idle).insert boundaryDefinition).1 =
      .ok (reg.retireAll.arena.keyAt 0) := by
    show (reg.retireAll.arena.insert boundaryDefinition).1.mapError handleErr = _
    rw [HandleArena.insert, hFree]
    rfl
  obtain ⟨failure, hFailure⟩ := (hFences _ _ (.snoc (.nil _)
    (.insert _ 0 boundaryDefinition hLate))).2.1 _ (List.mem_singleton_self _)
  rw [hInsert] at hFailure
  cases hFailure

/-- A definition is created and the registry destroyed, with nothing else under way. -/
theorem quiet_destroy_run :
    ∃ final : HfsmDefinitionRegistry 1, Run QuietStep (new ⟨1⟩ 1 .default)
      ([.step, .step, .step, .step, .inserted (.ok ⟨⟨1⟩, ⟨0⟩, ⟨1⟩⟩), .step] ++
        .destroyed :: [.step, .refused (.handle .contextDestroyed)]) final := by
  have hMarked : Run QuietStep (new ⟨1⟩ 1 .default) _ _ :=
    ((((((Run.nil _).snoc
    (And.intro (Step.begin _ 0 (.create boundarySpec) rfl (Or.inl ⟨_, rfl⟩)) nofun)).snoc
    (And.intro (Step.createLive _ 0 boundarySpec rfl rfl) nofun)).snoc
    (And.intro (Step.createOpen _ 0 boundarySpec rfl rfl) nofun)).snoc
    (And.intro (Step.compile _ 0 boundarySpec boundaryDefinition rfl compile_boundarySpec)
      nofun)).snoc
    (And.intro (Step.insert _ 0 boundaryDefinition rfl) nofun)).snoc
    (And.intro (Step.destroyMark _ 1 rfl) nofun)
  refine ⟨_, ((hMarked.snoc
    (And.intro (Step.destroyRetire _ 1 rfl) fun _ => Or.inl fun call => ?_)).snoc
    (And.intro (Step.begin _ 0 (.create boundarySpec) rfl (Or.inl ⟨_, rfl⟩)) nofun)).snoc
    (And.intro (Step.createDestroyed _ 0 boundarySpec _ rfl rfl) nofun)⟩
  by_cases hDestroys : call = 1
  · subst hDestroys
    exact id
  · by_cases hCreates : call = 0
    · subst hCreates
      exact id
    · simp only [setCall, HfsmDefinitionRegistry.insert, Function.update_of_ne hDestroys,
        Function.update_of_ne hCreates]
      exact id

/-- A registry that is destroyed at rest is fenced, and with a late create it is not. -/
theorem destroy_fences_iff_late :
    (∃ reg final : HfsmDefinitionRegistry 1, Run Step reg
        [.step, .refused (.handle .contextDestroyed)] final ∧ reg.Fences) ∧
    ∃ reg reg' : HfsmDefinitionRegistry 1, Step reg .destroyed reg' ∧
      (reg'.Fences ↔ reg.Quiet) := by
  constructor
  · obtain ⟨final, run⟩ := quiet_destroy_run
    obtain ⟨reg, -, hAfter, hFences⟩ := (destroy_fences_iff ⟨1⟩ 1 .default).1 _ _ _ run
    exact ⟨reg, final, hAfter, hFences⟩
  · obtain ⟨reg, run, -, hDestroy, -⟩ := late_create_run
    have hStep := Step.destroyRetire reg 1 hDestroy
    exact ⟨reg, _, hStep, (destroy_fences_iff ⟨1⟩ 1 .default).2 _ _ _ run hStep⟩

end HfsmDefinitionRegistry
end Hfsm

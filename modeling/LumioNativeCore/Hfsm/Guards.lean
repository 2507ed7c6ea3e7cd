import LumioNativeCore.Hfsm.Advance
import LumioNativeCore.Hfsm.Batching

/-! The guards that the host computes for an event. The table made at compile time names
what bubbling from the leaf may read, and no evaluation depends on any other guard. -/
namespace Hfsm

/-- The guards of the candidates for `event`, level by level from `leaf` upwards and by
priority within a level, each where it occurs first. -/
def DefinitionSpec.guardsTowardsRoot (spec : DefinitionSpec) (leaf : StateId)
    (event : EventKind) : List GuardId :=
  ((spec.ancestry leaf).flatMap fun state =>
    (spec.candidatesOf (state, event)).filterMap CompiledTransition.guard).eraseDups

/-- `g` is the first of `required` that `frame` does not supply. -/
def GuardFrame.FirstMissing (frame : GuardFrame) (required : List GuardId) (g : GuardId) : Prop :=
  ∃ before after, required = before ++ g :: after ∧ frame.lookup g = .missing ∧
    ∀ other ∈ before, frame.lookup other ≠ .missing

theorem checkGuards_eq_error {def_ : CompiledDefinition} {guards : GuardFrame} {leaf : StateId}
    {event : EventKind} {failure : ItemError} :
    checkGuards def_ guards leaf event = .error failure ↔
      ∃ g, failure = .guardMissing g ∧
        guards.FirstMissing (def_.requiredGuardsOf leaf event) g := by
  have hFirst : ∀ g, (def_.requiredGuardsOf leaf event).find?
      (fun g => decide (guards.lookup g = .missing)) = some g ↔
        guards.FirstMissing (def_.requiredGuardsOf leaf event) g := by
    intro g
    rw [List.find?_eq_some_iff_append, GuardFrame.FirstMissing]
    simp only [decide_eq_true_eq, Bool.not_eq_true', decide_eq_false_iff_not]
    constructor
    · rintro ⟨hMissing, before, after, hSplit, hBefore⟩
      exact ⟨before, after, hSplit, hMissing, hBefore⟩
    · rintro ⟨before, after, hSplit, hMissing, hBefore⟩
      exact ⟨hMissing, before, after, hSplit, hBefore⟩
  simp only [← hFirst, checkGuards]
  cases (def_.requiredGuardsOf leaf event).find? _ <;> simp [eq_comm]

/-- An event that has passed every check but those of its guards and of the counter. -/
structure Admitted (item : BatchItem) (event : EventKind) (s : Snapshot) (leaf : StateId) :
    Prop where
  admitted : admitSnapshot item = .ok s
  running : s.lifecycle = .running
  scope : checkScope s item.scope = .ok ()
  event : item.definition.hasEvent event = true
  frame : item.guards.isWellFormed = true
  leaf : s.leaf = some leaf

namespace Admitted

variable {item : BatchItem} {event : EventKind} {s : Snapshot} {leaf : StateId}

theorem checks (h : Admitted item event s leaf) : admitEvent item event s =
    checkGuards item.definition item.guards leaf event >>= fun _ => bump s.stepSeq := by
  rw [admitEvent, h.scope]
  simp [h.running, h.event, h.frame, h.leaf, bind, Except.bind]

theorem withGuards (h : Admitted item event s leaf) {frame : GuardFrame}
    (hFrame : frame.isWellFormed = true) :
    Admitted { item with guards := frame } event s leaf :=
  { admitted := h.admitted
    running := h.running
    scope := h.scope
    event := h.event
    frame := hFrame
    leaf := h.leaf }

theorem path (h : Admitted item event s leaf) {spec : DefinitionSpec}
    (hAccepted : Accepted spec item.definition) : spec.IsPathTo leaf s.activePath := by
  obtain ⟨leaf', hLeaf, hPath, -⟩ :=
    hAccepted.running_path (admit_eq_ok.mp h.admitted).2.2 h.running
  obtain rfl : leaf' = leaf := Option.some.inj (hLeaf.symm.trans h.leaf)
  exact hPath

end Admitted

namespace Accepted

variable {spec : DefinitionSpec} {def_ : CompiledDefinition} {leaf : StateId}
  {event : EventKind}

theorem guardsAlong_eq (h : Accepted spec def_) (leaf : StateId) (event : EventKind) :
    def_.guardsAlong leaf event = spec.guardsTowardsRoot leaf event := by
  have hLevel : ∀ state, (def_.candidatesOf state event).filterMap
      (fun id => (def_.transition id).bind CompiledTransition.guard) =
        (spec.candidatesOf (state, event)).filterMap CompiledTransition.guard := by
    intro state
    rw [h.candidates, List.filterMap_map]
    apply List.filterMap_congr
    intro c hc
    obtain ⟨t, ht, rfl⟩ := mem_candidatesOf.mp hc
    exact congrArg (Option.bind · CompiledTransition.guard) (h.transition_of_mem ht.1)
  rw [CompiledDefinition.guardsAlong, h.ancestry_eq, ← List.foldl_flatMap,
    DefinitionSpec.guardsTowardsRoot]
  simp only [← hLevel, ← List.filterMap_flatMap]
  have hPush := Check.foldl_push_new (((spec.ancestry leaf).flatMap fun state =>
    def_.candidatesOf state event).filterMap
      fun id => (def_.transition id).bind CompiledTransition.guard) []
  refine (Check.foldl_found ?_ ?_ _ _).trans hPush
  · intro known id g hGuard
    rw [hGuard]
  · intro known id hGuard
    rw [hGuard]

theorem requiredGuardsOf_eq (h : Accepted spec def_) (hLeaf : spec.IsLeaf leaf)
    (hEvent : def_.hasEvent event = true) :
    def_.requiredGuardsOf leaf event = spec.guardsTowardsRoot leaf event := by
  rw [h.requiredGuards, if_pos ⟨(h.isLeaf_iff leaf).mpr hLeaf, hEvent⟩, h.guardsAlong_eq]

/-- Bubbling reads required guards only. -/
theorem bubble_congr (h : Accepted spec def_) {s : Snapshot} {guards guards' : GuardFrame}
    (hPath : spec.IsPathTo leaf s.activePath) (hEvent : def_.hasEvent event = true)
    (hAgree : ∀ g ∈ def_.requiredGuardsOf leaf event, guards'.lookup g = guards.lookup g)
    {a : ActiveState} (ha : a ∈ s.activePath) :
    spec.bubble event guards' a = spec.bubble event guards a := by
  apply List.find?_congr
  intro c hc
  obtain ⟨t, ht, rfl⟩ := mem_candidatesOf.mp hc
  have hState : a.state ∈ spec.ancestry leaf := by
    rw [← hPath.2, List.mem_reverse]
    exact List.mem_map_of_mem ha
  rw [Bool.eq_iff_iff, passes_iff, passes_iff]
  apply forall₂_congr
  intro g hGuard
  rw [hAgree g (h.required_of_candidate hPath.1 hEvent hState ht hGuard)]

theorem select_congr (h : Accepted spec def_) {s : Snapshot} {guards guards' : GuardFrame}
    (hPath : spec.IsPathTo leaf s.activePath) (hEvent : def_.hasEvent event = true)
    (hAgree : ∀ g ∈ def_.requiredGuardsOf leaf event, guards'.lookup g = guards.lookup g)
    (hSupplied : ∀ g ∈ def_.requiredGuardsOf leaf event, guards.lookup g ≠ .missing) :
    select def_ s event guards' = select def_ s event guards := by
  have hSupplied' : ∀ g ∈ def_.requiredGuardsOf leaf event, guards'.lookup g ≠ .missing := by
    intro g hg
    rw [hAgree g hg]
    exact hSupplied g hg
  rw [h.select_eq hPath hEvent hSupplied, h.select_eq hPath hEvent hSupplied']
  refine congrArg Except.ok (Check.findSome_congr ?_)
  rintro ⟨a, level⟩ hEntry
  have hMem : a ∈ s.activePath :=
    List.fst_mem_of_mem_zipIdx (List.mem_reverse.mp hEntry)
  exact congrArg (Option.map (level, ·)) (h.bubble_congr hPath hEvent hAgree hMem)

/-- Agreeing on the required guards, two frames are missing the same ones. -/
theorem checkGuards_congr {guards guards' : GuardFrame}
    (hAgree : ∀ g ∈ def_.requiredGuardsOf leaf event, guards'.lookup g = guards.lookup g) :
    checkGuards def_ guards' leaf event = checkGuards def_ guards leaf event := by
  have hFind : (def_.requiredGuardsOf leaf event).find?
      (fun g => decide (guards'.lookup g = .missing)) =
        (def_.requiredGuardsOf leaf event).find?
          fun g => decide (guards.lookup g = .missing) := by
    apply List.find?_congr
    intro g hg
    rw [hAgree g hg]
  rw [checkGuards, checkGuards, hFind]

section Admitted

variable {item : BatchItem} {s : Snapshot}

/-- An admitted event is refused for a missing guard only by the check of the required ones. -/
theorem readEvent_missing (h : Accepted spec item.definition)
    (hEvent : Admitted item event s leaf) (g : GuardId) :
    readEvent item event = .error (.guardMissing g) ↔
      item.guards.FirstMissing (item.definition.requiredGuardsOf leaf event) g := by
  have hMissing : item.guards.FirstMissing (item.definition.requiredGuardsOf leaf event) g ↔
      checkGuards item.definition item.guards leaf event = .error (.guardMissing g) := by
    rw [checkGuards_eq_error]
    simp
  rw [hMissing]
  cases hStep : admitEvent item event s with
  | error failure =>
      rw [readEvent, hEvent.admitted, Check.ok_bind, hStep]
      rw [hEvent.checks] at hStep
      cases hGuards : checkGuards item.definition item.guards leaf event with
      | error found =>
          rw [hGuards] at hStep
          obtain rfl : found = failure := Except.error.inj hStep
          simp [bind, Except.bind]
      | ok _ =>
          rw [hGuards, Check.ok_bind] at hStep
          obtain rfl := bump_eq_error hStep
          simp [bind, Except.bind]
  | ok step =>
      obtain ⟨leaf', reading, -, -, -, hRead⟩ := h.readEvent_eq hEvent.admitted hStep
      rw [hEvent.checks, Check.bind_eq_ok] at hStep
      obtain ⟨_, hGuards, -⟩ := hStep
      rw [hRead, hGuards]
      split_ifs
      · simp
      · simp

/-- With frames that agree on the required guards, an event is read alike. -/
theorem readEvent_congr (h : Accepted spec item.definition)
    (hEvent : Admitted item event s leaf) {frame : GuardFrame}
    (hFrame : frame.isWellFormed = true)
    (hAgree : ∀ g ∈ item.definition.requiredGuardsOf leaf event,
      frame.lookup g = item.guards.lookup g) :
    readEvent { item with guards := frame } event = readEvent item event ∧
      filledByEvent { item with guards := frame } event = filledByEvent item event := by
  have hOther := hEvent.withGuards hFrame
  have hSame : admitEvent { item with guards := frame } event s = admitEvent item event s := by
    rw [hEvent.checks, hOther.checks, checkGuards_congr hAgree]
  rw [readEvent, readEvent, filledByEvent, filledByEvent, hEvent.admitted, hOther.admitted]
  simp only [Check.ok_bind, hSame]
  cases hStep : admitEvent item event s with
  | error failure => exact ⟨rfl, rfl⟩
  | ok step =>
      rw [hEvent.checks, Check.bind_eq_ok] at hStep
      obtain ⟨_, hGuards, -⟩ := hStep
      have hSelect := h.select_congr (hEvent.path h) hEvent.event hAgree
        (checkGuards_eq_ok.mp hGuards)
      constructor
      · simp only [Check.ok_bind, hSelect]
      · simp only [Check.ok_bind, hSelect]

end Admitted
end Accepted

/-- For an admitted event the table of required guards is exact. The item is rejected for a
missing guard exactly if a required one is missing, and names the first such; with none missing
the selection succeeds; well-formed frames that agree on the required guards give one plan; and
the table lists the guards of the candidates in bubbling order without repeats. -/
theorem required_guards_exact {spec : DefinitionSpec} {limits : HfsmLimits}
    {def_ : CompiledDefinition} (hCompile : compile spec limits = .ok def_)
    (index : Nat) (scratch : Scratch) (item : BatchItem) (s : Snapshot) (event : EventKind)
    (leaf : StateId) (hDefinition : item.definition = def_) (hKind : item.kind = .event event)
    (hSnapshot : item.snapshot = some s) (hKey : s.machineKey = item.machineKey)
    (hRunning : s.lifecycle = .running) (hValid : s.validate def_ = .ok ())
    (hLeaf : s.leaf = some leaf) (hEvent : def_.hasEvent event = true)
    (hFrame : item.guards.isWellFormed = true)
    (hScope : ∀ scope, item.scope = some scope →
      scope.epoch = s.epoch ∧ ⟨scope.state, scope.activationSeq⟩ ∈ s.activePath) :
    (∀ g, (evaluateItem index item scratch).1.outcome = .rejected (.guardMissing g) ↔
      item.guards.FirstMissing (def_.requiredGuardsOf leaf event) g) ∧
    ((∀ g ∈ def_.requiredGuardsOf leaf event, item.guards.lookup g ≠ .missing) →
      ∃ selected, select def_ s event item.guards = .ok selected) ∧
    (∀ frame : GuardFrame, frame.isWellFormed = true →
      (∀ g ∈ def_.requiredGuardsOf leaf event, frame.lookup g = item.guards.lookup g) →
      evaluateItem index { item with guards := frame } scratch =
        evaluateItem index item scratch) ∧
    def_.requiredGuardsOf leaf event = spec.guardsTowardsRoot leaf event := by
  subst hDefinition
  have h := accepted hCompile
  have hAdmitted : Admitted item event s leaf :=
    { admitted := admit_eq_ok.mpr ⟨hSnapshot, hKey, hValid⟩
      running := hRunning
      scope := checkScope_eq_ok.mpr hScope
      event := hEvent
      frame := hFrame
      leaf := hLeaf }
  have hPath := hAdmitted.path h
  refine ⟨fun g => ?_, fun hSupplied => ?_, fun frame hFrame' hAgree => ?_, ?_⟩
  · rw [evaluateItem_rejected, readItem_event hKind]
    exact h.readEvent_missing hAdmitted g
  · exact ⟨_, h.select_eq hPath hEvent hSupplied⟩
  · obtain ⟨hRead, hFilled⟩ := h.readEvent_congr hAdmitted hFrame' hAgree
    have hKind' : ({ item with guards := frame } : BatchItem).kind = .event event := hKind
    rw [evaluateItem_eq, evaluateItem_eq, readItem_event hKind, readItem_event hKind',
      residue_event hKind, residue_event hKind', hRead, hFilled]
  · exact h.requiredGuardsOf_eq hPath.1 hEvent

/-- The guard that the boundary event reads; another one in the frame changes nothing. -/
theorem required_guards_exact_boundary :
    boundarySpec.guardsTowardsRoot ⟨2⟩ ⟨7⟩ = [⟨5⟩] ∧
      (∀ g, (evaluateItem 0 boundaryItem .empty).1.outcome ≠ .rejected (.guardMissing g)) ∧
      evaluateItem 0 { boundaryItem with guards := ⟨[(⟨9⟩, true), (⟨5⟩, true)]⟩ } .empty =
        evaluateItem 0 boundaryItem .empty := by
  have hRequired : boundaryDefinition.requiredGuardsOf ⟨2⟩ ⟨7⟩ = [⟨5⟩] := by decide +kernel
  have hScope : ∀ scope, boundaryItem.scope = some scope → scope.epoch = boundarySnapshot.epoch ∧
      ⟨scope.state, scope.activationSeq⟩ ∈ boundarySnapshot.activePath := by
    intro scope hScope
    obtain rfl := Option.some.inj hScope
    decide
  obtain ⟨hMissing, -, hFrames, hTable⟩ := required_guards_exact compile_boundarySpec 0 .empty
    boundaryItem boundarySnapshot ⟨7⟩ ⟨2⟩ rfl rfl rfl rfl rfl (by decide +kernel) rfl
    (by decide +kernel) (by decide) hScope
  rw [hRequired] at hMissing hFrames hTable
  refine ⟨hTable.symm, fun g hOutcome => ?_, hFrames _ (by decide) (by decide)⟩
  obtain ⟨before, after, hSplit, hLookup, -⟩ := (hMissing g).mp hOutcome
  have hMem : g ∈ [(⟨5⟩ : GuardId)] := by simp [hSplit]
  obtain rfl := List.mem_singleton.mp hMem
  exact absurd hLookup (by decide)

end Hfsm

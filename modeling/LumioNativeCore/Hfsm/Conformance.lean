import LumioNativeCore.Hfsm.Configuration

/-! The evaluator's plan of an event is the reference plan of the declarative
semantics, and the reference plan is unique. -/
namespace Hfsm

/-- A computation gives `reading` while the counter fits, and overflows otherwise. -/
def Yields (result : Except ItemError PlanReading) (reading : PlanReading) : Prop :=
  result = if reading.enters = [] ∨ reading.nextSeq ≤ Word.max64 then .ok reading
    else .error .counterOverflow

theorem yields_ok {reading : PlanReading} (h : reading.enters = []) :
    Yields (.ok reading) reading := (if_pos (Or.inl h)).symm

namespace Accepted

variable {spec : DefinitionSpec} {def_ : CompiledDefinition} {s : Snapshot}
  {event : EventKind} {guards : GuardFrame} {leaf : StateId}

/-! The domain and the kept prefix. -/

theorem keepExternal_spec (h : Accepted spec def_) {source : StateId} (target : StateId)
    (hSource : ∀ d, Forest.Above spec.parentOf source d →
      d ∈ s.activePath.map ActiveState.state) :
    ∃ domain, ((s.activePath.take (keepExternal def_ s source target)).getLast?.map
        ActiveState.state) = domain ∧
      ((∃ d, domain = some d ∧ Forest.IsStrictMeet spec.parentOf source target d) ∨
        domain = none ∧ Forest.NoStrictMeet spec.parentOf source target) := by
  have hMeet := h.strictCommonAncestor_eq source target
  rw [keepExternal]
  cases hCommon : def_.strictCommonAncestor source target with
  | none =>
      rw [hCommon] at hMeet
      exact ⟨none, by simp, Or.inr ⟨rfl, hMeet⟩⟩
  | some d =>
      rw [hCommon] at hMeet
      have hMem := hSource d hMeet.1
      have hFound : ∃ i, s.activePath.findIdx? (fun a => decide (a.state = d)) = some i := by
        rw [← Option.isSome_iff_exists, List.findIdx?_isSome, List.any_eq_true]
        obtain ⟨a, ha, hState⟩ := List.mem_map.mp hMem
        exact ⟨a, ha, by simpa using hState⟩
      obtain ⟨i, hFound⟩ := hFound
      obtain ⟨hLength, hState, -⟩ := List.findIdx?_eq_some_iff_getElem.mp hFound
      refine ⟨some d, ?_, Or.inl ⟨d, rfl, hMeet⟩⟩
      have hLast : (s.activePath.take (i + 1)).getLast? = some s.activePath[i] := by
        rw [List.take_succ_eq_append_getElem hLength, List.getLast?_concat]
      simp only [hFound, hLast, Option.map_some]
      exact congrArg some (of_decide_eq_true hState)

theorem exitLine_eq (h : Accepted spec def_) : def_.exitLine = spec.exitLine := by
  funext a
  rw [CompiledDefinition.exitLine, h.exitActions_eq]
  rfl

theorem enterLine_eq (h : Accepted spec def_) : def_.enterLine = spec.enterLine := by
  funext a
  rw [CompiledDefinition.enterLine, h.entryActions_eq]
  rfl

/-- A crossing that keeps the path down to the domain is the reference crossing. -/
theorem readCrossing_reacts (h : Accepted spec def_) {keep : Nat} {source : ActiveState}
    {t : TransitionSpec} {target : StateId} {domain : Option StateId}
    (hSelected : spec.IsSelected guards s.activePath event source t)
    (hDomain : spec.IsDomain t target domain)
    (hKept : (s.activePath.take keep).getLast?.map ActiveState.state = domain)
    (hReaches : ∀ d, domain = some d → Forest.Reaches spec.parentOf target d) :
    ∃ reading, spec.Reacts s event guards reading ∧
      Yields (def_.readCrossing s keep source (compileTransition t) target) reading := by
  have hEnters : spec.Enters domain target (def_.enteredBelow domain target) :=
    DefinitionSpec.Enters.mk (h.ascent_ancestryBelow hReaches) (h.ascent_initialChain target)
  refine ⟨_, DefinitionSpec.Reacts.crossing hSelected hDomain
    (List.take_append_drop keep s.activePath).symm hKept hEnters, ?_⟩
  rw [Yields, CompiledDefinition.readCrossing, h.exitLine_eq, h.enterLine_eq]
  simp only [hKept, PlanReading.enters, activeIn_crossing, reduceCtorEq, if_false, if_true,
    List.append_nil, List.nil_append]
  split_ifs with hFits
  · have hEnter : enterStates s.nextActivationSeq (def_.enteredBelow domain target) =
        .ok (activate s.nextActivationSeq (def_.enteredBelow domain target)) :=
      enterStates_of_le fun hSome => hFits.resolve_left (mt activate_eq_nil.mp hSome)
    rw [hEnter]
    simp only [Except.map, activate_length]
    rfl
  · rw [not_or, activate_eq_nil, Nat.not_le] at hFits
    rw [enterStates_of_lt hFits.1 hFits.2]
    rfl

/-- The reading of the selected transition is a reference plan. -/
theorem readTransition_reacts (h : Accepted spec def_) {outer inner : List ActiveState}
    {source : ActiveState} {t : TransitionSpec}
    (hPath : spec.IsPathTo leaf s.activePath) (hSplit : s.activePath = outer ++ source :: inner)
    (hSelected : spec.IsSelected guards s.activePath event source t) :
    ∃ reading, spec.Reacts s event guards reading ∧
      Yields (def_.readTransition s outer.length source (compileTransition t)) reading := by
  have hSource : t.source = source.state := hSelected.enabled.1.2.1
  have hCompiled : (compileTransition t).kind = t.kind := rfl
  simp only [CompiledDefinition.readTransition, hCompiled]
  cases hKind : t.kind with
  | internal => exact ⟨_, DefinitionSpec.Reacts.internal hSelected hKind, yields_ok rfl⟩
  | «local» target =>
      apply h.readCrossing_reacts hSelected (DefinitionSpec.IsDomain.local hKind)
      · have hTake : s.activePath.take (outer.length + 1) = outer ++ [source] := by
          simp [hSplit, List.take_append]
        rw [hTake, List.getLast?_concat, hSource]
        rfl
      · intro d hd
        obtain rfl := Option.some.inj hd
        have := h.localBelow t hSelected.enabled.1.1 target hKind
        exact ((h.isStrictDescendant_iff _ _).mp this).reaches
  | external target =>
      have hAbove : ∀ d, Forest.Above spec.parentOf t.source d →
          d ∈ s.activePath.map ActiveState.state := by
        intro d hd
        rw [hSource] at hd
        have hMem := h.mem_ancestry.mpr hd.reaches
        rw [← h.ancestry_of_split (hSplit ▸ hPath), List.mem_reverse] at hMem
        rw [hSplit, List.append_cons, List.map_append]
        exact List.mem_append_left _ hMem
      obtain ⟨domain, hKept, hMeet⟩ := h.keepExternal_spec target hAbove
      change ∃ reading, _ ∧ Yields (def_.readCrossing s (keepExternal def_ s t.source target)
        source (compileTransition t) target) _
      rcases hMeet with ⟨d, rfl, hMeet⟩ | ⟨rfl, hMeet⟩
      · apply h.readCrossing_reacts hSelected (DefinitionSpec.IsDomain.external hKind hMeet) hKept
        intro d' hd
        obtain rfl := Option.some.inj hd
        exact hMeet.2.1.reaches
      · exact h.readCrossing_reacts hSelected (DefinitionSpec.IsDomain.root hKind hMeet) hKept
          fun d hd => absurd hd.symm (Option.some_ne_none d)

/-- The reading of what bubbling found is a reference plan. -/
theorem readSelected_reacts (h : Accepted spec def_)
    (hPath : spec.IsPathTo leaf s.activePath) (hEvent : def_.hasEvent event = true)
    (hSupplied : ∀ g ∈ def_.requiredGuardsOf leaf event, guards.lookup g ≠ .missing) :
    ∃ selected reading, select def_ s event guards = .ok selected ∧
      spec.Reacts s event guards reading ∧
      Yields (def_.readSelected s selected) reading := by
  rw [h.select_eq hPath hEvent hSupplied]
  rcases h.bubbling_selects hPath with
    ⟨hFound, hNone⟩ | ⟨outer, source, inner, t, hSplit, hSelected, hFound⟩
  · rw [hFound]
    exact ⟨none, _, rfl, DefinitionSpec.Reacts.unhandled hNone, yields_ok rfl⟩
  · obtain ⟨reading, hReacts, hRead⟩ := h.readTransition_reacts hPath hSplit hSelected
    have hAt : s.activePath[outer.length]? = some source := by simp [hSplit]
    refine ⟨some (outer.length, compileTransition t), reading, by rw [hFound], hReacts, ?_⟩
    simpa [CompiledDefinition.readSelected, hAt] using hRead

/-! The reference plan is unique. -/

theorem reacts_unique (h : Accepted spec def_) (hPath : spec.IsPathTo leaf s.activePath)
    {reading reading' : PlanReading} (hReacts : spec.Reacts s event guards reading)
    (hReacts' : spec.Reacts s event guards reading') : reading = reading' := by
  cases hReacts with
  | unhandled hNone =>
      cases hReacts' with
      | unhandled hNone' => rfl
      | internal hSelected' hKind' =>
          exact absurd hSelected'.enabled (hNone _ hSelected'.active _)
      | crossing hSelected' => exact absurd hSelected'.enabled (hNone _ hSelected'.active _)
  | internal hSelected hKind =>
      cases hReacts' with
      | unhandled hNone' => exact absurd hSelected.enabled (hNone' _ hSelected.active _)
      | internal hSelected' hKind' =>
          obtain ⟨rfl, rfl⟩ := h.selected_unique hPath hSelected hSelected'
          rfl
      | crossing hSelected' hDomain' =>
          obtain ⟨rfl, rfl⟩ := h.selected_unique hPath hSelected hSelected'
          cases hDomain' with
          | «local» hKind' => simp [hKind] at hKind'
          | external hKind' hMeet' => simp [hKind] at hKind'
          | root hKind' hMeet' => simp [hKind] at hKind'
  | crossing hSelected hDomain hSplit hKept hEntered =>
      cases hReacts' with
      | unhandled hNone' => exact absurd hSelected.enabled (hNone' _ hSelected.active _)
      | internal hSelected' hKind' =>
          obtain ⟨rfl, rfl⟩ := h.selected_unique hPath hSelected hSelected'
          cases hDomain with
          | «local» hKind => simp [hKind'] at hKind
          | external hKind hMeet => simp [hKind'] at hKind
          | root hKind hMeet => simp [hKind'] at hKind
      | crossing hSelected' hDomain' hSplit' hKept' hEntered' =>
          obtain ⟨rfl, rfl⟩ := h.selected_unique hPath hSelected hSelected'
          obtain ⟨rfl, rfl⟩ := h.isDomain_unique hDomain hDomain'
          obtain ⟨rfl, rfl⟩ := Check.prefix_unique (hSplit ▸ h.path_nodup hPath)
            (hSplit.symm.trans hSplit') (hKept.trans hKept'.symm)
          rw [Grounded.enters_unique hEntered hEntered']

end Accepted

/-- On every running snapshot that is valid, every registered event with its
required guards supplied has exactly one reference plan, and evaluation writes
it, unless a counter would overflow. Only the vector of entered states is left as
it happens to be. -/
theorem event_semantics {spec : DefinitionSpec} {limits : HfsmLimits}
    {def_ : CompiledDefinition} (hCompile : compile spec limits = .ok def_)
    (index : Nat) (scratch : Scratch) (item : BatchItem) (s : Snapshot) (event : EventKind)
    (hDefinition : item.definition = def_) (hKind : item.kind = .event event)
    (hSnapshot : item.snapshot = some s) (hKey : s.machineKey = item.machineKey)
    (hRunning : s.lifecycle = .running) (hValid : s.validate def_ = .ok ())
    (hEvent : def_.hasEvent event = true) (hFrame : item.guards.isWellFormed = true)
    (hSupplied : ∀ leaf, s.leaf = some leaf → ∀ g ∈ def_.requiredGuardsOf leaf event,
      item.guards.lookup g ≠ .missing)
    (hScope : ∀ scope, item.scope = some scope →
      scope.epoch = s.epoch ∧ ⟨scope.state, scope.activationSeq⟩ ∈ s.activePath)
    (hStep : s.stepSeq + 1 ≤ Word.max64)
    (hSeq : ∀ reading, spec.Reacts s event item.guards reading →
      reading.nextSeq ≤ Word.max64) :
    ∃ reading, spec.Reacts s event item.guards reading ∧
      (∀ other, spec.Reacts s event item.guards other → other = reading) ∧
      ∃ entered, evaluateItem index item scratch =
        reading.write index { s.header with stepSeq := s.stepSeq + 1 }
          { scratch with entered := entered } := by
  have h := accepted hCompile
  obtain ⟨leaf, hLeaf, hPath, -⟩ : ∃ leaf, s.leaf = some leaf ∧
      spec.IsPathTo leaf s.activePath ∧ SeqsBelow s.activePath s.nextActivationSeq := by
    rcases (h.validate_eq_ok.mp hValid).2 with ⟨hNot, -⟩ | ⟨-, hPath⟩
    · exact absurd hRunning hNot
    · exact hPath
  obtain ⟨selected, reading, hSelect, hReacts, hRead⟩ :=
    h.readSelected_reacts hPath hEvent (hSupplied leaf hLeaf)
  refine ⟨reading, hReacts, fun other hOther => h.reacts_unique hPath hOther hReacts, ?_⟩
  subst hDefinition
  have hAdmit : admitSnapshot item = .ok s := admit_eq_ok.mpr ⟨hSnapshot, hKey, hValid⟩
  have hAdmitEvent : admitEvent item event s = .ok (s.stepSeq + 1) :=
    admitEvent_eq_ok.mpr ⟨hRunning, checkScope_eq_ok.mpr hScope, hEvent, hFrame,
      ⟨leaf, hLeaf, checkGuards_eq_ok.mpr (hSupplied leaf hLeaf)⟩, rfl, hStep⟩
  have hItem : readItem item = .ok ({ s.header with stepSeq := s.stepSeq + 1 }, reading) := by
    rw [readItem_event hKind]
    simp only [readEvent, Check.bind_eq_ok]
    exact ⟨s, hAdmit, _, hAdmitEvent, selected, hSelect, reading,
      hRead.trans (if_pos (Or.inr (hSeq reading hReacts))), rfl⟩
  refine ⟨residue item scratch.entered, ?_⟩
  rw [evaluateItem_eq, hItem]
  rfl

/-- The tree of the contract's boundary examples, with its first transition
under a guard. -/
def boundarySpec : DefinitionSpec where
  formatVersion := formatVersion
  initial := ⟨1⟩
  states :=
    [{ id := ⟨1⟩, parent := none, initial := some ⟨2⟩, entry := [⟨10⟩], exit := [⟨11⟩]
       name := some "A" },
     { id := ⟨2⟩, parent := some ⟨1⟩, initial := none, entry := [⟨20⟩], exit := [⟨21⟩]
       name := some "A1" },
     { id := ⟨3⟩, parent := some ⟨1⟩, initial := none, entry := [⟨30⟩], exit := [⟨31⟩]
       name := some "A2" }]
  transitions :=
    [{ id := ⟨1⟩, source := ⟨2⟩, event := ⟨7⟩, priority := 0, guard := some ⟨5⟩
       kind := .external ⟨3⟩, actions := [⟨40⟩] }]

def boundaryDefinition : CompiledDefinition :=
  (compile boundarySpec .default).toOption.get (by decide +kernel)

theorem compile_boundarySpec : compile boundarySpec .default = .ok boundaryDefinition :=
  Check.eq_ok_get _

def boundarySnapshot : Snapshot where
  fingerprint := boundaryDefinition.fingerprint
  machineKey := 1
  epoch := 4
  stepSeq := 1
  nextActivationSeq := 3
  lifecycle := .running
  activePath := [⟨⟨1⟩, 1⟩, ⟨⟨2⟩, 2⟩]

def boundaryItem : BatchItem where
  machineKey := 1
  definition := boundaryDefinition
  kind := .event ⟨7⟩
  snapshot := some boundarySnapshot
  guards := ⟨[(⟨5⟩, true)]⟩
  scope := some ⟨⟨2⟩, 2, 4⟩

theorem boundarySnapshot_isPathTo : boundarySpec.IsPathTo ⟨2⟩ boundarySnapshot.activePath :=
  ⟨⟨by decide, by decide⟩, by decide +kernel⟩

theorem event_semantics_boundary :
    ∃ reading, boundarySpec.Reacts boundarySnapshot ⟨7⟩ boundaryItem.guards reading ∧
      (∀ other, boundarySpec.Reacts boundarySnapshot ⟨7⟩ boundaryItem.guards other →
        other = reading) ∧
      ∃ entered, evaluateItem 0 boundaryItem .empty =
        reading.write 0 { boundarySnapshot.header with stepSeq := 2 }
          { Scratch.empty with entered := entered } := by
  apply event_semantics compile_boundarySpec 0 .empty boundaryItem boundarySnapshot ⟨7⟩ rfl rfl
    rfl rfl rfl
  · decide +kernel
  · decide +kernel
  · decide
  · intro leaf hLeaf
    obtain rfl : ⟨2⟩ = leaf := Option.some.inj hLeaf
    decide +kernel
  · intro scope hScope
    obtain rfl := Option.some.inj hScope
    decide
  · decide
  · intro reading hReacts
    have := (accepted compile_boundarySpec).reacts_nextSeq_le boundarySnapshot_isPathTo hReacts
    have hDepth : boundaryDefinition.maxDepth = 2 := by decide +kernel
    have hNext : boundarySnapshot.nextActivationSeq = 3 := rfl
    rw [hDepth, hNext] at this
    exact this.trans (by decide)

end Hfsm

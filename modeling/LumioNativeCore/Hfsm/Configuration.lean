import LumioNativeCore.Hfsm.Selection

/-! Entering below a kept prefix leads to a leaf again: the path after a plan is
a configuration of the tree, with fresh activations at its end. -/
namespace Hfsm
namespace Accepted

variable {spec : DefinitionSpec} {def_ : CompiledDefinition}

/-- Initial links lead from a known state down to a leaf. -/
theorem initialChain_linked (h : Accepted spec def_) {start : Option StateId}
    {chain : List StateId} (hChain : Forest.Ascent spec.initialOf none start chain)
    {state : StateId} (hStart : spec.initialOf state = start)
    (hKnown : (spec.findState state).isSome) :
    Forest.Linked spec.parentOf (some state) chain ∧
      ∃ leaf, chain.getLast?.or (some state) = some leaf ∧ spec.IsLeaf leaf := by
  induction hChain generalizing state with
  | nil => exact ⟨trivial, state, rfl, hKnown, hStart⟩
  | @cons child rest hStop hRest ih =>
      have hParent := h.parentOf_of_initialOf hStart
      obtain ⟨hLinked, leaf, hLast, hLeaf⟩ := ih rfl (h.found_of_parentOf hParent).1
      refine ⟨⟨hParent, hLinked⟩, leaf, ?_, hLeaf⟩
      rw [List.getLast?_cons]
      cases hTail : rest.getLast? with
      | none => simpa [hTail] using hLast
      | some last => simpa [hTail] using hLast

/-- A kept prefix and the states entered below it form a path to a leaf. -/
theorem isPathTo_of_enters (h : Accepted spec def_) {kept : List ActiveState}
    {domain : Option StateId} {target : StateId} {entered : List StateId}
    (hLinked : Forest.Linked spec.parentOf none (kept.map ActiveState.state))
    (hKept : kept.getLast?.map ActiveState.state = domain)
    (hTarget : (spec.findState target).isSome) (hEnters : spec.Enters domain target entered)
    (seq : Nat) : ∃ leaf, spec.IsPathTo leaf (kept ++ activate seq entered) := by
  cases hEnters with
  | @mk upward chain hUpward hChain =>
      obtain ⟨hDown, hEnd⟩ := hUpward.linked
      obtain ⟨hTail, leaf, hLast, hLeaf⟩ := h.initialChain_linked hChain rfl hTarget
      have hStates : (kept ++ activate seq (upward.reverse ++ chain)).map ActiveState.state =
          kept.map ActiveState.state ++ (upward.reverse ++ chain) := by
        rw [List.map_append, activate_map_state]
      have hAll : Forest.Linked spec.parentOf none
          (kept.map ActiveState.state ++ (upward.reverse ++ chain)) := by
        rw [Forest.linked_append, Forest.linked_append, List.getLast?_map, hKept,
          Option.or_none, hEnd]
        exact ⟨hLinked, hDown, hTail⟩
      have hAscent := hAll.ascent Forest.Ascent.nil
      have hLeafLast : (kept.map ActiveState.state ++ (upward.reverse ++ chain)).getLast? =
          some leaf := by
        rw [List.getLast?_append, List.getLast?_append, List.getLast?_map, hKept,
          Option.or_assoc, hEnd, hLast]
      rw [Option.or_none, List.append_nil, hLeafLast] at hAscent
      refine ⟨leaf, hLeaf, ?_⟩
      rw [hStates]
      exact hAscent.unique (h.falls.ascent_trail leaf)

theorem linked_of_isPathTo (h : Accepted spec def_) {leaf : StateId} {path : List ActiveState}
    (hPath : spec.IsPathTo leaf path) :
    Forest.Linked spec.parentOf none (path.map ActiveState.state) := by
  have hLinked := (h.falls.ascent_trail leaf).linked.1
  change Forest.Linked spec.parentOf none (spec.ancestry leaf).reverse at hLinked
  rwa [← hPath.2, List.reverse_reverse] at hLinked

theorem length_le_of_isPathTo (h : Accepted spec def_) {leaf : StateId}
    {path : List ActiveState} (hPath : spec.IsPathTo leaf path) :
    path.length ≤ def_.maxDepth := by
  have := h.ancestry_length_le hPath.1.1
  rwa [← hPath.2, List.length_reverse, List.length_map] at this

/-- A start enters the root initial state and its initial chain. -/
def rootChain (def_ : CompiledDefinition) : List StateId :=
  def_.rootInitial :: def_.initialChain def_.rootInitial

theorem rootChain_isPathTo (h : Accepted spec def_) (seq : Nat) :
    ∃ leaf, spec.IsPathTo leaf (activate seq (rootChain def_)) := by
  have hEnters : spec.Enters none def_.rootInitial
      ([def_.rootInitial].reverse ++ def_.initialChain def_.rootInitial) := by
    refine DefinitionSpec.Enters.mk (Forest.Ascent.cons (Option.some_ne_none _) ?_) (h.ascent_initialChain _)
    rw [h.rootInitial, h.rootTop]
    exact Forest.Ascent.nil
  have hNone : Forest.Linked spec.parentOf none (([] : List ActiveState).map ActiveState.state) :=
    trivial
  exact h.isPathTo_of_enters hNone rfl (h.rootInitial ▸ h.rootKnown) hEnters seq

/-- The lines of a crossing name the activations exited and entered. -/
theorem activeIn_crossing (phase : ActionPhase) (exited entered : List ActiveState)
    (source : ActiveState) (t : TransitionSpec) :
    activeIn phase (exited.map spec.exitLine ++ [DefinitionSpec.transitionLine source t] ++
        entered.map spec.enterLine) =
      (if .exit = phase then exited else []) ++ (if .transition = phase then [source] else []) ++
        (if .enter = phase then entered else []) := by
  have hExit : ∀ a, (spec.exitLine a).phase = .exit ∧ (spec.exitLine a).active = a :=
    fun a => ⟨rfl, rfl⟩
  have hEnter : ∀ a, (spec.enterLine a).phase = .enter ∧ (spec.enterLine a).active = a :=
    fun a => ⟨rfl, rfl⟩
  rw [activeIn_append, activeIn_append, activeIn_map hExit, activeIn_map hEnter]
  cases phase <;> simp [activeIn, DefinitionSpec.transitionLine]

/-- The path after an event is a path to a leaf: a prefix of the path before it,
whose other states are exited, and fresh activations, as many as the counter moves. -/
theorem reacts_isPathTo (h : Accepted spec def_) {s : Snapshot} {event : EventKind}
    {guards : GuardFrame} {leaf : StateId} {reading : PlanReading}
    (hPath : spec.IsPathTo leaf s.activePath) (hReacts : spec.Reacts s event guards reading) :
    (∃ leaf', spec.IsPathTo leaf' reading.path) ∧
      ∃ kept exited entered, s.activePath = kept ++ exited ∧
        reading.path = kept ++ activate s.nextActivationSeq entered ∧
        reading.nextSeq = s.nextActivationSeq + entered.length ∧
        reading.exits = exited.reverse ∧
        reading.enters = activate s.nextActivationSeq entered := by
  cases hReacts with
  | unhandled hNone =>
      exact ⟨⟨leaf, hPath⟩, s.activePath, [], [], by simp, by simp [activate], rfl, rfl, rfl⟩
  | internal hSelected hKind =>
      exact ⟨⟨leaf, hPath⟩, s.activePath, [], [], by simp, by simp [activate], rfl, rfl, rfl⟩
  | @crossing source t target domain kept exited entered hSelected hDomain hSplit hKept
      hEntered =>
      have hTarget : (spec.findState target).isSome := by
        apply h.targetKnown t hSelected.enabled.1.1
        cases hDomain with
        | «local» hKind => rw [hKind]; rfl
        | external hKind hMeet => rw [hKind]; rfl
        | root hKind hMeet => rw [hKind]; rfl
      have hLinked := h.linked_of_isPathTo hPath
      rw [hSplit, List.map_append, Forest.linked_append] at hLinked
      refine ⟨h.isPathTo_of_enters hLinked.1 hKept hTarget hEntered _, kept, exited, entered,
        hSplit, rfl, rfl, ?_, ?_⟩
      · rw [PlanReading.exits, activeIn_crossing]
        simp
      · rw [PlanReading.enters, activeIn_crossing]
        simp

/-- One event activates at most as many states as the tree is deep. -/
theorem reacts_nextSeq_le (h : Accepted spec def_) {s : Snapshot} {event : EventKind}
    {guards : GuardFrame} {leaf : StateId} {reading : PlanReading}
    (hPath : spec.IsPathTo leaf s.activePath) (hReacts : spec.Reacts s event guards reading) :
    reading.nextSeq ≤ s.nextActivationSeq + def_.maxDepth := by
  obtain ⟨⟨leaf', hPath'⟩, kept, exited, entered, -, hNext, hSeq, -, -⟩ :=
    h.reacts_isPathTo hPath hReacts
  have hLength := h.length_le_of_isPathTo hPath'
  rw [hNext, List.length_append, activate_length] at hLength
  omega

end Accepted
end Hfsm

import Mathlib.Data.List.TakeWhile
import LumioNativeCore.Hfsm.Counting

/-! The passes over the compiled graph end, and miss no position: each loop along links takes
at most a turn for every state, because the links fall. -/
namespace Hfsm.Strict

/-- Following falling links is walking them up to the first place to halt. -/
theorem follow_walk {next' : StateId → Except Stop (Option StateId)}
    {next : StateId → Option StateId} {rank : StateId → Nat} (hNext : ∀ a, next' a = .ok (next a))
    (hFalls : Forest.Falls next rank) (halt : StateId → Bool) {fuel : Nat}
    {start : Option StateId} (hFuel : ∀ a, start = some a → rank a < fuel) :
    follow next' halt fuel start =
      .ok ((Forest.walk next fuel start).takeWhile (fun a => !halt a),
        (Forest.walk next fuel start).find? halt) := by
  induction fuel generalizing start with
  | zero =>
      cases start with
      | none => rfl
      | some a => exact absurd (hFuel a rfl) (Nat.not_lt_zero _)
  | succ fuel ih =>
      cases start with
      | none => rfl
      | some a =>
          have hRest : ∀ b, next a = some b → rank b < fuel := by
            intro b hb
            have hFall := hFalls a b hb
            have hRank := hFuel a rfl
            omega
          rw [follow, Forest.walk, List.takeWhile_cons, List.find?_cons]
          cases halt a with
          | true => rfl
          | false =>
              rw [hNext]
              show (follow next' halt fuel (next a) >>= _) = _
              rw [ih hRest]
              rfl

section Graph

variable {spec : DefinitionSpec} {def_ : CompiledDefinition}

theorem find_state (h : Grounded spec def_) (id : StateId) :
    find def_.index def_.states id = .ok (def_.state id) := by
  have hIndexed := h.indexed id
  have hFound := h.found id
  rw [CompiledDefinition.contains] at hIndexed
  rw [find, CompiledDefinition.state] at *
  cases hLookup : def_.index.lookup id with
  | none => rfl
  | some i =>
      rw [hLookup] at hIndexed hFound
      obtain ⟨s, hs⟩ := Option.isSome_iff_exists.mp hIndexed.symm
      rw [hs] at hFound
      have hAt : def_.states[i]? = some (compileState s (spec.depthOf s.id)) := hFound
      rw [Option.bind_some, hAt]
      simp only [read, hAt]
      rfl

theorem parentOf_eq (h : Grounded spec def_) (id : StateId) :
    parentOf def_ id = .ok (def_.parentOf id) := by
  rw [parentOf, find_state h]
  rfl

theorem initialOf_eq (h : Grounded spec def_) (id : StateId) :
    initialOf def_ id = .ok (def_.initialOf id) := by
  rw [initialOf, find_state h]
  rfl

theorem entryActions_eq (h : Grounded spec def_) (id : StateId) :
    entryActions def_ id = .ok (def_.entryActions id) := by
  rw [entryActions, find_state h]
  rfl

theorem exitActions_eq (h : Grounded spec def_) (id : StateId) :
    exitActions def_ id = .ok (def_.exitActions id) := by
  rw [exitActions, find_state h]
  rfl

theorem follow_parents (h : Grounded spec def_) (halt : StateId → Bool) (start : Option StateId) :
    follow (parentOf def_) halt def_.states.length start =
      .ok ((def_.ancestry start).takeWhile (fun a => !halt a), (def_.ancestry start).find? halt) := by
  have hFalls : Forest.Falls def_.parentOf spec.rank := h.parentOf_eq ▸ h.falls
  apply follow_walk (parentOf_eq h) hFalls
  intro a _
  rw [h.states_length]
  exact h.rank_lt a

theorem isStrictDescendant_eq (h : Grounded spec def_) (a b : StateId) :
    isStrictDescendant def_ a b = .ok (def_.isStrictDescendant a b) := by
  rw [isStrictDescendant, parentOf_eq h]
  show (follow (parentOf def_) _ _ (def_.parentOf a) >>= _) = _
  rw [follow_parents h, CompiledDefinition.isStrictDescendant]
  show Except.ok ((def_.ancestry (def_.parentOf a)).find? _).isSome = _
  congr 1
  rw [Bool.eq_iff_iff, List.find?_isSome, List.contains_iff_mem]
  simp

theorem checkLocalTarget_lift (h : Grounded spec def_) (t : CompiledTransition) :
    checkLocalTarget def_ t = lift (def_.checkLocalTarget t) := by
  rw [checkLocalTarget, CompiledDefinition.checkLocalTarget]
  cases t.kind with
  | internal => rfl
  | external target => rfl
  | «local» target =>
      simp only [isStrictDescendant_eq h]
      show (if def_.isStrictDescendant target t.source then _ else _) =
        lift (if def_.isStrictDescendant target t.source then _ else _)
      split_ifs <;> rfl

theorem ancestry_eq (h : Grounded spec def_) (start : Option StateId) :
    ancestry def_ start = .ok (def_.ancestry start) := by
  rw [ancestry, follow_parents h]
  show Except.ok ((def_.ancestry start).takeWhile _) = _
  rw [List.takeWhile_eq_self_iff.mpr (by simp)]

theorem ancestryBelow_eq (h : Grounded spec def_) (id : StateId) (domain : Option StateId) :
    ancestryBelow def_ id domain = .ok (def_.ancestryBelow id domain) := by
  rw [ancestryBelow, follow_parents h, CompiledDefinition.ancestryBelow]
  show Except.ok ((def_.ancestry (some id)).takeWhile _) = _
  simp

theorem initialChain_eq (h : Grounded spec def_) (id : StateId) :
    initialChain def_ id = .ok (def_.initialChain id) := by
  have hFollow := @follow_walk (initialOf def_) def_.initialOf spec.height (initialOf_eq h)
    (h.initialOf_eq ▸ h.falls_initialOf) (fun _ => false) def_.states.length (def_.initialOf id) (by
      intro a ha
      rw [h.initialOf_eq] at ha
      have hDepth := h.depthOf_parent (h.parentOf_of_initialOf ha)
      rw [h.states_length, DefinitionSpec.height]
      omega)
  rw [initialChain, initialOf_eq h]
  show (follow (initialOf def_) _ _ (def_.initialOf id) >>= _) = _
  rw [hFollow]
  show Except.ok ((Forest.walk def_.initialOf _ _).takeWhile _) = _
  rw [List.takeWhile_eq_self_iff.mpr (by simp)]
  rfl

theorem strictCommonAncestor_eq (h : Grounded spec def_) (a b : StateId) :
    strictCommonAncestor def_ a b = .ok (def_.strictCommonAncestor a b) := by
  rw [strictCommonAncestor, ancestry_eq h, Check.ok_bind, follow_parents h, Check.ok_bind,
    CompiledDefinition.strictCommonAncestor]
  cases (def_.ancestry (some b)).find? fun s => decide (s ∈ def_.ancestry (some a)) with
  | none => rfl
  | some l =>
      simp only [parentOf_eq h]
      split_ifs <;> rfl

end Graph

/-! The tables. -/

section Tables

variable {spec : DefinitionSpec} {def_ : CompiledDefinition}

/-- The positions of the elements that satisfy a condition lead back to them. -/
theorem read_positions {α : Type} (list : List α) (p : α → Bool) :
    Check.collect (read list) ((list.zipIdx.filter fun (a, _) => p a).map Prod.snd) =
      .ok (list.filter p) := by
  have hKept : list.filter p = (list.zipIdx.filter fun (a, _) => p a).map Prod.fst := by
    conv_lhs => rw [← List.zipIdx_map_fst 0 list]
    rw [List.filter_map]
    rfl
  rw [Check.collect_eq_ok, hKept, List.forall₂_map_left_iff, List.forall₂_map_right_iff,
    List.forall₂_same]
  rintro ⟨a, i⟩ hMem
  have hAt := List.mk_mem_zipIdx_iff_getElem?.mp (List.mem_filter.mp hMem).1
  rw [read, hAt]

theorem group_eq (key : StateId × EventKind) : group def_ key = .ok (def_.group key) := by
  rw [group, read_positions def_.transitions fun t => decide ((t.source, t.event) = key)]
  rfl

theorem buildCandidates_lift : buildCandidates def_ = lift def_.buildCandidates := by
  apply bind_lift
  · apply collect_lift
    intro key _
    rw [buildGroup, group_eq]
    show (lift (CompiledDefinition.checkPriorities (def_.group key)) >>= _) = _
    apply bind_lift rfl
    intro _ _
    exact bind_lift rfl fun _ _ => rfl
  · exact fun _ _ => rfl

/-- Every entered transition id leads to a transition. -/
theorem find_transition
    (hIndexed : ∀ id, (def_.transitionIndex.lookup id).isSome = (def_.transition id).isSome)
    (id : TransitionId) :
    find def_.transitionIndex def_.transitions id = .ok (def_.transition id) := by
  have hIndexed := hIndexed id
  rw [CompiledDefinition.transition] at hIndexed ⊢
  rw [find]
  cases hLookup : def_.transitionIndex.lookup id with
  | none => rfl
  | some i =>
      rw [hLookup, Option.bind_some] at hIndexed
      obtain ⟨t, hAt⟩ := Option.isSome_iff_exists.mp hIndexed.symm
      rw [Option.bind_some, hAt]
      simp only [read, hAt]
      rfl

theorem guardsAlong_eq (h : Grounded spec def_)
    (hIndexed : ∀ id, (def_.transitionIndex.lookup id).isSome = (def_.transition id).isSome)
    (leaf : StateId) (event : EventKind) :
    guardsAlong def_ leaf event = .ok (def_.guardsAlong leaf event) := by
  rw [guardsAlong, ancestry_eq h]
  apply foldlM_ok
  intro state _ guards
  apply foldlM_ok
  intro id _ guards
  rw [find_transition hIndexed, Check.ok_bind]
  cases (def_.transition id).bind CompiledTransition.guard <;> rfl

theorem buildRequiredGuards_eq (h : Grounded spec def_)
    (hIndexed : ∀ id, (def_.transitionIndex.lookup id).isSome = (def_.transition id).isSome) :
    buildRequiredGuards def_ = .ok def_.buildRequiredGuards := by
  have hTable : ∀ leaves : List StateId, Check.collect (fun leaf => Check.collect (fun event =>
        (guardsAlong def_ leaf event >>= fun guards => Except.ok ((leaf, event), guards)))
          def_.events) leaves =
      .ok (leaves.map fun leaf => def_.events.map fun event =>
        ((leaf, event), def_.guardsAlong leaf event)) := by
    intro leaves
    apply collect_ok
    intro leaf _
    apply collect_ok
    intro event _
    rw [guardsAlong_eq h hIndexed]
    rfl
  have hKept : ∀ leaves : List StateId, ((leaves.map fun leaf => def_.events.map fun event =>
        ((leaf, event), def_.guardsAlong leaf event)).flatten.filter fun entry => !entry.2.isEmpty) =
      leaves.flatMap fun leaf => def_.events.filterMap fun event =>
        if (def_.guardsAlong leaf event).isEmpty then none
        else some ((leaf, event), def_.guardsAlong leaf event) := by
    intro leaves
    rw [List.filter_flatten, List.map_map, List.flatMap]
    congr 1
    apply List.map_congr_left
    intro leaf _
    show (def_.events.map _).filter _ = _
    rw [← List.filterMap_eq_filter, List.filterMap_map]
    congr 1
    funext event
    show Option.guard _ _ = _
    cases hEmpty : (def_.guardsAlong leaf event).isEmpty <;> simp [Option.guard, hEmpty]
  rw [buildRequiredGuards]
  show (Check.collect _ _ >>= _) = _
  rw [hTable, CompiledDefinition.buildRequiredGuards, ← hKept]
  rfl

end Tables

/-! Sums. -/

section Sums

variable {spec : DefinitionSpec} {def_ : CompiledDefinition}

theorem add_eq {a b : Nat} (h : a + b < 2 ^ 32) : add a b = .ok (add32 a b) := by
  rw [add_ok h, add32_of_lt h]

/-- A sum that fits is added up without overflow. -/
theorem sumActions_ok {actions' : StateId → Except Stop (List ActionId)}
    {actions : StateId → List ActionId} (hActions : ∀ s, actions' s = .ok (actions s))
    {states : List StateId} (hFits : (states.flatMap actions).length < 2 ^ 32) :
    sumActions actions' states = .ok (CompiledDefinition.sumActions actions states) := by
  have hFrom : ∀ (states : List StateId) (start : Nat),
      start + (states.flatMap actions).length < 2 ^ 32 →
      states.foldlM (fun total s => do add total (Word.asU32 (← actions' s).length)) start =
        .ok (start + (states.flatMap actions).length) := by
    intro states
    induction states with
    | nil => exact fun _ _ => rfl
    | cons s rest ih =>
        intro start hFits
        rw [List.flatMap_cons, List.length_append] at hFits ⊢
        rw [List.foldlM_cons, hActions]
        show (add start (Word.asU32 (actions s).length) >>= _) = _
        rw [Word.asU32_of_lt (n := (actions s).length) (by omega), add_ok (by omega),
          ← Nat.add_assoc]
        exact ih _ (by omega)
  have hSum := hFrom states 0 (by omega)
  rw [Nat.zero_add, ← sumActions_eq hFits] at hSum
  exact hSum

theorem sumEntries_eq (h : Grounded spec def_) (hActions : spec.actionCount < 2 ^ 32)
    {states : List StateId} (hNodup : states.Nodup) :
    sumActions (entryActions def_) states =
      .ok (CompiledDefinition.sumActions def_.entryActions states) := by
  apply sumActions_ok (entryActions_eq h)
  have hLe := entryCount_le h.idsNodup hNodup
  have hFits := entries_lt hActions
  rw [h.entryActions_eq]
  show spec.entryCount states < _
  omega

theorem sumExits_eq (h : Grounded spec def_) (hActions : spec.actionCount < 2 ^ 32)
    {states : List StateId} (hNodup : states.Nodup) :
    sumActions (exitActions def_) states =
      .ok (CompiledDefinition.sumActions def_.exitActions states) := by
  apply sumActions_ok (exitActions_eq h)
  have hLe := exitCount_le h.idsNodup hNodup
  have hFits := exits_lt hActions
  rw [h.exitActions_eq]
  show spec.exitCount states < _
  omega

theorem initialChainActions_eq (h : Grounded spec def_) (hActions : spec.actionCount < 2 ^ 32)
    (id : StateId) : initialChainActions def_ id = .ok (def_.initialChainActions id) := by
  rw [initialChainActions, initialChain_eq h, Check.ok_bind]
  exact sumEntries_eq h hActions (h.falls_initialOf.ascent_nodup (h.ascent_initialChain id))

theorem entryActionsBetween_eq (h : Grounded spec def_) (hActions : spec.actionCount < 2 ^ 32)
    (domain : Option StateId) (target : StateId) :
    entryActionsBetween def_ domain target = .ok (def_.entryActionsBetween domain target) := by
  rw [entryActionsBetween, ancestryBelow_eq h, Check.ok_bind]
  exact sumEntries_eq h hActions (h.ancestryBelow_nodup target domain)

theorem exitActionsBetween_eq (h : Grounded spec def_) (hActions : spec.actionCount < 2 ^ 32)
    (from_ : StateId) (domain : Option StateId) :
    exitActionsBetween def_ from_ domain = .ok (def_.exitActionsBetween from_ domain) := by
  rw [exitActionsBetween, ancestryBelow_eq h, Check.ok_bind]
  exact sumExits_eq h hActions (h.ancestryBelow_nodup from_ domain)

theorem addExits_eq (h : Grounded spec def_) (hActions : spec.actionCount < 2 ^ 32) {s : StateSpec}
    (hs : s ∈ spec.states) {count : Nat} (hWorst : IsWorstExit spec s.id count) :
    add (Word.asU32 s.exit.length) count = .ok (add32 (Word.asU32 s.exit.length) count) := by
  have hFits := h.exits_fit hActions hs hWorst
  apply add_eq
  rwa [Word.asU32_of_lt (n := s.exit.length) (by omega)]

/-- The tree below a state, itself included, has at most so many levels. -/
def Within (spec : DefinitionSpec) (id : StateId) (levels : Nat) : Prop :=
  ∀ s ∈ spec.states, Forest.Reaches spec.parentOf s.id id →
    spec.depthOf s.id < spec.depthOf id + levels

theorem Within.child (h : Grounded spec def_) {id child : StateId} {levels : Nat}
    (hWithin : Within spec id (levels + 1)) (hParent : spec.parentOf child = some id) :
    Within spec child levels := by
  intro s hs hReaches
  have hLevel := hWithin s hs (hReaches.tail hParent)
  have hDepth := h.depthOf_parent hParent
  omega

/-- A tree that is too deep is too deep below one of the children. -/
theorem exists_child_not_within (h : Grounded spec def_) {id : StateId} {levels : Nat}
    (hDeep : ¬Within spec id (levels + 1)) :
    ∃ child ∈ spec.states, child.parent = some id ∧ ¬Within spec child.id levels := by
  simp only [Within, not_forall] at hDeep
  obtain ⟨s, hs, hReaches, hLevel⟩ := hDeep
  rcases Forest.reaches_iff_eq_or_above.mp hReaches with rfl | hAbove
  · omega
  · obtain ⟨c, hReach, hLink⟩ := Relation.TransGen.tail'_iff.mp hAbove
    obtain ⟨child, hChild, rfl, hParent⟩ := (parentOf_eq_some h.idsNodup).mp hLink
    refine ⟨child, hChild, hParent, fun hWithin => ?_⟩
    have hBelow := hWithin s hs hReach
    have hDepth := h.depthOf_parent hLink
    omega

/-- The recursion over children returns while the stack has room for every level. -/
theorem maxExitBelow_eq (h : Grounded spec def_) (hActions : spec.actionCount < 2 ^ 32)
    {stack fuel : Nat} {state : StateId} (hKnown : (spec.findState state).isSome)
    (hFuel : spec.height state < fuel) (hWithin : Within spec state stack) :
    maxExitBelow def_ stack state = .ok (def_.maxExitBelow fuel state) := by
  induction stack generalizing state fuel with
  | zero =>
      obtain ⟨s, hs, rfl⟩ := declares_iff.mpr hKnown
      exact absurd (hWithin s hs .refl) (Nat.lt_irrefl _)
  | succ stack ih =>
      cases fuel with
      | zero => exact absurd hFuel (Nat.not_lt_zero _)
      | succ fuel =>
          rw [maxExitBelow, CompiledDefinition.maxExitBelow, h.states]
          apply foldlM_ok
          simp only [List.forall_mem_map]
          intro s hs best
          show (if s.parent = some state then _ else _) =
            Except.ok (if s.parent = some state then _ else _)
          split_ifs with hParent
          · have hHeight := h.child_height hs hParent
            have hChild : (spec.findState s.id).isSome := by simp [findState_of_mem h.idsNodup hs]
            have hWorst : IsWorstExit spec s.id (def_.maxExitBelow fuel s.id) :=
              h.maxExitBelow_worst hActions hChild (by omega)
            have hLink : spec.parentOf s.id = some state := by
              rw [parentOf_id h.idsNodup hs, hParent]
            have hBelow : maxExitBelow def_ stack s.id = .ok (def_.maxExitBelow fuel s.id) :=
              ih hChild (by omega) (hWithin.child h hLink)
            show (maxExitBelow def_ stack s.id >>= _) = _
            rw [hBelow, Check.ok_bind]
            show (add (Word.asU32 s.exit.length) (def_.maxExitBelow fuel s.id) >>= _) = _
            rw [addExits_eq h hActions hs hWorst]
            rfl
          · rfl

theorem exitBelow_eq (h : Grounded spec def_) (hActions : spec.actionCount < 2 ^ 32) {stack : Nat}
    {id : StateId} (hKnown : (spec.findState id).isSome) (hWithin : Within spec id stack) :
    maxExitBelow def_ stack id = .ok (def_.maxExitBelow def_.states.length id) :=
  maxExitBelow_eq h hActions hKnown (h.states_length ▸ h.height_lt hKnown) hWithin

/-- One turn of a loop over the children, or over the states on the top level. -/
theorem exitThrough_eq (h : Grounded spec def_) (hActions : spec.actionCount < 2 ^ 32) {stack : Nat}
    {s : StateSpec} (hs : s ∈ spec.states) (hWithin : Within spec s.id stack) (best : Nat) :
    (do
      let total ← add (Word.asU32 s.exit.length) (← maxExitBelow def_ stack s.id)
      Except.ok (max best total)) =
      .ok (max best (add32 (Word.asU32 s.exit.length)
        (def_.maxExitBelow def_.states.length s.id))) := by
  have hKnown : (spec.findState s.id).isSome := by simp [findState_of_mem h.idsNodup hs]
  rw [exitBelow_eq h hActions hKnown hWithin, Check.ok_bind,
    addExits_eq h hActions hs (h.exit_worst hActions hKnown)]
  rfl

/-- It overruns the stack below a state with more levels. -/
theorem maxExitBelow_overruns (h : Grounded spec def_) (hActions : spec.actionCount < 2 ^ 32)
    {stack : Nat} {state : StateId} (hDeep : ¬Within spec state stack) :
    maxExitBelow def_ stack state = .error .overrun := by
  induction stack generalizing state with
  | zero => rfl
  | succ stack ih =>
      obtain ⟨child, hChild, hParent, hBelow⟩ := exists_child_not_within h hDeep
      rw [maxExitBelow, h.states]
      apply foldlM_stops
      · simp only [List.forall_mem_map]
        intro s hs
        by_cases hLink : s.parent = some state
        · by_cases hWithin : Within spec s.id stack
          · exact Or.inl fun best =>
              ⟨_, (if_pos hLink).trans (exitThrough_eq h hActions hs hWithin best)⟩
          · refine Or.inr fun best => (if_pos hLink).trans ?_
            show (maxExitBelow def_ stack s.id >>= _) = _
            rw [ih hWithin]
            rfl
        · exact Or.inl fun best => ⟨best, if_neg hLink⟩
      · refine ⟨_, List.mem_map_of_mem hChild, fun best => (if_pos hParent).trans ?_⟩
        show (maxExitBelow def_ stack child.id >>= _) = _
        rw [ih hBelow]
        rfl

/-- The sums of the largest plan of a transition do not overflow. -/
theorem worstCaseActions_eq (h : Grounded spec def_) (hActions : spec.actionCount < 2 ^ 32)
    {stack : Nat} {t : TransitionSpec} (ht : t ∈ spec.transitions)
    (hSource : (spec.findState t.source).isSome) (hWithin : Within spec t.source stack)
    (hLocal : ∀ target, t.kind = .local target → Forest.Above spec.parentOf target t.source) :
    worstCaseActions stack def_ (compileTransition t) =
      .ok (def_.worstCaseActions (compileTransition t)) := by
  have hWorst := h.exit_worst hActions hSource
  have hOwn : (compileTransition t).actions.length = t.actions.length := rfl
  have hHere : (compileTransition t).source = t.source := rfl
  have hOwnFits : t.actions.length < 2 ^ 32 := by
    have hOwn := actions_le ht
    rw [DefinitionSpec.actionCount] at hActions
    omega
  rw [worstCaseActions, CompiledDefinition.worstCaseActions, hOwn, Word.asU32_of_lt hOwnFits, hHere]
  cases hKind : t.kind with
  | internal =>
      have hKind' : (compileTransition t).kind = .internal := hKind
      simp only [hKind']
  | «local» target =>
      have hKind' : (compileTransition t).kind = .local target := hKind
      simp only [hKind', exitBelow_eq h hActions hSource hWithin, entryActionsBetween_eq h hActions,
        initialChainActions_eq h hActions, Check.ok_bind]
      have hReaches : ∀ d, some t.source = some d → Forest.Reaches spec.parentOf target d :=
        fun d hd => Option.some.inj hd ▸ (hLocal target hKind).reaches
      obtain ⟨entered, hEnters, hEntries⟩ := h.entries_eq hActions hReaches
      have hFits := h.crossing_fits hActions ht hWorst .nil hEnters
      rw [add_eq (by omega), Check.ok_bind,
        add32_of_lt (a := def_.maxExitBelow def_.states.length t.source) (by omega),
        add_eq (by omega), Check.ok_bind,
        add32_of_lt (b := def_.entryActionsBetween (some t.source) target) (by omega),
        add_eq (by omega)]
  | external target =>
      have hKind' : (compileTransition t).kind = .external target := hKind
      simp only [hKind', strictCommonAncestor_eq h, exitBelow_eq h hActions hSource hWithin,
        exitActionsBetween_eq h hActions, entryActionsBetween_eq h hActions,
        initialChainActions_eq h hActions, Check.ok_bind]
      obtain ⟨-, hSourceReaches, hReaches⟩ := h.external_domain hKind
      obtain ⟨entered, hEnters, hEntries⟩ := h.entries_eq hActions hReaches
      have hFits := h.crossing_fits hActions ht hWorst (h.ascent_ancestryBelow hSourceReaches) hEnters
      rw [← h.exitActionsBetween_count hActions] at hFits
      rw [add_eq (by omega), Check.ok_bind,
        add32_of_lt (a := def_.maxExitBelow def_.states.length t.source) (by omega),
        add_eq (by omega), Check.ok_bind, add32_of_lt (b := t.actions.length) (by omega),
        add_eq (by omega), Check.ok_bind,
        add32_of_lt (b := def_.entryActionsBetween _ target) (by omega), add_eq (by omega)]

/-- How many levels the tree has. -/
def Shallow (spec : DefinitionSpec) (stack : Nat) : Prop :=
  ∀ s ∈ spec.states, ∀ nodes, Forest.Ascent spec.parentOf none (some s.id) nodes →
    nodes.length ≤ stack

theorem depthOf_ascent (h : Grounded spec def_) {s : StateSpec} (hs : s ∈ spec.states) :
    ∃ nodes, Forest.Ascent spec.parentOf none (some s.id) nodes ∧
      nodes.length = spec.depthOf s.id := by
  obtain ⟨nodes, hAscent, hDepth, -⟩ := h.depthOf_eq (declares_iff.mp ⟨s, hs, rfl⟩)
  refine ⟨s.id :: nodes, .cons (Option.some_ne_none _) hAscent, ?_⟩
  rw [List.length_cons]
  omega

theorem shallow_iff (h : Grounded spec def_) {stack : Nat} :
    Shallow spec stack ↔ ∀ s ∈ spec.states, spec.depthOf s.id ≤ stack := by
  constructor
  · intro hShallow s hs
    obtain ⟨nodes, hAscent, hLength⟩ := depthOf_ascent h hs
    exact hLength ▸ hShallow s hs nodes hAscent
  · intro hDepths s hs nodes hAscent
    obtain ⟨nodes', hAscent', hLength⟩ := depthOf_ascent h hs
    rw [hAscent.unique hAscent', hLength]
    exact hDepths s hs

/-- Where the tree fits the stack, so does each part of it. -/
theorem Shallow.within (h : Grounded spec def_) {stack : Nat} (hShallow : Shallow spec stack)
    {id : StateId} (hKnown : (spec.findState id).isSome) : Within spec id stack := by
  obtain ⟨nodes, -, hDepth, -⟩ := h.depthOf_eq hKnown
  intro s hs _
  have hLevel := (shallow_iff h).mp hShallow s hs
  omega

/-- A tree that outgrows the stack does so below a state on the top level. -/
theorem exists_top_not_within (h : Grounded spec def_) {stack : Nat}
    (hDeep : ¬Shallow spec stack) :
    ∃ top ∈ spec.states, top.parent = none ∧ ¬Within spec top.id stack := by
  simp only [Shallow, not_forall] at hDeep
  obtain ⟨s, hs, nodes, hAscent, hLong⟩ := hDeep
  obtain ⟨nodes', hAscent', hLength⟩ := depthOf_ascent h hs
  rw [hAscent.unique hAscent'] at hLong
  obtain ⟨front, id, -, hTop, hFront⟩ := hAscent.top
  have hReaches := hFront.reaches.2 id rfl
  obtain ⟨top, hMem, rfl⟩ := declares_iff.mpr
    (h.known_of_reaches (declares_iff.mp ⟨s, hs, rfl⟩) hReaches)
  refine ⟨top, hMem, by rw [← parentOf_id h.idsNodup hMem, hTop], fun hWithin => ?_⟩
  obtain ⟨above, hAbove, hDepth, -⟩ := h.depthOf_eq (declares_iff.mp ⟨top, hMem, rfl⟩)
  rw [hTop] at hAbove
  cases hAbove
  have hLevel := hWithin s hs hReaches
  rw [List.length_nil] at hDepth
  omega

/-- The first sum of the last pass. -/
theorem start_eq (h : Grounded spec def_) (hActions : spec.actionCount < 2 ^ 32) :
    add (Word.asU32 (def_.entryActions def_.rootInitial).length)
      (def_.initialChainActions def_.rootInitial) = .ok def_.startActions :=
  add_eq (h.start_fits hActions)

/-- The last pass returns, with the bound or its refusal, if it does not reach the recursion or
the stack has room for it. -/
theorem computeMaxPlanActions_lift (h : Grounded spec def_) (hActions : spec.actionCount < 2 ^ 32)
    {stack : Nat}
    (hStack : def_.startActions ≤ def_.limits.maxActionsPerPlan → Shallow spec stack)
    (hStored : def_.transitions = spec.transitions.map compileTransition)
    (hSources : ∀ t ∈ spec.transitions, (spec.findState t.source).isSome)
    (hLocal : ∀ t ∈ spec.transitions, ∀ target, t.kind = .local target →
      Forest.Above spec.parentOf target t.source) :
    computeMaxPlanActions stack def_ = lift def_.computeMaxPlanActions := by
  rw [computeMaxPlanActions, CompiledDefinition.computeMaxPlanActions]
  simp only [entryActions_eq h, initialChainActions_eq h hActions, Check.ok_bind,
    start_eq h hActions]
  apply unless_lift
  intro hStart
  have hShallow := hStack (Nat.le_of_not_lt hStart)
  have hStop : def_.states.foldlM (fun stop s =>
      if s.parent.isNone then do
        let total ← add (Word.asU32 s.exit.length) (← maxExitBelow def_ stack s.id)
        .ok (max stop total)
      else .ok stop) 0 = .ok def_.stopActions := by
    apply foldlM_ok
    rw [h.states]
    simp only [List.forall_mem_map]
    intro s hs stop
    rw [← h.states]
    show (if s.parent.isNone then _ else _) = Except.ok (if s.parent.isNone then _ else _)
    split_ifs
    · exact exitThrough_eq h hActions hs (hShallow.within h (declares_iff.mp ⟨s, hs, rfl⟩)) stop
    · rfl
  rw [hStop, Check.ok_bind]
  apply unless_lift
  intro _
  apply bind_lift
  · apply collect_lift
    rw [hStored, List.forall_mem_map]
    intro t ht
    rw [worstCaseActions_eq h hActions ht (hSources t ht) (hShallow.within h (hSources t ht))
      (hLocal t ht), Check.ok_bind]
    split_ifs <;> rfl
  · exact fun _ _ => rfl

/-- Otherwise it overruns the stack. -/
theorem computeMaxPlanActions_overruns (h : Grounded spec def_)
    (hActions : spec.actionCount < 2 ^ 32) {stack : Nat}
    (hStart : def_.startActions ≤ def_.limits.maxActionsPerPlan) (hDeep : ¬Shallow spec stack) :
    computeMaxPlanActions stack def_ = .error .overrun := by
  obtain ⟨top, hTop, hParent, hBelow⟩ := exists_top_not_within h hDeep
  rw [computeMaxPlanActions]
  simp only [entryActions_eq h, initialChainActions_eq h hActions, Check.ok_bind,
    start_eq h hActions]
  refine (if_neg (Nat.not_lt.mpr hStart)).trans ?_
  have hStop : def_.states.foldlM (fun stop s =>
      if s.parent.isNone then do
        let total ← add (Word.asU32 s.exit.length) (← maxExitBelow def_ stack s.id)
        .ok (max stop total)
      else .ok stop) 0 = .error .overrun := by
    rw [h.states]
    apply foldlM_stops
    · simp only [List.forall_mem_map]
      intro s hs
      by_cases hRoot : s.parent.isNone
      · by_cases hWithin : Within spec s.id stack
        · exact Or.inl fun stop =>
            ⟨_, (if_pos hRoot).trans (exitThrough_eq h hActions hs hWithin stop)⟩
        · refine Or.inr fun stop => (if_pos hRoot).trans ?_
          show (maxExitBelow def_ stack s.id >>= _) = _
          rw [maxExitBelow_overruns h hActions hWithin]
          rfl
      · exact Or.inl fun stop => ⟨stop, if_neg hRoot⟩
    · have hRoot : top.parent.isNone := by rw [hParent]; rfl
      refine ⟨_, List.mem_map_of_mem hTop, fun stop => (if_pos hRoot).trans ?_⟩
      show (maxExitBelow def_ stack top.id >>= _) = _
      rw [maxExitBelow_overruns h hActions hBelow]
      rfl
  rw [hStop]
  rfl

end Sums

end Hfsm.Strict

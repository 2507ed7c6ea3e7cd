import LumioNativeCore.Hfsm.WellFormed

/-! The worst-case pass of `compile`. Its sums are taken along ascents of the forest, over
distinct states, and so do not overflow; each maximum is that of a plan on some leaf. -/
namespace Hfsm

/-- The number of exit actions of some states, and of entry actions. -/
def DefinitionSpec.exitCount (spec : DefinitionSpec) (states : List StateId) : Nat :=
  (states.flatMap spec.exitActions).length

def DefinitionSpec.entryCount (spec : DefinitionSpec) (states : List StateId) : Nat :=
  (states.flatMap spec.entryActions).length

/-- `count` is the largest number of exit actions between a leaf and `state`, without `state`. -/
structure IsWorstExit (spec : DefinitionSpec) (state : StateId) (count : Nat) : Prop where
  bound : ∀ leaf exited, spec.IsLeaf leaf →
    Forest.Ascent spec.parentOf (some state) (some leaf) exited → spec.exitCount exited ≤ count
  reached : ∃ leaf exited, spec.IsLeaf leaf ∧
    Forest.Ascent spec.parentOf (some state) (some leaf) exited ∧ spec.exitCount exited = count

/-! Sums. -/

section Sums

variable {spec : DefinitionSpec}

theorem exitCount_append (first second : List StateId) :
    spec.exitCount (first ++ second) = spec.exitCount first + spec.exitCount second := by
  rw [DefinitionSpec.exitCount, List.flatMap_append, List.length_append]
  rfl

theorem entryCount_append (first second : List StateId) :
    spec.entryCount (first ++ second) = spec.entryCount first + spec.entryCount second := by
  rw [DefinitionSpec.entryCount, List.flatMap_append, List.length_append]
  rfl

/-- The wrapping sum does not wrap while the whole sum fits. -/
theorem sumActions_eq {actions : StateId → List ActionId} {states : List StateId}
    (h : (states.flatMap actions).length < 2 ^ 32) :
    CompiledDefinition.sumActions actions states = (states.flatMap actions).length := by
  have hFrom : ∀ (states : List StateId) (start : Nat), start + (states.flatMap actions).length < 2 ^ 32 →
      states.foldl (fun total s => add32 total (Word.asU32 (actions s).length)) start =
        start + (states.flatMap actions).length := by
    intro states
    induction states with
    | nil => exact fun _ _ => rfl
    | cons s rest ih =>
        intro start hFits
        rw [List.flatMap_cons, List.length_append] at hFits ⊢
        rw [List.foldl_cons, add32, Word.asU32_of_lt (n := (actions s).length) (by omega),
          Word.asU32_of_lt (by omega), ih _ (by omega)]
        omega
  rw [CompiledDefinition.sumActions, hFrom states 0 (by omega), Nat.zero_add]

/-- Distinct states have at most the actions of all states together. -/
theorem flatMap_length_le (hNodup : (spec.states.map StateSpec.id).Nodup)
    (read : StateSpec → List ActionId) {states : List StateId} (hStates : states.Nodup) :
    (states.flatMap fun id => ((spec.findState id).map read).getD []).length ≤
      (spec.states.map fun s => (read s).length).sum := by
  have hAll : (spec.states.map fun s => (read s).length).sum =
      ((spec.states.map StateSpec.id).map fun id =>
        (((spec.findState id).map read).getD []).length).sum := by
    rw [List.map_map]
    congr 1
    apply List.map_congr_left
    intro s hs
    simp [findState_of_mem hNodup hs]
  rw [hAll, List.length_flatMap, ← List.sum_toFinset _ hStates, ← List.sum_toFinset _ hNodup]
  apply Finset.sum_le_sum_of_ne_zero
  intro id _ hSome
  rw [List.mem_toFinset]
  cases hFind : spec.findState id with
  | none => simp [hFind] at hSome
  | some s =>
      obtain ⟨hs, rfl⟩ := mem_of_findState hFind
      exact List.mem_map_of_mem hs

theorem exitCount_le (hNodup : (spec.states.map StateSpec.id).Nodup) {states : List StateId}
    (hStates : states.Nodup) :
    spec.exitCount states ≤ (spec.states.map fun s => s.exit.length).sum :=
  flatMap_length_le hNodup StateSpec.exit hStates

theorem entryCount_le (hNodup : (spec.states.map StateSpec.id).Nodup) {states : List StateId}
    (hStates : states.Nodup) :
    spec.entryCount states ≤ (spec.states.map fun s => s.entry.length).sum :=
  flatMap_length_le hNodup StateSpec.entry hStates

theorem add32_of_lt {a b : Nat} (h : a + b < 2 ^ 32) : add32 a b = a + b := Word.asU32_of_lt h

/-- Some element of a list that is not empty has the largest value. -/
theorem exists_foldl_max {α : Type} {list : List α} (hSome : list ≠ []) (value : α → Nat) :
    ∃ a ∈ list, value a = (list.map value).foldl max 0 := by
  rcases foldl_max_mem (list.map value) 0 with hZero | hMem
  · obtain ⟨a, ha⟩ := List.exists_mem_of_ne_nil _ hSome
    have hLe := (le_foldl_max (list.map value) 0).2 _ (List.mem_map_of_mem ha)
    exact ⟨a, ha, by omega⟩
  · exact List.mem_map.mp hMem

/-- A maximum over the states that satisfy a condition. -/
theorem foldl_max_if {α : Type} {p : α → Prop} [DecidablePred p] {value : α → Nat}
    (list : List α) :
    list.foldl (fun best a => if p a then max best (value a) else best) 0 =
      ((list.filter fun a => decide (p a)).map value).foldl max 0 := by
  rw [List.foldl_map, List.foldl_filter]
  simp

end Sums
/-! Exits below a state. -/

section Exits

variable {spec : DefinitionSpec} {def_ : CompiledDefinition}

theorem exits_lt (hActions : spec.actionCount < 2 ^ 32) :
    (spec.states.map fun s => s.exit.length).sum < 2 ^ 32 := by
  rw [DefinitionSpec.actionCount] at hActions
  omega

theorem exitCount_singleton (hNodup : (spec.states.map StateSpec.id).Nodup) {s : StateSpec}
    (hs : s ∈ spec.states) : spec.exitCount [s.id] = s.exit.length := by
  simp [DefinitionSpec.exitCount, DefinitionSpec.exitActions, findState_of_mem hNodup hs]

theorem Grounded.known_of_reaches (h : Grounded spec def_) {a b : StateId}
    (hKnown : (spec.findState a).isSome) (hReach : Forest.Reaches spec.parentOf a b) :
    (spec.findState b).isSome := by
  rcases Forest.reaches_iff_eq_or_above.mp hReach with rfl | hAbove
  · exact hKnown
  · obtain ⟨c, -, hParent⟩ := Relation.TransGen.tail'_iff.mp hAbove
    exact (h.found_of_parentOf hParent).2

/-- What the passes over children and over top level states add up for one state. -/
theorem Grounded.exits_fit (h : Grounded spec def_) (hActions : spec.actionCount < 2 ^ 32)
    {s : StateSpec} (hs : s ∈ spec.states) {count : Nat} (hWorst : IsWorstExit spec s.id count) :
    s.exit.length + count < 2 ^ 32 := by
  obtain ⟨leaf, exited, hLeaf, hAscent, rfl⟩ := hWorst.reached
  have hNone : Forest.Ascent spec.parentOf none (some s.id) (spec.ancestry s.id) :=
    h.falls.ascent_trail s.id
  have hAll := h.falls.ascent_trans hAscent hNone
  have hNodup : (exited ++ [s.id]).Nodup := by
    have hPrefix : (exited ++ [s.id]).Sublist (exited ++ spec.ancestry s.id) := by
      apply List.Sublist.append_left
      exact List.singleton_sublist.mpr (Forest.mem_trail_self s.id)
    exact (h.falls.ascent_nodup hAll).sublist hPrefix
  have hLe := exitCount_le h.idsNodup hNodup
  rw [exitCount_append, exitCount_singleton h.idsNodup hs] at hLe
  have hFits := exits_lt hActions
  omega

theorem Grounded.exits_through (h : Grounded spec def_) (hActions : spec.actionCount < 2 ^ 32)
    {s : StateSpec} (hs : s ∈ spec.states) {count : Nat} (hWorst : IsWorstExit spec s.id count) :
    add32 (Word.asU32 s.exit.length) count = s.exit.length + count := by
  have hFits := h.exits_fit hActions hs hWorst
  rw [Word.asU32_of_lt (n := s.exit.length) (by omega), add32_of_lt hFits]

theorem Grounded.child_height (h : Grounded spec def_) {s : StateSpec} (hs : s ∈ spec.states)
    {state : StateId} (hParent : s.parent = some state) :
    spec.height s.id < spec.height state := by
  have hLink : spec.parentOf s.id = some state := by
    rw [parentOf_id h.idsNodup hs, hParent]
  have hDepth := h.depthOf_parent hLink
  rw [DefinitionSpec.height, DefinitionSpec.height]
  omega

/-- One step of the recursion: the largest of the children, through each of them. -/
theorem Grounded.worst_of_children (h : Grounded spec def_) {state : StateId}
    (hState : (spec.findState state).isSome) {value : StateSpec → Nat}
    (hChild : ∀ s ∈ spec.states, s.parent = some state → ∃ below,
      IsWorstExit spec s.id below ∧ value s = s.exit.length + below) :
    IsWorstExit spec state
      (((spec.states.filter fun s => decide (s.parent = some state)).map value).foldl max 0) := by
  have hStep : ∀ s ∈ spec.states, s.parent = some state →
      Forest.Ascent spec.parentOf (some state) (some s.id) [s.id] := by
    intro s hs hParent
    have hLink : spec.parentOf s.id = some state := by
      rw [parentOf_id h.idsNodup hs, hParent]
    apply Forest.Ascent.cons
    · intro hSame
      have hFall := h.falls s.id state hLink
      rw [Option.some.inj hSame] at hFall
      exact Nat.lt_irrefl _ hFall
    · rw [hLink]
      exact .nil
  constructor
  · intro leaf exited hLeaf hAscent
    rcases Forest.reaches_iff_eq_or_above.mp (hAscent.reaches.2 state rfl) with rfl | hAbove
    · rw [hAscent.unique .nil]
      exact Nat.zero_le _
    · obtain ⟨c, hReach, hLink⟩ := Relation.TransGen.tail'_iff.mp hAbove
      obtain ⟨s, hs, rfl, hParent⟩ := (parentOf_eq_some h.idsNodup).mp hLink
      obtain ⟨front, hFront⟩ := Forest.exists_ascent_of_reaches hReach
      obtain ⟨below, hWorst, hValue⟩ := hChild s hs hParent
      have hBelow := hWorst.bound leaf front hLeaf hFront
      have hMem : value s ∈ (spec.states.filter fun s => decide (s.parent = some state)).map value :=
        List.mem_map_of_mem (List.mem_filter.mpr ⟨hs, decide_eq_true hParent⟩)
      have hMax := (le_foldl_max _ 0).2 _ hMem
      rw [hAscent.unique (h.falls.ascent_trans hFront (hStep s hs hParent)), exitCount_append,
        exitCount_singleton h.idsNodup hs]
      omega
  · by_cases hAny : (spec.states.filter fun s => decide (s.parent = some state)) = []
    · have hLeaf : spec.IsLeaf state := by
        refine ⟨hState, ?_⟩
        cases hInitial : spec.initialOf state with
        | none => rfl
        | some i =>
            obtain ⟨s, hs, -, hParent⟩ :=
              (parentOf_eq_some h.idsNodup).mp (h.parentOf_of_initialOf hInitial)
            exact absurd (decide_eq_true hParent) (List.filter_eq_nil_iff.mp hAny s hs)
      rw [hAny]
      exact ⟨state, [], hLeaf, .nil, rfl⟩
    · obtain ⟨s, hMem, hBest⟩ := exists_foldl_max hAny value
      obtain ⟨hs, hParent⟩ := List.mem_filter.mp hMem
      have hParent := of_decide_eq_true hParent
      obtain ⟨below, hWorst, hValue⟩ := hChild s hs hParent
      obtain ⟨leaf, front, hLeaf, hFront, hCount⟩ := hWorst.reached
      refine ⟨leaf, front ++ [s.id], hLeaf, h.falls.ascent_trans hFront (hStep s hs hParent), ?_⟩
      rw [exitCount_append, exitCount_singleton h.idsNodup hs, hCount, ← hBest, hValue]
      exact Nat.add_comm _ _

/-- The recursion finds the largest exit below a state, before its fuel runs out. -/
theorem Grounded.maxExitBelow_worst (h : Grounded spec def_) (hActions : spec.actionCount < 2 ^ 32)
    {fuel : Nat} {state : StateId} (hState : (spec.findState state).isSome)
    (hFuel : spec.height state < fuel) : IsWorstExit spec state (def_.maxExitBelow fuel state) := by
  induction fuel generalizing state with
  | zero => exact absurd hFuel (Nat.not_lt_zero _)
  | succ fuel ih =>
      rw [CompiledDefinition.maxExitBelow, h.states, List.foldl_map]
      show IsWorstExit spec state (spec.states.foldl (fun best s => if s.parent = some state then
        max best (add32 (Word.asU32 s.exit.length) (def_.maxExitBelow fuel s.id)) else best) 0)
      rw [foldl_max_if]
      apply h.worst_of_children hState
      intro s hs hParent
      have hHeight := h.child_height hs hParent
      have hKnown : (spec.findState s.id).isSome := by simp [findState_of_mem h.idsNodup hs]
      have hBelow := ih hKnown (by omega)
      exact ⟨_, hBelow, h.exits_through hActions hs hBelow⟩

end Exits
/-! Entries down to a leaf. -/

section Entries

variable {spec : DefinitionSpec} {def_ : CompiledDefinition}

/-- Initial links lead strictly below their start. -/
theorem Grounded.initialChain_above (h : Grounded spec def_) {start : Option StateId}
    {chain : List StateId} (hChain : Forest.Ascent spec.initialOf none start chain)
    {state : StateId} (hStart : spec.initialOf state = start) :
    ∀ id ∈ chain, Forest.Above spec.parentOf id state := by
  induction hChain generalizing state with
  | nil => exact List.forall_mem_nil _
  | @cons child rest hStop hRest ih =>
      have hParent := h.parentOf_of_initialOf hStart
      rw [List.forall_mem_cons]
      exact ⟨.single hParent, fun id hId => .tail (ih rfl id hId) hParent⟩

theorem Grounded.enters_nodup (h : Grounded spec def_) {domain : Option StateId}
    {target : StateId} {entered : List StateId} (hEnters : spec.Enters domain target entered) :
    entered.Nodup := by
  cases hEnters with
  | @mk upward chain hUpward hChain =>
      rw [List.nodup_append]
      refine ⟨List.nodup_reverse.mpr (h.falls.ascent_nodup hUpward),
        h.falls_initialOf.ascent_nodup hChain, ?_⟩
      rintro a ha b hb rfl
      have hReach := hUpward.reaches.1 a (List.mem_reverse.mp ha)
      have hAbove := h.initialChain_above hChain rfl a hb
      have hLe := h.falls.rank_le hReach
      have hLt := h.falls.rank_lt hAbove
      omega

theorem entryCount_reverse (states : List StateId) :
    spec.entryCount states.reverse = spec.entryCount states :=
  ((List.reverse_perm states).flatMap_right spec.entryActions).length_eq

theorem entries_lt (hActions : spec.actionCount < 2 ^ 32) :
    (spec.states.map fun s => s.entry.length).sum < 2 ^ 32 := by
  rw [DefinitionSpec.actionCount] at hActions
  omega

/-- The two entry sums of a plan are the entries of the states it enters. -/
theorem Grounded.entries_eq (h : Grounded spec def_) (hActions : spec.actionCount < 2 ^ 32)
    {domain : Option StateId} {target : StateId}
    (hReaches : ∀ d, domain = some d → Forest.Reaches spec.parentOf target d) :
    ∃ entered, spec.Enters domain target entered ∧
      def_.entryActionsBetween domain target + def_.initialChainActions target =
        spec.entryCount entered := by
  have hEnters : spec.Enters domain target
      ((def_.ancestryBelow target domain).reverse ++ def_.initialChain target) :=
    .mk (h.ascent_ancestryBelow hReaches) (h.ascent_initialChain target)
  have hLe := entryCount_le h.idsNodup (h.enters_nodup hEnters)
  have hFits := entries_lt hActions
  refine ⟨_, hEnters, ?_⟩
  rw [entryCount_append, entryCount_reverse] at hLe ⊢
  rw [CompiledDefinition.entryActionsBetween, CompiledDefinition.initialChainActions,
    h.entryActions_eq, sumActions_eq, sumActions_eq]
  · rfl
  · show spec.entryCount _ < _
    omega
  · show spec.entryCount _ < _
    omega

end Entries

/-! The three kinds of plans. -/

section Plans

variable {spec : DefinitionSpec} {def_ : CompiledDefinition}

theorem foldl_max_le_iff {list : List Nat} {bound : Nat} :
    list.foldl max 0 ≤ bound ↔ ∀ n ∈ list, n ≤ bound := by
  constructor
  · intro hMax n hn
    exact ((le_foldl_max list 0).2 n hn).trans hMax
  · intro hAll
    exact foldl_max_le (Nat.zero_le _) hAll

theorem Grounded.height_lt (h : Grounded spec def_) {id : StateId}
    (hKnown : (spec.findState id).isSome) : spec.height id < spec.states.length := by
  obtain ⟨nodes, -, hDepth, -⟩ := h.depthOf_eq hKnown
  have hPos := h.states_pos
  rw [DefinitionSpec.height]
  omega

theorem Grounded.exit_worst (h : Grounded spec def_) (hActions : spec.actionCount < 2 ^ 32) {id : StateId}
    (hKnown : (spec.findState id).isSome) :
    IsWorstExit spec id (def_.maxExitBelow def_.states.length id) :=
  h.maxExitBelow_worst hActions hKnown (h.states_length ▸ h.height_lt hKnown)

theorem Grounded.enters_root (h : Grounded spec def_) :
    spec.Enters none spec.initial ([spec.initial].reverse ++ def_.initialChain spec.initial) := by
  have hUpward : Forest.Ascent spec.parentOf none (some spec.initial) [spec.initial] :=
    .cons (Option.some_ne_none _) (h.rootTop ▸ .nil)
  exact .mk hUpward (h.ascent_initialChain spec.initial)

/-- The plan of a start enters the root initial state and its chain. -/
theorem Grounded.start_sum (h : Grounded spec def_) (hActions : spec.actionCount < 2 ^ 32) :
    Word.asU32 (def_.entryActions def_.rootInitial).length +
        def_.initialChainActions def_.rootInitial =
      spec.entryCount ([spec.initial].reverse ++ def_.initialChain spec.initial) ∧
    spec.entryCount ([spec.initial].reverse ++ def_.initialChain spec.initial) < 2 ^ 32 := by
  have hLe := entryCount_le h.idsNodup (h.enters_nodup h.enters_root)
  have hFits := entries_lt hActions
  rw [entryCount_append] at hLe ⊢
  have hOwn : spec.entryCount [spec.initial].reverse = (spec.entryActions spec.initial).length := by
    simp [DefinitionSpec.entryCount]
  have hChain : CompiledDefinition.sumActions spec.entryActions (def_.initialChain spec.initial) =
      spec.entryCount (def_.initialChain spec.initial) := by
    apply sumActions_eq
    show spec.entryCount _ < _
    omega
  rw [CompiledDefinition.initialChainActions, h.entryActions_eq, h.rootInitial, hChain, hOwn]
  rw [hOwn] at hLe
  rw [Word.asU32_of_lt (n := (spec.entryActions spec.initial).length) (by omega)]
  exact ⟨rfl, by omega⟩

theorem Grounded.start_fits (h : Grounded spec def_) (hActions : spec.actionCount < 2 ^ 32) :
    Word.asU32 (def_.entryActions def_.rootInitial).length +
      def_.initialChainActions def_.rootInitial < 2 ^ 32 := by
  rw [(h.start_sum hActions).1]
  exact (h.start_sum hActions).2

theorem Grounded.start_eq (h : Grounded spec def_) (hActions : spec.actionCount < 2 ^ 32)
    {entered : List StateId} (hEnters : spec.Enters none spec.initial entered) :
    add32 (Word.asU32 (def_.entryActions def_.rootInitial).length)
      (def_.initialChainActions def_.rootInitial) = spec.entryCount entered := by
  rw [Grounded.enters_unique hEnters h.enters_root, add32_of_lt (h.start_fits hActions),
    (h.start_sum hActions).1]

/-- The plan of a stop exits a whole path. -/
theorem Grounded.stop_le_iff (h : Grounded spec def_) (hActions : spec.actionCount < 2 ^ 32) {bound : Nat} :
    def_.states.foldl (fun stop s => if s.parent.isNone then
        max stop (add32 (Word.asU32 s.exit.length) (def_.maxExitBelow def_.states.length s.id))
      else stop) 0 ≤ bound ↔
      ∀ leaf exited, spec.IsLeaf leaf → Forest.Ascent spec.parentOf none (some leaf) exited →
        spec.exitCount exited ≤ bound := by
  have hWorst : ∀ s ∈ spec.states,
      IsWorstExit spec s.id (def_.maxExitBelow def_.states.length s.id) := by
    intro s hs
    exact h.exit_worst hActions (by simp [findState_of_mem h.idsNodup hs])
  have hValue : ∀ s ∈ spec.states, add32 (Word.asU32 s.exit.length)
      (def_.maxExitBelow def_.states.length s.id) =
        spec.exitCount [s.id] + def_.maxExitBelow def_.states.length s.id := by
    intro s hs
    rw [h.exits_through hActions hs (hWorst s hs), exitCount_singleton h.idsNodup hs]
  have hFold : def_.states.foldl (fun stop s => if s.parent.isNone then
        max stop (add32 (Word.asU32 s.exit.length) (def_.maxExitBelow def_.states.length s.id))
      else stop) 0 =
      ((spec.states.filter fun s => decide (s.parent.isNone = true)).map fun s =>
        add32 (Word.asU32 s.exit.length) (def_.maxExitBelow def_.states.length s.id)).foldl max 0 := by
    generalize def_.maxExitBelow def_.states.length = below
    rw [← foldl_max_if, h.states, List.foldl_map]
    rfl
  rw [hFold, foldl_max_le_iff]
  simp only [List.forall_mem_map, List.mem_filter, decide_eq_true_eq, Option.isNone_iff_eq_none]
  constructor
  · intro hTops leaf exited hLeaf hAscent
    obtain ⟨front, top, rfl, hTop, hFront⟩ := hAscent.top
    obtain ⟨s, hs, rfl⟩ := declares_iff.mpr
      (h.known_of_reaches hLeaf.1 (hFront.reaches.2 top rfl))
    have hLe := hTops s ⟨hs, by rw [← parentOf_id h.idsNodup hs, hTop]⟩
    have hBelow := (hWorst s hs).bound leaf front hLeaf hFront
    rw [hValue s hs] at hLe
    rw [exitCount_append]
    omega
  · rintro hLeaves s ⟨hs, hTop⟩
    obtain ⟨leaf, front, hLeaf, hFront, hCount⟩ := (hWorst s hs).reached
    have hEnd : Forest.Ascent spec.parentOf none (some s.id) [s.id] := by
      apply Forest.Ascent.cons (Option.some_ne_none _)
      rw [parentOf_id h.idsNodup hs, hTop]
      exact .nil
    have hLe := hLeaves leaf _ hLeaf (h.falls.ascent_trans hFront hEnd)
    rw [exitCount_append] at hLe
    rw [hValue s hs]
    omega

/-- The domain of an external transition, as the code finds it, is at or above both ends. -/
theorem Grounded.external_domain (h : Grounded spec def_) {t : TransitionSpec} {target : StateId}
    (hKind : t.kind = .external target) :
    spec.IsDomain t target (def_.strictCommonAncestor t.source target) ∧
      (∀ d, def_.strictCommonAncestor t.source target = some d →
        Forest.Reaches spec.parentOf t.source d) ∧
      ∀ d, def_.strictCommonAncestor t.source target = some d →
        Forest.Reaches spec.parentOf target d := by
  have hMeet := h.strictCommonAncestor_eq t.source target
  cases hCommon : def_.strictCommonAncestor t.source target with
  | none =>
      rw [hCommon] at hMeet
      refine ⟨.root hKind hMeet, fun d hd => ?_, fun d hd => ?_⟩ <;> cases hd
  | some d =>
      rw [hCommon] at hMeet
      refine ⟨.external hKind hMeet, fun d' hd => ?_, fun d' hd => ?_⟩
      · exact Option.some.inj hd ▸ hMeet.1.reaches
      · exact Option.some.inj hd ▸ hMeet.2.1.reaches

theorem DefinitionSpec.IsDomain.not_internal {t : TransitionSpec} {target : StateId}
    {domain : Option StateId} (hDomain : spec.IsDomain t target domain) : t.kind ≠ .internal := by
  intro hKind
  cases hDomain with
  | «local» hKind' => rw [hKind] at hKind'; cases hKind'
  | external hKind' => rw [hKind] at hKind'; cases hKind'
  | root hKind' => rw [hKind] at hKind'; cases hKind'

theorem actions_le {t : TransitionSpec} (ht : t ∈ spec.transitions) :
    t.actions.length ≤ (spec.transitions.map fun t => t.actions.length).sum :=
  List.single_le_sum (by simp) _ (List.mem_map_of_mem ht)

/-- The largest plan of a crossing fits the integer that counts it. -/
theorem Grounded.crossing_fits (h : Grounded spec def_) (hActions : spec.actionCount < 2 ^ 32)
    {t : TransitionSpec} (ht : t ∈ spec.transitions) {domain : Option StateId} {target : StateId}
    {outward entered : List StateId} {below : Nat} (hWorst : IsWorstExit spec t.source below)
    (hOutward : Forest.Ascent spec.parentOf domain (some t.source) outward)
    (hEnters : spec.Enters domain target entered) :
    below + spec.exitCount outward + t.actions.length + spec.entryCount entered < 2 ^ 32 := by
  obtain ⟨leaf, front, -, hFront, rfl⟩ := hWorst.reached
  have hExits := exitCount_le h.idsNodup
    (h.falls.ascent_nodup (h.falls.ascent_trans hFront hOutward))
  have hEntries := entryCount_le h.idsNodup (h.enters_nodup hEnters)
  have hOwn := actions_le ht
  rw [exitCount_append] at hExits
  rw [DefinitionSpec.actionCount] at hActions
  omega

/-- A crossing exits from the leaf up to its source and on to the domain: what it adds up to
bounds its plans, and is the plan on some leaf. -/
theorem Grounded.crossing_worst (h : Grounded spec def_) (hActions : spec.actionCount < 2 ^ 32)
    {t : TransitionSpec} (ht : t ∈ spec.transitions) {target : StateId}
    {domain : Option StateId} {outward entered : List StateId} {below count : Nat}
    (hWorst : IsWorstExit spec t.source below) (hDomain : spec.IsDomain t target domain)
    (hOutward : Forest.Ascent spec.parentOf domain (some t.source) outward)
    (hEnters : spec.Enters domain target entered)
    (hCount : below + spec.exitCount outward + t.actions.length + spec.entryCount entered < 2 ^ 32 →
      count = below + spec.exitCount outward + t.actions.length + spec.entryCount entered) :
    (∀ leaf count', spec.IsLeaf leaf → Forest.Reaches spec.parentOf leaf t.source →
        spec.Emits t leaf count' → count' ≤ count) ∧
      ∃ leaf, spec.IsLeaf leaf ∧ Forest.Reaches spec.parentOf leaf t.source ∧
        spec.Emits t leaf count := by
  obtain ⟨leaf, front, hLeaf, hFront, hExits⟩ := hWorst.reached
  have hExited := h.falls.ascent_trans hFront hOutward
  rw [hCount (h.crossing_fits hActions ht hWorst hOutward hEnters)]
  constructor
  · intro leaf' count' hLeaf' hReach hEmits
    cases hEmits with
    | internal hKind => exact absurd hKind hDomain.not_internal
    | crossing hDomain' hExited' hEntered' =>
        obtain ⟨rfl, rfl⟩ := h.isDomain_unique hDomain hDomain'
        obtain ⟨front', hFront'⟩ := Forest.exists_ascent_of_reaches hReach
        have hBelow := hWorst.bound leaf' front' hLeaf' hFront'
        rw [hExited'.unique (h.falls.ascent_trans hFront' hOutward),
          Grounded.enters_unique hEntered' hEnters]
        show spec.exitCount (front' ++ outward) + t.actions.length + spec.entryCount entered ≤ _
        rw [exitCount_append]
        omega
  · refine ⟨leaf, hLeaf, hFront.reaches.2 _ rfl, ?_⟩
    rw [← hExits, ← exitCount_append]
    exact .crossing hDomain hExited hEnters

theorem Grounded.ancestryBelow_nodup (h : Grounded spec def_) (id : StateId)
    (domain : Option StateId) : (def_.ancestryBelow id domain).Nodup := by
  rw [CompiledDefinition.ancestryBelow, h.ancestry_eq]
  exact (h.falls.ascent_nodup (h.falls.ascent_trail id)).sublist (List.takeWhile_sublist _)

theorem Grounded.exitActionsBetween_count (h : Grounded spec def_) (hActions : spec.actionCount < 2 ^ 32)
    (source : StateId) (domain : Option StateId) :
    def_.exitActionsBetween source domain =
      spec.exitCount (def_.ancestryBelow source domain) := by
  have hLe := exitCount_le h.idsNodup (h.ancestryBelow_nodup source domain)
  have hFits := exits_lt hActions
  rw [CompiledDefinition.exitActionsBetween, h.exitActions_eq]
  apply sumActions_eq
  show spec.exitCount _ < _
  omega

/-- The worst case of a transition bounds its plans, and is the plan on some leaf. -/
theorem Grounded.transition_worst (h : Grounded spec def_) (hActions : spec.actionCount < 2 ^ 32)
    {t : TransitionSpec} (ht : t ∈ spec.transitions) (hSource : (spec.findState t.source).isSome)
    (hLocal : ∀ target, t.kind = .local target → Forest.Above spec.parentOf target t.source) :
    (∀ leaf count, spec.IsLeaf leaf → Forest.Reaches spec.parentOf leaf t.source →
        spec.Emits t leaf count → count ≤ def_.worstCaseActions (compileTransition t)) ∧
      ∃ leaf, spec.IsLeaf leaf ∧ Forest.Reaches spec.parentOf leaf t.source ∧
        spec.Emits t leaf (def_.worstCaseActions (compileTransition t)) := by
  have hWorst := h.exit_worst hActions hSource
  have hOwn : (compileTransition t).actions.length = t.actions.length := rfl
  have hHere : (compileTransition t).source = t.source := rfl
  have hOwnFits : t.actions.length < 2 ^ 32 := by
    have hOwn := actions_le ht
    rw [DefinitionSpec.actionCount] at hActions
    omega
  rw [CompiledDefinition.worstCaseActions, hOwn, Word.asU32_of_lt hOwnFits, hHere]
  cases hKind : t.kind with
  | internal =>
      have hKind' : (compileTransition t).kind = .internal := hKind
      simp only [hKind']
      obtain ⟨leaf, front, hLeaf, hFront, -⟩ := hWorst.reached
      refine ⟨?_, leaf, hLeaf, hFront.reaches.2 _ rfl, .internal hKind⟩
      intro leaf' count _ _ hEmits
      cases hEmits with
      | internal => exact Nat.le_refl _
      | crossing hDomain => exact absurd hKind hDomain.not_internal
  | «local» target =>
      have hKind' : (compileTransition t).kind = .local target := hKind
      simp only [hKind']
      have hReaches : ∀ d, some t.source = some d → Forest.Reaches spec.parentOf target d :=
        fun d hd => Option.some.inj hd ▸ (hLocal target hKind).reaches
      obtain ⟨entered, hEnters, hEntries⟩ := h.entries_eq hActions hReaches
      apply h.crossing_worst hActions ht hWorst (.local hKind) .nil hEnters
      have hNone : spec.exitCount [] = 0 := rfl
      rw [hNone]
      intro hFits
      rw [add32_of_lt (a := def_.maxExitBelow def_.states.length t.source) (by omega),
        add32_of_lt (b := def_.entryActionsBetween (some t.source) target) (by omega),
        add32_of_lt (by omega)]
      omega
  | external target =>
      have hKind' : (compileTransition t).kind = .external target := hKind
      simp only [hKind']
      obtain ⟨hDomain, hSourceReaches, hReaches⟩ := h.external_domain hKind
      obtain ⟨entered, hEnters, hEntries⟩ := h.entries_eq hActions hReaches
      have hOutward := h.ascent_ancestryBelow hSourceReaches
      apply h.crossing_worst hActions ht hWorst hDomain hOutward hEnters
      intro hFits
      have hExits := h.exitActionsBetween_count hActions t.source
        (def_.strictCommonAncestor t.source target)
      rw [← hExits] at hFits ⊢
      rw [add32_of_lt (a := def_.maxExitBelow def_.states.length t.source) (by omega),
        add32_of_lt (b := t.actions.length) (by omega),
        add32_of_lt (b := def_.entryActionsBetween _ target) (by omega), add32_of_lt (by omega)]
      omega

/-- The counts of the last pass stay within a bound exactly when every plan does. -/
theorem Grounded.plansFit_iff (h : Grounded spec def_) (hActions : spec.actionCount < 2 ^ 32)
    (hStored : def_.transitions = spec.transitions.map compileTransition)
    (hSources : ∀ t ∈ spec.transitions, (spec.findState t.source).isSome)
    (hLocal : ∀ t ∈ spec.transitions, ∀ target, t.kind = .local target →
      Forest.Above spec.parentOf target t.source) {bound : Nat} :
    (def_.startActions ≤ bound ∧ def_.stopActions ≤ bound ∧
      ∀ t ∈ def_.transitions, def_.worstCaseActions t ≤ bound) ↔ spec.PlansFit bound := by
  have hRoot := h.enters_root
  have hTransitions : (∀ t ∈ def_.transitions, def_.worstCaseActions t ≤ bound) ↔
      ∀ t ∈ spec.transitions, ∀ leaf count, spec.IsLeaf leaf →
        Forest.Reaches spec.parentOf leaf t.source → spec.Emits t leaf count → count ≤ bound := by
    rw [hStored, List.forall_mem_map]
    apply forall₂_congr
    intro t ht
    obtain ⟨hBound, leaf, hLeaf, hReach, hEmits⟩ :=
      h.transition_worst hActions ht (hSources t ht) (hLocal t ht)
    constructor
    · intro hWorst leaf' count hLeaf' hReach' hEmits'
      exact (hBound leaf' count hLeaf' hReach' hEmits').trans hWorst
    · exact fun hAll => hAll leaf _ hLeaf hReach hEmits
  rw [hTransitions, CompiledDefinition.startActions, h.start_eq hActions hRoot,
    CompiledDefinition.stopActions, h.stop_le_iff hActions]
  constructor
  · rintro ⟨hStart, hStop, hAll⟩
    exact
      { start := fun entered hEnters => Grounded.enters_unique hEnters hRoot ▸ hStart
        stop := hStop
        transition := hAll }
  · intro hFit
    exact ⟨hFit.start _ hRoot, hFit.stop, hFit.transition⟩

/-- The last pass succeeds exactly when every plan fits. -/
theorem Grounded.plans_isOk (h : Grounded spec def_) (hActions : spec.actionCount < 2 ^ 32)
    (hStored : def_.transitions = spec.transitions.map compileTransition)
    (hSources : ∀ t ∈ spec.transitions, (spec.findState t.source).isSome)
    (hLocal : ∀ t ∈ spec.transitions, ∀ target, t.kind = .local target →
      Forest.Above spec.parentOf target t.source) :
    (∃ maxPlanActions, def_.computeMaxPlanActions = .ok maxPlanActions) ↔
      spec.PlansFit def_.limits.maxActionsPerPlan := by
  rw [← h.plansFit_iff hActions hStored hSources hLocal]
  simp only [computeMaxPlanActions_eq_ok, exists_and_left, exists_eq, and_true]

end Plans

/-- Compilation accepts exactly the well-formed definitions. -/
theorem compile_isOk {spec : DefinitionSpec} {limits : HfsmLimits} (hSize : spec.size < 2 ^ 32) :
    (∃ def_, compile spec limits = .ok def_) ↔ spec.WellFormed limits := by
  have hPlans : ∀ {draft}, Checked spec limits → Drafted spec limits draft →
      ((∃ maxPlanActions, draft.computeMaxPlanActions = .ok maxPlanActions) ↔
        spec.PlansFit limits.maxActionsPerPlan) := by
    intro draft hChecked hDraft
    obtain ⟨hGround, hLimits, hStored⟩ := hDraft.grounded hChecked
    rw [← hLimits]
    exact hGround.plans_isOk (actionCount_lt hSize) hStored
      (fun t ht => hChecked.transitionReferences t ht _ (by simp)) hChecked.localBelow
  constructor
  · rintro ⟨def_, hCompile⟩
    obtain ⟨hChecked, draft, maxPlanActions, hDraft, hBounded, -⟩ := compile_eq_ok.mp hCompile
    exact hChecked.wellFormed hSize ((hPlans hChecked hDraft).mp ⟨maxPlanActions, hBounded⟩)
  · intro hWellFormed
    have hChecked := wellFormed_checked hWellFormed hSize
    obtain ⟨draft, hDraft⟩ := hChecked.drafted
    obtain ⟨maxPlanActions, hBounded⟩ := (hPlans hChecked hDraft).mpr hWellFormed.plans
    exact ⟨_, compile_eq_ok.mpr ⟨hChecked, draft, maxPlanActions, hDraft, hBounded, rfl⟩⟩

end Hfsm

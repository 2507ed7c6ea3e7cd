import LumioNativeCore.Hfsm.Accepted

/-! The state tree of an accepted definition: parent links form a forest, initial
links lead down it, and a valid running snapshot is the path from the top level
to one of its leaves. -/
namespace Hfsm

/-- The rank of a state in the forest of parent links. -/
def DefinitionSpec.rank (spec : DefinitionSpec) (id : StateId) : Nat := spec.depthOf id - 1

/-- The rank of a state in the forest of initial links, which lead downwards. -/
def DefinitionSpec.height (spec : DefinitionSpec) (id : StateId) : Nat :=
  spec.states.length - spec.depthOf id

/-- The ancestry of a state, itself first. -/
def DefinitionSpec.ancestry (spec : DefinitionSpec) (id : StateId) : List StateId :=
  Forest.trail spec.parentOf spec.rank id

namespace Grounded

variable {spec : DefinitionSpec} {def_ : CompiledDefinition}

/-! Queries read the flat definition. -/

theorem parentOf_eq (h : Grounded spec def_) : def_.parentOf = spec.parentOf := by
  funext id
  rw [CompiledDefinition.parentOf, h.found, DefinitionSpec.parentOf]
  cases spec.findState id <;> rfl

theorem initialOf_eq (h : Grounded spec def_) : def_.initialOf = spec.initialOf := by
  funext id
  rw [CompiledDefinition.initialOf, h.found, DefinitionSpec.initialOf]
  cases spec.findState id <;> rfl

theorem entryActions_eq (h : Grounded spec def_) : def_.entryActions = spec.entryActions := by
  funext id
  rw [CompiledDefinition.entryActions, h.found, DefinitionSpec.entryActions]
  cases spec.findState id <;> rfl

theorem exitActions_eq (h : Grounded spec def_) : def_.exitActions = spec.exitActions := by
  funext id
  rw [CompiledDefinition.exitActions, h.found, DefinitionSpec.exitActions]
  cases spec.findState id <;> rfl

theorem isLeaf_iff (h : Grounded spec def_) (id : StateId) :
    def_.isLeaf id = some true ↔ (spec.findState id).isSome ∧ spec.initialOf id = none := by
  rw [CompiledDefinition.isLeaf, h.found, DefinitionSpec.initialOf]
  cases spec.findState id with
  | none => simp
  | some s => simp [compileState]

theorem states_length (h : Grounded spec def_) : def_.states.length = spec.states.length := by
  rw [h.states, List.length_map]

theorem states_pos (h : Grounded spec def_) : 0 < spec.states.length :=
  List.length_pos_iff.mpr h.nonempty

theorem found_of_parentOf (h : Grounded spec def_) {a b : StateId}
    (hParent : spec.parentOf a = some b) :
    (spec.findState a).isSome ∧ (spec.findState b).isSome := by
  rw [DefinitionSpec.parentOf, Option.bind_eq_some_iff] at hParent
  obtain ⟨s, hFind, hParent⟩ := hParent
  exact ⟨by simp [hFind], h.parentKnown s (mem_of_findState hFind).1 b hParent⟩

/-! The forest of parent links. -/

/-- The depth of a known state counts the ascent from its parent. -/
theorem depthOf_eq (h : Grounded spec def_) {id : StateId}
    (hKnown : (spec.findState id).isSome) :
    ∃ nodes, Forest.Ascent spec.parentOf none (spec.parentOf id) nodes ∧
      spec.depthOf id = 1 + nodes.length ∧ spec.depthOf id ≤ spec.states.length := by
  obtain ⟨s, hFind⟩ := Option.isSome_iff_exists.mp hKnown
  obtain ⟨hs, rfl⟩ := mem_of_findState hFind
  obtain ⟨nodes, hAscent, hDepth, hLength⟩ := climb_eq_some.mp (h.climbed s hs)
  have hParent : spec.parentOf s.id = s.parent := by
    rw [DefinitionSpec.parentOf, hFind]
    rfl
  have := h.states_pos
  exact ⟨nodes, hParent ▸ hAscent, hDepth, by omega⟩

theorem depthOf_parent (h : Grounded spec def_) {a b : StateId}
    (hParent : spec.parentOf a = some b) :
    spec.depthOf a = spec.depthOf b + 1 ∧ 0 < spec.depthOf b ∧
      spec.depthOf a ≤ spec.states.length := by
  obtain ⟨hA, hB⟩ := h.found_of_parentOf hParent
  obtain ⟨nodes, hAscent, hDepth, hBound⟩ := h.depthOf_eq hA
  obtain ⟨nodes', hAscent', hDepth', -⟩ := h.depthOf_eq hB
  rw [hParent] at hAscent
  cases hAscent with
  | cons hStop hRest =>
      obtain rfl := hRest.unique hAscent'
      rw [List.length_cons] at hDepth
      exact ⟨by omega, by omega, hBound⟩

theorem falls (h : Grounded spec def_) : Forest.Falls spec.parentOf spec.rank := by
  intro a b hParent
  have := h.depthOf_parent hParent
  rw [DefinitionSpec.rank, DefinitionSpec.rank]
  omega

theorem parentOf_of_initialOf (h : Grounded spec def_) {a b : StateId}
    (hInitial : spec.initialOf a = some b) : spec.parentOf b = some a := by
  rw [DefinitionSpec.initialOf, Option.bind_eq_some_iff] at hInitial
  obtain ⟨s, hFind, hInitial⟩ := hInitial
  obtain ⟨hs, rfl⟩ := mem_of_findState hFind
  exact h.initialChild s hs b hInitial

theorem falls_initialOf (h : Grounded spec def_) :
    Forest.Falls spec.initialOf spec.height := by
  intro a b hInitial
  have := h.depthOf_parent (h.parentOf_of_initialOf hInitial)
  rw [DefinitionSpec.height, DefinitionSpec.height]
  omega

theorem rank_lt (h : Grounded spec def_) (id : StateId) :
    spec.rank id < spec.states.length := by
  have hPos := h.states_pos
  rw [DefinitionSpec.rank]
  cases hFind : spec.findState id with
  | none =>
      have : spec.parentOf id = none := by
        rw [DefinitionSpec.parentOf, hFind]
        rfl
      have hDepth : spec.depthOf id = 1 := by
        rw [DefinitionSpec.depthOf, this]
        cases spec.states.length - 1 <;> rfl
      omega
  | some s =>
      have hKnown : (spec.findState id).isSome := by simp [hFind]
      obtain ⟨nodes, -, hDepth, hBound⟩ := h.depthOf_eq hKnown
      omega

theorem ancestry_eq (h : Grounded spec def_) (id : StateId) :
    def_.ancestry (some id) = spec.ancestry id := by
  rw [CompiledDefinition.ancestry, h.parentOf_eq, h.states_length]
  exact h.falls.walk_eq (h.rank_lt id)

theorem mem_ancestry (h : Grounded spec def_) {a b : StateId} :
    b ∈ spec.ancestry a ↔ Forest.Reaches spec.parentOf a b :=
  h.falls.mem_trail

theorem isStrictDescendant_iff (h : Grounded spec def_) (a b : StateId) :
    def_.isStrictDescendant a b = true ↔ Forest.Above spec.parentOf a b := by
  rw [CompiledDefinition.isStrictDescendant, List.contains_iff_mem, h.parentOf_eq,
    Forest.above_iff]
  cases hParent : spec.parentOf a with
  | none => simp [CompiledDefinition.ancestry]
  | some p => simp [h.ancestry_eq, h.mem_ancestry]

/-- The code's strict common ancestor is the deepest one, or there is none. -/
theorem strictCommonAncestor_eq (h : Grounded spec def_) (a b : StateId) :
    match def_.strictCommonAncestor a b with
    | some d => Forest.IsStrictMeet spec.parentOf a b d
    | none => Forest.NoStrictMeet spec.parentOf a b := by
  rw [CompiledDefinition.strictCommonAncestor, h.ancestry_eq, h.ancestry_eq, h.parentOf_eq]
  cases hFind : (spec.ancestry b).find? fun s => decide (s ∈ spec.ancestry a) with
  | none =>
      intro c hc
      exact h.falls.find_shared_none hFind c ⟨hc.1.reaches, hc.2.reaches⟩
  | some l =>
      obtain ⟨hA, hB, hDeepest⟩ := h.falls.find_shared hFind
      obtain ⟨hInner, hEnd⟩ := Forest.strictMeet_of_deepest hA hB hDeepest
      by_cases hl : l = a ∨ l = b
      · simp only [if_pos hl]
        cases hParent : spec.parentOf l with
        | none => exact (hEnd hl).2 hParent
        | some d => exact (hEnd hl).1 d hParent
      · rw [not_or] at hl
        simp only [hl.1, hl.2, or_self, if_false]
        exact hInner hl.1 hl.2

/-! Entering. -/

theorem ascent_initialChain (h : Grounded spec def_) (id : StateId) :
    Forest.Ascent spec.initialOf none (spec.initialOf id) (def_.initialChain id) := by
  rw [CompiledDefinition.initialChain, h.initialOf_eq, h.states_length]
  apply h.falls_initialOf.ascent_walk
  intro b hInitial
  have := h.depthOf_parent (h.parentOf_of_initialOf hInitial)
  rw [DefinitionSpec.height]
  omega

theorem ascent_ancestryBelow (h : Grounded spec def_) {target : StateId}
    {boundary : Option StateId}
    (hBoundary : ∀ d, boundary = some d → Forest.Reaches spec.parentOf target d) :
    Forest.Ascent spec.parentOf boundary (some target) (def_.ancestryBelow target boundary) := by
  rw [CompiledDefinition.ancestryBelow, h.ancestry_eq]
  exact h.falls.ascent_takeWhile hBoundary

/-! What a transition enters is determined. -/

theorem isDomain_unique (h : Grounded spec def_) {t : TransitionSpec}
    {target target' : StateId} {domain domain' : Option StateId}
    (hDomain : spec.IsDomain t target domain) (hDomain' : spec.IsDomain t target' domain') :
    target = target' ∧ domain = domain' := by
  cases hDomain with
  | «local» hKind =>
      cases hDomain' with
      | «local» hKind' => simpa [hKind] using hKind'
      | external hKind' hMeet' => simp [hKind] at hKind'
      | root hKind' hMeet' => simp [hKind] at hKind'
  | external hKind hMeet =>
      cases hDomain' with
      | «local» hKind' => simp [hKind] at hKind'
      | external hKind' hMeet' =>
          obtain rfl : target = target' := by simpa [hKind] using hKind'
          refine ⟨rfl, congrArg some (h.falls.reaches_antisymm ?_ ?_)⟩
          · exact hMeet.2.2 _ hMeet'.1 hMeet'.2.1
          · exact hMeet'.2.2 _ hMeet.1 hMeet.2.1
      | root hKind' hMeet' =>
          obtain rfl : target = target' := by simpa [hKind] using hKind'
          exact absurd ⟨hMeet.1, hMeet.2.1⟩ (hMeet' _)
  | root hKind hMeet =>
      cases hDomain' with
      | «local» hKind' => simp [hKind] at hKind'
      | external hKind' hMeet' =>
          obtain rfl : target = target' := by simpa [hKind] using hKind'
          exact absurd ⟨hMeet'.1, hMeet'.2.1⟩ (hMeet _)
      | root hKind' hMeet' => simpa [hKind] using hKind'

theorem enters_unique {domain : Option StateId} {target : StateId}
    {entered entered' : List StateId} (hEnters : spec.Enters domain target entered)
    (hEnters' : spec.Enters domain target entered') : entered = entered' := by
  cases hEnters with
  | mk hUpward hChain =>
      cases hEnters' with
      | mk hUpward' hChain' => rw [hUpward.unique hUpward', hChain.unique hChain']

end Grounded

/-! Valid snapshots. -/

/-- A stable configuration is named by its leaf. -/
def DefinitionSpec.IsLeaf (spec : DefinitionSpec) (leaf : StateId) : Prop :=
  (spec.findState leaf).isSome ∧ spec.initialOf leaf = none

/-- The path leads from the top level down to `leaf`. -/
def DefinitionSpec.IsPathTo (spec : DefinitionSpec) (leaf : StateId)
    (path : List ActiveState) : Prop :=
  spec.IsLeaf leaf ∧ (path.map ActiveState.state).reverse = spec.ancestry leaf

theorem DefinitionSpec.IsPathTo.leaf_eq {spec : DefinitionSpec} {leaf : StateId}
    {path : List ActiveState} (hPath : spec.IsPathTo leaf path) :
    path.getLast?.map ActiveState.state = some leaf := by
  have hHead : (spec.ancestry leaf).head? = some leaf := rfl
  rw [← hPath.2, List.head?_reverse, List.getLast?_map] at hHead
  exact hHead

/-- Every activation of the path is numbered from one and below the counter. -/
def SeqsBelow (path : List ActiveState) (nextSeq : Nat) : Prop :=
  ∀ a ∈ path, 0 < a.activationSeq ∧ a.activationSeq < nextSeq

namespace Accepted

variable {spec : DefinitionSpec} {def_ : CompiledDefinition}

theorem checkPath_eq_ok (h : Accepted spec def_) {nextSeq index : Nat}
    {prev result : Option StateId} {path : List ActiveState} :
    Snapshot.checkPath def_ nextSeq index prev path = .ok result ↔
      (∀ a ∈ path, (spec.findState a.state).isSome) ∧
      Forest.Linked spec.parentOf prev (path.map ActiveState.state) ∧
      SeqsBelow path nextSeq ∧
      result = (path.map ActiveState.state).getLast?.or prev := by
  induction path generalizing index prev with
  | nil =>
      rw [Snapshot.checkPath, Except.ok.injEq]
      simp [Forest.Linked, SeqsBelow, eq_comm (a := prev)]
  | cons a rest ih =>
      rw [Snapshot.checkPath, h.parentOf_eq, h.indexed, List.map_cons, Forest.Linked,
        List.forall_mem_cons, SeqsBelow, List.forall_mem_cons]
      split_ifs with hUnknown hChain hSeq
      · rw [false_iff]
        intro hOk
        simp [hOk.1.1] at hUnknown
      · rw [false_iff]
        exact fun hOk => hChain hOk.2.1.1
      · rw [false_iff]
        intro hOk
        have := hOk.2.2.1.1
        omega
      · have hSeq : 0 < a.activationSeq ∧ a.activationSeq < nextSeq := by omega
        have hKnown : (spec.findState a.state).isSome = true := by
          rw [Bool.not_eq_true', Bool.not_eq_false] at hUnknown
          exact hUnknown
        have hLast : ((a.state :: rest.map ActiveState.state).getLast?.or prev) =
            (rest.map ActiveState.state).getLast?.or (some a.state) := by
          rw [List.getLast?_cons]
          cases (rest.map ActiveState.state).getLast? <;> rfl
        rw [ih, hLast]
        simp only [hKnown, not_not.mp hChain, hSeq, true_and, and_self]
        rfl

theorem ancestry_known (h : Accepted spec def_) {leaf : StateId}
    (hLeaf : (spec.findState leaf).isSome) : ∀ id ∈ spec.ancestry leaf,
    (spec.findState id).isSome := by
  intro id hMem
  rcases Forest.reaches_iff_eq_or_above.mp (h.mem_ancestry.mp hMem) with rfl | hAbove
  · exact hLeaf
  · cases hAbove with
    | single hParent => exact (h.found_of_parentOf hParent).2
    | tail _ hParent => exact (h.found_of_parentOf hParent).2

theorem ancestry_length_le (h : Accepted spec def_) {leaf : StateId}
    (hLeaf : (spec.findState leaf).isSome) : (spec.ancestry leaf).length ≤ def_.maxDepth := by
  obtain ⟨s, hFind⟩ := Option.isSome_iff_exists.mp hLeaf
  obtain ⟨hs, rfl⟩ := mem_of_findState hFind
  obtain ⟨nodes, -, hDepth, -⟩ := h.depthOf_eq hLeaf
  have hRank := h.falls.trail_length_le s.id
  have hMax := h.depth s hs
  rw [DefinitionSpec.rank] at hRank
  exact hRank.trans (by omega)

/-- What the path loop accepts is a path to its last state. -/
theorem checkPath_iff_isPathTo (h : Accepted spec def_) {nextSeq : Nat}
    {path : List ActiveState} {leaf : StateId} :
    (Snapshot.checkPath def_ nextSeq 0 none path = .ok (some leaf) ∧
        def_.isLeaf leaf = some true) ↔
      spec.IsPathTo leaf path ∧ SeqsBelow path nextSeq := by
  rw [h.checkPath_eq_ok, h.isLeaf_iff, Option.or_none]
  constructor
  · rintro ⟨⟨hKnown, hLinked, hSeqs, hLast⟩, hLeaf⟩
    refine ⟨⟨hLeaf, ?_⟩, hSeqs⟩
    have hAscent := hLinked.ascent Forest.Ascent.nil
    rw [Option.or_none, List.append_nil, ← hLast] at hAscent
    exact hAscent.unique (h.falls.ascent_trail leaf)
  · rintro ⟨⟨hLeaf, hPath⟩, hSeqs⟩
    have hLinked := (h.falls.ascent_trail leaf).linked
    change Forest.Linked spec.parentOf none (spec.ancestry leaf).reverse ∧
      (spec.ancestry leaf).reverse.getLast?.or none = some leaf at hLinked
    rw [← hPath, List.reverse_reverse, Option.or_none] at hLinked
    refine ⟨⟨fun a ha => ?_, hLinked.1, hSeqs, hLinked.2.symm⟩, hLeaf⟩
    apply h.ancestry_known hLeaf.1
    rw [← hPath, List.mem_reverse]
    exact List.mem_map_of_mem ha

/-- The last three checks of a snapshot that has a path. -/
theorem validate_path (h : Accepted spec def_) {s : Snapshot} (hPath : s.activePath ≠ [])
    (hFingerprint : s.fingerprint = def_.fingerprint) (hRunning : s.lifecycle = .running) :
    s.validate def_ = .ok () ↔ ∃ leaf, s.leaf = some leaf ∧
      spec.IsPathTo leaf s.activePath ∧ SeqsBelow s.activePath s.nextActivationSeq := by
  have hLifecycle : decide (s.lifecycle = .running) = !s.activePath.isEmpty := by
    simp [hRunning, hPath]
  have hLast : s.leaf = (s.activePath.map ActiveState.state).getLast? := by
    rw [Snapshot.leaf, List.getLast?_map]
  rw [Snapshot.validate, if_neg (not_not.mpr hFingerprint), if_neg (not_not.mpr hLifecycle)]
  constructor
  · intro hOk
    split_ifs at hOk with hDeep
    cases hCheck : Snapshot.checkPath def_ s.nextActivationSeq 0 none s.activePath with
    | error failure => simp [hCheck] at hOk
    | ok result =>
        have hResult := (h.checkPath_eq_ok.mp hCheck).2.2.2
        rw [Option.or_none, ← hLast] at hResult
        cases result with
        | none => simp [Snapshot.leaf, hPath] at hResult
        | some leaf =>
            simp only [hCheck] at hOk
            split_ifs at hOk with hLeaf
            exact ⟨leaf, hResult.symm,
              h.checkPath_iff_isPathTo.mp ⟨hCheck, not_not.mp hLeaf⟩⟩
  · rintro ⟨leaf, -, hIsPath⟩
    have hCheck := h.checkPath_iff_isPathTo.mpr hIsPath
    have hLength : s.activePath.length ≤ def_.maxDepth := by
      rw [← List.length_map ActiveState.state, ← List.length_reverse, hIsPath.1.2]
      exact h.ancestry_length_le hIsPath.1.1.1
    have hDeep : ¬Word.asU32 s.activePath.length > def_.maxDepth :=
      Nat.not_lt.mpr ((Nat.mod_le _ _).trans hLength)
    simp [hDeep, hCheck.1, hCheck.2]

/-- Exactly the well-formed snapshots are valid: a path to a leaf while running,
no path otherwise. -/
theorem validate_eq_ok (h : Accepted spec def_) {s : Snapshot} :
    s.validate def_ = .ok () ↔ s.fingerprint = def_.fingerprint ∧
      (s.lifecycle ≠ .running ∧ s.activePath = [] ∨
        s.lifecycle = .running ∧ ∃ leaf, s.leaf = some leaf ∧
          spec.IsPathTo leaf s.activePath ∧ SeqsBelow s.activePath s.nextActivationSeq) := by
  by_cases hFingerprint : s.fingerprint = def_.fingerprint
  · cases hPath : s.activePath with
    | nil =>
        have hLeaf : s.leaf = none := by simp [Snapshot.leaf, hPath]
        by_cases hRunning : s.lifecycle = .running
        · simp [Snapshot.validate, hFingerprint, hPath, hRunning, hLeaf]
        · simp [Snapshot.validate, hFingerprint, hPath, hRunning, Snapshot.checkPath,
            Word.asU32]
    | cons a rest =>
        have hNe : s.activePath ≠ [] := by simp [hPath]
        by_cases hRunning : s.lifecycle = .running
        · rw [h.validate_path hNe hFingerprint hRunning, hPath]
          simp [hFingerprint, hRunning]
        · simp [Snapshot.validate, hFingerprint, hPath, hRunning]
  · simp [Snapshot.validate, hFingerprint]

end Accepted
end Hfsm

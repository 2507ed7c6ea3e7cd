import LumioNativeCore.Hfsm.Strict

/-! The passes over the flat definition look up only keys that were entered, and return. The
depth pass alone can count too far: where there are as many states as a `u32` counts, and a
chain of parents that does not end. -/
namespace Hfsm.Strict

section Lift

variable {α β : Type}

theorem bind_lift {x' : Except Stop α} {x : Except CompileError α} {f' : α → Except Stop β}
    {f : α → Except CompileError β} (hx : x' = lift x)
    (hf : ∀ a, x = .ok a → f' a = lift (f a)) : (x' >>= f') = lift (x >>= f) := by
  rw [hx]
  cases x with
  | error failure => rfl
  | ok a => exact hf a rfl

theorem unless_lift {γ : Type} {p : Prop} [Decidable p] {failure : CompileError}
    {f' : γ → Except Stop β} {f : γ → Except CompileError β} {x' : Except Stop β}
    {x : Except CompileError β} (h : ¬p → x' = lift x) :
    (if p then (Except.error (.refused failure) : Except Stop γ) >>= f' else x') =
      lift (if p then (Except.error failure : Except CompileError γ) >>= f else x) := by
  by_cases hp : p
  · rw [if_pos hp, if_pos hp]
    rfl
  · rw [if_neg hp, if_neg hp]
    exact h hp

theorem each_lift {check' : α → Except Stop Unit} {check : α → Except CompileError Unit}
    {list : List α} (h : ∀ a ∈ list, check' a = lift (check a)) :
    Check.each check' list = lift (Check.each check list) := by
  induction list with
  | nil => rfl
  | cons a rest ih =>
      rw [List.forall_mem_cons] at h
      rw [Check.each, Check.each, h.1]
      cases check a with
      | error failure => rfl
      | ok _ => exact ih h.2

theorem collect_lift {f' : α → Except Stop β} {f : α → Except CompileError β} {list : List α}
    (h : ∀ a ∈ list, f' a = lift (f a)) :
    Check.collect f' list = lift (Check.collect f list) := by
  induction list with
  | nil => rfl
  | cons a rest ih =>
      rw [List.forall_mem_cons] at h
      rw [Check.collect, Check.collect, h.1]
      cases f a with
      | error failure => rfl
      | ok b =>
          simp only [lift, ih h.2]
          cases Check.collect f rest <;> rfl

/-- Only what is reached has to be the same. -/
theorem collect_until {f' : α → Except Stop β} {f : α → Except CompileError β} {list : List α}
    (h : ∀ first a rest, list = first ++ a :: rest → (∀ b ∈ first, ∃ c, f b = .ok c) →
      f' a = lift (f a)) :
    Check.collect f' list = lift (Check.collect f list) := by
  induction list with
  | nil => rfl
  | cons a rest ih =>
      rw [Check.collect, Check.collect, h [] a rest rfl (List.forall_mem_nil _)]
      cases hHead : f a with
      | error failure => rfl
      | ok b =>
          have hRest : Check.collect f' rest = lift (Check.collect f rest) := by
            apply ih
            rintro first c tail rfl hFirst
            apply h (a :: first) c tail rfl
            rw [List.forall_mem_cons]
            exact ⟨⟨b, hHead⟩, hFirst⟩
          simp only [lift, hRest]
          cases Check.collect f rest <;> rfl

theorem collect_stops {f' : α → Except Stop β} {first : List α} {a : α} {rest : List α}
    {stop : Stop} (hFirst : ∀ b ∈ first, ∃ c, f' b = .ok c) (hStop : f' a = .error stop) :
    Check.collect f' (first ++ a :: rest) = .error stop := by
  induction first with
  | nil =>
      rw [List.nil_append, Check.collect, hStop]
  | cons b first ih =>
      rw [List.forall_mem_cons] at hFirst
      obtain ⟨⟨c, hHead⟩, hFirst⟩ := hFirst
      rw [List.cons_append, Check.collect, hHead, ih hFirst]
      rfl

theorem collect_ok {f' : α → Except Stop β} {f : α → β} {list : List α}
    (h : ∀ a ∈ list, f' a = .ok (f a)) : Check.collect f' list = .ok (list.map f) := by
  induction list with
  | nil => rfl
  | cons a rest ih =>
      rw [List.forall_mem_cons] at h
      rw [Check.collect, h.1, ih h.2]
      rfl

theorem foldlM_ok {f' : β → α → Except Stop β} {f : β → α → β} {list : List α}
    (h : ∀ a ∈ list, ∀ b, f' b a = .ok (f b a)) (start : β) :
    list.foldlM f' start = .ok (list.foldl f start) := by
  induction list generalizing start with
  | nil => rfl
  | cons a rest ih =>
      rw [List.forall_mem_cons] at h
      rw [List.foldlM_cons, h.1, List.foldl_cons]
      exact ih h.2 (f start a)

/-- A fold whose turns all succeed or all stop in the same way stops if one of them does. -/
theorem foldlM_stops {f : β → α → Except Stop β} {stop : Stop} {list : List α}
    (h : ∀ a ∈ list, (∀ b, ∃ next, f b a = .ok next) ∨ ∀ b, f b a = .error stop)
    (hStops : ∃ a ∈ list, ∀ b, f b a = .error stop) (start : β) :
    list.foldlM f start = .error stop := by
  induction list generalizing start with
  | nil => simp at hStops
  | cons a rest ih =>
      rw [List.forall_mem_cons] at h
      rw [List.foldlM_cons]
      rcases h.1 with hGoes | hHere
      · obtain ⟨next, hNext⟩ := hGoes start
        obtain ⟨b, hMem, hStop⟩ := hStops
        rw [hNext]
        apply ih h.2
        rcases List.mem_cons.mp hMem with rfl | hRest
        · cases (hStop start).symm.trans hNext
        · exact ⟨b, hRest, hStop⟩
      · rw [hHere start]
        rfl

theorem add_ok {a b : Nat} (h : a + b < 2 ^ 32) : add a b = .ok (a + b) := if_pos h

end Lift

/-! The spec. -/

section Spec

variable {spec : DefinitionSpec} {limits : HfsmLimits} {index : List (StateId × Nat)}

/-- Every entered key leads to a state. -/
theorem find_eq (hIndex : indexStates spec.states = .ok index) (id : StateId) :
    find index spec.states id = .ok (spec.findState id) := by
  have hIn := stateIn_eq hIndex id
  have hSome := lookup_isSome hIndex id
  rw [stateIn] at hIn
  rw [find]
  cases hLookup : index.lookup id with
  | none =>
      rw [hLookup] at hIn
      rw [← hIn]
      rfl
  | some i =>
      rw [hLookup] at hIn hSome
      obtain ⟨s, hs⟩ := Option.isSome_iff_exists.mp hSome.symm
      rw [hs] at hIn
      have hAt : spec.states[i]? = some s := hIn
      simp only [read, hAt, hs]
      rfl

theorem parentAt_eq (hIndex : indexStates spec.states = .ok index) {id : StateId}
    (hKnown : (spec.findState id).isSome) :
    parentAt spec.states index id = .ok (spec.parentOf id) := by
  obtain ⟨s, hs⟩ := Option.isSome_iff_exists.mp hKnown
  have hFind := find_eq hIndex id
  rw [parentAt, position, DefinitionSpec.parentOf]
  rw [find] at hFind
  have hSome := lookup_isSome hIndex id
  cases hLookup : index.lookup id with
  | none => simp [hLookup, hs] at hSome
  | some i =>
      simp only [hLookup, hs] at hFind
      cases hRead : read spec.states i with
      | error stop =>
          rw [hRead] at hFind
          cases hFind
      | ok found =>
          rw [hRead] at hFind
          obtain rfl : found = s := Option.some.inj (Except.ok.inj hFind)
          show (read spec.states i >>= fun s => Except.ok s.parent) = _
          rw [hRead, hs]
          rfl

theorem checkReferences_lift (hIndex : indexStates spec.states = .ok index) :
    checkReferences spec index = lift (Hfsm.checkReferences spec index) := by
  apply bind_lift rfl
  intro _ _
  apply bind_lift
  · rw [checkRootInitial, find_eq hIndex, Hfsm.checkRootInitial, stateIn_eq hIndex]
    cases spec.findState spec.initial with
    | none => rfl
    | some s =>
        show (if s.parent.isSome then _ else _) = lift (if s.parent.isSome then _ else _)
        split_ifs <;> rfl
  · exact fun _ _ => rfl

/-- The depth loop reads known parents only. It counts no further than the states, or one
further where the chain of parents does not end. -/
theorem climb_eq {parentOf' : StateId → Except Stop (Option StateId)}
    {parentOf : StateId → Option StateId} {known : StateId → Prop}
    (hParent : ∀ p, known p → parentOf' p = .ok (parentOf p) ∧ ∀ q, parentOf p = some q → known q)
    {fuel depth : Nat} {cursor : Option StateId} (hCursor : ∀ p, cursor = some p → known p)
    (hFits : depth + fuel < 2 ^ 32) :
    (depth + fuel + 1 = 2 ^ 32 → ∃ nodes, Forest.Ascent parentOf none cursor nodes ∧
        nodes.length ≤ fuel) →
      climb parentOf' fuel depth cursor = .ok (Hfsm.climb parentOf fuel depth cursor) := by
  induction fuel generalizing depth cursor with
  | zero =>
      intro hEnds
      cases cursor with
      | none => rfl
      | some p =>
          have hRoom : depth + 1 < 2 ^ 32 := by
            by_contra hFull
            obtain ⟨nodes, hAscent, hLength⟩ := hEnds (by omega)
            cases hAscent with
            | cons hStop hRest => simp at hLength
          rw [climb, add_ok hRoom]
          rfl
  | succ fuel ih =>
      intro hEnds
      cases cursor with
      | none => rfl
      | some p =>
          obtain ⟨hRead, hNext⟩ := hParent p (hCursor p rfl)
          rw [climb, add_ok (by omega), hRead]
          apply ih hNext (by omega)
          intro hFull
          obtain ⟨nodes, hAscent, hLength⟩ := hEnds (by omega)
          cases hAscent with
          | cons hStop hRest => exact ⟨_, hRest, Nat.le_of_succ_le_succ hLength⟩

theorem climb_overflows {parentOf' : StateId → Except Stop (Option StateId)}
    {parentOf : StateId → Option StateId} {known : StateId → Prop}
    (hParent : ∀ p, known p → parentOf' p = .ok (parentOf p) ∧ ∀ q, parentOf p = some q → known q)
    {fuel depth : Nat} {cursor : Option StateId} (hCursor : ∀ p, cursor = some p → known p)
    (hFull : depth + fuel + 1 = 2 ^ 32)
    (hEndless : ∀ nodes, ¬Forest.Ascent parentOf none cursor nodes) :
    climb parentOf' fuel depth cursor = .error .overflow := by
  induction fuel generalizing depth cursor with
  | zero =>
      cases cursor with
      | none => exact absurd .nil (hEndless [])
      | some p =>
          rw [climb, add, if_neg (by omega)]
          rfl
  | succ fuel ih =>
      cases cursor with
      | none => exact absurd .nil (hEndless [])
      | some p =>
          obtain ⟨hRead, hNext⟩ := hParent p (hCursor p rfl)
          rw [climb, add_ok (by omega), hRead]
          apply ih hNext (by omega)
          intro nodes hAscent
          exact hEndless (p :: nodes) (.cons (Option.some_ne_none _) hAscent)

end Spec

/-! Depths. -/

/-- The depth loop counts past the last `u32`: there are as many states as it can count, and
the first state whose chain of parents is endless or too long is one with an endless chain. -/
def CountsOver (spec : DefinitionSpec) (limits : HfsmLimits) : Prop :=
  spec.states.length + 1 = 2 ^ 32 ∧ ∃ first s rest, spec.states = first ++ s :: rest ∧
    (∀ before ∈ first, ∃ nodes, Forest.Ascent spec.parentOf none (some before.id) nodes ∧
      nodes.length ≤ limits.maxDepth) ∧
    ∀ nodes, ¬Forest.Ascent spec.parentOf none (some s.id) nodes

section Depths

variable {spec : DefinitionSpec} {limits : HfsmLimits} {index : List (StateId × Nat)}

/-- A chain of parents that ends is no longer than the states. -/
theorem ascent_length_le
    (hReferences : ∀ s ∈ spec.states, ∀ p, s.parent = some p → (spec.findState p).isSome)
    {id : StateId} (hKnown : (spec.findState id).isSome) {nodes : List StateId}
    (hAscent : Forest.Ascent spec.parentOf none (some id) nodes) :
    nodes.length ≤ spec.states.length := by
  have hIds : nodes ⊆ spec.states.map StateSpec.id := by
    intro b hb
    have hFound : (spec.findState b).isSome := by
      cases hAscent.reaches.1 b hb with
      | refl => exact hKnown
      | tail _ hParent =>
          obtain ⟨s, hFind, hParent⟩ := Option.bind_eq_some_iff.mp hParent
          exact hReferences s (mem_of_findState hFind).1 b hParent
    obtain ⟨s, hs, rfl⟩ := declares_iff.mpr hFound
    exact List.mem_map_of_mem hs
  have hLength := (hAscent.nodup.subperm hIds).length_le
  rwa [List.length_map] at hLength

theorem computeDepth_strict (hIndex : indexStates spec.states = .ok index)
    (hFits : spec.states.length < 2 ^ 32)
    (hReferences : ∀ s ∈ spec.states, ∀ p, s.parent = some p → (spec.findState p).isSome)
    {s : StateSpec} (hs : s ∈ spec.states) :
    ((spec.states.length + 1 = 2 ^ 32 → ∃ nodes,
        Forest.Ascent spec.parentOf none (some s.id) nodes) →
      computeDepth spec.states index limits s =
        lift (Hfsm.computeDepth spec.states index limits s)) ∧
    (spec.states.length + 1 = 2 ^ 32 →
      (∀ nodes, ¬Forest.Ascent spec.parentOf none (some s.id) nodes) →
      computeDepth spec.states index limits s = .error .overflow) := by
  have hNodup : (spec.states.map StateSpec.id).Nodup := (Check.index_eq_ok hIndex).1
  have hPos := List.length_pos_of_mem hs
  have hSelf := parentOf_id hNodup hs
  have hKnown : (spec.findState s.id).isSome := by simp [findState_of_mem hNodup hs]
  have hParent : ∀ p, (spec.findState p).isSome →
      parentAt spec.states index p = .ok (spec.parentOf p) ∧
        ∀ q, spec.parentOf p = some q → (spec.findState q).isSome := by
    intro p hp
    refine ⟨parentAt_eq hIndex hp, fun q hq => ?_⟩
    obtain ⟨found, hFind, hFound⟩ := Option.bind_eq_some_iff.mp hq
    exact hReferences found (mem_of_findState hFind).1 q hFound
  have hRead : (fun p => (stateIn spec.states index p).bind StateSpec.parent) = spec.parentOf := by
    funext p
    rw [stateIn_eq hIndex]
    rfl
  constructor
  · intro hEnds
    have hClimb := @climb_eq (parentAt spec.states index) spec.parentOf
      (fun p => (spec.findState p).isSome) hParent (spec.states.length - 1) 1 s.parent
      (hReferences s hs) (by omega) (by
        intro hFull
        obtain ⟨nodes, hAscent⟩ := hEnds (by omega)
        have hLength := ascent_length_le hReferences hKnown hAscent
        cases hAscent with
        | cons hStop hRest =>
            rw [List.length_cons] at hLength
            exact ⟨_, hSelf ▸ hRest, by omega⟩)
    rw [computeDepth, hClimb, Hfsm.computeDepth, hRead]
    cases Hfsm.climb spec.parentOf (spec.states.length - 1) 1 s.parent with
    | none => rfl
    | some depth =>
        show (if depth > limits.maxDepth then _ else _) =
          lift (if depth > limits.maxDepth then _ else _)
        split_ifs <;> rfl
  · intro hFull hEndless
    have hClimb := @climb_overflows (parentAt spec.states index) spec.parentOf
      (fun p => (spec.findState p).isSome) hParent (spec.states.length - 1) 1 s.parent
      (hReferences s hs) (by omega) (by
        intro nodes hAscent
        exact hEndless (s.id :: nodes) (.cons (Option.some_ne_none _) (hSelf.symm ▸ hAscent)))
    rw [computeDepth, hClimb]
    rfl

/-- A depth that is found is the length of a chain that ends, and within the limit. -/
theorem computeDepth_isOk (hIndex : indexStates spec.states = .ok index)
    (hReferences : ∀ s ∈ spec.states, ∀ p, s.parent = some p → (spec.findState p).isSome)
    {s : StateSpec} (hs : s ∈ spec.states) :
    (∃ depth, Hfsm.computeDepth spec.states index limits s = .ok depth) ↔ ∃ nodes,
      Forest.Ascent spec.parentOf none (some s.id) nodes ∧ nodes.length ≤ limits.maxDepth := by
  have hNodup : (spec.states.map StateSpec.id).Nodup := (Check.index_eq_ok hIndex).1
  have hSelf := parentOf_id hNodup hs
  have hKnown : (spec.findState s.id).isSome := by simp [findState_of_mem hNodup hs]
  simp only [computeDepth_eq_ok hIndex hNodup hs]
  constructor
  · rintro ⟨depth, hClimb, rfl, hMax⟩
    obtain ⟨nodes, hAscent, hDepth, -⟩ := climb_eq_some.mp hClimb
    refine ⟨s.id :: nodes, .cons (Option.some_ne_none _) (hSelf.symm ▸ hAscent), ?_⟩
    rw [List.length_cons]
    omega
  · rintro ⟨nodes, hAscent, hMax⟩
    have hLength := ascent_length_le hReferences hKnown hAscent
    cases hAscent with
    | @cons _ nodes hStop hRest =>
        rw [hSelf] at hRest
        rw [List.length_cons] at hLength hMax
        have hClimb : Hfsm.climb spec.parentOf (spec.states.length - 1) 1 s.parent =
            some (1 + nodes.length) := climb_eq_some.mpr ⟨nodes, hRest, rfl, by omega⟩
        have hDepth : spec.depthOf s.id = 1 + nodes.length := by
          rw [DefinitionSpec.depthOf, hSelf, hClimb]
          rfl
        exact ⟨_, hDepth ▸ hClimb, rfl, by omega⟩

/-- The depth pass is that of `compile` unless it counts too far. -/
theorem computeDepths_strict (hIndex : indexStates spec.states = .ok index)
    (hFits : spec.states.length < 2 ^ 32)
    (hReferences : ∀ s ∈ spec.states, ∀ p, s.parent = some p → (spec.findState p).isSome) :
    (¬CountsOver spec limits → Check.collect (computeDepth spec.states index limits) spec.states =
        lift (computeDepths spec.states index limits)) ∧
      (CountsOver spec limits →
        Check.collect (computeDepth spec.states index limits) spec.states = .error .overflow) := by
  constructor
  · intro hCounts
    apply collect_until
    intro first s rest hSplit hFirst
    have hs : s ∈ spec.states := by simp [hSplit]
    apply (computeDepth_strict hIndex hFits hReferences hs).1
    intro hFull
    by_contra hEndless
    refine hCounts ⟨hFull, first, s, rest, hSplit, fun before hBefore => ?_, ?_⟩
    · have hMem : before ∈ spec.states := by simp [hSplit, hBefore]
      exact (computeDepth_isOk hIndex hReferences hMem).mp (hFirst before hBefore)
    · exact not_exists.mp hEndless
  · rintro ⟨hFull, first, s, rest, hSplit, hFirst, hEndless⟩
    have hStop : computeDepth spec.states index limits s = .error .overflow :=
      (computeDepth_strict hIndex hFits hReferences (by simp [hSplit])).2 hFull hEndless
    have hBefore : ∀ before ∈ first, ∃ depth,
        computeDepth spec.states index limits before = .ok depth := by
      intro before hBefore
      have hMem : before ∈ spec.states := by simp [hSplit, hBefore]
      obtain ⟨nodes, hAscent, hMax⟩ := hFirst before hBefore
      obtain ⟨depth, hDepth⟩ :=
        (computeDepth_isOk hIndex hReferences hMem).mpr ⟨nodes, hAscent, hMax⟩
      refine ⟨depth, ?_⟩
      rw [(computeDepth_strict hIndex hFits hReferences hMem).1 fun _ => ⟨nodes, hAscent⟩, hDepth]
      rfl
    have hAll := @collect_stops _ _ (computeDepth spec.states index limits) first s rest
      .overflow hBefore hStop
    rwa [← hSplit] at hAll

end Depths

section Initials

variable {spec : DefinitionSpec} {limits : HfsmLimits} {index : List (StateId × Nat)}

theorem checkInitials_lift (hIndex : indexStates spec.states = .ok index)
    (hReferences : ∀ s ∈ spec.states, ∀ id, some id ∈ [s.parent, s.initial] →
      (spec.findState id).isSome) :
    checkInitials spec.states index = lift (Hfsm.checkInitials spec.states index) := by
  have hMarks : Check.each (markParent spec.states index) spec.states = .ok () := by
    rw [Check.each_eq_ok]
    intro s hs
    rw [markParent]
    cases hParent : s.parent with
    | none => rfl
    | some p =>
        have hRead := parentAt_eq hIndex (hReferences s hs p (by simp [hParent]))
        rw [parentAt] at hRead
        cases hPosition : position index p with
        | error stop => rw [hPosition] at hRead; cases hRead
        | ok i =>
            rw [hPosition] at hRead
            simp only [hPosition]
            show (read spec.states i >>= fun _ => Except.ok ()) = _
            cases hState : read spec.states i with
            | error stop =>
                have hRead : (read spec.states i >>= fun s => Except.ok s.parent) =
                  .ok (spec.parentOf p) := hRead
                rw [hState] at hRead
                cases hRead
            | ok found => rfl
  rw [checkInitials, hMarks]
  show Check.each (checkInitial spec.states index) spec.states.zipIdx = _
  apply each_lift
  rintro ⟨s, place⟩ hMem
  have hs := List.fst_mem_of_mem_zipIdx hMem
  rw [checkInitial, Hfsm.checkInitial]
  cases hHas : hasChildren spec.states index place with
  | false => cases s.initial <;> rfl
  | true =>
      cases hInitial : s.initial with
      | none => rfl
      | some i =>
          have hRead := parentAt_eq hIndex (hReferences s hs i (by simp [hInitial]))
          simp only [hRead, stateIn_eq hIndex]
          show (if spec.parentOf i ≠ some s.id then _ else _) =
            lift (if spec.parentOf i ≠ some s.id then _ else _)
          split_ifs <;> rfl

end Initials
end Hfsm.Strict

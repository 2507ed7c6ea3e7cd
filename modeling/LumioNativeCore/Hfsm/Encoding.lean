import LumioNativeCore.Hfsm.Presentation
import LumioNativeCore.Hfsm.Conformance

/-! What the canonical encoding determines. Every field can be read back except
an optional one that is absent or holds the sentinel. -/
namespace Hfsm

open Framing

/-! Reading the fields back. -/

theorem toLeBytes_inj {v v' : UInt32} : toLeBytes v = toLeBytes v' ↔ v = v' := by
  constructor
  · intro h
    simp only [toLeBytes, List.cons.injEq, ← UInt8.toNat_inj, UInt32.toNat_toUInt8,
      UInt32.toNat_shiftRight, Nat.shiftRight_eq_div_pow] at h
    have hBytes : v.toNat % 256 = v'.toNat % 256 ∧ v.toNat / 256 % 256 = v'.toNat / 256 % 256 ∧
        v.toNat / 65536 % 256 = v'.toNat / 65536 % 256 ∧
        v.toNat / 16777216 % 256 = v'.toNat / 16777216 % 256 :=
      ⟨h.1, h.2.1, h.2.2.1, h.2.2.2.1⟩
    have hv := v.toNat_lt
    have hv' := v'.toNat_lt
    apply UInt32.toNat_inj.mp
    omega
  · rintro rfl
    rfl

theorem toLeBytes_frames : Frames (fun _ => True) toLeBytes id :=
  Frames.of_length (fun _ _ => rfl) fun _ _ => toLeBytes_inj

theorem count_frames : Frames (· < 2 ^ 32) (fun n => toLeBytes (UInt32.ofNat n)) id := by
  intro n n' hn hn' rest rest'
  rw [toLeBytes_frames _ _ trivial trivial, id, id, ← UInt32.toNat_inj,
    UInt32.toNat_ofNat_of_lt' hn, UInt32.toNat_ofNat_of_lt' hn', id, id]

/-- A list of identifiers behind its length. -/
theorem list_frames {α : Type} {raw : α → UInt32} (hRaw : Function.Injective raw) :
    Frames (fun list : List α => list.length < 2 ^ 32) (fun list => encodeList (list.map raw))
      id := by
  have hList : Frames (fun list : List α => (list.map raw).length < 2 ^ 32 ∧
      ∀ a ∈ list.map raw, True) (fun list => encodeList (list.map raw))
      (fun list => (list.map raw).map id) :=
    (count_frames.list toLeBytes_frames).field (List.map raw)
  apply hList.congr
  · intro list hLength
    exact ⟨by rwa [List.length_map], fun _ _ => trivial⟩
  · intro list list'
    rw [List.map_id, List.map_id]
    exact (List.map_injective_iff.mpr hRaw).eq_iff

/-- An optional identifier as the encoding shows it: the sentinel reads as absent. -/
def plain {α : Type} (raw : α → UInt32) (v : Option α) : Option α :=
  v.filter fun x => decide (raw x ≠ sentinel)

/-- One of the two is absent, the other is the sentinel. -/
def Confused {α : Type} (raw : α → UInt32) (v v' : Option α) : Prop :=
  (v = none ∧ ∃ x, v' = some x ∧ raw x = sentinel) ∨
    (v' = none ∧ ∃ x, v = some x ∧ raw x = sentinel)

theorem plain_some {α : Type} (raw : α → UInt32) (x : α) :
    plain raw (some x) = if raw x = sentinel then none else some x := by
  by_cases h : raw x = sentinel <;> simp [plain, h]

theorem plain_eq_iff {α : Type} {raw : α → UInt32} (hRaw : Function.Injective raw)
    {v v' : Option α} : plain raw v = plain raw v' ↔ v = v' ∨ Confused raw v v' := by
  have hNone : plain raw (none : Option α) = none := rfl
  cases v with
  | none =>
      cases v' with
      | none => simp
      | some x => simp [hNone, plain_some, Confused]
  | some x =>
      cases v' with
      | none => simp [hNone, plain_some, Confused]
      | some x' =>
          rw [plain_some, plain_some]
          simp only [Confused, reduceCtorEq, false_and, or_false, Option.some.injEq]
          split_ifs with hx hx' hx'
          · exact iff_of_true rfl (hRaw (hx.trans hx'.symm))
          · exact iff_of_false (by simp) fun hSame => hx' (hSame ▸ hx)
          · exact iff_of_false (by simp) fun hSame => hx (hSame ▸ hx')
          · exact Option.some.injEq x x' ▸ Iff.rfl

theorem opt_frames {α : Type} {raw : α → UInt32} (hRaw : Function.Injective raw) :
    Frames (fun _ : Option α => True) (fun v => encodeOpt (v.map raw)) (plain raw) := by
  apply Frames.of_length
  · intro v v'
    rfl
  · intro v v'
    rw [encodeOpt, encodeOpt, toLeBytes_inj, plain_eq_iff hRaw]
    cases v with
    | none =>
        cases v' with
        | none => simp
        | some x => simp [Confused, eq_comm]
    | some x =>
        cases v' with
        | none => simp [Confused]
        | some x' => simp [Confused, hRaw.eq_iff]

theorem stateId_injective : Function.Injective StateId.raw := by
  rintro ⟨raw⟩ ⟨raw'⟩ h
  exact congrArg StateId.mk h

theorem guardId_injective : Function.Injective GuardId.raw := by
  rintro ⟨raw⟩ ⟨raw'⟩ h
  exact congrArg GuardId.mk h

theorem actionId_injective : Function.Injective ActionId.raw := by
  rintro ⟨raw⟩ ⟨raw'⟩ h
  exact congrArg ActionId.mk h

/-! States, transitions and definitions as the encoding shows them. -/

def StateSpec.erased (s : StateSpec) : StateSpec :=
  { s with
    parent := plain StateId.raw s.parent
    initial := plain StateId.raw s.initial
    name := none }

def TransitionSpec.erased (t : TransitionSpec) : TransitionSpec :=
  { t with guard := plain GuardId.raw t.guard }

theorem StateSpec.erased_inj {s s' : StateSpec} :
    s.erased = s'.erased ↔ s.id = s'.id ∧
      plain StateId.raw s.parent = plain StateId.raw s'.parent ∧
      plain StateId.raw s.initial = plain StateId.raw s'.initial ∧
      s.entry = s'.entry ∧ s.exit = s'.exit := by
  simp only [StateSpec.erased, StateSpec.mk.injEq, and_true]

theorem TransitionSpec.erased_inj {t t' : TransitionSpec} :
    t.erased = t'.erased ↔ t.id = t'.id ∧ t.source = t'.source ∧ t.event = t'.event ∧
      t.priority = t'.priority ∧ plain GuardId.raw t.guard = plain GuardId.raw t'.guard ∧
      t.kind = t'.kind ∧ t.actions = t'.actions := by
  simp only [TransitionSpec.erased, TransitionSpec.mk.injEq]

def DefinitionSpec.erased (spec : DefinitionSpec) : DefinitionSpec :=
  { spec with
    states := spec.states.map StateSpec.erased
    transitions := spec.transitions.map TransitionSpec.erased }

theorem encodeState_frames :
    Frames (fun s : StateSpec => s.entry.length < 2 ^ 32 ∧ s.exit.length < 2 ^ 32) encodeState
      StateSpec.erased := by
  have hId := toLeBytes_frames.field fun s : StateSpec => s.id.raw
  have hParent := (opt_frames stateId_injective).field StateSpec.parent
  have hInitial := (opt_frames stateId_injective).field StateSpec.initial
  have hEntry := (list_frames actionId_injective).field StateSpec.entry
  have hExit := (list_frames actionId_injective).field StateSpec.exit
  apply ((((hId.append hParent).append hInitial).append hEntry).append hExit).congr
  · rintro s ⟨hEntry, hExit⟩
    exact ⟨⟨⟨⟨trivial, trivial⟩, trivial⟩, hEntry⟩, hExit⟩
  · intro s s'
    simp only [id, Prod.mk.injEq, stateId_injective.eq_iff, StateSpec.erased_inj, and_assoc]

/-- The tag and the target determine the kind, whatever the target's identifier. -/
theorem kind_eq_iff {k k' : TransitionKind} :
    k.tag = k'.tag ∧ plain StateId.raw k.target = plain StateId.raw k'.target ↔ k = k' := by
  rw [plain_eq_iff stateId_injective]
  constructor
  · rintro ⟨hTag, hTarget⟩
    cases k <;> cases k' <;> simp_all [TransitionKind.tag, TransitionKind.target, Confused]
  · rintro rfl
    exact ⟨rfl, Or.inl rfl⟩

theorem encodeTransition_frames :
    Frames (fun t : TransitionSpec => t.actions.length < 2 ^ 32) encodeTransition
      TransitionSpec.erased := by
  have hId := toLeBytes_frames.field fun t : TransitionSpec => t.id.raw
  have hSource := toLeBytes_frames.field fun t : TransitionSpec => t.source.raw
  have hEvent := toLeBytes_frames.field fun t : TransitionSpec => t.event.raw
  have hPriority := toLeBytes_frames.field TransitionSpec.priority
  have hGuard := (opt_frames guardId_injective).field TransitionSpec.guard
  have hTag := toLeBytes_frames.field fun t : TransitionSpec => t.kind.tag
  have hTarget := (opt_frames stateId_injective).field fun t : TransitionSpec => t.kind.target
  have hActions := (list_frames actionId_injective).field TransitionSpec.actions
  apply (((((((hId.append hSource).append hEvent).append hPriority).append hGuard).append
    hTag).append hTarget).append hActions).congr
  · intro t hActions
    exact ⟨⟨⟨⟨⟨⟨⟨trivial, trivial⟩, trivial⟩, trivial⟩, trivial⟩, trivial⟩, trivial⟩, hActions⟩
  · intro t t'
    have hRaw : (t.id.raw = t'.id.raw ↔ t.id = t'.id) ∧
        (t.source.raw = t'.source.raw ↔ t.source = t'.source) ∧
        (t.event.raw = t'.event.raw ↔ t.event = t'.event) := by
      rcases t with ⟨⟨_⟩, ⟨_⟩, ⟨_⟩⟩
      rcases t' with ⟨⟨_⟩, ⟨_⟩, ⟨_⟩⟩
      simp
    simp only [id, Prod.mk.injEq, TransitionSpec.erased_inj, ← kind_eq_iff, and_assoc, hRaw.1,
      hRaw.2.1, hRaw.2.2]

/-- The lengths that are written before their lists fit their field. -/
structure Encodable (spec : DefinitionSpec) : Prop where
  states : spec.states.length < 2 ^ 32
  transitions : spec.transitions.length < 2 ^ 32
  entry : ∀ s ∈ spec.states, s.entry.length < 2 ^ 32
  exit : ∀ s ∈ spec.states, s.exit.length < 2 ^ 32
  actions : ∀ t ∈ spec.transitions, t.actions.length < 2 ^ 32

section Definitions

variable {a b : DefinitionSpec}

theorem erased_states (spec : DefinitionSpec) :
    spec.erased.states.map StateSpec.unnamed = spec.states.map StateSpec.erased := by
  rw [DefinitionSpec.erased, List.map_map]
  rfl

/-- Equal encodings are equal definitions up to the presentation and the sentinel. -/
theorem canonicalEncoding_eq_iff (hKeyed : Keyed a) (hVersion : a.formatVersion = b.formatVersion)
    (hA : Encodable a) (hB : Encodable b) :
    canonicalEncoding a = canonicalEncoding b ↔ SameDefinition a.erased b.erased := by
  have hSplit : ∀ spec : DefinitionSpec, canonicalEncoding spec =
      (encodingTag ++ (toLeBytes formatVersion ++ toLeBytes semanticsVersion)) ++
        (toLeBytes spec.initial.raw ++
          ((toLeBytes (UInt32.ofNat (spec.states.insertionSort stateLe).length) ++
            (spec.states.insertionSort stateLe).flatMap encodeState) ++
          ((toLeBytes (UInt32.ofNat (spec.transitions.insertionSort transitionLe).length) ++
            (spec.transitions.insertionSort transitionLe).flatMap encodeTransition) ++ []))) := by
    intro spec
    simp only [canonicalEncoding, List.length_insertionSort, List.append_assoc, List.append_nil]
  have hStates : ∀ {spec : DefinitionSpec}, Encodable spec →
      (spec.states.insertionSort stateLe).length < 2 ^ 32 ∧
        ∀ s ∈ spec.states.insertionSort stateLe,
          s.entry.length < 2 ^ 32 ∧ s.exit.length < 2 ^ 32 := by
    intro spec h
    simp only [List.length_insertionSort, List.mem_insertionSort]
    exact ⟨h.states, fun s hs => ⟨h.entry s hs, h.exit s hs⟩⟩
  have hTransitions : ∀ {spec : DefinitionSpec}, Encodable spec →
      (spec.transitions.insertionSort transitionLe).length < 2 ^ 32 ∧
        ∀ t ∈ spec.transitions.insertionSort transitionLe, t.actions.length < 2 ^ 32 := by
    intro spec h
    simp only [List.length_insertionSort, List.mem_insertionSort]
    exact ⟨h.transitions, h.actions⟩
  have hStateView : ∀ s s' : StateSpec, stateLe s s' ↔ stateLe s.erased s'.erased :=
    fun _ _ => Iff.rfl
  have hTransitionView : ∀ t t' : TransitionSpec,
      transitionLe t t' ↔ transitionLe t.erased t'.erased :=
    fun _ _ => Iff.rfl
  rw [hSplit, hSplit, List.append_cancel_left_eq, toLeBytes_frames _ _ trivial trivial,
    count_frames.list encodeState_frames _ _ (hStates hA) (hStates hB),
    count_frames.list encodeTransition_frames _ _ (hTransitions hA) (hTransitions hB),
    map_insertionSort_eq_iff hStateView hKeyed.states,
    map_insertionSort_eq_iff hTransitionView hKeyed.transitions]
  constructor
  · rintro ⟨hInitial, hStates, hTransitions, -⟩
    exact
      { formatVersion := hVersion
        initial := stateId_injective hInitial
        states := by rwa [erased_states, erased_states]
        transitions := hTransitions }
  · intro h
    have hStates := h.states
    rw [erased_states, erased_states] at hStates
    exact ⟨congrArg StateId.raw h.initial, hStates, h.transitions, rfl⟩

/-- Some state's parent, or some transition's guard, is absent in one definition
and the sentinel in the other. -/
def Clash (a b : DefinitionSpec) : Prop :=
  (∃ s ∈ a.states, ∃ s' ∈ b.states, s.id = s'.id ∧
    Confused StateId.raw s.parent s'.parent) ∨
  (∃ t ∈ a.transitions, ∃ t' ∈ b.transitions, t.id = t'.id ∧
    Confused GuardId.raw t.guard t'.guard)

variable {c d : CompiledDefinition}

theorem not_confused_self {α : Type} {raw : α → UInt32} {v : Option α} :
    ¬Confused raw v v := by
  cases v <;> simp [Confused]

/-- The initial of a state is one of its children, and a state without an initial
has none; so an initial is never confused with its absence. -/
theorem initial_not_erased (hA : Accepted a c) (hB : Accepted b d)
    (hPerm : (a.states.map StateSpec.erased).Perm (b.states.map StateSpec.erased))
    {s s' : StateSpec} (hs : s ∈ a.states) (hs' : s' ∈ b.states) (hId : s.id = s'.id)
    (hNone : s'.initial = none) {i : StateId} (hInitial : s.initial = some i) :
    i.raw ≠ sentinel := by
  intro hSentinel
  have hParent : a.parentOf i = some s.id := hA.initialChild s hs i hInitial
  obtain ⟨child, hFind, hChild⟩ := Option.bind_eq_some_iff.mp hParent
  have hMem : child.erased ∈ b.states.map StateSpec.erased :=
    hPerm.mem_iff.mp (List.mem_map_of_mem (mem_of_findState hFind).1)
  obtain ⟨child', hChild', hSame⟩ := List.mem_map.mp hMem
  have hOther : s.id.raw ≠ sentinel := by
    intro hSelf
    have hFall := hA.falls _ _ hParent
    rw [stateId_injective (hSelf.trans hSentinel.symm)] at hFall
    exact Nat.lt_irrefl _ hFall
  have hPlain : plain StateId.raw child'.parent = some s.id := by
    rw [(StateSpec.erased_inj.mp hSame).2.1, hChild, plain_some, if_neg hOther]
  apply hB.leafless s' hs' hNone child' hChild'
  rw [← hId]
  exact (Option.filter_eq_some_iff.mp hPlain).1

theorem initial_eq_of_erased (hA : Accepted a c) (hB : Accepted b d)
    (hPerm : (a.states.map StateSpec.erased).Perm (b.states.map StateSpec.erased))
    {s s' : StateSpec} (hs : s ∈ a.states) (hs' : s' ∈ b.states) (hSame : s.erased = s'.erased) :
    s.initial = s'.initial := by
  obtain ⟨hId, -, hPlain, -⟩ := StateSpec.erased_inj.mp hSame
  rcases (plain_eq_iff stateId_injective).mp hPlain with hEq | hConfused
  · exact hEq
  · rcases hConfused with ⟨hNone, i, hInitial, hSentinel⟩ | ⟨hNone, i, hInitial, hSentinel⟩
    · exact absurd hSentinel
        (initial_not_erased hB hA hPerm.symm hs' hs hId.symm hNone hInitial)
    · exact absurd hSentinel (initial_not_erased hA hB hPerm hs hs' hId hNone hInitial)

/-- Apart from a clash, definitions that agree up to the sentinel agree. -/
theorem sameDefinition_of_erased (hA : Accepted a c) (hB : Accepted b d)
    (h : SameDefinition a.erased b.erased) (hClash : ¬Clash a b) : SameDefinition a b := by
  have hStates := h.states
  rw [erased_states, erased_states] at hStates
  have hTransitions : (a.transitions.map TransitionSpec.erased).Perm
      (b.transitions.map TransitionSpec.erased) := h.transitions
  have hStateView : ∀ s s' : StateSpec, stateLe s s' ↔ stateLe s.erased s'.erased :=
    fun _ _ => Iff.rfl
  have hUnnamedView : ∀ s s' : StateSpec, stateLe s s' ↔ stateLe s.unnamed s'.unnamed :=
    fun _ _ => Iff.rfl
  have hTransitionView : ∀ t t' : TransitionSpec,
      transitionLe t t' ↔ transitionLe t.erased t'.erased :=
    fun _ _ => Iff.rfl
  have hUnnamed : (a.states.insertionSort stateLe).map StateSpec.unnamed =
      (b.states.insertionSort stateLe).map StateSpec.unnamed := by
    apply map_eq_map ((map_insertionSort_eq_iff hStateView hA.keyed.states).mpr hStates)
    intro s hs s' hs' hSame
    rw [List.mem_insertionSort] at hs hs'
    obtain ⟨hId, hPlain, -, hEntry, hExit⟩ := StateSpec.erased_inj.mp hSame
    have hParent : s.parent = s'.parent := by
      rcases (plain_eq_iff stateId_injective).mp hPlain with hEq | hConfused
      · exact hEq
      · exact absurd (Or.inl ⟨s, hs, s', hs', hId, hConfused⟩) hClash
    have hInitial := initial_eq_of_erased hA hB hStates hs hs' hSame
    exact StateSpec.unnamed_inj.mpr ⟨hId, hParent, hInitial, hEntry, hExit⟩
  have hGuards : (a.transitions.insertionSort transitionLe).map id =
      (b.transitions.insertionSort transitionLe).map id := by
    apply map_eq_map ((map_insertionSort_eq_iff hTransitionView hA.keyed.transitions).mpr
      hTransitions)
    intro t ht t' ht' hSame
    rw [List.mem_insertionSort] at ht ht'
    obtain ⟨hId, hSource, hEvent, hPriority, hPlain, hKind, hActions⟩ :=
      TransitionSpec.erased_inj.mp hSame
    have hGuard : t.guard = t'.guard := by
      rcases (plain_eq_iff guardId_injective).mp hPlain with hEq | hConfused
      · exact hEq
      · exact absurd (Or.inr ⟨t, ht, t', ht', hId, hConfused⟩) hClash
    cases t
    cases t'
    rw [id, id, TransitionSpec.mk.injEq]
    exact ⟨hId, hSource, hEvent, hPriority, hGuard, hKind, hActions⟩
  rw [List.map_id, List.map_id] at hGuards
  exact
    { formatVersion := h.formatVersion
      initial := h.initial
      states := (map_insertionSort_eq_iff hUnnamedView hA.keyed.states).mp hUnnamed
      transitions := (insertionSort_eq_iff hA.keyed.transitions).mp hGuards }

theorem SameDefinition.erased (h : SameDefinition a b) : SameDefinition a.erased b.erased where
  formatVersion := h.formatVersion
  initial := h.initial
  states := by
    have hFactor : ∀ spec : DefinitionSpec, spec.states.map StateSpec.erased =
        (spec.states.map StateSpec.unnamed).map StateSpec.erased := by
      intro spec
      rw [List.map_map]
      rfl
    rw [erased_states, erased_states, hFactor, hFactor]
    exact h.states.map StateSpec.erased
  transitions := h.transitions.map TransitionSpec.erased

theorem SameDefinition.not_clash (h : SameDefinition a b) (hA : Accepted a c) : ¬Clash a b := by
  rintro (⟨s, hs, s', hs', hId, hConfused⟩ | ⟨t, ht, t', ht', hId, hConfused⟩)
  · obtain ⟨r, hr, hSame⟩ := List.mem_map.mp (h.states.mem_iff.mpr (List.mem_map_of_mem hs'))
    obtain ⟨hrId, hParent, -⟩ := StateSpec.unnamed_inj.mp hSame
    obtain rfl := List.inj_on_of_nodup_map hA.idsNodup hr hs (hrId.trans hId.symm)
    rw [hParent] at hConfused
    exact not_confused_self hConfused
  · obtain rfl := List.inj_on_of_nodup_map hA.transitionIds ht (h.transitions.mem_iff.mpr ht') hId
    exact not_confused_self hConfused

/-- Equal encodings mean equal definitions up to presentation, and so equal
evaluation, exactly when the definitions are not told apart by a sentinel alone. -/
theorem encoding_injective_iff {limits limits' : HfsmLimits}
    (hA : compile a limits = .ok c) (hB : compile b limits' = .ok d)
    (hLengthA : Encodable a) (hLengthB : Encodable b) :
    (canonicalEncoding a = canonicalEncoding b →
      SameDefinition a b ∧ ∀ index (item : BatchItem) scratch,
        evaluateItem index { item with definition := c } scratch =
          evaluateItem index { item with definition := d } scratch) ↔
      ¬(SameDefinition a.erased b.erased ∧ Clash a b) := by
  have hA := accepted hA
  have hB := accepted hB
  rw [canonicalEncoding_eq_iff hA.keyed (hA.version.trans hB.version.symm) hLengthA hLengthB]
  constructor
  · rintro hInjective ⟨hErased, hClash⟩
    exact (hInjective hErased).1.not_clash hA hClash
  · intro hNone hErased
    have hSame : SameDefinition a b :=
      sameDefinition_of_erased hA hB hErased fun hClash => hNone ⟨hErased, hClash⟩
    exact ⟨hSame, (hSame.agrees hA hB).evaluateItem⟩

end Definitions

/-- The boundary tree's first transition with another guard. -/
def guardedSpec (guard : Option GuardId) : DefinitionSpec where
  formatVersion := formatVersion
  initial := ⟨1⟩
  states := [{ id := ⟨1⟩, parent := none, initial := none, entry := [], exit := [], name := none }]
  transitions :=
    [{ id := ⟨1⟩, source := ⟨1⟩, event := ⟨7⟩, priority := 0, guard := guard
       kind := .internal, actions := [⟨40⟩] }]

def unguardedDefinition : CompiledDefinition :=
  (compile (guardedSpec none) .default).toOption.get (by decide +kernel)

theorem compile_unguarded : compile (guardedSpec none) .default = .ok unguardedDefinition :=
  Check.eq_ok_get _

def sentinelDefinition : CompiledDefinition :=
  (compile (guardedSpec (some ⟨sentinel⟩)) .default).toOption.get (by decide +kernel)

theorem compile_sentinel :
    compile (guardedSpec (some ⟨sentinel⟩)) .default = .ok sentinelDefinition :=
  Check.eq_ok_get _

theorem guardedSpec_encodable (guard : Option GuardId) : Encodable (guardedSpec guard) where
  states := by simp [guardedSpec]
  transitions := by simp [guardedSpec]
  entry := by simp [guardedSpec]
  exit := by simp [guardedSpec]
  actions := by simp [guardedSpec]

theorem encoding_injective_iff_guarded :
    (canonicalEncoding (guardedSpec none) = canonicalEncoding (guardedSpec (some ⟨sentinel⟩)) →
      SameDefinition (guardedSpec none) (guardedSpec (some ⟨sentinel⟩)) ∧
        ∀ index (item : BatchItem) scratch,
          evaluateItem index { item with definition := unguardedDefinition } scratch =
            evaluateItem index { item with definition := sentinelDefinition } scratch) ↔
      ¬(SameDefinition (guardedSpec none).erased (guardedSpec (some ⟨sentinel⟩)).erased ∧
        Clash (guardedSpec none) (guardedSpec (some ⟨sentinel⟩))) :=
  encoding_injective_iff compile_unguarded compile_sentinel (guardedSpec_encodable none)
    (guardedSpec_encodable _)

def guardedItem (def_ : CompiledDefinition) : BatchItem where
  machineKey := 1
  definition := def_
  kind := .event ⟨7⟩
  snapshot := some
    { fingerprint := unguardedDefinition.fingerprint
      machineKey := 1
      epoch := 0
      stepSeq := 1
      nextActivationSeq := 2
      lifecycle := .running
      activePath := [⟨⟨1⟩, 1⟩] }
  guards := ⟨[]⟩
  scope := none

/-- An absent guard and the guard `0xFFFF_FFFF` are encoded alike, but the same
snapshot takes the transition under one definition and is rejected under the other. -/
theorem encoding_confuses_guard :
    canonicalEncoding (guardedSpec none) = canonicalEncoding (guardedSpec (some ⟨sentinel⟩)) ∧
      ¬SameDefinition (guardedSpec none) (guardedSpec (some ⟨sentinel⟩)) ∧
      (evaluateItem 0 (guardedItem unguardedDefinition) .empty).1.outcome =
        .transitioned ⟨1⟩ ∧
      (evaluateItem 0 (guardedItem sentinelDefinition) .empty).1.outcome =
        .rejected (.guardMissing ⟨sentinel⟩) := by
  refine ⟨by decide +kernel, fun hSame => ?_, by decide +kernel, by decide +kernel⟩
  have hGuard := hSame.transitions
  simp [guardedSpec] at hGuard

end Hfsm

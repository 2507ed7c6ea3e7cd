import LumioNativeCore.Library.Framing
import LumioNativeCore.Hfsm.Graph

/-! Definitions that differ only in the order of their arrays and in names:
their encodings are equal, and their compiled graphs answer every query of the
evaluator alike. -/
namespace Hfsm

def StateSpec.unnamed (s : StateSpec) : StateSpec := { s with name := none }

theorem StateSpec.unnamed_inj {s s' : StateSpec} :
    s.unnamed = s'.unnamed ↔ s.id = s'.id ∧ s.parent = s'.parent ∧ s.initial = s'.initial ∧
      s.entry = s'.entry ∧ s.exit = s'.exit := by
  simp only [StateSpec.unnamed, StateSpec.mk.injEq, and_true]

/-- Equal up to the order of the two arrays and the names. -/
structure SameDefinition (a b : DefinitionSpec) : Prop where
  formatVersion : a.formatVersion = b.formatVersion
  initial : a.initial = b.initial
  states : (a.states.map StateSpec.unnamed).Perm (b.states.map StateSpec.unnamed)
  transitions : a.transitions.Perm b.transitions

/-! Evaluation reads a compiled graph through its queries. -/

/-- Two compiled graphs have the same tree of states. -/
structure SameTree (c d : CompiledDefinition) : Prop where
  rootInitial : c.rootInitial = d.rootInitial
  size : c.states.length = d.states.length
  contains : c.contains = d.contains
  parentOf : c.parentOf = d.parentOf
  initialOf : c.initialOf = d.initialOf
  isLeaf : c.isLeaf = d.isLeaf
  entryActions : c.entryActions = d.entryActions
  exitActions : c.exitActions = d.exitActions

/-- Two compiled graphs answer every query of the evaluator alike. -/
structure Agrees (c d : CompiledDefinition) : Prop extends SameTree c d where
  fingerprint : c.fingerprint = d.fingerprint
  maxDepth : c.maxDepth = d.maxDepth
  transition : c.transition = d.transition
  candidatesOf : c.candidatesOf = d.candidatesOf
  hasEvent : c.hasEvent = d.hasEvent
  requiredGuardsOf : c.requiredGuardsOf = d.requiredGuardsOf

namespace SameTree

variable {c d : CompiledDefinition}

theorem ancestry (h : SameTree c d) : c.ancestry = d.ancestry := by
  funext from_
  rw [CompiledDefinition.ancestry, CompiledDefinition.ancestry, h.parentOf, h.size]

theorem initialChain (h : SameTree c d) : c.initialChain = d.initialChain := by
  funext state
  rw [CompiledDefinition.initialChain, CompiledDefinition.initialChain, h.initialOf, h.size]

theorem ancestryBelow (h : SameTree c d) : c.ancestryBelow = d.ancestryBelow := by
  funext from_ domain
  rw [CompiledDefinition.ancestryBelow, CompiledDefinition.ancestryBelow, h.ancestry]

theorem strictCommonAncestor (h : SameTree c d) :
    c.strictCommonAncestor = d.strictCommonAncestor := by
  funext x y
  rw [CompiledDefinition.strictCommonAncestor, CompiledDefinition.strictCommonAncestor,
    h.ancestry, h.parentOf]

end SameTree

namespace Agrees

variable {c d : CompiledDefinition}

theorem checkPath (h : Agrees c d) (nextSeq index : Nat) (prev : Option StateId)
    (path : List ActiveState) :
    Snapshot.checkPath c nextSeq index prev path =
      Snapshot.checkPath d nextSeq index prev path := by
  induction path generalizing index prev with
  | nil => rfl
  | cons a rest ih => simp only [Snapshot.checkPath, h.contains, h.parentOf, ih]

theorem validate (h : Agrees c d) (s : Snapshot) : s.validate c = s.validate d := by
  simp only [Snapshot.validate, h.fingerprint, h.maxDepth, h.checkPath, h.isLeaf]

theorem admitSnapshot (h : Agrees c d) (item : BatchItem) :
    admitSnapshot { item with definition := c } =
      Hfsm.admitSnapshot { item with definition := d } := by
  simp only [Hfsm.admitSnapshot, h.validate]

theorem pick (h : Agrees c d) (guards : GuardFrame) (ids : List TransitionId) :
    pick c guards ids = Hfsm.pick d guards ids := by
  induction ids with
  | nil => rfl
  | cons id rest ih => simp only [Hfsm.pick, h.transition, ih]

theorem select (h : Agrees c d) (s : Snapshot) (event : EventKind) (guards : GuardFrame) :
    select c s event guards = Hfsm.select d s event guards := by
  have hFrom : ∀ levels, selectFrom c event guards levels = selectFrom d event guards levels := by
    intro levels
    induction levels with
    | nil => rfl
    | cons level rest ih => simp only [selectFrom, h.candidatesOf, h.pick, ih]
  exact hFrom _

theorem enterLine (h : Agrees c d) : c.enterLine = d.enterLine := by
  funext a
  rw [CompiledDefinition.enterLine, CompiledDefinition.enterLine, h.entryActions]

theorem exitLine (h : Agrees c d) : c.exitLine = d.exitLine := by
  funext a
  rw [CompiledDefinition.exitLine, CompiledDefinition.exitLine, h.exitActions]

theorem readCrossing (h : Agrees c d) : c.readCrossing = d.readCrossing := by
  funext s keep source t target
  simp only [CompiledDefinition.readCrossing, CompiledDefinition.enteredBelow, h.ancestryBelow,
    h.initialChain, h.exitLine, h.enterLine]

theorem keepExternal (h : Agrees c d) : keepExternal c = Hfsm.keepExternal d := by
  funext s source target
  simp only [Hfsm.keepExternal, h.strictCommonAncestor]

theorem readSelected (h : Agrees c d) : c.readSelected = d.readSelected := by
  funext s selected
  cases selected with
  | none => rfl
  | some selected =>
      simp only [CompiledDefinition.readSelected, CompiledDefinition.readTransition,
        h.readCrossing, h.keepExternal]

theorem admitEvent (h : Agrees c d) (item : BatchItem) (event : EventKind) (s : Snapshot) :
    admitEvent { item with definition := c } event s =
      Hfsm.admitEvent { item with definition := d } event s := by
  simp only [Hfsm.admitEvent, checkGuards, h.hasEvent, h.requiredGuardsOf]

theorem readStart (h : Agrees c d) (item : BatchItem) (epoch : MachineEpoch) :
    readStart { item with definition := c } epoch =
      Hfsm.readStart { item with definition := d } epoch := by
  simp only [Hfsm.readStart, startCounters, h.admitSnapshot, startHeader, h.fingerprint,
    h.rootInitial, h.initialChain, h.enterLine]

theorem readEvent (h : Agrees c d) (item : BatchItem) (event : EventKind) :
    readEvent { item with definition := c } event =
      Hfsm.readEvent { item with definition := d } event := by
  simp only [Hfsm.readEvent, h.admitSnapshot, h.admitEvent, h.select, h.readSelected]

theorem readStop (h : Agrees c d) (item : BatchItem) :
    readStop { item with definition := c } = Hfsm.readStop { item with definition := d } := by
  simp only [Hfsm.readStop, h.admitSnapshot, h.exitLine]

theorem readItem (h : Agrees c d) (item : BatchItem) :
    readItem { item with definition := c } = Hfsm.readItem { item with definition := d } := by
  simp only [Hfsm.readItem, h.readStart, h.readEvent, h.readStop]

theorem residue (h : Agrees c d) (item : BatchItem) (entered : List StateId) :
    residue { item with definition := c } entered =
      Hfsm.residue { item with definition := d } entered := by
  simp only [Hfsm.residue, filledByStart, filledByEvent, startCounters, h.admitSnapshot,
    h.admitEvent, h.select, h.rootInitial, h.initialChain, CompiledDefinition.filledBy,
    CompiledDefinition.enteredBelow, h.ancestryBelow, h.keepExternal]

/-- Either graph may stand for the other in an item. -/
theorem evaluateItem (h : Agrees c d) (index : Nat) (item : BatchItem) (scratch : Scratch) :
    evaluateItem index { item with definition := c } scratch =
      Hfsm.evaluateItem index { item with definition := d } scratch := by
  rw [evaluateItem_eq, evaluateItem_eq, h.readItem, h.residue]

end Agrees

/-! The tables of an accepted definition do not depend on its presentation. -/

section Same

variable {a b : DefinitionSpec} {c d : CompiledDefinition}

theorem SameDefinition.findState (h : SameDefinition a b)
    (hNodup : (a.states.map StateSpec.id).Nodup) (id : StateId) :
    (a.findState id).map StateSpec.unnamed = (b.findState id).map StateSpec.unnamed := by
  have hFind : ∀ spec : DefinitionSpec, (spec.findState id).map StateSpec.unnamed =
      (spec.states.map StateSpec.unnamed).find? fun s => decide (s.id = id) := by
    intro spec
    rw [List.find?_map]
    rfl
  have hKeys : ((a.states.map StateSpec.unnamed).map StateSpec.id).Nodup := by
    rw [List.map_map]
    exact hNodup
  rw [hFind, hFind]
  exact Check.find_perm h.states hKeys id

theorem SameDefinition.states_length (h : SameDefinition a b) :
    a.states.length = b.states.length := by
  simpa using h.states.length_eq

/-- A reading of the declared state that does not look at its name. -/
theorem SameDefinition.reading {γ : Type} (h : SameDefinition a b)
    (hNodup : (a.states.map StateSpec.id).Nodup) (read : Option StateSpec → γ)
    (hRead : ∀ s, read (s.map StateSpec.unnamed) = read s) (id : StateId) :
    read (a.findState id) = read (b.findState id) := by
  rw [← hRead, h.findState hNodup, hRead]

theorem SameDefinition.parentOf (h : SameDefinition a b)
    (hNodup : (a.states.map StateSpec.id).Nodup) : a.parentOf = b.parentOf := by
  funext id
  apply h.reading hNodup (fun s => s.bind StateSpec.parent)
  intro s
  cases s <;> rfl

theorem SameDefinition.depthOf (h : SameDefinition a b)
    (hNodup : (a.states.map StateSpec.id).Nodup) : a.depthOf = b.depthOf := by
  funext id
  rw [DefinitionSpec.depthOf, DefinitionSpec.depthOf, h.parentOf hNodup, h.states_length]

theorem SameDefinition.candidatesOf (h : SameDefinition a b) {key : StateId × EventKind}
    (hPriorities : (a.candidatesOf key).Pairwise fun t u => t.priority < u.priority) :
    a.candidatesOf key = b.candidatesOf key := by
  have hSeparated : Framing.Separated CompiledDefinition.priorityLe
      ((a.transitions.map compileTransition).filter fun t =>
        decide ((t.source, t.event) = key)) := by
    intro t ht u hu hLe hGe
    have hMember : ∀ t ∈ (a.transitions.map compileTransition).filter (fun t =>
        decide ((t.source, t.event) = key)), t ∈ a.candidatesOf key := fun t ht => by
      rwa [DefinitionSpec.candidatesOf, List.mem_insertionSort]
    rcases Check.pairwise_trichotomy hPriorities (hMember t ht) (hMember u hu) with
      hSame | hLt | hLt
    · exact hSame
    · exact absurd hGe (UInt32.not_le.mpr hLt)
    · exact absurd hLe (UInt32.not_le.mpr hLt)
  rw [DefinitionSpec.candidatesOf, DefinitionSpec.candidatesOf,
    Framing.insertionSort_eq_iff hSeparated]
  exact (h.transitions.map compileTransition).filter _

theorem SameDefinition.maxDepth_le (h : SameDefinition a b) (hA : Accepted a c)
    (hB : Accepted b d) : c.maxDepth ≤ d.maxDepth := by
  obtain ⟨s, hs, hDepth⟩ := hA.depthReached
  have hMem : s.unnamed ∈ b.states.map StateSpec.unnamed :=
    h.states.mem_iff.mp (List.mem_map_of_mem hs)
  obtain ⟨s', hs', hSame⟩ := List.mem_map.mp hMem
  have hLe := hB.depth s' hs'
  rwa [(StateSpec.unnamed_inj.mp hSame).1, ← h.depthOf hA.idsNodup, hDepth] at hLe

theorem SameDefinition.symm (h : SameDefinition a b) : SameDefinition b a :=
  ⟨h.formatVersion.symm, h.initial.symm, h.states.symm, h.transitions.symm⟩

/-! The encoding is a function of the definition up to its presentation. -/

instance : IsTrans StateSpec stateLe := ⟨fun _ _ _ => UInt32.le_trans⟩

instance : Std.Total stateLe := ⟨fun _ _ => UInt32.le_total _ _⟩

theorem transitionLe_iff (t u : TransitionSpec) :
    transitionLe t u ↔
      toLex (t.source.raw.toNat, toLex (t.event.raw.toNat, t.priority.toNat)) ≤
        toLex (u.source.raw.toNat, toLex (u.event.raw.toNat, u.priority.toNat)) := by
  simp only [transitionLe, Prod.Lex.toLex_le_toLex, UInt32.lt_iff_toNat_lt,
    UInt32.le_iff_toNat_le, ← UInt32.toNat_inj]

instance : IsTrans TransitionSpec transitionLe where
  trans t u v htu huv := by
    rw [transitionLe_iff] at htu huv ⊢
    exact htu.trans huv

instance : Std.Total transitionLe where
  total t u := by
    rw [transitionLe_iff, transitionLe_iff]
    exact le_total _ _

/-- The keys the encoder sorts by tell the states and the transitions apart. -/
structure Keyed (spec : DefinitionSpec) : Prop where
  states : Framing.Separated stateLe spec.states
  transitions : Framing.Separated transitionLe spec.transitions

theorem Accepted.keyed (hA : Accepted a c) : Keyed a where
  states s hs t ht hLe hGe := by
    have hId : s.id = t.id := congrArg StateId.mk (UInt32.le_antisymm hLe hGe)
    exact List.inj_on_of_nodup_map hA.idsNodup hs ht hId
  transitions t ht u hu hLe hGe := by
    rw [transitionLe_iff] at hLe hGe
    have hKey := le_antisymm hLe hGe
    simp only [EmbeddingLike.apply_eq_iff_eq, Prod.mk.injEq, UInt32.toNat_inj] at hKey
    obtain ⟨hSource, hEvent, hPriority⟩ := hKey
    have hMember : ∀ v ∈ a.transitions, v.source = t.source → v.event = t.event →
        compileTransition v ∈ a.candidatesOf (t.source, t.event) := by
      intro v hv hSource hEvent
      exact DefinitionSpec.mem_candidatesOf.mpr
        ⟨List.mem_map_of_mem hv, by simp [compileTransition, hSource, hEvent]⟩
    have hId : t.id = u.id := by
      rcases Check.pairwise_trichotomy (hA.priorities (t.source, t.event))
        (hMember t ht rfl rfl)
        (hMember u hu (congrArg StateId.mk hSource.symm) (congrArg EventKind.mk hEvent.symm))
        with hSame | hLt | hLt
      · exact congrArg CompiledTransition.id hSame
      · exact absurd hPriority (UInt32.ne_of_lt hLt)
      · exact absurd hPriority.symm (UInt32.ne_of_lt hLt)
    exact List.inj_on_of_nodup_map hA.transitionIds ht hu hId

theorem SameDefinition.canonicalEncoding (h : SameDefinition a b) (hKeyed : Keyed a) :
    canonicalEncoding a = canonicalEncoding b := by
  have hView : ∀ s t : StateSpec, stateLe s t ↔ stateLe s.unnamed t.unnamed :=
    fun _ _ => Iff.rfl
  have hStates : (a.states.insertionSort stateLe).map StateSpec.unnamed =
      (b.states.insertionSort stateLe).map StateSpec.unnamed :=
    (Framing.map_insertionSort_eq_iff hView hKeyed.states).mpr h.states
  have hEncode : ∀ list : List StateSpec, list.flatMap encodeState =
      (list.map StateSpec.unnamed).flatMap encodeState := by
    intro list
    rw [List.flatMap_map]
    rfl
  have hTransitions : a.transitions.insertionSort transitionLe =
      b.transitions.insertionSort transitionLe :=
    (Framing.insertionSort_eq_iff hKeyed.transitions).mpr h.transitions
  rw [Hfsm.canonicalEncoding, Hfsm.canonicalEncoding, hEncode, hStates, ← hEncode, hTransitions,
    h.initial, h.states_length, h.transitions.length_eq]

theorem SameDefinition.sameTree (h : SameDefinition a b) (hA : Grounded a c)
    (hB : Grounded b d) : SameTree c d where
  rootInitial := by rw [hA.rootInitial, hB.rootInitial, h.initial]
  size := by rw [hA.states_length, hB.states_length, h.states_length]
  contains := by
    funext id
    rw [hA.indexed, hB.indexed]
    apply h.reading hA.idsNodup Option.isSome
    intro s
    cases s <;> rfl
  parentOf := by rw [hA.parentOf_eq, hB.parentOf_eq, h.parentOf hA.idsNodup]
  initialOf := by
    funext id
    rw [hA.initialOf_eq, hB.initialOf_eq]
    apply h.reading hA.idsNodup (fun s => s.bind StateSpec.initial)
    intro s
    cases s <;> rfl
  isLeaf := by
    funext id
    rw [CompiledDefinition.isLeaf, CompiledDefinition.isLeaf, hA.found, hB.found,
      Option.map_map, Option.map_map]
    apply h.reading hA.idsNodup (fun s => s.map fun s => s.initial.isNone)
    intro s
    cases s <;> rfl
  entryActions := by
    funext id
    rw [hA.entryActions_eq, hB.entryActions_eq]
    apply h.reading hA.idsNodup (fun s => (s.map StateSpec.entry).getD [])
    intro s
    cases s <;> rfl
  exitActions := by
    funext id
    rw [hA.exitActions_eq, hB.exitActions_eq]
    apply h.reading hA.idsNodup (fun s => (s.map StateSpec.exit).getD [])
    intro s
    cases s <;> rfl

/-- Accepted definitions that differ in their presentation evaluate alike. -/
theorem SameDefinition.agrees (h : SameDefinition a b) (hA : Accepted a c)
    (hB : Accepted b d) : Agrees c d := by
  have hTree := h.sameTree hA.toGrounded hB.toGrounded
  have hTransition : c.transition = d.transition := by
    funext id
    rw [hA.transition, hB.transition, Check.find_perm h.transitions hA.transitionIds]
  have hCandidates : c.candidatesOf = d.candidatesOf := by
    funext state event
    rw [hA.candidates, hB.candidates, h.candidatesOf (hA.priorities _)]
  have hEvent : c.hasEvent = d.hasEvent := by
    funext event
    rw [Bool.eq_iff_iff, hA.events, hB.events]
    simp only [h.transitions.mem_iff]
  exact
    { hTree with
      fingerprint := by
        rw [hA.fingerprint, hB.fingerprint, computeFingerprint, computeFingerprint,
          h.canonicalEncoding hA.keyed]
      maxDepth := Nat.le_antisymm (h.maxDepth_le hA hB) (h.symm.maxDepth_le hB hA)
      transition := hTransition
      candidatesOf := hCandidates
      hasEvent := hEvent
      requiredGuardsOf := by
        funext leaf event
        rw [hA.requiredGuards, hB.requiredGuards]
        simp only [CompiledDefinition.guardsAlong, hTree.isLeaf, hEvent, hTree.ancestry,
          hCandidates, hTransition] }

end Same
end Hfsm

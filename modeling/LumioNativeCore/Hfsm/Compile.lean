import LumioNativeCore.Library.Check
import LumioNativeCore.Library.Forest
import LumioNativeCore.Hfsm.Fingerprint

/-! Definition validation and the immutable compiled graph (`compile.rs`). The
`BTreeMap`s are association lists in the order their keys were entered; only
`build_candidates` iterates over one, and it does so in key order. Loops along
`parent` or `initial` links run on `Forest.walk` with the number of states as
fuel, which no link chain of an accepted definition exceeds. -/
namespace Hfsm

/-- `u32` addition of an optimised build. -/
def add32 (a b : Nat) : Nat := Word.asU32 (a + b)

structure CompiledTransition where
  id : TransitionId
  source : StateId
  event : EventKind
  priority : UInt32
  guard : Option GuardId
  kind : TransitionKind
  actions : List ActionId
  deriving DecidableEq, Repr

structure CompiledState where
  id : StateId
  parent : Option StateId
  initial : Option StateId
  depth : Nat
  entry : List ActionId
  exit : List ActionId
  name : Option String
  deriving DecidableEq, Repr

structure CompiledDefinition where
  limits : HfsmLimits
  fingerprint : UInt64
  rootInitial : StateId
  states : List CompiledState
  index : List (StateId × Nat)
  transitions : List CompiledTransition
  transitionIndex : List (TransitionId × Nat)
  candidates : List ((StateId × EventKind) × List TransitionId)
  requiredGuards : List ((StateId × EventKind) × List GuardId)
  events : List EventKind
  maxDepth : Nat
  maxPlanActions : Nat
  deriving DecidableEq, Repr

/-! Passes over the spec. -/

def indexStates (states : List StateSpec) : Except CompileError (List (StateId × Nat)) :=
  Check.index StateSpec.id (fun s => .atState .duplicateStateId s.id) states 0 []

/-- `states[index[&id]]` for an id that may be absent. -/
def stateIn (states : List StateSpec) (index : List (StateId × Nat)) (id : StateId) :
    Option StateSpec :=
  (index.lookup id).bind (states[·]?)

/-- The first of `referenced` that the index does not contain. -/
def unknownReference (index : List (StateId × Nat)) (referenced : List (Option StateId)) :
    Option StateId :=
  (referenced.filterMap id).find? fun s => (index.lookup s).isNone

def checkStateReferences (index : List (StateId × Nat)) (s : StateSpec) :
    Except CompileError Unit :=
  match unknownReference index [s.parent, s.initial] with
  | some referenced => .error (.atState (.unknownState referenced) s.id)
  | none => .ok ()

def checkRootInitial (spec : DefinitionSpec) (index : List (StateId × Nat)) :
    Except CompileError Unit :=
  match stateIn spec.states index spec.initial with
  | none => .error (.new (.unknownState spec.initial))
  | some s =>
      if s.parent.isSome then .error (.atState .rootInitialNotTopLevel spec.initial) else .ok ()

def checkTransitionReferences (index : List (StateId × Nat)) (t : TransitionSpec) :
    Except CompileError Unit :=
  match unknownReference index [some t.source, t.kind.target] with
  | some referenced => .error (.atTransition (.unknownState referenced) t.id)
  | none => .ok ()

def checkReferences (spec : DefinitionSpec) (index : List (StateId × Nat)) :
    Except CompileError Unit := do
  Check.each (checkStateReferences index) spec.states
  checkRootInitial spec index
  Check.each (checkTransitionReferences index) spec.transitions

/-- The depth loop of `compute_depths`. The fuel is the number of states minus
the depth so far, so running out is the test `depth > n`. -/
def climb (parentOf : StateId → Option StateId) : Nat → Nat → Option StateId → Option Nat
  | _, depth, none => some depth
  | 0, _, some _ => none
  | fuel + 1, depth, some p => climb parentOf fuel (depth + 1) (parentOf p)

def computeDepth (states : List StateSpec) (index : List (StateId × Nat))
    (limits : HfsmLimits) (s : StateSpec) : Except CompileError Nat :=
  match climb (fun p => (stateIn states index p).bind StateSpec.parent)
      (states.length - 1) 1 s.parent with
  | none => .error (.atState .structuralCycle s.id)
  | some depth =>
      if depth > limits.maxDepth then
        .error (.atState (.depthExceeded depth limits.maxDepth) s.id)
      else .ok depth

def computeDepths (states : List StateSpec) (index : List (StateId × Nat))
    (limits : HfsmLimits) : Except CompileError (List Nat) :=
  Check.collect (computeDepth states index limits) states

/-- `has_children` at the position of one state. -/
def hasChildren (states : List StateSpec) (index : List (StateId × Nat)) (position : Nat) :
    Bool :=
  states.any fun s =>
    match s.parent with
    | some p => index.lookup p == some position
    | none => false

def checkInitial (states : List StateSpec) (index : List (StateId × Nat)) :
    StateSpec × Nat → Except CompileError Unit
  | (s, position) =>
      match hasChildren states index position, s.initial with
      | true, none => .error (.atState .compositeWithoutInitial s.id)
      | false, some _ => .error (.atState .leafWithInitial s.id)
      | true, some initial =>
          if (stateIn states index initial).bind StateSpec.parent ≠ some s.id then
            .error (.atState .initialNotDirectChild s.id)
          else .ok ()
      | false, none => .ok ()

def checkInitials (states : List StateSpec) (index : List (StateId × Nat)) :
    Except CompileError Unit :=
  Check.each (checkInitial states index) states.zipIdx

def compileState (s : StateSpec) (depth : Nat) : CompiledState where
  id := s.id
  parent := s.parent
  initial := s.initial
  depth := depth
  entry := s.entry
  exit := s.exit
  name := s.name

def compileTransition (t : TransitionSpec) : CompiledTransition where
  id := t.id
  source := t.source
  event := t.event
  priority := t.priority
  guard := t.guard
  kind := t.kind
  actions := t.actions

def indexTransitions (specs : List TransitionSpec) :
    Except CompileError (List CompiledTransition × List (TransitionId × Nat)) := do
  let index ← Check.index TransitionSpec.id
    (fun t => .atTransition .duplicateTransitionId t.id) specs 0 []
  .ok (specs.map compileTransition, index)

namespace CompiledDefinition

/-! Queries. -/

def state (def_ : CompiledDefinition) (id : StateId) : Option CompiledState :=
  (def_.index.lookup id).bind (def_.states[·]?)

def contains (def_ : CompiledDefinition) (state : StateId) : Bool :=
  (def_.index.lookup state).isSome

/-- `none` for top-level states and for unknown ids. -/
def parentOf (def_ : CompiledDefinition) (state : StateId) : Option StateId :=
  (def_.state state).bind CompiledState.parent

def depthOf (def_ : CompiledDefinition) (state : StateId) : Option Nat :=
  (def_.state state).map CompiledState.depth

def isLeaf (def_ : CompiledDefinition) (state : StateId) : Option Bool :=
  (def_.state state).map fun s => s.initial.isNone

def initialOf (def_ : CompiledDefinition) (state : StateId) : Option StateId :=
  (def_.state state).bind CompiledState.initial

/-- States entered when expanding `state` down to its leaf, excluding `state`. -/
def initialChain (def_ : CompiledDefinition) (state : StateId) : List StateId :=
  Forest.walk def_.initialOf def_.states.length (def_.initialOf state)

/-- The cursor values of a loop from `from_` up to the top level. -/
def ancestry (def_ : CompiledDefinition) (from_ : Option StateId) : List StateId :=
  Forest.walk def_.parentOf def_.states.length from_

def entryActions (def_ : CompiledDefinition) (state : StateId) : List ActionId :=
  ((def_.state state).map CompiledState.entry).getD []

def exitActions (def_ : CompiledDefinition) (state : StateId) : List ActionId :=
  ((def_.state state).map CompiledState.exit).getD []

/-- `binary_search` on the sorted event list. -/
def hasEvent (def_ : CompiledDefinition) (event : EventKind) : Bool :=
  def_.events.contains event

/-- Transitions declared on `state` for `event`, ascending priority. -/
def candidatesOf (def_ : CompiledDefinition) (state : StateId) (event : EventKind) :
    List TransitionId :=
  (def_.candidates.lookup (state, event)).getD []

/-- Guards the host must supply for `event` when `leaf` is active. -/
def requiredGuardsOf (def_ : CompiledDefinition) (leaf : StateId) (event : EventKind) :
    List GuardId :=
  (def_.requiredGuards.lookup (leaf, event)).getD []

def transition (def_ : CompiledDefinition) (id : TransitionId) : Option CompiledTransition :=
  (def_.transitionIndex.lookup id).bind (def_.transitions[·]?)

/-- `descendant` is strictly below `ancestor`. -/
def isStrictDescendant (def_ : CompiledDefinition) (descendant ancestor : StateId) : Bool :=
  (def_.ancestry (def_.parentOf descendant)).contains ancestor

/-- Strict common ancestor: the first state of `b`'s ancestry that is in `a`'s,
then its parent if it equals either input. `none` is the synthetic root. -/
def strictCommonAncestor (def_ : CompiledDefinition) (a b : StateId) : Option StateId :=
  match (def_.ancestry (some b)).find? (fun s => decide (s ∈ def_.ancestry (some a))) with
  | some l => if l = a ∨ l = b then def_.parentOf l else some l
  | none => none

/-! Construction. -/

def checkLocalTarget (def_ : CompiledDefinition) (t : CompiledTransition) :
    Except CompileError Unit :=
  match t.kind with
  | .local target =>
      if def_.isStrictDescendant target t.source then .ok ()
      else .error (.atTransition .localTargetNotStrictDescendant t.id)
  | _ => .ok ()

def checkLocalTargets (def_ : CompiledDefinition) : Except CompileError Unit :=
  Check.each def_.checkLocalTarget def_.transitions

/-- Key order of the candidate groups. -/
def groupLe (a b : StateId × EventKind) : Prop :=
  a.1.raw < b.1.raw ∨ a.1.raw = b.1.raw ∧ a.2.raw ≤ b.2.raw

instance : DecidableRel groupLe := fun a b =>
  inferInstanceAs (Decidable (a.1.raw < b.1.raw ∨ a.1.raw = b.1.raw ∧ a.2.raw ≤ b.2.raw))

def priorityLe (a b : CompiledTransition) : Prop := a.priority ≤ b.priority

instance : DecidableRel priorityLe := fun a b =>
  inferInstanceAs (Decidable (a.priority ≤ b.priority))

def eventLe (a b : EventKind) : Prop := a.raw ≤ b.raw

instance : DecidableRel eventLe := fun a b => inferInstanceAs (Decidable (a.raw ≤ b.raw))

/-- The keys of the group map, in iteration order. -/
def groupKeys (def_ : CompiledDefinition) : List (StateId × EventKind) :=
  (def_.transitions.map fun t => (t.source, t.event)).dedup.insertionSort groupLe

/-- One group, sorted by priority; the sort is stable. -/
def group (def_ : CompiledDefinition) (key : StateId × EventKind) : List CompiledTransition :=
  (def_.transitions.filter fun t => decide ((t.source, t.event) = key)).insertionSort priorityLe

/-- The `windows(2)` pass: neighbours of equal priority. -/
def checkPriorities : List CompiledTransition → Except CompileError Unit
  | a :: b :: rest =>
      if a.priority = b.priority then
        .error (.atTransition (.duplicatePriority a.id) b.id)
      else checkPriorities (b :: rest)
  | _ => .ok ()

/-- The shadowing pass: nothing may follow an unguarded transition. -/
def checkShadowing : Option TransitionId → List CompiledTransition → Except CompileError Unit
  | _, [] => .ok ()
  | some shadowedBy, t :: _ => .error (.atTransition (.unreachableTransition shadowedBy) t.id)
  | none, t :: rest => checkShadowing (if t.guard.isNone then some t.id else none) rest

/-- The checks on one group, and its entry in the candidate table. -/
def buildGroup (def_ : CompiledDefinition) (key : StateId × EventKind) :
    Except CompileError ((StateId × EventKind) × List TransitionId) := do
  checkPriorities (def_.group key)
  checkShadowing none (def_.group key)
  .ok (key, (def_.group key).map CompiledTransition.id)

def buildCandidates (def_ : CompiledDefinition) : Except CompileError CompiledDefinition := do
  let candidates ← Check.collect def_.buildGroup def_.groupKeys
  .ok { def_ with
    candidates := candidates
    events := ((candidates.map fun entry => entry.1.2).insertionSort eventLe).dedup }

/-- The guards pushed for one leaf and event, in bubbling order without repeats. -/
def guardsAlong (def_ : CompiledDefinition) (leaf : StateId) (event : EventKind) :
    List GuardId :=
  (def_.ancestry (some leaf)).foldl (fun guards state =>
    (def_.candidatesOf state event).foldl (fun guards id =>
      match (def_.transition id).bind CompiledTransition.guard with
      | some g => if guards.contains g then guards else guards ++ [g]
      | none => guards) guards) []

def buildRequiredGuards (def_ : CompiledDefinition) : CompiledDefinition :=
  let leaves := (def_.states.filter fun s => s.initial.isNone).map CompiledState.id
  { def_ with
    requiredGuards := leaves.flatMap fun leaf =>
      def_.events.filterMap fun event =>
        if (def_.guardsAlong leaf event).isEmpty then none
        else some ((leaf, event), def_.guardsAlong leaf event) }

/-- Number of entry (or exit) actions of a list of states, as a wrapping sum. -/
def sumActions (actions : StateId → List ActionId) (states : List StateId) : Nat :=
  states.foldl (fun total s => add32 total (Word.asU32 (actions s).length)) 0

/-- Max total exit actions of any active sub-path strictly below `state`. The
fuel bounds the height of the tree. -/
def maxExitBelow (def_ : CompiledDefinition) : Nat → StateId → Nat
  | 0, _ => 0
  | fuel + 1, state =>
      def_.states.foldl (fun best s =>
        if s.parent = some state then
          max best (add32 (Word.asU32 s.exit.length) (maxExitBelow def_ fuel s.id))
        else best) 0

def initialChainActions (def_ : CompiledDefinition) (state : StateId) : Nat :=
  sumActions def_.entryActions (def_.initialChain state)

/-- Ancestry of `from_` up to but excluding `domain`. -/
def ancestryBelow (def_ : CompiledDefinition) (from_ : StateId) (domain : Option StateId) :
    List StateId :=
  (def_.ancestry (some from_)).takeWhile fun s => decide (some s ≠ domain)

def entryActionsBetween (def_ : CompiledDefinition) (domain : Option StateId)
    (target : StateId) : Nat :=
  sumActions def_.entryActions (def_.ancestryBelow target domain)

def exitActionsBetween (def_ : CompiledDefinition) (from_ : StateId)
    (domain : Option StateId) : Nat :=
  sumActions def_.exitActions (def_.ancestryBelow from_ domain)

def worstCaseActions (def_ : CompiledDefinition) (t : CompiledTransition) : Nat :=
  let own := Word.asU32 t.actions.length
  let below := def_.maxExitBelow def_.states.length t.source
  match t.kind with
  | .internal => own
  | .local target =>
      add32 (add32 (add32 below own) (def_.entryActionsBetween (some t.source) target))
        (def_.initialChainActions target)
  | .external target =>
      let domain := def_.strictCommonAncestor t.source target
      add32 (add32 (add32 (add32 below (def_.exitActionsBetween t.source domain)) own)
        (def_.entryActionsBetween domain target)) (def_.initialChainActions target)

/-- Worst-case action count over Start, Stop, and every transition. -/
def computeMaxPlanActions (def_ : CompiledDefinition) : Except CompileError Nat := do
  let max_ := def_.limits.maxActionsPerPlan
  let start := add32 (Word.asU32 (def_.entryActions def_.rootInitial).length)
    (def_.initialChainActions def_.rootInitial)
  if start > max_ then .error (.new (.actionsPerPlanExceeded start max_))
  let stop := def_.states.foldl (fun stop s =>
    if s.parent.isNone then
      max stop (add32 (Word.asU32 s.exit.length) (def_.maxExitBelow def_.states.length s.id))
    else stop) 0
  if stop > max_ then .error (.new (.actionsPerPlanExceeded stop max_))
  let required ← Check.collect (fun t =>
    let required := def_.worstCaseActions t
    if required > max_ then .error (.atTransition (.actionsPerPlanExceeded required max_) t.id)
    else .ok required) def_.transitions
  .ok (required.foldl max (max start stop))

end CompiledDefinition

/-- The definition before its tables are built. -/
def skeleton (spec : DefinitionSpec) (limits : HfsmLimits) (index : List (StateId × Nat))
    (depths : List Nat) (transitions : List CompiledTransition)
    (transitionIndex : List (TransitionId × Nat)) : CompiledDefinition where
  limits := limits
  fingerprint := 0
  rootInitial := spec.initial
  states := List.zipWith compileState spec.states depths
  index := index
  transitions := transitions
  transitionIndex := transitionIndex
  candidates := []
  requiredGuards := []
  events := []
  maxDepth := depths.foldl max 0
  maxPlanActions := 0

def compile (spec : DefinitionSpec) (limits : HfsmLimits) :
    Except CompileError CompiledDefinition := do
  if !limits.isValid then .error (.new .limitsInvalid)
  if spec.formatVersion ≠ formatVersion then
    .error (.new (.formatVersionUnsupported spec.formatVersion))
  if spec.states.isEmpty then .error (.new .emptyDefinition)
  let index ← indexStates spec.states
  let count := Word.asU32 spec.states.length
  if count > limits.maxStates then
    .error (.new (.stateCountExceeded count limits.maxStates))
  let tcount := Word.asU32 spec.transitions.length
  if tcount > limits.maxTransitions then
    .error (.new (.transitionCountExceeded tcount limits.maxTransitions))
  checkReferences spec index
  let depths ← computeDepths spec.states index limits
  checkInitials spec.states index
  let (transitions, transitionIndex) ← indexTransitions spec.transitions
  let skeleton := skeleton spec limits index depths transitions transitionIndex
  skeleton.checkLocalTargets
  let withCandidates ← skeleton.buildCandidates
  let withGuards := withCandidates.buildRequiredGuards
  let maxPlanActions ← withGuards.computeMaxPlanActions
  .ok { withGuards with
    maxPlanActions := maxPlanActions
    fingerprint := computeFingerprint spec }

end Hfsm

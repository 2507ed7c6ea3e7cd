import LumioNativeCore.Hfsm.WorstCase

/-! The passes of `compile` with all that could stop them besides an error of their own: a key
that is absent from an index, a position outside its vector, a `u32` sum that overflows, a
loop that goes on, a recursion that outgrows the stack of its thread. Each pass is the one of
`compile`. -/
namespace Hfsm.Strict

/-- Why a computation did not return a value. -/
inductive Stop where
  | refused (failure : CompileError)
  /-- `index[&id]` of an absent key, or a position outside its vector. -/
  | missing
  | overflow
  /-- A loop that has not ended after a turn for every state. -/
  | endless
  /-- A stack overflow, which ends the process. -/
  | overrun
  deriving DecidableEq, Repr

def lift {α : Type} : Except CompileError α → Except Stop α
  | .ok a => .ok a
  | .error failure => .error (.refused failure)

/-- `index[&key]`. -/
def position {κ : Type} [BEq κ] (index : List (κ × Nat)) (key : κ) : Except Stop Nat :=
  match index.lookup key with
  | some i => .ok i
  | none => .error .missing

/-- `list[i]`. -/
def read {α : Type} (list : List α) (i : Nat) : Except Stop α :=
  match list[i]? with
  | some a => .ok a
  | none => .error .missing

/-- `map.get(&key).map(|i| &list[*i])`. -/
def find {κ α : Type} [BEq κ] (index : List (κ × Nat)) (list : List α) (key : κ) :
    Except Stop (Option α) :=
  match index.lookup key with
  | some i => do .ok (some (← read list i))
  | none => .ok none

/-- `u32` addition that may not overflow. -/
def add (a b : Nat) : Except Stop Nat := if a + b < 2 ^ 32 then .ok (a + b) else .error .overflow

/-- A loop along links, until there is none or `halt` holds of the cursor: the cursor values
it went through, and the one it stopped at. -/
def follow (next : StateId → Except Stop (Option StateId)) (halt : StateId → Bool) :
    Nat → Option StateId → Except Stop (List StateId × Option StateId)
  | _, none => .ok ([], none)
  | 0, some a => if halt a then .ok ([], some a) else .error .endless
  | fuel + 1, some a =>
      if halt a then .ok ([], some a)
      else do
        let (rest, last) ← follow next halt fuel (← next a)
        .ok (a :: rest, last)

/-! The passes over the spec. -/

def checkRootInitial (spec : DefinitionSpec) (index : List (StateId × Nat)) : Except Stop Unit := do
  match ← find index spec.states spec.initial with
  | none => .error (.refused (.new (.unknownState spec.initial)))
  | some s =>
      if s.parent.isSome then .error (.refused (.atState .rootInitialNotTopLevel spec.initial))
      else .ok ()

def checkReferences (spec : DefinitionSpec) (index : List (StateId × Nat)) :
    Except Stop Unit := do
  lift (Check.each (checkStateReferences index) spec.states)
  checkRootInitial spec index
  lift (Check.each (checkTransitionReferences index) spec.transitions)

/-- `states[index[&p]].parent`. -/
def parentAt (states : List StateSpec) (index : List (StateId × Nat)) (p : StateId) :
    Except Stop (Option StateId) := do
  let s ← read states (← position index p)
  .ok s.parent

/-- The depth loop; `depth += 1` comes before the test `depth > n`. -/
def climb (parentOf : StateId → Except Stop (Option StateId)) :
    Nat → Nat → Option StateId → Except Stop (Option Nat)
  | _, depth, none => .ok (some depth)
  | 0, depth, some _ => do
      let _ ← add depth 1
      .ok none
  | fuel + 1, depth, some p => do
      let depth ← add depth 1
      climb parentOf fuel depth (← parentOf p)

def computeDepth (states : List StateSpec) (index : List (StateId × Nat)) (limits : HfsmLimits)
    (s : StateSpec) : Except Stop Nat := do
  match ← climb (parentAt states index) (states.length - 1) 1 s.parent with
  | none => .error (.refused (.atState .structuralCycle s.id))
  | some depth =>
      if depth > limits.maxDepth then
        .error (.refused (.atState (.depthExceeded depth limits.maxDepth) s.id))
      else .ok depth

/-- `has_children[index[&p]] = true`; the vector is as long as `states`. -/
def markParent (states : List StateSpec) (index : List (StateId × Nat)) (s : StateSpec) :
    Except Stop Unit :=
  match s.parent with
  | none => .ok ()
  | some p => do
      let _ ← read states (← position index p)
      .ok ()

def checkInitial (states : List StateSpec) (index : List (StateId × Nat)) :
    StateSpec × Nat → Except Stop Unit
  | (s, place) =>
      match hasChildren states index place, s.initial with
      | true, none => .error (.refused (.atState .compositeWithoutInitial s.id))
      | false, some _ => .error (.refused (.atState .leafWithInitial s.id))
      | true, some initial => do
          if (← parentAt states index initial) ≠ some s.id then
            .error (.refused (.atState .initialNotDirectChild s.id))
          else .ok ()
      | false, none => .ok ()

def checkInitials (states : List StateSpec) (index : List (StateId × Nat)) :
    Except Stop Unit := do
  Check.each (markParent states index) states
  Check.each (checkInitial states index) states.zipIdx

/-! Queries of the graph, and the passes over it. -/

def parentOf (def_ : CompiledDefinition) (id : StateId) : Except Stop (Option StateId) := do
  .ok ((← find def_.index def_.states id).bind CompiledState.parent)

def initialOf (def_ : CompiledDefinition) (id : StateId) : Except Stop (Option StateId) := do
  .ok ((← find def_.index def_.states id).bind CompiledState.initial)

def entryActions (def_ : CompiledDefinition) (id : StateId) : Except Stop (List ActionId) := do
  .ok (((← find def_.index def_.states id).map CompiledState.entry).getD [])

def exitActions (def_ : CompiledDefinition) (id : StateId) : Except Stop (List ActionId) := do
  .ok (((← find def_.index def_.states id).map CompiledState.exit).getD [])

def isStrictDescendant (def_ : CompiledDefinition) (descendant ancestor : StateId) :
    Except Stop Bool := do
  let (_, last) ← follow (parentOf def_) (fun s => decide (s = ancestor)) def_.states.length
    (← parentOf def_ descendant)
  .ok last.isSome

def checkLocalTarget (def_ : CompiledDefinition) (t : CompiledTransition) :
    Except Stop Unit := do
  match t.kind with
  | .local target =>
      if ← isStrictDescendant def_ target t.source then .ok ()
      else .error (.refused (.atTransition .localTargetNotStrictDescendant t.id))
  | _ => .ok ()

/-- The positions of one group; every use of a position reads the transition there. -/
def group (def_ : CompiledDefinition) (key : StateId × EventKind) :
    Except Stop (List CompiledTransition) := do
  let members ← Check.collect (read def_.transitions)
    ((def_.transitions.zipIdx.filter fun (t, _) => decide ((t.source, t.event) = key)).map Prod.snd)
  .ok (members.insertionSort CompiledDefinition.priorityLe)

def buildGroup (def_ : CompiledDefinition) (key : StateId × EventKind) :
    Except Stop ((StateId × EventKind) × List TransitionId) := do
  let group ← group def_ key
  lift (CompiledDefinition.checkPriorities group)
  lift (CompiledDefinition.checkShadowing none group)
  .ok (key, group.map CompiledTransition.id)

def buildCandidates (def_ : CompiledDefinition) : Except Stop CompiledDefinition := do
  let candidates ← Check.collect (buildGroup def_) def_.groupKeys
  .ok { def_ with
    candidates := candidates
    events := ((candidates.map fun entry => entry.1.2).insertionSort CompiledDefinition.eventLe).dedup }

/-- The cursor values of a loop from `from_` up to the top level. -/
def ancestry (def_ : CompiledDefinition) (from_ : Option StateId) : Except Stop (List StateId) := do
  let (visited, _) ← follow (parentOf def_) (fun _ => false) def_.states.length from_
  .ok visited

def initialChain (def_ : CompiledDefinition) (state : StateId) : Except Stop (List StateId) := do
  let (visited, _) ← follow (initialOf def_) (fun _ => false) def_.states.length
    (← initialOf def_ state)
  .ok visited

/-- The guards of the candidates of one state that are not yet among `guards`. -/
def collectGuards (def_ : CompiledDefinition) (event : EventKind) (guards : List GuardId)
    (state : StateId) : Except Stop (List GuardId) :=
  (def_.candidatesOf state event).foldlM (fun guards id => do
    match (← find def_.transitionIndex def_.transitions id).bind CompiledTransition.guard with
    | some g => .ok (if guards.contains g then guards else guards ++ [g])
    | none => .ok guards) guards

def guardsAlong (def_ : CompiledDefinition) (leaf : StateId) (event : EventKind) :
    Except Stop (List GuardId) := do
  (← ancestry def_ (some leaf)).foldlM (collectGuards def_ event) []

def buildRequiredGuards (def_ : CompiledDefinition) : Except Stop CompiledDefinition := do
  let leaves := (def_.states.filter fun s => s.initial.isNone).map CompiledState.id
  let table ← Check.collect (fun leaf => Check.collect (fun event => do
    .ok ((leaf, event), ← guardsAlong def_ leaf event)) def_.events) leaves
  .ok { def_ with requiredGuards := table.flatten.filter fun entry => !entry.2.isEmpty }

/-- A sum of action counts, in the order of the loop. -/
def sumActions (actions : StateId → Except Stop (List ActionId)) (states : List StateId) :
    Except Stop Nat :=
  states.foldlM (fun total s => do add total (Word.asU32 (← actions s).length)) 0

/-- `max_exit_below` calls itself for every child; the first argument is how many such calls
the stack has room for. -/
def maxExitBelow (def_ : CompiledDefinition) : Nat → StateId → Except Stop Nat
  | 0, _ => .error .overrun
  | stack + 1, state =>
      def_.states.foldlM (fun best s =>
        if s.parent = some state then do
          let total ← add (Word.asU32 s.exit.length) (← maxExitBelow def_ stack s.id)
          .ok (max best total)
        else .ok best) 0

def initialChainActions (def_ : CompiledDefinition) (state : StateId) : Except Stop Nat := do
  sumActions (entryActions def_) (← initialChain def_ state)

/-- The cursor values of a loop from `from_` up to, and without, `domain`. -/
def ancestryBelow (def_ : CompiledDefinition) (from_ : StateId) (domain : Option StateId) :
    Except Stop (List StateId) := do
  let (visited, _) ← follow (parentOf def_) (fun s => decide (some s = domain)) def_.states.length
    (some from_)
  .ok visited

def entryActionsBetween (def_ : CompiledDefinition) (domain : Option StateId)
    (target : StateId) : Except Stop Nat := do
  sumActions (entryActions def_) (← ancestryBelow def_ target domain)

def exitActionsBetween (def_ : CompiledDefinition) (from_ : StateId)
    (domain : Option StateId) : Except Stop Nat := do
  sumActions (exitActions def_) (← ancestryBelow def_ from_ domain)

def strictCommonAncestor (def_ : CompiledDefinition) (a b : StateId) :
    Except Stop (Option StateId) := do
  let ancestors ← ancestry def_ (some a)
  let (_, last) ← follow (parentOf def_) (fun s => decide (s ∈ ancestors)) def_.states.length
    (some b)
  match last with
  | some l => if l = a ∨ l = b then parentOf def_ l else .ok (some l)
  | none => .ok none

def worstCaseActions (stack : Nat) (def_ : CompiledDefinition) (t : CompiledTransition) :
    Except Stop Nat := do
  let own := Word.asU32 t.actions.length
  match t.kind with
  | .internal => .ok own
  | .local target =>
      let total ← add (← maxExitBelow def_ stack t.source) own
      let total ← add total (← entryActionsBetween def_ (some t.source) target)
      add total (← initialChainActions def_ target)
  | .external target =>
      let domain ← strictCommonAncestor def_ t.source target
      let total ← add (← maxExitBelow def_ stack t.source)
        (← exitActionsBetween def_ t.source domain)
      let total ← add total own
      let total ← add total (← entryActionsBetween def_ domain target)
      add total (← initialChainActions def_ target)

def computeMaxPlanActions (stack : Nat) (def_ : CompiledDefinition) : Except Stop Nat := do
  let max_ := def_.limits.maxActionsPerPlan
  let start ← add (Word.asU32 (← entryActions def_ def_.rootInitial).length)
    (← initialChainActions def_ def_.rootInitial)
  if start > max_ then .error (.refused (.new (.actionsPerPlanExceeded start max_)))
  let stop ← def_.states.foldlM (fun stop s =>
    if s.parent.isNone then do
      let total ← add (Word.asU32 s.exit.length) (← maxExitBelow def_ stack s.id)
      .ok (max stop total)
    else .ok stop) 0
  if stop > max_ then .error (.refused (.new (.actionsPerPlanExceeded stop max_)))
  let required ← Check.collect (fun t => do
    let required ← worstCaseActions stack def_ t
    if required > max_ then
      .error (.refused (.atTransition (.actionsPerPlanExceeded required max_) t.id))
    else .ok required) def_.transitions
  .ok (required.foldl max (max start stop))

/-- `compile` on a thread whose stack has room for `stack` nested calls of `max_exit_below`. -/
def compile (stack : Nat) (spec : DefinitionSpec) (limits : HfsmLimits) :
    Except Stop CompiledDefinition := do
  if !limits.isValid then .error (.refused (.new .limitsInvalid))
  if spec.formatVersion ≠ formatVersion then
    .error (.refused (.new (.formatVersionUnsupported spec.formatVersion)))
  if spec.states.isEmpty then .error (.refused (.new .emptyDefinition))
  let index ← lift (indexStates spec.states)
  let count := Word.asU32 spec.states.length
  if count > limits.maxStates then
    .error (.refused (.new (.stateCountExceeded count limits.maxStates)))
  let tcount := Word.asU32 spec.transitions.length
  if tcount > limits.maxTransitions then
    .error (.refused (.new (.transitionCountExceeded tcount limits.maxTransitions)))
  checkReferences spec index
  let depths ← Check.collect (computeDepth spec.states index limits) spec.states
  checkInitials spec.states index
  let (transitions, transitionIndex) ← lift (indexTransitions spec.transitions)
  let skeleton := skeleton spec limits index depths transitions transitionIndex
  Check.each (checkLocalTarget skeleton) skeleton.transitions
  let withCandidates ← buildCandidates skeleton
  let withGuards ← buildRequiredGuards withCandidates
  let maxPlanActions ← computeMaxPlanActions stack withGuards
  .ok { withGuards with
    maxPlanActions := maxPlanActions
    fingerprint := computeFingerprint spec }

end Hfsm.Strict

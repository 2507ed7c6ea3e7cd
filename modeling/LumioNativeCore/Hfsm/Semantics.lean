import LumioNativeCore.Library.Forest
import LumioNativeCore.Hfsm.Reading

/-! The declarative semantics of one event (contract sections 2 to 4), read off
the flat definition alone: which transition is selected, its domain, the states
left and entered, and the action records in order. Nothing here refers to the
compiled graph. -/
namespace Hfsm

namespace DefinitionSpec

variable (spec : DefinitionSpec)

def findState (id : StateId) : Option StateSpec :=
  spec.states.find? fun s => decide (s.id = id)

def parentOf (id : StateId) : Option StateId := (spec.findState id).bind StateSpec.parent

def initialOf (id : StateId) : Option StateId := (spec.findState id).bind StateSpec.initial

def entryActions (id : StateId) : List ActionId :=
  ((spec.findState id).map StateSpec.entry).getD []

def exitActions (id : StateId) : List ActionId :=
  ((spec.findState id).map StateSpec.exit).getD []

/-- `t` is declared on `state` for `event`. -/
def IsCandidate (state : StateId) (event : EventKind) (t : TransitionSpec) : Prop :=
  t ∈ spec.transitions ∧ t.source = state ∧ t.event = event

/-- `t` is declared on `state` for `event`, and is unguarded or its guard is true. -/
def IsEnabled (guards : GuardFrame) (state : StateId) (event : EventKind)
    (t : TransitionSpec) : Prop :=
  spec.IsCandidate state event t ∧ ∀ g, t.guard = some g → guards.lookup g = .true

/-- `t` is declared on the active state `source`, the deepest one that has an
enabled candidate, and has the least priority among the enabled ones there. -/
structure IsSelected (guards : GuardFrame) (path : List ActiveState) (event : EventKind)
    (source : ActiveState) (t : TransitionSpec) : Prop where
  active : source ∈ path
  enabled : spec.IsEnabled guards source.state event t
  deepest : ∀ a ∈ path, ∀ u, spec.IsEnabled guards a.state event u →
    Forest.Reaches spec.parentOf source.state a.state
  least : ∀ u, spec.IsEnabled guards source.state event u → t.priority ≤ u.priority

/-- The transition domain of `t` towards `target`; `none` is the synthetic root. -/
inductive IsDomain (t : TransitionSpec) : StateId → Option StateId → Prop where
  | local {target : StateId} (hKind : t.kind = .local target) :
      IsDomain t target (some t.source)
  | external {target domain : StateId} (hKind : t.kind = .external target)
      (hMeet : Forest.IsStrictMeet spec.parentOf t.source target domain) :
      IsDomain t target (some domain)
  | root {target : StateId} (hKind : t.kind = .external target)
      (hMeet : Forest.NoStrictMeet spec.parentOf t.source target) : IsDomain t target none

/-- The states entered: from just below the domain down to the target, then
along the initial links to a leaf. -/
inductive Enters (domain : Option StateId) (target : StateId) : List StateId → Prop where
  | mk {upward chain : List StateId}
      (hUpward : Forest.Ascent spec.parentOf domain (some target) upward)
      (hChain : Forest.Ascent spec.initialOf none (spec.initialOf target) chain) :
      Enters domain target (upward.reverse ++ chain)

end DefinitionSpec

namespace DefinitionSpec

variable (spec : DefinitionSpec)

def exitLine (a : ActiveState) : ActionLine := ⟨.exit, a, spec.exitActions a.state⟩

def enterLine (a : ActiveState) : ActionLine := ⟨.enter, a, spec.entryActions a.state⟩

def transitionLine (source : ActiveState) (t : TransitionSpec) : ActionLine :=
  ⟨.transition, source, t.actions⟩

/-- The reference plan of an event on a running snapshot. -/
inductive Reacts (s : Snapshot) (event : EventKind) (guards : GuardFrame) :
    PlanReading → Prop where
  | unhandled (hNone : ∀ a ∈ s.activePath, ∀ t, ¬spec.IsEnabled guards a.state event t) :
      Reacts s event guards ⟨.unhandled, s.activePath, [], s.nextActivationSeq⟩
  | internal {source : ActiveState} {t : TransitionSpec}
      (hSelected : spec.IsSelected guards s.activePath event source t)
      (hKind : t.kind = .internal) :
      Reacts s event guards
        ⟨.transitioned t.id, s.activePath, [transitionLine source t], s.nextActivationSeq⟩
  | crossing {source : ActiveState} {t : TransitionSpec} {target : StateId}
      {domain : Option StateId} {kept exited : List ActiveState} {entered : List StateId}
      (hSelected : spec.IsSelected guards s.activePath event source t)
      (hDomain : spec.IsDomain t target domain)
      (hPath : s.activePath = kept ++ exited)
      (hKept : kept.getLast?.map ActiveState.state = domain)
      (hEntered : spec.Enters domain target entered) :
      Reacts s event guards
        ⟨.transitioned t.id, kept ++ activate s.nextActivationSeq entered,
          exited.reverse.map spec.exitLine ++ [transitionLine source t] ++
            (activate s.nextActivationSeq entered).map spec.enterLine,
          s.nextActivationSeq + entered.length⟩

end DefinitionSpec

end Hfsm

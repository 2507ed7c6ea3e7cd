import LumioNativeCore.Kernel.Context.Admission

/-! A context together with the resources that are registered with it. A callback that the
context makes ends with a step of the resource, and what is admitted is published while its
thread holds the admission guard. -/
namespace Kernel

open Transition

universe u v
variable {C : Type u} {E : Type v}

/-- What a resource does on its own: its steps, the callbacks that return with an event, those
that leave the resource alone, and the events that need an admission. -/
structure ResourceKind (C : Type u) (E : Type v) where
  Step : C → E → C → Prop
  Answers : E → CallbackEvent → Prop
  Ignores : C → CallbackEvent → Prop
  publishes : E → Bool

/-- Resources are registered by their place. -/
structure Process (C : Type u) where
  context : System Nat
  components : Nat → C

/-- The part of the context in a step, and that of one resource. -/
structure ProcessEvent (E : Type v) where
  context : Option (Nat × Action Nat)
  component : Option (Nat × E)

namespace Process

/-- A resource moves on. -/
def move (p : Process C) (k : Nat) (c : C) : Process C :=
  { p with components := Function.update p.components k c }

inductive Step (kind : ResourceKind C E) : Process C → ProcessEvent E → Process C → Prop where
  | context {p : Process C} {label : Nat × Action Nat} {context : System Nat}
      (hContext : System.Step p.context label context) (hPublished : label.2 ≠ .published)
      (hAlone : ∀ k event, label.2 = .callback k event → kind.Ignores (p.components k) event) :
      Step kind p ⟨some label, none⟩ { p with context := context }
  | elsewhere {p : Process C} {t : Nat} {context : System Nat}
      (hContext : System.Step p.context (t, .published) context) :
      Step kind p ⟨some (t, .published), none⟩ { p with context := context }
  | component {p : Process C} {k : Nat} {e : E} {c : C}
      (hComponent : kind.Step (p.components k) e c) (hAlone : kind.publishes e = false) :
      Step kind p ⟨none, some (k, e)⟩ (p.move k c)
  | callback {p : Process C} {t k : Nat} {event : CallbackEvent} {context : System Nat} {e : E}
      {c : C} (hContext : System.Step p.context (t, .callback k event) context)
      (hComponent : kind.Step (p.components k) e c) (hAnswers : kind.Answers e event)
      (hAlone : kind.publishes e = false) :
      Step kind p ⟨some (t, .callback k event), some (k, e)⟩ { p.move k c with context := context }
  | publish {p : Process C} {t k : Nat} {context : System Nat} {e : E} {c : C}
      (hContext : System.Step p.context (t, .published) context)
      (hComponent : kind.Step (p.components k) e c) :
      Step kind p ⟨some (t, .published), some (k, e)⟩ { p.move k c with context := context }

end Process

/-- What the context did. -/
def contextIn (trace : List (ProcessEvent E)) : List (Nat × Action Nat) :=
  trace.flatMap fun event => event.context.toList

/-- What one resource did. -/
def componentIn (k : Nat) (trace : List (ProcessEvent E)) : List E :=
  trace.flatMap fun event => (event.component.filter (·.1 = k)).toList.map Prod.snd

namespace Process

variable {kind : ResourceKind C E} {p p' : Process C} {event : ProcessEvent E}
  {trace : List (ProcessEvent E)}

theorem Step.run_context (hStep : Step kind p event p') :
    Run System.Step p.context event.context.toList p'.context := by
  cases hStep with
  | context hContext => exact .single hContext
  | elsewhere hContext => exact .single hContext
  | component => exact Run.nil _
  | callback hContext => exact .single hContext
  | publish hContext => exact .single hContext

/-- A step of a resource, seen from one place. -/
theorem run_move {k : Nat} {e : E} {c : C} (hComponent : kind.Step (p.components k) e c)
    (other : Nat) :
    Run kind.Step (p.components other)
      (((some (k, e)).filter (·.1 = other)).toList.map Prod.snd) ((p.move k c).components other) := by
  by_cases hSame : k = other
  · subst hSame
    simpa [Option.filter, move] using Run.single hComponent
  · simpa [Option.filter, move, hSame, Function.update_of_ne (Ne.symm hSame)] using Run.nil _

theorem Step.run_component (hStep : Step kind p event p') (k : Nat) :
    Run kind.Step (p.components k)
      ((event.component.filter (·.1 = k)).toList.map Prod.snd) (p'.components k) := by
  cases hStep with
  | context => exact Run.nil _
  | elsewhere => exact Run.nil _
  | component hComponent => exact run_move hComponent k
  | callback _ hComponent => exact run_move hComponent k
  | publish _ hComponent => exact run_move hComponent k

/-- What needs an admission happens under the guard of one. -/
theorem Step.admitted {k : Nat} {e : E} (hStep : Step kind p event p')
    (hComponent : event.component = some (k, e)) (hPublishes : kind.publishes e = true) :
    ∃ t, event.context = some (t, .published) := by
  cases hStep with
  | context => cases hComponent
  | elsewhere => cases hComponent
  | component _ hAlone =>
      cases hComponent
      rw [hAlone] at hPublishes
      cases hPublishes
  | callback _ _ _ hAlone =>
      cases hComponent
      rw [hAlone] at hPublishes
      cases hPublishes
  | publish => exact ⟨_, rfl⟩

theorem run_context (run : Run (Step kind) p trace p') :
    Run System.Step p.context (contextIn trace) p'.context :=
  run.flatMap Process.context _ fun _ _ _ hStep => hStep.run_context

theorem run_component (run : Run (Step kind) p trace p') (k : Nat) :
    Run kind.Step (p.components k) (componentIn k trace) (p'.components k) :=
  run.flatMap (fun p => p.components k) _ fun _ _ _ hStep => hStep.run_component k

end Process

/-- What a kind of resources promises: a good resource that answered its destruction is dead,
and stays dead. -/
structure Contract (kind : ResourceKind C E) (Good Dead : C → Prop) : Prop where
  keeps : ∀ {c e c'}, Good c → kind.Step c e c' → Good c'
  dies : ∀ {c e c' index}, Good c → kind.Step c e c' →
    kind.Answers e (.destroy index (some (.ok ()))) → Dead c'
  stays : ∀ {c e c'}, Good c → Dead c → kind.Step c e c' → Dead c'
  attends : ∀ {c index}, ¬kind.Ignores c (.destroy index (some (.ok ())))

namespace Contract

variable {kind : ResourceKind C E} {Good Dead : C → Prop} {p p' : Process C}
  {trace : List (ProcessEvent E)}

theorem good_run (h : Contract kind Good Dead) {c c' : C} {events : List E}
    (run : Run kind.Step c events c') (hGood : Good c) : Good c' :=
  run.preserves Good (fun _ _ _ => h.keeps) hGood

theorem dead_run (h : Contract kind Good Dead) {c c' : C} {events : List E}
    (run : Run kind.Step c events c') (hGood : Good c) (hDead : Dead c) : Dead c' :=
  (run.preserves (fun c => Good c ∧ Dead c)
    (fun _ _ _ hBoth hStep => ⟨h.keeps hBoth.1 hStep, h.stays hBoth.1 hBoth.2 hStep⟩)
    ⟨hGood, hDead⟩).2

/-- A resource that the context has destroyed is dead ever after. -/
theorem dead_of_destroyed (h : Contract kind Good Dead) (hGood : ∀ k, Good (p.components k))
    (run : Run (Process.Step kind) p trace p') {t k index : Nat}
    (hMem : (t, .callback k (.destroy index (some (.ok ())))) ∈ contextIn trace) :
    Dead (p'.components k) := by
  obtain ⟨event, hEvent, hContext⟩ := List.mem_flatMap.mp hMem
  obtain ⟨before, after, rfl⟩ := List.append_of_mem hEvent
  obtain ⟨first, second, hBefore, hStep, hAfter⟩ := run.at
  have hFirst := h.good_run (Process.run_component hBefore k) (hGood k)
  have hSecond := h.good_run (hStep.run_component k) hFirst
  refine h.dead_run (Process.run_component hAfter k) hSecond ?_
  have hLabel := Option.mem_toList.mp hContext
  cases hStep with
  | context hSystem hPublished hAlone =>
      cases hLabel
      exact absurd (hAlone _ _ rfl) h.attends
  | elsewhere => cases hLabel
  | component => cases hLabel
  | callback hSystem hComponent hAnswers =>
      cases hLabel
      have hDead := h.dies hFirst hComponent hAnswers
      simpa [Process.move] using hDead
  | publish => cases hLabel

/-- When the context is closed, every resource that was registered with it is dead. -/
theorem closed_dead (h : Contract kind Good Dead) {maxHandles : Nat} {quiesceDeadline : Deadline}
    {components : Nat → C} (hGood : ∀ k, Good (components k))
    (run : Run (Process.Step kind) ⟨.create maxHandles quiesceDeadline, components⟩ trace p)
    (hClosed : p.context.context.phase = .closed) {t k index : Nat}
    (hMem : (t, .registered k index) ∈ contextIn trace) : Dead (p.components k) := by
  have hContext := Sound.of_run (Process.run_context run)
  obtain ⟨-, t', hDestroyed⟩ := hContext.closed_called hClosed hMem
  exact h.dead_of_destroyed hGood run hDestroyed

end Contract

/-- Nothing that needs an admission happens in any resource once a close has begun. -/
theorem Process.unpublished {kind : ResourceKind C E} {maxHandles : Nat}
    {quiesceDeadline : Deadline} {components : Nat → C} {p : Process C}
    {before after : List (ProcessEvent E)} {t : Nat} {component : Option (Nat × E)}
    (run : Run (Process.Step kind) ⟨.create maxHandles quiesceDeadline, components⟩
      (before ++ ⟨some (t, .beganClose), component⟩ :: after) p) :
    ∀ k, ∀ e ∈ componentIn k after, kind.publishes e = false := by
  intro k e hMem
  obtain ⟨event, hEvent, hOwn⟩ := List.mem_flatMap.mp hMem
  obtain ⟨⟨other, e'⟩, hFilter, hSame⟩ := List.mem_map.mp hOwn
  obtain ⟨hComponent, hPlace⟩ := Option.filter_eq_some_iff.mp (Option.mem_toList.mp hFilter)
  cases hSame
  by_contra hPublishes
  have hPublishes : kind.publishes e' = true := Bool.eq_true_of_not_eq_false hPublishes
  obtain ⟨q, q', -, -, hAfter⟩ := run.at
  obtain ⟨first, rest, rfl⟩ := List.append_of_mem hEvent
  obtain ⟨q₁, q₂, -, hStep, -⟩ := hAfter.at
  obtain ⟨t', hPublished⟩ := hStep.admitted hComponent hPublishes
  have hContext := Sound.of_run (Process.run_context run)
  have hLate := hContext.late (contextIn before) t (contextIn (first ++ event :: rest))
    (by simp [contextIn]) (t', .published) (List.mem_flatMap.mpr ⟨event, hEvent, by
      rw [hPublished]
      exact List.mem_singleton_self _⟩)
  exact hLate

end Kernel

import LumioNativeCore.Library.Atomic
import Mathlib.Tactic

/-! Linearization of code on one atomic cell at the last access of each call, against a
sequential machine. -/
namespace Atomic

open Transition

universe u v w x y z
variable {V : Type u} {Stage : Type v} {Call : Type w} {Answer : Type x} {Thread : Type y}
  {S : Type z} [DecidableEq Thread] {code : Code V Stage Call Answer}
  {serve : S → Call → Answer × S} {holds : S → V → Prop}
  {trace : List (Thread × Event V Call Answer)} {value : V} {s : State V Stage Thread}

/-- The access that settles a call is one turn of the sequential machine, and the accesses
before it leave the cell as it is. -/
structure Linear (code : Code V Stage Call Answer) (serve : S → Call → Answer × S)
    (holds : S → V → Prop) : Prop where
  waits : ∀ {σ stage value outcome value' stage'}, holds σ value →
    (code.access stage).Runs value outcome value' stage' → code.answer stage' = none →
      value' = value
  serves : ∀ {σ stage value outcome value' stage' answer}, holds σ value →
    (code.access stage).Runs value outcome value' stage' → code.answer stage' = some answer →
      (serve σ (code.call stage)).1 = answer ∧ holds (serve σ (code.call stage)).2 value'

/-- The calls in the order of their effects are a run of the sequential machine. -/
theorem Linear.run (hLinear : Linear code serve holds) {σ : S} (hInitial : holds σ value)
    (run : Run (Step code) (State.initial value) trace s) :
    ∃ σ', Machine.run serve σ ((effects trace).map Prod.fst) = (effects trace, σ') ∧
      holds σ' s.cell := by
  refine run.invariant (fun trace s => ∃ σ',
    Machine.run serve σ ((effects trace).map Prod.fst) = (effects trace, σ') ∧
      holds σ' s.cell) ⟨σ, rfl, hInitial⟩ ?_
  intro trace s label s' hPrior hStep
  obtain ⟨σ', hRun, hHolds⟩ := hPrior
  cases hStep with
  | invoke => exact ⟨σ', by simpa [effects_snoc, Event.effect] using hRun, hHolds⟩
  | returns => exact ⟨σ', by simpa [effects_snoc, Event.effect] using hRun, hHolds⟩
  | @access t stage stage' outcome value' hStage hRuns =>
      cases hAnswer : code.answer stage' with
      | none =>
          obtain rfl := hLinear.waits hHolds hRuns hAnswer
          exact ⟨σ', by simpa [effects_snoc, Event.effect] using hRun, hHolds⟩
      | some answer =>
          obtain ⟨rfl, hNext⟩ := hLinear.serves hHolds hRuns hAnswer
          refine ⟨_, ?_, hNext⟩
          rw [effects_snoc, List.map_append, Machine.run_append, hRun]
          rfl

/-- A step leaves the cell as it is or is the turn of a call. -/
theorem Linear.step (hLinear : Linear code serve holds) {σ : S} {s s' : State V Stage Thread}
    {label : Thread × Event V Call Answer} (hHolds : holds σ s.cell)
    (hStep : Step code s label s') :
    s'.cell = s.cell ∨ ∃ call, holds (serve σ call).2 s'.cell := by
  cases hStep with
  | invoke => exact Or.inl rfl
  | returns => exact Or.inl rfl
  | @access _ stage stage' _ _ hStage hRuns =>
      cases hAnswer : code.answer stage' with
      | none => exact Or.inl (hLinear.waits hHolds hRuns hAnswer)
      | some answer => exact Or.inr ⟨_, (hLinear.serves hHolds hRuns hAnswer).2⟩

/-- What every turn of the sequential machine keeps is kept between two moments of a run. -/
theorem Linear.kept (hLinear : Linear code serve holds) (relation : S → S → Prop)
    (hRefl : ∀ σ, relation σ σ)
    (hTrans : ∀ {σ σ' σ''}, relation σ σ' → relation σ' σ'' → relation σ σ'')
    (hServe : ∀ σ call, relation σ (serve σ call).2) {σ : S} {s s' : State V Stage Thread}
    (hHolds : holds σ s.cell) (run : Run (Step code) s trace s') :
    ∃ σ', holds σ' s'.cell ∧ relation σ σ' := by
  refine run.preserves (fun s' => ∃ σ', holds σ' s'.cell ∧ relation σ σ') ?_ ⟨σ, hHolds, hRefl σ⟩
  intro s label s' hPrior hStep
  obtain ⟨σ', hHolds, hKept⟩ := hPrior
  rcases hLinear.step hHolds hStep with hSame | ⟨call, hNext⟩
  · exact ⟨σ', hSame ▸ hHolds, hKept⟩
  · exact ⟨_, hNext, hTrans hKept (hServe σ' call)⟩

/-- A call that returns after `before` took its turn at one of its accesses, in the state
that the cell held there; its other accesses since its invocation had no effect. -/
def Turn (code : Code V Stage Call Answer) (serve : S → Call → Answer × S) (holds : S → V → Prop)
    (initial final : State V Stage Thread) (t : Thread) (call : Call) (answer : Answer)
    (before after : List (Thread × Event V Call Answer)) : Prop :=
  ∃ earlier outcome later middle middle' σ,
    before = earlier ++ (t, .access call outcome (some answer)) :: later ∧
      Invoked t call earlier ∧ (∀ event ∈ later, event.1 ≠ t) ∧
      Run (Step code) initial earlier middle ∧
      Step code middle (t, .access call outcome (some answer)) middle' ∧
      Run (Step code) middle' (later ++ (t, .returns call answer) :: after) final ∧
      holds σ middle.cell ∧ (serve σ call).1 = answer ∧
      holds (serve σ call).2 middle'.cell

theorem Linear.turn (hLinear : Linear code serve holds) {σ : S} (hInitial : holds σ value)
    {before after : List (Thread × Event V Call Answer)} {t : Thread} {call : Call}
    {answer : Answer}
    (run : Run (Step code) (State.initial value) (before ++ (t, .returns call answer) :: after) s) :
    Turn code serve holds (State.initial value) s t call answer before after := by
  obtain ⟨earlier, outcome, later, rfl, hInvoked, hLater⟩ := effected_of_returns run
  rw [List.append_assoc, List.cons_append] at run
  obtain ⟨middle, middle', prior, last, rest⟩ := run.at
  obtain ⟨σ', -, hHolds⟩ := hLinear.run hInitial prior
  obtain ⟨stage, stage', -, rfl, hRuns, hAnswer, -⟩ := last.access_cases
  obtain ⟨hServed, hNext⟩ := hLinear.serves hHolds hRuns hAnswer
  exact ⟨earlier, outcome, later, middle, middle', σ', rfl, hInvoked, hLater, prior, last, rest,
    hHolds, hServed, hNext⟩

/-! Calls that follow each other. -/

/-- The effect of a call does not precede what its thread did before. -/
theorem mem_effects_since {before middle after : List (Thread × Event V Call Answer)} {t : Thread}
    {call : Call} {answer : Answer}
    (run : Run (Step code) (State.initial value)
      (before ++ middle ++ (t, .returns call answer) :: after) s)
    (hSince : ∃ event ∈ middle, event.1 = t) : (call, answer) ∈ effects middle := by
  obtain ⟨earlier, outcome, later, hTrace, -, hLater⟩ := effected_of_returns run
  obtain ⟨event, hMem, hThread⟩ := hSince
  rcases List.append_eq_append_iff.mp hTrace with ⟨front, rfl, hMiddle⟩ | ⟨front, -, hRest⟩
  · rw [hMiddle]
    exact List.mem_filterMap.mpr ⟨(t, .access call outcome (some answer)), by simp, rfl⟩
  · cases front with
    | nil =>
        rw [← List.nil_append middle, ← hRest]
        exact List.mem_filterMap.mpr ⟨(t, .access call outcome (some answer)), by simp, rfl⟩
    | cons first rest =>
        -- the thread would do nothing after its effect
        obtain ⟨-, hRest⟩ := List.cons.inj hRest
        exact absurd hThread (hLater event (hRest ▸ List.mem_append_right rest hMem))

/-- They take their turns in this order. -/
theorem Sequential.sublist {calls : List (Call × Answer)} (h : Sequential trace calls)
    (run : Run (Step code) (State.initial value) trace s) : calls.Sublist (effects trace) := by
  induction h generalizing s with
  | nil => exact List.nil_sublist _
  | @snoc before middle calls t call answer prior hSince ih =>
      have hLate := mem_effects_since run hSince
      obtain ⟨_, hBoth, -⟩ := run.split
      obtain ⟨_, hBefore, -⟩ := hBoth.split
      rw [List.append_assoc, effects_append, effects_append]
      exact (ih hBefore).append
        ((List.singleton_sublist.mpr hLate).trans (List.sublist_append_left _ _))

/-! What the calls on the cell add up to. -/

/-- Each step moves something in or out of the stage of its thread, so that what has come in
is what has gone out and what is still there. -/
theorem conserved {M : Type z} [AddCommMonoid M] (item : Option Stage → M)
    (added removed : Event V Call Answer → M) (hIdle : item none = 0)
    (hStep : ∀ (s : State V Stage Thread) t event s', Step code s (t, event) s' →
      item (s.stages t) + added event = item (s'.stages t) + removed event)
    (run : Run (Step code) (State.initial value) trace s) :
    ∃ threads : Finset Thread, (∀ t ∉ threads, s.stages t = none) ∧
      (trace.map (added ·.2)).sum =
        (trace.map (removed ·.2)).sum + ∑ t ∈ threads, item (s.stages t) := by
  refine run.invariant (fun trace s => ∃ threads : Finset Thread,
    (∀ t ∉ threads, s.stages t = none) ∧ (trace.map (added ·.2)).sum =
      (trace.map (removed ·.2)).sum + ∑ t ∈ threads, item (s.stages t))
    ⟨∅, fun _ _ => rfl, by simp⟩ ?_
  intro trace s label s' hPrior hLast
  obtain ⟨t, event⟩ := label
  obtain ⟨threads, hOut, hSum⟩ := hPrior
  have hThreads : ∑ t' ∈ threads, item (s.stages t') =
      item (s.stages t) + ∑ t' ∈ threads.erase t, item (s.stages t') := by
    by_cases hMember : t ∈ threads
    · exact (Finset.add_sum_erase _ _ hMember).symm
    · rw [hOut t hMember, hIdle, zero_add, Finset.erase_eq_of_notMem hMember]
  have hOthers : ∑ t' ∈ threads.erase t, item (s'.stages t') =
      ∑ t' ∈ threads.erase t, item (s.stages t') :=
    Finset.sum_congr rfl fun t' hMember => by
      rw [hLast.stages_of_ne (Finset.ne_of_mem_erase hMember).symm]
  refine ⟨insert t threads, fun t' hOther => ?_, ?_⟩
  · obtain ⟨hNe, hNot⟩ := not_or.mp (Finset.mem_insert.not.mp hOther)
    rw [hLast.stages_of_ne (Ne.symm hNe)]
    exact hOut t' hNot
  · rw [← Finset.add_sum_erase _ _ (Finset.mem_insert_self t threads), Finset.erase_insert_eq_erase,
      hOthers, List.map_append, List.map_append, List.sum_append, List.sum_append, hSum, hThreads,
      List.map_singleton, List.map_singleton, List.sum_singleton, List.sum_singleton]
    have hEvent := hStep s t event s' hLast
    calc (trace.map (removed ·.2)).sum + (item (s.stages t) +
          ∑ t' ∈ threads.erase t, item (s.stages t')) + added event
      _ = (trace.map (removed ·.2)).sum + (item (s.stages t) + added event) +
          ∑ t' ∈ threads.erase t, item (s.stages t') := by ac_rfl
      _ = _ := by
        rw [hEvent]
        ac_rfl

/-- What goes out has come in, and between calls nothing is left in between. -/
theorem removed_le_added (item : Option Stage → Nat) (added removed : Event V Call Answer → Nat)
    (hIdle : item none = 0)
    (hStep : ∀ (s : State V Stage Thread) t event s', Step code s (t, event) s' →
      item (s.stages t) + added event = item (s'.stages t) + removed event)
    (run : Run (Step code) (State.initial value) trace s) :
    (trace.map (removed ·.2)).sum ≤ (trace.map (added ·.2)).sum ∧
      ((∀ t, s.stages t = none) →
        (trace.map (removed ·.2)).sum = (trace.map (added ·.2)).sum) := by
  obtain ⟨threads, -, hSum⟩ := conserved item added removed hIdle hStep run
  rw [hSum]
  refine ⟨Nat.le_add_right _ _, fun hQuiet => ?_⟩
  have hNone : ∑ t ∈ threads, item (s.stages t) = 0 :=
    Finset.sum_eq_zero fun t _ => by rw [hQuiet t, hIdle]
  rw [hNone, Nat.add_zero]

theorem sum_filterMap {α : Type u} {β : Type v} (f : α → Option β) (weight : β → Nat) (l : List α) :
    ((l.filterMap f).map weight).sum = (l.map fun a => (f a).elim 0 weight).sum := by
  induction l with
  | nil => rfl
  | cons a rest ih => cases h : f a <;> simp [h, ih]

/-- A call takes effect after its invocation, and between calls every call has done so. -/
theorem effects_le_invocations (weight : Call → Nat)
    (run : Run (Step code) (State.initial value) trace s) :
    ((effects trace).map (weight ·.1)).sum ≤ ((invocations trace).map weight).sum ∧
      ((∀ t, s.stages t = none) →
        ((effects trace).map (weight ·.1)).sum = ((invocations trace).map weight).sum) := by
  rw [effects, invocations, sum_filterMap, sum_filterMap]
  -- a thread holds its call until that has its effect
  refine removed_le_added
    (fun stage => stage.elim 0 fun stage =>
      if code.answer stage = none then weight (code.call stage) else 0)
    (fun event => event.invoked.elim 0 weight) (fun event => event.effect.elim 0 (weight ·.1)) rfl
    ?_ run
  intro s t event s' hStep
  cases hStep with
  | invoke hIdle =>
      simp [hIdle, Event.invoked, Event.effect, Code.answer, code.start_open, code.call_start]
  | @access _ stage stage' _ _ hStage hRuns =>
      have hOpen : code.answer stage = none := hRuns.unanswered
      cases hAnswer : code.answer stage' with
      | none => simp [hStage, hOpen, hAnswer, code.call_next hRuns, Event.invoked, Event.effect]
      | some answer => simp [hStage, hOpen, hAnswer, Event.invoked, Event.effect]
  | returns hStage hDone => simp [hStage, hDone, Event.invoked, Event.effect]

/-- A call takes effect before it returns, so that between calls every effect has been returned. -/
theorem returns_le_effects (weight : Call × Answer → Nat)
    (run : Run (Step code) (State.initial value) trace s) :
    ((returns trace).map weight).sum ≤ ((effects trace).map weight).sum ∧
      ((∀ t, s.stages t = none) →
        ((returns trace).map weight).sum = ((effects trace).map weight).sum) := by
  rw [effects, returns, sum_filterMap, sum_filterMap]
  -- a thread holds the answer of its call until it returns that
  refine removed_le_added
    (fun stage => stage.elim 0 fun stage =>
      (code.answer stage).elim 0 fun answer => weight (code.call stage, answer))
    (fun event => event.effect.elim 0 weight) (fun event => event.returned.elim 0 weight) rfl ?_ run
  intro s t event s' hStep
  cases hStep with
  | invoke hIdle => simp [hIdle, Event.returned, Event.effect, Code.answer, code.start_open]
  | @access _ stage stage' _ _ hStage hRuns =>
      have hOpen : code.answer stage = none := hRuns.unanswered
      cases hAnswer : code.answer stage' with
      | none => simp [hStage, hOpen, hAnswer, Event.returned, Event.effect]
      | some answer =>
          simp [hStage, hOpen, hAnswer, code.call_next hRuns, Event.returned, Event.effect]
  | returns hStage hDone => simp [hStage, hDone, Event.returned, Event.effect]

theorem countP_eq_sum {α : Type u} (p : α → Bool) (l : List α) :
    l.countP p = (l.map fun a => if p a then 1 else 0).sum := by
  induction l with
  | nil => rfl
  | cons a rest ih => rw [List.countP_cons, ih, List.map_cons, List.sum_cons, Nat.add_comm]

theorem countP_returns_le (p : Call × Answer → Bool)
    (run : Run (Step code) (State.initial value) trace s) :
    (returns trace).countP p ≤ (effects trace).countP p ∧
      ((∀ t, s.stages t = none) → (returns trace).countP p = (effects trace).countP p) := by
  rw [countP_eq_sum, countP_eq_sum]
  exact returns_le_effects _ run

end Atomic

import LumioNativeCore.Library.Linear

/-! Threads that add to an atomic cell and take from it again, each for itself. While every
thread takes no more than it has added and all that they add at a time fits into the cell, the
cell is the sum of what they have in it. -/
namespace Atomic

open Transition

universe u v w x y
variable {V : Type u} {Stage : Type v} {Call : Type w} {Answer : Type x} {Thread : Type y}
  [DecidableEq Thread]

/-- What an event adds, if it is the thread's own. -/
def ownPart (amount : Event V Call Answer → Int) (t : Thread)
    (label : Thread × Event V Call Answer) : Int :=
  if label.1 = t then amount label.2 else 0

/-- What a thread has asked for. -/
def asked (weight : Call → Int) (t : Thread) (trace : List (Thread × Event V Call Answer)) : Int :=
  (trace.map (ownPart (fun event => event.invoked.elim 0 weight) t)).sum

/-- What of it has taken effect. -/
def given (weight : Call → Int) (t : Thread) (trace : List (Thread × Event V Call Answer)) : Int :=
  (trace.map (ownPart (fun event => event.effect.elim 0 (weight ·.1)) t)).sum

/-- What has taken effect for any thread. -/
def outstanding (weight : Call → Int) (trace : List (Thread × Event V Call Answer)) : Int :=
  ((effects trace).map (weight ·.1)).sum

/-- What a thread's call is still to do. -/
def pending (code : Code V Stage Call Answer) (weight : Call → Int) (stage : Option Stage) : Int :=
  stage.elim 0 fun stage => if code.answer stage = none then weight (code.call stage) else 0

/-- The threads of a trace have at most their quotas, at any time. -/
structure Balanced (weight : Call → Int) (threads : Finset Thread) (quota : Thread → Nat)
    (trace : List (Thread × Event V Call Answer)) : Prop where
  member : ∀ label ∈ trace, label.1 ∈ threads
  within : ∀ before, before <+: trace → ∀ t,
    0 ≤ asked weight t before ∧ asked weight t before ≤ quota t

section Sums

variable {weight : Call → Int} {trace before : List (Thread × Event V Call Answer)} {t : Thread}
  {label : Thread × Event V Call Answer} {threads : Finset Thread} {quota : Thread → Nat}

theorem asked_snoc : asked weight t (trace ++ [label]) =
    asked weight t trace + ownPart (fun event => event.invoked.elim 0 weight) t label := by
  rw [asked, asked, List.map_append, List.sum_append, List.map_singleton, List.sum_singleton]

theorem asked_nonneg (hAdds : ∀ label ∈ trace, 0 ≤ label.2.invoked.elim 0 weight) :
    0 ≤ asked weight t trace := by
  apply List.sum_nonneg
  intro part hPart
  obtain ⟨label, hMem, rfl⟩ := List.mem_map.mp hPart
  rw [ownPart]
  split_ifs
  · exact hAdds label hMem
  · exact le_rfl

theorem asked_le (hAdds : ∀ label ∈ trace, 0 ≤ label.2.invoked.elim 0 weight) :
    asked weight t trace ≤ (trace.map fun label => label.2.invoked.elim 0 weight).sum := by
  apply List.sum_le_sum
  intro label hMem
  rw [ownPart]
  split_ifs
  · exact le_rfl
  · exact hAdds label hMem

/-- Threads that only add, and together no more than any of them may have. -/
theorem Balanced.of_nonneg (hMember : ∀ label ∈ trace, label.1 ∈ threads)
    (hAdds : ∀ label ∈ trace, 0 ≤ label.2.invoked.elim 0 weight)
    (hQuota : ∀ t, (trace.map fun label => label.2.invoked.elim 0 weight).sum ≤ quota t) :
    Balanced weight threads quota trace where
  member := hMember
  within before hBefore t := by
    obtain ⟨rest, rfl⟩ := hBefore
    obtain ⟨hFirst, hRest⟩ := List.forall_mem_append.mp hAdds
    have hAll : asked weight t (before ++ rest) ≤ quota t := (asked_le hAdds).trans (hQuota t)
    rw [asked, List.map_append, List.sum_append] at hAll
    exact ⟨asked_nonneg hFirst, (le_add_of_nonneg_right (asked_nonneg hRest)).trans hAll⟩

theorem given_snoc : given weight t (trace ++ [label]) =
    given weight t trace + ownPart (fun event => event.effect.elim 0 (weight ·.1)) t label := by
  rw [given, given, List.map_append, List.sum_append, List.map_singleton, List.sum_singleton]

omit [DecidableEq Thread] in
theorem outstanding_snoc : outstanding weight (trace ++ [label]) =
    outstanding weight trace + label.2.effect.elim 0 (weight ·.1) := by
  rw [outstanding, outstanding, effects_snoc, List.map_append, List.sum_append]
  cases label.2.effect with
  | none => rfl
  | some entry => simp

theorem Balanced.earlier (h : Balanced weight threads quota trace) (hBefore : before <+: trace) :
    Balanced weight threads quota before where
  member label hMem := h.member label (hBefore.subset hMem)
  within first hFirst := h.within first (hFirst.trans hBefore)

/-- What has taken effect is what has for each of the threads. -/
theorem outstanding_eq_sum (hMember : ∀ label ∈ trace, label.1 ∈ threads) :
    outstanding weight trace = ∑ t ∈ threads, given weight t trace := by
  induction trace using List.reverseRecOn with
  | nil => simp [outstanding, effects, given]
  | append_singleton trace label ih =>
      have hThread := hMember label (by simp)
      rw [outstanding_snoc, ih fun label' h => hMember label' (List.mem_append_left _ h)]
      simp only [given_snoc, ownPart, Finset.sum_add_distrib, Finset.sum_ite_eq, hThread, if_true]

end Sums

section Runs

variable {code : Code V Stage Call Answer} {weight : Call → Int}
  {trace : List (Thread × Event V Call Answer)} {value : V} {s : State V Stage Thread}

/-- What has taken effect for a thread is all that it had asked for at some time, and with what
its call is still to do it is all that it has asked for. -/
def Owing (code : Code V Stage Call Answer) (weight : Call → Int)
    (trace : List (Thread × Event V Call Answer)) (s : State V Stage Thread) (t : Thread) : Prop :=
  (∃ before, before <+: trace ∧ given weight t trace = asked weight t before) ∧
    given weight t trace + pending code weight (s.stages t) = asked weight t trace

theorem Owing.other {s' : State V Stage Thread} {t t' : Thread} {event : Event V Call Answer}
    (h : Owing code weight trace s t) (hStep : Step code s (t', event) s') (hThread : t' ≠ t) :
    Owing code weight (trace ++ [(t', event)]) s' t := by
  obtain ⟨⟨before, hBefore, hGiven⟩, hAsked⟩ := h
  have hNone : ∀ amount : Event V Call Answer → Int, ownPart amount t (t', event) = 0 :=
    fun _ => if_neg hThread
  refine ⟨⟨before, hBefore.trans (List.prefix_append _ _), ?_⟩, ?_⟩
  · rw [given_snoc, hNone, add_zero, hGiven]
  · rw [given_snoc, asked_snoc, hNone, hNone, add_zero, add_zero, hStep.stages_of_ne hThread,
      hAsked]

theorem Owing.own {s' : State V Stage Thread} {t : Thread} {event : Event V Call Answer}
    (h : Owing code weight trace s t) (hStep : Step code s (t, event) s') :
    Owing code weight (trace ++ [(t, event)]) s' t := by
  obtain ⟨⟨before, hBefore, hGiven⟩, hAsked⟩ := h
  have hEarlier : ∀ label, before <+: trace ++ [label] :=
    fun label => hBefore.trans (List.prefix_append trace [label])
  have hOwn : ∀ amount : Event V Call Answer → Int, ownPart amount t (t, event) = amount event :=
    fun _ => if_pos rfl
  rw [Owing, given_snoc, asked_snoc, hOwn, hOwn]
  cases hStep with
  | invoke hIdle =>
      refine ⟨⟨before, hEarlier _, by simpa [Event.effect] using hGiven⟩, ?_⟩
      rw [hIdle] at hAsked
      simp only [pending, State.move_self, Option.elim, code.call_start, Code.answer,
        code.start_open, Event.effect, Event.invoked, if_true] at hAsked ⊢
      omega
  | @access _ stage stage' outcome _ hStage hRuns =>
      have hOpen : code.answer stage = none := hRuns.unanswered
      have hCall := code.call_next hRuns
      rw [hStage] at hAsked
      simp only [pending, State.move_self, Option.elim, hOpen, if_true] at hAsked ⊢
      cases hAnswer : code.answer stage' with
      | none =>
          refine ⟨⟨before, hEarlier _, by simpa [Event.effect] using hGiven⟩, ?_⟩
          simpa [Event.effect, Event.invoked, hCall] using hAsked
      | some answer =>
          -- all that the thread has asked for has now taken effect
          have hAll : given weight t trace + weight (code.call stage) = asked weight t trace :=
            hAsked
          refine ⟨⟨_, List.prefix_refl _, ?_⟩, ?_⟩
          · simpa [asked_snoc, ownPart, Event.effect, Event.invoked] using hAll
          · simpa [Event.effect, Event.invoked] using hAll
  | returns hStage hDone =>
      refine ⟨⟨before, hEarlier _, by simpa [Event.effect] using hGiven⟩, ?_⟩
      rw [hStage] at hAsked
      simpa [pending, hDone, Event.effect, Event.invoked] using hAsked

theorem owing_of_run (weight : Call → Int) (run : Run (Step code) (State.initial value) trace s)
    (t : Thread) : Owing code weight trace s t := by
  refine run.invariant (fun trace s => Owing code weight trace s t)
    ⟨⟨[], List.prefix_refl _, rfl⟩, rfl⟩ ?_
  intro trace s label s' hPrior hStep
  obtain ⟨t', event⟩ := label
  rcases eq_or_ne t' t with rfl | hThread
  · exact hPrior.own hStep
  · exact hPrior.other hStep hThread

variable {threads : Finset Thread} {quota : Thread → Nat}

theorem Balanced.outstanding_within (h : Balanced weight threads quota trace)
    (run : Run (Step code) (State.initial value) trace s) :
    0 ≤ outstanding weight trace ∧ outstanding weight trace ≤ ∑ t ∈ threads, (quota t : Int) := by
  have hGiven : ∀ t, 0 ≤ given weight t trace ∧ given weight t trace ≤ quota t := fun t => by
    obtain ⟨⟨before, hBefore, hAsked⟩, -⟩ := owing_of_run weight run t
    rw [hAsked]
    exact h.within before hBefore t
  rw [outstanding_eq_sum h.member]
  exact ⟨Finset.sum_nonneg fun t _ => (hGiven t).1, Finset.sum_le_sum fun t _ => (hGiven t).2⟩

/-- Between calls all that was asked for has taken effect. -/
theorem Balanced.outstanding_quiet (h : Balanced weight threads quota trace)
    (run : Run (Step code) (State.initial value) trace s) (hQuiet : ∀ t, s.stages t = none) :
    outstanding weight trace = ∑ t ∈ threads, asked weight t trace := by
  rw [outstanding_eq_sum h.member]
  refine Finset.sum_congr rfl fun t _ => ?_
  obtain ⟨-, hAsked⟩ := owing_of_run weight run t
  rw [← hAsked, hQuiet t]
  exact (add_zero _).symm

end Runs

/-- A cell to which each call adds its weight when the sum fits is what has taken effect. -/
theorem Balanced.cell_eq {code : Code Nat Stage Call Answer} {weight : Call → Int}
    {serve : Nat → Call → Answer × Nat} {threads : Finset Thread} {quota : Thread → Nat}
    {trace : List (Thread × Event Nat Call Answer)} {s : State Nat Stage Thread} {max : Nat}
    (hLinear : Linear code serve Eq)
    (hServe : ∀ (value : Nat) call, 0 ≤ (value : Int) + weight call →
      (value : Int) + weight call ≤ max → ((serve value call).2 : Int) = value + weight call)
    (hQuota : ∑ t ∈ threads, quota t ≤ max) (h : Balanced weight threads quota trace)
    (run : Run (Step code) (State.initial 0) trace s) :
    (s.cell : Int) = outstanding weight trace := by
  induction run with
  | nil => rfl
  | @snoc s s' trace label prior last ih =>
      have hPrior := ih (h.earlier (List.prefix_append _ _))
      have hWithin := h.outstanding_within (prior.snoc last)
      have hMax : ∑ t ∈ threads, (quota t : Int) ≤ max := by exact_mod_cast hQuota
      rw [outstanding_snoc] at hWithin ⊢
      cases last with
      | invoke => simpa [State.move, Event.effect] using hPrior
      | returns => simpa [State.move, Event.effect] using hPrior
      | @access t stage stage' outcome value' hStage hRuns =>
          cases hAnswer : code.answer stage' with
          | none =>
              obtain rfl := hLinear.waits rfl hRuns hAnswer
              simpa [State.move, Event.effect] using hPrior
          | some answer =>
              obtain ⟨-, hNext⟩ := hLinear.serves rfl hRuns hAnswer
              rw [hAnswer] at hWithin
              simp only [Event.effect, Option.elim] at hWithin ⊢
              rw [← hPrior] at hWithin ⊢
              have hServed := hServe s.cell (code.call stage) hWithin.1 (hWithin.2.trans hMax)
              rwa [hNext] at hServed

end Atomic

import Mathlib.Data.List.Basic
import Mathlib.Data.List.Nodup

/-! Finite labelled runs of a transition relation, and properties of their traces.
A trace lists the labels of the transitions in the order they were taken. -/
namespace Transition

universe u v
variable {State : Type u} {Label : Type v} {step : State → Label → State → Prop}

/-- A finite run with the labels of its transitions. -/
inductive Run (step : State → Label → State → Prop) : State → List Label → State → Prop where
  | nil (s : State) : Run step s [] s
  | snoc {s t w : State} {trace : List Label} {label : Label}
      (prior : Run step s trace t) (last : step t label w) :
      Run step s (trace ++ [label]) w

/-- Concatenate two runs. Their traces are concatenated as well. -/
theorem Run.trans {s t w : State} {first second : List Label}
    (left : Run step s first t) (right : Run step t second w) :
    Run step s (first ++ second) w := by
  induction right with
  | nil => simpa using left
  | snoc prior last ih =>
      rw [← List.append_assoc]
      exact Run.snoc ih last

/-- Every decomposition of the trace is realised by an intermediate state. -/
theorem Run.split {s w : State} {first second : List Label}
    (run : Run step s (first ++ second) w) :
    ∃ t, Run step s first t ∧ Run step t second w := by
  generalize hTrace : first ++ second = trace at run
  induction run generalizing first second with
  | nil =>
      obtain ⟨rfl, rfl⟩ := List.append_eq_nil_iff.mp hTrace
      exact ⟨s, Run.nil s, Run.nil s⟩
  | @snoc t w trace label prior last ih =>
      rcases List.eq_nil_or_concat second with rfl | ⟨front, final, rfl⟩
      · rw [List.append_nil] at hTrace
        subst hTrace
        exact ⟨w, Run.snoc prior last, Run.nil w⟩
      · rw [List.concat_eq_append, ← List.append_assoc] at hTrace
        obtain ⟨rfl, hFinal⟩ := List.append_inj' hTrace rfl
        obtain rfl := List.head_eq_of_cons_eq hFinal
        obtain ⟨middle, hFirst, hSecond⟩ := ih rfl
        exact ⟨middle, hFirst, List.concat_eq_append ▸ Run.snoc hSecond last⟩

/-- The newest transition of a run. -/
theorem Run.last {s w : State} {before : List Label} {label : Label}
    (run : Run step s (before ++ [label]) w) : ∃ t, Run step s before t ∧ step t label w := by
  generalize hTrace : before ++ [label] = trace at run
  cases run with
  | nil => simp at hTrace
  | snoc prior last =>
      obtain ⟨rfl, hLabel⟩ := List.append_inj' hTrace rfl
      obtain rfl := List.head_eq_of_cons_eq hLabel
      exact ⟨_, prior, last⟩

/-- The transition at one position of a trace, with the runs around it. -/
theorem Run.at {s w : State} {before after : List Label} {label : Label}
    (run : Run step s (before ++ label :: after) w) :
    ∃ t t', Run step s before t ∧ step t label t' ∧ Run step t' after w := by
  rw [← List.singleton_append, ← List.append_assoc] at run
  obtain ⟨t', hLeft, hAfter⟩ := run.split
  obtain ⟨t, prior, last⟩ := hLeft.last
  exact ⟨t, t', prior, last, hAfter⟩

/-- The oldest transition of a run. -/
theorem Run.uncons {s w : State} {after : List Label} {label : Label}
    (run : Run step s (label :: after) w) : ∃ t, step s label t ∧ Run step t after w := by
  rw [← List.nil_append (label :: after)] at run
  obtain ⟨t, t', hNone, hStep, hAfter⟩ := run.at
  generalize hTrace : ([] : List Label) = trace at hNone
  cases hNone with
  | nil => exact ⟨t', hStep, hAfter⟩
  | snoc => simp at hTrace

/-- An invariant that may also mention the trace so far. -/
theorem Run.invariant {s : State} (property : List Label → State → Prop)
    (hInitial : property [] s)
    (hStep : ∀ trace t label w, property trace t → step t label w →
      property (trace ++ [label]) w)
    {trace : List Label} {t : State} (run : Run step s trace t) : property trace t := by
  induction run with
  | nil => exact hInitial
  | snoc prior last ih => exact hStep _ _ _ _ ih last

/-- An invariant of the states alone. -/
theorem Run.preserves (property : State → Prop)
    (hStep : ∀ t label w, property t → step t label w → property w)
    {s t : State} {trace : List Label} (run : Run step s trace t) (h : property s) :
    property t :=
  run.invariant (fun _ t => property t) h fun _ => hStep

/-- The transitions that each use up one unit of a store are at most what was there. -/
theorem Run.spends (property : State → Prop) (costs : Label → Bool) (store : State → Nat)
    (hStep : ∀ t label w, property t → step t label w →
      property w ∧ store w + (if costs label then 1 else 0) ≤ store t)
    {s t : State} {trace : List Label} (run : Run step s trace t) (h : property s) :
    property t ∧ trace.countP costs + store t ≤ store s := by
  refine run.invariant (fun trace t => property t ∧ trace.countP costs + store t ≤ store s)
    ⟨h, Nat.le_of_eq (Nat.zero_add _)⟩ ?_
  intro trace t label w ⟨hProperty, hSpent⟩ last
  obtain ⟨hNext, hCost⟩ := hStep t label w hProperty last
  refine ⟨hNext, ?_⟩
  rw [List.countP_append, List.countP_singleton]
  omega

/-- A transitive relation between the two ends of every transition relates the
two ends of every run. -/
theorem Run.monotone (relation : State → State → Prop) (hRefl : ∀ s, relation s s)
    (hTrans : ∀ {a b c}, relation a b → relation b c → relation a c)
    (hStep : ∀ t label w, step t label w → relation t w)
    {s t : State} {trace : List Label} (run : Run step s trace t) : relation s t :=
  run.invariant (fun _ t => relation s t) (hRefl s)
    fun _ _ _ _ h last => hTrans h (hStep _ _ _ last)

/-- Steps that come to runs of another relation, label by label. -/
theorem Run.flatMap {State' : Type*} {Label' : Type*} {step' : State' → Label' → State' → Prop}
    (f : State → State') (labels : Label → List Label')
    (hStep : ∀ t label w, step t label w → Run step' (f t) (labels label) (f w))
    {s t : State} {trace : List Label} (run : Run step s trace t) :
    Run step' (f s) (trace.flatMap labels) (f t) := by
  induction run with
  | nil => exact Run.nil _
  | snoc prior last ih =>
      rw [List.flatMap_append, List.flatMap_singleton]
      exact ih.trans (hStep _ _ _ last)

theorem Run.single {s t : State} {label : Label} (h : step s label t) : Run step s [label] t :=
  (Run.nil s).snoc h

/-! Past-time properties of a trace. -/

/-- Some label with `start` occurs in the trace and no later one has `stop`. -/
def Since (start stop : Label → Prop) (trace : List Label) : Prop :=
  ∃ before label after, trace = before ++ label :: after ∧ start label ∧
    ∀ later ∈ after, ¬stop later

theorem not_since_nil (start stop : Label → Prop) : ¬Since start stop [] := by
  rintro ⟨before, label, after, hTrace, -⟩
  simp at hTrace

/-- The recursive reading of `Since`, from the newest label backwards. -/
theorem since_snoc {start stop : Label → Prop} {trace : List Label} {label : Label} :
    Since start stop (trace ++ [label]) ↔
      start label ∨ (Since start stop trace ∧ ¬stop label) := by
  constructor
  · rintro ⟨before, first, after, hTrace, hStart, hStop⟩
    rcases List.eq_nil_or_concat after with rfl | ⟨front, final, rfl⟩
    · obtain ⟨-, hLabel⟩ := List.append_inj' hTrace rfl
      obtain rfl := List.head_eq_of_cons_eq hLabel
      exact Or.inl hStart
    · rw [List.concat_eq_append, ← List.cons_append, ← List.append_assoc] at hTrace
      obtain ⟨hFront, hLabel⟩ := List.append_inj' hTrace rfl
      obtain rfl := List.head_eq_of_cons_eq hLabel
      simp only [List.concat_eq_append, List.mem_append] at hStop
      exact Or.inr ⟨⟨before, first, front, hFront, hStart,
        fun later h => hStop later (Or.inl h)⟩, hStop label (Or.inr (by simp))⟩
  · rintro (hStart | ⟨⟨before, first, after, rfl, hStart, hStop⟩, hLabel⟩)
    · exact ⟨trace, label, [], rfl, hStart, by simp⟩
    · refine ⟨before, first, after ++ [label], by simp, hStart, ?_⟩
      intro later hLater
      rcases List.mem_append.mp hLater with h | h
      · exact hStop later h
      · rw [List.mem_singleton.mp h]
        exact hLabel

end Transition

import Mathlib.Data.List.Induction
import Mathlib.Data.List.Nodup
import Mathlib.Data.List.Perm.Basic

/-! Words of brackets that open and close what is nested. `child prev a` says that `a`
may be opened right inside `prev`, or at top level when there is no `prev`. -/
namespace Nesting

universe u v
variable {α : Type u} {σ : Type v} {child : Option α → α → Prop}

inductive Bracket (α : Type u) where
  | opened (a : α)
  | closed (a : α)

namespace Bracket

def opens? : Bracket α → Option α
  | opened a => some a
  | closed _ => none

def closes? : Bracket α → Option α
  | opened _ => none
  | closed a => some a

end Bracket

/-- The word takes one stack, outermost first, to another: it opens children of the
innermost open one and closes the innermost open one. -/
inductive Nested (child : Option α → α → Prop) : List α → List (Bracket α) → List α → Prop where
  | nil (stack : List α) : Nested child stack [] stack
  | opened {stack stack' : List α} {word : List (Bracket α)} {a : α}
      (prior : Nested child stack word stack') (hChild : child stack'.getLast? a) :
      Nested child stack (word ++ [.opened a]) (stack' ++ [a])
  | closed {stack stack' : List α} {word : List (Bracket α)} {a : α}
      (prior : Nested child stack word (stack' ++ [a])) :
      Nested child stack (word ++ [.closed a]) stack'

def opensIn (word : List (Bracket α)) : List α := word.filterMap Bracket.opens?

def closesIn (word : List (Bracket α)) : List α := word.filterMap Bracket.closes?

@[simp] theorem opensIn_append (first second : List (Bracket α)) :
    opensIn (first ++ second) = opensIn first ++ opensIn second := List.filterMap_append

@[simp] theorem closesIn_append (first second : List (Bracket α)) :
    closesIn (first ++ second) = closesIn first ++ closesIn second := List.filterMap_append

@[simp] theorem opensIn_opened (list : List α) : opensIn (list.map .opened) = list := by
  simp [opensIn, List.filterMap_map, Function.comp_def, Bracket.opens?]

@[simp] theorem opensIn_closed (list : List α) : opensIn (list.map .closed) = [] := by
  simp [opensIn, List.filterMap_map, Function.comp_def, Bracket.opens?]

@[simp] theorem closesIn_opened (list : List α) : closesIn (list.map .opened) = [] := by
  simp [closesIn, List.filterMap_map, Function.comp_def, Bracket.closes?]

@[simp] theorem closesIn_closed (list : List α) : closesIn (list.map .closed) = list := by
  simp [closesIn, List.filterMap_map, Function.comp_def, Bracket.closes?]

/-- Consecutive members are children of one another. -/
def Descends (child : Option α → α → Prop) : Option α → List α → Prop
  | _, [] => True
  | prev, a :: rest => child prev a ∧ Descends child (some a) rest

theorem descends_append {prev : Option α} {first second : List α} :
    Descends child prev (first ++ second) ↔
      Descends child prev first ∧ Descends child (first.getLast?.or prev) second := by
  induction first generalizing prev with
  | nil => simp [Descends]
  | cons a rest ih =>
      rw [List.cons_append, Descends, Descends, ih, and_assoc, List.getLast?_cons]
      cases rest.getLast? <;> simp

/-- Every member is a child of something. -/
theorem Descends.child_of_mem {prev : Option α} {list : List α} (h : Descends child prev list)
    {a : α} (ha : a ∈ list) : ∃ prev', child prev' a := by
  induction list generalizing prev with
  | nil => exact absurd ha List.not_mem_nil
  | cons b rest ih =>
      cases List.mem_cons.mp ha with
      | inl hHead => exact ⟨prev, hHead ▸ h.1⟩
      | inr hRest => exact ih h.2 hRest

theorem Nested.trans {stack stack' stack'' : List α} {first second : List (Bracket α)}
    (left : Nested child stack first stack') (right : Nested child stack' second stack'') :
    Nested child stack (first ++ second) stack'' := by
  induction right with
  | nil => simpa using left
  | opened prior hChild ih =>
      rw [← List.append_assoc]
      exact .opened ih hChild
  | closed prior ih =>
      rw [← List.append_assoc]
      exact .closed ih

/-- Close everything above a part of the stack, the innermost first. -/
theorem nested_closes (child : Option α → α → Prop) (kept exited : List α) :
    Nested child (kept ++ exited) (exited.reverse.map .closed) kept := by
  induction exited using List.reverseRecOn with
  | nil => simpa using Nested.nil kept
  | append_singleton front a ih =>
      have hFirst : Nested child (kept ++ (front ++ [a])) [.closed a] (kept ++ front) := by
        rw [← List.append_assoc]
        exact Nested.closed (Nested.nil (kept ++ front ++ [a]))
      have hAll := hFirst.trans ih
      rw [List.reverse_append, List.map_append]
      exact hAll

/-- Open a chain of children on top of the stack. -/
theorem nested_opens {kept entered : List α} (hChain : Descends child kept.getLast? entered) :
    Nested child kept (entered.map .opened) (kept ++ entered) := by
  induction entered generalizing kept with
  | nil => simpa using Nested.nil kept
  | cons a rest ih =>
      obtain ⟨hChild, hRest⟩ := hChain
      have hFirst : Nested child kept [.opened a] (kept ++ [a]) := .opened (.nil kept) hChild
      have hTail := @ih (kept ++ [a]) (by simpa using hRest)
      rw [List.append_assoc] at hTail
      exact hFirst.trans hTail

/-- Everything opened is closed or still open. -/
theorem Nested.opens_perm {word : List (Bracket α)} {stack : List α}
    (h : Nested child [] word stack) : (opensIn word).Perm (closesIn word ++ stack) := by
  generalize hEmpty : ([] : List α) = start at h
  induction h with
  | nil =>
      subst hEmpty
      exact List.Perm.nil
  | @opened stack' word a prior hChild ih =>
      have hMore := ih.append_right [a]
      rw [List.append_assoc] at hMore
      rw [opensIn_append, closesIn_append]
      exact (List.append_nil (closesIn word)).symm ▸ hMore
  | @closed stack' word a prior ih =>
      have hMoved : (closesIn word ++ (stack' ++ [a])).Perm (closesIn word ++ [a] ++ stack') := by
        rw [List.append_assoc]
        exact List.Perm.append_left _ List.perm_append_comm
      rw [opensIn_append, closesIn_append]
      exact (List.append_nil (opensIn word)).symm ▸ ih.trans hMoved

/-! Words that are spelled by letters. -/

/-- The spelling of one bracket can be told from that of another, whatever follows. -/
def Legible (spell : Bracket α → List σ) (word : List (Bracket α)) : Prop :=
  ∀ b ∈ word, spell b ≠ [] ∧ ∀ b' rest rest', spell b' ≠ [] →
    spell b ++ rest = spell b' ++ rest' → b = b' ∧ rest = rest'

/-- A legible word is known from its spelling. -/
theorem Legible.unique {spell : Bracket α → List σ} {word word' : List (Bracket α)}
    (h : Legible spell word) (hWord : ∀ b ∈ word', spell b ≠ [])
    (hSame : word.flatMap spell = word'.flatMap spell) : word = word' := by
  induction word generalizing word' with
  | nil =>
      cases word' with
      | nil => rfl
      | cons b' rest' =>
          have hNone := hSame.symm
          rw [List.flatMap_cons, List.flatMap_nil, List.append_eq_nil_iff] at hNone
          exact absurd hNone.1 (hWord b' List.mem_cons_self)
  | cons b rest ih =>
      obtain ⟨hSome, hFirst⟩ := h b List.mem_cons_self
      cases word' with
      | nil =>
          rw [List.flatMap_cons, List.flatMap_nil, List.append_eq_nil_iff] at hSame
          exact absurd hSame.1 hSome
      | cons b' rest' =>
          rw [List.flatMap_cons, List.flatMap_cons] at hSame
          obtain ⟨rfl, hRest⟩ := hFirst b' _ _ (hWord b' List.mem_cons_self) hSame
          rw [ih (fun c hc => h c (List.mem_cons_of_mem _ hc))
            (fun c hc => hWord c (List.mem_cons_of_mem _ hc)) hRest]

end Nesting

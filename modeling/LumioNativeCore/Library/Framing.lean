import Mathlib.Data.List.Sort

/-! Encodings that can be read off the front of a string. An encoding need not
be injective: `view` is what a reader recovers of the encoded value. -/
namespace Framing

universe u v w x

variable {α : Type u} {β : Type v} {γ : Type w} {σ : Type x}

/-- Whatever follows the encodings of two valid values, the strings agree only
when the views agree and so does what follows. -/
def Frames (valid : α → Prop) (encode : α → List σ) (view : α → β) : Prop :=
  ∀ a a', valid a → valid a' → ∀ rest rest',
    encode a ++ rest = encode a' ++ rest' ↔ view a = view a' ∧ rest = rest'

/-- Encodings of one length. -/
theorem Frames.of_length {encode : α → List σ} {view : α → β}
    (hLength : ∀ a a', (encode a).length = (encode a').length)
    (hView : ∀ a a', encode a = encode a' ↔ view a = view a') :
    Frames (fun _ => True) encode view := by
  intro a a' _ _ rest rest'
  rw [← hView]
  constructor
  · intro h
    exact List.append_inj h (hLength a a')
  · rintro ⟨hEncode, rfl⟩
    rw [hEncode]

theorem Frames.append {valid valid' : α → Prop} {encode encode' : α → List σ}
    {view : α → β} {view' : α → γ} (h : Frames valid encode view)
    (h' : Frames valid' encode' view') :
    Frames (fun a => valid a ∧ valid' a) (fun a => encode a ++ encode' a)
      (fun a => (view a, view' a)) := by
  intro a a' ha ha' rest rest'
  rw [List.append_assoc, List.append_assoc, h a a' ha.1 ha'.1, h' a a' ha.2 ha'.2,
    Prod.mk.injEq, and_assoc]

/-- The encoding of one field of a value. -/
theorem Frames.field {valid : α → Prop} {encode : α → List σ} {view : α → β}
    (h : Frames valid encode view) (field : γ → α) :
    Frames (fun c => valid (field c)) (fun c => encode (field c)) (fun c => view (field c)) :=
  fun c c' hc hc' => h (field c) (field c') hc hc'

theorem Frames.congr {valid valid' : α → Prop} {encode : α → List σ} {view : α → β}
    {view' : α → γ} (h : Frames valid encode view) (hValid : ∀ a, valid' a → valid a)
    (hView : ∀ a a', view a = view a' ↔ view' a = view' a') :
    Frames valid' encode view' := by
  intro a a' ha ha' rest rest'
  rw [h a a' (hValid a ha) (hValid a' ha'), hView]

/-- Consecutive encodings, when the number of values is already known. -/
theorem Frames.flatMap {valid : α → Prop} {encode : α → List σ} {view : α → β}
    (h : Frames valid encode view) {list list' : List α} (hLength : list.length = list'.length)
    (hList : ∀ a ∈ list, valid a) (hList' : ∀ a ∈ list', valid a) (rest rest' : List σ) :
    list.flatMap encode ++ rest = list'.flatMap encode ++ rest' ↔
      list.map view = list'.map view ∧ rest = rest' := by
  induction list generalizing list' with
  | nil =>
      rw [List.length_nil, eq_comm, List.length_eq_zero_iff] at hLength
      subst hLength
      simp
  | cons a list ih =>
      cases list' with
      | nil => simp at hLength
      | cons a' list' =>
          rw [List.forall_mem_cons] at hList hList'
          rw [List.flatMap_cons, List.flatMap_cons, List.append_assoc, List.append_assoc,
            h a a' hList.1 hList'.1, ih (Nat.succ.inj hLength) hList.2 hList'.2,
            List.map_cons, List.map_cons, List.cons.injEq, and_assoc]

/-- A list behind its length. -/
theorem Frames.list {valid : α → Prop} {encode : α → List σ} {view : α → β}
    {countable : Nat → Prop} {count : Nat → List σ} (hCount : Frames countable count id)
    (h : Frames valid encode view) :
    Frames (fun list : List α => countable list.length ∧ ∀ a ∈ list, valid a)
      (fun list => count list.length ++ list.flatMap encode) (List.map view) := by
  intro list list' hList hList' rest rest'
  rw [List.append_assoc, List.append_assoc, hCount _ _ hList.1 hList'.1]
  constructor
  · rintro ⟨hLength, hRest⟩
    exact (h.flatMap hLength hList.2 hList'.2 rest rest').mp hRest
  · rintro ⟨hView, hRest⟩
    have hLength : list.length = list'.length := by
      simpa using congrArg List.length hView
    exact ⟨hLength, (h.flatMap hLength hList.2 hList'.2 rest rest').mpr ⟨hView, hRest⟩⟩

/-! Lists up to order and up to a view. -/

/-- Two lists with the same `f` view have the same `g` view when `f` determines
`g` across them. -/
theorem map_eq_map {f : α → β} {g : α → γ} {list list' : List α}
    (h : list.map f = list'.map f)
    (hDetermines : ∀ a ∈ list, ∀ a' ∈ list', f a = f a' → g a = g a') :
    list.map g = list'.map g := by
  induction list generalizing list' with
  | nil => simp_all
  | cons a list ih =>
      cases list' with
      | nil => simp at h
      | cons a' list' =>
          rw [List.map_cons, List.map_cons, List.cons.injEq] at h
          rw [List.map_cons, List.map_cons,
            hDetermines a List.mem_cons_self a' List.mem_cons_self h.1]
          congr 1
          apply ih h.2
          intro b hb b' hb'
          exact hDetermines b (List.mem_cons_of_mem a hb) b' (List.mem_cons_of_mem a' hb')

section Sorted

variable {le : α → α → Prop} [DecidableRel le] [IsTrans α le] [Std.Total le]

/-- The members of a list are told apart by the order. -/
def Separated (le : α → α → Prop) (list : List α) : Prop :=
  ∀ a ∈ list, ∀ b ∈ list, le a b → le b a → a = b

/-- Sorting forgets exactly the order of the members. -/
theorem insertionSort_eq_iff {list list' : List α} (hSeparated : Separated le list) :
    list.insertionSort le = list'.insertionSort le ↔ list.Perm list' := by
  constructor
  · intro h
    have hPerm := List.perm_insertionSort le list
    rw [h] at hPerm
    exact hPerm.symm.trans (List.perm_insertionSort le list')
  · intro h
    have hSame : (list.insertionSort le).Perm (list'.insertionSort le) :=
      (List.perm_insertionSort le list).trans
        (h.trans (List.perm_insertionSort le list').symm)
    apply List.Perm.eq_of_pairwise _ (List.pairwise_insertionSort le list)
      (List.pairwise_insertionSort le list') hSame
    intro a b ha hb
    rw [List.mem_insertionSort] at ha hb
    exact hSeparated a ha b (h.mem_iff.mpr hb)

omit [IsTrans α le] [Std.Total le] in
/-- Sorted lists have the same view exactly when the views agree up to order,
for a view that keeps the order. -/
theorem map_insertionSort_eq_iff {le' : β → β → Prop} [DecidableRel le'] [IsTrans β le']
    [Std.Total le'] {view : α → β} (hView : ∀ a b, le a b ↔ le' (view a) (view b))
    {list list' : List α} (hSeparated : Separated le list) :
    (list.insertionSort le).map view = (list'.insertionSort le).map view ↔
      (list.map view).Perm (list'.map view) := by
  have hSeparated' : Separated le' (list.map view) := by
    intro a ha b hb hab hba
    obtain ⟨c, hc, rfl⟩ := List.mem_map.mp ha
    obtain ⟨d, hd, rfl⟩ := List.mem_map.mp hb
    rw [hSeparated c hc d hd ((hView c d).mpr hab) ((hView d c).mpr hba)]
  have hMap : ∀ list : List α,
      (list.insertionSort le).map view = (list.map view).insertionSort le' :=
    fun list => List.map_insertionSort le le' view list fun a _ b _ => hView a b
  rw [← insertionSort_eq_iff hSeparated', hMap, hMap]

end Sorted
end Framing

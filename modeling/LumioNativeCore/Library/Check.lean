import Mathlib.Tactic

/-! Passes over a list that stop at the first error, and the position index of a
list whose keys are distinct. -/
namespace Check

universe u v w
variable {ε : Type u} {β : Type v} {γ : Type w}

theorem bind_eq_ok {δ : Type v} {x : Except ε β} {f : β → Except ε δ} {c : δ} :
    (x >>= f) = .ok c ↔ ∃ b, x = .ok b ∧ f b = .ok c := by
  cases x with
  | error failure => simp [bind, Except.bind]
  | ok b => simp [bind, Except.bind]

theorem ok_bind {δ : Type v} {b : β} {f : β → Except ε δ} : (Except.ok b >>= f) = f b := rfl

theorem eq_ok_get {δ : Type v} {x : Except ε δ} (h : x.toOption.isSome = true) :
    x = .ok (x.toOption.get h) := by
  cases x with
  | error failure => simp [Except.toOption] at h
  | ok c => rfl

/-- A check in front of a computation. -/
theorem then_eq_ok {δ : Type} {x : Except ε Unit} {y : Except ε δ} {c : δ} :
    (x >>= fun _ => y) = .ok c ↔ x = .ok () ∧ y = .ok c := by
  cases x with
  | error failure => simp [bind, Except.bind]
  | ok _ => simp [bind, Except.bind]

/-- An early return on a condition, as it reads inside a `do` block. -/
theorem unless_eq_ok {δ : Type v} {p : Prop} [Decidable p] {failure : ε} {f : β → Except ε δ}
    {x : Except ε δ} {c : δ} :
    (if p then (Except.error failure : Except ε β) >>= f else x) = .ok c ↔ ¬p ∧ x = .ok c := by
  split_ifs with h
  · simp [h, bind, Except.bind]
  · simp [h]

/-- Run a check on every element, in order. -/
def each (check : β → Except ε Unit) : List β → Except ε Unit
  | [] => .ok ()
  | b :: rest =>
      match check b with
      | .error failure => .error failure
      | .ok _ => each check rest

theorem each_eq_ok {check : β → Except ε Unit} {list : List β} :
    each check list = .ok () ↔ ∀ b ∈ list, check b = .ok () := by
  induction list with
  | nil => simp [each]
  | cons b rest ih =>
      rw [each, List.forall_mem_cons, ← ih]
      cases check b <;> simp

/-- Collect one result for every element. -/
def collect (f : β → Except ε γ) : List β → Except ε (List γ)
  | [] => .ok []
  | b :: rest =>
      match f b with
      | .error failure => .error failure
      | .ok c => (collect f rest).map (c :: ·)

theorem collect_eq_ok {f : β → Except ε γ} {list : List β} {results : List γ} :
    collect f list = .ok results ↔ List.Forall₂ (fun b c => f b = .ok c) list results := by
  induction list generalizing results with
  | nil => simp [collect, eq_comm]
  | cons b rest ih =>
      rw [collect]
      cases hHead : f b with
      | error failure => simp [List.forall₂_cons_left_iff, hHead]
      | ok c =>
          cases hRest : collect f rest with
          | error failure =>
              have hNone : ∀ tail, ¬List.Forall₂ (fun b c => f b = .ok c) rest tail := by
                intro tail h
                simp [ih.mpr h] at hRest
              simp [Except.map, List.forall₂_cons_left_iff, hHead, hNone]
          | ok tail =>
              simp only [Except.map, Except.ok.injEq, List.forall₂_cons_left_iff, hHead, ← ih,
                hRest]
              constructor
              · rintro rfl
                exact ⟨c, tail, rfl, rfl, rfl⟩
              · rintro ⟨_, _, rfl, rfl, rfl⟩
                rfl

theorem collect_mem {f : β → Except ε γ} {list : List β} {results : List γ}
    (h : collect f list = .ok results) {b : β} (hb : b ∈ list) :
    ∃ c ∈ results, f b = .ok c := by
  induction collect_eq_ok.mp h with
  | nil => exact absurd hb List.not_mem_nil
  | cons hHead hRest ih =>
      rcases List.mem_cons.mp hb with rfl | hb
      · exact ⟨_, List.mem_cons_self, hHead⟩
      · obtain ⟨c, hc, hCheck⟩ := ih (collect_eq_ok.mpr hRest) hb
        exact ⟨c, List.mem_cons_of_mem _ hc, hCheck⟩

/-- Collecting succeeds exactly when every element has a result. -/
theorem collect_isOk {f : β → Except ε γ} {list : List β} :
    (∃ results, collect f list = .ok results) ↔ ∀ b ∈ list, ∃ c, f b = .ok c := by
  induction list with
  | nil => exact iff_of_true ⟨[], rfl⟩ (List.forall_mem_nil _)
  | cons b rest ih =>
      rw [List.forall_mem_cons, ← ih, collect]
      cases f b with
      | error failure => simp
      | ok c => cases collect f rest <;> simp [Except.map]

/-- A collected list is a map when every result is determined by its element. -/
theorem collect_eq_map {f : β → Except ε γ} {g : β → γ} {list : List β} {results : List γ}
    (hResult : ∀ b ∈ list, ∀ c, f b = .ok c → c = g b)
    (h : collect f list = .ok results) : results = list.map g := by
  induction collect_eq_ok.mp h with
  | nil => rfl
  | cons hHead hRest ih =>
      rw [List.map_cons, ← hResult _ List.mem_cons_self _ hHead,
        ← ih (fun b hb => hResult b (List.mem_cons_of_mem _ hb)) (collect_eq_ok.mpr hRest)]

/-- Collecting under a condition: every element satisfies it, and the results are a map. -/
theorem collect_unless {p : β → Prop} [DecidablePred p] {failure : β → ε} {g : β → γ}
    {list : List β} {results : List γ} :
    collect (fun b => if p b then .error (failure b) else .ok (g b)) list = .ok results ↔
      (∀ b ∈ list, ¬p b) ∧ list.map g = results := by
  induction list generalizing results with
  | nil => simp [collect]
  | cons b rest ih =>
      rw [collect, List.forall_mem_cons, List.map_cons]
      by_cases hp : p b
      · simp [hp]
      · rw [if_neg hp]
        cases hRest : collect (fun b => if p b then .error (failure b) else .ok (g b)) rest with
        | error stop =>
            simp only [hRest, reduceCtorEq, false_iff, not_and] at ih
            have hNot : ¬∀ b ∈ rest, ¬p b := fun hAll => ih hAll rfl
            simp [Except.map, hNot]
        | ok tail =>
            rw [hRest] at ih
            obtain ⟨hAll, rfl⟩ := ih.mp rfl
            simp only [Except.map, Except.ok.injEq]
            exact (and_iff_right ⟨hp, hAll⟩).symm

/-- In a table whose entries all follow one function, a key is looked up by it. -/
theorem lookup_of_graph {κ : Type u} [BEq κ] [LawfulBEq κ] {δ : Type v} {f : κ → δ}
    {table : List (κ × δ)} (hGraph : ∀ entry ∈ table, entry.2 = f entry.1) (k : κ) :
    (k ∈ table.map Prod.fst → table.lookup k = some (f k)) ∧
      (k ∉ table.map Prod.fst → table.lookup k = none) := by
  induction table with
  | nil => simp
  | cons entry rest ih =>
      have hRest := ih fun e he => hGraph e (List.mem_cons_of_mem _ he)
      rcases entry with ⟨key, value⟩
      obtain rfl : value = f key := hGraph _ List.mem_cons_self
      rw [List.lookup_cons, List.map_cons, List.mem_cons]
      cases hSame : k == key with
      | true =>
          obtain rfl := eq_of_beq hSame
          simp
      | false =>
          have hNe : k ≠ key := ne_of_beq_false hSame
          simpa [hNe] using hRest

/-- The last position at which a partial function is defined, searched from the
end, with the value there. -/
theorem findSome_zipIdx_reverse {f : β → Option γ} (list : List β) :
    (list.zipIdx.reverse.findSome? (fun (b, i) => (f b).map (i, ·)) = none ∧
        ∀ b ∈ list, f b = none) ∨
      ∃ before b after c, list = before ++ b :: after ∧ f b = some c ∧
        (∀ x ∈ after, f x = none) ∧
        list.zipIdx.reverse.findSome? (fun (b, i) => (f b).map (i, ·)) =
          some (before.length, c) := by
  induction list using List.reverseRecOn with
  | nil => exact Or.inl ⟨rfl, by simp⟩
  | append_singleton front last ih =>
      have hZip : (front ++ [last]).zipIdx.reverse =
          (last, front.length) :: front.zipIdx.reverse := by
        simp [List.zipIdx_append]
      rw [hZip, List.findSome?_cons]
      cases hLast : f last with
      | some c => exact Or.inr ⟨front, last, [], c, rfl, hLast, by simp, by simp [hLast]⟩
      | none =>
          rcases ih with ⟨hNone, hAll⟩ | ⟨before, b, after, c, rfl, hb, hAfter, hFound⟩
          · refine Or.inl ⟨by simpa [hLast] using hNone, fun b hb => ?_⟩
            rcases List.mem_append.mp hb with hb | hb
            · exact hAll b hb
            · rw [List.mem_singleton.mp hb]
              exact hLast
          · refine Or.inr ⟨before, b, after ++ [last], c, by simp, hb, fun x hx => ?_,
              by simpa [hLast] using hFound⟩
            rcases List.mem_append.mp hx with hx | hx
            · exact hAfter x hx
            · rw [List.mem_singleton.mp hx]
              exact hLast

theorem findSome_congr {f g : β → Option γ} {list : List β} (h : ∀ b ∈ list, f b = g b) :
    list.findSome? f = list.findSome? g := by
  induction list with
  | nil => rfl
  | cons b rest ih =>
      rw [List.forall_mem_cons] at h
      rw [List.findSome?_cons, List.findSome?_cons, h.1, ih h.2]

/-- Membership in a fold that only ever adds elements. -/
theorem mem_foldl {step : List γ → β → List γ} {c : γ} (adds : β → Prop)
    (hStep : ∀ result b, c ∈ step result b ↔ c ∈ result ∨ adds b) (list : List β)
    (start : List γ) : c ∈ list.foldl step start ↔ c ∈ start ∨ ∃ b ∈ list, adds b := by
  induction list generalizing start with
  | nil => simp
  | cons b rest ih =>
      rw [List.foldl_cons, ih, hStep]
      simp only [List.mem_cons, exists_eq_or_imp, or_assoc]

/-- A fold that looks only at what `f` finds. -/
theorem foldl_found {α : Type u} {f : β → Option γ} {step : α → γ → α} {step' : α → β → α}
    (hSome : ∀ a b c, f b = some c → step' a b = step a c)
    (hNone : ∀ a b, f b = none → step' a b = a) (list : List β) (start : α) :
    list.foldl step' start = (list.filterMap f).foldl step start := by
  induction list generalizing start with
  | nil => rfl
  | cons b rest ih =>
      rw [List.foldl_cons, ih]
      cases hFound : f b with
      | none => rw [hNone _ _ hFound, List.filterMap_cons_none hFound]
      | some c => rw [hSome _ _ _ hFound, List.filterMap_cons_some hFound, List.foldl_cons]

/-- Pushing what is not yet there keeps the first occurrences. -/
theorem foldl_push_new [BEq γ] [LawfulBEq γ] (list known : List γ) :
    list.foldl (fun known c => if known.contains c then known else known ++ [c])
        known.eraseDups = (known ++ list).eraseDups := by
  induction list generalizing known with
  | nil => simp
  | cons c rest ih =>
      have hPush : (if known.eraseDups.contains c then known.eraseDups
          else known.eraseDups ++ [c]) = (known ++ [c]).eraseDups := by
        by_cases hKnown : c ∈ known
        · simp [List.eraseDups_append, List.removeAll, hKnown]
        · simp [List.eraseDups_append, List.removeAll, hKnown, List.eraseDups_cons]
      rw [List.foldl_cons, hPush, ih, List.append_assoc]
      rfl

/-- The first hit in a strictly sorted list is its least hit. -/
theorem find_sorted {list : List β} {lt : β → β → Prop} (hSorted : list.Pairwise lt)
    {p : β → Bool} {b : β} (h : list.find? p = some b) :
    b ∈ list ∧ p b = true ∧ ∀ c ∈ list, p c = true → c = b ∨ lt b c := by
  obtain ⟨hb, before, after, rfl, hBefore⟩ := List.find?_eq_some_iff_append.mp h
  refine ⟨by simp, hb, fun c hc hp => ?_⟩
  rcases List.mem_append.mp hc with hc | hc
  · have hNot := hBefore c hc
    simp [hp] at hNot
  · rcases List.mem_cons.mp hc with rfl | hc
    · exact Or.inl rfl
    · exact Or.inr ((List.pairwise_cons.mp (List.pairwise_append.mp hSorted).2.1).1 c hc)

theorem pairwise_trichotomy {list : List β} {lt : β → β → Prop} (hSorted : list.Pairwise lt)
    {b c : β} (hb : b ∈ list) (hc : c ∈ list) : b = c ∨ lt b c ∨ lt c b := by
  induction hSorted with
  | nil => exact absurd hb List.not_mem_nil
  | cons hHead hRest ih =>
      rcases List.mem_cons.mp hb with rfl | hb'
      · rcases List.mem_cons.mp hc with rfl | hc'
        · exact Or.inl rfl
        · exact Or.inr (Or.inl (hHead c hc'))
      · rcases List.mem_cons.mp hc with rfl | hc'
        · exact Or.inr (Or.inr (hHead b hb'))
        · exact ih hb' hc'

/-- Where keys are distinct, a longer prefix ends in another key. -/
theorem append_eq_nil_of_last {κ : Type w} {key : β → κ} {front middle : List β}
    (hNodup : ((front ++ middle).map key).Nodup)
    (hLast : front.getLast?.map key = (front ++ middle).getLast?.map key) : middle = [] := by
  rcases List.eq_nil_or_concat middle with rfl | ⟨middle, b, rfl⟩
  · rfl
  · exfalso
    rw [List.concat_eq_append, ← List.append_assoc, List.getLast?_concat] at hLast
    obtain ⟨c, hc, hKey⟩ := Option.map_eq_some_iff.mp hLast
    have hMem := List.mem_of_getLast? hc
    rw [List.concat_eq_append, List.map_append, List.nodup_append] at hNodup
    exact hNodup.2.2 (key c) (List.mem_map_of_mem hMem) (key b) (by simp) hKey

/-- Where keys are distinct, a prefix is determined by its last key. -/
theorem prefix_unique {κ : Type w} {key : β → κ} {front front' back back' : List β}
    (hNodup : ((front ++ back).map key).Nodup) (hSame : front ++ back = front' ++ back')
    (hLast : front.getLast?.map key = front'.getLast?.map key) :
    front = front' ∧ back = back' := by
  rcases List.append_eq_append_iff.mp hSame with ⟨middle, rfl, rfl⟩ | ⟨middle, rfl, rfl⟩
  · rw [← List.append_assoc, List.map_append] at hNodup
    obtain rfl := append_eq_nil_of_last (List.nodup_append.mp hNodup).1 hLast
    simp
  · rw [List.map_append] at hNodup
    obtain rfl := append_eq_nil_of_last (List.nodup_append.mp hNodup).1 hLast.symm
    simp

/-- Where keys are distinct, an element is found by its key. -/
theorem find_of_nodup {κ : Type w} [DecidableEq κ] {key : β → κ} {list : List β}
    (hNodup : (list.map key).Nodup) {b : β} (h : b ∈ list) :
    list.find? (fun c => decide (key c = key b)) = some b := by
  rw [List.find?_eq_some_iff_append]
  obtain ⟨before, after, rfl⟩ := List.append_of_mem h
  refine ⟨by simp, before, after, rfl, fun c hc => ?_⟩
  rw [List.map_append, List.map_cons] at hNodup
  have := (List.nodup_append.mp hNodup).2.2 (key c) (List.mem_map_of_mem hc) (key b) (by simp)
  simpa using this

/-- Where keys are distinct, the order of the elements does not matter to a search by key. -/
theorem find_perm {κ : Type w} [DecidableEq κ] {key : β → κ} {list list' : List β}
    (hPerm : list.Perm list') (hNodup : (list.map key).Nodup) (k : κ) :
    list.find? (fun b => decide (key b = k)) = list'.find? (fun b => decide (key b = k)) := by
  cases hFind : list'.find? (fun b => decide (key b = k)) with
  | none =>
      rw [List.find?_eq_none] at hFind ⊢
      intro b hb
      exact hFind b (hPerm.mem_iff.mp hb)
  | some b =>
      have hKey : key b = k := by simpa using List.find?_some hFind
      rw [← hKey]
      exact find_of_nodup hNodup (hPerm.mem_iff.mpr (List.mem_of_find?_eq_some hFind))

section Index

variable {κ : Type w} [DecidableEq κ] (key : β → κ) (duplicate : β → ε)

/-- Enter the position of every element under its key; a repeated key is an error. -/
def index : List β → Nat → List (κ × Nat) → Except ε (List (κ × Nat))
  | [], _, entries => .ok entries
  | b :: rest, position, entries =>
      match entries.lookup (key b) with
      | some _ => .error (duplicate b)
      | none => index rest (position + 1) ((key b, position) :: entries)

variable {key duplicate}

theorem lookup_cons_eq {entries : List (κ × Nat)} {k k' : κ} {position : Nat} :
    ((k, position) :: entries).lookup k' =
      if k' = k then some position else entries.lookup k' := by
  rw [List.lookup_cons]
  by_cases h : k' = k
  · simp [h]
  · have hBeq : (k' == k) = false := by simp [h]
    simp [h, hBeq]

/-- What a successful pass has entered: nothing is overwritten, keys are
distinct, and every position leads back to its element. -/
theorem index_eq_ok {list : List β} {position : Nat} {entries result : List (κ × Nat)}
    (h : index key duplicate list position entries = .ok result) :
    (list.map key).Nodup ∧ (∀ b ∈ list, entries.lookup (key b) = none) ∧
      ∀ k, result.lookup k =
        ((list.findIdx? (fun b => decide (key b = k))).map (position + ·)).or
          (entries.lookup k) := by
  induction list generalizing position entries with
  | nil =>
      obtain rfl : entries = result := by simpa [index] using h
      exact ⟨List.nodup_nil, by simp, by simp⟩
  | cons b rest ih =>
      rw [index] at h
      cases hLookup : entries.lookup (key b) with
      | some old => simp [hLookup] at h
      | none =>
          simp only [hLookup] at h
          obtain ⟨hNodup, hFresh, hResult⟩ := ih h
          have hNew : ∀ c ∈ rest, key c ≠ key b ∧ entries.lookup (key c) = none := by
            intro c hc
            have hc := hFresh c hc
            rw [lookup_cons_eq] at hc
            split_ifs at hc with he
            exact ⟨he, hc⟩
          refine ⟨?_, ?_, fun k => ?_⟩
          · rw [List.map_cons, List.nodup_cons]
            refine ⟨fun hMem => ?_, hNodup⟩
            obtain ⟨c, hc, he⟩ := List.mem_map.mp hMem
            exact (hNew c hc).1 he
          · intro c hc
            rcases List.mem_cons.mp hc with rfl | hc
            · exact hLookup
            · exact (hNew c hc).2
          · rw [hResult, lookup_cons_eq, List.findIdx?_cons]
            by_cases hk : key b = k
            · have hNone : rest.findIdx? (fun c => decide (key c = k)) = none := by
                rw [List.findIdx?_eq_none_iff]
                intro c hc
                simpa [hk] using (hNew c hc).1
              simp [hk, hNone]
            · have hShift : ∀ found : Option Nat,
                  found.map (position + 1 + ·) = (found.map (· + 1)).map (position + ·) := by
                intro found
                cases found with
                | none => rfl
                | some n => simp only [Option.map_some, Option.some.injEq]; omega
              simp [hk, Ne.symm hk, hShift]

/-- A list with distinct keys, none of them entered before, is indexed. -/
theorem index_of_nodup {list : List β} {position : Nat} {entries : List (κ × Nat)}
    (hNodup : (list.map key).Nodup) (hFresh : ∀ b ∈ list, entries.lookup (key b) = none) :
    ∃ result, index key duplicate list position entries = .ok result := by
  induction list generalizing position entries with
  | nil => exact ⟨entries, rfl⟩
  | cons b rest ih =>
      rw [List.map_cons, List.nodup_cons] at hNodup
      rw [List.forall_mem_cons] at hFresh
      rw [index, hFresh.1]
      apply ih hNodup.2
      intro c hc
      have hNe : key c ≠ key b := fun hSame => hNodup.1 (hSame ▸ List.mem_map_of_mem hc)
      rw [lookup_cons_eq, if_neg hNe]
      exact hFresh.2 c hc

/-- The index knows exactly the keys of the list. -/
theorem index_isSome {list : List β} {result : List (κ × Nat)}
    (h : index key duplicate list 0 [] = .ok result) (k : κ) :
    (result.lookup k).isSome = (list.find? fun b => decide (key b = k)).isSome := by
  obtain ⟨-, -, hResult⟩ := index_eq_ok h
  rw [hResult, Bool.eq_iff_iff]
  simp

/-- A position is entered under the key of its element and under no other. -/
theorem index_at {list : List β} {result : List (κ × Nat)}
    (h : index key duplicate list 0 [] = .ok result) {position : Nat} {b : β}
    (hAt : list[position]? = some b) (k : κ) :
    result.lookup k = some position ↔ key b = k := by
  obtain ⟨hNodup, -, hResult⟩ := index_eq_ok h
  obtain ⟨hPosition, rfl⟩ := List.getElem?_eq_some_iff.mp hAt
  have hLookup : result.lookup k = list.findIdx? fun b => decide (key b = k) := by
    simp [hResult]
  rw [hLookup, List.findIdx?_eq_some_iff_getElem]
  constructor
  · rintro ⟨_, hKey, -⟩
    exact of_decide_eq_true hKey
  · intro hKey
    refine ⟨hPosition, by simp [hKey], fun j hj => ?_⟩
    simp only [decide_eq_true_eq]
    intro hSame
    have hEq : (list.map key)[j]? = (list.map key)[position]? := by
      have hBound : j < list.length := hj.trans hPosition
      simp [hBound, hPosition, hSame, hKey]
    have hPos : j < (list.map key).length := by
      rw [List.length_map]
      exact hj.trans hPosition
    exact absurd ((List.getElem?_inj hPos hNodup).mp hEq) (Nat.ne_of_lt hj)

/-- Looking a key up through the index finds the element with that key. -/
theorem index_find {list : List β} {result : List (κ × Nat)}
    (h : index key duplicate list 0 [] = .ok result) (k : κ) :
    (result.lookup k).bind (list[·]?) = list.find? (fun b => decide (key b = k)) := by
  obtain ⟨-, -, hResult⟩ := index_eq_ok h
  rw [hResult, List.find?_eq_bind_findIdx?_getElem?]
  simp

end Index
end Check

import Mathlib.Data.List.Nodup
import Mathlib.Data.List.Perm.Basic
import Mathlib.Data.List.Sort

/-! Finite maps with distinct keys, in the order in which the keys were entered. -/

universe u v w

structure Table (κ : Type u) (α : Type v) where
  entries : List (κ × α)
  distinct : (entries.map Prod.fst).Nodup

namespace Table

variable {κ : Type u} {α : Type v} {β : Type w}

theorem ext_entries {t t' : Table κ α} (h : t.entries = t'.entries) : t = t' := by
  cases t
  cases t'
  subst h
  rfl

def empty : Table κ α := ⟨[], List.nodup_nil⟩

def size (t : Table κ α) : Nat := t.entries.length

theorem entries_nodup (t : Table κ α) : t.entries.Nodup := t.distinct.of_map _

def keys (t : Table κ α) : List κ := t.entries.map Prod.fst

/-- Apply a function to every value. -/
def map (f : α → α) (t : Table κ α) : Table κ α where
  entries := t.entries.map fun entry => (entry.1, f entry.2)
  distinct := by
    rw [List.map_map]
    exact t.distinct

/-- The entries by ascending key: the order in which an ordered map is iterated. -/
def inOrder [LinearOrder κ] (t : Table κ α) : List (κ × α) :=
  t.entries.insertionSort fun a b => a.1 ≤ b.1

theorem inOrder_perm [LinearOrder κ] (t : Table κ α) : t.inOrder.Perm t.entries :=
  List.perm_insertionSort _ _

theorem inOrder_ascending [LinearOrder κ] (t : Table κ α) :
    t.inOrder.Pairwise fun a b => a.1 < b.1 := by
  have hSorted : t.inOrder.Pairwise fun a b => a.1 ≤ b.1 := by
    have : Std.Total fun a b : κ × α => a.1 ≤ b.1 := ⟨fun a b => le_total a.1 b.1⟩
    have : IsTrans (κ × α) fun a b => a.1 ≤ b.1 := ⟨fun a b c => le_trans⟩
    exact List.pairwise_insertionSort _ _
  have hDistinct : t.inOrder.Pairwise fun a b => a.1 ≠ b.1 :=
    List.pairwise_map.mp ((t.inOrder_perm.map Prod.fst).nodup_iff.mpr t.distinct)
  exact hSorted.imp₂ (fun _ _ => lt_of_le_of_ne) hDistinct

@[simp] theorem size_map (f : α → α) (t : Table κ α) : (t.map f).size = t.size := by
  rw [size, size, map, List.length_map]

variable [DecidableEq κ]

def get (t : Table κ α) (k : κ) : Option α := t.entries.lookup k

/-- Apply a function to the value under one key, if it is there. -/
def modify (t : Table κ α) (k : κ) (f : α → α) : Table κ α where
  entries := t.entries.map fun entry => (entry.1, if entry.1 = k then f entry.2 else entry.2)
  distinct := by
    rw [List.map_map]
    exact t.distinct

theorem get_eq_none {t : Table κ α} {k : κ} : t.get k = none ↔ k ∉ t.keys := by
  rw [get, keys, List.lookup_eq_none_iff]
  simp only [List.mem_map, bne_iff_ne, ne_eq, not_exists, not_and]
  apply forall_congr'
  intro entry
  rw [eq_comm]

/-- Enter a key that is not there. -/
def insert (t : Table κ α) (k : κ) (a : α) (h : t.get k = none) : Table κ α where
  entries := t.entries ++ [(k, a)]
  distinct := by
    rw [List.map_append, List.map_singleton, List.nodup_append]
    refine ⟨t.distinct, List.nodup_singleton k, ?_⟩
    rintro k' hk' other hOther rfl
    rw [List.mem_singleton] at hOther
    subst hOther
    exact get_eq_none.mp h hk'

/-- Enter a value, in the place of the one that is there. -/
def put (t : Table κ α) (k : κ) (a : α) : Table κ α :=
  if h : t.get k = none then t.insert k a h else t.modify k fun _ => a

def erase (t : Table κ α) (k : κ) : Table κ α where
  entries := t.entries.filter (·.1 ≠ k)
  distinct := t.distinct.sublist (List.filter_sublist.map _)

@[simp] theorem get_empty (k : κ) : (empty : Table κ α).get k = none := rfl

/-- Looking up after every value was replaced by a function of its key and itself. -/
theorem lookup_map (g : κ → α → α) (entries : List (κ × α)) (k : κ) :
    (entries.map fun entry => (entry.1, g entry.1 entry.2)).lookup k =
      (entries.lookup k).map (g k) := by
  induction entries with
  | nil => rfl
  | cons entry rest ih =>
      rw [List.map_cons, List.lookup_cons, List.lookup_cons]
      by_cases h : k = entry.1
      · subst h
        simp
      · rw [beq_false_of_ne h]
        exact ih

theorem get_map (f : α → α) (t : Table κ α) (k : κ) : (t.map f).get k = (t.get k).map f :=
  lookup_map (fun _ => f) t.entries k

theorem get_modify (t : Table κ α) (k k' : κ) (f : α → α) :
    (t.modify k f).get k' = (t.get k').map fun a => if k' = k then f a else a :=
  lookup_map (fun key a => if key = k then f a else a) t.entries k'

theorem get_of_mem {t : Table κ α} {k : κ} {a : α} (h : (k, a) ∈ t.entries) :
    t.get k = some a := by
  obtain ⟨before, after, hSplit⟩ := List.append_of_mem h
  have hDistinct := t.distinct
  rw [hSplit, List.map_append, List.map_cons, List.nodup_append] at hDistinct
  rw [get, List.lookup_eq_some_iff]
  refine ⟨before, after, hSplit, fun entry hEntry => ?_⟩
  have hOther := hDistinct.2.2 entry.1 (List.mem_map_of_mem hEntry) k (by simp)
  simpa using Ne.symm hOther

theorem mem_entries {t : Table κ α} {k : κ} {a : α} : (k, a) ∈ t.entries ↔ t.get k = some a := by
  constructor
  · exact get_of_mem
  · intro h
    rw [get, List.lookup_eq_some_iff] at h
    obtain ⟨before, after, hSplit, -⟩ := h
    simp [hSplit]

theorem modify_modify (t : Table κ α) (k : κ) (f g : α → α) :
    (t.modify k f).modify k g = t.modify k fun a => g (f a) := by
  apply ext_entries
  simp only [modify, List.map_map]
  apply List.map_congr_left
  intro entry _
  by_cases hKey : entry.1 = k <;> simp [hKey]

/-- Only the value under the key matters. -/
theorem modify_congr {t : Table κ α} {k : κ} {f g : α → α}
    (h : ∀ a, t.get k = some a → f a = g a) : t.modify k f = t.modify k g := by
  apply ext_entries
  apply List.map_congr_left
  rintro ⟨key, a⟩ hEntry
  by_cases hKey : key = k
  · subst hKey
    simp [h a (get_of_mem hEntry)]
  · simp [hKey]

theorem get_modify_self (t : Table κ α) (k : κ) (f : α → α) :
    (t.modify k f).get k = (t.get k).map f := by
  simp [get_modify]

theorem get_modify_ne (t : Table κ α) {k k' : κ} (h : k' ≠ k) (f : α → α) :
    (t.modify k f).get k' = t.get k' := by
  simp [get_modify, h]

theorem get_insert (t : Table κ α) (k k' : κ) (a : α) (h : t.get k = none) :
    (t.insert k a h).get k' = if k' = k then some a else t.get k' := by
  have hAbsent : ∀ entries : List (κ × α), entries.lookup k = none →
      (entries ++ [(k, a)]).lookup k' = if k' = k then some a else entries.lookup k' := by
    intro entries hNone
    rw [List.lookup_append]
    by_cases hk : k' = k
    · subst hk
      rw [hNone, if_pos rfl]
      simp
    · rw [if_neg hk, List.lookup_cons, beq_false_of_ne hk]
      exact Option.or_none
  exact hAbsent t.entries h

theorem put_absent {t : Table κ α} {k : κ} (h : t.get k = none) (a : α) :
    t.put k a = t.insert k a h := dif_pos h

theorem get_put (t : Table κ α) (k k' : κ) (a : α) :
    (t.put k a).get k' = if k' = k then some a else t.get k' := by
  rw [put]
  split_ifs with hAbsent hKey hKey
  · rw [get_insert, if_pos hKey]
  · rw [get_insert, if_neg hKey]
  · subst hKey
    rw [get_modify_self]
    obtain ⟨b, hb⟩ := Option.ne_none_iff_exists'.mp hAbsent
    rw [hb]
    rfl
  · exact get_modify_ne t hKey _

theorem get_erase (t : Table κ α) (k k' : κ) :
    (t.erase k).get k' = if k' = k then none else t.get k' := by
  show (t.entries.filter (·.1 ≠ k)).lookup k' = if k' = k then none else t.entries.lookup k'
  induction t.entries with
  | nil => simp
  | cons entry rest ih =>
      rw [List.filter_cons, List.lookup_cons]
      by_cases hEntry : entry.1 = k
      · rw [if_neg (by simpa using hEntry), ih]
        by_cases hKey : k' = k
        · rw [if_pos hKey, if_pos hKey]
        · rw [if_neg hKey, if_neg hKey, beq_false_of_ne (hEntry ▸ hKey)]
      · rw [if_pos (by simpa using hEntry), List.lookup_cons, ih]
        by_cases hKey : k' = k
        · rw [if_pos hKey, if_pos hKey, beq_false_of_ne (hKey ▸ Ne.symm hEntry)]
        · rw [if_neg hKey, if_neg hKey]

theorem get_put_eq (t : Table κ α) (k : κ) (a : α) :
    (t.put k a).get = Function.update t.get k (some a) := by
  funext k'
  rw [get_put, Function.update_apply]

theorem get_erase_eq (t : Table κ α) (k : κ) :
    (t.erase k).get = Function.update t.get k none := by
  funext k'
  rw [get_erase, Function.update_apply]

@[simp] theorem size_modify (t : Table κ α) (k : κ) (f : α → α) :
    (t.modify k f).size = t.size := by
  rw [size, size, modify, List.length_map]

@[simp] theorem size_insert (t : Table κ α) (k : κ) (a : α) (h : t.get k = none) :
    (t.insert k a h).size = t.size + 1 := by
  rw [size, size, insert, List.length_append, List.length_singleton]

theorem eq_empty {t : Table κ α} (h : ∀ k, t.get k = none) : t = empty := by
  apply ext_entries
  apply List.eq_nil_iff_forall_not_mem.mpr
  intro entry hEntry
  exact get_eq_none.mp (h entry.1) (List.mem_map.mpr ⟨entry, hEntry, rfl⟩)

/-- What is erased is what was found. -/
theorem erase_perm {t : Table κ α} {k : κ} {a : α} (h : t.get k = some a) :
    ((t.erase k).entries ++ [(k, a)]).Perm t.entries := by
  have hLists : ∀ entries : List (κ × α), (entries.map Prod.fst).Nodup →
      entries.lookup k = some a → (entries.filter (·.1 ≠ k) ++ [(k, a)]).Perm entries := by
    intro entries
    induction entries with
    | nil =>
        intro _ hFound
        cases hFound
    | cons entry rest ih =>
        rcases entry with ⟨k', b⟩
        intro hDistinct hFound
        rw [List.map_cons, List.nodup_cons] at hDistinct
        rw [List.lookup_cons] at hFound
        by_cases hSame : k = k'
        · subst hSame
          rw [beq_self_eq_true] at hFound
          obtain rfl := Option.some.inj hFound
          have hRest : rest.filter (·.1 ≠ k) = rest := by
            rw [List.filter_eq_self]
            intro entry hEntry
            simp only [ne_eq, decide_eq_true_eq]
            rintro rfl
            exact hDistinct.1 (List.mem_map.mpr ⟨entry, hEntry, rfl⟩)
          rw [List.filter_cons, if_neg (by simp), hRest]
          exact List.perm_append_singleton _ _
        · rw [beq_false_of_ne hSame] at hFound
          rw [List.filter_cons, if_pos (by simpa using Ne.symm hSame), List.cons_append]
          exact (ih hDistinct.2 hFound).cons _
  exact hLists t.entries t.distinct h

theorem entries_perm {t t' : Table κ α} (h : ∀ k, t.get k = t'.get k) :
    t.entries.Perm t'.entries := by
  rw [List.perm_ext_iff_of_nodup t.entries_nodup t'.entries_nodup]
  rintro ⟨k, a⟩
  rw [mem_entries, mem_entries, h]

/-- What is entered stands beside what was under other keys. -/
theorem put_perm (t : Table κ α) (k : κ) (a : α) :
    (t.put k a).entries.Perm ((k, a) :: (t.erase k).entries) := by
  have hFound : (t.put k a).get k = some a := by rw [get_put, if_pos rfl]
  have hRest : ((t.put k a).erase k).entries.Perm (t.erase k).entries := by
    apply entries_perm
    intro k'
    rw [get_erase, get_erase, get_put]
    split_ifs <;> rfl
  exact (erase_perm hFound).symm.trans ((List.perm_append_singleton _ _).trans (hRest.cons _))

theorem size_erase_le (t : Table κ α) (k : κ) : (t.erase k).size ≤ t.size :=
  List.length_filter_le _ _

@[simp] theorem keys_modify (t : Table κ α) (k : κ) (f : α → α) :
    (t.modify k f).keys = t.keys := by
  rw [keys, keys, modify, List.map_map]
  rfl

/-- Tables with the same keys in the same order are equal when they hold the same values. -/
theorem ext_get {t t' : Table κ α} (hKeys : t.keys = t'.keys) (hGet : ∀ k, t.get k = t'.get k) :
    t = t' := by
  apply ext_entries
  have hLists : ∀ entries entries' : List (κ × α), (entries.map Prod.fst).Nodup →
      entries.map Prod.fst = entries'.map Prod.fst →
      (∀ k, entries.lookup k = entries'.lookup k) → entries = entries' := by
    intro entries
    induction entries with
    | nil =>
        intro entries' _ hKeys _
        exact (List.map_eq_nil_iff.mp hKeys.symm).symm
    | cons entry rest ih =>
        intro entries' hNodup hKeys hLookup
        cases entries' with
        | nil => simp at hKeys
        | cons entry' rest' =>
            rcases entry with ⟨k, a⟩
            rcases entry' with ⟨k', a'⟩
            simp only [List.map_cons, List.cons.injEq, List.nodup_cons] at hKeys hNodup
            obtain ⟨rfl, hKeys⟩ := hKeys
            have hHead := hLookup k
            simp only [List.lookup_cons, beq_self_eq_true, Option.some.injEq] at hHead
            rw [hHead, ih rest' hNodup.2 hKeys]
            intro key
            by_cases h : key = k
            · subst h
              have hAbsent : ∀ list : List (κ × α), key ∉ list.map Prod.fst →
                  list.lookup key = none := by
                intro list hKey
                rw [List.lookup_eq_none_iff]
                intro entry hEntry
                simp only [bne_iff_ne, ne_eq]
                rintro rfl
                exact hKey (List.mem_map_of_mem hEntry)
              rw [hAbsent rest hNodup.1, hAbsent rest' (hKeys ▸ hNodup.1)]
            · have hKey := hLookup key
              simpa only [List.lookup_cons, beq_false_of_ne h] using hKey
  exact hLists t.entries t'.entries t.distinct hKeys hGet

end Table

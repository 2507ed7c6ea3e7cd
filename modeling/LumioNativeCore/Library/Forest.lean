import Mathlib.Tactic
import Mathlib.Logic.Relation

/-! Forests given by a link function, such as the parent of a node. A rank that
falls along every link makes each trail finite; the deepest common strict
ancestor of two nodes is then the first shared node of their trails, moved up
once when it is one of the two. -/
namespace Forest

universe u
variable {α : Type u} (next : α → Option α)

/-- The cursor values of a loop that follows the links, at most `fuel` of them. -/
def walk : Nat → Option α → List α
  | 0, _ => []
  | _ + 1, none => []
  | fuel + 1, some a => a :: walk fuel (next a)

/-- The rank falls along every link. -/
def Falls (rank : α → Nat) : Prop := ∀ a b, next a = some b → rank b < rank a

/-- `b` is `a` itself or is reached from `a` by following links. -/
def Reaches (a b : α) : Prop := Relation.ReflTransGen (fun x y => next x = some y) a b

/-- `b` is reached from `a` by following at least one link. -/
def Above (a b : α) : Prop := Relation.TransGen (fun x y => next x = some y) a b

/-- The complete trail of a node under a falling rank. -/
def trail (rank : α → Nat) (a : α) : List α := walk next (rank a + 1) (some a)

@[simp] theorem walk_none (fuel : Nat) : walk next fuel none = [] := by
  cases fuel <;> rfl

variable {next} {rank : α → Nat}

/-- Fuel beyond the rank of the start changes nothing. -/
theorem Falls.walk_eq (falls : Falls next rank) {fuel : Nat} {a : α} (h : rank a < fuel) :
    walk next fuel (some a) = trail next rank a := by
  induction fuel using Nat.strong_induction_on generalizing a with
  | _ fuel ih =>
      cases fuel with
      | zero => exact absurd h (Nat.not_lt_zero _)
      | succ fuel =>
          change a :: walk next fuel (next a) = a :: walk next (rank a) (next a)
          cases hNext : next a with
          | none => simp
          | some b =>
              have hFall := falls a b hNext
              rw [ih fuel (Nat.lt_succ_self _) (by omega), ih (rank a) h hFall]

theorem Falls.trail_cons (falls : Falls next rank) {a b : α} (h : next a = some b) :
    trail next rank a = a :: trail next rank b := by
  change a :: walk next (rank a) (next a) = _
  rw [h, falls.walk_eq (falls a b h)]

theorem trail_last {a : α} (h : next a = none) : trail next rank a = [a] := by
  change a :: walk next (rank a) (next a) = _
  rw [h, walk_none]

theorem mem_trail_self (a : α) : a ∈ trail next rank a := List.mem_cons_self

/-- Induction from the roots down: a fact that holds of a node whenever it holds
of the node its link points to. -/
theorem Falls.induction (falls : Falls next rank) {property : α → Prop}
    (hStep : ∀ a, (∀ b, next a = some b → property b) → property a) (a : α) : property a := by
  induction h : rank a using Nat.strong_induction_on generalizing a with
  | _ n ih => exact hStep a fun b hb => ih (rank b) (h ▸ falls a b hb) b rfl

theorem Falls.mem_trail (falls : Falls next rank) {a b : α} :
    b ∈ trail next rank a ↔ Reaches next a b := by
  induction a using falls.induction with
  | hStep a ih =>
      cases hNext : next a with
      | none =>
          rw [trail_last hNext, List.mem_singleton]
          constructor
          · rintro rfl
            exact Relation.ReflTransGen.refl
          · intro h
            cases Relation.ReflTransGen.cases_head h with
            | inl he => exact he.symm
            | inr he =>
                rcases he with ⟨c, hc, -⟩
                simp [hNext] at hc
      | some c =>
          rw [falls.trail_cons hNext, List.mem_cons, ih c hNext]
          constructor
          · rintro (rfl | h)
            · exact Relation.ReflTransGen.refl
            · exact Relation.ReflTransGen.head hNext h
          · intro h
            cases Relation.ReflTransGen.cases_head h with
            | inl he => exact Or.inl he.symm
            | inr he =>
                rcases he with ⟨d, hd, hRest⟩
                obtain rfl : c = d := Option.some.inj (hNext.symm.trans hd)
                exact Or.inr hRest

theorem Falls.rank_le (falls : Falls next rank) {a b : α} (h : Reaches next a b) :
    rank b ≤ rank a := by
  induction h with
  | refl => exact Nat.le_refl _
  | tail _ last ih => exact (falls _ _ last).le.trans ih

theorem Falls.rank_lt (falls : Falls next rank) {a b : α} (h : Above next a b) :
    rank b < rank a := by
  cases h with
  | single hNext => exact falls _ _ hNext
  | tail prior last => exact (falls _ _ last).trans_le (falls.rank_le prior.to_reflTransGen)

/-- Ranks fall strictly along a trail. -/
theorem Falls.trail_pairwise (falls : Falls next rank) (a : α) :
    (trail next rank a).Pairwise fun x y => rank y < rank x := by
  induction a using falls.induction with
  | hStep a ih =>
      cases hNext : next a with
      | none =>
          rw [trail_last hNext]
          exact List.pairwise_singleton _ _
      | some b =>
          rw [falls.trail_cons hNext]
          refine List.pairwise_cons.mpr ⟨fun c hc => ?_, ih b hNext⟩
          exact (falls.rank_le (falls.mem_trail.mp hc)).trans_lt (falls a b hNext)

theorem Falls.trail_nodup (falls : Falls next rank) (a : α) : (trail next rank a).Nodup :=
  (falls.trail_pairwise a).imp fun h he => absurd h (by rw [he]; exact Nat.lt_irrefl _)

/-- A trail of a node of rank `n` has at most `n + 1` nodes. -/
theorem Falls.trail_length_le (falls : Falls next rank) (a : α) :
    (trail next rank a).length ≤ rank a + 1 := by
  induction a using falls.induction with
  | hStep a ih =>
      cases hNext : next a with
      | none => simp [trail_last hNext]
      | some b =>
          rw [falls.trail_cons hNext, List.length_cons]
          have := ih b hNext
          have := falls a b hNext
          omega

/-- The nodes reached from one node are linearly ordered. -/
theorem Falls.reaches_total (falls : Falls next rank) {a b c : α}
    (hb : Reaches next a b) (hc : Reaches next a c) : Reaches next b c ∨ Reaches next c b := by
  induction a using falls.induction with
  | hStep a ih =>
      cases Relation.ReflTransGen.cases_head hb with
      | inl he => exact Or.inl (he ▸ hc)
      | inr hHead =>
          rcases hHead with ⟨d, hd, hdb⟩
          cases Relation.ReflTransGen.cases_head hc with
          | inl he => exact Or.inr (he ▸ hb)
          | inr hHead =>
              rcases hHead with ⟨e, he, hec⟩
              obtain rfl : d = e := Option.some.inj (hd.symm.trans he)
              exact ih d hd hdb hec

theorem above_iff {a b : α} :
    Above next a b ↔ ∃ c, next a = some c ∧ Reaches next c b :=
  Relation.TransGen.head'_iff

theorem Above.reaches {a b : α} (h : Above next a b) : Reaches next a b :=
  h.to_reflTransGen

theorem reaches_iff_eq_or_above {a b : α} :
    Reaches next a b ↔ b = a ∨ Above next a b :=
  Relation.reflTransGen_iff_eq_or_transGen

/-- Nodes that reach each other are the same. -/
theorem Falls.reaches_antisymm (falls : Falls next rank) {a b : α}
    (hab : Reaches next a b) (hba : Reaches next b a) : a = b := by
  rcases reaches_iff_eq_or_above.mp hab with rfl | hAbove
  · rfl
  · have := falls.rank_lt hAbove
    have := falls.rank_le hba
    omega

/-! Links without cycles. -/

open Classical in
/-- How many of the known nodes are above one. -/
noncomputable def countAbove (next : α → Option α) (known : Finset α) (a : α) : Nat :=
  (known.filter fun b => Above next a b).card

/-- Where no node is above itself and every link leads to a known node, the number of nodes
above falls along every link. -/
theorem falls_of_acyclic {known : Finset α} (hAcyclic : ∀ a, ¬Above next a a)
    (hKnown : ∀ a b, next a = some b → b ∈ known) : Falls next (countAbove next known) := by
  classical
  intro a b hNext
  apply Finset.card_lt_card
  rw [Finset.ssubset_iff_of_subset]
  · refine ⟨b, ?_, ?_⟩
    · rw [Finset.mem_filter]
      exact ⟨hKnown a b hNext, Relation.TransGen.single hNext⟩
    · rw [Finset.mem_filter]
      exact fun hMem => hAcyclic b hMem.2
  · intro c hMem
    rw [Finset.mem_filter] at hMem ⊢
    exact ⟨hMem.1, Relation.TransGen.head hNext hMem.2⟩

theorem countAbove_lt {known : Finset α} (hAcyclic : ∀ a, ¬Above next a a) {a : α}
    (ha : a ∈ known) : countAbove next known a < known.card := by
  classical
  apply Finset.card_lt_card
  rw [Finset.ssubset_iff_of_subset (Finset.filter_subset _ _)]
  refine ⟨a, ha, ?_⟩
  rw [Finset.mem_filter]
  exact fun hMem => hAcyclic a hMem.2

/-! Partial trails. -/

/-- `nodes` are the cursor values from `start` up to and without `stop`; with
`stop = none` the whole trail. -/
inductive Ascent (next : α → Option α) (stop : Option α) : Option α → List α → Prop where
  | nil : Ascent next stop stop []
  | cons {a : α} {rest : List α} (hStop : some a ≠ stop) (hRest : Ascent next stop (next a) rest) :
      Ascent next stop (some a) (a :: rest)

theorem Ascent.unique {stop start : Option α} {first second : List α}
    (left : Ascent next stop start first) (right : Ascent next stop start second) :
    first = second := by
  induction left generalizing second with
  | nil =>
      cases right with
      | nil => rfl
      | cons hStop hRest => exact absurd rfl hStop
  | cons hStop hRest ih =>
      cases right with
      | nil => exact absurd rfl hStop
      | cons hStop' hRest' => rw [ih hRest']

theorem Falls.ascent_trail (falls : Falls next rank) (a : α) :
    Ascent next none (some a) (trail next rank a) := by
  induction a using falls.induction with
  | hStep a ih =>
      cases hNext : next a with
      | none =>
          rw [trail_last hNext]
          exact Ascent.cons (Option.some_ne_none _) (hNext ▸ Ascent.nil)
      | some b =>
          rw [falls.trail_cons hNext]
          exact Ascent.cons (Option.some_ne_none _) (hNext ▸ ih b hNext)

theorem Ascent.reaches {stop : Option α} {a : α} {nodes : List α}
    (ascent : Ascent next stop (some a) nodes) :
    (∀ b ∈ nodes, Reaches next a b) ∧ ∀ d, stop = some d → Reaches next a d := by
  generalize hStart : some a = start at ascent
  induction ascent generalizing a with
  | nil =>
      refine ⟨List.forall_mem_nil _, fun d hd => ?_⟩
      obtain rfl := Option.some.inj (hStart.trans hd)
      exact Relation.ReflTransGen.refl
  | @cons c rest hStop hRest ih =>
      obtain rfl := Option.some.inj hStart
      cases hNext : next a with
      | none =>
          rw [hNext] at hRest
          cases hRest with
          | nil =>
              refine ⟨?_, fun d hd => by cases hd⟩
              intro b hb
              rw [List.mem_singleton.mp hb]
              exact Relation.ReflTransGen.refl
      | some c =>
          obtain ⟨hNodes, hEnd⟩ := ih hNext.symm
          refine ⟨?_, fun d hd => Relation.ReflTransGen.head hNext (hEnd d hd)⟩
          intro b hb
          rcases List.mem_cons.mp hb with rfl | hb
          · exact Relation.ReflTransGen.refl
          · exact Relation.ReflTransGen.head hNext (hNodes b hb)

/-- The rank falls along an ascent and stays above the rank of its stop. -/
theorem Falls.ascent_pairwise (falls : Falls next rank) {stop start : Option α} {nodes : List α}
    (ascent : Ascent next stop start nodes) :
    nodes.Pairwise (fun a b => rank b < rank a) ∧
      ∀ d, stop = some d → ∀ a ∈ nodes, rank d < rank a := by
  induction ascent with
  | nil => exact ⟨List.Pairwise.nil, fun _ _ => List.forall_mem_nil _⟩
  | @cons a rest hStop hRest ih =>
      have hSelf : Reaches next a a := Relation.ReflTransGen.refl
      refine ⟨List.pairwise_cons.mpr ⟨fun b hb => ?_, ih.1⟩, fun d hd => ?_⟩
      · cases hNext : next a with
        | none =>
            rw [hNext] at hRest
            cases hRest
            exact absurd hb List.not_mem_nil
        | some c =>
            rw [hNext] at hRest
            exact (falls.rank_le (hRest.reaches.1 b hb)).trans_lt (falls a c hNext)
      · rw [List.forall_mem_cons]
        refine ⟨?_, ih.2 d hd⟩
        have hReach := (Ascent.cons hStop hRest).reaches.2 d hd
        rcases reaches_iff_eq_or_above.mp hReach with rfl | hAbove
        · exact absurd hd.symm hStop
        · exact falls.rank_lt hAbove

theorem Falls.ascent_nodup (falls : Falls next rank) {stop start : Option α} {nodes : List α}
    (ascent : Ascent next stop start nodes) : nodes.Nodup := by
  apply (falls.ascent_pairwise ascent).1.imp
  rintro a b hLess rfl
  exact Nat.lt_irrefl _ hLess

/-- An ascent to a node and one from there on make one ascent. -/
theorem Falls.ascent_trans (falls : Falls next rank) {stop start : Option α} {c : α}
    {lower upper : List α} (hLower : Ascent next (some c) start lower)
    (hUpper : Ascent next stop (some c) upper) : Ascent next stop start (lower ++ upper) := by
  have hNot : ∀ a ∈ lower, some a ≠ stop := by
    intro a ha hStop
    have hRank := (falls.ascent_pairwise hLower).2 c rfl a ha
    have hReach := falls.rank_le (hUpper.reaches.2 a hStop.symm)
    omega
  generalize hMiddle : some c = middle at hLower
  induction hLower with
  | nil => exact hMiddle ▸ hUpper
  | @cons a rest hStop hRest ih =>
      rw [List.forall_mem_cons] at hNot
      exact .cons hNot.1 (ih hNot.2)

/-- The part of an ascent below one of its nodes ends there. -/
theorem Falls.ascent_below (falls : Falls next rank) {stop start : Option α} {c : α}
    {lower upper : List α} (ascent : Ascent next stop start (lower ++ c :: upper)) :
    Ascent next (some c) start lower := by
  induction lower generalizing start with
  | nil =>
      cases ascent with
      | cons => exact .nil
  | cons a rest ih =>
      have hNodup := falls.ascent_nodup ascent
      cases ascent with
      | cons hStop hRest =>
          refine .cons ?_ (ih hRest)
          intro hSame
          obtain rfl := Option.some.inj hSame
          exact (List.nodup_cons.mp hNodup).1 (by simp)

/-- An ascent that ends passes every node once. -/
theorem Ascent.nodup {start : Option α} {nodes : List α} (ascent : Ascent next none start nodes) :
    nodes.Nodup := by
  have hFrom : ∀ {start nodes}, Ascent next none start nodes → ∀ a ∈ nodes, ∃ front back,
      nodes = front ++ a :: back ∧ Ascent next none (some a) (a :: back) := by
    intro start nodes ascent
    induction ascent with
    | nil => exact List.forall_mem_nil _
    | @cons c rest hStop hRest ih =>
        rw [List.forall_mem_cons]
        refine ⟨⟨[], rest, rfl, .cons hStop hRest⟩, fun a ha => ?_⟩
        obtain ⟨front, back, rfl, hAgain⟩ := ih a ha
        exact ⟨c :: front, back, rfl, hAgain⟩
  induction ascent with
  | nil => exact List.nodup_nil
  | @cons a rest hStop hRest ih =>
      rw [List.nodup_cons]
      refine ⟨fun ha => ?_, ih⟩
      obtain ⟨front, back, hSplit, hAgain⟩ := hFrom hRest a ha
      obtain rfl := (List.cons.inj ((Ascent.cons hStop hRest).unique hAgain)).2
      have hLength := congrArg List.length hSplit
      rw [List.length_append, List.length_cons] at hLength
      omega

/-- A node that reaches another has an ascent to it. -/
theorem exists_ascent_of_reaches {a c : α} (h : Reaches next a c) :
    ∃ nodes, Ascent next (some c) (some a) nodes := by
  induction h using Relation.ReflTransGen.head_induction_on with
  | refl => exact ⟨[], .nil⟩
  | @head a b hNext _ ih =>
      obtain ⟨nodes, hAscent⟩ := ih
      by_cases hEnd : some a = some c
      · exact ⟨[], hEnd ▸ .nil⟩
      · exact ⟨a :: nodes, .cons hEnd (hNext ▸ hAscent)⟩

/-- A complete ascent ends at a node without a link. -/
theorem Ascent.top {a : α} {nodes : List α} (ascent : Ascent next none (some a) nodes) :
    ∃ front top, nodes = front ++ [top] ∧ next top = none ∧
      Ascent next (some top) (some a) front := by
  generalize hStart : some a = start at ascent
  induction ascent generalizing a with
  | nil => cases hStart
  | @cons c rest hStop hRest ih =>
      obtain rfl := Option.some.inj hStart
      cases hNext : next a with
      | none =>
          rw [hNext] at hRest
          cases hRest with
          | nil => exact ⟨[], a, rfl, hNext, .nil⟩
      | some b =>
          obtain ⟨front, top, rfl, hTop, hFront⟩ := ih hNext.symm
          refine ⟨a :: front, top, rfl, hTop, .cons ?_ (hNext.symm ▸ hFront)⟩
          intro hSame
          rw [← Option.some.inj hSame, hNext] at hTop
          cases hTop

/-- Each node of the list links to the one before it, the first to `prev`. -/
def Linked (next : α → Option α) : Option α → List α → Prop
  | _, [] => True
  | prev, a :: rest => next a = prev ∧ Linked next (some a) rest

theorem linked_append {prev : Option α} {first second : List α} :
    Linked next prev (first ++ second) ↔
      Linked next prev first ∧ Linked next (first.getLast?.or prev) second := by
  induction first generalizing prev with
  | nil => simp [Linked]
  | cons a rest ih =>
      rw [List.cons_append, Linked, Linked, ih, and_assoc, List.getLast?_cons]
      cases rest.getLast? <;> simp

/-- A list that is linked from the root down is an ascent from its last node. -/
theorem Linked.ascent {prev : Option α} {list above : List α} (linked : Linked next prev list)
    (hAbove : Ascent next none prev above) :
    Ascent next none (list.getLast?.or prev) (list.reverse ++ above) := by
  induction list generalizing prev above with
  | nil => exact hAbove
  | cons a rest ih =>
      rcases linked with ⟨rfl, hRest⟩
      rw [List.reverse_cons, List.append_assoc, List.getLast?_cons]
      have := ih hRest (Ascent.cons (Option.some_ne_none _) hAbove)
      cases hLast : rest.getLast? with
      | none => simpa [hLast] using this
      | some b => simpa [hLast] using this

/-- An ascent read backwards is linked downwards, from where it stopped to where
it started. -/
theorem Ascent.linked {stop start : Option α} {nodes : List α}
    (ascent : Ascent next stop start nodes) :
    Linked next stop nodes.reverse ∧ nodes.reverse.getLast?.or stop = start := by
  induction ascent with
  | nil => exact ⟨trivial, rfl⟩
  | @cons a rest hStop hRest ih =>
      rw [List.reverse_cons, linked_append]
      exact ⟨⟨ih.1, ih.2.symm, trivial⟩, by simp⟩

/-- A walk whose fuel exceeds the rank of its start is complete. -/
theorem Falls.ascent_walk (falls : Falls next rank) {fuel : Nat} {start : Option α}
    (h : ∀ a, start = some a → rank a < fuel) :
    Ascent next none start (walk next fuel start) := by
  cases start with
  | none =>
      rw [walk_none]
      exact Ascent.nil
  | some a =>
      rw [falls.walk_eq (h a rfl)]
      exact falls.ascent_trail a

/-- Cutting a trail at a node on it, or not at all, leaves the ascent to there. -/
theorem Falls.ascent_takeWhile [DecidableEq α] (falls : Falls next rank) {a : α}
    {stop : Option α} (hStop : ∀ d, stop = some d → Reaches next a d) :
    Ascent next stop (some a)
      ((trail next rank a).takeWhile fun s => decide (some s ≠ stop)) := by
  induction a using falls.induction with
  | hStep a ih =>
      have hHead : ∃ rest, trail next rank a = a :: rest := ⟨_, rfl⟩
      obtain ⟨rest, hTrail⟩ := hHead
      rw [hTrail, List.takeWhile_cons]
      by_cases hEnd : some a = stop
      · rw [if_neg (by simp [hEnd]), hEnd]
        exact Ascent.nil
      · rw [if_pos (by simp [hEnd])]
        apply Ascent.cons hEnd
        cases hNext : next a with
        | none =>
            obtain rfl : rest = [] := by
              rw [trail_last hNext] at hTrail
              exact (List.cons.inj hTrail).2.symm
            cases stop with
            | none => exact Ascent.nil
            | some d =>
                rcases reaches_iff_eq_or_above.mp (hStop d rfl) with rfl | hAbove
                · exact absurd rfl hEnd
                · obtain ⟨c, hc, -⟩ := above_iff.mp hAbove
                  simp [hNext] at hc
        | some b =>
            obtain rfl : rest = trail next rank b := by
              rw [falls.trail_cons hNext] at hTrail
              exact (List.cons.inj hTrail).2.symm
            apply ih b hNext
            intro d hd
            rcases reaches_iff_eq_or_above.mp (hStop d hd) with rfl | hAbove
            · exact absurd hd.symm hEnd
            · obtain ⟨c, hc, hReach⟩ := above_iff.mp hAbove
              rw [hNext, Option.some.injEq] at hc
              exact hc ▸ hReach

/-! Common ancestors. -/

/-- `d` is the deepest node strictly above both `a` and `b`. -/
def IsStrictMeet (next : α → Option α) (a b d : α) : Prop :=
  Above next a d ∧ Above next b d ∧ ∀ c, Above next a c → Above next b c → Reaches next d c

/-- No node is strictly above both. -/
def NoStrictMeet (next : α → Option α) (a b : α) : Prop :=
  ∀ c, ¬(Above next a c ∧ Above next b c)

/-- The first node of `b`'s trail that lies on `a`'s is the deepest shared one. -/
theorem Falls.find_shared [DecidableEq α] (falls : Falls next rank) {a b l : α}
    (h : (trail next rank b).find? (fun s => decide (s ∈ trail next rank a)) = some l) :
    Reaches next a l ∧ Reaches next b l ∧
      ∀ c, Reaches next a c → Reaches next b c → Reaches next l c := by
  obtain ⟨hShared, before, after, hTrail, hBefore⟩ := List.find?_eq_some_iff_append.mp h
  have hA : Reaches next a l := falls.mem_trail.mp (of_decide_eq_true hShared)
  have hB : Reaches next b l := falls.mem_trail.mp (by rw [hTrail]; simp)
  refine ⟨hA, hB, fun c hac hbc => ?_⟩
  rcases falls.reaches_total hbc hB with hcl | hlc
  · -- `c` is at or below `l` on the trail of `b`, and nothing before `l` is shared
    rcases reaches_iff_eq_or_above.mp hcl with rfl | hAbove
    · exact Relation.ReflTransGen.refl
    · exfalso
      have hMem : c ∈ before ++ l :: after := hTrail ▸ falls.mem_trail.mpr hbc
      have hRank := falls.rank_lt hAbove
      have hPairwise := falls.trail_pairwise b
      rw [hTrail] at hPairwise
      rcases List.mem_append.mp hMem with hIn | hIn
      · have := hBefore c hIn
        simp [falls.mem_trail.mpr hac] at this
      · rcases List.mem_cons.mp hIn with rfl | hIn
        · omega
        · have := (List.pairwise_cons.mp (List.pairwise_append.mp hPairwise).2.1).1 c hIn
          omega
  · exact hlc

theorem Falls.find_shared_none [DecidableEq α] (falls : Falls next rank) {a b : α}
    (h : (trail next rank b).find? (fun s => decide (s ∈ trail next rank a)) = none) :
    ∀ c, ¬(Reaches next a c ∧ Reaches next b c) := by
  intro c hc
  have := List.find?_eq_none.mp h c (falls.mem_trail.mpr hc.2)
  simp [falls.mem_trail.mpr hc.1] at this

/-- Moving the deepest shared node up once when it is one of the two nodes gives
the deepest node strictly above both. -/
theorem strictMeet_of_deepest {a b l : α}
    (hA : Reaches next a l) (hB : Reaches next b l)
    (hDeepest : ∀ c, Reaches next a c → Reaches next b c → Reaches next l c) :
    (l ≠ a → l ≠ b → IsStrictMeet next a b l) ∧
      (l = a ∨ l = b →
        (∀ d, next l = some d → IsStrictMeet next a b d) ∧
        (next l = none → NoStrictMeet next a b)) := by
  refine ⟨fun hla hlb => ?_, fun hEnd => ?_⟩
  · exact ⟨(reaches_iff_eq_or_above.mp hA).resolve_left hla,
      (reaches_iff_eq_or_above.mp hB).resolve_left hlb,
      fun c hac hbc => hDeepest c hac.reaches hbc.reaches⟩
  · -- every strict common ancestor is strictly above the shared endpoint
    have hStrict : ∀ c, Above next a c → Above next b c → Above next l c := by
      intro c hac hbc
      rcases hEnd with rfl | rfl
      · exact hac
      · exact hbc
    constructor
    · intro d hd
      refine ⟨Relation.TransGen.tail' hA hd, Relation.TransGen.tail' hB hd, ?_⟩
      intro c hac hbc
      obtain ⟨e, he, hec⟩ := above_iff.mp (hStrict c hac hbc)
      obtain rfl : d = e := Option.some.inj (hd.symm.trans he)
      exact hec
    · intro hNone c hc
      obtain ⟨e, he, -⟩ := above_iff.mp (hStrict c hc.1 hc.2)
      simp [hNone] at he

end Forest

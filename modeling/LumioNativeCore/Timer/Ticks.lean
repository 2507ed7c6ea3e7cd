import LumioNativeCore.Timer.Manager

/-! The due ticks of one repeating timer within a window, and the tick it is
armed for after the window. -/
namespace Timer

namespace TimerManager

variable {toTick interval : Nat}

/-- The collection loop with the fuel it is given in `collectTimer`. -/
def ticksFrom (toTick interval due : Nat) : List Nat × Option Nat :=
  dueTicks toTick interval (toTick - due) due

/-- More fuel than ticks are left changes nothing. -/
theorem dueTicks_fuel (hInterval : 0 < interval) {due fuel : Nat} (hFuel : toTick - due ≤ fuel) :
    dueTicks toTick interval fuel due = ticksFrom toTick interval due := by
  have hAgree : ∀ (fuel fuel' due : Nat), toTick - due ≤ fuel → toTick - due ≤ fuel' →
      dueTicks toTick interval fuel due = dueTicks toTick interval fuel' due := by
    intro fuel
    induction fuel with
    | zero =>
        intro fuel' due h h'
        cases hNext : Word.checkedAdd Word.max64 due interval with
        | none => cases fuel' <;> simp [dueTicks, hNext]
        | some next =>
            obtain ⟨rfl, -⟩ := Word.checkedAdd_eq_some.mp hNext
            cases fuel' with
            | zero => rfl
            | succ fuel' =>
                have hBeyond : ¬due + interval ≤ toTick := by omega
                simp [dueTicks, hNext, hBeyond]
    | succ fuel ih =>
        intro fuel' due h h'
        cases hNext : Word.checkedAdd Word.max64 due interval with
        | none => cases fuel' <;> simp [dueTicks, hNext]
        | some next =>
            obtain ⟨rfl, -⟩ := Word.checkedAdd_eq_some.mp hNext
            by_cases hWithin : due + interval ≤ toTick
            · cases fuel' with
              | zero => omega
              | succ fuel' =>
                  rw [dueTicks.eq_def, dueTicks.eq_def toTick interval (fuel' + 1)]
                  simp only [hNext, if_pos hWithin]
                  rw [ih fuel' (due + interval) (by omega) (by omega)]
            · cases fuel' <;> simp [dueTicks, hNext, hWithin]
  exact hAgree fuel (toTick - due) due hFuel (Nat.le_refl _)

theorem ticksFrom_none {due : Nat} (hNext : Word.checkedAdd Word.max64 due interval = none) :
    ticksFrom toTick interval due = ([due], none) := by
  rw [ticksFrom]
  cases toTick - due <;> simp [dueTicks, hNext]

theorem ticksFrom_beyond {due : Nat} (hBound : due + interval ≤ Word.max64)
    (hBeyond : toTick < due + interval) :
    ticksFrom toTick interval due = ([due], some (due + interval)) := by
  have hNext : Word.checkedAdd Word.max64 due interval = some (due + interval) :=
    Word.checkedAdd_eq_some.mpr ⟨rfl, hBound⟩
  rw [ticksFrom]
  cases toTick - due <;> simp [dueTicks, hNext, Nat.not_le.mpr hBeyond]

theorem ticksFrom_within (hInterval : 0 < interval) {due : Nat}
    (hBound : due + interval ≤ Word.max64) (hWithin : due + interval ≤ toTick) :
    ticksFrom toTick interval due =
      (due :: (ticksFrom toTick interval (due + interval)).1,
        (ticksFrom toTick interval (due + interval)).2) := by
  have hNext : Word.checkedAdd Word.max64 due interval = some (due + interval) :=
    Word.checkedAdd_eq_some.mpr ⟨rfl, hBound⟩
  obtain ⟨fuel, hFuel⟩ : ∃ fuel, toTick - due = fuel + 1 := ⟨toTick - due - 1, by omega⟩
  rw [ticksFrom, hFuel, dueTicks.eq_def]
  simp only [hNext, if_pos hWithin]
  rw [dueTicks_fuel hInterval (by omega)]

/-- Induction along the ticks of a window. -/
theorem ticksFrom_induction (hInterval : 0 < interval)
    {motive : Nat → List Nat × Option Nat → Prop}
    (overflow : ∀ due, Word.max64 < due + interval → motive due ([due], none))
    (beyond : ∀ due, due + interval ≤ Word.max64 → toTick < due + interval →
      motive due ([due], some (due + interval)))
    (within : ∀ due, due + interval ≤ Word.max64 → due + interval ≤ toTick →
      motive (due + interval) (ticksFrom toTick interval (due + interval)) →
      motive due (due :: (ticksFrom toTick interval (due + interval)).1,
        (ticksFrom toTick interval (due + interval)).2)) (due : Nat) :
    motive due (ticksFrom toTick interval due) := by
  induction hLeft : toTick - due using Nat.strong_induction_on generalizing due with
  | _ left ih =>
      by_cases hBound : due + interval ≤ Word.max64
      · by_cases hWithin : due + interval ≤ toTick
        · rw [ticksFrom_within hInterval hBound hWithin]
          exact within due hBound hWithin (ih _ (by omega) _ rfl)
        · rw [ticksFrom_beyond hBound (Nat.not_le.mp hWithin)]
          exact beyond due hBound (Nat.not_le.mp hWithin)
      · rw [ticksFrom_none (Word.checkedAdd_eq_none.mpr (Nat.not_le.mp hBound))]
        exact overflow due (Nat.not_le.mp hBound)

/-- The ticks start at `due`, stay in the window and increase. -/
theorem ticksFrom_sorted (hInterval : 0 < interval) (due : Nat) (hDue : due ≤ toTick) :
    (∀ tick ∈ (ticksFrom toTick interval due).1, due ≤ tick ∧ tick ≤ toTick) ∧
      (ticksFrom toTick interval due).1.Pairwise (· < ·) := by
  apply ticksFrom_induction (motive := fun due result => due ≤ toTick →
    (∀ tick ∈ result.1, due ≤ tick ∧ tick ≤ toTick) ∧ result.1.Pairwise (· < ·)) hInterval
  · intro due _ hDue
    simpa using hDue
  · intro due _ _ hDue
    simpa using hDue
  · intro due hBound hWithin ih hDue
    obtain ⟨hTicks, hSorted⟩ := ih hWithin
    refine ⟨?_, List.pairwise_cons.mpr ⟨?_, hSorted⟩⟩
    · intro tick hTick
      rcases List.mem_cons.mp hTick with rfl | hTick
      · exact ⟨Nat.le_refl _, hDue⟩
      · have := hTicks tick hTick
        omega
    · intro tick hTick
      have := hTicks tick hTick
      omega
  · exact hDue

/-- The tick the timer is armed for lies behind the window. -/
theorem ticksFrom_next (hInterval : 0 < interval) (due : Nat) {next : Nat}
    (hNext : (ticksFrom toTick interval due).2 = some next) : toTick < next := by
  revert hNext
  apply ticksFrom_induction (motive := fun _ result => result.2 = some next → toTick < next)
    hInterval
  · intro due _ hNext
    cases hNext
  · rintro due - hBeyond ⟨⟩
    exact hBeyond
  · exact fun _ _ _ ih => ih

theorem due_mem_ticksFrom (hInterval : 0 < interval) (due : Nat) :
    due ∈ (ticksFrom toTick interval due).1 := by
  apply ticksFrom_induction (motive := fun due result => due ∈ result.1) hInterval <;> simp

/-! The ticks are the arithmetic progression of the timer, cut off at the window's end. -/

/-- `tick` is `due` or any number of intervals after it. -/
def OnBeat (due interval tick : Nat) : Prop := ∃ k, tick = due + k * interval

theorem OnBeat.le {due tick : Nat} (h : OnBeat due interval tick) : due ≤ tick := by
  obtain ⟨k, rfl⟩ := h
  exact Nat.le_add_right _ _

theorem onBeat_iff (due : Nat) {tick : Nat} :
    OnBeat due interval tick ↔ tick = due ∨ OnBeat (due + interval) interval tick := by
  constructor
  · rintro ⟨k, rfl⟩
    cases k with
    | zero => exact Or.inl (by rw [Nat.zero_mul, Nat.add_zero])
    | succ k => exact Or.inr ⟨k, by rw [Nat.succ_mul, Nat.add_comm (k * interval), Nat.add_assoc]⟩
  · rintro (rfl | ⟨k, rfl⟩)
    · exact ⟨0, by rw [Nat.zero_mul, Nat.add_zero]⟩
    · exact ⟨k + 1, by rw [Nat.succ_mul, Nat.add_comm (k * interval), Nat.add_assoc]⟩

theorem mem_ticksFrom (hInterval : 0 < interval) (hWord : toTick ≤ Word.max64) {due tick : Nat}
    (hDue : due ≤ toTick) :
    tick ∈ (ticksFrom toTick interval due).1 ↔ OnBeat due interval tick ∧ tick ≤ toTick := by
  apply ticksFrom_induction (motive := fun due result => due ≤ toTick →
    (tick ∈ result.1 ↔ OnBeat due interval tick ∧ tick ≤ toTick)) hInterval
  · intro due hBound hDue
    rw [List.mem_singleton, onBeat_iff due]
    constructor
    · rintro rfl
      exact ⟨Or.inl rfl, hDue⟩
    · rintro ⟨hSame | hLater, hWithin⟩
      · exact hSame
      · have := hLater.le
        omega
  · intro due hBound hBeyond hDue
    rw [List.mem_singleton, onBeat_iff due]
    constructor
    · rintro rfl
      exact ⟨Or.inl rfl, hDue⟩
    · rintro ⟨hSame | hLater, hWithin⟩
      · exact hSame
      · have := hLater.le
        omega
  · intro due hBound hWithin ih hDue
    rw [List.mem_cons, ih hWithin, onBeat_iff due]
    constructor
    · rintro (rfl | hLater)
      · exact ⟨Or.inl rfl, hDue⟩
      · exact ⟨Or.inr hLater.1, hLater.2⟩
    · rintro ⟨hSame | hLater, hTick⟩
      · exact Or.inl hSame
      · exact Or.inr ⟨hLater, hTick⟩
  · exact hDue

/-- `next` is the first tick of the progression behind the window, and the counter holds it. -/
structure IsNextBeat (due interval toTick next : Nat) : Prop where
  beat : OnBeat due interval next
  behind : toTick < next
  fits : next ≤ Word.max64
  first : ∀ tick, OnBeat due interval tick → toTick < tick → next ≤ tick

/-- The progression has no tick behind the window that the counter holds. -/
def BeatsEnd (due interval toTick : Nat) : Prop :=
  ∀ tick, OnBeat due interval tick → toTick < tick → Word.max64 < tick

theorem ticksFrom_after (hInterval : 0 < interval) {due : Nat} (hDue : due ≤ toTick) :
    (∀ next, (ticksFrom toTick interval due).2 = some next →
      IsNextBeat due interval toTick next) ∧
      ((ticksFrom toTick interval due).2 = none → BeatsEnd due interval toTick) := by
  -- no tick of the progression behind the window is the first one
  have hRest : ∀ due tick, due ≤ toTick → OnBeat due interval tick → toTick < tick →
      OnBeat (due + interval) interval tick := by
    intro due tick hDue hBeat hBehind
    exact ((onBeat_iff due).mp hBeat).resolve_left (by omega)
  apply ticksFrom_induction (motive := fun due result => due ≤ toTick →
    (∀ next, result.2 = some next → IsNextBeat due interval toTick next) ∧
      (result.2 = none → BeatsEnd due interval toTick)) hInterval
  · intro due hBound hDue
    refine ⟨fun next hNext => (by cases hNext), fun _ tick hBeat hBehind => ?_⟩
    have := (hRest due tick hDue hBeat hBehind).le
    omega
  · intro due hBound hBeyond hDue
    refine ⟨?_, fun hNone => by cases hNone⟩
    rintro next ⟨⟩
    exact ⟨(onBeat_iff due).mpr (Or.inr ((onBeat_iff _).mpr (Or.inl rfl))), hBeyond, hBound,
      fun tick hBeat hBehind => (hRest due tick hDue hBeat hBehind).le⟩
  · intro due hBound hWithin ih hDue
    obtain ⟨hSome, hNone⟩ := ih hWithin
    refine ⟨fun next hNext => ?_, fun hEnd tick hBeat hBehind => ?_⟩
    · have hIs := hSome next hNext
      exact ⟨(onBeat_iff due).mpr (Or.inr hIs.beat), hIs.behind, hIs.fits,
        fun tick hBeat hBehind => hIs.first tick (hRest due tick hDue hBeat hBehind) hBehind⟩
    · exact hNone hEnd tick (hRest due tick hDue hBeat hBehind) hBehind
  · exact hDue

/-- As many ticks as the preflight counts. -/
theorem length_ticksFrom (hInterval : 0 < interval) (hTick : toTick ≤ Word.max64) (due : Nat)
    (hDue : due ≤ toTick) :
    (ticksFrom toTick interval due).1.length = (toTick - due) / interval + 1 := by
  apply ticksFrom_induction (motive := fun due result => due ≤ toTick →
    result.1.length = (toTick - due) / interval + 1) hInterval
  · intro due hBound hDue
    rw [Nat.div_eq_of_lt (by omega)]
    rfl
  · intro due hBound hBeyond hDue
    rw [Nat.div_eq_of_lt (by omega)]
    rfl
  · intro due hBound hWithin ih hDue
    rw [List.length_cons, ih hWithin]
    have hSplit : toTick - due = (toTick - (due + interval)) + interval := by omega
    rw [hSplit, Nat.add_div_right _ hInterval]
  · exact hDue

/-- A window splits at any tick in it: the later part starts at the tick the timer
was armed for after the earlier part. -/
theorem ticksFrom_split (hInterval : 0 < interval) {middle : Nat} (hMiddle : middle ≤ toTick)
    (due : Nat) :
    ticksFrom toTick interval due =
      match (ticksFrom middle interval due).2 with
      | none => ((ticksFrom middle interval due).1, none)
      | some next =>
          if next ≤ toTick then
            ((ticksFrom middle interval due).1 ++ (ticksFrom toTick interval next).1,
              (ticksFrom toTick interval next).2)
          else ((ticksFrom middle interval due).1, some next) := by
  apply ticksFrom_induction (motive := fun due result => ticksFrom toTick interval due =
    match result.2 with
      | none => (result.1, none)
      | some next =>
          if next ≤ toTick then
            (result.1 ++ (ticksFrom toTick interval next).1, (ticksFrom toTick interval next).2)
          else (result.1, some next)) hInterval
  · intro due hBound
    exact ticksFrom_none (Word.checkedAdd_eq_none.mpr hBound)
  · intro due hBound hBeyond
    dsimp only
    split_ifs with hWithin
    · exact ticksFrom_within hInterval hBound hWithin
    · exact ticksFrom_beyond hBound (Nat.not_le.mp hWithin)
  · intro due hBound hWithin ih
    rw [ticksFrom_within hInterval hBound (hWithin.trans hMiddle), ih]
    cases (ticksFrom middle interval (due + interval)).2 with
    | none => rfl
    | some next =>
        dsimp only
        split_ifs <;> rfl

end TimerManager
end Timer

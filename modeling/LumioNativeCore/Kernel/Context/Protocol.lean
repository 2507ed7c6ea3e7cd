import LumioNativeCore.Kernel.Context.Lifecycle

/-! The order in which a closing context may call its resources, and how a pass
keeps to it. -/
namespace Kernel

/-! Readings of a log of callbacks. -/

def CallbackEvent.cancel? : CallbackEvent → Option Nat
  | .cancelRequested index _ => some index
  | _ => none

def CallbackEvent.destroy? : CallbackEvent → Option Nat
  | .destroy index _ => some index
  | _ => none

/-- The registrations that were asked to cancel, in the order of the calls. -/
def cancelsOf (log : List CallbackEvent) : List Nat := log.filterMap CallbackEvent.cancel?

/-- The registrations that were destroyed, in the order of the calls. -/
def destroysOf (log : List CallbackEvent) : List Nat := log.filterMap CallbackEvent.destroy?

/-- The failure that a callback leaves behind for good, if it does. -/
def CallbackEvent.failure : CallbackEvent → Option KernelError
  | .cancelRequested _ (some _) => none
  | .cancelRequested _ none => some (error .panicBoundary)
  | .quiesce _ (some (.ok _)) => none
  | .quiesce _ (some (.error failure)) =>
      if failure.category = .timedOut then none else some failure
  | .quiesce _ none => some (error .panicBoundary)
  | .destroy _ (some (.ok _)) => none
  | .destroy _ (some (.error failure)) => some failure
  | .destroy _ none => some (error .panicBoundary)

/-- The report that lets a resource be destroyed. -/
def quietReport (index : Nat) : CallbackEvent := .quiesce index (some (.ok .quiesced))

/-- The last `count` registrations of `total`, the latest first. -/
def latest (total count : Nat) : List Nat := (List.range total).reverse.take count

@[simp] theorem cancelsOf_append (log log' : List CallbackEvent) :
    cancelsOf (log ++ log') = cancelsOf log ++ cancelsOf log' := List.filterMap_append

@[simp] theorem destroysOf_append (log log' : List CallbackEvent) :
    destroysOf (log ++ log') = destroysOf log ++ destroysOf log' := List.filterMap_append

theorem mem_cancelsOf {log : List CallbackEvent} {index : Nat} :
    index ∈ cancelsOf log ↔ ∃ value, .cancelRequested index value ∈ log := by
  rw [cancelsOf, List.mem_filterMap]
  constructor
  · rintro ⟨event, hEvent, hIndex⟩
    cases event with
    | cancelRequested index' value =>
        obtain rfl := Option.some.inj hIndex
        exact ⟨value, hEvent⟩
    | quiesce => cases hIndex
    | destroy => cases hIndex
  · rintro ⟨value, hEvent⟩
    exact ⟨_, hEvent, rfl⟩

theorem mem_destroysOf {log : List CallbackEvent} {index : Nat} :
    index ∈ destroysOf log ↔ ∃ value, .destroy index value ∈ log := by
  rw [destroysOf, List.mem_filterMap]
  constructor
  · rintro ⟨event, hEvent, hIndex⟩
    cases event with
    | destroy index' value =>
        obtain rfl := Option.some.inj hIndex
        exact ⟨value, hEvent⟩
    | quiesce => cases hIndex
    | cancelRequested => cases hIndex
  · rintro ⟨value, hEvent⟩
    exact ⟨_, hEvent, rfl⟩

theorem mem_latest {total count index : Nat} :
    index ∈ latest total count ↔ index < total ∧ total ≤ index + count := by
  rw [latest, List.take_reverse, List.mem_reverse, List.length_range]
  rw [List.range_eq_range', List.drop_range', List.mem_range'_1]
  omega

theorem latest_succ {total count : Nat} (h : count < total) :
    latest total (count + 1) = latest total count ++ [total - 1 - count] := by
  rw [latest, latest, List.take_add_one, List.getElem?_reverse (by simpa using h)]
  simp only [List.length_range]
  rw [List.getElem?_range (by omega)]
  rfl

/-! The order. -/

/-- What a callback requires of the callbacks before it. -/
structure Legal (total : Nat) (before : List CallbackEvent) (event : CallbackEvent) : Prop where
  calm : ∀ earlier ∈ before, earlier.failure = none
  cancel : ∀ index value, event = .cancelRequested index value →
    index < total ∧ cancelsOf before = List.range index
  quiesce : ∀ index value, event = .quiesce index value → index < total ∧
    (∀ other < total, .cancelRequested other (some ()) ∈ before) ∧ quietReport index ∉ before
  destroy : ∀ index value, event = .destroy index value → index < total ∧
    (∀ other < total, quietReport other ∈ before) ∧
    destroysOf before = latest total (total - 1 - index)

def LegalLog (total : Nat) (log : List CallbackEvent) : Prop :=
  ∀ before event after, log = before ++ event :: after → Legal total before event

theorem legalLog_nil (total : Nat) : LegalLog total [] := by
  intro before event after hLog
  simp at hLog

theorem LegalLog.snoc {total : Nat} {log : List CallbackEvent} {event : CallbackEvent}
    (h : LegalLog total log) (hEvent : Legal total log event) : LegalLog total (log ++ [event]) := by
  intro before earlier after hLog
  rcases List.eq_nil_or_concat after with rfl | ⟨front, final, rfl⟩
  · obtain ⟨rfl, hSame⟩ := List.append_inj' hLog rfl
    obtain rfl := List.head_eq_of_cons_eq hSame
    exact hEvent
  · rw [List.concat_eq_append, ← List.cons_append, ← List.append_assoc] at hLog
    obtain ⟨rfl, -⟩ := List.append_inj' hLog rfl
    exact h before earlier front rfl

/-! Contexts in a pass. -/

variable {ρ : Type}

@[simp] theorem Pass.events_nil {α : Type} (result : Except KernelError α)
    (ctx : KernelContext ρ) : Pass.events ⟨result, [], ctx⟩ = [] := rfl

/-- The resources are frozen and the context is not closed yet. -/
structure Closing (total : Nat) (log : List CallbackEvent) (ctx : KernelContext ρ) : Prop where
  legal : LegalLog total log
  phase : ctx.phase = .quiescing
  registry : ctx.resources.length = total
  started : ctx.progress.started = true
  frozen : ctx.progress.resources.length = total
  marks : ctx.progress.quiesced.length = total
  pending : ctx.progress.report = none

/-- No callback has failed for good, and the progress record says what the log says. -/
structure Steady (total : Nat) (log : List CallbackEvent) (ctx : KernelContext ρ) : Prop
    extends Closing total log ctx where
  sound : ctx.progress.failure = none
  calm : ∀ event ∈ log, event.failure = none
  cancelled : cancelsOf log = List.range ctx.progress.cancelled
  bound : ctx.progress.cancelled ≤ total
  marked : ∀ index, ctx.progress.quiesced[index]? = some true ↔
    index < total ∧ quietReport index ∈ log
  destroyed : destroysOf log = latest total (total - ctx.progress.destroyRemaining)
  remaining : ctx.progress.destroyRemaining ≤ total
  late : ctx.progress.destroyRemaining < total → ∀ index < total, quietReport index ∈ log
  ready : ∀ index, quietReport index ∈ log → ctx.progress.cancelled = total

/-- A callback failed for good; it was the last one. -/
structure Stuck (total : Nat) (log : List CallbackEvent) (ctx : KernelContext ρ)
    (failure : KernelError) : Prop extends Closing total log ctx where
  recorded : ctx.progress.failure = some failure
  last : ∃ before event, log = before ++ [event] ∧ event.failure = some failure
  unfinished : ∃ index < total, .destroy index (some (.ok ())) ∉ log

/-- Every resource was destroyed and the context is closed. -/
structure Done (total : Nat) (log : List CallbackEvent) (ctx : KernelContext ρ) : Prop where
  legal : LegalLog total log
  phase : ctx.phase = .closed
  registry : ctx.resources = []
  report : ctx.progress.report = some KernelContext.closedReport
  calm : ∀ event ∈ log, event.failure = none
  destroyed : ∀ index < total, .destroy index (some (.ok ())) ∈ log

open KernelContext

/-- A closing context refuses calls from its callbacks. -/
theorem KernelContext.reenterAll_eq {ctx : KernelContext ρ} (hPhase : ctx.phase = .quiescing)
    (calls : List (Call ρ)) : ctx.reenterAll calls = ctx := by
  have hAdmit : ∃ failure, ctx.ensureAdmitted = .error failure := by
    rw [ensureAdmitted, hPhase]
    split_ifs
    · exact ⟨_, rfl⟩
    · exact ⟨_, rfl⟩
  obtain ⟨failure, hAdmit⟩ := hAdmit
  have hCall : ∀ call, ctx.reenter call = ctx := by
    intro call
    cases call with
    | registerResource resource => rw [reenter, registerResource, hAdmit]
    | admitWork panics => rw [reenter, admitWork, hAdmit]
    | close => rfl
  rw [reenterAll]
  induction calls with
  | nil => rfl
  | cons call rest ih => rw [List.foldl_cons, hCall, ih]

section Turns

variable {total : Nat} {log : List CallbackEvent} {ctx : KernelContext ρ} {α β : Type}

/-- What a part of a pass may come to: it goes on as `good` says, or it stops, for
good or until the next pass. -/
def Sequel (total : Nat) (log : List CallbackEvent) (pass : Pass ρ α)
    (good : α → List CallbackEvent → KernelContext ρ → Prop) : Prop :=
  match pass.result with
  | .ok a => good a (log ++ pass.events) pass.context
  | .error failure =>
      Stuck total (log ++ pass.events) pass.context failure ∨
        failure.category = .timedOut ∧ Steady total (log ++ pass.events) pass.context ∧
          0 < pass.context.progress.destroyRemaining

theorem Sequel.andThen {pass : Pass ρ α} {next : α → KernelContext ρ → Pass ρ β}
    {good : α → List CallbackEvent → KernelContext ρ → Prop}
    {good' : β → List CallbackEvent → KernelContext ρ → Prop}
    (h : Sequel total log pass good)
    (hNext : ∀ a log' ctx', good a log' ctx' → Sequel total log' (next a ctx') good') :
    Sequel total log (pass.andThen next) good' := by
  rw [Sequel] at h ⊢
  rw [Pass.andThen]
  cases hResult : pass.result with
  | error failure =>
      simp only [hResult] at h
      exact h
  | ok a =>
      simp only [hResult] at h
      have hRest := hNext a _ _ h
      rw [Sequel, List.append_assoc] at hRest
      simp only [Pass.events, List.map_append] at hRest ⊢
      exact hRest

/-- A turn of a pass finds the resource that was registered at its index. -/
theorem Closing.lookup (h : Closing total log ctx) {index : Nat} (hIndex : index < total) :
    ∃ resource, ctx.progress.resources[index]? = some resource :=
  ⟨_, List.getElem?_eq_getElem (h.frozen ▸ hIndex)⟩

/-- Resources are still to be destroyed as long as one has not reported. -/
theorem Steady.left (h : Steady total log ctx) {index : Nat} (hIndex : index < total)
    (hQuiet : quietReport index ∉ log) : 0 < ctx.progress.destroyRemaining := by
  by_contra hNone
  exact hQuiet (h.late (by omega) index hIndex)

theorem Steady.unfinished (h : Steady total log ctx) (hLeft : 0 < ctx.progress.destroyRemaining) :
    ∃ index < total, .destroy index (some (.ok ())) ∉ log := by
  have hRemaining := h.remaining
  refine ⟨ctx.progress.destroyRemaining - 1, by omega, fun hMem => ?_⟩
  have hDestroyed := mem_destroysOf.mpr ⟨_, hMem⟩
  rw [h.destroyed, mem_latest] at hDestroyed
  omega

theorem Steady.stuck (h : Steady total log ctx) {event : CallbackEvent} {failure : KernelError}
    (hEvent : Legal total log event) (hFailure : event.failure = some failure)
    (hLeft : 0 < ctx.progress.destroyRemaining) :
    Stuck total (log ++ [event]) (ctx.fail failure) failure where
  legal := h.legal.snoc hEvent
  phase := h.phase
  registry := h.registry
  started := h.started
  frozen := h.frozen
  marks := h.marks
  pending := h.pending
  recorded := rfl
  last := ⟨log, event, rfl, hFailure⟩
  unfinished := by
    obtain ⟨index, hIndex, hNone⟩ := h.unfinished hLeft
    refine ⟨index, hIndex, fun hMem => ?_⟩
    rcases List.mem_append.mp hMem with hOld | hNew
    · exact hNone hOld
    · rw [← List.mem_singleton.mp hNew] at hFailure
      cases hFailure

/-- A callback that came back well keeps the log calm. -/
theorem Steady.calm_snoc (h : Steady total log ctx) {event : CallbackEvent}
    (hFailure : event.failure = none) : ∀ earlier ∈ log ++ [event], earlier.failure = none := by
  intro earlier hEarlier
  rcases List.mem_append.mp hEarlier with hOld | hNew
  · exact h.calm earlier hOld
  · rw [List.mem_singleton.mp hNew]
    exact hFailure

theorem Steady.confirmed (h : Steady total log ctx) (hAll : ctx.progress.cancelled = total) :
    ∀ index < total, .cancelRequested index (some ()) ∈ log := by
  intro index hIndex
  have hMem : index ∈ cancelsOf log := by
    rw [h.cancelled, hAll]
    exact List.mem_range.mpr hIndex
  obtain ⟨value, hEvent⟩ := mem_cancelsOf.mp hMem
  cases value with
  | none => cases h.calm _ hEvent
  | some => exact hEvent

/-- A callback that came back well, and what it changed in the progress record. -/
theorem Steady.cancel_snoc (h : Steady total log ctx) (hLeft : ctx.progress.cancelled < total)
    (hQuiet : ∀ index, quietReport index ∉ log) {value : Unit}
    (hLegal : Legal total log (.cancelRequested ctx.progress.cancelled (some value))) :
    Steady total (log ++ [.cancelRequested ctx.progress.cancelled (some value)])
      { ctx with progress := { ctx.progress with cancelled := ctx.progress.cancelled + 1 } } where
  legal := h.legal.snoc hLegal
  phase := h.phase
  registry := h.registry
  started := h.started
  frozen := h.frozen
  marks := h.marks
  pending := h.pending
  sound := h.sound
  calm := h.calm_snoc rfl
  cancelled := by
    rw [cancelsOf_append, h.cancelled]
    exact List.range_succ.symm
  bound := hLeft
  marked := by
    intro index
    rw [h.marked]
    simp [quietReport]
  destroyed := by
    rw [destroysOf_append, h.destroyed]
    exact List.append_nil _
  remaining := h.remaining
  late := fun hLate index hIndex => absurd (h.late hLate index hIndex) (hQuiet index)
  ready := by
    intro index hMem
    rcases List.mem_append.mp hMem with hOld | hNew
    · exact absurd hOld (hQuiet index)
    · cases List.mem_singleton.mp hNew

theorem sequel_cancelTurn (callbacks : Callbacks ρ) (reason : CancelReason)
    (h : Steady total log ctx) (hLeft : ctx.progress.cancelled < total) :
    Sequel total log (cancelTurn callbacks reason ctx) fun _ log' ctx' =>
      Steady total log' ctx' ∧ ctx'.progress.cancelled = ctx.progress.cancelled + 1 := by
  have hQuiet : ∀ index, quietReport index ∉ log := by
    intro index hMem
    have hReady := h.ready index hMem
    omega
  have hLegal : ∀ value, Legal total log (.cancelRequested ctx.progress.cancelled value) := by
    intro value
    refine ⟨h.calm, ?_, ?_, ?_⟩
    · rintro index _ ⟨⟩
      exact ⟨hLeft, h.cancelled⟩
    · rintro index _ ⟨⟩
    · rintro index _ ⟨⟩
  obtain ⟨resource, hResource⟩ := h.lookup hLeft
  simp only [cancelTurn, hResource, reenterAll_eq h.phase]
  cases (callbacks.cancelRequested resource ctx.progress.cancelled reason).value with
  | none => exact Or.inl (h.stuck (hLegal none) rfl (h.left hLeft (hQuiet _)))
  | some value => exact ⟨h.cancel_snoc hLeft hQuiet (hLegal _), rfl⟩

theorem sequel_cancelLoop (callbacks : Callbacks ρ) (reason : CancelReason) {turns : Nat}
    (h : Steady total log ctx) (hTurns : ctx.progress.cancelled + turns = total) :
    Sequel total log (cancelLoop callbacks reason turns ctx) fun _ log' ctx' =>
      Steady total log' ctx' ∧ ctx'.progress.cancelled = total := by
  induction turns generalizing log ctx with
  | zero =>
      rw [cancelLoop, Sequel]
      simp only [Pass.events_nil, List.append_nil]
      exact ⟨h, by omega⟩
  | succ turns ih =>
      rw [cancelLoop]
      apply (sequel_cancelTurn callbacks reason h (by omega)).andThen
      intro _ log' ctx' hTurn
      exact ih hTurn.1 (by omega)

theorem Steady.quiesce_snoc (h : Steady total log ctx) (hAll : ctx.progress.cancelled = total)
    {index : Nat} {value : Option (Except KernelError QuiesceState)}
    (hLegal : Legal total log (.quiesce index value))
    (hFailure : (CallbackEvent.quiesce index value).failure = none) (marks : List Bool)
    (hMarks : marks.length = total)
    (hMarked : ∀ other, marks[other]? = some true ↔
      other < total ∧ quietReport other ∈ log ++ [.quiesce index value]) :
    Steady total (log ++ [.quiesce index value])
      { ctx with progress := { ctx.progress with quiesced := marks } } where
  legal := h.legal.snoc hLegal
  phase := h.phase
  registry := h.registry
  started := h.started
  frozen := h.frozen
  marks := hMarks
  pending := h.pending
  sound := h.sound
  calm := h.calm_snoc hFailure
  cancelled := by
    rw [cancelsOf_append, h.cancelled]
    exact List.append_nil _
  bound := h.bound
  marked := hMarked
  destroyed := by
    rw [destroysOf_append, h.destroyed]
    exact List.append_nil _
  remaining := h.remaining
  late := fun hLate other hOther => List.mem_append_left _ (h.late hLate other hOther)
  ready := fun _ _ => hAll

theorem sequel_quiesceTurn (callbacks : Callbacks ρ) (effective : Deadline) {index : Nat}
    (h : Steady total log ctx) (hAll : ctx.progress.cancelled = total) (hIndex : index < total)
    (hWaits : quietReport index ∉ log) :
    Sequel total log (quiesceTurn callbacks effective index ctx) fun _ log' ctx' =>
      Steady total log' ctx' ∧ ctx'.progress.cancelled = total := by
  have hLegal : ∀ value, Legal total log (.quiesce index value) := by
    intro value
    refine ⟨h.calm, ?_, ?_, ?_⟩
    · rintro other _ ⟨⟩
    · rintro other _ ⟨⟩
      exact ⟨hIndex, h.confirmed hAll, hWaits⟩
    · rintro other _ ⟨⟩
  have hLeft := h.left hIndex hWaits
  obtain ⟨resource, hResource⟩ := h.lookup hIndex
  simp only [quiesceTurn, hResource, reenterAll_eq h.phase]
  cases (callbacks.quiesce resource index effective).value with
  | none => exact Or.inl (h.stuck (hLegal none) rfl hLeft)
  | some value =>
      cases value with
      | error failure =>
          by_cases hTimed : failure.category = .timedOut
          · have hFailure : (CallbackEvent.quiesce index (some (.error failure))).failure = none :=
              if_pos hTimed
            simp only [hTimed, if_true]
            refine Or.inr ⟨hTimed, ?_, hLeft⟩
            apply h.quiesce_snoc hAll (hLegal _) hFailure ctx.progress.quiesced h.marks
            intro other
            rw [h.marked]
            simp [quietReport]
          · have hFailure : (CallbackEvent.quiesce index (some (.error failure))).failure =
                some failure := if_neg hTimed
            simp only [hTimed, if_false]
            exact Or.inl (h.stuck (hLegal _) hFailure hLeft)
      | ok state =>
          refine ⟨?_, hAll⟩
          apply h.quiesce_snoc hAll (hLegal _) rfl
          · rw [List.length_set, h.marks]
          · intro other
            rw [List.getElem?_set, h.marks]
            by_cases hOther : index = other
            · subst hOther
              cases state with
              | quiesced => simp [hIndex, quietReport]
              | pending remaining => simpa [hIndex, quietReport] using hWaits
            · rw [if_neg hOther, h.marked]
              simp [quietReport, Ne.symm hOther]

theorem sequel_quiesceLoop (callbacks : Callbacks ρ) (effective : Deadline) {indices : List Nat}
    (h : Steady total log ctx) (hAll : ctx.progress.cancelled = total)
    (hIndices : ∀ index ∈ indices, index < total) :
    Sequel total log (quiesceLoop callbacks effective indices ctx) fun _ log' ctx' =>
      Steady total log' ctx' ∧ ctx'.progress.cancelled = total := by
  induction indices generalizing log ctx with
  | nil =>
      rw [quiesceLoop, Sequel]
      simp only [Pass.events_nil, List.append_nil]
      exact ⟨h, hAll⟩
  | cons index rest ih =>
      have hRest : ∀ other ∈ rest, other < total :=
        fun other hOther => hIndices other (List.mem_cons_of_mem _ hOther)
      have hIndex := hIndices index List.mem_cons_self
      rw [quiesceLoop]
      split_ifs with hMark
      · exact ih h hAll hRest
      · have hWaits : quietReport index ∉ log := fun hMem =>
          hMark ((h.marked index).mpr ⟨hIndex, hMem⟩)
        apply (sequel_quiesceTurn callbacks effective h hAll hIndex hWaits).andThen
        intro _ log' ctx' hTurn
        exact ih hTurn.1 hTurn.2 hRest

theorem Steady.destroy_snoc (h : Steady total log ctx)
    (hQuiet : ∀ index < total, quietReport index ∈ log)
    (hLeft : 0 < ctx.progress.destroyRemaining) {value : Unit}
    (hLegal : Legal total log (.destroy (ctx.progress.destroyRemaining - 1) (some (.ok value)))) :
    Steady total (log ++ [.destroy (ctx.progress.destroyRemaining - 1) (some (.ok value))])
      { ctx with progress := { ctx.progress with
        destroyRemaining := ctx.progress.destroyRemaining - 1 } } where
  legal := h.legal.snoc hLegal
  phase := h.phase
  registry := h.registry
  started := h.started
  frozen := h.frozen
  marks := h.marks
  pending := h.pending
  sound := h.sound
  calm := h.calm_snoc rfl
  cancelled := by
    rw [cancelsOf_append, h.cancelled]
    exact List.append_nil _
  bound := h.bound
  marked := by
    intro index
    rw [h.marked]
    simp [quietReport]
  destroyed := by
    have hRemaining := h.remaining
    have hCount : total - (ctx.progress.destroyRemaining - 1) =
        total - ctx.progress.destroyRemaining + 1 := by omega
    have hNext : total - 1 - (total - ctx.progress.destroyRemaining) =
        ctx.progress.destroyRemaining - 1 := by omega
    rw [destroysOf_append, h.destroyed, hCount, latest_succ (by omega), hNext]
    rfl
  remaining := Nat.le_trans (Nat.sub_le _ _) h.remaining
  late := fun _ index hIndex => List.mem_append_left _ (hQuiet index hIndex)
  ready := by
    intro index hMem
    rcases List.mem_append.mp hMem with hOld | hNew
    · exact h.ready index hOld
    · cases List.mem_singleton.mp hNew

theorem sequel_destroyTurn (callbacks : Callbacks ρ) (h : Steady total log ctx)
    (hQuiet : ∀ index < total, quietReport index ∈ log)
    (hLeft : 0 < ctx.progress.destroyRemaining) :
    Sequel total log (destroyTurn callbacks ctx) fun _ log' ctx' =>
      Steady total log' ctx' ∧ (∀ index < total, quietReport index ∈ log') ∧
        ctx'.progress.destroyRemaining + 1 = ctx.progress.destroyRemaining := by
  have hRemaining := h.remaining
  have hLegal : ∀ value, Legal total log (.destroy (ctx.progress.destroyRemaining - 1) value) := by
    intro value
    refine ⟨h.calm, ?_, ?_, ?_⟩
    · rintro index _ ⟨⟩
    · rintro index _ ⟨⟩
    · rintro index _ ⟨⟩
      refine ⟨by omega, hQuiet, ?_⟩
      rw [h.destroyed]
      congr 1
      omega
  have hIndex : ctx.progress.destroyRemaining - 1 < total := by omega
  obtain ⟨resource, hResource⟩ := h.lookup hIndex
  simp only [destroyTurn, hResource, reenterAll_eq h.phase]
  cases (callbacks.destroy resource (ctx.progress.destroyRemaining - 1)).value with
  | none => exact Or.inl (h.stuck (hLegal none) rfl hLeft)
  | some value =>
      cases value with
      | error failure => exact Or.inl (h.stuck (hLegal _) rfl hLeft)
      | ok value =>
          have hKept := h.destroy_snoc hQuiet hLeft (hLegal (some (.ok value)))
          exact ⟨hKept, fun index hIndex => List.mem_append_left _ (hQuiet index hIndex),
            Nat.sub_add_cancel hLeft⟩

theorem sequel_destroyLoop (callbacks : Callbacks ρ) {turns : Nat} (h : Steady total log ctx)
    (hQuiet : ∀ index < total, quietReport index ∈ log)
    (hTurns : ctx.progress.destroyRemaining = turns) :
    Sequel total log (destroyLoop callbacks turns ctx) fun _ log' ctx' =>
      Steady total log' ctx' ∧ ctx'.progress.destroyRemaining = 0 := by
  induction turns generalizing log ctx with
  | zero =>
      rw [destroyLoop, Sequel]
      simp only [Pass.events_nil, List.append_nil]
      exact ⟨h, hTurns⟩
  | succ turns ih =>
      rw [destroyLoop]
      apply (sequel_destroyTurn callbacks h hQuiet (by omega)).andThen
      intro _ log' ctx' hTurn
      exact ih hTurn.1 hTurn.2.1 (by omega)

/-- The end of a pass that has not stopped: wait for the next one, or closed. -/
def Settled (total : Nat) (report : ContextCloseReport) (log : List CallbackEvent)
    (ctx : KernelContext ρ) : Prop :=
  (report = quiescingReport ∧ Steady total log ctx ∧ 0 < ctx.progress.destroyRemaining) ∨
    (report = closedReport ∧ Done total log ctx)

theorem Steady.destroys (h : Steady total log ctx) (hNone : ctx.progress.destroyRemaining = 0) :
    ∀ index < total, .destroy index (some (.ok ())) ∈ log := by
  intro index hIndex
  have hMem : index ∈ destroysOf log := by
    rw [h.destroyed, hNone, mem_latest]
    omega
  obtain ⟨value, hEvent⟩ := mem_destroysOf.mp hMem
  have hCalm := h.calm _ hEvent
  match value with
  | some (.ok _) => exact hEvent

theorem Steady.done (h : Steady total log ctx) (hNone : ctx.progress.destroyRemaining = 0) :
    Done total log (finish ctx).context where
  legal := h.legal
  phase := rfl
  registry := rfl
  report := rfl
  calm := h.calm
  destroyed := h.destroys hNone

/-- Where no resource is waited for, every one has reported. -/
theorem Steady.quiet (h : Steady total log ctx) (hNone : ctx.progress.quiesced.any (!·) = false) :
    ∀ index < total, quietReport index ∈ log := by
  intro index hIndex
  have hBound : index < ctx.progress.quiesced.length := h.marks ▸ hIndex
  have hMark := List.any_eq_false.mp hNone _ (List.getElem_mem hBound)
  apply And.right
  apply (h.marked index).mp
  rw [List.getElem?_eq_getElem hBound]
  simpa using hMark

theorem sequel_settle (callbacks : Callbacks ρ) (effective : Deadline) (now : Nat)
    (h : Steady total log ctx) :
    Sequel total log (settle callbacks effective now ctx) (Settled total) := by
  rw [settle]
  by_cases hWaits : ctx.progress.quiesced.any (!·)
  · -- A resource that has not reported keeps every destructor from running.
    have hLeft : 0 < ctx.progress.destroyRemaining := by
      obtain ⟨mark, hMark, hFalse⟩ := List.any_eq_true.mp hWaits
      obtain ⟨index, hIndex, rfl⟩ := List.getElem_of_mem hMark
      apply h.left (h.marks ▸ hIndex)
      intro hMem
      have hTrue := (h.marked index).mpr ⟨h.marks ▸ hIndex, hMem⟩
      rw [List.getElem?_eq_getElem hIndex] at hTrue
      simp [Option.some.inj hTrue] at hFalse
    rw [if_pos hWaits]
    split_ifs
    · rw [Sequel]
      simp only [Pass.events_nil, List.append_nil]
      exact Or.inr ⟨rfl, h, hLeft⟩
    · rw [Sequel]
      simp only [Pass.events_nil, List.append_nil]
      exact Or.inl ⟨rfl, h, hLeft⟩
  · have hQuiet := h.quiet (by simpa using hWaits)
    rw [if_neg hWaits]
    apply (sequel_destroyLoop callbacks h hQuiet rfl).andThen
    intro _ log' ctx' hLoop
    rw [Sequel, finish]
    simp only [Pass.events_nil, List.append_nil]
    exact Or.inr ⟨rfl, hLoop.1.done hLoop.2⟩

theorem sequel_drive (callbacks : Callbacks ρ) (reason : CancelReason) (deadline : Deadline)
    (now : Nat) (h : Steady total log ctx) :
    Sequel total log (drive callbacks reason deadline now ctx) (Settled total) := by
  rw [drive, h.frozen]
  apply (sequel_cancelLoop callbacks reason h (Nat.add_sub_of_le h.bound)).andThen
  intro _ log' ctx' hCancels
  apply Sequel.andThen
    (sequel_quiesceLoop callbacks _ hCancels.1 hCancels.2 fun _ => List.mem_range.mp)
  intro _ log'' ctx'' hQuiesces
  exact sequel_settle callbacks _ now hQuiesces.1

end Turns

/-! The resources behind the indices. -/

section Resources

variable {resources : List ρ} {called : List (ρ × CallbackEvent)} {α β : Type}

/-- Every callback was made on the resource at its index. -/
def Named (resources : List ρ) (called : List (ρ × CallbackEvent)) : Prop :=
  ∀ entry ∈ called, resources[entry.2.index]? = some entry.1

/-- The resources that were asked to cancel, in the order of the calls. -/
def cancelledIn (called : List (ρ × CallbackEvent)) : List ρ :=
  called.filterMap fun entry => entry.2.cancel?.map fun _ => entry.1

/-- The resources that were destroyed, in the order of the calls. -/
def destroyedIn (called : List (ρ × CallbackEvent)) : List ρ :=
  called.filterMap fun entry => entry.2.destroy?.map fun _ => entry.1

theorem Named.append {called' : List (ρ × CallbackEvent)} (h : Named resources called)
    (h' : Named resources called') : Named resources (called ++ called') := by
  intro entry hEntry
  rcases List.mem_append.mp hEntry with hOld | hNew
  · exact h entry hOld
  · exact h' entry hNew

/-- A selection of the callbacks names the resources at the indices that it selects. -/
theorem Named.filterMap (h : Named resources called) {pick : CallbackEvent → Option Nat}
    (hPick : ∀ event index, pick event = some index → event.index = index) :
    called.filterMap (fun entry => (pick entry.2).map fun _ => entry.1) =
      ((called.map Prod.snd).filterMap pick).filterMap (resources[·]?) := by
  induction called with
  | nil => rfl
  | cons entry rest ih =>
      have hRest := ih fun other hOther => h other (List.mem_cons_of_mem _ hOther)
      cases hEntry : pick entry.2 with
      | none => simpa [List.filterMap_cons, hEntry] using hRest
      | some index =>
          have hName := h entry List.mem_cons_self
          rw [hPick _ _ hEntry] at hName
          simpa [List.filterMap_cons, hEntry, hName] using hRest

theorem filterMap_range {count : Nat} (hCount : count ≤ resources.length) :
    (List.range count).filterMap (resources[·]?) = resources.take count := by
  induction count with
  | zero => rfl
  | succ count ih =>
      rw [List.range_succ, List.filterMap_append, ih (Nat.le_of_succ_le hCount), List.take_add_one]
      simp [List.getElem?_eq_getElem hCount]

theorem filterMap_latest {count : Nat} (hCount : count ≤ resources.length) :
    (latest resources.length count).filterMap (resources[·]?) = resources.reverse.take count := by
  induction count with
  | zero => rfl
  | succ count ih =>
      rw [latest_succ hCount, List.filterMap_append, ih (Nat.le_of_succ_le hCount),
        List.take_add_one, List.getElem?_reverse hCount]
      have hIndex : resources.length - 1 - count < resources.length := by omega
      simp [List.getElem?_eq_getElem hIndex]

/-- Cancellation follows the order of registration. -/
theorem Named.cancelledIn {count : Nat} (h : Named resources called)
    (hCount : count ≤ resources.length)
    (hCancels : cancelsOf (called.map Prod.snd) = List.range count) :
    cancelledIn called = resources.take count := by
  have hPick : ∀ event index, CallbackEvent.cancel? event = some index → event.index = index := by
    intro event index hEvent
    cases event with
    | cancelRequested => exact Option.some.inj hEvent
    | quiesce => cases hEvent
    | destroy => cases hEvent
  rw [Kernel.cancelledIn, h.filterMap hPick, ← cancelsOf, hCancels, filterMap_range hCount]

/-- Destruction goes back through it. -/
theorem Named.destroyedIn {count : Nat} (h : Named resources called)
    (hCount : count ≤ resources.length)
    (hDestroys : destroysOf (called.map Prod.snd) = latest resources.length count) :
    destroyedIn called = resources.reverse.take count := by
  have hPick : ∀ event index, CallbackEvent.destroy? event = some index → event.index = index := by
    intro event index hEvent
    cases event with
    | destroy => exact Option.some.inj hEvent
    | quiesce => cases hEvent
    | cancelRequested => cases hEvent
  rw [Kernel.destroyedIn, h.filterMap hPick, ← destroysOf, hDestroys, filterMap_latest hCount]

theorem KernelContext.registerResource_progress (ctx : KernelContext ρ) (resource : ρ) :
    (ctx.registerResource resource).2.progress = ctx.progress := by
  rw [registerResource]
  cases ctx.ensureAdmitted with
  | error failure => rfl
  | ok _ =>
      simp only
      split_ifs
      · rfl
      · rfl

/-- What a callback calls leaves the frozen resources alone. -/
theorem KernelContext.reenterAll_resources (ctx : KernelContext ρ) (calls : List (Call ρ)) :
    (ctx.reenterAll calls).progress.resources = ctx.progress.resources := by
  rw [reenterAll]
  induction calls generalizing ctx with
  | nil => rfl
  | cons call rest ih =>
      rw [List.foldl_cons, ih]
      cases call with
      | registerResource resource => rw [reenter, ctx.registerResource_progress]
      | admitWork panics =>
          rw [reenter, admitWork]
          cases ctx.ensureAdmitted with
          | error => rfl
          | ok => rfl
      | close => rfl

/-- A part of a pass over these resources: it calls them by their places and keeps them. -/
structure Over (resources : List ρ) (pass : Pass ρ α) : Prop where
  named : Named resources pass.log
  kept : pass.context.progress.resources = resources

theorem Named.single {resource : ρ} {event : CallbackEvent}
    (hResource : resources[event.index]? = some resource) :
    Named resources [(resource, event)] := by
  rintro entry hEntry
  obtain rfl := List.mem_singleton.mp hEntry
  exact hResource

theorem over_outOfBounds (ctx : KernelContext ρ) :
    Over ctx.progress.resources ctx.outOfBounds :=
  ⟨fun _ hEntry => absurd hEntry List.not_mem_nil, rfl⟩

theorem over_cancelTurn (callbacks : Callbacks ρ) (reason : CancelReason) (ctx : KernelContext ρ) :
    Over ctx.progress.resources (cancelTurn callbacks reason ctx) := by
  rw [cancelTurn]
  cases hResource : ctx.progress.resources[ctx.progress.cancelled]? with
  | none => exact over_outOfBounds ctx
  | some resource =>
      have hKept := ctx.reenterAll_resources
        (callbacks.cancelRequested resource ctx.progress.cancelled reason).nested
      simp only
      split
      · exact ⟨.single hResource, hKept⟩
      · exact ⟨.single hResource, hKept⟩

theorem over_quiesceTurn (callbacks : Callbacks ρ) (effective : Deadline) (index : Nat)
    (ctx : KernelContext ρ) :
    Over ctx.progress.resources (quiesceTurn callbacks effective index ctx) := by
  rw [quiesceTurn]
  cases hResource : ctx.progress.resources[index]? with
  | none => exact over_outOfBounds ctx
  | some resource =>
      have hKept := ctx.reenterAll_resources (callbacks.quiesce resource index effective).nested
      simp only
      split
      · exact ⟨.single hResource, hKept⟩
      · split_ifs
        · exact ⟨.single hResource, hKept⟩
        · exact ⟨.single hResource, hKept⟩
      · exact ⟨.single hResource, hKept⟩

theorem over_destroyTurn (callbacks : Callbacks ρ) (ctx : KernelContext ρ) :
    Over ctx.progress.resources (destroyTurn callbacks ctx) := by
  rw [destroyTurn]
  cases hResource : ctx.progress.resources[ctx.progress.destroyRemaining - 1]? with
  | none => exact over_outOfBounds ctx
  | some resource =>
      have hKept := ctx.reenterAll_resources
        (callbacks.destroy resource (ctx.progress.destroyRemaining - 1)).nested
      simp only
      split
      · exact ⟨.single hResource, hKept⟩
      · exact ⟨.single hResource, hKept⟩
      · exact ⟨.single hResource, hKept⟩

theorem Over.andThen {pass : Pass ρ α} {next : α → KernelContext ρ → Pass ρ β}
    (h : Over resources pass)
    (hNext : ∀ a ctx, ctx.progress.resources = resources → Over resources (next a ctx)) :
    Over resources (pass.andThen next) := by
  rw [Pass.andThen]
  cases pass.result with
  | error failure => exact ⟨h.named, h.kept⟩
  | ok a =>
      have hRest := hNext a pass.context h.kept
      exact ⟨h.named.append hRest.named, hRest.kept⟩

theorem over_cancelLoop (callbacks : Callbacks ρ) (reason : CancelReason) (turns : Nat)
    {ctx : KernelContext ρ} (hResources : ctx.progress.resources = resources) :
    Over resources (cancelLoop callbacks reason turns ctx) := by
  induction turns generalizing ctx with
  | zero => exact ⟨nofun, hResources⟩
  | succ turns ih =>
      rw [cancelLoop]
      apply Over.andThen (hResources ▸ over_cancelTurn callbacks reason ctx)
      intro _ ctx' hKept
      exact ih hKept

theorem over_quiesceLoop (callbacks : Callbacks ρ) (effective : Deadline) (indices : List Nat)
    {ctx : KernelContext ρ} (hResources : ctx.progress.resources = resources) :
    Over resources (quiesceLoop callbacks effective indices ctx) := by
  induction indices generalizing ctx with
  | nil => exact ⟨nofun, hResources⟩
  | cons index rest ih =>
      rw [quiesceLoop]
      split_ifs
      · exact ih hResources
      · apply Over.andThen (hResources ▸ over_quiesceTurn callbacks effective index ctx)
        intro _ ctx' hKept
        exact ih hKept

theorem over_destroyLoop (callbacks : Callbacks ρ) (turns : Nat) {ctx : KernelContext ρ}
    (hResources : ctx.progress.resources = resources) :
    Over resources (destroyLoop callbacks turns ctx) := by
  induction turns generalizing ctx with
  | zero => exact ⟨nofun, hResources⟩
  | succ turns ih =>
      rw [destroyLoop]
      apply Over.andThen (hResources ▸ over_destroyTurn callbacks ctx)
      intro _ ctx' hKept
      exact ih hKept

/-- A whole pass: the frozen resources are dropped with the report of the last one. -/
def Ended (resources : List ρ) (pass : Pass ρ α) : Prop :=
  Named resources pass.log ∧
    (pass.context.progress.resources = resources ∨ pass.context.progress.report ≠ none)

theorem Over.ended {pass : Pass ρ α} (h : Over resources pass) : Ended resources pass :=
  ⟨h.named, Or.inl h.kept⟩

theorem Over.andThen_ended {pass : Pass ρ α} {next : α → KernelContext ρ → Pass ρ β}
    (h : Over resources pass)
    (hNext : ∀ a ctx, ctx.progress.resources = resources → Ended resources (next a ctx)) :
    Ended resources (pass.andThen next) := by
  rw [Pass.andThen]
  cases pass.result with
  | error failure => exact h.ended
  | ok a =>
      have hRest := hNext a pass.context h.kept
      exact ⟨h.named.append hRest.1, hRest.2⟩

theorem ended_settle (callbacks : Callbacks ρ) (effective : Deadline) (now : Nat)
    {ctx : KernelContext ρ} (hResources : ctx.progress.resources = resources) :
    Ended resources (settle callbacks effective now ctx) := by
  rw [settle]
  split_ifs
  · exact ⟨nofun, Or.inl hResources⟩
  · exact ⟨nofun, Or.inl hResources⟩
  · apply Over.andThen_ended (over_destroyLoop callbacks _ hResources)
    intro _ ctx' _
    exact ⟨nofun, Or.inr nofun⟩

theorem ended_drive (callbacks : Callbacks ρ) (reason : CancelReason) (deadline : Deadline)
    (now : Nat) {ctx : KernelContext ρ} (hResources : ctx.progress.resources = resources) :
    Ended resources (drive callbacks reason deadline now ctx) := by
  rw [drive]
  apply Over.andThen_ended (over_cancelLoop callbacks reason _ hResources)
  intro _ ctx' hCancelled
  apply Over.andThen_ended (over_quiesceLoop callbacks _ _ hCancelled)
  intro _ ctx'' hQuiesced
  exact ended_settle callbacks _ now hQuiesced

end Resources

/-- The frozen resources of a first pass: nothing has been called yet. -/
theorem KernelContext.freeze_steady {ctx : KernelContext ρ} (hPhase : ctx.phase = .quiescing)
    (hFresh : ctx.progress = .default) : Steady ctx.resources.length [] ctx.freeze := by
  rw [freeze, hFresh]
  exact
    { legal := legalLog_nil _
      phase := hPhase
      registry := rfl
      started := rfl
      frozen := rfl
      marks := List.length_replicate
      pending := rfl
      sound := rfl
      calm := fun _ hEvent => absurd hEvent List.not_mem_nil
      cancelled := rfl
      bound := Nat.zero_le _
      marked := by
        intro index
        simp [List.getElem?_replicate]
      destroyed := by
        show [] = latest _ (_ - _)
        rw [Nat.sub_self]
        rfl
      remaining := Nat.le_refl _
      late := fun hLate => absurd hLate (Nat.lt_irrefl _)
      ready := fun _ hMem => absurd hMem List.not_mem_nil }

/-- The first pass freezes what is registered. -/
theorem KernelContext.start_steady {ctx ctx' : KernelContext ρ} (hPhase : ctx.phase = .running)
    (hFresh : ctx.progress = .default) (hStart : ctx.start = .ok ctx') :
    Steady ctx.resources.length [] ctx' := by
  have hStarted : ctx.progress.started = false := by
    rw [hFresh]
    rfl
  rw [start_eq, if_neg (by simp [hStarted])] at hStart
  split_ifs at hStart
  obtain rfl := Except.ok.inj hStart
  apply @freeze_steady ρ { ctx with phase := beginClose ctx.phase }
  · simp [beginClose, hPhase]
  · exact hFresh

end Kernel

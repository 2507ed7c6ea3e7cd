import LumioNativeCore.Library.Quota
import LumioNativeCore.Library.Update
import LumioNativeCore.Library.Word

/-! The runtime status of a context (`capability/runtime.rs`): a flag and three counters, each
an atomic of its own. A snapshot reads them one after the other, while other threads go on. -/
namespace Kernel

open Atomic Transition

/-- `RuntimeStatus`. -/
structure RuntimeStatus where
  acceptingWork : Bool
  queuedJobs : Nat
  runningJobs : Nat
  allocatedNativeBytes : Nat
  deriving DecidableEq, Repr

inductive Counter where
  | queuedJobs
  | runningJobs
  | allocatedNativeBytes
  deriving DecidableEq, Repr

namespace Counter

def max : Counter → Nat
  | queuedJobs | runningJobs => Word.max32
  | allocatedNativeBytes => Word.max64

/-- The order in which a snapshot reads the counters. -/
def order : List Counter := [queuedJobs, runningJobs, allocatedNativeBytes]

end Counter

inductive CounterCall where
  | add (d : Int)
  | load

namespace CounterCall

/-- What a call adds. -/
def weight : CounterCall → Int
  | add d => d
  | load => 0

end CounterCall

/-- `saturating_add_u32` and `saturating_add_u64`: `fetch_update` to the nearest value of the
type. A load is an update that leaves the value. -/
def saturatingUpdate (max : Nat) : Update Nat CounterCall Nat where
  next
    | .add d, cur =>
        some (if 0 ≤ d then Word.saturatingAdd max cur d.toNat else cur - d.natAbs)
    | .load, _ => none
  reply
    | _, .ok previous => previous
    | _, .error current => current

/-- An update that stays in the range adds just what it shall. -/
theorem saturatingUpdate_adds {max value : Nat} {call : CounterCall}
    (hLower : 0 ≤ (value : Int) + call.weight) (hUpper : (value : Int) + call.weight ≤ max) :
    (((saturatingUpdate max).serve value call).2 : Int) = value + call.weight := by
  cases call with
  | load =>
      rw [(saturatingUpdate max).serve_of_none rfl]
      exact (add_zero _).symm
  | add d =>
      rw [(saturatingUpdate max).serve_of_next rfl]
      simp only [CounterCall.weight] at hLower hUpper ⊢
      split_ifs with hSign
      · rw [Word.saturatingAdd]
        omega
      · omega

theorem saturatingUpdate_le {max value : Nat} (h : value ≤ max) (call : CounterCall) :
    ((saturatingUpdate max).serve value call).2 ≤ max := by
  cases call with
  | load =>
      rw [(saturatingUpdate max).serve_of_none rfl]
      exact h
  | add d =>
      rw [(saturatingUpdate max).serve_of_next rfl]
      dsimp only
      split_ifs with hSign
      · exact min_le_left _ _
      · omega

/-- A load answers the value. -/
theorem serve_load (max value : Nat) :
    (saturatingUpdate max).serve value .load = (value, value) :=
  (saturatingUpdate max).serve_of_none rfl

/-- What a thread is at. -/
inductive StatusCall where
  | idle
  | adding (counter : Counter)
  | snapshot (acceptingWork : Bool) (read : List Nat)

/-- The counter that the call works on. -/
def StatusCall.counter? : StatusCall → Option Counter
  | idle => none
  | adding counter => some counter
  | snapshot _ read => Counter.order[read.length]?

abbrev CounterEvent := Event Nat CounterCall Nat

abbrev CounterCells := State Nat (UpdateStage Nat CounterCall) Nat

/-- What the code of a call does at a counter, and where it goes on. -/
inductive StatusCall.Turn : StatusCall → Counter → CounterEvent → StatusCall → Prop where
  | add (counter : Counter) (d : Int) : Turn .idle counter (.invoke (.add d)) (.adding counter)
  | update (counter : Counter) (call : CounterCall) (outcome : Observation Nat)
      (effect : Option Nat) :
      Turn (.adding counter) counter (.access call outcome effect) (.adding counter)
  | added (counter : Counter) (call : CounterCall) (answer : Nat) :
      Turn (.adding counter) counter (.returns call answer) .idle
  | load {acceptingWork : Bool} {read : List Nat} {counter : Counter}
      (hNext : Counter.order[read.length]? = some counter) :
      Turn (.snapshot acceptingWork read) counter (.invoke .load) (.snapshot acceptingWork read)
  | look {acceptingWork : Bool} {read : List Nat} {counter : Counter} (outcome : Observation Nat)
      (effect : Option Nat) (hNext : Counter.order[read.length]? = some counter) :
      Turn (.snapshot acceptingWork read) counter (.access .load outcome effect)
        (.snapshot acceptingWork read)
  | loaded {acceptingWork : Bool} {read : List Nat} {counter : Counter} (value : Nat)
      (hNext : Counter.order[read.length]? = some counter) :
      Turn (.snapshot acceptingWork read) counter (.returns .load value)
        (.snapshot acceptingWork (read ++ [value]))

/-- `RuntimeCounters`, with what each thread is at. -/
structure RuntimeCounters where
  acceptingWork : Bool
  counters : Counter → CounterCells
  calls : Nat → StatusCall

inductive StatusEvent where
  | setAcceptingWork (v : Bool)
  | loadAcceptingWork (v : Bool)
  | counter (counter : Counter) (event : CounterEvent)
  | snapshot (status : RuntimeStatus)

namespace RuntimeCounters

def new : RuntimeCounters where
  acceptingWork := true
  counters _ := State.initial 0
  calls _ := .idle

inductive Step : RuntimeCounters → Nat × StatusEvent → RuntimeCounters → Prop where
  | setAcceptingWork {r : RuntimeCounters} (t : Nat) (v : Bool) (hIdle : r.calls t = .idle) :
      Step r (t, .setAcceptingWork v) { r with acceptingWork := v }
  | counter {r : RuntimeCounters} {t : Nat} {counter : Counter} {event : CounterEvent}
      {cells : CounterCells} {next : StatusCall} (hTurn : (r.calls t).Turn counter event next)
      (hStep : Atomic.Step (saturatingUpdate counter.max).code (r.counters counter) (t, event)
        cells) :
      Step r (t, .counter counter event)
        { r with
          counters := Function.update r.counters counter cells
          calls := Function.update r.calls t next }
  | loadAcceptingWork {r : RuntimeCounters} (t : Nat) (hIdle : r.calls t = .idle) :
      Step r (t, .loadAcceptingWork r.acceptingWork)
        { r with calls := Function.update r.calls t (.snapshot r.acceptingWork []) }
  | snapshot {r : RuntimeCounters} {t : Nat} {status : RuntimeStatus}
      (hCall : r.calls t = .snapshot status.acceptingWork
        [status.queuedJobs, status.runningJobs, status.allocatedNativeBytes]) :
      Step r (t, .snapshot status) { r with calls := Function.update r.calls t .idle }

end RuntimeCounters

/-- What happened at one of the counters. -/
def counterLabels (counter : Counter) : Nat × StatusEvent → List (Nat × CounterEvent)
  | (t, .counter own event) => if own = counter then [(t, event)] else []
  | _ => []

def counterIn (counter : Counter) (trace : List (Nat × StatusEvent)) : List (Nat × CounterEvent) :=
  trace.flatMap (counterLabels counter)

/-- What is left of what the threads have added to a counter. -/
def heldIn (counter : Counter) (trace : List (Nat × StatusEvent)) : Int :=
  outstanding CounterCall.weight (counterIn counter trace)

/-- What the flag was set to last. -/
def acceptingIn (trace : List (Nat × StatusEvent)) : Bool :=
  trace.foldl
    (fun accepting label =>
      match label.2 with
      | .setAcceptingWork v => v
      | _ => accepting)
    true

/-- Counters that were read after `start`, one after the other, each at a moment at which it was
just what the threads had left in it. -/
inductive Sampled (start : List (Nat × StatusEvent)) :
    List (Nat × StatusEvent) → List Nat → Prop where
  | start : Sampled start start []
  | read {earlier moment : List (Nat × StatusEvent)} {read : List Nat} {counter : Counter}
      {value : Nat} (prior : Sampled start earlier read) (hLater : earlier <+: moment)
      (hNext : Counter.order[read.length]? = some counter)
      (hValue : (value : Int) = heldIn counter moment) :
      Sampled start moment (read ++ [value])

/-- A thread takes a snapshot since the end of `before`. -/
structure Snapping (trace : List (Nat × StatusEvent)) (t : Nat) (acceptingWork : Bool)
    (read : List Nat) (before during moment : List (Nat × StatusEvent)) : Prop where
  called : trace = before ++ (t, .loadAcceptingWork acceptingWork) :: during
  flag : acceptingIn before = acceptingWork
  own : ∀ label ∈ during, label.1 = t → ∃ counter event, label.2 = .counter counter event
  sampled : Sampled (before ++ [(t, .loadAcceptingWork acceptingWork)]) moment read
  past : moment <+: trace

/-- The threads take no more from a counter than they have added, and have at most their quotas
in it. -/
def Frugal (threads : Finset Nat) (quota : Counter → Nat → Nat)
    (trace : List (Nat × StatusEvent)) : Prop :=
  ∀ counter, Balanced CounterCall.weight threads (quota counter) (counterIn counter trace) ∧
    ∑ t ∈ threads, quota counter t ≤ counter.max

variable {trace : List (Nat × StatusEvent)} {label : Nat × StatusEvent}

theorem Frugal.earlier {threads : Finset Nat} {quota : Counter → Nat → Nat}
    {before : List (Nat × StatusEvent)} (h : Frugal threads quota trace)
    (hBefore : before <+: trace) : Frugal threads quota before := by
  intro counter
  obtain ⟨rest, rfl⟩ := hBefore
  obtain ⟨hBalanced, hQuota⟩ := h counter
  rw [counterIn, List.flatMap_append] at hBalanced
  exact ⟨hBalanced.earlier (List.prefix_append _ _), hQuota⟩

theorem Snapping.snoc {t : Nat} {acceptingWork : Bool} {read : List Nat}
    {before during moment : List (Nat × StatusEvent)}
    (h : Snapping trace t acceptingWork read before during moment)
    (hOwn : label.1 = t → ∃ counter event, label.2 = .counter counter event) :
    Snapping (trace ++ [label]) t acceptingWork read before (during ++ [label]) moment where
  called := by rw [h.called, List.append_assoc, List.cons_append]
  flag := h.flag
  own := List.forall_mem_append.mpr ⟨h.own, List.forall_mem_singleton.mpr hOwn⟩
  sampled := h.sampled
  past := h.past.trans (List.prefix_append _ _)

namespace RuntimeCounters

variable {r r' : RuntimeCounters} {threads : Finset Nat} {quota : Counter → Nat → Nat}

/-- A step of the whole, seen from one counter. -/
theorem Step.run_counter (hStep : Step r label r') (counter : Counter) :
    Run (Atomic.Step (saturatingUpdate counter.max).code) (r.counters counter)
      (counterLabels counter label) (r'.counters counter) := by
  cases hStep with
  | setAcceptingWork => exact Run.nil _
  | loadAcceptingWork => exact Run.nil _
  | snapshot => exact Run.nil _
  | @counter _ own _ _ _ hTurn hStep =>
      by_cases hSame : own = counter
      · subst hSame
        rw [counterLabels, if_pos rfl]
        simpa using Run.single hStep
      · rw [counterLabels, if_neg hSame]
        simpa [Function.update_of_ne (Ne.symm hSame)] using Run.nil _

theorem run_counter (run : Run Step new trace r) (counter : Counter) :
    Run (Atomic.Step (saturatingUpdate counter.max).code) (State.initial 0)
      (counterIn counter trace) (r.counters counter) :=
  run.flatMap (fun r => r.counters counter) _ fun _ _ _ hStep => hStep.run_counter counter

/-- While the threads are frugal a counter is what they have in it. -/
theorem cell_eq (run : Run Step new trace r) (h : Frugal threads quota trace)
    (counter : Counter) : ((r.counters counter).cell : Int) = heldIn counter trace :=
  (h counter).1.cell_eq (saturatingUpdate counter.max).linear
    (fun _ _ hLower hUpper => saturatingUpdate_adds hLower hUpper) (h counter).2
    (run_counter run counter)

/-- A counter stays in the range of its type. -/
theorem cell_le (run : Run Step new trace r) (counter : Counter) :
    (r.counters counter).cell ≤ counter.max := by
  refine Run.preserves (fun s : CounterCells => s.cell ≤ counter.max) ?_
    (run_counter run counter) (Nat.zero_le _)
  intro s label s' hCell hStep
  rcases (saturatingUpdate counter.max).linear.step rfl hStep with hSame | ⟨call, hNext⟩
  · rwa [hSame]
  · rw [← hNext]
    exact saturatingUpdate_le hCell call

/-- A thread that is at a counter is in a call that works on it. -/
def Placed (r : RuntimeCounters) : Prop :=
  ∀ t counter, (r.counters counter).stages t ≠ none → (r.calls t).counter? = some counter

section Turns

variable {t t' : Nat} {counter counter' : Counter} {event : CounterEvent} {cells : CounterCells}
  {call next : StatusCall}

/-- A turn at a counter leaves the other threads and the other counters. -/
theorem stages_other
    (hStep : Atomic.Step (saturatingUpdate counter.max).code (r.counters counter) (t, event) cells)
    (hOther : t' ≠ t ∨ counter' ≠ counter) :
    (Function.update r.counters counter cells counter').stages t' =
      (r.counters counter').stages t' := by
  by_cases hSame : counter' = counter
  · subst hSame
    rw [Function.update_self]
    exact hStep.stages_of_ne (hOther.resolve_right fun h => h rfl).symm
  · rw [Function.update_of_ne hSame]

theorem turn_before (hTurn : call.Turn counter event next) :
    call.counter? = none ∨ call.counter? = some counter := by
  cases hTurn with
  | add => exact Or.inl rfl
  | update => exact Or.inr rfl
  | added => exact Or.inr rfl
  | load hNext => exact Or.inr hNext
  | look _ _ hNext => exact Or.inr hNext
  | loaded _ hNext => exact Or.inr hNext

theorem turn_after (hTurn : call.Turn counter event next) :
    next.counter? = some counter ∨ ∃ request answer, event = .returns request answer := by
  cases hTurn with
  | add => exact Or.inl rfl
  | update => exact Or.inl rfl
  | added => exact Or.inr ⟨_, _, rfl⟩
  | load hNext => exact Or.inl hNext
  | look _ _ hNext => exact Or.inl hNext
  | loaded => exact Or.inr ⟨_, _, rfl⟩

/-- A call that returns has its answer and leaves its counter. -/
theorem stage_returned {request : CounterCall} {answer : Nat} {s : CounterCells}
    (hStep : Atomic.Step (saturatingUpdate counter.max).code s (t, .returns request answer) cells) :
    (∃ stage, s.stages t = some stage ∧
      (saturatingUpdate counter.max).code.answer stage = some answer) ∧
    cells.stages t = none := by
  cases hStep with
  | returns hStage hDone => exact ⟨⟨_, hStage, hDone⟩, State.move_self _ _ _ _⟩

end Turns

theorem Placed.idle (h : r.Placed) {t : Nat} (hCall : (r.calls t).counter? = none)
    (counter : Counter) : (r.counters counter).stages t = none := by
  by_contra hStage
  rw [h t counter hStage] at hCall
  cases hCall

/-- A step leaves the other threads where they are. -/
theorem Step.frame {t t' : Nat} {event : StatusEvent} (hStep : Step r (t, event) r')
    (hThread : t' ≠ t) :
    r'.calls t' = r.calls t' ∧
      ∀ counter, (r'.counters counter).stages t' = (r.counters counter).stages t' := by
  cases hStep with
  | setAcceptingWork => exact ⟨rfl, fun _ => rfl⟩
  | loadAcceptingWork => exact ⟨Function.update_of_ne hThread _ _, fun _ => rfl⟩
  | snapshot => exact ⟨Function.update_of_ne hThread _ _, fun _ => rfl⟩
  | counter hTurn hStep =>
      exact ⟨Function.update_of_ne hThread _ _, fun _ => stages_other hStep (Or.inl hThread)⟩

theorem Placed.step (h : r.Placed) (hStep : Step r label r') : r'.Placed := by
  obtain ⟨t, event⟩ := label
  intro t' counter hStage
  rcases eq_or_ne t' t with rfl | hThread
  · cases hStep with
    | setAcceptingWork => exact h t' counter hStage
    | loadAcceptingWork _ hIdle => exact absurd (h.idle (hIdle ▸ rfl) counter) hStage
    | snapshot hCall => exact absurd (h.idle (hCall ▸ rfl) counter) hStage
    | @counter _ own _ cells next hTurn hStep =>
        dsimp only at hStage ⊢
        rw [Function.update_self]
        by_cases hSame : counter = own
        · subst hSame
          rw [Function.update_self] at hStage
          rcases turn_after hTurn with hNext | ⟨request, answer, rfl⟩
          · exact hNext
          · exact absurd (stage_returned hStep).2 hStage
        · rw [stages_other hStep (Or.inr hSame)] at hStage
          rcases turn_before hTurn with hIdle | hOwn
          · exact absurd (h.idle hIdle counter) hStage
          · exact absurd (Option.some.inj ((h t' counter hStage).symm.trans hOwn)) hSame
  · obtain ⟨hCall, hStages⟩ := hStep.frame hThread
    rw [hStages] at hStage
    rw [hCall]
    exact h t' counter hStage

theorem placed_of_run (run : Run Step new trace r) : r.Placed :=
  run.preserves Placed (fun _ _ _ h hStep => h.step hStep) fun _ _ hStage => absurd rfl hStage

theorem accepting_eq (run : Run Step new trace r) : r.acceptingWork = acceptingIn trace := by
  refine run.invariant (fun trace r => r.acceptingWork = acceptingIn trace) rfl ?_
  intro trace r label r' hPrior hStep
  rw [acceptingIn, List.foldl_append]
  cases hStep with
  | setAcceptingWork => rfl
  | loadAcceptingWork => exact hPrior
  | snapshot => exact hPrior
  | counter => exact hPrior

/-- A thread in a snapshot has read each counter at a moment of its own, the one that it is
about to return included. -/
def Reading (trace : List (Nat × StatusEvent)) (r : RuntimeCounters) (t : Nat) : Prop :=
  ∀ acceptingWork read, r.calls t = .snapshot acceptingWork read →
    ∃ before during moment, Snapping trace t acceptingWork read before during moment ∧
      ∀ counter stage value, (r.counters counter).stages t = some stage →
        (saturatingUpdate counter.max).code.answer stage = some value →
        ∃ later, moment <+: later ∧ later <+: trace ∧ (value : Int) = heldIn counter later

theorem found_snoc {moment : List (Nat × StatusEvent)} {counter : Counter} {value : Nat}
    (h : ∃ later, moment <+: later ∧ later <+: trace ∧ (value : Int) = heldIn counter later) :
    ∃ later, moment <+: later ∧ later <+: trace ++ [label] ∧
      (value : Int) = heldIn counter later := by
  obtain ⟨later, hLater, hPast, hHeld⟩ := h
  exact ⟨later, hLater, hPast.trans (List.prefix_append _ _), hHeld⟩

theorem Reading.other {t t' : Nat} {event : StatusEvent} (h : Reading trace r t)
    (hStep : Step r (t', event) r') (hThread : t ≠ t') :
    Reading (trace ++ [(t', event)]) r' t := by
  intro acceptingWork read hCall
  obtain ⟨hCalls, hStages⟩ := hStep.frame hThread
  rw [hCalls] at hCall
  obtain ⟨before, during, moment, hSnapping, hAnswer⟩ := h acceptingWork read hCall
  have hSnapping' : Snapping (trace ++ [(t', event)]) t acceptingWork read before _ moment :=
    hSnapping.snoc fun hOwn => absurd hOwn.symm hThread
  refine ⟨before, _, moment, hSnapping', fun counter stage value hStage hValue => ?_⟩
  rw [hStages] at hStage
  exact found_snoc (hAnswer counter stage value hStage hValue)

/-- A load has its answer at the access that found it. -/
theorem look_value {t : Nat} {counter : Counter} {outcome : Observation Nat} {effect : Option Nat}
    {cells : CounterCells} {stage : UpdateStage Nat CounterCall} {value : Nat}
    (hStep : Atomic.Step (saturatingUpdate counter.max).code (r.counters counter)
      (t, .access .load outcome effect) cells)
    (hStage : cells.stages t = some stage)
    (hValue : (saturatingUpdate counter.max).code.answer stage = some value) :
    value = (r.counters counter).cell := by
  obtain ⟨_, stage', -, hCall, hRuns, -, hCells⟩ := hStep.access_cases
  rw [hCells, State.move_self] at hStage
  obtain rfl := Option.some.inj hStage
  obtain ⟨hServed, -⟩ := (saturatingUpdate counter.max).linear.serves rfl hRuns hValue
  rw [hCall, serve_load] at hServed
  exact hServed.symm

theorem Reading.own {t : Nat} {event : StatusEvent} (h : Reading trace r t)
    (run : Run Step new trace r) (hFrugal : Frugal threads quota trace)
    (hStep : Step r (t, event) r') : Reading (trace ++ [(t, event)]) r' t := by
  have hPlaced := placed_of_run run
  intro acceptingWork read hCall
  cases hStep with
  | setAcceptingWork _ v hIdle => exact absurd (hIdle.symm.trans hCall) nofun
  | snapshot =>
      dsimp only at hCall
      rw [Function.update_self] at hCall
      cases hCall
  | loadAcceptingWork _ hIdle =>
      dsimp only at hCall
      rw [Function.update_self] at hCall
      cases hCall
      refine ⟨trace, [], _, ⟨rfl, (accepting_eq run).symm, nofun, .start, List.prefix_refl _⟩,
        fun counter stage value hStage => ?_⟩
      exact absurd ((hPlaced.idle (hIdle ▸ rfl) counter).symm.trans hStage) nofun
  | @counter _ own event cells next hTurn hStep =>
      dsimp only at hCall ⊢
      rw [Function.update_self] at hCall
      subst hCall
      -- the code of a snapshot goes on at the counter that is next
      generalize hPrior : r.calls t = call at hTurn
      cases hTurn with
      | load hNext =>
          obtain ⟨before, during, moment, hSnapping, hAnswer⟩ := h _ _ hPrior
          refine ⟨before, _, moment, hSnapping.snoc fun _ => ⟨_, _, rfl⟩,
            fun counter stage value hStage hValue => ?_⟩
          by_cases hSame : counter = own
          · subst hSame
            rw [Function.update_self] at hStage
            cases hStep with
            | invoke hIdle =>
                rw [State.move_self] at hStage
                obtain rfl := Option.some.inj hStage
                exact absurd hValue nofun
          · rw [stages_other hStep (Or.inr hSame)] at hStage
            exact found_snoc (hAnswer counter stage value hStage hValue)
      | look outcome effect hNext =>
          obtain ⟨before, during, moment, hSnapping, hAnswer⟩ := h _ _ hPrior
          refine ⟨before, _, moment, hSnapping.snoc fun _ => ⟨_, _, rfl⟩,
            fun counter stage value hStage hValue => ?_⟩
          by_cases hSame : counter = own
          · subst hSame
            rw [Function.update_self] at hStage
            obtain rfl := look_value hStep hStage hValue
            exact ⟨trace, hSnapping.past, List.prefix_append _ _, cell_eq run hFrugal counter⟩
          · rw [stages_other hStep (Or.inr hSame)] at hStage
            exact found_snoc (hAnswer counter stage value hStage hValue)
      | @loaded _ read _ value hNext =>
          obtain ⟨before, during, moment, hSnapping, hAnswer⟩ := h _ _ hPrior
          obtain ⟨⟨stage, hStage, hDone⟩, hLeft⟩ := stage_returned hStep
          obtain ⟨later, hLater, hPast, hHeld⟩ := hAnswer own stage value hStage hDone
          have hRead : Snapping (trace ++ [(t, .counter own (.returns .load value))]) t
              acceptingWork read before _ moment := hSnapping.snoc fun _ => ⟨_, _, rfl⟩
          refine ⟨before, _, later, { hRead with
            sampled := hSnapping.sampled.read hLater hNext hHeld
            past := hPast.trans (List.prefix_append _ _) },
            fun counter stage value' hStage => ?_⟩
          by_cases hSame : counter = own
          · subst hSame
            rw [Function.update_self, hLeft] at hStage
            cases hStage
          · rw [stages_other hStep (Or.inr hSame)] at hStage
            have hOwn := hPlaced t counter (hStage ▸ nofun)
            rw [hPrior] at hOwn
            exact absurd (Option.some.inj (hOwn.symm.trans hNext)) hSame

theorem reading_of_run (run : Run Step new trace r) (hFrugal : Frugal threads quota trace)
    (t : Nat) : Reading trace r t := by
  induction run with
  | nil => intro acceptingWork read hCall; cases hCall
  | @snoc r r' trace label prior last ih =>
      obtain ⟨t', event⟩ := label
      have hEarlier := hFrugal.earlier (List.prefix_append _ _)
      rcases eq_or_ne t t' with rfl | hThread
      · exact (ih hEarlier).own prior hEarlier last
      · exact (ih hEarlier).other last hThread

/-- However the threads interleave, while they are frugal each counter is just what they have
left in it, within its range; between calls it is what they have asked for; and a snapshot is
the flag as it was when the snapshot began, with each counter as it was at a moment since then,
the moments in the order of the fields. -/
theorem snapshot_exact (hFrugal : Frugal threads quota trace) (run : Run Step new trace r) :
    (∀ counter, ((r.counters counter).cell : Int) = heldIn counter trace ∧
      (r.counters counter).cell ≤ counter.max) ∧
    ((∀ t, r.calls t = .idle) → ∀ counter, ((r.counters counter).cell : Int) =
      ∑ t ∈ threads, asked CounterCall.weight t (counterIn counter trace)) ∧
    ∀ earlier t status later, trace = earlier ++ (t, .snapshot status) :: later →
      ∃ before during moment, Snapping earlier t status.acceptingWork
        [status.queuedJobs, status.runningJobs, status.allocatedNativeBytes]
        before during moment := by
  refine ⟨fun counter => ⟨cell_eq run hFrugal counter, cell_le run counter⟩, ?_, ?_⟩
  · intro hIdle counter
    have hQuiet : ∀ t, (r.counters counter).stages t = none := fun t =>
      (placed_of_run run).idle (hIdle t ▸ rfl) counter
    rw [cell_eq run hFrugal counter]
    exact (hFrugal counter).1.outstanding_quiet (run_counter run counter) hQuiet
  · rintro earlier t status later rfl
    obtain ⟨middle, _, prior, hStep, -⟩ := run.at
    have hReading := reading_of_run prior (hFrugal.earlier (List.prefix_append _ _)) t
    cases hStep with
    | snapshot hCall =>
        obtain ⟨before, during, moment, hSnapping, -⟩ := hReading _ _ hCall
        exact ⟨before, during, moment, hSnapping⟩

/-- A load returns what it has found. -/
theorem step_loaded {max t value : Nat} {s : CounterCells}
    (hStage : s.stages t = some (.loaded .load value)) :
    Atomic.Step (saturatingUpdate max).code s (t, .returns .load value) (s.move t s.cell none) :=
  .returns hStage rfl

/-- A load finds what the counter is. -/
theorem step_looked {max t : Nat} {s : CounterCells}
    (hStage : s.stages t = some (.start .load)) :
    Atomic.Step (saturatingUpdate max).code s (t, .access .load (.loaded s.cell) (some s.cell))
      (s.move t s.cell (some (.loaded .load s.cell))) := by
  have hRuns : ((saturatingUpdate max).code.access (.start .load)).Runs s.cell (.loaded s.cell)
      s.cell (.loaded .load s.cell) := .load
  exact .access hStage hRuns

/-- A thread adds two jobs, and another takes a snapshot. -/
def addedTrace : List (Nat × StatusEvent) :=
  [(0, .counter .queuedJobs (.invoke (.add 2))),
    (0, .counter .queuedJobs (.access (.add 2) (.loaded 0) none)),
    (0, .counter .queuedJobs (.access (.add 2) (.exchanged 0) (some 0))),
    (0, .counter .queuedJobs (.returns (.add 2) 0)),
    (1, .loadAcceptingWork true),
    (1, .counter .queuedJobs (.invoke .load)),
    (1, .counter .queuedJobs (.access .load (.loaded 2) (some 2))),
    (1, .counter .queuedJobs (.returns .load 2)),
    (1, .counter .runningJobs (.invoke .load)),
    (1, .counter .runningJobs (.access .load (.loaded 0) (some 0))),
    (1, .counter .runningJobs (.returns .load 0)),
    (1, .counter .allocatedNativeBytes (.invoke .load)),
    (1, .counter .allocatedNativeBytes (.access .load (.loaded 0) (some 0))),
    (1, .counter .allocatedNativeBytes (.returns .load 0))]

theorem frugal_added :
    Frugal {0, 1} (fun _ _ => 2) (addedTrace ++ [(1, .snapshot ⟨true, 2, 0, 0⟩)]) := by
  intro counter
  refine ⟨Balanced.of_nonneg ?_ ?_ fun t => ?_, ?_⟩
  · cases counter <;> decide
  · cases counter <;> decide
  · show _ ≤ (2 : Int)
    cases counter <;> decide
  · cases counter <;> decide

theorem snapshot_exact_added :
    ∃ r before during moment,
      Run Step new (addedTrace ++ [(1, .snapshot ⟨true, 2, 0, 0⟩)]) r ∧
      Snapping addedTrace 1 true [2, 0, 0] before during moment := by
  have hAdded := Run.snoc (Run.snoc (Run.snoc (Run.snoc (Run.nil new)
    (Step.counter (t := 0) (.add .queuedJobs 2) (.invoke rfl)))
    (Step.counter (t := 0) (.update _ _ _ _) (.access rfl .load)))
    (Step.counter (t := 0) (.update _ _ _ _) (.access rfl .exchanged)))
    (Step.counter (t := 0) (.added _ _ _) (.returns rfl rfl))
  have hQueued := Run.snoc (Run.snoc (Run.snoc (Run.snoc hAdded
    (Step.loadAcceptingWork 1 rfl))
    (Step.counter (t := 1) (.load rfl) (.invoke rfl)))
    (Step.counter (t := 1) (.look _ _ rfl) (step_looked rfl)))
    (Step.counter (t := 1) (.loaded 2 rfl) (step_loaded rfl))
  have hRunning := Run.snoc (Run.snoc (Run.snoc hQueued
    (Step.counter (t := 1) (.load rfl) (.invoke rfl)))
    (Step.counter (t := 1) (.look _ _ rfl) (step_looked rfl)))
    (Step.counter (t := 1) (.loaded 0 rfl) (step_loaded rfl))
  have hBytes := Run.snoc (Run.snoc (Run.snoc hRunning
    (Step.counter (t := 1) (.load rfl) (.invoke rfl)))
    (Step.counter (t := 1) (.look _ _ rfl) (step_looked rfl)))
    (Step.counter (t := 1) (.loaded 0 rfl) (step_loaded rfl))
  have hTrace : Run Step new addedTrace _ := hBytes
  have hReturned := hTrace.snoc (@Step.snapshot _ 1 ⟨true, 2, 0, 0⟩ rfl)
  obtain ⟨-, -, hSnapshots⟩ := snapshot_exact frugal_added hReturned
  obtain ⟨before, during, moment, hSnapping⟩ := hSnapshots addedTrace 1 _ [] rfl
  exact ⟨_, before, during, moment, hReturned, hSnapping⟩

end RuntimeCounters
end Kernel

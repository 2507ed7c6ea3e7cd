import LumioNativeCore.Library.Linear
import LumioNativeCore.Job.Worker

/-! The atomic execution state of a job (`state.rs`), under any number of callers. -/
namespace Job

open Atomic Transition

universe u

namespace JobState

/-- `as u8`. -/
def code : JobState → UInt8
  | queued => 0
  | running => 1
  | succeeded => 2
  | failed => 3
  | cancelled => 4
  | timedOut => 5

end JobState

/-- No state stands for the unreachable case. -/
def decode (raw : UInt8) : Option JobState :=
  if raw = 0 then some .queued
  else if raw = 1 then some .running
  else if raw = 2 then some .succeeded
  else if raw = 3 then some .failed
  else if raw = 4 then some .cancelled
  else if raw = 5 then some .timedOut
  else none

@[simp] theorem decode_code (state : JobState) : decode state.code = some state := by
  cases state <;> rfl

theorem JobState.code_injective {state state' : JobState} (h : state.code = state'.code) :
    state = state' := by
  have hDecode := congrArg decode h
  rwa [decode_code, decode_code, Option.some.injEq] at hDecode

inductive CellCall where
  | casStart
  | casCancel
  | casComplete (target : JobState)
  deriving DecidableEq

/-- `casCancel` succeeds with the state it has left. -/
inductive CellAnswer where
  | ok
  | okFrom (previous : JobState)
  | err (state : JobState)
  | unreachable
  deriving DecidableEq

/-- `map_err(decode)`. -/
def CellAnswer.refused (raw : UInt8) : CellAnswer :=
  (decode raw).elim unreachable err

def CellAnswer.isOk : CellAnswer → Bool
  | ok => true
  | okFrom _ => true
  | _ => false

/-- `exchange` holds the snapshot of the current iteration of the loop in `cas_cancel`,
which goes on with these two states only. -/
inductive CellStage where
  | casStart
  | snapshot
  | exchange (current : JobState) (hActive : current = .queued ∨ current = .running)
  | casComplete (target : JobState)
  | finished (call : CellCall) (answer : CellAnswer)

namespace CellStage

def start : CellCall → CellStage
  | .casStart => casStart
  | .casCancel => snapshot
  | .casComplete target => casComplete target

def call : CellStage → CellCall
  | casStart => .casStart
  | snapshot => .casCancel
  | exchange _ _ => .casCancel
  | casComplete target => .casComplete target
  | finished call _ => call

/-- The loop of `cas_cancel` after its snapshot. -/
def judge (raw : UInt8) : CellStage :=
  (decode raw).elim (finished .casCancel .unreachable) fun current =>
    if hActive : current = .queued ∨ current = .running then exchange current hActive
    else finished .casCancel (.err current)

/-- A single exchange: `map(|_| ())` and `map_err(decode)`. -/
def once (call : CellCall) : Except UInt8 UInt8 → CellStage
  | .ok _ => finished call .ok
  | .error actual => finished call (.refused actual)

def retry (current : JobState) : Except UInt8 UInt8 → CellStage
  | .ok _ => finished .casCancel (.okFrom current)
  | .error _ => snapshot

def access : CellStage → Access UInt8 CellStage CellAnswer
  | casStart => .compareExchange false JobState.queued.code JobState.running.code (once .casStart)
  | snapshot => .load judge
  | exchange current _ =>
      .compareExchange false current.code JobState.cancelled.code (retry current)
  | casComplete target =>
      if target = .succeeded ∨ target = .failed then
        .compareExchange false JobState.running.code target.code (once (.casComplete target))
      else .load fun raw => finished (.casComplete target) (.refused raw)
  | finished _ answer => .done answer

end CellStage

/-- What a call does to a state that nobody else changes. -/
def JobState.serve (state : JobState) : CellCall → CellAnswer × JobState
  | .casStart => if state = .queued then (.ok, .running) else (.err state, state)
  | .casCancel =>
      if state = .queued ∨ state = .running then (.okFrom state, .cancelled)
      else (.err state, state)
  | .casComplete target =>
      if (target = .succeeded ∨ target = .failed) ∧ state = .running then (.ok, target)
      else (.err state, state)

/-- The cell is the code of a state that a job can have. -/
def Encodes (state : JobState) (raw : UInt8) : Prop :=
  raw = state.code ∧ state ≠ .timedOut

namespace CellStage

variable {stage stage' : CellStage} {raw raw' : UInt8} {outcome : Observation UInt8}

@[simp] theorem judge_code (state : JobState) :
    judge state.code = if hActive : state = .queued ∨ state = .running then exchange state hActive
      else finished .casCancel (.err state) := by
  rw [judge, decode_code, Option.elim_some]

@[simp] theorem refused_code (state : JobState) : CellAnswer.refused state.code = .err state := by
  rw [CellAnswer.refused, decode_code, Option.elim_some]

theorem judge_call (raw : UInt8) : (judge raw).call = .casCancel := by
  cases h : decode raw with
  | none => simp [judge, h, call]
  | some current =>
      simp only [judge, h, Option.elim_some]
      split <;> rfl

theorem call_next (hRuns : stage.access.Runs raw outcome raw' stage') :
    stage'.call = stage.call := by
  cases stage with
  | casStart =>
      cases hRuns with
      | exchanged => rfl
      | refused => rfl
  | snapshot =>
      cases hRuns with
      | load => exact judge_call raw
  | exchange current hActive =>
      cases hRuns with
      | exchanged => rfl
      | refused => rfl
  | finished call answer => cases hRuns
  | casComplete target =>
      rw [access] at hRuns
      split at hRuns
      · cases hRuns with
        | exchanged => rfl
        | refused => rfl
      · cases hRuns with
        | load => rfl

theorem start_open (call : CellCall) : (start call).access.answer = none := by
  cases call with
  | casStart => rfl
  | casCancel => rfl
  | casComplete target =>
      simp only [start, access]
      split <;> rfl

theorem call_start (call : CellCall) : (start call).call = call := by
  cases call <;> rfl

/-- A single exchange is the whole call at the state it finds, when that is what the call
does to the state expected and it leaves every other one alone. -/
theorem once_runs {call : CellCall} {state expected new : JobState}
    (hTaken : expected.serve call = (.ok, new))
    (hLeft : state ≠ expected → state.serve call = (.err state, state))
    (hRuns : (Access.compareExchange false expected.code new.code (once call) :
      Access UInt8 CellStage CellAnswer).Runs state.code outcome raw' stage') :
    stage' = finished call (state.serve call).1 ∧ raw' = (state.serve call).2.code := by
  rcases Access.runs_compareExchange hRuns with ⟨hSame, rfl, rfl⟩ | ⟨hOther, -, rfl, rfl⟩
  · obtain rfl := JobState.code_injective hSame
    rw [hTaken]
    exact ⟨rfl, rfl⟩
  · rcases hOther with hWeak | hOther
    · cases hWeak
    · rw [hLeft fun hSame => hOther (congrArg _ hSame), once, refused_code]
      exact ⟨rfl, rfl⟩

/-- An access of the loop reads a state to cancel or finds another one at its exchange; every
other access is the whole call at the state it finds. -/
theorem runs_cases {state : JobState} (hRuns : stage.access.Runs state.code outcome raw' stage') :
    (∃ hActive, stage = snapshot ∧ outcome = .loaded state.code ∧
        stage' = exchange state hActive ∧ raw' = state.code) ∨
      (∃ current hActive, stage = exchange current hActive ∧ outcome = .refused state.code ∧
        current ≠ state ∧ stage' = snapshot ∧ raw' = state.code) ∨
      (stage' = finished stage.call (state.serve stage.call).1 ∧
        raw' = (state.serve stage.call).2.code) := by
  cases stage with
  | finished call answer => cases hRuns
  | casStart =>
      exact Or.inr (Or.inr (once_runs rfl (fun hOther => if_neg hOther) hRuns))
  | snapshot =>
      obtain ⟨rfl, rfl, rfl⟩ := Access.runs_load hRuns
      by_cases hActive : state = .queued ∨ state = .running
      · exact Or.inl ⟨hActive, rfl, rfl, by rw [judge_code, dif_pos hActive], rfl⟩
      · refine Or.inr (Or.inr ?_)
        rw [judge_code, dif_neg hActive, call, JobState.serve, if_neg hActive]
        exact ⟨rfl, rfl⟩
  | exchange current hActive =>
      rcases Access.runs_compareExchange hRuns with ⟨hSame, rfl, rfl⟩ | ⟨hOther, rfl, rfl, rfl⟩
      · obtain rfl := JobState.code_injective hSame
        refine Or.inr (Or.inr ?_)
        rw [call, JobState.serve, if_pos hActive]
        exact ⟨rfl, rfl⟩
      · refine Or.inr (Or.inl ⟨current, hActive, rfl, rfl, ?_, rfl, rfl⟩)
        rintro rfl
        rcases hOther with hWeak | hOther
        · cases hWeak
        · exact hOther rfl
  | casComplete target =>
      rw [access] at hRuns
      by_cases hTarget : target = .succeeded ∨ target = .failed
      · rw [if_pos hTarget] at hRuns
        exact Or.inr (Or.inr (once_runs (if_pos ⟨hTarget, rfl⟩)
          (fun hOther => if_neg fun h => hOther h.2) hRuns))
      · rw [if_neg hTarget] at hRuns
        obtain ⟨rfl, rfl, rfl⟩ := Access.runs_load hRuns
        refine Or.inr (Or.inr ?_)
        rw [call, JobState.serve, if_neg fun h => hTarget h.1, refused_code]
        exact ⟨rfl, rfl⟩

end CellStage

/-- The code of `JobStateMachine`. -/
def cellCode : Code UInt8 CellStage CellCall CellAnswer where
  start := CellStage.start
  call := CellStage.call
  access := CellStage.access
  call_start := CellStage.call_start
  start_open := CellStage.start_open
  call_next := CellStage.call_next

/-- A call that takes effect moves the state on; every other one reports it. -/
theorem JobState.serve_cases (state : JobState) (call : CellCall) :
    (state.serve call = (.err state, state)) ∨
      (call = .casStart ∧ state = .queued ∧ state.serve call = (.ok, .running)) ∨
      (call = .casCancel ∧ (state = .queued ∨ state = .running) ∧
        state.serve call = (.okFrom state, .cancelled)) ∨
      ∃ target, call = .casComplete target ∧ (target = .succeeded ∨ target = .failed) ∧
        state = .running ∧ state.serve call = (.ok, target) := by
  cases call with
  | casStart =>
      by_cases hQueued : state = .queued
      · exact Or.inr (Or.inl ⟨rfl, hQueued, if_pos hQueued⟩)
      · exact Or.inl (if_neg hQueued)
  | casCancel =>
      by_cases hActive : state = .queued ∨ state = .running
      · exact Or.inr (Or.inr (Or.inl ⟨rfl, hActive, if_pos hActive⟩))
      · exact Or.inl (if_neg hActive)
  | casComplete target =>
      by_cases hTaken : (target = .succeeded ∨ target = .failed) ∧ state = .running
      · exact Or.inr (Or.inr (Or.inr ⟨target, rfl, hTaken.1, hTaken.2, if_pos hTaken⟩))
      · exact Or.inl (if_neg hTaken)

/-- A call that fails reports the state that it found. -/
theorem JobState.serve_err {state reported : JobState} {call : CellCall}
    (h : (state.serve call).1 = .err reported) : reported = state := by
  rcases serve_cases state call with hServe | ⟨-, -, hServe⟩ | ⟨-, -, hServe⟩ | ⟨_, -, -, -, hServe⟩
  · rw [hServe] at h
    cases h
    rfl
  · cases hServe ▸ h
  · cases hServe ▸ h
  · cases hServe ▸ h

theorem JobState.serve_okFrom {state previous : JobState} {call : CellCall}
    (h : (state.serve call).1 = .okFrom previous) :
    previous = state ∧ (state.serve call).2 = .cancelled := by
  rcases serve_cases state call with hServe | ⟨-, -, hServe⟩ | ⟨-, -, hServe⟩ | ⟨_, -, -, -, hServe⟩
  · cases hServe ▸ h
  · cases hServe ▸ h
  · rw [hServe] at h ⊢
    cases h
    exact ⟨rfl, rfl⟩
  · cases hServe ▸ h

theorem JobState.serve_ne_unreachable (state : JobState) (call : CellCall) :
    (state.serve call).1 ≠ .unreachable := by
  rcases serve_cases state call with hServe | ⟨-, -, hServe⟩ | ⟨-, -, hServe⟩ | ⟨_, -, -, -, hServe⟩
  all_goals simp [hServe]

theorem JobState.serve_ne_timedOut {state : JobState} (h : state ≠ .timedOut) (call : CellCall) :
    (state.serve call).2 ≠ .timedOut := by
  rcases serve_cases state call with hServe | ⟨-, -, hServe⟩ | ⟨-, -, hServe⟩ |
    ⟨target, -, hTarget, -, hServe⟩
  · rwa [hServe]
  · simp [hServe]
  · simp [hServe]
  · rw [hServe]
    rcases hTarget with rfl | rfl <;> decide

theorem cell_linear : Linear cellCode JobState.serve Encodes where
  waits := by
    intro state stage raw outcome raw' stage' hEncodes hRuns hOpen
    obtain ⟨rfl, -⟩ := hEncodes
    rcases CellStage.runs_cases hRuns with ⟨_, -, -, -, hSame⟩ | ⟨_, _, -, -, -, -, hSame⟩ | ⟨rfl, -⟩
    · exact hSame
    · exact hSame
    · cases hOpen
  serves := by
    intro state stage raw outcome raw' stage' answer hEncodes hRuns hAnswer
    obtain ⟨rfl, hState⟩ := hEncodes
    rcases CellStage.runs_cases hRuns with ⟨hActive, -, -, rfl, -⟩ | ⟨_, _, -, -, -, rfl, -⟩ |
      ⟨rfl, rfl⟩
    · cases hAnswer
    · cases hAnswer
    · cases hAnswer
      exact ⟨rfl, rfl, JobState.serve_ne_timedOut hState _⟩

/-! What a sequence of calls adds up to. -/

/-- The calls that take a job to its end. -/
def CellCall.wins : CellCall × CellAnswer → Bool
  | (.casStart, _) => false
  | (_, answer) => answer.isOk

theorem count_started (state : JobState) (calls : List CellCall) :
    (Machine.run JobState.serve state calls).1.count (.casStart, .ok) ≤
      if state = .queued then 1 else 0 := by
  induction calls generalizing state with
  | nil => exact Nat.zero_le _
  | cons call rest ih =>
      rw [Machine.run_cons, List.count_cons]
      have hRest := ih (state.serve call).2
      rcases JobState.serve_cases state call with hServe | ⟨rfl, rfl, hServe⟩ |
        ⟨rfl, -, hServe⟩ | ⟨target, rfl, hTarget, rfl, hServe⟩
      · rw [hServe] at hRest ⊢
        simpa using hRest
      · rw [hServe] at hRest ⊢
        simpa using hRest
      · rw [hServe] at hRest ⊢
        refine (Nat.le_of_eq ?_).trans (hRest.trans (Nat.zero_le _))
        simp
      · rw [hServe] at hRest ⊢
        rcases hTarget with rfl | rfl
        · simpa using hRest
        · simpa using hRest

theorem count_won (state : JobState) (calls : List CellCall) :
    (Machine.run JobState.serve state calls).1.countP CellCall.wins +
        (if state.isTerminal then 1 else 0) =
      if (Machine.run JobState.serve state calls).2.isTerminal then 1 else 0 := by
  induction calls generalizing state with
  | nil => exact Nat.zero_add _
  | cons call rest ih =>
      rw [Machine.run_cons, List.countP_cons, ← ih]
      rcases JobState.serve_cases state call with hServe | ⟨rfl, rfl, hServe⟩ |
        ⟨rfl, hActive, hServe⟩ | ⟨target, rfl, hTarget, rfl, hServe⟩
      · rw [hServe]
        cases call <;> simp [CellCall.wins, CellAnswer.isOk]
      · rw [hServe]
        simp [CellCall.wins, JobState.isTerminal]
      · rw [hServe]
        rcases hActive with rfl | rfl <;> simp [CellCall.wins, CellAnswer.isOk, JobState.isTerminal]
      · rw [hServe]
        rcases hTarget with rfl | rfl <;> simp [CellCall.wins, CellAnswer.isOk, JobState.isTerminal]

/-- How far a job has come. -/
def JobState.rank : JobState → Nat
  | queued => 0
  | running => 1
  | _ => 2

theorem JobState.rank_le (state : JobState) : state.rank ≤ 2 := by
  cases state <;> decide

/-- A job moves forward and does not leave its end. -/
def JobState.Forward (state state' : JobState) : Prop :=
  state.rank ≤ state'.rank ∧ (state.isTerminal = true → state' = state)

theorem JobState.Forward.trans {state state' state'' : JobState} (h : state.Forward state')
    (h' : state'.Forward state'') : state.Forward state'' := by
  refine ⟨h.1.trans h'.1, fun hTerminal => ?_⟩
  obtain rfl := h.2 hTerminal
  exact h'.2 hTerminal

theorem JobState.forward_serve (state : JobState) (call : CellCall) :
    state.Forward (state.serve call).2 := by
  rcases serve_cases state call with hServe | ⟨-, rfl, hServe⟩ | ⟨-, hActive, hServe⟩ |
    ⟨target, -, hTarget, rfl, hServe⟩
  · rw [hServe]
    exact ⟨Nat.le_refl _, fun _ => rfl⟩
  · rw [hServe]
    exact ⟨by decide, by decide⟩
  · rw [hServe]
    rcases hActive with rfl | rfl <;> exact ⟨by decide, by decide⟩
  · rw [hServe]
    rcases hTarget with rfl | rfl <;> exact ⟨by decide, by decide⟩

section Callers

variable {Thread : Type u} [DecidableEq Thread]
  {trace : List (Thread × Event UInt8 CellCall CellAnswer)} {s : State UInt8 CellStage Thread}

/-- The machine of `queued`. -/
def queuedCell : State UInt8 CellStage Thread :=
  State.initial JobState.queued.code

/-- A step keeps the cell a code and takes the job forward. -/
theorem forward_step {s s' : State UInt8 CellStage Thread} {state : JobState}
    {label : Thread × Event UInt8 CellCall CellAnswer} (hEncodes : Encodes state s.cell)
    (hStep : Step cellCode s label s') :
    ∃ state', Encodes state' s'.cell ∧ state.Forward state' := by
  rcases cell_linear.step hEncodes hStep with hSame | ⟨call, hNext⟩
  · exact ⟨state, hSame ▸ hEncodes, Nat.le_refl _, fun _ => rfl⟩
  · exact ⟨_, hNext, state.forward_serve call⟩

theorem encodes_queued : Encodes .queued JobState.queued.code :=
  ⟨rfl, by decide⟩

/-- The loop of a cancelling caller after so many snapshots: every exchange that was refused
found a job that had come further than its snapshot. -/
def CellStage.Within (loads : Nat) (state : JobState) : CellStage → Prop
  | snapshot => loads ≤ state.rank
  | exchange current _ => loads ≤ current.rank + 1 ∧ current.rank ≤ state.rank
  | _ => loads ≤ 3

theorem CellStage.Within.forward {loads : Nat} {state state' : JobState} {stage : CellStage}
    (h : stage.Within loads state) (hForward : state.Forward state') : stage.Within loads state' := by
  cases stage with
  | snapshot => exact Nat.le_trans h hForward.1
  | exchange current hActive => exact ⟨h.1, h.2.trans hForward.1⟩
  | casStart => exact h
  | casComplete target => exact h
  | finished call answer => exact h

/-- A state of its own rank among the active ones. -/
theorem JobState.rank_lt {state current : JobState} (hActive : current = .queued ∨ current = .running)
    (hOther : current ≠ state) (h : current.rank ≤ state.rank) : current.rank < state.rank := by
  rcases hActive with rfl | rfl <;> cases state <;> simp_all [rank]

theorem CellStage.Within.le {loads : Nat} {state : JobState} {stage : CellStage}
    (h : stage.Within loads state) : loads ≤ 3 := by
  cases stage with
  | snapshot => exact Nat.le_trans h (state.rank_le.trans (by decide))
  | exchange current hActive => exact h.1.trans (Nat.succ_le_succ current.rank_le)
  | casStart => exact h
  | casComplete target => exact h
  | finished call answer => exact h

/-- An access of the caller itself. -/
theorem CellStage.Within.turn {loads : Nat} {state : JobState} {stage stage' : CellStage}
    {outcome : Observation UInt8} {raw' : UInt8} (h : stage.Within loads state)
    (hCall : stage.call = .casCancel) (hRuns : stage.access.Runs state.code outcome raw' stage') :
    ∃ state', raw' = JobState.code state' ∧
      stage'.Within (loads + if outcome.isLoad = true then 1 else 0) state' := by
  rcases runs_cases hRuns with ⟨hActive, rfl, rfl, rfl, hSame⟩ |
    ⟨current, hActive, rfl, rfl, hOther, rfl, hSame⟩ | ⟨rfl, hNext⟩
  · exact ⟨state, hSame, Nat.succ_le_succ h, Nat.le_refl _⟩
  · refine ⟨state, hSame, ?_⟩
    exact Nat.le_trans h.1 (JobState.rank_lt hActive hOther h.2)
  · refine ⟨_, hNext, ?_⟩
    have hLoads : loads ≤ 2 := by
      cases stage with
      | snapshot => exact Nat.le_trans h state.rank_le
      | exchange current hActive =>
          rcases hActive with rfl | rfl
          · exact h.1.trans (by decide)
          · exact h.1
      | casStart => cases hCall
      | casComplete target => cases hCall
      | finished call answer => cases hRuns
    show loads + _ ≤ 3
    split <;> omega

/-- The snapshots of one thread. -/
def snapshots (t : Thread) (trace : List (Thread × Event UInt8 CellCall CellAnswer)) : Nat :=
  trace.countP fun event => event.1 = t && event.2.isLoad

theorem snapshots_snoc (t : Thread) (trace : List (Thread × Event UInt8 CellCall CellAnswer))
    (label : Thread × Event UInt8 CellCall CellAnswer) :
    snapshots t (trace ++ [label]) =
      snapshots t trace + if label.1 = t ∧ label.2.isLoad = true then 1 else 0 := by
  rw [snapshots, List.countP_append, List.countP_singleton]
  simp [snapshots]

/-- A caller that cancels takes at most three snapshots, whatever the others do. -/
theorem snapshots_le {before during : List (Thread × Event UInt8 CellCall CellAnswer)} {t : Thread}
    (run : Run (Step cellCode) queuedCell (before ++ (t, .invoke .casCancel) :: during) s)
    (hOpen : ∀ event ∈ during, event.1 = t → event.2.returned = none) :
    snapshots t during ≤ 3 := by
  obtain ⟨middle, middle', prior, last, rest⟩ := run.at
  obtain ⟨state, -, hEncodes⟩ := cell_linear.run encodes_queued prior
  have hCaller := rest.invariant (fun during s =>
    (∀ event ∈ during, event.1 = t → event.2.returned = none) →
      ∃ stage state, s.stages t = some stage ∧ stage.call = .casCancel ∧ Encodes state s.cell ∧
        stage.Within (snapshots t during) state) ?_ ?_ hOpen
  · obtain ⟨stage, state, -, -, -, hWithin⟩ := hCaller
    exact hWithin.le
  · intro _
    cases last with
    | invoke => exact ⟨.snapshot, state, State.move_self _ _ _ _, rfl, hEncodes, Nat.zero_le _⟩
  · intro during s label s' hPrior hStep hOpen
    obtain ⟨stage, state, hStage, hCall, hEncodes, hWithin⟩ := hPrior fun event hEvent =>
      hOpen event (List.mem_append_left _ hEvent)
    obtain ⟨state', hNext, hForward⟩ := forward_step hEncodes hStep
    obtain ⟨t', event⟩ := label
    rw [snapshots_snoc]
    rcases eq_or_ne t' t with rfl | hThread
    · cases hStep with
      | invoke hIdle =>
          rw [hStage] at hIdle
          cases hIdle
      | returns => cases hOpen _ (List.mem_append_right _ (List.mem_singleton_self _)) rfl
      | access hBefore hRuns =>
          rw [hStage, Option.some.injEq] at hBefore
          subst hBefore
          rw [hEncodes.1] at hRuns
          obtain ⟨state'', hCode, hTurn⟩ := hWithin.turn hCall hRuns
          obtain rfl := JobState.code_injective (hNext.1.symm.trans hCode)
          refine ⟨_, state', State.move_self _ _ _ _, ?_, hNext, ?_⟩
          · rw [CellStage.call_next hRuns, hCall]
          · simpa [Event.isLoad] using hTurn
    · refine ⟨stage, state', ?_, hCall, hNext, ?_⟩
      · rwa [hStep.stages_of_ne hThread]
      · rw [if_neg fun h => hThread h.1]
        exact hWithin.forward hForward

/-- A job at its end stays there. -/
theorem terminal_kept {moment : State UInt8 CellStage Thread}
    {before after : List (Thread × Event UInt8 CellCall CellAnswer)} {state : JobState}
    (prior : Run (Step cellCode) queuedCell before moment)
    (rest : Run (Step cellCode) moment after s) (hCode : moment.cell = state.code)
    (hTerminal : state.isTerminal = true) : s.cell = moment.cell := by
  obtain ⟨found, -, hEncodes⟩ := cell_linear.run encodes_queued prior
  obtain rfl := JobState.code_injective (hEncodes.1.symm.trans hCode)
  obtain ⟨last, hLast, hForward⟩ := cell_linear.kept JobState.Forward
    (fun _ => ⟨Nat.le_refl _, fun _ => rfl⟩) JobState.Forward.trans JobState.forward_serve
    hEncodes rest
  rw [hLast.1, hCode, hForward.2 hTerminal]

/-- A call that reports a state found the cell at it. -/
theorem state_of_turn {t : Thread} {call : CellCall} {state : JobState}
    {before after : List (Thread × Event UInt8 CellCall CellAnswer)}
    (hTurn : Turn cellCode JobState.serve Encodes queuedCell s t call (.err state) before after) :
    ∃ earlier later moment, before = earlier ++ later ∧ Invoked t call earlier ∧
      Run (Step cellCode) queuedCell earlier moment ∧
      Run (Step cellCode) moment (later ++ (t, .returns call (.err state)) :: after) s ∧
      moment.cell = state.code := by
  obtain ⟨earlier, outcome, later, middle, middle', found, rfl, hInvoked, -, prior, last, rest,
    hFound, hServed, -⟩ := hTurn
  refine ⟨earlier, (t, .access call outcome (some (.err state))) :: later, middle, rfl, hInvoked,
    prior, ((Run.nil middle).snoc last).trans rest, ?_⟩
  rw [hFound.1, JobState.serve_err hServed]

/-- A successful cancellation is the step from the state that it reports. -/
theorem cancelled_of_turn {t : Thread} {previous : JobState}
    {before after : List (Thread × Event UInt8 CellCall CellAnswer)}
    (hTurn : Turn cellCode JobState.serve Encodes queuedCell s t .casCancel (.okFrom previous)
      before after) :
    ∃ earlier outcome later moment moment',
      before = earlier ++ (t, .access .casCancel outcome (some (.okFrom previous))) :: later ∧
      Invoked t .casCancel earlier ∧ Run (Step cellCode) queuedCell earlier moment ∧
      Step cellCode moment (t, .access .casCancel outcome (some (.okFrom previous))) moment' ∧
      Run (Step cellCode) moment' (later ++ (t, .returns .casCancel (.okFrom previous)) :: after) s ∧
      moment.cell = previous.code ∧ moment'.cell = JobState.cancelled.code := by
  obtain ⟨earlier, outcome, later, middle, middle', found, rfl, hInvoked, -, prior, last, rest,
    hFound, hServed, hNext⟩ := hTurn
  refine ⟨earlier, outcome, later, middle, middle', rfl, hInvoked, prior, last, rest, ?_⟩
  obtain ⟨rfl, hCancelled⟩ := JobState.serve_okFrom hServed
  exact ⟨hFound.1, hCancelled ▸ hNext.1⟩

/-- One winner for each transition of the cell, whoever calls it and however their accesses
interleave. -/
theorem queuedCell_single_winner (run : Run (Step cellCode) queuedCell trace s) :
    (effects trace).count (.casStart, .ok) ≤ 1 ∧ (returns trace).count (.casStart, .ok) ≤ 1 ∧
    (∀ before after moment state, trace = before ++ after →
      Run (Step cellCode) queuedCell before moment → Run (Step cellCode) moment after s →
      moment.cell = JobState.code state → state.isTerminal = true → s.cell = moment.cell) ∧
    (∃ state, s.cell = JobState.code state ∧ state ≠ .timedOut ∧
      (effects trace).countP CellCall.wins = (if state.isTerminal then 1 else 0) ∧
      (returns trace).countP CellCall.wins ≤ (if state.isTerminal then 1 else 0) ∧
      ((∀ t, s.stages t = none) →
        (returns trace).countP CellCall.wins = if state.isTerminal then 1 else 0)) ∧
    (∀ before t previous after,
      trace = before ++ (t, .returns .casCancel (.okFrom previous)) :: after →
        ∃ earlier outcome later moment moment',
          before = earlier ++ (t, .access .casCancel outcome (some (.okFrom previous))) :: later ∧
          Invoked t .casCancel earlier ∧ Run (Step cellCode) queuedCell earlier moment ∧
          Step cellCode moment (t, .access .casCancel outcome (some (.okFrom previous))) moment' ∧
          Run (Step cellCode) moment'
            (later ++ (t, .returns .casCancel (.okFrom previous)) :: after) s ∧
          moment.cell = previous.code ∧ moment'.cell = JobState.cancelled.code) ∧
    (∀ before t call state after, trace = before ++ (t, .returns call (.err state)) :: after →
      ∃ earlier later moment, before = earlier ++ later ∧ Invoked t call earlier ∧
        Run (Step cellCode) queuedCell earlier moment ∧
        Run (Step cellCode) moment (later ++ (t, .returns call (.err state)) :: after) s ∧
        moment.cell = state.code) ∧
    (∀ before t call answer after, trace = before ++ (t, .returns call answer) :: after →
      answer ≠ .unreachable) ∧
    (∀ before t during after, trace = before ++ (t, .invoke .casCancel) :: (during ++ after) →
      (∀ event ∈ during, event.1 = t → event.2.returned = none) → snapshots t during ≤ 3) := by
  have hTurn : ∀ before t call answer after, trace = before ++ (t, .returns call answer) :: after →
      Turn cellCode JobState.serve Encodes queuedCell s t call answer before after := by
    intro before t call answer after hTrace
    rw [hTrace] at run
    exact cell_linear.turn encodes_queued run
  obtain ⟨state, hReplay, hEncodes⟩ := cell_linear.run encodes_queued run
  have hStarted := count_started .queued ((effects trace).map Prod.fst)
  have hWon := count_won .queued ((effects trace).map Prod.fst)
  rw [hReplay] at hStarted hWon
  have hWon : (effects trace).countP CellCall.wins = if state.isTerminal then 1 else 0 := hWon
  obtain ⟨hReturned, hQuiet⟩ := countP_returns_le CellCall.wins run
  refine ⟨hStarted, (countP_returns_le _ run).1.trans hStarted, ?_,
    ⟨state, hEncodes.1, hEncodes.2, hWon, hReturned.trans hWon.le, fun h => (hQuiet h).trans hWon⟩,
    ?_, ?_, ?_, ?_⟩
  · intro before after moment found _ prior rest hCode hTerminal
    exact terminal_kept prior rest hCode hTerminal
  · intro before t previous after hTrace
    exact cancelled_of_turn (hTurn before t _ _ after hTrace)
  · intro before t call found after hTrace
    exact state_of_turn (hTurn before t call _ after hTrace)
  · intro before t call answer after hTrace
    obtain ⟨_, _, _, _, _, found, -, -, -, -, -, -, -, hServed, -⟩ :=
      hTurn before t call answer after hTrace
    exact hServed ▸ found.serve_ne_unreachable call
  · intro before t during after hTrace hOpen
    rw [hTrace, ← List.cons_append, ← List.append_assoc] at run
    obtain ⟨middle, prior, -⟩ := run.split
    exact snapshots_le prior hOpen

end Callers

/-- A start and a completion slip in between the snapshots and exchanges of a cancellation,
which takes its three snapshots. -/
theorem queuedCell_single_winner_race :
    ∃ s : State UInt8 CellStage Bool,
      (cellCode.schedule queuedCell
        [(true, .invoke .casCancel), (true, .advance), (false, .invoke .casStart),
          (false, .advance), (false, .advance), (true, .advance), (true, .advance),
          (false, .invoke (.casComplete .succeeded)), (false, .advance), (false, .advance),
          (true, .advance), (true, .advance), (true, .advance)] =
        some ([(true, .invoke .casCancel), (true, .access .casCancel (.loaded 0) none),
          (false, .invoke .casStart),
          (false, .access .casStart (.exchanged 0) (some .ok)),
          (false, .returns .casStart .ok), (true, .access .casCancel (.refused 1) none),
          (true, .access .casCancel (.loaded 1) none),
          (false, .invoke (.casComplete .succeeded)),
          (false, .access (.casComplete .succeeded) (.exchanged 1) (some .ok)),
          (false, .returns (.casComplete .succeeded) .ok),
          (true, .access .casCancel (.refused 2) none),
          (true, .access .casCancel (.loaded 2) (some (.err .succeeded))),
          (true, .returns .casCancel (.err .succeeded))], s) ∧ ∀ t, s.stages t = none) ∧
      ∃ state, s.cell = JobState.code state ∧ state.isTerminal = true := by
  refine Exists.imp (fun s hSchedule => ⟨hSchedule, ?_⟩) ⟨_, rfl, fun t => by cases t <;> rfl⟩
  have hWinner := queuedCell_single_winner (Code.run_schedule hSchedule.1)
  obtain ⟨state, hState, -, -, -, hQuiet⟩ := hWinner.2.2.2.1
  refine ⟨state, hState, ?_⟩
  have hWon := hQuiet hSchedule.2
  cases hTerminal : state.isTerminal with
  | true => rfl
  | false =>
      rw [hTerminal] at hWon
      exact absurd hWon (by decide)

end Job

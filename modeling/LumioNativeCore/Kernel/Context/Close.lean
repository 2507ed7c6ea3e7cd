import LumioNativeCore.Kernel.Context.Protocol
import LumioNativeCore.Library.Run

/-! Whole runs of a context: its close protocol over every order of calls and every
behaviour of its resources. -/
namespace Kernel

open Transition

/-- The legal order makes every reading of the log exact. -/
theorem LegalLog.front {total : Nat} {log : List CallbackEvent} {event : CallbackEvent}
    (h : LegalLog total (log ++ [event])) : LegalLog total log := by
  intro before earlier after hLog
  apply h before earlier (after ++ [event])
  rw [hLog, List.append_assoc, List.cons_append]

theorem LegalLog.cancels {total : Nat} {log : List CallbackEvent} (h : LegalLog total log) :
    ∃ count ≤ total, cancelsOf log = List.range count := by
  induction log using List.reverseRecOn with
  | nil => exact ⟨0, Nat.zero_le _, rfl⟩
  | append_singleton front event ih =>
      cases event with
      | cancelRequested index value =>
          obtain ⟨hIndex, hCancels⟩ := (h front _ [] rfl).cancel index value rfl
          refine ⟨index + 1, hIndex, ?_⟩
          rw [cancelsOf_append, hCancels]
          exact List.range_succ.symm
      | quiesce => simpa [cancelsOf, CallbackEvent.cancel?, List.filterMap_cons] using ih h.front
      | destroy => simpa [cancelsOf, CallbackEvent.cancel?, List.filterMap_cons] using ih h.front

theorem LegalLog.destroys {total : Nat} {log : List CallbackEvent} (h : LegalLog total log) :
    ∃ count ≤ total, destroysOf log = latest total count := by
  induction log using List.reverseRecOn with
  | nil => exact ⟨0, Nat.zero_le _, rfl⟩
  | append_singleton front event ih =>
      cases event with
      | destroy index value =>
          obtain ⟨hIndex, -, hDestroys⟩ := (h front _ [] rfl).destroy index value rfl
          refine ⟨total - index, Nat.sub_le _ _, ?_⟩
          have hCount : total - index = total - 1 - index + 1 := by omega
          have hNext : total - 1 - (total - 1 - index) = index := by omega
          rw [destroysOf_append, hDestroys, hCount, latest_succ (by omega), hNext]
          rfl
      | cancelRequested =>
          simpa [destroysOf, CallbackEvent.destroy?, List.filterMap_cons] using ih h.front
      | quiesce =>
          simpa [destroysOf, CallbackEvent.destroy?, List.filterMap_cons] using ih h.front

variable {ρ : Type}

/-- One call on the context, with what it returned and the callbacks it made. -/
inductive ContextEvent (ρ : Type) where
  | registered (resource : ρ) (result : Except KernelError Nat)
  | admitted (result : Except KernelError Unit)
  | closed (reply : Except KernelError ContextCloseReport) (log : List (ρ × CallbackEvent))

namespace ContextEvent

def log : ContextEvent ρ → List (ρ × CallbackEvent)
  | closed _ log => log
  | _ => []

def registers : ContextEvent ρ → Option ρ
  | registered resource (.ok _) => some resource
  | _ => none

end ContextEvent

/-- Every callback of a run with the resource that was called, in the order of the calls. -/
def calledIn (trace : List (ContextEvent ρ)) : List (ρ × CallbackEvent) :=
  trace.flatMap ContextEvent.log

def logOf (trace : List (ContextEvent ρ)) : List CallbackEvent := (calledIn trace).map Prod.snd

/-- The resources that were registered, in the order of their registration. -/
def registeredIn (trace : List (ContextEvent ρ)) : List ρ :=
  trace.filterMap ContextEvent.registers

def registrations (trace : List (ContextEvent ρ)) : Nat := (registeredIn trace).length

@[simp] theorem calledIn_snoc (trace : List (ContextEvent ρ)) (event : ContextEvent ρ) :
    calledIn (trace ++ [event]) = calledIn trace ++ event.log := by
  simp [calledIn]

@[simp] theorem logOf_snoc (trace : List (ContextEvent ρ)) (event : ContextEvent ρ) :
    logOf (trace ++ [event]) = logOf trace ++ event.log.map Prod.snd := by
  simp [logOf]

@[simp] theorem registeredIn_snoc (trace : List (ContextEvent ρ)) (event : ContextEvent ρ) :
    registeredIn (trace ++ [event]) = registeredIn trace ++ event.registers.toList := by
  simp [registeredIn, List.filterMap_cons]
  cases event.registers with
  | none => rfl
  | some resource => rfl

@[simp] theorem registrations_snoc (trace : List (ContextEvent ρ)) (event : ContextEvent ρ) :
    registrations (trace ++ [event]) =
      registrations trace + event.registers.toList.length := by
  simp [registrations]

namespace KernelContext

/-- The calls from outside. A close runs against any behaviour of the callbacks and
any reading of the clock. -/
inductive Step : KernelContext ρ → ContextEvent ρ → KernelContext ρ → Prop where
  | registerResource (ctx : KernelContext ρ) (resource : ρ) :
      Step ctx (.registered resource (ctx.registerResource resource).1)
        (ctx.registerResource resource).2
  | admitWork (ctx : KernelContext ρ) (panics : Bool) :
      Step ctx (.admitted (ctx.admitWork panics).1) (ctx.admitWork panics).2
  | close (ctx : KernelContext ρ) (callbacks : Callbacks ρ) (reason : CancelReason)
      (deadline : Deadline) (now : Nat) :
      Step ctx
        (.closed (ctx.close callbacks reason deadline now).result
          (ctx.close callbacks reason deadline now).log)
        (ctx.close callbacks reason deadline now).context

/-- No pass has run yet. -/
structure Idle (total : Nat) (log : List CallbackEvent) (ctx : KernelContext ρ) : Prop where
  phase : ctx.phase = .running
  fresh : ctx.progress = .default
  registry : ctx.resources.length = total
  silent : log = []

/-- How far a context may have come. -/
inductive Stage (total : Nat) (log : List CallbackEvent) (ctx : KernelContext ρ) : Prop where
  | idle (h : Idle total log ctx)
  | steady (h : Steady total log ctx) (hLeft : 0 < ctx.progress.destroyRemaining)
  | stuck (failure : KernelError) (h : Stuck total log ctx failure)
  | done (h : Done total log ctx)

/-- What a close has answered, and what its pass left. -/
inductive Answered (total : Nat) (log : List CallbackEvent) (ctx : KernelContext ρ) :
    Except KernelError ContextCloseReport → Prop where
  | refused (h : Idle total log ctx) (hPoisoned : ctx.poisoned = true) :
      Answered total log ctx (.error (error .internalInvariant))
  | waiting (h : Steady total log ctx) (hLeft : 0 < ctx.progress.destroyRemaining) :
      Answered total log ctx (.ok quiescingReport)
  | timedOut (h : Steady total log ctx) (hLeft : 0 < ctx.progress.destroyRemaining)
      (failure : KernelError) (hTimed : failure.category = .timedOut) :
      Answered total log ctx (.error failure)
  | failed (failure : KernelError) (h : Stuck total log ctx failure) :
      Answered total log ctx (.error failure)
  | closed (h : Done total log ctx) : Answered total log ctx (.ok closedReport)

section Stages

variable {total : Nat} {log : List CallbackEvent} {ctx : KernelContext ρ}
  {reply : Except KernelError ContextCloseReport}

theorem Answered.stage (h : Answered total log ctx reply) : Stage total log ctx := by
  cases h with
  | refused h => exact .idle h
  | waiting h hLeft => exact .steady h hLeft
  | timedOut h hLeft => exact .steady h hLeft
  | failed failure h => exact .stuck failure h
  | closed h => exact .done h

theorem Answered.of_sequel {pass : Pass ρ ContextCloseReport}
    (h : Sequel total log pass (Settled total)) :
    Answered total (log ++ pass.events) pass.context pass.result := by
  obtain ⟨result, passLog, context⟩ := pass
  cases result with
  | ok report =>
      rcases h with ⟨rfl, hSteady, hLeft⟩ | ⟨rfl, hDone⟩
      · exact .waiting hSteady hLeft
      · exact .closed hDone
  | error failure =>
      rcases h with hStuck | ⟨hTimed, hSteady, hLeft⟩
      · exact .failed failure hStuck
      · exact .timedOut hSteady hLeft failure hTimed

/-- The answer that every later close gives, once there is one. -/
def sealedReply (ctx : KernelContext ρ) : Option (Except KernelError ContextCloseReport) :=
  match ctx.progress.report with
  | some report => some (.ok report)
  | none => ctx.progress.failure.map .error

theorem close_sealed (hSealed : ctx.sealedReply = some reply) (callbacks : Callbacks ρ)
    (reason : CancelReason) (deadline : Deadline) (now : Nat) :
    ctx.close callbacks reason deadline now = ⟨reply, [], ctx⟩ := by
  rw [sealedReply] at hSealed
  rw [close]
  cases hReport : ctx.progress.report with
  | some report =>
      simp only [hReport, Option.some.injEq] at hSealed
      rw [← hSealed]
  | none =>
      simp only [hReport, Option.map_eq_some_iff] at hSealed
      obtain ⟨failure, hFailure, rfl⟩ := hSealed
      simp only [hFailure]

/-- Every close, from every stage. -/
theorem Stage.close (h : Stage total log ctx) (callbacks : Callbacks ρ) (reason : CancelReason)
    (deadline : Deadline) (now : Nat) :
    Answered total (log ++ (ctx.close callbacks reason deadline now).events)
      (ctx.close callbacks reason deadline now).context
      (ctx.close callbacks reason deadline now).result := by
  cases h with
  | idle h =>
      have hReport : ctx.progress.report = none := by rw [h.fresh]; rfl
      have hFailure : ctx.progress.failure = none := by rw [h.fresh]; rfl
      rw [KernelContext.close]
      simp only [hReport, hFailure]
      cases hStart : ctx.start with
      | error failure =>
          have hStarted : ctx.progress.started = false := by rw [h.fresh]; rfl
          rw [start, if_neg (by simp [hStarted])] at hStart
          split_ifs at hStart with hPoisoned
          obtain rfl := Except.error.inj hStart
          simp only [Pass.events_nil, List.append_nil]
          exact .refused h hPoisoned
      | ok started =>
          have hSteady := start_steady h.phase h.fresh hStart
          rw [h.registry] at hSteady
          rw [h.silent]
          exact .of_sequel (sequel_drive callbacks reason deadline now hSteady)
  | steady h hLeft =>
      have hStart : ctx.start = .ok ctx := if_pos h.started
      rw [KernelContext.close]
      simp only [h.pending, h.sound, hStart]
      exact .of_sequel (sequel_drive callbacks reason deadline now h)
  | stuck failure h =>
      have hSealed : ctx.sealedReply = some (.error failure) := by
        rw [sealedReply, h.pending, h.recorded]
        rfl
      rw [close_sealed hSealed]
      simp only [Pass.events_nil, List.append_nil]
      exact .failed failure h
  | done h =>
      have hSealed : ctx.sealedReply = some (.ok closedReport) := by
        rw [sealedReply, h.report]
      rw [close_sealed hSealed]
      simp only [Pass.events_nil, List.append_nil]
      exact .closed h

end Stages

/-! Runs. -/

theorem admitWork_eq (ctx : KernelContext ρ) (panics : Bool) :
    (ctx.admitWork panics).2 = ctx ∨
      (ctx.phase = .running ∧ (ctx.admitWork panics).2 = { ctx with poisoned := panics }) := by
  rw [admitWork]
  cases hAdmitted : ctx.ensureAdmitted with
  | error failure => exact Or.inl rfl
  | ok _ =>
      refine Or.inr ⟨?_, rfl⟩
      rw [ensureAdmitted] at hAdmitted
      split_ifs at hAdmitted
      cases hPhase : ctx.phase with
      | running => rfl
      | creating => simp [tryAdmit, hPhase] at hAdmitted
      | quiescing => simp [tryAdmit, hPhase] at hAdmitted
      | closed => simp [tryAdmit, hPhase] at hAdmitted
      | faulted => simp [tryAdmit, hPhase] at hAdmitted

/-- A context that is not running refuses to register. -/
theorem registerResource_refused {ctx : KernelContext ρ} (hPhase : ctx.phase ≠ .running)
    (resource : ρ) :
    ∃ failure, ctx.registerResource resource = (.error failure, ctx) := by
  have hAdmitted : ∃ failure, ctx.ensureAdmitted = .error failure := by
    rw [ensureAdmitted]
    split_ifs
    · exact ⟨_, rfl⟩
    · cases h : ctx.phase with
      | running => exact absurd h hPhase
      | creating => exact ⟨_, rfl⟩
      | quiescing => exact ⟨_, rfl⟩
      | closed => exact ⟨_, rfl⟩
      | faulted => exact ⟨_, rfl⟩
  obtain ⟨failure, hFailure⟩ := hAdmitted
  refine ⟨failure, ?_⟩
  rw [registerResource, hFailure]

theorem Stage.phase {total : Nat} {log : List CallbackEvent} {ctx : KernelContext ρ}
    (h : Stage total log ctx) (hPhase : ctx.phase = .running) : Idle total log ctx := by
  cases h with
  | idle h => exact h
  | steady h => cases h.phase.symm.trans hPhase
  | stuck failure h => cases h.phase.symm.trans hPhase
  | done h => cases h.phase.symm.trans hPhase

/-- A run keeps its context at a stage of its log and its registrations. -/
theorem Stage.step {trace : List (ContextEvent ρ)} {ctx ctx' : KernelContext ρ}
    {event : ContextEvent ρ} (h : Stage (registrations trace) (logOf trace) ctx)
    (hStep : Step ctx event ctx') :
    Stage (registrations (trace ++ [event])) (logOf (trace ++ [event])) ctx' := by
  rw [logOf_snoc, registrations_snoc]
  cases hStep with
  | registerResource resource =>
      by_cases hPhase : ctx.phase = .running
      · have hIdle := h.phase hPhase
        rw [registerResource]
        cases ctx.ensureAdmitted with
        | error failure => simpa [ContextEvent.log, ContextEvent.registers] using h
        | ok _ =>
            by_cases hFull : ctx.resources.length ≥ ctx.maxHandles
            · simpa [ContextEvent.log, ContextEvent.registers, hFull] using h
            · simp only [if_neg hFull]
              apply Stage.idle
              exact
                { phase := hPhase
                  fresh := hIdle.fresh
                  registry := by
                    rw [List.length_append, hIdle.registry]
                    rfl
                  silent := by
                    rw [hIdle.silent]
                    rfl }
      · obtain ⟨failure, hRefused⟩ := registerResource_refused hPhase resource
        rw [hRefused]
        simpa [ContextEvent.log, ContextEvent.registers] using h
  | admitWork panics =>
      simp only [ContextEvent.log, ContextEvent.registers, List.map_nil, List.append_nil,
        Option.toList_none, List.length_nil, Nat.add_zero]
      rcases ctx.admitWork_eq panics with hSame | ⟨hPhase, hSame⟩
      · rw [hSame]
        exact h
      · have hIdle := h.phase hPhase
        rw [hSame]
        exact .idle ⟨hIdle.phase, hIdle.fresh, hIdle.registry, hIdle.silent⟩
  | close callbacks reason deadline now => exact (h.close callbacks reason deadline now).stage

theorem Stage.of_run {maxHandles : Nat} {quiesceDeadline : Deadline} {trace : List (ContextEvent ρ)}
    {ctx : KernelContext ρ} (run : Run Step (create maxHandles quiesceDeadline) trace ctx) :
    Stage (registrations trace) (logOf trace) ctx := by
  apply run.invariant fun trace ctx => Stage (registrations trace) (logOf trace) ctx
  · exact .idle ⟨rfl, rfl, rfl, rfl⟩
  · intro trace ctx event ctx' h hStep
    exact h.step hStep

/-! The resources of a run. -/

/-- Where a context keeps what was registered with it. -/
structure Keeps (registered : List ρ) (ctx : KernelContext ρ) : Prop where
  registry : ctx.phase = .running → ctx.resources = registered
  frozen : ctx.progress.started = true → ctx.progress.report = none →
    ctx.progress.resources = registered

theorem not_running_of_sequel {total : Nat} {log : List CallbackEvent}
    {pass : Pass ρ ContextCloseReport} (h : Sequel total log pass (Settled total)) :
    pass.context.phase ≠ .running := by
  obtain ⟨result, passLog, context⟩ := pass
  intro hPhase
  cases result with
  | ok report =>
      rcases h with ⟨-, hSteady, -⟩ | ⟨-, hDone⟩
      · cases hSteady.phase.symm.trans hPhase
      · cases hDone.phase.symm.trans hPhase
  | error failure =>
      rcases h with hStuck | ⟨-, hSteady, -⟩
      · cases hStuck.phase.symm.trans hPhase
      · cases hSteady.phase.symm.trans hPhase

/-- A close calls the resources by the order of their registration. -/
theorem Stage.close_named {total : Nat} {log : List CallbackEvent} {ctx : KernelContext ρ}
    (h : Stage total log ctx) {registered : List ρ} (hKeeps : Keeps registered ctx)
    (callbacks : Callbacks ρ) (reason : CancelReason) (deadline : Deadline) (now : Nat) :
    Named registered (ctx.close callbacks reason deadline now).log ∧
      Keeps registered (ctx.close callbacks reason deadline now).context := by
  have hDrive : ∀ {log : List CallbackEvent} {next : KernelContext ρ}, Steady total log next →
      next.progress.resources = registered →
        Named registered (next.drive callbacks reason deadline now).log ∧
          Keeps registered (next.drive callbacks reason deadline now).context := by
    intro log next hSteady hResources
    have hEnded := ended_drive callbacks reason deadline now hResources
    have hPhase := not_running_of_sequel (sequel_drive callbacks reason deadline now hSteady)
    refine ⟨hEnded.1, fun hRunning => absurd hRunning hPhase, fun _ hOpen => ?_⟩
    exact hEnded.2.resolve_right (not_not_intro hOpen)
  cases h with
  | idle h =>
      have hReport : ctx.progress.report = none := by rw [h.fresh]; rfl
      have hFailure : ctx.progress.failure = none := by rw [h.fresh]; rfl
      have hStarted : ctx.progress.started = false := by rw [h.fresh]; rfl
      rw [KernelContext.close]
      simp only [hReport, hFailure]
      cases hStart : ctx.start with
      | error failure => exact ⟨nofun, hKeeps⟩
      | ok started =>
          have hSteady := start_steady h.phase h.fresh hStart
          rw [h.registry] at hSteady
          refine hDrive hSteady ?_
          rw [start_eq, if_neg (by simp [hStarted])] at hStart
          split_ifs at hStart
          obtain rfl := Except.ok.inj hStart
          exact hKeeps.registry h.phase
  | steady h =>
      have hStart : ctx.start = .ok ctx := if_pos h.started
      rw [KernelContext.close]
      simp only [h.pending, h.sound, hStart]
      exact hDrive h (hKeeps.frozen h.started h.pending)
  | stuck failure h =>
      have hSealed : ctx.sealedReply = some (.error failure) := by
        rw [sealedReply, h.pending, h.recorded]
        rfl
      rw [close_sealed hSealed]
      exact ⟨nofun, hKeeps⟩
  | done h =>
      have hSealed : ctx.sealedReply = some (.ok closedReport) := by
        rw [sealedReply, h.report]
      rw [close_sealed hSealed]
      exact ⟨nofun, hKeeps⟩

theorem Keeps.step {trace : List (ContextEvent ρ)} {ctx ctx' : KernelContext ρ}
    {event : ContextEvent ρ} (hStage : Stage (registrations trace) (logOf trace) ctx)
    (hNamed : Named (registeredIn trace) (calledIn trace)) (h : Keeps (registeredIn trace) ctx)
    (hStep : Step ctx event ctx') :
    Named (registeredIn (trace ++ [event])) (calledIn (trace ++ [event])) ∧
      Keeps (registeredIn (trace ++ [event])) ctx' := by
  rw [registeredIn_snoc, calledIn_snoc]
  cases hStep with
  | registerResource resource =>
      by_cases hPhase : ctx.phase = .running
      · have hIdle := hStage.phase hPhase
        rw [registerResource]
        cases ctx.ensureAdmitted with
        | error failure => simpa [ContextEvent.log, ContextEvent.registers] using ⟨hNamed, h⟩
        | ok _ =>
            by_cases hFull : ctx.resources.length ≥ ctx.maxHandles
            · simpa [ContextEvent.log, ContextEvent.registers, hFull] using ⟨hNamed, h⟩
            · simp only [if_neg hFull, ContextEvent.log, ContextEvent.registers, List.append_nil]
              refine ⟨fun entry hEntry => ?_, fun _ => ?_, fun hStarted => ?_⟩
              · have hOld := hNamed entry hEntry
                obtain ⟨hIndex, -⟩ := List.getElem?_eq_some_iff.mp hOld
                exact (List.getElem?_append_left hIndex).trans hOld
              · exact congrArg (· ++ [resource]) (h.registry hPhase)
              · rw [hIdle.fresh] at hStarted
                cases hStarted
      · obtain ⟨failure, hRefused⟩ := registerResource_refused hPhase resource
        rw [hRefused]
        simpa [ContextEvent.log, ContextEvent.registers] using ⟨hNamed, h⟩
  | admitWork panics =>
      simp only [ContextEvent.log, ContextEvent.registers, Option.toList_none, List.append_nil]
      rcases ctx.admitWork_eq panics with hSame | ⟨-, hSame⟩
      · rw [hSame]
        exact ⟨hNamed, h⟩
      · rw [hSame]
        exact ⟨hNamed, h.registry, h.frozen⟩
  | close callbacks reason deadline now =>
      simp only [ContextEvent.log, ContextEvent.registers, Option.toList_none, List.append_nil]
      obtain ⟨hLog, hKeeps⟩ := hStage.close_named h callbacks reason deadline now
      exact ⟨hNamed.append hLog, hKeeps⟩

theorem named_of_run {maxHandles : Nat} {quiesceDeadline : Deadline}
    {trace : List (ContextEvent ρ)} {ctx : KernelContext ρ}
    (run : Run Step (create maxHandles quiesceDeadline) trace ctx) :
    Named (registeredIn trace) (calledIn trace) := by
  refine (run.invariant (fun trace ctx => Stage (registrations trace) (logOf trace) ctx ∧
    Named (registeredIn trace) (calledIn trace) ∧ Keeps (registeredIn trace) ctx) ?_ ?_).2.1
  · exact ⟨.idle ⟨rfl, rfl, rfl, rfl⟩, nofun, fun _ => rfl, nofun⟩
  · intro trace ctx event ctx' ⟨hStage, hNamed, hKeeps⟩ hStep
    exact ⟨hStage.step hStep, hKeeps.step hStage hNamed hStep⟩

/-- An answer that is sealed is the answer of every later close, without a callback. -/
theorem sealed_run {ctx ctx' : KernelContext ρ} {trace : List (ContextEvent ρ)}
    {reply : Except KernelError ContextCloseReport} (hSealed : ctx.sealedReply = some reply)
    (run : Run Step ctx trace ctx') :
    ∀ reply' log, .closed reply' log ∈ trace → reply' = reply ∧ log = [] := by
  apply And.right (a := ctx'.sealedReply = some reply)
  apply run.invariant fun trace ctx' => ctx'.sealedReply = some reply ∧
    ∀ reply' log, .closed reply' log ∈ trace → reply' = reply ∧ log = []
  · exact ⟨hSealed, fun _ _ hMem => absurd hMem List.not_mem_nil⟩
  · intro trace ctx event ctx' h hStep
    have hKept : ∀ next : KernelContext ρ, next.progress = ctx.progress →
        next.sealedReply = some reply := by
      intro next hProgress
      rw [sealedReply, hProgress]
      exact h.1
    cases hStep with
    | registerResource resource =>
        refine ⟨hKept _ (ctx.registerResource_progress resource), ?_⟩
        simpa using h.2
    | admitWork panics =>
        constructor
        · rcases ctx.admitWork_eq panics with hSame | ⟨-, hSame⟩
          · rw [hSame]
            exact h.1
          · exact hKept _ (by rw [hSame])
        · simpa using h.2
    | close callbacks reason deadline now =>
        rw [close_sealed h.1]
        refine ⟨h.1, fun reply' log hMem => ?_⟩
        rcases List.mem_append.mp hMem with hOld | hNew
        · exact h.2 reply' log hOld
        · cases List.mem_singleton.mp hNew
          exact ⟨rfl, rfl⟩

/-- A callback that failed for good is the last one, and its failure is the answer. -/
theorem Answered.final {total : Nat} {front log : List CallbackEvent} {ctx : KernelContext ρ}
    {reply : Except KernelError ContextCloseReport}
    (h : Answered total (front ++ log) ctx reply) {event : CallbackEvent} {failure : KernelError}
    (hEvent : event ∈ log) (hFailure : event.failure = some failure) :
    ctx.sealedReply = some (.error failure) ∧ reply = .error failure ∧
      ∃ earlier, log = earlier ++ [event] := by
  have hMem : event ∈ front ++ log := List.mem_append_right _ hEvent
  have hCalm : ¬∀ event ∈ front ++ log, event.failure = none := by
    intro hCalm
    rw [hCalm event hMem] at hFailure
    cases hFailure
  cases h with
  | refused h => exact absurd (h.silent ▸ hMem) List.not_mem_nil
  | waiting h => exact absurd h.calm hCalm
  | timedOut h => exact absurd h.calm hCalm
  | closed h => exact absurd h.calm hCalm
  | failed failure' h =>
      obtain ⟨before, last, hLog, hLast⟩ := h.last
      rcases List.eq_nil_or_concat log with rfl | ⟨earlier, final, rfl⟩
      · cases hEvent
      · rw [List.concat_eq_append] at hEvent hLog ⊢
        rw [← List.append_assoc] at hLog
        obtain ⟨hFront, hSame⟩ := List.append_inj' hLog rfl
        obtain rfl := List.head_eq_of_cons_eq hSame
        have hEarlier := (h.legal (front ++ earlier) final [] (by simp)).calm
        rcases List.mem_append.mp hEvent with hOld | hNew
        · rw [hEarlier event (List.mem_append_right _ hOld)] at hFailure
          cases hFailure
        · obtain rfl := List.mem_singleton.mp hNew
          obtain rfl := Option.some.inj (hFailure.symm.trans hLast)
          have hSealed : ctx.sealedReply = some (.error failure) := by
            rw [sealedReply, h.pending, h.recorded]
            rfl
          exact ⟨hSealed, rfl, earlier, rfl⟩

theorem Answered.sealed_closed {total : Nat} {log : List CallbackEvent} {ctx : KernelContext ρ}
    (h : Answered total log ctx (.ok closedReport)) :
    ctx.sealedReply = some (.ok closedReport) := by
  generalize hReply : Except.ok closedReport = reply at h
  cases h with
  | refused => cases hReply
  | waiting => exact absurd (Except.ok.inj hReply) (by decide)
  | timedOut => cases hReply
  | failed => cases hReply
  | closed h => rw [sealedReply, h.report]

theorem Answered.of_run {maxHandles : Nat} {quiesceDeadline : Deadline}
    {before : List (ContextEvent ρ)} {reply : Except KernelError ContextCloseReport}
    {log : List (ρ × CallbackEvent)} {ctx : KernelContext ρ}
    (run : Run Step (create maxHandles quiesceDeadline) (before ++ [.closed reply log]) ctx) :
    Answered (registrations before) (logOf before ++ log.map Prod.snd) ctx reply := by
  obtain ⟨prior, hPrior, hStep⟩ := run.last
  have hStage := Stage.of_run hPrior
  generalize hEvent : ContextEvent.closed reply log = event at hStep
  cases hStep with
  | registerResource => cases hEvent
  | admitWork => cases hEvent
  | close callbacks reason deadline now =>
      cases hEvent
      exact hStage.close callbacks reason deadline now

/-- The resumable close protocol, over every run of a context: the order of the
callbacks, by index and by the resources themselves, each of which is called by the index of its
registration; that a failure is the last word; and what a close that has returned says. -/
theorem close_protocol {maxHandles : Nat} {quiesceDeadline : Deadline}
    {trace : List (ContextEvent ρ)} {ctx : KernelContext ρ}
    (run : Run Step (create maxHandles quiesceDeadline) trace ctx) :
    (∀ entry ∈ calledIn trace, (registeredIn trace)[entry.2.index]? = some entry.1) ∧
    (∃ count ≤ registrations trace, cancelsOf (logOf trace) = List.range count ∧
      cancelledIn (calledIn trace) = (registeredIn trace).take count) ∧
    (∃ count ≤ registrations trace,
      destroysOf (logOf trace) = ((List.range (registrations trace)).reverse).take count ∧
      destroyedIn (calledIn trace) = (registeredIn trace).reverse.take count) ∧
    (∀ before event after, logOf trace = before ++ event :: after →
      (∀ earlier ∈ before, earlier.failure = none) ∧
      (∀ index value, event = .quiesce index value → index < registrations trace ∧
        (∀ other < registrations trace, .cancelRequested other (some ()) ∈ before) ∧
        quietReport index ∉ before) ∧
      ∀ index value, event = .destroy index value →
        ∀ other < registrations trace, quietReport other ∈ before) ∧
    (∀ before reply log after, trace = before ++ .closed reply log :: after →
      ∀ entry ∈ log, ∀ failure, entry.2.failure = some failure →
        reply = .error failure ∧
        ∀ reply' log', .closed reply' log' ∈ after → reply' = .error failure ∧ log' = []) ∧
    (∀ before log after, trace = before ++ .closed (.ok closedReport) log :: after →
      ∀ reply' log', .closed reply' log' ∈ after → reply' = .ok closedReport ∧ log' = []) ∧
    ∀ before reply log, trace = before ++ [.closed reply log] →
      (ctx.phase = .closed ∧ reply = .ok closedReport ∧ ctx.resources = [] ∧
        ∀ index < registrations trace, .destroy index (some (.ok ())) ∈ logOf trace) ∨
      (ctx.phase = .quiescing ∧ reply ≠ .ok closedReport ∧
        ctx.resources.length = registrations trace ∧
        ∃ index < registrations trace, .destroy index (some (.ok ())) ∉ logOf trace) ∨
      (ctx.phase = .running ∧ reply = .error (error .internalInvariant) ∧
        ctx.poisoned = true ∧ logOf trace = []) := by
  have hStage := Stage.of_run run
  have hLegal : LegalLog (registrations trace) (logOf trace) := by
    cases hStage with
    | idle h =>
        rw [h.silent]
        exact legalLog_nil _
    | steady h => exact h.legal
    | stuck failure h => exact h.legal
    | done h => exact h.legal
  have hNamed := named_of_run run
  refine ⟨hNamed, ?_, ?_, ?_, ?_, ?_, ?_⟩
  · obtain ⟨count, hCount, hCancels⟩ := hLegal.cancels
    exact ⟨count, hCount, hCancels, hNamed.cancelledIn hCount hCancels⟩
  · obtain ⟨count, hCount, hDestroys⟩ := hLegal.destroys
    exact ⟨count, hCount, hDestroys, hNamed.destroyedIn hCount hDestroys⟩
  · intro before event after hLog
    have h := hLegal before event after hLog
    exact ⟨h.calm, h.quiesce, fun index value hEvent => (h.destroy index value hEvent).2.1⟩
  · rintro before reply log after rfl entry hEntry failure hFailure
    rw [← List.singleton_append, ← List.append_assoc] at run
    obtain ⟨ctx', hPass, hAfter⟩ := run.split
    obtain ⟨hSealed, hReply, -⟩ := (Answered.of_run hPass).final
      (List.mem_map_of_mem hEntry) hFailure
    exact ⟨hReply, sealed_run hSealed hAfter⟩
  · rintro before log after rfl
    rw [← List.singleton_append, ← List.append_assoc] at run
    obtain ⟨ctx', hPass, hAfter⟩ := run.split
    exact sealed_run (Answered.of_run hPass).sealed_closed hAfter
  · rintro before reply log rfl
    have hAnswered := Answered.of_run run
    simp only [logOf_snoc, registrations_snoc, ContextEvent.log, ContextEvent.registers,
      Option.toList_none, List.length_nil, Nat.add_zero]
    cases hAnswered with
    | refused h hPoisoned => exact Or.inr (Or.inr ⟨h.phase, rfl, hPoisoned, h.silent⟩)
    | waiting h hLeft =>
        exact Or.inr (Or.inl ⟨h.phase, by decide, h.registry, h.unfinished hLeft⟩)
    | timedOut h hLeft =>
        exact Or.inr (Or.inl ⟨h.phase, (fun hReply => by cases hReply), h.registry, h.unfinished hLeft⟩)
    | failed failure h => exact Or.inr (Or.inl ⟨h.phase, (fun hReply => by cases hReply), h.registry, h.unfinished⟩)
    | closed h => exact Or.inl ⟨h.phase, rfl, h.registry, h.destroyed⟩

/-- Two resources, of which `busy` is still busy. -/
def answering (busy : Option Char) : Callbacks Char where
  cancelRequested resource _ _ := ⟨[.registerResource resource], some ()⟩
  quiesce resource _ _ :=
    ⟨[], some (.ok (if busy = some resource then .pending 1 else .quiesced))⟩
  destroy _ _ := ⟨[], some (.ok ())⟩

def twoRegistered : KernelContext Char :=
  (((create 2 .none).registerResource 'a').2.registerResource 'b').2

/-- The context closes in the second pass, the latest resource first. -/
theorem close_protocol_two :
    ((twoRegistered.close (answering (some 'b')) .contextClosing .none 0).context.close
      (answering none) .contextClosing .none 0).log =
        [('b', quietReport 1), ('b', .destroy 1 (some (.ok ()))),
          ('a', .destroy 0 (some (.ok ())))] ∧
      ((twoRegistered.close (answering (some 'b')) .contextClosing .none 0).context.close
        (answering none) .contextClosing .none 0).context.phase = .closed := by
  have hProtocol := close_protocol (.snoc (.snoc (.snoc (.snoc (.nil (create 2 .none))
    (.registerResource _ 'a')) (.registerResource _ 'b'))
    (.close _ (answering (some 'b')) .contextClosing .none 0))
    (.close _ (answering none) .contextClosing .none 0))
  refine ⟨by decide, ?_⟩
  rcases hProtocol.2.2.2.2.2.2 _ _ _ rfl with ⟨hPhase, -⟩ | ⟨-, hReply, -⟩ | ⟨-, hReply, -⟩
  · exact hPhase
  · exact absurd rfl hReply
  · cases hReply

end KernelContext
end Kernel

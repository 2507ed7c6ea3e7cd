import LumioNativeCore.Job.Order
import LumioNativeCore.Library.Waiting

/-! The worker threads of a job system and the callers that pump it (`worker_loop`,
`pump_one`). A thread that finds no work sleeps until it is notified, and the
notifications are sent outside the scheduler lock. -/
namespace Job

open Kernel Transition Waiting
open scoped List

/-- A system with its threads, and the works that callers of `pump_one` execute. -/
structure Pool where
  site : Site
  room : Room Work
  pumped : List Work

/-- A section under the lock, if it is one, and what it means for the threads. -/
structure PoolEvent where
  job : Option JobEvent
  turn : Turn Work

namespace Pool

/-- The pool of `spawned` worker threads. -/
def create (config : JobConfig) (spawned : Nat) (env : Environment) : Pool where
  site := ⟨env, .create config⟩
  room := ⟨List.replicate spawned .seeking, 0, 0⟩
  pumped := []

/-- `submit_input` notifies one thread of a job it entered. -/
def submitTurn : Except KernelError JobHandle → Turn Work
  | .ok _ => .oweOne
  | .error _ => .idle

end Pool

/-- A close call goes on. -/
def Site.proceed (site : Site) (call : Nat) (next : CloseCall) : Site :=
  { site with system :=
    { site.system with calls := Function.update site.system.calls call next } }

/-- The sections that concern neither the threads nor a close call that counts them. -/
def JobEvent.isAside : JobEvent → Bool
  | cancelReplied _ _ => true
  | drained _ => true
  | reaped _ _ => true
  | dropped _ => true
  | observed _ => true
  | destroyed _ (.ok _) => true
  | elsewhere => true
  | _ => false

/-- The steps of a pool. The threads that `quiesce` counts are those that have not left. -/
inductive Pool.Step : Pool → PoolEvent → Pool → Prop where
  | submit {site site' : Site} {room room' : Room Work} {pumped : List Work}
      {input : List UInt8} {outputCapacity : Nat} {result : Except KernelError JobHandle}
      (hSite : Site.Step site (.submitted input outputCapacity result) site')
      (hRoom : room.Step (submitTurn result) room') :
      Step ⟨site, room, pumped⟩
        ⟨some (.submitted input outputCapacity result), submitTurn result⟩ ⟨site', room', pumped⟩
  | leave {site : Site} {room room' : Room Work} {pumped : List Work}
      (hRefused : site.system.state.accepting = false) (hRoom : room.Step .leave room') :
      Step ⟨site, room, pumped⟩ ⟨none, .leave⟩ ⟨site, room', pumped⟩
  | start {site site' : Site} {room room' : Room Work} {pumped : List Work} {work : Work}
      (hAccepting : site.system.state.accepting = true)
      (hSite : Site.Step site (.taken (some work)) site') (hRoom : room.Step (.start work) room') :
      Step ⟨site, room, pumped⟩ ⟨some (.taken (some work)), .start work⟩ ⟨site', room', pumped⟩
  | park {site site' : Site} {room room' : Room Work} {pumped : List Work}
      (hAccepting : site.system.state.accepting = true)
      (hSite : Site.Step site (.taken none) site') (hRoom : room.Step .park room') :
      Step ⟨site, room, pumped⟩ ⟨some (.taken none), .park⟩ ⟨site', room', pumped⟩
  | finish {site site' : Site} {room room' : Room Work} {pumped : List Work} {work : Work}
      {state : JobState} (hSite : Site.Step site (.finished work.id state) site')
      (hRoom : room.Step (.finish work) room') :
      Step ⟨site, room, pumped⟩ ⟨some (.finished work.id state), .finish work⟩
        ⟨site', room', pumped⟩
  | announce {site : Site} {room room' : Room Work} {pumped : List Work}
      (hRoom : room.Step .announce room') :
      Step ⟨site, room, pumped⟩ ⟨none, .announce⟩ ⟨site, room', pumped⟩
  | rouse {site : Site} {room room' : Room Work} {pumped : List Work}
      (hRoom : room.Step .rouse room') :
      Step ⟨site, room, pumped⟩ ⟨none, .rouse⟩ ⟨site, room', pumped⟩
  | notifyOne {site : Site} {room room' : Room Work} {pumped : List Work}
      (hRoom : room.Step .notifyOne room') :
      Step ⟨site, room, pumped⟩ ⟨none, .notifyOne⟩ ⟨site, room', pumped⟩
  | notifyAll {site : Site} {room room' : Room Work} {pumped : List Work}
      (hRoom : room.Step .notifyAll room') :
      Step ⟨site, room, pumped⟩ ⟨none, .notifyAll⟩ ⟨site, room', pumped⟩
  | pumpTake {site site' : Site} {room : Room Work} {pumped : List Work} {work : Option Work}
      (hSite : Site.Step site (.taken work) site') :
      Step ⟨site, room, pumped⟩ ⟨some (.taken work), .idle⟩ ⟨site', room, pumped ++ work.toList⟩
  | pumpFinish {site site' : Site} {room room' : Room Work} {pumped before after : List Work}
      {work : Work} {state : JobState} (hPumped : pumped = before ++ work :: after)
      (hSite : Site.Step site (.finished work.id state) site') (hRoom : room.Step .oweAll room') :
      Step ⟨site, room, pumped⟩ ⟨some (.finished work.id state), .oweAll⟩
        ⟨site', room', before ++ after⟩
  | stop {site site' : Site} {room room' : Room Work} {pumped : List Work} {ids : List JobId}
      (hSite : Site.Step site (.stopped ids) site') (hRoom : room.Step .oweAll room') :
      Step ⟨site, room, pumped⟩ ⟨some (.stopped ids), .oweAll⟩ ⟨site', room', pumped⟩
  | quiesceReturn {site : Site} {room : Room Work} {pumped : List Work} {call running : Nat}
      (hCall : site.system.calls call = .observed false running) :
      Step ⟨site, room, pumped⟩
        ⟨some (.quiesced (JobSystem.quiesceState running room.present)), .idle⟩
        ⟨site.proceed call .idle, room, pumped⟩
  | destroyRefuse {site : Site} {room : Room Work} {pumped : List Work} {call running : Nat}
      (hCall : site.system.calls call = .observed true running)
      (hBusy : JobSystem.quiesceState running room.present ≠ .quiesced) :
      Step ⟨site, room, pumped⟩
        ⟨some (.destroyed [] (.error (error .contextClosing))), .idle⟩
        ⟨site.proceed call .idle, room, pumped⟩
  | destroyJoin {site : Site} {room : Room Work} {pumped : List Work} {call running : Nat}
      (hCall : site.system.calls call = .observed true running)
      (hQuiet : JobSystem.quiesceState running room.present = .quiesced) :
      Step ⟨site, room, pumped⟩ ⟨some .destroying, .idle⟩ ⟨site.proceed call .joining, room, pumped⟩
  | aside {site site' : Site} {room : Room Work} {pumped : List Work} {event : JobEvent}
      (hAside : event.isAside = true) (hSite : Site.Step site event site') :
      Step ⟨site, room, pumped⟩ ⟨some event, .idle⟩ ⟨site', room, pumped⟩

/-! The load that a section leaves. -/

/-- The jobs that a thread could start at once. -/
def Site.demand (site : Site) : Nat :=
  if site.system.state.accepting then
    min site.system.state.queue.length (site.system.config.maxRunning - site.system.state.running)
  else 0

/-- The work that a section hands out. -/
def JobEvent.handed : JobEvent → List Work
  | taken work => work.toList
  | _ => []

namespace Site

variable {site site' : Site} {event : JobEvent}

/-- The works in progress are those handed out and not finished. -/
theorem Step.works_handed (hStep : Step site event site')
    (hEvent : ∀ id state, event ≠ .finished id state) :
    site'.system.works = site.system.works ++ event.handed := by
  cases hStep with
  | takeWork => rfl
  | finish => exact absurd rfl (hEvent _ _)
  | _ => exact (List.append_nil _).symm

theorem Step.works_kept (hStep : Step site event site')
    (hEvent : ∀ id state, event ≠ .finished id state) (hHanded : event.handed = []) :
    site'.system.works = site.system.works := by
  rw [hStep.works_handed hEvent, hHanded, List.append_nil]

/-- A finished work is the one in progress with its number. -/
theorem Step.finished {work : Work} {state : JobState} (h : site.Sound)
    (hStep : Step site (.finished work.id state) site') (hWork : work ∈ site.system.works) :
    site.system.works.Perm (work :: site'.system.works) := by
  generalize hEvent : JobEvent.finished work.id state = event at hStep
  cases hStep with
  | finish before after other cancelled exceeded now run hWorks =>
      obtain ⟨hId, -⟩ := JobEvent.finished.inj hEvent
      have hOther : other ∈ site.system.works := by simp [hWorks]
      obtain rfl := List.inj_on_of_nodup_map h.worksNodup hWork hOther hId
      rw [hWorks]
      exact List.perm_middle
  | _ => cases hEvent

theorem Step.running (h : site.Sound) (hStep : Step site event site')
    (hEvent : ∀ id state, event ≠ .finished id state) :
    site'.system.state.running = site.system.state.running + event.started.length := by
  rw [(hStep.effect h).1.running, h.running, hStep.works_handed hEvent, List.length_append]
  congr 1
  cases event with
  | taken work => cases work <;> rfl
  | _ => rfl

/-- One job more in the queue is one more to start, and one started is one less. -/
theorem Step.demand (h : site.Sound) (hStep : Step site event site')
    (hEvent : ∀ id state, event ≠ .finished id state) :
    site'.demand ≤ site.demand + event.entered.length - event.started.length := by
  have hQueue := (hStep.queue h).length_le
  have hRunning := hStep.running h hEvent
  rw [List.length_append, List.length_append] at hQueue
  rw [Site.demand, Site.demand, hStep.config]
  split_ifs with hOpen hBefore
  · omega
  · exact absurd (Eq.trans (hStep.stopped h (Bool.eq_false_of_not_eq_true hBefore)).1.symm hOpen)
      Bool.false_ne_true
  · exact Nat.zero_le _
  · exact Nat.zero_le _

/-- Only `stop` closes a system. -/
theorem Step.accepting (h : site.Sound) (hStep : Step site event site')
    (hEvent : ∀ ids, event ≠ .stopped ids) :
    site'.system.state.accepting = site.system.state.accepting := by
  cases hStep with
  | submitInput path request input outputCapacity result env state hSubmit =>
      rcases submitInput_cases site.system.config path request input outputCapacity site.env
        site.system.state with ⟨failure, hCase⟩ | ⟨-, -, -, -, hCase⟩
      · cases hSubmit.symm.trans hCase
        rfl
      · cases hSubmit.symm.trans hCase
        rfl
  | takeWork work state hTake =>
      rcases SchedulerState.takeWork_eq h.state site.system.config.maxRunning with hCase |
        ⟨id, rest, record, -, -, -, -, -, hCase⟩
      · cases hTake.symm.trans hCase
        rfl
      · cases hTake.symm.trans hCase
        rfl
  | finish before after work cancelled exceeded now run hWorks =>
      rw [SchedulerState.finish_eq ((h.working work.id).mp (by simp [hWorks]))]
  | cancel handle => exact cancel_accepting site.system handle
  | cancelRequested => exact absurd rfl (hEvent _)
  | closeStop => exact absurd rfl (hEvent _)
  | drainCompletions room =>
      obtain ⟨completions, -, -, -, hState⟩ := SchedulerState.drainCompletions_spec h.state room
      rw [hState]
  | takeResult handle result state hTake =>
      have hSame := takeResult_accepting site.system handle
      rwa [hTake] at hSame
  | _ => rfl

/-- `take_work` finds nothing only where no job could start. -/
theorem Step.taken_none (h : site.Sound) (hStep : Step site (.taken none) site') :
    site.demand = 0 := by
  generalize hEvent : JobEvent.taken none = event at hStep
  cases hStep with
  | takeWork work state hTake =>
      cases hEvent
      rw [Site.demand]
      split_ifs with hAccepting
      · by_contra hDemand
        -- otherwise there is a front of the queue that may start
        obtain ⟨hQueue, hBelow⟩ := not_or.mp (Nat.min_eq_zero_iff.not.mp hDemand)
        rw [SchedulerState.takeWork, if_neg (by simp [hAccepting]; omega)] at hTake
        cases hFront : site.system.state.queue with
        | nil => exact hQueue (by rw [hFront, List.length_nil])
        | cons id rest =>
            obtain ⟨record, hRecord, hQueued⟩ := SchedulerState.phase_eq_some.mp
              ((h.state.queued id).mp (hFront ▸ List.mem_cons_self))
            simp [hFront, SchedulerState.popQueued, hRecord, hQueued] at hTake
      · rfl
  | _ => cases hEvent

end Site

namespace Pool

variable {pool pool' : Pool} {event : PoolEvent}

/-- What a pool does is what its threads do. -/
theorem Step.room (hStep : Step pool event pool') : pool.room.Step event.turn pool'.room := by
  cases hStep with
  | submit _ hRoom => exact hRoom
  | leave _ hRoom => exact hRoom
  | start _ _ hRoom => exact hRoom
  | park _ _ hRoom => exact hRoom
  | finish _ hRoom => exact hRoom
  | announce hRoom => exact hRoom
  | rouse hRoom => exact hRoom
  | notifyOne hRoom => exact hRoom
  | notifyAll hRoom => exact hRoom
  | pumpFinish _ _ hRoom => exact hRoom
  | stop _ hRoom => exact hRoom
  | _ => exact .idle _

/-- What a pool does to its jobs is what the system does. -/
theorem Step.site (hStep : Step pool event pool') :
    Run Site.Step pool.site event.job.toList pool'.site := by
  cases hStep with
  | submit hSite => exact .single hSite
  | start _ hSite => exact .single hSite
  | park _ hSite => exact .single hSite
  | finish hSite => exact .single hSite
  | pumpTake hSite => exact .single hSite
  | pumpFinish _ hSite => exact .single hSite
  | stop hSite => exact .single hSite
  | quiesceReturn hCall => exact .single (.quiesceReturn _ _ _ _ hCall)
  | destroyRefuse hCall hBusy => exact .single (.destroyRefuse _ _ _ _ hCall hBusy)
  | destroyJoin hCall hQuiet => exact .single (.destroyJoin _ _ _ _ hCall hQuiet)
  | aside _ hSite => exact .single hSite
  | _ => exact Run.nil _

theorem run_room {trace : List PoolEvent} (run : Run Step pool trace pool') :
    Run Room.Step pool.room (trace.map PoolEvent.turn) pool'.room := by
  have hRun := run.flatMap Pool.room (fun event => [event.turn])
    fun _ _ _ hStep => .single hStep.room
  rwa [← List.map_eq_flatMap] at hRun

theorem run_site {trace : List PoolEvent} (run : Run Step pool trace pool') :
    Run Site.Step pool.site (trace.flatMap fun event => event.job.toList) pool'.site :=
  run.flatMap Pool.site _ fun _ _ _ hStep => hStep.site

/-- What holds of a pool in every run. -/
structure Sound (pool : Pool) : Prop where
  site : pool.site.Sound
  works : pool.site.system.works.Perm (pool.room.works ++ pool.pumped)
  covers : pool.room.Covers pool.site.demand
  staying : pool.site.system.state.accepting = true → .left ∉ pool.room.threads
  drains : pool.site.system.state.accepting = false → pool.room.Drains

theorem sound_create (config : JobConfig) (spawned : Nat) (env : Environment) :
    (create config spawned env).Sound where
  site := Site.sound_create config env
  works := by
    show List.Perm [] ((List.replicate spawned (.seeking : Stage Work)).flatMap Stage.works ++ [])
    simp [Stage.works]
  covers := by
    refine Or.inl (Room.total_eq_zero.mpr fun stage hStage => ?_)
    rw [List.eq_of_mem_replicate hStage]
    rfl
  staying := fun _ hMem => by cases List.eq_of_mem_replicate hMem
  drains := by
    intro _
    refine Or.inl (Room.total_eq_zero.mpr fun stage hStage => ?_)
    rw [List.eq_of_mem_replicate hStage]
    rfl

theorem demand_closed {site : Site} (hAccepting : site.system.state.accepting = false) :
    site.demand = 0 := by
  rw [Site.demand, hAccepting]
  rfl

theorem Step.sound_site (h : pool.Sound) (hStep : Step pool event pool') : pool'.site.Sound :=
  hStep.site.preserves Site.Sound (fun _ _ _ hSound hSite => (hSite.effect hSound).1) h.site

theorem Step.bears (h : pool.Sound) (hStep : Step pool event pool') :
    event.turn.Bears pool.site.demand pool'.site.demand := by
  cases hStep with
  | @submit _ _ _ _ _ _ _ result hSite =>
      have hDemand := hSite.demand h.site fun _ _ hEvent => by cases hEvent
      cases result with
      | ok handle => exact hDemand
      | error failure => exact hDemand
  | leave hRefused => exact demand_closed hRefused
  | start hAccepting hSite => exact hSite.demand h.site fun _ _ hEvent => by cases hEvent
  | park hAccepting hSite =>
      have hDemand := hSite.demand h.site fun _ _ hEvent => by cases hEvent
      rw [hSite.taken_none h.site] at hDemand
      exact Nat.le_zero.mp hDemand
  | finish => trivial
  | announce => trivial
  | rouse => exact Nat.le_refl _
  | notifyOne => exact Nat.le_refl _
  | notifyAll => trivial
  | @pumpTake _ _ _ _ work hSite =>
      have hDemand := hSite.demand h.site fun _ _ hEvent => by cases hEvent
      exact hDemand.trans (Nat.sub_le _ _)
  | pumpFinish => trivial
  | stop => trivial
  | quiesceReturn => exact Nat.le_refl _
  | destroyRefuse => exact Nat.le_refl _
  | destroyJoin => exact Nat.le_refl _
  | @aside _ _ _ _ event hAside hSite =>
      have hDemand := hSite.demand h.site fun _ _ hEvent => by
        rw [hEvent] at hAside
        cases hAside
      have hEntered : event.entered = [] := by
        cases event with
        | submitted => cases hAside
        | _ => rfl
      rw [hEntered] at hDemand
      exact hDemand.trans (Nat.sub_le _ _)

/-- A work in progress is a thread's or a caller's. -/
theorem Step.works (h : pool.Sound) (hStep : Step pool event pool') :
    pool'.site.system.works.Perm (pool'.room.works ++ pool'.pumped) := by
  have hWorks := h.works
  have hRoom := hStep.room.works
  cases hStep with
  | @submit _ _ _ _ _ _ _ result hSite =>
      rw [hSite.works_kept (fun _ _ hEvent => by cases hEvent) rfl]
      cases result with
      | ok handle => exact hWorks.trans (hRoom.append_right _)
      | error failure => exact hWorks.trans (hRoom.append_right _)
  | @start site site' room room' pumped work hAccepting hSite =>
      rw [hSite.works_handed fun _ _ hEvent => by cases hEvent]
      calc site.system.works ++ [work]
        _ ~ [work] ++ site.system.works := List.perm_append_comm
        _ ~ [work] ++ (room.works ++ pumped) := hWorks.append_left _
        _ ~ room'.works ++ pumped := by
          rw [← List.append_assoc]
          exact hRoom.append_right _
  | park hAccepting hSite =>
      rw [hSite.works_kept (fun _ _ hEvent => by cases hEvent) rfl]
      exact hWorks.trans (hRoom.append_right _)
  | @finish site site' room room' pumped work state hSite =>
      have hSplit : room.works ++ pumped ~ work :: (room'.works ++ pumped) :=
        hRoom.append_right pumped
      have hMem := (hWorks.trans hSplit).symm.subset List.mem_cons_self
      exact ((hSite.finished h.site hMem).symm.trans (hWorks.trans hSplit)).cons_inv
  | pumpTake hSite =>
      rw [hSite.works_handed fun _ _ hEvent => by cases hEvent]
      exact (hWorks.append_right _).trans (List.append_assoc _ _ _ ▸ List.Perm.refl _)
  | @pumpFinish site site' room room' _ before after work state hPumped hSite =>
      have hSplit : room.works ++ (before ++ work :: after) ~
          work :: (room'.works ++ (before ++ after)) := by
        calc room.works ++ (before ++ work :: after)
          _ ~ room'.works ++ (before ++ work :: after) := hRoom.append_right _
          _ ~ room'.works ++ (work :: (before ++ after)) := List.perm_middle.append_left _
          _ ~ work :: (room'.works ++ (before ++ after)) := List.perm_middle
      subst hPumped
      have hMem := (hWorks.trans hSplit).symm.subset List.mem_cons_self
      exact ((hSite.finished h.site hMem).symm.trans (hWorks.trans hSplit)).cons_inv
  | stop hSite =>
      rw [hSite.works_kept (fun _ _ hEvent => by cases hEvent) rfl]
      exact hWorks.trans (hRoom.append_right _)
  | @aside _ _ _ _ event hAside hSite =>
      have hHanded : event.handed = [] := by
        cases event with
        | taken => cases hAside
        | _ => rfl
      rw [hSite.works_kept (fun _ _ hEvent => by rw [hEvent] at hAside; cases hAside) hHanded]
      exact hWorks
  | _ => exact hWorks.trans (hRoom.append_right _)

theorem Step.accepting (h : pool.Sound) (hStep : Step pool event pool')
    (hEvent : ∀ ids, event.job ≠ some (.stopped ids)) :
    pool'.site.system.state.accepting = pool.site.system.state.accepting := by
  cases hStep with
  | submit hSite => exact hSite.accepting h.site fun _ hJob => by cases hJob
  | start hAccepting hSite => exact hSite.accepting h.site fun _ hJob => by cases hJob
  | park hAccepting hSite => exact hSite.accepting h.site fun _ hJob => by cases hJob
  | finish hSite => exact hSite.accepting h.site fun _ hJob => by cases hJob
  | pumpTake hSite => exact hSite.accepting h.site fun _ hJob => by cases hJob
  | pumpFinish hPumped hSite => exact hSite.accepting h.site fun _ hJob => by cases hJob
  | stop hSite => exact absurd rfl (hEvent _)
  | aside hAside hSite => exact hSite.accepting h.site fun _ hJob => hEvent _ (congrArg some hJob)
  | _ => rfl

/-- A closed system hands out no work, and its threads do not go back to sleep. -/
theorem Step.turn_closed (h : pool.Sound) (hStep : Step pool event pool')
    (hClosed : pool.site.system.state.accepting = false) :
    event.turn ≠ .park ∧ ∀ work, event.turn ≠ .start work := by
  have hOpen : pool.site.system.state.accepting ≠ true := by
    rw [hClosed]
    exact Bool.false_ne_true
  cases hStep with
  | @submit _ _ _ _ _ _ _ result =>
      cases result with
      | ok handle => exact ⟨nofun, nofun⟩
      | error failure => exact ⟨nofun, nofun⟩
  | start hAccepting => exact absurd hAccepting hOpen
  | park hAccepting => exact absurd hAccepting hOpen
  | _ => exact ⟨nofun, nofun⟩

theorem Step.drains (h : pool.Sound) (hStep : Step pool event pool')
    (hClosed : pool'.site.system.state.accepting = false) : pool'.room.Drains := by
  by_cases hStop : ∀ ids, event.job ≠ some (.stopped ids)
  · have hBefore := (hStep.accepting h hStop).symm.trans hClosed
    exact hStep.room.drains (hStep.turn_closed h hBefore).1 (h.drains hBefore)
  · -- the step that closes the system owes a notification to everyone
    simp only [not_forall, not_not] at hStop
    obtain ⟨ids, hJob⟩ := hStop
    cases hStep with
    | stop hSite hRoom =>
        cases hRoom with
        | oweAll => exact Or.inr (Nat.lt_of_lt_of_le (Nat.succ_pos _) (Nat.le_add_right _ _))
        | move hMoves => cases hMoves
    | aside hAside hSite =>
        cases hJob
        cases hAside
    | _ => cases hJob

theorem Step.closed (h : pool.Sound) (hStep : Step pool event pool')
    (hClosed : pool.site.system.state.accepting = false) :
    pool'.site.system.state.accepting = false :=
  (hStep.site.preserves (fun site => site.Sound ∧ site.system.state.accepting = false)
    (fun _ _ _ hBoth hSite => ⟨(hSite.effect hBoth.1).1, (hSite.stopped hBoth.1 hBoth.2).1⟩)
    ⟨h.site, hClosed⟩).2

theorem Step.staying (h : pool.Sound) (hStep : Step pool event pool')
    (hAccepting : pool'.site.system.state.accepting = true) : .left ∉ pool'.room.threads := by
  intro hLeft
  have hBefore : pool.site.system.state.accepting = true := by
    by_contra hClosed
    exact Bool.false_ne_true
      ((hStep.closed h (Bool.eq_false_of_not_eq_true hClosed)).symm.trans hAccepting)
  by_cases hTurn : event.turn = .leave
  · cases hStep with
    | leave hRefused => exact Bool.false_ne_true (hRefused.symm.trans hBefore)
    | @submit _ _ _ _ _ _ _ result =>
        cases result with
        | ok handle => cases hTurn
        | error failure => cases hTurn
    | _ => cases hTurn
  · exact h.staying hBefore (hStep.room.left_mem hTurn hLeft)

theorem Step.sound (h : pool.Sound) (hStep : Step pool event pool') : pool'.Sound where
  site := hStep.sound_site h
  works := hStep.works h
  covers := hStep.room.covers (hStep.bears h) h.covers
  staying := hStep.staying h
  drains := hStep.drains h

theorem sound_of_run {trace : List PoolEvent} (run : Run Step pool trace pool') (h : pool.Sound) :
    pool'.Sound :=
  run.preserves Sound (fun _ _ _ hSound hStep => hStep.sound hSound) h

theorem run_config {trace : List PoolEvent} (run : Run Step pool trace pool') :
    pool'.site.system.config = pool.site.system.config ∧
      pool'.room.threads.length = pool.room.threads.length := by
  refine run.preserves (fun pool' => pool'.site.system.config = pool.site.system.config ∧
    pool'.room.threads.length = pool.room.threads.length) ?_ ⟨rfl, rfl⟩
  intro middle event next ⟨hConfig, hLength⟩ hStep
  refine ⟨?_, hStep.room.threads_length.trans hLength⟩
  exact (hStep.site.preserves (fun site => site.system.config = middle.site.system.config)
    (fun _ _ _ hSame hSite => hSite.config.trans hSame) rfl).trans hConfig

theorem Sound.running (h : pool.Sound) :
    pool.site.system.state.running = pool.room.busy + pool.pumped.length := by
  rw [h.site.running, h.works.length_eq, List.length_append, Room.works_length]

/-- At rest an open system is at its limit or has no job waiting. -/
theorem Sound.at_rest (h : pool.Sound) (hRests : pool.room.Rests)
    (hAccepting : pool.site.system.state.accepting = true)
    (hThreads : pool.room.threads.length = pool.site.system.config.maxRunning) :
    pool.site.system.state.queue = [] ∨
      pool.site.system.state.running = pool.site.system.config.maxRunning := by
  have hBound := h.site.runningBound
  rcases h.covers.at_rest hRests with hParked | hDemand
  · -- every thread is at work
    have hPresent : pool.room.present = pool.room.threads.length :=
      Room.present_eq_length (h.staying hAccepting)
    have hRunning := h.running
    have hSplit := pool.room.present_eq
    have hSeeking := hRests.seeking
    have hAnnouncing := hRests.announcing
    exact Or.inr (by omega)
  · rw [Site.demand, hAccepting, if_pos rfl, Nat.min_eq_zero_iff] at hDemand
    rcases hDemand with hQueue | hFull
    · exact Or.inl (List.length_eq_zero_iff.mp hQueue)
    · exact Or.inr (by omega)

/-- A pool that is not at rest has a step of its own. -/
theorem unrested (hUnrest : ¬pool.room.Rests) :
    ∃ event pool', event.turn.isInner = true ∧ Step pool event pool' := by
  obtain ⟨site, room, pumped⟩ := pool
  rcases Room.unrested hUnrest with ⟨before, after, hThreads⟩ | ⟨turn, room', hTurn, hRoom⟩
  · cases hAccepting : site.system.state.accepting with
    | false => exact ⟨_, _, rfl, .leave hAccepting (.move .leave hThreads)⟩
    | true =>
        cases hTake : site.system.state.takeWork site.system.config.maxRunning with
        | mk work state =>
            have hSite := Site.Step.takeWork site work state hTake
            cases work with
            | none => exact ⟨_, _, rfl, .park hAccepting hSite (.move .park hThreads)⟩
            | some work => exact ⟨_, _, rfl, .start hAccepting hSite (.move (.start work) hThreads)⟩
  · rcases hTurn with rfl | rfl | rfl
    · exact ⟨_, _, rfl, .announce hRoom⟩
    · exact ⟨_, _, rfl, .notifyOne hRoom⟩
    · exact ⟨_, _, rfl, .notifyAll hRoom⟩

/-- In a run the turns of the pool itself are bounded by its unrest at the start, up to what
callers and finished works stir up. -/
theorem inner_le {trace : List PoolEvent} (run : Run Step pool trace pool') :
    trace.countP (fun event => event.turn.isInner) + pool'.room.unrest ≤
      pool.room.unrest +
        (trace.map fun event => event.turn.stir pool.room.threads.length).sum := by
  have hBound := Room.inner_le (run_room run)
  rwa [List.countP_map, List.map_map] at hBound

/-- No wake-up is lost. However the steps of the threads interleave with callers and with
kernels, a pool left to itself comes to rest after boundedly many steps and no earlier, and
at rest a job waits only while as many kernels run as the configuration allows. -/
theorem no_lost_wakeup {config : JobConfig} {env : Environment} {trace : List PoolEvent}
    (run : Run Step (create config config.maxRunning env) trace pool) :
    (pool.room.Rests → pool.site.system.state.queue = [] ∨
      pool.site.system.state.running = config.maxRunning) ∧
    (¬pool.room.Rests → ∃ event pool', event.turn.isInner = true ∧ Step pool event pool') ∧
    ∀ later pool', Run Step pool later pool' → (∀ event ∈ later, event.turn.isInner = true) →
      later.length ≤ pool.room.unrest := by
  have hSound := sound_of_run run (sound_create _ _ _)
  obtain ⟨hConfig, hLength⟩ := run_config run
  have hThreads : pool.room.threads.length = pool.site.system.config.maxRunning := by
    rw [hLength, hConfig]
    exact List.length_replicate
  refine ⟨fun hRests => ?_, unrested, fun later pool' hLater hInner => ?_⟩
  · cases hAccepting : pool.site.system.state.accepting with
    | false => exact Or.inl (hSound.site.state.stopped hAccepting)
    | true =>
        have hFull := hSound.at_rest hRests hAccepting hThreads
        rwa [hConfig] at hFull
  · have hBound := inner_le hLater
    have hStir : (later.map fun event => event.turn.stir pool.room.threads.length).sum = 0 := by
      refine List.sum_eq_zero fun stirred hMem => ?_
      obtain ⟨event, hEvent, rfl⟩ := List.mem_map.mp hMem
      exact Turn.stir_inner (hInner event hEvent) _
    rw [List.countP_eq_length.mpr hInner, hStir] at hBound
    exact Nat.le_of_add_right_le hBound

/-- The only thread is at work on one job while the other one waits. -/
theorem no_lost_wakeup_one :
    ∃ pool : Pool, pool.site.system.state.queue = [1] ∧ pool.site.system.state.running = 1 := by
  have run := Run.snoc (Run.snoc (Run.snoc (Run.snoc (Run.snoc
    (Run.nil (create ⟨1, ⟨1⟩, 2, 2, 1⟩ 1 ⟨.new 8, 0⟩))
    (Step.submit (Site.Step.submitInput _ ⟨.ok (), true, true, true⟩ ⟨7, .none⟩ [1] 1 _ _ _ rfl)
      (.oweOne _)))
    (Step.start rfl (Site.Step.takeWork _ _ _ rfl)
      (@Room.Step.move _ _ _ _ _ [] [] (.start _) rfl)))
    (Step.submit (Site.Step.submitInput _ ⟨.ok (), true, true, true⟩ ⟨7, .none⟩ [2] 1 _ _ _ rfl)
      (.oweOne _)))
    (Step.notifyOne (.notifyNone (by simp) rfl)))
    (Step.notifyOne (.notifyNone (by simp) rfl))
  obtain ⟨hFull, -, -⟩ := no_lost_wakeup run
  refine ⟨_, rfl, (hFull ⟨rfl, rfl, rfl, rfl⟩).resolve_left ?_⟩
  exact List.cons_ne_nil _ _

/-- The threads of a closed system use up their fuel. -/
theorem closed_run {trace : List PoolEvent} (h : pool.Sound)
    (hClosed : pool.site.system.state.accepting = false) (run : Run Step pool trace pool') :
    (pool'.Sound ∧ pool'.site.system.state.accepting = false) ∧
      trace.countP (fun event => event.turn.isSpent) + pool'.room.fuel ≤ pool.room.fuel := by
  refine run.spends (fun pool => pool.Sound ∧ pool.site.system.state.accepting = false)
    (fun event => event.turn.isSpent) (fun pool => pool.room.fuel) ?_ ⟨h, hClosed⟩
  intro middle event next ⟨hSound, hStill⟩ hStep
  refine ⟨⟨hStep.sound hSound, hStep.closed hSound hStill⟩, Nat.le_of_eq ?_⟩
  exact hStep.room.fuel (hStep.turn_closed hSound hStill).2

theorem closed_turns {trace : List PoolEvent} (h : pool.Sound)
    (hClosed : pool.site.system.state.accepting = false) (run : Run Step pool trace pool') :
    ∀ event ∈ trace, event.turn ≠ .park ∧ ∀ work, event.turn ≠ .start work := by
  intro event hMem
  obtain ⟨before, after, rfl⟩ := List.append_of_mem hMem
  obtain ⟨first, second, hBefore, hStep, -⟩ := run.at
  obtain ⟨⟨hSound, hStill⟩, -⟩ := closed_run h hClosed hBefore
  exact hStep.turn_closed hSound hStill

/-- After a close call has stopped a system its threads start nothing, none goes back to
sleep for good, and after three steps for each of them, all together, they are gone: as long as
one is left, a kernel runs or the pool has a step of its own. Then `quiesce` reports it, unless a
caller still pumps. -/
theorem workers_drain {config : JobConfig} {spawned : Nat} {env : Environment}
    {before after : List PoolEvent} {ids : List JobId} {turn : Turn Work}
    (run : Run Step (create config spawned env)
      (before ++ ⟨some (.stopped ids), turn⟩ :: after) pool) :
    (∀ event ∈ after, event.turn ≠ .park ∧ ∀ work, event.turn ≠ .start work) ∧
    after.countP (fun event => event.turn.isSpent) ≤ 3 * spawned ∧
    (pool.room.present ≠ 0 → pool.room.busy ≠ 0 ∨
      ∃ event pool', event.turn.isInner = true ∧ Step pool event pool') ∧
    (pool.room.present = 0 → pool.pumped = [] →
      JobSystem.quiesceState pool.site.system.state.running pool.room.present = .quiesced) := by
  obtain ⟨first, second, hBefore, hStep, hAfter⟩ := run.at
  have hFirst := sound_of_run hBefore (sound_create _ _ _)
  have hClosed : second.site.system.state.accepting = false := by
    cases hStep with
    | stop hSite => exact hSite.closed hFirst.site
    | aside hAside => cases hAside
  obtain ⟨⟨hSound, hStill⟩, hFuel⟩ := closed_run (hStep.sound hFirst) hClosed hAfter
  refine ⟨closed_turns (hStep.sound hFirst) hClosed hAfter, ?_, fun hPresent => ?_, fun hPresent hPumped => ?_⟩
  · have hBound := second.room.fuel_le
    rw [hStep.room.threads_length, (run_config hBefore).2, create, List.length_replicate] at hBound
    omega
  · by_cases hBusy : pool.room.busy = 0
    · refine Or.inr (unrested fun hRests => hPresent ?_)
      exact (hSound.drains hStill).all_left hRests hBusy
    · exact Or.inl hBusy
  · have hRunning := hSound.running
    have hSplit := pool.room.present_eq
    rw [hPumped, List.length_nil] at hRunning
    rw [JobSystem.quiesceState, if_pos (by omega)]

/-- A thread that slept is woken by the close of the system and leaves. -/
theorem workers_drain_one :
    ∃ pool : Pool, pool.room.threads = [.left] ∧
      JobSystem.quiesceState pool.site.system.state.running pool.room.present = .quiesced := by
  have run := Run.snoc (Run.snoc (Run.snoc (Run.snoc
    (Run.nil (create ⟨1, ⟨1⟩, 2, 2, 1⟩ 1 ⟨.new 8, 0⟩))
    (Step.park rfl (Site.Step.takeWork _ _ _ rfl) (@Room.Step.move _ _ _ _ _ [] [] .park rfl)))
    (Step.stop (Site.Step.cancelRequested _) (.oweAll _)))
    (Step.notifyAll (.notifyAll rfl)))
    (Step.leave rfl (@Room.Step.move _ _ _ _ _ [] [] .leave rfl))
  obtain ⟨-, -, -, hQuiesced⟩ := @workers_drain _ _ _ _ [⟨some (.taken none), .park⟩]
    [⟨none, .notifyAll⟩, ⟨none, .leave⟩] _ _ run
  exact ⟨_, rfl, hQuiesced rfl rfl⟩

end Pool
end Job

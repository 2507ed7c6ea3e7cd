import LumioNativeCore.Kernel.Context.Composite
import LumioNativeCore.Job.Closing
import LumioNativeCore.Spatial.Shutdown
import LumioNativeCore.Hfsm.Fence
import LumioNativeCore.Codec.Resource
import LumioNativeCore.Diagnostics.Resource

/-! A context with the resources that the crates register with it: what is left of them when
it has been closed. -/
namespace Process

open Kernel Transition
open Job (Site JobEvent)
open Spatial (SpatialResource SpatialContext SpatialIndexBackend GridReferenceIndex)
open Hfsm (HfsmDefinitionRegistry HfsmLimits RegistryEvent)
open Codec (CodecResource CodecEvent)
open Diagnostics (DiagnosticsResource BoundedRecorder)

/-- The resources that implement `ContextResource`. -/
inductive Component (S : Type) where
  | jobs (site : Site)
  | spatial (resource : SpatialResource S)
  | hfsm (capacity : Nat) (registry : HfsmDefinitionRegistry capacity)
  | codec (resource : CodecResource)
  | diagnostics (resource : DiagnosticsResource)

inductive ComponentEvent where
  | jobs (event : JobEvent)
  | spatial (label : Nat × Spatial.ResourceEvent)
  | hfsm (event : RegistryEvent)
  | codec (event : CodecEvent)
  | diagnostics (event : Diagnostics.ResourceEvent)

namespace ComponentEvent

def job? : ComponentEvent → Option JobEvent
  | jobs event => some event
  | _ => none

/-- The callback that returns with this event. -/
def Answers : ComponentEvent → CallbackEvent → Prop
  | jobs (.stopped _), .cancelRequested _ value => value = some ()
  | jobs (.quiesced reply), .quiesce _ value => value = some (.ok reply)
  | jobs (.destroyed _ reply), .destroy _ value => value = some reply
  | spatial (_, .cancelRequested), .cancelRequested _ value => value = some ()
  | spatial (_, .quiesced reply), .quiesce _ value => value = some reply
  | spatial (_, .destroyed reply), .destroy _ value => value = some reply
  | hfsm .cancelRequested, .cancelRequested _ value => value = some ()
  | hfsm .destroyed, .destroy _ value => value = some (.ok ())
  | codec .destroyed, .destroy _ value => value = some (.ok ())
  | diagnostics .destroyed, .destroy _ value => value = some (.ok ())
  | _, _ => False

/-- Only the submission of a job asks for an admission. -/
def publishes : ComponentEvent → Bool
  | jobs (.submitted _ _ (.ok _)) => true
  | _ => false

end ComponentEvent

namespace Component

variable {S : Type} {backend : SpatialIndexBackend S}

/-- A callback that does nothing to this resource. Whatever a callback
did before it panicked is a step of the resource's own. -/
def Ignores : Component S → CallbackEvent → Prop
  | codec _, .cancelRequested _ value | diagnostics _, .cancelRequested _ value => value = some ()
  | hfsm _ _, .quiesce _ value | codec _, .quiesce _ value | diagnostics _, .quiesce _ value =>
      value = some (.ok .quiesced)
  | _, .cancelRequested _ value => value = none
  | _, .quiesce _ value => value = none
  | _, .destroy _ value => value = none

inductive Step (backend : SpatialIndexBackend S) :
    Component S → ComponentEvent → Component S → Prop where
  | jobs {site site' : Site} {event : JobEvent} (hStep : Site.Step site event site') :
      Step backend (.jobs site) (.jobs event) (.jobs site')
  | spatial {r r' : SpatialResource S} {label : Nat × Spatial.ResourceEvent}
      (hStep : SpatialResource.Step backend r label r') :
      Step backend (.spatial r) (.spatial label) (.spatial r')
  | hfsm {capacity : Nat} {reg reg' : HfsmDefinitionRegistry capacity} {event : RegistryEvent}
      (hStep : HfsmDefinitionRegistry.Step reg event reg') :
      Step backend (.hfsm capacity reg) (.hfsm event) (.hfsm capacity reg')
  | codec {resource resource' : CodecResource} {event : CodecEvent}
      (hStep : CodecResource.Step resource event resource') :
      Step backend (.codec resource) (.codec event) (.codec resource')
  | diagnostics {resource resource' : DiagnosticsResource} {event : Diagnostics.ResourceEvent}
      (hStep : DiagnosticsResource.Step resource event resource') :
      Step backend (.diagnostics resource) (.diagnostics event) (.diagnostics resource')

/-- A resource as its crate creates it. -/
inductive Fresh : Component S → Prop where
  | jobs (env : Job.Environment) (config : Job.JobConfig) : Fresh (.jobs ⟨env, .create config⟩)
  | spatial (context : SpatialContext S) : Fresh (.spatial (.new context))
  | hfsm (context : ContextKey) (capacity : UInt32) (limits : HfsmLimits) :
      Fresh (.hfsm capacity.toNat (.new context capacity limits))
  | codec : Fresh (.codec .new)
  | diagnostics (recorder : BoundedRecorder) : Fresh (.diagnostics (.new recorder))

/-- The invariants of the resources. -/
def Good : Component S → Prop
  | jobs site => site.Sound
  | spatial r => r.Sound
  | hfsm _ reg => reg.Marked
  | codec resource => resource.Marked
  | diagnostics _ => True

/-- A job system that holds no job and runs none, an index that is gone, and a registry, a
workspace and a recorder that refuse who comes now. -/
def Dead : Component S → Prop
  | jobs site => site.Dead
  | spatial r => r.Over
  | hfsm _ reg => reg.destroyed = true
  | codec resource => resource.destroyed = true
  | diagnostics resource => resource.closed = true

variable {c c' : Component S} {e : ComponentEvent}

theorem Fresh.good (h : c.Fresh) : c.Good := by
  cases h with
  | jobs env config => exact Site.sound_create config env
  | spatial context => exact SpatialResource.sound_new context
  | hfsm context capacity limits => exact HfsmDefinitionRegistry.marked_new (.nil _)
  | codec => exact fun hMem => absurd hMem List.not_mem_nil
  | diagnostics => trivial

end Component

/-- The resources as the context knows them. -/
def kind {S : Type} (backend : SpatialIndexBackend S) :
    ResourceKind (Component S) ComponentEvent where
  Step := Component.Step backend
  Answers := ComponentEvent.Answers
  Ignores := Component.Ignores
  publishes := ComponentEvent.publishes

variable {S : Type} {backend : SpatialIndexBackend S}

namespace Component

variable {c c' : Component S} {e : ComponentEvent}

theorem Step.good (hStep : Step backend c e c') (h : c.Good) : c'.Good := by
  cases hStep with
  | jobs hStep => exact (hStep.effect h).1
  | spatial hStep => exact h.step hStep
  | hfsm hStep => exact (hStep.marked h).1
  | codec hStep => exact hStep.marked h
  | diagnostics => trivial

theorem Step.dead (hStep : Step backend c e c') (hGood : c.Good) (h : c.Dead) : c'.Dead := by
  cases hStep with
  | jobs hStep => exact h.step hGood hStep
  | spatial hStep => exact h.step hStep
  | hfsm hStep => exact hStep.destroyed h
  | codec hStep => exact (hStep.destroyed h).1
  | diagnostics hStep => exact (hStep.closed h).1

/-- A resource that answers its destruction is dead. -/
theorem Step.dies (hStep : Step backend c e c') (h : c.Good) {index : Nat}
    (hAnswers : e.Answers (.destroy index (some (.ok ())))) : c'.Dead := by
  cases hStep with
  | @jobs site site' event hStep =>
      cases event with
      | destroyed leases reply =>
          cases hAnswers
          exact Site.dead_of_destroyed h hStep
      | _ => cases hAnswers
  | @spatial r r' label hStep =>
      obtain ⟨call, event⟩ := label
      cases event with
      | destroyed reply =>
          cases hAnswers
          exact h.destroyed hStep
      | _ => cases hAnswers
  | @hfsm capacity reg reg' event hStep =>
      cases hStep with
      | destroyRetire call hCall => exact h call hCall
      | _ => cases hAnswers
  | codec hStep =>
      cases hStep with
      | clear hCalls => exact h (by simp [hCalls])
      | _ => cases hAnswers
  | diagnostics hStep =>
      cases hStep with
      | destroy => rfl
      | _ => cases hAnswers

end Component

theorem contract (backend : SpatialIndexBackend S) :
    Contract (kind backend) Component.Good Component.Dead where
  keeps hGood hStep := hStep.good hGood
  dies hGood hStep hAnswers := hStep.dies hGood hAnswers
  stays hGood hDead hStep := hStep.dead hGood hDead
  attends := by
    intro c index hIgnores
    cases c <;> cases hIgnores

/-- What a job system did. -/
def jobsIn (k : Nat) (trace : List (ProcessEvent ComponentEvent)) : List JobEvent :=
  (componentIn k trace).filterMap ComponentEvent.job?

/-- A job system stays one, and its run is that of a site. -/
theorem run_jobs {site : Site} {events : List ComponentEvent} {c : Component S}
    (run : Run (Component.Step backend) (.jobs site) events c) :
    ∃ site', c = .jobs site' ∧ Run Site.Step site (events.filterMap ComponentEvent.job?) site' := by
  refine run.invariant (fun events c => ∃ site', c = .jobs site' ∧
    Run Site.Step site (events.filterMap ComponentEvent.job?) site') ⟨site, rfl, .nil site⟩ ?_
  rintro events - e c' ⟨site', rfl, hRun⟩ hStep
  cases hStep with
  | jobs hStep =>
      refine ⟨_, rfl, ?_⟩
      rw [List.filterMap_append]
      exact hRun.snoc hStep

theorem run_other {start c : Component S} {events : List ComponentEvent}
    (run : Run (Component.Step backend) start events c) (hOther : ∀ site, start ≠ .jobs site) :
    events.filterMap ComponentEvent.job? = [] := by
  refine (run.invariant (fun events c => events.filterMap ComponentEvent.job? = [] ∧
    ∀ site, c ≠ .jobs site) ⟨rfl, hOther⟩ ?_).1
  intro events c e c' ⟨hNone, hOther⟩ hStep
  rw [List.filterMap_append, hNone]
  cases hStep with
  | jobs => exact absurd rfl (hOther _)
  | _ => exact ⟨rfl, nofun⟩

/-- Every job of a dead system has ended. -/
theorem Component.Dead.all_ended {start c : Component S} {events : List ComponentEvent}
    (h : c.Dead) (hFresh : start.Fresh) (run : Run (Component.Step backend) start events c) :
    ∀ id ∈ Job.enteredIn (events.filterMap ComponentEvent.job?),
      ∃ state, ⟨id, state⟩ ∈ Job.endedIn (events.filterMap ComponentEvent.job?) := by
  cases hFresh with
  | jobs env config =>
      obtain ⟨site, rfl, hJobs⟩ := run_jobs run
      exact Site.Dead.all_ended h hJobs
  | _ =>
      rw [run_other run nofun]
      exact fun _ hMem => absurd hMem List.not_mem_nil

/-- A job only enters with an event that needs an admission. -/
theorem entered_eq_nil {event : JobEvent}
    (h : (ComponentEvent.jobs event).publishes = false) : event.entered = [] := by
  cases event with
  | submitted input outputCapacity result =>
      cases result with
      | error failure => rfl
      | ok handle => cases h
  | _ => rfl

/-- However the threads of the process interleave: when the context is closed, every resource
that was registered with it is dead and every job that was ever submitted to it has ended; and
once a close has begun, no job enters any system. -/
theorem close_complete {maxHandles : Nat} {quiesceDeadline : Deadline}
    {components : Nat → Component S} (hFresh : ∀ k, (components k).Fresh)
    {trace : List (ProcessEvent ComponentEvent)} {p : Process (Component S)}
    (run : Run (Process.Step (kind backend)) ⟨.create maxHandles quiesceDeadline, components⟩
      trace p) :
    (p.context.context.phase = .closed → ∀ t k index, (t, .registered k index) ∈ contextIn trace →
      (p.components k).Dead ∧
      ∀ id ∈ Job.enteredIn (jobsIn k trace), ∃ state, ⟨id, state⟩ ∈ Job.endedIn (jobsIn k trace)) ∧
    ∀ before t component after, trace = before ++ ⟨some (t, .beganClose), component⟩ :: after →
      ∀ k, Job.enteredIn (jobsIn k after) = [] := by
  have hGood : ∀ k, (components k).Good := fun k => (hFresh k).good
  refine ⟨fun hClosed t k index hMem => ?_, ?_⟩
  · have hDead := (contract backend).closed_dead hGood run hClosed hMem
    refine ⟨hDead, ?_⟩
    have hRun : Run (Component.Step backend) (components k) (componentIn k trace)
        (p.components k) := Process.run_component run k
    exact hDead.all_ended (hFresh k) hRun
  · rintro before t component after rfl k
    have hNone := Process.unpublished run k
    rw [jobsIn, Job.enteredIn, List.flatMap_eq_nil_iff]
    intro event hEvent
    obtain ⟨e, hMem, hJob⟩ := List.mem_filterMap.mp hEvent
    cases e with
    | jobs event' =>
        cases hJob
        exact entered_eq_nil (hNone _ hMem)
    | _ => cases hJob

/-- A step of the context that no resource takes part in. -/
theorem silently {p : Process (Component GridReferenceIndex)} (t : Nat)
    {action : Action Nat} {shared : Shared Nat} {next : ContextCall Nat}
    (hAct : Act t p.context.toShared (p.context.calls t) action shared next)
    (hPublished : action ≠ .published) (hAlone : ∀ k event, action ≠ .callback k event) :
    Process.Step (kind GridReferenceIndex.backend) p ⟨some (t, action), none⟩
      { p with context := ⟨shared, Function.update p.context.calls t next⟩ } :=
  .context (.act _ t _ _ _ hAct) hPublished fun k event h => absurd h (hAlone k event)

/-- One job system, and a thread that closes the context while a job is queued. -/
theorem close_complete_one :
    ∃ (trace : List (ProcessEvent ComponentEvent)) (p : Process (Component GridReferenceIndex)),
      Run (Process.Step (kind GridReferenceIndex.backend))
        ⟨.create 1 .none, fun _ => .jobs ⟨⟨.new 8, 0⟩, .create ⟨1, ⟨1⟩, 2, 2, 1⟩⟩⟩ trace p ∧
      p.context.context.phase = .closed ∧ (p.components 0).Dead ∧
      Job.enteredIn (jobsIn 0 trace) = [0] ∧
      ∃ state, ⟨0, state⟩ ∈ Job.endedIn (jobsIn 0 trace) := by
  have hRegistered := Run.snoc (.snoc (.snoc (.snoc (.snoc
    (Run.nil (⟨.create 1 .none, fun _ => .jobs ⟨⟨.new 8, 0⟩, .create ⟨1, ⟨1⟩, 2, 2, 1⟩⟩⟩ :
      Process (Component GridReferenceIndex)))
    (silently 0 (.call _ (.resource 0)) nofun nofun))
    (silently 0 (.lock _ _ rfl rfl) nofun nofun))
    (silently 0 (.check _ _) nofun nofun))
    (silently 0 (.push _ 0 0 _ rfl) nofun nofun))
    (silently 0 (.returnRegistered _ _ _) nofun nofun)
  have hSubmitted := Run.snoc (.snoc (.snoc (.snoc (.snoc hRegistered
    (silently 0 (.call _ .publication) nofun nofun))
    (silently 0 (.lock _ _ rfl rfl) nofun nofun))
    (silently 0 (.check _ _) nofun nofun))
    (.publish (k := 0) (.act _ 0 _ _ _ (.publish _))
      (.jobs (.submitInput _ ⟨.ok (), true, true, true⟩ ⟨7, .none⟩ [1] 1 _ _ _ rfl))))
    (silently 0 (.release _ false) nofun nofun)
  have hClosing := Run.snoc (.snoc (.snoc (.snoc (.snoc (.snoc (.snoc (.snoc hSubmitted
    (silently 1 (.callClose _ .contextClosing .none) nofun nofun))
    (silently 1 (.closeEnter _ _ _ rfl) nofun nofun))
    (silently 1 (.drive _ _ _ _ _ _ _ (.first _ rfl rfl)) nofun nofun))
    (silently 1 (.gate _ _ _ rfl rfl) nofun nofun))
    (silently 1 (.drive _ _ _ _ _ _ _ (.beginClose _)) nofun nofun))
    (silently 1 (.drive _ _ _ _ _ _ _ (.freeze _)) nofun nofun))
    (silently 1 (.ungate _ _ _) nofun nofun))
    (silently 1 (.drive _ _ _ _ _ _ _ (.callCancel _ (by decide))) nofun nofun)
  have hCancelled := Run.snoc (.snoc (.snoc hClosing
    (.callback (.act _ 1 _ _ _ (.drive _ _ _ _ _ _ _ (.cancelReturns _ 0 (some ()) rfl)))
      (.jobs (.cancelRequested _)) rfl rfl))
    (silently 1 (.drive _ _ _ _ _ _ _ (.cancelledAll _ (by decide))) nofun nofun))
    (silently 1 (.drive _ _ _ _ _ _ _ (.callQuiesce _ 0 (by decide) (by decide)))
      nofun nofun)
  have hQuiesced := Run.snoc (.snoc (.snoc (.snoc (.snoc hCancelled
    (.component (k := 0) (.jobs (.closeStop _ 0 false rfl)) rfl))
    (.component (k := 0) (.jobs (.closeObserve _ 0 false rfl)) rfl))
    (.callback (.act _ 1 _ _ _
        (.drive _ _ _ _ _ _ _ (.quiesceReturns _ 0 0 (some (.ok .quiesced)) rfl)))
      (.jobs (.quiesceReturn _ 0 0 0 rfl)) rfl rfl))
    (silently 1 (.drive _ _ _ _ _ _ _ (.quiescedAll _ 1 (by decide))) nofun nofun))
    (silently 1 (.drive _ _ _ _ _ _ _ (.confirm _ rfl)) nofun nofun)
  have hDestroying := Run.snoc (.snoc (.snoc (.snoc hQuiesced
    (silently 1 (.drive _ _ _ _ _ _ _ (.callDestroy _ (by decide))) nofun nofun))
    (.component (k := 0) (.jobs (.closeStop _ 0 true rfl)) rfl))
    (.component (k := 0) (.jobs (.closeObserve _ 0 true rfl)) rfl))
    (.component (k := 0) (.jobs (.destroyJoin _ 0 0 0 rfl rfl)) rfl)
  have hClosed := Run.snoc (.snoc (.snoc (.snoc hDestroying
    (.callback (.act _ 1 _ _ _
        (.drive _ _ _ _ _ _ _ (.destroyReturns _ 0 (some (.ok ())) rfl)))
      (.jobs (.destroyClear _ 0 rfl)) rfl rfl))
    (silently 1 (.drive _ _ _ _ _ _ _ (.destroyedAll _ rfl)) nofun nofun))
    (silently 1 (.drive _ _ _ _ _ _ _ (.clear _)) nofun nofun))
    (silently 1 (.drive _ _ _ _ _ _ _ (.markClosed _)) nofun nofun)
  obtain ⟨hComplete, -⟩ := close_complete (fun _ => .jobs _ _) hClosed
  obtain ⟨hDead, hEnded⟩ := hComplete rfl 0 0 0 (by simp [contextIn])
  refine ⟨_, _, hClosed, ?_, hDead, ?_, hEnded 0 ?_⟩
  · rfl
  · rfl
  · exact List.mem_singleton_self 0

end Process

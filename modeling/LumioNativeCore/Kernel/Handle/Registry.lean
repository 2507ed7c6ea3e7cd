import LumioNativeCore.Kernel.Handle.Capability
import LumioNativeCore.Library.RwLock

/-! The handle registry of a context (`handle/registry.rs`, `handle/guard.rs`): an arena behind a
lock, and guards that hold the lock to read for as long as they live. -/
namespace Kernel

open Concurrent Transition

universe u

/-- What a call does under the lock. -/
inductive HandleAccess where
  | borrow (key : HandleKey)
  | remove (key : HandleKey)
  | retireAll
  | snapshot
  deriving DecidableEq

namespace HandleAccess

def mode : HandleAccess → Mode
  | borrow _ | snapshot => .read
  | remove _ | retireAll => .write

def key? : HandleAccess → Option HandleKey
  | borrow key | remove key => some key
  | retireAll | snapshot => none

end HandleAccess

/-- How far a call has come. A guard is a call that has borrowed. -/
inductive HandleCall where
  | idle
  | asked (access : HandleAccess)
  | waiting (access : HandleAccess)
  | locked (access : HandleAccess)
  | guarding (key : HandleKey)
  | leaving (mode : Mode)
  deriving DecidableEq

def HandleCall.mode : HandleCall → Option Mode
  | locked access => some access.mode
  | guarding _ => some .read
  | leaving mode => some mode
  | idle | asked _ | waiting _ => none

structure HandleRetireReport where
  dropped : Nat
  alreadyEmpty : Nat
  deriving DecidableEq, Repr

structure HandleArenaSnapshot where
  live : Nat
  capacity : Nat
  retiredSlots : Nat
  deriving DecidableEq, Repr

inductive HandleEvent (α : Type u) where
  | step
  | refused (key : HandleKey) (failure : KernelError)
  | inserted (value : α) (result : Except KernelError HandleKey)
  | borrowed (key : HandleKey) (result : Except KernelError α)
  | dereferenced (key : HandleKey) (result : Except KernelError α)
  | dropped
  | removed (key : HandleKey) (result : Except KernelError α)
  | retired (payloads : List α) (report : HandleRetireReport)
  | reported (snapshot : HandleArenaSnapshot)

/-- What an event does to the arena. -/
def HandleEvent.arena? {α : Type u} : HandleEvent α → Option (ArenaEvent α)
  | inserted value result => some (.insert value result)
  | removed key result => some (.remove key result)
  | retired payloads _ => some (.drainOccupied payloads)
  | _ => none

/-- `TypedHandleRegistry`, with its lock and the calls in progress. -/
structure SharedHandleRegistry (capacity : Nat) (α : Type u) where
  context : ContextKey
  arena : HandleArena capacity α
  lock : RwLock Nat
  calls : Nat → HandleCall

variable {capacity : Nat} {α : Type u}

def HandleArena.snapshot (arena : HandleArena capacity α) : HandleArenaSnapshot where
  live := arena.len
  capacity := Word.asU32 capacity
  retiredSlots := arena.retired

def HandleRetireReport.of (capacity : Nat) (payloads : List α) : HandleRetireReport where
  dropped := Word.asU32 payloads.length
  alreadyEmpty := Word.asU32 capacity - Word.asU32 payloads.length

namespace SharedHandleRegistry

def new (context : ContextKey) (capacity : UInt32) :
    SharedHandleRegistry capacity.toNat α where
  context := context
  arena := .withCapacity context capacity α
  lock := .unlocked
  calls := fun _ => .idle

def setCall (reg : SharedHandleRegistry capacity α) (call : Nat) (next : HandleCall) :
    SharedHandleRegistry capacity α :=
  { reg with calls := Function.update reg.calls call next }

def acquire (reg : SharedHandleRegistry capacity α) (call : Nat) (mode : Mode) :
    SharedHandleRegistry capacity α := { reg with lock := reg.lock.acquire call mode }

def release (reg : SharedHandleRegistry capacity α) (call : Nat) (mode : Mode) :
    SharedHandleRegistry capacity α := { reg with lock := reg.lock.release call mode }

@[simp] theorem acquire_calls (reg : SharedHandleRegistry capacity α) (call : Nat) (mode : Mode) :
    (reg.acquire call mode).calls = reg.calls := rfl

@[simp] theorem release_calls (reg : SharedHandleRegistry capacity α) (call : Nat) (mode : Mode) :
    (reg.release call mode).calls = reg.calls := rfl

/-- The steps of all calls. `insert` borrows the registry mutably, so that nobody else uses it. -/
inductive Step : SharedHandleRegistry capacity α → Nat × HandleEvent α →
    SharedHandleRegistry capacity α → Prop where
  | insert {reg : SharedHandleRegistry capacity α} (call : Nat) (value : α)
      (hAlone : ∀ other, reg.calls other = .idle) :
      Step reg (call, .inserted value (reg.arena.insert value).1)
        { reg with arena := (reg.arena.insert value).2 }
  | begin {reg : SharedHandleRegistry capacity α} {call : Nat} (access : HandleAccess)
      (hCall : reg.calls call = .idle) : Step reg (call, .step) (reg.setCall call (.asked access))
  | wrongContext {reg : SharedHandleRegistry capacity α} {call : Nat} {access : HandleAccess}
      {key : HandleKey} (hCall : reg.calls call = .asked access) (hKey : access.key? = some key)
      (hContext : key.context ≠ reg.context) :
      Step reg (call, .refused key (error .wrongContext)) (reg.setCall call .idle)
  | check {reg : SharedHandleRegistry capacity α} {call : Nat} {access : HandleAccess}
      (hCall : reg.calls call = .asked access)
      (hContext : ∀ key, access.key? = some key → key.context = reg.context) :
      Step reg (call, .step) (reg.setCall call (.waiting access))
  | acquire {reg : SharedHandleRegistry capacity α} {call : Nat} {access : HandleAccess}
      (hCall : reg.calls call = .waiting access) (hGrants : reg.lock.Grants access.mode) :
      Step reg (call, .step) ((reg.acquire call access.mode).setCall call (.locked access))
  | borrow {reg : SharedHandleRegistry capacity α} {call : Nat} {key : HandleKey} {value : α}
      (hCall : reg.calls call = .locked (.borrow key)) (hGet : reg.arena.get key = .ok value) :
      Step reg (call, .borrowed key (.ok value)) (reg.setCall call (.guarding key))
  | borrowError {reg : SharedHandleRegistry capacity α} {call : Nat} {key : HandleKey}
      {failure : KernelError} (hCall : reg.calls call = .locked (.borrow key))
      (hGet : reg.arena.get key = .error failure) :
      Step reg (call, .borrowed key (.error failure)) (reg.setCall call (.leaving .read))
  | deref {reg : SharedHandleRegistry capacity α} {call : Nat} {key : HandleKey}
      (hCall : reg.calls call = .guarding key) :
      Step reg (call, .dereferenced key (reg.arena.get key)) reg
  | drop {reg : SharedHandleRegistry capacity α} {call : Nat} {key : HandleKey}
      (hCall : reg.calls call = .guarding key) :
      Step reg (call, .dropped) ((reg.release call .read).setCall call .idle)
  | remove {reg : SharedHandleRegistry capacity α} {call : Nat} {key : HandleKey}
      (hCall : reg.calls call = .locked (.remove key)) :
      Step reg (call, .removed key (reg.arena.remove key).1)
        { reg.setCall call (.leaving .write) with arena := (reg.arena.remove key).2 }
  | retireAll {reg : SharedHandleRegistry capacity α} {call : Nat}
      (hCall : reg.calls call = .locked .retireAll) :
      Step reg (call, .retired reg.arena.drainOccupied.2 (.of capacity reg.arena.drainOccupied.2))
        { reg.setCall call (.leaving .write) with arena := reg.arena.drainOccupied.1 }
  | snapshot {reg : SharedHandleRegistry capacity α} {call : Nat}
      (hCall : reg.calls call = .locked .snapshot) :
      Step reg (call, .reported reg.arena.snapshot) (reg.setCall call (.leaving .read))
  | leave {reg : SharedHandleRegistry capacity α} {call : Nat} {mode : Mode}
      (hCall : reg.calls call = .leaving mode) :
      Step reg (call, .step) ((reg.release call mode).setCall call .idle)

end SharedHandleRegistry

/-- What the calls did to the arena. -/
def arenaIn (trace : List (Nat × HandleEvent α)) : List (ArenaEvent α) :=
  trace.filterMap fun label => label.2.arena?

theorem arenaIn_snoc (trace : List (Nat × HandleEvent α)) (label : Nat × HandleEvent α) :
    arenaIn (trace ++ [label]) = arenaIn trace ++ label.2.arena?.toList := by
  rw [arenaIn, arenaIn, List.filterMap_append]
  cases hEvent : label.2.arena? with
  | none => simp [hEvent]
  | some event => simp [hEvent]

/-- The call has borrowed the value under the key and not dropped its guard since. -/
def Guards (trace : List (Nat × HandleEvent α)) (call : Nat) (key : HandleKey) (value : α) : Prop :=
  Since (fun label => label = (call, .borrowed key (.ok value)))
    (fun label => label = (call, .dropped)) trace

namespace SharedHandleRegistry

variable {reg reg' : SharedHandleRegistry capacity α} {label : Nat × HandleEvent α}
  {trace : List (Nat × HandleEvent α)}

theorem step_owned (hOwned : RwOwned HandleCall.mode reg.calls reg.lock)
    (hStep : Step reg label reg') : RwOwned HandleCall.mode reg'.calls reg'.lock := by
  cases hStep with
  | insert => exact hOwned
  | deref => exact hOwned
  | begin access hCall => exact hOwned.keep (by rw [hCall]; rfl)
  | wrongContext hCall => exact hOwned.keep (by rw [hCall]; rfl)
  | check hCall => exact hOwned.keep (by rw [hCall]; rfl)
  | borrow hCall => exact hOwned.keep (by rw [hCall]; rfl)
  | borrowError hCall => exact hOwned.keep (by rw [hCall]; rfl)
  | remove hCall => exact hOwned.keep (by rw [hCall]; rfl)
  | retireAll hCall => exact hOwned.keep (by rw [hCall]; rfl)
  | snapshot hCall => exact hOwned.keep (by rw [hCall]; rfl)
  | acquire hCall hGrants => exact hOwned.acquire (by rw [hCall]; rfl) hGrants rfl
  | @drop call key hCall =>
      have hReleased : RwOwned HandleCall.mode (Function.update reg.calls call .idle)
          (reg.lock.release call .read) := hOwned.release (by rw [hCall]; rfl) rfl
      exact hReleased
  | @leave call mode hCall =>
      have hReleased : RwOwned HandleCall.mode (Function.update reg.calls call .idle)
          (reg.lock.release call mode) := hOwned.release (by rw [hCall]; rfl) rfl
      exact hReleased

/-- A writer shuts out the guards. -/
theorem not_guarding (hOwned : RwOwned HandleCall.mode reg.calls reg.lock) {call : Nat}
    (hWrites : (reg.calls call).mode = some .write) (other : Nat) (key : HandleKey) :
    reg.calls other ≠ .guarding key := by
  intro hGuard
  by_cases hSame : other = call
  · rw [← hSame, hGuard] at hWrites
    cases hWrites
  · have hNone := hOwned.alone hWrites hSame
    rw [hGuard] at hNone
    cases hNone

/-- The arena changes at the calls on it, and only while there is no guard. -/
theorem step_arena (hOwned : RwOwned HandleCall.mode reg.calls reg.lock)
    (hStep : Step reg label reg') :
    label.2.arena? = none ∧ reg'.arena = reg.arena ∨
      ∃ event, label.2.arena? = some event ∧ HandleArena.Step reg.arena event reg'.arena ∧
        ∀ call key, reg.calls call ≠ .guarding key := by
  cases hStep with
  | insert call value hAlone =>
      refine Or.inr ⟨_, rfl, .insert _ value, fun other key hGuard => ?_⟩
      rw [hAlone other] at hGuard
      cases hGuard
  | @remove call key hCall =>
      exact Or.inr ⟨_, rfl, .remove _ key, not_guarding hOwned (by rw [hCall]; rfl)⟩
  | @retireAll call hCall =>
      exact Or.inr ⟨_, rfl, .drainOccupied _, not_guarding hOwned (by rw [hCall]; rfl)⟩
  | _ => exact Or.inl ⟨rfl, rfl⟩

theorem update_guarding {calls : Nat → HandleCall} {call : Nat} {next : HandleCall}
    (hBefore : ∀ key, calls call ≠ .guarding key) (hAfter : ∀ key, next ≠ .guarding key)
    (other : Nat) (key : HandleKey) :
    Function.update calls call next other = .guarding key ↔ calls other = .guarding key := by
  by_cases hSame : other = call
  · rw [hSame, Function.update_self]
    exact iff_of_false (hAfter key) (hBefore key)
  · rw [Function.update_of_ne hSame]

/-- Calls become guards by borrowing and stop being so by dropping. -/
theorem step_guarding (hStep : Step reg label reg') (call : Nat) (key : HandleKey) :
    reg'.calls call = .guarding key ↔
      (∃ value, label = (call, .borrowed key (.ok value)) ∧ reg.arena.get key = .ok value) ∨
        reg.calls call = .guarding key ∧ label ≠ (call, .dropped) := by
  cases hStep with
  | insert => simp
  | deref => simp
  | @borrow other key' value hCall hGet =>
      show Function.update reg.calls other _ call = _ ↔ _
      by_cases hSame : call = other
      · subst hSame
        rw [Function.update_self, hCall]
        constructor
        · intro hGuard
          cases hGuard
          exact Or.inl ⟨value, rfl, hGet⟩
        · rintro (⟨value', hLabel, -⟩ | ⟨hGuard, -⟩)
          · cases hLabel
            rfl
          · cases hGuard
      · rw [Function.update_of_ne hSame]
        simp [Ne.symm hSame]
  | @drop other key' hCall =>
      show Function.update reg.calls other _ call = _ ↔ _
      by_cases hSame : call = other
      · subst hSame
        simp
      · rw [Function.update_of_ne hSame]
        simp [Ne.symm hSame]
  | _ =>
      refine (update_guarding (fun key => ?_) (fun key => ?_) call key).trans (by simp) <;> simp [*]

/-- The guards, by the calls and by the trace. -/
structure Sound (context : ContextKey) (capacity : UInt32) (trace : List (Nat × HandleEvent α))
    (reg : SharedHandleRegistry capacity.toNat α) : Prop where
  owned : RwOwned HandleCall.mode reg.calls reg.lock
  arena : Run HandleArena.Step (.withCapacity context capacity α) (arenaIn trace) reg.arena
  guards : ∀ call key value, Guards trace call key value →
    reg.calls call = .guarding key ∧ reg.arena.get key = .ok value
  guarded : ∀ call key, reg.calls call = .guarding key → ∃ value, Guards trace call key value

theorem borrowed_get {call : Nat} {key : HandleKey} {result : Except KernelError α}
    (hStep : Step reg (call, .borrowed key result) reg') : reg.arena.get key = result := by
  cases hStep with
  | borrow hCall hGet => exact hGet
  | borrowError hCall hGet => exact hGet

theorem sound_new (context : ContextKey) (capacity : UInt32) :
    Sound (α := α) context capacity [] (new context capacity) where
  owned := rwOwned_unlocked fun _ => rfl
  arena := .nil _
  guards _ _ _ hGuards := absurd hGuards (not_since_nil _ _)
  guarded _ _ hGuard := by cases hGuard

theorem Sound.step {context : ContextKey} {capacity : UInt32}
    {reg reg' : SharedHandleRegistry capacity.toNat α} (h : Sound context capacity trace reg)
    (hStep : Step reg label reg') : Sound context capacity (trace ++ [label]) reg' where
  owned := step_owned h.owned hStep
  arena := by
    rw [arenaIn_snoc]
    rcases step_arena h.owned hStep with ⟨hNone, hSame⟩ | ⟨event, hSome, hArena, -⟩
    · rw [hNone, hSame]
      exact h.arena.trans (.nil _)
    · rw [hSome]
      exact h.arena.snoc hArena
  guards := by
    intro call key value hGuards
    rw [Guards, since_snoc] at hGuards
    rcases hGuards with rfl | ⟨hOld, hKept⟩
    · have hGet := borrowed_get hStep
      refine ⟨(step_guarding hStep call key).mpr (Or.inl ⟨value, rfl, hGet⟩), ?_⟩
      rcases step_arena h.owned hStep with ⟨-, hSame⟩ | ⟨event, hSome, -⟩
      · rw [hSame]
        exact hGet
      · cases hSome
    · obtain ⟨hCall, hGet⟩ := h.guards call key value hOld
      refine ⟨(step_guarding hStep call key).mpr (Or.inr ⟨hCall, hKept⟩), ?_⟩
      rcases step_arena h.owned hStep with ⟨-, hSame⟩ | ⟨event, -, -, hNone⟩
      · rw [hSame]
        exact hGet
      · exact absurd hCall (hNone call key)
  guarded := by
    intro call key hCall
    rcases (step_guarding hStep call key).mp hCall with ⟨value, hLabel, -⟩ | ⟨hOld, hKept⟩
    · exact ⟨value, since_snoc.mpr (Or.inl hLabel)⟩
    · obtain ⟨value, hGuards⟩ := h.guarded call key hOld
      exact ⟨value, since_snoc.mpr (Or.inr ⟨hGuards, hKept⟩)⟩

theorem Sound.of_run {context : ContextKey} {capacity : UInt32}
    {reg : SharedHandleRegistry capacity.toNat α} (run : Run Step (new context capacity) trace reg) :
    Sound context capacity trace reg :=
  run.invariant (Sound context capacity) (sound_new context capacity) fun _ _ _ _ h => h.step

section Runs

variable {context : ContextKey} {capacity : UInt32} {reg reg' : SharedHandleRegistry capacity.toNat α}

/-- A guard that has not been dropped. -/
theorem guarding_of_run {before middle : List (Nat × HandleEvent α)} {call : Nat} {key : HandleKey}
    {value : α} (run : Run Step (new context capacity)
      (before ++ (call, .borrowed key (.ok value)) :: middle) reg)
    (hKept : (call, .dropped) ∉ middle) :
    reg.calls call = .guarding key ∧ reg.arena.get key = .ok value := by
  refine (Sound.of_run run).guards call key value ⟨before, _, middle, rfl, rfl, ?_⟩
  rintro later hLater rfl
  exact hKept hLater

/-- While there is a guard the arena stays as it is, and the guard refers into it. -/
theorem Sound.step_guarded (h : Sound context capacity trace reg) (hStep : Step reg label reg')
    {call : Nat} {key : HandleKey} (hGuard : reg.calls call = .guarding key) :
    label.2.arena? = none ∧
      ∀ key' result, label = (call, .dereferenced key' result) →
        key' = key ∧ result = reg.arena.get key := by
  refine ⟨?_, ?_⟩
  · rcases step_arena h.owned hStep with ⟨hNone, -⟩ | ⟨event, -, -, hNoGuard⟩
    · exact hNone
    · exact absurd hGuard (hNoGuard call key)
  · rintro key' result rfl
    cases hStep with
    | deref hCall =>
        rw [hGuard] at hCall
        cases hCall
        exact ⟨rfl, rfl⟩

theorem reported_live {call : Nat} {snapshot : HandleArenaSnapshot}
    (h : Sound context capacity trace reg) (hStep : Step reg (call, .reported snapshot) reg') :
    snapshot.live = Set.ncard {key | ∃ value, HandleArena.LiveIn (arenaIn trace) key value} := by
  cases hStep with
  | snapshot hCall =>
      have tracks := HandleArena.Tracks.of_run h.arena
      have hCard := tracks.wf.card
      have hBound : capacity.toNat < 2 ^ 32 := capacity.toNat_lt
      show reg.arena.len = _
      rw [tracks.live_card, HandleArena.len, Word.asU32_of_lt (by omega)]
      omega

theorem context_of_run (run : Run Step (new context capacity) trace reg) :
    reg.context = context := by
  refine run.preserves (fun reg => reg.context = context) (fun reg event reg' hSame hStep => ?_) rfl
  cases hStep with
  | _ => exact hSame

/-- No handle of another context is live. -/
theorem refused_dead (run : Run Step (new context capacity) trace reg) {call : Nat}
    {key : HandleKey} {failure : KernelError} (hStep : Step reg (call, .refused key failure) reg') :
    failure = error .wrongContext ∧ ∀ value, ¬HandleArena.LiveIn (arenaIn trace) key value := by
  cases hStep with
  | wrongContext hCall hKey hContext =>
      refine ⟨rfl, fun value hLive => ?_⟩
      have tracks := HandleArena.Tracks.of_run (Sound.of_run run).arena
      rw [context_of_run run] at hContext
      have hGet := (tracks.get_eq_ok key value).mpr hLive
      rw [(tracks.wrongContext hContext).1] at hGet
      cases hGet

/-- A guard keeps its value: while it lives the arena does not change, and what it refers to is
the value that was live under its key when it was made. A call that is refused has named no live
handle. -/
theorem guards_hold (run : Run Step (new context capacity) trace reg) :
    Run HandleArena.Step (.withCapacity context capacity α) (arenaIn trace) reg.arena ∧
    (∀ before call key result after, trace = before ++ (call, .borrowed key result) :: after →
      ∀ value, result = .ok value ↔ HandleArena.LiveIn (arenaIn before) key value) ∧
    (∀ before call key failure after, trace = before ++ (call, .refused key failure) :: after →
      failure = error .wrongContext ∧
        ∀ value, ¬HandleArena.LiveIn (arenaIn before) key value) ∧
    (∀ before call key value middle after,
      trace = before ++ (call, .borrowed key (.ok value)) :: (middle ++ after) →
        (call, .dropped) ∉ middle → arenaIn middle = [] ∧
        ∀ key' result, (call, .dereferenced key' result) ∈ middle →
          key' = key ∧ result = .ok value) ∧
    (∀ call key result, (call, .dereferenced key result) ∈ trace → ∃ value, result = .ok value) ∧
    (∀ before call snapshot after, trace = before ++ (call, .reported snapshot) :: after →
      snapshot.live = Set.ncard {key | ∃ value, HandleArena.LiveIn (arenaIn before) key value}) := by
  refine ⟨(Sound.of_run run).arena, ?_, ?_, ?_, ?_, ?_⟩
  · rintro before call key result after rfl value
    obtain ⟨first, second, hBefore, hStep, -⟩ := run.at
    rw [← (HandleArena.Tracks.of_run (Sound.of_run hBefore).arena).get_eq_ok, borrowed_get hStep]
  · rintro before call key failure after rfl
    obtain ⟨first, second, hBefore, hStep, -⟩ := run.at
    exact refused_dead hBefore hStep
  · rintro before call key value middle after rfl hKept
    rw [← List.cons_append, ← List.append_assoc] at run
    obtain ⟨last, run, -⟩ := run.split
    have hSteps : ∀ event ∈ middle, event.2.arena? = none ∧
        ∀ key' result, event = (call, .dereferenced key' result) →
          key' = key ∧ result = .ok value := by
      intro event hMem
      obtain ⟨front, back, rfl⟩ := List.append_of_mem hMem
      rw [← List.cons_append, ← List.append_assoc] at run
      obtain ⟨first, second, hBefore, hStep, -⟩ := run.at
      have hFront : (call, .dropped) ∉ front := fun h => hKept (List.mem_append_left _ h)
      obtain ⟨hGuard, hGet⟩ := guarding_of_run hBefore hFront
      rw [← hGet]
      exact (Sound.of_run hBefore).step_guarded hStep hGuard
    refine ⟨?_, fun key' result hMem => (hSteps _ hMem).2 key' result rfl⟩
    rw [arenaIn, List.filterMap_eq_nil_iff]
    exact fun event hMem => (hSteps event hMem).1
  · intro call key result hMem
    obtain ⟨before, after, rfl⟩ := List.append_of_mem hMem
    obtain ⟨first, second, hBefore, hStep, -⟩ := run.at
    have hSound := Sound.of_run hBefore
    cases hStep with
    | deref hCall =>
        obtain ⟨value, hGuards⟩ := hSound.guarded call key hCall
        exact ⟨value, (hSound.guards call key value hGuards).2⟩
  · rintro before call snapshot after rfl
    obtain ⟨first, second, hBefore, hStep, -⟩ := run.at
    exact reported_live (Sound.of_run hBefore) hStep

end Runs

/-- A guard lives while another call waits to remove what it refers to. -/
theorem guards_hold_one :
    ∃ (trace : List (Nat × HandleEvent Nat)) (reg : SharedHandleRegistry (2 : UInt32).toNat Nat),
      Run Step (new ⟨7⟩ 2) trace reg ∧ reg.calls 1 = .waiting (.remove ⟨⟨7⟩, ⟨0⟩, ⟨1⟩⟩) ∧
      reg.calls 0 = .guarding ⟨⟨7⟩, ⟨0⟩, ⟨1⟩⟩ ∧
      HandleArena.LiveIn [.insert 5 (.ok ⟨⟨7⟩, ⟨0⟩, ⟨1⟩⟩)] ⟨⟨7⟩, ⟨0⟩, ⟨1⟩⟩ 5 := by
  have hGuarded := Run.snoc (.snoc (.snoc (.snoc (.snoc (.nil (new ⟨7⟩ 2))
    (Step.insert 0 5 fun _ => rfl))
    (@Step.begin _ _ _ 0 (.borrow ⟨⟨7⟩, ⟨0⟩, ⟨1⟩⟩) rfl))
    (@Step.check _ _ _ 0 _ rfl fun key hKey => by cases hKey; rfl))
    (@Step.acquire _ _ _ 0 _ rfl rfl))
    (@Step.borrow _ _ _ 0 _ 5 rfl rfl)
  have hWaiting := Run.snoc (.snoc hGuarded
    (@Step.begin _ _ _ 1 (.remove ⟨⟨7⟩, ⟨0⟩, ⟨1⟩⟩) rfl))
    (@Step.check _ _ _ 1 _ rfl fun key hKey => by cases hKey; rfl)
  obtain ⟨-, hBorrowed, -⟩ := guards_hold hWaiting
  refine ⟨_, _, hWaiting, rfl, rfl, ?_⟩
  exact (hBorrowed [(0, .inserted 5 (.ok ⟨⟨7⟩, ⟨0⟩, ⟨1⟩⟩)), (0, .step), (0, .step), (0, .step)]
    0 _ _ _ rfl 5).mp rfl

end SharedHandleRegistry
end Kernel

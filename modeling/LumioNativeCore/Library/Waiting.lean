import LumioNativeCore.Library.Run
import Mathlib.Tactic

/-! Threads that sleep on a condition variable until there is something to do. Whoever
creates demand owes a notification, and sends it some time after it left the lock. -/
namespace Waiting

open Transition

universe u
variable {Work : Type u}

/-- Where a thread stands in its loop: before the section in which it looks for work,
asleep, at work, before the notification that its work is over, or gone. -/
inductive Stage (Work : Type u) where
  | seeking
  | parked
  | busy (work : Work)
  | announcing
  | left

/-- What a notification does to a thread. -/
def Stage.wake : Stage Work → Stage Work
  | parked => seeking
  | stage => stage

/-- The threads, and the notifications that others still owe. -/
structure Room (Work : Type u) where
  threads : List (Stage Work)
  ones : Nat
  alls : Nat

/-- What happens in a room. A thread may also wake up without a notification. -/
inductive Turn (Work : Type u) where
  | idle
  | park
  | start (work : Work)
  | leave
  | finish (work : Work)
  | announce
  | rouse
  | oweOne
  | oweAll
  | notifyOne
  | notifyAll

/-- The turns that one thread takes on its own. -/
inductive Moves : Turn Work → Stage Work → Stage Work → Prop where
  | park : Moves .park .seeking .parked
  | start (work : Work) : Moves (.start work) .seeking (.busy work)
  | leave : Moves .leave .seeking .left
  | finish (work : Work) : Moves (.finish work) (.busy work) .announcing
  | rouse : Moves .rouse .parked .seeking

namespace Room

/-- The threads by weight. -/
def total (weight : Stage Work → Nat) (room : Room Work) : Nat := (room.threads.map weight).sum

def wakeAll (room : Room Work) : List (Stage Work) := room.threads.map Stage.wake

inductive Step : Room Work → Turn Work → Room Work → Prop where
  | idle (room : Room Work) : Step room .idle room
  | move {room : Room Work} {turn : Turn Work} {stage next : Stage Work}
      {before after : List (Stage Work)} (hMoves : Moves turn stage next)
      (hThreads : room.threads = before ++ stage :: after) :
      Step room turn { room with threads := before ++ next :: after }
  | announce {room : Room Work} {before after : List (Stage Work)}
      (hThreads : room.threads = before ++ .announcing :: after) :
      Step room .announce
        { room with threads := (before ++ .seeking :: after).map Stage.wake }
  | oweOne (room : Room Work) : Step room .oweOne { room with ones := room.ones + 1 }
  | oweAll (room : Room Work) : Step room .oweAll { room with alls := room.alls + 1 }
  | notifyOne {room : Room Work} {before after : List (Stage Work)} {ones : Nat}
      (hThreads : room.threads = before ++ .parked :: after) (hOnes : room.ones = ones + 1) :
      Step room .notifyOne
        { room with threads := before ++ .seeking :: after, ones := ones }
  | notifyNone {room : Room Work} {ones : Nat} (hNone : .parked ∉ room.threads)
      (hOnes : room.ones = ones + 1) : Step room .notifyOne { room with ones := ones }
  | notifyAll {room : Room Work} {alls : Nat} (hAlls : room.alls = alls + 1) :
      Step room .notifyAll { room with threads := room.wakeAll, alls := alls }

end Room

/-! Weights: what each kind of thread counts for. -/

namespace Stage

def seekingWeight : Stage Work → Nat
  | seeking => 1
  | _ => 0

def parkedWeight : Stage Work → Nat
  | parked => 1
  | _ => 0

def busyWeight : Stage Work → Nat
  | busy _ => 1
  | _ => 0

def announcingWeight : Stage Work → Nat
  | announcing => 1
  | _ => 0

/-- The threads that have not left. -/
def presentWeight : Stage Work → Nat
  | left => 0
  | _ => 1

def works : Stage Work → List Work
  | busy work => [work]
  | _ => []

/-- The turns that a thread still takes when there is nothing new to do. -/
def fuelWeight : Stage Work → Nat
  | busy _ => 3
  | announcing => 2
  | left => 0
  | _ => 1

end Stage

namespace Room

variable {room room' : Room Work} {turn : Turn Work}

def seeking (room : Room Work) : Nat := room.total Stage.seekingWeight

def parked (room : Room Work) : Nat := room.total Stage.parkedWeight

def busy (room : Room Work) : Nat := room.total Stage.busyWeight

def announcing (room : Room Work) : Nat := room.total Stage.announcingWeight

def present (room : Room Work) : Nat := room.total Stage.presentWeight

def fuel (room : Room Work) : Nat := room.total Stage.fuelWeight

theorem sum_middle (weight : Stage Work → Nat) (before after : List (Stage Work))
    (stage : Stage Work) : ((before ++ stage :: after).map weight).sum =
      ((before ++ after).map weight).sum + weight stage := by
  simp only [List.map_append, List.map_cons, List.sum_append, List.sum_cons]
  omega

/-- A thread that moves changes a total by its own weights. -/
theorem total_move {before after : List (Stage Work)} {stage : Stage Work}
    (hThreads : room.threads = before ++ stage :: after) (weight : Stage Work → Nat)
    (next : Stage Work) (ones alls : Nat) :
    total weight ⟨before ++ next :: after, ones, alls⟩ + weight stage =
      room.total weight + weight next := by
  rw [total, total, hThreads, sum_middle, sum_middle]
  omega

/-- Notifying everyone weighs each thread as awake. -/
theorem total_wake {weight awake : Stage Work → Nat} (h : ∀ stage, weight stage.wake = awake stage)
    (threads : List (Stage Work)) (ones alls : Nat) :
    total weight ⟨threads.map Stage.wake, ones, alls⟩ = total awake ⟨threads, ones, alls⟩ := by
  rw [total, total, List.map_map]
  exact congrArg List.sum (List.map_congr_left fun stage _ => h stage)

theorem total_add (first second : Stage Work → Nat) (room : Room Work) :
    room.total (fun stage => first stage + second stage) =
      room.total first + room.total second := by
  rw [total, total, total]
  induction room.threads with
  | nil => rfl
  | cons stage rest ih =>
      simp only [List.map_cons, List.sum_cons, ih]
      omega

theorem total_mono {first second : Stage Work → Nat} (h : ∀ stage, first stage ≤ second stage)
    (room : Room Work) : room.total first ≤ room.total second := by
  rw [total, total]
  induction room.threads with
  | nil => exact Nat.le_refl _
  | cons stage rest ih =>
      simp only [List.map_cons, List.sum_cons]
      exact Nat.add_le_add (h stage) ih

theorem total_eq_zero {weight : Stage Work → Nat} :
    room.total weight = 0 ↔ ∀ stage ∈ room.threads, weight stage = 0 := by
  rw [total, List.sum_eq_zero_iff]
  simp

theorem total_const (count : Nat) (room : Room Work) :
    room.total (fun _ => count) = count * room.threads.length := by
  rw [total, List.map_const', List.sum_replicate, smul_eq_mul, Nat.mul_comm]

theorem parked_wake (threads : List (Stage Work)) (ones alls : Nat) :
    parked ⟨threads.map Stage.wake, ones, alls⟩ = 0 := by
  have hAwake : ∀ stage : Stage Work, stage.wake.parkedWeight = 0 := fun stage => by
    cases stage <;> rfl
  rw [parked, total_wake hAwake, total_const, Nat.zero_mul]

theorem fuel_wake (threads : List (Stage Work)) (ones alls : Nat) :
    fuel ⟨threads.map Stage.wake, ones, alls⟩ = fuel ⟨threads, ones, alls⟩ :=
  total_wake (fun stage => by cases stage <;> rfl) threads ones alls

theorem parked_le (room : Room Work) : room.parked ≤ room.threads.length := by
  have hWeight : ∀ stage : Stage Work, stage.parkedWeight ≤ 1 := fun stage => by
    cases stage <;> simp [Stage.parkedWeight]
  have hBound := total_mono hWeight room
  rwa [total_const, Nat.one_mul] at hBound

theorem fuel_le (room : Room Work) : room.fuel ≤ 3 * room.threads.length := by
  have hWeight : ∀ stage : Stage Work, stage.fuelWeight ≤ 3 := fun stage => by
    cases stage <;> simp [Stage.fuelWeight]
  have hBound := total_mono hWeight room
  rwa [total_const] at hBound

/-- What the threads are at work on. -/
def works (room : Room Work) : List Work := room.threads.flatMap Stage.works

theorem works_length (room : Room Work) : room.works.length = room.busy := by
  rw [works, List.length_flatMap, busy, total]
  congr 1
  apply List.map_congr_left
  intro stage _
  cases stage <;> rfl

theorem works_middle (before after : List (Stage Work)) (stage : Stage Work) :
    ((before ++ stage :: after).flatMap Stage.works).Perm
      (stage.works ++ (before ++ after).flatMap Stage.works) := by
  rw [List.flatMap_append, List.flatMap_append, List.flatMap_cons, ← List.append_assoc,
    ← List.append_assoc]
  exact (List.perm_append_comm).append_right _

theorem works_wake (threads : List (Stage Work)) :
    (threads.map Stage.wake).flatMap Stage.works = threads.flatMap Stage.works := by
  rw [List.flatMap_map]
  apply List.flatMap_congr
  intro stage _
  cases stage <;> rfl

/-! No wake-up is lost. -/

/-- As long as a thread sleeps, everyone will be notified, or enough threads look for work
or will be woken to serve the demand. -/
def Covers (demand : Nat) (room : Room Work) : Prop :=
  room.parked = 0 ∨ 0 < room.alls + room.announcing ∨ demand ≤ room.seeking + room.ones

end Room

namespace Turn

def started : Turn Work → List Work
  | start work => [work]
  | _ => []

def finished : Turn Work → List Work
  | finish work => [work]
  | _ => []

end Turn

/-- What a turn may do to the demand: a thread only gives up when there is none, a start
serves one unit, and one notification is owed for one more. -/
def Turn.Bears (demand demand' : Nat) : Turn Work → Prop
  | park => demand' = 0
  | leave => demand' = 0
  | start _ => demand' ≤ demand - 1
  | oweOne => demand' ≤ demand + 1
  | idle => demand' ≤ demand
  | rouse => demand' ≤ demand
  | notifyOne => demand' ≤ demand
  | _ => True

namespace Room

variable {room room' : Room Work} {turn : Turn Work}

theorem Step.covers (hStep : Step room turn room') {demand demand' : Nat}
    (hBears : turn.Bears demand demand') (h : room.Covers demand) : room'.Covers demand' := by
  cases hStep with
  | idle => exact h.imp_right (Or.imp_right (Nat.le_trans hBears))
  | @move _ stage next before after hMoves hThreads =>
      have hSeeking : seeking ⟨before ++ next :: after, room.ones, room.alls⟩ + _ =
        room.seeking + _ := total_move hThreads Stage.seekingWeight next _ _
      have hParked : parked ⟨before ++ next :: after, room.ones, room.alls⟩ + _ =
        room.parked + _ := total_move hThreads Stage.parkedWeight next _ _
      have hAnnouncing : announcing ⟨before ++ next :: after, room.ones, room.alls⟩ + _ =
        room.announcing + _ := total_move hThreads Stage.announcingWeight next _ _
      simp only [Covers] at h ⊢
      cases hMoves with
      | park => exact Or.inr (Or.inr (hBears ▸ Nat.zero_le _))
      | leave => exact Or.inr (Or.inr (hBears ▸ Nat.zero_le _))
      | _ =>
          simp only [Turn.Bears, Stage.seekingWeight, Stage.parkedWeight,
            Stage.announcingWeight] at hBears hSeeking hParked hAnnouncing
          omega
  | announce hThreads => exact Or.inl (parked_wake _ _ _)
  | oweOne =>
      refine h.imp_right (Or.imp_right fun hEnough => ?_)
      exact Nat.le_trans hBears (Nat.succ_le_succ hEnough)
  | oweAll => exact Or.inr (Or.inl (Nat.lt_of_lt_of_le (Nat.succ_pos _) (Nat.le_add_right _ _)))
  | @notifyOne before after ones hThreads hOnes =>
      have hSeeking : seeking ⟨before ++ .seeking :: after, ones, room.alls⟩ + _ =
        room.seeking + _ := total_move hThreads Stage.seekingWeight .seeking _ _
      have hParked : parked ⟨before ++ .seeking :: after, ones, room.alls⟩ + _ =
        room.parked + _ := total_move hThreads Stage.parkedWeight .seeking _ _
      have hAnnouncing : announcing ⟨before ++ .seeking :: after, ones, room.alls⟩ + _ =
        room.announcing + _ := total_move hThreads Stage.announcingWeight .seeking _ _
      simp only [Covers, Turn.Bears, Stage.seekingWeight, Stage.parkedWeight,
        Stage.announcingWeight] at h hBears hSeeking hParked hAnnouncing ⊢
      omega
  | notifyNone hNone hOnes =>
      apply Or.inl
      rw [parked, total_eq_zero]
      intro stage hStage
      cases stage with
      | parked => exact absurd hStage hNone
      | _ => rfl
  | notifyAll hAlls => exact Or.inl (parked_wake _ _ _)

/-- The works in progress are those started and not finished. -/
theorem Step.works (hStep : Step room turn room') :
    (turn.started ++ room.works).Perm (turn.finished ++ room'.works) := by
  cases hStep with
  | @move _ stage next before after hMoves hThreads =>
      rw [Room.works, Room.works, hThreads]
      have hBefore := works_middle before after stage
      have hAfter := works_middle before after next
      cases hMoves with
      | park => exact hBefore.trans hAfter.symm
      | leave => exact hBefore.trans hAfter.symm
      | rouse => exact hBefore.trans hAfter.symm
      | start work => exact (hBefore.append_left _).trans hAfter.symm
      | finish work => exact hBefore.trans (hAfter.symm.append_left [work])
  | @announce before after hThreads =>
      rw [Room.works, Room.works, hThreads, works_wake]
      exact (works_middle before after .announcing).trans (works_middle before after .seeking).symm
  | @notifyOne before after ones hThreads hOnes =>
      rw [Room.works, Room.works, hThreads]
      exact (works_middle before after .parked).trans (works_middle before after .seeking).symm
  | notifyAll hAlls =>
      rw [Room.works, Room.works, wakeAll, works_wake]
      exact List.Perm.refl _
  | _ => exact List.Perm.refl _

/-- No thread is about to look for work and no notification is under way. -/
structure Rests (room : Room Work) : Prop where
  seeking : room.seeking = 0
  announcing : room.announcing = 0
  ones : room.ones = 0
  alls : room.alls = 0

theorem exists_of_total_ne_zero {weight : Stage Work → Nat} (h : room.total weight ≠ 0) :
    ∃ before stage after, room.threads = before ++ stage :: after ∧ weight stage ≠ 0 := by
  obtain ⟨stage, hStage, hWeight⟩ := not_forall₂.mp (total_eq_zero.not.mp h)
  obtain ⟨before, after, hThreads⟩ := List.append_of_mem hStage
  exact ⟨before, stage, after, hThreads, hWeight⟩

/-- Short of rest a thread looks for work or a notification is under way. -/
theorem unrested (h : ¬room.Rests) :
    (∃ before after, room.threads = before ++ .seeking :: after) ∨
      ∃ turn room', (turn = .announce ∨ turn = .notifyOne ∨ turn = .notifyAll) ∧
        Step room turn room' := by
  by_cases hSeeking : room.seeking = 0
  · right
    by_cases hAnnouncing : room.announcing = 0
    · rcases Nat.eq_zero_or_eq_succ_pred room.alls with hAlls | hAlls
      · rcases Nat.eq_zero_or_eq_succ_pred room.ones with hOnes | hOnes
        · exact absurd ⟨hSeeking, hAnnouncing, hOnes, hAlls⟩ h
        · by_cases hParked : .parked ∈ room.threads
          · obtain ⟨before, after, hThreads⟩ := List.append_of_mem hParked
            exact ⟨_, _, Or.inr (Or.inl rfl), .notifyOne hThreads hOnes⟩
          · exact ⟨_, _, Or.inr (Or.inl rfl), .notifyNone hParked hOnes⟩
      · exact ⟨_, _, Or.inr (Or.inr rfl), .notifyAll hAlls⟩
    · obtain ⟨before, stage, after, hThreads, hStage⟩ := exists_of_total_ne_zero hAnnouncing
      cases stage with
      | announcing => exact ⟨_, _, Or.inl rfl, .announce hThreads⟩
      | _ => exact absurd rfl hStage
  · obtain ⟨before, stage, after, hThreads, hStage⟩ := exists_of_total_ne_zero hSeeking
    cases stage with
    | seeking => exact Or.inl ⟨before, after, hThreads⟩
    | _ => exact absurd rfl hStage

/-- At rest no thread sleeps, or there is no demand. -/
theorem Covers.at_rest {demand : Nat} (h : room.Covers demand) (hRests : room.Rests) :
    room.parked = 0 ∨ demand = 0 := by
  have hSeeking := hRests.seeking
  have hAnnouncing := hRests.announcing
  have hOnes := hRests.ones
  have hAlls := hRests.alls
  rw [Covers] at h
  omega

theorem present_eq (room : Room Work) :
    room.present = room.seeking + room.parked + room.busy + room.announcing := by
  rw [seeking, parked, busy, announcing, ← total_add, ← total_add, ← total_add, present]
  congr 1
  funext stage
  cases stage <;> rfl

theorem present_eq_length (hStaying : .left ∉ room.threads) :
    room.present = room.threads.length := by
  rw [← Nat.one_mul room.threads.length, ← total_const, present, total, total]
  congr 1
  apply List.map_congr_left
  intro stage hStage
  cases stage with
  | left => exact absurd hStage hStaying
  | _ => rfl

theorem Step.threads_length (hStep : Step room turn room') :
    room'.threads.length = room.threads.length := by
  cases hStep with
  | idle => rfl
  | move hMoves hThreads => simp [hThreads]
  | announce hThreads => simp [hThreads]
  | oweOne => rfl
  | oweAll => rfl
  | notifyOne hThreads => simp [hThreads]
  | notifyNone => rfl
  | notifyAll => simp [wakeAll]

theorem Step.left_mem (hStep : Step room turn room') (hTurn : turn ≠ .leave)
    (hLeft : .left ∈ room'.threads) : .left ∈ room.threads := by
  have hWake : ∀ threads : List (Stage Work), .left ∈ threads.map Stage.wake → .left ∈ threads := by
    intro threads hMem
    obtain ⟨stage, hStage, hAwake⟩ := List.mem_map.mp hMem
    cases stage with
    | left => exact hStage
    | _ => cases hAwake
  cases hStep with
  | move hMoves hThreads =>
      cases hMoves with
      | leave => exact absurd rfl hTurn
      | _ => simpa [hThreads] using hLeft
  | announce hThreads =>
      have hMem := hWake _ hLeft
      simpa [hThreads] using hMem
  | notifyOne hThreads => simpa [hThreads] using hLeft
  | notifyAll => exact hWake _ hLeft
  | _ => exact hLeft

end Room

/-! The way to rest. -/

/-- The turns that wait for no work to end and for no caller. -/
def Turn.isInner : Turn Work → Bool
  | park => true
  | start _ => true
  | leave => true
  | announce => true
  | notifyOne => true
  | notifyAll => true
  | _ => false

/-- The inner turns that an outer one may bring about among that many threads. -/
def Turn.stir (size : Nat) : Turn Work → Nat
  | finish _ => size + 2
  | rouse => 1
  | oweOne => 2
  | oweAll => size + 1
  | _ => 0

theorem Turn.stir_inner {turn : Turn Work} (h : turn.isInner = true) (size : Nat) :
    turn.stir size = 0 := by
  cases turn with
  | finish => cases h
  | rouse => cases h
  | oweOne => cases h
  | oweAll => cases h
  | _ => rfl

def Stage.unrestWeight (size : Nat) : Stage Work → Nat
  | seeking => 1
  | announcing => size + 2
  | _ => 0

namespace Room

variable {room room' : Room Work} {turn : Turn Work}

/-- The inner turns that may still come. -/
def unrest (room : Room Work) : Nat :=
  room.total (Stage.unrestWeight room.threads.length) + 2 * room.ones +
    (room.threads.length + 1) * room.alls

theorem unrest_wake (size : Nat) (threads : List (Stage Work)) (ones alls : Nat) :
    total (Stage.unrestWeight size) ⟨threads.map Stage.wake, ones, alls⟩ =
      total (Stage.unrestWeight size) ⟨threads, ones, alls⟩ + parked ⟨threads, ones, alls⟩ := by
  rw [parked, ← total_add]
  exact total_wake (fun stage => by cases stage <;> rfl) threads ones alls

/-- Every inner turn brings the room closer to rest. -/
theorem Step.unrest (hStep : Step room turn room') :
    room'.unrest + (if turn.isInner then 1 else 0) ≤
      room.unrest + turn.stir room.threads.length := by
  have hLength := hStep.threads_length
  have hParked := room.parked_le
  rw [Room.unrest, Room.unrest, hLength]
  generalize hSize : room.threads.length = size at *
  cases hStep with
  | idle => simp [Turn.isInner, Turn.stir]
  | @move _ stage next before after hMoves hThreads =>
      have hMove := total_move hThreads (Stage.unrestWeight size) next room.ones room.alls
      simp only
      cases hMoves with
      | _ =>
          simp only [Stage.unrestWeight, Turn.isInner, Turn.stir, if_true, Bool.false_eq_true,
            if_false] at hMove ⊢
          omega
  | @announce before after hThreads =>
      have hMove := total_move hThreads (Stage.unrestWeight size) .seeking room.ones room.alls
      have hSleepers : parked ⟨before ++ .seeking :: after, room.ones, room.alls⟩ + _ =
        room.parked + _ := total_move hThreads Stage.parkedWeight .seeking _ _
      simp only [unrest_wake, Stage.unrestWeight, Stage.parkedWeight, Turn.isInner, Turn.stir,
        if_true] at hMove hSleepers ⊢
      omega
  | oweOne =>
      simp only [total, Turn.isInner, Turn.stir, Bool.false_eq_true, if_false]
      omega
  | oweAll =>
      simp only [total, Turn.isInner, Turn.stir, Bool.false_eq_true, if_false, Nat.mul_succ]
      omega
  | @notifyOne before after ones hThreads hOnes =>
      have hMove := total_move hThreads (Stage.unrestWeight size) .seeking ones room.alls
      simp only [Stage.unrestWeight, Turn.isInner, Turn.stir, if_true, hOnes] at hMove ⊢
      omega
  | notifyNone hNone hOnes =>
      simp only [total, Turn.isInner, Turn.stir, if_true, hOnes]
      omega
  | @notifyAll alls hAlls =>
      have hWake := unrest_wake size room.threads room.ones alls
      simp only [total, parked, wakeAll, Turn.isInner, Turn.stir, if_true, hAlls,
        Nat.mul_succ] at hWake hParked ⊢
      omega

/-- In a run the inner turns are bounded by the unrest at its start and by what the outer
ones stir up. -/
theorem inner_le {trace : List (Turn Work)} (run : Run Step room trace room') :
    trace.countP Turn.isInner + room'.unrest ≤
      room.unrest + (trace.map (Turn.stir room.threads.length)).sum := by
  suffices room'.threads.length = room.threads.length ∧
      trace.countP Turn.isInner + room'.unrest ≤
        room.unrest + (trace.map (Turn.stir room.threads.length)).sum from this.2
  refine run.invariant (fun trace room' => room'.threads.length = room.threads.length ∧
    trace.countP Turn.isInner + room'.unrest ≤
      room.unrest + (trace.map (Turn.stir room.threads.length)).sum) ⟨rfl, by simp⟩ ?_
  intro trace middle turn next ⟨hLength, hBound⟩ hStep
  have hTurn := hStep.unrest
  rw [hLength] at hTurn
  refine ⟨hStep.threads_length.trans hLength, ?_⟩
  rw [List.countP_append, List.countP_singleton, List.map_append, List.sum_append,
    List.map_singleton, List.sum_singleton]
  omega

/-! The way out. -/

/-- As long as a thread sleeps everyone will be notified. -/
def Drains (room : Room Work) : Prop := room.parked = 0 ∨ 0 < room.alls + room.announcing

theorem Step.drains (hStep : Step room turn room') (hTurn : turn ≠ .park) (h : room.Drains) :
    room'.Drains := by
  cases hStep with
  | idle => exact h
  | @move _ stage next before after hMoves hThreads =>
      have hParked : parked ⟨before ++ next :: after, room.ones, room.alls⟩ + _ =
        room.parked + _ := total_move hThreads Stage.parkedWeight next _ _
      have hAnnouncing : announcing ⟨before ++ next :: after, room.ones, room.alls⟩ + _ =
        room.announcing + _ := total_move hThreads Stage.announcingWeight next _ _
      simp only [Drains] at h ⊢
      cases hMoves with
      | park => exact absurd rfl hTurn
      | _ =>
          simp only [Stage.parkedWeight, Stage.announcingWeight] at hParked hAnnouncing
          omega
  | announce hThreads => exact Or.inl (parked_wake _ _ _)
  | oweOne => exact h
  | oweAll => exact Or.inr (Nat.lt_of_lt_of_le (Nat.succ_pos _) (Nat.le_add_right _ _))
  | @notifyOne before after ones hThreads hOnes =>
      have hParked : parked ⟨before ++ .seeking :: after, ones, room.alls⟩ + _ =
        room.parked + _ := total_move hThreads Stage.parkedWeight .seeking _ _
      have hAnnouncing : announcing ⟨before ++ .seeking :: after, ones, room.alls⟩ + _ =
        room.announcing + _ := total_move hThreads Stage.announcingWeight .seeking _ _
      simp only [Drains, Stage.parkedWeight, Stage.announcingWeight] at h hParked hAnnouncing ⊢
      omega
  | notifyNone => exact h
  | notifyAll hAlls => exact Or.inl (parked_wake _ _ _)

/-- At rest and without work in progress, every thread has left. -/
theorem Drains.all_left (h : room.Drains) (hRests : room.Rests) (hBusy : room.busy = 0) :
    room.present = 0 := by
  have hSeeking := hRests.seeking
  have hAnnouncing := hRests.announcing
  have hAlls := hRests.alls
  rw [Drains] at h
  rw [present_eq]
  omega

end Room

/-- The turns that use up fuel. -/
def Turn.isSpent : Turn Work → Bool
  | leave => true
  | finish _ => true
  | announce => true
  | _ => false

namespace Room

variable {room room' : Room Work} {turn : Turn Work}

theorem Step.fuel (hStep : Step room turn room') (hTurn : ∀ work, turn ≠ .start work) :
    room'.fuel + (if turn.isSpent then 1 else 0) = room.fuel := by
  cases hStep with
  | idle => rfl
  | @move _ stage next before after hMoves hThreads =>
      have hFuel : Room.fuel ⟨before ++ next :: after, room.ones, room.alls⟩ + _ =
        room.fuel + _ := total_move hThreads Stage.fuelWeight next _ _
      cases hMoves with
      | start work => exact absurd rfl (hTurn work)
      | _ =>
          simp only [Stage.fuelWeight, Turn.isSpent, if_true, Bool.false_eq_true,
            if_false] at hFuel ⊢
          omega
  | @announce before after hThreads =>
      have hFuel : Room.fuel ⟨before ++ .seeking :: after, room.ones, room.alls⟩ + _ =
        room.fuel + _ := total_move hThreads Stage.fuelWeight .seeking _ _
      simp only [fuel_wake, Stage.fuelWeight, Turn.isSpent, if_true] at hFuel ⊢
      omega
  | oweOne => rfl
  | oweAll => rfl
  | @notifyOne before after ones hThreads hOnes =>
      have hFuel : Room.fuel ⟨before ++ .seeking :: after, ones, room.alls⟩ + _ =
        room.fuel + _ := total_move hThreads Stage.fuelWeight .seeking _ _
      simp only [Stage.fuelWeight, Turn.isSpent, Bool.false_eq_true, if_false] at hFuel ⊢
      omega
  | notifyNone => rfl
  | notifyAll hAlls => exact fuel_wake _ _ _

end Room
end Waiting

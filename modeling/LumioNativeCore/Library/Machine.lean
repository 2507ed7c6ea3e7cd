import Mathlib.Data.List.Basic

/-! Machines that answer calls one after the other, and simulations between them. -/
namespace Machine

universe u v w
variable {S S' : Type u} {Call : Type v} {Answer : Type w}

/-- The calls with their answers, and the state after them. -/
def run (step : S → Call → Answer × S) (s : S) : List Call → List (Call × Answer) × S
  | [] => ([], s)
  | call :: rest =>
      let (answer, next) := step s call
      let (log, last) := run step next rest
      ((call, answer) :: log, last)

theorem run_cons (step : S → Call → Answer × S) (s : S) (call : Call) (rest : List Call) :
    run step s (call :: rest) = ((call, (step s call).1) :: (run step (step s call).2 rest).1,
      (run step (step s call).2 rest).2) := rfl

/-- The first call of a log that is its own run. -/
theorem run_log_cons {step : S → Call → Answer × S} {s last : S} {call : Call} {answer : Answer}
    {log : List (Call × Answer)}
    (h : run step s (((call, answer) :: log).map Prod.fst) = ((call, answer) :: log, last)) :
    (step s call).1 = answer ∧ run step (step s call).2 (log.map Prod.fst) = (log, last) := by
  rw [List.map_cons, run_cons] at h
  obtain ⟨hLog, hLast⟩ := Prod.mk.inj h
  obtain ⟨hEntry, hRest⟩ := List.cons.inj hLog
  exact ⟨(Prod.mk.inj hEntry).2, Prod.ext hRest hLast⟩

theorem run_append (step : S → Call → Answer × S) (s : S) (calls more : List Call) :
    run step s (calls ++ more) = ((run step s calls).1 ++ (run step (run step s calls).2 more).1,
      (run step (run step s calls).2 more).2) := by
  induction calls generalizing s with
  | nil => rfl
  | cons call rest ih =>
      rw [List.cons_append, run_cons, run_cons, ih]
      rfl

/-- What holds of the answer in every state holds of the whole log. -/
theorem run_answers {step : S → Call → Answer × S} {answered : Call × Answer → Prop}
    (hAnswer : ∀ s call, answered (call, (step s call).1)) (s : S) (calls : List Call) :
    ∀ entry ∈ (run step s calls).1, answered entry := by
  induction calls generalizing s with
  | nil => simp [run]
  | cons call rest ih =>
      rw [run_cons]
      exact List.forall_mem_cons.mpr ⟨hAnswer s call, ih _⟩

/-- What every call keeps between the state and a record of the calls and answers so far. -/
theorem run_records {step : S → Call → Answer × S} {Record : Type u}
    {record : Record → Call × Answer → Record} (matched : S → Record → Prop)
    (hStep : ∀ s r call, matched s r → matched (step s call).2 (record r (call, (step s call).1)))
    {s : S} {r : Record} (h : matched s r) (calls : List Call) :
    matched (run step s calls).2 ((run step s calls).1.foldl record r) := by
  induction calls generalizing s r with
  | nil => exact h
  | cons call rest ih =>
      rw [run_cons, List.foldl_cons]
      exact ih (hStep s r call h)

/-- Related states answer every call alike and are related afterwards. -/
def Simulates (step : S → Call → Answer × S) (step' : S' → Call → Answer × S')
    (related : S → S' → Prop) : Prop :=
  ∀ s s' call, related s s' →
    (step s call).1 = (step' s' call).1 ∧ related (step s call).2 (step' s' call).2

theorem Simulates.run {step : S → Call → Answer × S} {step' : S' → Call → Answer × S'}
    {related : S → S' → Prop} (hSimulates : Simulates step step' related) {s : S} {s' : S'}
    (h : related s s') (calls : List Call) :
    (Machine.run step s calls).1 = (Machine.run step' s' calls).1 ∧
      related (Machine.run step s calls).2 (Machine.run step' s' calls).2 := by
  induction calls generalizing s s' with
  | nil => exact ⟨rfl, h⟩
  | cons call rest ih =>
      obtain ⟨hAnswer, hNext⟩ := hSimulates s s' call h
      obtain ⟨hLog, hLast⟩ := ih hNext
      refine ⟨?_, hLast⟩
      rw [run_cons, run_cons, hAnswer, hLog]

/-! One machine for each key, each on its own. -/
section Keyed

variable {K : Type u} [DecidableEq K]

def keyed (step : K → S → Call → Answer × S) (s : K → S) (call : K × Call) : Answer × (K → S) :=
  ((step call.1 (s call.1) call.2).1,
    Function.update s call.1 (step call.1 (s call.1) call.2).2)

/-- What the machine of one key is asked, and answers. -/
def ownCalls (k : K) (calls : List (K × Call)) : List Call :=
  calls.filterMap fun call => if call.1 = k then some call.2 else none

def ownLog (k : K) (log : List ((K × Call) × Answer)) : List (Call × Answer) :=
  log.filterMap fun entry => if entry.1.1 = k then some (entry.1.2, entry.2) else none

theorem keyed_own (step : K → S → Call → Answer × S) (s : K → S) (call : K × Call) :
    (keyed step s call).2 call.1 = (step call.1 (s call.1) call.2).2 := Function.update_self _ _ _

theorem keyed_other (step : K → S → Call → Answer × S) (s : K → S) {call : K × Call} {k : K}
    (h : call.1 ≠ k) : (keyed step s call).2 k = s k := Function.update_of_ne h.symm _ _

theorem ownCalls_cons_own (k : K) (call : Call) (rest : List (K × Call)) :
    ownCalls k ((k, call) :: rest) = call :: ownCalls k rest := by
  simp [ownCalls]

theorem ownCalls_cons_other {k : K} {call : K × Call} (h : call.1 ≠ k) (rest : List (K × Call)) :
    ownCalls k (call :: rest) = ownCalls k rest := by
  simp [ownCalls, h]

theorem ownLog_cons_own (k : K) (call : Call) (answer : Answer)
    (rest : List ((K × Call) × Answer)) :
    ownLog k (((k, call), answer) :: rest) = (call, answer) :: ownLog k rest := by
  simp [ownLog]

theorem ownLog_cons_other {k : K} {entry : (K × Call) × Answer} (h : entry.1.1 ≠ k)
    (rest : List ((K × Call) × Answer)) : ownLog k (entry :: rest) = ownLog k rest := by
  simp [ownLog, h]

theorem ownCalls_map (k : K) (log : List ((K × Call) × Answer)) :
    ownCalls k (log.map Prod.fst) = (ownLog k log).map Prod.fst := by
  induction log with
  | nil => rfl
  | cons entry rest ih =>
      obtain ⟨⟨key, call⟩, answer⟩ := entry
      rw [List.map_cons]
      by_cases hKey : key = k
      · subst hKey
        rw [ownCalls_cons_own, ownLog_cons_own, List.map_cons, ih]
      · rw [ownCalls_cons_other hKey, ownLog_cons_other hKey, ih]

/-- What the machines of all other keys are asked does not show. -/
theorem run_keyed (step : K → S → Call → Answer × S) (s : K → S) (calls : List (K × Call)) (k : K) :
    run (step k) (s k) (ownCalls k calls) =
      (ownLog k (run (keyed step) s calls).1, (run (keyed step) s calls).2 k) := by
  induction calls generalizing s with
  | nil => rfl
  | cons call rest ih =>
      rw [run_cons]
      have hRest := ih (keyed step s call).2
      by_cases hKey : call.1 = k
      · obtain ⟨key, call⟩ := call
        obtain rfl : key = k := hKey
        rw [keyed_own step s (key, call)] at hRest
        rw [ownCalls_cons_own, ownLog_cons_own, run_cons, hRest]
        rfl
      · rw [keyed_other step s hKey] at hRest
        rw [ownCalls_cons_other hKey, ownLog_cons_other hKey]
        exact hRest

/-- Calls to different keys can all be answered from the states before them. -/
theorem run_keyed_nodup (step : K → S → Call → Answer × S) {s before : K → S}
    {calls : List (K × Call)} (hKeys : (calls.map Prod.fst).Nodup)
    (hSame : ∀ call ∈ calls, s call.1 = before call.1) :
    run (keyed step) s calls =
      (calls.map fun call => (call, (step call.1 (before call.1) call.2).1),
        calls.foldl (fun s call =>
          Function.update s call.1 (step call.1 (before call.1) call.2).2) s) := by
  induction calls generalizing s with
  | nil => rfl
  | cons call rest ih =>
      rw [List.map_cons, List.nodup_cons] at hKeys
      obtain ⟨hHere, hThere⟩ := List.forall_mem_cons.mp hSame
      have hRest := ih hKeys.2 (s := (keyed step s call).2) fun other hOther => by
        have hDifferent : call.1 ≠ other.1 := by
          intro hSameKey
          exact hKeys.1 (hSameKey ▸ List.mem_map_of_mem hOther)
        rw [keyed_other step s hDifferent]
        exact hThere other hOther
      rw [run_cons, hRest, List.map_cons, List.foldl_cons, keyed, hHere]

end Keyed

end Machine

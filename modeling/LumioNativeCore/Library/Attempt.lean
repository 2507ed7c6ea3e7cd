import Mathlib.Control.Basic

/-! Computations that write to a state as they go and can fail on the way. What was written
before a failure stays written: that nothing was is a property to be proved. -/
namespace Attempt

universe u
variable {σ ε : Type} {α β : Type}

/-- A program that reads and writes a state of type `σ` and may fail. -/
abbrev Program (σ ε α : Type) := ExceptT ε (StateM σ) α

/-- Run a program: its result, and the state it leaves in either case. -/
def run (x : Program σ ε α) (s : σ) : Except ε α × σ := x s

/-- Read a result off the state, or fail. -/
def check (f : σ → Except ε α) : Program σ ε α := fun s => (f s, s)

/-- Go on with the result of a program, failed or not. -/
def attempt (x : Program σ ε α) : Program σ ε (Except ε α) := fun s => (.ok (x s).1, (x s).2)

/-- Apply a transformation that has a result. -/
def step (f : σ → α × σ) : Program σ ε α := fun s => (.ok (f s).1, (f s).2)

/-- The outcome of an operation that returns the state it leaves only when it succeeds. -/
def settle (s : σ) : Except ε (α × σ) → Except ε α × σ
  | .ok (a, s') => (.ok a, s')
  | .error failure => (.error failure, s)

/-- A program that fails leaves the state as it was. -/
def Atomic (x : Program σ ε α) : Prop := ∀ s failure, (run x s).1 = .error failure → (run x s).2 = s

/-! How programs run. -/

theorem run_bind (x : Program σ ε α) (f : α → Program σ ε β) (s : σ) :
    run (x >>= f) s =
      match run x s with
      | (.ok a, s') => run (f a) s'
      | (.error failure, s') => (.error failure, s') := by
  show (ExceptT.bind x f) s = _
  unfold ExceptT.bind ExceptT.mk
  show (ExceptT.bindCont f (x s).1) (x s).2 = _
  rw [run]
  rcases x s with ⟨result, s'⟩
  cases result <;> rfl

@[simp] theorem run_pure (a : α) (s : σ) : run (pure a : Program σ ε α) s = (.ok a, s) := rfl

@[simp] theorem run_get (s : σ) : run (get : Program σ ε σ) s = (.ok s, s) := rfl

@[simp] theorem run_modify (f : σ → σ) (s : σ) :
    run (modify f : Program σ ε PUnit) s = (.ok ⟨⟩, f s) := rfl

@[simp] theorem run_check (f : σ → Except ε α) (s : σ) : run (check f) s = (f s, s) := rfl

@[simp] theorem run_step (f : σ → α × σ) (s : σ) :
    run (step f : Program σ ε α) s = (.ok (f s).1, (f s).2) := rfl

@[simp] theorem run_attempt (x : Program σ ε α) (s : σ) :
    run (attempt x) s = (.ok (run x s).1, (run x s).2) := rfl

/-- A check that fails ends the program where it stands. -/
theorem run_check_bind (f : σ → Except ε α) (g : α → Program σ ε β) (s : σ) :
    run (check f >>= g) s =
      match f s with
      | .ok a => run (g a) s
      | .error failure => (.error failure, s) := by
  rw [run_bind, run_check]
  cases f s <;> rfl

/-- A loop whose turns do not fail is a fold over the state. -/
theorem run_foldlM {f : β → α → Program σ ε β} {g : β × σ → α → β × σ}
    (h : ∀ b a s, run (f b a) s = (.ok (g (b, s) a).1, (g (b, s) a).2)) (list : List α) (b : β)
    (s : σ) :
    run (list.foldlM f b) s = (.ok (list.foldl g (b, s)).1, (list.foldl g (b, s)).2) := by
  induction list generalizing b s with
  | nil => rfl
  | cons a rest ih =>
      rw [List.foldlM_cons, run_bind, h, List.foldl_cons]
      exact ih _ _

theorem run_forM {f : α → Program σ ε PUnit} {g : σ → α → σ}
    (h : ∀ a s, run (f a) s = (.ok ⟨⟩, g s a)) (list : List α) (s : σ) :
    run (list.forM f) s = (.ok ⟨⟩, list.foldl g s) := by
  induction list generalizing s with
  | nil => rfl
  | cons a rest ih =>
      show run (f a >>= fun _ => rest.forM f) s = _
      rw [run_bind, h, List.foldl_cons]
      exact ih _

/-! Atomic programs. -/

theorem settle_error {s : σ} {result : Except ε (α × σ)} {failure : ε}
    (h : (settle s result).1 = .error failure) : (settle s result).2 = s := by
  cases result with
  | error _ => rfl
  | ok _ => cases h

/-- A program that settles an operation fails atomically. -/
theorem atomic_of_settle {x : Program σ ε α} {operation : σ → Except ε (α × σ)}
    (h : ∀ s, run x s = settle s (operation s)) : Atomic x := by
  intro s failure hFails
  rw [h] at hFails ⊢
  exact settle_error hFails

/-- What follows a program and does not fail keeps it atomic. -/
theorem Atomic.map {x : Program σ ε α} (h : Atomic x) (f : α → β) : Atomic (f <$> x) := by
  intro s failure hFails
  have hRun : run (f <$> x) s = ((run x s).1.map f, (run x s).2) := by
    rw [map_eq_pure_bind, run_bind]
    rcases run x s with ⟨result, s'⟩
    cases result <;> rfl
  rw [hRun] at hFails ⊢
  apply h s failure
  cases hResult : (run x s).1 with
  | ok a => rw [hResult] at hFails; cases hFails
  | error _ => rw [hResult] at hFails; cases hFails; rfl

end Attempt

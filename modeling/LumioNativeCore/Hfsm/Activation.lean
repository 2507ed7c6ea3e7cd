import LumioNativeCore.Library.Run
import LumioNativeCore.Hfsm.Closure
import LumioNativeCore.Hfsm.Batching

/-! Runs of one machine under a host that stores the snapshot of every accepted
plan. Activation sequences are never reused along such a run, and a delivery
token is stale exactly when its epoch has changed or its activation was left. -/
namespace Hfsm

/-- The activations that an item exits and enters. A rejected item does neither. -/
def exitedBy (item : BatchItem) : List ActiveState :=
  match readItem item with
  | .ok (_, reading) => reading.exits
  | .error _ => []

def enteredBy (item : BatchItem) : List ActiveState :=
  match readItem item with
  | .ok (_, reading) => reading.enters
  | .error _ => []

/-- `item` is about the stored snapshot of the machine `key`. -/
structure IsAbout (def_ : CompiledDefinition) (key : MachineKey) (snapshot : Option Snapshot)
    (item : BatchItem) : Prop where
  definition : item.definition = def_
  machineKey : item.machineKey = key
  snapshot : item.snapshot = snapshot

/-- One item of the host: the snapshot of an accepted plan is stored, a rejected
item changes nothing. The item may stand anywhere in a batch. -/
inductive HostStep (def_ : CompiledDefinition) (key : MachineKey) :
    Option Snapshot → BatchItem → Option Snapshot → Prop where
  | commit {before : Option Snapshot} {item : BatchItem} {next : Snapshot} (index : Nat)
      (scratch : Scratch) (later : List ActiveState) (hItem : IsAbout def_ key before item)
      (hFits : scratch.paths.length + def_.maxDepth < 2 ^ 32)
      (hNext : Snapshot.fromPlan (evaluateItem index item scratch).1
        ((evaluateItem index item scratch).2.paths ++ later) = some next) :
      HostStep def_ key before item (some next)
  | reject {before : Option Snapshot} {item : BatchItem} (index : Nat) (scratch : Scratch)
      (failure : ItemError) (hItem : IsAbout def_ key before item)
      (hRejected : (evaluateItem index item scratch).1.outcome = .rejected failure) :
      HostStep def_ key before item before

/-- What holds of the stored snapshot at every point of a run. -/
structure StoreInv (def_ : CompiledDefinition) (key : MachineKey) (snapshot : Option Snapshot) :
    Prop where
  valid : ∀ s, snapshot = some s → s.validate def_ = .ok ()
  machineKey : ∀ s, snapshot = some s → s.machineKey = key
  positive : 0 < nextSeqOf snapshot
  below : SeqsBelow (pathOf snapshot) (nextSeqOf snapshot)
  increasing : (pathOf snapshot).Pairwise fun a b => a.activationSeq < b.activationSeq

/-- What one item does to the stored path and counter. -/
def Moves (before : Option Snapshot) (item : BatchItem) (after : Option Snapshot) : Prop :=
  ∃ kept exited entered, pathOf before = kept ++ exited ∧
    pathOf after = kept ++ activate (nextSeqOf before) entered ∧
    nextSeqOf after = nextSeqOf before + entered.length ∧
    exitedBy item = exited.reverse ∧ enteredBy item = activate (nextSeqOf before) entered

theorem activate_increasing (seq : Nat) (states : List StateId) :
    (activate seq states).Pairwise fun a b => a.activationSeq < b.activationSeq := by
  induction states generalizing seq with
  | nil => exact List.Pairwise.nil
  | cons state rest ih =>
      refine List.pairwise_cons.mpr ⟨fun b hb => ?_, ih (seq + 1)⟩
      have := mem_activate hb
      change seq < b.activationSeq
      omega

section Run

variable {spec : DefinitionSpec} {def_ : CompiledDefinition} {key : MachineKey}

/-- The two ways an item ends, by its reading. -/
theorem HostStep.cases_read (h : Accepted spec def_) {before after : Option Snapshot}
    {item : BatchItem} (step : HostStep def_ key before item after) :
    IsAbout def_ key before item ∧
      ((∃ failure, readItem item = .error failure ∧ after = before) ∨
        ∃ header reading, readItem item = .ok (header, reading) ∧
          after = some (committed header reading)) := by
  cases step with
  | commit index scratch later hItem hFits hNext =>
      refine ⟨hItem, ?_⟩
      cases hRead : readItem item with
      | error failure =>
          simp [evaluateItem_eq, hRead, writeResult, rejectedPlan, Snapshot.fromPlan] at hNext
      | ok result =>
          have h' : Accepted spec item.definition := hItem.definition ▸ h
          rw [h'.fromPlan_evaluateItem hRead index (hItem.definition ▸ hFits) later] at hNext
          exact Or.inr ⟨_, _, rfl, hNext.symm⟩
  | reject index scratch failure hItem hRejected =>
      refine ⟨hItem, ?_⟩
      rw [evaluateItem_eq] at hRejected
      cases hRead : readItem item with
      | error failure => exact Or.inl ⟨failure, rfl, rfl⟩
      | ok result =>
          have h' : Accepted spec item.definition := hItem.definition ▸ h
          rw [hRead] at hRejected
          exact absurd hRejected ((h'.readItem_advances hRead).accepted failure)

theorem HostStep.moves (h : Accepted spec def_) {before after : Option Snapshot}
    {item : BatchItem} (step : HostStep def_ key before item after) :
    Moves before item after := by
  obtain ⟨hItem, ⟨failure, hRead, rfl⟩ | ⟨header, reading, hRead, rfl⟩⟩ := step.cases_read h
  · exact ⟨pathOf after, [], [], by simp, by simp [activate], rfl, by simp [exitedBy, hRead],
      by simp [enteredBy, hRead, activate]⟩
  · have h' : Accepted spec item.definition := hItem.definition ▸ h
    have hMoves := (h'.readItem_advances hRead).moves
    rw [hItem.snapshot] at hMoves
    simp only [Moves, exitedBy, enteredBy, hRead]
    exact hMoves

theorem Moves.increasing {before after : Option Snapshot} {item : BatchItem}
    (hMoves : Moves before item after) (hBelow : SeqsBelow (pathOf before) (nextSeqOf before))
    (hIncreasing : (pathOf before).Pairwise fun a b => a.activationSeq < b.activationSeq) :
    (pathOf after).Pairwise fun a b => a.activationSeq < b.activationSeq := by
  obtain ⟨kept, exited, entered, hBefore, hAfter, -⟩ := hMoves
  rw [hBefore] at hIncreasing hBelow
  rw [hAfter, List.pairwise_append]
  refine ⟨(List.pairwise_append.mp hIncreasing).1, activate_increasing _ _, ?_⟩
  intro a ha b hb
  have hOld := hBelow a (List.mem_append_left _ ha)
  have hNew := mem_activate hb
  omega

theorem HostStep.inv (h : Accepted spec def_) {before after : Option Snapshot}
    {item : BatchItem} (hInv : StoreInv def_ key before)
    (step : HostStep def_ key before item after) : StoreInv def_ key after := by
  have hMoves := step.moves h
  obtain ⟨hItem, ⟨failure, hRead, rfl⟩ | ⟨header, reading, hRead, rfl⟩⟩ := step.cases_read h
  · exact hInv
  · have h' : Accepted spec item.definition := hItem.definition ▸ h
    have hAdvances := h'.readItem_advances hRead
    have hBelow : SeqsBelow reading.path reading.nextSeq := by
      apply Accepted.seqsBelow_advances hAdvances
      · rw [hItem.snapshot]
        exact hInv.below
      · rw [hItem.snapshot]
        exact hInv.positive
    obtain ⟨-, -, entered, -, -, hSeq, -⟩ := hMoves
    exact
      { valid := by
          intro s hs
          obtain rfl := Option.some.inj hs
          exact hItem.definition ▸ (h'.committed_valid hAdvances).mpr hBelow
        machineKey := by
          intro s hs
          obtain rfl := Option.some.inj hs
          exact hAdvances.machineKey.trans hItem.machineKey
        positive := by
          have := hInv.positive
          omega
        below := hBelow
        increasing := (step.moves h).increasing hInv.below hInv.increasing }

/-- Where a machine of the definition begins. -/
def IsFresh (def_ : CompiledDefinition) (key : MachineKey) (snapshot : Option Snapshot) : Prop :=
  snapshot = none ∨ snapshot = some (Snapshot.notStarted def_.fingerprint key)

theorem IsFresh.inv (h : Accepted spec def_) {snapshot : Option Snapshot}
    (hFresh : IsFresh def_ key snapshot) : StoreInv def_ key snapshot := by
  rcases hFresh with rfl | rfl
  · exact ⟨by simp, by simp, Nat.one_pos, List.forall_mem_nil _, List.Pairwise.nil⟩
  · refine ⟨?_, ?_, Nat.one_pos, List.forall_mem_nil _, List.Pairwise.nil⟩
    · intro s hs
      obtain rfl := Option.some.inj hs
      exact h.validate_eq_ok.mpr ⟨rfl, Or.inl ⟨by simp [Snapshot.notStarted], rfl⟩⟩
    · intro s hs
      obtain rfl := Option.some.inj hs
      rfl

open Transition

variable {start final : Option Snapshot} {trace : List BatchItem}

theorem run_inv (h : Accepted spec def_) (hInv : StoreInv def_ key start)
    (run : Run (HostStep def_ key) start trace final) : StoreInv def_ key final :=
  run.preserves (StoreInv def_ key) (fun _ _ _ hPrior last => last.inv h hPrior) hInv

/-- Everything entered so far is numbered in order and below the counter. -/
theorem run_entered (h : Accepted spec def_)
    (run : Run (HostStep def_ key) start trace final) :
    (trace.flatMap enteredBy).Pairwise (fun a b => a.activationSeq < b.activationSeq) ∧
      ∀ a ∈ trace.flatMap enteredBy, a.activationSeq < nextSeqOf final := by
  apply run.invariant fun trace final =>
    (trace.flatMap enteredBy).Pairwise (fun a b => a.activationSeq < b.activationSeq) ∧
      ∀ a ∈ trace.flatMap enteredBy, a.activationSeq < nextSeqOf final
  · exact ⟨List.Pairwise.nil, List.forall_mem_nil _⟩
  · intro trace before item after hPrior last
    obtain ⟨-, -, entered, -, -, hSeq, -, hEntered⟩ := last.moves h
    rw [List.flatMap_append, List.flatMap_singleton, hEntered, hSeq]
    constructor
    · rw [List.pairwise_append]
      refine ⟨hPrior.1, activate_increasing _ _, fun a ha b hb => ?_⟩
      have hOld := hPrior.2 a ha
      have hNew := mem_activate hb
      omega
    · intro a ha
      rcases List.mem_append.mp ha with ha | ha
      · have := hPrior.2 a ha
        omega
      · exact (mem_activate ha).2.2

theorem run_nextSeq_le (h : Accepted spec def_)
    (run : Run (HostStep def_ key) start trace final) : nextSeqOf start ≤ nextSeqOf final := by
  apply run.monotone (fun s t => nextSeqOf s ≤ nextSeqOf t) (fun _ => Nat.le_refl _) Nat.le_trans
  intro before item after step
  obtain ⟨-, -, entered, -, -, hSeq, -⟩ := step.moves h
  omega

/-- An activation below the counter is on the path as long as no item exits it,
and never comes back after one did. -/
theorem run_active_iff (h : Accepted spec def_) (hInv : StoreInv def_ key start)
    {a : ActiveState} (ha : a ∈ pathOf start)
    (run : Run (HostStep def_ key) start trace final) :
    a ∈ pathOf final ↔ ∀ item ∈ trace, a ∉ exitedBy item := by
  have hSeq := (hInv.below a ha).2
  have hRun : (a ∈ pathOf final ↔ ∀ item ∈ trace, a ∉ exitedBy item) ∧
      StoreInv def_ key final ∧ a.activationSeq < nextSeqOf final := by
    apply run.invariant fun trace final =>
      (a ∈ pathOf final ↔ ∀ item ∈ trace, a ∉ exitedBy item) ∧
        StoreInv def_ key final ∧ a.activationSeq < nextSeqOf final
    · exact ⟨iff_of_true ha (List.forall_mem_nil _), hInv, hSeq⟩
    · intro trace before item after hPrior last
      obtain ⟨hIff, hInvBefore, hBelow⟩ := hPrior
      obtain ⟨kept, exited, entered, hBefore, hAfter, hNext, hExited, -⟩ := last.moves h
      have hFresh : a ∉ activate (nextSeqOf before) entered := by
        intro hNew
        have := mem_activate hNew
        omega
      have hDisjoint : a ∈ kept → a ∉ exited := by
        intro hKept hExit
        have hOrder := hInvBefore.increasing
        rw [hBefore] at hOrder
        exact Nat.lt_irrefl _ ((List.pairwise_append.mp hOrder).2.2 a hKept a hExit)
      refine ⟨?_, last.inv h hInvBefore, by omega⟩
      rw [List.forall_mem_append, ← hIff, List.forall_mem_singleton, hExited,
        List.mem_reverse, hBefore, hAfter, List.mem_append, List.mem_append]
      constructor
      · rintro (hKept | hNew)
        · exact ⟨Or.inl hKept, hDisjoint hKept⟩
        · exact absurd hNew hFresh
      · rintro ⟨hOld, hNot⟩
        exact Or.inl (hOld.resolve_right hNot)
  exact hRun.1

end Run

/-! Stale tokens. -/

section Stale

variable {def_ : CompiledDefinition} {guards : GuardFrame} {failure : ItemError}

theorem pick_eq_error {ids : List TransitionId} (h : pick def_ guards ids = .error failure) :
    ∃ g, failure = .guardMissing g := by
  induction ids with
  | nil => cases h
  | cons id rest ih =>
      rw [pick] at h
      cases hTransition : def_.transition id with
      | none => exact ih (by simpa [hTransition] using h)
      | some t =>
          cases hGuard : t.guard with
          | none => simp [hTransition, hGuard] at h
          | some g =>
              cases hLookup : guards.lookup g with
              | true => simp [hTransition, hGuard, hLookup] at h
              | false => exact ih (by simpa [hTransition, hGuard, hLookup] using h)
              | missing =>
                  simp only [hTransition, hGuard, hLookup, Except.error.injEq] at h
                  exact ⟨g, h.symm⟩

theorem selectFrom_eq_error {event : EventKind} {levels : List (ActiveState × Nat)}
    (h : selectFrom def_ event guards levels = .error failure) :
    ∃ g, failure = .guardMissing g := by
  induction levels with
  | nil => cases h
  | cons entry rest ih =>
      rw [selectFrom] at h
      cases hPick : pick def_ guards (def_.candidatesOf entry.1.state event) with
      | error found =>
          rw [hPick] at h
          exact Except.error.inj h ▸ pick_eq_error hPick
      | ok found =>
          rw [hPick] at h
          cases found with
          | none => exact ih h
          | some t => cases h

theorem enterStates_eq_error {seq : Nat} {states : List StateId}
    (h : enterStates seq states = .error failure) : failure = .counterOverflow := by
  by_cases hBound : states ≠ [] → seq + states.length ≤ Word.max64
  · rw [enterStates_of_le hBound] at h
    cases h
  · have hFull := Classical.not_imp.mp hBound
    rw [enterStates_of_lt hFull.1 (Nat.lt_of_not_le hFull.2)] at h
    exact (Except.error.inj h).symm

theorem readCrossing_eq_error {s : Snapshot} {keep : Nat} {source : ActiveState}
    {t : CompiledTransition} {target : StateId}
    (h : def_.readCrossing s keep source t target = .error failure) :
    failure = .counterOverflow := by
  rw [CompiledDefinition.readCrossing] at h
  cases hEnter : enterStates s.nextActivationSeq (def_.enteredBelow
      ((s.activePath.take keep).getLast?.map ActiveState.state) target) with
  | error found =>
      simp only [hEnter, Except.map, Except.error.injEq] at h
      exact h ▸ enterStates_eq_error hEnter
  | ok active => simp [hEnter, Except.map] at h

theorem readSelected_eq_error {s : Snapshot} {selected : Option (Nat × CompiledTransition)}
    (h : def_.readSelected s selected = .error failure) :
    failure = .lifecycleViolation ∨ failure = .counterOverflow := by
  cases selected with
  | none => cases h
  | some chosen =>
      rcases chosen with ⟨level, t⟩
      rw [CompiledDefinition.readSelected] at h
      cases hSource : s.activePath[level]? with
      | none =>
          simp only [hSource, Except.error.injEq] at h
          exact Or.inl h.symm
      | some source =>
          simp only [hSource, CompiledDefinition.readTransition] at h
          right
          cases hKind : t.kind with
          | internal => simp [hKind] at h
          | «local» target => exact readCrossing_eq_error (by simpa [hKind] using h)
          | external target => exact readCrossing_eq_error (by simpa [hKind] using h)

/-- The checks of an event report a stale token exactly when the token check does. -/
theorem admitEvent_stale (item : BatchItem) (event : EventKind) {s : Snapshot}
    (hRunning : s.lifecycle = .running) :
    admitEvent item event s = .error .staleDelivery ↔ checkScope s item.scope ≠ .ok () := by
  have hGuards : ∀ leaf, checkGuards item.definition item.guards leaf event ≠
      .error .staleDelivery := by
    intro leaf
    rw [checkGuards]
    cases (item.definition.requiredGuardsOf leaf event).find? _ <;> simp
  have hBump : bump s.stepSeq ≠ .error .staleDelivery := by
    rw [bump]
    cases Word.checkedAdd Word.max64 s.stepSeq 1 <;> simp
  simp only [admitEvent, bind, Except.bind, hRunning, ne_eq, not_true_eq_false, if_false]
  cases hScope : checkScope s item.scope with
  | error found =>
      have hFound : found = .staleDelivery := by
        cases hToken : item.scope with
        | none => simp [checkScope, hToken] at hScope
        | some scope =>
            simp only [checkScope, hToken] at hScope
            split_ifs at hScope
            exact (Except.error.inj hScope).symm
      simp [hFound]
  | ok _ =>
      simp only [not_true_eq_false, iff_false]
      intro hStale
      split_ifs at hStale
      · cases hStale
      · cases hStale
      · cases hLeaf : s.leaf with
        | none => simp [hLeaf] at hStale
        | some leaf =>
            simp only [hLeaf] at hStale
            cases hCheck : checkGuards item.definition item.guards leaf event with
            | error found =>
                simp only [hCheck, Except.error.injEq] at hStale
                exact hGuards leaf (hStale ▸ hCheck)
            | ok _ =>
                rw [hCheck] at hStale
                exact hBump hStale

/-- An event with a token on a valid running snapshot is stale exactly when the
token no longer matches. -/
theorem stale_iff {s : Snapshot} {item : BatchItem} {event : EventKind} {key : MachineKey}
    {scope : DeliveryScope} (hValid : s.validate def_ = .ok ()) (hKey : s.machineKey = key)
    (hRunning : s.lifecycle = .running) (hItem : IsAbout def_ key (some s) item)
    (hKind : item.kind = .event event) (hScope : item.scope = some scope) (index : Nat)
    (scratch : Scratch) :
    (evaluateItem index item scratch).1.outcome = .rejected .staleDelivery ↔
      s.epoch ≠ scope.epoch ∨ ⟨scope.state, scope.activationSeq⟩ ∉ s.activePath := by
  have hAdmit : admitSnapshot item = .ok s := by
    rw [admit_eq_ok, hItem.definition, hItem.machineKey]
    exact ⟨hItem.snapshot, hKey, hValid⟩
  have hToken : checkScope s item.scope ≠ .ok () ↔
      s.epoch ≠ scope.epoch ∨ ⟨scope.state, scope.activationSeq⟩ ∉ s.activePath := by
    simp only [ne_eq, checkScope_eq_ok, hScope, Option.some.injEq, forall_eq', not_and_or]
    rw [eq_comm]
  rw [← hToken, ← admitEvent_stale item event hRunning, evaluateItem_rejected,
    readItem_event hKind, readEvent]
  simp only [hAdmit, bind, Except.bind]
  cases hAdmitEvent : admitEvent item event s with
  | error failure => simp
  | ok step =>
      simp only [reduceCtorEq, iff_false]
      intro hStale
      cases hSelect : select item.definition s event item.guards with
      | error failure =>
          obtain ⟨g, rfl⟩ := selectFrom_eq_error hSelect
          simp [hSelect] at hStale
      | ok selected =>
          simp only [hSelect] at hStale
          cases hReading : item.definition.readSelected s selected with
          | error failure =>
              rw [hReading] at hStale
              rcases readSelected_eq_error hReading with rfl | rfl
              · cases hStale
              · cases hStale
          | ok reading =>
              rw [hReading] at hStale
              cases hStale

end Stale

open Transition

/-- Along every run of one machine from its beginning: entered activations are
numbered apart; every stored path is numbered strictly upwards and below the
counter, which never falls; and a token read off an earlier snapshot is stale
exactly when the epoch differs or its activation was exited since, which is
when it is no longer on the path. -/
theorem activations_never_reused {spec : DefinitionSpec} {limits : HfsmLimits}
    {def_ : CompiledDefinition} (hCompile : compile spec limits = .ok def_) (key : MachineKey)
    {start earlier final : Option Snapshot} {before after : List BatchItem}
    (hStart : IsFresh def_ key start)
    (hBefore : Run (HostStep def_ key) start before earlier)
    (hAfter : Run (HostStep def_ key) earlier after final) :
    (((before ++ after).flatMap enteredBy).map ActiveState.activationSeq).Nodup ∧
      (∀ s, final = some s →
        (s.activePath.Pairwise fun a b => a.activationSeq < b.activationSeq) ∧
        ∀ a ∈ s.activePath, a.activationSeq < s.nextActivationSeq) ∧
      nextSeqOf earlier ≤ nextSeqOf final ∧
      ∀ s s' a, earlier = some s → a ∈ s.activePath → final = some s' →
        (a ∉ s'.activePath ↔ ∃ item ∈ after, a ∈ exitedBy item) ∧
        ∀ item event index scratch, s'.lifecycle = .running →
          IsAbout def_ key (some s') item → item.kind = .event event →
          item.scope = some ⟨a.state, a.activationSeq, s.epoch⟩ →
          ((evaluateItem index item scratch).1.outcome = .rejected .staleDelivery ↔
            s'.epoch ≠ s.epoch ∨ ∃ item ∈ after, a ∈ exitedBy item) := by
  have h := accepted hCompile
  have hInvEarlier := run_inv h (hStart.inv h) hBefore
  have hInv := run_inv h hInvEarlier hAfter
  refine ⟨?_, ?_, run_nextSeq_le h hAfter, ?_⟩
  · have hEntered := (run_entered h (hBefore.trans hAfter)).1
    rw [List.Nodup, List.pairwise_map]
    exact hEntered.imp Nat.ne_of_lt
  · rintro s rfl
    exact ⟨hInv.increasing, fun a ha => (hInv.below a ha).2⟩
  · rintro s s' a rfl ha rfl
    have hActive : a ∈ s'.activePath ↔ ∀ item ∈ after, a ∉ exitedBy item :=
      run_active_iff h hInvEarlier ha hAfter
    have hLeft : a ∉ s'.activePath ↔ ∃ item ∈ after, a ∈ exitedBy item := by
      rw [hActive, not_forall]
      simp only [Classical.not_imp, not_not]
    refine ⟨hLeft, fun item event index scratch hRunning hItem hKind hScope => ?_⟩
    rw [← hLeft]
    exact stale_iff (hInv.valid s' rfl) (hInv.machineKey s' rfl) hRunning hItem hKind hScope
      index scratch

/-- The boundary machine is started, and its first event moves it from the state
2 to the state 3. -/
def boundaryStart : BatchItem :=
  { boundaryItem with
    kind := .start 4
    snapshot := none
    scope := none }

def boundaryAfter : Snapshot :=
  { boundarySnapshot with
    stepSeq := 2
    nextActivationSeq := 4
    activePath := [⟨⟨1⟩, 1⟩, ⟨⟨3⟩, 3⟩] }

theorem boundary_started :
    Run (HostStep boundaryDefinition 1) none [boundaryStart] (some boundarySnapshot) := by
  refine Run.snoc (Run.nil none) ?_
  exact HostStep.commit 0 .empty [] ⟨rfl, rfl, rfl⟩ (by decide +kernel) (by decide +kernel)

theorem boundary_moved :
    Run (HostStep boundaryDefinition 1) (some boundarySnapshot) [boundaryItem]
      (some boundaryAfter) := by
  refine Run.snoc (Run.nil _) ?_
  exact HostStep.commit 0 .empty [] ⟨rfl, rfl, rfl⟩ (by decide +kernel) (by decide +kernel)

theorem activations_never_reused_boundary :
    ((([boundaryStart] ++ [boundaryItem]).flatMap enteredBy).map
        ActiveState.activationSeq).Nodup ∧
      (⟨⟨2⟩, 2⟩ ∉ boundaryAfter.activePath ↔ ∃ item ∈ [boundaryItem], ⟨⟨2⟩, 2⟩ ∈ exitedBy item) := by
  have hRun := activations_never_reused compile_boundarySpec 1 (Or.inl rfl) boundary_started
    boundary_moved
  exact ⟨hRun.1, (hRun.2.2.2 boundarySnapshot boundaryAfter ⟨⟨2⟩, 2⟩ rfl (by decide) rfl).1⟩

end Hfsm

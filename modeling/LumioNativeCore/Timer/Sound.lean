import LumioNativeCore.Library.Check
import LumioNativeCore.Library.Run
import LumioNativeCore.Timer.Desk
import LumioNativeCore.Timer.Roster

/-! The manager as a transition system, and the invariant of its runs. -/
namespace Timer

/-- A call of the manager, with its result where the result is delivered or
changes what may be delivered. -/
inductive TimerEvent where
  | scheduled (handle : TimerHandle) (scope : TimerScope) (interval : Option Nat)
      (slot : CallbackSlot)
  | cancelled (handle : TimerHandle)
  | tornDown (id : Nat)
  | destroyed (id : Nat)
  | closed (slot : CallbackSlot)
  | advanced (report : AdvanceReport)
  | drained (report : DrainReport)
  | shutdown
  /-- Any other call, and any call that returned an error. -/
  | other
  deriving DecidableEq

/-- What the order of deliveries goes by. -/
def FiringRecord.key (record : FiringRecord) : Nat × Nat :=
  (record.dueTick, record.scheduleSequence)

namespace TimerManager

/-- The calls. `pump` is `advance`, `remove_dispatch` is `remove_dispatch_binding` and
`register_scope_from_u8` is `register_scope` once its kind is decoded. -/
inductive Step : TimerManager → TimerEvent → TimerManager → Prop where
  | failed (m : TimerManager) : Step m .other m
  | createSlot {m m' : TimerManager} {slot : CallbackSlot}
      (result : m.createSlot = .ok (slot, m')) : Step m .other m'
  | registerDispatch {m m' : TimerManager} {id : DispatchId}
      (result : m.tryRegisterDispatch id = .ok m') : Step m .other m'
  | removeDispatch (m : TimerManager) (id : DispatchId) :
      Step m .other (m.removeDispatchBinding id)
  | bindSlot (m : TimerManager) (slot : CallbackSlot) (id : DispatchId) :
      Step m .other (m.bindSlot slot id).2
  | armSlot {m m' : TimerManager} {slot : CallbackSlot} {id : DispatchId}
      (result : m.armSlot slot id = .ok m') : Step m .other m'
  | closeSlot {m m' : TimerManager} {slot : CallbackSlot}
      (result : m.closeSlot slot = .ok m') : Step m (.closed slot) m'
  | registerScope {m m' : TimerManager} {id : Nat} {kind : ScopeKind} {scope : TimerScope}
      (result : m.registerScope id kind = .ok (scope, m')) : Step m .other m'
  | teardownScope {m m' : TimerManager} {id : Nat} {scope : TimerScope}
      (result : m.teardownScope id = .ok (scope, m')) : Step m (.tornDown id) m'
  | destroyScope {m m' : TimerManager} {id : Nat}
      (result : m.destroyScope id = .ok m') : Step m (.destroyed id) m'
  | scheduleOneShot {m m' : TimerManager} {scope : TimerScope} {due : Nat} {slot : CallbackSlot}
      {handle : TimerHandle} (result : m.scheduleOneShot scope due slot = .ok (handle, m')) :
      Step m (.scheduled handle scope none slot) m'
  | scheduleRepeating {m m' : TimerManager} {scope : TimerScope} {due interval : Nat}
      {slot : CallbackSlot} {handle : TimerHandle}
      (result : m.scheduleRepeating scope due interval slot = .ok (handle, m')) :
      Step m (.scheduled handle scope (some interval) slot) m'
  | cancel {m m' : TimerManager} {handle : TimerHandle} {flag : Bool}
      (result : m.cancel handle = .ok (flag, m')) : Step m (.cancelled handle) m'
  | advance {m m' : TimerManager} {toTick : Nat} {report : AdvanceReport}
      (result : m.advance toTick = .ok (report, m')) : Step m (.advanced report) m'
  | drain (m : TimerManager) : Step m (.drained m.drain.1) m.drain.2
  | drainRecords {m m' : TimerManager} {report : DrainReport}
      (result : m.drainRecords = .ok (report, m')) : Step m (.drained report) m'
  | shutdown (m : TimerManager) : Step m .shutdown m.shutdown
  | takeDiagnostics (m : TimerManager) : Step m .other m.takeDiagnostics
  | clearTrace (m : TimerManager) : Step m .other m.clearTrace

/-! The invariant. -/

/-- Holds between the calls, with the committed tick as the horizon, and also
inside `advance`, with the tick it advances to. -/
structure Sound (horizon : Nat) (m : TimerManager) : Prop where
  config : m.configError = configErrorOf m.limits m.budget
  booked : m.toRoster.Booked
  resolving : m.toRoster.Scoped m.context
  free : m.running = true → m.toRoster.FreeListed
  counted : m.pending = m.toDesk.items.length
  sequence : ∀ h record, m.getTimer h = .ok record → record.sequence < m.nextSequence
  distinct : ∀ h h' record record', m.getTimer h = .ok record → m.getTimer h' = .ok record' →
    record.sequence = record'.sequence → h = h'
  interval : ∀ h record, m.getTimer h = .ok record → record.interval ≠ some 0
  queued : ∀ h record, m.getTimer h = .ok record → record.queued = true → record.interval = none
  issued : m.running = true → ∀ k item, m.toDesk.Holds k item →
    m.toRoster.Issued m.context item.record.handle
  due : ∀ item ∈ m.toDesk.items, item.record.dueTick ≤ horizon
  keys : (m.toDesk.items.map fun item => item.record.key).Nodup
  /-- An item of a live timer carries the timer's scope, slot and dispatch id, and
  is valid unless the slot was closed. -/
  owner : ∀ k item record, m.toDesk.Holds k item → m.getTimer item.record.handle = .ok record →
    item.scope = record.scope ∧ k = record.slot.index ∧
      item.record.slotDispatchId = record.dispatch ∧
      (item.valid = true ∨ m.toDesk.stateOf k = some .closed)
  siblings : ∀ k item k' item', m.toDesk.Holds k item → m.toDesk.Holds k' item' →
    item.record.handle = item'.record.handle →
    k = k' ∧ item.scope = item'.scope ∧
      item.record.slotDispatchId = item'.record.slotDispatchId ∧ item.valid = item'.valid

/-- No live timer that waits to fire is due already. -/
def Upcoming (m : TimerManager) : Prop :=
  ∀ h record, m.getTimer h = .ok record → record.queued = false → m.committedTick < record.due

theorem ensureRunning_eq_ok {m : TimerManager} :
    m.ensureRunning = .ok () ↔ m.running = true ∧ m.configError = none := by
  rw [ensureRunning]
  cases m.running <;> cases m.configError <;> simp

section Effects

variable {horizon : Nat} {m : TimerManager}

theorem Sound.retires (h : Sound horizon m) {r : Roster}
    (hRetires : Roster.Retires m.context m.toRoster r) : Sound horizon { m with toRoster := r } where
  config := h.config
  booked := hRetires.booked h.booked
  resolving := hRetires.resolving h.resolving
  free hRunning := hRetires.free (h.free hRunning)
  counted := h.counted
  sequence handle record hGet := h.sequence handle record (hRetires.getTimer _ _ hGet)
  distinct handle handle' record record' hGet hGet' :=
    h.distinct handle handle' record record' (hRetires.getTimer _ _ hGet)
      (hRetires.getTimer _ _ hGet')
  interval handle record hGet := h.interval handle record (hRetires.getTimer _ _ hGet)
  queued handle record hGet := h.queued handle record (hRetires.getTimer _ _ hGet)
  issued hRunning k item hItem := (hRetires.issued _).mpr (h.issued hRunning k item hItem)
  due := h.due
  keys := h.keys
  owner k item record hItem hGet := h.owner k item record hItem (hRetires.getTimer _ _ hGet)
  siblings := h.siblings

theorem Upcoming.retires (h : Upcoming m) {r : Roster}
    (hRetires : Roster.Retires m.context m.toRoster r) : Upcoming { m with toRoster := r } :=
  fun handle record hGet => h handle record (hRetires.getTimer _ _ hGet)

/-- Rewriting the slots keeps the invariant when the items of one timer are
treated alike, and items of live timers are kept outside closed slots. -/
theorem Sound.rewrites (h : Sound horizon m) {d : Desk} {keep : Nat → QueueItem → Bool}
    (hRewrites : Desk.Rewrites keep m.toDesk d)
    (hUniform : ∀ k item item', item.record.handle = item'.record.handle →
      item.scope = item'.scope → keep k item = keep k item')
    (hOwner : ∀ k item record, m.toDesk.Holds k item →
      m.getTimer item.record.handle = .ok record →
      keep k item = true ∨ d.stateOf k = some .closed) :
    Sound horizon { m with toDesk := d } where
  config := h.config
  booked := h.booked
  resolving := h.resolving
  free := h.free
  counted := by
    have hLength := congrArg List.length hRewrites.items
    rw [List.length_map, List.length_map] at hLength
    change d.pending = d.items.length
    rw [hRewrites.pending, hLength, h.counted]
  sequence := h.sequence
  distinct := h.distinct
  interval := h.interval
  queued := h.queued
  issued hRunning k item hItem := by
    obtain ⟨before, hBefore, hRecord, -⟩ := hRewrites.mem_keys hItem
    rw [hRecord]
    exact h.issued hRunning k before hBefore
  due item hItem := by
    have hRecord : item.record ∈ m.toDesk.items.map QueueItem.record := by
      rw [← hRewrites.items]
      exact List.mem_map_of_mem hItem
    obtain ⟨before, hBefore, hSame⟩ := List.mem_map.mp hRecord
    rw [← hSame]
    exact h.due before hBefore
  keys := by
    have hKeys : ∀ list : List QueueItem, list.map (fun item => item.record.key) =
        (list.map QueueItem.record).map FiringRecord.key := by
      intro list
      rw [List.map_map]
      rfl
    have := h.keys
    rw [hKeys] at this ⊢
    rwa [← hRewrites.items] at this
  owner k item record hItem hGet := by
    obtain ⟨before, hBefore, hRecord, hScope, hValid⟩ := hRewrites.mem_keys hItem
    rw [hRecord] at hGet ⊢
    obtain ⟨hSame, hSlot, hDispatch, hState⟩ := h.owner k before record hBefore hGet
    refine ⟨hScope.trans hSame, hSlot, hDispatch, ?_⟩
    rcases hOwner k before record hBefore hGet with hKeep | hClosed
    · rcases hState with hBeforeValid | hClosed
      · rw [hValid, hKeep, hBeforeValid]
        exact Or.inl rfl
      · exact Or.inr (hRewrites.closed k hClosed)
    · exact Or.inr hClosed
  siblings k item k' item' hItem hItem' hHandle := by
    obtain ⟨before, hBefore, hRecord, hScope, hValid⟩ := hRewrites.mem_keys hItem
    obtain ⟨before', hBefore', hRecord', hScope', hValid'⟩ := hRewrites.mem_keys hItem'
    rw [hRecord, hRecord'] at hHandle
    obtain ⟨rfl, hSameScope, hDispatch, hSameValid⟩ :=
      h.siblings k before k' before' hBefore hBefore' hHandle
    rw [hRecord, hRecord', hScope, hScope', hValid, hValid', hSameValid,
      hUniform k before before' hHandle hSameScope]
    exact ⟨rfl, hSameScope, hDispatch, rfl⟩

/-- Rewriting the scopes keeps the invariant when live timers still resolve. -/
theorem Sound.rescope (h : Sound horizon m) {scopes : Table Nat ScopeRecord}
    (hActive : ∀ id scope, scopes.get id = some scope →
      scope.active = m.timers.countP (TimerSlot.inScope id))
    (hResolves : ∀ handle record, m.getTimer handle = .ok record →
      Roster.Resolves scopes record.scope) :
    Sound horizon { m with scopes := scopes } :=
  { h with
    booked := ⟨h.booked.live, hActive⟩
    resolving := hResolves
    free := fun hRunning => ⟨(h.free hRunning).nodup, (h.free hRunning).mem⟩ }

/-! Slots. -/

/-- `m'` is `m` with slots added or bound and dispatch ids registered or removed. -/
def Rebinds (m m' : TimerManager) : Prop :=
  ∃ (d : Desk) (table : Finset DispatchId), Desk.Rewrites (fun _ _ => true) m.toDesk d ∧
    m' = { m with toDesk := d, dispatchTable := table }

theorem Rebinds.refl (m : TimerManager) : Rebinds m m :=
  ⟨m.toDesk, m.dispatchTable, Desk.rewrites_refl m.toDesk, rfl⟩

theorem Sound.rebinds (h : Sound horizon m) {m' : TimerManager} (hRebinds : Rebinds m m') :
    Sound horizon m' := by
  obtain ⟨d, table, hRewrites, rfl⟩ := hRebinds
  exact { h.rewrites hRewrites (fun _ _ _ _ _ => rfl) fun _ _ _ _ _ => Or.inl rfl with }

theorem rebinds_createSlot {slot : CallbackSlot} {m' : TimerManager}
    (hResult : m.createSlot = .ok (slot, m')) : Rebinds m m' := by
  simp only [TimerManager.createSlot, Check.then_eq_ok] at hResult
  obtain ⟨-, hResult⟩ := hResult
  split_ifs at hResult
  obtain ⟨-, rfl⟩ := Prod.mk.inj (Except.ok.inj hResult)
  exact ⟨_, m.dispatchTable, Desk.rewrites_append rfl, rfl⟩

theorem rebinds_armSlot {slot : CallbackSlot} {id : DispatchId} {m' : TimerManager}
    (hResult : m.armSlot slot id = .ok m') : Rebinds m m' := by
  simp only [TimerManager.armSlot, Check.then_eq_ok] at hResult
  obtain ⟨-, hResult⟩ := hResult
  split_ifs at hResult
  obtain ⟨s, hSlot, hResult⟩ := Check.bind_eq_ok.mp hResult
  cases hState : s.state with
  | unbound =>
      simp only [hState, Except.ok.injEq] at hResult
      subst hResult
      have hWrite : Desk.Rewrites (fun k _ => k != slot.index || true) m.toDesk
          (m.toDesk.updateSlot slot.index fun s =>
            { s with state := .armed, dispatchId := some id }) := by
        apply Desk.rewrites_updateSlot (Desk.slot_eq_ok.mp hSlot).1
        · simp
        · rw [hState]
          exact fun h => SlotState.noConfusion h
      simp only [Bool.or_true] at hWrite
      exact ⟨_, m.dispatchTable, hWrite, rfl⟩
  | armed =>
      simp only [hState] at hResult
      split_ifs at hResult
      obtain rfl := Except.ok.inj hResult
      exact Rebinds.refl m
  | closed => simp [hState] at hResult

theorem tryRegisterDispatch_eq_ok {id : DispatchId} {m' : TimerManager}
    (hResult : m.tryRegisterDispatch id = .ok m') :
    m' = { m with dispatchTable := insert id m.dispatchTable } := by
  simp only [tryRegisterDispatch, Check.then_eq_ok] at hResult
  obtain ⟨-, hResult⟩ := hResult
  split_ifs at hResult
  exact (Except.ok.inj hResult).symm

theorem rebinds_bindSlot (m : TimerManager) (slot : CallbackSlot) (id : DispatchId) :
    Rebinds m (m.bindSlot slot id).2 := by
  rw [TimerManager.bindSlot]
  cases m.checkBind slot id with
  | error failure => exact Rebinds.refl m
  | ok _ =>
      cases hRegister : m.tryRegisterDispatch id with
      | error failure => exact Rebinds.refl m
      | ok registered =>
          have hTable := tryRegisterDispatch_eq_ok hRegister
          subst hTable
          cases hArm : armSlot { m with dispatchTable := insert id m.dispatchTable } slot id with
          | error failure =>
              simp only [hArm]
              exact ⟨m.toDesk, insert id m.dispatchTable, Desk.rewrites_refl m.toDesk, rfl⟩
          | ok armed =>
              simp only [hArm]
              obtain ⟨d, table, hRewrites, rfl⟩ := rebinds_armSlot hArm
              exact ⟨d, table, hRewrites, rfl⟩

theorem closeSlot_eq_ok {slot : CallbackSlot} {m' : TimerManager}
    (hResult : m.closeSlot slot = .ok m') :
    ∃ s, m.slots[slot.index]? = some s ∧ m' = m.updateSlot slot.index fun s =>
      { s.invalidate (fun _ => true) with state := .closed } := by
  simp only [TimerManager.closeSlot, Check.then_eq_ok] at hResult
  obtain ⟨-, hResult⟩ := hResult
  obtain ⟨s, hSlot, hResult⟩ := Check.bind_eq_ok.mp hResult
  refine ⟨s, (Desk.slot_eq_ok.mp hSlot).1, ?_⟩
  cases hState : s.state <;> simp [hState] at hResult
  exact hResult.symm

theorem stateOf_updateSlot (d : Desk) (i : Nat) (f : SlotRecord → SlotRecord) (k : Nat) :
    (d.updateSlot i f).stateOf k =
      if i = k then (d.slots[k]?).map fun s => (f s).state else d.stateOf k := by
  simp only [Desk.stateOf, Desk.updateSlot, List.getElem?_modify]
  by_cases hk : i = k
  · subst hk
    cases d.slots[i]? <;> simp
  · simp [hk]

theorem rewrites_closeSlot {slot : CallbackSlot} {s : SlotRecord}
    (hSlot : m.slots[slot.index]? = some s) :
    Desk.Rewrites (fun k _ => k != slot.index || false) m.toDesk
      (m.updateSlot slot.index fun s =>
        { s.invalidate (fun _ => true) with state := .closed }).toDesk :=
  Desk.rewrites_updateSlot hSlot (by simp [SlotRecord.invalidate]) fun _ => rfl

theorem Sound.closeSlot (h : Sound horizon m) {slot : CallbackSlot} {m' : TimerManager}
    (hResult : m.closeSlot slot = .ok m') : Sound horizon m' := by
  obtain ⟨s, hSlot, rfl⟩ := closeSlot_eq_ok hResult
  apply h.rewrites (rewrites_closeSlot hSlot)
  · intro k item item' _ _
    rfl
  · intro k item record _ _
    by_cases hk : slot.index = k
    · subst hk
      right
      apply (stateOf_updateSlot m.toDesk slot.index _ slot.index).trans
      rw [if_pos rfl, hSlot]
      rfl
    · exact Or.inl (by simpa using Ne.symm hk)

/-! Scopes. -/

theorem resolveScope_eq_ok {scope : TimerScope} {s : ScopeRecord} :
    m.resolveScope scope = .ok s ↔ m.scopes.get scope.scopeId = some s ∧ s.alive = true ∧
      s.generation = scope.generation ∧ s.kind = scope.kind := by
  rw [resolveScope]
  cases hGet : m.scopes.get scope.scopeId with
  | none => simp
  | some found =>
      dsimp only
      simp only [Option.some.injEq]
      split_ifs with hAlive hGeneration hKind
      · simp only [false_iff, not_and]
        rintro rfl hTrue
        simp [hTrue] at hAlive
      · simp only [false_iff, not_and]
        rintro rfl - hSame
        exact absurd hSame hGeneration
      · simp only [false_iff, not_and]
        rintro rfl - - hSame
        exact hKind hSame
      · simp only [Except.ok.injEq]
        constructor
        · rintro rfl
          exact ⟨rfl, by simpa using hAlive, not_not.mp hGeneration, not_not.mp hKind⟩
        · exact fun h => h.1

theorem resolves_iff {scope : TimerScope} :
    (m.resolveScope scope).toOption.isSome = true ↔ Roster.Resolves m.scopes scope := by
  cases hResolve : m.resolveScope scope with
  | ok s => exact iff_of_true rfl ⟨s, resolveScope_eq_ok.mp hResolve⟩
  | error failure =>
      apply iff_of_false
      · simp [Except.toOption]
      · rintro ⟨s, hFound⟩
        rw [resolveScope_eq_ok.mpr hFound] at hResolve
        cases hResolve

/-- A scope without live timers counts none. -/
theorem countP_inScope_eq_zero {id : Nat}
    (hNone : ∀ handle record, m.getTimer handle = .ok record → record.scope.scopeId ≠ id) :
    m.timers.countP (TimerSlot.inScope id) = 0 := by
  rw [List.countP_eq_zero]
  intro t ht hScope
  obtain ⟨i, hCell⟩ := List.mem_iff_getElem?.mp ht
  cases hRecord : t.record with
  | none => simp [TimerSlot.inScope, hRecord] at hScope
  | some record =>
      exact hNone ⟨i, t.generation, m.context⟩ record
        (Roster.getTimer_eq_ok.mpr ⟨rfl, t, hCell, rfl, hRecord⟩)
        (by simpa [TimerSlot.inScope, hRecord] using hScope)

/-- Rewriting one scope that has no live timers. -/
theorem Sound.rescopeOne (h : Sound horizon m) {id : Nat} {scopes : Table Nat ScopeRecord}
    (hNone : ∀ handle record, m.getTimer handle = .ok record → record.scope.scopeId ≠ id)
    (hOther : ∀ other, other ≠ id → scopes.get other = m.scopes.get other)
    (hSelf : ∀ scope, scopes.get id = some scope → scope.active = 0) :
    Sound horizon { m with scopes := scopes } := by
  apply h.rescope
  · intro other scope hGet
    by_cases hId : other = id
    · subst hId
      rw [hSelf scope hGet, countP_inScope_eq_zero hNone]
    · rw [hOther other hId] at hGet
      exact h.booked.active other scope hGet
  · intro handle record hGet
    obtain ⟨scope, hScope, hAlive⟩ := h.resolving handle record hGet
    exact ⟨scope, (hOther _ (hNone handle record hGet)).trans hScope, hAlive⟩

/-- A scope that is not alive has no live timers. -/
theorem Sound.no_timers (h : Sound horizon m) {id : Nat}
    (hDead : ∀ scope, m.scopes.get id = some scope → scope.alive = false) :
    ∀ handle record, m.getTimer handle = .ok record → record.scope.scopeId ≠ id := by
  rintro handle record hGet rfl
  obtain ⟨scope, hScope, hAlive, -⟩ := h.resolving handle record hGet
  rw [hDead scope hScope] at hAlive
  cases hAlive

/-- Registering leaves a scope that is alive alone, and renews or adds any other. -/
theorem registerScope_eq_ok {id : Nat} {kind : ScopeKind} {scope : TimerScope}
    {m' : TimerManager} (hResult : m.registerScope id kind = .ok (scope, m')) :
    m' = m ∨ ∃ scopes : Table Nat ScopeRecord, m' = { m with scopes := scopes } ∧
      (∀ scope, m.scopes.get id = some scope → scope.alive = false) ∧
      (∀ other, other ≠ id → scopes.get other = m.scopes.get other) ∧
      ∀ scope, scopes.get id = some scope → scope.active = 0 := by
  simp only [TimerManager.registerScope, Check.then_eq_ok] at hResult
  obtain ⟨-, hResult⟩ := hResult
  split at hResult
  · rename_i found hFound
    split_ifs at hResult with hKind hAlive
    · exact Or.inl (Prod.mk.inj (Except.ok.inj hResult)).2.symm
    · right
      refine ⟨_, (Prod.mk.inj (Except.ok.inj hResult)).2.symm, ?_, ?_, ?_⟩
      · intro other hOther
        rw [hFound] at hOther
        obtain rfl := Option.some.inj hOther
        simpa using hAlive
      · intro other hOther
        exact Table.get_modify_ne _ hOther _
      · intro other hOther
        change (m.scopes.modify id _).get id = some other at hOther
        rw [Table.get_modify_self, hFound] at hOther
        obtain rfl := Option.some.inj hOther
        rfl
  · rename_i hAbsent
    split_ifs at hResult with hSize
    right
    refine ⟨_, (Prod.mk.inj (Except.ok.inj hResult)).2.symm, ?_, ?_, ?_⟩
    · intro other hOther
      rw [hAbsent] at hOther
      cases hOther
    · intro other hOther
      rw [Table.get_insert, if_neg hOther]
    · intro other hOther
      rw [Table.get_insert, if_pos rfl] at hOther
      obtain rfl := Option.some.inj hOther
      rfl

theorem Sound.registerScope (h : Sound horizon m) {id : Nat} {kind : ScopeKind}
    {scope : TimerScope} {m' : TimerManager}
    (hResult : m.registerScope id kind = .ok (scope, m')) : Sound horizon m' := by
  obtain rfl | ⟨scopes, rfl, hDead, hOther, hSelf⟩ := registerScope_eq_ok hResult
  · exact h
  · exact h.rescopeOne (h.no_timers hDead) hOther hSelf

theorem Sound.retireScopeTimers (h : Sound horizon m) (id : Nat) :
    Sound horizon (m.retireScopeTimers id) := by
  have hRetired := h.retires (Roster.retires_retireScope m.context m.toRoster id)
  apply hRetired.rewrites (Desk.rewrites_invalidate m.toDesk fun item => item.scope.scopeId == id)
  · intro k item item' _ hScope
    rw [hScope]
  · intro k item record hItem hGet
    left
    obtain ⟨-, hId⟩ := Roster.getTimer_retireScope.mp hGet
    rw [(hRetired.owner k item record hItem hGet).1]
    simpa using hId

theorem getTimer_retireScopeTimers {id : Nat} {handle : TimerHandle} {record : TimerRecord} :
    (m.retireScopeTimers id).getTimer handle = .ok record ↔
      m.getTimer handle = .ok record ∧ record.scope.scopeId ≠ id :=
  Roster.getTimer_retireScope

/-- Rewriting a scope whose timers were just retired, without touching its counter. -/
theorem Sound.retireScope_rescope (h : Sound horizon m) (id : Nat)
    {f : ScopeRecord → ScopeRecord} (hActive : ∀ scope, (f scope).active = scope.active) :
    Sound horizon ((m.retireScopeTimers id).updateScope id f) := by
  have hRetired := h.retireScopeTimers id
  have hNone : ∀ handle record, (m.retireScopeTimers id).getTimer handle = .ok record →
      record.scope.scopeId ≠ id := fun _ _ hGet => (getTimer_retireScopeTimers.mp hGet).2
  apply hRetired.rescopeOne hNone
  · intro other hOther
    exact Table.get_modify_ne _ hOther _
  · intro scope hScope
    rw [Table.get_modify_self] at hScope
    obtain ⟨before, hBefore, rfl⟩ := Option.map_eq_some_iff.mp hScope
    rw [hActive, hRetired.booked.active id before hBefore, countP_inScope_eq_zero hNone]

theorem teardownScope_eq_ok {id : Nat} {scope : TimerScope} {m' : TimerManager}
    (hResult : m.teardownScope id = .ok (scope, m')) :
    ∃ generation, m' = (m.retireScopeTimers id).updateScope id fun scope =>
      { scope with generation := generation } := by
  simp only [teardownScope, Check.then_eq_ok] at hResult
  obtain ⟨-, hResult⟩ := hResult
  cases hScope : m.scopes.get id with
  | none => simp [hScope] at hResult
  | some found =>
      simp only [hScope] at hResult
      split_ifs at hResult
      exact ⟨_, (Prod.mk.inj (Except.ok.inj hResult)).2.symm⟩

theorem destroyScope_eq_ok {id : Nat} {m' : TimerManager}
    (hResult : m.destroyScope id = .ok m') :
    m' = (m.retireScopeTimers id).updateScope id fun scope => { scope with alive := false } := by
  simp only [destroyScope, Check.then_eq_ok] at hResult
  obtain ⟨-, hResult⟩ := hResult
  split_ifs at hResult
  exact (Except.ok.inj hResult).symm

/-! Scheduling and cancelling. -/

/-- The record a successful `schedule` places. -/
def scheduledRecord (m : TimerManager) (scope : TimerScope) (due : Nat) (interval : Option Nat)
    (slot : CallbackSlot) (dispatch : DispatchId) : TimerRecord where
  scope := scope
  due := due
  interval := interval
  sequence := m.nextSequence
  slot := slot
  dispatch := dispatch
  queued := false

/-- The manager after a record was placed. -/
def placed (m : TimerManager) (record : TimerRecord) : TimerManager :=
  { m with
    toRoster :=
      { (m.toRoster.place m.context record).2.updateScope record.scope.scopeId
          (fun s => { s with active := s.active + 1 }) with
        live := m.live + 1 }
    nextSequence := m.nextSequence + 1
    schedulesThisTick := m.schedulesThisTick + 1 }

theorem schedule_eq_ok {scope : TimerScope} {due : Nat} {interval : Option Nat}
    {slot : CallbackSlot} {handle : TimerHandle} {m' : TimerManager}
    (hResult : m.schedule scope due interval slot = .ok (handle, m')) :
    m.running = true ∧ Roster.Resolves m.scopes scope ∧ m.committedTick < due ∧
      ∃ dispatch, handle =
          (m.toRoster.place m.context (m.scheduledRecord scope due interval slot dispatch)).1 ∧
        m' = m.placed (m.scheduledRecord scope due interval slot dispatch) := by
  simp only [schedule, Check.then_eq_ok] at hResult
  obtain ⟨hRunning, hResult⟩ := hResult
  obtain ⟨resolved, hScope, hResult⟩ := Check.bind_eq_ok.mp hResult
  obtain ⟨dispatch, hTarget, hResult⟩ := Check.bind_eq_ok.mp hResult
  split_ifs at hResult with hDue hLimit
  cases hNext : Word.checkedAdd Word.max64 m.nextSequence 1 with
  | none => simp [hNext] at hResult
  | some next =>
      obtain ⟨rfl, -⟩ := Word.checkedAdd_eq_some.mp hNext
      simp only [hNext, Except.ok.injEq, Prod.mk.injEq] at hResult
      exact ⟨(ensureRunning_eq_ok.mp hRunning).1, ⟨resolved, resolveScope_eq_ok.mp hScope⟩,
        Nat.not_le.mp hDue, dispatch, hResult.1.symm, hResult.2.symm⟩

theorem getTimer_placed (hFree : m.toRoster.FreeListed) (record : TimerRecord)
    (handle : TimerHandle) :
    (m.placed record).getTimer handle =
      if handle = (m.toRoster.place m.context record).1 then .ok record
      else m.getTimer handle :=
  Roster.getTimer_place hFree m.context record handle

theorem resolves_placed (hFree : m.toRoster.FreeListed) (record : TimerRecord)
    {scope : TimerScope} (h : Roster.Resolves m.scopes scope) :
    Roster.Resolves (m.placed record).scopes scope := by
  obtain ⟨s, hGet, hAlive⟩ := h
  have hScopes := (Roster.place_cases hFree m.context record).2.2.1
  change Roster.Resolves ((m.toRoster.place m.context record).2.scopes.modify _ _) scope
  rw [hScopes]
  refine ⟨_, by rw [Table.get_modify, hGet, Option.map_some], ?_⟩
  split_ifs <;> exact hAlive

theorem Sound.placed (h : Sound horizon m) (hRunning : m.running = true) {record : TimerRecord}
    (hScope : Roster.Resolves m.scopes record.scope) (hSequence : record.sequence = m.nextSequence)
    (hInterval : record.interval ≠ some 0) (hQueued : record.queued = false) :
    Sound horizon (m.placed record) := by
  have hFree := h.free hRunning
  have hGet := getTimer_placed hFree record
  have hFresh := Roster.not_issued_place hFree m.context record
  have hRead : ∀ handle other, (m.placed record).getTimer handle = .ok other →
      (handle = (m.toRoster.place m.context record).1 ∧ other = record) ∨
        m.getTimer handle = .ok other := by
    intro handle other hFound
    rw [hGet] at hFound
    split_ifs at hFound with hSame
    · exact Or.inl ⟨hSame, (Except.ok.inj hFound).symm⟩
    · exact Or.inr hFound
  exact
    { config := h.config
      booked := h.booked.place hFree m.context record
      resolving := by
        intro handle other hFound
        rcases hRead handle other hFound with ⟨-, rfl⟩ | hOld
        · exact resolves_placed hFree _ hScope
        · exact resolves_placed hFree _ (h.resolving handle other hOld)
      free := fun _ => ⟨(hFree.place m.context record).nodup, (hFree.place m.context record).mem⟩
      counted := h.counted
      sequence := by
        intro handle other hFound
        change other.sequence < m.nextSequence + 1
        rcases hRead handle other hFound with ⟨-, rfl⟩ | hOld
        · omega
        · have := h.sequence handle other hOld
          omega
      distinct := by
        intro handle handle' other other' hFound hFound' hSame
        rcases hRead handle other hFound with ⟨rfl, rfl⟩ | hOld <;>
          rcases hRead handle' other' hFound' with ⟨rfl, rfl⟩ | hOld'
        · rfl
        · have := h.sequence handle' other' hOld'
          omega
        · have := h.sequence handle other hOld
          omega
        · exact h.distinct handle handle' other other' hOld hOld' hSame
      interval := by
        intro handle other hFound
        rcases hRead handle other hFound with ⟨-, rfl⟩ | hOld
        · exact hInterval
        · exact h.interval handle other hOld
      queued := by
        intro handle other hFound hOther
        rcases hRead handle other hFound with ⟨-, rfl⟩ | hOld
        · rw [hQueued] at hOther
          cases hOther
        · exact h.queued handle other hOld hOther
      issued := fun _ k item hItem => (h.issued hRunning k item hItem).place hFree record
      due := h.due
      keys := h.keys
      owner := by
        intro k item other hItem hFound
        rcases hRead _ other hFound with ⟨hSame, -⟩ | hOld
        · exact absurd (hSame ▸ h.issued hRunning k item hItem) hFresh
        · exact h.owner k item other hItem hOld
      siblings := h.siblings }

theorem Upcoming.placed (h : Upcoming m) (hFree : m.toRoster.FreeListed) {record : TimerRecord}
    (hDue : m.committedTick < record.due) : Upcoming (m.placed record) := by
  intro handle other hFound hQueued
  rw [getTimer_placed hFree] at hFound
  split_ifs at hFound
  · obtain rfl := Except.ok.inj hFound
    exact hDue
  · exact h handle other hFound hQueued

theorem cancel_eq_ok {handle : TimerHandle} {flag : Bool} {m' : TimerManager}
    (hResult : m.cancel handle = .ok (flag, m')) :
    m' = (m.invalidate fun item => item.record.handle == handle).retire handle := by
  simp only [cancel, Check.then_eq_ok] at hResult
  obtain ⟨-, hResult⟩ := hResult
  obtain ⟨_, -, hResult⟩ := Check.bind_eq_ok.mp hResult
  exact (Prod.mk.inj (Except.ok.inj hResult)).2.symm

/-- Retiring first and invalidating then comes to the same. -/
theorem Sound.cancelled (h : Sound horizon m) (handle : TimerHandle) :
    Sound horizon ((m.invalidate fun item => item.record.handle == handle).retire handle) := by
  have hRetired := h.retires (Roster.retires_retire m.context m.toRoster handle)
  apply hRetired.rewrites
    (Desk.rewrites_invalidate m.toDesk fun item => item.record.handle == handle)
  · intro k item item' hHandle _
    rw [hHandle]
  · intro k item record _ hGet
    left
    change (m.toRoster.retire m.context handle).getTimer m.context item.record.handle = _ at hGet
    rw [Roster.getTimer_retire] at hGet
    split_ifs at hGet with hSame
    simpa using hSame

theorem getTimer_shutdown (m : TimerManager) (handle : TimerHandle) (record : TimerRecord) :
    m.shutdown.getTimer handle ≠ .ok record := by
  intro hGet
  obtain ⟨-, t, hCell, -, hRecord⟩ := Roster.getTimer_eq_ok.mp hGet
  change (m.timers.map _)[handle.index]? = some t at hCell
  rw [List.getElem?_map] at hCell
  obtain ⟨before, -, rfl⟩ := Option.map_eq_some_iff.mp hCell
  cases hRecord

theorem Sound.shutdown (h : Sound horizon m) : Sound horizon m.shutdown := by
  have hNone : ∀ p : TimerSlot → Bool, (∀ generation, p ⟨generation, none⟩ = false) →
      (m.timers.map fun t => { t with record := none }).countP p = 0 := by
    intro p hp
    rw [List.countP_eq_zero]
    intro t ht
    obtain ⟨before, -, rfl⟩ := List.mem_map.mp ht
    simp [hp]
  have hEmptied : Sound horizon
      { m with
        running := false
        timers := m.timers.map fun t => { t with record := none }
        scopes := m.scopes.map fun scope => { scope with active := 0 }
        live := 0 } :=
    { config := h.config
      booked := by
        refine ⟨(hNone _ fun _ => rfl).symm, fun id scope hGet => ?_⟩
        rw [Table.get_map] at hGet
        obtain ⟨before, -, rfl⟩ := Option.map_eq_some_iff.mp hGet
        exact (hNone _ fun _ => rfl).symm
      resolving := fun handle record hGet => absurd hGet (getTimer_shutdown m handle record)
      free := fun hRunning => Bool.noConfusion hRunning
      counted := h.counted
      sequence := fun handle record hGet => absurd hGet (getTimer_shutdown m handle record)
      distinct := fun handle _ record _ hGet => absurd hGet (getTimer_shutdown m handle record)
      interval := fun handle record hGet => absurd hGet (getTimer_shutdown m handle record)
      queued := fun handle record hGet => absurd hGet (getTimer_shutdown m handle record)
      issued := fun hRunning => Bool.noConfusion hRunning
      due := h.due
      keys := h.keys
      owner := fun _ item record _ hGet => absurd hGet (getTimer_shutdown m _ record)
      siblings := h.siblings }
  apply hEmptied.rewrites (Desk.rewrites_invalidate m.toDesk fun _ => true)
  · intro _ _ _ _ _
    rfl
  · exact fun k item record _ hGet => absurd hGet (getTimer_shutdown m _ record)

end Effects
end TimerManager
end Timer

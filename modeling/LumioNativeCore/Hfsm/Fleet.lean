import LumioNativeCore.Library.Machine
import LumioNativeCore.Library.Run
import LumioNativeCore.Hfsm.Closure
import LumioNativeCore.Hfsm.Batching

/-! Many machines under one host, which keeps their snapshots and sends their items in
batches. Each of them lives as it would alone, however the batches are cut. -/
namespace Hfsm

open Transition

/-- What a host asks of a machine; the snapshot comes from the store. -/
structure Command where
  definition : CompiledDefinition
  kind : ItemKind
  guards : GuardFrame
  scope : Option DeliveryScope
  deriving DecidableEq, Repr

def Command.item (command : Command) (key : MachineKey) (snapshot : Option Snapshot) :
    BatchItem where
  machineKey := key
  definition := command.definition
  kind := command.kind
  snapshot := snapshot
  guards := command.guards
  scope := command.scope

/-- What the host reads off a plan. The position of the item in its batch is left out. -/
structure Reply where
  outcome : Outcome
  actions : List ActionRecord
  deriving DecidableEq, Repr

def ItemPlan.reply (plan : ItemPlan) (out : PlanOutput) : Reply where
  outcome := plan.outcome
  actions := (plan.actionSlice out).map fun record => { record with itemIndex := 0 }

/-- The host stores the snapshot of an accepted plan. -/
def ItemPlan.commit (plan : ItemPlan) (paths : List ActiveState) (before : Option Snapshot) :
    Option Snapshot :=
  (Snapshot.fromPlan plan paths).or before

/-- A machine by itself: its item is evaluated in an empty scratch. -/
def Command.alone (key : MachineKey) (snapshot : Option Snapshot) (command : Command) :
    Reply × Option Snapshot :=
  let (plan, scratch) := evaluateItem 0 (command.item key snapshot) .empty
  (plan.reply ⟨[plan], scratch.paths, scratch.actions⟩, plan.commit scratch.paths snapshot)

abbrev Store := MachineKey → Option Snapshot

/-- An item of the host. -/
abbrev Order := MachineKey × Command

def Store.item (store : Store) (order : Order) : BatchItem := order.2.item order.1 (store order.1)

/-- The store after the plans of a batch have been read back. -/
def Store.commit (store : Store) (orders : List Order) (out : PlanOutput) : Store :=
  (orders.zip out.items).foldl (fun next entry =>
    Function.update next entry.1.1 (entry.2.commit out.paths (store entry.1.1))) store

def replies (orders : List Order) (out : PlanOutput) : List (Order × Reply) :=
  (orders.zip out.items).map fun entry => (entry.1, entry.2.reply out)

/-- One batch of the host, with any limits, buffers and scratch. A batch that is refused
tells nothing of its items and is put back. -/
inductive FleetStep : Store → List (Order × Reply) → Store → Prop where
  | commit (store : Store) (orders : List Order) (limits : HfsmLimits) (out : PlanOutput)
      (scratch : Scratch) (status : BatchStatus) (out' : PlanOutput) (scratch' : Scratch)
      (hTotals : Totals (orders.map store.item))
      (hBatch : evaluateBatch (orders.map store.item) limits out scratch =
        (.ok status, out', scratch')) :
      FleetStep store (replies orders out') (store.commit orders out')
  | refuse (store : Store) (orders : List Order) (limits : HfsmLimits) (out : PlanOutput)
      (scratch : Scratch) (failure : HfsmError) (out' : PlanOutput) (scratch' : Scratch)
      (hBatch : evaluateBatch (orders.map store.item) limits out scratch =
        (.error failure, out', scratch')) :
      FleetStep store [] store

/-- The snapshot that an item leads to. -/
def nextOf (item : BatchItem) : Option Snapshot :=
  match readItem item with
  | .ok (header, reading) => some (committed header reading)
  | .error _ => none

section Item

variable {item : BatchItem} {index pathStart actionStart : Nat}

theorem slice_eq_some {paths : List ActiveState} {start length : Nat}
    (h : start + length ≤ paths.length) :
    Snapshot.slice paths start (start + length) = some (Buffer.slice paths start length) := by
  rw [Snapshot.slice, if_pos ⟨Nat.le_add_right _ _, h⟩, Buffer.slice, List.drop_take,
    Nat.add_sub_cancel_left]

theorem fromPlan_planAt {paths : List ActiveState} (hStart : pathStart < 2 ^ 32)
    (hLength : (readPath item).length < 2 ^ 32)
    (hBound : pathStart + (readPath item).length ≤ paths.length)
    (hSlice : Buffer.slice paths pathStart (readPath item).length = readPath item) :
    Snapshot.fromPlan (planAt item index pathStart actionStart) paths = nextOf item := by
  rw [planAt, nextOf]
  rw [readPath] at hLength hBound hSlice
  cases hRead : readItem item with
  | error failure => rfl
  | ok read =>
      obtain ⟨header, reading⟩ := read
      simp only [hRead] at hLength hBound hSlice ⊢
      simp only [Snapshot.fromPlan, Word.asU32_of_lt hStart, Word.asU32_of_lt hLength]
      rw [slice_eq_some hBound, hSlice]
      rfl

/-- A machine by itself, by the reading of its item. -/
theorem Command.alone_eq {key : MachineKey} {snapshot : Option Snapshot} {command : Command}
    (hPath : (readPath (command.item key snapshot)).length < 2 ^ 32)
    (hActions : (readActions (command.item key snapshot, 0)).length < 2 ^ 32) :
    command.alone key snapshot =
      (⟨(planAt (command.item key snapshot) 0 0 0).outcome,
          (readActions (command.item key snapshot, 0)).map fun record =>
            { record with itemIndex := 0 }⟩,
        (nextOf (command.item key snapshot)).or snapshot) := by
  have hEvaluated : evaluateItem 0 (command.item key snapshot) .empty =
      (planAt (command.item key snapshot) 0 0 0,
        { Scratch.empty with
          paths := readPath (command.item key snapshot)
          actions := readActions (command.item key snapshot, 0)
          entered := residue (command.item key snapshot) [] }) :=
    evaluateItem_records 0 (command.item key snapshot) .empty
  have hActionStart : (planAt (command.item key snapshot) 0 0 0).actionStart = 0 :=
    (planAt_starts (command.item key snapshot) 0 0 0).2
  have hActionLen : (planAt (command.item key snapshot) 0 0 0).actionLen =
      (readActions (command.item key snapshot, 0)).length :=
    planAt_actionLen (command.item key snapshot) hActions 0 0
  have hWhole : ∀ {α : Type} (list : List α), Buffer.slice list 0 list.length = list :=
    fun list => by rw [Buffer.slice, List.drop_zero, List.take_length]
  simp only [alone, hEvaluated, ItemPlan.reply, ItemPlan.actionSlice, ItemPlan.commit, hActionStart,
    hActionLen, hWhole]
  rw [fromPlan_planAt (by decide) hPath (by rw [Nat.zero_add]) (hWhole _)]

end Item

section Fleet

variable {store store' store₀ : Store} {orders : List Order} {trace : List (List (Order × Reply))}
  {limits : HfsmLimits} {out out' : PlanOutput} {scratch scratch' : Scratch} {status : BatchStatus}

/-- Every item of an accepted batch is read back. -/
theorem zip_orders (hTotals : Totals (orders.map store.item))
    (hBatch : evaluateBatch (orders.map store.item) limits out scratch =
      (.ok status, out', scratch')) : (orders.zip out'.items).map Prod.fst = orders := by
  obtain ⟨hWritten, hRoom, -, -⟩ := written_of_accepted hTotals hBatch
  apply List.map_fst_zip
  rw [hWritten, PlanOutput.written, Buffer.length_overwrite hRoom.plans]
  simpa [length_batchPlans] using hRoom.plans

/-- What an accepted batch does for its items is what each of them does alone. -/
theorem readBack_alone (hTotals : Totals (orders.map store.item))
    (hBatch : evaluateBatch (orders.map store.item) limits out scratch =
      (.ok status, out', scratch')) {i : Nat} {order : Order} (hOrder : orders[i]? = some order) :
    ∃ plan, out'.items[i]? = some plan ∧
      (plan.reply out', plan.commit out'.paths (store order.1)) =
        order.2.alone order.1 (store order.1) := by
  have hItem : (orders.map store.item)[i]? = some (store.item order) := by
    rw [List.getElem?_map, hOrder]
    rfl
  obtain ⟨hWritten, hRoom, -, -⟩ := written_of_accepted hTotals hBatch
  obtain ⟨plan, hPlan, hSpec, hPath, hActions⟩ := item_of_accepted hTotals hBatch hItem
  have hPaths := Buffer.start_le readPath hItem
  have hRecords := Buffer.start_le readActions (entry_of_getElem? hItem)
  have hTotalPaths := hTotals.paths
  have hTotalActions := hTotals.actions
  rw [batchPaths] at hTotalPaths
  rw [batchActions] at hTotalActions
  have hLength := readActions_length (store.item order) 0 i
  rw [Command.alone_eq (show (readPath (store.item order)).length < 2 ^ 32 by omega)
    (show (readActions (store.item order, 0)).length < 2 ^ 32 by omega)]
  refine ⟨plan, hPlan, Prod.ext (congrArg₂ Reply.mk ?_ ?_) ?_⟩
  · rw [hSpec]
    exact (planAt_outcome (store.item order) _ _ _ _ _ _).1
  · rw [hActions, readActions_reindex (store.item order) i 0, List.map_map]
    rfl
  · have hPathLen := (planAt_lengths hTotals hItem i
      (Buffer.start readPath (orders.map store.item) i)
      (Buffer.start readActions (orders.map store.item).zipIdx i)).1
    have hPathStart := (planAt_starts (store.item order) (Word.asU32 i)
      (Buffer.start readPath (orders.map store.item) i)
      (Buffer.start readActions (orders.map store.item).zipIdx i)).1
    rw [(start_of_accepted hTotals hItem).1] at hPathStart
    have hRoomy : (batchPaths (orders.map store.item)).length ≤ out'.paths.length := by
      rw [hWritten, PlanOutput.written, Buffer.length_overwrite hRoom.paths]
      exact hRoom.paths
    rw [batchPaths] at hRoomy
    rw [ItemPlan.pathSlice, hSpec, hPathStart, hPathLen] at hPath
    show (Snapshot.fromPlan plan out'.paths).or (store order.1) =
      (nextOf (store.item order)).or (store order.1)
    rw [hSpec, fromPlan_planAt (by omega) (by omega) (by omega) hPath]

/-- A host that reads a batch back has done what its machines would have done one by one. -/
theorem FleetStep.run_keyed {log : List (Order × Reply)} (hStep : FleetStep store log store') :
    Machine.run (Machine.keyed Command.alone) store (log.map Prod.fst) = (log, store') := by
  cases hStep with
  | refuse orders limits out scratch failure out' scratch' hBatch => rfl
  | commit orders limits out scratch status out' scratch' hTotals hBatch =>
      have hAlone : ∀ entry ∈ orders.zip out'.items,
          (entry.2.reply out', entry.2.commit out'.paths (store entry.1.1)) =
            entry.1.2.alone entry.1.1 (store entry.1.1) := by
        intro entry hEntry
        obtain ⟨i, hIndex⟩ := List.mem_iff_getElem?.mp hEntry
        obtain ⟨hOrder, hItem⟩ := List.getElem?_zip_eq_some.mp hIndex
        obtain ⟨plan, hPlan, hSame⟩ := readBack_alone hTotals hBatch hOrder
        obtain rfl := Option.some.inj (hPlan.symm.trans hItem)
        exact hSame
      have hOrders := zip_orders hTotals hBatch
      have hLog : replies orders out' =
          orders.map fun order => (order, (order.2.alone order.1 (store order.1)).1) := by
        conv_rhs => rw [← hOrders, List.map_map]
        exact List.map_congr_left fun entry hEntry =>
          congrArg (entry.1, ·) (congrArg Prod.fst (hAlone entry hEntry))
      have hStore : store.commit orders out' = orders.foldl (fun next order =>
          Function.update next order.1 (order.2.alone order.1 (store order.1)).2) store := by
        conv_rhs => rw [← hOrders, List.foldl_map]
        exact List.foldl_ext _ _ _ fun next entry hEntry =>
          congrArg (Function.update next entry.1.1) (congrArg Prod.snd (hAlone entry hEntry))
      have hKeys : (orders.map Prod.fst).Nodup := by
        obtain ⟨-, -, hAdmissible, -⟩ := written_of_accepted hTotals hBatch
        have hDistinct := hAdmissible.distinct
        rwa [List.map_map] at hDistinct
      have hAsked : (replies orders out').map Prod.fst = orders := by
        rw [replies, List.map_map]
        exact hOrders
      rw [hAsked, Machine.run_keyed_nodup Command.alone hKeys fun _ _ => rfl, hLog, hStore]

/-- The same for all batches of a host. -/
theorem run_keyed_of_run (run : Run FleetStep store₀ trace store) :
    Machine.run (Machine.keyed Command.alone) store₀ (trace.flatten.map Prod.fst) =
      (trace.flatten, store) := by
  induction run with
  | nil => rfl
  | snoc prior hStep ih =>
      rw [List.flatten_append, List.flatten_singleton, List.map_append, Machine.run_append, ih,
        hStep.run_keyed]

/-- Every machine of a fleet lives as it would alone: whatever batches a host sends, with
whatever limits, buffers and scratch, and however many of them are refused, the snapshot that it
keeps of a machine and all replies are those of the machine's own items one by one. Two hosts
that ask each machine for the same therefore end with the same store and the same replies. -/
theorem fleet_schedule (run : Run FleetStep store₀ trace store) :
    (∀ key, Machine.run (Command.alone key) (store₀ key)
        ((Machine.ownLog key trace.flatten).map Prod.fst) =
      (Machine.ownLog key trace.flatten, store key)) ∧
    ∀ trace' store', Run FleetStep store₀ trace' store' →
      (∀ key, (Machine.ownLog key trace'.flatten).map Prod.fst =
        (Machine.ownLog key trace.flatten).map Prod.fst) →
      store' = store ∧
        ∀ key, Machine.ownLog key trace'.flatten = Machine.ownLog key trace.flatten := by
  have hOwn : ∀ {trace : List (List (Order × Reply))} {store : Store},
      Run FleetStep store₀ trace store → ∀ key, Machine.run (Command.alone key) (store₀ key)
        ((Machine.ownLog key trace.flatten).map Prod.fst) =
          (Machine.ownLog key trace.flatten, store key) := by
    intro trace store run key
    have hKey := Machine.run_keyed Command.alone store₀ (trace.flatten.map Prod.fst) key
    rwa [Machine.ownCalls_map, run_keyed_of_run run] at hKey
  refine ⟨hOwn run, fun trace' store' run' hSame => ?_⟩
  have hBoth : ∀ key, (Machine.ownLog key trace'.flatten, store' key) =
      (Machine.ownLog key trace.flatten, store key) := by
    intro key
    rw [← hOwn run' key, hSame key, hOwn run key]
  exact ⟨funext fun key => (Prod.mk.inj (hBoth key)).2, fun key => (Prod.mk.inj (hBoth key)).1⟩

end Fleet

/-- The command of the boundary item, for two machines. -/
def boundaryOrders : List Order :=
  [2, boundaryItem.machineKey].map fun key => (key, ⟨boundaryItem.definition, boundaryItem.kind,
    boundaryItem.guards, boundaryItem.scope⟩)

/-- Two machines in one batch, one of which has the snapshot of the other. -/
theorem fleet_schedule_pair : ∃ trace store,
    Run FleetStep (fun _ => boundaryItem.snapshot) trace store ∧
      trace.flatten.map Prod.fst = boundaryOrders ∧
      ∀ key, Machine.run (Command.alone key) boundaryItem.snapshot
          ((Machine.ownLog key trace.flatten).map Prod.fst) =
        (Machine.ownLog key trace.flatten, store key) := by
  obtain ⟨status, out', scratch', hBatch⟩ := pairBatch_accepted
  have hTotals : Totals (boundaryOrders.map (Store.item fun _ => boundaryItem.snapshot)) :=
    pairBatch_totals
  have hRun := Run.single (FleetStep.commit _ boundaryOrders _ _ _ _ _ _ hTotals hBatch)
  refine ⟨_, _, hRun, ?_, (fleet_schedule hRun).1⟩
  rw [List.flatten_singleton, replies, List.map_map]
  exact zip_orders hTotals hBatch

end Hfsm

import Padll.Libc

/-! Statistics containers: counters in class order, updated by operation number, and the five
containers that either backend keeps. -/
namespace Padll

structure StatisticEntry where
  entryName : String := ""
  operationCounter : UInt64 := 0
  byteCounter : UInt64 := 0
  errorCounter : UInt64 := 0
  bypassCounter : UInt64 := 0
  deriving DecidableEq, Repr

namespace StatisticEntry

def incrementOperationCounter (e : StatisticEntry) (count : UInt64) : StatisticEntry :=
  { e with operationCounter := e.operationCounter + count }

def incrementByteCounter (e : StatisticEntry) (bytes : UInt64) : StatisticEntry :=
  { e with byteCounter := e.byteCounter + bytes }

def incrementErrorCounter (e : StatisticEntry) (count : UInt64) : StatisticEntry :=
  { e with errorCounter := e.errorCounter + count }

def incrementBypassCounter (e : StatisticEntry) (count : UInt64) : StatisticEntry :=
  { e with bypassCounter := e.bypassCounter + count }

end StatisticEntry

structure Statistics where
  statsIdentifier : String := "stats"
  statsSize : Int32 := 0
  statisticEntries : List StatisticEntry := []
  deriving DecidableEq

namespace Statistics

/-- Set the size and append one zero entry for each operation of the class. -/
def initializeEntries (s : Statistics) (type : OperationType) : Statistics :=
  { s with
    statsSize := Int32.ofNat type.values.length
    statisticEntries := s.statisticEntries ++
      type.values.map fun operation => { entryName := operation.name } }

def ofType (identifier : String) (type : OperationType) : Statistics :=
  initializeEntries { statsIdentifier := identifier } type

/-- Position of an operation number, `none` where C++ leaves the indexing undefined. -/
def position (s : Statistics) (operation : Int32) : Option Nat :=
  if s.statsSize = 0 ∨ operation % s.statsSize < 0 then none
  else some (operation % s.statsSize).toNatClampNeg

def getStatisticEntry (s : Statistics) (operation : Int32) : Option StatisticEntry :=
  (s.position operation).bind (s.statisticEntries[·]?)

def modifyEntry (s : Statistics) (operation : Int32) (f : StatisticEntry → StatisticEntry) :
    Statistics :=
  match s.position operation with
  | some position => { s with statisticEntries := s.statisticEntries.modify position f }
  | none => s

def updateStatisticEntry (s : Statistics) (operation : Int32) (operationValue byteValue : UInt64) :
    Statistics :=
  s.modifyEntry operation fun e =>
    (e.incrementOperationCounter operationValue).incrementByteCounter byteValue

def updateStatisticEntryWithError (s : Statistics) (operation : Int32)
    (operationValue byteValue errorValue : UInt64) : Statistics :=
  s.modifyEntry operation fun e =>
    ((e.incrementOperationCounter operationValue).incrementByteCounter byteValue)
      |>.incrementErrorCounter errorValue

def updateBypassedStatisticEntry (s : Statistics) (operation : Int32) (bypassValue : UInt64) :
    Statistics :=
  s.modifyEntry operation fun e => e.incrementBypassCounter bypassValue

/-- Exactly the entries of one class, in order, with the class's size. -/
structure Holds (s : Statistics) (type : OperationType) : Prop where
  size : s.statsSize = Int32.ofNat type.values.length
  names : s.statisticEntries.map (·.entryName) = type.values.map (·.name)

theorem holds_ofType (identifier : String) (type : OperationType) :
    (ofType identifier type).Holds type where
  size := rfl
  names := by simp [ofType, initializeEntries]

theorem Holds.length {s : Statistics} {type : OperationType} (h : s.Holds type) :
    s.statisticEntries.length = type.values.length := by
  simpa using congrArg List.length h.names

theorem Holds.position {s : Statistics} {op : Operation} (h : s.Holds op.type) :
    s.position op.toInt = some op.toInt.toNatClampNeg := by
  rw [Statistics.position, h.size]
  cases op with
  | metadata o => cases o <;> rfl
  | data o => cases o <;> rfl
  | directory o => cases o <;> rfl
  | extAttr o => cases o <;> rfl
  | special o => cases o <;> rfl

theorem Holds.get {s : Statistics} {op : Operation} (h : s.Holds op.type) :
    s.getStatisticEntry op.toInt = s.statisticEntries[op.toInt.toNatClampNeg]? := by
  rw [getStatisticEntry, h.position, Option.bind_some]

theorem Holds.get_isSome {s : Statistics} {op : Operation} (h : s.Holds op.type) :
    (s.getStatisticEntry op.toInt).isSome := by
  have hv := OperationType.values_toInt op
  obtain ⟨hlt, -⟩ := List.getElem?_eq_some_iff.mp hv
  rw [h.get, List.getElem?_eq_getElem (h.length ▸ hlt), Option.isSome_some]

/-- A projection that a modification keeps stays the same along the list. -/
private theorem map_modify {f : StatisticEntry → StatisticEntry} {g : StatisticEntry → String}
    (h : ∀ e, g (f e) = g e) (entries : List StatisticEntry) (position : Nat) :
    (entries.modify position f).map g = entries.map g := by
  induction entries generalizing position with
  | nil => rw [List.modify_nil]
  | cons e entries ih =>
    cases position with
    | zero => rw [List.modify_zero_cons, List.map_cons, List.map_cons, h]
    | succ position => rw [List.modify_succ_cons, List.map_cons, List.map_cons, ih]

theorem modifyEntry_statsSize (s : Statistics) (operation : Int32)
    (f : StatisticEntry → StatisticEntry) : (s.modifyEntry operation f).statsSize = s.statsSize := by
  unfold modifyEntry
  split <;> rfl

theorem modifyEntry_names (s : Statistics) (operation : Int32)
    {f : StatisticEntry → StatisticEntry} (hf : ∀ e, (f e).entryName = e.entryName) :
    (s.modifyEntry operation f).statisticEntries.map (·.entryName) =
      s.statisticEntries.map (·.entryName) := by
  unfold modifyEntry
  split
  · exact map_modify hf s.statisticEntries _
  · rfl

theorem modifyEntry_holds {s : Statistics} {type : OperationType} (h : s.Holds type)
    (operation : Int32) {f : StatisticEntry → StatisticEntry}
    (hf : ∀ e, (f e).entryName = e.entryName) : (s.modifyEntry operation f).Holds type where
  size := (s.modifyEntry_statsSize operation f).trans h.size
  names := (s.modifyEntry_names operation hf).trans h.names

/-- Modifying the entry of one operation leaves the entries of the others alone. -/
theorem get_modifyEntry {s : Statistics} {op op' : Operation} (h : s.Holds op.type)
    (htype : op'.type = op.type) (f : StatisticEntry → StatisticEntry)
    (hf : (s.modifyEntry op.toInt f).Holds op.type) :
    (s.modifyEntry op.toInt f).getStatisticEntry op'.toInt =
      if op' = op then (s.getStatisticEntry op'.toInt).map f
      else s.getStatisticEntry op'.toInt := by
  rw [Holds.get (htype ▸ hf), Holds.get (htype ▸ h), modifyEntry, h.position]
  simp only [List.getElem?_modify]
  by_cases ho : op' = op
  · simp [ho]
  · have hne : op.toInt.toNatClampNeg ≠ op'.toInt.toNatClampNeg := fun e =>
      ho (Operation.toInt_inj htype e.symm)
    simp [ho, hne]

end Statistics

/-- What one call adds to its own entry. -/
inductive StatisticUpdate where
  | counted (bytes : UInt64)
  | failed
  | bypassed
  deriving DecidableEq, Repr

namespace StatisticUpdate

def applyEntry : StatisticUpdate → StatisticEntry → StatisticEntry
  | counted bytes, e => (e.incrementOperationCounter 1).incrementByteCounter bytes
  | failed, e => ((e.incrementOperationCounter 1).incrementByteCounter 0).incrementErrorCounter 1
  | bypassed, e => e.incrementBypassCounter 1

def operations : StatisticUpdate → UInt64
  | counted _ | failed => 1
  | bypassed => 0

def bytes : StatisticUpdate → UInt64
  | counted bytes => bytes
  | failed | bypassed => 0

def errors : StatisticUpdate → UInt64
  | failed => 1
  | counted _ | bypassed => 0

def bypasses : StatisticUpdate → UInt64
  | bypassed => 1
  | counted _ | failed => 0

@[simp] theorem applyEntry_operationCounter (u : StatisticUpdate) (e : StatisticEntry) :
    (u.applyEntry e).operationCounter = e.operationCounter + u.operations := by
  cases u <;> simp [applyEntry, operations, StatisticEntry.incrementOperationCounter,
    StatisticEntry.incrementByteCounter, StatisticEntry.incrementErrorCounter,
    StatisticEntry.incrementBypassCounter]

@[simp] theorem applyEntry_byteCounter (u : StatisticUpdate) (e : StatisticEntry) :
    (u.applyEntry e).byteCounter = e.byteCounter + u.bytes := by
  cases u <;> simp [applyEntry, bytes, StatisticEntry.incrementOperationCounter,
    StatisticEntry.incrementByteCounter, StatisticEntry.incrementErrorCounter,
    StatisticEntry.incrementBypassCounter]

@[simp] theorem applyEntry_errorCounter (u : StatisticUpdate) (e : StatisticEntry) :
    (u.applyEntry e).errorCounter = e.errorCounter + u.errors := by
  cases u <;> simp [applyEntry, errors, StatisticEntry.incrementOperationCounter,
    StatisticEntry.incrementByteCounter, StatisticEntry.incrementErrorCounter,
    StatisticEntry.incrementBypassCounter]

@[simp] theorem applyEntry_bypassCounter (u : StatisticUpdate) (e : StatisticEntry) :
    (u.applyEntry e).bypassCounter = e.bypassCounter + u.bypasses := by
  cases u <;> simp [applyEntry, bypasses, StatisticEntry.incrementOperationCounter,
    StatisticEntry.incrementByteCounter, StatisticEntry.incrementErrorCounter,
    StatisticEntry.incrementBypassCounter]

@[simp] theorem applyEntry_entryName (u : StatisticUpdate) (e : StatisticEntry) :
    (u.applyEntry e).entryName = e.entryName := by
  cases u <;> rfl

/-- Every update counts one call, as an operation or as a bypass. -/
theorem operations_add_bypasses (u : StatisticUpdate) : u.operations + u.bypasses = 1 := by
  cases u <;> rfl

/-- No update leaves an entry as it was. -/
theorem applyEntry_ne (u : StatisticUpdate) (e : StatisticEntry) : u.applyEntry e ≠ e := by
  intro h
  have hop := congrArg StatisticEntry.operationCounter h
  have hby := congrArg StatisticEntry.bypassCounter h
  rw [applyEntry_operationCounter, UInt64.add_eq_left] at hop
  rw [applyEntry_bypassCounter, UInt64.add_eq_left] at hby
  have hone := u.operations_add_bypasses
  rw [hop, hby] at hone
  exact absurd hone (by decide)

end StatisticUpdate

/-- A container known to hold one class. -/
def ClassStatistics (type : OperationType) := { s : Statistics // s.Holds type }

namespace ClassStatistics
variable {type : OperationType}

def ofType (identifier : String) (type : OperationType) : ClassStatistics type :=
  ⟨Statistics.ofType identifier type, Statistics.holds_ofType identifier type⟩

def updateStatisticEntry (s : ClassStatistics type) (operation : Int32)
    (operationValue byteValue : UInt64) : ClassStatistics type :=
  ⟨s.1.updateStatisticEntry operation operationValue byteValue,
    Statistics.modifyEntry_holds s.2 operation fun _ => rfl⟩

def updateStatisticEntryWithError (s : ClassStatistics type) (operation : Int32)
    (operationValue byteValue errorValue : UInt64) : ClassStatistics type :=
  ⟨s.1.updateStatisticEntryWithError operation operationValue byteValue errorValue,
    Statistics.modifyEntry_holds s.2 operation fun _ => rfl⟩

def updateBypassedStatisticEntry (s : ClassStatistics type) (operation : Int32)
    (bypassValue : UInt64) : ClassStatistics type :=
  ⟨s.1.updateBypassedStatisticEntry operation bypassValue,
    Statistics.modifyEntry_holds s.2 operation fun _ => rfl⟩

def record (s : ClassStatistics type) (operation : Int32) : StatisticUpdate → ClassStatistics type
  | .counted bytes => s.updateStatisticEntry operation 1 bytes
  | .failed => s.updateStatisticEntryWithError operation 1 0 1
  | .bypassed => s.updateBypassedStatisticEntry operation 1

theorem record_val (s : ClassStatistics type) (operation : Int32) (u : StatisticUpdate) :
    (s.record operation u).1 = s.1.modifyEntry operation u.applyEntry := by
  cases u <;> rfl

theorem get_record {op op' : Operation} (s : ClassStatistics op.type) (u : StatisticUpdate)
    (htype : op'.type = op.type) :
    (s.record op.toInt u).1.getStatisticEntry op'.toInt =
      if op' = op then (s.1.getStatisticEntry op'.toInt).map u.applyEntry
      else s.1.getStatisticEntry op'.toInt := by
  have hh := (s.record op.toInt u).2
  rw [record_val] at hh ⊢
  exact Statistics.get_modifyEntry s.2 htype u.applyEntry hh

end ClassStatistics

/-- The five containers of a backend. -/
structure CallStatistics where
  metadataStats : ClassStatistics .metadataCalls := .ofType "metadata" .metadataCalls
  dataStats : ClassStatistics .dataCalls := .ofType "data" .dataCalls
  dirStats : ClassStatistics .directoryCalls := .ofType "directory" .directoryCalls
  extAttrStats : ClassStatistics .extAttrCalls := .ofType "ext-attr" .extAttrCalls
  specialStats : ClassStatistics .specialCalls := .ofType "special" .specialCalls

namespace CallStatistics

def container (s : CallStatistics) : (type : OperationType) → ClassStatistics type
  | .metadataCalls => s.metadataStats
  | .dataCalls => s.dataStats
  | .directoryCalls => s.dirStats
  | .extAttrCalls => s.extAttrStats
  | .specialCalls => s.specialStats

def getStatisticEntry (s : CallStatistics) (type : OperationType) (operation : Int32) :
    Option StatisticEntry :=
  (s.container type).1.getStatisticEntry operation

/-- The entry named after an operation. -/
def entry (s : CallStatistics) (op : Operation) : StatisticEntry :=
  (s.getStatisticEntry op.type op.toInt).getD {}

/-- Apply an update to the entry named after an operation. -/
def record (s : CallStatistics) (op : Operation) (u : StatisticUpdate) : CallStatistics :=
  match op with
  | .metadata o => { s with metadataStats := s.metadataStats.record o.toInt u }
  | .data o => { s with dataStats := s.dataStats.record o.toInt u }
  | .directory o => { s with dirStats := s.dirStats.record o.toInt u }
  | .extAttr o => { s with extAttrStats := s.extAttrStats.record o.toInt u }
  | .special o => { s with specialStats := s.specialStats.record o.toInt u }

theorem container_record_same (s : CallStatistics) (op : Operation) (u : StatisticUpdate) :
    (s.record op u).container op.type = (s.container op.type).record op.toInt u := by
  cases op <;> rfl

theorem container_record_other (s : CallStatistics) {op : Operation} {type : OperationType}
    (h : type ≠ op.type) (u : StatisticUpdate) :
    (s.record op u).container type = s.container type := by
  cases op <;> cases type <;> first | rfl | exact absurd rfl h

theorem getStatisticEntry_eq (s : CallStatistics) (op : Operation) :
    s.getStatisticEntry op.type op.toInt = some (s.entry op) := by
  have h := Statistics.Holds.get_isSome (s.container op.type).2
  obtain ⟨e, he⟩ := Option.isSome_iff_exists.mp h
  rw [entry, getStatisticEntry, he, Option.getD_some]

/-- An update reaches the entry named after its operation and no other. -/
theorem entry_record (s : CallStatistics) (op op' : Operation) (u : StatisticUpdate) :
    (s.record op u).entry op' = if op' = op then u.applyEntry (s.entry op') else s.entry op' := by
  by_cases htype : op'.type = op.type
  · have hget : (s.record op u).getStatisticEntry op'.type op'.toInt =
        if op' = op then (s.getStatisticEntry op'.type op'.toInt).map u.applyEntry
        else s.getStatisticEntry op'.type op'.toInt := by
      rw [getStatisticEntry, getStatisticEntry, htype, container_record_same]
      exact ClassStatistics.get_record _ u htype
    rw [entry, hget, getStatisticEntry_eq]
    split <;> rfl
  · have hne : op' ≠ op := fun e => htype (congrArg Operation.type e)
    rw [if_neg hne, entry, getStatisticEntry, container_record_other s htype]
    rfl

/-- Fresh containers count from zero under the operation's name. -/
theorem entry_default (op : Operation) :
    ({} : CallStatistics).entry op = { entryName := op.name } := by
  cases op with
  | metadata o => cases o <;> rfl
  | data o => cases o <;> rfl
  | directory o => cases o <;> rfl
  | extAttr o => cases o <;> rfl
  | special o => cases o <;> rfl

end CallStatistics

end Padll

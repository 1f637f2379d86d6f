import Padll.Library.ThreadPrograms
import Padll.StatisticsInitialization

/-! Threads that update one statistics container at a time: each call is its increments, every
one of them under the lock of its entry, and other calls' increments come in between. -/
namespace Padll
open Interleaving ThreadPrograms

inductive Counter where
  | operation
  | byte
  | error
  | bypass
  deriving DecidableEq, Repr

namespace StatisticEntry

def counter (e : StatisticEntry) : Counter → UInt64
  | .operation => e.operationCounter
  | .byte => e.byteCounter
  | .error => e.errorCounter
  | .bypass => e.bypassCounter

/-- Every counter raised by an amount, modulo 2^64. -/
def raised (e : StatisticEntry) (amounts : Counter → Nat) : StatisticEntry where
  entryName := e.entryName
  operationCounter := e.operationCounter + UInt64.ofNat (amounts .operation)
  byteCounter := e.byteCounter + UInt64.ofNat (amounts .byte)
  errorCounter := e.errorCounter + UInt64.ofNat (amounts .error)
  bypassCounter := e.bypassCounter + UInt64.ofNat (amounts .bypass)

theorem raised_counter (e : StatisticEntry) (amounts : Counter → Nat) (c : Counter) :
    (e.raised amounts).counter c = e.counter c + UInt64.ofNat (amounts c) := by
  cases c <;> rfl

theorem ext_counter {e e' : StatisticEntry} (hname : e.entryName = e'.entryName)
    (hcounter : ∀ c, e.counter c = e'.counter c) : e = e' := by
  cases e
  cases e'
  simp only [mk.injEq]
  exact ⟨hname, hcounter .operation, hcounter .byte, hcounter .error, hcounter .bypass⟩

end StatisticEntry

/-- One increment of one counter, an atomic step under the lock of the entry. -/
structure CounterIncrement where
  counter : Counter
  amount : UInt64
  deriving DecidableEq, Repr

namespace CounterIncrement

def apply (i : CounterIncrement) (e : StatisticEntry) : StatisticEntry :=
  match i.counter with
  | .operation => e.incrementOperationCounter i.amount
  | .byte => e.incrementByteCounter i.amount
  | .error => e.incrementErrorCounter i.amount
  | .bypass => e.incrementBypassCounter i.amount

theorem apply_entryName (i : CounterIncrement) (e : StatisticEntry) :
    (i.apply e).entryName = e.entryName := by
  unfold apply
  split <;> rfl

theorem apply_counter (i : CounterIncrement) (e : StatisticEntry) (c : Counter) :
    (i.apply e).counter c = if i.counter = c then e.counter c + i.amount else e.counter c := by
  obtain ⟨counter, amount⟩ := i
  cases counter <;> cases c <;> rfl

end CounterIncrement

/-- The calls that update an entry, by operation number. -/
inductive EntryUpdate where
  | updateStatisticEntry (operationType : Int32) (operationValue byteValue : UInt64)
  | updateStatisticEntryWithError (operationType : Int32)
    (operationValue byteValue errorValue : UInt64)
  | updateBypassedStatisticEntry (operationType : Int32) (bypassValue : UInt64)
  deriving DecidableEq, Repr

namespace EntryUpdate

def operationType : EntryUpdate → Int32
  | updateStatisticEntry operationType _ _
  | updateStatisticEntryWithError operationType _ _ _
  | updateBypassedStatisticEntry operationType _ => operationType

/-- The whole call, as one thread alone performs it. -/
def apply (s : Statistics) : EntryUpdate → Statistics
  | updateStatisticEntry operationType operationValue byteValue =>
    s.updateStatisticEntry operationType operationValue byteValue
  | updateStatisticEntryWithError operationType operationValue byteValue errorValue =>
    s.updateStatisticEntryWithError operationType operationValue byteValue errorValue
  | updateBypassedStatisticEntry operationType bypassValue =>
    s.updateBypassedStatisticEntry operationType bypassValue

/-- The increments of a call in order, none of them under a lock of the container. -/
def increments : EntryUpdate → List CounterIncrement
  | updateStatisticEntry _ operationValue byteValue =>
    [⟨.operation, operationValue⟩, ⟨.byte, byteValue⟩]
  | updateStatisticEntryWithError _ operationValue byteValue errorValue =>
    [⟨.operation, operationValue⟩, ⟨.byte, byteValue⟩, ⟨.error, errorValue⟩]
  | updateBypassedStatisticEntry _ bypassValue => [⟨.bypass, bypassValue⟩]

/-- What a call adds to a counter of its entry. -/
def amount : EntryUpdate → Counter → UInt64
  | updateStatisticEntry _ operationValue _, .operation
  | updateStatisticEntryWithError _ operationValue _ _, .operation => operationValue
  | updateStatisticEntry _ _ byteValue, .byte
  | updateStatisticEntryWithError _ _ byteValue _, .byte => byteValue
  | updateStatisticEntryWithError _ _ _ errorValue, .error => errorValue
  | updateBypassedStatisticEntry _ bypassValue, .bypass => bypassValue
  | _, _ => 0

/-- The increments with the operation number that each of them is performed for. -/
def steps (u : EntryUpdate) : List (Int32 × CounterIncrement) :=
  u.increments.map fun i => (u.operationType, i)

end EntryUpdate

namespace Statistics

/-- The position is calculated anew for each increment, from a size no update changes. -/
def increment (s : Statistics) (step : Int32 × CounterIncrement) : Statistics :=
  s.modifyEntry step.1 step.2.apply

/-- A container, and the increments that the calls of each thread still are to perform. -/
abbrev Updates (Tid : Type) := System Tid (Int32 × CounterIncrement) Statistics

section Threads
variable {Tid : Type}

def startUpdates (s : Statistics) (calls : Tid → List EntryUpdate) : Updates Tid where
  shared := s
  rest t := (calls t).flatMap EntryUpdate.steps

/-- One thread performs one increment. -/
def nextUpdate [DecidableEq Tid] : Updates Tid → Tid → Option (Updates Tid) :=
  System.next fun step s => s.increment step

variable [Fintype Tid]

/-- What all calls addressed to an entry add to one of its counters. -/
def addressed (s : Statistics) (calls : Tid → List EntryUpdate) (i : Nat) (c : Counter) : Nat :=
  ∑ t, (((calls t).filter fun u => s.position u.operationType = some i).map
    fun u => (u.amount c).toNat).sum

/-- Every counter of every entry raised by what the calls addressed to the entry add to it. -/
def counted (s : Statistics) (calls : Tid → List EntryUpdate) : Statistics :=
  { s with statisticEntries := s.statisticEntries.mapIdx fun i e => e.raised (s.addressed calls i) }

end Threads

end Statistics

namespace Statistics

theorem position_congr {s s' : Statistics} (h : s'.statsSize = s.statsSize) (operation : Int32) :
    s'.position operation = s.position operation := by
  rw [position, position, h]

theorem modifyEntry_modifyEntry (s : Statistics) (operation : Int32)
    (f g : StatisticEntry → StatisticEntry) :
    (s.modifyEntry operation f).modifyEntry operation g = s.modifyEntry operation (g ∘ f) := by
  rw [modifyEntry, position_congr (s.modifyEntry_statsSize operation f)]
  unfold modifyEntry
  cases s.position operation with
  | none => rfl
  | some position =>
    simp only [List.modify_modify_eq]

/-- Reduced by the size, every operation number from zero on names one of the entries. -/
theorem InitializedWith.position_lt {s : Statistics} {types : List OperationType}
    (h : s.InitializedWith types) (hne : types ≠ []) {operation : Int32} (hop : 0 ≤ operation) :
    ∃ i, s.position operation = some i ∧ i < s.statisticEntries.length := by
  obtain ⟨earlier, type, rfl⟩ := (List.eq_nil_or_concat' types).resolve_left hne
  have hsize : s.statsSize.toInt = type.values.length := by
    rw [h.size, List.getLast?_concat, Option.elim_some, values_length_toInt]
  have hpos : (0 : Int) < type.values.length := Int.ofNat_lt.mpr (values_length_pos type)
  have hlength : type.values.length ≤ s.statisticEntries.length := by
    have hnames := congrArg List.length h.names
    simp only [List.length_map, List.flatMap_append, List.flatMap_singleton, List.length_append]
      at hnames
    omega
  have hmod : (operation % s.statsSize).toInt = operation.toInt % type.values.length := by
    rw [Int32.toInt_mod, hsize]
    exact Int.tmod_eq_emod_of_nonneg (Int32.le_iff_toInt_le.mp hop)
  have hlo := Int.emod_nonneg operation.toInt hpos.ne'
  have hhi := Int.emod_lt_of_pos operation.toInt hpos
  refine ⟨(operation % s.statsSize).toNatClampNeg, if_neg ?_, ?_⟩
  · rintro (hzero | hneg)
    · rw [hzero] at hsize
      exact hpos.ne hsize
    · rw [Int32.lt_iff_toInt_lt, hmod] at hneg
      exact hlo.not_gt hneg
  · rw [← Int32.toNat_toInt, hmod]
    omega

end Statistics

namespace EntryUpdate

/-- The increments of a call, with none of another thread in between, make up the call. -/
theorem apply_eq_steps (u : EntryUpdate) (s : Statistics) :
    u.apply s = u.steps.foldl Statistics.increment s := by
  cases u with
  | updateBypassedStatisticEntry => rfl
  | _ =>
    simp only [steps, increments, List.map_cons, List.map_nil, List.foldl_cons, List.foldl_nil,
      Statistics.increment, Statistics.modifyEntry_modifyEntry]
    rfl

/-- What one increment adds to a counter of the entry at a position. -/
def weight (s : Statistics) (i : Nat) (c : Counter) (step : Int32 × CounterIncrement) : Nat :=
  if s.position step.1 = some i ∧ step.2.counter = c then step.2.amount.toNat else 0

theorem weight_steps (u : EntryUpdate) (s : Statistics) (i : Nat) (c : Counter) :
    (u.steps.map (weight s i c)).sum =
      if s.position u.operationType = some i then (u.amount c).toNat else 0 := by
  unfold steps weight
  by_cases hi : s.position u.operationType = some i
  · cases u <;> cases c <;> simp [increments, amount, hi]
  · simp [hi, Function.comp_def]

/-- The increments of a list of calls add what the calls addressed to the entry add. -/
theorem weight_calls (calls : List EntryUpdate) (s : Statistics) (i : Nat) (c : Counter) :
    ((calls.flatMap steps).map (weight s i c)).sum =
      ((calls.filter fun u => s.position u.operationType = some i).map
        fun u => (u.amount c).toNat).sum := by
  induction calls with
  | nil => rfl
  | cons u calls ih =>
    rw [List.flatMap_cons, List.map_append, List.sum_append, ih, weight_steps]
    by_cases hi : s.position u.operationType = some i
    · simp [hi]
    · simp [hi]

end EntryUpdate

namespace Statistics

/-- What no increment changes: all but the counters. -/
structure SameEntries (s s' : Statistics) : Prop where
  identifier : s'.statsIdentifier = s.statsIdentifier
  size : s'.statsSize = s.statsSize
  names : s'.statisticEntries.map (·.entryName) = s.statisticEntries.map (·.entryName)

theorem SameEntries.increment {s s' : Statistics} (h : s.SameEntries s')
    (step : Int32 × CounterIncrement) : s.SameEntries (s'.increment step) where
  identifier := by
    rw [← h.identifier, Statistics.increment]
    unfold modifyEntry
    split <;> rfl
  size := (s'.modifyEntry_statsSize step.1 _).trans h.size
  names := (s'.modifyEntry_names step.1 step.2.apply_entryName).trans h.names

/-- A counter of the entry at a position, with what is still owed to it. -/
def counterWith (i : Nat) (c : Counter) (s : Statistics) (owed : Nat) : Option UInt64 :=
  s.statisticEntries[i]?.map fun e => e.counter c + UInt64.ofNat owed

/-- An increment pays what it is worth from what is owed to a counter. -/
theorem SameEntries.counterWith_increment {s s' : Statistics} (h : s.SameEntries s')
    (step : Int32 × CounterIncrement) (i : Nat) (c : Counter) (owed : Nat) :
    counterWith i c (s'.increment step) owed =
      counterWith i c s' (EntryUpdate.weight s i c step + owed) := by
  unfold counterWith EntryUpdate.weight
  rw [UInt64.ofNat_add, ← position_congr h.size, Statistics.increment, modifyEntry]
  cases hp : s'.position step.1 with
  | none => simp
  | some p =>
    simp only [List.getElem?_modify]
    cases he : s'.statisticEntries[i]? with
    | none => rfl
    | some e =>
      by_cases hpi : p = i
      · by_cases hc : step.2.counter = c
        · simp [hpi, hc, CounterIncrement.apply_counter, UInt64.add_assoc]
        · simp [hpi, hc, CounterIncrement.apply_counter]
      · simp [hpi]

theorem counterWith_counted {Tid : Type} [Fintype Tid] (s : Statistics)
    (calls : Tid → List EntryUpdate) (i : Nat) (c : Counter) :
    counterWith i c (s.counted calls) 0 = counterWith i c s (s.addressed calls i c) := by
  unfold counterWith
  rw [counted, List.getElem?_mapIdx]
  cases s.statisticEntries[i]? with
  | none => rfl
  | some e => simp [StatisticEntry.raised_counter]

theorem counted_sameEntries {Tid : Type} [Fintype Tid] (s : Statistics)
    (calls : Tid → List EntryUpdate) : s.SameEntries (s.counted calls) where
  identifier := rfl
  size := rfl
  names := by
    apply List.ext_getElem?
    intro i
    rw [counted, List.getElem?_map, List.getElem?_mapIdx, List.getElem?_map]
    cases s.statisticEntries[i]? <;> rfl

/-- Containers that agree on what no increment changes and on every counter are the same. -/
theorem SameEntries.ext {s s' s'' : Statistics} (h : s.SameEntries s') (h' : s.SameEntries s'')
    (hcounters : ∀ i c, counterWith i c s' 0 = counterWith i c s'' 0) : s' = s'' := by
  obtain ⟨identifier, size, entries⟩ := s'
  obtain ⟨identifier', size', entries'⟩ := s''
  obtain rfl : identifier = identifier' := h.identifier.trans h'.identifier.symm
  obtain rfl : size = size' := h.size.trans h'.size.symm
  have hnames := h.names.trans h'.names.symm
  have hentries : entries = entries' := by
    apply List.ext_getElem?
    intro i
    have hname := congrArg (·[i]?) hnames
    simp only [List.getElem?_map] at hname
    have hcounter : ∀ c, entries[i]?.map (·.counter c) = entries'[i]?.map (·.counter c) := by
      intro c
      simpa [counterWith] using hcounters i c
    cases he : entries[i]? with
    | none =>
      cases he' : entries'[i]? with
      | none => rfl
      | some e' => simp [he, he'] at hname
    | some e =>
      cases he' : entries'[i]? with
      | none => simp [he, he'] at hname
      | some e' =>
        simp only [he, he', Option.map_some, Option.some.injEq] at hname hcounter
        exact congrArg some (StatisticEntry.ext_counter hname hcounter)
  rw [hentries]

/-- Updates by any number of threads, however their increments interleave, leave every counter
at its value before plus, modulo 2^64, the amounts of all calls addressed to its entry. -/
theorem run_counted {Tid : Type} [Fintype Tid] [DecidableEq Tid] {s : Statistics}
    {types : List OperationType} (hinit : s.InitializedWith types) (hne : types ≠ [])
    {calls : Tid → List EntryUpdate} (hvalid : ∀ t, ∀ u ∈ calls t, 0 ≤ u.operationType)
    {final : Updates Tid}
    (hrun : Reaches nextUpdate (fun _ _ => True) (s.startUpdates calls) final)
    (hfinished : final.Finished) :
    final.shared = s.counted calls ∧
      ∀ t, ∀ u ∈ calls t, ∃ i, s.position u.operationType = some i ∧
        i < s.statisticEntries.length := by
  refine ⟨?_, fun t u hu => hinit.position_lt hne (hvalid t u hu)⟩
  have hsame : s.SameEntries s := ⟨rfl, rfl, rfl⟩
  have hpaid := fun i c => System.reaches_owed (counterWith i c)
    (fun step _ h => SameEntries.increment h step)
    (fun step _ owed h => h.counterWith_increment step i c owed) hsame hrun
  have hend : ∀ i c, final.owed (EntryUpdate.weight s i c) = 0 := fun i c =>
    hfinished.total_eq_zero rfl
  have hstart : ∀ i c, (s.startUpdates calls).owed (EntryUpdate.weight s i c) =
      s.addressed calls i c := by
    intro i c
    apply Finset.sum_congr rfl
    intro t _
    exact EntryUpdate.weight_calls (calls t) s i c
  apply SameEntries.ext (hpaid 0 .operation).1 (s.counted_sameEntries calls)
  intro i c
  rw [counterWith_counted, ← hstart, ← hend i c]
  exact (hpaid i c).2

theorem run_counted_data :
    ∃ final, Reaches nextUpdate (fun _ _ => True) ((ofType "data" .dataCalls).startUpdates
        fun t : Bool => if t then [.updateBypassedStatisticEntry 1 1] else
          [.updateStatisticEntryWithError 1 1 512 1]) final ∧
      final.shared = (ofType "data" .dataCalls).counted (fun t : Bool =>
        if t then [.updateBypassedStatisticEntry 1 1] else
          [.updateStatisticEntryWithError 1 1 512 1]) := by
  have hinit := construct_initializedWith (.parameterized "data" .dataCalls)
  have hrun : exec nextUpdate ((ofType "data" .dataCalls).startUpdates fun t : Bool =>
      if t then [.updateBypassedStatisticEntry 1 1] else
        [.updateStatisticEntryWithError 1 1 512 1]) [false, true, false, false] = some _ := rfl
  have hreached : Reaches nextUpdate (fun _ _ => True) _ _ :=
    Reaches.of_exec (fun _ _ _ => trivial) hrun
  refine ⟨_, hreached, (run_counted hinit (List.cons_ne_nil _ _) ?_ hreached ?_).1⟩
  · intro t u hu
    cases t with
    | false =>
      obtain rfl := List.mem_singleton.mp hu
      decide
    | true =>
      obtain rfl := List.mem_singleton.mp hu
      decide
  · intro t
    cases t <;> rfl

end Statistics

end Padll

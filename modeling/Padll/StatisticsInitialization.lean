import Mathlib.Data.List.Nodup
import Padll.Statistics

/-! Initialising a statistics container again: over which sequences of initializations, updates
and lookups it keeps the entries of one class, each under the number of its operation. -/
namespace Padll

inductive StatisticsConstructor where
  | default
  | parameterized (identifier : String) (type : OperationType)

namespace StatisticsConstructor

def construct : StatisticsConstructor → Statistics
  | default => {}
  | parameterized identifier type => .ofType identifier type

/-- The class a constructor initializes the container with. -/
def type? : StatisticsConstructor → Option OperationType
  | default => none
  | parameterized _ type => some type

end StatisticsConstructor

/-- The calls of a container's interface, on operations of a class. -/
inductive StatisticsCall where
  | initializeEntries (type : OperationType)
  | updateStatisticEntry (operation : Operation) (operationValue byteValue : UInt64)
  | updateStatisticEntryWithError (operation : Operation)
    (operationValue byteValue errorValue : UInt64)
  | updateBypassedStatisticEntry (operation : Operation) (bypassValue : UInt64)
  | getStatisticEntry (operation : Operation)

namespace StatisticsCall

def apply (s : Statistics) : StatisticsCall → Statistics
  | initializeEntries type => s.initializeEntries type
  | updateStatisticEntry operation operationValue byteValue =>
    s.updateStatisticEntry operation.toInt operationValue byteValue
  | updateStatisticEntryWithError operation operationValue byteValue errorValue =>
    s.updateStatisticEntryWithError operation.toInt operationValue byteValue errorValue
  | updateBypassedStatisticEntry operation bypassValue =>
    s.updateBypassedStatisticEntry operation.toInt bypassValue
  | getStatisticEntry _ => s

def type? : StatisticsCall → Option OperationType
  | initializeEntries type => some type
  | _ => none

def operation? : StatisticsCall → Option Operation
  | initializeEntries _ => none
  | updateStatisticEntry operation _ _ | updateStatisticEntryWithError operation _ _ _
  | updateBypassedStatisticEntry operation _ | getStatisticEntry operation => some operation

/-- What a call is to do to the entry of its operation. -/
def change : StatisticsCall → StatisticEntry → StatisticEntry
  | updateStatisticEntry _ operationValue byteValue, e =>
    (e.incrementOperationCounter operationValue).incrementByteCounter byteValue
  | updateStatisticEntryWithError _ operationValue byteValue errorValue, e =>
    ((e.incrementOperationCounter operationValue).incrementByteCounter byteValue)
      |>.incrementErrorCounter errorValue
  | updateBypassedStatisticEntry _ bypassValue, e => e.incrementBypassCounter bypassValue
  | initializeEntries _, e | getStatisticEntry _, e => e

end StatisticsCall

/-- Every call but an initialization names an operation of the class initialized last. -/
def FollowsClass : Option OperationType → List StatisticsCall → Prop
  | _, [] => True
  | current, c :: calls =>
    (∀ operation, c.operation? = some operation → current = some operation.type) ∧
      FollowsClass (c.type?.or current) calls

/-- The classes a container was initialized with, in order. -/
def initializations (constructor : StatisticsConstructor) (calls : List StatisticsCall) :
    List OperationType :=
  constructor.type?.toList ++ calls.filterMap StatisticsCall.type?

namespace Statistics

/-- As many entries as the size says, named after the operations of the class in order; a call
on an operation changes the entry of that name alone, which is then what a lookup reports. -/
structure IndexedBy (s : Statistics) (type : OperationType) : Prop where
  size : (s.statisticEntries.length : Int) = s.statsSize.toInt
  names : s.statisticEntries.map (·.entryName) = type.values.map (·.name)
  updates : ∀ (c : StatisticsCall) (op : Operation), c.operation? = some op → op.type = type →
    (c.apply s).statisticEntries =
        s.statisticEntries.map (fun e => if e.entryName = op.name then c.change e else e) ∧
      (c.apply s).getStatisticEntry op.toInt =
        (c.apply s).statisticEntries.find? fun e => e.entryName = op.name

/-- Initialized again, a container keeps the entries it had. -/
theorem stale_entries_kept :
    ¬ ∀ (constructor : StatisticsConstructor) (calls : List StatisticsCall) (type : OperationType),
      FollowsClass constructor.type? calls →
      (initializations constructor calls).getLast? = some type →
        (calls.foldl StatisticsCall.apply constructor.construct).IndexedBy type := by
  intro h
  have hindexed := h (.parameterized "stats" .metadataCalls) [.initializeEntries .dataCalls]
    .dataCalls ⟨nofun, trivial⟩ rfl
  exact absurd hindexed.size (by decide)

end Statistics

section Lists
variable {α β : Type} {key : α → β} {l : List α}

/-- Where keys are unique, a key tells the position. -/
theorem key_eq_iff (hnodup : (l.map key).Nodup) {i j : Nat} {x : β}
    (hx : (l.map key)[i]? = some x) {a : α} (ha : l[j]? = some a) : key a = x ↔ i = j := by
  have hj : (l.map key)[j]? = some (key a) := by rw [List.getElem?_map, ha, Option.map_some]
  constructor
  · rintro rfl
    obtain ⟨hi, -⟩ := List.getElem?_eq_some_iff.mp hx
    exact (List.getElem?_inj hi hnodup).mp (hx.trans hj.symm)
  · rintro rfl
    exact Option.some.inj (hj.symm.trans hx)

variable [DecidableEq β]

theorem modify_eq_map_of_nodup (hnodup : (l.map key).Nodup) {i : Nat} {x : β}
    (hx : (l.map key)[i]? = some x) (f : α → α) :
    l.modify i f = l.map fun a => if key a = x then f a else a := by
  apply List.ext_getElem?
  intro j
  rw [List.getElem?_modify, List.getElem?_map]
  cases ha : l[j]? with
  | none => rfl
  | some a => simp only [Option.map_some, Option.map_eq_map, key_eq_iff hnodup hx ha]

theorem find?_eq_of_nodup (hnodup : (l.map key).Nodup) {i : Nat} {x : β}
    (hx : (l.map key)[i]? = some x) : (l.find? fun a => key a = x) = l[i]? := by
  obtain ⟨hi, -⟩ := List.getElem?_eq_some_iff.mp hx
  rw [List.length_map] at hi
  have hat : ∀ j (hj : j < l.length), key l[j] = x ↔ i = j := fun j hj =>
    key_eq_iff hnodup hx (List.getElem?_eq_getElem hj)
  rw [List.getElem?_eq_getElem hi, List.find?_eq_some_iff_getElem]
  refine ⟨decide_eq_true ((hat i hi).mpr rfl), i, hi, rfl, fun j hj => ?_⟩
  have hne : key l[j] ≠ x := fun e => hj.ne' ((hat j (hj.trans hi)).mp e)
  simpa using hne

end Lists

namespace StatisticsCall

theorem change_entryName (c : StatisticsCall) (e : StatisticEntry) :
    (c.change e).entryName = e.entryName := by
  cases c <;> rfl

theorem apply_eq_modifyEntry {c : StatisticsCall} {op : Operation} (h : c.operation? = some op)
    (s : Statistics) : c.apply s = s.modifyEntry op.toInt c.change := by
  cases c with
  | initializeEntries => cases h
  | getStatisticEntry =>
    obtain rfl := Option.some.inj h
    unfold Statistics.modifyEntry
    split
    · exact congrArg (fun entries => { s with statisticEntries := entries })
        (List.modify_id ..).symm
    · rfl
  | _ => obtain rfl := Option.some.inj h; rfl

theorem type?_eq_none {c : StatisticsCall} {op : Operation} (h : c.operation? = some op) :
    c.type? = none := by
  cases c with
  | initializeEntries => cases h
  | _ => rfl

end StatisticsCall

namespace Statistics

/-- The entries of every class initialized, one class after the other, under the size of the
last. -/
structure InitializedWith (s : Statistics) (types : List OperationType) : Prop where
  size : s.statsSize = types.getLast?.elim 0 fun type => Int32.ofNat type.values.length
  names : s.statisticEntries.map (·.entryName) =
    types.flatMap fun type => type.values.map (·.name)

theorem construct_initializedWith (constructor : StatisticsConstructor) :
    constructor.construct.InitializedWith constructor.type?.toList := by
  cases constructor with
  | default => exact ⟨rfl, rfl⟩
  | parameterized identifier type =>
    have hholds := holds_ofType identifier type
    constructor
    · exact hholds.size
    · rw [StatisticsConstructor.type?, Option.toList_some, List.flatMap_singleton]
      exact hholds.names

theorem InitializedWith.apply {s : Statistics} {types : List OperationType}
    (h : s.InitializedWith types) (c : StatisticsCall) :
    (c.apply s).InitializedWith (types ++ c.type?.toList) := by
  cases hc : c.operation? with
  | some op =>
    rw [StatisticsCall.apply_eq_modifyEntry hc, StatisticsCall.type?_eq_none hc,
      Option.toList_none, List.append_nil]
    exact ⟨(s.modifyEntry_statsSize op.toInt _).trans h.size,
      (s.modifyEntry_names op.toInt c.change_entryName).trans h.names⟩
  | none =>
    cases c with
    | initializeEntries type =>
      constructor
      · simp [StatisticsCall.apply, StatisticsCall.type?, initializeEntries]
      · simp [StatisticsCall.apply, StatisticsCall.type?, initializeEntries, h.names]
    | _ => cases hc

theorem InitializedWith.run {s : Statistics} {types : List OperationType}
    (h : s.InitializedWith types) (calls : List StatisticsCall) :
    (calls.foldl StatisticsCall.apply s).InitializedWith
      (types ++ calls.filterMap StatisticsCall.type?) := by
  induction calls generalizing s types with
  | nil => simpa using h
  | cons c calls ih =>
    have hnext := ih (h.apply c)
    rw [List.append_assoc] at hnext
    cases hc : c.type? with
    | none => simpa [hc] using hnext
    | some type => simpa [hc] using hnext

theorem run_initializedWith (constructor : StatisticsConstructor) (calls : List StatisticsCall) :
    (calls.foldl StatisticsCall.apply constructor.construct).InitializedWith
      (initializations constructor calls) :=
  (construct_initializedWith constructor).run calls

theorem values_names_nodup (type : OperationType) : (type.values.map (·.name)).Nodup := by
  cases type <;> decide

theorem values_length_pos (type : OperationType) : 0 < type.values.length := by
  cases type <;> decide

theorem values_length_toInt (type : OperationType) :
    (Int32.ofNat type.values.length).toInt = type.values.length := by
  cases type <;> rfl

theorem Holds.name_at {s : Statistics} {op : Operation} (h : s.Holds op.type) :
    (s.statisticEntries.map (·.entryName))[op.toInt.toNatClampNeg]? = some op.name := by
  rw [h.names, List.getElem?_map, OperationType.values_toInt, Option.map_some]

theorem Holds.indexedBy {s : Statistics} {type : OperationType} (h : s.Holds type) :
    s.IndexedBy type where
  size := by
    rw [h.length, h.size, values_length_toInt]
  names := h.names
  updates := by
    rintro c op hc rfl
    have hafter : (c.apply s).Holds op.type := by
      rw [StatisticsCall.apply_eq_modifyEntry hc]
      exact modifyEntry_holds h op.toInt c.change_entryName
    have hunique {s : Statistics} (h : s.Holds op.type) :
        (s.statisticEntries.map (·.entryName)).Nodup :=
      h.names ▸ values_names_nodup op.type
    constructor
    · rw [StatisticsCall.apply_eq_modifyEntry hc, modifyEntry, h.position]
      exact modify_eq_map_of_nodup (hunique h) h.name_at c.change
    · rw [hafter.get]
      exact (find?_eq_of_nodup (hunique hafter) hafter.name_at).symm

/-- A container has the entries and the size of its class after one initialization, the
constructor's own included, and never again after a second. -/
theorem run_indexedBy_iff (constructor : StatisticsConstructor) (calls : List StatisticsCall)
    {type : OperationType} (hlast : (initializations constructor calls).getLast? = some type) :
    (calls.foldl StatisticsCall.apply constructor.construct).IndexedBy type ↔
      (initializations constructor calls).length = 1 := by
  have hinit := run_initializedWith constructor calls
  obtain ⟨earlier, hearlier⟩ := List.getLast?_eq_some_iff.mp hlast
  rw [hearlier] at hinit ⊢
  constructor
  · intro hindexed
    have hlength := congrArg List.length (hindexed.names.symm.trans hinit.names)
    cases earlier with
    | nil => rfl
    | cons first earlier =>
      have hpos := values_length_pos first
      simp at hlength
      omega
  · intro hone
    have hnil : earlier = [] := by simpa using hone
    subst hnil
    exact Holds.indexedBy ⟨by simpa using hinit.size, by simpa using hinit.names⟩

theorem run_indexedBy_iff_data :
    ([.updateStatisticEntry (.data .read) 1 512].foldl StatisticsCall.apply
        (StatisticsConstructor.parameterized "data" .dataCalls).construct).IndexedBy .dataCalls ↔
      (initializations (.parameterized "data" .dataCalls)
        [.updateStatisticEntry (.data .read) 1 512]).length = 1 :=
  run_indexedBy_iff (.parameterized "data" .dataCalls)
    [.updateStatisticEntry (.data .read) 1 512] rfl

end Statistics

end Padll

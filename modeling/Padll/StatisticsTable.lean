import Padll.ConcurrentUpdates
import Padll.StatisticsReport
import Padll.WorkflowCounts

/-! The other report of a backend: a table for each container, one row for each entry and one of
totals. The cells are converted back to see which to highlight, which large counters refuse. -/
namespace Padll

/-- A `long`, where it can hold the value. -/
def long (v : Int) : Option Int64 := if -2^63 ≤ v ∧ v < 2^63 then some (Int64.ofInt v) else none

/-- The conversion of a text to a `long`; `none` where it throws. -/
def stol (text : List Char) : Option Int64 :=
  let trimmed := text.dropWhile isSpace
  let (sign, rest) := match trimmed with
    | '-' :: rest => ((-1 : Int), rest)
    | '+' :: rest => (1, rest)
    | rest => (1, rest)
  match rest.takeWhile Char.isDigit with
  | [] => none
  | digits => long (sign * (Nat.ofDigitChars 10 digits 0 : Nat))

/-- The conversion "%ld". -/
def decimalLong (v : Int64) : List Char :=
  if v < 0 then '-' :: Nat.toDigits 10 v.toInt.natAbs else Nat.toDigits 10 v.toInt.natAbs

/-- A cell, with the part of its style that depends on what it shows. -/
structure Cell where
  text : List Char
  underlined : Bool := false
  deriving DecidableEq, Repr

abbrev Table := List (List Cell)

/-- The counters of an entry from left to right. -/
def Counter.columns : List Counter := [.operation, .byte, .error, .bypass]

def StatisticEntry.tableRow (e : StatisticEntry) : Option (List Cell) := do
  let counters ← Counter.columns.mapM fun c => do
    let value ← stol (decimal (e.counter c))
    some { text := decimal (e.counter c), underlined := 0 < value }
  some ({ text := e.entryName.toList } :: counters)

namespace Statistics

/-- The counters are unsigned, their sum is a `long`. -/
def sumCounters (s : Statistics) (c : Counter) : Int64 :=
  s.statisticEntries.foldl (fun sumValue e => (sumValue.toUInt64 + e.counter c).toInt64) 0

def aggregateCounters (s : Statistics) (counterType : Int32) : Int64 :=
  if counterType = 0 then s.sumCounters .operation
  else if counterType = 1 then s.sumCounters .byte
  else if counterType = 2 then s.sumCounters .error
  else if counterType = 3 then s.sumCounters .bypass
  else 0

def headerRow (s : Statistics) : List Cell :=
  [s.statsIdentifier, "#iops", "#bytes", "#errors", "#bypass"].map fun title =>
    { text := title.toList }

def totalsRow (s : Statistics) : List Cell :=
  { text := "total".toList, underlined := true } :: [0, 1, 2, 3].map fun counterType =>
    { text := decimalLong (s.aggregateCounters counterType) }

/-- The table of a container; `none` where a conversion throws before it is. -/
def tabulate (s : Statistics) : Option Table := do
  let rows ← s.statisticEntries.mapM StatisticEntry.tableRow
  some (s.headerRow :: (rows ++ [s.totalsRow]))

end Statistics

/-- The sums of the counters modulo 2^64, under the name of their row. -/
def totalsOf (entries : List StatisticEntry) : StatisticEntry where
  entryName := "total"
  operationCounter := (entries.map (·.operationCounter)).sum
  byteCounter := (entries.map (·.byteCounter)).sum
  errorCounter := (entries.map (·.errorCounter)).sum
  bypassCounter := (entries.map (·.bypassCounter)).sum

section Reading

/-- What a table shows: its title, its entries and the row of totals. -/
structure TableReading where
  title : String
  entries : List StatisticEntry
  totals : StatisticEntry

def readCells (name : List Char) (read : Cell → Option UInt64) : List Cell → Option StatisticEntry
  | [operation, byte, error, bypass] => do
    let operationCounter ← read operation
    let byteCounter ← read byte
    let errorCounter ← read error
    let bypassCounter ← read bypass
    some { entryName := String.ofList name, operationCounter, byteCounter, errorCounter,
           bypassCounter }
  | _ => none

/-- A counter, provided that it is underlined exactly if it is positive. -/
def readCounter (cell : Cell) : Option UInt64 :=
  (readDecimal cell.text).filter fun value => cell.underlined = decide (0 < value)

def readEntryRow : List Cell → Option StatisticEntry
  | name :: cells => readCells name.text readCounter cells
  | [] => none

def readTotalsRow : List Cell → Option StatisticEntry
  | name :: cells => readCells name.text (fun cell => (stol cell.text).map (·.toUInt64)) cells
  | [] => none

def readTable : Table → Option TableReading
  | (title :: _) :: rows => do
    let entries ← rows.dropLast.mapM readEntryRow
    let totals ← rows.getLast?.bind readTotalsRow
    some { title := String.ofList title.text, entries, totals }
  | _ => none

end Reading

section Conversion

private theorem isDigit_ne_sign {c : Char} (hc : c.isDigit) : c ≠ '-' ∧ c ≠ '+' := by
  constructor
  · rintro rfl
    cases hc
  · rintro rfl
    cases hc

/-- A text of digits is read to its end, with or without a minus before it. -/
theorem stol_digits {digits : List Char} (hne : digits ≠ []) (h : ∀ c ∈ digits, c.isDigit) :
    stol digits = long (Nat.ofDigitChars 10 digits 0 : Nat) ∧
      stol ('-' :: digits) = long (-(Nat.ofDigitChars 10 digits 0 : Nat)) := by
  obtain ⟨c, digits, rfl⟩ := List.exists_cons_of_ne_nil hne
  have hc := h c List.mem_cons_self
  have htaken : (c :: digits).takeWhile Char.isDigit = c :: digits :=
    List.takeWhile_eq_self_iff.mpr h
  obtain ⟨hminus, hplus⟩ := isDigit_ne_sign hc
  constructor
  · have htrimmed : (c :: digits).dropWhile isSpace = c :: digits :=
      List.dropWhile_cons_of_neg (by rw [isSpace_of_isDigit hc]; exact Bool.false_ne_true)
    unfold stol
    simp only [htrimmed, htaken, hminus, hplus, one_mul, List.cons.injEq, false_and, imp_false,
      not_false_eq_true, implies_true]
  · have htrimmed : ('-' :: c :: digits).dropWhile isSpace = '-' :: c :: digits :=
      List.dropWhile_cons_of_neg (by decide)
    unfold stol
    simp only [htrimmed, htaken, neg_one_mul]

theorem stol_decimal (v : UInt64) :
    stol (decimal v) = if v.toNat < 2^63 then some v.toInt64 else none := by
  have hdigits := (stol_digits (decimal_ne_nil v) fun c => isDigit_of_mem_decimal).1
  have hvalue : Int64.ofInt v.toNat = v.toInt64 := by
    rw [Int64.ofInt_eq_ofNat, ← UInt64.toInt64_ofNat', UInt64.ofNat_toNat]
  rw [hdigits, decimal, Nat.ofDigitChars_ten_toDigits, long, hvalue]
  exact if_congr (by omega) rfl rfl

/-- The text of a `long` is converted back to it. -/
theorem stol_decimalLong (v : Int64) : stol (decimalLong v) = some v := by
  have hdigits := @stol_digits (Nat.toDigits 10 v.toInt.natAbs) Nat.toDigits_ne_nil
    fun c hc => Nat.isDigit_of_mem_toDigits (by decide) (by decide) hc
  have hlong : long v.toInt = some v := by
    rw [long, if_pos ⟨v.le_toInt, v.toInt_lt⟩, Int64.ofInt_toInt]
  rw [Nat.ofDigitChars_ten_toDigits] at hdigits
  unfold decimalLong
  split
  · next hneg =>
    have hsign : v.toInt < 0 := Int64.lt_iff_toInt_lt.mp hneg
    rw [hdigits.2, show -(v.toInt.natAbs : Int) = v.toInt by omega, hlong]
  · next hnonneg =>
    have hsign : ¬ v.toInt < 0 := fun h => hnonneg (Int64.lt_iff_toInt_lt.mpr h)
    rw [hdigits.1, show (v.toInt.natAbs : Int) = v.toInt by omega, hlong]

end Conversion

/-- What can be converted back. -/
def StatisticEntry.Convertible (e : StatisticEntry) : Prop :=
  ∀ c ∈ Counter.columns, (e.counter c).toNat < 2^63

instance StatisticEntry.decidableConvertible (e : StatisticEntry) : Decidable e.Convertible :=
  inferInstanceAs (Decidable (∀ c ∈ Counter.columns, (e.counter c).toNat < 2^63))

section Tables

/-- A list is converted item by item, all of them or none. -/
private theorem mapM_guarded {α β : Type} (p : α → Prop) [DecidablePred p] (f : α → β)
    (l : List α) :
    l.mapM (fun a => if p a then some (f a) else none) =
      if ∀ a ∈ l, p a then some (l.map f) else none := by
  induction l with
  | nil => rw [List.mapM_nil, if_pos (List.forall_mem_nil _)]; rfl
  | cons a l ih =>
    rw [List.mapM_cons, ih]
    by_cases ha : p a
    · by_cases hl : ∀ a ∈ l, p a
      · rw [if_pos ha, if_pos hl, if_pos (List.forall_mem_cons.mpr ⟨ha, hl⟩)]
        rfl
      · rw [if_pos ha, if_neg hl, if_neg fun h => hl (List.forall_mem_cons.mp h).2]
        rfl
    · rw [if_neg ha, if_neg fun h => ha (List.forall_mem_cons.mp h).1]
      rfl

/-- The row of an entry where its counters can be converted back. -/
def StatisticEntry.cells (e : StatisticEntry) : List Cell :=
  { text := e.entryName.toList } :: Counter.columns.map fun c =>
    { text := decimal (e.counter c), underlined := 0 < e.counter c }

private theorem toInt64_pos {v : UInt64} (hv : v.toNat < 2^63) : 0 < v.toInt64 ↔ 0 < v := by
  have hvalue : v.toInt64.toInt = v.toNat := by
    rw [← UInt64.ofNat_toNat (x := v), UInt64.toInt64_ofNat', UInt64.ofNat_toNat,
      Int64.toInt_ofNat_of_lt hv]
  rw [Int64.lt_iff_toInt_lt, UInt64.lt_iff_toNat_lt, hvalue]
  exact Int.natCast_pos

private theorem tableRow_eq (e : StatisticEntry) :
    e.tableRow = if e.Convertible then some e.cells else none := by
  have hcolumn : ∀ c, (do
      let value ← stol (decimal (e.counter c))
      some ({ text := decimal (e.counter c), underlined := 0 < value } : Cell)) =
      if (e.counter c).toNat < 2^63 then
        some { text := decimal (e.counter c), underlined := 0 < e.counter c } else none := by
    intro c
    rw [stol_decimal]
    by_cases hv : (e.counter c).toNat < 2^63
    · simp only [if_pos hv, Option.bind_eq_bind, Option.bind_some, toInt64_pos hv]
    · simp only [if_neg hv, Option.bind_eq_bind, Option.bind_none]
  rw [StatisticEntry.tableRow, funext hcolumn, mapM_guarded]
  by_cases he : ∀ c ∈ Counter.columns, (e.counter c).toNat < 2^63
  · rw [if_pos he, if_pos (show e.Convertible from he)]
    rfl
  · rw [if_neg he, if_neg (show ¬ e.Convertible from he)]
    rfl

private theorem readEntryRow_cells (e : StatisticEntry) : readEntryRow e.cells = some e := by
  have hcell : ∀ v : UInt64, readCounter ⟨decimal v, 0 < v⟩ = some v := by
    intro v
    rw [readCounter, readDecimal_decimal]
    exact Option.filter_some_pos (decide_eq_true rfl)
  rw [StatisticEntry.cells, readEntryRow]
  simp only [Counter.columns, List.map_cons, List.map_nil, readCells, hcell, String.ofList_toList]
  rfl

namespace Statistics

theorem toUInt64_sumCounters (s : Statistics) (c : Counter) :
    (s.sumCounters c).toUInt64 = (s.statisticEntries.map (·.counter c)).sum := by
  have hfrom : ∀ (entries : List StatisticEntry) (sumValue : Int64),
      (entries.foldl (fun sumValue e => (sumValue.toUInt64 + e.counter c).toInt64)
        sumValue).toUInt64 = sumValue.toUInt64 + (entries.map (·.counter c)).sum := by
    intro entries
    induction entries with
    | nil => exact fun sumValue => (add_zero _).symm
    | cons e entries ih =>
      intro sumValue
      rw [List.foldl_cons, ih, UInt64.toUInt64_toInt64, List.map_cons, List.sum_cons, add_assoc]
  exact (hfrom s.statisticEntries 0).trans (zero_add _)

/-- The row of totals shows the sums modulo 2^64, the large ones as negative numbers. -/
private theorem readTotalsRow_totals (s : Statistics) :
    readTotalsRow s.totalsRow = some (totalsOf s.statisticEntries) := by
  have hoperation : (s.aggregateCounters 0).toUInt64 = _ := s.toUInt64_sumCounters .operation
  have hbyte : (s.aggregateCounters 1).toUInt64 = _ := s.toUInt64_sumCounters .byte
  have herror : (s.aggregateCounters 2).toUInt64 = _ := s.toUInt64_sumCounters .error
  have hbypass : (s.aggregateCounters 3).toUInt64 = _ := s.toUInt64_sumCounters .bypass
  rw [totalsRow, readTotalsRow]
  simp only [List.map_cons, List.map_nil, readCells, stol_decimalLong, Option.map_some, hoperation,
    hbyte, herror, hbypass]
  rfl

def reading (s : Statistics) : TableReading where
  title := s.statsIdentifier
  entries := s.statisticEntries
  totals := totalsOf s.statisticEntries

def Tabulable (s : Statistics) : Prop := ∀ e ∈ s.statisticEntries, e.Convertible

instance decidableTabulable (s : Statistics) : Decidable s.Tabulable :=
  inferInstanceAs (Decidable (∀ e ∈ s.statisticEntries, e.Convertible))

/-- A container is tabulated exactly if each of its counters can be converted back, and then the
table shows it. -/
theorem tabulate_reads (s : Statistics) :
    s.tabulate.map readTable = if s.Tabulable then some (some s.reading) else none := by
  have hrows : ∀ entries : List StatisticEntry,
      (entries.map StatisticEntry.cells).mapM readEntryRow = some entries := by
    intro entries
    induction entries with
    | nil => rfl
    | cons e entries ih => rw [List.map_cons, List.mapM_cons, readEntryRow_cells, ih]; rfl
  rw [tabulate, funext tableRow_eq, mapM_guarded]
  by_cases h : ∀ e ∈ s.statisticEntries, e.Convertible
  · rw [if_pos h, if_pos (show s.Tabulable from h)]
    simp only [Option.bind_eq_bind, Option.bind_some, Option.map_some, headerRow, List.map_cons,
      readTable, List.dropLast_concat, List.getLast?_concat, hrows, readTotalsRow_totals]
    rw [String.ofList_toList]
    rfl
  · rw [if_neg h, if_neg (show ¬ s.Tabulable from h)]
    rfl

end Statistics

end Tables

/-- Print table after table, until a conversion throws; it ends the process. -/
def printTables : List Statistics → List Table × Bool
  | [] => ([], true)
  | s :: containers =>
    match s.tabulate with
    | some table => (table :: (printTables containers).1, (printTables containers).2)
    | none => ([], false)

/-- What either destructor prints where the reports are tables, and whether it returns. -/
def CallStatistics.tabulate (s : CallStatistics) : List Table × Bool :=
  printTables
    [s.metadataStats.1, s.dataStats.1, s.dirStats.1, s.extAttrStats.1, s.specialStats.1]

section Containers

/-- The classes in the order of their tables. -/
def OperationType.all : List OperationType :=
  [.metadataCalls, .dataCalls, .directoryCalls, .extAttrCalls, .specialCalls]

def OperationType.identifier : OperationType → String
  | metadataCalls => "metadata"
  | dataCalls => "data"
  | directoryCalls => "directory"
  | extAttrCalls => "ext-attr"
  | specialCalls => "special"

theorem OperationType.mem_values {type : OperationType} {op : Operation} :
    op ∈ type.values ↔ op.type = type := by
  constructor
  · revert op
    cases type <;> decide
  · rintro rfl
    exact List.mem_of_getElem? (OperationType.values_toInt op)

theorem OperationType.nodup_values (type : OperationType) : type.values.Nodup := by
  cases type <;> decide

/-- The tables that are printed are those before the first container that cannot be tabulated. -/
theorem printTables_reads (containers : List Statistics) :
    (printTables containers).1.map readTable =
        (containers.takeWhile (·.Tabulable)).map (fun s => some s.reading) ∧
      ((printTables containers).2 = true ↔ ∀ s ∈ containers, s.Tabulable) := by
  induction containers with
  | nil => exact ⟨rfl, iff_of_true rfl (List.forall_mem_nil _)⟩
  | cons s containers ih =>
    have hreads := s.tabulate_reads
    rw [printTables]
    cases htable : s.tabulate with
    | none =>
      have hs : ¬ s.Tabulable := by
        intro hs
        rw [htable, if_pos hs] at hreads
        cases hreads
      rw [List.takeWhile_cons_of_neg (by simpa using hs)]
      exact ⟨rfl, iff_of_false Bool.false_ne_true fun h => hs (List.forall_mem_cons.mp h).1⟩
    | some table =>
      have hs : s.Tabulable := by
        by_contra hs
        rw [htable, if_neg hs] at hreads
        cases hreads
      rw [htable, if_pos hs] at hreads
      rw [List.takeWhile_cons_of_pos (by simpa using hs), List.map_cons, List.map_cons, ih.1,
        List.forall_mem_cons, ← ih.2]
      exact ⟨congrArg (· :: _) (Option.some.inj hreads), (and_iff_right hs).symm⟩

namespace CallStatistics

/-- Each container bears the name of its class. -/
def Identified (s : CallStatistics) : Prop :=
  ∀ type, (s.container type).1.statsIdentifier = type.identifier

theorem identified_default : ({} : CallStatistics).Identified := by
  intro type
  cases type <;> rfl

theorem Identified.record {s : CallStatistics} (h : s.Identified) (op : Operation)
    (u : StatisticUpdate) : (s.record op u).Identified := by
  intro type
  by_cases htype : type = op.type
  · subst htype
    rw [container_record_same, ClassStatistics.record_val, Statistics.modifyEntry]
    split <;> exact h op.type
  · rw [container_record_other s htype]
    exact h type

/-- What the table of a class is to show, from the entries of its operations. -/
def classReading (entry : Operation → StatisticEntry) (type : OperationType) : TableReading where
  title := type.identifier
  entries := type.values.map entry
  totals := totalsOf (type.values.map entry)

theorem tabulate_reads {s : CallStatistics} (h : s.Identified) :
    s.tabulate.1.map readTable =
        (OperationType.all.takeWhile fun type => ∀ op ∈ type.values, (s.entry op).Convertible).map
          (fun type => some (classReading s.entry type)) ∧
      (s.tabulate.2 = true ↔ ∀ op, (s.entry op).Convertible) := by
  have htabulable : ∀ type, (s.container type).1.Tabulable ↔
      ∀ op ∈ type.values, (s.entry op).Convertible := by
    intro type
    rw [Statistics.Tabulable, s.entries_eq type]
    exact List.forall_mem_map
  have hreading : ∀ type, (s.container type).1.reading = classReading s.entry type := by
    intro type
    rw [Statistics.reading, h type, s.entries_eq type]
    rfl
  have hcontainers : [s.metadataStats.1, s.dataStats.1, s.dirStats.1, s.extAttrStats.1,
      s.specialStats.1] = OperationType.all.map fun type => (s.container type).1 := rfl
  obtain ⟨htables, hreturns⟩ := printTables_reads (OperationType.all.map
    fun type => (s.container type).1)
  rw [tabulate, hcontainers, htables, hreturns, List.takeWhile_map, List.map_map,
    List.forall_mem_map]
  constructor
  · simp only [Function.comp_def, htabulable, hreading]
  · simp only [htabulable]
    have hclass : ∀ type, type ∈ OperationType.all := by
      intro type
      cases type <;> decide
    constructor
    · exact fun hall op => hall op.type (hclass op.type) op (OperationType.mem_values.mpr rfl)
    · exact fun hall type _ op _ => hall op

end CallStatistics

end Containers

/-- The calls of a class made while statistics were collected. -/
def CallRecord.collectedIn (type : OperationType) (r : CallRecord) : Bool :=
  r.collecting && decide (r.call.operation.type = type)

/-- What the enforcing backend is to total for a class after the calls of a run. -/
def enforcedTotals (records : List CallRecord) (type : OperationType) : StatisticEntry where
  entryName := "total"
  operationCounter :=
    UInt64.ofNat ((records.filter (·.collectedIn type)).countP (·.countsAsEnforced))
  byteCounter :=
    (((records.filter (·.collectedIn type)).filter (·.enforced)).map (·.call.bytes)).sum
  errorCounter := UInt64.ofNat ((records.filter (·.collectedIn type)).countP
    fun r => r.enforced && r.call.failed)
  bypassCounter :=
    UInt64.ofNat ((records.filter (·.collectedIn type)).countP (!·.countsAsEnforced))

/-- The calls that the passthrough backend counts in an entry of a class. -/
def PassthroughCall.countedWithin (type : OperationType) (c : PassthroughCall) : Bool :=
  c.call.countedIn.any fun op => op.type = type

/-- What the passthrough backend is to total for a class after the calls of a run. -/
def passedTotals (calls : List PassthroughCall) (type : OperationType) : StatisticEntry where
  entryName := "total"
  operationCounter := UInt64.ofNat (calls.countP (·.countedWithin type))
  byteCounter := ((calls.filter fun c => c.countedWithin type && c.call.passes).map
    (·.call.passedBytes)).sum
  errorCounter := UInt64.ofNat (calls.countP fun c => c.countedWithin type && !c.call.passes)

namespace LdPreloadedPosix
variable {opts : Options}

private theorem totalsOf_enforced (records : List CallRecord) (type : OperationType) :
    totalsOf (type.values.map (enforcedEntry records)) = enforcedTotals records type := by
  have hsum : ∀ f : CallRecord → UInt64,
      (type.values.map fun op => ((records.filter (·.collected op)).map f).sum).sum =
        ((records.filter (·.collectedIn type)).map f).sum := by
    intro f
    have hone : ∀ (r : CallRecord) op op', r.collected op → r.collected op' → op = op' := by
      intro r op op' h h'
      simp only [CallRecord.collected, Bool.and_eq_true, decide_eq_true_eq] at h h'
      exact h.2.symm.trans h'.2
    refine (OutputMachine.sum_map_keys type.nodup_values (p := CallRecord.collected) hone f
      records).trans ?_
    congr 3
    funext r
    rw [Bool.eq_iff_iff, List.any_eq_true]
    simp [CallRecord.collected, CallRecord.collectedIn, OperationType.mem_values, and_comm]
  have hcount : ∀ mark : CallRecord → Bool,
      (type.values.map fun op =>
        UInt64.ofNat ((records.filter (·.collected op)).countP mark)).sum =
        UInt64.ofNat ((records.filter (·.collectedIn type)).countP mark) := by
    intro mark
    simp only [← nsmul_one_eq, ← OutputMachine.sum_map_indicator]
    exact hsum _
  have hbyte := hsum fun r => if r.enforced then r.call.bytes else 0
  simp only [OutputMachine.sum_map_filter] at hbyte
  simp only [totalsOf, enforcedTotals, List.map_map, StatisticEntry.mk.injEq, true_and]
  exact ⟨hcount _, hbyte, hcount _, hcount _⟩

theorem run_identified (collect : Bool) (prng : Nat → UInt32) (actions : List Action) :
    (run actions (construct collect prng : LdPreloadedPosix opts)).2.stats.Identified := by
  apply OutputMachine.run_invariant (I := fun s : LdPreloadedPosix opts => s.stats.Identified)
  · intro a s hs
    cases a with
    | setStatisticCollection value => exact hs
    | call c =>
      rw [step_call]
      change CallStatistics.Identified (if s.collect then _ else _)
      split
      · exact hs.record _ _
      · exact hs
  · exact CallStatistics.identified_default

/-- What the table of a class is to show after the calls of a run. -/
def tableReading (records : List CallRecord) (type : OperationType) : TableReading where
  title := type.identifier
  entries := type.values.map (enforcedEntry records)
  totals := enforcedTotals records type

/-- At the end of a run the tables of the classes are printed in order, up to the first class with
a counter beyond a `long`; each shows what the run counted, entry by entry and in total. The
destructor returns exactly if there is no such class. -/
theorem tables_read_back (collect : Bool) (prng : Nat → UInt32) (actions : List Action) :
    let final := run actions (construct collect prng : LdPreloadedPosix opts)
    let printed := final.2.stats.tabulate
    printed.1.map readTable =
        (OperationType.all.takeWhile fun type =>
          ∀ op ∈ type.values, (enforcedEntry final.1 op).Convertible).map
            (fun type => some (tableReading final.1 type)) ∧
      (printed.2 = true ↔ ∀ op, (enforcedEntry final.1 op).Convertible) := by
  intro final printed
  have hentry : final.2.stats.entry = enforcedEntry final.1 :=
    funext (entry_run collect prng actions)
  obtain ⟨htables, hreturns⟩ := CallStatistics.tabulate_reads (run_identified collect prng actions)
  rw [hentry] at htables hreturns
  refine ⟨htables.trans ?_, hreturns⟩
  simp only [CallStatistics.classReading, totalsOf_enforced]
  rfl

end LdPreloadedPosix

namespace PosixPassthrough

private theorem totalsOf_passed (calls : List PassthroughCall) (type : OperationType) :
    totalsOf (type.values.map (passedEntry calls)) = passedTotals calls type := by
  let counted (op : Operation) (c : PassthroughCall) : Bool := c.call.countedIn = some op
  have hsum : ∀ f : PassthroughCall → UInt64,
      (type.values.map fun op => ((calls.filter (counted op)).map f).sum).sum =
        ((calls.filter (·.countedWithin type)).map f).sum := by
    intro f
    have hone : ∀ c op op', counted op c → counted op' c → op = op' := by
      intro c op op' h h'
      exact Option.some.inj ((of_decide_eq_true h).symm.trans (of_decide_eq_true h'))
    refine (OutputMachine.sum_map_keys type.nodup_values hone f calls).trans ?_
    congr 3
    funext c
    rw [Bool.eq_iff_iff, List.any_eq_true, PassthroughCall.countedWithin, Option.any_eq_true]
    simp [counted, OperationType.mem_values, and_comm]
  have hmarked : ∀ p mark : PassthroughCall → Bool,
      UInt64.ofNat (calls.countP fun c => p c && mark c) =
        ((calls.filter p).map fun c => if mark c then 1 else 0).sum := by
    intro p mark
    rw [OutputMachine.sum_map_indicator, nsmul_one_eq, List.countP_filter]
    simp only [Bool.and_comm]
  have hcount : ∀ mark : PassthroughCall → Bool,
      (type.values.map fun op => UInt64.ofNat (calls.countP fun c => counted op c && mark c)).sum =
        UInt64.ofNat (calls.countP fun c => c.countedWithin type && mark c) := by
    intro mark
    simp only [hmarked]
    exact hsum _
  have hoperation := hcount fun _ => true
  have hbyte := hsum fun c => if c.call.passes then c.call.passedBytes else 0
  simp only [OutputMachine.sum_map_filter, List.filter_filter, Bool.and_comm] at hbyte
  simp only [Bool.and_true] at hoperation
  have hbypass : (type.values.map fun op => (passedEntry calls op).bypassCounter).sum = 0 := by
    apply List.sum_eq_zero
    intro v hv
    obtain ⟨op, -, rfl⟩ := List.mem_map.mp hv
    rfl
  simp only [totalsOf, passedTotals, List.map_map, StatisticEntry.mk.injEq, true_and]
  exact ⟨hoperation, hbyte, hcount _, hbypass⟩

theorem run_identified (calls : List PassthroughCall) :
    (run calls (construct true)).2.stats.Identified := by
  apply OutputMachine.run_invariant (I := fun s : PosixPassthrough => s.stats.Identified)
  · intro c s hs
    rw [step_eq]
    change (after c.call s).stats.Identified
    unfold after
    split
    · change CallStatistics.Identified (if s.collect then _ else _)
      split
      · exact hs.record _ _
      · exact hs
    · exact hs
  · exact CallStatistics.identified_default

/-- What the table of a class is to show after the calls of a run. -/
def tableReading (calls : List PassthroughCall) (type : OperationType) : TableReading where
  title := type.identifier
  entries := type.values.map (passedEntry calls)
  totals := passedTotals calls type

/-- At the end of a run the tables of the classes are printed in order, up to the first class with
a counter beyond a `long`; each shows what the run counted, entry by entry and in total. The
destructor goes on exactly if there is no such class. -/
theorem tables_show (calls : List PassthroughCall) :
    let printed := (run calls (construct true)).2.stats.tabulate
    printed.1.map readTable =
        (OperationType.all.takeWhile fun type =>
          ∀ op ∈ type.values, (passedEntry calls op).Convertible).map
            (fun type => some (tableReading calls type)) ∧
      (printed.2 = true ↔ ∀ op, (passedEntry calls op).Convertible) := by
  intro printed
  have hentry : (run calls (construct true)).2.stats.entry = passedEntry calls :=
    funext (entry_run calls)
  obtain ⟨htables, hreturns⟩ := CallStatistics.tabulate_reads (run_identified calls)
  rw [hentry] at htables hreturns
  refine ⟨htables.trans ?_, hreturns⟩
  simp only [CallStatistics.classReading, totalsOf_passed]
  rfl

end PosixPassthrough

end Padll

import Mathlib.Data.Nat.Log
import Padll.Library.PaddedRow
import Padll.StatisticsInitialization

/-! The report of a container: a row of fixed columns for each entry that counted anything,
formatted into a buffer that rows of large counters do not fit. -/
namespace Padll
open PaddedRow

/-- The conversion "%lu". -/
def decimal (v : UInt64) : List Char := Nat.toDigits 10 v.toNat

/-- The conversions of "%15s %12s %12s %12s %15s"; those of "%12lu" and "%15lu" pad alike. -/
def reportLine (name operation error bypass byte : List Char) : List Char :=
  row ' ' [(15, name), (12, operation), (12, error), (12, bypass), (15, byte)]

/-- Format an ASCII text into a buffer, `none` where the text and its terminating NUL do not fit:
there C++ leaves the write undefined. -/
def sprintf (size : Nat) (text : List Char) : Option String :=
  if text.length < size then some (String.ofList text) else none

namespace StatisticEntry

def row (e : StatisticEntry) : List Char :=
  reportLine e.entryName.toList (decimal e.operationCounter) (decimal e.errorCounter)
    (decimal e.bypassCounter) (decimal e.byteCounter)

def toString (e : StatisticEntry) : Option String := sprintf 75 e.row

end StatisticEntry

def readDecimal (field : List Char) : Option UInt64 :=
  if field.all Char.isDigit then some (UInt64.ofNat (Nat.ofDigitChars 10 field 0)) else none

/-- The entry that a line of a report shows, if it shows one. -/
def readRow (line : String) : Option StatisticEntry :=
  match words ' ' line.toList with
  | [name, operation, error, bypass, byte] => do
    let operationCounter ← readDecimal operation
    let errorCounter ← readDecimal error
    let bypassCounter ← readDecimal bypass
    let byteCounter ← readDecimal byte
    some { entryName := String.ofList name, operationCounter, byteCounter, errorCounter,
           bypassCounter }
  | _ => none

namespace Statistics

/-- The entries that a report shows: those whose operations, errors and bypasses do not add up to
zero in 64 bits. -/
def reported (s : Statistics) : List StatisticEntry :=
  s.statisticEntries.filter fun e => 0 < e.operationCounter + e.errorCounter + e.bypassCounter

def headings : List Char :=
  reportLine "syscall".toList "calls".toList "errors".toList "bypassed".toList "bytes".toList

def underlines : List Char :=
  reportLine "-------".toList "-----".toList "------".toList "--------".toList "-----".toList

def reportLines (s : Statistics) (printHeader : Bool) : Option (List String) :=
  if s.reported = [] then some [] else do
    let header ← if printHeader then (sprintf 75 headings).map ([·]) else some []
    let underline ← sprintf 75 underlines
    let rows ← s.reported.mapM StatisticEntry.toString
    some (header ++ underline :: rows)

def toString (s : Statistics) (printHeader : Bool) : Option String :=
  (s.reportLines printHeader).map fun lines =>
    String.ofList (lines.flatMap fun line => line.toList ++ ['\n'])

end Statistics

/-- The entries that a report shows. -/
def readReport (text : String) : List StatisticEntry :=
  (words '\n' text.toList).filterMap fun line => readRow (String.ofList line)

theorem length_decimal (v : UInt64) : (decimal v).length = Nat.log 10 v.toNat + 1 := by
  by_cases hv : v.toNat = 0
  · rw [decimal, hv]
    rfl
  · apply eq_of_forall_ge_iff
    intro k
    cases k with
    | zero =>
      have hpos := Nat.length_toDigits_pos (b := 10) (n := v.toNat)
      exact iff_of_false hpos.not_ge (Nat.not_succ_le_zero _)
    | succ k =>
      rw [decimal, Nat.length_toDigits_le_iff (by decide) (Nat.succ_pos k),
        ← Nat.log_lt_iff_lt_pow (by decide) hv, Nat.succ_le_iff]

theorem isDigit_of_mem_decimal {v : UInt64} {c : Char} (h : c ∈ decimal v) : c.isDigit :=
  Nat.isDigit_of_mem_toDigits (by decide) (by decide) h

theorem decimal_ne_nil (v : UInt64) : decimal v ≠ [] := Nat.toDigits_ne_nil

theorem not_mem_decimal {c : Char} (hc : ¬ c.isDigit) (v : UInt64) : c ∉ decimal v := fun h =>
  hc (isDigit_of_mem_decimal h)

theorem readDecimal_decimal (v : UInt64) : readDecimal (decimal v) = some v := by
  rw [readDecimal, if_pos (List.all_eq_true.mpr fun c hc => isDigit_of_mem_decimal hc), decimal,
    Nat.ofDigitChars_ten_toDigits, UInt64.ofNat_toNat]

/-- Every operation has a name that fits its column, with neither blank nor newline in it. -/
theorem Operation.name_spec (op : Operation) :
    op.name.toList.length ≤ 15 ∧ op.name.toList ≠ [] ∧ ' ' ∉ op.name.toList ∧
      '\n' ∉ op.name.toList := by
  cases op with
  | metadata o => cases o <;> decide
  | data o => cases o <;> decide
  | directory o => cases o <;> decide
  | extAttr o => cases o <;> decide
  | special o => cases o <;> decide

namespace StatisticEntry

/-- The digits that the counters have beyond the widths of their columns. -/
def excessDigits (e : StatisticEntry) : Nat :=
  (Nat.log 10 e.operationCounter.toNat - 11) + (Nat.log 10 e.errorCounter.toNat - 11) +
    (Nat.log 10 e.bypassCounter.toNat - 11) + (Nat.log 10 e.byteCounter.toNat - 14)

theorem length_row {e : StatisticEntry} {op : Operation} (he : e.entryName = op.name) :
    e.row.length = 70 + e.excessDigits := by
  have hname : op.name.toList.length - 15 = 0 := Nat.sub_eq_zero_of_le op.name_spec.1
  rw [row, reportLine, PaddedRow.length_row, he]
  simp only [List.map_cons, List.map_nil, List.sum_cons, List.sum_nil, length_decimal, hname,
    List.length_cons, List.length_nil, Nat.reduceSubDiff, excessDigits]
  omega

theorem words_row {e : StatisticEntry} {op : Operation} (he : e.entryName = op.name) :
    words ' ' e.row = [e.entryName.toList, decimal e.operationCounter, decimal e.errorCounter,
      decimal e.bypassCounter, decimal e.byteCounter] := by
  obtain ⟨-, hne, hblank, -⟩ := op.name_spec
  have hdecimal : ∀ v, decimal v ≠ [] ∧ ' ' ∉ decimal v := fun v =>
    ⟨decimal_ne_nil v, not_mem_decimal (by decide) v⟩
  apply PaddedRow.words_row
  simp only [List.forall_mem_cons, he]
  exact ⟨⟨hne, hblank⟩, hdecimal _, hdecimal _, hdecimal _, hdecimal _, List.forall_mem_nil _⟩

theorem newline_not_mem_row {e : StatisticEntry} {op : Operation} (he : e.entryName = op.name) :
    '\n' ∉ e.row := by
  have hdecimal : ∀ v, '\n' ∉ decimal v := not_mem_decimal (by decide)
  intro h
  obtain h | ⟨column, hcolumn, h⟩ := mem_row h
  · exact absurd h (by decide)
  · simp only [List.mem_cons, List.not_mem_nil, or_false] at hcolumn
    obtain rfl | rfl | rfl | rfl | rfl := hcolumn
    · exact op.name_spec.2.2.2 (he ▸ h)
    all_goals exact hdecimal _ h

theorem readRow_row {e : StatisticEntry} {op : Operation} (he : e.entryName = op.name) :
    readRow (String.ofList e.row) = some e := by
  rw [readRow, String.toList_ofList, words_row he]
  simp [readDecimal_decimal]

theorem toString_eq {e : StatisticEntry} {op : Operation} (he : e.entryName = op.name) :
    e.toString = if e.excessDigits ≤ 4 then some (String.ofList e.row) else none := by
  rw [toString, sprintf, length_row he]
  exact if_congr (by omega) rfl rfl

/-- The row of an entry can overrun its buffer. -/
theorem row_overruns_buffer :
    ¬ ∀ (op : Operation) (e : StatisticEntry), e.entryName = op.name →
      ∃ line, e.toString = some line ∧ line.length ≤ 74 ∧ readRow line = some e := by
  intro h
  obtain ⟨line, hline, -, -⟩ := h (.data .read)
    { entryName := "read", operationCounter := 1, byteCounter := 18446744073709551615 } rfl
  rw [toString_eq (show "read" = (Operation.data .read).name from rfl),
    if_neg (by decide)] at hline
  cases hline

/-- The row of an entry fits its buffer and is read back exactly if its counters exceed the
widths of their columns by at most four digits together. -/
theorem toString_fits_iff {e : StatisticEntry} {op : Operation} (he : e.entryName = op.name) :
    (∃ line, e.toString = some line ∧ line.length ≤ 74 ∧ readRow line = some e) ↔
      e.excessDigits ≤ 4 := by
  rw [toString_eq he]
  constructor
  · rintro ⟨line, hline, -, -⟩
    by_contra hexcess
    rw [if_neg hexcess] at hline
    cases hline
  · intro hexcess
    refine ⟨String.ofList e.row, if_pos hexcess, ?_, readRow_row he⟩
    rw [String.length_ofList, length_row he]
    omega

theorem toString_fits_iff_read :
    (∃ line, toString { entryName := "read", operationCounter := 1 } = some line ∧
      line.length ≤ 74 ∧ readRow line = some { entryName := "read", operationCounter := 1 }) ↔
        excessDigits { entryName := "read", operationCounter := 1 } ≤ 4 :=
  toString_fits_iff (show "read" = (Operation.data .read).name from rfl)

/-- Entries are formatted one by one, all of them or none. -/
theorem mapM_toString {entries : List StatisticEntry}
    (hnames : ∀ e ∈ entries, ∃ op : Operation, e.entryName = op.name) :
    entries.mapM toString =
      if ∀ e ∈ entries, e.excessDigits ≤ 4 then some (entries.map fun e => String.ofList e.row)
      else none := by
  induction entries with
  | nil => simp
  | cons e entries ih =>
    obtain ⟨op, he⟩ := hnames e List.mem_cons_self
    rw [List.mapM_cons, toString_eq he, ih fun e' h' => hnames e' (List.mem_cons_of_mem e h')]
    have hcons : (∀ e' ∈ e :: entries, e'.excessDigits ≤ 4) ↔
        e.excessDigits ≤ 4 ∧ ∀ e' ∈ entries, e'.excessDigits ≤ 4 := List.forall_mem_cons
    by_cases hexcess : e.excessDigits ≤ 4
    · by_cases hall : ∀ e' ∈ entries, e'.excessDigits ≤ 4
      · rw [if_pos hexcess, if_pos hall, if_pos (hcons.mpr ⟨hexcess, hall⟩)]
        rfl
      · rw [if_pos hexcess, if_neg hall, if_neg fun h => hall (hcons.mp h).2]
        rfl
    · rw [if_neg hexcess, if_neg fun h => hexcess (hcons.mp h).1]
      rfl

end StatisticEntry

namespace Statistics

/-- The lines above the rows of a report. -/
def preamble (printHeader : Bool) : List (List Char) :=
  if printHeader then [headings, underlines] else [underlines]

theorem reportLines_eq {s : Statistics} (hreported : s.reported ≠ [])
    (hnames : ∀ e ∈ s.reported, ∃ op : Operation, e.entryName = op.name) (printHeader : Bool) :
    s.reportLines printHeader =
      if ∀ e ∈ s.reported, e.excessDigits ≤ 4 then
        some ((preamble printHeader ++ s.reported.map StatisticEntry.row).map String.ofList)
      else none := by
  have hheadings : sprintf 75 headings = some (String.ofList headings) := rfl
  have hunderlines : sprintf 75 underlines = some (String.ofList underlines) := rfl
  rw [reportLines, if_neg hreported, StatisticEntry.mapM_toString hnames, hheadings, hunderlines]
  cases printHeader <;> split <;> simp [preamble]

theorem preamble_lines (printHeader : Bool) :
    ∀ line ∈ preamble printHeader,
      line ≠ [] ∧ '\n' ∉ line ∧ readRow (String.ofList line) = none := by
  cases printHeader <;> decide

/-- Rows below lines that show no entry are read back as their entries. -/
theorem readReport_lines {above : List (List Char)} {entries : List StatisticEntry}
    (habove : ∀ line ∈ above, line ≠ [] ∧ '\n' ∉ line ∧ readRow (String.ofList line) = none)
    (hnames : ∀ e ∈ entries, ∃ op : Operation, e.entryName = op.name) :
    readReport (String.ofList ((above ++ entries.map StatisticEntry.row).flatMap
      fun line => line ++ ['\n'])) = entries := by
  have hrow : ∀ e ∈ entries, e.row ≠ [] ∧ '\n' ∉ e.row ∧
      readRow (String.ofList e.row) = some e := by
    intro e he
    obtain ⟨op, hop⟩ := hnames e he
    have hlength := StatisticEntry.length_row hop
    refine ⟨fun hnil => ?_, StatisticEntry.newline_not_mem_row hop, StatisticEntry.readRow_row hop⟩
    rw [hnil, List.length_nil] at hlength
    omega
  have hlines : ∀ line ∈ above ++ entries.map StatisticEntry.row, line ≠ [] ∧ '\n' ∉ line := by
    intro line hline
    rcases List.mem_append.mp hline with hline | hline
    · exact (habove line hline).imp_right And.left
    · obtain ⟨e, he, rfl⟩ := List.mem_map.mp hline
      exact (hrow e he).imp_right And.left
  have hnone : above.filterMap (fun line => readRow (String.ofList line)) = [] :=
    List.filterMap_eq_nil_iff.mpr fun line hline => (habove line hline).2.2
  rw [readReport, String.toList_ofList, words_lines hlines, List.filterMap_append, hnone,
    List.nil_append, List.filterMap_map]
  have hentries : entries.filterMap
      ((fun line => readRow (String.ofList line)) ∘ StatisticEntry.row) =
        entries.filterMap some := by
    apply List.filterMap_congr
    intro e he
    rw [Function.comp_apply]
    exact (hrow e he).2.2
  rw [hentries, List.filterMap_some]

theorem InitializedWith.reported_named {s : Statistics} {types : List OperationType}
    (h : s.InitializedWith types) : ∀ e ∈ s.reported, ∃ op : Operation, e.entryName = op.name := by
  intro e he
  have hname : e.entryName ∈ s.statisticEntries.map (·.entryName) :=
    List.mem_map_of_mem (List.mem_of_mem_filter he)
  rw [h.names] at hname
  obtain ⟨type, -, hname⟩ := List.mem_flatMap.mp hname
  obtain ⟨op, -, hop⟩ := List.mem_map.mp hname
  exact ⟨op, hop.symm⟩

/-- The report of an initialized container is written exactly if each row fits its buffer, and
then the entries it is to show are read back from it, in order. -/
theorem InitializedWith.toString_iff {s : Statistics} {types : List OperationType}
    (h : s.InitializedWith types) (printHeader : Bool) :
    (∃ text, s.toString printHeader = some text ∧ readReport text = s.reported) ↔
      ∀ e ∈ s.reported, e.excessDigits ≤ 4 := by
  have hnames := h.reported_named
  by_cases hreported : s.reported = []
  · have htext : s.toString printHeader = some "" := by
      rw [Statistics.toString, reportLines, if_pos hreported]
      rfl
    rw [htext, hreported]
    exact iff_of_true ⟨"", rfl, rfl⟩ (List.forall_mem_nil _)
  · rw [Statistics.toString, reportLines_eq hreported hnames]
    by_cases hfits : ∀ e ∈ s.reported, e.excessDigits ≤ 4
    · rw [if_pos hfits]
      refine iff_of_true ⟨_, rfl, ?_⟩ hfits
      simp only [List.flatMap_map, String.toList_ofList]
      exact readReport_lines (preamble_lines printHeader) hnames
    · rw [if_neg hfits]
      refine iff_of_false ?_ hfits
      rintro ⟨text, htext, -⟩
      cases htext

end Statistics

end Padll

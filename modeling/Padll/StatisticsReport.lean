import Padll.PassthroughAccounting
import Padll.ReportRows

/-! The report of a backend: the containers of the five classes below a title, written to a file
of the process. What is read back from it is the accounting of the run. -/
namespace Padll
open PaddedRow

/-- The ids that `getpid` and `getppid` answer. -/
structure Process where
  pid : Int32
  ppid : Int32

/-- An `int` on an output stream. -/
def decimalInt (v : Int32) : List Char :=
  if v < 0 then '-' :: Nat.toDigits 10 v.toInt.natAbs else Nat.toDigits 10 v.toInt.natAbs

def rule : List Char := List.replicate 70 '-'

/-- The lines above the containers of a backend. -/
def titleLines (title : String) (p : Process) : List (List Char) :=
  [rule, title.toList ++ " Statistics (".toList ++ decimalInt p.pid ++ ", ".toList ++
    decimalInt p.ppid ++ ")".toList, rule]

def asText (lines : List (List Char)) : String :=
  String.ofList (lines.flatMap fun line => line ++ ['\n'])

/-- Both backends stream the same containers in the same order below their names. -/
def CallStatistics.toString (s : CallStatistics) (title : String) (p : Process) :
    Option String := do
  let metadata ← s.metadataStats.1.toString true
  let data ← s.dataStats.1.toString false
  let dir ← s.dirStats.1.toString false
  let extAttr ← s.extAttrStats.1.toString false
  let special ← s.specialStats.1.toString false
  some (asText (titleLines title p) ++ metadata ++ data ++ dir ++ extAttr ++ special)

/-- What a report leaves in the file system; no text where formatting it is undefined. -/
structure StatisticsReport where
  file : Path
  text : Option String

def reportFile (path : Path) (name : String) (p : Process) : Path :=
  path ++ "/".toList ++ name.toList ++ decimalInt p.pid ++ ".stat".toList

namespace LdPreloadedPosix
variable {opts : Options}

def toString (o : LdPreloadedPosix opts) (p : Process) : Option String :=
  o.stats.toString "LdPreloadedPosix" p

/-- The file is opened and closed through the libc pointers, not through the methods. -/
def generateStatisticsReport (p : Process) (path : Path) (fopen : LibcCall → FilePtr)
    (fclose : LibcCall → Int32) : LdPreloaded opts (Option StatisticsReport) := do
  let filename := reportFile path "padll-ldpreloaded-stats-" p
  hookPosix .fopen
  hookPosix .fclose
  let fptr ← callLibc .fopen [.text filename, .text "w".toList] fopen
  if fptr = .nullptr then return none
  let report := (← get).object.toString p
  let _ ← callLibc .fclose [.stream fptr] fclose
  return some ⟨filename, report⟩

end LdPreloadedPosix

namespace PosixPassthrough

def toString (o : PosixPassthrough) (p : Process) : Option String :=
  o.stats.toString "PosixPassthrough" p

/-- The file is opened and closed through the methods, which count the calls. -/
def generateStatisticsReport (p : Process) (path : Path) (fopen : LibcCall → FilePtr)
    (fclose : LibcCall → Int32) : Passthrough (Option StatisticsReport) := do
  let filename := reportFile path "padll-passthrough-stats-" p
  let fptr ← passthroughPosixFopen filename "w".toList fopen
  if fptr = .nullptr then return none
  let report := (← get).object.toString p
  let _ ← passthroughPosixFclose fptr fclose
  return some ⟨filename, report⟩

end PosixPassthrough

/-- The operations in the order of a report. -/
def Operation.all : List Operation :=
  OperationType.metadataCalls.values ++ OperationType.dataCalls.values ++
    OperationType.directoryCalls.values ++ OperationType.extAttrCalls.values ++
      OperationType.specialCalls.values

/-- An entry counted something: its operations, errors and bypasses add up to more than zero, in
64 bits. -/
def StatisticEntry.shown (e : StatisticEntry) : Bool :=
  0 < e.operationCounter + e.errorCounter + e.bypassCounter

section Text

private theorem decimalInt_mem {v : Int32} {c : Char} (h : c ∈ decimalInt v) :
    c = '-' ∨ c.isDigit := by
  have hdigit : c ∈ Nat.toDigits 10 v.toInt.natAbs → c.isDigit := fun hc =>
    Nat.isDigit_of_mem_toDigits (by decide) (by decide) hc
  unfold decimalInt at h
  split at h
  · exact (List.mem_cons.mp h).imp_right hdigit
  · exact .inr (hdigit h)

private theorem not_mem_decimalInt {c : Char} (hsign : c ≠ '-') (hdigit : ¬ c.isDigit)
    (v : Int32) : c ∉ decimalInt v := fun h => (decimalInt_mem h).elim hsign hdigit

/-- A report below complete lines is read after them. -/
theorem readReport_append (lines : List (List Char)) (text : String) :
    readReport (asText lines ++ text) = readReport (asText lines) ++ readReport text := by
  have hwords : words '\n' (lines.flatMap (fun line => line ++ ['\n']) ++ text.toList) =
      words '\n' (lines.flatMap fun line => line ++ ['\n']) ++ words '\n' text.toList := by
    induction lines with
    | nil => rfl
    | cons line lines ih =>
      simp only [List.flatMap_cons, List.append_assoc, List.cons_append, List.nil_append,
        words_append_blank, ih]
  rw [readReport, readReport, readReport, asText, String.toList_append, String.toList_ofList, hwords,
    List.filterMap_append]

/-- The title is no row: it has four words. -/
private theorem readReport_titleLines {title : String}
    (htitle : title.toList ≠ [] ∧ ' ' ∉ title.toList ∧ '\n' ∉ title.toList) (p : Process) :
    readReport (asText (titleLines title p)) = [] := by
  have hrule : rule ≠ [] ∧ '\n' ∉ rule ∧ readRow (String.ofList rule) = none := by decide
  have hblank : ∀ v, ' ' ∉ decimalInt v := not_mem_decimalInt (by decide) (by decide)
  have hline : ∀ v, '\n' ∉ decimalInt v := not_mem_decimalInt (by decide) (by decide)
  have hwords : words ' ' (title.toList ++ " Statistics (".toList ++ decimalInt p.pid ++
      ", ".toList ++ decimalInt p.ppid ++ ")".toList) =
      [title.toList, "Statistics".toList, '(' :: (decimalInt p.pid ++ [',']),
        decimalInt p.ppid ++ [')']] := by
    have hsplit : title.toList ++ " Statistics (".toList ++ decimalInt p.pid ++ ", ".toList ++
        decimalInt p.ppid ++ ")".toList = title.toList ++ ' ' :: ("Statistics".toList ++
          ' ' :: (('(' :: (decimalInt p.pid ++ [','])) ++ ' ' :: (decimalInt p.ppid ++ [')']))) := by
      simp
    rw [hsplit, words_append_blank, words_append_blank, words_append_blank,
      words_field htitle.1 htitle.2.1, words_field (by decide) (by decide), words_field (by simp)
        (by simp [hblank]), words_field (by simp) (by simp [hblank])]
    rfl
  have habove : ∀ line ∈ titleLines title p,
      line ≠ [] ∧ '\n' ∉ line ∧ readRow (String.ofList line) = none := by
    intro line hmem
    simp only [titleLines, List.mem_cons, List.not_mem_nil, or_false] at hmem
    obtain rfl | rfl | rfl := hmem
    · exact hrule
    · refine ⟨by simp, by simp [hline, htitle.2.2], ?_⟩
      rw [readRow, String.toList_ofList, hwords]
    · exact hrule
  have hread := Statistics.readReport_lines habove (List.forall_mem_nil _)
  rwa [List.map_nil, List.append_nil] at hread

/-- The lines that a container puts into a report. -/
def Statistics.shownLines (s : Statistics) (printHeader : Bool) : List (List Char) :=
  if s.reported = [] then []
  else preamble printHeader ++ s.reported.map StatisticEntry.row

theorem Statistics.toString_eq_some {s : Statistics}
    (hnames : ∀ e ∈ s.reported, ∃ op : Operation, e.entryName = op.name) (printHeader : Bool)
    (text : String) :
    s.toString printHeader = some text ↔
      (∀ e ∈ s.reported, e.excessDigits ≤ 4) ∧ asText (s.shownLines printHeader) = text := by
  have hlines : s.toString printHeader = if ∀ e ∈ s.reported, e.excessDigits ≤ 4 then
      some (asText (s.shownLines printHeader)) else none := by
    by_cases hreported : s.reported = []
    · rw [Statistics.toString, reportLines, shownLines, if_pos hreported, if_pos hreported,
        hreported, if_pos (List.forall_mem_nil _)]
      rfl
    · rw [Statistics.toString, reportLines_eq hreported hnames, shownLines, if_neg hreported]
      split
      · simp only [Option.map_some, asText, List.flatMap_map, String.toList_ofList]
      · rfl
  rw [hlines]
  by_cases hfits : ∀ e ∈ s.reported, e.excessDigits ≤ 4
  · rw [if_pos hfits, Option.some.injEq]
    exact (and_iff_right hfits).symm
  · rw [if_neg hfits]
    exact iff_of_false (fun h => by cases h) fun h => hfits h.1

theorem Statistics.readReport_shownLines {s : Statistics}
    (hnames : ∀ e ∈ s.reported, ∃ op : Operation, e.entryName = op.name) (printHeader : Bool) :
    readReport (asText (s.shownLines printHeader)) = s.reported := by
  unfold shownLines
  split
  · next hreported => exact hreported.symm
  · exact readReport_lines (preamble_lines printHeader) hnames

end Text

section Containers

/-- The operation at a position of a class is numbered by the position. -/
private theorem values_number {type : OperationType} {i : Nat} {op : Operation}
    (h : type.values[i]? = some op) : op.type = type ∧ op.toInt.toNatClampNeg = i := by
  have htypes : ∀ op ∈ type.values, op.type = type := by
    cases type <;> decide
  have hnumbers : type.values.map (fun op => op.toInt.toNatClampNeg) =
      List.range type.values.length := by
    cases type <;> rfl
  refine ⟨htypes op (List.mem_of_getElem? h), ?_⟩
  obtain ⟨hlt, -⟩ := List.getElem?_eq_some_iff.mp h
  have hnumber := congrArg (·[i]?) hnumbers
  simp only [List.getElem?_map, h, Option.map_some, List.getElem?_range hlt] at hnumber
  exact Option.some.inj hnumber

/-- The entries of a container are those of its operations in order. -/
theorem CallStatistics.entries_eq (s : CallStatistics) (type : OperationType) :
    (s.container type).1.statisticEntries = type.values.map s.entry := by
  have hholds := (s.container type).2
  apply List.ext_getElem?
  intro i
  rw [List.getElem?_map]
  cases hop : type.values[i]? with
  | none =>
    rw [Option.map_none]
    apply List.getElem?_eq_none_iff.mpr
    rw [hholds.length]
    exact List.getElem?_eq_none_iff.mp hop
  | some op =>
    obtain ⟨rfl, rfl⟩ := values_number hop
    have hget := s.getStatisticEntry_eq op
    rw [getStatisticEntry, hholds.get] at hget
    exact hget

/-- What a report of the containers is to show: the entries that counted something, which are those
whose operations, errors and bypasses do not add up to zero in 64 bits. -/
def CallStatistics.reported (s : CallStatistics) : List StatisticEntry :=
  (Operation.all.map s.entry).filter StatisticEntry.shown

private theorem reported_container (s : CallStatistics) (type : OperationType) :
    (s.container type).1.reported = (type.values.map s.entry).filter StatisticEntry.shown := by
  rw [Statistics.reported, s.entries_eq type]
  rfl

private theorem reported_split (s : CallStatistics) :
    s.reported = s.metadataStats.1.reported ++ s.dataStats.1.reported ++ s.dirStats.1.reported ++
      s.extAttrStats.1.reported ++ s.specialStats.1.reported := by
  rw [CallStatistics.reported, Operation.all]
  simp only [List.map_append, List.filter_append, ← reported_container]
  rfl

private theorem reported_named (s : CallStatistics) (type : OperationType) :
    ∀ e ∈ (s.container type).1.reported, ∃ op : Operation, e.entryName = op.name := by
  intro e he
  have hname : e.entryName ∈ (s.container type).1.statisticEntries.map (·.entryName) :=
    List.mem_map_of_mem (List.mem_of_mem_filter he)
  rw [(s.container type).2.names] at hname
  obtain ⟨op, -, hop⟩ := List.mem_map.mp hname
  exact ⟨op, hop.symm⟩

/-- The report of the five containers is written exactly if each row fits its buffer, and then
the entries that counted something are read back from it. -/
theorem CallStatistics.toString_iff (s : CallStatistics) {title : String}
    (htitle : title.toList ≠ [] ∧ ' ' ∉ title.toList ∧ '\n' ∉ title.toList) (p : Process) :
    (∃ text, s.toString title p = some text ∧ readReport text = s.reported) ↔
      ∀ e ∈ s.reported, e.excessDigits ≤ 4 := by
  have hmetadata {text : String} :=
    Statistics.toString_eq_some (reported_named s .metadataCalls) true text
  have hother (type : OperationType) {text : String} :=
    Statistics.toString_eq_some (reported_named s type) false text
  have hread (type : OperationType) := Statistics.readReport_shownLines (reported_named s type)
  rw [reported_split]
  simp only [List.forall_mem_append]
  constructor
  · rintro ⟨text, htext, -⟩
    simp only [CallStatistics.toString, Option.bind_eq_bind, Option.bind_eq_some_iff] at htext
    obtain ⟨_, h₁, _, h₂, _, h₃, _, h₄, _, h₅, -⟩ := htext
    exact ⟨⟨⟨⟨(hmetadata.mp h₁).1, ((hother .dataCalls).mp h₂).1⟩,
      ((hother .directoryCalls).mp h₃).1⟩, ((hother .extAttrCalls).mp h₄).1⟩,
      ((hother .specialCalls).mp h₅).1⟩
  · rintro ⟨⟨⟨⟨h₁, h₂⟩, h₃⟩, h₄⟩, h₅⟩
    have e₁ : s.metadataStats.1.toString true = _ := hmetadata.mpr ⟨h₁, rfl⟩
    have e₂ : s.dataStats.1.toString false = _ := (hother .dataCalls).mpr ⟨h₂, rfl⟩
    have e₃ : s.dirStats.1.toString false = _ := (hother .directoryCalls).mpr ⟨h₃, rfl⟩
    have e₄ : s.extAttrStats.1.toString false = _ := (hother .extAttrCalls).mpr ⟨h₄, rfl⟩
    have e₅ : s.specialStats.1.toString false = _ := (hother .specialCalls).mpr ⟨h₅, rfl⟩
    refine ⟨_, by rw [CallStatistics.toString, e₁, e₂, e₃, e₄, e₅]; rfl, ?_⟩
    simp only [String.append_assoc, readReport_append, readReport_titleLines htitle, hread,
      List.append_assoc, List.nil_append]
    rfl

end Containers

/-- What the enforcing backend is to report of an operation after the calls of a run. -/
def enforcedEntry (records : List CallRecord) (op : Operation) : StatisticEntry where
  entryName := op.name
  operationCounter := UInt64.ofNat ((records.filter (·.collected op)).countP (·.countsAsEnforced))
  byteCounter := (((records.filter (·.collected op)).filter (·.enforced)).map (·.call.bytes)).sum
  errorCounter := UInt64.ofNat ((records.filter (·.collected op)).countP
    fun r => r.enforced && r.call.failed)
  bypassCounter := UInt64.ofNat ((records.filter (·.collected op)).countP (!·.countsAsEnforced))

/-- What the passthrough backend is to report of an operation after the calls of a run. -/
def passedEntry (calls : List PassthroughCall) (op : Operation) : StatisticEntry where
  entryName := op.name
  operationCounter := UInt64.ofNat (calls.countP fun c => c.call.countedIn = some op)
  byteCounter := ((calls.filter fun c => c.call.countedIn = some op && c.call.passes).map
    (·.call.passedBytes)).sum
  errorCounter := UInt64.ofNat (calls.countP fun c => c.call.countedIn = some op && !c.call.passes)

/-- The entries of a report in order: those of the operations that counted something. -/
def reportOf (entry : Operation → StatisticEntry) : List StatisticEntry :=
  (Operation.all.map entry).filter StatisticEntry.shown

/-- A report is written exactly if its file opens, and its entries are read back from it exactly if
each of their rows fits its buffer. -/
def ReportShows (written : Option StatisticsReport) (fptr : FilePtr) (file : Path)
    (entries : List StatisticEntry) : Prop :=
  (written.isSome ↔ fptr ≠ .nullptr) ∧
    ∀ report ∈ written, report.file = file ∧
      ((∃ text, report.text = some text ∧ readReport text = entries) ↔
        ∀ e ∈ entries, e.excessDigits ≤ 4)

theorem CallStatistics.reportShows (s : CallStatistics) {title : String}
    (htitle : title.toList ≠ [] ∧ ' ' ∉ title.toList ∧ '\n' ∉ title.toList) (p : Process)
    {entry : Operation → StatisticEntry} (hentry : ∀ op, s.entry op = entry op)
    {written : Option StatisticsReport} {fptr : FilePtr} {file : Path}
    (hwritten : written = if fptr = .nullptr then none else some ⟨file, s.toString title p⟩) :
    ReportShows written fptr file (reportOf entry) := by
  have hentries : s.reported = reportOf entry := by
    rw [reported, funext hentry]
    rfl
  rw [ReportShows, hwritten, ← hentries]
  constructor
  · split <;> simp [*]
  · split
    · rintro report ⟨⟩
    · rintro report ⟨⟩
      exact ⟨rfl, s.toString_iff htitle p⟩

namespace LdPreloadedPosix
variable {opts : Options}

theorem entry_run (collect : Bool) (prng : Nat → UInt32) (actions : List Action)
    (op : Operation) :
    (run actions (construct collect prng : LdPreloadedPosix opts)).2.stats.entry op =
      enforcedEntry (run actions (construct collect prng : LdPreloadedPosix opts)).1 op := by
  have hfresh : (construct collect prng : LdPreloadedPosix opts).stats.entry op =
      { entryName := op.name } := CallStatistics.entry_default op
  have hname := run_entryName op actions (construct collect prng : LdPreloadedPosix opts)
  have hoperation := run_operationCounter op actions (construct collect prng : LdPreloadedPosix opts)
  have hbyte := run_byteCounter op actions (construct collect prng : LdPreloadedPosix opts)
  have herror := run_errorCounter op actions (construct collect prng : LdPreloadedPosix opts)
  have hbypass := run_bypassCounter op actions (construct collect prng : LdPreloadedPosix opts)
  simp only [hfresh, UInt64.zero_add] at hname hoperation hbyte herror hbypass
  generalize (run actions (construct collect prng : LdPreloadedPosix opts)).2.stats.entry op = e at *
  cases e
  simp only at hname hoperation hbyte herror hbypass
  rw [enforcedEntry, hname, hoperation, hbyte, herror, hbypass]

theorem generateStatisticsReport_apply (p : Process) (path : Path) (fptr : FilePtr)
    (result : Int32) (o : LdPreloadedPosix opts) (events : List Event) :
    let written := generateStatisticsReport p path (fun _ => fptr) (fun _ => result) ⟨o, events⟩
    written.1 = (if fptr = .nullptr then none
      else some ⟨reportFile path "padll-ldpreloaded-stats-" p, o.toString p⟩) ∧
    written.2.object =
      { o with hooked := Function.update (Function.update o.hooked .fopen true) .fclose true } := by
  cases fptr with
  | nullptr => exact ⟨rfl, rfl⟩
  | _ => exact ⟨rfl, rfl⟩

/-- A report is written after a run exactly if its file opens. It shows of every operation what
the run counted, which is read back exactly if each row fits its buffer, and writing it leaves
statistics and tables as they were. -/
theorem report_reads_back (p : Process) (path : Path) (fptr : FilePtr) (result : Int32)
    (collect : Bool) (prng : Nat → UInt32) (actions : List Action) :
    let final := run actions (construct collect prng : LdPreloadedPosix opts)
    let written := generateStatisticsReport p path (fun _ => fptr) (fun _ => result) ⟨final.2, []⟩
    let entries := reportOf (enforcedEntry final.1)
    written.2.object.stats = final.2.stats ∧
      written.2.object.mountPointTable = final.2.mountPointTable ∧
      (written.1.isSome ↔ fptr ≠ .nullptr) ∧
      ∀ report ∈ written.1, report.file = reportFile path "padll-ldpreloaded-stats-" p ∧
        ((∃ text, report.text = some text ∧ readReport text = entries) ↔
          ∀ e ∈ entries, e.excessDigits ≤ 4) := by
  intro final written entries
  obtain ⟨hwritten, hobject⟩ := generateStatisticsReport_apply p path fptr result final.2 []
  exact ⟨congrArg (·.stats) hobject, congrArg (·.mountPointTable) hobject,
    final.2.stats.reportShows (by decide) p (entry_run collect prng actions) hwritten⟩

end LdPreloadedPosix

namespace PosixPassthrough

/-- A counter of one operation grows by what the calls counted in its entry add to it. -/
theorem run_sum (op : Operation) {counter : StatisticEntry → UInt64}
    {added : StatisticUpdate → UInt64}
    (happly : ∀ u e, counter (u.applyEntry e) = counter e + added u)
    (calls : List PassthroughCall) {o : PosixPassthrough} (hcollect : o.collect = true) :
    counter ((run calls o).2.stats.entry op) = counter (o.stats.entry op) +
      (calls.map fun c =>
        if c.call.countedIn = some op then added c.call.passthroughUpdate else 0).sum := by
  let weight : PosixCall → UInt64 := fun c =>
    if c.countedIn = some op then added c.passthroughUpdate else 0
  have hcalls := congrArg (List.map weight) (run_calls calls o)
  simp only [List.map_map] at hcalls
  refine Eq.trans ?_ (congrArg (counter (o.stats.entry op) + ·.sum) hcalls)
  refine OutputMachine.run_tally (I := fun s : PosixPassthrough => s.collect = true)
    (fun s => counter (s.stats.entry op)) (weight ∘ CallRecord.call) ?_ ?_ calls hcollect
  · intro c s hs
    rw [step_eq]
    exact (after_collect c.call s).trans hs
  · intro c s hs
    rw [step_eq, entry_after c.call hs]
    simp only [List.map_cons, List.map_nil, List.sum_cons, List.sum_nil, add_zero,
      Function.comp_apply, weight]
    split
    · exact happly _ _
    · exact (add_zero _).symm

theorem run_byteCounter (op : Operation) (calls : List PassthroughCall) {o : PosixPassthrough}
    (hcollect : o.collect = true) :
    ((run calls o).2.stats.entry op).byteCounter = (o.stats.entry op).byteCounter +
      ((calls.filter fun c => c.call.countedIn = some op && c.call.passes).map
        (·.call.passedBytes)).sum := by
  rw [run_sum op StatisticUpdate.applyEntry_byteCounter calls hcollect,
    ← OutputMachine.sum_map_filter]
  congr 3
  funext c
  rw [PosixCall.passthroughUpdate]
  cases c.call.passes <;> simp [StatisticUpdate.bytes]

/-- The passthrough backend leaves the bypass counters alone. -/
theorem run_bypassCounter (op : Operation) (calls : List PassthroughCall) {o : PosixPassthrough}
    (hcollect : o.collect = true) :
    ((run calls o).2.stats.entry op).bypassCounter = (o.stats.entry op).bypassCounter := by
  have hnone : ∀ c : PosixCall, c.passthroughUpdate.bypasses = 0 := by
    intro c
    rw [PosixCall.passthroughUpdate]
    cases c.passes <;> rfl
  rw [run_sum op StatisticUpdate.applyEntry_bypassCounter calls hcollect]
  simp [hnone]

theorem entry_run (calls : List PassthroughCall) (op : Operation) :
    (run calls (construct true)).2.stats.entry op = passedEntry calls op := by
  have hfresh : (construct true).stats.entry op = { entryName := op.name } :=
    CallStatistics.entry_default op
  have hcollect : (construct true).collect = true := rfl
  have hname := run_entryName op calls hcollect
  have hoperation := run_operationCounter op calls hcollect
  have hbyte := run_byteCounter op calls hcollect
  have herror := run_errorCounter op calls hcollect
  have hbypass := run_bypassCounter op calls hcollect
  simp only [hfresh, UInt64.zero_add] at hname hoperation hbyte herror hbypass
  generalize (run calls (construct true)).2.stats.entry op = e at *
  cases e
  simp only at hname hoperation hbyte herror hbypass
  rw [passedEntry, hname, hoperation, hbyte, herror, hbypass]

/-- Further calls on an object that holds the accounting of some calls. -/
theorem entry_run_append {calls : List PassthroughCall} {o : PosixPassthrough}
    (hcollect : o.collect = true) (hentry : ∀ op, o.stats.entry op = passedEntry calls op)
    (later : List PassthroughCall) (op : Operation) :
    (run later o).2.stats.entry op = passedEntry (calls ++ later) op := by
  induction later generalizing calls o with
  | nil =>
    rw [List.append_nil]
    exact hentry op
  | cons c later ih =>
    have hafter : ∀ op, (after c.call o).stats.entry op = passedEntry (calls ++ [c]) op := by
      intro op
      have hrun : (run (calls ++ [c]) (construct true)).2 =
          after c.call (run calls (construct true)).2 := by
        rw [run, OutputMachine.run_append, OutputMachine.run_cons, step_eq]
        rfl
      rw [← entry_run, hrun, entry_after c.call hcollect, hentry, ← entry_run,
        entry_after c.call (run_collect calls _)]
    rw [run, OutputMachine.run_cons, step_eq, List.append_cons]
    exact ih ((after_collect c.call o).trans hcollect) hafter

/-- The call by which the report file is opened. -/
def reportFopen (p : Process) (path : Path) (fptr : FilePtr) : PassthroughCall :=
  ⟨.fopen (reportFile path "padll-passthrough-stats-" p) "w".toList fptr, fun h => by cases h⟩

/-- The call by which the report file is closed. -/
def reportFclose (fptr : FilePtr) (result : Int32) : PassthroughCall :=
  ⟨.fclose fptr result, fun h => by cases h⟩

/-- What writing the report does to the object: two calls, or one where the file does not open. -/
def reportCalls (p : Process) (path : Path) (fptr : FilePtr) (result : Int32) :
    List PassthroughCall :=
  reportFopen p path fptr :: if fptr = .nullptr then [] else [reportFclose fptr result]

theorem generateStatisticsReport_apply (p : Process) (path : Path) (fptr : FilePtr)
    (result : Int32) (o : PosixPassthrough) (events : List Event) :
    let written := generateStatisticsReport p path (fun _ => fptr) (fun _ => result) ⟨o, events⟩
    written.1 = (if fptr = .nullptr then none
      else some ⟨reportFile path "padll-passthrough-stats-" p,
        (run [reportFopen p path fptr] o).2.toString p⟩) ∧
    written.2.object = (run (reportCalls p path fptr result) o).2 := by
  obtain ⟨collect, stats⟩ := o
  cases fptr with
  | nullptr => cases collect <;> exact ⟨rfl, rfl⟩
  | _ => cases collect <;> exact ⟨rfl, rfl⟩

/-- The report of the passthrough backend is part of what it reports: the opening of the file is
counted in it, and the closing comes after the text is made. -/
theorem report_counts_itself (p : Process) (path : Path) (fptr : FilePtr) (result : Int32)
    (calls : List PassthroughCall) :
    let final := (run calls (construct true)).2
    let written := generateStatisticsReport p path (fun _ => fptr) (fun _ => result) ⟨final, []⟩
    let entries := reportOf (passedEntry (calls ++ [reportFopen p path fptr]))
    (∀ op, written.2.object.stats.entry op =
        passedEntry (calls ++ reportCalls p path fptr result) op) ∧
      (written.1.isSome ↔ fptr ≠ .nullptr) ∧
      ∀ report ∈ written.1, report.file = reportFile path "padll-passthrough-stats-" p ∧
        ((∃ text, report.text = some text ∧ readReport text = entries) ↔
          ∀ e ∈ entries, e.excessDigits ≤ 4) := by
  intro final written entries
  obtain ⟨hwritten, hobject⟩ := generateStatisticsReport_apply p path fptr result final []
  have hentry := entry_run_append (run_collect calls (construct true)) (entry_run calls)
  refine ⟨fun op => ?_, CallStatistics.reportShows _ (by decide) p (hentry _) hwritten⟩
  rw [hobject]
  exact hentry _ op

end PosixPassthrough

end Padll

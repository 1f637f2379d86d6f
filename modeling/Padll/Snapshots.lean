import Padll.ConcurrentUpdates

/-! Copying an entry while threads update it: the copy constructor reads one counter after the
other and takes no lock of the entry, so that increments come in between its reads. -/
namespace Padll
open Interleaving ThreadPrograms

namespace StatisticEntry

/-- The order in which the copy constructor initializes the counters. -/
def copyOrder : List Counter := [.operation, .byte, .error, .bypass]

/-- Read one counter of an entry into a copy of it. -/
def readCounter (copy e : StatisticEntry) : Counter → StatisticEntry
  | .operation => { copy with operationCounter := e.operationCounter }
  | .byte => { copy with byteCounter := e.byteCounter }
  | .error => { copy with errorCounter := e.errorCounter }
  | .bypass => { copy with bypassCounter := e.bypassCounter }

theorem readCounter_counter (copy e : StatisticEntry) (read c : Counter) :
    (copy.readCounter e read).counter c = if read = c then e.counter c else copy.counter c := by
  cases read <;> cases c <;> rfl

/-- With no increment in between, the reads make up the entry that a lookup reports. -/
theorem copy_uninterrupted (e : StatisticEntry) :
    copyOrder.foldl (fun copy c => copy.readCounter e c) { entryName := e.entryName } = e := rfl

end StatisticEntry

/-- To the entry that a lookup reports, an increment of a call on the same entry is just that. -/
theorem Statistics.getStatisticEntry_increment {s : Statistics} {operation : Int32}
    {step : Int32 × CounterIncrement} (h : s.position step.1 = s.position operation) :
    (s.increment step).getStatisticEntry operation =
      (s.getStatisticEntry operation).map step.2.apply := by
  rw [getStatisticEntry, increment, position_congr (s.modifyEntry_statsSize step.1 _), modifyEntry,
    h, getStatisticEntry]
  cases s.position operation with
  | none => rfl
  | some position => simp

/-- The next increment of a thread does not take its counter past 2^64. -/
def IncrementFits {Tid : Type} (s : System Tid CounterIncrement StatisticEntry) (t : Tid) : Prop :=
  ∀ i ∈ (s.rest t).head?, (s.shared.counter i.counter).toNat + i.amount.toNat < 2^64

instance {Tid : Type} (s : System Tid CounterIncrement StatisticEntry) (t : Tid) :
    Decidable (IncrementFits s t) :=
  inferInstanceAs (Decidable (∀ i ∈ (s.rest t).head?, _ < 2^64))

theorem IncrementFits.lt {Tid : Type} {s : System Tid CounterIncrement StatisticEntry} {t : Tid}
    (h : IncrementFits s t) {i : CounterIncrement} {rest : List CounterIncrement}
    (hrest : s.rest t = i :: rest) :
    (s.shared.counter i.counter).toNat + i.amount.toNat < 2^64 :=
  h i (hrest ▸ rfl)

/-- Threads that update one entry, and a copy of it in the making. -/
structure EntryCopy (Tid : Type) where
  updates : System Tid CounterIncrement StatisticEntry
  copy : StatisticEntry
  unread : List Counter

namespace EntryCopy
variable {Tid : Type}

inductive Action (Tid : Type) where
  | increment (t : Tid)
  | read

def start (e : StatisticEntry) (calls : Tid → List EntryUpdate) : EntryCopy Tid where
  updates := ⟨e, fun t => (calls t).flatMap EntryUpdate.increments⟩
  copy := { entryName := e.entryName }
  unread := StatisticEntry.copyOrder

def next [DecidableEq Tid] (s : EntryCopy Tid) : Action Tid → Option (EntryCopy Tid)
  | .increment t => (s.updates.next CounterIncrement.apply t).map fun updates => { s with updates }
  | .read =>
    match s.unread with
    | [] => none
    | c :: unread => some { s with copy := s.copy.readCounter s.updates.shared c, unread }

def NoWrap (s : EntryCopy Tid) : Action Tid → Prop
  | .increment t => IncrementFits s.updates t
  | .read => True

/-- The threads that increment before the copy has read as many counters and goes on to the next,
in the order of a schedule. -/
def untilRead : Nat → List (Action Tid) → List Tid
  | _, [] => []
  | n, .increment t :: actions => t :: untilRead n actions
  | 0, .read :: _ => []
  | n + 1, .read :: actions => untilRead n actions

/-- The threads that increment between the first and the third read, those of the operation and of
the error counter. -/
def betweenReads : List (Action Tid) → List Tid
  | [] => []
  | .increment _ :: actions => betweenReads actions
  | .read :: actions => untilRead 1 actions

/-- If the next increment of a thread counts errors, the entry then has at most as many errors as
some number of operations. -/
def ErrorsWithin (operations : UInt64) (s : System Tid CounterIncrement StatisticEntry)
    (t : Tid) : Prop :=
  ∀ i ∈ (s.rest t).head?, i.counter = .error →
    s.shared.errorCounter.toNat + i.amount.toNat ≤ operations.toNat

/-- No errors counted between the two reads take the error counter of the entry past the operation
counter it has at the first of them. -/
def ErrorsCovered [DecidableEq Tid] (updates : System Tid CounterIncrement StatisticEntry)
    (actions : List (Action Tid)) : Prop :=
  ∀ first ∈ exec (System.next CounterIncrement.apply) updates (untilRead 0 actions),
    Along (System.next CounterIncrement.apply) (ErrorsWithin first.shared.operationCounter) first
      (betweenReads actions)

instance (s : EntryCopy Tid) : (a : Action Tid) → Decidable (s.NoWrap a)
  | .increment t => inferInstanceAs (Decidable (IncrementFits s.updates t))
  | .read => inferInstanceAs (Decidable True)

/-- A copy can report an error whose operation it has not seen. -/
theorem torn_copy :
    ¬ ∀ (e : StatisticEntry) (calls : Bool → List EntryUpdate) (actions : List (Action Bool))
      (s : EntryCopy Bool), e.errorCounter ≤ e.operationCounter →
      (∀ t, ∀ u ∈ calls t, u.amount .error ≤ u.amount .operation) →
      exec next (start e calls) actions = some s → Along next NoWrap (start e calls) actions →
      s.unread = [] → s.copy.errorCounter ≤ s.copy.operationCounter := by
  intro h
  have hcopy := h { entryName := "read" }
    (fun t => if t then [.updateStatisticEntryWithError 1 1 0 1] else [])
    [.read, .increment true, .increment true, .increment true, .read, .read, .read] _
    (by decide) (by intro t; cases t <;> decide) rfl (by decide) rfl
  exact absurd hcopy (by decide)

end EntryCopy

/-- The errors that are counted before the next operations are. -/
def pendingErrors : List CounterIncrement → Nat
  | [] => 0
  | ⟨.error, amount⟩ :: rest => amount.toNat + pendingErrors rest
  | ⟨.operation, _⟩ :: _ => 0
  | ⟨.byte, _⟩ :: rest | ⟨.bypass, _⟩ :: rest => pendingErrors rest

/-- The operations counted last cover the errors that are counted before the next. -/
def CoversErrors : List CounterIncrement → Prop
  | [] => True
  | ⟨.operation, amount⟩ :: rest => pendingErrors rest ≤ amount.toNat ∧ CoversErrors rest
  | ⟨.error, _⟩ :: rest | ⟨.byte, _⟩ :: rest | ⟨.bypass, _⟩ :: rest => CoversErrors rest

theorem coversErrors_calls {calls : List EntryUpdate}
    (hcalls : ∀ u ∈ calls, u.amount .error ≤ u.amount .operation) :
    CoversErrors (calls.flatMap EntryUpdate.increments) ∧
      pendingErrors (calls.flatMap EntryUpdate.increments) = 0 := by
  induction calls with
  | nil => exact ⟨trivial, rfl⟩
  | cons u calls ih =>
    obtain ⟨hcovers, hpending⟩ := ih fun v hv => hcalls v (List.mem_cons_of_mem u hv)
    have hu := UInt64.le_iff_toNat_le.mp (hcalls u List.mem_cons_self)
    rw [List.flatMap_cons]
    cases u with
    | updateStatisticEntry operationType operationValue byteValue =>
      exact ⟨⟨hpending.trans_le (Nat.zero_le _), hcovers⟩, rfl⟩
    | updateStatisticEntryWithError operationType operationValue byteValue errorValue =>
      refine ⟨⟨?_, hcovers⟩, rfl⟩
      simpa [pendingErrors, hpending, EntryUpdate.amount] using hu
    | updateBypassedStatisticEntry operationType bypassValue => exact ⟨hcovers, hpending⟩

/-- The operations counted cover the errors counted and those that the threads still count for
operations counted before. -/
structure ErrorsBacked {Tid : Type} [Fintype Tid] (s : System Tid CounterIncrement StatisticEntry) :
    Prop where
  bound : s.shared.errorCounter.toNat + s.total pendingErrors ≤ s.shared.operationCounter.toNat
  covers : ∀ t, CoversErrors (s.rest t)

theorem CounterIncrement.apply_counter_toNat {i : CounterIncrement} {e : StatisticEntry}
    (hwrap : (e.counter i.counter).toNat + i.amount.toNat < 2^64) (c : Counter) :
    ((i.apply e).counter c).toNat =
      (e.counter c).toNat + if i.counter = c then i.amount.toNat else 0 := by
  rw [CounterIncrement.apply_counter]
  split
  · next hc =>
    subst hc
    rw [UInt64.toNat_add, Nat.mod_eq_of_lt hwrap]
  · rfl

theorem CoversErrors.tail {i : CounterIncrement} {rest : List CounterIncrement}
    (h : CoversErrors (i :: rest)) : CoversErrors rest := by
  obtain ⟨counter, amount⟩ := i
  cases counter with
  | operation => exact h.2
  | _ => exact h

/-- An operation counted adds at least what is pending after it, an error what was pending. -/
theorem CoversErrors.pendingErrors_le {i : CounterIncrement} {rest : List CounterIncrement}
    (h : CoversErrors (i :: rest)) :
    pendingErrors rest + (if i.counter = .error then i.amount.toNat else 0) ≤
      pendingErrors (i :: rest) + if i.counter = .operation then i.amount.toNat else 0 := by
  obtain ⟨counter, amount⟩ := i
  cases counter with
  | operation => simpa [pendingErrors] using h.1
  | error => simp [pendingErrors, Nat.add_comm]
  | byte => simp [pendingErrors]
  | bypass => simp [pendingErrors]

theorem ErrorsBacked.of_calls {Tid : Type} [Fintype Tid] {e : StatisticEntry}
    (he : e.errorCounter ≤ e.operationCounter) {calls : Tid → List EntryUpdate}
    (hcalls : ∀ t, ∀ u ∈ calls t, u.amount .error ≤ u.amount .operation) :
    ErrorsBacked ⟨e, fun t => (calls t).flatMap EntryUpdate.increments⟩ where
  bound := by
    have hzero : System.total pendingErrors
        ⟨e, fun t => (calls t).flatMap EntryUpdate.increments⟩ = 0 :=
      Finset.sum_eq_zero fun t _ => (coversErrors_calls (hcalls t)).2
    rw [hzero]
    exact UInt64.le_iff_toNat_le.mp he
  covers t := (coversErrors_calls (hcalls t)).1

theorem ErrorsBacked.next {Tid : Type} [Fintype Tid] [DecidableEq Tid]
    {s s' : System Tid CounterIncrement StatisticEntry} {t : Tid} (h : ErrorsBacked s)
    (hfits : IncrementFits s t) (hnext : s.next CounterIncrement.apply t = some s') :
    ErrorsBacked s' := by
  obtain ⟨i, rest, hrest, rfl⟩ := System.next_eq_some hnext
  have hlt := hfits.lt hrest
  have hcovers := h.covers t
  rw [hrest] at hcovers
  constructor
  · obtain ⟨others, hbefore, hafter⟩ :=
      System.total_update pendingErrors s t (i.apply s.shared) rest
    have hbound := h.bound
    rw [hbefore, hrest] at hbound
    have hpending := hcovers.pendingErrors_le
    have hoperations := CounterIncrement.apply_counter_toNat hlt .operation
    have herrors := CounterIncrement.apply_counter_toNat hlt .error
    rw [hafter]
    simp only [StatisticEntry.counter] at hoperations herrors ⊢
    omega
  · exact (Function.forall_update_iff s.rest fun _ rest => CoversErrors rest).mpr
      ⟨hcovers.tail, fun u _ => h.covers u⟩

/-- No interleaving takes the errors counted past the operations counted, so that a copy made
under the lock of the entry would never show it. -/
theorem ErrorsBacked.reaches_le {Tid : Type} [Fintype Tid] [DecidableEq Tid]
    {s s' : System Tid CounterIncrement StatisticEntry} (h : ErrorsBacked s)
    (hrun : Reaches (System.next CounterIncrement.apply) IncrementFits s s') :
    s'.shared.errorCounter ≤ s'.shared.operationCounter := by
  have hbacked : ErrorsBacked s' :=
    hrun.invariant (fun _ _ _ hs hfits hnext => hs.next hfits hnext) h
  have hbound := hbacked.bound
  rw [UInt64.le_iff_toNat_le]
  omega

namespace EntryCopy
variable {Tid : Type}

section Steps
variable [DecidableEq Tid]

theorem next_increment {s s' : EntryCopy Tid} {t : Tid} (h : s.next (.increment t) = some s') :
    ∃ updates, s.updates.next CounterIncrement.apply t = some updates ∧
      s' = { s with updates } := by
  obtain ⟨updates, hupdates, rfl⟩ := Option.map_eq_some_iff.mp h
  exact ⟨updates, hupdates, rfl⟩

theorem next_read {s s' : EntryCopy Tid} (h : s.next .read = some s') :
    ∃ c unread, s.unread = c :: unread ∧
      s' = { s with copy := s.copy.readCounter s.updates.shared c, unread } := by
  cases hunread : s.unread with
  | nil => simp [next, hunread] at h
  | cons c unread =>
    simp only [next, hunread, Option.some.injEq] at h
    exact ⟨c, unread, rfl, h.symm⟩

/-- A counter that has been read stays what it was when it was read. -/
theorem copy_kept {s s' : EntryCopy Tid} {actions : List (Action Tid)}
    (hrun : exec next s actions = some s') {c : Counter} (hc : c ∉ s.unread) :
    s'.copy.counter c = s.copy.counter c := by
  induction actions generalizing s with
  | nil =>
    obtain rfl := Option.some.inj hrun
    rfl
  | cons a actions ih =>
    obtain ⟨m, hm, hrest⟩ := Option.bind_eq_some_iff.mp hrun
    cases a with
    | increment t =>
      obtain ⟨updates, -, rfl⟩ := next_increment hm
      have hkept := ih hrest hc
      exact hkept
    | read =>
      obtain ⟨read, unread, hunread, rfl⟩ := next_read hm
      rw [hunread, List.mem_cons, not_or] at hc
      rw [ih hrest hc.2, StatisticEntry.readCounter_counter, if_neg (Ne.symm hc.1)]

/-- A copy shows of each counter what the entry holds when the counter is read. -/
theorem copy_counter {s s' : EntryCopy Tid} {actions : List (Action Tid)}
    (hrun : exec next s actions = some s') (hread : s'.unread = []) (honce : s.unread.Nodup)
    {n : Nat} {c : Counter} (hc : s.unread[n]? = some c) :
    ∃ m, exec (System.next CounterIncrement.apply) s.updates (untilRead n actions) = some m ∧
      s'.copy.counter c = m.shared.counter c := by
  induction actions generalizing s n with
  | nil =>
    obtain rfl := Option.some.inj hrun
    rw [hread] at hc
    cases hc
  | cons a actions ih =>
    obtain ⟨m, hm, hrest⟩ := Option.bind_eq_some_iff.mp hrun
    cases a with
    | increment t =>
      obtain ⟨updates, hupdates, rfl⟩ := next_increment hm
      obtain ⟨last, hlast, hcopy⟩ := ih hrest honce hc
      exact ⟨last, by rw [untilRead, exec_cons, hupdates]; exact hlast, hcopy⟩
    | read =>
      obtain ⟨read, unread, hunread, rfl⟩ := next_read hm
      rw [hunread] at honce hc
      obtain ⟨hfirst, honce⟩ := List.nodup_cons.mp honce
      cases n with
      | zero =>
        obtain rfl := Option.some.inj hc
        refine ⟨s.updates, rfl, ?_⟩
        rw [copy_kept hrest hfirst, StatisticEntry.readCounter_counter, if_pos rfl]
      | succ n => exact ih hrest honce hc

omit [DecidableEq Tid] in
theorem untilRead_two (actions : List (Action Tid)) :
    untilRead 2 actions = untilRead 0 actions ++ betweenReads actions := by
  induction actions with
  | nil => rfl
  | cons a actions ih =>
    cases a with
    | increment t => exact congrArg (t :: ·) ih
    | read => rfl

theorem increments_fit {s s' : EntryCopy Tid} {actions : List (Action Tid)}
    (hrun : exec next s actions = some s') (hwrap : Along next NoWrap s actions) (n : Nat) :
    Along (System.next CounterIncrement.apply) IncrementFits s.updates (untilRead n actions) := by
  induction actions generalizing s n with
  | nil => cases n <;> trivial
  | cons a actions ih =>
    obtain ⟨m, hm, hrest⟩ := Option.bind_eq_some_iff.mp hrun
    obtain ⟨hfirst, hlater⟩ := (along_cons hm actions).mp hwrap
    cases a with
    | increment t =>
      obtain ⟨updates, hupdates, rfl⟩ := next_increment hm
      rw [untilRead, along_cons hupdates]
      exact ⟨hfirst, ih hrest hlater n⟩
    | read =>
      obtain ⟨read, unread, -, rfl⟩ := next_read hm
      cases n with
      | zero => trivial
      | succ n => exact ih hrest hlater n

/-- Increments leave the errors of an entry within some operations exactly if they were and each
of the increments that count errors does. -/
theorem errors_le_iff {s s' : System Tid CounterIncrement StatisticEntry} {threads : List Tid}
    (hrun : exec (System.next CounterIncrement.apply) s threads = some s')
    (hfits : Along (System.next CounterIncrement.apply) IncrementFits s threads)
    (operations : UInt64) :
    s'.shared.errorCounter ≤ operations ↔ s.shared.errorCounter ≤ operations ∧
      Along (System.next CounterIncrement.apply) (ErrorsWithin operations) s threads := by
  have hstep : ∀ (s : System Tid CounterIncrement StatisticEntry) t s', True →
      IncrementFits s t → s.next CounterIncrement.apply t = some s' →
        (s'.shared.errorCounter ≤ operations ↔
          s.shared.errorCounter ≤ operations ∧ ErrorsWithin operations s t) := by
    intro s t s' _ hfits hnext
    obtain ⟨i, rest, hrest, rfl⟩ := System.next_eq_some hnext
    have herrors := CounterIncrement.apply_counter_toNat (hfits.lt hrest) .error
    have hwithin : ErrorsWithin operations s t ↔ (i.counter = .error →
        s.shared.errorCounter.toNat + i.amount.toNat ≤ operations.toNat) := by
      simp only [ErrorsWithin, hrest, List.head?_cons, Option.mem_some_iff, forall_eq']
    rw [hwithin, UInt64.le_iff_toNat_le, UInt64.le_iff_toNat_le]
    simp only [StatisticEntry.counter] at herrors
    rw [herrors]
    by_cases hcounter : i.counter = .error
    · simp only [hcounter, if_true, true_implies]
      omega
    · simp only [hcounter, if_false, Nat.add_zero, false_implies, and_true]
  exact exec_good_iff (fun _ _ _ _ _ _ => trivial) hstep trivial hrun hfits

/-- A copy shows at most as many errors as operations exactly if no errors counted between its
reads of the two counters take the errors of the entry past the operations it had at the first. -/
theorem copy_errors_le_iff [Fintype Tid] {e : StatisticEntry}
    (he : e.errorCounter ≤ e.operationCounter) {calls : Tid → List EntryUpdate}
    (hcalls : ∀ t, ∀ u ∈ calls t, u.amount .error ≤ u.amount .operation)
    {actions : List (Action Tid)} {s : EntryCopy Tid}
    (hrun : exec next (start e calls) actions = some s)
    (hwrap : Along next NoWrap (start e calls) actions) (hread : s.unread = []) :
    s.copy.errorCounter ≤ s.copy.operationCounter ↔
      ErrorsCovered (start e calls).updates actions := by
  have honce : StatisticEntry.copyOrder.Nodup := by decide
  obtain ⟨first, hfirst, hoperations⟩ := copy_counter hrun hread honce (n := 0) rfl
  obtain ⟨last, hlast, herrors⟩ := copy_counter hrun hread honce (n := 2) rfl
  simp only [StatisticEntry.counter] at hoperations herrors
  have hfits := increments_fit hrun hwrap 2
  rw [untilRead_two, exec_append, hfirst, Option.bind_some] at hlast
  rw [untilRead_two, along_append hfirst] at hfits
  have hbacked : first.shared.errorCounter ≤ first.shared.operationCounter :=
    (ErrorsBacked.of_calls he hcalls).reaches_le (.of_along hfits.1 hfirst)
  have hcovered : ErrorsCovered (start e calls).updates actions ↔
      Along (System.next CounterIncrement.apply) (ErrorsWithin first.shared.operationCounter)
        first (betweenReads actions) := by
    simp only [ErrorsCovered, hfirst, Option.mem_some_iff, forall_eq']
  rw [hoperations, herrors, hcovered, errors_le_iff hlast hfits.2, and_iff_right hbacked]

theorem copy_errors_le_iff_covered :
    ∃ s, exec next (start { entryName := "read", operationCounter := 3 } fun t : Bool =>
        if t then [.updateStatisticEntryWithError 1 1 0 1] else [])
          [.read, .increment true, .increment true, .increment true, .read, .read, .read] = some s ∧
      (s.copy.errorCounter ≤ s.copy.operationCounter ↔
        ErrorsCovered (start { entryName := "read", operationCounter := 3 }
          fun t : Bool => if t then [.updateStatisticEntryWithError 1 1 0 1] else []).updates
            [.read, .increment true, .increment true, .increment true, .read, .read, .read]) :=
  ⟨_, rfl, copy_errors_le_iff (by decide) (by intro t; cases t <;> decide) rfl (by decide) rfl⟩

end Steps

end EntryCopy

end Padll

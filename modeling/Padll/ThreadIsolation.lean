import Padll.ConcurrentEnforcing
import Padll.LoadBalancing

/-! Isolation of threads: calls that settle no entry another thread goes by leave it with the
records of a run of its own, and the entries with what those runs count. -/
namespace Padll
open Interleaving KeyedMap ThreadCalls
variable {opts : Options}

section Keys

/-- The entries that a selection depends on. A path has none; a close looks its descriptor up too,
but chooses by force where that yields no workflow, so that it is submitted whatever it finds. -/
def Selection.keys : Selection → List EntryKey
  | path _ | closing _ => []
  | descriptor fd => [.fd fd]
  | stream fptr => [.ptr fptr]

def Control.keys : Control → List EntryKey
  | submitted selection .. => selection.keys
  | unsubmitted _ => []

/-- The entries that a mutation is about. -/
def Mutation.keys : Mutation → List EntryKey
  | createMountPointEntry key _ | removeMountPointEntry key => [key]
  | replaceFileDescriptor oldFd newFd => [.fd oldFd, .fd newFd]

namespace PosixCall

/-- The entries a call may change. -/
def settledKeys (opts : Options) (c : PosixCall) : List EntryKey :=
  (c.profile.effect.mutation opts).elim [] Mutation.keys

/-- The entries a call goes by: those its selection depends on and those it may change. -/
def keys (opts : Options) (c : PosixCall) : List EntryKey :=
  c.profile.control.keys ++ c.settledKeys opts

end PosixCall

namespace MountPointTable

/-- The tables hold the same under each of the keys. -/
def AgreeOn (keys : List EntryKey) (t t' : MountPointTable opts) : Prop :=
  ∀ key ∈ keys, t'.held key = t.held key

theorem SameEntries.held {t t' : MountPointTable opts} (h : t.SameEntries t') (key : EntryKey) :
    t'.held key = t.held key := by
  cases key with
  | fd key => rw [MountPointTable.held, MountPointTable.held, h.fd]
  | ptr key => rw [MountPointTable.held, MountPointTable.held, h.ptr]

/-- What a mutation is not about, it leaves alone. -/
theorem held_onTable_of_notMem {mutation : Mutation} {key : EntryKey} (h : key ∉ mutation.keys)
    (t : MountPointTable opts) : (mutation.onTable t).held key = t.held key := by
  cases mutation with
  | createMountPointEntry source entry =>
    rw [held_create, if_neg fun e => h (List.mem_singleton.mpr e.1)]
  | removeMountPointEntry source =>
    rw [held_remove, if_neg fun e => h (List.mem_singleton.mpr e.1)]
  | replaceFileDescriptor oldFd newFd =>
    simp only [Mutation.keys, List.mem_cons, List.not_mem_nil, or_false, not_or] at h
    cases key with
    | ptr key => exact congrArg (·.find key) (t.replaceFileDescriptor_ptr oldFd newFd)
    | fd key =>
      rw [Mutation.onTable, held, replaceFileDescriptor_table]
      split
      · exact find_move_other (fun e => h.1 (congrArg EntryKey.fd e))
          fun e => h.2 (congrArg EntryKey.fd e)
      · rfl

/-- Tables that agree on what a mutation is about agree on as much after it. -/
theorem AgreeOn.onTable {keys : List EntryKey} {t t' : MountPointTable opts}
    (h : AgreeOn keys t t') {mutation : Mutation} (hkeys : mutation.keys ⊆ keys) :
    AgreeOn keys (mutation.onTable t) (mutation.onTable t') := by
  intro key hkey
  cases mutation with
  | createMountPointEntry source entry => rw [held_create, held_create, h key hkey]
  | removeMountPointEntry source => rw [held_remove, held_remove, h key hkey]
  | replaceFileDescriptor oldFd newFd =>
    cases key with
    | ptr key =>
      rw [Mutation.onTable, Mutation.onTable, held, held, replaceFileDescriptor_ptr,
        replaceFileDescriptor_ptr]
      exact h _ hkey
    | fd key =>
      have hold := h (.fd oldFd) (hkeys (by simp [Mutation.keys]))
      have hnew := h (.fd newFd) (hkeys (by simp [Mutation.keys]))
      rw [Mutation.onTable, Mutation.onTable, held, held, replaceFileDescriptor_table,
        replaceFileDescriptor_table]
      split
      · exact find_move_congr hold hnew (h _ hkey)
      · exact h _ hkey

theorem AgreeOn.getMountPointEntryFd {keys : List EntryKey} {t t' : MountPointTable opts}
    (h : AgreeOn keys t t') {fd : Int32} (hfd : .fd fd ∈ keys) :
    t'.getMountPointEntryFd fd = t.getMountPointEntryFd fd :=
  if_congr Iff.rfl (h _ hfd) rfl

theorem AgreeOn.getMountPointEntryPtr {keys : List EntryKey} {t t' : MountPointTable opts}
    (h : AgreeOn keys t t') {fptr : FilePtr} (hptr : .ptr fptr ∈ keys) :
    t'.getMountPointEntryPtr fptr = t.getMountPointEntryPtr fptr :=
  if_congr Iff.rfl (h _ hptr) rfl

theorem AgreeOn.controls {keys : List EntryKey} {t t' : MountPointTable opts}
    (h : AgreeOn keys t t') {selection : Selection} (hkeys : selection.keys ⊆ keys) :
    t'.controls selection = t.controls selection := by
  cases selection with
  | path path | closing fd => rfl
  | descriptor fd =>
    exact congrArg (Option.any _) (h.getMountPointEntryFd (hkeys (List.mem_singleton_self _)))
  | stream stream =>
    exact congrArg (Option.any _) (h.getMountPointEntryPtr (hkeys (List.mem_singleton_self _)))

theorem held_settle_of_notMem {c : PosixCall} {key : EntryKey} (h : key ∉ c.settledKeys opts)
    (t : MountPointTable opts) : (settle t c.profile.effect).held key = t.held key := by
  rw [settle_mutation]
  rw [PosixCall.settledKeys] at h
  cases hmutation : c.profile.effect.mutation opts with
  | none => rfl
  | some mutation =>
    rw [hmutation] at h
    exact held_onTable_of_notMem h t

theorem AgreeOn.settle {keys : List EntryKey} {t t' : MountPointTable opts}
    (h : AgreeOn keys t t') {c : PosixCall} (hkeys : c.settledKeys opts ⊆ keys) :
    AgreeOn keys (settle t c.profile.effect) (settle t' c.profile.effect) := by
  rw [settle_mutation, settle_mutation]
  rw [PosixCall.settledKeys] at hkeys
  cases hmutation : c.profile.effect.mutation opts with
  | none => exact h
  | some mutation =>
    rw [hmutation] at hkeys
    exact h.onTable hkeys

end MountPointTable

open LdPreloadedPosix MountPointTable

/-- A call answers and submits alike on tables that agree on what it looks up. -/
theorem sameCall_recordOf {keys : List EntryKey} {o o' : LdPreloadedPosix opts} {c : PosixCall}
    (h : AgreeOn keys o.mountPointTable o'.mountPointTable)
    (hkeys : c.profile.control.keys ⊆ keys) :
    SameCall opts (recordOf c o') (recordOf c o) := by
  refine ⟨rfl, rfl, ?_⟩
  rw [CallRecord.submissions_recordOf, CallRecord.submissions_recordOf, Profile.submissions,
    Profile.submissions]
  cases hcontrol : c.profile.control with
  | unsubmitted enforced => exact .nil
  | submitted selection operationType operationContext payload =>
    rw [hcontrol] at hkeys
    have hcontrols := h.controls hkeys
    simp only [hcontrols]
    split
    · next hfound =>
      have hleft := choose_registered ((choose_ne _ selection).mpr (hcontrols.trans hfound))
      have hright := choose_registered ((choose_ne _ selection).mpr hfound)
      exact .cons ⟨rfl, rfl, rfl, hleft, hright⟩ .nil
    · exact .nil

end Keys

namespace LdPreloadedPosix
open MountPointTable

/-- The calls of one thread alone, on an object of its own. -/
def runAlone (opts : Options) (prng : Nat → UInt32) (calls : List PosixCall) :
    List CallRecord × LdPreloadedPosix opts :=
  run (calls.map .call) (construct true prng)

theorem runAlone_concat (prng : Nat → UInt32) (calls : List PosixCall) (c : PosixCall) :
    runAlone opts prng (calls ++ [c]) =
      ((runAlone opts prng calls).1 ++ [recordOf c (runAlone opts prng calls).2],
        after c (runAlone opts prng calls).2) := by
  rw [runAlone, List.map_append, run, OutputMachine.run_append]
  exact congrArg (fun last => ((runAlone opts prng calls).1 ++ last.1, last.2))
    (run_call_cons c [] (runAlone opts prng calls).2)

theorem runAlone_isRecord (prng : Nat → UInt32) (calls : List PosixCall) :
    ∀ r ∈ (runAlone opts prng calls).1, IsRecord opts r := by
  intro r hr
  obtain ⟨o, ho⟩ := run_records _ _ r hr
  have hcollecting := run_calls_collecting calls _ r hr
  rw [ho] at hcollecting
  exact ⟨o, hcollecting, ho⟩

/-- The entries hold the worth of the records of the run. -/
theorem runAlone_entry (prng : Nat → UInt32) (calls : List PosixCall) (op : Operation) :
    ((runAlone opts prng calls).2.stats.entry op).entryName = op.name ∧
      ∀ c, ((runAlone opts prng calls).2.stats.entry op).counter c =
        ((runAlone opts prng calls).1.map (·.worth op c)).sum := by
  have hentry : (runAlone opts prng calls).2.stats.entry op =
      enforcedEntry (runAlone opts prng calls).1 op :=
    entry_run true prng (calls.map .call) op
  refine ⟨?_, fun c => ?_⟩
  · rw [hentry]
    rfl
  · rw [hentry, enforcedEntry_counter (runAlone_isRecord prng calls)]

section Isolation
variable {Tid : Type} [DecidableEq Tid] {prng : Nat → UInt32} {calls : Tid → List PosixCall}
  {s : System Tid PosixCall EnforcingPhase (SharedEnforcing opts Tid)}

/-- No call of another thread settles an entry that a call of this one goes by. -/
def Undisturbed (opts : Options) (calls : Tid → List PosixCall) (t : Tid) : Prop :=
  ∀ u, u ≠ t → ∀ c ∈ calls u, ∀ d ∈ calls t, ∀ key ∈ c.settledKeys opts, key ∉ d.keys opts

/-- The entries that the calls of a thread go by. -/
private def keysOf (opts : Options) (calls : List PosixCall) : List EntryKey :=
  calls.flatMap (·.keys opts)

variable (calls) in
/-- Where a thread stands against its own run: over the calls it has made and, between its libc
call and the tables, over one call more in its records. -/
private def Follows (prng : Nat → UInt32) (t : Tid) (rest : List PosixCall)
    (p : Option EnforcingPhase) (x : SharedEnforcing opts Tid) : Prop :=
  ∃ made, AgreeOn (keysOf opts (calls t)) (runAlone opts prng made).2.mountPointTable
      x.object.mountPointTable ∧
    match p with
    | none | some (.counting ..) => calls t = made ++ rest ∧
      List.Forall₂ (SameCall opts) (ofThread t x.log) (runAlone opts prng made).1
    | some (.chosen r) | some (.submitted r) => calls t = made ++ r.call :: rest ∧
      List.Forall₂ (SameCall opts) (ofThread t x.log) (runAlone opts prng made).1 ∧
      SameCall opts r (recordOf r.call (runAlone opts prng made).2)
    | some (.called r) => calls t = made ++ r.call :: rest ∧
      List.Forall₂ (SameCall opts) (ofThread t x.log) (runAlone opts prng (made ++ [r.call])).1

/-- What another thread does is not seen if it leaves the records and the entries alone. -/
private theorem Follows.congr {t : Tid} {rest : List PosixCall} {p : Option EnforcingPhase}
    {x x' : SharedEnforcing opts Tid} {prng : Nat → UInt32}
    (hlog : ofThread t x'.log = ofThread t x.log)
    (htable : AgreeOn (keysOf opts (calls t)) x.object.mountPointTable x'.object.mountPointTable)
    (h : Follows calls prng t rest p x) : Follows calls prng t rest p x' := by
  obtain ⟨made, hagree, h⟩ := h
  refine ⟨made, fun key hkey => (htable key hkey).trans (hagree key hkey), ?_⟩
  rw [hlog]
  exact h

/-- A thread's own phases keep it in step with its own run. -/
private theorem Follows.resume {t : Tid} {rest : List PosixCall} {p : EnforcingPhase}
    {x : SharedEnforcing opts Tid} {prng : Nat → UInt32}
    (hp : p.Recorded opts (calls t)) (h : Follows calls prng t rest (some p) x) :
    Follows calls prng t rest (resumeCall t p x).1 (resumeCall t p x).2 := by
  obtain ⟨made, hagree, h⟩ := h
  match p with
  | .chosen r => exact ⟨made, hagree, h⟩
  | .submitted r =>
    obtain ⟨hcalls, hlog, hsame⟩ := h
    refine ⟨made, hagree, hcalls, ?_⟩
    rw [runAlone_concat]
    have happend := ofThread_append t x.log [(t, r)]
    rw [ofThread_singleton, if_pos rfl] at happend
    exact happend ▸ List.rel_append hlog (.cons hsame .nil)
  | .called r =>
    obtain ⟨hcalls, hlog⟩ := h
    refine ⟨made ++ [r.call], ?_, ?_, hlog⟩
    · rw [runAlone_concat]
      have hchosen : AgreeOn (keysOf opts (calls t))
          (r.call.profile.chosen (runAlone opts prng made).2.mountPointTable)
          x.object.mountPointTable := fun key hkey =>
        (hagree key hkey).trans ((r.call.profile.chosen_same _).held key).symm
      exact hchosen.settle fun key hkey =>
        List.mem_flatMap.mpr ⟨r.call, hp.2, List.mem_append_right _ hkey⟩
    · rw [hcalls, List.append_assoc]
      rfl
  | .counting op [] | .counting op (i :: increments) => exact ⟨made, hagree, h⟩

/-- Whatever the other threads do, an undisturbed thread stays in step with its own run. -/
private theorem follows_of_undisturbed (hrun : ReachesThreads prng calls s) {t : Tid}
    (hundisturbed : Undisturbed opts calls t) (prng' : Nat → UInt32) :
    Follows calls prng' t (s.rest t) (s.phase t) s.shared := by
  refine System.reaches_thread (R := Follows calls prng' t) t (fun _ => recorded) ?_ ?_ ?_ ?_ hrun
    ⟨[], fun _ _ => rfl, rfl, .nil⟩
  · rintro c rest x - ⟨made, hagree, hcalls, hlog⟩
    have hc : c ∈ calls t := hcalls ▸ List.mem_append_right made List.mem_cons_self
    refine ⟨made, fun key hkey => ?_, hcalls, hlog, sameCall_recordOf hagree fun key hkey => ?_⟩
    · exact ((c.profile.chosen_same x.object.mountPointTable).held key).trans (hagree key hkey)
    · exact List.mem_flatMap.mpr ⟨c, hc, List.mem_append_left _ hkey⟩
  · rintro rest p x - hp h
    exact h.resume hp
  · rintro u hu c hc rest p x - h
    refine h.congr (x := x) rfl fun key _ => ?_
    exact (c.profile.chosen_same x.object.mountPointTable).held key
  · rintro u hu q hq rest p x - h
    refine h.congr (ofThread_resumeCall hu q x).1 fun key hkey => ?_
    match q with
    | .called r =>
      obtain ⟨d, hd, hkey⟩ := List.mem_flatMap.mp hkey
      exact held_settle_of_notMem
        (fun hsettled => hundisturbed u hu r.call hq.2 d hd key hsettled hkey) _
    | .chosen r | .submitted r | .counting op [] | .counting op (i :: rest) => rfl

/-- An undisturbed thread is answered and submits as in a run of its own, whatever the
interleaving and the draws: its records so far are those of a prefix of its calls. -/
theorem threads_isolated (hrun : ReachesThreads prng calls s) {t : Tid}
    (hundisturbed : Undisturbed opts calls t) (prng' : Nat → UInt32) :
    ∃ made, made <+: calls t ∧ (s.rest t = [] ∧ s.phase t = none → made = calls t) ∧
      List.Forall₂ (SameCall opts) (ofThread t s.shared.log) (runAlone opts prng' made).1 := by
  obtain ⟨made, -, h⟩ := follows_of_undisturbed hrun hundisturbed prng'
  generalize s.phase t = p at h
  match p, h with
  | none, h =>
    obtain ⟨hcalls, hlog⟩ := h
    refine ⟨made, ⟨_, hcalls.symm⟩, fun hdone => ?_, hlog⟩
    rw [hcalls, hdone.1, List.append_nil]
  | some (.counting _ _), h =>
    obtain ⟨hcalls, hlog⟩ := h
    exact ⟨made, ⟨_, hcalls.symm⟩, fun hdone => (nomatch hdone.2), hlog⟩
  | some (.chosen r), h | some (.submitted r), h =>
    obtain ⟨hcalls, hlog, -⟩ := h
    exact ⟨made, ⟨_, hcalls.symm⟩, fun hdone => (nomatch hdone.2), hlog⟩
  | some (.called r), h =>
    obtain ⟨hcalls, hlog⟩ := h
    refine ⟨made ++ [r.call], ⟨s.rest t, ?_⟩, fun hdone => (nomatch hdone.2), hlog⟩
    rw [hcalls, List.append_assoc]
    rfl

/-- Two threads on descriptors of their own. -/
def twoThreads : Bool → List PosixCall
  | true => [.«open» "/tmp/x".toList 0 3, .read 3 0 8 8]
  | false => [.«open» "/tmp/y".toList 0 4]

theorem twoThreads_undisturbed : ∀ t, Undisturbed (.shipped .single) twoThreads t := by
  unfold Undisturbed
  decide

theorem threads_isolated_two :
    ∃ s : System Bool PosixCall EnforcingPhase (SharedEnforcing (.shipped .single) Bool),
      ReachesThreads (fun _ => 0) twoThreads s ∧
        ∃ made, List.Forall₂ (SameCall (.shipped .single)) (ofThread true s.shared.log)
          (runAlone (.shipped .single) (fun _ => 1) made).1 := by
  have hrun : exec (System.next (phases (.shipped .single) Bool))
      (startThreads _ (fun _ => 0) twoThreads) [true, false, true, false, true] = some _ := rfl
  have hreached : ReachesThreads _ _ _ := Reaches.of_exec (fun _ _ _ => trivial) hrun
  obtain ⟨made, -, -, hsame⟩ := threads_isolated hreached (twoThreads_undisturbed true) fun _ => 1
  exact ⟨_, hreached, made, hsame⟩

/-- Records of one call in two runs are worth the same. -/
theorem sum_worth_congr {records records' : List CallRecord}
    (h : List.Forall₂ (SameCall opts) records records') (hrecords : ∀ r ∈ records, IsRecord opts r)
    (hrecords' : ∀ r ∈ records', IsRecord opts r) (op : Operation) (c : Counter) :
    (records.map (·.worth op c)).sum = (records'.map (·.worth op c)).sum := by
  have hcollecting : ∀ {r : CallRecord}, IsRecord opts r → r.collecting = true := by
    rintro r ⟨o, ho, hr⟩
    rw [hr]
    exact ho
  have hworth : ∀ r r', SameCall opts r r' → IsRecord opts r → IsRecord opts r' →
      r.worth op c = r'.worth op c := by
    intro r r' hsame hr hr'
    have henforced : r'.enforced = r.enforced := by
      rw [CallRecord.enforced, CallRecord.enforced, Bool.eq_iff_iff, Bool.not_eq_true',
        Bool.not_eq_true', ← Bool.not_eq_true, ← Bool.not_eq_true, List.isEmpty_iff_length_eq_zero,
        List.isEmpty_iff_length_eq_zero, hsame.submissions.length_eq]
    simp only [CallRecord.worth, CallRecord.collected, CallRecord.update,
      CallRecord.countsAsEnforced, hsame.call, henforced, hcollecting hr, hcollecting hr']
  induction h with
  | nil => rfl
  | cons hsame _ ih =>
    simp only [List.forall_mem_cons] at hrecords hrecords'
    simp only [List.map_cons, List.sum_cons, ih hrecords.2 hrecords'.2,
      hworth _ _ hsame hrecords.1 hrecords'.1]

/-- If no thread disturbs another the entries hold, once all are done, the sums of what each
thread's own run counts. -/
theorem threads_compose [Fintype Tid] (hrun : ReachesThreads prng calls s)
    (hfinished : s.Finished) (hundisturbed : ∀ t, Undisturbed opts calls t)
    (prng' : Tid → Nat → UInt32) (op : Operation) (c : Counter) :
    (s.shared.object.stats.entry op).counter c =
      ∑ t, ((runAlone opts (prng' t) (calls t)).2.stats.entry op).counter c := by
  have hlog := (recorded hrun).shared.2.1
  rw [finished_counter hrun hfinished, ← sum_ofThread fun r : CallRecord => r.worth op c]
  refine Finset.sum_congr rfl fun t _ => ?_
  obtain ⟨made, -, hmade⟩ := follows_of_undisturbed hrun (hundisturbed t) (prng' t)
  rw [(hfinished t).1, (hfinished t).2, List.append_nil] at hmade
  obtain ⟨rfl, hsame⟩ := hmade
  have hown : ∀ r ∈ ofThread t s.shared.log, IsRecord opts r := by
    intro r hr
    obtain ⟨entry, hentry, rfl⟩ := List.mem_map.mp hr
    exact hlog entry (List.mem_of_mem_filter hentry)
  rw [(runAlone_entry (prng' t) (calls t) op).2 c]
  exact sum_worth_congr hsame hown (runAlone_isRecord _ _) op c

theorem threads_compose_two :
    ∃ s : System Bool PosixCall EnforcingPhase (SharedEnforcing (.shipped .single) Bool),
      ReachesThreads (fun _ => 0) twoThreads s ∧
        (s.shared.object.stats.entry (.data .read)).counter .byte =
          ∑ t, ((runAlone (.shipped .single) (fun _ => 0) (twoThreads t)).2.stats.entry
            (.data .read)).counter .byte := by
  have hrun : exec (System.next (phases (.shipped .single) Bool))
      (startThreads _ (fun _ => 0) twoThreads)
      [true, false, true, false, true, false, true, false, true, true, true, true, true, true, true,
        true, true, true, false, false, false] = some _ := rfl
  have hreached : ReachesThreads _ _ _ := Reaches.of_exec (fun _ _ _ => trivial) hrun
  refine ⟨_, hreached, threads_compose hreached (fun t => ?_) twoThreads_undisturbed
    (fun _ _ => 0) (.data .read) .byte⟩
  cases t with
  | false => exact ⟨rfl, rfl⟩
  | true => exact ⟨rfl, rfl⟩

end Isolation

end LdPreloadedPosix

end Padll

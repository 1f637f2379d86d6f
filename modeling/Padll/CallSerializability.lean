import Padll.ThreadIsolation

/-! Serializability: if calls that conflict on an entry of the tables do not overlap, threads are
answered, submit, settle the tables and count as one thread that makes their calls in the order
of the libc calls. -/
namespace Padll
open Interleaving ThreadCalls MountPointTable LdPreloadedPosix
variable {opts : Options} {Tid : Type} [DecidableEq Tid]

theorem SameCall.trans {r r' r'' : CallRecord} (h : SameCall opts r r')
    (h' : SameCall opts r' r'') : SameCall opts r r'' := by
  refine ⟨h'.call.trans h.call, h'.returned.trans h.returned, ?_⟩
  have hsubmissions := h.submissions
  have hsubmissions' := h'.submissions
  generalize r.submissions = l, r'.submissions = l', r''.submissions = l'' at *
  induction hsubmissions generalizing l'' with
  | nil => exact hsubmissions'
  | cons hhead _ ih =>
    cases hsubmissions' with
    | cons hhead' htail' =>
      refine .cons ⟨?_, ?_, ?_, hhead.left, hhead'.right⟩ (ih _ htail')
      · exact hhead'.operationType.trans hhead.operationType
      · exact hhead'.operationContext.trans hhead.operationContext
      · exact hhead'.operationSize.trans hhead.operationSize

namespace LdPreloadedPosix

abbrev EnforcingSystem (opts : Options) (Tid : Type) :=
  System Tid PosixCall EnforcingPhase (SharedEnforcing opts Tid)

/-- The call a phase is about between its libc call and the tables. -/
def EnforcingPhase.settling : EnforcingPhase → List CallRecord
  | .called r => [r]
  | _ => []

def undone (s : EnforcingSystem opts Tid) (t : Tid) : List CallRecord :=
  s.carried EnforcingPhase.undone t

def settling (s : EnforcingSystem opts Tid) (t : Tid) : List CallRecord :=
  s.carried EnforcingPhase.settling t

/-- The calls under way: those that have begun without having settled the tables. -/
def underWay (s : EnforcingSystem opts Tid) (t : Tid) : List CallRecord :=
  undone s t ++ settling s t

/-- Neither of two calls settles an entry that the other goes by. -/
def Apart (opts : Options) (c d : PosixCall) : Prop :=
  (∀ key ∈ c.settledKeys opts, key ∉ d.keys opts) ∧ ∀ key ∈ d.settledKeys opts, key ∉ c.keys opts

/-- A thread begins no call that conflicts with one under way. -/
def BeginsApart (s : EnforcingSystem opts Tid) (t : Tid) : Prop :=
  (s.phase t).isNone → ∀ c ∈ (s.rest t).head?, ∀ u, u ≠ t →
    ∀ r ∈ underWay s u, Apart opts c r.call

instance instDecidableApart (c d : PosixCall) : Decidable (Apart opts c d) :=
  inferInstanceAs (Decidable (_ ∧ _))

instance instDecidableBeginsApart [Fintype Tid] (s : EnforcingSystem opts Tid) (t : Tid) :
    Decidable (BeginsApart s t) :=
  inferInstanceAs (Decidable ((s.phase t).isNone = true → ∀ c ∈ (s.rest t).head?, ∀ u, u ≠ t →
    ∀ r ∈ underWay s u, Apart opts c r.call))

/-- The run of one thread over the calls so far in the order of their libc calls. -/
def serial (prng : Nat → UInt32) (s : EnforcingSystem opts Tid) :
    List CallRecord × LdPreloadedPosix opts :=
  runAlone opts prng (s.shared.log.map (·.2.call))

/-- What relates the threads to the run of one: the tables agree but for entries about to be
settled, which settling brings to agree, and the calls under way do not conflict. -/
structure InOrder (prng : Nat → UInt32) (s : EnforcingSystem opts Tid) : Prop where
  entries : ∀ key, (∀ t, ∀ r ∈ settling s t, key ∉ r.call.settledKeys opts) →
    s.shared.object.mountPointTable.held key = (serial prng s).2.mountPointTable.held key
  settled : ∀ t, ∀ r ∈ settling s t, AgreeOn (r.call.settledKeys opts)
    (serial prng s).2.mountPointTable
    (settle s.shared.object.mountPointTable r.call.profile.effect)
  chosen : ∀ t, ∀ r ∈ undone s t, SameCall opts r (recordOf r.call (serial prng s).2)
  apart : ∀ t u, t ≠ u → ∀ c ∈ underWay s t, ∀ d ∈ underWay s u, Apart opts c.call d.call
  records : List.Forall₂ (SameCall opts) (s.shared.log.map (·.2)) (serial prng s).1

section Facts

theorem Apart.symm {c d : PosixCall} (h : Apart opts c d) : Apart opts d c := ⟨h.2, h.1⟩

variable {s : EnforcingSystem opts Tid} {prng : Nat → UInt32}

omit [DecidableEq Tid] in
/-- A call that no call about to settle conflicts with finds its entries in order. -/
theorem InOrder.agreeOn (h : InOrder prng s) {c : PosixCall}
    (hc : ∀ t, ∀ r ∈ settling s t, Apart opts c r.call) :
    AgreeOn (c.keys opts) (serial prng s).2.mountPointTable s.shared.object.mountPointTable :=
  fun key hkey => h.entries key fun t r hr hsettled => (hc t r hr).2 key hsettled hkey

omit [DecidableEq Tid] in
theorem settling_of_phase {t : Tid} {p : EnforcingPhase} (hphase : s.phase t = some p) :
    settling s t = p.settling := by
  rw [settling, System.carried, hphase, Option.elim_some]

omit [DecidableEq Tid] in
theorem undone_of_phase {t : Tid} {p : EnforcingPhase} (hphase : s.phase t = some p) :
    undone s t = p.undone := by
  rw [undone, System.carried, hphase, Option.elim_some]

omit [DecidableEq Tid] in
theorem settling_of_idle {t : Tid} (idle : s.phase t = none) : settling s t = [] := by
  rw [settling, System.carried, idle, Option.elim_none]

/-- The calls under way stay apart if the ones of a single thread change and are apart from the
others. -/
theorem InOrder.apart_of (h : InOrder prng s) {s' : EnforcingSystem opts Tid} {t : Tid}
    (hothers : ∀ u, u ≠ t → underWay s' u = underWay s u)
    (hown : ∀ c ∈ underWay s' t, ∀ u, u ≠ t → ∀ d ∈ underWay s u, Apart opts c.call d.call) :
    ∀ u v, u ≠ v → ∀ c ∈ underWay s' u, ∀ d ∈ underWay s' v, Apart opts c.call d.call := by
  intro u v huv c hc d hd
  by_cases hu : u = t
  · subst hu
    rw [hothers v huv.symm] at hd
    exact hown c hc v huv.symm d hd
  · rw [hothers u hu] at hc
    by_cases hv : v = t
    · subst hv
      exact (hown d hd u hu c hc).symm
    · rw [hothers v hv] at hd
      exact h.apart u v huv c hc d hd

section Quiet
variable {s' : EnforcingSystem opts Tid}

omit [DecidableEq Tid] in
theorem serial_congr (hlog : s'.shared.log = s.shared.log) : serial prng s' = serial prng s := by
  rw [serial, serial, hlog]

omit [DecidableEq Tid] in
theorem InOrder.entries_quiet (h : InOrder prng s) (hlog : s'.shared.log = s.shared.log)
    (htable : ∀ key, s'.shared.object.mountPointTable.held key =
      s.shared.object.mountPointTable.held key)
    (hsettling : ∀ u, settling s' u = settling s u) (key : EntryKey)
    (hkey : ∀ t, ∀ r ∈ settling s' t, key ∉ r.call.settledKeys opts) :
    s'.shared.object.mountPointTable.held key = (serial prng s').2.mountPointTable.held key := by
  rw [htable key, serial_congr hlog]
  exact h.entries key fun t r hr => hkey t r (hsettling t ▸ hr)

omit [DecidableEq Tid] in
theorem InOrder.settled_quiet (h : InOrder prng s) (hlog : s'.shared.log = s.shared.log)
    (htable : ∀ key, s'.shared.object.mountPointTable.held key =
      s.shared.object.mountPointTable.held key)
    (hsettling : ∀ u, settling s' u = settling s u) (t : Tid) (r : CallRecord)
    (hr : r ∈ settling s' t) :
    AgreeOn (r.call.settledKeys opts) (serial prng s').2.mountPointTable
      (settle s'.shared.object.mountPointTable r.call.profile.effect) := by
  rw [hsettling t] at hr
  rw [serial_congr hlog]
  have hsame : AgreeOn (r.call.settledKeys opts) s.shared.object.mountPointTable
      s'.shared.object.mountPointTable := fun key _ => htable key
  intro key hkey
  exact (hsame.settle (List.Subset.refl _) key hkey).trans (h.settled t r hr key hkey)

omit [DecidableEq Tid] in
/-- A step that leaves the records and the entries alone and begins nothing keeps the order. -/
theorem InOrder.quiet (h : InOrder prng s) (hlog : s'.shared.log = s.shared.log)
    (htable : ∀ key, s'.shared.object.mountPointTable.held key =
      s.shared.object.mountPointTable.held key)
    (hundone : ∀ u, undone s' u = undone s u) (hsettling : ∀ u, settling s' u = settling s u) :
    InOrder prng s' where
  entries := h.entries_quiet hlog htable hsettling
  settled := h.settled_quiet hlog htable hsettling
  chosen t r hr := by
    rw [serial_congr hlog]
    exact h.chosen t r (hundone t ▸ hr)
  apart := by
    have hunder : ∀ u, underWay s' u = underWay s u := fun u => by
      rw [underWay, hundone, hsettling, underWay]
    intro t u htu c hc d hd
    exact h.apart t u htu c (hunder t ▸ hc) d (hunder u ▸ hd)
  records := by
    rw [hlog, serial_congr hlog]
    exact h.records

end Quiet

section Begin

/-- A thread has begun a call. -/
abbrev afterBegin (s : EnforcingSystem opts Tid) (t : Tid) (c : PosixCall)
    (rest : List PosixCall) : EnforcingSystem opts Tid :=
  ⟨s.shared.choose c, Function.update s.rest t rest,
    Function.update s.phase t (some (.chosen (recordOf c s.shared.object)))⟩

variable {t : Tid} {c : PosixCall} {rest : List PosixCall}

theorem settling_afterBegin (idle : s.phase t = none) (u : Tid) :
    settling (afterBegin s t c rest) u = settling s u := by
  rw [settling, System.carried_update]
  split
  · next hu =>
    rw [hu, settling_of_idle idle]
    rfl
  · rfl

theorem undone_afterBegin (u : Tid) :
    undone (afterBegin s t c rest) u =
      if u = t then [recordOf c s.shared.object] else undone s u :=
  System.carried_update _ _ _ _ _ _ u

theorem underWay_afterBegin (idle : s.phase t = none) (u : Tid) :
    underWay (afterBegin s t c rest) u =
      if u = t then [recordOf c s.shared.object] else underWay s u := by
  rw [underWay, settling_afterBegin idle, undone_afterBegin]
  split
  · next hu => rw [hu, settling_of_idle idle, List.append_nil]
  · rfl

/-- The entries that the call goes by are in order, so that it chooses as in the run of one. -/
theorem InOrder.chosen_afterBegin (h : InOrder prng s) (idle : s.phase t = none)
    (hc : ∀ u, u ≠ t → ∀ r ∈ underWay s u, Apart opts c r.call) (u : Tid) (r : CallRecord)
    (hr : r ∈ undone (afterBegin s t c rest) u) :
    SameCall opts r (recordOf r.call (serial prng s).2) := by
  rw [undone_afterBegin] at hr
  split at hr
  · obtain rfl := List.mem_singleton.mp hr
    refine sameCall_recordOf (h.agreeOn (c := c) fun v r hr => ?_)
      fun key hkey => List.mem_append_left _ hkey
    rcases eq_or_ne v t with rfl | hv
    · rw [settling_of_idle idle] at hr
      cases hr
    · exact hc v hv r (List.mem_append_right _ hr)
  · exact h.chosen u r hr

theorem InOrder.apart_afterBegin (h : InOrder prng s) (idle : s.phase t = none)
    (hc : ∀ u, u ≠ t → ∀ r ∈ underWay s u, Apart opts c r.call) :
    ∀ u v, u ≠ v → ∀ d ∈ underWay (afterBegin s t c rest) u,
      ∀ e ∈ underWay (afterBegin s t c rest) v, Apart opts d.call e.call := by
  refine h.apart_of (t := t) (fun u hu => ?_) fun r hr u hu d hd => ?_
  · rw [underWay_afterBegin idle, if_neg hu]
  · rw [underWay_afterBegin idle, if_pos rfl] at hr
    obtain rfl := List.mem_singleton.mp hr
    exact hc u hu d hd

/-- A call that conflicts with none under way begins in order. -/
theorem InOrder.begin (h : InOrder prng s) (rest : List PosixCall) (idle : s.phase t = none)
    (hc : ∀ u, u ≠ t → ∀ r ∈ underWay s u, Apart opts c r.call) :
    InOrder prng (afterBegin s t c rest) := by
  have htable := (c.profile.chosen_same s.shared.object.mountPointTable).held
  exact {
    entries := h.entries_quiet rfl htable (settling_afterBegin idle)
    settled := h.settled_quiet rfl htable (settling_afterBegin idle)
    chosen := h.chosen_afterBegin idle hc
    apart := h.apart_afterBegin idle hc
    records := h.records }

end Begin

section CallLibc

/-- A thread has made the libc call of a record. -/
abbrev afterLibc (s : EnforcingSystem opts Tid) (t : Tid) (r : CallRecord) :
    EnforcingSystem opts Tid :=
  ⟨s.shared.callLibc t r, s.rest, Function.update s.phase t (some (.called r))⟩

variable {t : Tid} {r : CallRecord}

theorem settling_afterLibc (u : Tid) :
    settling (afterLibc s t r) u = if u = t then [r] else settling s u :=
  System.carried_update _ _ _ _ _ _ u

theorem undone_afterLibc (u : Tid) :
    undone (afterLibc s t r) u = if u = t then [] else undone s u :=
  System.carried_update _ _ _ _ _ _ u

theorem underWay_afterLibc (u : Tid) :
    underWay (afterLibc s t r) u = if u = t then [r] else underWay s u := by
  rw [underWay, undone_afterLibc, settling_afterLibc]
  split
  · rfl
  · rfl

/-- The run of one makes the call next. -/
theorem serial_afterLibc :
    serial prng (afterLibc s t r) =
      ((serial prng s).1 ++ [recordOf r.call (serial prng s).2],
        after r.call (serial prng s).2) := by
  have hlog : (afterLibc s t r).shared.log.map (·.2.call) =
      s.shared.log.map (·.2.call) ++ [r.call] := List.map_append
  rw [serial, hlog, runAlone_concat]
  rfl

/-- The call changes in the run of one only what it settles. -/
theorem held_serial_afterLibc {key : EntryKey} (hkey : key ∉ r.call.settledKeys opts) :
    (serial prng (afterLibc s t r)).2.mountPointTable.held key =
      (serial prng s).2.mountPointTable.held key := by
  rw [serial_afterLibc]
  exact (held_settle_of_notMem hkey _).trans ((r.call.profile.chosen_same _).held key)

omit [DecidableEq Tid] in
theorem mem_undone_submitted (running : s.phase t = some (.submitted r)) : r ∈ undone s t := by
  rw [undone_of_phase running]
  exact List.mem_singleton_self r

omit [DecidableEq Tid] in
theorem InOrder.apart_submitted (h : InOrder prng s) (running : s.phase t = some (.submitted r))
    (u : Tid) (hu : u ≠ t) (d : CallRecord) (hd : d ∈ underWay s u) :
    Apart opts r.call d.call :=
  h.apart t u hu.symm r (List.mem_append_left _ (mem_undone_submitted running)) d hd

omit [DecidableEq Tid] in
/-- What a call is going to settle, no other call is about to. -/
theorem InOrder.settling_submitted (h : InOrder prng s)
    (running : s.phase t = some (.submitted r)) (u : Tid) (d : CallRecord)
    (hd : d ∈ settling s u) : u ≠ t ∧ Apart opts r.call d.call := by
  have hu : u ≠ t := by
    rintro rfl
    rw [settling_of_phase running] at hd
    cases hd
  exact ⟨hu, h.apart_submitted running u hu d (List.mem_append_right _ hd)⟩

theorem InOrder.entries_afterLibc (h : InOrder prng s)
    (running : s.phase t = some (.submitted r)) (key : EntryKey)
    (hkey : ∀ u, ∀ d ∈ settling (afterLibc s t r) u, key ∉ d.call.settledKeys opts) :
    s.shared.object.mountPointTable.held key =
      (serial prng (afterLibc s t r)).2.mountPointTable.held key := by
  simp only [settling_afterLibc] at hkey
  have hkeyr : key ∉ r.call.settledKeys opts := by
    refine hkey t r ?_
    rw [if_pos rfl]
    exact List.mem_singleton_self r
  rw [held_serial_afterLibc hkeyr]
  refine h.entries key fun u d hd => hkey u d ?_
  rwa [if_neg (h.settling_submitted running u d hd).1]

/-- The call finds its entries in order, so that settling them leads to those of the run of one;
what other calls settle is none of its own. -/
theorem InOrder.settled_afterLibc (h : InOrder prng s)
    (running : s.phase t = some (.submitted r)) (u : Tid) (d : CallRecord)
    (hd : d ∈ settling (afterLibc s t r) u) :
    AgreeOn (d.call.settledKeys opts) (serial prng (afterLibc s t r)).2.mountPointTable
      (Padll.settle s.shared.object.mountPointTable d.call.profile.effect) := by
  rw [settling_afterLibc] at hd
  split at hd
  · obtain rfl := List.mem_singleton.mp hd
    have hagree := h.agreeOn fun u e he => (h.settling_submitted running u e he).2
    have hchosen : AgreeOn (d.call.keys opts)
        (d.call.profile.chosen (serial prng s).2.mountPointTable)
        s.shared.object.mountPointTable := fun key hkey =>
      (hagree key hkey).trans ((d.call.profile.chosen_same _).held key).symm
    have hsettled := hchosen.settle (c := d.call) fun key hkey => List.mem_append_right _ hkey
    intro key hkey
    rw [serial_afterLibc]
    exact hsettled key (List.mem_append_right _ hkey)
  · intro key hkey
    have hother := (h.settling_submitted running u d hd).2.2 key hkey
    rw [held_serial_afterLibc fun hkeyr => hother (List.mem_append_right _ hkeyr)]
    exact h.settled u d hd key hkey

/-- What another call goes by, this one does not settle. -/
theorem InOrder.chosen_afterLibc (h : InOrder prng s)
    (running : s.phase t = some (.submitted r)) (u : Tid) (d : CallRecord)
    (hd : d ∈ undone (afterLibc s t r) u) :
    SameCall opts d (recordOf d.call (serial prng (afterLibc s t r)).2) := by
  rw [undone_afterLibc] at hd
  split at hd
  · cases hd
  · next hu =>
    have hapart := h.apart_submitted running u hu d (List.mem_append_left _ hd)
    have hagree : AgreeOn (d.call.keys opts)
        (serial prng (afterLibc s t r)).2.mountPointTable (serial prng s).2.mountPointTable :=
      fun key hkey => (held_serial_afterLibc fun hkeyr => hapart.1 key hkeyr hkey).symm
    exact (h.chosen u d hd).trans
      (sameCall_recordOf hagree fun key hkey => List.mem_append_left _ hkey)

theorem InOrder.apart_afterLibc (h : InOrder prng s)
    (running : s.phase t = some (.submitted r)) :
    ∀ u v, u ≠ v → ∀ d ∈ underWay (afterLibc s t r) u, ∀ e ∈ underWay (afterLibc s t r) v,
      Apart opts d.call e.call := by
  refine h.apart_of (t := t) (fun u hu => ?_) fun d hd u hu e he => ?_
  · rw [underWay_afterLibc, if_neg hu]
  · rw [underWay_afterLibc, if_pos rfl] at hd
    obtain rfl := List.mem_singleton.mp hd
    exact h.apart_submitted running u hu e he

theorem InOrder.records_afterLibc (h : InOrder prng s)
    (running : s.phase t = some (.submitted r)) :
    List.Forall₂ (SameCall opts) ((afterLibc s t r).shared.log.map (·.2))
      (serial prng (afterLibc s t r)).1 := by
  have hlog : (afterLibc s t r).shared.log.map (·.2) = s.shared.log.map (·.2) ++ [r] :=
    List.map_append
  rw [serial_afterLibc, hlog]
  have hchosen := h.chosen t r (mem_undone_submitted running)
  exact List.rel_append h.records (.cons hchosen .nil)

/-- The libc call of a thread is the next call of the run of one. -/
theorem InOrder.callLibc (h : InOrder prng s) (running : s.phase t = some (.submitted r)) :
    InOrder prng (afterLibc s t r) where
  entries := h.entries_afterLibc running
  settled := h.settled_afterLibc running
  chosen := h.chosen_afterLibc running
  apart := h.apart_afterLibc running
  records := h.records_afterLibc running

end CallLibc

section Settle

/-- A thread has settled the tables after its libc call. -/
abbrev afterSettle (s : EnforcingSystem opts Tid) (t : Tid) (r : CallRecord) (op : Operation)
    (increments : List CounterIncrement) : EnforcingSystem opts Tid :=
  ⟨s.shared.settle r.call, s.rest, Function.update s.phase t (some (.counting op increments))⟩

variable {t : Tid} {r : CallRecord} {op : Operation} {increments : List CounterIncrement}

theorem settling_afterSettle (u : Tid) :
    settling (afterSettle s t r op increments) u = if u = t then [] else settling s u :=
  System.carried_update _ _ _ _ _ _ u

theorem undone_afterSettle (running : s.phase t = some (.called r)) (u : Tid) :
    undone (afterSettle s t r op increments) u = undone s u := by
  rw [undone, System.carried_update]
  split
  · next hu =>
    rw [hu, undone_of_phase running]
    rfl
  · rfl

theorem underWay_afterSettle (running : s.phase t = some (.called r)) (u : Tid) :
    underWay (afterSettle s t r op increments) u = if u = t then [] else underWay s u := by
  rw [underWay, settling_afterSettle, undone_afterSettle running]
  split
  · next hu =>
    rw [hu, undone_of_phase running]
    rfl
  · rfl

/-- The entries of the call are brought in order, the others are left alone. -/
theorem InOrder.entries_afterSettle (h : InOrder prng s) (running : s.phase t = some (.called r))
    (key : EntryKey)
    (hkey : ∀ u, ∀ d ∈ settling (afterSettle s t r op increments) u,
      key ∉ d.call.settledKeys opts) :
    (Padll.settle s.shared.object.mountPointTable r.call.profile.effect).held key =
      (serial prng s).2.mountPointTable.held key := by
  have hr := settling_of_phase running
  by_cases hkeyr : key ∈ r.call.settledKeys opts
  · exact h.settled t r (hr ▸ List.mem_singleton_self r) key hkeyr
  · refine (held_settle_of_notMem hkeyr _).trans (h.entries key fun u d hd => ?_)
    rcases eq_or_ne u t with rfl | hu
    · rw [hr] at hd
      obtain rfl := List.mem_singleton.mp hd
      exact hkeyr
    · refine hkey u d ?_
      rwa [settling_afterSettle, if_neg hu]

theorem InOrder.settled_afterSettle (h : InOrder prng s) (running : s.phase t = some (.called r))
    (u : Tid) (d : CallRecord) (hd : d ∈ settling (afterSettle s t r op increments) u) :
    AgreeOn (d.call.settledKeys opts) (serial prng s).2.mountPointTable
      (Padll.settle (Padll.settle s.shared.object.mountPointTable r.call.profile.effect)
        d.call.profile.effect) := by
  rw [settling_afterSettle] at hd
  split at hd
  · cases hd
  · next hu =>
    have hr : r ∈ settling s t := settling_of_phase running ▸ List.mem_singleton_self r
    have hapart := h.apart t u (Ne.symm hu) r (List.mem_append_right _ hr) d
      (List.mem_append_right _ hd)
    have hsame : AgreeOn (d.call.settledKeys opts) s.shared.object.mountPointTable
        (Padll.settle s.shared.object.mountPointTable r.call.profile.effect) :=
      fun key hkey => held_settle_of_notMem
        (fun hkeyr => hapart.2 key hkey (List.mem_append_right _ hkeyr)) _
    intro key hkey
    exact (hsame.settle (List.Subset.refl _) key hkey).trans (h.settled u d hd key hkey)

theorem InOrder.apart_afterSettle (h : InOrder prng s) (running : s.phase t = some (.called r)) :
    ∀ u v, u ≠ v → ∀ d ∈ underWay (afterSettle s t r op increments) u,
      ∀ e ∈ underWay (afterSettle s t r op increments) v, Apart opts d.call e.call := by
  refine h.apart_of (t := t) (fun u hu => ?_) fun d hd u hu e he => ?_
  · rw [underWay_afterSettle running, if_neg hu]
  · rw [underWay_afterSettle running, if_pos rfl] at hd
    cases hd

/-- Settling the tables brings the entries of the call in order. -/
theorem InOrder.settle (h : InOrder prng s) (running : s.phase t = some (.called r)) :
    InOrder prng (afterSettle s t r op increments) where
  entries := h.entries_afterSettle running
  settled := h.settled_afterSettle running
  chosen u d hd := h.chosen u d (undone_afterSettle running u ▸ hd)
  apart := h.apart_afterSettle running
  records := h.records

end Settle

/-- A phase that neither makes the libc call nor settles keeps the order. -/
theorem InOrder.resume (h : InOrder prng s) {t : Tid} {p : EnforcingPhase}
    (running : s.phase t = some p) {p' : Option EnforcingPhase} {x : SharedEnforcing opts Tid}
    (hlog : x.log = s.shared.log)
    (htable : x.object.mountPointTable = s.shared.object.mountPointTable)
    (hundone : p'.elim [] EnforcingPhase.undone = p.undone)
    (hsettling : p'.elim [] EnforcingPhase.settling = p.settling) :
    InOrder prng ⟨x, s.rest, Function.update s.phase t p'⟩ := by
  refine h.quiet hlog (fun key => congrArg (·.held key) htable) (fun u => ?_) fun u => ?_
  · rw [undone, System.carried_update]
    split
    · next hu => rw [hu, undone_of_phase running, hundone]
    · rfl
  · rw [settling, System.carried_update]
    split
    · next hu => rw [hu, settling_of_phase running, hsettling]
    · rfl

/-- Along runs without overlapping conflicts the threads stay in the order of the libc calls. -/
theorem reaches_inOrder {prng : Nat → UInt32} {calls : Tid → List PosixCall}
    (hrun : Reaches (System.next (phases opts Tid)) BeginsApart (startThreads opts prng calls) s)
    (prng' : Nat → UInt32) : InOrder prng' s := by
  refine hrun.invariant (I := InOrder prng') ?_
    ⟨fun _ _ => rfl, fun _ _ hr => (List.not_mem_nil hr).elim,
      fun _ _ hr => (List.not_mem_nil hr).elim, fun _ _ _ _ hr => (List.not_mem_nil hr).elim, .nil⟩
  intro s t s' h hapart taken
  cases System.step_of_next taken with
  | @start c rest idle waiting =>
    have hc : ∀ u, u ≠ t → ∀ r ∈ underWay s u, Apart opts c r.call := by
      apply hapart
      · rw [idle]
        rfl
      · rw [waiting]
        rfl
    exact h.begin rest idle hc
  | @resume p running =>
    match p with
    | .chosen r => exact h.resume running rfl rfl rfl rfl
    | .submitted r => exact h.callLibc running
    | .called r => exact h.settle running
    | .counting op [] => exact h.resume running rfl rfl rfl rfl
    | .counting op (i :: rest) => exact h.resume running rfl rfl rfl rfl

end Facts

section Runs
variable [Fintype Tid] {prng : Nat → UInt32} {calls : Tid → List PosixCall}
  {s : EnforcingSystem opts Tid}

/-- If no call begins that conflicts with one under way, then once all threads are done they have
been answered, have submitted, settled the tables and counted as one thread that makes their calls
in the order of the libc calls, which keeps the order of each. -/
theorem calls_serialize
    (hrun : Reaches (System.next (phases opts Tid)) BeginsApart (startThreads opts prng calls) s)
    (hfinished : s.Finished) (prng' : Nat → UInt32) :
    let order := s.shared.log.map (·.2.call)
    (∀ t, (ofThread t s.shared.log).map (·.call) = calls t) ∧
    List.Forall₂ (SameCall opts) (s.shared.log.map (·.2)) (runAlone opts prng' order).1 ∧
    (∀ key, s.shared.object.mountPointTable.held key =
      (runAlone opts prng' order).2.mountPointTable.held key) ∧
    ∀ op, s.shared.object.stats.entry op = (runAlone opts prng' order).2.stats.entry op := by
  have hany : ReachesThreads prng calls s := hrun.imp fun _ _ _ => trivial
  have horder := reaches_inOrder hrun prng'
  obtain ⟨-, hlog, hnames⟩ := (recorded hany).shared
  refine ⟨fun t => (finished_log hany hfinished t).1, horder.records, fun key => ?_, fun op => ?_⟩
  · refine horder.entries key fun t r hr => ?_
    rw [settling, System.carried, (hfinished t).2] at hr
    cases hr
  · have hrecords : ∀ r ∈ s.shared.log.map (·.2), IsRecord opts r := by
      rintro r hr
      obtain ⟨entry, hentry, rfl⟩ := List.mem_map.mp hr
      exact hlog entry hentry
    obtain ⟨hname, hcounter⟩ :=
      @runAlone_entry opts prng' (s.shared.log.map (·.2.call)) op
    apply StatisticEntry.ext_counter
    · rw [hnames, hname]
    · intro c
      have hsum := sum_worth_congr horder.records hrecords (runAlone_isRecord _ _) op c
      rw [hcounter, finished_counter hany hfinished]
      rw [List.map_map] at hsum
      exact hsum

/-- A stream that two threads use one after the other, the second while the first still counts. -/
def passedOn : Bool → List PosixCall
  | true => [.fopen "/tmp/x".toList "r".toList (.stream 8), .fclose (.stream 8) 0]
  | false => [.fopen "/tmp/y".toList "r".toList (.stream 8)]

theorem calls_serialize_passedOn :
    ∃ s : EnforcingSystem (.shipped .single) Bool,
      Reaches (System.next (phases (.shipped .single) Bool)) BeginsApart
        (startThreads (.shipped .single) (fun _ => 0) passedOn) s ∧
      ∀ key, s.shared.object.mountPointTable.held key =
        (runAlone (.shipped .single) (fun _ => 0)
          (s.shared.log.map (·.2.call))).2.mountPointTable.held key := by
  let schedule := List.replicate 11 true ++ [false, true, false, true, false, true, false] ++
    List.replicate 3 false
  have hrun : exec (System.next (phases (.shipped .single) Bool))
      (startThreads (.shipped .single) (fun _ => 0) passedOn) schedule = some _ := rfl
  have halong : Along (System.next (phases (.shipped .single) Bool)) BeginsApart
      (startThreads (.shipped .single) (fun _ => 0) passedOn) schedule := by
    decide
  have hreached := Reaches.of_along halong hrun
  refine ⟨_, hreached, (calls_serialize hreached (fun t => ?_) fun _ => 0).2.2.1⟩
  cases t with
  | false => exact ⟨rfl, rfl⟩
  | true => exact ⟨rfl, rfl⟩

end Runs

end LdPreloadedPosix

end Padll

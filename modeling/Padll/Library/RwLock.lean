import Mathlib.Algebra.BigOperators.Group.Finset.Piecewise
import Mathlib.Algebra.Order.BigOperators.Group.Finset
import Padll.Library.Interleaving

/-! Reader-writer locks, and threads that run methods on shared data: a method acquires its lock,
accesses the data and releases the lock. -/
namespace RwLocks

inductive LockMode where
  | shared
  | exclusive
  deriving DecidableEq

/-- Held by any number of readers or by one writer. -/
inductive RwLock (Tid : Type*) where
  | shared (readers : Finset Tid)
  | exclusive (writer : Tid)

namespace RwLock
variable {Tid : Type*}

def free : RwLock Tid := .shared ∅

def Holds (t : Tid) : LockMode → RwLock Tid → Prop
  | .shared, .shared readers => t ∈ readers
  | .exclusive, .exclusive writer => t = writer
  | .shared, .exclusive _ | .exclusive, .shared _ => False

variable [DecidableEq Tid]

/-- The lock once a thread is granted it, if the holders let it in. -/
def acquire (t : Tid) : LockMode → RwLock Tid → Option (RwLock Tid)
  | .shared, .shared readers => some (.shared (insert t readers))
  | .exclusive, .shared readers => if readers = ∅ then some (.exclusive t) else none
  | _, .exclusive _ => none

def release (t : Tid) : RwLock Tid → RwLock Tid
  | .shared readers => .shared (readers.erase t)
  | .exclusive writer => if writer = t then free else .exclusive writer

omit [DecidableEq Tid] in
theorem not_holds_free (t : Tid) (mode : LockMode) : ¬ Holds t mode free := by
  cases mode with
  | shared => exact Finset.notMem_empty t
  | exclusive => exact id

omit [DecidableEq Tid] in
/-- A writer is the only holder. -/
theorem Holds.unique {t u : Tid} {mode : LockMode} {l : RwLock Tid} (h : Holds t .exclusive l)
    (h' : Holds u mode l) : u = t := by
  cases l with
  | shared readers => cases h
  | exclusive writer =>
    cases mode with
    | shared => cases h'
    | exclusive => exact h'.trans h.symm

theorem holds_acquire {t : Tid} {mode : LockMode} {l l' : RwLock Tid}
    (h : l.acquire t mode = some l') (u : Tid) (other : LockMode) :
    Holds u other l' ↔ Holds u other l ∨ (u = t ∧ other = mode) := by
  cases l with
  | exclusive writer => cases mode <;> cases h
  | shared readers =>
    cases mode with
    | shared =>
      obtain rfl := Option.some.inj h
      cases other with
      | shared => simp [Holds, or_comm]
      | exclusive => simp [Holds]
    | exclusive =>
      rw [acquire, Option.ite_none_right_eq_some] at h
      obtain ⟨rfl, h⟩ := h
      obtain rfl := Option.some.inj h
      cases other with
      | shared => simp [Holds]
      | exclusive => simp [Holds]

theorem holds_release (t u : Tid) (mode : LockMode) (l : RwLock Tid) :
    Holds u mode (l.release t) ↔ Holds u mode l ∧ u ≠ t := by
  cases l with
  | shared readers =>
    cases mode with
    | shared => simp [Holds, release, and_comm]
    | exclusive => simp [Holds, release]
  | exclusive writer =>
    have hwriter : Holds writer .exclusive (.exclusive writer) := rfl
    by_cases hw : writer = t
    · subst hw
      rw [release, if_pos rfl]
      exact iff_of_false (not_holds_free u mode) fun e => e.2 (hwriter.unique e.1)
    · rw [release, if_neg hw]
      refine (and_iff_left_of_imp fun h => ?_).symm
      rwa [hwriter.unique h]

/-- A lock that nobody holds is granted to anyone. -/
theorem acquire_of_not_holds {l : RwLock Tid} (h : ∀ u mode, ¬ Holds u mode l) (t : Tid)
    (mode : LockMode) : (l.acquire t mode).isSome := by
  cases l with
  | exclusive writer => exact absurd rfl (h writer .exclusive)
  | shared readers =>
    obtain rfl : readers = ∅ := Finset.eq_empty_of_forall_notMem fun u hu => h u .shared hu
    cases mode <;> rfl

end RwLock

/-- For each method: whether a call locks at all, which lock in which mode, and what its access
makes of the data. -/
structure LockedMethods (M L D : Type*) where
  enters : M → Bool
  lock : M → L
  mode : M → LockMode
  access : M → D → D

/-- Where a thread stands in a method. -/
inductive Phase (M : Type*) where
  | idle
  | calling (m : M)
  | accessing (m : M)
  | leaving (m : M)

/-- The method whose lock a thread holds. -/
def Phase.held {M : Type*} : Phase M → Option M
  | idle | calling _ => none
  | accessing m | leaving m => some m

@[simp] theorem Phase.held_accessing {M : Type*} (m : M) : (accessing m).held = some m := rfl

/-- The steps a thread in a method still is to take. -/
def Phase.remaining {M : Type*} : Phase M → Nat
  | idle => 0
  | calling _ => 3
  | accessing _ => 2
  | leaving _ => 1

structure LockSystem (Tid M L D : Type*) where
  locks : L → RwLock Tid
  phase : Tid → Phase M
  data : D

inductive LockAction (M : Type*) where
  | call (m : M)
  | acquire
  | access
  | release

namespace LockSystem
open Interleaving
variable {Tid M L D : Type*}

def start (data : D) : LockSystem Tid M L D := ⟨fun _ => .free, fun _ => .idle, data⟩

variable [DecidableEq Tid] [DecidableEq L] (methods : LockedMethods M L D)

/-- One step of a thread; an acquisition waits until the lock is granted. -/
def next (s : LockSystem Tid M L D) : Tid × LockAction M → Option (LockSystem Tid M L D)
  | (t, .call m) =>
    match s.phase t with
    | .idle =>
      let phase := if methods.enters m then .calling m else .idle
      some { s with phase := Function.update s.phase t phase }
    | _ => none
  | (t, .acquire) =>
    match s.phase t with
    | .calling m =>
      ((s.locks (methods.lock m)).acquire t (methods.mode m)).map fun l =>
        { s with
          locks := Function.update s.locks (methods.lock m) l
          phase := Function.update s.phase t (.accessing m) }
    | _ => none
  | (t, .access) =>
    match s.phase t with
    | .accessing m =>
      some { s with
        phase := Function.update s.phase t (.leaving m)
        data := methods.access m s.data }
    | _ => none
  | (t, .release) =>
    match s.phase t with
    | .leaving m =>
      let l := (s.locks (methods.lock m)).release t
      some { s with
        locks := Function.update s.locks (methods.lock m) l
        phase := Function.update s.phase t .idle }
    | _ => none

/-- What a step of a thread can be. -/
inductive Step (s : LockSystem Tid M L D) (t : Tid) : LockAction M → LockSystem Tid M L D → Prop
  | call {m : M} {phase : Phase M} (idle : s.phase t = .idle)
      (entered : phase = if methods.enters m then .calling m else .idle) :
      Step s t (.call m) { s with phase := Function.update s.phase t phase }
  | acquire {m : M} {l : RwLock Tid} (calling : s.phase t = .calling m)
      (granted : (s.locks (methods.lock m)).acquire t (methods.mode m) = some l) :
      Step s t .acquire { s with
        locks := Function.update s.locks (methods.lock m) l
        phase := Function.update s.phase t (.accessing m) }
  | access {m : M} (accessing : s.phase t = .accessing m) :
      Step s t .access { s with
        phase := Function.update s.phase t (.leaving m)
        data := methods.access m s.data }
  | release {m : M} (leaving : s.phase t = .leaving m) :
      Step s t .release { s with
        locks := Function.update s.locks (methods.lock m) ((s.locks (methods.lock m)).release t)
        phase := Function.update s.phase t .idle }

variable {methods}

theorem step_of_next {s s' : LockSystem Tid M L D} {t : Tid} {action : LockAction M}
    (taken : s.next methods (t, action) = some s') : Step methods s t action s' := by
  cases action with
  | call m =>
    cases hphase : s.phase t with
    | idle =>
      simp only [next, hphase, Option.some.injEq] at taken
      subst taken
      exact .call hphase rfl
    | _ => simp [next, hphase] at taken
  | acquire =>
    cases hphase : s.phase t with
    | calling m =>
      simp only [next, hphase, Option.map_eq_some_iff] at taken
      obtain ⟨l, hgranted, rfl⟩ := taken
      exact .acquire hphase hgranted
    | _ => simp [next, hphase] at taken
  | access =>
    cases hphase : s.phase t with
    | accessing m =>
      simp only [next, hphase, Option.some.injEq] at taken
      subst taken
      exact .access hphase
    | _ => simp [next, hphase] at taken
  | release =>
    cases hphase : s.phase t with
    | leaving m =>
      simp only [next, hphase, Option.some.injEq] at taken
      subst taken
      exact .release hphase
    | _ => simp [next, hphase] at taken

/-- A thread in its access was there before the step, or has just acquired. -/
theorem Step.accessing_before {s s' : LockSystem Tid M L D} {t u : Tid}
    {action : LockAction M} {m : M} (hstep : Step methods s t action s')
    (h : s'.phase u = .accessing m) :
    s.phase u = .accessing m ∨ (u = t ∧ action = .acquire ∧ s.phase t = .calling m) := by
  by_cases hu : u = t
  · subst hu
    cases hstep with
    | call idle entered =>
      simp only [Function.update_self, entered] at h
      split at h <;> cases h
    | acquire calling granted =>
      simp only [Function.update_self] at h
      obtain rfl := Phase.accessing.inj h
      exact .inr ⟨rfl, rfl, calling⟩
    | _ =>
      simp only [Function.update_self] at h
      cases h
  · refine .inl (h ▸ ?_)
    cases hstep <;> exact (Function.update_of_ne hu _ _).symm

theorem Step.accessing_after {s s' : LockSystem Tid M L D} {t : Tid} {m : M}
    (hstep : Step methods s t .acquire s') (hcalling : s.phase t = .calling m) :
    s'.phase t = .accessing m ∧ ∀ u, u ≠ t → s'.phase u = s.phase u := by
  cases hstep with
  | acquire calling granted =>
    obtain rfl := Phase.calling.inj (hcalling.symm.trans calling)
    exact ⟨Function.update_self .., fun u hu => Function.update_of_ne hu ..⟩

variable (methods)

/-- A thread holds exactly the lock of the method it is in, in the method's mode. -/
def LocksMatch (s : LockSystem Tid M L D) : Prop :=
  ∀ k t mode, (s.locks k).Holds t mode ↔
    ∃ m, (s.phase t).held = some m ∧ methods.lock m = k ∧ methods.mode m = mode

variable {methods}

omit [DecidableEq Tid] [DecidableEq L] in
theorem start_locksMatch (data : D) : LocksMatch methods (start data : LockSystem Tid M L D) := by
  intro k t mode
  refine iff_of_false (RwLock.not_holds_free t mode) ?_
  rintro ⟨m, hheld, -⟩
  cases hheld

omit [DecidableEq L] in
/-- A step of one thread keeps the invariant if that thread holds what its new phase says and
the others hold what they held. -/
theorem LocksMatch.update {s : LockSystem Tid M L D} (h : s.LocksMatch methods) (t : Tid)
    {p : Phase M} {locks : L → RwLock Tid} (data : D)
    (hown : ∀ k mode, (locks k).Holds t mode ↔
      ∃ m, p.held = some m ∧ methods.lock m = k ∧ methods.mode m = mode)
    (hothers : ∀ u, u ≠ t → ∀ k mode, (locks k).Holds u mode ↔ (s.locks k).Holds u mode) :
    LocksMatch methods ⟨locks, Function.update s.phase t p, data⟩ := by
  intro k u mode
  rcases eq_or_ne u t with rfl | hu
  · simp only [Function.update_self]
    exact hown k mode
  · simp only [Function.update_of_ne hu]
    exact (hothers u hu k mode).trans (h k u mode)

/-- Who holds which lock after one lock was granted. -/
theorem holds_granted {locks : L → RwLock Tid} {k₀ : L} {t : Tid} {mode₀ : LockMode}
    {l : RwLock Tid} (granted : (locks k₀).acquire t mode₀ = some l) (u : Tid) (k : L)
    (mode : LockMode) :
    (Function.update locks k₀ l k).Holds u mode ↔
      (locks k).Holds u mode ∨ (u = t ∧ k = k₀ ∧ mode = mode₀) := by
  rcases eq_or_ne k k₀ with rfl | hk
  · rw [Function.update_self, RwLock.holds_acquire granted]
    simp
  · rw [Function.update_of_ne hk]
    simp [hk]

/-- Who holds which lock after one lock was released. -/
theorem holds_released (locks : L → RwLock Tid) (k₀ : L) (t u : Tid) (k : L) (mode : LockMode) :
    (Function.update locks k₀ ((locks k₀).release t) k).Holds u mode ↔
      (locks k).Holds u mode ∧ ¬ (u = t ∧ k = k₀) := by
  rcases eq_or_ne k k₀ with rfl | hk
  · rw [Function.update_self, RwLock.holds_release]
    simp
  · rw [Function.update_of_ne hk]
    simp [hk]

theorem LocksMatch.step {s s' : LockSystem Tid M L D} (h : s.LocksMatch methods) {t : Tid}
    {action : LockAction M} (hstep : Step methods s t action s') : s'.LocksMatch methods := by
  cases hstep with
  | @call m phase idle entered =>
    have hheld : phase.held = (s.phase t).held := by
      rw [idle, entered]
      split <;> rfl
    exact h.update t s.data (fun k mode => hheld ▸ h k t mode) fun _ _ _ _ => Iff.rfl
  | @acquire m l calling granted =>
    have hnone (k mode) : ¬ (s.locks k).Holds t mode := by
      rw [h, calling]
      rintro ⟨m', hheld, -⟩
      cases hheld
    apply h.update t s.data
    · intro k mode
      rw [holds_granted granted, or_iff_right (hnone k mode)]
      simp [eq_comm]
    · intro u hu k mode
      rw [holds_granted granted, or_iff_left fun e => hu e.1]
  | @access m accessing =>
    have hheld : (Phase.leaving m).held = (s.phase t).held := by
      rw [accessing]
      rfl
    exact h.update t (methods.access m s.data) (fun k mode => hheld ▸ h k t mode)
      fun _ _ _ _ => Iff.rfl
  | @release m leaving =>
    apply h.update t s.data
    · intro k mode
      rw [holds_released, h, leaving]
      refine iff_of_false ?_ ?_
      · rintro ⟨⟨m', hheld, hlock, -⟩, hkept⟩
        obtain rfl := Option.some.inj hheld
        exact hkept ⟨rfl, hlock.symm⟩
      · rintro ⟨m', hheld, -⟩
        cases hheld
    · intro u hu k mode
      rw [holds_released, and_iff_left fun e => hu e.1]

omit [DecidableEq Tid] [DecidableEq L] in
/-- While a writer is in a method, no other thread is in a method of the same lock. -/
theorem LocksMatch.excludes {s : LockSystem Tid M L D} (h : s.LocksMatch methods) {t u : Tid}
    {m m' : M} (hwriter : (s.phase t).held = some m) (hmode : methods.mode m = .exclusive)
    (hother : (s.phase u).held = some m') (hlock : methods.lock m' = methods.lock m) : u = t := by
  have hheld := (h (methods.lock m) t .exclusive).mpr ⟨m, hwriter, rfl, hmode⟩
  exact hheld.unique ((h (methods.lock m) u _).mpr ⟨m', hother, hlock, rfl⟩)

section Draining

/-- A step of a thread that is in a method already. -/
def Proceeds (a : Tid × LockAction M) : Prop := ∀ m, a.2 ≠ .call m

/-- While some thread is in a method, some thread in a method can go on. -/
theorem LocksMatch.enabled {s : LockSystem Tid M L D} (h : s.LocksMatch methods)
    (busy : ∃ t, s.phase t ≠ .idle) : ∃ a, Proceeds a ∧ (s.next methods a).isSome := by
  by_cases hheld : ∃ t m, (s.phase t).held = some m
  · obtain ⟨t, m, hm⟩ := hheld
    cases hphase : s.phase t with
    | accessing m' => exact ⟨(t, .access), fun m h => (by cases h), by simp [next, hphase]⟩
    | leaving m' => exact ⟨(t, .release), fun m h => (by cases h), by simp [next, hphase]⟩
    | idle | calling m' =>
      rw [hphase] at hm
      cases hm
  · -- nobody holds a lock, so whoever waits for one is granted it
    obtain ⟨t, ht⟩ := busy
    cases hphase : s.phase t with
    | idle => exact absurd hphase ht
    | accessing m | leaving m => exact (hheld ⟨t, m, by rw [hphase]; rfl⟩).elim
    | calling m =>
      refine ⟨(t, .acquire), fun m h => (by cases h), ?_⟩
      simp only [next, hphase, Option.isSome_map]
      refine RwLock.acquire_of_not_holds (fun u mode hholds => hheld ?_) t (methods.mode m)
      obtain ⟨m', hm', -⟩ := (h (methods.lock m) u mode).mp hholds
      exact ⟨u, m', hm'⟩

variable [Fintype Tid]

/-- The steps that the threads in methods still are to take. -/
def remaining (s : LockSystem Tid M L D) : Nat := ∑ t, (s.phase t).remaining

omit [DecidableEq Tid] [DecidableEq L] in
theorem remaining_le (s : LockSystem Tid M L D) : s.remaining ≤ 3 * Fintype.card Tid := by
  have hthree : ∑ _t : Tid, 3 = Fintype.card Tid * 3 := Finset.sum_const_nat fun _ _ => rfl
  rw [mul_comm, ← hthree]
  refine Finset.sum_le_sum fun t _ => ?_
  cases s.phase t <;> simp [Phase.remaining]

theorem Step.remaining {s s' : LockSystem Tid M L D} {t : Tid} {action : LockAction M}
    (hstep : Step methods s t action s') (hproceeds : Proceeds (t, action)) :
    s'.remaining + 1 = s.remaining := by
  have hupdate : ∀ (p : Phase M) (locks : L → RwLock Tid) (data : D),
      (s.phase t).remaining = p.remaining + 1 →
      LockSystem.remaining ⟨locks, Function.update s.phase t p, data⟩ + 1 = s.remaining := by
    intro p locks data hp
    simp only [LockSystem.remaining, Function.apply_update fun _ => Phase.remaining]
    rw [Finset.sum_update_of_mem (Finset.mem_univ t),
      Finset.sum_eq_add_sum_sdiff_singleton_of_mem (Finset.mem_univ t)
        fun u => (s.phase u).remaining, hp]
    omega
  cases hstep with
  | @call m => exact absurd rfl (hproceeds m)
  | acquire calling granted => exact hupdate _ _ _ (by rw [calling]; rfl)
  | access accessing => exact hupdate _ _ _ (by rw [accessing]; rfl)
  | release leaving => exact hupdate _ _ _ (by rw [leaving]; rfl)

/-- Threads that begin no method use up what remains, a step at a time. -/
theorem exec_remaining {s s' : LockSystem Tid M L D} {actions : List (Tid × LockAction M)}
    (hproceeds : ∀ a ∈ actions, Proceeds a) (hexec : exec (next methods) s actions = some s') :
    s'.remaining + actions.length = s.remaining := by
  induction actions generalizing s with
  | nil =>
    obtain rfl := Option.some.inj hexec
    rfl
  | cons a actions ih =>
    obtain ⟨m, hm, hrest⟩ := Option.bind_eq_some_iff.mp hexec
    have hstep := (step_of_next hm).remaining (hproceeds a List.mem_cons_self)
    have hlater := ih (fun b hb => hproceeds b (List.mem_cons_of_mem a hb)) hrest
    rw [List.length_cons]
    omega

end Draining

end LockSystem
end RwLocks

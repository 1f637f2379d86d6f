import Mathlib.Algebra.BigOperators.Group.Finset.Piecewise
import Padll.Library.Interleaving
import Padll.Library.OutputMachine

/-! Threads that make calls on a shared state, each call in phases between which other threads
run: what is pending in all of them, and what one of them can rely on. -/
namespace ThreadCalls
open Interleaving
variable {Tid C P σ : Type*}

section Shares
variable {α : Type*} [DecidableEq Tid]

/-- What belongs to a thread among items that carry their threads. -/
def ofThread (t : Tid) (items : List (Tid × α)) : List α :=
  (items.filter fun item => item.1 = t).map (·.2)

@[simp] theorem ofThread_nil (t : Tid) : ofThread t ([] : List (Tid × α)) = [] := rfl

@[simp] theorem ofThread_append (t : Tid) (items items' : List (Tid × α)) :
    ofThread t (items ++ items') = ofThread t items ++ ofThread t items' := by
  simp [ofThread]

@[simp] theorem ofThread_singleton (t u : Tid) (a : α) :
    ofThread t [(u, a)] = if u = t then [a] else [] := by
  by_cases hu : u = t
  · simp [ofThread, hu]
  · simp [ofThread, hu]

@[simp] theorem ofThread_own (t : Tid) (items : List α) :
    ofThread t (items.map (t, ·)) = items := by
  simp [ofThread, List.filter_map, Function.comp_def]

theorem ofThread_other {t u : Tid} (hu : u ≠ t) (items : List α) :
    ofThread t (items.map (u, ·)) = [] := by
  simp [ofThread, List.filter_map, Function.comp_def, hu]

theorem filterMap_ofThread_concat {β : Type*} (f : α → Option β) (t u : Tid) (a : α)
    (items : List (Tid × α)) :
    (ofThread u (items ++ [(t, a)])).filterMap f =
      (ofThread u items).filterMap f ++ if u = t then (f a).toList else [] := by
  rw [ofThread_append, List.filterMap_append, ofThread_singleton]
  rcases eq_or_ne t u with rfl | hu
  · cases hf : f a with
    | none => simp [hf]
    | some b => simp [hf]
  · rw [if_neg hu, if_neg hu.symm]
    rfl

/-- A sum over items is the sum of what each thread has of it. -/
theorem sum_ofThread [Fintype Tid] {M : Type*} [AddCommMonoid M] (f : α → M)
    (items : List (Tid × α)) :
    ∑ t, ((ofThread t items).map f).sum = (items.map fun item => f item.2).sum := by
  induction items with
  | nil => simp
  | cons item items ih =>
    have hcons : ∀ t, ((ofThread t (item :: items)).map f).sum =
        (if item.1 = t then f item.2 else 0) + ((ofThread t items).map f).sum := by
      intro t
      by_cases ht : item.1 = t
      · simp [ofThread, ht]
      · simp [ofThread, ht]
    simp only [hcons, Finset.sum_add_distrib, ih, List.map_cons, List.sum_cons]
    rw [Finset.sum_ite_eq, if_pos (Finset.mem_univ _)]

/-- Items are counted thread by thread. -/
theorem countP_ofThread [Fintype Tid] (p : α → Bool) (items : List (Tid × α)) :
    ∑ t, (ofThread t items).countP p = items.countP fun item => p item.2 := by
  have hsum := sum_ofThread (fun a => if p a then 1 else 0) items
  simp only [OutputMachine.sum_map_indicator, Nat.nsmul_eq_mul, mul_one] at hsum
  exact hsum

end Shares

/-- The first phase of a call, and what each phase leads to, `none` once the call returns. -/
structure Phases (Tid C P σ : Type*) where
  start : Tid → C → σ → P × σ
  resume : Tid → P → σ → Option P × σ

/-- The shared state, the calls each thread has left, and where it stands in its current one. -/
structure System (Tid C P σ : Type*) where
  shared : σ
  rest : Tid → List C
  phase : Tid → Option P

namespace System

def start (shared : σ) (calls : Tid → List C) : System Tid C P σ := ⟨shared, calls, fun _ => none⟩

def Finished (s : System Tid C P σ) : Prop := ∀ t, s.rest t = [] ∧ s.phase t = none

variable [DecidableEq Tid] (phases : Phases Tid C P σ)

/-- One thread goes through one phase. -/
def next (s : System Tid C P σ) (t : Tid) : Option (System Tid C P σ) :=
  match s.phase t with
  | some p =>
    let (p', shared) := phases.resume t p s.shared
    some ⟨shared, s.rest, Function.update s.phase t p'⟩
  | none =>
    match s.rest t with
    | [] => none
    | c :: rest =>
      let (p, shared) := phases.start t c s.shared
      some ⟨shared, Function.update s.rest t rest, Function.update s.phase t (some p)⟩

/-- What a step of a thread can be. -/
inductive Step (s : System Tid C P σ) (t : Tid) : System Tid C P σ → Prop
  | start {c : C} {rest : List C} (idle : s.phase t = none) (waiting : s.rest t = c :: rest) :
      Step s t ⟨(phases.start t c s.shared).2, Function.update s.rest t rest,
        Function.update s.phase t (some (phases.start t c s.shared).1)⟩
  | resume {p : P} (running : s.phase t = some p) :
      Step s t ⟨(phases.resume t p s.shared).2, s.rest,
        Function.update s.phase t (phases.resume t p s.shared).1⟩

variable {phases}

theorem step_of_next {s s' : System Tid C P σ} {t : Tid} (taken : s.next phases t = some s') :
    Step phases s t s' := by
  cases hphase : s.phase t with
  | some p =>
    simp only [next, hphase, Option.some.injEq] at taken
    subst taken
    exact .resume hphase
  | none =>
    cases hrest : s.rest t with
    | nil => simp [next, hphase, hrest] at taken
    | cons c rest =>
      simp only [next, hphase, hrest, Option.some.injEq] at taken
      subst taken
      exact .start hphase hrest

section Carried
variable {A : Type*}

/-- What the current phase of a thread carries. -/
def carried (f : P → List A) (s : System Tid C P σ) (t : Tid) : List A := (s.phase t).elim [] f

theorem carried_update (f : P → List A) (x : σ) (rest : Tid → List C) (phase : Tid → Option P)
    (t : Tid) (p : Option P) (u : Tid) :
    carried f ⟨x, rest, Function.update phase t p⟩ u =
      if u = t then p.elim [] f else (phase u).elim [] f := by
  simp only [carried]
  split
  · next hu => rw [hu, Function.update_self]
  · next hu => rw [Function.update_of_ne hu]

end Carried

section Pending
variable [Fintype Tid] {M : Type*} [AddCommMonoid M]

/-- What the current phases of all threads owe. -/
def pending (g : P → M) (s : System Tid C P σ) : M := ∑ t, (s.phase t).elim 0 g

omit [DecidableEq Tid] in
@[simp] theorem pending_start (g : P → M) (shared : σ) (calls : Tid → List C) :
    (start shared calls : System Tid C P σ).pending g = 0 :=
  Finset.sum_eq_zero fun _ _ => rfl

omit [DecidableEq Tid] in
theorem Finished.pending_eq_zero {s : System Tid C P σ} (h : s.Finished) (g : P → M) :
    s.pending g = 0 :=
  Finset.sum_eq_zero fun t _ => by rw [(h t).2, Option.elim_none]

private theorem pending_update (g : P → M) (phase : Tid → Option P) (t : Tid) (p : Option P) :
    ∑ u, (Function.update phase t p u).elim 0 g =
      p.elim 0 g + ∑ u ∈ Finset.univ.erase t, (phase u).elim 0 g := by
  rw [← Finset.add_sum_erase _ _ (Finset.mem_univ t), Function.update_self]
  refine congrArg (p.elim 0 g + ·) (Finset.sum_congr rfl fun u hu => ?_)
  rw [Function.update_of_ne (Finset.ne_of_mem_erase hu)]

/-- A relation between the shared state and what is pending holds along every run if each phase
keeps it for whatever the other threads owe. -/
theorem reaches_pending {ok : System Tid C P σ → Tid → Prop} {g : P → M} {V : σ → M → Prop}
    (hstart : ∀ t c x m, V x m → V (phases.start t c x).2 (g (phases.start t c x).1 + m))
    (hresume : ∀ t p x m, V x (g p + m) →
      V (phases.resume t p x).2 ((phases.resume t p x).1.elim 0 g + m))
    {s s' : System Tid C P σ} (hrun : Reaches (next phases) ok s s')
    (h : V s.shared (s.pending g)) : V s'.shared (s'.pending g) := by
  refine hrun.invariant (I := fun s => V s.shared (s.pending g)) ?_ h
  intro s t s' hs _ taken
  have hsplit : s.pending g = (s.phase t).elim 0 g +
      ∑ u ∈ Finset.univ.erase t, (s.phase u).elim 0 g :=
    (Finset.add_sum_erase _ _ (Finset.mem_univ t)).symm
  rw [hsplit] at hs
  cases step_of_next taken with
  | start idle waiting =>
    rw [pending, pending_update]
    rw [idle, Option.elim_none, zero_add] at hs
    exact hstart _ _ _ _ hs
  | resume running =>
    rw [pending, pending_update]
    rw [running, Option.elim_some] at hs
    exact hresume _ _ _ _ hs

end Pending

/-- The threads have calls of their own left, and their phases and the shared state are as told. -/
structure Kept (calls : Tid → List C) (Q : Tid → P → Prop) (I : σ → Prop)
    (s : System Tid C P σ) : Prop where
  rest : ∀ t, s.rest t ⊆ calls t
  phase : ∀ t, ∀ p ∈ s.phase t, Q t p
  shared : I s.shared

section Kept
variable {ok : System Tid C P σ → Tid → Prop} {calls : Tid → List C} {Q : Tid → P → Prop}
  {I : σ → Prop} {x : σ} {s : System Tid C P σ}

/-- What each phase keeps of the shared state and of the thread it belongs to, a run keeps. -/
theorem reaches_kept
    (hstart : ∀ t, ∀ c ∈ calls t, ∀ x, I x →
      Q t (phases.start t c x).1 ∧ I (phases.start t c x).2)
    (hresume : ∀ t p x, I x → Q t p →
      (∀ p' ∈ (phases.resume t p x).1, Q t p') ∧ I (phases.resume t p x).2)
    (hrun : Reaches (next phases) ok (System.start x calls) s) (h : I x) : s.Kept calls Q I := by
  refine hrun.invariant (I := Kept calls Q I) ?_
    ⟨fun t => List.Subset.refl _, fun t p hp => (Option.not_mem_none p hp).elim, h⟩
  rintro s t s' ⟨hrest, hphase, hs⟩ - taken
  have hupdate : ∀ p' : Option P, (∀ p ∈ p', Q t p) →
      ∀ u, ∀ p ∈ Function.update s.phase t p' u, Q u p := by
    intro p' hp' u p hp
    rcases eq_or_ne u t with rfl | hu
    · rw [Function.update_self] at hp
      exact hp' p hp
    · rw [Function.update_of_ne hu] at hp
      exact hphase u p hp
  cases step_of_next taken with
  | @start c rest idle waiting =>
    have hc : c ∈ calls t := hrest t (waiting ▸ List.mem_cons_self)
    obtain ⟨hQ, hI⟩ := hstart t c hc s.shared hs
    refine ⟨fun u => ?_, hupdate _ fun p hp => Option.some.inj hp ▸ hQ, hI⟩
    rcases eq_or_ne u t with rfl | hu
    · simp only [Function.update_self]
      exact fun d hd => hrest u (waiting ▸ List.mem_cons_of_mem c hd)
    · simp only [Function.update_of_ne hu]
      exact hrest u
  | @resume p running =>
    obtain ⟨hQ, hI⟩ := hresume t p s.shared hs (hphase t p running)
    exact ⟨hrest, hupdate _ hQ, hI⟩

/-- What a thread relies on: a relation between its own progress and the shared state that its
own phases keep, and that no phase of a call of another thread breaks. -/
theorem reaches_thread (t : Tid) {R : List C → Option P → σ → Prop}
    (hkept : ∀ m, Reaches (next phases) ok (System.start x calls) m → m.Kept calls Q I)
    (hstart : ∀ c rest x, I x → R (c :: rest) none x →
      R rest (some (phases.start t c x).1) (phases.start t c x).2)
    (hresume : ∀ rest p x, I x → Q t p → R rest (some p) x →
      R rest (phases.resume t p x).1 (phases.resume t p x).2)
    (hstartOf : ∀ u, u ≠ t → ∀ c ∈ calls u, ∀ rest p x, I x → R rest p x →
      R rest p (phases.start u c x).2)
    (hresumeOf : ∀ u, u ≠ t → ∀ q, Q u q → ∀ rest p x, I x → R rest p x →
      R rest p (phases.resume u q x).2)
    (hrun : Reaches (next phases) ok (System.start x calls) s) (h : R (calls t) none x) :
    R (s.rest t) (s.phase t) s.shared := by
  refine hrun.invariant_reached
    (I := fun s : System Tid C P σ => R (s.rest t) (s.phase t) s.shared) ?_ h
  intro s u s' reached hs _ taken
  obtain ⟨hrest, hphase, hI⟩ := hkept s reached
  cases step_of_next taken with
  | @start c rest idle waiting =>
    rcases eq_or_ne u t with rfl | hu
    · simp only [Function.update_self]
      rw [waiting, idle] at hs
      exact hstart c rest _ hI hs
    · simp only [Function.update_of_ne hu.symm]
      exact hstartOf u hu c (hrest u (waiting ▸ List.mem_cons_self)) _ _ _ hI hs
  | @resume q running =>
    rcases eq_or_ne u t with rfl | hu
    · simp only [Function.update_self]
      rw [running] at hs
      exact hresume _ q _ hI (hphase u q running) hs
    · simp only [Function.update_of_ne hu.symm]
      exact hresumeOf u hu q (hphase u q running) _ _ _ hI hs

end Kept

end System
end ThreadCalls

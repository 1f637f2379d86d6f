import Mathlib.Algebra.BigOperators.Group.Finset.Basic
import Mathlib.Algebra.BigOperators.Group.List.Basic
import Padll.Library.Interleaving

/-! Threads that each run a list of atomic actions on a shared state, in any interleaving, and
what all of them together still have to do. -/
namespace ThreadPrograms
open Interleaving
variable {Tid A σ : Type*}

/-- The shared state, and the actions each thread has left. -/
structure System (Tid A σ : Type*) where
  shared : σ
  rest : Tid → List A

namespace System

def Finished (s : System Tid A σ) : Prop := ∀ t, s.rest t = []

variable [DecidableEq Tid] (act : A → σ → σ)

/-- One thread performs the next of its actions. -/
def next (s : System Tid A σ) (t : Tid) : Option (System Tid A σ) :=
  match s.rest t with
  | [] => none
  | a :: rest => some ⟨act a s.shared, Function.update s.rest t rest⟩

variable {act}

theorem next_eq_some {s s' : System Tid A σ} {t : Tid} (taken : s.next act t = some s') :
    ∃ a rest, s.rest t = a :: rest ∧ s' = ⟨act a s.shared, Function.update s.rest t rest⟩ := by
  cases hrest : s.rest t with
  | nil => simp [next, hrest] at taken
  | cons a rest =>
    simp only [next, hrest, Option.some.injEq] at taken
    exact ⟨a, rest, rfl, taken.symm⟩

section Totals
variable [Fintype Tid] {M : Type*} [AddCommMonoid M]

/-- A function of what a thread has left, summed over the threads. -/
def total (g : List A → M) (s : System Tid A σ) : M := ∑ t, g (s.rest t)

/-- A step changes the contribution of its thread alone. -/
theorem total_update (g : List A → M) (s : System Tid A σ) (t : Tid) (x : σ) (rest : List A) :
    ∃ others, s.total g = g (s.rest t) + others ∧
      total g ⟨x, Function.update s.rest t rest⟩ = g rest + others := by
  have hothers : ∑ u ∈ Finset.univ.erase t, g (Function.update s.rest t rest u) =
      ∑ u ∈ Finset.univ.erase t, g (s.rest u) := by
    apply Finset.sum_congr rfl
    intro u hu
    rw [Function.update_of_ne (Finset.ne_of_mem_erase hu)]
  refine ⟨∑ u ∈ Finset.univ.erase t, g (s.rest u), ?_, ?_⟩
  · exact (Finset.add_sum_erase _ _ (Finset.mem_univ t)).symm
  · have hsplit := Finset.add_sum_erase Finset.univ
      (fun u => g (Function.update s.rest t rest u)) (Finset.mem_univ t)
    rw [Function.update_self, hothers] at hsplit
    exact hsplit.symm

omit [DecidableEq Tid] in
theorem Finished.total_eq_zero {s : System Tid A σ} (h : s.Finished) {g : List A → M}
    (hg : g [] = 0) : s.total g = 0 :=
  Finset.sum_eq_zero fun t _ => by rw [h t, hg]

/-- The weight of all actions that are left. -/
def owed (weight : A → M) (s : System Tid A σ) : M := s.total fun rest => (rest.map weight).sum

/-- A value of the shared state and of the weight that is left stays the same along every run
if it trades one for the other in each action. -/
theorem reaches_owed {P : Type*} {ok : System Tid A σ → Tid → Prop} {weight : A → M}
    {I : σ → Prop} (value : σ → M → P) (hI : ∀ a x, I x → I (act a x))
    (hact : ∀ a x m, I x → value (act a x) m = value x (weight a + m))
    {s s' : System Tid A σ} (hs : I s.shared) (hrun : Reaches (next act) ok s s') :
    I s'.shared ∧ value s'.shared (s'.owed weight) = value s.shared (s.owed weight) := by
  induction hrun with
  | refl => exact ⟨hs, rfl⟩
  | @step m s' t reached condition taken ih =>
    obtain ⟨hm, hvalue⟩ := ih
    obtain ⟨a, rest, hrest, rfl⟩ := next_eq_some taken
    refine ⟨hI a m.shared hm, Eq.trans ?_ hvalue⟩
    obtain ⟨others, hbefore, hafter⟩ :=
      total_update (fun rest => (rest.map weight).sum) m t (act a m.shared) rest
    rw [owed, hafter, hact a _ _ hm, owed, hbefore, hrest, List.map_cons, List.sum_cons, add_assoc]

end Totals
end System
end ThreadPrograms

import Mathlib.Algebra.Group.Hom.End
import Mathlib.Algebra.Group.Hom.Basic
import Mathlib.Algebra.Ring.Basic
import Mathlib.Data.Fintype.Card
import Mathlib.Data.Nat.Prime.Basic
import Mathlib.Dynamics.PeriodicPts.Defs

/-! Periods of additive maps: a power that is the identity with no smaller quotient fixing a
point, and what the orbit of a map that moves all points but zero in one cycle counts. -/
namespace Padll.FullPeriod
open Function
variable {V : Type*} [AddCommGroup V] {T : AddMonoid.End V} {N : Nat} {v : V}

private theorem eq_zero_of_fixed {n : Nat} (hu : ∃ u : AddMonoid.End V, u * (T ^ n - 1) = 1)
    (hfixed : T^[n] v = v) : v = 0 := by
  obtain ⟨u, hu⟩ := hu
  have hzero : (T ^ n - 1) v = 0 := by
    change (T ^ n) v - v = 0
    rw [AddMonoid.End.coe_pow, hfixed, sub_self]
  calc v = (u * (T ^ n - 1)) v := by rw [hu]; rfl
    _ = u ((T ^ n - 1) v) := rfl
    _ = 0 := by rw [hzero, map_zero]

/-- If one less than the power at every maximal divisor of `N` is invertible, each point but
zero has period `N`. -/
theorem minimalPeriod_eq (full : T ^ N = 1)
    (proper : ∀ p : Nat, p.Prime → p ∣ N → ∃ u : AddMonoid.End V, u * (T ^ (N / p) - 1) = 1)
    (hv : v ≠ 0) : minimalPeriod T v = N := by
  have hN : IsPeriodicPt T N v := by
    rw [IsPeriodicPt, IsFixedPt, ← AddMonoid.End.coe_pow, full]
    rfl
  obtain ⟨e, he⟩ := hN.minimalPeriod_dvd
  by_cases hone : e = 1
  · rw [he, hone, mul_one]
  · exfalso
    obtain ⟨p, hp, f, rfl⟩ := Nat.exists_prime_and_dvd hone
    have hquotient : N / p = minimalPeriod T v * f := by
      rw [he, mul_left_comm, Nat.mul_div_cancel_left _ hp.pos]
    apply hv
    apply eq_zero_of_fixed (proper p hp ⟨minimalPeriod T v * f, by rw [he, mul_left_comm]⟩)
    rw [hquotient]
    exact (isPeriodicPt_minimalPeriod T v).mul_const f

/-- The orbit of a point that is not zero avoids zero. -/
theorem iterate_ne_zero (hv : v ≠ 0) (hperiod : minimalPeriod T v = N) {i : Nat} (hi : i < N) :
    T^[i] v ≠ 0 := by
  intro hzero
  apply hv
  calc v = T^[N] v := by rw [← hperiod, iterate_minimalPeriod]
    _ = T^[N - i] (T^[i] v) := by rw [← iterate_add_apply, Nat.sub_add_cancel hi.le]
    _ = 0 := by rw [hzero, iterate_map_zero]

/-- Along one period of a map of `N + 1` points, as often as among the points other than zero. -/
theorem card_orbit [Fintype V] [DecidableEq V] (hcard : Fintype.card V = N + 1) (hv : v ≠ 0)
    (hperiod : minimalPeriod T v = N) (P : V → Prop) [DecidablePred P] :
    ((Finset.range N).filter fun i => P (T^[i] v)).card =
      (Finset.univ.filter fun w => w ≠ 0 ∧ P w).card := by
  have hinj : Set.InjOn (fun i => T^[i] v) (Finset.range N : Set Nat) := by
    intro i hi j hj heq
    rw [Finset.coe_range, Set.mem_Iio, ← hperiod] at hi hj
    exact (iterate_eq_iterate_iff_of_lt_minimalPeriod hi hj).mp heq
  have himage : (Finset.range N).image (fun i => T^[i] v) = Finset.univ.erase 0 := by
    apply Finset.eq_of_subset_of_card_le
    · intro w hw
      obtain ⟨i, hi, rfl⟩ := Finset.mem_image.mp hw
      exact Finset.mem_erase.mpr
        ⟨iterate_ne_zero hv hperiod (Finset.mem_range.mp hi), Finset.mem_univ _⟩
    · rw [Finset.card_image_of_injOn hinj, Finset.card_range,
        Finset.card_erase_of_mem (Finset.mem_univ _), Finset.card_univ, hcard,
        Nat.add_sub_cancel]
  have hnonzero : (Finset.univ.filter fun w : V => w ≠ 0 ∧ P w) =
      (Finset.univ.erase 0).filter P := by
    ext w
    simp
  rw [hnonzero, ← himage, Finset.filter_image, Finset.card_image_of_injOn]
  exact hinj.mono fun i hi => (Finset.mem_filter.mp hi).1

end Padll.FullPeriod

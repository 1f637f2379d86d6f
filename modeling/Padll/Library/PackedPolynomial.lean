import Mathlib.Algebra.CharP.Two
import Mathlib.Algebra.Group.Hom.End
import Mathlib.Data.Nat.Cast.Commute
import Mathlib.Data.Nat.Bitwise
import Mathlib.Data.Nat.Prime.Basic
import Mathlib.Dynamics.PeriodicPts.Defs

/-! Polynomials over the field of two elements, packed into the bits of a number: evaluation in
a ring of characteristic two, reduction by a modulus, and certificates for the period of an
additive map that the modulus annihilates. -/
namespace Padll.PackedPolynomial

section Evaluation
variable {R : Type*} [Ring R]

/-- The value at `x` of the polynomial whose coefficients are the bits of `p`. -/
def eval (x : R) (p : Nat) : R :=
  if p = 0 then 0 else p + x * eval x (p / 2)
termination_by p
decreasing_by omega

@[simp] theorem eval_zero (x : R) : eval x 0 = 0 := by
  rw [eval, if_pos rfl]

/-- One coefficient in front: a cast keeps only the lowest bit in characteristic two. -/
theorem eval_eq (x : R) (p : Nat) : eval x p = p + x * eval x (p / 2) := by
  by_cases hp : p = 0
  · simp [hp]
  · rw [eval, if_neg hp]

@[simp] theorem eval_one (x : R) : eval x 1 = 1 := by
  rw [eval_eq]
  simp

theorem eval_commute (x : R) (p : Nat) : Commute x (eval x p) := by
  induction p using Nat.strongRecOn with
  | ind p ih =>
    by_cases hp : p = 0
    · simp [hp]
    · rw [eval_eq]
      exact (Nat.commute_cast x p).add_right ((Commute.refl x).mul_right (ih (p / 2) (by omega)))

variable [CharP R 2]

private theorem cast_mod_two (n : Nat) : ((n % 2 : Nat) : R) = n := by
  conv_rhs => rw [← Nat.mod_add_div n 2]
  simp [CharTwo.two_eq_zero]

theorem eval_double (x : R) (p : Nat) : eval x (2 * p) = x * eval x p := by
  rw [eval_eq, Nat.mul_div_cancel_left p (by decide : 0 < 2), Nat.cast_mul]
  simp [CharTwo.two_eq_zero]

theorem eval_xor (x : R) (p q : Nat) : eval x (p ^^^ q) = eval x p + eval x q := by
  induction p using Nat.strongRecOn generalizing q with
  | ind p ih =>
    by_cases hp : p = 0
    · simp [hp]
    · have hbit : ((p ^^^ q : Nat) : R) = p + q := by
        rw [← cast_mod_two, Nat.xor_mod_two_eq, cast_mod_two, Nat.cast_add]
      rw [eval_eq x (p ^^^ q), eval_eq x p, eval_eq x q, hbit, Nat.xor_div_two,
        ih (p / 2) (by omega), mul_add, add_add_add_comm]

theorem eval_bit_mul (x : R) (q p : Nat) : eval x (q % 2 * p) = q * eval x p := by
  rw [← cast_mod_two q]
  obtain h | h := Nat.mod_two_eq_zero_or_one q <;> simp [h]

/-- The low coefficients and the ones above them. -/
theorem eval_append (x : R) {n q : Nat} (hq : q < 2 ^ n) (r : Nat) :
    eval x (q + 2 ^ n * r) = eval x q + x ^ n * eval x r := by
  induction n generalizing q with
  | zero =>
    obtain rfl : q = 0 := by simpa using hq
    simp
  | succ n ih =>
    rw [Nat.pow_succ] at hq
    have hcast : ((q + 2 ^ (n + 1) * r : Nat) : R) = q := by
      rw [Nat.pow_succ', Nat.mul_assoc, Nat.cast_add, Nat.cast_mul]
      simp [CharTwo.two_eq_zero]
    have hhalf : (q + 2 ^ (n + 1) * r) / 2 = q / 2 + 2 ^ n * r := by
      rw [Nat.pow_succ', Nat.mul_assoc, Nat.add_mul_div_left _ _ (by decide)]
    rw [eval_eq x (q + _), eval_eq x q, hcast, hhalf, ih (by omega), mul_add, ← mul_assoc,
      pow_succ', add_assoc]

/-- One more bit of a number. -/
theorem eval_mod_succ (x : R) (p n : Nat) :
    eval x (p % 2 ^ (n + 1)) = eval x (p % 2 ^ n) + if p.testBit n then x ^ n else 0 := by
  rw [Nat.mod_pow_succ, eval_append x (Nat.mod_lt _ (Nat.two_pow_pos n)),
    Nat.testBit_eq_decide_div_mod_eq]
  obtain h | h := Nat.mod_two_eq_zero_or_one (p / 2 ^ n) <;> simp [h]

end Evaluation

section Maps
variable {V : Type*} [AddCommGroup V]

/-- The lowest `k` coefficients of `p`, with the map `T` for the indeterminate, at `v`. -/
def applyTo (T : V → V) (v : V) : Nat → Nat → V
  | 0, _ => 0
  | k + 1, p => if p % 2 = 1 then v + T (applyTo T v k (p / 2)) else T (applyTo T v k (p / 2))

theorem eval_apply [CharP (AddMonoid.End V) 2] (T : AddMonoid.End V) (v : V) {k p : Nat}
    (hp : p < 2 ^ k) : eval T p v = applyTo T v k p := by
  induction k generalizing p with
  | zero =>
    obtain rfl : p = 0 := by simpa using hp
    simp [applyTo]
  | succ k ih =>
    have hhalf : p / 2 < 2 ^ k := by
      rw [Nat.pow_succ] at hp
      omega
    have hsplit : eval T p v = (p : AddMonoid.End V) v + T (eval T (p / 2) v) := by
      conv_lhs => rw [eval_eq]
      rfl
    rw [hsplit, ih hhalf, applyTo, ← cast_mod_two]
    obtain h | h := Nat.mod_two_eq_zero_or_one p <;> simp [h]

end Maps

/-- A polynomial of the given degree, without its leading term. -/
structure Modulus where
  degree : Nat
  tail : Nat
  degree_pos : 0 < degree
  tail_lt : tail < 2 ^ degree

namespace Modulus
variable (m : Modulus)

def value : Nat := 2 ^ m.degree + m.tail

/-- Multiply by the indeterminate and cancel the term that leaves the range. The operations are
those of `Nat` itself, which the kernel evaluates without unfolding an instance. -/
def timesX (p : Nat) : Nat :=
  Nat.xor (Nat.mul 2 p) (Nat.mul (Nat.div p (Nat.pow 2 (Nat.sub m.degree 1))) m.value)

/-- The product with the lowest `k` coefficients of `q`, reduced. -/
def mulUpTo (p : Nat) : Nat → Nat → Nat
  | 0, _ => 0
  | k + 1, q => Nat.xor (m.timesX (mulUpTo p k (Nat.div q 2))) (Nat.mul (Nat.mod q 2) p)

def mul (p q : Nat) : Nat := m.mulUpTo p m.degree q

/-- The power of the indeterminate that the lowest `k` bits of `n` name, by squaring. -/
def powX : Nat → Nat → Nat
  | 0, _ => 1
  | k + 1, n =>
    let half := powX k (n / 2)
    if n % 2 = 1 then m.timesX (m.mul half half) else m.mul half half

section Reduced
variable {m} {p q : Nat}

theorem timesX_eq (p : Nat) : m.timesX p = 2 * p ^^^ p / 2 ^ (m.degree - 1) * m.value := rfl

theorem mulUpTo_succ (p k q : Nat) :
    m.mulUpTo p (k + 1) q = m.timesX (m.mulUpTo p k (q / 2)) ^^^ q % 2 * p := rfl

theorem timesX_lt (hp : p < 2 ^ m.degree) : m.timesX p < 2 ^ m.degree := by
  obtain ⟨d, hd⟩ : ∃ d, m.degree = d + 1 := ⟨m.degree - 1, by have := m.degree_pos; omega⟩
  have htail := m.tail_lt
  rw [timesX_eq, value, hd, Nat.add_sub_cancel]
  rw [hd, Nat.pow_succ] at hp htail
  by_cases hlow : p < 2 ^ d
  · rw [Nat.div_eq_of_lt hlow, Nat.zero_mul, Nat.xor_zero, Nat.pow_succ]
    omega
  · have htop : p / 2 ^ d = 1 := Nat.div_eq_of_lt_le (by omega) (by omega)
    -- both operands have the leading term, so it cancels
    have hcancel : (2 * p ^^^ 1 * (2 ^ (d + 1) + m.tail)) / 2 ^ (d + 1) = 0 := by
      rw [Nat.xor_div_two_pow, Nat.one_mul, Nat.pow_succ]
      have h₁ : 2 * p / (2 ^ d * 2) = 1 := Nat.div_eq_of_lt_le (by omega) (by omega)
      have h₂ : (2 ^ d * 2 + m.tail) / (2 ^ d * 2) = 1 :=
        Nat.div_eq_of_lt_le (by omega) (by omega)
      rw [h₁, h₂, Nat.xor_self]
    rw [htop]
    exact (Nat.div_eq_zero_iff_lt (Nat.two_pow_pos _)).mp hcancel

theorem mulUpTo_lt (hp : p < 2 ^ m.degree) (k : Nat) : m.mulUpTo p k q < 2 ^ m.degree := by
  induction k generalizing q with
  | zero => exact Nat.two_pow_pos _
  | succ k ih =>
    rw [mulUpTo_succ]
    apply Nat.xor_lt_two_pow (timesX_lt ih)
    obtain h | h := Nat.mod_two_eq_zero_or_one q
    · rw [h, Nat.zero_mul]
      exact Nat.two_pow_pos _
    · rw [h, Nat.one_mul]
      exact hp

theorem mul_lt (hp : p < 2 ^ m.degree) : m.mul p q < 2 ^ m.degree := mulUpTo_lt hp _

theorem powX_lt (k n : Nat) : m.powX k n < 2 ^ m.degree := by
  induction k generalizing n with
  | zero => exact Nat.one_lt_two_pow m.degree_pos.ne'
  | succ k ih =>
    rw [powX]
    split
    · exact timesX_lt (mul_lt (ih _))
    · exact mul_lt (ih _)

end Reduced

section Values
variable {m} {R : Type*} [Ring R] [CharP R 2] {x : R} (root : eval x m.value = 0)

include root

theorem eval_timesX {p : Nat} (hp : p < 2 ^ m.degree) : eval x (m.timesX p) = x * eval x p := by
  have hbit : p / 2 ^ (m.degree - 1) = p / 2 ^ (m.degree - 1) % 2 := by
    refine (Nat.mod_eq_of_lt (Nat.div_lt_of_lt_mul ?_)).symm
    rw [← Nat.pow_succ, Nat.succ_eq_add_one, Nat.sub_add_cancel m.degree_pos]
    exact hp
  rw [timesX_eq, eval_xor, eval_double, hbit, eval_bit_mul, root, mul_zero, add_zero]

theorem eval_mulUpTo {p : Nat} (hp : p < 2 ^ m.degree) {k q : Nat} (hq : q < 2 ^ k) :
    eval x (m.mulUpTo p k q) = eval x q * eval x p := by
  induction k generalizing q with
  | zero =>
    obtain rfl : q = 0 := by simpa using hq
    simp [mulUpTo]
  | succ k ih =>
    have hhalf : q / 2 < 2 ^ k := by
      rw [Nat.pow_succ] at hq
      omega
    rw [mulUpTo_succ, eval_xor, eval_timesX root (mulUpTo_lt hp k), ih hhalf, eval_bit_mul,
      eval_eq x q, add_mul, mul_assoc, add_comm]

theorem eval_mul {p q : Nat} (hp : p < 2 ^ m.degree) (hq : q < 2 ^ m.degree) :
    eval x (m.mul p q) = eval x q * eval x p :=
  eval_mulUpTo root hp hq

theorem eval_powX {k n : Nat} (hn : n < 2 ^ k) : eval x (m.powX k n) = x ^ n := by
  induction k generalizing n with
  | zero =>
    obtain rfl : n = 0 := by simpa using hn
    simp [powX]
  | succ k ih =>
    have hhalf : n / 2 < 2 ^ k := by
      rw [Nat.pow_succ] at hn
      omega
    have hsquare : eval x (m.mul (m.powX k (n / 2)) (m.powX k (n / 2))) = x ^ (2 * (n / 2)) := by
      rw [eval_mul root (powX_lt k _) (powX_lt k _), ih hhalf, ← pow_add, Nat.two_mul]
    rw [powX]
    split
    · rename_i hodd
      rw [eval_timesX root (mul_lt (powX_lt k _)), hsquare, ← pow_succ']
      congr 1
      omega
    · rename_i heven
      rw [hsquare]
      congr 1
      omega

/-- The power is one less than an invertible element. -/
theorem unit_of_mul {k n inverse : Nat} (hn : n < 2 ^ k) (hinverse : inverse < 2 ^ m.degree)
    (h : m.mul (m.powX k n ^^^ 1) inverse = 1) : ∃ u : R, u * (x ^ n - 1) = 1 := by
  refine ⟨eval x inverse, ?_⟩
  have hone : (1 : Nat) < 2 ^ m.degree := Nat.one_lt_two_pow m.degree_pos.ne'
  have heval := eval_mul root (Nat.xor_lt_two_pow (powX_lt k n) hone) hinverse
  rw [h, eval_one, eval_xor, eval_powX root hn, eval_one] at heval
  rw [CharTwo.sub_eq_add, ← heval]

end Values

end Modulus

end Padll.PackedPolynomial

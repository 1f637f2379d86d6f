import Mathlib.Algebra.Group.Subgroup.Lattice
import Mathlib.Algebra.Regular.Basic
import Mathlib.Data.Fintype.Prod
import Mathlib.Data.UInt
import Mathlib.NumberTheory.LucasPrimality
import Mathlib.Tactic.NormNum.Prime
import Mathlib.Tactic.ReduceModChar
import Padll.Library.FullPeriod
import Padll.Library.PackedPolynomial

/-! The generator behind the choice of workflows: SplitMix64 spreads the seed, xoshiro128**
produces the values. Its step is linear over exclusive or, so that its period and its jumps
are facts about one polynomial. -/
namespace Padll
open Function

structure SplitMix64 where
  state : UInt64

def SplitMix64.next (g : SplitMix64) : UInt64 × SplitMix64 :=
  let state := g.state + 0x9e3779b97f4a7c15
  let z := (state ^^^ state >>> 30) * 0xbf58476d1ce4e5b9
  let z := (z ^^^ z >>> 27) * 0x94d049bb133111eb
  (z ^^^ z >>> 31, ⟨state⟩)

def rotL (x s : UInt32) : UInt32 := x <<< s ||| x >>> (32 - s)

@[ext] structure Xoshiro128StarStar where
  s0 : UInt32
  s1 : UInt32
  s2 : UInt32
  s3 : UInt32
  deriving DecidableEq, Repr

namespace Xoshiro128StarStar

/-- Four draws of a SplitMix64 generator, each cut to its low half. -/
def ofSeed (seed : UInt64) : Xoshiro128StarStar :=
  let (s0, splitmix) := SplitMix64.next ⟨seed⟩
  let (s1, splitmix) := splitmix.next
  let (s2, splitmix) := splitmix.next
  let (s3, _) := splitmix.next
  ⟨s0.toUInt32, s1.toUInt32, s2.toUInt32, s3.toUInt32⟩

def next (g : Xoshiro128StarStar) : UInt32 × Xoshiro128StarStar :=
  let result := rotL (g.s1 * 5) 7 * 9
  let t := g.s1 <<< 9
  let s2 := g.s2 ^^^ g.s0
  let s3 := g.s3 ^^^ g.s1
  let s1 := g.s1 ^^^ s2
  let s0 := g.s0 ^^^ s3
  (result, ⟨s0, s1, s2 ^^^ t, rotL s3 11⟩)

/-- The state after a call, without its result. -/
def advance (g : Xoshiro128StarStar) : Xoshiro128StarStar := g.next.2

/-- The results of all calls to come. -/
def stream (g : Xoshiro128StarStar) (n : Nat) : UInt32 := (advance^[n] g).next.1

instance : Zero Xoshiro128StarStar := ⟨⟨0, 0, 0, 0⟩⟩

instance : Add Xoshiro128StarStar :=
  ⟨fun g h => ⟨g.s0 ^^^ h.s0, g.s1 ^^^ h.s1, g.s2 ^^^ h.s2, g.s3 ^^^ h.s3⟩⟩

/-- One bit of a jump constant: keep the state of the moment if it is set, then call. -/
def jumpBit (jump : UInt32) (acc : Xoshiro128StarStar × Xoshiro128StarStar) (b : UInt32) :
    Xoshiro128StarStar × Xoshiro128StarStar :=
  (if jump &&& (1 <<< b) ≠ 0 then acc.1 + acc.2 else acc.1, acc.2.advance)

/-- The loop that both jumps share: the words of the constant, each from its lowest bit. -/
def jumpBy (words : List UInt32) (g : Xoshiro128StarStar) : Xoshiro128StarStar :=
  (words.foldl (fun acc jump => ((List.range 32).map UInt32.ofNat).foldl (jumpBit jump) acc)
    (0, g)).1

def jump : Xoshiro128StarStar → Xoshiro128StarStar :=
  jumpBy [0x8764000b, 0xf542d2d3, 0x6fa035c3, 0x77f2db5b]

def longJump : Xoshiro128StarStar → Xoshiro128StarStar :=
  jumpBy [0xb523952e, 0x0b6f099f, 0xccf5a0ef, 0x1c580662]

end Xoshiro128StarStar

section Rotation

theorem rotL_toBitVec (x : UInt32) {s : UInt32} (hpos : 0 < s.toNat) (hs : s.toNat < 32) :
    (rotL x s).toBitVec = x.toBitVec.rotateLeft s.toNat := by
  have hsub : (32 - s).toNat = 32 - s.toNat :=
    UInt32.toNat_sub_of_le _ _ (UInt32.le_iff_toNat_le.mpr hs.le)
  rw [BitVec.rotateLeft_def, Nat.mod_eq_of_lt hs, rotL, UInt32.toBitVec_or,
    UInt32.toBitVec_shiftLeft, UInt32.toBitVec_shiftRight]
  simp only [BitVec.shiftLeft_eq', BitVec.ushiftRight_eq', BitVec.toNat_umod,
    UInt32.toNat_toBitVec, hsub]
  rw [show BitVec.toNat 32 = 32 from rfl, Nat.mod_eq_of_lt hs,
    Nat.mod_eq_of_lt (show 32 - s.toNat < 32 by omega)]

theorem rotL_xor (x y : UInt32) {s : UInt32} (hpos : 0 < s.toNat) (hs : s.toNat < 32) :
    rotL (x ^^^ y) s = rotL x s ^^^ rotL y s := by
  apply UInt32.toBitVec_inj.mp
  rw [UInt32.toBitVec_xor, rotL_toBitVec _ hpos hs, rotL_toBitVec _ hpos hs,
    rotL_toBitVec _ hpos hs, UInt32.toBitVec_xor]
  apply BitVec.eq_of_getLsbD_eq
  intro i hi
  simp only [BitVec.getLsbD_xor, BitVec.getLsbD_rotateLeft, Nat.mod_eq_of_lt hs]
  cases decide (i < s.toNat) with
  | true => rfl
  | false => simp [hi]

theorem rotL_injective {s : UInt32} (hpos : 0 < s.toNat) (hs : s.toNat < 32) :
    Injective (rotL · s) := by
  intro x y heq
  have hbits := congrArg UInt32.toBitVec heq
  simp only [rotL_toBitVec _ hpos hs] at hbits
  apply UInt32.toBitVec_inj.mp
  apply BitVec.eq_of_getLsbD_eq
  intro i hi
  -- a bit leaves at the top or moves up
  by_cases htop : 32 - s.toNat ≤ i
  · have hbit := congrArg (fun b => b.getLsbD (i - (32 - s.toNat))) hbits
    have hlow : i - (32 - s.toNat) < s.toNat := by omega
    simpa only [BitVec.getLsbD_rotateLeft, Nat.mod_eq_of_lt hs, hlow, decide_true, cond_true,
      Nat.add_sub_cancel' htop] using hbit
  · have hbit := congrArg (fun b => b.getLsbD (i + s.toNat)) hbits
    have hhigh : ¬ i + s.toNat < s.toNat := by omega
    have hrange : i + s.toNat < 32 := by omega
    simpa only [BitVec.getLsbD_rotateLeft, Nat.mod_eq_of_lt hs, hhigh, hrange, decide_true,
      decide_false, cond_false, Bool.true_and, Nat.add_sub_cancel] using hbit

end Rotation

section Finite

instance fintypeUInt32 : Fintype UInt32 :=
  Fintype.ofEquiv (Fin (2 ^ 32)) ⟨UInt32.ofFin, UInt32.toFin, fun _ => rfl, fun _ => rfl⟩

theorem card_UInt32 : Fintype.card UInt32 = 2 ^ 32 := by
  rw [Fintype.ofEquiv_card, Fintype.card_fin]

end Finite

namespace Xoshiro128StarStar

/-- The words of a state, the one that goes into the result first. -/
def words : Xoshiro128StarStar ≃ UInt32 × UInt32 × UInt32 × UInt32 where
  toFun g := (g.s1, g.s0, g.s2, g.s3)
  invFun w := ⟨w.2.1, w.1, w.2.2.1, w.2.2.2⟩
  left_inv _ := rfl
  right_inv _ := rfl

instance : Fintype Xoshiro128StarStar := Fintype.ofEquiv _ words.symm

theorem card_states : Fintype.card Xoshiro128StarStar = 2 ^ 128 - 1 + 1 := by
  rw [Fintype.card_congr words]
  simp only [Fintype.card_prod, card_UInt32]
  norm_num

section Group

@[simp] theorem zero_s0 : (0 : Xoshiro128StarStar).s0 = 0 := rfl
@[simp] theorem zero_s1 : (0 : Xoshiro128StarStar).s1 = 0 := rfl
@[simp] theorem zero_s2 : (0 : Xoshiro128StarStar).s2 = 0 := rfl
@[simp] theorem zero_s3 : (0 : Xoshiro128StarStar).s3 = 0 := rfl
@[simp] theorem add_s0 (g h : Xoshiro128StarStar) : (g + h).s0 = g.s0 ^^^ h.s0 := rfl
@[simp] theorem add_s1 (g h : Xoshiro128StarStar) : (g + h).s1 = g.s1 ^^^ h.s1 := rfl
@[simp] theorem add_s2 (g h : Xoshiro128StarStar) : (g + h).s2 = g.s2 ^^^ h.s2 := rfl
@[simp] theorem add_s3 (g h : Xoshiro128StarStar) : (g + h).s3 = g.s3 ^^^ h.s3 := rfl

theorem add_self (g : Xoshiro128StarStar) : g + g = 0 := by
  ext <;> simp

instance : Neg Xoshiro128StarStar := ⟨fun g => g⟩

/-- The states with exclusive or, in which every state is its own inverse. -/
instance : AddCommGroup Xoshiro128StarStar where
  add_assoc g h k := by ext <;> simp [UInt32.xor_assoc]
  zero_add g := by ext <;> simp
  add_zero g := by ext <;> simp
  nsmul := nsmulRec
  zsmul := zsmulRec
  neg_add_cancel := add_self
  add_comm g h := by ext <;> simp [UInt32.xor_comm]

private theorem advance_add (g h : Xoshiro128StarStar) :
    (g + h).advance = g.advance + h.advance := by
  have hrot : ∀ x y, rotL (x ^^^ y) 11 = rotL x 11 ^^^ rotL y 11 :=
    fun x y => rotL_xor x y (by decide) (by decide)
  ext <;> simp only [advance, next, add_s0, add_s1, add_s2, add_s3, UInt32.shiftLeft_xor,
    ← hrot] <;> ac_rfl

/-- A call as a linear map on the states. -/
def step : AddMonoid.End Xoshiro128StarStar where
  toFun := advance
  map_zero' := rfl
  map_add' := advance_add

theorem coe_step : (step : Xoshiro128StarStar → Xoshiro128StarStar) = advance := rfl

instance : CharP (AddMonoid.End Xoshiro128StarStar) 2 := by
  apply CharTwo.of_one_ne_zero_of_two_eq_zero
  · intro h
    have hone := DFunLike.congr_fun h (⟨1, 0, 0, 0⟩ : Xoshiro128StarStar)
    exact absurd hone (by decide)
  · ext1 g
    rw [← one_add_one_eq_two]
    exact add_self g

end Group

section Characteristic
open PackedPolynomial

/-- What holds of the single bits and of exclusive ors holds of every word. -/
private theorem xor_induction {P : UInt32 → Prop} (zero : P 0)
    (bit : ∀ j < 32, P (UInt32.ofNat (2 ^ j))) (xor : ∀ x y, P x → P y → P (x ^^^ y))
    (x : UInt32) : P x := by
  have hbelow : ∀ k ≤ 32, ∀ n < 2 ^ k, P (UInt32.ofNat n) := by
    intro k
    induction k with
    | zero =>
      intro _ n hn
      obtain rfl : n = 0 := by simpa using hn
      exact zero
    | succ k ih =>
      intro hk n hn
      by_cases hlow : n < 2 ^ k
      · exact ih (by omega) n hlow
      · rw [Nat.pow_succ] at hn
        have htop : n / 2 ^ k = 1 := Nat.div_eq_of_lt_le (by omega) (by omega)
        have hrest : n ^^^ 2 ^ k < 2 ^ k := by
          apply (Nat.div_eq_zero_iff_lt (Nat.two_pow_pos k)).mp
          rw [Nat.xor_div_two_pow, htop, Nat.div_self (Nat.two_pow_pos k), Nat.xor_self]
        have hsplit : n = (n ^^^ 2 ^ k) ^^^ 2 ^ k := by
          rw [Nat.xor_assoc, Nat.xor_self, Nat.xor_zero]
        rw [hsplit, UInt32.ofNat_xor]
        exact xor _ _ (ih (by omega) _ hrest) (bit k (by omega))
  rw [← UInt32.ofNat_toNat (x := x)]
  exact hbelow 32 le_rfl _ x.toNat_lt

/-- The polynomial that the step satisfies. -/
def characteristic : Modulus := ⟨128, 0xfc65a2006254b11b489db6de18fc01, by decide, by decide⟩

private theorem applyTo_bits : ∀ j : Fin 32,
    applyTo step ⟨0, 0, UInt32.ofNat (2 ^ j.val), 0⟩ 129 characteristic.value = 0 := by
  decide +kernel

private theorem rotL_surjective : Surjective (rotL · 11) :=
  Finite.surjective_of_injective (rotL_injective (by decide) (by decide))

/-- A map that commutes with the step and vanishes on the third word vanishes. -/
private theorem eq_zero_of_third {P : AddMonoid.End Xoshiro128StarStar} (hcomm : Commute step P)
    (third : ∀ u, P ⟨0, 0, u, 0⟩ = 0) : P = 0 := by
  have hstep : ∀ {g}, P g = 0 → P g.advance = 0 := by
    intro g hg
    have heq := DFunLike.congr_fun hcomm.eq g
    change (P g).advance = P g.advance at heq
    rw [← heq, hg]
    rfl
  have hadd : ∀ {g h}, P g = 0 → P h = 0 → P (g + h) = 0 := by
    intro g h hg hh
    rw [map_add, hg, hh, add_zero]
  have second : ∀ u, P ⟨0, u, 0, 0⟩ = 0 := by
    intro u
    convert hadd (hstep (third u)) (third u) using 2
    ext <;> simp [advance, next, rotL]
  have outer : ∀ u, P ⟨u, 0, 0, rotL u 11⟩ = 0 := by
    intro u
    convert hadd (hadd (hstep (second u)) (second u)) (third (u <<< 9)) using 2
    ext <;> simp [advance, next]
  have first : ∀ u, P ⟨u, 0, 0, 0⟩ = 0 := by
    intro u
    convert hadd (hadd (hstep (outer u)) (hadd (second u) (third u))) (outer (rotL u 11)) using 2
    ext <;> simp [advance, next]
  have fourth : ∀ u, P ⟨0, 0, 0, u⟩ = 0 := by
    intro u
    obtain ⟨w, rfl⟩ := rotL_surjective u
    convert hadd (outer w) (first w) using 2
    ext <;> simp
  ext1 g
  change P g = 0
  convert hadd (hadd (first g.s0) (second g.s1)) (hadd (third g.s2) (fourth g.s3)) using 2
  ext <;> simp

/-- The step satisfies its polynomial. -/
theorem eval_characteristic : eval step characteristic.value = 0 := by
  apply eq_zero_of_third (eval_commute step _)
  intro u
  induction u using xor_induction with
  | zero => exact map_zero _
  | bit j hj =>
    rw [eval_apply step _ (k := 129) (by decide)]
    exact applyTo_bits ⟨j, hj⟩
  | xor x y hx hy =>
    have hsum : (⟨0, 0, x ^^^ y, 0⟩ : Xoshiro128StarStar) = ⟨0, 0, x, 0⟩ + ⟨0, 0, y, 0⟩ := by
      ext <;> simp
    rw [hsum, map_add, hx, hy, add_zero]

end Characteristic

section Period
open PackedPolynomial

private theorem cast_ne_one {n c : Nat} (hone : 1 < c) (hc : c < n) : (c : ZMod n) ≠ 1 := by
  intro heq
  rw [← Nat.cast_one, ZMod.natCast_eq_natCast_iff', Nat.mod_eq_of_lt hc,
    Nat.mod_eq_of_lt (hone.trans hc)] at heq
  omega

private theorem prime_largest : Nat.Prime 67280421310721 := by
  apply lucas_primality _ 3
  · reduce_mod_char
  · intro q hq hd
    have hmem : q ∈ [2, 2, 2, 2, 2, 2, 2, 2, 5, 47, 373, 2998279] := by
      apply mem_list_primes_of_dvd_prod hq.prime
      · intro r hr
        apply Nat.Prime.prime
        revert r
        norm_num
      · exact hd
    simp only [List.mem_cons, List.not_mem_nil, or_false, or_self_left] at hmem
    obtain rfl | rfl | rfl | rfl | rfl := hmem
    all_goals norm_num
    all_goals reduce_mod_char
    · exact cast_ne_one (c := 67280421310720) (by decide) (by decide)
    · exact cast_ne_one (c := 8348471219631) (by decide) (by decide)
    · exact cast_ne_one (c := 29801263682154) (by decide) (by decide)
    · exact cast_ne_one (c := 65541179653181) (by decide) (by decide)
    · exact cast_ne_one (c := 61150258807256) (by decide) (by decide)

/-- Each prime divisor of the period with the inverse that shows that no state but zero
returns after the period divided by it. -/
def primeDivisors : List (Nat × Nat) :=
  [(3, 0x188ce7ea029c4bf6dded83847a711395), (5, 0xd0b81dc3de8363ddddfd32c4ef886bf4),
    (17, 0x7d5de34ef14456cdccabf22143842b52), (257, 0xf98c9dfcc04c64b2b8cfb96508e78fcd),
    (641, 0x40b0c263cbfa8427d62f24e6089d3f8b), (65537, 0x7c352e1c640bd6131b1eecf072501922),
    (274177, 0x464896dcfdd900fb8dfdabe1bc3542b9), (6700417, 0xcfaf9079377931cb1b4625d2ff58d222),
    (67280421310721, 0x39046ea60511db4048a3c9d486cbc62a)]

private theorem primeDivisors_prod : (primeDivisors.map Prod.fst).prod = 2 ^ 128 - 1 := by
  norm_num [primeDivisors]

private theorem prime_divisor {p : Nat} (hp : p.Prime) (hd : p ∣ 2 ^ 128 - 1) :
    ∃ inverse, (p, inverse) ∈ primeDivisors := by
  have hmem : p ∈ primeDivisors.map Prod.fst := by
    apply mem_list_primes_of_dvd_prod hp.prime
    · intro r hr
      apply Nat.Prime.prime
      simp only [primeDivisors, List.map_cons, List.map_nil, List.mem_cons, List.not_mem_nil,
        or_false] at hr
      obtain rfl | rfl | rfl | rfl | rfl | rfl | rfl | rfl | rfl := hr
      case inr.inr.inr.inr.inr.inr.inr.inr => exact prime_largest
      all_goals norm_num
    · rw [primeDivisors_prod]
      exact hd
  obtain ⟨⟨q, inverse⟩, hq, rfl⟩ := List.mem_map.mp hmem
  exact ⟨inverse, hq⟩

private theorem powX_period : characteristic.powX 128 (2 ^ 128 - 1) = 1 := by
  decide +kernel

private theorem primeDivisors_checked : ∀ d ∈ primeDivisors, d.2 < 2 ^ 128 ∧
    characteristic.mul (characteristic.powX 128 ((2 ^ 128 - 1) / d.1) ^^^ 1) d.2 = 1 := by
  decide +kernel

/-- No state but zero returns before 2^128 - 1 calls, and each does then. -/
theorem minimalPeriod_step {g : Xoshiro128StarStar} (hg : g ≠ 0) :
    minimalPeriod step g = 2 ^ 128 - 1 := by
  refine FullPeriod.minimalPeriod_eq ?_ ?_ hg
  · rw [← Modulus.eval_powX eval_characteristic (k := 128) (by decide), powX_period, eval_one]
  · intro p hp hd
    obtain ⟨inverse, hmem⟩ := prime_divisor hp hd
    obtain ⟨hlt, hmul⟩ := primeDivisors_checked _ hmem
    apply Modulus.unit_of_mul eval_characteristic (k := 128) _ hlt hmul
    exact (Nat.div_le_self _ _).trans_lt (by decide)

/-- The documented period of the generator, which zero alone does not have. -/
theorem minimalPeriod_advance (g : Xoshiro128StarStar) :
    minimalPeriod advance g = if g = 0 then 1 else 2 ^ 128 - 1 := by
  by_cases hg : g = 0
  · rw [if_pos hg, minimalPeriod_eq_one_iff_isFixedPt, hg]
    rfl
  · rw [if_neg hg]
    exact minimalPeriod_step hg

end Period

section Jump
open PackedPolynomial

/-- The polynomial whose coefficients are the bits of the words, the first word lowest. -/
def packed : List UInt32 → Nat
  | [] => 0
  | w :: words => w.toNat + 2 ^ 32 * packed words

private theorem bit_ne_zero (w : UInt32) {b : Nat} (hb : b < 32) :
    w &&& (1 <<< UInt32.ofNat b) ≠ 0 ↔ w.toNat.testBit b := by
  have hshift : (1 <<< UInt32.ofNat b : UInt32).toNat = 2 ^ b := by
    have hmod : (UInt32.ofNat b).toNat % 32 = b := by
      rw [UInt32.toNat_ofNat', Nat.mod_eq_of_lt (show b < 2 ^ 32 by omega), Nat.mod_eq_of_lt hb]
    rw [UInt32.toNat_shiftLeft, hmod, UInt32.toNat_one, Nat.one_shiftLeft,
      Nat.mod_eq_of_lt (Nat.pow_lt_pow_right (by decide) hb)]
  rw [ne_eq, ← UInt32.toNat_inj, UInt32.toNat_and, hshift, Nat.and_two_pow]
  cases w.toNat.testBit b <;> simp

/-- The loop over the lowest `n` bits of one word. -/
private theorem jumpBits (w : UInt32) (acc g : Xoshiro128StarStar) {n : Nat} (hn : n ≤ 32) :
    ((List.range n).map UInt32.ofNat).foldl (jumpBit w) (acc, g) =
      (acc + eval step (w.toNat % 2 ^ n) g, advance^[n] g) := by
  induction n with
  | zero => simp [Nat.mod_one]
  | succ n ih =>
    rw [List.range_succ, List.map_append, List.foldl_append, ih (by omega), eval_mod_succ]
    simp only [List.map_cons, List.map_nil, List.foldl_cons, List.foldl_nil, jumpBit,
      bit_ne_zero w (show n < 32 by omega), ← iterate_succ_apply' advance]
    by_cases hbit : w.toNat.testBit n
    · rw [if_pos hbit, if_pos hbit, add_assoc, ← coe_step, ← AddMonoid.End.coe_pow]
      rfl
    · rw [if_neg hbit, if_neg hbit, add_zero]

private theorem jumpWords (words : List UInt32) (acc g : Xoshiro128StarStar) :
    (words.foldl (fun acc jump => ((List.range 32).map UInt32.ofNat).foldl (jumpBit jump) acc)
      (acc, g)).1 = acc + eval step (packed words) g := by
  induction words generalizing acc g with
  | nil => simp [packed]
  | cons w words ih =>
    rw [List.foldl_cons, jumpBits w acc g le_rfl, ih, Nat.mod_eq_of_lt w.toNat_lt, packed,
      eval_append step w.toNat_lt, add_assoc, ← coe_step, ← AddMonoid.End.coe_pow]
    congr 1
    change eval step w.toNat g + (eval step (packed words) * step ^ 32) g = _
    rw [← ((eval_commute step (packed words)).pow_left 32).eq]
    rfl

/-- The shared loop applies the polynomial of its constant. -/
theorem jumpBy_eq (words : List UInt32) (g : Xoshiro128StarStar) :
    jumpBy words g = eval step (packed words) g := by
  rw [jumpBy, jumpWords, zero_add]

private theorem packed_jump : packed [0x8764000b, 0xf542d2d3, 0x6fa035c3, 0x77f2db5b] =
    characteristic.powX 65 (2 ^ 64) := by
  decide +kernel

private theorem packed_longJump : packed [0xb523952e, 0x0b6f099f, 0xccf5a0ef, 0x1c580662] =
    characteristic.powX 97 (2 ^ 96) := by
  decide +kernel

theorem jump_iterate (g : Xoshiro128StarStar) : g.jump = advance^[2 ^ 64] g := by
  rw [jump, jumpBy_eq, packed_jump, Modulus.eval_powX eval_characteristic (by decide),
    AddMonoid.End.coe_pow, coe_step]

theorem longJump_iterate (g : Xoshiro128StarStar) : g.longJump = advance^[2 ^ 96] g := by
  rw [longJump, jumpBy_eq, packed_longJump, Modulus.eval_powX eval_characteristic (by decide),
    AddMonoid.End.coe_pow, coe_step]

/-- Both jumps do what they are documented to: as much as 2^64 and as 2^96 calls. -/
theorem jump_calls (g : Xoshiro128StarStar) :
    g.jump = advance^[2 ^ 64] g ∧ g.longJump = advance^[2 ^ 96] g :=
  ⟨jump_iterate g, longJump_iterate g⟩

private theorem iterate_jump (g : Xoshiro128StarStar) (k i : Nat) :
    advance^[i] (jump^[k] g) = advance^[2 ^ 64 * k + i] g := by
  have hjump : jump = advance^[2 ^ 64] := funext jump_iterate
  rw [hjump, ← iterate_mul, ← iterate_add_apply, Nat.add_comm]

/-- Only the last position of all leaves the period. -/
private theorem position_mod {k i : Nat} (hk : k < 2 ^ 64) (hi : i < 2 ^ 64) :
    (2 ^ 64 * k + i) % (2 ^ 128 - 1) =
      if k = 2 ^ 64 - 1 ∧ i = 2 ^ 64 - 1 then 0 else 2 ^ 64 * k + i := by
  split_ifs with hlast
  · rw [hlast.1, hlast.2]
    decide
  · exact Nat.mod_eq_of_lt (by omega)

/-- The sequences of 2^64 states that the first 2^64 jumps lead to do not overlap, but for one
state: the very last one of all is the first one again. -/
theorem jump_disjoint {g : Xoshiro128StarStar} (hg : g ≠ 0) {k l i j : Nat} (hk : k < 2 ^ 64)
    (hl : l < 2 ^ 64) (hi : i < 2 ^ 64) (hj : j < 2 ^ 64) :
    advance^[i] (jump^[k] g) = advance^[j] (jump^[l] g) ↔
      (k, i) = (l, j) ∨ (k, i) = (0, 0) ∧ (l, j) = (2 ^ 64 - 1, 2 ^ 64 - 1) ∨
        (l, j) = (0, 0) ∧ (k, i) = (2 ^ 64 - 1, 2 ^ 64 - 1) := by
  have hperiod : minimalPeriod advance g = 2 ^ 128 - 1 := minimalPeriod_step hg
  have hpos : 0 < minimalPeriod advance g := by
    rw [hperiod]
    decide
  rw [iterate_jump, iterate_jump, ← iterate_mod_minimalPeriod_eq (n := 2 ^ 64 * k + i),
    ← iterate_mod_minimalPeriod_eq (n := 2 ^ 64 * l + j),
    iterate_eq_iterate_iff_of_lt_minimalPeriod (Nat.mod_lt _ hpos) (Nat.mod_lt _ hpos), hperiod,
    position_mod hk hi, position_mod hl hj]
  simp only [Prod.mk.injEq]
  split_ifs <;> omega

theorem jump_disjoint_seeded :
    ¬ advance^[0] (jump^[0] (ofSeed 1)) = advance^[5] (jump^[1] (ofSeed 1)) :=
  (jump_disjoint (g := ofSeed 1) (by decide) (by decide) (by decide) (by decide)
    (by decide)).not.mpr (by decide)

end Jump

section Results
variable (Q : UInt32 → Prop) [DecidablePred Q]

/-- What becomes of the second word on the way out. -/
def scramble (w : UInt32) : UInt32 := rotL (w * 5) 7 * 9

theorem scramble_bijective : Bijective scramble := by
  apply Finite.injective_iff_bijective.mp
  have hfive : IsRightRegular (5 : UInt32) :=
    isRightRegular_of_mul_eq_one (show _ * 0xcccccccd = 1 from rfl)
  have hnine : IsRightRegular (9 : UInt32) :=
    isRightRegular_of_mul_eq_one (show _ * 0x38e38e39 = 1 from rfl)
  exact hnine.comp ((rotL_injective (s := 7) (by decide) (by decide)).comp hfive)

/-- A state by its result and the three words that do not go into it. -/
private noncomputable def resultEquiv :
    Xoshiro128StarStar ≃ UInt32 × UInt32 × UInt32 × UInt32 :=
  words.trans (Equiv.prodCongr (Equiv.ofBijective _ scramble_bijective) (Equiv.refl _))

private theorem card_results_states :
    (Finset.univ.filter fun g : Xoshiro128StarStar => Q g.next.1).card =
      2 ^ 96 * (Finset.univ.filter Q).card := by
  have hproduct : (Finset.univ.filter fun w : UInt32 × UInt32 × UInt32 × UInt32 => Q w.1) =
      Finset.univ.filter Q ×ˢ Finset.univ := by
    ext w
    simp
  have hmap : (Finset.univ.filter fun g : Xoshiro128StarStar => Q g.next.1).card =
      (Finset.univ.filter fun w : UInt32 × UInt32 × UInt32 × UInt32 => Q w.1).card :=
    Finset.card_equiv resultEquiv fun g => by
      simp only [Finset.mem_filter, Finset.mem_univ, true_and]
      rfl
  rw [hmap, hproduct, Finset.card_product, Nat.mul_comm, Finset.card_univ]
  simp only [Fintype.card_prod, card_UInt32]
  norm_num

/-- How many of the results of one period satisfy `Q`: each word is a result 2^96 times, but
zero once less. -/
theorem card_stream {g : Xoshiro128StarStar} (hg : g ≠ 0) :
    ((Finset.range (2 ^ 128 - 1)).filter fun n => Q (g.stream n)).card =
      2 ^ 96 * (Finset.univ.filter Q).card - if Q 0 then 1 else 0 := by
  have horbit := FullPeriod.card_orbit card_states hg (minimalPeriod_step hg) fun w => Q w.next.1
  have hsplit : (Finset.univ.filter fun w : Xoshiro128StarStar => w ≠ 0 ∧ Q w.next.1) =
      (Finset.univ.filter fun w => Q w.next.1).erase 0 := by
    ext w
    simp
  rw [coe_step] at horbit
  change ((Finset.range (2 ^ 128 - 1)).filter fun n => Q (advance^[n] g).next.1).card = _
  rw [horbit, hsplit, Finset.card_erase_eq_ite, card_results_states]
  have hzero : (0 : Xoshiro128StarStar).next.1 = 0 := rfl
  simp only [Finset.mem_filter, Finset.mem_univ, true_and, hzero]
  by_cases hQ : Q 0
  · rw [if_pos hQ, if_pos hQ]
  · rw [if_neg hQ, if_neg hQ, Nat.sub_zero]

end Results

end Xoshiro128StarStar

end Padll

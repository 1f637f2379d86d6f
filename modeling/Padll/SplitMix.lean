import Mathlib.Algebra.Regular.Basic
import Mathlib.Data.Nat.ModEq
import Mathlib.Data.UInt
import Padll.Xoshiro

/-! The generator that spreads the seed: a counter with an odd increment behind a reversible
mixing, so that one period shows every word once. -/
namespace Padll
open Function

section Mixing

/-- A word and the word shifted down give the word back. -/
theorem xor_ushiftRight_injective {w k : Nat} (hk : 0 < k) :
    Injective fun x : BitVec w => x ^^^ x >>> k := by
  intro x y heq
  have hshift : x ^^^ y = (x ^^^ y) >>> k := by
    have hzero : (x ^^^ x >>> k) ^^^ (y ^^^ y >>> k) = 0#w :=
      (congrArg (· ^^^ (y ^^^ y >>> k)) heq).trans BitVec.xor_self
    rw [BitVec.ushiftRight_xor_distrib]
    apply BitVec.xor_eq_zero_iff.mp
    rw [← hzero]
    ac_rfl
  -- the difference stays when it is shifted, and shifting empties it
  have hrepeat : ∀ n, x ^^^ y = (x ^^^ y) >>> (k * n) := by
    intro n
    induction n with
    | zero => rw [Nat.mul_zero, BitVec.ushiftRight_zero]
    | succ n ih => rw [Nat.mul_succ, BitVec.shiftRight_add, ← ih, ← hshift]
  apply BitVec.xor_eq_zero_iff.mp
  rw [hrepeat w]
  exact BitVec.ushiftRight_eq_zero (Nat.le_mul_of_pos_left w hk)

private theorem xor_shift_injective {k : UInt64} (hpos : 0 < k.toNat) (hk : k.toNat < 64) :
    Injective fun z : UInt64 => z ^^^ z >>> k := by
  intro x y heq
  have hbits := congrArg UInt64.toBitVec heq
  simp only [UInt64.toBitVec_xor, UInt64.toBitVec_shiftRight, BitVec.ushiftRight_eq',
    BitVec.toNat_umod, UInt64.toNat_toBitVec] at hbits
  rw [show BitVec.toNat 64 = 64 from rfl, Nat.mod_eq_of_lt hk] at hbits
  exact UInt64.toBitVec_inj.mp (xor_ushiftRight_injective hpos hbits)

end Mixing

namespace SplitMix64

/-- The state after a call, without its result. -/
def advance (g : SplitMix64) : SplitMix64 := g.next.2

/-- The results of all calls to come. -/
def stream (g : SplitMix64) (n : Nat) : UInt64 := (advance^[n] g).next.1

/-- The results of `n` calls in order, and the generator after them. -/
def generateSeedSequence : Nat → SplitMix64 → List UInt64 × SplitMix64
  | 0, g => ([], g)
  | n + 1, g =>
    let seeds := generateSeedSequence n g.next.2
    (g.next.1 :: seeds.1, seeds.2)

/-- What a call adds to the state. -/
def increment : UInt64 := 0x9e3779b97f4a7c15

/-- What becomes of the state on the way out. -/
def mix (z : UInt64) : UInt64 :=
  let z := (z ^^^ z >>> 30) * 0xbf58476d1ce4e5b9
  let z := (z ^^^ z >>> 27) * 0x94d049bb133111eb
  z ^^^ z >>> 31

theorem mix_injective : Injective mix := by
  have hfirst : IsRightRegular (0xbf58476d1ce4e5b9 : UInt64) :=
    isRightRegular_of_mul_eq_one (show _ * 0x96de1b173f119089 = 1 from rfl)
  have hsecond : IsRightRegular (0x94d049bb133111eb : UInt64) :=
    isRightRegular_of_mul_eq_one (show _ * 0x319642b2d24d8ec3 = 1 from rfl)
  have h30 := xor_shift_injective (k := 30) (by decide) (by decide)
  have h27 := xor_shift_injective (k := 27) (by decide) (by decide)
  have h31 := xor_shift_injective (k := 31) (by decide) (by decide)
  exact h31.comp (hsecond.comp (h27.comp (hfirst.comp h30)))

theorem state_iterate (g : SplitMix64) (n : Nat) :
    (advance^[n] g).state = g.state + UInt64.ofNat n * increment := by
  induction n with
  | zero => simp
  | succ n ih =>
    rw [iterate_succ_apply', UInt64.ofNat_add, UInt64.add_mul, ← UInt64.add_assoc, ← ih]
    change _ + increment = _ + 1 * increment
    rw [UInt64.one_mul]

theorem stream_eq_mix (g : SplitMix64) (n : Nat) :
    g.stream n = mix (g.state + UInt64.ofNat n * increment + increment) := by
  rw [← state_iterate]
  rfl

/-- Two results are the same exactly if their calls are whole periods apart. -/
theorem stream_eq_stream (g : SplitMix64) (m n : Nat) :
    g.stream m = g.stream n ↔ m ≡ n [MOD 2 ^ 64] := by
  have hodd : IsRightRegular increment :=
    isRightRegular_of_mul_eq_one (show _ * 0xf1de83e19937733d = 1 from rfl)
  rw [stream_eq_mix, stream_eq_mix, mix_injective.eq_iff, UInt64.add_left_inj,
    UInt64.add_right_inj, hodd.eq_iff, ← UInt64.toNat_inj]
  rfl

private theorem stream_surjective (g : SplitMix64) (v : UInt64) :
    ∃ n < 2 ^ 64, g.stream n = v := by
  -- the results of one period are as many as there are words
  have hinj : Injective fun n : Fin (2 ^ 64) => (g.stream n.val).toFin := by
    intro m n heq
    have hmod := (stream_eq_stream g m n).mp (UInt64.toFin_inj.mp heq)
    exact Fin.ext (Nat.ModEq.eq_of_lt_of_lt hmod m.isLt n.isLt)
  obtain ⟨n, hn⟩ := Finite.surjective_of_injective hinj v.toFin
  exact ⟨n, n.isLt, UInt64.toFin_inj.mp hn⟩

/-- The results repeat after 2^64 calls, not earlier, and in between every word is one. -/
theorem stream_complete (g : SplitMix64) :
    (∀ m n, g.stream m = g.stream n ↔ m ≡ n [MOD 2 ^ 64]) ∧
      ∀ v, ∃ n < 2 ^ 64, g.stream n = v :=
  ⟨stream_eq_stream g, stream_surjective g⟩

section SeedSequence

theorem generateSeedSequence_eq (g : SplitMix64) (n : Nat) :
    generateSeedSequence n g = ((List.range n).map g.stream, advance^[n] g) := by
  induction n generalizing g with
  | zero => rfl
  | succ n ih =>
    have hlater : g.stream ∘ Nat.succ = g.advance.stream := by
      funext i
      rw [comp_apply, stream, iterate_succ_apply, stream]
    rw [generateSeedSequence, ← advance, ih, List.range_succ_eq_map, List.map_cons, List.map_map,
      iterate_succ_apply, hlater, stream, iterate_zero_apply]

/-- A sequence of seeds has no seed twice exactly if it fits into one period. -/
theorem generateSeedSequence_nodup (g : SplitMix64) (n : Nat) :
    (generateSeedSequence n g).1.Nodup ↔ n ≤ 2 ^ 64 := by
  rw [generateSeedSequence_eq, List.nodup_map_iff_inj_on List.nodup_range]
  simp only [List.mem_range, stream_eq_stream]
  constructor
  · intro hinj
    by_contra hlong
    have hfirst : 2 ^ 64 ≡ 0 [MOD 2 ^ 64] := Nat.modEq_zero_iff_dvd.mpr (dvd_refl _)
    exact absurd (hinj _ (by omega) _ (by omega) hfirst) (by decide)
  · intro hshort i hi j hj hmod
    exact Nat.ModEq.eq_of_lt_of_lt hmod (by omega) (by omega)

/-- The words of a seeded state are the low halves of the first four results. -/
theorem ofSeed_eq_stream (seed : UInt64) : Xoshiro128StarStar.ofSeed seed =
    ⟨(stream ⟨seed⟩ 0).toUInt32, (stream ⟨seed⟩ 1).toUInt32, (stream ⟨seed⟩ 2).toUInt32,
      (stream ⟨seed⟩ 3).toUInt32⟩ := rfl

end SeedSequence

end SplitMix64

end Padll

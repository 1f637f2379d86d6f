import Mathlib.Data.List.Nodup
import Mathlib.Data.List.TakeWhile
import Padll.MountPointTable

/-! Workflow counts: which ones the environment variable can ask for, and for which of them the
workflow list is built as it is meant. -/
namespace Padll

section Acceptance

theorem stoi_lt {text : List Char} {n : Int} (h : stoi text = .ok n) : n < 2^31 := by
  unfold stoi at h
  simp only at h
  split at h
  · cases h
  · split at h
    · next v hv =>
      obtain rfl := Except.ok.inj h
      obtain ⟨⟨-, hlt⟩, rfl⟩ := int32_eq_some.mp hv
      exact hlt
    · cases h

theorem isSpace_of_isDigit {c : Char} (h : c.isDigit = true) : isSpace c = false := by
  have hrange : 48 ≤ c.toNat ∧ c.toNat ≤ 57 := by
    simpa [Char.isDigit, UInt32.le_iff_toNat_le] using h
  have hblank : c ≠ ' ' := by
    rintro rfl
    exact absurd hrange.1 (by decide)
  rw [isSpace, decide_eq_false hblank, Bool.false_or, Bool.and_eq_false_iff, decide_eq_false_iff_not,
    decide_eq_false_iff_not]
  omega

/-- A text of digits is read to its end. -/
theorem stoi_of_digits {digits : List Char} (hne : digits ≠ [])
    (h : ∀ c ∈ digits, c.isDigit = true) {v : Int}
    (hv : int32 (Nat.ofDigitChars 10 digits 0) = some v) : stoi digits = .ok v := by
  obtain ⟨c, digits, rfl⟩ := List.exists_cons_of_ne_nil hne
  have hc := h c List.mem_cons_self
  have htrimmed : (c :: digits).dropWhile isSpace = c :: digits :=
    List.dropWhile_cons_of_neg (by rw [isSpace_of_isDigit hc]; exact Bool.false_ne_true)
  have htaken : (c :: digits).takeWhile Char.isDigit = c :: digits :=
    List.takeWhile_eq_self_iff.mpr h
  have hminus : c ≠ '-' := by
    rintro rfl
    cases hc
  have hplus : c ≠ '+' := by
    rintro rfl
    cases hc
  rw [Nat.ofDigitChars_eq_foldl] at hv
  unfold stoi
  simp only [htrimmed, htaken, hminus, hplus, one_mul, hv, List.cons.injEq, false_and, imp_false,
    not_false_eq_true, implies_true]

/-- The variable can ask for every positive count that is an `int`, and for no other. -/
theorem optionPadllWorkflows_accepts (n : Int) :
    (∃ workflowsEnv, optionPadllWorkflows workflowsEnv = .ok n) ↔ 0 < n ∧ n < 2^31 := by
  constructor
  · rintro ⟨workflowsEnv, h⟩
    refine ⟨optionPadllWorkflows_pos h, ?_⟩
    cases workflowsEnv with
    | none => cases h
    | some text =>
      rw [optionPadllWorkflows] at h
      cases hs : stoi text with
      | error e =>
        rw [hs] at h
        cases h
      | ok workflows =>
        have hlt := stoi_lt hs
        rw [hs] at h
        change (if workflows > 0 then _ else _) = _ at h
        split at h
        · exact Except.ok.inj h ▸ hlt
        · cases h
  · rintro ⟨hpos, hlt⟩
    obtain ⟨k, rfl⟩ := Int.eq_ofNat_of_zero_le hpos.le
    refine ⟨some (Nat.toDigits 10 k), ?_⟩
    have hread : stoi (Nat.toDigits 10 k) = .ok k := by
      apply stoi_of_digits Nat.toDigits_ne_nil
      · intro c hc
        exact Nat.isDigit_of_mem_toDigits (by decide) (by decide) hc
      · rw [Nat.ofDigitChars_ten_toDigits]
        exact int32_of_range (by omega) hlt
    rw [optionPadllWorkflows, hread]
    exact if_pos hpos

end Acceptance

section Construction

/-- The constructor runs without overflow and yields as many ids as asked for: the multiples of
1000 in order, all different and none of them the sentinel. -/
def ConstructsWorkflows (n : Int) : Prop :=
  ∃ ids, pushWorkflows n 1 [] = some ids ∧ (ids.length : Int) = n ∧
    ids.map UInt32.toNat = (List.range ids.length).map (fun k => 1000 * (k + 1)) ∧
    ids.Nodup ∧ noWorkflow ∉ ids

/-- An accepted count at which `i * 1000` leaves the range of an `int`. -/
theorem accepted_count_overflows :
    ¬ ∀ workflowsEnv n, optionPadllWorkflows workflowsEnv = .ok n → ConstructsWorkflows n := by
  intro h
  obtain ⟨ids, hids, -⟩ := h (some "2147484".toList) 2147484 (by decide)
  exact absurd (pushWorkflows_bound (by decide) hids) (by decide)

theorem workflowIds_toNat {count : Nat} (h : 1000 * count < 2^31) :
    (workflowIds 1 count).map UInt32.toNat = (List.range count).map fun k => 1000 * (k + 1) := by
  rw [workflowIds, List.map_map]
  apply List.map_congr_left
  intro k hk
  have hk := List.mem_range.mp hk
  exact workflowId_toNat (by omega)

/-- The workflow list of a positive count is built as meant exactly if its largest id fits in
an `int`. -/
theorem constructsWorkflows_iff {n : Int} (hpos : 0 < n) :
    ConstructsWorkflows n ↔ 1000 * n < 2^31 := by
  constructor
  · rintro ⟨ids, hids, -⟩
    exact pushWorkflows_bound (by omega) hids
  · intro hsmall
    have hids := pushWorkflows_eq [] le_rfl hsmall
    rw [List.nil_append, add_sub_cancel_right] at hids
    have hlength : (workflowIds 1 n.toNat).length = n.toNat := by
      rw [workflowIds, List.length_map, List.length_range]
    have hvalues := workflowIds_toNat (show 1000 * n.toNat < 2^31 by omega)
    refine ⟨_, hids, by omega, ?_, ?_, fun hmem => ?_⟩
    · rw [hlength, hvalues]
    · apply List.Nodup.of_map UInt32.toNat
      rw [hvalues]
      exact List.nodup_range.map fun k k' hk => by simpa using hk
    · have hsentinel := List.mem_map_of_mem (f := UInt32.toNat) hmem
      rw [hvalues] at hsentinel
      obtain ⟨k, hk, heq⟩ := List.mem_map.mp hsentinel
      have hk := List.mem_range.mp hk
      have hno : noWorkflow.toNat = 4294967295 := rfl
      omega

theorem constructsWorkflows_iff_eight : ConstructsWorkflows 8 :=
  (constructsWorkflows_iff (by decide)).mpr (by decide)

end Construction

end Padll

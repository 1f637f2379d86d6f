import Padll.DescriptorDecisions

/-! The cost at which data requests reach the stage: the size of the buffer, after the
conversions to `int` and to `uint64_t` on its way. -/
namespace Padll
open LdPreloadedPosix
variable {opts : Options}

/-- Descriptor and buffer size of the calls that move data. -/
def PosixCall.transfer : PosixCall → Option (Int32 × UInt64)
  | .read fd _ counter _ | .write fd _ counter _ | .pread fd _ counter _ _
  | .pwrite fd _ counter _ _ | .pread64 fd _ counter _ _ | .pwrite64 fd _ counter _ _ =>
    some (fd, counter)
  | _ => none

/-- A call submits one request, whose cost is the size of its buffer; in particular no
non-empty request is free. -/
def CostsBuffer (o : LdPreloadedPosix opts) (c : PosixCall) (counter : UInt64) : Prop :=
  ∃ s, (step (.call c) o).1.flatMap CallRecord.submissions = [s] ∧ s.operationSize = counter ∧
    (counter ≠ 0 → s.operationSize ≠ 0)

/-- Four gigabytes are read for nothing. -/
theorem read_for_nothing :
    ¬ ∀ (o : LdPreloadedPosix (Options.shipped .single)) (c : PosixCall) (fd : Int32)
      (counter : UInt64), c.transfer = some (fd, counter) →
      (o.mountPointTable.pickWorkflowIdFd fd).1 ≠ noWorkflow → CostsBuffer o c counter := by
  intro h
  obtain ⟨s, hs, hcost, -⟩ := h openedSingle (.read 3 0 (2^32) 0) 3 (2^32) rfl (by decide)
  have hfree : (step (.call (.read 3 0 (2^32) 0)) openedSingle).1.flatMap
      CallRecord.submissions = [⟨1000, .read, .dataOp, 0⟩] := by
    decide
  obtain rfl := List.singleton_inj.mp (hfree.symm.trans hs)
  revert hcost
  decide

section Conversions

/-- A size handed to an `int` parameter and on to a `uint64_t` one. -/
def requestCost (counter : UInt64) : UInt64 := counter.toUInt32.toInt32.toInt64.toUInt64

theorem toNat_requestCost (counter : UInt64) :
    (requestCost counter).toNat =
      if counter.toNat % 2^32 < 2^31 then counter.toNat % 2^32
      else 2^64 - 2^32 + counter.toNat % 2^32 := by
  have hbits : (requestCost counter).toBitVec = (counter.toBitVec.setWidth 32).signExtend 64 := rfl
  have hlow : (counter.toBitVec.setWidth 32).toNat = counter.toNat % 2^32 :=
    BitVec.toNat_setWidth 32 counter.toBitVec
  have hlt : counter.toNat % 2^32 < 2^32 := Nat.mod_lt _ (by decide)
  rw [← UInt64.toNat_toBitVec, hbits, BitVec.toNat_signExtend, BitVec.toNat_setWidth, hlow,
    BitVec.msb_eq_decide, hlow, Nat.mod_eq_of_lt (by omega)]
  rcases Nat.lt_or_ge (counter.toNat % 2^32) (2^31) with h | h
  · rw [if_pos h, if_neg (by simpa using h), Nat.add_zero]
  · rw [if_neg (Nat.not_lt.mpr h), if_pos (by simpa using h), Nat.add_comm]

/-- The conversions keep the sizes below `2^31`, and those that are negative as `int64_t` and
fit in an `int`. -/
theorem requestCost_eq_iff (counter : UInt64) :
    requestCost counter = counter ↔ counter.toNat < 2^31 ∨ 2^64 - 2^31 ≤ counter.toNat := by
  have hlt := counter.toNat_lt
  rw [← UInt64.toNat_inj, toNat_requestCost]
  split <;> omega

/-- Free are the multiples of `2^32`. -/
theorem requestCost_eq_zero_iff (counter : UInt64) :
    requestCost counter = 0 ↔ 2^32 ∣ counter.toNat := by
  rw [← UInt64.toNat_inj, toNat_requestCost, UInt64.toNat_zero, Nat.dvd_iff_mod_eq_zero]
  split <;> omega

/-- Below `2^31` a larger buffer costs no less. -/
theorem requestCost_mono {counter counter' : UInt64} (hle : counter ≤ counter')
    (hsmall : counter'.toNat < 2^31) : requestCost counter ≤ requestCost counter' := by
  have hboth : counter.toNat < 2^31 := (UInt64.le_iff_toNat_le.mp hle).trans_lt hsmall
  rw [(requestCost_eq_iff counter).mpr (.inl hboth), (requestCost_eq_iff counter').mpr (.inl hsmall)]
  exact hle

end Conversions

private theorem profile_transfer {c : PosixCall} {fd : Int32} {counter : UInt64}
    (h : c.transfer = some (fd, counter)) :
    ∃ operationType, c.profile.control =
      .submitted (.descriptor fd) operationType .dataOp counter.toUInt32.toInt32 := by
  cases c with
  | read | write | pread | pwrite | pread64 | pwrite64 =>
    obtain ⟨rfl, rfl⟩ := Prod.mk.inj (Option.some.inj h)
    exact ⟨_, rfl⟩
  | _ => cases h

/-- What a data call on a controlled descriptor submits. -/
theorem submissions_transfer {c : PosixCall} {fd : Int32} {counter : UInt64}
    (h : c.transfer = some (fd, counter)) {o : LdPreloadedPosix opts}
    (hvalid : (o.mountPointTable.pickWorkflowIdFd fd).1 ≠ noWorkflow) :
    ∃ s, (step (.call c) o).1.flatMap CallRecord.submissions = [s] ∧
      s.operationSize = requestCost counter := by
  obtain ⟨operationType, hcontrol⟩ := profile_transfer h
  have hcontrols := (choose_ne o.mountPointTable (.descriptor fd)).mp hvalid
  rw [step_call, List.flatMap_singleton, CallRecord.submissions_recordOf, Profile.submissions,
    hcontrol]
  exact ⟨_, if_pos hcontrols, rfl⟩

/-- On a controlled descriptor a data call costs the size of its buffer exactly if that size is
below `2^31` or at most `2^31` short of `2^64`. -/
theorem costsBuffer_iff {c : PosixCall} {fd : Int32} {counter : UInt64}
    (h : c.transfer = some (fd, counter)) {o : LdPreloadedPosix opts}
    (hvalid : (o.mountPointTable.pickWorkflowIdFd fd).1 ≠ noWorkflow) :
    CostsBuffer o c counter ↔ counter.toNat < 2^31 ∨ 2^64 - 2^31 ≤ counter.toNat := by
  obtain ⟨s, hs, hcost⟩ := submissions_transfer h hvalid
  rw [← requestCost_eq_iff]
  constructor
  · rintro ⟨s', hs', hcost', -⟩
    obtain rfl := List.singleton_inj.mp (hs.symm.trans hs')
    exact hcost.symm.trans hcost'
  · intro hexact
    have hsize : s.operationSize = counter := hcost.trans hexact
    exact ⟨s, hs, hsize, fun hne hzero => hne (hsize.symm.trans hzero)⟩

theorem costsBuffer_iff_page : CostsBuffer openedSingle (.read 3 0 4096 4096) 4096 :=
  (costsBuffer_iff (show PosixCall.transfer (.read 3 0 4096 4096) = some (3, 4096) from rfl)
    (by decide)).mpr (.inl (by decide))

end Padll

import Padll.DescriptorDecisions
import Padll.EntryLifetime

/-! Integrity of the two tables: which keys they ever hold, what a failed call leaves of them,
and what re-keying a descriptor does to every other. -/
namespace Padll
open KeyedMap LdPreloadedPosix
variable {opts : Options}

section Keys

/-- Only valid keys hold an entry. -/
def MountPointTable.KeysValid (t : MountPointTable opts) : Prop :=
  ∀ key : EntryKey, (t.held key).isSome → key.isValid

/-- What a call does to the tables, as a mutation of theirs. -/
def TableEffect.mutation (opts : Options) : TableEffect → Option Mutation
  | keep => none
  | openFd fd path =>
    some (.createMountPointEntry (.fd fd)
      ⟨path, MountPointTable.extractMountPoint opts path, getMetadataUnit⟩)
  | openStream fptr path =>
    some (.createMountPointEntry (.ptr fptr)
      ⟨path, MountPointTable.extractMountPoint opts path, getMetadataUnit⟩)
  | closeFd fd => if opts.hardRemove then some (.removeMountPointEntry (.fd fd)) else none
  | closeStream stream => some (.removeMountPointEntry (.ptr stream))
  | duplicate fd result => some (.replaceFileDescriptor fd result)

/-- A call mutates the tables once at most. -/
theorem settle_mutation (t : MountPointTable opts) (effect : TableEffect) :
    settle t effect = (effect.mutation opts).elim t (Mutation.onTable t) := by
  cases effect with
  | closeFd fd =>
    rw [settle, TableEffect.mutation]
    split <;> rfl
  | _ => rfl

namespace MountPointTable

theorem KeysValid.onTable {t : MountPointTable opts} (h : t.KeysValid) (mutation : Mutation) :
    (mutation.onTable t).KeysValid := by
  intro j hj
  cases mutation with
  | createMountPointEntry key entry =>
    rw [held_create] at hj
    split at hj
    · next hkey => exact hkey.1 ▸ hkey.2
    · exact h j hj
  | removeMountPointEntry key =>
    rw [held_remove] at hj
    split at hj
    · cases hj
    · exact h j hj
  | replaceFileDescriptor oldFd newFd =>
    cases j with
    | ptr j =>
      rw [Mutation.onTable, held, replaceFileDescriptor_ptr] at hj
      exact h (.ptr j) hj
    | fd j =>
      rw [Mutation.onTable, held, replaceFileDescriptor_table] at hj
      split at hj
      · next hvalid =>
        by_cases hnew : j = newFd
        · rw [hnew]
          exact isFileDescriptorValid_iff.mpr hvalid.2
        · obtain ⟨e, he⟩ := Option.isSome_iff_exists.mp hj
          exact h (.fd j) (Option.isSome_iff_exists.mpr ⟨e, find_of_find_move he hnew⟩)
      · exact h (.fd j) hj

theorem KeysValid.same {t t' : MountPointTable opts} (h : t.KeysValid) (hsame : t.SameEntries t') :
    t'.KeysValid := by
  intro j hj
  cases j with
  | fd j =>
    rw [held, hsame.fd] at hj
    exact h (.fd j) hj
  | ptr j =>
    rw [held, hsame.ptr] at hj
    exact h (.ptr j) hj

theorem KeysValid.settle {t : MountPointTable opts} (h : t.KeysValid) (effect : TableEffect) :
    (settle t effect).KeysValid := by
  rw [settle_mutation]
  cases effect.mutation opts with
  | none => exact h
  | some mutation => exact h.onTable mutation

end MountPointTable

/-- Every run keeps the keys of the tables valid. -/
theorem run_keysValid (actions : List Action) {o : LdPreloadedPosix opts}
    (h : o.mountPointTable.KeysValid) : (run actions o).2.mountPointTable.KeysValid := by
  refine OutputMachine.run_invariant
    (I := fun s : LdPreloadedPosix opts => s.mountPointTable.KeysValid) ?_ actions h
  intro a s hs
  cases a with
  | call c =>
    rw [step_call]
    exact (hs.same (c.profile.chosen_same s.mountPointTable)).settle c.profile.effect
  | setStatisticCollection value => exact hs

end Keys

section Failures

namespace PosixCall

/-- The calls that register what libc answers, or move a registration to it. -/
def registers : PosixCall → Bool
  | openVariadic .. | «open» .. | creat .. | creat64 .. | openatVariadic .. | openat ..
  | open64Variadic .. | open64 .. | fopen .. | fopen64 .. => true
  | fcntl _ cmd _ _ => cmd = fDupfd ∨ cmd = fDupfdCloexec
  | _ => false

end PosixCall

private theorem invalid_of_negative {fd : Int32} (h : fd < 0) : isFileDescriptorValid fd = false := by
  rw [← Bool.not_eq_true, isFileDescriptorValid_iff]
  intro hfd
  rw [Int32.lt_iff_toInt_lt] at h hfd
  exact absurd (hfd.trans h) (by decide)

private theorem settle_openFd_invalid (t : MountPointTable opts) {fd : Int32} (path : Path)
    (h : isFileDescriptorValid fd = false) : settle t (.openFd fd path) = t := by
  rw [settle, MountPointTable.createMountPointEntryFd, createEntry, h]
  rfl

private theorem settle_openStream_null (t : MountPointTable opts) (path : Path) :
    settle t (.openStream .nullptr path) = t := rfl

private theorem settle_duplicate_invalid (t : MountPointTable opts) {result : Int32} (fd : Int32)
    (h : isFileDescriptorValid result = false) : settle t (.duplicate fd result) = t := by
  rw [settle, MountPointTable.replaceFileDescriptor, h, Bool.not_false, Bool.or_true]
  rfl

/-- A failed registration settles nothing. -/
theorem settle_failed {c : PosixCall} (hregisters : c.registers = true) (hfailed : c.failed = true)
    (t : MountPointTable opts) : settle t c.profile.effect = t := by
  cases c with
  | openVariadic _ _ _ fd | «open» _ _ fd | creat _ _ fd | creat64 _ _ fd
  | openatVariadic _ _ _ _ fd | openat _ _ _ fd | open64Variadic _ _ _ fd | open64 _ _ fd =>
    have hnegative : fd < 0 := of_decide_eq_true hfailed
    exact settle_openFd_invalid t _ (invalid_of_negative hnegative)
  | fopen _ _ fptr | fopen64 _ _ fptr =>
    obtain rfl : fptr = .nullptr := of_decide_eq_true hfailed
    exact settle_openStream_null t _
  | fcntl fd cmd arg resultValue =>
    have hcmd : cmd = fDupfd ∨ cmd = fDupfdCloexec := of_decide_eq_true hregisters
    have hnegative : resultValue < 0 := of_decide_eq_true hfailed
    simp only [PosixCall.profile, if_pos hcmd]
    exact settle_duplicate_invalid t fd (invalid_of_negative hnegative)
  | _ => cases hregisters

/-- Over every run the tables hold no standard descriptor and no null or standard stream; and
a failed call that would have registered its result leaves both tables as they were. -/
theorem run_tablesIntact (statCollection : Bool) (prng : Nat → UInt32) (actions : List Action) :
    let o : LdPreloadedPosix opts := (run actions (construct statCollection prng)).2
    (∀ fd, (o.mountPointTable.fileDescriptorsTable.find fd).isSome → 2 < fd) ∧
    (∀ fptr, (o.mountPointTable.filePtrTable.find fptr).isSome →
      fptr ≠ .nullptr ∧ fptr ≠ .stdin ∧ fptr ≠ .stdout ∧ fptr ≠ .stderr) ∧
    ∀ (c : PosixCall) (s : LdPreloadedPosix opts), c.registers = true → c.failed = true →
      (step (.call c) s).2.mountPointTable.fileDescriptorsTable =
          s.mountPointTable.fileDescriptorsTable ∧
        (step (.call c) s).2.mountPointTable.filePtrTable = s.mountPointTable.filePtrTable := by
  intro o
  have hfresh : (construct statCollection prng : LdPreloadedPosix opts).mountPointTable.KeysValid :=
    fun key hkey => by cases key <;> cases hkey
  have hkeys : o.mountPointTable.KeysValid := run_keysValid actions hfresh
  refine ⟨fun fd hfd => isFileDescriptorValid_iff.mp (hkeys (.fd fd) hfd), fun fptr hptr => ?_,
    fun c s hregisters hfailed => ?_⟩
  · have hvalid := hkeys (.ptr fptr) hptr
    cases fptr with
    | stream address => exact ⟨nofun, nofun, nofun, nofun⟩
    | _ => cases hvalid
  · have hsame := c.profile.chosen_same s.mountPointTable
    have hsettle := settle_failed hregisters hfailed (c.profile.chosen s.mountPointTable)
    rw [step_call]
    exact ⟨(congrArg MountPointTable.fileDescriptorsTable hsettle).trans hsame.fd,
      (congrArg MountPointTable.filePtrTable hsettle).trans hsame.ptr⟩

theorem run_tablesIntact_refused :
    let o := (step (.call (.«open» "/tmp/y".toList 0 (-1))) openedSingle).2
    o.mountPointTable.fileDescriptorsTable = openedSingle.mountPointTable.fileDescriptorsTable :=
  ((run_tablesIntact true (fun _ => 0) []).2.2 (.«open» "/tmp/y".toList 0 (-1)) openedSingle rfl
    rfl).1

end Failures

section Replacement
namespace MountPointTable

/-- The table that a sequence of mutations leaves of a fresh one. -/
def mutated (prng : Nat → UInt32) (mutations : List Mutation) : MountPointTable opts :=
  mutations.foldl Mutation.onTable (construct true prng).mountPointTable

/-- `replace_file_descriptor` as documented: it moves the entry of one descriptor to the other,
whatever that held, and says whether it did. -/
structure Replaces (t : MountPointTable opts) (oldFd newFd : Int32) : Prop where
  status : (t.replaceFileDescriptor oldFd newFd).1 = true ↔
    2 < oldFd ∧ 2 < newFd ∧ (t.getMountPointEntryFd oldFd).isSome
  moved : (t.replaceFileDescriptor oldFd newFd).1 = true →
    (t.replaceFileDescriptor oldFd newFd).2.getMountPointEntryFd newFd =
      t.getMountPointEntryFd oldFd
  source : (t.replaceFileDescriptor oldFd newFd).1 = true → oldFd ≠ newFd →
    (t.replaceFileDescriptor oldFd newFd).2.getMountPointEntryFd oldFd = none
  others : (t.replaceFileDescriptor oldFd newFd).1 = true → ∀ fd, fd ≠ oldFd → fd ≠ newFd →
    (t.replaceFileDescriptor oldFd newFd).2.getMountPointEntryFd fd = t.getMountPointEntryFd fd
  refused : (t.replaceFileDescriptor oldFd newFd).1 = false →
    (t.replaceFileDescriptor oldFd newFd).2 = t

/-- The target of a replacement is another descriptor, registered with another entry. -/
def Occupied (t : MountPointTable opts) (oldFd newFd : Int32) : Prop :=
  oldFd ≠ newFd ∧ ∃ e e', t.getMountPointEntryFd oldFd = some e ∧
    t.getMountPointEntryFd newFd = some e' ∧ e ≠ e'

/-- The entry moved onto a registered descriptor is lost, and the status says it was moved. -/
theorem replacement_lost :
    ¬ (mutated (fun _ => 0)
        [.createMountPointEntry (.fd 3) ⟨"/tmp/a".toList, .kRemote, getMetadataUnit⟩,
          .createMountPointEntry (.fd 4) ⟨"/tmp/b".toList, .kRemote, getMetadataUnit⟩] :
      MountPointTable (Options.shipped .single)).Replaces 3 4 := by
  intro h
  have hmoved := h.moved (by decide)
  revert hmoved
  decide

/-- Re-keying is refused without change, or moves the node of a registered descriptor. -/
theorem replaceFileDescriptor_cases (t : MountPointTable opts) (oldFd newFd : Int32) :
    (t.replaceFileDescriptor oldFd newFd = (false, t) ∧
        ¬ (2 < oldFd ∧ 2 < newFd ∧ (t.getMountPointEntryFd oldFd).isSome)) ∨
      ((t.replaceFileDescriptor oldFd newFd).1 = true ∧
        2 < oldFd ∧ 2 < newFd ∧ (t.getMountPointEntryFd oldFd).isSome) := by
  by_cases hold : 2 < oldFd
  · by_cases hnew : 2 < newFd
    · have ho := isFileDescriptorValid_iff.mpr hold
      have hn := isFileDescriptorValid_iff.mpr hnew
      rw [getMountPointEntryFd_eq t hold]
      cases h : t.fileDescriptorsTable.find oldFd with
      | none => exact .inl ⟨by simp [replaceFileDescriptor, ho, hn, h], fun hx => nomatch hx.2.2⟩
      | some e => exact .inr ⟨by simp [replaceFileDescriptor, ho, hn, h], hold, hnew, rfl⟩
    · have hn : isFileDescriptorValid newFd = false := by
        rwa [← Bool.not_eq_true, isFileDescriptorValid_iff]
      exact .inl ⟨by simp [replaceFileDescriptor, hn], fun hx => hnew hx.2.1⟩
  · have ho : isFileDescriptorValid oldFd = false := by
      rwa [← Bool.not_eq_true, isFileDescriptorValid_iff]
    exact .inl ⟨by simp [replaceFileDescriptor, ho], fun hx => hold hx.1⟩

/-- Where the target ends up after an accepted replacement. -/
theorem moved_iff {t : MountPointTable opts} {oldFd newFd : Int32} (hold : 2 < oldFd)
    (hnew : 2 < newFd) (hregistered : (t.getMountPointEntryFd oldFd).isSome) :
    (t.replaceFileDescriptor oldFd newFd).2.getMountPointEntryFd newFd =
        t.getMountPointEntryFd oldFd ↔ ¬ t.Occupied oldFd newFd := by
  obtain ⟨e, he⟩ := Option.isSome_iff_exists.mp hregistered
  by_cases hself : oldFd = newFd
  · subst hself
    refine iff_of_true ?_ fun h => h.1 rfl
    rw [getMountPointEntryFd_eq _ hold, getMountPointEntryFd_eq _ hold,
      replaceFileDescriptor_table, if_pos ⟨hold, hnew⟩, move_self]
  · cases htarget : t.getMountPointEntryFd newFd with
    | none =>
      refine iff_of_true ?_ ?_
      · rw [getMountPointEntryFd_replace_target hold hnew he htarget, he]
      · rintro ⟨-, -, e', -, he', -⟩
        rw [htarget] at he'
        cases he'
    | some e' =>
      rw [getMountPointEntryFd_replace (fun h => hself h.symm) htarget, he, Option.some.injEq]
      constructor
      · rintro heq ⟨-, e₁, e₂, he₁, he₂, hne⟩
        rw [he] at he₁
        rw [htarget] at he₂
        exact hne (by rw [← Option.some.inj he₁, ← Option.some.inj he₂, heq])
      · intro hfree
        by_contra hne
        exact hfree ⟨hself, e, e', he, htarget, fun h => hne h.symm⟩

theorem replaces_iff (t : MountPointTable opts) (oldFd newFd : Int32) :
    t.Replaces oldFd newFd ↔ ¬ t.Occupied oldFd newFd := by
  rcases t.replaceFileDescriptor_cases oldFd newFd with ⟨heq, hnot⟩ | ⟨htrue, hold, hnew, hreg⟩
  · have hrefused : (t.replaceFileDescriptor oldFd newFd).1 ≠ true := by
      rw [heq]
      exact Bool.false_ne_true
    refine iff_of_true ?_ ?_
    · exact ⟨iff_of_false hrefused hnot, fun h => absurd h hrefused, fun h => absurd h hrefused,
        fun h => absurd h hrefused, fun _ => congrArg Prod.snd heq⟩
    · rintro ⟨-, e, e', he, he', -⟩
      have hvalid : ∀ {fd e}, t.getMountPointEntryFd fd = some e → 2 < fd := by
        intro fd e h
        by_contra hfd
        rw [getMountPointEntryFd_invalid t hfd] at h
        cases h
      exact hnot ⟨hvalid he, hvalid he', he ▸ rfl⟩
  · have hmoved := moved_iff hold hnew hreg
    refine ⟨fun h => hmoved.mp (h.moved htrue), fun h => ?_⟩
    exact ⟨iff_of_true htrue ⟨hold, hnew, hreg⟩, fun _ => hmoved.mpr h,
      fun _ hne => getMountPointEntryFd_replace_source t hold hnew (Ne.symm hne),
      fun _ fd ho hn => getMountPointEntryFd_replace_other t ho hn,
      fun hfalse => nomatch htrue.symm.trans hfalse⟩

/-- After every sequence of mutations, replacing one descriptor by another does what is
documented exactly if the other is not registered with an entry of its own. -/
theorem mutated_replaces_iff (prng : Nat → UInt32) (mutations : List Mutation)
    (oldFd newFd : Int32) :
    (mutated prng mutations : MountPointTable opts).Replaces oldFd newFd ↔
      ¬ (mutated prng mutations : MountPointTable opts).Occupied oldFd newFd :=
  replaces_iff _ oldFd newFd

end MountPointTable
end Replacement

end Padll

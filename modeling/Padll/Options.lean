import Mathlib.Data.List.Range
import Mathlib.Tactic.Ring

/-! Compile-time options and the workflow list built from the environment at start-up. -/
namespace Padll

/-- A C string or string view. -/
abbrev Path := List Char

inductive MountPoint where
  | kNone | kLocal | kRemote
  deriving DecidableEq, Repr

/-- What reading the workflow count can throw. -/
inductive WorkflowsError where
  | invalidArgument | outOfRange
  | runtimeError (message : String)
  deriving DecidableEq, Repr

/-- A signed 32-bit result; C++ leaves an overflow undefined. -/
def int32 (v : Int) : Option Int := if -2^31 ≤ v ∧ v < 2^31 then some v else none

/-- The blanks of the C locale. -/
def isSpace (c : Char) : Bool := c = ' ' || (9 ≤ c.toNat && c.toNat ≤ 13)

/-- Leading blanks, a sign, then as many digits as follow. -/
def stoi (text : List Char) : Except WorkflowsError Int :=
  let trimmed := text.dropWhile isSpace
  let (sign, rest) := match trimmed with
    | '-' :: rest => ((-1 : Int), rest)
    | '+' :: rest => (1, rest)
    | rest => (1, rest)
  match rest.takeWhile Char.isDigit with
  | [] => .error .invalidArgument
  | digits =>
    match int32 (sign * digits.foldl (fun n c => 10 * n + (c.toNat - '0'.toNat : Nat)) 0) with
    | some v => .ok v
    | none => .error .outOfRange

/-- Number of internal workflows, from the `padll_workflows` environment variable. -/
def optionPadllWorkflows (workflowsEnv : Option (List Char)) : Except WorkflowsError Int :=
  match workflowsEnv with
  | some text => do
    let workflows ← stoi text
    if workflows > 0 then .ok workflows
    else .error (.runtimeError "Invalid amount of workflows ('padll_workflows').")
  | none => .error (.runtimeError "Environment variable 'padll_workflows' not set.")

/-- Push `i * 1000` for every `i` up to the count; `none` once signed arithmetic overflows. -/
def pushWorkflows (numWorkflows i : Int) (pushed : List UInt32) : Option (List UInt32) :=
  if i ≤ numWorkflows then
    (int32 (i * 1000)).bind fun workflow =>
      (int32 (i + 1)).bind fun _ =>
        pushWorkflows numWorkflows (i + 1) (pushed ++ [UInt32.ofInt workflow])
  else some pushed
termination_by (numWorkflows + 1 - i).toNat

/-- The workflow lists of a mount point table, built without undefined behaviour from an
accepted count. -/
structure MountPointWorkflows where
  numWorkflows : Int
  defaultRemoteMountPointWorkflows : List UInt32
  accepted : 0 < numWorkflows
  constructed : pushWorkflows numWorkflows 1 [] = some defaultRemoteMountPointWorkflows

def defaultMountPointWorkflows : List UInt32 := [1000, 2000, 3000, 4000, 5000, 6000]

structure Options where
  mountPointDifferentiationEnabled : Bool
  selectWorkflowByMetadataUnit : Bool
  hardRemove : Bool
  defaultRemoteMountPoint : Path
  workflows : MountPointWorkflows

/-- The values the headers are shipped with. -/
def Options.shipped (workflows : MountPointWorkflows) : Options where
  mountPointDifferentiationEnabled := true
  selectWorkflowByMetadataUnit := false
  hardRemove := false
  defaultRemoteMountPoint := "/tmp".toList
  workflows := workflows

/-- The ids `1000 * i` for `i` from the given start, as many as asked for. -/
def workflowIds (start : Int) (count : Nat) : List UInt32 :=
  (List.range count).map fun k : Nat => UInt32.ofInt ((start + (k : Int)) * 1000)

/-- An accepted count is positive. -/
theorem optionPadllWorkflows_pos {workflowsEnv : Option (List Char)} {n : Int}
    (h : optionPadllWorkflows workflowsEnv = .ok n) : 0 < n := by
  cases workflowsEnv with
  | none => cases h
  | some text =>
    simp only [optionPadllWorkflows] at h
    cases hs : stoi text with
    | error e =>
      rw [hs] at h
      cases h
    | ok workflows =>
      rw [hs] at h
      by_cases hpos : workflows > 0
      · obtain rfl : workflows = n := by simpa [bind, Except.bind, hpos] using h
        exact hpos
      · simp [bind, Except.bind, hpos] at h

theorem int32_eq_some {v w : Int} : int32 v = some w ↔ (-2^31 ≤ v ∧ v < 2^31) ∧ v = w := by
  by_cases h : -2^31 ≤ v ∧ v < 2^31
  · rw [int32, if_pos h, Option.some.injEq]
    exact (and_iff_right h).symm
  · rw [int32, if_neg h]
    exact iff_of_false nofun fun e => h e.1

theorem int32_of_range {v : Int} (hlo : -2^31 ≤ v) (hhi : v < 2^31) : int32 v = some v :=
  int32_eq_some.mpr ⟨⟨hlo, hhi⟩, rfl⟩

theorem workflowIds_succ (start : Int) (count : Nat) :
    workflowIds start (count + 1) =
      UInt32.ofInt (start * 1000) :: workflowIds (start + 1) count := by
  simp only [workflowIds, List.range_succ_eq_map, List.map_cons, List.map_map]
  apply congrArg₂ List.cons
  · simp
  · apply List.map_congr_left
    intro k _
    simp only [Function.comp_apply, Nat.succ_eq_add_one, Nat.cast_add, Nat.cast_one]
    rw [add_assoc, add_comm 1 (k : Int)]

/-- A count whose largest id fits in an `int` is pushed completely. -/
theorem pushWorkflows_eq {n i : Int} (pushed : List UInt32) (hi : 1 ≤ i) (hn : 1000 * n < 2^31) :
    pushWorkflows n i pushed = some (pushed ++ workflowIds i (n + 1 - i).toNat) := by
  generalize hk : (n + 1 - i).toNat = k
  induction k generalizing i pushed with
  | zero =>
    rw [pushWorkflows, if_neg (by omega)]
    simp [workflowIds]
  | succ k ih =>
    have hle : i ≤ n := by omega
    rw [pushWorkflows, if_pos hle, int32_of_range (by omega) (by omega),
      int32_of_range (by omega) (by omega), Option.bind_some, Option.bind_some,
      ih (pushed ++ [UInt32.ofInt (i * 1000)]) (by omega) (by omega), workflowIds_succ]
    simp

/-- The constructor meets an overflow on every larger count. -/
theorem pushWorkflows_bound {n i : Int} {pushed ids : List UInt32} (hle : i ≤ n)
    (h : pushWorkflows n i pushed = some ids) : 1000 * n < 2^31 := by
  generalize hk : (n - i).toNat = k
  induction k generalizing i pushed with
  | zero =>
    rw [pushWorkflows, if_pos hle] at h
    obtain ⟨w, hw, -⟩ := Option.bind_eq_some_iff.mp h
    have := (int32_eq_some.mp hw).1
    omega
  | succ k ih =>
    rw [pushWorkflows, if_pos hle] at h
    obtain ⟨w, -, h⟩ := Option.bind_eq_some_iff.mp h
    obtain ⟨_, -, h⟩ := Option.bind_eq_some_iff.mp h
    exact ih (by omega) h (by omega)

/-- The workflows of an accepted count small enough for `i * 1000` to stay an `int`. -/
def MountPointWorkflows.ofCount (n : Int) (accepted : 0 < n) (small : 1000 * n < 2^31) :
    MountPointWorkflows where
  numWorkflows := n
  defaultRemoteMountPointWorkflows := workflowIds 1 n.toNat
  accepted := accepted
  constructed := by
    rw [pushWorkflows_eq [] le_rfl small]
    simp

theorem MountPointWorkflows.small (w : MountPointWorkflows) : 1000 * w.numWorkflows < 2^31 :=
  pushWorkflows_bound (by have := w.accepted; omega) w.constructed

theorem MountPointWorkflows.remote_eq (w : MountPointWorkflows) :
    w.defaultRemoteMountPointWorkflows = workflowIds 1 w.numWorkflows.toNat := by
  have h := w.constructed
  rw [pushWorkflows_eq [] le_rfl w.small] at h
  simpa using h.symm

theorem toNat_ofInt {v : Nat} (h : v < 2^32) : (UInt32.ofInt (v : Int)).toNat = v := by
  rw [UInt32.ofInt, UInt32.toNat_ofNat']
  omega

theorem workflowId_toNat {k : Nat} (h : 1000 * (k + 1) < 2^32) :
    (UInt32.ofInt ((1 + (k : Int)) * 1000)).toNat = 1000 * (k + 1) := by
  have hv : (1 + (k : Int)) * 1000 = ((1000 * (k + 1) : Nat) : Int) := by
    push_cast
    ring
  rw [hv]
  exact toNat_ofInt h

/-- Each registered remote id is `1000 * i` as a number, with `i` between one and the count. -/
theorem MountPointWorkflows.mem_remote (w : MountPointWorkflows) {id : UInt32}
    (h : id ∈ w.defaultRemoteMountPointWorkflows) :
    ∃ i : Nat, 1 ≤ i ∧ (i : Int) ≤ w.numWorkflows ∧ id.toNat = 1000 * i := by
  rw [w.remote_eq] at h
  obtain ⟨k, hk, rfl⟩ := List.mem_map.mp h
  have hk := List.mem_range.mp hk
  have hs := w.small
  exact ⟨k + 1, by omega, by omega, workflowId_toNat (by omega)⟩

end Padll

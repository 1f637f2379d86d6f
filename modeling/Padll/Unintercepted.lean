import Padll.DescriptorDecisions
import Padll.PosixFileSystem

/-! Calls that are not intercepted, because the enforcing backend is not loaded yet or because
their flag is off: over runs of all interposed functions, who serves them and what is left of
the enforcing backend. -/
namespace Padll
variable {opts : Options}

/-- What happens to the file system objects: an interposed call, or the end of loading. -/
inductive FileSystemAction where
  | call (call : InterposedCall)
  | setLoaded (value : Bool)

/-- One interposed call with the objects before and after it. -/
structure InterposedRecord (opts : Options) where
  call : InterposedCall
  before : PosixFileSystem opts
  returned : CValue
  after : World (PosixFileSystem opts)

namespace InterposedRecord

/-- The call was made before loading or with its flag off. -/
def Unintercepted (intercept : InterceptedCalls) (r : InterposedRecord opts) : Prop :=
  r.before.ldpLoaded = false ∨ r.call.flag intercept = false

/-- The call ran its passthrough method. -/
def ServedByPassthrough (r : InterposedRecord opts) : Prop :=
  ∃ p : PassthroughCall, p.call = r.call.method ∧
    PosixFileSystem.onPassthrough p.perform ⟨r.before, []⟩ = (r.returned, r.after)

def submissions (r : InterposedRecord opts) : List Submission :=
  r.after.events.filterMap Event.submission?

end InterposedRecord

namespace PosixFileSystem

def step (intercept : InterceptedCalls) :
    FileSystemAction → PosixFileSystem opts → List (InterposedRecord opts) × PosixFileSystem opts
  | .call c, fs =>
    let (returned, w) := c.perform intercept ⟨fs, []⟩
    ([⟨c, fs, returned, w⟩], w.object)
  | .setLoaded value, fs => ([], { fs with ldpLoaded := value })

def run (intercept : InterceptedCalls) (actions : List FileSystemAction)
    (fs : PosixFileSystem opts) : List (InterposedRecord opts) × PosixFileSystem opts :=
  OutputMachine.run (step intercept) actions fs

/-- Every call of a run is served by the passthrough backend and none submits a request; the
enforcing object is at the end what it was at the start. -/
def LeavesEnforcing (intercept : InterceptedCalls) (actions : List FileSystemAction)
    (fs : PosixFileSystem opts) : Prop :=
  (∀ r ∈ (run intercept actions fs).1, r.ServedByPassthrough ∧ r.submissions = []) ∧
    (run intercept actions fs).2.ldPreloadedPosix = fs.ldPreloadedPosix

/-- With its flag off, a duplication still re-keys the table of the enforcing object. -/
theorem fcntl_reaches_enforcing :
    ¬ ∀ (actions : List FileSystemAction) (fs : PosixFileSystem (Options.shipped .single)),
      (∀ r ∈ (run .shipped actions fs).1, r.Unintercepted .shipped) →
        LeavesEnforcing .shipped actions fs := by
  intro h
  obtain ⟨-, hobject⟩ := h [.call (.direct (.fcntl 3 LdPreloadedPosix.fDupfd 0 4) rfl)]
    { ldpLoaded := true, ldPreloadedPosix := openedSingle }
    (List.forall_mem_singleton.mpr (.inr rfl))
  have hmoved := congrArg (fun o : LdPreloadedPosix (Options.shipped .single) =>
    (o.mountPointTable.getMountPointEntryFd 3).isSome) hobject
  revert hmoved
  decide

section Dispatch
variable {R : Type}

/-- A wrapper leaves its call to the flag of a method and to the loading. -/
def Dispatches (intercept : InterceptedCalls) (wrapper : FileSystem opts CValue)
    (method : PosixCall) : Prop :=
  ∀ p : PassthroughCall, p.call = method →
    wrapper = serve (intercept method.profile.slot) method.perform p.perform

theorem dispatches_serve {intercept : InterceptedCalls} {method : PosixCall} {wrap : R → CValue}
    {enforcing : LdPreloaded opts R} {passing : Passthrough R}
    (henforcing : wrap <$> enforcing = method.perform)
    (hpassing : ∀ h, wrap <$> passing = PassthroughCall.perform ⟨method, h⟩) :
    Dispatches intercept (wrap <$> serve (intercept method.profile.slot) enforcing passing)
      method := by
  rintro ⟨call, implemented⟩ hcall
  obtain rfl : call = method := hcall
  rw [← henforcing, ← hpassing implemented]
  funext w
  rw [LdPreloadedPosix.map_apply, serve, serve]
  split <;> rfl

theorem Dispatches.ite {intercept : InterceptedCalls} {p : Prop} [Decidable p]
    {wrap : R → CValue} {variadic fixed : FileSystem opts R} {method method' : PosixCall}
    (hvariadic : Dispatches intercept (wrap <$> variadic) method)
    (hfixed : Dispatches intercept (wrap <$> fixed) method') :
    Dispatches intercept (wrap <$> if p then variadic else fixed)
      (if p then method else method') := by
  split
  · exact hvariadic
  · exact hfixed

/-- Every interposed function with a passthrough method dispatches. -/
theorem perform_dispatches (intercept : InterceptedCalls) (c : InterposedCall) :
    Dispatches intercept (c.perform intercept : FileSystem opts CValue) c.method := by
  cases c with
  | opening call fd =>
    cases call with
    | «open» | openat | open64 =>
      exact .ite (dispatches_serve rfl fun _ => rfl) (dispatches_serve rfl fun _ => rfl)
  | direct call fixed =>
    cases call with
    | openVariadic | «open» | openatVariadic | openat | open64Variadic | open64 => cases fixed
    | fcntl fd cmd arg resultValue =>
      intro p hp
      exact absurd (congrArg PosixCall.operation hp) p.implemented
    | _ => exact dispatches_serve rfl fun _ => rfl

end Dispatch

section Runs
variable {intercept : InterceptedCalls}

/-- The record of a call made on the objects. -/
def recordOf (intercept : InterceptedCalls) (c : InterposedCall) (fs : PosixFileSystem opts) :
    InterposedRecord opts :=
  ⟨c, fs, (c.perform intercept ⟨fs, []⟩).1, (c.perform intercept ⟨fs, []⟩).2⟩

theorem run_call_cons (c : InterposedCall) (actions : List FileSystemAction)
    (fs : PosixFileSystem opts) :
    run intercept (.call c :: actions) fs =
      (recordOf intercept c fs :: (run intercept actions (recordOf intercept c fs).after.object).1,
        (run intercept actions (recordOf intercept c fs).after.object).2) := rfl

theorem run_setLoaded_cons (value : Bool) (actions : List FileSystemAction)
    (fs : PosixFileSystem opts) :
    run intercept (.setLoaded value :: actions) fs =
      run intercept actions { fs with ldpLoaded := value } := rfl

/-- A call that is not intercepted runs its passthrough method, which submits nothing and
leaves the enforcing object alone. -/
theorem recordOf_unintercepted {c : InterposedCall} {fs : PosixFileSystem opts}
    (hfcntl : c.method.operation ≠ .special .fcntl)
    (h : (recordOf intercept c fs).Unintercepted intercept) :
    (recordOf intercept c fs).ServedByPassthrough ∧
      (recordOf intercept c fs).submissions = [] ∧
        (recordOf intercept c fs).after.object.ldPreloadedPosix = fs.ldPreloadedPosix := by
  have hoff : (intercept c.method.profile.slot && fs.ldpLoaded) = false := by
    rcases h with h | h
    · exact (congrArg _ h).trans (Bool.and_false _)
    · exact congrArg (· && fs.ldpLoaded) h
  have hserve : c.perform intercept ⟨fs, []⟩ =
      onPassthrough (PassthroughCall.perform ⟨c.method, hfcntl⟩) ⟨fs, []⟩ := by
    rw [perform_dispatches intercept c ⟨c.method, hfcntl⟩ rfl]
    exact if_neg (Bool.not_eq_true _ ▸ hoff)
  refine ⟨⟨⟨c.method, hfcntl⟩, rfl, hserve.symm⟩, ?_, ?_⟩
  · rw [InterposedRecord.submissions, recordOf, hserve, onPassthrough, PosixPassthrough.performs]
    rfl
  · rw [recordOf, hserve]
    rfl

/-- A run makes the calls among its actions, in order. -/
theorem run_calls (actions : List FileSystemAction) (fs : PosixFileSystem opts) :
    ∀ c, .call c ∈ actions → ∃ r ∈ (run intercept actions fs).1, r.call = c := by
  induction actions generalizing fs with
  | nil => exact fun c hc => nomatch hc
  | cons a actions ih =>
    intro c hc
    cases a with
    | call d =>
      rw [run_call_cons]
      rcases List.mem_cons.mp hc with hcd | hc
      · exact ⟨_, List.mem_cons_self, (FileSystemAction.call.inj hcd).symm⟩
      · obtain ⟨r, hr, hrc⟩ := ih (recordOf intercept d fs).after.object c hc
        exact ⟨r, List.mem_cons_of_mem _ hr, hrc⟩
    | setLoaded value =>
      rw [run_setLoaded_cons]
      rcases List.mem_cons.mp hc with hcd | hc
      · cases hcd
      · exact ih { fs with ldpLoaded := value } c hc

theorem run_leavesEnforcing {actions : List FileSystemAction} {fs : PosixFileSystem opts}
    (h : ∀ r ∈ (run intercept actions fs).1, r.Unintercepted intercept)
    (hfcntl : ∀ c, .call c ∈ actions → c.method.operation ≠ .special .fcntl) :
    LeavesEnforcing intercept actions fs := by
  induction actions generalizing fs with
  | nil => exact ⟨fun r hr => (nomatch hr), rfl⟩
  | cons a actions ih =>
    have hrest := fun c hc => hfcntl c (List.mem_cons_of_mem a hc)
    cases a with
    | setLoaded value => exact ih h hrest
    | call c =>
      rw [run_call_cons] at h
      obtain ⟨hserved, hsubmissions, hobject⟩ :=
        recordOf_unintercepted (hfcntl c List.mem_cons_self) (h _ List.mem_cons_self)
      obtain ⟨hrecords, hend⟩ := ih (fun r hr => h r (List.mem_cons_of_mem _ hr)) hrest
      rw [LeavesEnforcing, run_call_cons]
      refine ⟨fun r hr => ?_, hend.trans hobject⟩
      rcases List.mem_cons.mp hr with hr | hr
      · rw [hr]
        exact ⟨hserved, hsubmissions⟩
      · exact hrecords r hr

/-- A run in which no call is intercepted leaves the enforcing object alone exactly if `fcntl`
is not among its calls. -/
theorem leavesEnforcing_iff {actions : List FileSystemAction} {fs : PosixFileSystem opts}
    (h : ∀ r ∈ (run intercept actions fs).1, r.Unintercepted intercept) :
    LeavesEnforcing intercept actions fs ↔
      ∀ c, .call c ∈ actions → c.method.operation ≠ .special .fcntl := by
  constructor
  · rintro ⟨hrecords, -⟩ c hc
    obtain ⟨r, hr, hrc⟩ := run_calls actions fs c hc
    obtain ⟨⟨p, hp, -⟩, -⟩ := hrecords r hr
    rw [← hrc, ← hp]
    exact p.implemented
  · exact run_leavesEnforcing h

theorem leavesEnforcing_iff_loading :
    LeavesEnforcing .shipped
      [.call (.opening (.«open» "/tmp/x".toList 0 0) 3), .setLoaded true,
        .call (.direct (.socket 2 1 0 4) rfl)]
      (⟨{}, false, freshSingle⟩ : PosixFileSystem (Options.shipped .single)) := by
  refine (leavesEnforcing_iff fun r hr => ?_).mpr fun c hc => ?_
  · rcases List.mem_cons.mp hr with rfl | hr
    · exact .inl rfl
    · rcases List.mem_singleton.mp hr with rfl
      exact .inr rfl
  · rcases List.mem_cons.mp hc with hc | hc
    · rw [FileSystemAction.call.inj hc]
      decide
    · rcases List.mem_cons.mp hc with hc | hc
      · cases hc
      · rw [FileSystemAction.call.inj (List.mem_singleton.mp hc)]
        decide

end Runs

end PosixFileSystem

end Padll

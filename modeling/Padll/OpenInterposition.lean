import Padll.PosixFileSystem

/-! Interposition of the open functions: over every configuration and state the program gets
the one libc call it asked for, but for a mode that libc would read and the wrapper drops. -/
namespace Padll
variable {opts : Options}

namespace PosixFileSystem

/-- A method that makes one call of libc and answers what libc answers. -/
def CallsOnce (method : FileSystem opts Int32) (call : LibcCall) (libc : LibcCall → Int32) :
    Prop :=
  ∀ w, (method w).1 = libc call ∧
    ∃ new, (method w).2.events = w.events ++ new ∧ new.filterMap Event.libcCall? = [call]

theorem onPassthrough_callsOnce {c : PassthroughCall} {method : Passthrough Int32}
    {libc : LibcCall → Int32} (hmethod : c.perform = .int <$> method)
    (hresult : c.call.result = .int (libc c.call.libcCall)) :
    CallsOnce (onPassthrough method : FileSystem opts Int32) c.call.libcCall libc := by
  intro w
  have h := PosixPassthrough.performs c w.object.posixPassthrough w.events
  rw [hmethod, hresult, LdPreloadedPosix.map_apply] at h
  obtain ⟨hreturned, hworld⟩ := Prod.mk.inj h
  exact ⟨CValue.int.inj hreturned, [.libc c.call.libcCall], congrArg World.events hworld, rfl⟩

theorem onLdPreloaded_callsOnce {c : PosixCall} {method : LdPreloaded opts Int32}
    {libc : LibcCall → Int32} (hmethod : c.perform = .int <$> method)
    (hresult : c.profile.returned = .int (libc c.libcCall)) :
    CallsOnce (onLdPreloaded method) c.libcCall libc := by
  intro w
  have h := c.performs w.object.ldPreloadedPosix w.events
  rw [hmethod, hresult, LdPreloadedPosix.map_apply] at h
  obtain ⟨hreturned, hworld⟩ := Prod.mk.inj h
  refine ⟨CValue.int.inj hreturned, _, congrArg World.events hworld, ?_⟩
  have hsubmit : (c.profile.submit w.object.ldPreloadedPosix.mountPointTable).1.filterMap
      Event.libcCall? = [] := by
    unfold Profile.submit
    cases c.profile.control with
    | unsubmitted enforced => rfl
    | submitted selection operationType operationContext payload =>
      simp only
      split <;> rfl
  rw [Profile.run]
  simp only [List.filterMap_append, hsubmit]
  rfl

theorem serve_callsOnce {enforcing : LdPreloaded opts Int32} {passing : Passthrough Int32}
    {call : LibcCall} {libc : LibcCall → Int32} (intercepted : Bool)
    (henforcing : CallsOnce (onLdPreloaded enforcing) call libc)
    (hpassing : CallsOnce (onPassthrough passing : FileSystem opts Int32) call libc) :
    CallsOnce (serve intercepted enforcing passing) call libc := by
  intro w
  unfold serve
  split
  · exact henforcing w
  · exact hpassing w

theorem callsOnce_ite {p : Prop} [Decidable p] {variadic fixed : FileSystem opts Int32}
    {call call' : LibcCall} {libc : LibcCall → Int32} (hvariadic : CallsOnce variadic call libc)
    (hfixed : CallsOnce fixed call' libc) :
    CallsOnce (if p then variadic else fixed) (if p then call else call') libc := by
  by_cases h : p
  · rw [if_pos h, if_pos h]
    exact hvariadic
  · rw [if_neg h, if_neg h]
    exact hfixed

end PosixFileSystem

namespace InterposedOpen
open PosixFileSystem

/-- The call of libc that a wrapper makes. -/
def issued (c : InterposedOpen) : LibcCall :=
  if c.flags &&& oCreat ≠ 0 then ⟨c.function, c.fixedArgs ++ [.uint c.mode]⟩
  else ⟨c.function, c.fixedArgs⟩

/-- Every wrapper makes one call of libc, whichever backend serves it. -/
theorem perform_callsOnce (intercept : InterceptedCalls) (libc : LibcCall → Int32)
    (c : InterposedOpen) :
    CallsOnce (c.perform intercept libc : FileSystem opts Int32) c.issued libc := by
  cases c with
  | «open» path flags mode =>
    exact callsOnce_ite
      (serve_callsOnce _
        (onLdPreloaded_callsOnce (c := .openVariadic path flags mode (libc _)) rfl rfl)
        (onPassthrough_callsOnce (c := ⟨.openVariadic path flags mode (libc _), nofun⟩) rfl rfl))
      (serve_callsOnce _
        (onLdPreloaded_callsOnce (c := .«open» path flags (libc _)) rfl rfl)
        (onPassthrough_callsOnce (c := ⟨.«open» path flags (libc _), nofun⟩) rfl rfl))
  | openat dirfd path flags mode =>
    exact callsOnce_ite
      (serve_callsOnce _
        (onLdPreloaded_callsOnce (c := .openatVariadic dirfd path flags mode (libc _)) rfl rfl)
        (onPassthrough_callsOnce
          (c := ⟨.openatVariadic dirfd path flags mode (libc _), nofun⟩) rfl rfl))
      (serve_callsOnce _
        (onLdPreloaded_callsOnce (c := .openat dirfd path flags (libc _)) rfl rfl)
        (onPassthrough_callsOnce (c := ⟨.openat dirfd path flags (libc _), nofun⟩) rfl rfl))
  | open64 path flags mode =>
    exact callsOnce_ite
      (serve_callsOnce _
        (onLdPreloaded_callsOnce (c := .open64Variadic path flags mode (libc _)) rfl rfl)
        (onPassthrough_callsOnce (c := ⟨.open64Variadic path flags mode (libc _), nofun⟩) rfl rfl))
      (serve_callsOnce _
        (onLdPreloaded_callsOnce (c := .open64 path flags (libc _)) rfl rfl)
        (onPassthrough_callsOnce (c := ⟨.open64 path flags (libc _), nofun⟩) rfl rfl))

/-- Whether libc's own open reads a mode behind these flags. -/
def readsMode (flags : Int32) : Prop := flags &&& oCreat ≠ 0 ∨ flags &&& oTmpfile = oTmpfile

instance (flags : Int32) : Decidable (readsMode flags) := instDecidableOr

/-- A wrapper is transparent in a state: it makes one call of libc, of its own name, with the
caller's arguments and the mode whenever libc reads one, and answers what libc answers. -/
def Transparent (intercept : InterceptedCalls) (libc : LibcCall → Int32) (c : InterposedOpen)
    (w : World (PosixFileSystem opts)) : Prop :=
  ∃ new call, (c.perform intercept libc w).2.events = w.events ++ new ∧
    new.filterMap Event.libcCall? = [call] ∧ call.function = c.function ∧
    (call.args = c.fixedArgs ∨ call.args = c.fixedArgs ++ [.uint c.mode]) ∧
    (readsMode c.flags → call.args = c.fixedArgs ++ [.uint c.mode]) ∧
    (c.perform intercept libc w).1 = libc call

/-- A transparent wrapper issues the mode that libc reads. -/
theorem Transparent.issued_args {intercept : InterceptedCalls} {libc : LibcCall → Int32}
    {c : InterposedOpen} {w : World (PosixFileSystem opts)} (h : Transparent intercept libc c w)
    (hmode : readsMode c.flags) : c.issued.args = c.fixedArgs ++ [.uint c.mode] := by
  obtain ⟨new', call, hevents', hnew', -, -, hargs, -⟩ := h
  obtain ⟨-, new, hevents, hnew⟩ := perform_callsOnce intercept libc c w
  obtain rfl : new' = new := List.append_cancel_left (hevents'.symm.trans hevents)
  obtain rfl := List.singleton_inj.mp (hnew'.symm.trans hnew)
  exact hargs hmode

/-- A temporary file opened without `O_CREAT` loses its mode. -/
theorem tmpfile_drops_mode :
    ¬ Transparent .shipped (fun _ => 3) (.«open» "/tmp".toList (oTmpfile ||| 2) 0o600)
      (⟨⟨{}, true, freshSingle⟩, []⟩ : World (PosixFileSystem (.shipped .single))) := by
  intro h
  have hargs := h.issued_args (by decide)
  exact absurd hargs (by decide)

/-- Transparent exactly on the flags with `O_CREAT` and those short of `O_TMPFILE`. -/
theorem transparent_iff (intercept : InterceptedCalls) (libc : LibcCall → Int32)
    (c : InterposedOpen) (w : World (PosixFileSystem opts)) :
    Transparent intercept libc c w ↔ c.flags &&& oCreat ≠ 0 ∨ c.flags &&& oTmpfile ≠ oTmpfile := by
  obtain ⟨hresult, new, hevents, hnew⟩ := perform_callsOnce intercept libc c w
  by_cases hcreat : c.flags &&& oCreat ≠ 0
  · rw [show c.issued = ⟨c.function, c.fixedArgs ++ [.uint c.mode]⟩ from if_pos hcreat]
      at hresult hnew
    exact iff_of_true ⟨new, _, hevents, hnew, rfl, .inr rfl, fun _ => rfl, hresult⟩ (.inl hcreat)
  · have hissued : c.issued = ⟨c.function, c.fixedArgs⟩ := if_neg hcreat
    rw [hissued] at hresult hnew
    constructor
    · intro h
      refine .inr fun htmpfile => ?_
      have hlength := congrArg List.length (h.issued_args (.inr htmpfile))
      rw [hissued] at hlength
      simp at hlength
    · rintro (h | htmpfile)
      · exact absurd h hcreat
      · refine ⟨new, _, hevents, hnew, rfl, .inl rfl, ?_, hresult⟩
        rintro (h | h)
        · exact absurd h hcreat
        · exact absurd h htmpfile

end InterposedOpen

end Padll

import Padll.Library.ThreadCalls

/-! Components of a system of threads. Within a component a thread stands as in a system of the
component alone, and it comes in with calls of its own; a run of the whole is then, to the
component, a run on the calls that were brought to it. -/
namespace ThreadCalls
open Interleaving
variable {Tid C D P Q σ τ : Type*}

/-- What a thread with calls left and a phase does next, `none` if it has nothing to do. -/
def Phases.advance (phases : Phases Tid D Q τ) (t : Tid) :
    List D × Option Q → τ → Option ((List D × Option Q) × τ)
  | (rest, some q), x => some ((rest, (phases.resume t q x).1), (phases.resume t q x).2)
  | (d :: rest, none), x => some ((rest, some (phases.start t d x).1), (phases.start t d x).2)
  | ([], none), _ => none

namespace System

/-- The system with further calls behind those that the threads have left. -/
def extend (s : System Tid C P σ) (later : Tid → List C) : System Tid C P σ :=
  { s with rest := fun t => s.rest t ++ later t }

variable [DecidableEq Tid]

theorem next_of_advance {phases : Phases Tid D Q τ} {s : System Tid D Q τ} {t : Tid}
    {stand : List D × Option Q} {shared : τ}
    (h : phases.advance t (s.rest t, s.phase t) s.shared = some (stand, shared)) :
    s.next phases t =
      some ⟨shared, Function.update s.rest t stand.1, Function.update s.phase t stand.2⟩ := by
  cases hphase : s.phase t with
  | some q =>
    simp only [hphase, Phases.advance, Option.some.injEq, Prod.mk.injEq] at h
    obtain ⟨rfl, rfl⟩ := h
    simp only [next, hphase, Function.update_eq_self]
  | none =>
    cases hrest : s.rest t with
    | nil => simp [hphase, hrest, Phases.advance] at h
    | cons d rest =>
      simp only [hphase, hrest, Phases.advance, Option.some.injEq, Prod.mk.injEq] at h
      obtain ⟨rfl, rfl⟩ := h
      simp only [next, hphase, hrest]

/-- Calls that come later do not change what a thread does now. -/
theorem next_extend {phases : Phases Tid C P σ} {s s' : System Tid C P σ} {t : Tid}
    (later : Tid → List C) (taken : s.next phases t = some s') :
    (s.extend later).next phases t = some (s'.extend later) := by
  have hupdate : ∀ rest, (fun u => Function.update s.rest t rest u ++ later u) =
      Function.update (fun u => s.rest u ++ later u) t (rest ++ later t) := by
    intro rest
    funext u
    rcases eq_or_ne u t with rfl | hu
    · rw [Function.update_self, Function.update_self]
    · rw [Function.update_of_ne hu, Function.update_of_ne hu]
  cases step_of_next taken with
  | @start c rest idle waiting =>
    have hwaiting : (s.extend later).rest t = c :: (rest ++ later t) :=
      congrArg (· ++ later t) waiting
    have hidle : (s.extend later).phase t = none := idle
    refine (next_of_advance (by rw [hwaiting, hidle]; rfl)).trans ?_
    simp only [extend, hupdate]
  | @resume p running =>
    have hrunning : (s.extend later).phase t = some p := running
    refine (next_of_advance (by rw [hrunning]; rfl)).trans ?_
    rw [Function.update_eq_self]
    rfl

theorem reaches_extend {phases : Phases Tid C P σ} {ok : System Tid C P σ → Tid → Prop}
    {s s' : System Tid C P σ} (later : Tid → List C) (h : Reaches (next phases) ok s s') :
    Reaches (next phases) (fun _ _ => True) (s.extend later) (s'.extend later) := by
  induction h with
  | refl => exact .refl
  | step _ _ taken ih => exact .step ih trivial (next_extend later taken)

/-- A part of the state that the threads come to with calls of their own, and where each phase of
the whole stands in the part: a phase of the whole leaves it alone or is a phase of the part. -/
structure Component (whole : Phases Tid C P σ) (part : Phases Tid D Q τ) where
  view : σ → τ
  calls : σ → Tid → List D
  stand : P → List D × Option Q
  start_view : ∀ t c x, view (whole.start t c x).2 = view x
  start_phase : ∀ t c x, (stand (whole.start t c x).1).2 = none
  start_calls : ∀ t c x u, calls (whole.start t c x).2 u =
    calls x u ++ if u = t then (stand (whole.start t c x).1).1 else []
  resume_calls : ∀ t p x, calls (whole.resume t p x).2 = calls x
  resume : ∀ t p x, let after := (whole.resume t p x).1.elim ([], none) stand
    after = stand p ∧ view (whole.resume t p x).2 = view x ∨
      part.advance t (stand p) (view x) = some (after, view (whole.resume t p x).2)

namespace Component
variable {whole : Phases Tid C P σ} {part : Phases Tid D Q τ}

omit [DecidableEq Tid] in
def standOf (stand : P → List D × Option Q) (p : Option P) : List D × Option Q :=
  p.elim ([], none) stand

/-- What the whole looks like from the component. -/
def project (k : Component whole part) (s : System Tid C P σ) : System Tid D Q τ where
  shared := k.view s.shared
  rest t := (standOf k.stand (s.phase t)).1
  phase t := (standOf k.stand (s.phase t)).2

theorem project_update (k : Component whole part) (s : System Tid C P σ) (t : Tid) (x : σ)
    (rest : Tid → List C) (p : Option P) :
    k.project ⟨x, rest, Function.update s.phase t p⟩ =
      ⟨k.view x, Function.update (k.project s).rest t (standOf k.stand p).1,
        Function.update (k.project s).phase t (standOf k.stand p).2⟩ := by
  simp only [project, System.mk.injEq, true_and]
  constructor
  · funext u
    rcases eq_or_ne u t with rfl | hu
    · simp only [Function.update_self]
    · simp only [Function.update_of_ne hu]
  · funext u
    rcases eq_or_ne u t with rfl | hu
    · simp only [Function.update_self]
    · simp only [Function.update_of_ne hu]

theorem project_finished (k : Component whole part) {s : System Tid C P σ} (h : s.Finished) :
    (k.project s).Finished := by
  intro t
  simp only [project, (h t).2]
  exact ⟨rfl, rfl⟩

/-- A run of the whole is to a component a run on the calls that were brought to it. -/
theorem reaches_project (k : Component whole part) {ok : System Tid C P σ → Tid → Prop} {x : σ}
    {calls : Tid → List C} {s : System Tid C P σ}
    (hrun : Reaches (next whole) ok (start x calls) s) (hfresh : ∀ t, k.calls x t = []) :
    Reaches (next part) (fun _ _ => True) (start (k.view x) (k.calls s.shared)) (k.project s) := by
  refine hrun.invariant (I := fun s => Reaches (next part) (fun _ _ => True)
    (start (k.view x) (k.calls s.shared)) (k.project s)) ?_ ?_
  · intro s t s' hs _ taken
    cases step_of_next taken with
    | @start c rest idle waiting =>
      -- the call waits before the component, if it is for it
      let stand := k.stand (whole.start t c s.shared).1
      let later : Tid → List D := fun u => if u = t then stand.1 else []
      have hcalls : k.calls (whole.start t c s.shared).2 =
          fun u => k.calls s.shared u ++ later u := funext fun u => k.start_calls t c s.shared u
      have hproject : k.project ⟨(whole.start t c s.shared).2, Function.update s.rest t rest,
          Function.update s.phase t (some (whole.start t c s.shared).1)⟩ =
          (k.project s).extend later := by
        have hrest : (k.project s).rest t = [] := by simp only [project, idle]; rfl
        have hphase : (k.project s).phase t = none := by simp only [project, idle]; rfl
        have houtside : (standOf k.stand (some (whole.start t c s.shared).1)).2 = none :=
          k.start_phase t c s.shared
        rw [project_update, k.start_view, houtside, ← hphase, Function.update_eq_self]
        simp only [extend, System.mk.injEq, and_true]
        refine ⟨rfl, ?_⟩
        funext u
        rcases eq_or_ne u t with rfl | hu
        · simp only [Function.update_self, hrest, later, if_pos, List.nil_append]
          rfl
        · simp only [Function.update_of_ne hu, later, if_neg hu, List.append_nil]
      simp only [hcalls, hproject]
      exact reaches_extend later hs
    | @resume p running =>
      have hstand : ((k.project s).rest t, (k.project s).phase t) = k.stand p := by
        simp only [project, standOf, running, Option.elim_some]
      simp only [k.resume_calls, project_update]
      obtain ⟨hsame, hview⟩ | hadvance := k.resume t p s.shared
      · have hkept : standOf k.stand (whole.resume t p s.shared).1 = k.stand p := hsame
        rw [hkept, hview, ← hstand, Function.update_eq_self, Function.update_eq_self]
        exact hs
      · exact .step hs trivial (next_of_advance (by rw [hstand]; exact hadvance))
  · change Reaches _ _ (start (k.view x) (k.calls x)) _
    rw [show k.calls x = fun _ => [] from funext hfresh]
    exact .refl

end Component

end System
end ThreadCalls

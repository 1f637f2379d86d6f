import Mathlib.Logic.Function.Basic

/-! Systems in which an action, if it is enabled, determines the next state: runs as lists of
actions, the states that steps of a kind reach, and invariants along them. -/
namespace Interleaving
variable {α σ : Type*} {next : σ → α → Option σ}

/-- The state after a list of actions, if each is enabled in turn. -/
def exec (next : σ → α → Option σ) : σ → List α → Option σ
  | s, [] => some s
  | s, a :: as => (next s a).bind fun s' => exec next s' as

/-- Every step along a list of actions meets a condition on the state before it. -/
def Along (next : σ → α → Option σ) (ok : σ → α → Prop) : σ → List α → Prop
  | _, [] => True
  | s, a :: as => ok s a ∧ ∀ s' ∈ next s a, Along next ok s' as

instance instDecidableAlong {ok : σ → α → Prop} [∀ s a, Decidable (ok s a)] :
    (s : σ) → (as : List α) → Decidable (Along next ok s as)
  | _, [] => .isTrue trivial
  | s, a :: as =>
    have : ∀ s', Decidable (Along next ok s' as) := fun s' => instDecidableAlong s' as
    inferInstanceAs (Decidable (ok s a ∧ ∀ s' ∈ next s a, Along next ok s' as))

/-- The states that steps meeting a condition on the state before lead to. -/
inductive Reaches (next : σ → α → Option σ) (ok : σ → α → Prop) (s : σ) : σ → Prop where
  | refl : Reaches next ok s s
  | step {m s' : σ} {a : α} (reached : Reaches next ok s m) (condition : ok m a)
    (taken : next m a = some s') : Reaches next ok s s'

theorem Reaches.trans {ok : σ → α → Prop} {s m s' : σ} (h : Reaches next ok s m)
    (h' : Reaches next ok m s') : Reaches next ok s s' := by
  induction h' with
  | refl => exact h
  | step _ condition taken ih => exact .step ih condition taken

theorem Reaches.imp {ok ok' : σ → α → Prop} (himp : ∀ s a, ok s a → ok' s a) {s s' : σ}
    (h : Reaches next ok s s') : Reaches next ok' s s' := by
  induction h with
  | refl => exact .refl
  | step _ condition taken ih => exact .step ih (himp _ _ condition) taken

/-- What every step of the kind preserves holds wherever such steps lead. -/
theorem Reaches.invariant {ok : σ → α → Prop} {I : σ → Prop}
    (hstep : ∀ s a s', I s → ok s a → next s a = some s' → I s') {s s' : σ} (hs : I s)
    (h : Reaches next ok s s') : I s' := by
  induction h with
  | refl => exact hs
  | step _ condition taken ih => exact hstep _ _ _ ih condition taken

/-- An invariant may be kept for reasons that hold of reached states only. -/
theorem Reaches.invariant_reached {ok : σ → α → Prop} {I : σ → Prop} {s s' : σ}
    (hstep : ∀ m a m', Reaches next ok s m → I m → ok m a → next m a = some m' → I m') (hs : I s)
    (h : Reaches next ok s s') : I s' := by
  induction h with
  | refl => exact hs
  | step reached condition taken ih => exact hstep _ _ _ reached ih condition taken

theorem exec_cons (s : σ) (a : α) (as : List α) :
    exec next s (a :: as) = (next s a).bind fun s' => exec next s' as := rfl

theorem exec_append (s : σ) (as bs : List α) :
    exec next s (as ++ bs) = (exec next s as).bind fun m => exec next m bs := by
  induction as generalizing s with
  | nil => rfl
  | cons a as ih =>
    rw [List.cons_append, exec_cons, exec_cons]
    cases next s a with
    | none => rfl
    | some m => exact ih m

/-- An executed list of actions that meet the condition anywhere reaches its last state. -/
theorem Reaches.of_exec {ok : σ → α → Prop} {s s' : σ} {as : List α}
    (hok : ∀ a ∈ as, ∀ m, ok m a) (h : exec next s as = some s') : Reaches next ok s s' := by
  induction as generalizing s with
  | nil =>
    obtain rfl := Option.some.inj h
    exact .refl
  | cons a as ih =>
    obtain ⟨m, hm, hrest⟩ := Option.bind_eq_some_iff.mp h
    have hfirst : Reaches next ok s m := .step .refl (hok a List.mem_cons_self s) hm
    exact hfirst.trans (ih (fun b hb => hok b (List.mem_cons_of_mem a hb)) hrest)

theorem along_cons {ok : σ → α → Prop} {s m : σ} {a : α} (hm : next s a = some m)
    (as : List α) : Along next ok s (a :: as) ↔ ok s a ∧ Along next ok m as := by
  rw [Along, hm]
  simp only [Option.mem_some_iff, forall_eq']

theorem along_append {ok : σ → α → Prop} {s m : σ} {as : List α} (hm : exec next s as = some m)
    (bs : List α) : Along next ok s (as ++ bs) ↔ Along next ok s as ∧ Along next ok m bs := by
  induction as generalizing s with
  | nil =>
    obtain rfl := Option.some.inj hm
    exact (and_iff_right trivial).symm
  | cons a as ih =>
    obtain ⟨s', hs', hrest⟩ := Option.bind_eq_some_iff.mp hm
    rw [List.cons_append, along_cons hs', along_cons hs', ih hrest, and_assoc]

/-- An executed list of actions whose steps all meet the condition reaches its last state. -/
theorem Reaches.of_along {ok : σ → α → Prop} {s s' : σ} {as : List α} (hok : Along next ok s as)
    (h : exec next s as = some s') : Reaches next ok s s' := by
  induction as generalizing s with
  | nil =>
    obtain rfl := Option.some.inj h
    exact .refl
  | cons a as ih =>
    obtain ⟨m, hm, hrest⟩ := Option.bind_eq_some_iff.mp h
    obtain ⟨hfirst, hlater⟩ := (along_cons hm as).mp hok
    have hstep : Reaches next ok s m := .step .refl hfirst hm
    exact hstep.trans (ih hlater hrest)

/-- If a step leads to a good state exactly from a good state and when it meets a condition,
then a run ends in one exactly if it starts in one and all its steps meet the condition. -/
theorem exec_good_iff {I good : σ → Prop} {assumed ok : σ → α → Prop}
    (hI : ∀ s a s', I s → assumed s a → next s a = some s' → I s')
    (hgood : ∀ s a s', I s → assumed s a → next s a = some s' → (good s' ↔ good s ∧ ok s a))
    {s s' : σ} {as : List α} (hs : I s) (hrun : exec next s as = some s')
    (hassumed : Along next assumed s as) : good s' ↔ good s ∧ Along next ok s as := by
  induction as generalizing s with
  | nil =>
    obtain rfl := Option.some.inj hrun
    exact (and_iff_left trivial).symm
  | cons a as ih =>
    obtain ⟨m, hm, hrest⟩ := Option.bind_eq_some_iff.mp hrun
    obtain ⟨hfirst, hlater⟩ := (along_cons hm as).mp hassumed
    rw [ih (hI s a m hs hfirst hm) hrest hlater, hgood s a m hs hfirst hm, along_cons hm, and_assoc]

end Interleaving

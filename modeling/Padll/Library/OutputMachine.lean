import Mathlib.Algebra.BigOperators.Group.List.Basic
import Mathlib.Data.List.Nodup

/-! Deterministic machines that consume inputs and emit finitely many outputs a step:
runs, invariants, tallies over the outputs, and lockstep simulation of two runs. -/
namespace OutputMachine
variable {α σ ρ : Type*}

/-- The outputs of a run in order, and the state it ends in. -/
def run (step : α → σ → List ρ × σ) : List α → σ → List ρ × σ
  | [], s => ([], s)
  | a :: as, s =>
    ((step a s).1 ++ (run step as (step a s).2).1, (run step as (step a s).2).2)

variable {step : α → σ → List ρ × σ}

@[simp] theorem run_nil (s : σ) : run step [] s = ([], s) := rfl

theorem run_cons (a : α) (as : List α) (s : σ) :
    run step (a :: as) s =
      ((step a s).1 ++ (run step as (step a s).2).1, (run step as (step a s).2).2) := rfl

theorem run_append (as bs : List α) (s : σ) :
    run step (as ++ bs) s =
      ((run step as s).1 ++ (run step bs (run step as s).2).1,
        (run step bs (run step as s).2).2) := by
  induction as generalizing s with
  | nil => rfl
  | cons a as ih => simp only [List.cons_append, run_cons, ih, List.append_assoc]

/-- What every step of the listed inputs preserves, the run preserves. -/
theorem run_invariant_of_mem {I : σ → Prop} {as : List α}
    (hstep : ∀ a ∈ as, ∀ s, I s → I (step a s).2) {s : σ} (hs : I s) : I (run step as s).2 := by
  induction as generalizing s with
  | nil => exact hs
  | cons a as ih =>
    exact ih (fun b hb => hstep b (List.mem_cons_of_mem a hb)) (hstep a List.mem_cons_self s hs)

theorem run_invariant {I : σ → Prop} (hstep : ∀ a s, I s → I (step a s).2)
    (as : List α) {s : σ} (hs : I s) : I (run step as s).2 :=
  run_invariant_of_mem (fun a _ => hstep a) hs

/-- A property of the outputs of the listed inputs holds of every output of a run. -/
theorem run_outputs_of_mem {I : σ → Prop} {P : ρ → Prop} {as : List α}
    (hI : ∀ a ∈ as, ∀ s, I s → I (step a s).2)
    (hP : ∀ a ∈ as, ∀ s, I s → ∀ r ∈ (step a s).1, P r) {s : σ} (hs : I s) :
    ∀ r ∈ (run step as s).1, P r := by
  induction as generalizing s with
  | nil => simp
  | cons a as ih =>
    intro r hr
    rcases List.mem_append.mp hr with hr | hr
    · exact hP a List.mem_cons_self s hs r hr
    · exact ih (fun b hb => hI b (List.mem_cons_of_mem a hb))
        (fun b hb => hP b (List.mem_cons_of_mem a hb)) (hI a List.mem_cons_self s hs) r hr

theorem run_outputs {I : σ → Prop} {P : ρ → Prop} (hI : ∀ a s, I s → I (step a s).2)
    (hP : ∀ a s, I s → ∀ r ∈ (step a s).1, P r) (as : List α) {s : σ} (hs : I s) :
    ∀ r ∈ (run step as s).1, P r :=
  run_outputs_of_mem (fun a _ => hI a) (fun a _ => hP a) hs

/-- A measure that each step increases by the weight of its outputs has grown, after a
run, by the weight of all of them. -/
theorem run_tally {M : Type*} [AddCommMonoid M] {I : σ → Prop} (measure : σ → M) (weight : ρ → M)
    (hI : ∀ a s, I s → I (step a s).2)
    (hstep : ∀ a s, I s → measure (step a s).2 = measure s + ((step a s).1.map weight).sum)
    (as : List α) {s : σ} (hs : I s) :
    measure (run step as s).2 = measure s + ((run step as s).1.map weight).sum := by
  induction as generalizing s with
  | nil => simp
  | cons a as ih =>
    simp only [run_cons, List.map_append, List.sum_append]
    rw [ih (hI a s hs), hstep a s hs, add_assoc]

/-- Two machines in lockstep: related states emit related outputs and stay related. -/
theorem run_lockstep {τ ρ' : Type*} {step' : α → τ → List ρ' × τ} {R : σ → τ → Prop}
    {Q : ρ → ρ' → Prop}
    (hstep : ∀ a s t, R s t → List.Forall₂ Q (step a s).1 (step' a t).1 ∧
      R (step a s).2 (step' a t).2)
    (as : List α) {s : σ} {t : τ} (h : R s t) :
    List.Forall₂ Q (run step as s).1 (run step' as t).1 ∧ R (run step as s).2 (run step' as t).2 := by
  induction as generalizing s t with
  | nil => exact ⟨.nil, h⟩
  | cons a as ih =>
    obtain ⟨hout, hnext⟩ := hstep a s t h
    obtain ⟨houts, hend⟩ := ih hnext
    exact ⟨List.rel_append hout houts, hend⟩

/-- A component runs on its share of the outputs: if each step moves it as its own machine moves
on what the step hands it, a run of the whole shows it a run of its own. -/
theorem run_component {τ β ρ' : Type*} {step' : β → τ → List ρ' × τ} {view : σ → τ}
    {input : ρ → Option β} {output : ρ → Option ρ'}
    (hstep : ∀ a s, run step' ((step a s).1.filterMap input) (view s) =
      ((step a s).1.filterMap output, view (step a s).2))
    (as : List α) (s : σ) :
    run step' ((run step as s).1.filterMap input) (view s) =
      ((run step as s).1.filterMap output, view (run step as s).2) := by
  induction as generalizing s with
  | nil => rfl
  | cons a as ih => rw [run_cons, List.filterMap_append, run_append, hstep, ih, List.filterMap_append]

/-- Weights that vanish off a condition sum over the outputs that meet it. -/
theorem sum_map_filter {M : Type*} [AddCommMonoid M] (p : ρ → Bool) (f : ρ → M) (l : List ρ) :
    (l.map fun r => if p r then f r else 0).sum = ((l.filter p).map f).sum := by
  induction l with
  | nil => rfl
  | cons r l ih =>
    cases h : p r with
    | true => simp [h, ih]
    | false => simp [h, ih]

/-- Weights that mark outputs count them. -/
theorem sum_map_indicator {M : Type*} [AddCommMonoid M] (p : ρ → Bool) (x : M) (l : List ρ) :
    (l.map fun r => if p r then x else 0).sum = l.countP p • x := by
  rw [sum_map_filter, List.map_const', List.sum_replicate, List.countP_eq_length_filter]

/-- Weights of outputs that each fall under one key at most are summed key by key. -/
theorem sum_map_keys {M κ : Type*} [AddCommMonoid M] [DecidableEq κ] {keys : List κ}
    (hnodup : keys.Nodup) {p : κ → ρ → Bool} (hone : ∀ r k k', p k r → p k' r → k = k')
    (f : ρ → M) (l : List ρ) :
    (keys.map fun k => ((l.filter (p k)).map f).sum).sum =
      ((l.filter fun r => keys.any (p · r)).map f).sum := by
  have howned : ∀ r, (keys.map fun k => if p k r then f r else 0).sum =
      if keys.any (p · r) then f r else 0 := by
    intro r
    rw [sum_map_indicator]
    split
    · next hany =>
      obtain ⟨k, hk, hkr⟩ := List.any_eq_true.mp hany
      have honce : keys.countP (p · r) = 1 := by
        rw [← List.nodup_iff_count_eq_one.mp hnodup k hk, List.count]
        refine List.countP_congr fun k' _ => ?_
        rw [beq_iff_eq]
        exact ⟨fun hk' => hone r k' k hk' hkr, fun heq => heq ▸ hkr⟩
      rw [honce, one_nsmul]
    · next hany =>
      have hnever : keys.countP (p · r) = 0 :=
        List.countP_eq_zero.mpr fun k hk hkr => hany (List.any_eq_true.mpr ⟨k, hk, hkr⟩)
      rw [hnever, zero_nsmul]
  induction l with
  | nil => simp
  | cons r l ih =>
    simp only [← sum_map_filter, List.map_cons, List.sum_cons, List.sum_map_add] at ih ⊢
    rw [ih, howned]

/-- Outputs that each fall under one key at most are counted key by key. -/
theorem sum_map_countP {M κ : Type*} [AddCommMonoid M] [DecidableEq κ] {keys : List κ}
    (hnodup : keys.Nodup) (hall : ∀ k, k ∈ keys) (key : ρ → Option κ) (x : M) (l : List ρ) :
    (keys.map fun k => l.countP (fun r => decide (key r = some k)) • x).sum =
      l.countP (fun r => (key r).isSome) • x := by
  have hconst : ∀ q : ρ → Bool, ((l.filter q).map fun _ => x).sum = l.countP q • x := by
    intro q
    rw [List.map_const', List.sum_replicate, List.countP_eq_length_filter]
  have hone : ∀ r k k', decide (key r = some k) → decide (key r = some k') → k = k' := by
    intro r k k' hk hk'
    exact Option.some.inj ((of_decide_eq_true hk).symm.trans (of_decide_eq_true hk'))
  have hkeys := sum_map_keys hnodup (p := fun k r => decide (key r = some k)) hone (fun _ => x) l
  simp only [hconst] at hkeys
  rw [hkeys]
  congr 1
  refine List.countP_congr fun r _ => ?_
  rw [List.any_eq_true, Option.isSome_iff_exists]
  simp only [decide_eq_true_eq, hall, true_and]

/-- Among the items of a kind, marks that split into two, item by item, split in number. -/
theorem countP_and_eq_add {kind p q r : α → Bool}
    (h : ∀ a, kind a = true → (p a).toNat = (q a).toNat + (r a).toNat) (l : List α) :
    l.countP (fun a => kind a && p a) =
      l.countP (fun a => kind a && q a) + l.countP fun a => kind a && r a := by
  induction l with
  | nil => rfl
  | cons a l ih =>
    have hone : ∀ b : Bool, (if b = true then 1 else 0) = b.toNat := by decide
    simp only [List.countP_cons, hone, ih]
    cases hk : kind a with
    | false => simp
    | true =>
      have ha := h a hk
      simp only [Bool.true_and]
      omega

end OutputMachine

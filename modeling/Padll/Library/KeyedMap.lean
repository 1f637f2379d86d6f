import Mathlib.Logic.Function.Basic

/-! Containers with unique keys and node handles: conditional insertion, overwriting,
erasure, and moving a node to another key by extraction and re-insertion. -/
namespace KeyedMap

/-- A container is observed through its lookup alone; iteration order is not part of it. -/
@[ext] structure Map (κ α : Type*) where
  find : κ → Option α

variable {κ α : Type*}

def empty : Map κ α := ⟨fun _ => none⟩

@[simp] theorem find_empty (k : κ) : (empty : Map κ α).find k = none := rfl

variable [DecidableEq κ]

/-- Overwrite the value under a key, present or not. -/
def assign (m : Map κ α) (k : κ) (a : α) : Map κ α :=
  ⟨fun j => if j = k then some a else m.find j⟩

/-- Insert under an absent key only; the flag says whether the pair went in. -/
def emplace (m : Map κ α) (k : κ) (a : α) : Bool × Map κ α :=
  match m.find k with
  | some _ => (false, m)
  | none => (true, assign m k a)

/-- Drop a key and count the dropped pairs. -/
def erase (m : Map κ α) (k : κ) : Nat × Map κ α :=
  (if (m.find k).isSome then 1 else 0, ⟨fun j => if j = k then none else m.find j⟩)

/-- Take the node of a key out of the container. -/
def extract (m : Map κ α) (k : κ) : Option α × Map κ α := (m.find k, (erase m k).2)

/-- Put a node back under a key. A node whose key is taken is handed back, not inserted. -/
def insertNode (m : Map κ α) (k : κ) (a : α) : Option α × Map κ α :=
  match emplace m k a with
  | (true, m') => (none, m')
  | (false, m') => (some a, m')

/-- Extract under one key, re-key, insert: the leftover node and the container. -/
def move (m : Map κ α) (source target : κ) : Option α × Map κ α :=
  match extract m source with
  | (none, m') => (none, m')
  | (some a, m') => insertNode m' target a

@[simp] theorem find_assign (m : Map κ α) (k j : κ) (a : α) :
    (assign m k a).find j = if j = k then some a else m.find j := rfl

@[simp] theorem find_erase (m : Map κ α) (k j : κ) :
    (erase m k).2.find j = if j = k then none else m.find j := rfl

@[simp] theorem erase_count (m : Map κ α) (k : κ) :
    (erase m k).1 = if (m.find k).isSome then 1 else 0 := rfl

theorem emplace_absent {m : Map κ α} {k : κ} (h : m.find k = none) (a : α) :
    emplace m k a = (true, assign m k a) := by
  simp [emplace, h]

theorem emplace_present {m : Map κ α} {k : κ} {b : α} (h : m.find k = some b) (a : α) :
    emplace m k a = (false, m) := by
  simp [emplace, h]

/-- Moving an absent node changes nothing. -/
theorem move_absent {m : Map κ α} {source : κ} (target : κ) (h : m.find source = none) :
    (move m source target).2 = m := by
  have he : extract m source = (none, m) := by
    refine Prod.ext h (Map.ext ?_)
    funext j
    by_cases hj : j = source
    · simp [extract, hj, h]
    · simp [extract, hj]
  simp [move, he]

/-- A node moves to a free key. -/
theorem find_move_free {m : Map κ α} {source target : κ} {a : α}
    (hs : m.find source = some a) (ht : m.find target = none) (j : κ) :
    (move m source target).2.find j =
      if j = target then some a else if j = source then none else m.find j := by
  have hf : (erase m source).2.find target = none := by simp [ht]
  simp [move, extract, hs, insertNode, emplace_absent hf]

/-- A node extracted for a taken key is lost and the key keeps its own value. -/
theorem find_move_taken {m : Map κ α} {source target : κ} {a b : α}
    (hs : m.find source = some a) (ht : m.find target = some b) (hne : target ≠ source) (j : κ) :
    (move m source target).2.find j = if j = source then none else m.find j := by
  have hf : (erase m source).2.find target = some b := by simp [ht, hne]
  simp [move, extract, hs, insertNode, emplace_present hf]

/-- Moving a node onto its own key puts it back. -/
theorem move_self (m : Map κ α) (k : κ) : (move m k k).2 = m := by
  cases h : m.find k with
  | none => exact move_absent k h
  | some a =>
    have hf : (erase m k).2.find k = none := by simp
    apply Map.ext
    funext j
    by_cases hj : j = k
    · simp [move, extract, h, insertNode, emplace_absent hf, hj]
    · simp [move, extract, h, insertNode, emplace_absent hf, hj]

/-- A key other than the source keeps its value unless the node lands on it. -/
theorem find_move_kept {m : Map κ α} {source target j : κ} {b : α} (hj : m.find j = some b)
    (hne : j ≠ source) : (move m source target).2.find j = some b := by
  cases hs : m.find source with
  | none => rw [move_absent target hs, hj]
  | some a =>
    by_cases hts : target = source
    · rw [hts, move_self, hj]
    · cases ht : m.find target with
      | none =>
        have hjt : j ≠ target := by
          rintro rfl
          rw [hj] at ht
          cases ht
        rw [find_move_free hs ht, if_neg hjt, if_neg hne, hj]
      | some c => rw [find_move_taken hs ht hts, if_neg hne, hj]

/-- Keys other than the two involved keep their value, present or absent. -/
theorem find_move_other {m : Map κ α} {source target j : κ} (hs : j ≠ source) (ht : j ≠ target) :
    (move m source target).2.find j = m.find j := by
  cases h : m.find source with
  | none => rw [move_absent target h]
  | some a =>
    by_cases hts : target = source
    · rw [hts, move_self]
    · cases hb : m.find target with
      | none => rw [find_move_free h hb, if_neg ht, if_neg hs]
      | some c => rw [find_move_taken h hb hts, if_neg hs]

/-- A key that is not the target holds after a move what it held before. -/
theorem find_of_find_move {m : Map κ α} {source target j : κ} {b : α}
    (h : (move m source target).2.find j = some b) (ht : j ≠ target) : m.find j = some b := by
  by_cases hs : j = source
  · have hts : target ≠ source := fun e => ht (hs.trans e.symm)
    rw [hs] at h ⊢
    cases ha : m.find source with
    | none => rwa [move_absent target ha, ha] at h
    | some a =>
      cases hb : m.find target with
      | none =>
        rw [find_move_free ha hb, if_neg hts.symm, if_pos rfl] at h
        cases h
      | some c =>
        rw [find_move_taken ha hb hts, if_pos rfl] at h
        cases h
  · rwa [find_move_other hs ht] at h

/-- After a move to another key the source key is free. -/
theorem find_move_source {m : Map κ α} {source target : κ} (hne : target ≠ source) :
    (move m source target).2.find source = none := by
  cases h : m.find source with
  | none => rw [move_absent target h, h]
  | some a =>
    cases hb : m.find target with
    | none => rw [find_move_free h hb, if_neg hne.symm, if_pos rfl]
    | some c => rw [find_move_taken h hb hne, if_pos rfl]

/-- What a move leaves under a key depends on that key, the source and the target alone. -/
theorem find_move_congr {m m' : Map κ α} {source target j : κ}
    (hs : m'.find source = m.find source) (ht : m'.find target = m.find target)
    (hj : m'.find j = m.find j) :
    (move m' source target).2.find j = (move m source target).2.find j := by
  cases ha : m.find source with
  | none => rw [move_absent target ha, move_absent target (hs.trans ha), hj]
  | some a =>
    have ha' := hs.trans ha
    by_cases hts : target = source
    · rw [hts, move_self, move_self, hj]
    · cases hb : m.find target with
      | none => rw [find_move_free ha hb, find_move_free ha' (ht.trans hb), hj]
      | some b => rw [find_move_taken ha hb hts, find_move_taken ha' (ht.trans hb) hts, hj]

/-- A container that embeds another under its keys moves its nodes alike. -/
theorem find_move_embed {ι : Type*} [DecidableEq ι] {f : κ → ι} (hf : Function.Injective f)
    {m : Map κ α} {m' : Map ι α} (h : ∀ j, m'.find (f j) = m.find j) (source target j : κ) :
    (move m' (f source) (f target)).2.find (f j) = (move m source target).2.find j := by
  cases hs : m.find source with
  | none => rw [move_absent _ hs, move_absent _ ((h source).trans hs), h]
  | some a =>
    have hs' := (h source).trans hs
    by_cases hts : target = source
    · rw [hts, move_self, move_self, h]
    · cases ht : m.find target with
      | none =>
        rw [find_move_free hs ht, find_move_free hs' ((h target).trans ht)]
        simp only [hf.eq_iff, h]
      | some b =>
        rw [find_move_taken hs ht hts,
          find_move_taken hs' ((h target).trans ht) (fun e => hts (hf e))]
        simp only [hf.eq_iff, h]

end KeyedMap

import Mathlib.Logic.Function.Basic
import Padll.Library.KeyedMap

/-! Containers that own each value in a heap cell of its own, as maps of unique pointers do. A
cell lives until its key is erased or overwritten, or its node is moved to a key that is taken. -/
open KeyedMap

/-- Cells by identity. Identities from the bound on have never been given out. -/
structure Heap (α : Type*) where
  cell : Nat → Option α
  bound : Nat
  fresh : ∀ c, bound ≤ c → cell c = none

namespace Heap
variable {α : Type*}

def empty : Heap α := ⟨fun _ => none, 0, fun _ _ => rfl⟩

/-- A new cell and the heap with it. -/
def alloc (h : Heap α) (a : α) : Nat × Heap α :=
  (h.bound, {
    cell := Function.update h.cell h.bound (some a)
    bound := h.bound + 1
    fresh := fun c hc => by
      rw [Function.update_of_ne (by omega)]
      exact h.fresh c (by omega) })

def destroy (h : Heap α) (c : Nat) : Heap α where
  cell := Function.update h.cell c none
  bound := h.bound
  fresh := fun d hd => by
    by_cases hdc : d = c
    · rw [hdc, Function.update_self]
    · rw [Function.update_of_ne hdc]
      exact h.fresh d hd

theorem cell_alloc (h : Heap α) (a : α) (c : Nat) :
    (h.alloc a).2.cell c = if c = h.bound then some a else h.cell c :=
  Function.update_apply h.cell h.bound (some a) c

theorem cell_destroy (h : Heap α) (c d : Nat) :
    (h.destroy c).cell d = if d = c then none else h.cell d :=
  Function.update_apply h.cell c none d

/-- Living cells have been given out. -/
theorem lt_bound {h : Heap α} {c : Nat} (hc : (h.cell c).isSome) : c < h.bound := by
  by_contra hb
  rw [h.fresh c (by omega)] at hc
  cases hc

end Heap

/-- A container with a living cell for each key, none of them shared. -/
structure OwningMap (κ α : Type*) where
  heap : Heap α
  keys : Map κ Nat
  alive : ∀ k c, keys.find k = some c → (heap.cell c).isSome
  unique : ∀ k k' c, keys.find k = some c → keys.find k' = some c → k = k'

namespace OwningMap
variable {κ α : Type*}

def empty : OwningMap κ α := ⟨.empty, KeyedMap.empty, nofun, nofun⟩

/-- The values by key, the cells forgotten. -/
def view (m : OwningMap κ α) : Map κ α := ⟨fun k => (m.keys.find k).bind m.heap.cell⟩

theorem find_view (m : OwningMap κ α) (k : κ) :
    m.view.find k = (m.keys.find k).bind m.heap.cell := rfl

theorem lt_bound (m : OwningMap κ α) {k : κ} {c : Nat} (h : m.keys.find k = some c) :
    c < m.heap.bound := Heap.lt_bound (m.alive k c h)

/-- The keys of the container and of its view are the same. -/
theorem find_view_eq_none {m : OwningMap κ α} {k : κ} :
    m.view.find k = none ↔ m.keys.find k = none := by
  rw [find_view]
  cases h : m.keys.find k with
  | none => simp
  | some c =>
    have halive := m.alive k c h
    rw [Option.bind_some, ← Option.not_isSome_iff_eq_none]
    simp [halive]

/-- Make a cell that no key takes: it is destroyed again. -/
def discard (m : OwningMap κ α) (a : α) : OwningMap κ α where
  heap := (m.heap.alloc a).2.destroy m.heap.bound
  keys := m.keys
  alive := fun k c hc => by
    have hne := Nat.ne_of_lt (m.lt_bound hc)
    rw [Heap.cell_destroy, if_neg hne, Heap.cell_alloc, if_neg hne]
    exact m.alive k c hc
  unique := m.unique

theorem view_discard (m : OwningMap κ α) (a : α) : (m.discard a).view = m.view := by
  apply Map.ext
  funext j
  rw [find_view, find_view]
  change (m.keys.find j).bind ((m.heap.alloc a).2.destroy m.heap.bound).cell = _
  cases h : m.keys.find j with
  | none => rfl
  | some c =>
    have hne := Nat.ne_of_lt (m.lt_bound h)
    rw [Option.bind_some, Option.bind_some, Heap.cell_destroy, if_neg hne, Heap.cell_alloc,
      if_neg hne]

theorem cell_discard (m : OwningMap κ α) (a : α) {c : Nat} (hc : c < m.heap.bound) :
    (m.discard a).heap.cell c = m.heap.cell c := by
  change ((m.heap.alloc a).2.destroy m.heap.bound).cell c = _
  rw [Heap.cell_destroy, if_neg (Nat.ne_of_lt hc), Heap.cell_alloc, if_neg (Nat.ne_of_lt hc)]

variable [DecidableEq κ]

section Distinct
variable {keys : Map κ Nat}

/-- No two keys share a cell. -/
def Distinct (keys : Map κ Nat) : Prop :=
  ∀ k k' c, keys.find k = some c → keys.find k' = some c → k = k'

private theorem Distinct.erase (h : Distinct keys) (k : κ) :
    Distinct (KeyedMap.erase keys k).2 := by
  intro j j' c hj hj'
  rw [find_erase] at hj hj'
  split at hj
  · cases hj
  · split at hj'
    · cases hj'
    · exact h j j' c hj hj'

/-- A key may take a cell that no key has. -/
private theorem Distinct.assign (h : Distinct keys) {c : Nat} (hc : ∀ j, keys.find j ≠ some c)
    (k : κ) : Distinct (KeyedMap.assign keys k c) := by
  intro j j' d hj hj'
  rw [find_assign] at hj hj'
  split at hj
  · next hjk =>
    obtain rfl := Option.some.inj hj
    split at hj'
    · next hjk' => exact hjk.trans hjk'.symm
    · exact absurd hj' (hc j')
  · split at hj'
    · obtain rfl := Option.some.inj hj'
      exact absurd hj (hc j)
    · exact h j j' d hj hj'

/-- An erased key leaves its cell to no other. -/
private theorem Distinct.free (h : Distinct keys) {k : κ} {c : Nat} (hk : keys.find k = some c)
    (j : κ) : (KeyedMap.erase keys k).2.find j ≠ some c := by
  intro hj
  rw [find_erase] at hj
  split at hj
  · cases hj
  · next hne => exact hne (h j k c hj hk)

end Distinct

/-- Give up a key and its cell. -/
def erase (m : OwningMap κ α) (k : κ) : OwningMap κ α :=
  match h : m.keys.find k with
  | none => m
  | some c =>
    { heap := m.heap.destroy c
      keys := (KeyedMap.erase m.keys k).2
      alive := fun j d hd => by
        have hne : d ≠ c := fun e => Distinct.free m.unique h j (e ▸ hd)
        rw [find_erase] at hd
        split at hd
        · cases hd
        · rw [Heap.cell_destroy, if_neg hne]
          exact m.alive j d hd
      unique := Distinct.erase m.unique k }

/-- Put a new cell under a key that is absent. -/
def insertFresh (m : OwningMap κ α) (k : κ) (a : α) (_absent : m.keys.find k = none) :
    OwningMap κ α where
  heap := (m.heap.alloc a).2
  keys := KeyedMap.assign m.keys k m.heap.bound
  alive := fun j d hd => by
    rw [find_assign] at hd
    rw [Heap.cell_alloc]
    split at hd
    · obtain rfl := Option.some.inj hd
      rw [if_pos rfl]
      rfl
    · rw [if_neg (Nat.ne_of_lt (m.lt_bound hd))]
      exact m.alive j d hd
  unique := Distinct.assign m.unique (fun _ hj => Nat.lt_irrefl _ (m.lt_bound hj)) k

/-- Insert under an absent key only; the flag says whether the cell went in. -/
def emplace (m : OwningMap κ α) (k : κ) (a : α) : Bool × OwningMap κ α :=
  match h : m.keys.find k with
  | none => (true, m.insertFresh k a h)
  | some _ => (false, m.discard a)

theorem emplace_absent {m : OwningMap κ α} {k : κ} (h : m.keys.find k = none) (a : α) :
    m.emplace k a = (true, m.insertFresh k a h) := by
  unfold emplace
  split
  · rfl
  · next h' => simp [h] at h'

theorem emplace_present {m : OwningMap κ α} {k : κ} {c : Nat} (h : m.keys.find k = some c)
    (a : α) : m.emplace k a = (false, m.discard a) := by
  unfold emplace
  split
  · next h' => simp [h] at h'
  · rfl

theorem keys_erase (m : OwningMap κ α) (k j : κ) :
    (m.erase k).keys.find j = if j = k then none else m.keys.find j := by
  unfold erase
  split
  · next h =>
    by_cases hj : j = k
    · rw [if_pos hj, hj, h]
    · rw [if_neg hj]
  · exact find_erase m.keys k j

theorem cell_erase (m : OwningMap κ α) (k : κ) (c : Nat) :
    (m.erase k).heap.cell c = if m.keys.find k = some c then none else m.heap.cell c := by
  unfold erase
  split
  · next h => rw [if_neg (by simp [h])]
  · next d h =>
    change (m.heap.destroy d).cell c = _
    rw [h, Heap.cell_destroy]
    simp only [Option.some.injEq, eq_comm]

/-- Replace whatever a key holds: its cell goes and a new one takes its place. -/
def assign (m : OwningMap κ α) (k : κ) (a : α) : OwningMap κ α :=
  (m.erase k).insertFresh k a (by rw [keys_erase, if_pos rfl])

/-- Take a node out and put it back under another key; where that key is taken the node goes
with its cell. -/
def move (m : OwningMap κ α) (source target : κ) : OwningMap κ α :=
  match h : m.keys.find source with
  | none => m
  | some c =>
    if (KeyedMap.erase m.keys source).2.find target = none then
      { heap := m.heap
        keys := KeyedMap.assign (KeyedMap.erase m.keys source).2 target c
        alive := fun j d hd => by
          rw [find_assign] at hd
          split at hd
          · exact m.alive source d (h.trans hd)
          · rw [find_erase] at hd
            split at hd
            · cases hd
            · exact m.alive j d hd
        unique := Distinct.assign (Distinct.erase m.unique source) (Distinct.free m.unique h)
          target }
    else m.erase source

theorem move_absent {m : OwningMap κ α} {source : κ} (target : κ)
    (h : m.keys.find source = none) : m.move source target = m := by
  unfold move
  split
  · rfl
  · next h' => simp [h] at h'

theorem view_erase (m : OwningMap κ α) (k : κ) : (m.erase k).view = (KeyedMap.erase m.view k).2 := by
  apply Map.ext
  funext j
  rw [find_view, keys_erase, find_erase]
  by_cases hj : j = k
  · rw [if_pos hj, if_pos hj, Option.bind_none]
  · rw [if_neg hj, if_neg hj, find_view]
    cases h : m.keys.find j with
    | none => rfl
    | some c =>
      have hne : m.keys.find k ≠ some c := fun e => hj (m.unique j k c h e)
      rw [Option.bind_some, Option.bind_some, cell_erase, if_neg hne]

theorem view_insertFresh (m : OwningMap κ α) (k : κ) (a : α) (h : m.keys.find k = none) :
    (m.insertFresh k a h).view = KeyedMap.assign m.view k a := by
  apply Map.ext
  funext j
  rw [find_view, find_assign]
  change ((KeyedMap.assign m.keys k m.heap.bound).find j).bind (m.heap.alloc a).2.cell = _
  rw [find_assign]
  by_cases hj : j = k
  · rw [if_pos hj, if_pos hj, Option.bind_some, Heap.cell_alloc, if_pos rfl]
  · rw [if_neg hj, if_neg hj, find_view]
    cases hk : m.keys.find j with
    | none => rfl
    | some c =>
      rw [Option.bind_some, Option.bind_some, Heap.cell_alloc,
        if_neg (Nat.ne_of_lt (m.lt_bound hk))]

theorem view_assign (m : OwningMap κ α) (k : κ) (a : α) :
    (m.assign k a).view = KeyedMap.assign m.view k a := by
  rw [assign, view_insertFresh, view_erase]
  apply Map.ext
  funext j
  rw [find_assign, find_assign, find_erase]
  by_cases hj : j = k
  · rw [if_pos hj, if_pos hj]
  · rw [if_neg hj, if_neg hj, if_neg hj]

theorem view_move (m : OwningMap κ α) (source target : κ) :
    (m.move source target).view = (KeyedMap.move m.view source target).2 := by
  unfold move
  split
  · next h => rw [KeyedMap.move_absent target (find_view_eq_none.mpr h)]
  · next c h =>
    obtain ⟨a, ha⟩ := Option.isSome_iff_exists.mp (m.alive source c h)
    have hsource : m.view.find source = some a := by rw [find_view, h, Option.bind_some, ha]
    by_cases hself : target = source
    · subst hself
      rw [if_pos (by rw [find_erase, if_pos rfl]), move_self]
      apply Map.ext
      funext j
      rw [find_view, find_assign, find_erase]
      by_cases hj : j = target
      · rw [if_pos hj, hj, hsource, Option.bind_some, ha]
      · rw [if_neg hj, if_neg hj]
        rfl
    · split
      · next hfree =>
        rw [find_erase, if_neg hself] at hfree
        apply Map.ext
        funext j
        rw [find_move_free hsource (find_view_eq_none.mpr hfree), find_view, find_assign, find_erase]
        by_cases hj : j = target
        · rw [if_pos hj, if_pos hj, Option.bind_some, ha]
        · rw [if_neg hj, if_neg hj]
          by_cases hj' : j = source
          · rw [if_pos hj', if_pos hj', Option.bind_none]
          · rw [if_neg hj', if_neg hj']
            rfl
      · next htaken =>
        rw [find_erase, if_neg hself, ← find_view_eq_none] at htaken
        obtain ⟨b, hb⟩ := Option.ne_none_iff_exists'.mp htaken
        rw [view_erase]
        apply Map.ext
        funext j
        rw [find_erase, find_move_taken hsource hb hself]

theorem bound_erase (m : OwningMap κ α) (k : κ) : (m.erase k).heap.bound = m.heap.bound := by
  unfold erase
  split <;> rfl

theorem cell_insertFresh (m : OwningMap κ α) (k : κ) (a : α) (h : m.keys.find k = none) {c : Nat}
    (hc : c < m.heap.bound) : (m.insertFresh k a h).heap.cell c = m.heap.cell c := by
  change (m.heap.alloc a).2.cell c = _
  rw [Heap.cell_alloc, if_neg (Nat.ne_of_lt hc)]

/-- Overwriting destroys the cell the key held, among the cells there were. -/
theorem cell_assign (m : OwningMap κ α) (k : κ) (a : α) {c : Nat} (hc : c < m.heap.bound) :
    (m.assign k a).heap.cell c = if m.keys.find k = some c then none else m.heap.cell c := by
  rw [assign, cell_insertFresh _ _ _ _ (by rwa [bound_erase]), cell_erase]

/-- Moving destroys the cell of the source where the target is another key that is taken. -/
theorem cell_move (m : OwningMap κ α) (source target : κ) (c : Nat) :
    (m.move source target).heap.cell c =
      if m.keys.find source = some c ∧ target ≠ source ∧ m.keys.find target ≠ none then none
      else m.heap.cell c := by
  unfold move
  split
  · next h => simp [h]
  · next d h =>
    by_cases hself : target = source
    · rw [if_pos (by rw [find_erase, if_pos hself]), if_neg fun e => e.2.1 hself]
    · split
      · next hfree =>
        rw [find_erase, if_neg hself] at hfree
        rw [if_neg fun e => e.2.2 hfree]
      · next htaken =>
        rw [find_erase, if_neg hself] at htaken
        rw [cell_erase]
        simp only [ne_eq, hself, htaken, not_false_eq_true, and_true]

end OwningMap

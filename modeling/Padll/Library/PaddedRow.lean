import Mathlib.Algebra.GroupWithZero.Nat

/-! Rows of fields, each padded on the left to a width of its own and set apart by one blank:
their length, and reading the fields back. -/
namespace PaddedRow
variable {α : Type*}

/-- The fields of a row, right-aligned to their widths. -/
def row (blank : α) (columns : List (Nat × List α)) : List α :=
  [blank].intercalate (columns.map fun column => column.2.leftpad column.1 blank)

theorem row_cons_cons (blank : α) (column next : Nat × List α) (columns : List (Nat × List α)) :
    row blank (column :: next :: columns) =
      column.2.leftpad column.1 blank ++ blank :: row blank (next :: columns) := by
  simp [row, List.intercalate_cons_cons]

theorem row_singleton (blank : α) (column : Nat × List α) :
    row blank [column] = column.2.leftpad column.1 blank :=
  List.intercalate_singleton

/-- A field takes its width and what it is longer, and each gap one blank. -/
theorem length_row (blank : α) (column : Nat × List α) (columns : List (Nat × List α)) :
    (row blank (column :: columns)).length =
      ((column :: columns).map fun c => c.1 + (c.2.length - c.1)).sum + columns.length := by
  induction columns generalizing column with
  | nil =>
    rw [row_singleton, List.length_leftpad, List.map_singleton, List.sum_singleton,
      List.length_nil]
    omega
  | cons next columns ih =>
    rw [row_cons_cons, List.length_append, List.length_cons, ih, List.length_leftpad,
      List.map_cons (l := next :: columns), List.sum_cons, List.length_cons]
    omega

theorem mem_row {blank a : α} {columns : List (Nat × List α)} (h : a ∈ row blank columns) :
    a = blank ∨ ∃ column ∈ columns, a ∈ column.2 := by
  have hpad : ∀ column : Nat × List α, a ∈ column.2.leftpad column.1 blank →
      a = blank ∨ a ∈ column.2 := by
    intro column hmem
    rcases List.mem_append.mp hmem with hmem | hmem
    · exact .inl (List.eq_of_mem_replicate hmem)
    · exact .inr hmem
  induction columns with
  | nil => cases h
  | cons column columns ih =>
    cases columns with
    | nil =>
      rw [row_singleton] at h
      exact (hpad column h).imp_right fun hmem => ⟨column, List.mem_cons_self, hmem⟩
    | cons next columns =>
      rw [row_cons_cons, List.mem_append, List.mem_cons] at h
      obtain h | h | h := h
      · exact (hpad column h).imp_right fun hmem => ⟨column, List.mem_cons_self, hmem⟩
      · exact .inl h
      · exact (ih h).imp_right fun ⟨c, hc, hmem⟩ => ⟨c, List.mem_cons_of_mem _ hc, hmem⟩

section Words
variable [BEq α] [LawfulBEq α] {blank : α}

/-- What stands between the blanks of a line. -/
def words (blank : α) (line : List α) : List (List α) :=
  (line.splitOn blank).filter (!·.isEmpty)

theorem words_append_blank (line line' : List α) :
    words blank (line ++ blank :: line') = words blank line ++ words blank line' := by
  rw [words, List.splitOn_append_cons_self, List.filter_append]
  rfl

theorem words_leftpad (width : Nat) (field : List α) :
    words blank (field.leftpad width blank) = words blank field := by
  rw [List.leftpad]
  induction width - field.length with
  | zero => rfl
  | succ n ih => exact (words_append_blank [] _).trans ih

theorem words_field {field : List α} (hne : field ≠ []) (hblank : blank ∉ field) :
    words blank field = [field] := by
  rw [words, List.splitOn_eq_singleton hblank]
  simp [hne]

/-- Fields without a blank in them are read back, whether they fit their widths or not. -/
theorem words_row {columns : List (Nat × List α)}
    (h : ∀ column ∈ columns, column.2 ≠ [] ∧ blank ∉ column.2) :
    words blank (row blank columns) = columns.map (·.2) := by
  induction columns with
  | nil => rfl
  | cons column columns ih =>
    obtain ⟨hne, hblank⟩ := h column List.mem_cons_self
    have hfield := words_field hne hblank
    cases columns with
    | nil => rw [row_singleton, words_leftpad, hfield, List.map_singleton]
    | cons next columns =>
      rw [row_cons_cons, words_append_blank, words_leftpad, hfield,
        ih fun c hc => h c (List.mem_cons_of_mem _ hc)]
      rfl

/-- Lines that each end in the character looked for are read back. -/
theorem words_lines {lines : List (List α)} (h : ∀ line ∈ lines, line ≠ [] ∧ blank ∉ line) :
    words blank (lines.flatMap fun line => line ++ [blank]) = lines := by
  induction lines with
  | nil => rfl
  | cons line lines ih =>
    obtain ⟨hne, hblank⟩ := h line List.mem_cons_self
    rw [List.flatMap_cons, List.append_assoc, List.singleton_append, words_append_blank,
      words_field hne hblank, ih fun l hl => h l (List.mem_cons_of_mem _ hl)]
    rfl

end Words
end PaddedRow

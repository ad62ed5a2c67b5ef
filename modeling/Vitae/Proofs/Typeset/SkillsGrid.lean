/-
Module: Vitae.Proofs.Typeset.SkillsGrid
Layer: Proofs
Purpose: Cutting a list into rows loses nothing, invents nothing and keeps the order, and no row is empty. All rows
  of a grid have as many cells as it has columns, and no more rows are there than it takes.
Imports: Vitae.Typeset.SkillsGrid
Main exports: flatten_chunks, chunks_ne_nil, chunks_map, chunks_rows, length_gridRows, gridRows_padding
-/
import Vitae.Typeset.SkillsGrid

namespace Vitae

open Tex

variable {α β : Type}

/-- The rows one after the other are the list that was cut. -/
theorem flatten_chunks (columns : Nat) (done : List (List α)) (row items : List α) :
    (chunks columns done row items).flatten = done.reverse.flatten ++ row.reverse ++ items := by
  induction items generalizing done row with
  | nil =>
      cases row with
      | nil => simp [chunks]
      | cons x row => simp [chunks]
  | cons x rest ih =>
      rw [chunks]
      split
      · rw [ih]
        simp
      · rw [ih]
        simp

/-- No row is empty. -/
theorem chunks_ne_nil {columns : Nat} {done : List (List α)} {row items cells : List α}
    (h : ∀ r ∈ done, r ≠ []) (member : cells ∈ chunks columns done row items) : cells ≠ [] := by
  induction items generalizing done row with
  | nil =>
      cases row with
      | nil =>
          rw [chunks, List.isEmpty_nil, if_pos rfl, List.mem_reverse] at member
          exact h cells member
      | cons x row =>
          simp only [chunks, List.isEmpty_cons, Bool.false_eq_true, if_false, List.mem_reverse,
            List.mem_cons] at member
          rcases member with rfl | member
          · simp
          · exact h cells member
  | cons x rest ih =>
      rw [chunks] at member
      split at member
      · exact ih h member
      · refine ih ?_ member
        intro r among
        rcases List.mem_cons.1 among with rfl | among
        · simp
        · exact h r among

/-- Cells are cut into rows whatever they hold. -/
theorem chunks_map (f : α → β) (columns : Nat) (done : List (List α)) (row items : List α) :
    chunks columns (done.map (List.map f)) (row.map f) (items.map f) =
      (chunks columns done row items).map (List.map f) := by
  induction items generalizing done row with
  | nil =>
      cases row with
      | nil => simp [chunks]
      | cons x row => simp [chunks]
  | cons x rest ih =>
      rw [List.map_cons, chunks, chunks, List.length_map]
      split
      · exact ih done (x :: row)
      · have step := ih ((x :: row).reverse :: done) []
        rw [List.map_cons, List.map_reverse] at step
        exact step

/-- A cell of a grid holds one of the items, or nothing. -/
theorem mem_gridRows {columns : Nat} {items row : List Source} {cell : Source}
    (member : row ∈ gridRows columns items) (among : cell ∈ row) : cell ∈ items ∨ cell = [] := by
  obtain ⟨cells, cut, rfl⟩ := List.mem_map.1 member
  rcases List.mem_append.1 among with among | among
  · have whole := flatten_chunks columns [] [] items
    rw [List.reverse_nil, List.flatten_nil, List.reverse_nil, List.nil_append, List.nil_append] at whole
    exact .inl (whole ▸ List.mem_flatten_of_mem cut among)
  · exact .inr (List.eq_of_mem_replicate among)

/-! ### Rows -/

/-- All rows are full, but for a last one that holds what is left. -/
theorem chunks_rows {columns : Nat} (done : List (List α)) (row items : List α)
    (full : ∀ r ∈ done, r.length = columns) (room : row.length < columns) :
    ∃ rows last, chunks columns done row items = rows ++ last ∧ (∀ r ∈ rows, r.length = columns) ∧
      (last = [] ∨ ∃ rest, last = [rest] ∧ 0 < rest.length ∧ rest.length < columns) := by
  induction items generalizing done row with
  | nil =>
      have turned : ∀ r ∈ done.reverse, r.length = columns := fun r member => full r (List.mem_reverse.1 member)
      cases row with
      | nil => exact ⟨done.reverse, [], by simp [chunks], turned, .inl rfl⟩
      | cons x row =>
          refine ⟨done.reverse, [(x :: row).reverse], by simp [chunks], turned, .inr ⟨_, rfl, ?_, ?_⟩⟩
          · simp
          · rwa [List.length_reverse]
  | cons x rest ih =>
      rw [chunks]
      split
      case isTrue more => exact ih done (x :: row) full more
      case isFalse filled =>
        have whole : (x :: row).reverse.length = columns := by
          rw [List.length_reverse, List.length_cons]
          omega
        refine ih _ [] (fun r member => ?_) (Nat.zero_lt_of_lt room)
        rcases List.mem_cons.1 member with rfl | among
        · exact whole
        · exact full r among

/-- Rows of one length have as many cells as their number and their length give. -/
theorem length_flatten_rows {columns : Nat} {rows : List (List α)} (full : ∀ r ∈ rows, r.length = columns) :
    rows.flatten.length = columns * rows.length := by
  induction rows with
  | nil => rfl
  | cons row rest ih =>
      have later := ih fun r member => full r (List.mem_cons_of_mem row member)
      rw [List.flatten_cons, List.length_append, full row List.mem_cons_self, later, List.length_cons, Nat.mul_succ,
        Nat.add_comm]

variable {columns : Nat} {items : List Source}

/-- A grid is the items row by row, with empty cells behind them, which are less than a row. -/
theorem gridRows_padding (some : 0 < columns) (items : List Source) :
    (∀ row ∈ gridRows columns items, row.length = columns) ∧
      ∃ padding < columns, (gridRows columns items).flatten = items ++ List.replicate padding [] := by
  obtain ⟨rows, last, cut, full, left⟩ := chunks_rows [] [] items (by simp) some
  have whole := flatten_chunks columns [] [] items
  rw [cut, List.flatten_append] at whole
  have kept : rows.map (fun row => row ++ List.replicate (columns - row.length) []) = rows := by
    refine List.map_congr_left (fun row member => ?_) |>.trans (List.map_id' rows)
    rw [full row member, Nat.sub_self, List.replicate_zero, List.append_nil]
  rw [gridRows, cut, List.map_append, kept]
  rcases left with rfl | ⟨rest, rfl, filled, short⟩
  · refine ⟨by simpa using full, 0, some, ?_⟩
    simpa using whole
  · refine ⟨fun row member => ?_, columns - rest.length, by omega, ?_⟩
    · rcases List.mem_append.1 member with among | among
      · exact full row among
      · rw [List.mem_singleton.1 among, List.length_append, List.length_replicate]
        omega
    · simp only [List.flatten_append, List.map_cons, List.map_nil, List.flatten_cons, List.flatten_nil,
        List.append_nil, List.reverse_nil, List.nil_append] at whole ⊢
      rw [← List.append_assoc, whole]

/-- There are no more rows than it takes. -/
theorem length_gridRows (some : 0 < columns) (items : List Source) :
    (gridRows columns items).length = (items.length + columns - 1) / columns := by
  obtain ⟨full, padding, short, whole⟩ := gridRows_padding some items
  have cells := length_flatten_rows full
  rw [whole, List.length_append, List.length_replicate] at cells
  have least : (gridRows columns items).length * columns ≤ items.length + columns - 1 := by
    rw [Nat.mul_comm]
    omega
  have most : items.length + columns - 1 < ((gridRows columns items).length + 1) * columns := by
    rw [Nat.succ_mul, Nat.mul_comm]
    omega
  exact (Nat.div_eq_of_lt_le least most).symm

end Vitae

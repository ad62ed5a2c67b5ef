/-
Module: Vitae.Proofs.Typeset.Skills
Layer: Proofs
Purpose: Skills read back from the source they are typeset in. A grid has the columns it is asked for, as many
  rows as it takes and the skills in its cells row by row, and a list has them in its items. Whatever is typed in a
  skill, it neither ends the cell or the item it stands in nor begins another.
Imports: Vitae.Proofs.Section.Presence, Vitae.Proofs.Tex.Separator
Main exports: Table, Table.read?, readItems, render_skillsGrid, read_skillsGrid, readItems_itemize, ShowsSkills
-/
import Vitae.Proofs.Section.Presence
import Vitae.Proofs.Tex.Separator

namespace Vitae

open Tex Text

/-! ### Tables -/

/-- A table as it is read from its source: the columns it asks for, and the cells of each row. -/
structure Table where
  columns : List (List Char)
  rows : List (List (List Char))

/-- The opening of a table, up to the brace before its columns. -/
def tableOpening : List Char :=
  "\\begin\x7btabular\x7d\x7b".toList

/-- The end of a table. -/
def tableEnd : List Char :=
  "\\end\x7btabular\x7d".toList

/-- Read the first table of a text. A space stands between its columns, a line break behind each of its rows, and
an ampersand between two cells. Each row stands on a line of its own. -/
def Table.read? (s : List Char) : Option Table :=
  (after? tableOpening s).map fun opened =>
    let inside := upTo tableEnd opened
    let columns := upTo "\x7d\n".toList inside
    let lines := (splitOn " \\\\".toList (inside.drop (columns.length + 1))).dropLast
    { columns := splitOn [' '] columns
      rows := lines.map fun line => splitOn " & ".toList (line.drop 1) }

/-- What follows a part and the pattern behind it. -/
theorem after?_part_append {d : Char} {pattern s : List Char} (part : IsPart (d :: pattern) s) (rest : List Char) :
    after? (d :: pattern) (s ++ (d :: pattern ++ rest)) = some rest := by
  induction s with
  | nil =>
      have here : (d :: pattern).isPrefixOf (d :: (pattern ++ rest)) = true := by
        rw [List.isPrefixOf_iff_prefix, ← List.cons_append]
        exact List.prefix_append _ _
      rw [List.nil_append, List.cons_append, after?, if_pos here, ← List.cons_append, List.drop_left]
  | cons c s ih =>
      have here : ¬ (d :: pattern).isPrefixOf (c :: (s ++ (d :: pattern ++ rest))) = true := by
        rw [List.isPrefixOf_iff_prefix]
        exact part.1 _ (.inr (List.prefix_append _ _))
      rw [List.cons_append, after?, if_neg here, ih part.2]

/-- The text of a column: it holds neither the end of its table nor space nor a line feed. -/
structure IsColumn (s : List Char) : Prop where
  inside : Absent tableEnd s
  unspaced : ' ' ∉ s
  lined : '\n' ∉ s

/-- The text of a cell: it holds neither the end of its table nor a line break, and no ampersand between two
cells. -/
structure IsCell (s : List Char) : Prop where
  inside : Absent tableEnd s
  unbroken : Absent "\\\\".toList s
  whole : IsPart " & ".toList s

/-- The line of a row, with the line feed before it and without the line break behind it. -/
def rowLine (row : List (List Char)) : List Char :=
  '\n' :: " & ".toList.intercalate row

/-- The source of a table from its columns to its end. -/
def Table.inside (t : Table) : List Char :=
  [' '].intercalate t.columns ++
    '\x7d' :: ((t.rows.map rowLine).flatMap (· ++ " \\\\".toList) ++ ['\n'])

variable {rows : List (List (List Char))}

/-- The cells of a line with ampersands between them hold no command that none of the cells holds. -/
theorem absent_cells {name : List Char} {row : List (List Char)} (cells : ∀ cell ∈ row, Absent ('\\' :: name) cell) :
    Absent ('\\' :: name) (" & ".toList.intercalate row) :=
  .intercalate (absent_of_not_mem (by decide)) cells

/-- The lines of a table begin with a line feed, and the table does not end in them. Each is looked at together
with the line feed behind it, without which the line break could be the first half of another command. -/
theorem absent_lines (cells : ∀ row ∈ rows, ∀ cell ∈ row, IsCell cell) :
    ∃ lines, (rows.map rowLine).flatMap (· ++ " \\\\".toList) ++ ['\n'] = '\n' :: lines ∧
      Absent tableEnd lines := by
  induction rows with
  | nil => exact ⟨[], rfl, trivial⟩
  | cons row others ih =>
      obtain ⟨lines, shape, later⟩ := ih fun r member => cells r (List.mem_cons_of_mem row member)
      have first : Absent tableEnd (" & ".toList.intercalate row) :=
        absent_cells fun cell member => (cells row List.mem_cons_self cell member).inside
      have turn : Absent tableEnd " \\\\\n".toList := .of_check (by decide)
      have feed : " \\\\\n".toList = " \\\\".toList ++ ['\n'] := by decide
      refine ⟨" & ".toList.intercalate row ++ (" \\\\\n".toList ++ lines), ?_, first.append (turn.append later)⟩
      rw [List.map_cons, List.flatMap_cons, List.append_assoc, shape, feed]
      simp only [rowLine, List.cons_append, List.append_assoc, List.nil_append]

/-- A table does not end before its end. -/
theorem Table.absent_inside {t : Table} (columns : ∀ column ∈ t.columns, IsColumn column)
    (cells : ∀ row ∈ t.rows, ∀ cell ∈ row, IsCell cell) : Absent tableEnd t.inside := by
  obtain ⟨lines, shape, body⟩ := absent_lines cells
  have spec : Absent tableEnd ([' '].intercalate t.columns) :=
    .intercalate (absent_of_not_mem (by decide)) fun column member => (columns column member).inside
  have brace : Absent tableEnd ['\x7d', '\n'] := absent_of_not_mem (by decide)
  rw [Table.inside, shape]
  exact spec.append (brace.append body)

/-- The cells of a line are read back. -/
theorem splitOn_rowLine {row : List (List Char)} (some : row ≠ []) (cells : ∀ cell ∈ row, IsCell cell) :
    splitOn " & ".toList ((rowLine row).drop 1) = row :=
  splitOn_intercalate some fun cell member => (cells cell member).whole

/-- A table is read back from its source, whatever stands before and behind it. -/
theorem Table.read?_source {t : Table} {front : List Char} (before : IsPart tableOpening front)
    (some : t.columns ≠ []) (columns : ∀ column ∈ t.columns, IsColumn column)
    (cells : ∀ row ∈ t.rows, row ≠ [] ∧ ∀ cell ∈ row, IsCell cell) (rest : List Char) :
    Table.read? (front ++ (tableOpening ++ (t.inside ++ (tableEnd ++ rest)))) = .some t := by
  have opened : after? tableOpening (front ++ (tableOpening ++ (t.inside ++ (tableEnd ++ rest)))) =
      .some (t.inside ++ (tableEnd ++ rest)) := after?_part_append before _
  have closed : upTo tableEnd (t.inside ++ (tableEnd ++ rest)) = t.inside :=
    upTo_append (absent_inside columns fun row member => (cells row member).2) rest
  -- the first line follows the brace behind the columns, which hold no line feed
  have spec : upTo "\x7d\n".toList t.inside = [' '].intercalate t.columns := by
    obtain ⟨lines, shape, -⟩ := absent_lines fun row member => (cells row member).2
    have lined : Absent ['\n'] ([' '].intercalate t.columns) :=
      .intercalate (absent_of_not_mem (by decide)) fun column member => absent_of_not_mem (columns column member).lined
    rw [Table.inside, shape]
    exact upTo_part_append (lined.isPart_cons (by decide)) lines
  have lines : splitOn " \\\\".toList ((t.rows.map rowLine).flatMap (· ++ " \\\\".toList) ++ ['\n']) =
      t.rows.map rowLine ++ [['\n']] := by
    refine splitOn_flatMap ?_ (absent_of_not_mem (by decide)).isPart
    intro line member
    obtain ⟨row, among, rfl⟩ := List.mem_map.1 member
    have feed : Absent "\\\\".toList ['\n'] := absent_of_not_mem (by decide)
    exact (feed.append (absent_cells fun cell inside => ((cells row among).2 cell inside).unbroken)).isPart_cons
      (by decide)
  have body : t.inside.drop (([' '].intercalate t.columns).length + 1) =
      (t.rows.map rowLine).flatMap (· ++ " \\\\".toList) ++ ['\n'] := by
    rw [Table.inside, List.append_cons]
    exact List.drop_left' (by rw [List.length_append, List.length_singleton])
  have columnsRead : splitOn [' '] ([' '].intercalate t.columns) = t.columns :=
    splitOn_intercalate some fun column member => (absent_of_not_mem (columns column member).unspaced).isPart
  have rowsRead : (t.rows.map rowLine).map (fun line => splitOn " & ".toList (line.drop 1)) = t.rows := by
    rw [List.map_map]
    refine (List.map_congr_left fun row member => ?_).trans (List.map_id' t.rows)
    exact splitOn_rowLine (cells row member).1 (cells row member).2
  rw [Table.read?, opened, Option.map_some]
  simp only [closed, spec, body, lines, columnsRead, List.dropLast_concat, rowsRead]

/-! ### Grids of skills -/

variable {items : List Source} {columns : Nat}

/-- A grid as a table. -/
def gridTable (columns : Nat) (items : List Source) : Table where
  columns := List.replicate columns (columnSpec columns).render
  rows := (gridRows columns items).map (List.map Source.render)

theorem gridRows_ne_nil (some : items ≠ []) (filled : 0 < columns) : gridRows columns items ≠ [] := by
  intro none
  obtain ⟨-, padding, -, whole⟩ := gridRows_padding filled items
  rw [none, List.flatten_nil] at whole
  exact some (List.append_eq_nil_iff.1 whole.symm).1

/-- The rows of a grid, each on a line of its own. -/
theorem render_gridBody {rows : List (List Source)} (some : rows ≠ []) :
    '\n' :: Source.render (join (code "\n") (rows.map gridRow)) =
      ((rows.map (List.map Source.render)).map rowLine).flatMap (· ++ " \\\\".toList) := by
  have line : "\n".toList = ['\n'] := rfl
  have lines := append_intercalate ['\n'] ((rows.map gridRow).map Source.render) (by simpa using some)
  rw [render_join, render_code, line, ← List.singleton_append, lines, List.flatMap_map, List.flatMap_map, List.flatMap_map,
    List.flatMap_map]
  congr 1
  funext row
  rw [gridRow, Source.render_append, render_join, render_code, render_code, rowLine]
  rfl

/-- The source of a grid is the source of its table, in a group of small type. -/
theorem render_skillsGrid (some : items ≠ []) (columns : Nat) :
    (skillsGrid items columns).render =
      "\x7b\\small\n".toList ++ (tableOpening ++ ((gridTable (max columns 1) items).inside ++
        (tableEnd ++ ['\x7d']))) := by
  have filled : 0 < max columns 1 := by omega
  have body := render_gridBody (gridRows_ne_nil some filled)
  have nonempty : items.isEmpty = false := by rwa [Bool.eq_false_iff, ne_eq, List.isEmpty_iff]
  have opening : '\x7b' :: ("\\small\n\\begin\x7btabular\x7d".toList ++ ['\x7b']) =
      "\x7b\\small\n".toList ++ tableOpening := by decide
  have closing : "\n\\end\x7btabular\x7d".toList = '\n' :: tableEnd := by decide
  have line : "\n".toList = ['\n'] := rfl
  have space : " ".toList = [' '] := rfl
  rw [skillsGrid, nonempty, if_neg Bool.false_ne_true, Table.inside, gridTable, ← body, ← List.append_assoc,
    ← opening]
  simp only [render_group, Source.render_append, render_code, render_join, closing, line, space,
    List.map_replicate, List.append_assoc, List.cons_append, List.nil_append]

/-- Whatever a user types, it is the text of a cell. -/
theorem isCell_text (raw : String) : IsCell (text raw).render :=
  ⟨absent_text (by decide) raw, absent_text (by decide) raw, isPart_text raw⟩

/-- Every cell of a grid holds what a user typed, or nothing. -/
theorem isCell_gridRows {raw : List String} {row : List Source} (member : row ∈ gridRows columns (textItems raw)) :
    ∀ cell ∈ row.map Source.render, IsCell cell := by
  intro cell listed
  obtain ⟨p, among, rfl⟩ := List.mem_map.1 listed
  rcases mem_gridRows member among with item | rfl
  · obtain ⟨s, -, rfl⟩ := List.mem_map.1 item
    exact isCell_text s
  · exact ⟨trivial, trivial, trivial⟩

/-- A number of hundredths is written with digits and a point. -/
theorem isDigit_or_point {n : Nat} {c : Char} (h : c ∈ (hundredthsText n).toList) : c.isDigit = true ∨ c = '.' := by
  have point : ".".toList = ['.'] := rfl
  simp only [hundredthsText, String.toList_append, List.mem_append, point, List.mem_singleton] at h
  rcases h with ((whole | rfl) | tenths) | hundredths
  · exact .inl (Ink.isDigit_of_mem whole)
  · exact .inr rfl
  · exact .inl (Ink.isDigit_of_mem tenths)
  · exact .inl (Ink.isDigit_of_mem hundredths)

/-- In the specification of a column there is no space, and no command but the one its width is given by. -/
theorem isColumn_columnSpec (columns : Nat) : IsColumn (columnSpec columns).render := by
  have figures : ∀ c, c.isDigit = false → c ≠ '.' → c ∉ (hundredthsText (cellHundredths columns)).toList := by
    intro c digit point member
    rcases isDigit_or_point member with isDigit | rfl
    · rw [digit] at isDigit
      cases isDigit
    · exact point rfl
  have spec : (columnSpec columns).render =
      "p\x7b".toList ++ ((hundredthsText (cellHundredths columns)).toList ++ "\\textwidth\x7d".toList) := by
    have width : "\\textwidth\x7d".toList = "\\textwidth".toList ++ ['\x7d'] := by decide
    rw [columnSpec, Source.render_append, render_group, render_code, render_code, String.toList_append, width,
      List.append_assoc]
    rfl
  have lead : Absent tableEnd "p\x7b".toList := absent_of_not_mem (by decide)
  have share : Absent tableEnd (hundredthsText (cellHundredths columns)).toList :=
    absent_of_not_mem (figures '\\' (by decide) (by decide))
  have width : Absent tableEnd "\\textwidth\x7d".toList := .of_check (by decide)
  rw [spec]
  refine ⟨lead.append (share.append width), ?_, ?_⟩
  · simp only [List.mem_append, not_or]
    exact ⟨by decide, figures ' ' (by decide) (by decide), by decide⟩
  · simp only [List.mem_append, not_or]
    exact ⟨by decide, figures '\n' (by decide) (by decide), by decide⟩

/-- A grid of skills is read back with its columns and all cells of its rows. -/
theorem read_skillsGrid {raw : List String} (some : textItems raw ≠ []) (columns : Nat) :
    Table.read? (skillsGrid (textItems raw) columns).render =
      .some (gridTable (max columns 1) (textItems raw)) := by
  have filled : 0 < max columns 1 := by omega
  rw [render_skillsGrid some]
  refine Table.read?_source (Absent.of_check (by decide)).isPart ?_ ?_ ?_ _
  · rw [gridTable, ne_eq, List.replicate_eq_nil_iff]
    omega
  · intro column member
    rw [List.eq_of_mem_replicate member]
    exact isColumn_columnSpec _
  · intro row member
    obtain ⟨sources, among, rfl⟩ := List.mem_map.1 member
    have long := (gridRows_padding filled (textItems raw)).1 sources among
    refine ⟨fun none => ?_, isCell_gridRows among⟩
    rw [List.map_eq_nil_iff.1 none, List.length_nil] at long
    omega

/-! ### Lists -/

/-- What stands before an item of a list. -/
def itemMark : List Char :=
  "\n\\item ".toList

/-- The end of a list. -/
def listEnd : List Char :=
  "\n\\end\x7bitemize\x7d".toList

/-- Read the items of a list. What stands before the first of them is its opening. -/
def readItems (s : List Char) : List (List Char) :=
  (splitOn itemMark (upTo listEnd s)).tail

/-- The opening of a list, up to the mark of its first item. -/
def listFront (options : String) : List Char :=
  "\\begin\x7bitemize\x7d".toList ++ options.toList

/-- A list is its items with a mark before each of them, between its opening and its end. -/
theorem render_itemize (some : items ≠ []) (options : String) :
    (itemize options items).render =
      itemMark.intercalate (listFront options :: items.map Source.render) ++ listEnd := by
  have nonempty : items.isEmpty = false := by rwa [Bool.eq_false_iff, ne_eq, List.isEmpty_iff]
  have opening : ("\\begin\x7b" ++ "itemize" ++ "\x7d" ++ options ++ "\n" : String).toList =
      listFront options ++ "\n".toList := by
    have words : ("\\begin\x7b" ++ "itemize" ++ "\x7d" : String).toList = "\\begin\x7bitemize\x7d".toList := by
      decide
    rw [String.toList_append, String.toList_append]
    exact congrArg (· ++ options.toList ++ "\n".toList) words
  have closing : ("\n\\end\x7b" ++ "itemize" ++ "\x7d" : String).toList = listEnd := by decide
  have mark : itemMark = "\n".toList ++ "\\item ".toList := by decide
  have lines : "\n".toList ++ Source.render (join (code "\n") (items.map fun item => code "\\item " ++ item)) =
      (items.map Source.render).flatMap (itemMark ++ ·) := by
    rw [render_join, render_code, append_intercalate _ _ (by simpa using some), List.flatMap_map, List.flatMap_map, List.flatMap_map,
      mark]
    simp only [Source.render_append, render_code, List.append_assoc]
  rw [intercalate_cons, ← lines, itemize, nonempty, if_neg Bool.false_ne_true, environment, Source.render_append,
    Source.render_append, render_code _, render_code _]
  generalize Source.render (join _ _) = body
  calc _ = (listFront options ++ "\n".toList) ++ body ++ listEnd := congrArg₂ (· ++ body ++ ·) opening closing
    _ = listFront options ++ ("\n".toList ++ body) ++ listEnd := by rw [List.append_assoc (listFront options)]

/-- The items of a list are read back, whatever a user types in them. -/
theorem readItems_itemize {options : String} (ink : Ink options) (raw : List String) :
    readItems (itemize options (textItems raw)).render = (textItems raw).map Source.render := by
  by_cases some : textItems raw = []
  · rw [some]
    rfl
  have plain : '\\' ∉ options.toList := fun member => (isInk_iff.1 (ink _ member)).1 rfl
  have absent : ∀ {name : List Char}, spellings.all (isAbsent ('\\' :: name)) = true →
      isAbsent ('\\' :: name) "\\begin\x7bitemize\x7d".toList = true →
      ∀ part ∈ listFront options :: (textItems raw).map Source.render, Absent ('\\' :: name) part := by
    intro name forms opening part member
    rcases List.mem_cons.1 member with rfl | among
    · exact (Absent.of_check opening).append (absent_of_not_mem plain)
    · obtain ⟨p, item, rfl⟩ := List.mem_map.1 among
      obtain ⟨s, -, rfl⟩ := List.mem_map.1 item
      exact absent_text forms s
  have inside : IsPart listEnd (itemMark.intercalate (listFront options :: (textItems raw).map Source.render)) := by
    have mark : Absent "\\end\x7bitemize\x7d".toList itemMark := .of_check (by decide)
    exact (Absent.intercalate mark (absent (by decide) (by decide))).isPart_cons (by decide)
  have closed : upTo listEnd (itemize options (textItems raw)).render =
      itemMark.intercalate (listFront options :: (textItems raw).map Source.render) := by
    have cut : upTo listEnd (itemMark.intercalate (listFront options :: (textItems raw).map Source.render) ++
        (listEnd ++ [])) = itemMark.intercalate (listFront options :: (textItems raw).map Source.render) :=
      upTo_part_append inside []
    rwa [List.append_nil, ← render_itemize some] at cut
  have parts : splitOn itemMark (itemMark.intercalate (listFront options :: (textItems raw).map Source.render)) =
      listFront options :: (textItems raw).map Source.render :=
    splitOn_intercalate (List.cons_ne_nil _ _) fun part member =>
      (absent (by decide) (by decide) part member).isPart_cons (by decide)
  rw [readItems, closed, parts, List.tail_cons]

/-! ### Skills -/

/-- What is shown of the skills that a user types, in a grid and in lists. -/
structure ShowsSkills (raw : List String) (columns : Nat) (s : Spacing) : Prop where
  /-- There is no grid only where no skill is typed. -/
  empty : (skillsGrid (textItems raw) columns).render = [] ↔ textItems raw = []
  /-- A grid has the columns it is asked for, at least one, and as many rows as it takes. The skills stand in its
  cells row by row, and only the last cells are empty, which are less than a row. -/
  grid : textItems raw ≠ [] →
    ∃ table, Table.read? (skillsGrid (textItems raw) columns).render = some table ∧
      table.columns.length = max columns 1 ∧
      table.rows.length = ((textItems raw).length + max columns 1 - 1) / max columns 1 ∧
      (∀ row ∈ table.rows, row.length = max columns 1) ∧
      ∃ padding < max columns 1,
        table.rows.flatten = (textItems raw).map Source.render ++ List.replicate padding []
  /-- The items of a list of bullets are the skills. -/
  bullets : readItems (bulletList (textItems raw) s).render = (textItems raw).map Source.render
  /-- So are those of a list of skills. -/
  list : readItems (skillList (textItems raw) s).render = (textItems raw).map Source.render
  /-- No skill is shown as an empty cell. -/
  visible : ∀ p ∈ textItems raw, p.render ≠ []

/-- However skills are listed, exactly the skills that are typed are shown, in their order. -/
theorem skills_read_back (raw : List String) (columns : Nat) (s : Spacing) : ShowsSkills raw columns s where
  empty := by
    rw [← Source.isBlank_iff, isBlank_skillsGrid, List.isEmpty_iff]
  grid some := by
    have filled : 0 < max columns 1 := by omega
    obtain ⟨full, padding, short, whole⟩ := gridRows_padding filled (textItems raw)
    refine ⟨gridTable (max columns 1) (textItems raw), read_skillsGrid some columns, ?_, ?_, ?_, padding, short, ?_⟩
    · rw [gridTable, List.length_replicate]
    · rw [gridTable, List.length_map, length_gridRows filled]
    · intro row member
      obtain ⟨sources, among, rfl⟩ := List.mem_map.1 member
      rw [List.length_map, full sources among]
    · rw [gridTable, ← List.map_flatten, whole, List.map_append, List.map_replicate, Source.render_nil]
  bullets := readItems_itemize (ink_bulletOptions s) raw
  list := readItems_itemize (ink_skillOptions s) raw
  visible p member none := by
    have seen := isBlank_textItems p member
    rw [Source.isBlank_iff.2 none] at seen
    cases seen

end Vitae

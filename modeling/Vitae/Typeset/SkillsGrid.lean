/-
Module: Vitae.Typeset.SkillsGrid
Layer: Typeset
Purpose: Skills in the cells of a grid, row by row.
Imports: Vitae.Number.Binary64, Vitae.Tex.Source
Main exports: gridRows, columnSpec, skillsGrid
-/
import Vitae.Number.Binary64
import Vitae.Tex.Source

namespace Vitae

open Tex Number

/-- Cut a list into rows of `columns` cells, the last of which may be shorter. `done` and `row` hold
the rows and the cells before, latest first. -/
def chunks {α : Type} (columns : Nat) (done : List (List α)) (row : List α) :
    List α → List (List α)
  | [] => (if row.isEmpty then done else row.reverse :: done).reverse
  | x :: rest =>
      if row.length + 1 < columns then chunks columns done (x :: row) rest
      else chunks columns ((x :: row).reverse :: done) [] rest

/-- The rows of a grid, where empty cells fill up the last one. -/
def gridRows (columns : Nat) (items : List Source) : List (List Source) :=
  (chunks columns [] [] items).map fun row => row ++ List.replicate (columns - row.length) []

/-- The share of the text width that all cells together take. The rest is room between them. -/
def gridWidth : Binary64 :=
  .ofRatio false 96 100

/-- The hundredths of the text width that a cell takes. -/
def cellHundredths (columns : Nat) : Nat :=
  match gridWidth.div (.ofNat columns) with
  | .finite x => divNearest .toEven (100 * x.ratio.1) x.ratio.2
  | _ => 0

/-- A number of hundredths with two decimals. -/
def hundredthsText (n : Nat) : String :=
  toString (n / 100) ++ "." ++ toString (n % 100 / 10) ++ toString (n % 10)

/-- The column of a grid: a paragraph of fixed width. -/
def columnSpec (columns : Nat) : Source :=
  code "p" ++ group (code (hundredthsText (cellHundredths columns) ++ "\\textwidth"))

/-- A row of cells. -/
def gridRow (cells : List Source) : Source :=
  join (code " & ") cells ++ code " \\\\"

/-- Skills in a grid of the given number of columns, at least one. Without skills there is no grid. -/
def skillsGrid (items : List Source) (columns : Nat) : Source :=
  if items.isEmpty then []
  else
    let columns := max columns 1
    let spec := join (code " ") (List.replicate columns (columnSpec columns))
    let body := join (code "\n") ((gridRows columns items).map gridRow)
    group (code "\\small\n\\begin{tabular}" ++ group spec ++ code "\n" ++ body ++
      code "\n\\end{tabular}")

end Vitae

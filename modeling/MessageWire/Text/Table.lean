import MessageWire.Text.Wrap
/-!
# Tables

Tables drawn with box characters, for terminals. Every column is as wide as its widest line, with a space
on either side. A cell may have several lines, and lines wider than any column are wrapped.
-/

namespace MessageWire.Text

/-- A table. Every row has a cell for each of the headings. -/
structure Table where
  headings : List String
  rows : List (List String)

namespace Table

/-- A rule across a table: its left end, what it is made of, its crossings and its right end. -/
structure Rule where
  left : String
  line : Char
  crossing : String
  right : String

/-- The rule above the headings. -/
def topRule : Rule := ⟨"┌", '─', "┬", "┐"⟩

/-- The rule below the headings. -/
def headingRule : Rule := ⟨"╞", '═', "╪", "╡"⟩

/-- The rule between two rows. -/
def rowRule : Rule := ⟨"├", '╌', "┼", "┤"⟩

/-- The rule at the end. -/
def bottomRule : Rule := ⟨"└", '─', "┴", "┘"⟩

/-- The widest that a column or what is drawn across it can be. -/
def maxWidth : Nat := 0xffff

/-- The lines of a cell, as they are given. -/
def cellLines (cell : String) : List String := cell.splitOn "\n"

/-- The width that a cell asks for: that of its widest line. -/
def cellWidth (cell : String) : Nat :=
  min maxWidth ((cellLines cell).foldl (fun n line => max n (width line)) 0)

/-- The widths of the columns. -/
def columnWidths (t : Table) : List Nat :=
  t.rows.foldl (fun widths row => List.zipWith max widths (row.map cellWidth)) (t.headings.map cellWidth)

/-- A rule across columns of the given widths. -/
def drawRule (rule : Rule) (widths : List Nat) : String :=
  let spans := widths.map fun n => String.ofList (List.replicate (min maxWidth (n + 2)) rule.line)
  rule.left ++ rule.crossing.intercalate spans ++ rule.right

/-- One line of a row: its texts, each filled up to the width of its column. -/
def drawLine (widths : List Nat) (texts : List String) : String :=
  let filled := List.zipWith (fun n s => " " ++ s ++ String.ofList (List.replicate (n - width s) ' ') ++ " ")
    widths texts
  "│" ++ "┆".intercalate filled ++ "│"

/-- The lines of a row. Cells with fewer lines than others end in empty ones. -/
def drawRow (widths : List Nat) (cells : List String) : List String :=
  let parts := List.zipWith (fun n cell => (cellLines cell).flatMap (wrap n)) widths cells
  let height := parts.foldl (fun n part => max n part.length) 0
  (List.range height).map fun i => drawLine widths (parts.map fun part => part.getD i "")

/-- The lines of a table. -/
def lines (t : Table) : List String :=
  let widths := t.columnWidths
  let rows := t.rows.map (drawRow widths)
  [drawRule topRule widths] ++ drawRow widths t.headings ++ [drawRule headingRule widths] ++
    List.intercalate [drawRule rowRule widths] rows ++ [drawRule bottomRule widths]

/-- A table as text, without a line break at its end. -/
def render (t : Table) : String := "\n".intercalate t.lines

end Table

end MessageWire.Text

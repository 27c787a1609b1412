/-
  HackPlatform.CommandLine.Grid
  ────────────────────────────────
  **GRIDS: text set in columns.**

  Every column is as wide as its widest cell; columns are one blank apart, and
  the last one is not filled up.
-/

namespace HackPlatform.CommandLine

/-- A number right-aligned in a field of blanks. -/
def alignRight (width : Nat) (text : String) : String :=
  String.ofList (List.replicate (width - text.length) ' ') ++ text

/-- A text filled up with blanks on the right. -/
def fillRight (width : Nat) (text : String) : String :=
  text ++ String.ofList (List.replicate (width - text.length) ' ')

/-- A number in four hexadecimal digits, or more if it needs them. -/
def hex4 (n : Nat) : String :=
  let digits := (Nat.toDigits 16 n).map Char.toUpper
  "0x" ++ String.ofList (List.replicate (4 - digits.length) '0' ++ digits)

namespace Grid

/-- The columns' widths after one row more. -/
def widen : List Nat → List String → List Nat
  | widths, [] => widths
  | [], cell :: row => cell.length :: widen [] row
  | w :: widths, cell :: row => max w cell.length :: widen widths row

/-- The widths of the columns. -/
def widths (rows : List (List String)) : List Nat := rows.foldl widen []

/-- One row, set in columns of given widths. -/
def renderRow : List Nat → List String → String
  | _, [] => ""
  | _, [last] => last
  | w :: widths, cell :: row => fillRight w cell ++ " " ++ renderRow widths row
  | [], cell :: row => cell ++ " " ++ renderRow [] row

/-- The rows, set in columns. -/
def render (rows : List (List String)) : List String :=
  let ws := widths rows
  rows.map (renderRow ws)

end Grid

end HackPlatform.CommandLine

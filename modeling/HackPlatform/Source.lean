/-
  HackPlatform.Source
  ────────────────────────────────
  **SOURCE LINES: the lines of a source text that carry code.**

  In both languages a `//` starts a comment that runs to the end of the line.
  Comments and the blanks around the code are dropped, and so are lines that
  are left empty; each line that stays keeps its number in the source text, so
  that a fault can be reported where its author will look for it.

      cleanLine             the code of one raw line, if it has any
      SourceLine.ofText     the code lines of a text
      SourceLine.ofBytes?   the code lines of a file's bytes; `none` if some line
                            is not well-formed UTF-8
-/
import HackPlatform.Text.Blank
import HackPlatform.Text.Lines

namespace HackPlatform

open Text

/-! ## §1. One line. -/

/-- What stands before the first `//`, or everything if there is none. -/
def beforeComment (cs : List Char) : List Char := go [] cs
where
  /-- `code` is the code seen so far, last character first. -/
  go (code : List Char) : List Char → List Char
    | '/' :: '/' :: _ => code.reverse
    | c :: cs => go (c :: code) cs
    | [] => code.reverse

/-- The code of a raw line: no comment, no blanks around it; `none` if nothing is
left. -/
def cleanLine (raw : String) : Option String :=
  match trim (beforeComment raw.toList) with
  | [] => none
  | code => some (String.ofList code)

/-! ## §2. A whole text. -/

/-- A line that carries code. -/
structure SourceLine where
  /-- The 1-based number of the line in its source text. -/
  number : Nat
  /-- Its code. -/
  text : String
  deriving DecidableEq, Repr

namespace SourceLine

/-- Number raw lines from 1 and keep those that carry code. -/
def ofRawLines (raws : List String) : List SourceLine :=
  raws.zipIdx.filterMap fun (raw, i) => (cleanLine raw).map fun code => ⟨i + 1, code⟩

/-- The code lines of a text, whose lines are closed by newlines. -/
def ofText (text : String) : List SourceLine :=
  ofRawLines ((linesBy (· == '\n') text.toList).map String.ofList)

/-- The code lines of a file given by its bytes, which are cut at the newline byte
and decoded line by line. -/
def ofBytes? (bytes : ByteArray) : Option (List SourceLine) :=
  ((linesBy (· == (0x0A : UInt8)) bytes.data.toList).mapM fun line =>
    String.fromUTF8? ⟨line.toArray⟩).map ofRawLines

end SourceLine

end HackPlatform

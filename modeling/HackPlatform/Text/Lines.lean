/-
  HackPlatform.Text.Lines
  ────────────────────────────────
  **CUTTING A TEXT INTO LINES.**

  Every line is closed by its terminator; what follows the last terminator is
  a line only if something is there.  So `"a\n"` is one line, `"a\nb"` is two,
  and `""` is none.  The same cut serves characters and bytes, which is what
  lets a file be read byte by byte and still number its lines as its decoded
  text would.

      linesBy           the cut, for any alphabet and any terminator
      splitAtFirst      a text before and after the first separator
-/

namespace HackPlatform.Text

/-! ## §1. Lines. -/

/-- The lines of a sequence whose lines are closed by elements satisfying `stop`. -/
def linesBy {α : Type} (stop : α → Bool) (xs : List α) : List (List α) :=
  xs.foldr extend []
where
  /-- Put one element in front of the lines that follow it. -/
  extend (x : α) (lines : List (List α)) : List (List α) :=
    if stop x then [] :: lines
    else match lines with
      | [] => [[x]]
      | l :: ls => (x :: l) :: ls

/-! ## §2. One separator. -/

/-- The parts before and after the first element equal to `sep`; no second part if
there is none. -/
def splitAtFirst (sep : Char) (cs : List Char) : List Char × Option (List Char) :=
  match cs.dropWhile (· != sep) with
  | [] => (cs, none)
  | _ :: rest => (cs.takeWhile (· != sep), some rest)

end HackPlatform.Text

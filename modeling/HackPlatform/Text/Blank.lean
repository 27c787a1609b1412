/-
  HackPlatform.Text.Blank
  ────────────────────────────────
  **BLANK CHARACTERS AND WORDS.**

  Both source languages separate their tokens by blanks and ignore blanks at
  either end of a line.  A blank is a character with the Unicode property
  `White_Space`, so a no-break space or an ideographic space separates two
  tokens just as a tab does, while a zero-width space does not.

      isBlank         the 25 blank characters
      trim            a text without the blanks at its two ends
      words           the maximal blank-free pieces of a text
      withoutBlanks   a text with every blank struck out
-/

namespace HackPlatform.Text

/-! ## §1. The blank characters. -/

/-- The characters with Unicode property `White_Space`. -/
def isBlank (c : Char) : Bool :=
  let n := c.toNat
  (0x09 ≤ n && n ≤ 0x0D) || n == 0x20 || n == 0x85 || n == 0xA0 || n == 0x1680
    || (0x2000 ≤ n && n ≤ 0x200A) || n == 0x2028 || n == 0x2029 || n == 0x202F
    || n == 0x205F || n == 0x3000

/-! ## §2. Trimming. -/

/-- The text without the blanks it starts with. -/
def trimLeft (cs : List Char) : List Char := cs.dropWhile isBlank

/-- The text without the blanks it ends with. -/
def trimRight (cs : List Char) : List Char := (cs.reverse.dropWhile isBlank).reverse

/-- The text without the blanks at either end. -/
def trim (cs : List Char) : List Char := trimRight (trimLeft cs)

/-- The text with every blank struck out. -/
def withoutBlanks (cs : List Char) : List Char := cs.filter (!isBlank ·)

/-! ## §3. Splitting. -/

/-- The pieces between the elements that satisfy `sep`: one more piece than there
are separators, so the result is never empty. -/
def splitAtEach {α : Type} (sep : α → Bool) (xs : List α) : List (List α) :=
  xs.foldr piece [[]]
where
  /-- Put one element in front of the pieces that follow it. -/
  piece (x : α) (pieces : List (List α)) : List (List α) :=
    if sep x then [] :: pieces
    else match pieces with
      | [] => [[x]]
      | p :: ps => (x :: p) :: ps

/-- The maximal blank-free pieces of a text, in order. -/
def words (cs : List Char) : List (List Char) :=
  (splitAtEach isBlank cs).filter (!·.isEmpty)

end HackPlatform.Text

/-
  HackPlatform.Symbol
  ────────────────────────────────
  **SYMBOLS: the names both languages accept.**

  A symbol is a non-empty text of ASCII letters, digits and the four marks
  `_ . $ :` that does not start with a digit.  Labels, variables and functions
  are all named by symbols.  Any text can be turned into one: what is not
  allowed becomes `_`, and a `_` goes in front where a symbol cannot start.

      isSymbol    the shape
      toSymbol    the symbol nearest to a text; a symbol is left as it is
-/

namespace HackPlatform

/-! ## §1. The alphabet. -/

/-- The four characters, besides letters and digits, that a symbol may hold. -/
def symbolMarks : List Char := ['_', '.', '$', ':']

/-- May stand anywhere in a symbol but at its start: ASCII letters, digits and the
four marks. -/
def isSymbolChar (c : Char) : Bool := c.isAlphanum || symbolMarks.contains c

/-- May start a symbol: any symbol character that is no digit. -/
def isSymbolStart (c : Char) : Bool := c.isAlpha || symbolMarks.contains c

/-! ## §2. Symbols. -/

/-- The shape of a symbol, on characters. -/
def isSymbolText : List Char → Bool
  | [] => false
  | c :: cs => isSymbolStart c && cs.all isSymbolChar

/-- The text is a symbol. -/
def isSymbol (name : String) : Bool := isSymbolText name.toList

/-- One character, as a symbol would hold it. -/
def symbolCharOf (c : Char) : Char := if isSymbolChar c then c else '_'

/-- A text of symbol characters, with a `_` in front if a symbol cannot start so. -/
def guardStart : List Char → List Char
  | [] => ['_']
  | c :: cs => if c.isDigit then '_' :: c :: cs else c :: cs

/-- The symbol nearest to a text. -/
def toSymbol (text : String) : String :=
  String.ofList (guardStart (text.toList.map symbolCharOf))

end HackPlatform

/-
  HackPlatform.Text.Decimal
  ────────────────────────────────
  **DECIMAL NUMERALS.**

  A numeral is a non-empty run of the ASCII digits; leading zeros are allowed
  and change nothing.  Reading stops at a bound, so that a numeral of any
  length is judged in time linear in its length.

      isNumeral     the shape
      readUpTo      the value, if it does not exceed a bound
-/

namespace HackPlatform.Text

/-- Only ASCII digits, and at least one. -/
def isNumeral (cs : List Char) : Bool := !cs.isEmpty && cs.all Char.isDigit

/-- The value of a run of digits, read from the left on top of the value `n` of
the digits before it; `none` as soon as it exceeds `bound`. -/
def readUpToFrom (bound : Nat) : Nat → List Char → Option Nat
  | n, [] => some n
  | n, c :: cs =>
      let n' := 10 * n + (c.toNat - '0'.toNat)
      if n' ≤ bound then readUpToFrom bound n' cs else none

/-- The value of a run of digits, if it is at most `bound`. -/
def readUpTo (bound : Nat) (cs : List Char) : Option Nat := readUpToFrom bound 0 cs

end HackPlatform.Text

/-
  HackPlatform.Asm.Fault
  ────────────────────────────────
  **WHAT CAN BE WRONG WITH A LINE OF ASSEMBLY.**

  The causes fall into two groups: either the line cannot be read, or it was
  read but its label cannot be bound or its variable cannot be allocated.
-/
import HackPlatform.Diagnosis
import HackPlatform.Asm.Instruction

namespace HackPlatform.Asm

/-- A cause for which assembling stops. -/
inductive Fault where
  /-- `@` with nothing after it. -/
  | emptyAddress
  /-- The operand starts with a digit but is no numeral. -/
  | malformedLiteral (operand : String)
  /-- The number has more than 15 bits. -/
  | literalTooLarge (operand : String)
  /-- The operand is neither a numeral nor a symbol. -/
  | invalidSymbol (operand : String)
  /-- The line starts with `(` but does not end with `)`. -/
  | unclosedLabel
  /-- What stands in the parentheses is no symbol. -/
  | invalidLabel (name : String)
  /-- Two `=`. -/
  | secondEquals
  /-- Two `;` after the `=`. -/
  | secondSemicolon
  /-- Nothing before the `=`. -/
  | emptyDest
  /-- No destination is spelt so. -/
  | unknownDest (token : String)
  /-- Nothing where the computation should be. -/
  | emptyComp
  /-- No computation is spelt so. -/
  | unknownComp (token : String)
  /-- Nothing after the `;`. -/
  | emptyJump
  /-- No jump is spelt so. -/
  | unknownJump (token : String)
  /-- The label would name an address that does not fit in 15 bits. -/
  | labelPastEnd (name : String)
  /-- The label is bound to another address already. -/
  | labelRebound (name : String) (address : Nat)
  /-- Every RAM address for variables is taken. -/
  | ramExhausted (name : String)
  deriving DecidableEq, Repr

/-- The explanation of a fault. -/
def Fault.diagnosis : Fault → Diagnosis
  | emptyAddress => .malformed "`@` without a value"
  | malformedLiteral operand => .malformed s!"malformed literal `{operand}`"
  | literalTooLarge operand =>
      .malformed s!"literal `{operand}` does not fit in 15 bits (max {maxAddress})"
  | invalidSymbol operand => .malformed s!"invalid symbol `{operand}`"
  | unclosedLabel => .malformed "label is missing its closing `)`"
  | invalidLabel name => .malformed s!"invalid label name `{name}`"
  | secondEquals => .malformed "more than one `=` in compute instruction"
  | secondSemicolon => .malformed "more than one `;` in compute instruction"
  | emptyDest => .malformed "empty destination before `=`"
  | unknownDest token => .unknown "dest" token
  | emptyComp => .malformed "compute instruction has no computation"
  | unknownComp token => .unknown "comp" token
  | emptyJump => .malformed "empty jump condition after `;`"
  | unknownJump token => .unknown "jump" token
  | labelPastEnd name => .misuse s!"label `{name}` points past the end of ROM"
  | labelRebound name address =>
      .misuse s!"label `{name}` is already bound to ROM address {address}"
  | ramExhausted name => .misuse s!"no RAM left to allocate variable `{name}`"

end HackPlatform.Asm

/-
  HackPlatform.Asm.Reading
  ────────────────────────────────
  **READING A LINE OF ASSEMBLY.**

  The first character decides the kind of line: `@` an address, `(` a label,
  anything else a compute instruction.  The line is not trimmed first, so a
  blank in front of `@` makes it a (faulty) compute line; blanks around an
  operand or a label name, and anywhere in a compute instruction, do not count.

  A line with several faults is reported for the first of them, in this order:
  a second `=`, a second `;`, then destination, computation and jump.
-/
import HackPlatform.Symbol
import HackPlatform.Text.Blank
import HackPlatform.Text.Lines
import HackPlatform.Text.Decimal
import HackPlatform.Asm.Instruction
import HackPlatform.Asm.Fault

namespace HackPlatform.Asm

open Text

/-! ## §1. Addresses and labels. -/

/-- Read the operand of an address.  A leading digit commits it to being a number. -/
def readOperand (cs : List Char) : Except Fault Operand :=
  match trim cs with
  | [] => .error .emptyAddress
  | c :: cs =>
      let operand := c :: cs
      if c.isDigit then
        if !isNumeral operand then .error (.malformedLiteral (String.ofList operand))
        else match readUpTo maxAddress operand with
          | some value => .ok (.literal value)
          | none => .error (.literalTooLarge (String.ofList operand))
      else if isSymbolText operand then .ok (.symbol (String.ofList operand))
      else .error (.invalidSymbol (String.ofList operand))

/-- Read what follows the opening parenthesis of a label. -/
def readLabel (cs : List Char) : Except Fault String :=
  if cs.getLast? = some ')' then
    let name := trim cs.dropLast
    if isSymbolText name then .ok (String.ofList name)
    else .error (.invalidLabel (String.ofList name))
  else .error .unclosedLabel

/-! ## §2. Compute instructions. -/

/-- The three parts of a compute instruction, as they are spelt. -/
structure ComputeText where
  /-- What stands before the `=`, if there is one. -/
  dest : Option (List Char)
  /-- What is computed. -/
  comp : List Char
  /-- What stands after the `;`, if there is one. -/
  jump : Option (List Char)
  deriving DecidableEq, Repr

/-- Take a text without blanks apart at its `=`, and what follows at its `;`. -/
def ComputeText.split (cs : List Char) : Except Fault ComputeText :=
  let (dest, rest) := match splitAtFirst '=' cs with
    | (before, some after) => (some before, after)
    | (all, none) => (none, all)
  if rest.contains '=' then .error .secondEquals
  else
    let (comp, jump) := splitAtFirst ';' rest
    if (jump.getD []).contains ';' then .error .secondSemicolon
    else .ok ⟨dest, comp, jump⟩

/-- Read a destination; without a `=` nothing is stored. -/
def readDest : Option (List Char) → Except Fault Dest
  | none => .ok .nowhere
  | some [] => .error .emptyDest
  | some cs => match Dest.ofLetters? cs with
      | some dest => .ok dest
      | none => .error (.unknownDest (String.ofList cs))

/-- Read a computation. -/
def readComp : List Char → Except Fault Comp
  | [] => .error .emptyComp
  | cs => match Comp.ofMnemonic? (String.ofList cs) with
      | some comp => .ok comp
      | none => .error (.unknownComp (String.ofList cs))

/-- Read a jump; without a `;` there is none. -/
def readJump : Option (List Char) → Except Fault Jump
  | none => .ok .never
  | some [] => .error .emptyJump
  | some cs => match Jump.ofMnemonic? (String.ofList cs) with
      | some jump => .ok jump
      | none => .error (.unknownJump (String.ofList cs))

/-- Read a compute instruction. -/
def readCompute (cs : List Char) : Except Fault Instruction := do
  let parts ← ComputeText.split (withoutBlanks cs)
  let dest ← readDest parts.dest
  let comp ← readComp parts.comp
  let jump ← readJump parts.jump
  return .compute dest comp jump

/-! ## §3. Lines. -/

/-- Read one line of assembly. -/
def Instruction.read (line : String) : Except Fault Instruction :=
  match line.toList with
  | '@' :: cs => (readOperand cs).map .address
  | '(' :: cs => (readLabel cs).map .label
  | cs => readCompute cs

end HackPlatform.Asm

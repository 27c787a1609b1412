/-
  HackPlatform.Vm.Reading
  ────────────────────────────────
  **READING A COMMAND.**

  A line is cut into tokens at its blanks.  The first names the command and
  decides how many operands follow; then the operands are read from left to
  right, and last the command is held against the limits of the machine.
-/
import HackPlatform.Symbol
import HackPlatform.Text.Blank
import HackPlatform.Text.Decimal
import HackPlatform.Vm.Fault

namespace HackPlatform.Vm

open Text

/-! ## §1. Operands. -/

/-- Read a name. -/
def readName (token : String) : Except Fault String :=
  if isSymbol token then .ok token else .error (.invalidName token)

/-- The largest number that can be read at all; limits below it are checked later. -/
def maxNumber : Nat := 65535

/-- Read a number of at most 16 bits. -/
def readNumber (token : String) : Except Fault Nat :=
  if isNumeral token.toList then
    match readUpTo maxNumber token.toList with
    | some value => .ok value
    | none => .error (.numberTooLarge token)
  else .error (.notNumber token)

/-- Read the name of a segment. -/
def readSegment (token : String) : Except Fault Segment :=
  match Segment.ofName? token with
  | some segment => .ok segment
  | none => .error (.unknownSegment token)

/-- The fault of a wrong number of operands. -/
def arityFault (expected : Nat) (args : List String) : Fault :=
  if args.length < expected then .missingArguments expected args.length
  else .trailing (args.drop expected)

/-- Read no operand. -/
def readNone (command : Command) : List String → Except Fault Command
  | [] => .ok command
  | args => .error (arityFault 0 args)

/-- Read a name as the only operand. -/
def readOne (command : String → Command) : List String → Except Fault Command
  | [name] => (readName name).map command
  | args => .error (arityFault 1 args)

/-- Read a segment and an index. -/
def readCell (command : Segment → Nat → Command) : List String → Except Fault Command
  | [segment, index] => do
      let segment ← readSegment segment
      let index ← readNumber index
      return command segment index
  | args => .error (arityFault 2 args)

/-- Read a name and a count. -/
def readCounted (command : String → Nat → Command) : List String → Except Fault Command
  | [name, count] => do
      let name ← readName name
      let count ← readNumber count
      return command name count
  | args => .error (arityFault 2 args)

/-! ## §2. Commands. -/

namespace Command

/-- The command that the tokens of a line spell, whatever its limits. -/
def ofTokens : List String → Except Fault Command
  | [] => .error .emptyCommand
  | op :: args =>
      match Arithmetic.ofMnemonic? op with
      | some op => readNone (.arithmetic op) args
      | none =>
          match op with
          | "push" => readCell .push args
          | "pop" => readCell .pop args
          | "label" => readOne .label args
          | "goto" => readOne .goto args
          | "if-goto" => readOne .ifGoto args
          | "function" => readCounted .function args
          | "call" => readCounted .call args
          | "return" => readNone .ret args
          | _ => .error (.unknownCommand op)

/-- The tokens of a line. -/
def tokens (line : String) : List String := (words line.toList).map String.ofList

/-- Read one command. -/
def read (line : String) : Except Fault Command := do
  let command ← ofTokens (tokens line)
  command.check
  return command

end Command

end HackPlatform.Vm

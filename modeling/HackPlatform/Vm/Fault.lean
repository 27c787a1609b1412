/-
  HackPlatform.Vm.Fault
  ────────────────────────────────
  **WHAT CAN BE WRONG WITH A COMMAND.**

  Either the line cannot be read, or it names something out of its range: an
  operand that no address instruction can carry, or a cell that its segment
  does not have.
-/
import HackPlatform.Diagnosis
import HackPlatform.Asm.Instruction
import HackPlatform.Vm.Command

namespace HackPlatform.Vm

open Asm (maxAddress)

/-- The words a call saves below the callee's local variables. -/
def frameSize : Nat := 5

/-- A cause for which a command is refused. -/
inductive Fault where
  /-- No token at all. -/
  | emptyCommand
  /-- The first token names no command. -/
  | unknownCommand (token : String)
  /-- Fewer operands than the command takes. -/
  | missingArguments (expected found : Nat)
  /-- More operands than the command takes; these are too many. -/
  | trailing (tokens : List String)
  /-- No segment is called so. -/
  | unknownSegment (token : String)
  /-- The operand should be a symbol. -/
  | invalidName (token : String)
  /-- The operand should be a numeral. -/
  | notNumber (token : String)
  /-- The number has more than 16 bits. -/
  | numberTooLarge (token : String)
  /-- A constant cannot be stored into. -/
  | popConstant
  /-- The index has more than 15 bits. -/
  | indexTooLarge (segment : Segment) (index : Nat)
  /-- The segment has no such cell. -/
  | indexOutOfRange (segment : Segment) (index max : Nat)
  /-- The number of local variables has more than 15 bits. -/
  | tooManyLocals (name : String) (locals : Nat)
  /-- Arguments and saved words together are more than 15 bits can count. -/
  | tooManyArguments (name : String) (args : Nat)
  deriving DecidableEq, Repr

/-- The explanation of a fault. -/
def Fault.diagnosis : Fault → Diagnosis
  | emptyCommand => .malformed "empty command"
  | unknownCommand token => .unknown "command" token
  | missingArguments expected found =>
      .malformed s!"expected {expected} argument(s), found {found}"
  | trailing tokens =>
      let rest := " ".intercalate tokens
      .malformed s!"unexpected trailing `{rest}`"
  | unknownSegment token => .unknown "segment" token
  | invalidName token => .malformed s!"invalid name `{token}`"
  | notNumber token => .malformed s!"`{token}` is not a non-negative integer"
  | numberTooLarge token => .malformed s!"`{token}` is too large"
  | popConstant => .misuse "`constant` cannot be the target of a pop"
  | indexTooLarge segment index =>
      let name := segment.name
      .malformed s!"`{name} {index}` does not fit in 15 bits (max {maxAddress})"
  | indexOutOfRange segment index max =>
      let name := segment.name
      .misuse s!"{name} index {index} is out of range 0..={max}"
  | tooManyLocals name locals =>
      .malformed s!"function `{name}` declares {locals} locals (max {maxAddress})"
  | tooManyArguments name args =>
      let max := maxAddress - frameSize
      .malformed s!"call to `{name}` passes {args} arguments (max {max})"

/-! ## §1. Limits. -/

/-- The cell exists in its segment and can be addressed. -/
def Segment.checkIndex (segment : Segment) (index : Nat) : Except Fault Unit :=
  if index > maxAddress then .error (.indexTooLarge segment index)
  else match segment.maxIndex? with
    | some max => if index > max then .error (.indexOutOfRange segment index max) else .ok ()
    | none => .ok ()

/-- The command keeps within the limits of the machine. -/
def Command.check : Command → Except Fault Unit
  | .pop .constant _ => .error .popConstant
  | .push segment index => segment.checkIndex index
  | .pop segment index => segment.checkIndex index
  | .function name locals =>
      if locals > maxAddress then .error (.tooManyLocals name locals) else .ok ()
  | .call name args =>
      if frameSize + args > maxAddress then .error (.tooManyArguments name args) else .ok ()
  | _ => .ok ()

end HackPlatform.Vm

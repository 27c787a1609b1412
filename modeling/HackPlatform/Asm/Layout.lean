/-
  HackPlatform.Asm.Layout
  ────────────────────────────────
  **LAYING OUT A PROGRAM: labels bound, instructions in place.**

  The lines are read in order.  A label is bound to the number of instructions
  placed before it, which is the ROM address of the next one; every other
  instruction is placed.  A label named like a platform symbol binds nothing.
  Binding all labels before any operand is resolved is what lets a program jump
  forward.
-/
import HackPlatform.Source
import HackPlatform.Asm.Reading
import HackPlatform.Asm.SymbolTable

namespace HackPlatform.Asm

/-- An instruction that takes room in ROM, with the line it came from. -/
structure Statement where
  /-- The line's number in the source text. -/
  line : Nat
  /-- The instruction. -/
  instruction : Instruction
  deriving DecidableEq, Repr

/-- What is known after reading some lines. -/
structure Layout where
  /-- The labels bound so far, besides what the table held before. -/
  table : SymbolTable
  /-- The instructions placed so far; their indices are ROM addresses. -/
  statements : Array Statement

namespace Layout

/-- Bind a label to the address of the next instruction. -/
def bindLabel (l : Layout) (name : String) : Except Fault Layout :=
  if isReserved name then .ok l
  else if l.statements.size > maxAddress then .error (.labelPastEnd name)
  else match l.table.bind name l.statements.size with
    | .ok table => .ok { l with table }
    | .error existing => .error (.labelRebound name existing)

/-- Put an instruction that was read from a line where it belongs. -/
def place (l : Layout) (line : Nat) : Instruction → Except Fault Layout
  | .label name => l.bindLabel name
  | instruction => .ok { l with statements := l.statements.push ⟨line, instruction⟩ }

/-- Read one more line. -/
def addLine (l : Layout) (line : SourceLine) : Except (Located Fault) Layout :=
  ((Instruction.read line.text).bind (l.place line.number)).mapError (⟨line.number, ·⟩)

/-- Lay out a program, starting from a table. -/
def ofLines (table : SymbolTable) (lines : List SourceLine) :
    Except (Located Fault) Layout :=
  lines.foldlM addLine ⟨table, #[]⟩

end Layout

end HackPlatform.Asm

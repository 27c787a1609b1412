/-
  HackPlatform.Asm.Assembly
  ────────────────────────────────
  **ASSEMBLING: from source lines to machine words.**

  Once a program is laid out, its statements are encoded in order; an operand
  that is no label and no platform symbol becomes a variable the first time it
  is met.  The result keeps the statements, their words and the final table.

      Image.ofStatements   encode statements, starting from a table
      assemble             lay out and encode
      Assembly.text        the `.hack` text: one line of sixteen digits per word
-/
import HackPlatform.Asm.Layout
import HackPlatform.Asm.Word

namespace HackPlatform.Asm

/-! ## §1. Encoding. -/

/-- What is known after encoding some statements. -/
structure Image where
  /-- The table, with the variables allocated so far. -/
  table : SymbolTable
  /-- The words so far. -/
  words : Array Word

namespace Image

/-- Append a word. -/
def push (img : Image) (w : Word) : Image := { img with words := img.words.push w }

/-- Encode one instruction.  A label has no word. -/
def encode (img : Image) : Instruction → Except Fault Image
  | .address (.literal value) => .ok (img.push (.address value))
  | .address (.symbol name) =>
      match img.table.resolve name with
      | some (value, table) => .ok ({ img with table }.push (.address value))
      | none => .error (.ramExhausted name)
  | .compute dest comp jump => .ok (img.push (.compute dest comp jump))
  | .label _ => .ok img

/-- Encode one more statement. -/
def addStatement (img : Image) (s : Statement) : Except (Located Fault) Image :=
  (img.encode s.instruction).mapError (⟨s.line, ·⟩)

/-- Encode statements, starting from a table. -/
def ofStatements (table : SymbolTable) (statements : List Statement) :
    Except (Located Fault) Image :=
  statements.foldlM addStatement ⟨table, #[]⟩

end Image

/-! ## §2. Assemblies. -/

/-- An assembled program. -/
structure Assembly where
  /-- The instructions in ROM order, with their lines. -/
  statements : List Statement
  /-- Their words. -/
  words : List Word
  /-- The table with all labels and variables. -/
  table : SymbolTable

/-- Assemble the lines of a program. -/
def assemble (lines : List SourceLine) : Except (Located Fault) Assembly := do
  let layout ← Layout.ofLines .platform lines
  let image ← Image.ofStatements layout.table layout.statements.toList
  return ⟨layout.statements.toList, image.words.toList, image.table⟩

/-- The `.hack` text of an assembly. -/
def Assembly.text (a : Assembly) : String :=
  String.join (a.words.map fun w => w.toBinary ++ "\n")

end HackPlatform.Asm

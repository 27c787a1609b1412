/-
  HackPlatform.Asm.Journal
  ────────────────────────────────
  **WHAT AN ASSEMBLY TELLS ABOUT ITSELF.**

  Laying out warns of labels that shadow a platform symbol and ends with the
  number of instructions placed; encoding reports each variable it allocates;
  a finished assembly reports its size.  Up to a fault everything before it is
  told.
-/
import HackPlatform.Journal
import HackPlatform.Asm.Assembly

namespace HackPlatform.Asm

/-- Told by a symbol table when `resolve` allocates a variable. -/
def SymbolTable.tellResolve (t : SymbolTable) (name : String) : List Record :=
  match t.lookup name, t.resolve name with
  | none, some (address, _) =>
      [⟨.debug, "hack::assembler::symbols", s!"allocated variable `{name}` at RAM[{address}]"⟩]
  | _, _ => []

/-- Told by a line that is laid out. -/
def Layout.tellLine (_ : Layout) (line : SourceLine) : List Record :=
  match Instruction.read line.text with
  | .ok (.label name) =>
      if isReserved name then
        let number := line.number
        [⟨.warn, "hack::assembler", s!"line {number}: label `{name}` shadows a platform symbol; references keep the reserved value"⟩]
      else []
  | _ => []

/-- Told by laying out a program. -/
def Layout.journal (table : SymbolTable) (lines : List SourceLine) : List Record :=
  narrate Layout.addLine Layout.tellLine ⟨table, #[]⟩ lines ++
    match Layout.ofLines table lines with
    | .ok layout =>
        let placed := layout.statements.size
        [⟨.debug, "hack::assembler", s!"first pass: {placed} real instruction(s)"⟩]
    | .error _ => []

/-- Told by a statement that is encoded. -/
def Image.tellStatement (img : Image) (s : Statement) : List Record :=
  match s.instruction with
  | .address (.symbol name) => img.table.tellResolve name
  | _ => []

/-- Told by encoding statements. -/
def Image.journal (table : SymbolTable) (statements : List Statement) : List Record :=
  narrate Image.addStatement Image.tellStatement ⟨table, #[]⟩ statements

/-- Told by assembling a program. -/
def assembleJournal (lines : List SourceLine) : List Record :=
  Layout.journal .platform lines ++
    match Layout.ofLines .platform lines with
    | .error _ => []
    | .ok layout =>
        Image.journal layout.table layout.statements.toList ++
          match assemble lines with
          | .error _ => []
          | .ok a =>
              let words := a.words.length
              let bound := a.table.size
              [⟨.info, "hack::assembler", s!"assembled {words} instruction(s), {bound} symbol(s) bound"⟩]

end HackPlatform.Asm

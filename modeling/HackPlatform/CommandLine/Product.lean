/-
  HackPlatform.CommandLine.Product
  ────────────────────────────────
  **WHAT A TOOL MAKES OF ITS INPUT.**

  From the lines of its input a tool makes the text of its output and a listing
  that sets each part of the output beside what it was made from; or it finds
  the first line at fault.  Both tools are put in one form here, so that running
  them is described once.  How a listing is set in columns is the library's.
-/
import HackPlatform.Asm.Journal
import HackPlatform.Vm.Journal
import HackPlatform.CommandLine.Library

namespace HackPlatform.CommandLine

/-- What a tool makes. -/
structure Product where
  /-- The output file. -/
  text : String
  /-- The listing, line by line. -/
  listing : List String
  deriving DecidableEq, Repr

/-! ## §1. Listings. -/

variable (lib : Library)

/-- A listing of an assembly: every instruction with its address and its word, then
the symbol table. -/
def assemblyListing (a : Asm.Assembly) : List String :=
  let row (entry : (Asm.Statement × Asm.Word) × Nat) : List String :=
    [hex4 entry.2 ++ ":", entry.1.1.instruction.render, "=>", entry.1.2.toBinary]
  lib.grid ((a.statements.zip a.words).zipIdx.map row) ++ [""]
    ++ "Symbols:" :: lib.grid (a.table.entries.map fun (name, value) => [name, hex4 value])
    ++ [""]

/-- A listing of a lowered file: every command with its line and the number of lines
made from it. -/
def loweredListing (l : Vm.Lowered) : List String :=
  let row (f : Vm.Fragment) : List String :=
    let line := match f.origin.line? with
      | none => "----"
      | some line => alignRight 4 (toString line)
    let size := (f.lines l.annotated).length
    [line ++ ":", f.origin.render, "=>", s!"{size} line(s)"]
  lib.grid (l.fragments.map row) ++ [""]

/-! ## §2. Products. -/

/-- What an invocation asks of lowering. -/
def Invocation.loweringOptions (inv : Invocation) : Vm.Options := ⟨inv.bootstrap, inv.annotate⟩

/-- What a tool makes of the lines of its input, whose file is called `stem`. -/
def Tool.make (tool : Tool) (inv : Invocation) (stem : String) (lines : List SourceLine) :
    Except (Located Diagnosis) Product :=
  match tool with
  | .assembler =>
      match Asm.assemble lines with
      | .ok a => .ok ⟨a.text, assemblyListing lib a⟩
      | .error e => .error ⟨e.line, e.fault.diagnosis⟩
  | .lowerer =>
      match Vm.lowerFile stem inv.loweringOptions lines with
      | .ok l => .ok ⟨l.text, loweredListing lib l⟩
      | .error e => .error ⟨e.line, e.fault.diagnosis⟩

/-- What a tool tells while it makes it. -/
def Tool.journal (tool : Tool) (inv : Invocation) (stem : String) (lines : List SourceLine) :
    List Record :=
  match tool with
  | .assembler => Asm.assembleJournal lines
  | .lowerer => Vm.lowerJournal stem inv.loweringOptions lines

end HackPlatform.CommandLine

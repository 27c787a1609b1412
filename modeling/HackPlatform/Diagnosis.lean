/-
  HackPlatform.Diagnosis
  ────────────────────────────────
  **DIAGNOSES: what is wrong with a source line, and where.**

  Each language keeps its own type of faults, one constructor per cause.  A
  fault is explained by a `Diagnosis`, which sorts causes into three kinds: the
  line is malformed, it names something unknown, or it misuses a symbol.  The
  wording of a whole message is fixed here, once for both languages.
-/

namespace HackPlatform

/-- The explanation of a fault. -/
inductive Diagnosis where
  /-- The line does not have the shape its language asks for. -/
  | malformed (reason : String)
  /-- The line names a `kind` of thing by a `token` that no such thing has. -/
  | unknown (kind : String) (token : String)
  /-- The line has the right shape but cannot use its symbol or operand so. -/
  | misuse (reason : String)
  deriving DecidableEq, Repr

/-- The message shown for a diagnosis on a line. -/
def Diagnosis.message (line : Nat) : Diagnosis → String
  | malformed reason => s!"syntax error on line {line}: {reason}"
  | unknown kind token => s!"unknown {kind} `{token}` on line {line}"
  | misuse reason => s!"invalid use of symbol on line {line}: {reason}"

/-- A fault together with the 1-based number of the line it was found on. -/
structure Located (ε : Type) where
  /-- The line's number in the source text, blank and comment lines counted. -/
  line : Nat
  /-- What is wrong with it. -/
  fault : ε
  deriving DecidableEq, Repr

end HackPlatform

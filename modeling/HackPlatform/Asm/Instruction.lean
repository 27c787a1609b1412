/-
  HackPlatform.Asm.Instruction
  ────────────────────────────────
  **ASSEMBLY INSTRUCTIONS and how they are written.**

  A line of assembly is one of three things:

      @21   @sum         address   load a number, or the value of a symbol, into A
      (LOOP)             label     name the ROM address of the next instruction
      AM=M-1;JNE         compute   dest=comp;jump, with dest and jump optional

  A label takes no room in ROM.  `Instruction.render` writes an instruction in
  its one canonical form: no blanks, the letters of a destination in the order
  of `AMD`, and nothing where there is no destination or no jump.
-/

namespace HackPlatform.Asm

/-! ## §1. Destinations. -/

/-- The set of places a computed value is stored in. -/
structure Dest where
  /-- Register A. -/
  a : Bool
  /-- Register D. -/
  d : Bool
  /-- The RAM cell that A pointed at. -/
  m : Bool
  deriving DecidableEq, Repr

namespace Dest

/-- Nothing is stored. -/
def nowhere : Dest := ⟨false, false, false⟩

/-- The canonical spelling; empty if nothing is stored. -/
def mnemonic : Dest → String
  | ⟨false, false, false⟩ => ""
  | ⟨false, false, true⟩ => "M"
  | ⟨false, true, false⟩ => "D"
  | ⟨false, true, true⟩ => "MD"
  | ⟨true, false, false⟩ => "A"
  | ⟨true, false, true⟩ => "AM"
  | ⟨true, true, false⟩ => "AD"
  | ⟨true, true, true⟩ => "AMD"

/-- The letters a destination is spelt with. -/
def letters : List Char := ['A', 'D', 'M']

/-- A destination is spelt by its letters in any order, each at most once, and at
least one of them. -/
def ofLetters? (cs : List Char) : Option Dest :=
  if !cs.isEmpty && cs.all letters.contains && letters.all (cs.count · ≤ 1) then
    some ⟨cs.contains 'A', cs.contains 'D', cs.contains 'M'⟩
  else none

end Dest

/-! ## §2. Jumps. -/

/-- When a compute instruction jumps, judged by the sign of the value computed. -/
inductive Jump where
  /-- Goes on to the next instruction. -/
  | never
  /-- The value is positive. -/
  | gt
  /-- The value is zero. -/
  | eq
  /-- The value is not negative. -/
  | ge
  /-- The value is negative. -/
  | lt
  /-- The value is not zero. -/
  | ne
  /-- The value is not positive. -/
  | le
  /-- Jumps whatever the value. -/
  | always
  deriving DecidableEq, Repr

namespace Jump

/-- The spelling; empty if there is no jump. -/
def mnemonic : Jump → String
  | never => ""
  | gt => "JGT"
  | eq => "JEQ"
  | ge => "JGE"
  | lt => "JLT"
  | ne => "JNE"
  | le => "JLE"
  | always => "JMP"

/-- The jumps that are written out. -/
def spelt : List Jump := [gt, eq, ge, lt, ne, le, always]

/-- The jump of a spelling. -/
def ofMnemonic? (s : String) : Option Jump := spelt.find? (·.mnemonic == s)

end Jump

/-! ## §3. Computations. -/

/-- The second operand of a computation: register A, or the RAM cell it points at. -/
inductive Operand2 where
  /-- Register A. -/
  | a
  /-- The RAM cell that A points at. -/
  | m
  deriving DecidableEq, Repr

/-- The letter of a second operand. -/
def Operand2.letter : Operand2 → String
  | a => "A"
  | m => "M"

/-- What a compute instruction computes, from register D and a second operand. -/
inductive Comp where
  /-- The constant 0. -/
  | zero
  /-- The constant 1. -/
  | one
  /-- The constant -1. -/
  | minusOne
  /-- D itself. -/
  | d
  /-- D with every bit flipped. -/
  | notD
  /-- D negated. -/
  | negD
  /-- D plus one. -/
  | dPlusOne
  /-- D minus one. -/
  | dMinusOne
  /-- The second operand itself. -/
  | y (src : Operand2)
  /-- The second operand with every bit flipped. -/
  | notY (src : Operand2)
  /-- The second operand negated. -/
  | negY (src : Operand2)
  /-- The second operand plus one. -/
  | yPlusOne (src : Operand2)
  /-- The second operand minus one. -/
  | yMinusOne (src : Operand2)
  /-- The sum of both. -/
  | dPlusY (src : Operand2)
  /-- D minus the second operand. -/
  | dMinusY (src : Operand2)
  /-- The second operand minus D. -/
  | yMinusD (src : Operand2)
  /-- Bitwise and. -/
  | dAndY (src : Operand2)
  /-- Bitwise or. -/
  | dOrY (src : Operand2)
  deriving DecidableEq, Repr

namespace Comp

/-- The spelling. -/
def mnemonic : Comp → String
  | zero => "0"
  | one => "1"
  | minusOne => "-1"
  | d => "D"
  | notD => "!D"
  | negD => "-D"
  | dPlusOne => "D+1"
  | dMinusOne => "D-1"
  | y src => src.letter
  | notY src => "!" ++ src.letter
  | negY src => "-" ++ src.letter
  | yPlusOne src => src.letter ++ "+1"
  | yMinusOne src => src.letter ++ "-1"
  | dPlusY src => "D+" ++ src.letter
  | dMinusY src => "D-" ++ src.letter
  | yMinusD src => src.letter ++ "-D"
  | dAndY src => "D&" ++ src.letter
  | dOrY src => "D|" ++ src.letter

/-- The computations that do not use a second operand. -/
def unaryD : List Comp := [zero, one, minusOne, d, notD, negD, dPlusOne, dMinusOne]

/-- The computations that use a given second operand. -/
def using2 (src : Operand2) : List Comp :=
  [y src, notY src, negY src, yPlusOne src, yMinusOne src,
   dPlusY src, dMinusY src, yMinusD src, dAndY src, dOrY src]

/-- All 28 computations. -/
def all : List Comp := unaryD ++ using2 .a ++ using2 .m

/-- The computation of a spelling. -/
def ofMnemonic? (s : String) : Option Comp := all.find? (·.mnemonic == s)

end Comp

/-! ## §4. Instructions. -/

/-- The largest number an address instruction can load, and so the last ROM or RAM
address that a program can name. -/
def maxAddress : Nat := 32767

/-- What an address instruction loads. -/
inductive Operand where
  /-- A number. -/
  | literal (value : Nat)
  /-- The value bound to a symbol. -/
  | symbol (name : String)
  deriving DecidableEq, Repr

/-- The text of an operand. -/
def Operand.render : Operand → String
  | literal value => toString value
  | symbol name => name

/-- One line of assembly. -/
inductive Instruction where
  /-- Load the operand into A. -/
  | address (operand : Operand)
  /-- Compute, store, and maybe jump to the address in A. -/
  | compute (dest : Dest) (comp : Comp) (jump : Jump)
  /-- Name the ROM address of the next instruction. -/
  | label (name : String)
  deriving DecidableEq, Repr

namespace Instruction

/-- The canonical text of an instruction. -/
def render : Instruction → String
  | address operand => "@" ++ operand.render
  | label name => "(" ++ name ++ ")"
  | compute dest comp jump =>
      (if dest = .nowhere then "" else dest.mnemonic ++ "=")
        ++ comp.mnemonic
        ++ (if jump = .never then "" else ";" ++ jump.mnemonic)

/-- A label, which takes no room in ROM. -/
def isLabel : Instruction → Bool
  | label _ => true
  | _ => false

end Instruction

end HackPlatform.Asm

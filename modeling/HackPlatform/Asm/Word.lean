/-
  HackPlatform.Asm.Word
  ────────────────────────────────
  **MACHINE WORDS.**

  An instruction other than a label is encoded in 16 bits:

      0vvv vvvv vvvv vvvv     load the number v
      111a cccc ccdd djjj     compute: a and c say what, d where to, j when to jump

  The six c bits drive the arithmetic unit, a chooses its second input, each d
  bit opens one store (A, D, M from high to low) and each j bit accepts one sign
  (negative, zero, positive from high to low).  A word is a `BitVec 16` built by
  joining its fields, so fields cannot overlap.
-/
import HackPlatform.Asm.Instruction

namespace HackPlatform.Asm

/-- A machine word. -/
abbrev Word := BitVec 16

/-! ## §1. Fields. -/

/-- The bit that chooses the second operand. -/
def Operand2.bit : Operand2 → BitVec 1
  | a => 0#1
  | m => 1#1

namespace Comp

/-- The bit that chooses the second operand; clear where there is none. -/
def sourceBit : Comp → BitVec 1
  | y src | notY src | negY src | yPlusOne src | yMinusOne src
  | dPlusY src | dMinusY src | yMinusD src | dAndY src | dOrY src => src.bit
  | _ => 0#1

/-- The six control bits of the arithmetic unit. -/
def control : Comp → BitVec 6
  | zero => 0b101010#6
  | one => 0b111111#6
  | minusOne => 0b111010#6
  | d => 0b001100#6
  | notD => 0b001101#6
  | negD => 0b001111#6
  | dPlusOne => 0b011111#6
  | dMinusOne => 0b001110#6
  | y _ => 0b110000#6
  | notY _ => 0b110001#6
  | negY _ => 0b110011#6
  | yPlusOne _ => 0b110111#6
  | yMinusOne _ => 0b110010#6
  | dPlusY _ => 0b000010#6
  | dMinusY _ => 0b010011#6
  | yMinusD _ => 0b000111#6
  | dAndY _ => 0b000000#6
  | dOrY _ => 0b010101#6

/-- The seven bits of a computation. -/
def bits (c : Comp) : BitVec 7 := c.sourceBit ++ c.control

end Comp

/-- One bit for each place a value is stored in. -/
def Dest.bits (dest : Dest) : BitVec 3 :=
  BitVec.ofBool dest.a ++ BitVec.ofBool dest.d ++ BitVec.ofBool dest.m

/-- One bit for each sign that jumps. -/
def Jump.bits : Jump → BitVec 3
  | never => 0b000#3
  | gt => 0b001#3
  | eq => 0b010#3
  | ge => 0b011#3
  | lt => 0b100#3
  | ne => 0b101#3
  | le => 0b110#3
  | always => 0b111#3

/-! ## §2. Words. -/

namespace Word

/-- The word that loads a number, of which the low 15 bits are kept. -/
def address (value : Nat) : Word := 0b0#1 ++ BitVec.ofNat 15 value

/-- The word of a compute instruction. -/
def compute (dest : Dest) (comp : Comp) (jump : Jump) : Word :=
  0b111#3 ++ comp.bits ++ dest.bits ++ jump.bits

/-- The sixteen digits of a word, highest bit first. -/
def digits (w : Word) : List Char :=
  (List.range 16).map fun i => if w.getMsbD i then '1' else '0'

/-- The word as sixteen binary digits. -/
def toBinary (w : Word) : String := String.ofList w.digits

end Word

end HackPlatform.Asm

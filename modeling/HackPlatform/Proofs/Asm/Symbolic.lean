/-
  HackPlatform.Proofs.Asm.Symbolic
  ────────────────────────────────
  **INSTRUCTIONS AS THEY ARE SPELT: the symbolic machine.**

  The symbolic machine never looks at words.  It works on the state of the CPU,
  but takes each instruction by its text: an address loads its number, or what a
  table says of its symbol; a compute instruction evaluates the expression that
  its computation is spelt with, stores the value in the places its destination
  is spelt with, and jumps where the spelling of its jump says.

      spelledValue         the value of a spelt expression
      spelledCondition     the condition of a spelt jump
      Instruction.execute  one instruction
      stepStatements       fetch and execute

  Main result: `execute_compute`, the CPU does with the word of a compute
  instruction what the instruction says.
-/
import HackPlatform.Asm.Assembly
import HackPlatform.Proofs.Cpu
import HackPlatform.Proofs.Asm.Word

namespace HackPlatform.Asm

/-! ## §1. Spelt expressions and conditions. -/

/-- The value of a letter or digit, given the values of `D`, `A` and `M`. -/
def atomValue (d a m : BitVec 16) : Char → BitVec 16
  | '1' => 1#16
  | 'D' => d
  | 'A' => a
  | 'M' => m
  | _ => 0#16

/-- The value of an expression: an atom, an operator in front of one, or an operator
between two.  Arithmetic is modulo 2^16. -/
def spelledValue (d a m : BitVec 16) : List Char → BitVec 16
  | ['!', x] => ~~~atomValue d a m x
  | ['-', x] => -atomValue d a m x
  | [x, '+', y] => atomValue d a m x + atomValue d a m y
  | [x, '-', y] => atomValue d a m x - atomValue d a m y
  | [x, '&', y] => atomValue d a m x &&& atomValue d a m y
  | [x, '|', y] => atomValue d a m x ||| atomValue d a m y
  | [x] => atomValue d a m x
  | _ => 0#16

/-- Whether a signed value meets the condition of a jump. -/
def spelledCondition (value : Int) : List Char → Bool
  | ['J', 'G', 'T'] => decide (0 < value)
  | ['J', 'E', 'Q'] => decide (value = 0)
  | ['J', 'G', 'E'] => decide (0 ≤ value)
  | ['J', 'L', 'T'] => decide (value < 0)
  | ['J', 'N', 'E'] => decide (value ≠ 0)
  | ['J', 'L', 'E'] => decide (value ≤ 0)
  | ['J', 'M', 'P'] => true
  | _ => false

/-! ## §2. The symbolic machine. -/

/-- Execute one instruction under a table.  A symbol without a value and a label, which
is nothing to execute, stop the machine. -/
def Instruction.execute (table : SymbolTable) (s : Cpu) : Instruction → Option Cpu
  | .address (.literal value) => some (s.load (BitVec.ofNat 16 value))
  | .address (.symbol name) => (table.lookup name).map fun value => s.load (BitVec.ofNat 16 value)
  | .compute dest comp jump =>
      let value := spelledValue s.d s.a (s.ram s.a) comp.mnemonic.toList
      let targets := dest.mnemonic.toList
      some (s.store (targets.contains 'A') (targets.contains 'D') (targets.contains 'M')
        (spelledCondition value.toInt jump.mnemonic.toList) value)
  | .label _ => none

/-- Execute the statement at the program counter. -/
def stepStatements (table : SymbolTable) (statements : List Statement) (s : Cpu) : Option Cpu :=
  statements[s.pc]?.bind fun statement => statement.instruction.execute table s

/-! ## §3. What the spellings mean. -/

/-- The value of the second operand. -/
def Operand2.pick (a m : BitVec 16) : Operand2 → BitVec 16
  | .a => a
  | .m => m

/-- The value of a computation, by its name. -/
def Comp.value (d a m : BitVec 16) : Comp → BitVec 16
  | zero => 0#16
  | one => 1#16
  | minusOne => -1#16
  | .d => d
  | notD => ~~~d
  | negD => -d
  | dPlusOne => d + 1#16
  | dMinusOne => d - 1#16
  | y src => src.pick a m
  | notY src => ~~~src.pick a m
  | negY src => -src.pick a m
  | yPlusOne src => src.pick a m + 1#16
  | yMinusOne src => src.pick a m - 1#16
  | dPlusY src => d + src.pick a m
  | dMinusY src => d - src.pick a m
  | yMinusD src => src.pick a m - d
  | dAndY src => d &&& src.pick a m
  | dOrY src => d ||| src.pick a m

/-- A computation has the value of the expression it is spelt with. -/
theorem spelledValue_mnemonic (d a m : BitVec 16) (comp : Comp) :
    spelledValue d a m comp.mnemonic.toList = comp.value d a m := by
  cases comp with
  | zero | one | minusOne | d | notD | negD | dPlusOne | dMinusOne => rfl
  | y src | notY src | negY src | yPlusOne src | yMinusOne src
  | dPlusY src | dMinusY src | yMinusD src | dAndY src | dOrY src => cases src <;> rfl

/-- A destination is spelt with the letters of its places. -/
theorem contains_mnemonic (dest : Dest) :
    dest.mnemonic.toList.contains 'A' = dest.a
      ∧ dest.mnemonic.toList.contains 'D' = dest.d
      ∧ dest.mnemonic.toList.contains 'M' = dest.m := by
  obtain ⟨a, d, m⟩ := dest
  cases a <;> cases d <;> cases m <;> decide

/-- The jump bits accept the signs that the spelling of the jump asks for. -/
theorem spelledCondition_mnemonic (value : BitVec 16) (jump : Jump) :
    spelledCondition value.toInt jump.mnemonic.toList = jumpTaken jump.bits value := by
  unfold jumpTaken
  -- only the sign of the value plays a part
  generalize value.toInt = v
  rw [Bool.eq_iff_iff]
  cases jump with
  | never => simp [spelledCondition, Jump.mnemonic, Jump.bits]
  | gt | eq | lt => simp [spelledCondition, Jump.mnemonic, Jump.bits]
  | ge | ne | le | always =>
      simp [spelledCondition, Jump.mnemonic, Jump.bits] <;> omega

/-! ## §4. The arithmetic unit computes what is spelt. -/

section
variable (x y : BitVec 16)

theorem ones_and : ~~~0#16 &&& y = y := BitVec.allOnes_and

theorem and_ones : x &&& ~~~0#16 = x := BitVec.and_allOnes

theorem alu_zero : alu x y 0b101010#6 = 0#16 := rfl

theorem alu_one : alu x y 0b111111#6 = 1#16 := by
  show ~~~(~~~0#16 + ~~~0#16) = 1#16
  decide

theorem alu_minusOne : alu x y 0b111010#6 = -1#16 := by
  show ~~~0#16 + 0#16 = -1#16
  decide

theorem alu_first : alu x y 0b001100#6 = x := and_ones x

theorem alu_not_first : alu x y 0b001101#6 = ~~~x := by
  show ~~~(x &&& ~~~0#16) = ~~~x
  rw [and_ones]

theorem alu_neg_first : alu x y 0b001111#6 = -x := by
  show ~~~(x + ~~~0#16) = -x
  bv_omega

theorem alu_first_succ : alu x y 0b011111#6 = x + 1#16 := by
  show ~~~(~~~x + ~~~0#16) = x + 1#16
  bv_omega

theorem alu_first_pred : alu x y 0b001110#6 = x - 1#16 := by
  show x + ~~~0#16 = x - 1#16
  bv_omega

theorem alu_second : alu x y 0b110000#6 = y := ones_and y

theorem alu_not_second : alu x y 0b110001#6 = ~~~y := by
  show ~~~(~~~0#16 &&& y) = ~~~y
  rw [ones_and]

theorem alu_neg_second : alu x y 0b110011#6 = -y := by
  show ~~~(~~~0#16 + y) = -y
  bv_omega

theorem alu_second_succ : alu x y 0b110111#6 = y + 1#16 := by
  show ~~~(~~~0#16 + ~~~y) = y + 1#16
  bv_omega

theorem alu_second_pred : alu x y 0b110010#6 = y - 1#16 := by
  show ~~~0#16 + y = y - 1#16
  bv_omega

theorem alu_add : alu x y 0b000010#6 = x + y := rfl

theorem alu_sub : alu x y 0b010011#6 = x - y := by
  show ~~~(~~~x + y) = x - y
  bv_omega

theorem alu_sub_swap : alu x y 0b000111#6 = y - x := by
  show ~~~(x + ~~~y) = y - x
  bv_omega

theorem alu_and : alu x y 0b000000#6 = x &&& y := rfl

theorem alu_or : alu x y 0b010101#6 = x ||| y := by
  show ~~~(~~~x &&& ~~~y) = x ||| y
  rw [BitVec.not_and, BitVec.not_not, BitVec.not_not]

end

/-- The a bit chooses the second operand. -/
theorem ite_bit (a m : BitVec 16) (src : Operand2) :
    (if src.bit.getLsbD 0 then m else a) = src.pick a m := by
  cases src <;> rfl

/-- The control bits of a computation make the arithmetic unit compute its value. -/
theorem alu_control (comp : Comp) (d a m : BitVec 16) :
    alu d (if comp.sourceBit.getLsbD 0 then m else a) comp.control = comp.value d a m := by
  cases comp with
  | zero => exact alu_zero ..
  | one => exact alu_one ..
  | minusOne => exact alu_minusOne ..
  | d => exact alu_first ..
  | notD => exact alu_not_first ..
  | negD => exact alu_neg_first ..
  | dPlusOne => exact alu_first_succ ..
  | dMinusOne => exact alu_first_pred ..
  | y src => rw [Comp.sourceBit, ite_bit]; exact alu_second ..
  | notY src => rw [Comp.sourceBit, ite_bit]; exact alu_not_second ..
  | negY src => rw [Comp.sourceBit, ite_bit]; exact alu_neg_second ..
  | yPlusOne src => rw [Comp.sourceBit, ite_bit]; exact alu_second_succ ..
  | yMinusOne src => rw [Comp.sourceBit, ite_bit]; exact alu_second_pred ..
  | dPlusY src => rw [Comp.sourceBit, ite_bit]; exact alu_add ..
  | dMinusY src => rw [Comp.sourceBit, ite_bit]; exact alu_sub ..
  | yMinusD src => rw [Comp.sourceBit, ite_bit]; exact alu_sub_swap ..
  | dAndY src => rw [Comp.sourceBit, ite_bit]; exact alu_and ..
  | dOrY src => rw [Comp.sourceBit, ite_bit]; exact alu_or ..

/-! ## §5. The CPU does what the instruction says. -/

/-- What an instruction spells, by the names of its parts. -/
theorem Instruction.execute_named (table : SymbolTable) (s : Cpu) (dest : Dest) (comp : Comp)
    (jump : Jump) :
    (Instruction.compute dest comp jump).execute table s
      = some (s.store dest.a dest.d dest.m
          (jumpTaken jump.bits (comp.value s.d s.a (s.ram s.a)))
          (comp.value s.d s.a (s.ram s.a))) := by
  obtain ⟨hA, hD, hM⟩ := contains_mnemonic dest
  simp only [Instruction.execute, spelledValue_mnemonic, spelledCondition_mnemonic, hA, hD, hM]

/-- **The word of a compute instruction does what the instruction is spelt to do.** -/
theorem execute_compute (table : SymbolTable) (s : Cpu) (dest : Dest) (comp : Comp)
    (jump : Jump) :
    (Instruction.compute dest comp jump).execute table s
      = some (s.execute (Word.compute dest comp jump)) := by
  obtain ⟨hA, hD, hM⟩ := Word.compute_dest dest comp jump
  rw [Instruction.execute_named]
  unfold Cpu.execute
  rw [if_pos (Word.compute_high dest comp jump), Word.compute_source, Word.compute_control,
    Word.compute_jump, hA, hD, hM]
  simp only [alu_control]

/-- The word of an address of 15 bits loads it. -/
theorem execute_address (s : Cpu) {value : Nat} (h : value ≤ maxAddress) :
    s.execute (Word.address value) = s.load (BitVec.ofNat 16 value) := by
  unfold Cpu.execute
  rw [if_neg (by rw [Word.address_high]; exact Bool.false_ne_true), Word.address_eq_ofNat h]

end HackPlatform.Asm

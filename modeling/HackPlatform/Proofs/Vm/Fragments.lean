/-
  HackPlatform.Proofs.Vm.Fragments
  ────────────────────────────────
  **WHAT THE FRAGMENT OF EACH COMMAND DOES.**

  A fragment is entered with the memory alone: whatever A and D hold, they are
  loaded before they are used.  From its start the fragment of a command takes the
  CPU to the start of the fragment that the stack machine goes to next, and leaves
  the memory that the command leaves, but for the scratch cells.

      Located        where the generated code finds a segment's cell
      LeadsTo        the CPU gets from one fragment to another
      leadsTo_of_execute, leadsTo_of_step   one command, one step
-/
import HackPlatform.Proofs.Vm.Agreement
import HackPlatform.Proofs.Vm.Pieces

namespace HackPlatform.Vm

open Asm

/-! ## §1. Cells. -/

/-- The generated code finds a cell at a place. -/
def Located (table : SymbolTable) (m : Ram) (index : Nat) (cell : Word) : Place → Prop
  | .based base => ∃ v, reservedSymbols.lookup base = some v
      ∧ cell = m (BitVec.ofNat 16 v) + BitVec.ofNat 16 index
  | .fixed operand => ∀ s, (Instruction.address operand).execute table s = some (s.load cell)

theorem execute_symbol {table : SymbolTable} {name : String} {v : Nat}
    (h : table.lookup name = some v) (s : Cpu) :
    (Instruction.address (.symbol name)).execute table s = some (s.load (BitVec.ofNat 16 v)) := by
  show (table.lookup name).map _ = _
  rw [h]
  rfl

/-- The place that a scope gives a cell is where the stack machine has it. -/
theorem located_of_place {table : SymbolTable} (ht : KeepsPlatform table) {p : StackProgram}
    {sc : Scope} {segment : Segment} {index : Nat}
    (hstatic : segment = .static → ∃ v, table.lookup (sc.staticSymbol index) = some v
      ∧ p.static index = BitVec.ofNat 16 v)
    {place : Place} (hplace : sc.place? segment index = some place) (m : Ram) :
    ∃ cell, p.cell? m segment index = some cell ∧ Located table m index cell place := by
  cases segment with
  | constant => cases hplace
  | locals => cases hplace; exact ⟨_, rfl, 1, rfl, rfl⟩
  | argument => cases hplace; exact ⟨_, rfl, 2, rfl, rfl⟩
  | this => cases hplace; exact ⟨_, rfl, 3, rfl, rfl⟩
  | that => cases hplace; exact ⟨_, rfl, 4, rfl, rfl⟩
  | temp => cases hplace; exact ⟨_, rfl, fun s => rfl⟩
  | pointer =>
      cases hplace
      refine ⟨_, rfl, fun s => ?_⟩
      by_cases hindex : index = 0
      · rw [if_pos hindex, if_pos hindex]
        exact execute_symbol (ht "THIS" 3 rfl) s
      · rw [if_neg hindex, if_neg hindex]
        exact execute_symbol (ht "THAT" 4 rfl) s
  | static =>
      cases hplace
      obtain ⟨v, hv, hcell⟩ := hstatic rfl
      exact ⟨p.static index, rfl, fun s => hcell ▸ execute_symbol hv s⟩

theorem cell?_none {sc : Scope} {segment : Segment} {index : Nat}
    (h : sc.place? segment index = none) (p : StackProgram) (m : Ram) :
    p.cell? m segment index = none := by
  cases segment with
  | constant => rfl
  | locals | argument | this | that | temp | pointer | static => cases h

/-- An address that loads a cell, in front of other code. -/
theorem runStraight_address {table : SymbolTable} {operand : Operand} {s : Cpu} {cell : Word}
    (h : (Instruction.address operand).execute table s = some (s.load cell))
    (code : List Instruction) :
    runStraight table (.address operand :: code) s = runStraight table code (s.load cell) := by
  show ((Instruction.address operand).execute table s).bind _ = _
  rw [h]
  rfl

/-! ## §2. Commands without a jump. -/

section
variable {table : SymbolTable} (ht : KeepsPlatform table) (s : Cpu)
include ht

/-- A push fetches the cell, or the number, and pushes it. -/
theorem runStraight_pushCode {p : StackProgram} {sc : Scope} {segment : Segment} {index : Nat}
    (hstatic : segment = .static → ∃ v, table.lookup (sc.staticSymbol index) = some v
      ∧ p.static index = BitVec.ofNat 16 v) :
    ∃ u, runStraight table (pushCode (sc.place? segment index) index) s = some u
      ∧ u.ram = s.ram.push (p.value s.ram segment index) := by
  cases hplace : sc.place? segment index with
  | none =>
      have hvalue : p.value s.ram segment index = BitVec.ofNat 16 index := by
        unfold StackProgram.value
        rw [cell?_none hplace]
      refine ⟨⟨Reg.sp, BitVec.ofNat 16 index, s.ram.push (BitVec.ofNat 16 index), s.pc + 7⟩, ?_,
        by rw [hvalue]⟩
      show runStraight table (loadNumber index :: intoD (.y .a) :: (pushD ++ [])) s = _
      rw [runStraight_loadNumber, runStraight_intoD, runStraight_pushD ht]
      rfl
  | some place =>
      obtain ⟨cell, hcell, hlocated⟩ := located_of_place ht hstatic hplace s.ram
      have hvalue : p.value s.ram segment index = s.ram cell := by
        unfold StackProgram.value
        rw [hcell]
      cases place with
      | based base =>
          obtain ⟨v, hv, hbased⟩ := hlocated
          refine ⟨⟨Reg.sp, s.ram cell, s.ram.push (s.ram cell), s.pc + 10⟩, ?_, by rw [hvalue]⟩
          show runStraight table (load base :: intoD (.y .m) :: loadNumber index
            :: intoA (.dPlusY .a) :: intoD (.y .m) :: (pushD ++ [])) s = _
          rw [runStraight_load _ _ (ht base v hv), runStraight_intoD, runStraight_loadNumber,
            runStraight_intoA, runStraight_intoD, runStraight_pushD ht, hbased]
          rfl
      | fixed operand =>
          refine ⟨⟨Reg.sp, s.ram cell, s.ram.push (s.ram cell), s.pc + 7⟩, ?_, by rw [hvalue]⟩
          show runStraight table (.address operand :: intoD (.y .m) :: (pushD ++ [])) s = _
          rw [runStraight_address (hlocated s), runStraight_intoD, runStraight_pushD ht]
          rfl

/-- The address of a based cell is put into `R13`. -/
theorem runStraight_keepAddress {base : String} {index : Nat} {cell : Word}
    (hlocated : Located table s.ram index cell (.based base)) (code : List Instruction) :
    runStraight table (load base :: intoD (.y .m) :: loadNumber index :: intoD (.dPlusY .a)
      :: load "R13" :: intoM .d :: code) s
      = runStraight table code ⟨Reg.r13, cell, s.ram.write Reg.r13 cell, s.pc + 6⟩ := by
  obtain ⟨v, hv, rfl⟩ := hlocated
  rw [runStraight_load _ _ (ht base v hv), runStraight_intoD, runStraight_loadNumber,
    runStraight_intoD, runStraight_load _ _ (ht "R13" 13 rfl), runStraight_intoM]
  rfl

/-- A pop into a cell whose address waits in `R13` while the stack is popped. -/
theorem runStraight_popCode_based {base : String} {index : Nat} {cell : Word}
    (hlocated : Located table s.ram index cell (.based base))
    (htop : ¬ IsScratch (s.ram Reg.sp - 1#16)) :
    ∃ u, runStraight table (popCode (.based base) index) s = some u
      ∧ Agree (s.ram.drop.write cell s.ram.popped) u.ram := by
  -- the address is fixed before the stack is popped, while `SP` and the base are as they were
  let m := s.ram.write Reg.r13 cell
  have hagree : Agree s.ram m := (Agree.write_scratch s.ram (.inl rfl) cell).symm
  have hwaits : m.drop Reg.r13 = cell := by
    have hkept : m.drop Reg.r13 = m Reg.r13 := Ram.drop_other _ (by decide)
    exact hkept.trans (Ram.write_same ..)
  refine ⟨⟨cell, m.popped, m.drop.write cell m.popped, s.pc + 12⟩, ?_, ?_⟩
  · show runStraight table (load base :: intoD (.y .m) :: loadNumber index :: intoD (.dPlusY .a)
      :: load "R13" :: intoM .d :: (popD ++ [load "R13", intoA (.y .m), intoM .d])) s = _
    rw [runStraight_keepAddress ht s hlocated, runStraight_popD ht,
      runStraight_load _ _ (ht "R13" 13 rfl), runStraight_intoA, runStraight_intoM]
    show some (Cpu.mk (m.drop Reg.r13) _ (m.drop.write (m.drop Reg.r13) _) _) = _
    rw [hwaits]
    rfl
  · rw [hagree.popped htop]
    exact hagree.drop.write _ _

theorem runStraight_popCode_fixed {operand : Operand} {index : Nat} {cell : Word}
    (hlocated : Located table s.ram index cell (.fixed operand)) :
    ∃ u, runStraight table (popCode (.fixed operand) index) s = some u
      ∧ u.ram = s.ram.drop.write cell s.ram.popped := by
  refine ⟨⟨cell, s.ram.popped, s.ram.drop.write cell s.ram.popped, s.pc + 5⟩, ?_, rfl⟩
  show runStraight table (popD ++ [.address operand, intoM .d]) s = _
  rw [runStraight_popD ht, runStraight_address (hlocated _), runStraight_intoM]
  rfl

end

/-! ## §3. Arithmetic. -/

section
variable {op : Arithmetic}

/-- A command done in place computes what its operator does. -/
theorem operator_of_unary {c : Comp} (h : op.shape = .unary c) (d a : Word) :
    op.operator = .unary fun y => c.value d a y := by
  cases op <;> cases h <;> rfl

/-- A command on two values computes what its operator does; D holds the top. -/
theorem operator_of_binary {c : Comp} (h : op.shape = .binary c) (a : Word) :
    op.operator = .binary fun x y => c.value y a x := by
  cases op with
  | add =>
      cases h
      exact congrArg Operator.binary (funext fun x => funext fun y => BitVec.add_comm x y)
  | sub => cases h; rfl
  | and =>
      cases h
      exact congrArg Operator.binary (funext fun x => funext fun y => BitVec.and_comm x y)
  | or =>
      cases h
      exact congrArg Operator.binary (funext fun x => funext fun y => BitVec.or_comm x y)
  | neg | eq | gt | lt | not => cases h

/-- A comparison is true when its jump is taken on the difference. -/
theorem operator_of_compare {jump : Jump} (h : op.shape = .compare jump) :
    op.operator = .binary fun x y => truth (jumpTaken jump.bits (x - y)) := by
  cases op with
  | eq | gt | lt =>
      cases h
      refine congrArg Operator.binary (funext fun x => funext fun y => congrArg truth ?_)
      simp [jumpTaken, Jump.bits]
  | add | sub | neg | and | or | not => cases h

end

section
variable {table : SymbolTable} (ht : KeepsPlatform table) (s : Cpu)
include ht

/-- An arithmetic command without a jump does what its operator does. -/
theorem runStraight_arithmeticCode (sc : Scope) {op : Arithmetic}
    (hshape : ∀ jump, op.shape ≠ .compare jump) :
    ∃ u, runStraight table (arithmeticCode sc op) s = some u
      ∧ u.ram = op.operator.apply s.ram := by
  have hsp := ht "SP" 0 rfl
  unfold arithmeticCode
  cases hop : op.shape with
  | unary c =>
      let top := s.ram Reg.sp - 1#16
      refine ⟨⟨top, s.d, s.ram.write top (c.value s.d top (s.ram top)), s.pc + 3⟩, ?_, ?_⟩
      · show runStraight table [load "SP", intoA (.yMinusOne .m), intoM c] s = _
        rw [runStraight_load _ _ hsp, runStraight_intoA, runStraight_intoM]
        rfl
      · rw [operator_of_unary hop s.d top]
        rfl
  | binary c =>
      let top := s.ram.drop Reg.sp - 1#16
      let value := c.value s.ram.popped top (s.ram.drop top)
      refine ⟨⟨top, s.ram.popped, s.ram.drop.write top value, s.pc + 5⟩, ?_, ?_⟩
      · show runStraight table (takeTop ++ [intoM c]) s = _
        rw [runStraight_takeTop ht, runStraight_intoM]
        rfl
      · rw [operator_of_binary hop top]
        rfl
  | compare jump => exact absurd hop (hshape jump)

/-- The difference goes to D, and true to where the result will stand. -/
theorem runStraight_difference {symbol : String} {v : Nat} (hv : table.lookup symbol = some v) :
    runStraight table
        (takeTop ++ [intoD (.yMinusD .m), intoM .minusOne, load symbol]) s
      = some ⟨BitVec.ofNat 16 v, s.ram.drop (s.ram.drop Reg.sp - 1#16) - s.ram.popped,
          s.ram.drop.write (s.ram.drop Reg.sp - 1#16) (truth true), s.pc + 7⟩ := by
  rw [runStraight_takeTop ht, runStraight_intoD, runStraight_intoM, runStraight_load _ _ hv]
  rfl

/-- False is put where the result stands. -/
theorem runStraight_putFalse {m : Ram} {a d : Word} (pc : Nat) (symbol : String) :
    runStraight table [load "SP", intoA (.yMinusOne .m), intoM .zero, .label symbol] ⟨a, d, m, pc⟩
      = some ⟨m Reg.sp - 1#16, d, m.write (m Reg.sp - 1#16) (truth false), pc + 3⟩ := by
  rw [runStraight_load _ _ (ht "SP" 0 rfl), runStraight_intoA, runStraight_intoM,
    runStraight_label]
  rfl

end

/-! ## §4. Jumps. -/

/-- An address of 15 bits is loaded as it is. -/
theorem toNat_ofNat_of_le {v : Nat} (h : v ≤ maxAddress) : (BitVec.ofNat 16 v).toNat = v := by
  unfold maxAddress at h
  rw [BitVec.toNat_ofNat]
  omega

section
variable {asm : Assembly}
  (hstep : ∀ s, Cpu.step asm.words s = stepStatements asm.table asm.statements s)
include hstep

theorem step_goNow {s : Cpu} (h : StandsAt asm s.pc goNow) :
    Cpu.step asm.words s = some { s with pc := s.a.toNat } := by
  rw [step_of_standsAt hstep rfl h]
  exact Instruction.execute_named ..

theorem step_goIfD {jump : Jump} {s : Cpu} (h : StandsAt asm s.pc (goIfD jump)) :
    Cpu.step asm.words s
      = some { s with pc := if jumpTaken jump.bits s.d then s.a.toNat else s.pc + 1 } := by
  rw [step_of_standsAt hstep rfl h]
  exact Instruction.execute_named ..

/-- Straight code up to an instruction that lies behind it. -/
theorem run_upTo {code more : List Instruction} {i : Instruction} {s u : Cpu}
    (hplaced : Placed asm s.pc (code ++ i :: more))
    (hrun : runStraight asm.table code s = some u) :
    runFor (Cpu.step asm.words) (romSize code) s = some u ∧ u.pc = s.pc + romSize code
      ∧ StandsAt asm u.pc i ∧ Placed asm (u.pc + width i) more := by
  obtain ⟨hcode, hrest⟩ := placed_append.mp hplaced
  obtain ⟨hruns, hpc⟩ := run_straight hstep hcode hrun
  rw [← hpc] at hrest
  exact ⟨hruns, hpc, hrest.1, hrest.2⟩

/-- Straight code and a jump behind it. -/
theorem run_goNow {code more : List Instruction} {s u : Cpu}
    (hplaced : Placed asm s.pc (code ++ goNow :: more))
    (hrun : runStraight asm.table code s = some u) :
    runFor (Cpu.step asm.words) (romSize code + 1) s = some { u with pc := u.a.toNat } := by
  obtain ⟨hruns, -, hat, -⟩ := run_upTo hstep hplaced hrun
  exact runFor_trans hruns (runFor_one (step_goNow hstep hat))

/-- **A comparison leaves the sign of the difference in the result, and ends behind itself.** -/
theorem run_compare (ht : KeepsPlatform asm.table) {jump : Jump} {symbol : String} {s : Cpu}
    (hplaced : Placed asm s.pc (compareCode jump symbol))
    (hsymbol : asm.table.lookup symbol = some (s.pc + romSize (compareCode jump symbol)))
    (hsmall : s.pc + romSize (compareCode jump symbol) ≤ maxAddress)
    (htop : s.ram Reg.sp - 2#16 ≠ Reg.sp) :
    ∃ k u, runFor (Cpu.step asm.words) k s = some u
      ∧ u.pc = s.pc + romSize (compareCode jump symbol)
      ∧ u.ram = (Operator.binary fun x y => truth (jumpTaken jump.bits (x - y))).apply s.ram := by
  let before := takeTop ++ [intoD (.yMinusD .m), intoM .minusOne, load symbol]
  let behind := [load "SP", intoA (.yMinusOne .m), intoM .zero, .label symbol]
  let top := s.ram.drop Reg.sp - 1#16
  have hsplit : compareCode jump symbol = before ++ goIfD jump :: behind := rfl
  rw [hsplit] at hplaced hsymbol hsmall ⊢
  obtain ⟨hruns, hu, hat, hbehind⟩ :=
    run_upTo hstep hplaced (runStraight_difference ht s hsymbol)
  have hjump := step_goIfD hstep hat
  have hend : s.pc + romSize (before ++ goIfD jump :: behind) = s.pc + romSize before + 4 := by
    rw [romSize_append, Nat.add_assoc]
    rfl
  -- true is put down first; not jumping overwrites it with false
  by_cases htaken : jumpTaken jump.bits (s.ram.drop top - s.ram.popped) = true
  · rw [if_pos htaken] at hjump
    refine ⟨_, _, runFor_trans hruns (runFor_one hjump), toNat_ofNat_of_le hsmall, ?_⟩
    show s.ram.drop.write top (truth true) = s.ram.drop.write top (truth _)
    rw [htaken]
  · rw [if_neg htaken] at hjump
    -- the result stands where it was put: `SP` was not overwritten
    have hsp : (s.ram.drop.write top (truth true)) Reg.sp - 1#16 = top := by
      have hne : Reg.sp ≠ top := by
        show Reg.sp ≠ s.ram.drop Reg.sp - 1#16
        rw [Ram.drop_sp]
        intro he
        apply htop
        rw [he]
        bv_omega
      rw [Ram.write_other _ _ hne]
    obtain ⟨hruns', hu'⟩ := run_straight hstep hbehind (runStraight_putFalse ht _ symbol)
    refine ⟨_, _, runFor_trans hruns (runFor_trans (runFor_one hjump) hruns'), ?_, ?_⟩
    · rw [hu', hend]
      show _ + 1 + 3 = _
      rw [hu]
    · show Ram.write _ _ (truth false) = s.ram.drop.write top (truth _)
      rw [hsp, Ram.write_write, Bool.eq_false_iff.mpr htaken]

end

/-! ## §5. From fragment to fragment. -/

/-- From a state the CPU gets to the fragment of the next command, with its memory but
for the scratch.  It takes no step only where the next command is the one behind. -/
def LeadsTo (l : Lowered) (asm : Assembly) (s : Cpu) (index : Nat) (t : StackState) : Prop :=
  ∃ k u, runFor (Cpu.step asm.words) k s = some u ∧ u.pc = romOf l.fragments t.index
    ∧ Agree t.ram u.ram ∧ (k = 0 → t.index = index + 1)

section
variable {file : String} {l : Lowered} {asm : Assembly} (h : Installed file l asm)
  {i : Nat} {f : Fragment} (hf : l.fragments[i]? = some f)
  {s : Cpu} (hpc : s.pc = romOf l.fragments i)
include h

/-- A value of the table is loaded as it is. -/
theorem toNat_of_lookup {name : String} {v : Nat} (hv : asm.table.lookup name = some v) :
    (BitVec.ofNat 16 v).toNat = v := toNat_ofNat_of_le (h.small name v hv)

include hf hpc

/-- A fragment without a jump leads to the one behind it. -/
theorem leadsTo_straight {u : Cpu} (hrun : runStraight asm.table f.code s = some u) {m : Ram}
    (hm : Agree m u.ram) : LeadsTo l asm s i ⟨i + 1, m⟩ := by
  have hplaced := hpc ▸ h.placed i f hf
  obtain ⟨hruns, hu⟩ := run_straight h.step hplaced hrun
  refine ⟨_, u, hruns, ?_, hm, fun _ => rfl⟩
  show u.pc = romOf l.fragments (i + 1)
  rw [hu, hpc, romOf_succ hf]

/-- A fragment that ends in a jump leads to where A points. -/
theorem leadsTo_goNow {code more : List Instruction} (hcode : f.code = code ++ goNow :: more)
    {u : Cpu} (hrun : runStraight asm.table code s = some u) {j : Nat}
    (hj : u.a.toNat = romOf l.fragments j) {m : Ram} (hm : Agree m u.ram) :
    LeadsTo l asm s i ⟨j, m⟩ := by
  have hplaced := hpc ▸ h.placed i f hf
  rw [hcode] at hplaced
  exact ⟨_, _, run_goNow h.step hplaced hrun, hj, hm, fun hzero => by omega⟩

/-- A comparison leads to the fragment behind it, whatever its outcome. -/
theorem leadsTo_compare {jump : Jump} {symbol : String}
    (hcode : f.code = compareCode jump symbol)
    (hsymbol : asm.table.lookup symbol = some (romOf l.fragments (i + 1)))
    (htop : s.ram Reg.sp - 2#16 ≠ Reg.sp) :
    LeadsTo l asm s i ⟨i + 1,
      (Operator.binary fun x y => truth (jumpTaken jump.bits (x - y))).apply s.ram⟩ := by
  have hplaced := hpc ▸ h.placed i f hf
  have hend : romOf l.fragments (i + 1) = s.pc + romSize (compareCode jump symbol) := by
    rw [romOf_succ hf, hcode, hpc]
  rw [hcode] at hplaced
  obtain ⟨k, u, hruns, hu, hram⟩ := run_compare h.step h.platform hplaced (hend ▸ hsymbol)
    (hend ▸ h.small symbol _ hsymbol) htop
  exact ⟨k, u, hruns, hu.trans hend.symm, hram ▸ Agree.refl _, fun _ => rfl⟩

end

end HackPlatform.Vm
